import Mathlib.Data.List.Induction
import Mathlib.Logic.Function.Basic

/-!
# A file system tree

Directories, regular files and symbolic links at canonical paths.  A canonical path is the list
of names from the root.  A regular file is a name for an inode, and several names may share one.

`Fs` carries its well-formedness: the root is a directory and everything else stands in a
directory.  There are four ways to change the tree, each with a lemma that says what is where
afterwards: `insert`, `remove`, `clear` and `chmodDir`.
-/

namespace Vfs

open List

variable {N : Type}

/-! ## Paths -/

inductive Comp (N : Type)
  | normal (name : N)
  | parentDir
  | curDir
  deriving DecidableEq

/-- What a path has behind its last component. -/
inductive Trail
  | bare
  | slash
  | dot
  deriving DecidableEq

/-- Behind a dot a slash makes no difference. -/
def Trail.slashed : Trail → Trail
  | .dot => .dot
  | _ => .slash

theorem Trail.slashed_ne (t : Trail) : t.slashed ≠ .bare := by
  cases t <;> decide

/-- A path as it is written. -/
structure Path (N : Type) where
  abs : Bool
  comps : List (Comp N)
  trail : Trail
  deriving DecidableEq

namespace Path

/-- The path without its last component; a trailing slash or dot does not count as one. -/
def parent (p : Path N) : Option (Path N) :=
  if p.comps.isEmpty then none else some ⟨p.abs, p.comps.dropLast, .bare⟩

/-- What resolving the path goes through: a slash at the end asks for a directory. -/
def segs (p : Path N) : List (Comp N) := p.comps ++ if p.trail = .bare then [] else [.curDir]

/-- Where resolving the path starts. -/
def start (p : Path N) (cwd : List N) : List N := if p.abs then [] else cwd

/-- The path without a slash behind its last component. -/
def unslashed (p : Path N) : Path N := { p with trail := if p.trail = .dot then .dot else .bare }

/-- Does the path end in a name? -/
def named (p : Path N) : Bool :=
  match p.unslashed.segs.getLast? with
  | some (.normal _) => true
  | _ => false

/-- The path with one more name. -/
def child (p : Path N) (name : N) : Path N := ⟨p.abs, p.comps ++ [.normal name], .bare⟩

@[simp] theorem segs_child (p : Path N) (name : N) :
    (p.child name).segs = p.comps ++ [.normal name] := append_nil _

theorem segs_of_trail {p : Path N} (h : p.trail ≠ .bare) : p.segs = p.comps ++ [.curDir] :=
  congrArg (p.comps ++ ·) (if_neg h)

theorem parent_child (p : Path N) (name : N) :
    (p.child name).parent = some ⟨p.abs, p.comps, .bare⟩ := by
  simp [parent, child]

theorem unslashed_child (p : Path N) (name : N) : (p.child name).unslashed = p.child name := rfl

theorem named_child (p : Path N) (name : N) : (p.child name).named = true := by
  simp [named, unslashed_child]

theorem exists_child_of_named {p : Path N} (h : p.named = true) :
    ∃ q n, p.unslashed = child q n := by
  obtain ⟨abs, comps, trail⟩ := p
  rcases eq_nil_or_concat comps with rfl | ⟨xs, x, rfl⟩
  · cases trail <;> cases h
  · cases trail with
    | dot => simp [named, unslashed, segs] at h
    | bare | slash =>
      cases x with
      | normal n => exact ⟨⟨abs, xs, .bare⟩, n, by simp [unslashed, child]⟩
      | curDir | parentDir => simp [named, unslashed, segs] at h

end Path

/-- No name is above itself. -/
theorem not_inside_above (c : List N) (n : N) : ¬ c ++ [n] <+: c := fun h => by
  have hle := h.length_le
  simp only [length_append, length_singleton] at hle
  omega

/-- What is at or below a name is strictly below everything above that name. -/
theorem below_of_child {root names q : List N} {n : N} (hq : root ++ names ++ [n] <+: q) :
    root <+: q ∧ root ≠ q := by
  refine ⟨((prefix_append _ _).trans (prefix_append _ _)).trans hq, ?_⟩
  rintro rfl
  exact not_inside_above _ n (hq.trans (prefix_append _ names))

/-! ## Objects -/

inductive Obj (N : Type)
  | dir (mode : ℕ)
  | file (ino : ℕ)
  | symlink (target : Path N)
  deriving DecidableEq

def Obj.isDir : Obj N → Bool
  | .dir _ => true
  | _ => false

def Obj.isFile : Obj N → Bool
  | .file _ => true
  | _ => false

def Obj.ino : Obj N → ℕ
  | .file ino => ino
  | _ => 0

structure Inode where
  mode : ℕ
  data : List UInt8
  deriving DecidableEq

variable [DecidableEq N]

/-- The first object listed at a path. -/
def lookup (objs : List (List N × Obj N)) (q : List N) : Option (Obj N) :=
  (objs.find? fun e => e.1 == q).map Prod.snd

theorem lookup_cons (e : List N × Obj N) (objs : List (List N × Obj N)) (q : List N) :
    lookup (e :: objs) q = if e.1 = q then some e.2 else lookup objs q := by
  by_cases h : e.1 = q
  · rw [if_pos h, lookup, find?_cons_of_pos (by simpa using h)]
    rfl
  · rw [if_neg h, lookup, find?_cons_of_neg (by simpa using h), ← lookup]

theorem lookup_filter (keep : List N → Bool) (objs : List (List N × Obj N)) (q : List N) :
    lookup (objs.filter fun e => keep e.1) q = if keep q then lookup objs q else none := by
  induction objs with
  | nil => simp [lookup]
  | cons e objs ih =>
    by_cases hkeep : keep e.1 = true
    · rw [filter_cons_of_pos (by simpa using hkeep), lookup_cons, lookup_cons, ih]
      by_cases heq : e.1 = q
      · rw [if_pos heq, if_pos heq, if_pos (heq ▸ hkeep)]
      · rw [if_neg heq, if_neg heq]
    · rw [filter_cons_of_neg (by simpa using hkeep), ih, lookup_cons]
      by_cases heq : e.1 = q
      · rw [if_neg (heq ▸ hkeep), if_neg (heq ▸ hkeep)]
      · rw [if_neg heq]

theorem lookup_map (f : List N → Obj N → Obj N) (objs : List (List N × Obj N)) (q : List N) :
    lookup (objs.map fun e => (e.1, f e.1 e.2)) q = (lookup objs q).map (f q) := by
  induction objs with
  | nil => rfl
  | cons e objs ih =>
    rw [map_cons, lookup_cons, lookup_cons, ih]
    by_cases heq : e.1 = q
    · rw [if_pos heq, if_pos heq, heq]
      rfl
    · rw [if_neg heq, if_neg heq]

/-! ## The tree -/

/-- A file system, with the working directory and the file mode mask of the process. -/
structure Fs (N : Type) [DecidableEq N] where
  objs : List (List N × Obj N)
  inodes : ℕ → Inode
  cwd : List N
  umask : ℕ
  root_dir : ∃ m, lookup objs [] = some (.dir m)
  tree : ∀ q n o, lookup objs (q ++ [n]) = some o → ∃ m, lookup objs q = some (.dir m)

namespace Fs

/-- A file system with nothing in it. -/
def init (mode : ℕ) (cwd : List N) (umask : ℕ) : Fs N where
  objs := [([], .dir mode)]
  inodes := fun _ => ⟨0, []⟩
  cwd := cwd
  umask := umask
  root_dir := ⟨mode, rfl⟩
  tree := fun q n o h => by
    rw [lookup_cons, if_neg (by simp)] at h
    cases h

variable (fs : Fs N)

/-- The object at a canonical path. -/
def get (q : List N) : Option (Obj N) := lookup fs.objs q

def IsDir (q : List N) : Prop := ∃ m, fs.get q = some (.dir m)

instance (q : List N) : Decidable (fs.IsDir q) :=
  decidable_of_iff ((fs.get q).any Obj.isDir = true) <| by
    unfold IsDir
    cases fs.get q with
    | none => simp
    | some o => cases o <;> simp [Obj.isDir]

variable {q : List N} {o : Obj N}

variable {fs} in
/-- Nothing stands in what is not a directory. -/
theorem get_child_of_not_isDir (h : ¬ fs.IsDir q) (n : N) :
    fs.get (q ++ [n]) = none := by
  cases hget : fs.get (q ++ [n]) with
  | none => rfl
  | some o => exact absurd (fs.tree q n o hget) h

variable {fs} in
theorem get_child_of_none (h : fs.get q = none) (n : N) : fs.get (q ++ [n]) = none :=
  get_child_of_not_isDir (fun ⟨m, hm⟩ => by rw [h] at hm; cases hm) n

variable {fs} in
theorem get_child_of_file {ino : ℕ} (h : fs.get q = some (.file ino)) (n : N) :
    fs.get (q ++ [n]) = none :=
  get_child_of_not_isDir (fun ⟨m, hm⟩ => by rw [h] at hm; cases hm) n

variable {fs} in
/-- Whatever has something below it is a directory. -/
theorem isDir_of_below {p : List N} (h : p <+: q) (hne : p ≠ q)
    (hget : fs.get q = some o) : fs.IsDir p := by
  obtain ⟨t, rfl⟩ := h
  induction t using reverseRecOn generalizing o with
  | nil => exact absurd (append_nil p).symm hne
  | append_singleton t n ih =>
    rw [← append_assoc] at hget
    obtain ⟨m, hm⟩ := fs.tree (p ++ t) n o hget
    by_cases ht : t = []
    · subst ht
      rw [append_nil] at hm
      exact ⟨m, hm⟩
    · exact ih (fun heq => ht (by simpa using heq)) hm

variable {fs} in
theorem get_below_of_none {p : List N} (h : p <+: q) (hget : fs.get p = none) :
    fs.get q = none := by
  cases hq : fs.get q with
  | none => rfl
  | some o =>
    by_cases heq : p = q
    · rw [← heq, hget] at hq
      cases hq
    · obtain ⟨m, hm⟩ := isDir_of_below h heq hq
      rw [hget] at hm
      cases hm

/-- A new object in a directory. -/
def addNew (c : List N) (n : N) (o : Obj N) (hdir : fs.IsDir c)
    (hnew : fs.get (c ++ [n]) = none) : Fs N where
  objs := (c ++ [n], o) :: fs.objs
  inodes := fs.inodes
  cwd := fs.cwd
  umask := fs.umask
  root_dir := by
    obtain ⟨m, hm⟩ := fs.root_dir
    exact ⟨m, by rw [lookup_cons, if_neg (by simp), hm]⟩
  tree := by
    intro q k o' h
    rw [lookup_cons] at h
    obtain ⟨m, hm⟩ : fs.IsDir q := by
      split_ifs at h with heq
      · obtain ⟨rfl, -⟩ := List.append_inj' heq rfl
        exact hdir
      · exact fs.tree q k o' h
    have hne : c ++ [n] ≠ q := fun heq => by
      rw [← heq, hnew] at hm
      cases hm
    exact ⟨m, by rw [lookup_cons, if_neg hne]; exact hm⟩

/-- Add an object where a directory has room for it. -/
def insert (c : List N) (n : N) (o : Obj N) : Fs N :=
  if h : fs.IsDir c ∧ fs.get (c ++ [n]) = none then fs.addNew c n o h.1 h.2 else fs

/-- What is kept goes on standing in a directory that is kept. -/
def retain (keep : List N → Bool) (hroot : keep [] = true)
    (hup : ∀ p n, keep (p ++ [n]) = true → keep p = true) : Fs N where
  objs := fs.objs.filter fun e => keep e.1
  inodes := fs.inodes
  cwd := fs.cwd
  umask := fs.umask
  root_dir := by
    obtain ⟨m, hm⟩ := fs.root_dir
    exact ⟨m, by rw [lookup_filter keep, if_pos hroot, hm]⟩
  tree := by
    intro p n o h
    rw [lookup_filter keep] at h
    split_ifs at h with hkeep
    obtain ⟨m, hm⟩ := fs.tree p n o h
    exact ⟨m, by rw [lookup_filter keep, if_pos (hup p n hkeep), hm]⟩

/-- Everything at and below a path goes; the root of the tree stays. -/
def remove (q : List N) : Fs N :=
  fs.retain (fun p => decide (p = [] ∨ ¬ q <+: p)) (by simp) fun p n h => by
    have hout : ¬ q <+: p ++ [n] := by simpa using h
    exact decide_eq_true (.inr fun hpre => hout (hpre.trans (prefix_append p [n])))

/-- Everything below a path goes. -/
def clear (q : List N) : Fs N :=
  fs.retain (fun p => decide (p = q ∨ ¬ q <+: p))
    (decide_eq_true ((eq_or_ne [] q).imp_right fun hne hpre => hne (prefix_nil.1 hpre).symm))
    fun p n h => by
      refine decide_eq_true (.inr fun hpre => ?_)
      rcases of_decide_eq_true h with rfl | hout
      · exact not_inside_above p n hpre
      · exact hout (hpre.trans (prefix_append p [n]))

/-- A new mode for a directory. -/
def chmodDir (q : List N) (mode : ℕ) : Fs N where
  objs := fs.objs.map fun e =>
    (e.1, if e.1 = q ∧ e.2.isDir = true then .dir mode else e.2)
  inodes := fs.inodes
  cwd := fs.cwd
  umask := fs.umask
  root_dir := by
    obtain ⟨m, hm⟩ := fs.root_dir
    rw [lookup_map fun p o => if p = q ∧ o.isDir = true then .dir mode else o, hm]
    by_cases h : [] = q
    · exact ⟨mode, by simp [h, Obj.isDir]⟩
    · exact ⟨m, by simp [h]⟩
  tree := by
    intro p n o h
    rw [lookup_map fun p o => if p = q ∧ o.isDir = true then .dir mode else o] at h
    obtain ⟨o', ho', -⟩ := Option.map_eq_some_iff.1 h
    obtain ⟨m, hm⟩ := fs.tree p n o' ho'
    rw [lookup_map fun p o => if p = q ∧ o.isDir = true then .dir mode else o, hm]
    by_cases h : p = q
    · exact ⟨mode, by simp [h, Obj.isDir]⟩
    · exact ⟨m, by simp [h]⟩

/-- New data for an inode. -/
def setInode (ino : ℕ) (i : Inode) : Fs N :=
  { fs with inodes := Function.update fs.inodes ino i }

section Get

variable {fs} {c q p : List N} {n : N} {o : Obj N}

theorem get_addNew {hdir : fs.IsDir c} {hnew : fs.get (c ++ [n]) = none} (q : List N) :
    (fs.addNew c n o hdir hnew).get q = if c ++ [n] = q then some o else fs.get q := lookup_cons ..

theorem get_insert (hdir : fs.IsDir c) (hnew : fs.get (c ++ [n]) = none) (q : List N) :
    (fs.insert c n o).get q = if c ++ [n] = q then some o else fs.get q := by
  rw [insert, dif_pos ⟨hdir, hnew⟩]
  exact get_addNew q

@[simp] theorem cwd_insert : (fs.insert c n o).cwd = fs.cwd := by
  unfold insert
  split_ifs <;> rfl

@[simp] theorem inodes_insert : (fs.insert c n o).inodes = fs.inodes := by
  unfold insert
  split_ifs <;> rfl

@[simp] theorem umask_insert : (fs.insert c n o).umask = fs.umask := by
  unfold insert
  split_ifs <;> rfl

/-- Adding an object changes nothing else. -/
theorem get_insert_of_ne (h : c ++ [n] ≠ q) : (fs.insert c n o).get q = fs.get q := by
  unfold insert
  split_ifs with hroom
  · rw [get_addNew, if_neg h]
  · rfl

theorem get_insert_of_some {o' : Obj N} (h : fs.get q = some o') :
    (fs.insert c n o).get q = some o' := by
  unfold insert
  split_ifs with hroom
  · have hne : c ++ [n] ≠ q := fun heq => by
      rw [heq, h] at hroom
      cases hroom.2
    rw [get_addNew, if_neg hne, h]
  · exact h

theorem get_remove (q p : List N) :
    (fs.remove q).get p = if p = [] ∨ ¬ q <+: p then fs.get p else none := by
  have h := lookup_filter (fun p => decide (p = [] ∨ ¬ q <+: p)) fs.objs p
  exact h.trans (if_congr decide_eq_true_iff rfl rfl)

theorem get_clear (q p : List N) :
    (fs.clear q).get p = if p = q ∨ ¬ q <+: p then fs.get p else none := by
  have h := lookup_filter (fun p => decide (p = q ∨ ¬ q <+: p)) fs.objs p
  exact h.trans (if_congr decide_eq_true_iff rfl rfl)

theorem get_of_get_clear (h : (fs.clear q).get p = some o) : fs.get p = some o := by
  rw [get_clear] at h
  split_ifs at h
  exact h

/-- What is removed need not be cleared first. -/
theorem remove_clear (q : List N) : (fs.clear q).remove q = fs.remove q := by
  have hkeep : ∀ p : List N, (p = [] ∨ ¬ q <+: p) ∧ (p = q ∨ ¬ q <+: p) ↔ p = [] ∨ ¬ q <+: p := by
    intro p
    refine and_iff_left_of_imp fun h => ?_
    rcases h with rfl | hout
    · exact (eq_or_ne [] q).imp_right fun hne hpre => hne (prefix_nil.1 hpre).symm
    · exact .inr hout
  simp only [remove, clear, retain, filter_filter, ← Bool.decide_and, hkeep]

theorem get_of_get_remove (h : (fs.remove q).get p = some o) : fs.get p = some o := by
  rw [get_remove] at h
  split_ifs at h
  exact h

theorem get_chmodDir {mode : ℕ} (p : List N) :
    (fs.chmodDir q mode).get p =
      (fs.get p).map fun o => if p = q ∧ o.isDir = true then .dir mode else o :=
  lookup_map (fun p o => if p = q ∧ o.isDir = true then .dir mode else o) fs.objs p

end Get

/-! ## Inodes and directory listings -/

/-- An inode number that no name uses. -/
def fresh : ℕ := (fs.objs.map fun e => Obj.ino e.2).foldr max 0 + 1

theorem lookup_mem {objs : List (List N × Obj N)} (h : lookup objs q = some o) : (q, o) ∈ objs := by
  obtain ⟨e, he, rfl⟩ := Option.map_eq_some_iff.1 h
  have hkey : e.1 = q := by simpa using find?_some he
  rw [← hkey]
  exact mem_of_find?_eq_some he

theorem le_foldr_max {l : List ℕ} {x : ℕ} (h : x ∈ l) : x ≤ l.foldr max 0 := by
  induction l with
  | nil => cases h
  | cons y l ih =>
    rcases mem_cons.1 h with rfl | h
    · exact Nat.le_max_left _ _
    · exact Nat.le_trans (ih h) (Nat.le_max_right _ _)

theorem get_ne_fresh (q : List N) : fs.get q ≠ some (.file fs.fresh) := by
  intro h
  have hmem := mem_map_of_mem (f := fun e => Obj.ino e.2) (lookup_mem h)
  have hle := le_foldr_max hmem
  exact absurd hle (Nat.not_le.2 (Nat.lt_succ_self _))

/-- What stands at a canonical path, with its contents. -/
inductive Node (N : Type)
  | dir (mode : ℕ)
  | file (mode : ℕ) (data : List UInt8)
  | symlink (target : Path N)
  deriving DecidableEq

/-- What an object shows of itself. -/
def Node.ofObj (inodes : ℕ → Inode) : Obj N → Node N
  | .dir mode => .dir mode
  | .file ino => .file (inodes ino).mode (inodes ino).data
  | .symlink target => .symlink target

def Node.isDir : Node N → Bool
  | .dir _ => true
  | _ => false

def node (q : List N) : Option (Node N) := (fs.get q).map (Node.ofObj fs.inodes)

/-- The names in a directory. -/
def children (c : List N) : List N :=
  fs.objs.filterMap fun e => if e.1.dropLast = c then e.1.getLast? else none

theorem children_clear (c : List N) : (fs.clear c).children c = [] := by
  refine filterMap_eq_nil_iff.2 fun e he => ?_
  have hkeep : e.1 = c ∨ ¬ c <+: e.1 := of_decide_eq_true (mem_filter.1 he).2
  split_ifs with hc
  · have hpre : c <+: e.1 := hc ▸ dropLast_prefix e.1
    obtain heq := hkeep.resolve_right fun hout => hout hpre
    -- only the root of the tree is its own parent
    rcases eq_nil_or_concat e.1 with hnil | ⟨xs, x, hx⟩
    · rw [hnil]
      rfl
    · rw [← heq, hx, concat_eq_append, dropLast_concat] at hc
      exact absurd (congrArg length hc) (by simp)
  · rfl

variable {fs} in
theorem mem_children {c : List N} {n : N} (h : fs.get (c ++ [n]) = some o) :
    n ∈ fs.children c :=
  mem_filterMap.2 ⟨(c ++ [n], o), lookup_mem h, by simp⟩

end Fs

end Vfs
