import Amber.Image.PlainTree
import Amber.Lib.Overlay

/-!
# A directory that shows a tree

`Shows` says what tree the destination of `flatten` is, in a host where there is no link in it and
every file in it has one name.  Each call of `flatten` on the host is an operation on the tree.

* `Shows.cut`, `Shows.dirsMade`, `Shows.change` — what is taken away, directories that are made, and
  a change at one path.
* `extractFile_free`, `extractDir_free` — a regular file and a directory are placed, unless a file
  stands where a directory is needed.
-/

namespace Amber.Image

open Vfs List Function Option
open Overlay (Op apply)

abbrev ImageTree := Overlay.Tree OsStr (Fs.Node OsStr)

/-- The directories that are made where layers have none. -/
def madeDir (fs : HostFs) : Fs.Node OsStr := .dir (fs.newMode 0o777)

/-- The destination shows `T`; there is no link in it, and every file has one name. -/
structure Shows (fs₀ : HostFs) (c : List OsStr) (n : OsStr) (fs : HostFs) (T : ImageTree) :
    Prop where
  plain : Plain fs₀ c n fs
  umask : fs.umask = fs₀.umask
  node : ∀ q, fs.node (c ++ [n] ++ q) = T q
  own : ∀ p q ino, c ++ [n] <+: p → fs.get p = some (.file ino) → fs.get q = some (.file ino) →
    q = p

namespace Shows

variable {fs₀ fs fs' : HostFs} {above : HostPath} {c names : List OsStr} {n m : OsStr}
  {T T' : ImageTree}

section

variable (h : Shows fs₀ c n fs T)

include h

theorem eq_none_iff (q : List OsStr) :
    T q = none ↔ fs.get (c ++ [n] ++ q) = none := by
  rw [← h.node, Fs.node, map_eq_none_iff]

/-- No file stands where the tree has nothing but directories. -/
theorem not_file {q : List OsStr} (hdir : ∀ x, T q = some x → x.isDir = true) (ino : ℕ) :
    fs.get (c ++ [n] ++ q) ≠ some (.file ino) := by
  intro hfile
  have hnode := h.node q
  rw [Fs.node, hfile] at hnode
  cases hdir _ hnode.symm

theorem not_blocked (hdir : ∀ a x, a <+: names → T a = some x → x.isDir = true) :
    ¬ Blocked fs (c ++ [n]) names := by
  rintro ⟨a, ino, hpre, hfile⟩
  exact h.not_file (fun x => hdir a x hpre) ino hfile

/-! ### Changes -/

theorem cut {gone : List OsStr → Prop} (hcut : Cut fs fs' gone)
    (hin : ∀ q, gone q → c ++ [n] <+: q ∧ c ++ [n] ≠ q)
    (hgone : ∀ q, gone (c ++ [n] ++ q) → T' q = none)
    (hkept : ∀ q, ¬ gone (c ++ [n] ++ q) → T' q = T q) : Shows fs₀ c n fs' T' := by
  have hfile : ∀ q ino, fs'.get q = some (.file ino) → fs.get q = some (.file ino) := by
    intro q ino hget
    by_cases hq : gone q
    · rw [hcut.get_gone q hq] at hget
      cases hget
    · rwa [hcut.get_kept q hq] at hget
  refine ⟨h.plain.cut hcut hin, hcut.umask.trans h.umask, fun q => ?_, fun p q ino hp hget hget' =>
    h.own p q ino hp (hfile p ino hget) (hfile q ino hget')⟩
  by_cases hq : gone (c ++ [n] ++ q)
  · rw [Fs.node, hcut.get_gone _ hq, hgone q hq]
    rfl
  · rw [Fs.node, hcut.get_kept _ hq, hcut.inodes, hkept q hq]
    exact h.node q

theorem dirsMade (hmade : DirsMade fs fs' (c ++ [n]) names) :
    Shows fs₀ c n fs' fun q => if q <+: names ∧ T q = none then some (madeDir fs₀) else T q := by
  have hfile : ∀ q ino, fs'.get q = some (.file ino) → fs.get q = some (.file ino) := by
    intro q ino hget
    rw [hmade.get] at hget
    split_ifs at hget
    · cases hget
    · exact hget
  have hmask : fs.newMode 0o777 = fs₀.newMode 0o777 := by
    rw [Fs.newMode, h.umask]
    rfl
  refine ⟨h.plain.dirsMade hmade, hmade.umask.trans h.umask, fun q => ?_,
    fun p q ino hp hget hget' => h.own p q ino hp (hfile p ino hget) (hfile q ino hget')⟩
  have hcond : (c ++ [n] <+: c ++ [n] ++ q ∧ c ++ [n] ++ q <+: c ++ [n] ++ names ∧
      fs.get (c ++ [n] ++ q) = none) ↔ q <+: names ∧ T q = none := by
    rw [prefix_append_right_inj, h.eq_none_iff]
    exact and_iff_right (prefix_append _ _)
  rw [Fs.node, hmade.get, hmade.inodes]
  simp only [hcond, hmask]
  split_ifs
  · rfl
  · exact h.node q

/-- A change at one path. -/
theorem change {x : Fs.Node OsStr}
    (hget : ∀ q, q ≠ c ++ [n] ++ names → fs'.get q = fs.get q)
    (hino : ∀ q ino, q ≠ c ++ [n] ++ names → fs.get q = some (.file ino) →
      fs'.inodes ino = fs.inodes ino)
    (hnode : fs'.node (c ++ [n] ++ names) = some x) (hlink : ∀ t, x ≠ .symlink t)
    (hroot : names = [] → x.isDir = true)
    (hown : ∀ q ino, fs'.get (c ++ [n] ++ names) = some (.file ino) →
      fs'.get q = some (.file ino) → q = c ++ [n] ++ names)
    (hcwd : fs'.cwd = fs.cwd) (humask : fs'.umask = fs.umask) :
    Shows fs₀ c n fs' (update T names (some x)) := by
  have hne : ∀ {q}, q ≠ names → c ++ [n] ++ q ≠ c ++ [n] ++ names :=
    fun hq heq => hq (append_cancel_left heq)
  refine ⟨⟨fun q hq => ?_, hcwd.trans h.plain.cwd, ?_, fun q t ht => ?_⟩, humask.trans h.umask,
    fun q => ?_, fun p q ino hp hp' hq' => ?_⟩
  · rw [hget q fun heq => hq (heq ▸ prefix_append _ _)]
    exact h.plain.outside q hq
  · by_cases hnil : names = []
    · rw [hnil, append_nil] at hnode
      obtain ⟨o, ho, rfl⟩ := map_eq_some_iff.1 hnode
      have hdir := hroot hnil
      cases o with
      | dir mode => exact ⟨mode, ho⟩
      | file ino => cases hdir
      | symlink t => cases hdir
    · obtain ⟨mode, hmode⟩ := h.plain.isDir
      exact ⟨mode, (hget _ (by simpa using hnil)).trans hmode⟩
  · by_cases heq : q = names
    · rw [Fs.node, ← heq, ht] at hnode
      exact hlink t (some.inj hnode).symm
    · rw [hget _ (hne heq)] at ht
      exact h.plain.nolink q t ht
  · by_cases heq : q = names
    · rw [heq, update_self, hnode]
    · rw [update_of_ne heq, ← h.node, Fs.node, Fs.node, hget _ (hne heq)]
      cases ho : fs.get (c ++ [n] ++ q) with
      | none => rfl
      | some o =>
        cases o with
        | dir mode => rfl
        | symlink t => rfl
        | file ino => simp [Fs.Node.ofObj, hino _ ino (hne heq) ho]
  · by_cases hpn : p = c ++ [n] ++ names
    · rw [hpn] at hp' ⊢
      exact hown q ino hp' hq'
    · by_cases hqn : q = c ++ [n] ++ names
      · rw [hqn] at hq' ⊢
        exact (hown p ino hq' hp').symm
      · rw [hget p hpn] at hp'
        rw [hget q hqn] at hq'
        exact h.own p q ino hp hp' hq'

/-- Another inode for a file inside: no other file has it. -/
theorem setInode {ino : ℕ}
    (hfile : fs.get (c ++ [n] ++ names) = some (.file ino)) (i : Inode) :
    Shows fs₀ c n (fs.setInode ino i) (update T names (some (.file i.mode i.data))) := by
  have hother : ∀ q j, q ≠ c ++ [n] ++ names → fs.get q = some (.file j) → j ≠ ino := by
    rintro q j hq hget rfl
    exact hq (h.own _ _ _ (prefix_append _ _) hfile hget)
  have hget : ∀ q, (fs.setInode ino i).get q = fs.get q := fun _ => rfl
  refine h.change (fun q _ => hget q)
    (fun q j hq hj => update_of_ne (hother q j hq hj) ..) ?_ nofun
    (fun hnil => ?_) (fun q j hj hq => h.own _ _ _ (prefix_append _ _) hj hq) rfl rfl
  · have hi : (fs.setInode ino i).inodes ino = i := update_self ..
    rw [Fs.node, hget, hfile]
    simp [Fs.Node.ofObj, hi]
  · obtain ⟨mode, hmode⟩ := h.plain.isDir
    rw [hnil, append_nil, hmode] at hfile
    cases hfile

theorem chmodDir (hdir : fs.IsDir (c ++ [n] ++ names)) (mode : ℕ) :
    Shows fs₀ c n (fs.chmodDir (c ++ [n] ++ names) mode)
      (update T names (some (.dir mode))) := by
  have hself : (fs.chmodDir (c ++ [n] ++ names) mode).get (c ++ [n] ++ names) =
      some (.dir mode) := by
    obtain ⟨mode', hmode'⟩ := hdir
    rw [Fs.get_chmodDir, hmode', map_some, if_pos ⟨rfl, rfl⟩]
  refine h.change (fun q hq => ?_) (fun _ _ _ _ => rfl) ?_ nofun (fun _ => rfl)
    (fun q ino hino => ?_) rfl rfl
  · simp only [Fs.get_chmodDir, hq, false_and, if_false, Option.map_id']
  · rw [Fs.node, hself]
    rfl
  · rw [hself] at hino
    cases hino

/-- A new, empty file. -/
theorem newFile (hdir : fs.IsDir (c ++ [n] ++ names))
    (hnone : fs.get (c ++ [n] ++ names ++ [m]) = none) (mode : ℕ) :
    Shows fs₀ c n (fs.newFile (c ++ [n] ++ names) m mode)
        (update T (names ++ [m]) (some (.file mode []))) ∧
      (fs.newFile (c ++ [n] ++ names) m mode).get (c ++ [n] ++ (names ++ [m])) =
        some (.file fs.fresh) ∧
      (fs.newFile (c ++ [n] ++ names) m mode).inodes fs.fresh = ⟨mode, []⟩ := by
  set fs' := fs.newFile (c ++ [n] ++ names) m mode
  have hdir' : (fs.setInode fs.fresh ⟨mode, []⟩).IsDir (c ++ [n] ++ names) := hdir
  have hget : ∀ q, fs'.get q =
      if c ++ [n] ++ names ++ [m] = q then some (.file fs.fresh) else fs.get q :=
    Fs.get_insert hdir' hnone
  have hinodes : fs'.inodes = update fs.inodes fs.fresh ⟨mode, []⟩ := Fs.inodes_insert
  have hself : fs'.get (c ++ [n] ++ (names ++ [m])) = some (.file fs.fresh) := by
    rw [hget, if_pos (append_assoc ..)]
  refine ⟨h.change (fun q hq => ?_) (fun q ino _ hino => ?_) ?_ nofun
    (fun hnil => by simp at hnil) (fun q ino hino hq => ?_) Fs.cwd_insert Fs.umask_insert, hself,
      by rw [hinodes, update_self]⟩
  · rw [hget, if_neg]
    rw [append_assoc]
    exact fun heq => hq heq.symm
  · rw [hinodes, update_of_ne]
    rintro rfl
    exact fs.get_ne_fresh q hino
  · rw [Fs.node, hself, hinodes]
    simp [Fs.Node.ofObj]
  · rw [hself] at hino
    cases hino
    rw [hget] at hq
    split_ifs at hq with heq
    · rw [← heq, append_assoc]
    · exact absurd hq (fs.get_ne_fresh q)

end

/-! ### The calls -/

section Calls

variable (hplaced : Placed fs₀ above c n) (h : Shows fs₀ c n fs T)

include hplaced h

/-- A new mode for what is there. -/
theorem setPermissions_dir (hdir : fs.IsDir (c ++ [n] ++ names)) (mode : ℕ) :
    Shows fs₀ c n (fs.setPermissions (under (above.child n) names) mode).1
      (update T names (some (.dir mode))) := by
  have hchmod := h.chmodDir hdir mode
  obtain ⟨mode', hmode'⟩ := hdir
  have hcan := h.plain.canonicalize_under hplaced names
  simp only [Fs.setPermissions, hcan, isSome_some, if_true, hmode']
  exact hchmod

theorem setPermissions_file {ino : ℕ} (hfile : fs.get (c ++ [n] ++ names) = some (.file ino))
    (mode : ℕ) :
    Shows fs₀ c n (fs.setPermissions (under (above.child n) names) mode).1
      (update T names (some (.file mode (fs.inodes ino).data))) := by
  have hcan := h.plain.canonicalize_under hplaced names
  simp only [Fs.setPermissions, hcan, isSome_some, if_true, hfile]
  exact h.setInode hfile { fs.inodes ino with mode }

/-- The way to a new file is made and cleared. -/
theorem prepare_free (hfree : ¬ Blocked fs (c ++ [n]) names) (m : OsStr) :
    ∃ fs', prepare fs ((under (above.child n) names).child m) = (fs', .ok ()) ∧
      (Shows fs₀ c n fs' fun q => if names ++ [m] <+: q then none
        else if q <+: names ∧ T q = none then some (madeDir fs₀) else T q) ∧
      fs'.IsDir (c ++ [n] ++ names) ∧ fs'.get (c ++ [n] ++ names ++ [m]) = none := by
  obtain ⟨fs₁, hmk, hmade⟩ := h.plain.createDirAll_free hplaced hfree
  have h₁ := h.dirsMade hmade
  obtain ⟨fs₂, hrm, hcut⟩ := h₁.plain.removeAny_cut hplaced names m
  have hdir₁ := h.plain.isDir_of_dirsMade hmade hfree
  refine ⟨fs₂, ?_, ?_, ?_, hcut.get_gone _ prefix_rfl⟩
  · rw [prepare_child, hmk]
    exact hrm
  · refine h₁.cut hcut (fun q hq => below_of_child hq) (fun q hq => ?_) fun q hq => ?_
    · rw [append_assoc, prefix_append_right_inj] at hq
      exact if_pos hq
    · rw [append_assoc, prefix_append_right_inj] at hq
      exact if_neg hq
  · exact hdir₁.imp fun mode hmode => (hcut.get_kept _ (not_inside_above _ m)).trans hmode

/-- A file with the contents of an entry. -/
theorem copyBody_fits {e : Entry} {ino budget : ℕ}
    (hfile : fs.get (c ++ [n] ++ names) = some (.file ino)) (hempty : (fs.inodes ino).data = [])
    (htorn : e.torn = false) (hfit : e.body.length ≤ budget)
    (hbudget : budget < 0xffffffffffffffff) :
    ∃ fs', copyBody fs e (under (above.child n) names) ino budget = (fs', .ok e.body.length) ∧
      Shows fs₀ c n fs' (update T names (some (.file e.modeOr e.body))) := by
  have htake : e.body.take (copyLimit budget) = e.body :=
    take_of_length_le (by unfold copyLimit; omega)
  have happend := h.setInode hfile
    { fs.inodes ino with data := (fs.inodes ino).data ++ e.body }
  have hdata : ((fs.append ino e.body).inodes ino).data = e.body := by
    simp [Fs.append, Fs.setInode, hempty]
  have hmode : Shows fs₀ c n
      ((fs.append ino e.body).setPermissions (under (above.child n) names) e.modeOr).1 _ :=
    setPermissions_file hplaced happend hfile e.modeOr
  rw [update_idem] at hmode
  refine ⟨((fs.append ino e.body).setPermissions (under (above.child n) names) e.modeOr).1, ?_, ?_⟩
  · unfold copyBody
    simp [htake, htorn, if_neg (Nat.not_lt.2 hfit : ¬ e.body.length > budget)]
  · rw [show (fs.setInode ino _).inodes ino = (fs.append ino e.body).inodes ino from rfl, hdata]
      at hmode
    exact hmode

end Calls

end Shows

/-! ## Entries -/

section Extract

variable {fs₀ fs : HostFs} {above : HostPath} {c names : List OsStr} {n m : OsStr} {T : ImageTree}
  {e : Entry}

/-- What is placed where no file is on the way. -/
theorem apply_put {made v : Fs.Node OsStr} {path : List OsStr}
    (hfree : ∀ a x, a <+: path → a ≠ path → T a = some x → x.isDir = true) (q : List OsStr) :
    apply Fs.Node.isDir made T (.put path v) q =
      if q = path then some v
      else if path <+: q then if v.isDir then T q else none
      else if q <+: path ∧ T q = none then some made else T q := by
  simp only [apply, Op.act]
  by_cases hq : q = path
  · rw [if_pos hq, if_pos hq]
  · refine if_congr Iff.rfl rfl ?_
    by_cases hpre : q <+: path
    · cases hx : T q with
      | none => simp [hpre]
      | some x => simp [hpre, hfree q x hpre hq hx]
    · simp [hpre]

/-- The parent of a path has the same ancestors. -/
theorem above_iff {q : List OsStr} : q <+: names ++ [m] ∧ q ≠ names ++ [m] ↔ q <+: names := by
  rw [prefix_concat_iff]
  constructor
  · rintro ⟨heq | hpre, hne⟩
    · exact absurd heq hne
    · exact hpre
  · intro hpre
    refine ⟨.inr hpre, ?_⟩
    rintro rfl
    exact not_inside_above _ m hpre

section Calls

variable (hplaced : Placed fs₀ above c n) (h : Shows fs₀ c n fs T)

include hplaced h

/-- **A regular file** is placed unless a file is on the way. -/
theorem extractFile_free (htorn : e.torn = false) {budget : ℕ} (hfit : e.body.length ≤ budget)
    (hbudget : budget < 0xffffffffffffffff)
    (hfree : (Op.put (names ++ [m]) (.file e.modeOr e.body)).Unblocked Fs.Node.isDir T) :
    ∃ fs', extractFile fs e (under (above.child n) (names ++ [m])) budget =
        (fs', .ok e.body.length) ∧
      Shows fs₀ c n fs' (apply Fs.Node.isDir (madeDir fs₀) T
        (.put (names ++ [m]) (.file e.modeOr e.body))) := by
  have hways := h.not_blocked fun a x hpre => hfree.1 a x (above_iff.2 hpre).1 (above_iff.2 hpre).2
  obtain ⟨fs₁, hprep, h₁, hdir, hnone⟩ := h.prepare_free hplaced hways m
  obtain ⟨h₂, hget, hino⟩ := h₁.newFile hdir hnone (fs₁.newMode 0o666)
  have hloc := h₁.plain.locate_of_isDir hplaced hdir
  have hcreate : fs₁.createFile ((under (above.child n) names).child m) =
      (fs₁.newFile (c ++ [n] ++ names) m (fs₁.newMode 0o666), .ok fs₁.fresh) := by
    rw [Fs.createFile, Fs.resolve_child_follow, hloc, Fs.finish_of_dir hdir, hnone]
    · rfl
    · intro d hd t ht
      obtain rfl : c ++ [n] ++ names = d := Walk.found.inj (hloc.symm.trans hd)
      rw [hnone] at ht
      cases ht
  obtain ⟨fs₃, hcopy, h₃⟩ := h₂.copyBody_fits hplaced hget (by rw [hino]) htorn hfit hbudget
  refine ⟨fs₃, ?_, ?_⟩
  · rw [under_concat] at hcopy ⊢
    rw [extractFile, hprep, orIo]
    simp only [hcreate, hcopy]
  · rw [update_idem] at h₃
    convert h₃ using 1
    funext q
    rw [apply_put hfree.1]
    by_cases hq : q = names ++ [m]
    · rw [if_pos hq, hq, update_self]
    · rw [if_neg hq, update_of_ne hq]
      have hup : q <+: names ++ [m] ↔ q <+: names :=
        ⟨fun hpre => above_iff.1 ⟨hpre, hq⟩, fun hpre => (above_iff.2 hpre).1⟩
      simp only [hup]
      rfl

/-- **A directory** is placed unless a file is on the way or in its place. -/
theorem extractDir_free
    (hfree : (Op.put (names ++ [m]) (.dir e.modeOr)).Unblocked Fs.Node.isDir T) :
    ∃ fs', extractDir fs e (under (above.child n) (names ++ [m])) = (fs', .ok 0) ∧
      Shows fs₀ c n fs' (apply Fs.Node.isDir (madeDir fs₀) T
        (.put (names ++ [m]) (.dir e.modeOr))) := by
  have hways : ¬ Blocked fs (c ++ [n]) (names ++ [m]) := by
    refine h.not_blocked fun a x hpre hx => ?_
    by_cases heq : a = names ++ [m]
    · exact hfree.2 rfl x (heq ▸ hx)
    · exact hfree.1 a x hpre heq hx
  obtain ⟨fs₁, hmk, hmade⟩ := h.plain.createDirAll_free hplaced hways
  have h₁ := h.dirsMade hmade
  have hdir := h.plain.isDir_of_dirsMade hmade hways
  refine ⟨(fs₁.setPermissions (under (above.child n) (names ++ [m])) e.modeOr).1, ?_, ?_⟩
  · rw [extractDir, hmk]
    rfl
  · have h₂ := h₁.setPermissions_dir hplaced hdir e.modeOr
    convert h₂ using 1
    funext q
    rw [apply_put hfree.1]
    by_cases hq : q = names ++ [m]
    · rw [if_pos hq, hq, update_self]
    · rw [if_neg hq, update_of_ne hq]
      by_cases hbelow : names ++ [m] <+: q
      · have hnot : ¬ q <+: names ++ [m] := fun hpre =>
          hq (List.IsPrefix.eq_of_length_le hpre hbelow.length_le)
        simp [hbelow, hnot, Fs.Node.isDir]
      · simp [hbelow]

end Calls

end Extract

end Amber.Image
