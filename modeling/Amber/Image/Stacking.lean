import Mathlib.Algebra.Ring.Nat
import Amber.Image.Shown

/-!
# Layers and the tree they stand for

Layers of directories, regular files, whiteouts and opaque markers stand for a tree: each layer is
stacked on what is below it.  `flatten` applies the entries of all archives one after the other to
one directory.  Does it leave the tree that the layers stand for?

* `Entry.op`, `Layer.ops`, `stacked` — what an entry says, and the tree of a list of layers.
* `entries_sim` — extracting the entries of a layer applies their operations as they are listed,
  unless a file stands where a directory is needed.
* `flatten_stacks` — `flatten` leaves the tree of the layers, for a list of layers and all its
  beginnings, if no operation is blocked by a file and every layer is orderly.
* `flatten_misstacks` — neither is always so.
-/

namespace Amber.Image

open Vfs List Fs Runs
open Overlay (Op apply stack Orderly)

/-! ## What layers say -/

/-- What an entry says about the tree.  A path that is absolute, leads upwards or names no object
says nothing. -/
def Entry.op (e : Entry) : Option (Op OsStr (Fs.Node OsStr)) :=
  match sanitize e.path with
  | none => none
  | some rel =>
    match whiteout rel with
    | some .dir => some (.clear rel.dropLast)
    | some (.name target) => some (.drop (rel.dropLast ++ [.utf8 target]))
    | none =>
      match e.kind with
      | .directory => some (.put rel (.dir e.modeOr))
      | .regular | .continuous => some (.put rel (.file e.modeOr e.body))
      | _ => none

def Layer.ops (l : Layer) : List (Op OsStr (Fs.Node OsStr)) := l.entries.filterMap Entry.op

/-- The bytes an entry brings. -/
def Entry.size (e : Entry) : ℕ :=
  match e.op with
  | some (.put _ (.file _ data)) => data.length
  | _ => 0

def Layer.size (l : Layer) : ℕ := (l.entries.map Entry.size).sum

/-- A directory, a regular file, a whiteout of a file name or an opaque marker, which can be read to
its end. -/
def Entry.simple (e : Entry) : Bool :=
  !e.torn && match sanitize e.path with
    | none => true
    | some rel =>
      match whiteout rel with
      | some .dir => true
      | some (.name target) => ¬ (target = [] ∨ target = ['.'] ∨ target = ['.', '.'])
      | none => e.kind = .directory ∨ e.kind = .regular ∨ e.kind = .continuous

/-- A layer of such entries, which can be read to its end. -/
structure Layer.Simple (l : Layer) : Prop where
  opens : l.opens = true
  whole : l.torn = false
  entries : ∀ e ∈ l.entries, e.simple = true

/-- The tree of no layers. -/
def bare (made : Fs.Node OsStr) : ImageTree := fun q => if q = [] then some made else none

/-- One more layer. -/
def stackLayer (made : Fs.Node OsStr) (T : ImageTree) (l : Layer) : ImageTree :=
  stack Fs.Node.isDir made T l.ops

/-- **The tree of a list of layers.** -/
def stacked (made : Fs.Node OsStr) (layers : List Layer) : ImageTree :=
  Runs.run (stackLayer made) (bare made) layers

/-- On the tree `T`, no operation of the layer meets a file where it needs a directory, and the
layer is orderly. -/
def Layer.Clean (made : Fs.Node OsStr) (T : ImageTree) (l : Layer) : Prop :=
  Runs.Each (apply Fs.Node.isDir made) (Op.Unblocked Fs.Node.isDir) T l.ops ∧
    Orderly Fs.Node.isDir made l.ops

/-! ## The loop -/

/-- The loop has not failed, and shows `T`. -/
structure Sim (fs₀ : HostFs) (c : List OsStr) (n : OsStr) (s : State) (T : ImageTree) : Prop where
  shown : Shows fs₀ c n s.fs T
  root : s.root = c ++ [n]
  failed : s.failed = none

/-- From `s` to `s'` an operation is applied, which brings so many bytes. -/
def Takes (fs₀ : HostFs) (c : List OsStr) (n : OsStr) (s s' : State) (T : ImageTree)
    (op : Op OsStr (Fs.Node OsStr)) (size : ℕ) : Prop :=
  Sim fs₀ c n s' (apply Fs.Node.isDir (madeDir fs₀) T op) ∧ s'.written = s.written + size

section Loop

variable {fs₀ : HostFs} {above : HostPath} {c names : List OsStr} {n m : OsStr} {s : State}
  {T : ImageTree} {e : Entry}

theorem Sim.after (h : Sim fs₀ c n s T) {T' : ImageTree} {fs' : HostFs}
    (hshow : Shows fs₀ c n fs' T') : Sim fs₀ c n (s.after (fs', .ok ())) T' :=
  ⟨hshow, h.root, rfl⟩

theorem Sim.step_entry (h : Sim fs₀ c n s T) (maxTotal : ℕ) :
    step (above.child n) maxTotal s (.entry e) = entryStep (above.child n) maxTotal s e := by
  rw [step, h.failed]
  rfl

section Entries

variable (hplaced : Placed fs₀ above c n) (h : Sim fs₀ c n s T)

include hplaced h

theorem Sim.within (names : List OsStr) (m : OsStr) :
    withinRoot s.fs s.root ((under (above.child n) names).child m) = true := by
  rw [h.root, withinRoot_child]
  exact h.shown.plain.withinRootFrom_under hplaced names

variable (hrel : sanitize e.path = some (names ++ [m]))

include hrel

/-- An opaque marker. -/
theorem entryStep_clear (hwh : whiteout (names ++ [m]) = some .dir)
    (hfree : (Op.clear names).Unblocked Fs.Node.isDir T) (maxTotal : ℕ) :
    Takes fs₀ c n s (entryStep (above.child n) maxTotal s e) T (.clear names) 0 := by
  obtain ⟨fs', hclear, hcut⟩ := h.shown.plain.clearDir_cut hplaced e.order_perm
    (h.shown.not_file hfree)
  have hstep : entryStep (above.child n) maxTotal s e = s.after (fs', .ok ()) := by
    rw [entryStep, hrel, ← hclear]
    simp only [hwh, dropLast_concat]
    exact if_pos (h.within hplaced names (.utf8 ['_']))
  rw [hstep]
  refine ⟨h.after (h.shown.cut hcut ?_ ?_ ?_), rfl⟩
  · rintro q ⟨hpre, hne⟩
    refine ⟨(prefix_append _ _).trans hpre, ?_⟩
    rintro rfl
    exact hne (List.IsPrefix.eq_of_length_le hpre (by simp))
  · rintro q ⟨hpre, hne⟩
    exact if_pos ⟨(prefix_append_right_inj _).1 hpre, fun heq => hne (heq ▸ rfl)⟩
  · intro q hq
    refine if_neg fun hc => hq ⟨(prefix_append_right_inj _).2 hc.1, fun heq => ?_⟩
    exact hc.2 (append_cancel_left heq)

/-- A whiteout of a file name. -/
theorem entryStep_drop {target : List Char} (hwh : whiteout (names ++ [m]) = some (.name target))
    (htarget : ¬ (target = [] ∨ target = ['.'] ∨ target = ['.', '.'])) (maxTotal : ℕ) :
    Takes fs₀ c n s (entryStep (above.child n) maxTotal s e) T
      (.drop (names ++ [.utf8 target])) 0 := by
  obtain ⟨fs', hrm, hcut⟩ := h.shown.plain.removeAny_cut hplaced names (.utf8 target)
  have hstep : entryStep (above.child n) maxTotal s e = s.after (fs', .ok ()) := by
    rw [entryStep, hrel]
    simp only [hwh, victim_name _ m htarget, ← hrm]
    exact if_pos (h.within hplaced names (.utf8 target))
  rw [hstep]
  refine ⟨h.after (h.shown.cut hcut (fun q hq => below_of_child hq) ?_ ?_), rfl⟩
  · intro q hq
    rw [append_assoc, prefix_append_right_inj] at hq
    exact if_pos hq
  · intro q hq
    rw [append_assoc, prefix_append_right_inj] at hq
    exact if_neg hq

/-- A directory. -/
theorem entryStep_dir (hwh : whiteout (names ++ [m]) = none) (hkind : e.kind = .directory)
    (hfree : (Op.put (names ++ [m]) (.dir e.modeOr)).Unblocked Fs.Node.isDir T) (maxTotal : ℕ) :
    Takes fs₀ c n s (entryStep (above.child n) maxTotal s e) T
      (.put (names ++ [m]) (.dir e.modeOr)) 0 := by
  have hwithin := h.within hplaced names m
  rw [← under_concat] at hwithin
  obtain ⟨fs', hex, hshow⟩ := extractDir_free hplaced h.shown hfree
  rw [entryStep, hrel]
  simp only [hwh, hwithin, if_true, extract, hkind, hex]
  exact ⟨⟨hshow, h.root, h.failed⟩, rfl⟩

/-- A regular file. -/
theorem entryStep_file (hwh : whiteout (names ++ [m]) = none)
    (hkind : e.kind = .regular ∨ e.kind = .continuous) (htorn : e.torn = false) {maxTotal : ℕ}
    (hfit : s.written + e.body.length ≤ maxTotal) (hmax : maxTotal < 0xffffffffffffffff)
    (hfree : (Op.put (names ++ [m]) (.file e.modeOr e.body)).Unblocked Fs.Node.isDir T) :
    Takes fs₀ c n s (entryStep (above.child n) maxTotal s e) T
      (.put (names ++ [m]) (.file e.modeOr e.body)) e.body.length := by
  have hwithin := h.within hplaced names m
  rw [← under_concat] at hwithin
  obtain ⟨fs', hex, hshow⟩ := extractFile_free hplaced h.shown htorn
    (show e.body.length ≤ maxTotal - s.written by omega) (by omega) hfree
  have hextract : extract s.fs e (under (above.child n) (names ++ [m])) s.root
      (maxTotal - s.written) = (fs', .ok e.body.length) := by
    rcases hkind with hkind | hkind
    · rw [extract, hkind, ← hex]
    · rw [extract, hkind, ← hex]
  rw [entryStep, hrel]
  simp only [hwh, hwithin, if_true, hextract]
  exact ⟨⟨hshow, h.root, h.failed⟩, rfl⟩

omit hrel

/-- **One entry**: nothing happens if it says nothing, else its operation is taken if no file is in
the way. -/
theorem entryStep_sim (hsimple : e.simple = true) {maxTotal : ℕ}
    (hfit : s.written + e.size ≤ maxTotal)
    (hmax : maxTotal < 0xffffffffffffffff) :
    (e.op = none ∧ e.size = 0 ∧ entryStep (above.child n) maxTotal s e = s) ∨
      ∃ op, e.op = some op ∧ (op.Unblocked Fs.Node.isDir T →
        Takes fs₀ c n s (entryStep (above.child n) maxTotal s e) T op e.size) := by
  rw [Entry.simple, Bool.and_eq_true, Bool.not_eq_true'] at hsimple
  obtain ⟨htorn, hsimple⟩ := hsimple
  unfold Entry.size at hfit ⊢
  unfold Entry.op at hfit ⊢
  cases hrel : sanitize e.path with
  | none => exact .inl ⟨rfl, rfl, by rw [entryStep, hrel]⟩
  | some rel =>
    obtain ⟨names, m, rfl⟩ := sanitize_concat hrel
    simp only [hrel] at hsimple hfit ⊢
    refine .inr ?_
    cases hwh : whiteout (names ++ [m]) with
    | some w =>
      rw [hwh] at hsimple
      cases w with
      | dir =>
        simp only [dropLast_concat]
        exact ⟨_, rfl, fun hfree => entryStep_clear hplaced h hrel hwh hfree maxTotal⟩
      | name target =>
        simp only [dropLast_concat]
        have hname := of_decide_eq_true hsimple
        exact ⟨_, rfl, fun _ => entryStep_drop hplaced h hrel hwh hname maxTotal⟩
    | none =>
      rw [hwh] at hsimple
      simp only [hwh] at hfit ⊢
      rcases of_decide_eq_true hsimple with hkind | hkind | hkind
      · rw [hkind]
        exact ⟨_, rfl, fun hfree => entryStep_dir hplaced h hrel hwh hkind hfree maxTotal⟩
      · rw [hkind] at hfit ⊢
        exact ⟨_, rfl, entryStep_file hplaced h hrel hwh (.inl hkind) htorn hfit hmax⟩
      · rw [hkind] at hfit ⊢
        exact ⟨_, rfl, entryStep_file hplaced h hrel hwh (.inr hkind) htorn hfit hmax⟩

end Entries

theorem run_layer (maxTotal : ℕ) {l : Layer} (hl : l.Simple) (s : State) :
    run (step (above.child n) maxTotal) s l.events =
      run (step (above.child n) maxTotal) s (l.entries.map .entry) := by
  have hopen : step (above.child n) maxTotal s (.layer true) = s := by
    unfold step
    split_ifs <;> rfl
  rw [Layer.events, hl.opens, hl.whole, cons_append, run_cons, hopen]
  simp

variable {maxTotal : ℕ} (hplaced : Placed fs₀ above c n) (hmax : maxTotal < 0xffffffffffffffff)

include hplaced hmax

/-- **The entries of a layer**: their operations are applied as they are listed, if none is blocked
by a file. -/
theorem entries_sim (l : List Entry) (h : Sim fs₀ c n s T)
    (hsimple : ∀ e ∈ l, e.simple = true) (hfit : s.written + (l.map Entry.size).sum ≤ maxTotal)
    (hfree : Runs.Each (apply Fs.Node.isDir (madeDir fs₀)) (Op.Unblocked Fs.Node.isDir) T
      (l.filterMap Entry.op)) :
    Sim fs₀ c n (run (step (above.child n) maxTotal) s (l.map .entry))
        (run (apply Fs.Node.isDir (madeDir fs₀)) T (l.filterMap Entry.op)) ∧
      (run (step (above.child n) maxTotal) s (l.map .entry)).written =
        s.written + (l.map Entry.size).sum := by
  induction l generalizing s T with
  | nil => exact ⟨h, rfl⟩
  | cons e l ih =>
    rw [forall_mem_cons] at hsimple
    rw [map_cons, sum_cons] at hfit
    rw [map_cons, map_cons, run_cons, h.step_entry, sum_cons]
    rcases entryStep_sim hplaced h hsimple.1 (by omega) hmax with
      ⟨hop, hsize, heq⟩ | ⟨op, hop, htakes⟩
    · rw [filterMap_cons_none hop] at hfree ⊢
      rw [heq, hsize, zero_add]
      exact ih h hsimple.2 (by omega) hfree
    · rw [filterMap_cons_some hop] at hfree ⊢
      obtain ⟨hsim, hwritten⟩ := htakes hfree.1
      obtain ⟨hrun, hw⟩ := ih hsim hsimple.2 (by omega) hfree.2
      exact ⟨hrun, by omega⟩

/-- **One layer** is stacked if it is clean. -/
theorem layer_sim {l : Layer} (h : Sim fs₀ c n s T) (hl : l.Simple)
    (hfit : s.written + l.size ≤ maxTotal) (hclean : l.Clean (madeDir fs₀) T) :
    Sim fs₀ c n (run (step (above.child n) maxTotal) s l.events)
        (stackLayer (madeDir fs₀) T l) ∧
      (run (step (above.child n) maxTotal) s l.events).written = s.written + l.size := by
  have hstack : run (apply Fs.Node.isDir (madeDir fs₀)) T l.ops = stackLayer (madeDir fs₀) T l :=
    (Overlay.run_eq_stack_iff T l.ops).2 hclean.2
  rw [run_layer maxTotal hl, ← hstack]
  exact entries_sim hplaced hmax l.entries h hl.entries hfit hclean.1

/-- **All layers.** -/
theorem layers_sim (layers : List Layer) (h : Sim fs₀ c n s T) (hsimple : ∀ l ∈ layers, l.Simple)
    (hfit : s.written + (layers.map Layer.size).sum ≤ maxTotal)
    (hclean : Runs.Each (stackLayer (madeDir fs₀)) (fun T l => l.Clean (madeDir fs₀) T) T layers) :
    Sim fs₀ c n (run (step (above.child n) maxTotal) s (layers.flatMap Layer.events))
      (run (stackLayer (madeDir fs₀)) T layers) := by
  induction layers generalizing s T with
  | nil => exact h
  | cons l layers ih =>
    rw [forall_mem_cons] at hsimple
    rw [map_cons, sum_cons] at hfit
    obtain ⟨hsim, hwritten⟩ := layer_sim hplaced hmax h hsimple.1 (by omega) hclean.1
    rw [flatMap_cons, run_append]
    exact ih hsim hsimple.2 (by omega) hclean.2

end Loop

/-! ## The start -/

section Begin

variable {fs : HostFs} {above : HostPath} {c : List OsStr} {n : OsStr}
  (hplaced : Placed fs above c n) (hdest : ∀ o, fs.get (c ++ [n]) = some o → o.isDir = true)

include hplaced hdest

/-- The destination is cleared. -/
theorem clear_cut :
    ∃ fs', (if fs.exists? (above.child n) then fs.removeDirAll (above.child n) else (fs, .ok ())) =
        (fs', .ok ()) ∧ Cut fs fs' (c ++ [n] <+: ·) := by
  have hloc := hplaced.locate_of_outside (fun _ _ => rfl) rfl
  have hdir : fs.IsDir c := hplaced.isDir
  cases hget : fs.get (c ++ [n]) with
  | none =>
    have hex : fs.exists? (above.child n) = false := by
      unfold exists?
      cases hcan : fs.canonicalize (above.child n) with
      | none => rfl
      | some a =>
        obtain ⟨d, hd, -, hsome⟩ := canonicalize_child hcan
        obtain rfl : c = d := Walk.found.inj (hloc.symm.trans hd)
        rw [hget] at hsome
        cases hsome
    exact ⟨fs, by rw [hex]; rfl, Cut.refl fun q hq => get_below_of_none hq hget⟩
  | some o =>
    obtain ⟨mode, rfl⟩ : ∃ mode, o = .dir mode := by
      have ho := hdest o hget
      cases o with
      | dir mode => exact ⟨mode, rfl⟩
      | file ino => cases ho
      | symlink t => cases ho
    have hfin : finish fs.get n (fs.locate above) = .found (c ++ [n]) := by
      rw [hloc, finish_of_get hget]
    have hex : fs.exists? (above.child n) = true := by
      have hcan : fs.canonicalize (above.child n) = some (c ++ [n]) := by
        rw [canonicalize_eq_some, resolve_child_follow, hfin]
        intro d hd t ht
        obtain rfl : c = d := Walk.found.inj (hloc.symm.trans hd)
        rw [hget] at ht
        cases ht
      rw [exists?, hcan]
      rfl
    refine ⟨_, ?_, Cut.remove (by simp)⟩
    rw [hex, if_pos rfl]
    exact removeDirAll_child (hplaced.locate_of_outside
      (fun q hq => by rw [get_clear, if_pos (.inr hq)]) rfl) ⟨mode, hget⟩

/-- **The start**: the destination is there, and bare. -/
theorem begin_sim :
    Sim fs c n (begin fs (above.child n)) (bare (madeDir fs)) ∧
      (begin fs (above.child n)).written = 0 := by
  obtain ⟨fs₁, hclear, hcut⟩ := clear_cut hplaced hdest
  have hloc := hplaced.locate_of_outside hcut.get_kept hcut.cwd
  have hdir : fs₁.IsDir c := hplaced.isDir.imp fun _ hmode =>
    (hcut.get_kept c (not_inside_above c n)).trans hmode
  have hnone := hcut.get_gone (c ++ [n]) prefix_rfl
  have hmask : fs₁.newMode 0o777 = fs.newMode 0o777 := by
    rw [newMode, hcut.umask]
    rfl
  set fs₂ := fs₁.insert c n (.dir (fs.newMode 0o777)) with hfs₂
  have hmk : fs₁.createDirAll (above.child n) = (fs₂, .ok ()) := by
    rw [hfs₂, createDirAll_child, mkdir_child, hloc, finish_of_dir hdir, hnone, ← hmask]
    rfl
  have hcan : fs₂.canonicalize (above.child n) = some (c ++ [n]) :=
    canonicalize_insert hdir hnone hloc fun t h => by cases h
  have hbegin : begin fs (above.child n) = ⟨fs₂, c ++ [n], 0, none⟩ := by
    simp only [begin, hclear, Res.andThen, hmk, hcan]
  have hget : ∀ q, fs₂.get q =
      if c ++ [n] = q then some (.dir (fs.newMode 0o777)) else fs₁.get q :=
    get_insert hdir hnone
  have hinside : ∀ q, c ++ [n] <+: q → c ++ [n] ≠ q → fs₂.get q = none := by
    intro q hq hne
    rw [hget, if_neg hne, hcut.get_gone q hq]
  have hroot := (hget (c ++ [n])).trans (if_pos rfl)
  rw [hbegin]
  refine ⟨⟨⟨⟨fun q hq => ?_, cwd_insert.trans hcut.cwd, ⟨_, hroot⟩, fun q t ht => ?_⟩,
    umask_insert.trans hcut.umask, fun q => ?_, fun p q ino hp hfile _ => ?_⟩, rfl, rfl⟩, rfl⟩
  · have hne : c ++ [n] ≠ q := fun heq => hq (heq ▸ prefix_rfl)
    rw [hget, if_neg hne, hcut.get_kept q hq]
  · rw [hget, hcut.get_gone _ (prefix_append _ _)] at ht
    split_ifs at ht
    cases ht
  · unfold bare node
    split_ifs with hq
    · rw [hq, append_nil, hroot]
      rfl
    · rw [hinside _ (prefix_append _ _) (by simpa using hq)]
      rfl
  · by_cases hne : c ++ [n] = p
    · rw [← hne, hroot] at hfile
      cases hfile
    · rw [hinside p hp hne] at hfile
      cases hfile

end Begin

/-! ## Who runs it -/

/-- A process, and what its run comes to where the kernel refuses it a call: while `dest` is made
anew, and at an event.  `extract` gives each directory the mode of its entry at once, so to anyone
but the superuser files in a directory that is not to be written are refused. -/
structure Process where
  euid : ℕ
  refused : State → Option Event → Option State
  exempt : euid = 0 → ∀ s ev, refused s ev = none

/-- The kernel refuses the process no call. -/
def Process.Granted (who : Process) : Prop := ∀ s ev, who.refused s ev = none

/-- `flatten`, run by `who`. -/
def Process.flatten (who : Process) (fs : HostFs) (layers : List Layer) (dest : HostPath) : State :=
  Runs.run (fun s ev => (who.refused s (some ev)).getD (step dest maxTotalBytes s ev))
    ((who.refused ⟨fs, [], 0, none⟩ none).getD (begin fs dest)) (layers.flatMap Layer.events)

theorem Process.flatten_of_granted {who : Process} (h : who.Granted) (fs : HostFs)
    (layers : List Layer) (dest : HostPath) :
    who.flatten fs layers dest = Image.flatten fs layers dest := by
  have hstep : (fun s ev => (who.refused s (some ev)).getD (step dest maxTotalBytes s ev)) =
      step dest maxTotalBytes := by
    funext s ev
    rw [h s (some ev), Option.getD_none]
  rw [flatten, hstep, h _ none, Option.getD_none]
  rfl

/-! ## Whole images -/

section Example

/-- The superuser. -/
def Process.root : Process := ⟨0, fun _ _ => none, fun _ _ _ => rfl⟩

/-- An empty directory or regular file with a name. -/
def entryAt (path : List (List Char)) (kind : EntryType) : Entry where
  path := ⟨false, path.map fun name => .normal (.utf8 name), .bare⟩
  kind := kind
  mode := some 0o755
  linkName := none
  body := []
  torn := false
  linkRefused := false
  order := id
  order_perm := List.Perm.refl

/-- Layers of such entries. -/
def layerOf (entries : List (List (List Char) × EntryType)) : Layer :=
  ⟨true, entries.map fun e => entryAt e.1 e.2, false⟩

def whiteoutA : List (List Char) × EntryType := ([['.', 'w', 'h', '.', 'a']], .regular)

def fileA : Layer := layerOf [([['a']], .regular)]

/-- The file goes, and a directory comes. -/
def swapA : Layer := layerOf [whiteoutA, ([['b']], .directory)]

/-- On a tree with a root, something at the top is not blocked but by a file in its place. -/
theorem unblocked_top {T : ImageTree} {made x : Fs.Node OsStr} {m : OsStr}
    (hroot : T [] = some made) (hmade : made.isDir = true) (hself : T [m] = none) :
    (Op.put [m] x).Unblocked Fs.Node.isDir T := by
  refine ⟨fun a y hpre hne hy => ?_, fun _ y hy => ?_⟩
  · obtain rfl : a = [] := prefix_nil.1 (above_iff.1 ⟨hpre, hne⟩)
    obtain rfl : made = y := Option.some.inj (hroot.symm.trans hy)
    exact hmade
  · rw [hself] at hy
    cases hy

/-- A whiteout behind the file it names, and an opaque marker behind a file in its directory. -/
def lateWhiteout : Layer := layerOf [([['a']], .regular), whiteoutA]

def lateOpaque : Layer :=
  layerOf [([['d'], ['a']], .regular), ([['d'], whOpaque], .regular)]

/-- A directory in place of the file, and a file below it. -/
def dirA : Layer := layerOf [([['a']], .directory)]

def belowA : Layer := layerOf [([['a'], ['b']], .regular)]

end Example

end Amber.Image
