import Amber.Image.Placement

/-!
# What flattening can touch

The guard speaks of the parent of a path.  What follows is how far this goes, from one entry to
whole images.

* `extract_confined` — an entry whose parent passes the guard, and which is not a directory that
  leads outside, changes nothing outside.
* `entryStep_contained`, `flatten_contained` — nothing outside changes as long as no directory
  entry and no whiteout of `.` or `..` names an object outside.
* `flatten_escapes` — both exceptions are real.
-/

namespace Amber.Image

open Vfs List Option Fs

/-! ## Entries -/

section Write

variable {fs₀ fs : HostFs} {root : List OsStr} {q : HostPath} {m : OsStr}

variable (hconf : Confined root fs₀ fs)

include hconf

theorem createFile_confined (hready : Ready root fs q m) :
    Confined root fs₀ (fs.createFile (q.child m)).1 ∧
      ∀ ino, (fs.createFile (q.child m)).2 = .ok ino →
        Confined.Private root (fs.createFile (q.child m)).1 ino ∧
        ∃ d, root <+: d ∧ (fs.createFile (q.child m)).1.canonicalize (q.child m) = some d ∧
          (fs.createFile (q.child m)).1.get d = some (.file ino) := by
  obtain ⟨hconf', hpriv⟩ := hconf.createFile (hready.not_found true)
    fun c k h => (hready.missing h).2.1
  refine ⟨hconf', fun ino hino => ⟨hpriv ino hino, ?_⟩⟩
  unfold createFile at hino ⊢
  cases hres : fs.resolve true (q.child m) with
  | found d => exact absurd hres (hready.not_found true d)
  | error e =>
    simp only [hres] at hino
    cases hino
  | missing d k =>
    obtain ⟨hloc, hin, hdir, rfl, hnone⟩ := hready.missing hres
    simp only [hres] at hino ⊢
    obtain rfl : fs.fresh = ino := by injection hino
    set fs₁ := fs.setInode fs.fresh ⟨fs.newMode 0o666, []⟩
    have hdir₁ : fs₁.IsDir d := hdir
    have hnone₁ : fs₁.get (d ++ [k]) = none := hnone
    have hloc₁ : fs₁.locate q = .found d := hloc
    refine ⟨d ++ [k], hin.trans (prefix_append d [k]), ?_, ?_⟩
    · exact canonicalize_insert hdir₁ hnone₁ hloc₁ nofun
    · exact (get_insert hdir₁ hnone₁ _).trans (if_pos rfl)

/-- A regular file is written to an inode of its own. -/
theorem setPermissions_created {ino : ℕ} {d : List OsStr} (hpriv : Confined.Private root fs ino)
    (hin : root <+: d) (hcan : fs.canonicalize q = some d) (hget : fs.get d = some (.file ino))
    (mode : ℕ) :
    Confined root fs₀ (fs.setPermissions q mode).1 := by
  refine hconf.setPermissions (fun b hb => ?_) (fun b j hb hj => ?_) mode
  · obtain rfl : d = b := some.inj (hcan.symm.trans hb)
    exact hin
  · obtain rfl : d = b := some.inj (hcan.symm.trans hb)
    rw [hget] at hj
    cases hj
    exact hpriv

theorem copyBody_confined {ino : ℕ} {d : List OsStr} (hpriv : Confined.Private root fs ino)
    (hin : root <+: d) (hcan : fs.canonicalize q = some d) (hget : fs.get d = some (.file ino))
    (e : Entry) (budget : ℕ) : Confined root fs₀ (copyBody fs e q ino budget).1 := by
  have happend : Confined root fs₀ (fs.append ino (e.body.take (copyLimit budget))) :=
    hconf.setInode hpriv _
  unfold copyBody
  simp only
  split_ifs
  · exact happend
  · exact happend
  · exact setPermissions_created happend hpriv hin hcan hget _

theorem linkOrCopy_confined (hready : Ready root fs q m) (refused : Bool) (src : HostPath) :
    Confined root fs₀ (linkOrCopy fs refused src (q.child m)) := by
  have hcopy : Confined root fs₀ (fs.copy src (q.child m)).1 :=
    hconf.copy src (hready.not_found true) fun c k h => (hready.missing h).2.1
  have hlink := hconf.hardLink src fun c k h => (hready.missing h).2.1
  unfold linkOrCopy
  cases refused with
  | true => exact hcopy
  | false =>
    simp only [Bool.false_eq_true, if_false]
    rcases hardLink_cases fs src (q.child m) with hok | ⟨f, hfail⟩
    · rw [hok]
      exact hlink
    · rw [hfail]
      exact hcopy

end Write

section Extract

variable {fs₀ fs : HostFs} {above : HostPath} {c : List OsStr} {n m : OsStr} {names : List OsStr}
  {next : HostFs → HostFs × Except FlattenError ℕ}

/-- If the path leads anywhere, it leads to `root` or below. -/
def Inside (fs : HostFs) (root : List OsStr) (p : HostPath) : Prop :=
  ∀ a, fs.canonicalize p = some a → root <+: a

theorem orIo_confined {root : List OsStr} {r : Res OsStr} (hr : Confined root fs₀ r.1)
    (hnext : r.2 = .ok () → Confined root fs₀ (next r.1).1) :
    Confined root fs₀ (orIo r next).1 := by
  obtain ⟨fs', res⟩ := r
  cases res with
  | error e => exact hr
  | ok u => exact hnext rfl

variable (hplaced : Placed fs₀ above c n) (hconf : Confined (c ++ [n]) fs₀ fs)
  (hwithin : withinRootFrom fs (c ++ [n]) (under (above.child n) names) = true)

include hplaced hconf hwithin

/-- A directory entry: the path itself passes the guard if it does not lead outside. -/
theorem extractDir_confined (e : Entry)
    (hsafe : Inside fs (c ++ [n]) (under (above.child n) (names ++ [m]))) :
    Confined (c ++ [n]) fs₀ (extractDir fs e (under (above.child n) (names ++ [m]))).1 := by
  have hself : withinRootFrom fs (c ++ [n]) (under (above.child n) (names ++ [m])) = true := by
    rw [under_concat, withinRootFrom_child, ← under_concat]
    cases hcan : fs.canonicalize (under (above.child n) (names ++ [m])) with
    | some a => exact decide_eq_true (hsafe a hcan)
    | none => exact hwithin
  obtain ⟨hconf₁, hmade⟩ := createDirAll_made hplaced hconf _ hself
  refine orIo_confined hconf₁ fun hok => ?_
  obtain ⟨a, hmade⟩ := hmade hok
  refine hconf₁.setPermissions (fun b hb => ?_) (fun b ino hb hfile => ?_) _
  · obtain rfl : a = b := some.inj (hmade.leads.symm.trans hb)
    exact hmade.inside
  · obtain rfl : a = b := some.inj (hmade.leads.symm.trans hb)
    obtain ⟨mode, hdir⟩ := hmade.isDir
    rw [hfile] at hdir
    cases hdir

/-- What is written once the way is clear. -/
theorem prepare_confined (hnext : ∀ fs', Confined (c ++ [n]) fs₀ fs' →
      Ready (c ++ [n]) fs' (under (above.child n) names) m → Confined (c ++ [n]) fs₀ (next fs').1) :
    Confined (c ++ [n]) fs₀ (orIo (prepare fs (under (above.child n) (names ++ [m]))) next).1 := by
  obtain ⟨hconf₁, hready⟩ := prepare_ready hplaced hconf hwithin m
  rw [under_concat]
  exact orIo_confined hconf₁ fun hok => hnext _ hconf₁ (hready hok)

/-- **Extraction stays inside** when the parent of the path passes the guard and the path of a
directory entry does not lead outside. -/
theorem extract_confined (e : Entry)
    (hsafe : e.kind = .directory → Inside fs (c ++ [n]) (under (above.child n) (names ++ [m])))
    (budget : ℕ) :
    Confined (c ++ [n]) fs₀
      (extract fs e (under (above.child n) (names ++ [m])) (c ++ [n]) budget).1 := by
  have hfile : Confined (c ++ [n]) fs₀
      (extractFile fs e (under (above.child n) (names ++ [m])) budget).1 := by
    refine prepare_confined hplaced hconf hwithin fun fs' hconf' hready => ?_
    rw [under_concat]
    obtain ⟨hconf₂, hino⟩ := createFile_confined hconf' hready
    cases hmk : fs'.createFile ((under (above.child n) names).child m) with
    | mk fs₂ res =>
      rw [hmk] at hconf₂ hino
      cases res with
      | error err => exact hconf₂
      | ok ino =>
        obtain ⟨hpriv, d, hin, hcan, hget⟩ := hino ino rfl
        exact copyBody_confined hconf₂ hpriv hin hcan hget e budget
  unfold extract
  cases hk : e.kind with
  | directory => exact extractDir_confined hplaced hconf hwithin e (hsafe hk)
  | regular | continuous => exact hfile
  | other => exact hconf
  | symlink =>
    simp only [extractSymlink]
    split
    · exact hconf
    · exact hconf
    · rename_i target _
      refine prepare_confined hplaced hconf hwithin fun fs' hconf' hready => ?_
      rw [under_concat]
      have hlink := hconf'.symlink target fun c k h => (hready.missing h).2.1
      exact orIo_confined hlink fun _ => hlink
  | link =>
    simp only [extractLink]
    split
    · exact hconf
    · exact hconf
    · split
      · exact hconf
      · split_ifs
        · refine prepare_confined hplaced hconf hwithin fun fs' hconf' hready => ?_
          rw [under_concat]
          exact linkOrCopy_confined hconf' hready _ _
        · exact hconf

end Extract

/-! ## The loop -/

/-- What an entry must not do: name a directory outside, by a directory entry at a link or by a
whiteout of the directory it stands in or of the one above. -/
def Entry.Safe (dest : HostPath) (root : List OsStr) (fs : HostFs) (e : Entry) : Prop :=
  ∀ rel, sanitize e.path = some rel →
    match whiteout rel with
    | some .dir => True
    | some (.name target) =>
      target = [] ∨ target = ['.'] ∨ target = ['.', '.'] → Inside fs root (victim dest rel target)
    | none => e.kind = .directory → Inside fs root (under dest rel)

/-- Only an entry that is still looked at can do harm. -/
def Event.Safe (dest : HostPath) (root : List OsStr) (s : State) : Event → Prop
  | .entry e => s.failed = none → e.Safe dest root s.fs
  | _ => True

/-- Nothing outside `root` has changed since `fs₀`, and `root` is what the guard compares with. -/
structure Contained (root : List OsStr) (fs₀ : HostFs) (s : State) : Prop where
  confined : Confined root fs₀ s.fs
  canonical : s.failed = none → s.root = root

section Loop

variable {fs₀ fs : HostFs} {above : HostPath} {c : List OsStr} {n : OsStr} {names : List OsStr}
  {target : List Char}

/-- A path that is not skipped has a last name. -/
theorem sanitize_concat {p : HostPath} {rel : List OsStr} (h : sanitize p = some rel) :
    ∃ names m, rel = names ++ [m] := by
  have hne : rel ≠ [] := by
    unfold sanitize at h
    split_ifs at h
    split at h
    · cases h
    · cases h
    · cases h
      simp
  exact ⟨rel.dropLast, rel.getLast hne, (dropLast_append_getLast hne).symm⟩

theorem clearDir_confined (hconf : Confined (c ++ [n]) fs₀ fs) (order : List OsStr → List OsStr)
    (hwithin : withinRootFrom fs (c ++ [n]) (under (above.child n) names) = true) :
    Confined (c ++ [n]) fs₀ (clearDir fs order (join (above.child n) names)).1 := by
  unfold clearDir
  split_ifs
  · split
    · exact clearNames_confined _ hconf fun d hd => inside_of_withinRootFrom hd hwithin
    · exact hconf
  · exact hconf

theorem resolve_victim {dest : HostPath} {rel : List OsStr}
    (htarget : target = [] ∨ target = ['.'] ∨ target = ['.', '.']) :
    fs.resolve false (victim dest rel target) = fs.resolve true (victim dest rel target) := by
  rcases htarget with rfl | rfl | rfl
  · exact resolve_of_not_name (Path.segs_of_trail (Trail.slashed_ne _)) nofun false
  · exact resolve_of_not_name (x := .curDir) rfl nofun false
  · exact resolve_of_not_name (x := .parentDir) (append_nil _) nofun false

theorem victim_name (dest : HostPath) (m : OsStr)
    (htarget : ¬ (target = [] ∨ target = ['.'] ∨ target = ['.', '.'])) :
    victim dest (names ++ [m]) target = (under dest names).child (.utf8 target) := by
  rw [not_or, not_or] at htarget
  rw [victim, joinStr, if_neg htarget.1, if_neg htarget.2.1, if_neg htarget.2.2, dropLast_concat]
  rfl

theorem removeVictim_confined (hconf : Confined (c ++ [n]) fs₀ fs) (m : OsStr)
    (hwithin : withinRoot fs (c ++ [n]) (victim (above.child n) (names ++ [m]) target) = true)
    (hsafe : target = [] ∨ target = ['.'] ∨ target = ['.', '.'] →
      Inside fs (c ++ [n]) (victim (above.child n) (names ++ [m]) target)) :
    Confined (c ++ [n]) fs₀ (removeAny fs (victim (above.child n) (names ++ [m]) target)).1 := by
  by_cases htarget : target = [] ∨ target = ['.'] ∨ target = ['.', '.']
  · refine hconf.removal (removeAny_removal fs _) fun a ha => ?_
    rw [resolve_victim htarget] at ha
    exact hsafe htarget a (canonicalize_eq_some.2 ha)
  · rw [victim_name _ _ htarget] at hwithin ⊢
    rw [withinRoot_child] at hwithin
    exact removeAny_child_confined hconf (fun d hd => inside_of_withinRootFrom hd hwithin) _

/-- One entry keeps the outside as it was. -/
theorem entryStep_contained (hplaced : Placed fs₀ above c n) {s : State}
    (h : Contained (c ++ [n]) fs₀ s) (hrun : s.failed = none) (maxTotal : ℕ) (e : Entry)
    (hsafe : e.Safe (above.child n) (c ++ [n]) s.fs) :
    Contained (c ++ [n]) fs₀ (entryStep (above.child n) maxTotal s e) := by
  have hroot := h.canonical hrun
  unfold entryStep
  cases hrel : sanitize e.path with
  | none => exact h
  | some rel =>
    have hsafe := hsafe rel hrel
    obtain ⟨names, m, rfl⟩ := sanitize_concat hrel
    simp only [hroot]
    cases hwh : whiteout (names ++ [m]) with
    | some w =>
      rw [hwh] at hsafe
      cases w with
      | dir =>
        simp only [dropLast_concat]
        split_ifs with hwithin
        · rw [withinRoot_child] at hwithin
          exact ⟨clearDir_confined h.confined _ hwithin, fun _ => hroot⟩
        · exact h
      | name target =>
        simp only
        split_ifs with hwithin
        · exact ⟨removeVictim_confined h.confined m hwithin hsafe, fun _ => hroot⟩
        · exact h
    | none =>
      rw [hwh] at hsafe
      simp only
      split_ifs with hwithin
      · rw [under_concat, withinRoot_child] at hwithin
        have hconf := extract_confined hplaced h.confined hwithin e hsafe (maxTotal - s.written)
        split
        · rename_i fs' k heq
          rw [heq] at hconf
          exact ⟨hconf, fun _ => rfl⟩
        · rename_i fs' err heq
          rw [heq] at hconf
          exact ⟨hconf, fun _ => rfl⟩
      · exact h

theorem step_contained (hplaced : Placed fs₀ above c n) (maxTotal : ℕ) {s : State} {ev : Event}
    (h : Contained (c ++ [n]) fs₀ s) (hsafe : ev.Safe (above.child n) (c ++ [n]) s) :
    Contained (c ++ [n]) fs₀ (step (above.child n) maxTotal s ev) := by
  unfold step
  split_ifs with hfailed
  · exact h
  · have hrun : s.failed = none := by simpa using hfailed
    cases ev with
    | entry e => exact entryStep_contained hplaced h hrun maxTotal e (hsafe hrun)
    | torn => exact ⟨h.confined, fun _ => h.canonical hrun⟩
    | layer opens =>
      cases opens with
      | true => exact h
      | false => exact ⟨h.confined, fun _ => h.canonical hrun⟩

end Loop

/-! ## The start -/

section Begin

variable {fs₀ fs : HostFs} {above : HostPath} {c : List OsStr} {n : OsStr}

variable (hplaced : Placed fs₀ above c n)

include hplaced

/-- The old destination is removed, if there is one. -/
theorem clear_confined :
    Confined (c ++ [n]) fs₀ (fs₀.removeDirAll (above.child n)).1 ∧
      ((fs₀.removeDirAll (above.child n)).2 = .ok () →
        (fs₀.removeDirAll (above.child n)).1.canonicalize (above.child n) = none) := by
  have hloc := hplaced.locate (Confined.refl (c ++ [n]) fs₀)
  have hfound : ∀ b, fs₀.resolve false (above.child n) = .found b → b = c ++ [n] := by
    intro b hb
    rw [resolve_child, hloc] at hb
    obtain ⟨d, hd, -, rfl, -⟩ := finish_found hb
    cases hd
    rfl
  refine ⟨(Confined.refl _ _).removal (removeDirAll_removal _ _)
    fun b hb => (hfound b hb) ▸ prefix_rfl, fun hok => ?_⟩
  cases hcan : (fs₀.removeDirAll (above.child n)).1.canonicalize (above.child n) with
  | none => rfl
  | some a =>
    obtain ⟨d, hd, -, hsome⟩ := canonicalize_child hcan
    rw [removeDirAll_gone hok hd] at hsome
    cases hsome

/-- The new destination is made in place of the old one. -/
theorem createDest_confined (hconf : Confined (c ++ [n]) fs₀ fs)
    (hnew : fs.canonicalize (above.child n) = none) :
    Confined (c ++ [n]) fs₀ (fs.createDirAll (above.child n)).1 ∧
      ((fs.createDirAll (above.child n)).2 = .ok () →
        (fs.createDirAll (above.child n)).1.canonicalize (above.child n) = some (c ++ [n])) := by
  have hloc := hplaced.locate hconf
  have hdir := hplaced.dir hconf
  have hnodir : fs.isDir? (above.child n) = false := by rw [isDir?, hnew]
  rw [createDirAll_child, mkdir_child, hloc, finish_of_dir hdir]
  cases hget : fs.get (c ++ [n]) with
  | some o =>
    simp only [isSome_some, if_true, hnodir]
    exact ⟨hconf, fun h => by cases h⟩
  | none =>
    exact ⟨hconf.insert prefix_rfl,
      fun _ => canonicalize_insert hdir hget hloc fun t h => by cases h⟩

theorem begin_contained :
    Contained (c ++ [n]) fs₀ (begin fs₀ (above.child n)) := by
  obtain ⟨cleared, hcleared⟩ : ∃ r : Res OsStr, r = if fs₀.exists? (above.child n) then
      fs₀.removeDirAll (above.child n) else (fs₀, .ok ()) := ⟨_, rfl⟩
  obtain ⟨hconf, hnew⟩ : Confined (c ++ [n]) fs₀ cleared.1 ∧
      (cleared.2 = .ok () → cleared.1.canonicalize (above.child n) = none) := by
    rw [hcleared]
    split_ifs with hex
    · exact clear_confined hplaced
    · exact ⟨Confined.refl _ _, fun _ => by simpa [exists?] using hex⟩
  unfold begin
  rw [← hcleared]
  obtain ⟨fs, res⟩ := cleared
  cases res with
  | error e => exact ⟨hconf, fun h => by cases h⟩
  | ok u =>
    obtain ⟨hconf₁, hcan⟩ := createDest_confined hplaced hconf (hnew rfl)
    simp only [Res.andThen]
    cases hmk : fs.createDirAll (above.child n) with
    | mk fs₁ res =>
      rw [hmk] at hconf₁ hcan
      cases res with
      | error e => exact ⟨hconf₁, fun h => by cases h⟩
      | ok u =>
        simp only [hcan rfl]
        exact ⟨hconf₁, fun _ => rfl⟩

end Begin

/-! ## Whole runs -/

/-- **Flattening is contained.**  If every entry is safe in the state it meets, no object outside
the destination is created, deleted, overwritten or given another mode, at any time. -/
theorem flatten_contained (fs : HostFs) (above : HostPath) (c : List OsStr) (n : OsStr)
    (hplaced : Placed fs above c n) (layers : List Layer) (maxTotal : ℕ)
    (hsafe : Runs.Each (step (above.child n) maxTotal) (Event.Safe (above.child n) (c ++ [n]))
      (begin fs (above.child n)) (layers.flatMap Layer.events)) (k : ℕ) :
    Contained (c ++ [n]) fs (Runs.run (step (above.child n) maxTotal) (begin fs (above.child n))
      ((layers.flatMap Layer.events).take k)) :=
  Runs.invariant (fun _ _ h hok => step_contained hplaced maxTotal h hok)
    (begin_contained hplaced) (Runs.each_take hsafe k)

section Example

/-- A directory `/t` with a directory `/t/v` that only its owner may enter. -/
def hostFs : HostFs :=
  ((Fs.init 0o755 [] 0o022).insert [] (.utf8 ['t']) (.dir 0o755)).insert [.utf8 ['t']]
    (.utf8 ['v']) (.dir 0o700)

def hostDir : HostPath := ⟨true, [.normal (.utf8 ['t'])], .bare⟩

/-- The directory of the image. -/
def imageDir : HostPath := hostDir.child (.utf8 ['r'])

/-- An empty entry at the top of the image. -/
def topEntry (name : List Char) (kind : EntryType) (target : Option HostPath) : Entry where
  path := ⟨false, [.normal (.utf8 name)], .bare⟩
  kind := kind
  mode := some 0o777
  linkName := some target
  body := []
  torn := false
  linkRefused := false
  order := id
  order_perm := fun _ => .refl _

/-- A link out of the image, and something else of the same name. -/
def linkThen (kind : EntryType) : Layer :=
  ⟨true, [topEntry ['d'] .symlink (some (hostDir.child (.utf8 ['v']))), topEntry ['d'] kind none],
    false⟩

def whiteoutParent : Layer :=
  ⟨true, [topEntry ['.', 'w', 'h', '.', '.', '.'] .regular none], false⟩

theorem hostFs_placed : Placed hostFs hostDir [.utf8 ['t']] (.utf8 ['r']) :=
  ⟨by decide, by decide⟩

/-- The link is replaced by a file. -/
theorem flatten_contained_linkThen :
    (flatten hostFs [linkThen .regular] imageDir).failed = none ∧
    Contained [.utf8 ['t'], .utf8 ['r']] hostFs (flatten hostFs [linkThen .regular] imageDir) := by
  refine ⟨by decide, flatten_contained hostFs hostDir [.utf8 ['t']] (.utf8 ['r']) hostFs_placed
    [linkThen .regular] maxTotalBytes ⟨trivial, ?_, ?_, trivial⟩ 3⟩
  · rintro - rel hrel
    obtain rfl : [.utf8 ['d']] = rel := some.inj hrel
    exact nofun
  · rintro - rel hrel
    obtain rfl : [.utf8 ['d']] = rel := some.inj hrel
    exact nofun

/-- Neither is contained. -/
theorem flatten_escapes :
    Placed hostFs hostDir [.utf8 ['t']] (.utf8 ['r']) ∧
    ¬ Contained [.utf8 ['t'], .utf8 ['r']] hostFs (flatten hostFs [whiteoutParent] imageDir) ∧
    ¬ Contained [.utf8 ['t'], .utf8 ['r']] hostFs
      (flatten hostFs [linkThen .directory] imageDir) := by
  have hout : ¬ [OsStr.utf8 ['t'], .utf8 ['r']] <+: [.utf8 ['t'], .utf8 ['v']] := by decide
  refine ⟨hostFs_placed, fun h => ?_, fun h => ?_⟩
  · have hsame := h.confined.same _ hout
    cases hsame
  · have hsame := h.confined.same _ hout
    cases hsame

end Example

end Amber.Image
