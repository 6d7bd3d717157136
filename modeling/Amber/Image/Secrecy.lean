import Amber.Image.Containment
import Amber.Lib.Vfs.Twin

/-!
# What an image can read of the host

Two hosts with the same names whose files outside the destination have different contents.  Does
`flatten` leave the same tree in both?  Nothing it does depends on the contents of a file but a
hard link, or the copy that is made if the link is refused.  The guard on the source of a link
looks at the parent of the path, in the tree before the parents of the new name are made, and the
copy follows a link at the end of the path.

* `linkOrCopy_twin` — a link keeps the hosts alike if its source is no file outside, once the
  parents of the new name are there.
* `entryStep_alike`, `flatten_secret` — if this is so for every link, the image is the same on both
  hosts, at any time.
* `flatten_leaks` — the guard does not see to it: neither for a copy through a link at the end of
  the path, nor for a link through a directory that is made on the way.
-/

namespace Amber.Image

open Vfs Fs

/-! ## Calls that look at names only -/

theorem removeAny_blind (p : HostPath) : Blind fun fs => removeAny fs p where
  same fs i := by
    have hmeta : (fs.withInodes i).symlinkMetadata p = fs.symlinkMetadata p := rfl
    unfold removeAny
    rw [hmeta]
    rcases fs.symlinkMetadata p with - | (mode | ino | t)
    · rfl
    · exact (Blind.removeDirAll p).same fs i
    · exact (Blind.removeFile p).same fs i
    · exact (Blind.removeFile p).same fs i
  names fs _ _ h := (removeAny_removal fs p).get_of_get h

theorem clearNames_blind (dir : HostPath) (names : List OsStr) : Blind (clearNames dir names) := by
  induction names with
  | nil => exact Blind.pure _
  | cons n names ih => exact (removeAny_blind (dir.child n)).andThen ih

theorem clearDir_blind (order : List OsStr → List OsStr) (dir : HostPath) :
    Blind fun fs => clearDir fs order dir where
  same fs i := by
    have hex : (fs.withInodes i).exists? dir = fs.exists? dir := rfl
    have hread : (fs.withInodes i).readDir dir = fs.readDir dir := rfl
    unfold clearDir
    rw [hex, hread]
    split_ifs
    · cases fs.readDir dir with
      | none => rfl
      | some names => exact (clearNames_blind dir (order names)).same fs i
    · rfl
  names fs q ino h := by
    unfold clearDir at h
    split_ifs at h
    · split at h
      · exact (clearNames_blind dir _).names fs q ino h
      · exact h
    · exact h

theorem prepare_blind (q : HostPath) (m : OsStr) : Blind fun fs => prepare fs (q.child m) := by
  simp only [prepare_child]
  exact (Blind.createDirAll q).andThen (removeAny_blind (q.child m))

/-! ## The answers of the guard -/

section Guard

variable {root r : List OsStr} {fs₁ fs₂ : HostFs}

theorem ascend_withInodes (fs : HostFs) (i : ℕ → Inode) (r : List OsStr) (abs : Bool)
    (l : List (Comp OsStr)) : ascend (fs.withInodes i) r abs l = ascend fs r abs l := by
  induction l with
  | nil => rfl
  | cons x xs ih =>
    rw [ascend, ascend, ih]
    rfl

theorem withinRoot_twin (h : Twin root fs₁ fs₂) (p : HostPath) :
    withinRoot fs₂ r p = withinRoot fs₁ r p := by
  rw [h.same]
  unfold withinRoot withinRootFrom
  simp only [ascend_withInodes]

end Guard

/-! ## Links -/

/-- The source of a hard link, if the entry has one. -/
def Entry.source (e : Entry) (out : HostPath) : Option HostPath :=
  match e.linkName with
  | some (some target) =>
    (rootfsRoot out e.path).map fun linkRoot => join linkRoot ((sanitize target).getD [])
  | _ => none

/-- The tree with the parents of `out` made. -/
def parents (fs : HostFs) (out : HostPath) : HostFs :=
  match out.parent with
  | some dir => (fs.createDirAll dir).1
  | none => fs

/-- The path leads to no file outside `root`. -/
def Inward (fs : HostFs) (root : List OsStr) (follow : Bool) (p : HostPath) : Prop :=
  ∀ c ino, fs.resolve follow p = .found c → fs.get c = some (.file ino) → root <+: c

section Link

variable {root : List OsStr} {fs fs₁ fs₂ : HostFs} {q src : HostPath} {m : OsStr}

/-- Clearing the way makes no path lead elsewhere. -/
theorem Inward.removeAny {follow : Bool} (h : Inward fs root follow src) (p : HostPath) :
    Inward (removeAny fs p).1 root follow src := by
  intro c ino hres hget
  have hrm := removeAny_removal fs p
  exact h c ino (resolve_mono (fun _ _ hget _ => hrm.get_of_get hget) hrm.cwd.symm hres)
    (hrm.get_of_get hget)

theorem parents_child (fs : HostFs) (q : HostPath) (m : OsStr) :
    parents fs (q.child m) = (fs.createDirAll q).1 := by
  rw [parents, Path.parent_child]
  rfl

/-- Where nothing is in the way, a name that cannot be linked cannot be created. -/
theorem createFile_of_unlinked (hready : Ready [] fs q m) {f : Fault}
    (hfail : fs.hardLink src (q.child m) = (fs, .error f)) {c : List OsStr} {ino : ℕ}
    (hcan : fs.canonicalize src = some c) (hget : fs.get c = some (.file ino)) :
    ∃ e, fs.createFile (q.child m) = (fs, .error e) := by
  obtain ⟨o, hmeta, hdir⟩ := fs.symlinkMetadata_of_file hcan hget
  cases hres : fs.resolve false (q.child m) with
  | found d => exact absurd hres (hready.not_found false d)
  | missing d n =>
    rw [hardLink, hmeta] at hfail
    cases o with
    | dir mode => exact absurd rfl (hdir mode)
    | file _ | symlink _ => simp only [hres, Prod.mk.injEq, reduceCtorEq, and_false] at hfail
  | error e =>
    have hfollow := (hready.resolve true).trans ((hready.resolve false).symm.trans hres)
    exact ⟨e.fault, by rw [createFile, hfollow]⟩

/-- … so that a copy can do no more than a link. -/
theorem copy_of_unlinked (hready : Ready [] fs q m) {f : Fault}
    (hfail : fs.hardLink src (q.child m) = (fs, .error f)) : (fs.copy src (q.child m)).1 = fs := by
  unfold copy
  cases hcan : fs.canonicalize src with
  | none => rfl
  | some c =>
    cases hget : fs.get c with
    | none => simp only [hget]
    | some o =>
      cases o with
      | dir mode => simp only [hget]
      | symlink t => simp only [hget]
      | file ino =>
        obtain ⟨e, he⟩ := createFile_of_unlinked hready hfail hcan hget
        simp only [hget, he]

theorem Ready.twin {r : List OsStr} (h : Twin root fs₁ fs₂) (hready : Ready r fs₁ q m) :
    Ready r fs₂ q m := by
  rw [h.same]
  exact hready

/-- **A link keeps the hosts alike** if its source is no file outside. -/
theorem linkOrCopy_twin (h : Twin root fs₁ fs₂) (hready : Ready [] fs₁ q m) {refused : Bool}
    (hsrc : Inward fs₁ root refused src) :
    Twin root (linkOrCopy fs₁ refused src (q.child m))
      (linkOrCopy fs₂ refused src (q.child m)) := by
  unfold linkOrCopy
  cases refused with
  | true => exact (h.copy src (q.child m) hsrc).2
  | false =>
    simp only [Bool.false_eq_true, if_false]
    obtain ⟨hans, htwin⟩ := h.hardLink src (q.child m) hsrc
    rcases hardLink_cases fs₁ src (q.child m) with hok | ⟨f, hfail⟩
    · rw [← hans, hok]
      exact htwin
    · rcases hardLink_cases fs₂ src (q.child m) with hok | ⟨f', hfail'⟩
      · rw [hfail, hok] at hans
        cases hans
      · simp only [hfail, hfail', copy_of_unlinked hready hfail,
          copy_of_unlinked (hready.twin h) hfail']
        exact h

end Link

/-! ## Entries -/

section Extract

variable {root r : List OsStr} {fs₁ fs₂ : HostFs} {q : HostPath} {m : OsStr}

theorem orIo_twin {r₁ r₂ : Res OsStr} (h : Twins root r₁ r₂)
    {next : HostFs → HostFs × Except FlattenError ℕ}
    (hnext : r₁.2 = .ok () → Twin root r₁.1 r₂.1 → Twins root (next r₁.1) (next r₂.1)) :
    Twins root (orIo r₁ next) (orIo r₂ next) := by
  obtain ⟨fs₁, res⟩ := r₁
  obtain ⟨fs₂, res'⟩ := r₂
  obtain ⟨hans, htwin⟩ := h
  obtain rfl : res = res' := hans
  cases res with
  | error e => exact ⟨rfl, htwin⟩
  | ok u => exact hnext rfl htwin

theorem copyBody_twin (h : Twin root fs₁ fs₂) (e : Entry) (out : HostPath) (ino budget : ℕ) :
    Twins root (copyBody fs₁ e out ino budget) (copyBody fs₂ e out ino budget) := by
  have happend := h.append ino (e.body.take (copyLimit budget))
  unfold copyBody
  simp only
  split_ifs
  · exact ⟨rfl, happend⟩
  · exact ⟨rfl, happend⟩
  · exact ⟨rfl, (happend.setPermissions out e.modeOr).2⟩

theorem extractFile_twin (h : Twin root fs₁ fs₂) (e : Entry) (budget : ℕ) :
    Twins root (extractFile fs₁ e (q.child m) budget) (extractFile fs₂ e (q.child m) budget) := by
  refine orIo_twin ((prepare_blind q m).twin h) fun _ htwin => ?_
  obtain ⟨hans, htwin'⟩ := htwin.createFile (q.child m)
  cases hmk : (prepare fs₁ (q.child m)).1.createFile (q.child m) with
  | mk fs₁' res =>
    cases hmk' : (prepare fs₂ (q.child m)).1.createFile (q.child m) with
    | mk fs₂' res' =>
      rw [hmk, hmk'] at hans htwin'
      obtain rfl : res = res' := hans
      cases res with
      | error err => exact ⟨rfl, htwin'⟩
      | ok ino => exact copyBody_twin htwin' e _ ino budget

/-- Once the way is prepared, nothing stands at the new name. -/
theorem prepare_free {fs : HostFs} (h : (prepare fs (q.child m)).2 = .ok ()) :
    Ready [] (prepare fs (q.child m)).1 q m ∧
      (prepare fs (q.child m)).1 = (removeAny (fs.createDirAll q).1 (q.child m)).1 := by
  rw [prepare_child] at h ⊢
  cases hmk : fs.createDirAll q with
  | mk fs' res =>
    rw [hmk] at h
    cases res with
    | error e => cases h
    | ok u => exact ⟨removeAny_ready (fun _ _ => List.nil_prefix) h, rfl⟩

theorem extractLink_twin (h : Twin root fs₁ fs₂) (e : Entry)
    (hsrc : ∀ src, e.source (q.child m) = some src → withinRoot fs₁ r src = true →
      Inward (parents fs₁ (q.child m)) root e.linkRefused src) :
    Twins root (extractLink fs₁ e (q.child m) r) (extractLink fs₂ e (q.child m) r) := by
  unfold extractLink
  unfold Entry.source at hsrc
  split
  · exact ⟨rfl, h⟩
  · exact ⟨rfl, h⟩
  · rename_i target hname
    rw [hname] at hsrc
    cases hroot : rootfsRoot (q.child m) e.path with
    | none => exact ⟨rfl, h⟩
    | some linkRoot =>
      rw [hroot] at hsrc
      simp only [withinRoot_twin h]
      split_ifs with hwithin
      · refine orIo_twin ((prepare_blind q m).twin h) fun hok htwin => ⟨rfl, ?_⟩
        obtain ⟨hready, heq⟩ := prepare_free hok
        refine linkOrCopy_twin htwin hready ?_
        have hin := hsrc _ rfl hwithin
        rw [parents_child] at hin
        rw [heq]
        exact hin.removeAny (q.child m)
      · exact ⟨rfl, h⟩

theorem extract_twin (h : Twin root fs₁ fs₂) (e : Entry) (budget : ℕ)
    (hsrc : e.kind = .link → ∀ src, e.source (q.child m) = some src →
      withinRoot fs₁ r src = true → Inward (parents fs₁ (q.child m)) root e.linkRefused src) :
    Twins root (extract fs₁ e (q.child m) r budget) (extract fs₂ e (q.child m) r budget) := by
  unfold extract
  cases hk : e.kind with
  | directory =>
    refine orIo_twin ((Blind.createDirAll (q.child m)).twin h) fun _ htwin => ?_
    exact ⟨rfl, (htwin.setPermissions (q.child m) e.modeOr).2⟩
  | regular | continuous => exact extractFile_twin h e budget
  | symlink =>
    simp only [extractSymlink]
    split
    · exact ⟨rfl, h⟩
    · exact ⟨rfl, h⟩
    · rename_i target _
      refine orIo_twin ((prepare_blind q m).twin h) fun _ htwin => ?_
      exact orIo_twin ((Blind.symlink target (q.child m)).twin htwin) fun _ htwin => ⟨rfl, htwin⟩
  | link => exact extractLink_twin h e (hsrc hk)
  | other => exact ⟨rfl, h⟩

end Extract

/-! ## The loop -/

/-- A hard link that is made leads to no file outside: its source, with a link at its end followed
if the hard link is refused, in the tree with the parents of the new name. -/
def Entry.Inward (dest : HostPath) (root : List OsStr) (s : State) (e : Entry) : Prop :=
  e.kind = .link → ∀ rel src, sanitize e.path = some rel → whiteout rel = none →
    withinRoot s.fs s.root (under dest rel) = true → e.source (under dest rel) = some src →
    withinRoot s.fs s.root src = true →
    Image.Inward (parents s.fs (under dest rel)) root e.linkRefused src

/-- Only an entry that is still looked at can make a link. -/
def Event.Inward (dest : HostPath) (root : List OsStr) (s : State) : Event → Prop
  | .entry e => s.failed = none → e.Inward dest root s
  | _ => True

/-- Two runs on hosts that are alike, which have gone the same way so far. -/
structure Alike (root : List OsStr) (s₁ s₂ : State) : Prop where
  twin : Twin root s₁.fs s₂.fs
  root : s₂.root = s₁.root
  written : s₂.written = s₁.written
  failed : s₂.failed = s₁.failed

section Loop

variable {root : List OsStr} {dest : HostPath} {s₁ s₂ : State}

theorem Alike.after (h : Alike root s₁ s₂) {r₁ r₂ : Res OsStr} (hr : Twins root r₁ r₂) :
    Alike root (s₁.after r₁) (s₂.after r₂) := by
  refine ⟨hr.2, h.root, h.written, ?_⟩
  unfold State.after
  rw [hr.1]

/-- One entry keeps the two runs alike. -/
theorem entryStep_alike (h : Alike root s₁ s₂) (maxTotal : ℕ) (e : Entry)
    (hin : e.Inward dest root s₁) :
    Alike root (entryStep dest maxTotal s₁ e) (entryStep dest maxTotal s₂ e) := by
  unfold entryStep
  cases hrel : sanitize e.path with
  | none => exact h
  | some rel =>
    obtain ⟨names, m, rfl⟩ := sanitize_concat hrel
    simp only [h.root, h.written, withinRoot_twin h.twin]
    cases hwh : whiteout (names ++ [m]) with
    | some w =>
      cases w with
      | dir =>
        simp only
        split_ifs
        · exact h.after ((clearDir_blind e.order _).twin h.twin)
        · exact h
      | name target =>
        simp only
        split_ifs
        · exact h.after ((removeAny_blind _).twin h.twin)
        · exact h
    | none =>
      simp only
      split_ifs with hwithin
      · have hsrc := fun hkind src => hin hkind (names ++ [m]) src hrel hwh hwithin
        rw [under_concat] at hsrc ⊢
        obtain ⟨hans, htwin⟩ := extract_twin h.twin e (maxTotal - s₁.written) hsrc
        cases hex : extract s₁.fs e ((under dest names).child m) s₁.root
            (maxTotal - s₁.written) with
        | mk fs₁ res =>
          cases hex' : extract s₂.fs e ((under dest names).child m) s₁.root
              (maxTotal - s₁.written) with
          | mk fs₂ res' =>
            rw [hex, hex'] at hans htwin
            obtain rfl : res = res' := hans
            cases res with
            | ok k => exact ⟨htwin, rfl, rfl, h.failed⟩
            | error err => exact ⟨htwin, rfl, rfl, rfl⟩
      · exact h

theorem step_alike (maxTotal : ℕ) (s₁ s₂ : State) (ev : Event) (h : Alike root s₁ s₂)
    (hin : ev.Inward dest root s₁) :
    Alike root (step dest maxTotal s₁ ev) (step dest maxTotal s₂ ev) := by
  unfold step
  rw [h.failed]
  split_ifs with hfailed
  · exact h
  · have hrun : s₁.failed = none := by simpa using hfailed
    cases ev with
    | entry e => exact entryStep_alike h maxTotal e (hin hrun)
    | torn => exact ⟨h.twin, h.root, h.written, rfl⟩
    | layer opens =>
      cases opens with
      | true => exact h
      | false => exact ⟨h.twin, h.root, h.written, rfl⟩

theorem begin_alike {fs₁ fs₂ : HostFs} (h : Twin root fs₁ fs₂) (dest : HostPath) :
    Alike root (begin fs₁ dest) (begin fs₂ dest) := by
  have hclear : Blind fun fs : HostFs =>
      if fs.exists? dest then fs.removeDirAll dest else (fs, .ok ()) := by
    constructor
    · intro fs i
      have hex : (fs.withInodes i).exists? dest = fs.exists? dest := rfl
      simp only [hex]
      split_ifs
      · exact (Blind.removeDirAll dest).same fs i
      · rfl
    · intro fs q ino hget
      split_ifs at hget
      · exact (Blind.removeDirAll dest).names fs q ino hget
      · exact hget
  obtain ⟨hans, htwin⟩ := (hclear.andThen (Blind.createDirAll dest)).twin h
  dsimp only [begin]
  cases hmk : Res.andThen (if fs₁.exists? dest then fs₁.removeDirAll dest else (fs₁, .ok ()))
      (fun fs => fs.createDirAll dest) with
  | mk fs₁' res =>
    cases hmk' : Res.andThen (if fs₂.exists? dest then fs₂.removeDirAll dest else (fs₂, .ok ()))
        (fun fs => fs.createDirAll dest) with
    | mk fs₂' res' =>
      rw [hmk, hmk'] at hans htwin
      obtain rfl : res = res' := hans
      replace htwin : Twin root fs₁' fs₂' := htwin
      cases res with
      | error e => exact ⟨htwin, rfl, rfl, rfl⟩
      | ok u =>
        have hcan : fs₂'.canonicalize dest = fs₁'.canonicalize dest := by
          rw [htwin.same]
          rfl
        simp only [hcan]
        cases fs₁'.canonicalize dest with
        | none | some _ => exact ⟨htwin, rfl, rfl, rfl⟩

end Loop

/-! ## Whole runs -/

/-- **The image is the same on both hosts.**  The hosts have the same names, and may differ in the
contents of files that have no name at or below `root`, the canonical path of the destination.  If
every hard link that is made leads to no file outside, the same tree with the same contents is there
in both at any time, and both runs end alike. -/
theorem flatten_secret {root : List OsStr} {fs₁ fs₂ : HostFs} (h : Twin root fs₁ fs₂)
    (dest : HostPath) (layers : List Layer) (maxTotal : ℕ)
    (hin : Runs.Each (step dest maxTotal) (Event.Inward dest root) (begin fs₁ dest)
      (layers.flatMap Layer.events)) (k : ℕ) :
    let s₁ := Runs.run (step dest maxTotal) (begin fs₁ dest)
      ((layers.flatMap Layer.events).take k)
    let s₂ := Runs.run (step dest maxTotal) (begin fs₂ dest)
      ((layers.flatMap Layer.events).take k)
    s₂.failed = s₁.failed ∧ ∀ q, root <+: q → s₂.fs.node q = s₁.fs.node q := by
  have halike := Runs.related (step_alike maxTotal) (begin_alike h dest) (Runs.each_take hin k)
  exact ⟨halike.failed, fun q hq => halike.twin.node_eq hq⟩

section Example

/-- A host with a file `/s` that only its owner may read. -/
def secretFs (data : List UInt8) : HostFs :=
  (hostFs.newFile [] (.utf8 ['s']) 0o600).append hostFs.fresh data

theorem secretFs_twin : Twin [.utf8 ['t'], .utf8 ['r']] (secretFs [1]) (secretFs [2]) := by
  refine ⟨rfl, fun ino => ?_, fun q ino hq hget => ?_⟩
  · by_cases h : ino = hostFs.fresh
    · subst h
      rfl
    · simp [secretFs, append, newFile, setInode, Function.update_of_ne h]
  · have hout : ∀ e ∈ (secretFs [1]).objs, e.2.isFile = true →
        ¬ [OsStr.utf8 ['t'], .utf8 ['r']] <+: e.1 := by decide
    exact absurd hq (hout _ (lookup_mem hget) rfl)

/-- A hard link. -/
def linkEntry (path target : List OsStr) (refused : Bool) : Entry where
  path := ⟨false, path.map .normal, .bare⟩
  kind := .link
  mode := some 0o644
  linkName := some (some ⟨false, target.map .normal, .bare⟩)
  body := []
  torn := false
  linkRefused := refused
  order := id
  order_perm := List.Perm.refl

/-- A copy through a link at the end of the path. -/
def copyOut : Layer :=
  ⟨true, [topEntry ['a'] .symlink (some ⟨true, [.normal (.utf8 ['s'])], .bare⟩),
    linkEntry [.utf8 ['b']] [.utf8 ['a']] true], false⟩

/-- A link through the directory that is made for the new name. -/
def linkOut : Layer :=
  ⟨true, [topEntry ['a'] .symlink
      (some ⟨false, [.normal (.utf8 ['d']), .parentDir, .parentDir, .parentDir], .bare⟩),
    linkEntry [.utf8 ['d'], .utf8 ['b']] [.utf8 ['a'], .utf8 ['s']] false], false⟩

/-- A link inside the image. -/
def linkIn : Layer :=
  ⟨true, [topEntry ['a'] .regular none, linkEntry [.utf8 ['b']] [.utf8 ['a']] true], false⟩

/-- The copy is the same on both hosts. -/
theorem flatten_secret_linkIn :
    let s := flatten (secretFs [2]) [linkIn] imageDir
    s.failed = none ∧
    s.fs.node [.utf8 ['t'], .utf8 ['r'], .utf8 ['b']] = some (.file 0o777 []) ∧
    ∀ q, [.utf8 ['t'], .utf8 ['r']] <+: q →
      s.fs.node q = (flatten (secretFs [1]) [linkIn] imageDir).fs.node q := by
  refine ⟨by decide, by decide, (flatten_secret secretFs_twin imageDir [linkIn] maxTotalBytes
    ⟨trivial, fun _ hkind => (nomatch hkind), ?_, trivial⟩ 3).2⟩
  rintro - - rel src hrel - - hsrc - c ino hres -
  obtain rfl : [.utf8 ['b']] = rel := Option.some.inj hrel
  obtain rfl : under imageDir [.utf8 ['a']] = src := Option.some.inj hsrc
  have hfound : (parents (Runs.run (step imageDir maxTotalBytes) (begin (secretFs [1]) imageDir)
      [.layer true, .entry (topEntry ['a'] .regular none)]).fs
      (under imageDir [.utf8 ['b']])).resolve true (under imageDir [.utf8 ['a']]) =
        .found [.utf8 ['t'], .utf8 ['r'], .utf8 ['a']] := by decide
  obtain rfl : [.utf8 ['t'], .utf8 ['r'], .utf8 ['a']] = c :=
    Walk.found.inj (hfound.symm.trans hres)
  decide

/-- Both layers carry the secret into the image. -/
theorem flatten_leaks :
    Twin [.utf8 ['t'], .utf8 ['r']] (secretFs [1]) (secretFs [2]) ∧
    (let s := fun secret => flatten (secretFs [secret]) [copyOut] imageDir
      let copy := [.utf8 ['t'], .utf8 ['r'], .utf8 ['b']]
      (s 1).failed = none ∧ (s 1).fs.node copy = some (.file 0o600 [1]) ∧
        (s 2).fs.node copy = some (.file 0o600 [2])) ∧
    let s := fun secret => flatten (secretFs [secret]) [linkOut] imageDir
    let link := [.utf8 ['t'], .utf8 ['r'], .utf8 ['d'], .utf8 ['b']]
    (s 1).failed = none ∧ (s 1).fs.node link = some (.file 0o600 [1]) ∧
      (s 2).fs.node link = some (.file 0o600 [2]) :=
  ⟨secretFs_twin, by decide, by decide⟩

end Example

end Amber.Image
