import Mathlib.Algebra.BigOperators.Group.List.Basic
import Mathlib.Algebra.Ring.Nat
import Amber.Image.Secrecy

/-!
# How much can flattening write?

`flatten_limited` keeps count of the bytes it has written and gives each regular file what is left
of the ceiling, and one byte more to see that it was passed.  A hard link that the host refuses is
replaced by a copy of its source, and copies are not counted.

* `data_step` — every byte that an entry puts into a file is in its `put`, and nothing else is.
* `extract_extracted` — what `extract` puts into a file, and what it answers.
* `Entry.Linked` — a hard link that is made, or whose source has nothing in it to copy.
* `ceiling_of_linked` — if every hard link is of this kind, the count never passes the ceiling, the
  bytes in files pass it by one at most, and the size limit is reported exactly when the regular
  entries pass it, in every state of a run.
* `copies_uncounted` — two refused links to one file: three bytes below a ceiling of one.
-/

namespace Amber.Image

open Vfs List Function Option

/-! ## What an entry puts into a file -/

/-- The bytes an entry puts into a file: the beginning of its own body, or by the copy that stands
in for a hard link those of another file. -/
inductive Put
  | entry (ino : ℕ) (body : List UInt8) (limit : ℕ)
  | copy (ino : ℕ) (data : List UInt8)

def Put.ino : Put → ℕ
  | .entry ino _ _ => ino
  | .copy ino _ => ino

def Put.bytes : Put → List UInt8
  | .entry _ body limit => body.take limit
  | .copy _ data => data

/-- `fs::copy`. -/
def copyPut (fs : HostFs) (src out : HostPath) : Option Put :=
  match fs.canonicalize src with
  | none => none
  | some c =>
    match fs.get c with
    | some (.file from_) =>
      match (fs.createFile out).2 with
      | .ok ino => some (.copy ino (fs.inodes from_).data)
      | .error _ => none
    | _ => none

/-- `hard_link`, and `fs::copy` if it fails. -/
def linkOrCopyPut (fs : HostFs) (refused : Bool) (src out : HostPath) : Option Put :=
  let linked : Res OsStr := if refused then (fs, .error .other) else fs.hardLink src out
  match linked.2 with
  | .ok _ => none
  | .error _ => copyPut linked.1 src out

/-- The put of a regular file. -/
def filePut (fs : HostFs) (e : Entry) (out : HostPath) (budget : ℕ) : Option Put :=
  match prepare fs out with
  | (_, .error _) => none
  | (fs, .ok _) =>
    match (fs.createFile out).2 with
    | .ok ino => some (.entry ino e.body (copyLimit budget))
    | .error _ => none

/-- The put of a hard link. -/
def linkPut (fs : HostFs) (e : Entry) (out : HostPath) (root : List OsStr) : Option Put :=
  match e.source out with
  | none => none
  | some src =>
    if withinRoot fs root src then
      match prepare fs out with
      | (_, .error _) => none
      | (fs, .ok _) => linkOrCopyPut fs e.linkRefused src out
    else none

/-- What `extract` puts into a file. -/
def extractPut (fs : HostFs) (e : Entry) (out : HostPath) (root : List OsStr) (budget : ℕ) :
    Option Put :=
  match e.kind with
  | .regular | .continuous => filePut fs e out budget
  | .link => linkPut fs e out root
  | _ => none

/-- Where an entry is extracted to, if it is. -/
def target (dest : HostPath) (s : State) (e : Entry) : Option HostPath :=
  match sanitize e.path with
  | none => none
  | some rel =>
    match whiteout rel with
    | some _ => none
    | none => if withinRoot s.fs s.root (under dest rel) then some (under dest rel) else none

/-- What a step puts into a file. -/
def put (dest : HostPath) (maxTotal : ℕ) (s : State) : Event → Option Put
  | .entry e =>
    if s.failed.isSome then none
    else (target dest s e).bind fun out => extractPut s.fs e out s.root (maxTotal - s.written)
  | _ => none

/-! ## The bytes in files -/

/-- The data of the files after a put. -/
def PutData (fs fs' : HostFs) (p : Option Put) : Prop :=
  ∀ ino, (fs'.inodes ino).data =
    match p with
    | some p => if ino = p.ino then p.bytes else (fs.inodes ino).data
    | none => (fs.inodes ino).data

/-- What `extract` answers with this budget, by what it puts: an entry whose bytes cannot be read
on, one that passes the budget, one that is within, a copy, and those that put nothing. -/
inductive PutOutcome (budget : ℕ) : Option Put → Except FlattenError ℕ → Prop
  | nothing : PutOutcome budget none (.ok 0)
  | failed : PutOutcome budget none (.error .io)
  | torn (ino : ℕ) (body : List UInt8) :
      PutOutcome budget (some (.entry ino body (copyLimit budget))) (.error .io)
  | passed (ino : ℕ) (body : List UInt8) (h : budget < (body.take (copyLimit budget)).length) :
      PutOutcome budget (some (.entry ino body (copyLimit budget))) (.error .sizeLimit)
  | whole (ino : ℕ) (body : List UInt8) (h : (body.take (copyLimit budget)).length ≤ budget) :
      PutOutcome budget (some (.entry ino body (copyLimit budget)))
        (.ok (body.take (copyLimit budget)).length)
  | copied (ino : ℕ) (data : List UInt8) : PutOutcome budget (some (.copy ino data)) (.ok 0)

/-- The entry `e` is extracted: the put is in the files, it is answered accordingly, and its bytes
are those of the entry unless they are copied. -/
structure Extracted (fs : HostFs) (e : Entry) (budget : ℕ) (p : Option Put)
    (r : HostFs × Except FlattenError ℕ) : Prop where
  data : PutData fs r.1 p
  outcome : PutOutcome budget p r.2
  body : ∀ {ino limit : ℕ} {body : List UInt8}, p = some (.entry ino body limit) → body = e.body

section Extract

variable {fs fs' : HostFs} {e : Entry} {budget : ℕ} {p : Option Put}

theorem putData_of_inodes (h : fs'.inodes = fs.inodes) : PutData fs fs' none := by
  intro ino
  rw [h]

theorem Extracted.of_inodes {fs₀ : HostFs} {r : HostFs × Except FlattenError ℕ}
    (h : Extracted fs e budget p r) (hinodes : fs.inodes = fs₀.inodes) :
    Extracted fs₀ e budget p r := by
  refine ⟨fun ino => ?_, h.outcome, h.body⟩
  rw [← hinodes]
  exact h.data ino

theorem Extracted.nothing (h : fs'.inodes = fs.inodes) : Extracted fs e budget none (fs', .ok 0) :=
  ⟨putData_of_inodes h, .nothing, nofun⟩

theorem Extracted.failed (h : fs'.inodes = fs.inodes) :
    Extracted fs e budget none (fs', .error .io) :=
  ⟨putData_of_inodes h, .failed, nofun⟩

theorem PutData.setPermissions (h : PutData fs fs' p) (out : HostPath) (mode : ℕ) :
    PutData fs (fs'.setPermissions out mode).1 p := by
  intro ino
  rw [← h ino]
  unfold Fs.setPermissions
  split
  · rfl
  · split
    · rfl
    · rename_i j _
      show ((update fs'.inodes j _) ino).data = _
      by_cases hj : ino = j
      · rw [hj, update_self]
      · rw [update_of_ne hj]
    · rfl

theorem prepare_inodes (fs : HostFs) (out : HostPath) : (prepare fs out).1.inodes = fs.inodes := by
  unfold prepare
  cases out.parent with
  | none => exact ((Blind.pure (.ok ())).andThen (removeAny_blind out)).inodes fs
  | some dir => exact ((Blind.createDirAll dir).andThen (removeAny_blind out)).inodes fs

/-- A created file is empty, and every other file is as it was. -/
theorem createFile_data (fs : HostFs) (out : HostPath) :
    (∃ e, fs.createFile out = (fs, .error e)) ∨ ∃ ino, (fs.createFile out).2 = .ok ino ∧
      ∀ j, ((fs.createFile out).1.inodes j).data = if j = ino then [] else (fs.inodes j).data := by
  have hupdate : ∀ (ino mode j : ℕ), ((update fs.inodes ino ⟨mode, []⟩) j).data =
      if j = ino then [] else (fs.inodes j).data := by
    intro ino mode j
    rw [update_apply]
    split_ifs <;> rfl
  unfold Fs.createFile
  split
  · split
    · exact .inr ⟨_, rfl, fun j => hupdate _ _ j⟩
    · exact .inl ⟨_, rfl⟩
  · refine .inr ⟨_, rfl, fun j => ?_⟩
    rw [Fs.newFile, Fs.inodes_insert]
    exact hupdate _ _ j
  · exact .inl ⟨_, rfl⟩

/-- Writing to a file that was just created. -/
theorem putData_setInode {fs₁ : HostFs} {ino mode : ℕ} {bytes : List UInt8} {p : Put}
    (h : ∀ j, (fs₁.inodes j).data = if j = ino then [] else (fs.inodes j).data)
    (hino : p.ino = ino) (hbytes : p.bytes = bytes) :
    PutData fs (fs₁.setInode ino ⟨mode, bytes⟩) (some p) := by
  intro j
  show ((update fs₁.inodes ino _) j).data = if j = p.ino then p.bytes else _
  rw [hino, hbytes, update_apply]
  split_ifs with hj
  · rfl
  · rw [h, if_neg hj]

theorem copyBody_extracted {fs₁ : HostFs} {ino : ℕ}
    (h : ∀ j, (fs₁.inodes j).data = if j = ino then [] else (fs.inodes j).data) (e : Entry)
    (out : HostPath) (budget : ℕ) :
    Extracted fs e budget (some (.entry ino e.body (copyLimit budget)))
      (copyBody fs₁ e out ino budget) := by
  have hempty : (fs₁.inodes ino).data = [] := (h ino).trans (if_pos rfl)
  have happend : PutData fs (fs₁.append ino (e.body.take (copyLimit budget)))
      (some (.entry ino e.body (copyLimit budget))) :=
    putData_setInode h rfl (by rw [hempty]; rfl)
  have hbody : ∀ {j limit : ℕ} {body : List UInt8},
      some (Put.entry ino e.body (copyLimit budget)) = some (.entry j body limit) →
        body = e.body := by
    rintro _ _ _ ⟨⟩
    rfl
  unfold copyBody
  dsimp only
  split_ifs with htorn hover
  · exact ⟨happend, .torn ino e.body, hbody⟩
  · exact ⟨happend, .passed ino e.body hover, hbody⟩
  · exact ⟨happend.setPermissions out e.modeOr, .whole ino e.body (not_lt.1 hover), hbody⟩

theorem extractFile_extracted (fs : HostFs) (e : Entry) (out : HostPath) (budget : ℕ) :
    Extracted fs e budget (filePut fs e out budget) (extractFile fs e out budget) := by
  have hinodes := prepare_inodes fs out
  unfold extractFile filePut orIo
  cases hprep : prepare fs out with
  | mk fs₁ res =>
    rw [hprep] at hinodes
    cases res with
    | error err => exact .failed hinodes
    | ok u =>
      dsimp only
      rcases createFile_data fs₁ out with ⟨err, hfail⟩ | ⟨ino, hok, hdata⟩
      · rw [hfail]
        exact .failed hinodes
      · cases hmk : fs₁.createFile out with
        | mk fs₂ res =>
          rw [hmk] at hok hdata
          obtain rfl : res = .ok ino := hok
          exact (copyBody_extracted hdata e out budget).of_inodes hinodes

theorem copy_extracted (fs : HostFs) (src out : HostPath) :
    Extracted fs e budget (copyPut fs src out) ((fs.copy src out).1, .ok 0) := by
  unfold Fs.copy copyPut
  cases fs.canonicalize src with
  | none => exact .nothing rfl
  | some c =>
    dsimp only
    rcases fs.get c with - | (mode | from_ | t)
    · exact .nothing rfl
    · exact .nothing rfl
    · rcases createFile_data fs out with ⟨err, hfail⟩ | ⟨ino, hok, hdata⟩
      · simp only [hfail]
        exact .nothing rfl
      · cases hmk : fs.createFile out with
        | mk fs₂ res =>
          rw [hmk] at hok hdata
          obtain rfl : res = .ok ino := hok
          exact ⟨putData_setInode hdata rfl rfl, .copied ino _, nofun⟩
    · exact .nothing rfl

theorem linkOrCopy_extracted (fs : HostFs) (refused : Bool) (src out : HostPath) :
    Extracted fs e budget (linkOrCopyPut fs refused src out)
      (linkOrCopy fs refused src out, .ok 0) := by
  unfold linkOrCopy linkOrCopyPut
  cases refused with
  | true => exact copy_extracted fs src out
  | false =>
    simp only [Bool.false_eq_true, if_false]
    rcases Fs.hardLink_cases fs src out with hok | ⟨f, hfail⟩
    · rw [hok]
      exact .nothing (fs.inodes_hardLink src out)
    · rw [hfail]
      exact copy_extracted fs src out

theorem extractLink_eq (fs : HostFs) (e : Entry) (out : HostPath) (root : List OsStr) :
    extractLink fs e out root =
      match e.source out with
      | some src =>
        if withinRoot fs root src then
          orIo (prepare fs out) fun fs => (linkOrCopy fs e.linkRefused src out, .ok 0)
        else (fs, .ok 0)
      | none => (fs, if e.linkName = none then .error .io else .ok 0) := by
  unfold extractLink Entry.source
  rcases e.linkName with - | - | target
  · rfl
  · rfl
  · cases rootfsRoot out e.path with
    | none => rfl
    | some linkRoot => rfl

theorem extractLink_extracted (fs : HostFs) (e : Entry) (out : HostPath) (root : List OsStr) :
    Extracted fs e budget (linkPut fs e out root) (extractLink fs e out root) := by
  have hinodes := prepare_inodes fs out
  rw [extractLink_eq, linkPut]
  cases e.source out with
  | none =>
    split_ifs
    · exact .failed rfl
    · exact .nothing rfl
  | some src =>
    dsimp only
    split_ifs
    · cases hprep : prepare fs out with
      | mk fs₁ res =>
        rw [hprep] at hinodes
        cases res with
        | error err => exact .failed hinodes
        | ok u => exact (linkOrCopy_extracted fs₁ e.linkRefused src out).of_inodes hinodes
    · exact .nothing rfl

theorem extractDir_extracted (fs : HostFs) (e : Entry) (out : HostPath) :
    Extracted fs e budget none (extractDir fs e out) := by
  have hinodes : (fs.createDirAll out).1.inodes = fs.inodes := (Blind.createDirAll out).inodes fs
  unfold extractDir orIo
  split
  · exact ⟨(putData_of_inodes hinodes).setPermissions out e.modeOr, .nothing, nofun⟩
  · exact .failed hinodes

theorem extractSymlink_extracted (fs : HostFs) (e : Entry) (out : HostPath) :
    Extracted fs e budget none (extractSymlink fs e out) := by
  have hinodes := prepare_inodes fs out
  unfold extractSymlink orIo
  split
  · exact .failed rfl
  · exact .nothing rfl
  · rename_i target _
    have hlink : ((prepare fs out).1.symlink target out).1.inodes = (prepare fs out).1.inodes :=
      (Blind.symlink target out).inodes _
    split
    · dsimp only
      split
      · exact .nothing (hlink.trans hinodes)
      · exact .failed (hlink.trans hinodes)
    · exact .failed hinodes

/-- **What `extract` does**, by what it puts. -/
theorem extract_extracted (fs : HostFs) (e : Entry) (out : HostPath) (root : List OsStr)
    (budget : ℕ) :
    Extracted fs e budget (extractPut fs e out root budget) (extract fs e out root budget) := by
  unfold extract extractPut
  cases e.kind with
  | directory => exact extractDir_extracted fs e out
  | regular | continuous => exact extractFile_extracted fs e out budget
  | symlink => exact extractSymlink_extracted fs e out
  | link => exact extractLink_extracted fs e out root
  | other => exact .nothing rfl

end Extract

/-! ## Steps -/

section Step

variable {dest : HostPath} {maxTotal : ℕ} {s : State}

variable {e : Entry} {out : HostPath}

/-- An entry that is not extracted changes no file and no count; a deletion may fail. -/
theorem entryStep_of_not_target (maxTotal : ℕ) (hok : s.failed = none)
    (h : target dest s e = none) :
    (entryStep dest maxTotal s e).fs.inodes = s.fs.inodes ∧
      (entryStep dest maxTotal s e).written = s.written ∧
      ((entryStep dest maxTotal s e).failed = none ∨
        (entryStep dest maxTotal s e).failed = some .io) := by
  have hafter : ∀ r : Res OsStr, r.1.inodes = s.fs.inodes →
      (s.after r).fs.inodes = s.fs.inodes ∧ (s.after r).written = s.written ∧
        ((s.after r).failed = none ∨ (s.after r).failed = some .io) := by
    rintro ⟨fs, res⟩ hinodes
    cases res with
    | ok u => exact ⟨hinodes, rfl, .inl rfl⟩
    | error err => exact ⟨hinodes, rfl, .inr rfl⟩
  unfold target at h
  unfold entryStep
  cases hrel : sanitize e.path with
  | none => exact ⟨rfl, rfl, .inl hok⟩
  | some rel =>
    rw [hrel] at h
    dsimp only at h ⊢
    rcases hwh : whiteout rel with - | (- | t)
    · rw [hwh] at h
      dsimp only at h ⊢
      split_ifs at h ⊢
      exact ⟨rfl, rfl, .inl hok⟩
    · dsimp only
      split_ifs
      · exact hafter _ ((clearDir_blind e.order _).inodes s.fs)
      · exact ⟨rfl, rfl, .inl hok⟩
    · dsimp only
      split_ifs
      · exact hafter _ ((removeAny_blind _).inodes s.fs)
      · exact ⟨rfl, rfl, .inl hok⟩

/-- The state after an answer of `extract`. -/
def State.answered (s : State) (fs : HostFs) : Except FlattenError ℕ → State
  | .ok n => { s with fs, written := s.written + n }
  | .error err => { s with fs, failed := some err }

theorem State.fs_answered (s : State) (fs : HostFs) (res : Except FlattenError ℕ) :
    (s.answered fs res).fs = fs := by
  cases res <;> rfl

theorem entryStep_of_target (h : target dest s e = some out) :
    entryStep dest maxTotal s e =
      s.answered (extract s.fs e out s.root (maxTotal - s.written)).1
        (extract s.fs e out s.root (maxTotal - s.written)).2 := by
  unfold target at h
  unfold entryStep
  cases hrel : sanitize e.path with
  | none =>
    rw [hrel] at h
    cases h
  | some rel =>
    rw [hrel] at h
    dsimp only at h ⊢
    cases hwh : whiteout rel with
    | some w =>
      rw [hwh] at h
      cases h
    | none =>
      rw [hwh] at h
      dsimp only at h ⊢
      split_ifs at h ⊢
      obtain rfl := some.inj h
      split <;> simp only [*, State.answered]

/-- **What a step does**, by what it puts: to the contents of files the put and nothing else, and to
the count what an `extract` with this answer does. -/
theorem step_outcome (dest : HostPath) (maxTotal : ℕ) (hok : s.failed = none) (ev : Event) :
    PutData s.fs (step dest maxTotal s ev).fs (put dest maxTotal s ev) ∧
    ∃ res, PutOutcome (maxTotal - s.written) (put dest maxTotal s ev) res ∧
      (step dest maxTotal s ev).written = (s.answered s.fs res).written ∧
      (step dest maxTotal s ev).failed = (s.answered s.fs res).failed := by
  have hno : ¬ s.failed.isSome = true := by
    rw [hok]
    decide
  unfold step put
  rw [if_neg hno]
  cases ev with
  | layer opens =>
    cases opens with
    | true => exact ⟨putData_of_inodes rfl, _, .nothing, rfl, rfl⟩
    | false => exact ⟨putData_of_inodes rfl, _, .failed, rfl, rfl⟩
  | torn => exact ⟨putData_of_inodes rfl, _, .failed, rfl, rfl⟩
  | entry e =>
    dsimp only
    rw [if_neg hno]
    cases htarget : target dest s e with
    | none =>
      obtain ⟨hinodes, hwritten, hfailed | hfailed⟩ :=
        entryStep_of_not_target maxTotal hok htarget
      · exact ⟨putData_of_inodes hinodes, _, .nothing, hwritten, hfailed.trans hok.symm⟩
      · exact ⟨putData_of_inodes hinodes, _, .failed, hwritten, hfailed⟩
    | some out =>
      have hext := extract_extracted s.fs e out s.root (maxTotal - s.written)
      rw [entryStep_of_target htarget, bind_some]
      refine ⟨?_, _, hext.outcome, ?_⟩
      · rw [State.fs_answered]
        exact hext.data
      · cases (extract s.fs e out s.root (maxTotal - s.written)).2 with
        | ok n => exact ⟨rfl, rfl⟩
        | error err => exact ⟨rfl, rfl⟩

theorem step_of_failed (dest : HostPath) (maxTotal : ℕ) (h : s.failed.isSome = true) (ev : Event) :
    step dest maxTotal s ev = s ∧ put dest maxTotal s ev = none := by
  refine ⟨if_pos h, ?_⟩
  cases ev with
  | entry e => exact if_pos h
  | layer opens => rfl
  | torn => rfl

/-- **What a step does to the contents of files**: the put, and nothing else. -/
theorem data_step (dest : HostPath) (maxTotal : ℕ) (s : State) (ev : Event) :
    PutData s.fs (step dest maxTotal s ev).fs (put dest maxTotal s ev) := by
  by_cases hfailed : s.failed.isSome = true
  · obtain ⟨hstep, hput⟩ := step_of_failed dest maxTotal hfailed ev
    rw [hstep, hput]
    exact putData_of_inodes rfl
  · exact (step_outcome dest maxTotal (by simpa using hfailed) ev).1

end Step

/-! ## The tally of a run -/

/-- The bytes of its own body that an entry puts into a file. -/
def Put.regular : Put → ℕ
  | .entry _ body limit => (body.take limit).length
  | .copy _ _ => 0

/-- The bytes a copy puts into a file. -/
def Put.copied : Put → ℕ
  | .entry _ _ _ => 0
  | .copy _ data => data.length

/-- The size of a regular entry. -/
def Put.size : Put → ℕ
  | .entry _ body _ => body.length
  | .copy _ _ => 0

theorem Put.length_bytes (p : Put) : p.bytes.length = p.regular + p.copied := by
  cases p with
  | entry ino body limit => rfl
  | copy ino data => exact (zero_add _).symm

/-- A state of `flatten_limited`, with all that has been put into files so far. -/
structure Tally where
  state : State
  puts : List Put

namespace Tally

/-- All bytes written into files. -/
def total (t : Tally) : ℕ := (t.puts.map fun p => p.bytes.length).sum

def regular (t : Tally) : ℕ := (t.puts.map Put.regular).sum

def copied (t : Tally) : ℕ := (t.puts.map Put.copied).sum

/-- The sizes of the regular entries that were extracted. -/
def sizes (t : Tally) : ℕ := (t.puts.map Put.size).sum

theorem total_eq (t : Tally) : t.total = t.regular + t.copied := by
  simp [total, regular, copied, Put.length_bytes]

def step (dest : HostPath) (maxTotal : ℕ) (t : Tally) (ev : Event) : Tally :=
  ⟨Image.step dest maxTotal t.state ev, t.puts ++ (put dest maxTotal t.state ev).toList⟩

/-- Before the loop. -/
def start (fs : HostFs) (dest : HostPath) : Tally := ⟨begin fs dest, []⟩

/-- The tally follows the run. -/
theorem state_run (dest : HostPath) (maxTotal : ℕ) (t : Tally) (l : List Event) :
    (Runs.run (step dest maxTotal) t l).state = Runs.run (Image.step dest maxTotal) t.state l := by
  induction l generalizing t with
  | nil => rfl
  | cons ev l ih => exact ih _

/-- What is wanted of the ceiling: the count does not pass it, the bytes in files pass it by one at
most, and unless another error comes first, the size limit is reported exactly when the regular
entries pass it. -/
structure Within (maxTotal : ℕ) (t : Tally) : Prop where
  counted : t.state.written ≤ maxTotal
  bounded : t.total ≤ maxTotal + 1
  limit : t.state.failed ≠ some .io → (t.state.failed = some .sizeLimit ↔ maxTotal < t.sizes)

/-- What the count is: the bytes of regular entries, as long as nothing has failed. -/
structure Accounted (maxTotal : ℕ) (t : Tally) : Prop where
  counted : t.state.written ≤ maxTotal
  regular_le : t.regular ≤ maxTotal + 1
  regular_eq : t.state.failed = none → t.regular = t.state.written
  sizes_eq : t.state.failed = none → t.sizes = t.state.written
  passed : t.state.failed = some .sizeLimit → maxTotal < t.sizes

theorem Accounted.limit {maxTotal : ℕ} {t : Tally} (h : t.Accounted maxTotal)
    (hio : t.state.failed ≠ some .io) :
    t.state.failed = some .sizeLimit ↔ maxTotal < t.sizes := by
  refine ⟨h.passed, fun hlt => ?_⟩
  cases hfailed : t.state.failed with
  | none =>
    have hsizes := h.sizes_eq hfailed
    have hcounted := h.counted
    omega
  | some err =>
    cases err with
    | io => exact absurd hfailed hio
    | sizeLimit => rfl

end Tally

/-- The size of a regular entry is a 64-bit number. -/
def Event.Sized : Event → Prop
  | .entry e => e.body.length < 2 ^ 64
  | _ => True

namespace Tally

section StepFacts

variable (dest : HostPath) (maxTotal : ℕ) (t : Tally)

theorem sum_step (f : Put → ℕ) (ev : Event) :
    ((t.step dest maxTotal ev).puts.map f).sum =
      (t.puts.map f).sum + (put dest maxTotal t.state ev).elim 0 f := by
  rw [step, map_append, sum_append]
  cases put dest maxTotal t.state ev with
  | none => rfl
  | some p => exact congrArg (_ + ·) (add_zero _)

end StepFacts

variable {dest : HostPath} {maxTotal : ℕ} {t : Tally}

variable {ev : Event}

/-- The body that a step puts into a file has a size of 64 bits. -/
theorem length_of_sized (hsized : ev.Sized) {ino limit : ℕ} {body : List UInt8}
    (h : put dest maxTotal t.state ev = some (.entry ino body limit)) : body.length < 2 ^ 64 := by
  cases ev with
  | entry e =>
    unfold put at h
    split_ifs at h
    obtain ⟨out, -, hput⟩ := bind_eq_some_iff.1 h
    rw [(extract_extracted ..).body hput]
    exact hsized
  | layer opens => cases h
  | torn => cases h

/-- A body whose size is a 64-bit number is cut at one byte more than the budget: where the addition
saturates, the body is no longer than that. -/
theorem length_take_copyLimit {body : List UInt8} (hbody : body.length < 2 ^ 64) (budget : ℕ) :
    (body.take (copyLimit budget)).length = min body.length (budget + 1) := by
  have hcut : ∀ {top n : ℕ}, n < top + 1 → min (min (budget + 1) top) n = min n (budget + 1) := by
    omega
  rw [length_take, copyLimit]
  exact hcut hbody

/-- The count stays in order, whatever the outcome. -/
theorem accounted_of_ok (hok : t.state.failed = none) (ha : t.Accounted maxTotal)
    (hsized : ev.Sized) : (t.step dest maxTotal ev).Accounted maxTotal := by
  obtain ⟨-, res, hout, hwritten, hfailed⟩ := step_outcome dest maxTotal hok ev
  have hbody := @length_of_sized dest maxTotal t ev hsized
  have hregular' : (t.step dest maxTotal ev).regular = t.regular + _ := sum_step _ _ _ _ ev
  have hsizes' : (t.step dest maxTotal ev).sizes = t.sizes + _ := sum_step _ _ _ _ ev
  have hcounted := ha.counted
  have hregular := ha.regular_eq hok
  have hsizes := ha.sizes_eq hok
  change (t.step dest maxTotal ev).state.written = _ at hwritten
  change (t.step dest maxTotal ev).state.failed = _ at hfailed
  generalize t.step dest maxTotal ev = t', put dest maxTotal t.state ev = p at *
  cases hout with
  | nothing =>
    simp only [State.answered, elim_none] at *
    refine ⟨by omega, by omega, fun _ => by omega, fun _ => by omega, fun h => ?_⟩
    rw [hfailed, hok] at h
    cases h
  | failed =>
    simp only [State.answered, elim_none] at *
    refine ⟨by omega, by omega, fun h => ?_, fun h => ?_, fun h => ?_⟩
    all_goals
      rw [hfailed] at h
      cases h
  | torn ino body =>
    have hlen := length_take_copyLimit (hbody rfl) (maxTotal - t.state.written)
    simp only [State.answered, elim_some, Put.regular, Put.size, hlen] at *
    refine ⟨by omega, by omega, fun h => ?_, fun h => ?_, fun h => ?_⟩
    all_goals
      rw [hfailed] at h
      cases h
  | passed ino body hover =>
    have hlen := length_take_copyLimit (hbody rfl) (maxTotal - t.state.written)
    simp only [State.answered, elim_some, Put.regular, Put.size, hlen] at *
    refine ⟨by omega, by omega, fun h => ?_, fun h => ?_, fun _ => by omega⟩
    all_goals
      rw [hfailed] at h
      cases h
  | whole ino body hunder =>
    have hlen := length_take_copyLimit (hbody rfl) (maxTotal - t.state.written)
    simp only [State.answered, elim_some, Put.regular, Put.size, hlen] at *
    refine ⟨by omega, by omega, fun _ => by omega, fun _ => by omega, fun h => ?_⟩
    rw [hfailed, hok] at h
    cases h
  | copied ino data =>
    simp only [State.answered, elim_some, Put.regular, Put.size] at *
    refine ⟨by omega, by omega, fun _ => by omega, fun _ => by omega, fun h => ?_⟩
    rw [hfailed, hok] at h
    cases h

/-- **One step**: the count stays in order, and only a copy that is not empty adds to the copies. -/
theorem step_accounted (ha : t.Accounted maxTotal) (hsized : ev.Sized) :
    (t.step dest maxTotal ev).Accounted maxTotal ∧
      (t.step dest maxTotal ev).copied =
        t.copied + (put dest maxTotal t.state ev).elim 0 Put.copied := by
  refine ⟨?_, sum_step dest maxTotal t Put.copied ev⟩
  by_cases hfailed : t.state.failed.isSome = true
  · obtain ⟨hstate, hput⟩ := step_of_failed dest maxTotal hfailed ev
    have hstep : t.step dest maxTotal ev = t := by
      rw [step, hput, hstate]
      exact congrArg (Tally.mk t.state) (append_nil _)
    rwa [hstep]
  · exact accounted_of_ok (by simpa using hfailed) ha hsized

/-- Nothing is counted, and nothing written, before the loop. -/
theorem start_accounted (fs : HostFs) (dest : HostPath) (maxTotal : ℕ) :
    (start fs dest).Accounted maxTotal := by
  have hbegin : (begin fs dest).written = 0 ∧ (begin fs dest).failed ≠ some .sizeLimit := by
    unfold begin
    dsimp only
    split
    · exact ⟨rfl, by simp⟩
    · split
      · exact ⟨rfl, by simp⟩
      · exact ⟨rfl, by simp⟩
  obtain ⟨hwritten, hfailed⟩ := hbegin
  refine ⟨?_, Nat.zero_le _, fun _ => hwritten.symm, fun _ => hwritten.symm,
    fun h => absurd h hfailed⟩
  exact Nat.le_trans (Nat.le_of_eq hwritten) (Nat.zero_le _)

/-- As long as nothing has been copied, the count is all there is. -/
theorem Accounted.within (ha : t.Accounted maxTotal) (hcopied : t.copied = 0) :
    t.Within maxTotal := by
  refine ⟨ha.counted, ?_, ha.limit⟩
  rw [total_eq, hcopied]
  exact ha.regular_le

end Tally

/-! ## Links that are made -/

/-- There is nothing to copy: the path leads to no file with anything in it. -/
def Hollow (fs : HostFs) (src : HostPath) : Prop :=
  ∀ c ino, fs.canonicalize src = some c → fs.get c = some (.file ino) → (fs.inodes ino).data = []

/-- A hard link that is extracted is made, once the way is prepared, or there is nothing to copy in
its place. -/
def Entry.Linked (dest : HostPath) (s : State) (e : Entry) : Prop :=
  e.kind = .link → ∀ out src, target dest s e = some out → e.source out = some src →
    withinRoot s.fs s.root src = true → (prepare s.fs out).2 = .ok () →
    (e.linkRefused = false ∧ ((prepare s.fs out).1.hardLink src out).2 = .ok ()) ∨
      Hollow (prepare s.fs out).1 src

def Event.Linked (dest : HostPath) (s : State) : Event → Prop
  | .entry e => s.failed = none → e.Linked dest s
  | _ => True

section Linked

variable {dest out src : HostPath} {maxTotal budget : ℕ} {s : State} {fs : HostFs} {e : Entry}

theorem copyPut_of_hollow (h : Hollow fs src) :
    (copyPut fs src out).elim 0 Put.copied = 0 := by
  unfold copyPut
  split
  · rfl
  · rename_i c hc
    split
    · rename_i ino hget
      split
      · exact length_eq_zero_iff.2 (h c ino hc hget)
      · rfl
    · rfl

theorem linkOrCopyPut_of_linked {refused : Bool}
    (h : (refused = false ∧ (fs.hardLink src out).2 = .ok ()) ∨ Hollow fs src) :
    (linkOrCopyPut fs refused src out).elim 0 Put.copied = 0 := by
  unfold linkOrCopyPut
  rcases h with ⟨rfl, hok⟩ | hhollow
  · simp [hok]
  · cases refused with
    | true => exact copyPut_of_hollow hhollow
    | false =>
      rcases Fs.hardLink_cases fs src out with hok | ⟨f, hfail⟩
      · simp [hok]
      · simpa [hfail] using copyPut_of_hollow hhollow

/-- **Nothing is copied** where every hard link is made or has nothing in it. -/
theorem put_of_linked {ev : Event} (h : ev.Linked dest s) :
    (put dest maxTotal s ev).elim 0 Put.copied = 0 := by
  cases ev with
  | layer opens => rfl
  | torn => rfl
  | entry e =>
    unfold put
    dsimp only
    split_ifs with hfailed
    · rfl
    · cases htarget : target dest s e with
      | none => rfl
      | some out =>
        rw [bind_some]
        have hlinked := h (by simpa using hfailed)
        unfold extractPut
        cases hkind : e.kind with
        | directory | symlink | other => rfl
        | regular | continuous =>
          dsimp only
          unfold filePut
          split
          · rfl
          · split <;> rfl
        | link =>
          dsimp only
          unfold linkPut
          cases hsrc : e.source out with
          | none => rfl
          | some src =>
            dsimp only
            split_ifs with hwithin
            · have hprep := hlinked hkind out src htarget hsrc hwithin
              cases hmk : prepare s.fs out with
              | mk fs res =>
                rw [hmk] at hprep
                cases res with
                | error err => rfl
                | ok u => exact linkOrCopyPut_of_linked (hprep rfl)
            · rfl

end Linked

/-! ## The ceiling -/

section Ceiling

variable (fs : HostFs) (layers : List Layer) (dest : HostPath) (maxTotal : ℕ)

/-- The end of `flatten_limited`, with all that was put into files. -/
def tally : Tally :=
  Runs.run (Tally.step dest maxTotal) (Tally.start fs dest) (layers.flatMap Layer.events)

variable {layers} in
/-- A condition on the entries of the layers, seen along the run. -/
theorem each_entry {P : Event → Prop} (hlayer : ∀ opens, P (.layer opens)) (htorn : P .torn)
    (h : ∀ l ∈ layers, ∀ e ∈ l.entries, P (.entry e)) :
    Runs.Each (Tally.step dest maxTotal) (fun _ ev => P ev) (Tally.start fs dest)
      (layers.flatMap Layer.events) := by
  refine Runs.each_of_forall fun ev hev => ?_
  obtain ⟨l, hl, hmem⟩ := mem_flatMap.1 hev
  rcases mem_append.1 hmem with hmem | hmem
  · rcases mem_cons.1 hmem with rfl | hmem
    · exact hlayer l.opens
    · obtain ⟨e, he, rfl⟩ := mem_map.1 hmem
      exact h l hl e he
  · split_ifs at hmem
    · rw [mem_singleton.1 hmem]
      exact htorn
    · cases hmem

/-- A condition on the states of `flatten_limited`, seen along the tally. -/
theorem each_state {ok : State → Event → Prop} (t : Tally) (l : List Event) :
    Runs.Each (Tally.step dest maxTotal) (fun t ev => ok t.state ev) t l ↔
      Runs.Each (step dest maxTotal) ok t.state l := by
  induction l generalizing t with
  | nil => exact Iff.rfl
  | cons ev l ih => exact and_congr_right fun _ => ih _

/-- **When the ceiling is exact.**  If every hard link is made, or has nothing in it to copy, then
in every state of a run of `flatten_limited` the count is below the ceiling, the bytes in files pass
it by one at most, and the size limit is reported exactly when the regular entries pass it.  The
tally follows the run, and what a step changes in files is what it puts there. -/
theorem ceiling_of_linked (hsized : ∀ l ∈ layers, ∀ e ∈ l.entries, e.body.length < 2 ^ 64)
    (hlinked : Runs.Each (step dest maxTotal) (Event.Linked dest) (begin fs dest)
      (layers.flatMap Layer.events)) (k : ℕ) :
    let t := Runs.run (Tally.step dest maxTotal) (Tally.start fs dest)
      ((layers.flatMap Layer.events).take k)
    t.state = Runs.run (step dest maxTotal) (begin fs dest) ((layers.flatMap Layer.events).take k) ∧
      (∀ ev, PutData t.state.fs (step dest maxTotal t.state ev).fs
        (put dest maxTotal t.state ev)) ∧
      t.Within maxTotal := by
  have hevents := Runs.each_and.2 ⟨(each_state dest maxTotal (Tally.start fs dest) _).2 hlinked,
    each_entry fs dest maxTotal (P := Event.Sized) (fun _ => trivial) trivial hsized⟩
  -- the count stays in order and nothing is copied
  have hinv := Runs.invariant (I := fun t : Tally => t.Accounted maxTotal ∧ t.copied = 0)
    (fun t ev ht hev => by
      obtain ⟨ha, hcopied⟩ : (t.step dest maxTotal ev).Accounted maxTotal ∧ _ :=
        Tally.step_accounted ht.1 hev.2
      refine ⟨ha, ?_⟩
      rw [hcopied, ht.2, put_of_linked hev.1])
    ⟨Tally.start_accounted fs dest maxTotal, rfl⟩ (Runs.each_take hevents k)
  exact ⟨Tally.state_run dest maxTotal _ _, fun ev => data_step dest maxTotal _ ev,
    hinv.1.within hinv.2⟩

end Ceiling

section Example

/-- A file of one byte and two hard links to it that the host refuses. -/
def refusedTwice : Layer :=
  ⟨true,
    [{ topEntry ['a'] .regular none with body := [7] },
      { topEntry ['b'] .link (some ⟨false, [.normal (.utf8 ['a'])], .bare⟩) with
        linkRefused := true },
      { topEntry ['c'] .link (some ⟨false, [.normal (.utf8 ['a'])], .bare⟩) with
        linkRefused := true }],
    false⟩

/-- The same file and one link to it, which is made. -/
def linkedOnce : Layer :=
  ⟨true,
    [{ topEntry ['a'] .regular none with body := [7] },
      topEntry ['b'] .link (some ⟨false, [.normal (.utf8 ['a'])], .bare⟩)],
    false⟩

/-- Below a ceiling of one byte, one byte is written. -/
theorem ceiling_of_linked_linkedOnce :
    let t := tally hostFs [linkedOnce] imageDir 1
    t.total = 1 ∧ t.state = flattenLimited hostFs [linkedOnce] imageDir 1 ∧ t.Within 1 := by
  have hlinked : Runs.Each (step imageDir 1) (Event.Linked imageDir) (begin hostFs imageDir)
      ([linkedOnce].flatMap Layer.events) := by
    refine ⟨trivial, ?_, ?_, trivial⟩
    · rintro - ⟨⟩
    · rintro - - out src hout hsrc - -
      obtain rfl := some.inj hout
      obtain rfl := some.inj hsrc
      exact .inl (by decide)
  obtain ⟨hstate, -, hwithin⟩ :=
    ceiling_of_linked hostFs [linkedOnce] imageDir 1 (by decide) hlinked 3
  exact ⟨by decide, hstate, hwithin⟩

/-- **Copies are not counted.**  A ceiling of one byte: one byte is counted and no error reported,
and three files hold one byte each. -/
theorem copies_uncounted :
    let s := flattenLimited hostFs [refusedTwice] imageDir 1
    let t := tally hostFs [refusedTwice] imageDir 1
    s.failed = none ∧ s.written = 1 ∧
    (t.puts.map fun p => (p.ino, (s.fs.inodes p.ino).data)) = [(1, [7]), (2, [7]), (3, [7])] ∧
    ¬ t.Within 1 := by
  refine ⟨by decide, by decide, by decide, fun h => ?_⟩
  have htotal : (tally hostFs [refusedTwice] imageDir 1).total = 3 := by decide
  have hbounded := h.bounded
  omega

end Example

end Amber.Image
