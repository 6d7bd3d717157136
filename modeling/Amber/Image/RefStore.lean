import Mathlib.Data.Finmap
import Amber.Lib.Runs

/-!
# The reference map

`refs.json` remembers which content id a reference was last resolved to, so that a later build
can do without the registry.  `ref_store` of `amber-image/src/lib.rs` reads the map, adds an
entry, writes the whole to a temporary file of its process and renames that over `refs.json`.  A
map that is missing or cannot be parsed counts as empty.

Here two processes store different references, in any interleaving of these three steps.  The
temporary files are their own and the rename is atomic, so `refs.json` is a whole map at all
times; but what is written is the map as it was when it was read.  JSON is a parameter.

* `Sound` — each call carries a map with its own entry, and the map is what the calls that are
  over have left.
* `kept_iff` — both entries are in the map when both calls are over, exactly when no call renames
  while the other carries a map without its entry.
* `update_lost` — both read, both write, both rename: the entry of the first is gone.
-/

namespace Amber.Image

open Function

/-- `HashMap<String, String>`. -/
abbrev RefMap := Finmap fun _ : List Char => List Char

/-- `serde_json` on such maps: what is written can be read. -/
structure RefJson (Text : Type) where
  toJson : RefMap → Text
  fromJson : Text → Option RefMap
  fromJson_toJson : ∀ map, fromJson (toJson map) = some map

/-- The files that a call touches. -/
inductive RefPath
  | refs
  /-- `refs_path.with_extension(format!("json.{}.tmp", std::process::id()))`. -/
  | tmp (pid : ℕ)
deriving DecidableEq

abbrev RefFiles (Text : Type) := RefPath → Option Text

/-- One call of `ref_store`. -/
structure RefCall where
  pid : ℕ
  reference : List Char
  id : List Char

/-- How far a call has got. -/
inductive RefStage
  | start
  /-- The map has been read and the entry added. -/
  | read (map : RefMap)
  /-- The temporary file has been written. -/
  | written
  | done

variable {Text : Type} (J : RefJson Text)

/-! ## The functions of the source -/

def refLookup (files : RefFiles Text) (reference : List Char) : Option (List Char) :=
  ((files .refs).bind J.fromJson).bind fun map => map.lookup reference

/-- The map that `ref_store` starts from. -/
def refMap (files : RefFiles Text) : RefMap := ((files .refs).bind J.fromJson).getD ∅

/-- The next step of a call; `ok` is whether the host lets a write or a rename through. -/
def refStore (c : RefCall) (ok : Bool) (files : RefFiles Text) :
    RefStage → RefFiles Text × RefStage
  | .start => (files, .read ((refMap J files).insert c.reference c.id))
  | .read map =>
    if ok then (Function.update files (.tmp c.pid) (some (J.toJson map)), .written)
    else (files, .done)
  | .written =>
    if ok then
      (Function.update (Function.update files .refs (files (.tmp c.pid))) (.tmp c.pid) none, .done)
    else (files, .done)
  | .done => (files, .done)

theorem refLookup_eq (files : RefFiles Text) (reference : List Char) :
    refLookup J files reference = (refMap J files).lookup reference := by
  unfold refLookup refMap
  cases (files .refs).bind J.fromJson with
  | none => rfl
  | some map => rfl

/-! ## Two calls at a time -/

/-- Two calls from different processes, on different references. -/
structure RefPair where
  call : Bool → RefCall
  pid_ne : ∀ x, (call (!x)).pid ≠ (call x).pid
  reference_ne : ∀ x, (call (!x)).reference ≠ (call x).reference

structure RefSys (Text : Type) where
  files : RefFiles Text
  stage : Bool → RefStage

namespace RefSys

def begin (files : RefFiles Text) : RefSys Text := ⟨files, fun _ => .start⟩

variable (P : RefPair)

/-- Call `a.1` takes its next step, which the host lets through or not. -/
def step (s : RefSys Text) (a : Bool × Bool) : RefSys Text :=
  let r := refStore J (P.call a.1) a.2 s.files (s.stage a.1)
  ⟨r.1, Function.update s.stage a.1 r.2⟩

/-- The map that a call has read, added to and not yet put in place. -/
def carried (s : RefSys Text) (x : Bool) : Option RefMap :=
  match s.stage x with
  | .read map => some map
  | .written => (s.files (.tmp (P.call x).pid)).bind J.fromJson
  | .start => none
  | .done => none

/-- What a step of call `x` leaves: the map in place, the map that `x` carries, how far `x` has
got.  Of the other call nothing changes. -/
structure Stepped (s s' : RefSys Text) (x : Bool) (map : RefMap) (mine : Option RefMap)
    (stage : RefStage) : Prop where
  map_eq : refMap J s'.files = map
  mine_eq : s'.carried J P x = mine
  other_eq : s'.carried J P (!x) = s.carried J P (!x)
  stage_eq : s'.stage x = stage
  stage_other : s'.stage (!x) = s.stage (!x)

section Steps

variable {J P} {s : RefSys Text} {x : Bool} {map : RefMap}

theorem update_not (f : Bool → RefStage) (st : RefStage) :
    Function.update f x st (!x) = f (!x) :=
  update_of_ne (by simp) ..

theorem carried_of_read (h : s.stage x = .read map) :
    s.carried J P x = some map := by
  rw [carried, h]

theorem carried_of_written (h : s.stage x = .written) :
    s.carried J P x = (s.files (.tmp (P.call x).pid)).bind J.fromJson := by
  rw [carried, h]

theorem carried_of_start (h : s.stage x = .start) : s.carried J P x = none := by
  rw [carried, h]

theorem carried_of_done (h : s.stage x = .done) : s.carried J P x = none := by
  rw [carried, h]

theorem carried_congr {s' : RefSys Text} (hstage : s'.stage x = s.stage x)
    (htmp : s'.files (.tmp (P.call x).pid) = s.files (.tmp (P.call x).pid)) :
    s'.carried J P x = s.carried J P x := by
  rw [carried, carried, hstage, htmp]

theorem tmp_ne (x : Bool) : RefPath.tmp (P.call (!x)).pid ≠ .tmp (P.call x).pid :=
  fun h => P.pid_ne x (RefPath.tmp.inj h)

theorem stepped_start (h : s.stage x = .start) :
    let map := (refMap J s.files).insert (P.call x).reference (P.call x).id
    Stepped J P s (step J P s (x, true)) x (refMap J s.files) (some map) (.read map) := by
  intro map
  have heq : step J P s (x, true) = ⟨s.files, update s.stage x (.read map)⟩ := by
    rw [step, h]
    rfl
  rw [heq]
  exact ⟨rfl, carried_of_read (update_self ..), carried_congr (update_not _ _) rfl,
    update_self .., update_not _ _⟩

theorem stepped_read (h : s.stage x = .read map) :
    Stepped J P s (step J P s (x, true)) x (refMap J s.files) (some map) .written := by
  have heq : step J P s (x, true) =
      ⟨update s.files (.tmp (P.call x).pid) (some (J.toJson map)),
        update s.stage x .written⟩ := by
    rw [step, h]
    rfl
  rw [heq]
  refine ⟨?_, ?_, carried_congr (update_not _ _) (update_of_ne (tmp_ne x) ..),
    update_self .., update_not _ _⟩
  · rw [refMap, refMap]
    dsimp only
    rw [update_of_ne (by simp)]
  · rw [carried_of_written (update_self ..)]
    dsimp only
    rw [update_self, Option.bind_some, J.fromJson_toJson]

theorem stepped_written (h : s.stage x = .written) (hmap : s.carried J P x = some map) :
    Stepped J P s (step J P s (x, true)) x map none .done := by
  have heq : step J P s (x, true) =
      ⟨update (update s.files .refs (s.files (.tmp (P.call x).pid)))
        (.tmp (P.call x).pid) none, update s.stage x .done⟩ := by
    rw [step, h]
    rfl
  rw [carried_of_written h] at hmap
  rw [heq]
  refine ⟨?_, carried_of_done (update_self ..), carried_congr (update_not _ _) ?_,
    update_self .., update_not _ _⟩
  · rw [refMap]
    dsimp only
    rw [update_of_ne (by simp), update_self, hmap, Option.getD_some]
  · exact (update_of_ne (tmp_ne x) ..).trans (update_of_ne (by simp) ..)

theorem step_done (h : s.stage x = .done) (ok : Bool) : step J P s (x, ok) = s := by
  rw [step, h]
  show RefSys.mk s.files (update s.stage x .done) = s
  rw [← h, update_eq_self]

end Steps

/-! ## What holds at all times -/

/-- A map has the entry of call `x`. -/
def Has (map : RefMap) (x : Bool) : Prop := map.lookup (P.call x).reference = some (P.call x).id

/-- What holds however the calls take their turns, from a map `base`. -/
structure Sound (base : RefMap) (s : RefSys Text) : Prop where
  own : ∀ x map, s.carried J P x = some map → Has P map x
  tmp : ∀ x, s.stage x = .written → ∃ map, s.carried J P x = some map
  left : ∀ x, s.stage x = .done → s.stage (!x) ≠ .done → Has P (refMap J s.files) x
  others : ∀ r, (∀ x, r ≠ (P.call x).reference) → (refMap J s.files).lookup r = base.lookup r ∧
    ∀ x map, s.carried J P x = some map → map.lookup r = base.lookup r

/-- Nothing is lost: the entries of the calls that are over are in `refs.json`, and in a map that
is going to replace it. -/
def Safe (s : RefSys Text) : Prop :=
  ∀ x, s.stage x = .done → Has P (refMap J s.files) x ∧
    ∀ map, s.carried J P (!x) = some map → Has P map x

/-- A call that renames does so while the other carries no map without its entry. -/
def Free (s : RefSys Text) (a : Bool × Bool) : Prop :=
  s.stage a.1 = .written → ∀ map, s.carried J P (!a.1) = some map → Has P map a.1

section Invariant

variable {J P} {base : RefMap} {s s' : RefSys Text} {x : Bool} {map : RefMap}
  {mine : Option RefMap} {st : RefStage}

theorem sound_begin (files : RefFiles Text) : Sound J P (refMap J files) (begin files) where
  own x map h := by
    cases h
  tmp x h := by cases h
  left x h := by cases h
  others r _ := by
    refine ⟨rfl, fun x map h => ?_⟩
    cases h

/-- A map that is carried after a step of `x` is that of `x` or was carried before. -/
theorem Stepped.carried (h : Stepped J P s s' x map mine st) {z : Bool} {m : RefMap}
    (hz : s'.carried J P z = some m) : (z = x ∧ mine = some m) ∨ s.carried J P z = some m := by
  rcases Bool.eq_or_eq_not z x with rfl | rfl
  · exact .inl ⟨rfl, h.mine_eq.symm.trans hz⟩
  · exact .inr (h.other_eq.symm.trans hz)

theorem Sound.stepped (hs : Sound J P base s) (h : Stepped J P s s' x map mine st)
    (hown : ∀ m, mine = some m → Has P m x) (htmp : st = .written → ∃ m, mine = some m)
    (hleft : st = .done → Has P map x)
    (hother : st ≠ .done → s.stage (!x) = .done → Has P map (!x))
    (hrest : ∀ r, (∀ x, r ≠ (P.call x).reference) → map.lookup r = base.lookup r ∧
      ∀ m, mine = some m → m.lookup r = base.lookup r) : Sound J P base s' where
  own z m hz := by
    rcases h.carried hz with ⟨rfl, hmine⟩ | hz
    · exact hown m hmine
    · exact hs.own z m hz
  tmp z hz := by
    rcases Bool.eq_or_eq_not z x with rfl | rfl
    · rw [h.mine_eq]
      exact htmp (h.stage_eq.symm.trans hz)
    · rw [h.other_eq]
      exact hs.tmp _ (h.stage_other.symm.trans hz)
  left z hz hnot := by
    rw [h.map_eq]
    rcases Bool.eq_or_eq_not z x with rfl | rfl
    · exact hleft (h.stage_eq.symm.trans hz)
    · rw [Bool.not_not, h.stage_eq] at hnot
      exact hother hnot (h.stage_other.symm.trans hz)
  others r hr := by
    rw [h.map_eq]
    refine ⟨(hrest r hr).1, fun z m hz => ?_⟩
    rcases h.carried hz with ⟨rfl, hmine⟩ | hz
    · exact (hrest r hr).2 m hmine
    · exact (hs.others r hr).2 z m hz

theorem Sound.left_other (hs : Sound J P base s) (hx : s.stage x = st) (hst : st ≠ .done)
    (hother : s.stage (!x) = .done) : Has P (refMap J s.files) (!x) := by
  refine hs.left (!x) hother ?_
  rwa [Bool.not_not, hx]

theorem Sound.step (hs : Sound J P base s) (x : Bool) :
    Sound J P base (step J P s (x, true)) := by
  cases hst : s.stage x with
  | start =>
    have hkeep := hs.left_other hst RefStage.noConfusion
    refine hs.stepped (stepped_start hst) ?_ ?_ ?_ (fun _ => hkeep) ?_
    · rintro m ⟨⟩
      exact Finmap.lookup_insert _
    · exact nofun
    · exact nofun
    · intro r hr
      refine ⟨(hs.others r hr).1, ?_⟩
      rintro m ⟨⟩
      exact (Finmap.lookup_insert_of_ne _ (hr x)).trans (hs.others r hr).1
  | read m =>
    have hkeep := hs.left_other hst RefStage.noConfusion
    have hm := carried_of_read (J := J) (P := P) hst
    refine hs.stepped (stepped_read hst) ?_ (fun _ => ⟨m, rfl⟩) ?_ (fun _ => hkeep) ?_
    · rintro m ⟨⟩
      exact hs.own x m hm
    · exact nofun
    · intro r hr
      refine ⟨(hs.others r hr).1, ?_⟩
      rintro m ⟨⟩
      exact (hs.others r hr).2 x m hm
  | written =>
    obtain ⟨m, hm⟩ := hs.tmp x hst
    refine hs.stepped (stepped_written hst hm) ?_ ?_ (fun _ => hs.own x m hm) ?_ ?_
    · exact nofun
    · exact nofun
    · exact fun h => absurd rfl h
    · exact fun r hr => ⟨(hs.others r hr).2 x m hm, nofun⟩
  | done =>
    rw [step_done hst]
    exact hs

theorem Stepped.safe_iff (h : Stepped J P s s' x map mine st) : Safe J P s' ↔
    (st = .done → Has P map x ∧ ∀ m, s.carried J P (!x) = some m → Has P m x) ∧
    (s.stage (!x) = .done → Has P map (!x) ∧ ∀ m, mine = some m → Has P m (!x)) := by
  rw [Safe, Bool.forall_bool' x, h.stage_eq, h.map_eq, h.other_eq, h.stage_other, Bool.not_not,
    h.mine_eq]

theorem free_of_ne (hx : s.stage x = st) (hst : st ≠ .written) : Free J P s (x, true) :=
  fun h => absurd (hx.symm.trans h) hst

/-- Until it renames, a call loses nothing: its map has what the map in place has. -/
theorem Safe.next (hsafe : Safe J P s) (h : Stepped J P s s' x (refMap J s.files) (some map) st)
    (hst : st ≠ .done) (hmap : ∀ m, s.carried J P x = some m → m = map)
    (hnew : s.carried J P x = none → Has P (refMap J s.files) (!x) → Has P map (!x)) :
    Safe J P s' := by
  refine h.safe_iff.2 ⟨fun hdone => absurd hdone hst, fun hother => ?_⟩
  obtain ⟨hplace, hcarried⟩ := hsafe (!x) hother
  rw [Bool.not_not] at hcarried
  refine ⟨hplace, ?_⟩
  rintro m ⟨⟩
  cases hc : s.carried J P x with
  | none => exact hnew hc hplace
  | some m =>
    rw [← hmap m hc]
    exact hcarried m hc

/-- From a state where nothing is lost, a step loses something exactly when it is a rename that is
not free to take place. -/
theorem safe_step_iff (hs : Sound J P base s) (hsafe : Safe J P s) (x : Bool) :
    Safe J P (RefSys.step J P s (x, true)) ↔ Free J P s (x, true) := by
  cases hst : s.stage x with
  | start =>
    refine iff_of_true ?_ (free_of_ne hst RefStage.noConfusion)
    refine hsafe.next (stepped_start hst) RefStage.noConfusion (fun m h => ?_) fun _ h => ?_
    · rw [carried_of_start hst] at h
      cases h
    · exact (Finmap.lookup_insert_of_ne _ (P.reference_ne x)).trans h
  | read m =>
    have hm := carried_of_read (J := J) (P := P) hst
    refine iff_of_true ?_ (free_of_ne hst RefStage.noConfusion)
    refine hsafe.next (stepped_read hst) RefStage.noConfusion (fun m' h => ?_) fun h => ?_
    · exact Option.some.inj (h.symm.trans hm)
    · rw [hm] at h
      cases h
  | written =>
    obtain ⟨m, hm⟩ := hs.tmp x hst
    rw [(stepped_written hst hm).safe_iff]
    constructor
    · exact fun h _ => (h.1 rfl).2
    · refine fun h => ⟨fun _ => ⟨hs.own x m hm, h hst⟩, fun hother => ?_⟩
      refine ⟨(hsafe (!x) hother).2 m ?_, nofun⟩
      rwa [Bool.not_not]
  | done =>
    rw [step_done hst]
    exact iff_of_true hsafe (free_of_ne hst RefStage.noConfusion)

/-- What is lost stays lost. -/
theorem safe_of_step (hs : Sound J P base s)
    (hsafe : Safe J P (RefSys.step J P s (x, true))) : Safe J P s := by
  by_cases hdone : s.stage x = .done
  · rwa [step_done hdone] at hsafe
  · rw [Safe, Bool.forall_bool' x, Bool.not_not]
    refine ⟨fun h => absurd h hdone, fun hother => ⟨hs.left_other rfl hdone hother, ?_⟩⟩
    intro m hm
    cases hst : s.stage x with
    | start =>
      rw [carried_of_start hst] at hm
      cases hm
    | read m' =>
      rw [carried_of_read hst] at hm
      exact (((stepped_read hst).safe_iff.1 hsafe).2 hother).2 m hm
    | written => exact (((stepped_written hst hm).safe_iff.1 hsafe).2 hother).1
    | done => exact absurd hst hdone

end Invariant

/-! ## Both calls -/

/-- Both entries are in `refs.json`, and every other entry is as it was. -/
def Kept (files files' : RefFiles Text) : Prop :=
  (∀ x, refLookup J files' (P.call x).reference = some (P.call x).id) ∧
    ∀ r, (∀ x, r ≠ (P.call x).reference) → refLookup J files' r = refLookup J files r

/-- **When no update is lost.**  Let the two calls take their steps in any order, until both are
over, the host letting each through.  Then both entries are in the map and no other has changed,
exactly when each call that renamed did so while the other carried no map without its entry: it had
not read yet, was over, or had read after this call's entry was in place. -/
theorem kept_iff (files : RefFiles Text) (l : List (Bool × Bool)) (hok : ∀ a ∈ l, a.2 = true)
    (hdone : ∀ x, (Runs.run (step J P) (begin files) l).stage x = .done) :
    Kept J P files (Runs.run (step J P) (begin files) l).files ↔
      Runs.Each (step J P) (Free J P) (begin files) l := by
  have hstep : ∀ s a, Sound J P (refMap J files) s → a.2 = true →
      Sound J P (refMap J files) (step J P s a) := by
    rintro s ⟨x, _⟩ hs rfl
    exact hs.step x
  have hl : Runs.Each (step J P) (fun _ a => a.2 = true) (begin files) l :=
    Runs.each_of_forall hok
  have hend := Runs.invariant hstep (sound_begin files) hl
  rw [← Runs.end_iff_each (P := Safe J P) hstep ?_ ?_ (sound_begin files) ?_ hl]
  · generalize Runs.run (step J P) (begin files) l = s at hdone hend
    constructor
    · intro h x _
      refine ⟨(refLookup_eq J s.files _).symm.trans (h.1 x), fun m hm => ?_⟩
      rw [carried_of_done (hdone _)] at hm
      cases hm
    · intro h
      refine ⟨fun x => (refLookup_eq J s.files _).trans (h x (hdone x)).1, fun r hr => ?_⟩
      rw [refLookup_eq, refLookup_eq]
      exact (hend.others r hr).1
  · rintro s ⟨x, _⟩ hs rfl hsafe
    exact safe_step_iff hs hsafe x
  · rintro s ⟨x, _⟩ hs rfl hlost hsafe
    exact hlost (safe_of_step hs hsafe)
  · exact nofun

/-- A map as its own text. -/
def plainJson : RefJson RefMap := ⟨id, some, fun _ => rfl⟩

/-- Two builds, of `a` and of `b`. -/
def twoBuilds : RefPair where
  call x := if x then ⟨2, ['b'], ['2']⟩ else ⟨1, ['a'], ['1']⟩
  pid_ne := by decide
  reference_ne := by decide

/-- One build after the other keeps both entries. -/
theorem kept_inTurn :
    Kept plainJson twoBuilds (fun _ => none)
      (Runs.run (step plainJson twoBuilds) (begin fun _ => none)
        [(false, true), (false, true), (false, true), (true, true), (true, true),
          (true, true)]).files := by
  refine (kept_iff plainJson twoBuilds _ _ (by decide) ?_).2 ?_
  · intro x
    cases x <;> rfl
  · exact ⟨nofun, nofun, fun _ _ => nofun, nofun, nofun, fun _ _ => nofun, trivial⟩

/-- Both read, both write, both rename: the entry of the first build is gone. -/
theorem update_lost :
    let s := Runs.run (step plainJson twoBuilds) (begin fun _ => none)
      [(false, true), (true, true), (false, true), (true, true), (false, true), (true, true)]
    (∀ x, s.stage x = .done) ∧ refLookup plainJson s.files ['a'] = none ∧
      ¬ Kept plainJson twoBuilds (fun _ => none) s.files := by
  intro s
  have hlost : refLookup plainJson s.files ['a'] = none := rfl
  refine ⟨fun x => by cases x <;> rfl, hlost, fun h => ?_⟩
  have hkept : refLookup plainJson s.files ['a'] = some ['1'] := h.1 false
  cases hkept

end RefSys

end Amber.Image
