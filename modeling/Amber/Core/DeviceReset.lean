import Amber.Core.BlkStatus
import Amber.Core.PumpBound
import Amber.Core.VirtioTransparency
import Amber.Core.Vsock

/-!
# Device reset

A driver resets a device by writing 0 to STATUS, after which it may take the transport for a new
one.  `reset` of `amber-core/src/virtio.rs` clears the queues and the interrupt status.  It
leaves the two selector registers as they are, and the payload that a receive pump has held back.

A payload comes to be held back because the guest runs while the pump does.  The pump reads the
available index, takes a payload from the device, and then reads the index again to place it;
between the two the guest may have taken its buffer back.

* `RacedPump` — a receive pump with the guest writing in RAM meanwhile.
* `Reached.sound` — where a payload was held back there is a receive queue, and RAM has room for
  its available index.
* `resetsFresh_iff` — a reset transport is as a new one exactly when nothing had been selected
  and nothing is held back.
* `reset_remembers` — a transport with a queue selected, and one that delivers a frame of before
  the reset.
-/

namespace Amber

open GuestRam VirtioDevice List Option

/-- From one RAM to the other, what is in it may have changed. -/
def Rewritten (ram ram' : GuestRam) : Prop := ChangesOnly (fun _ => True) ram ram'

variable {ram ram' : GuestRam}

theorem rewritten_iff :
    Rewritten ram ram' ↔ ram'.base = ram.base ∧ ram'.len = ram.len :=
  ⟨fun h => ⟨h.base_eq, h.len_eq⟩, fun h => ⟨h.1, h.2, fun _ _ hg => absurd trivial hg⟩⟩

theorem GuestRam.ChangesOnly.rewritten {P : ℕ → Prop}
    (h : ChangesOnly P ram ram') : Rewritten ram ram' :=
  h.mono fun _ _ => trivial

theorem with_host (h : Rewritten ram ram') :
    { ram with host := ram'.host } = ram' := by
  obtain ⟨hbase, hlen⟩ := rewritten_iff.1 h
  rw [← hbase, ← hlen]

theorem rewritten_pushUsed (ram : GuestRam) (used id len qsz : ℕ) :
    Rewritten ram (pushUsed ram used id len qsz) := by
  unfold pushUsed
  split_ifs
  · exact ChangesOnly.refl _ ram
  · exact ((changesOnly_writeU32 ram _ id).rewritten.trans
      (changesOnly_writeU32 _ _ len).rewritten).trans (changesOnly_writeU16 _ _ _).rewritten

/-- A read that a rewriting changes is a read inside RAM. -/
theorem inRange_of_readU16_ne (h : Rewritten ram ram') {a : ℕ}
    (hne : ram.readU16 a ≠ ram'.readU16 a) : ram'.inRange a 2 = true := by
  by_contra hout
  refine hne ?_
  have hoff' : ram'.offset a 2 = none := by
    rwa [inRange, Bool.not_eq_true, isSome_eq_false_iff, isNone_iff_eq_none] at hout
  have hoff : ram.offset a 2 = none := (h.offset_eq a 2).symm.trans hoff'
  rw [readU16, readU16, GuestRam.read, GuestRam.read, hoff, hoff']

theorem length_restoreQueues (qs : List Queue) (vs) :
    (restoreQueues qs vs).length = qs.length := by
  induction qs generalizing vs with
  | nil => rfl
  | cons q qs ih =>
    cases vs with
    | nil => rfl
    | cons v vs => rw [restoreQueues, length_cons, length_cons, ih]

/-! ## What stays the same about a device -/

/-- Which queue a device receives on and what it offers do not change, and it does not move
RAM. -/
class SteadyDevice (σ : Type) [VirtioDevice σ] : Prop extends FixedShape σ where
  features_pollRx : ∀ (dev : σ) cap, deviceFeatures (pollRx dev cap).1 = deviceFeatures dev := by
    intros; rfl
  rxQueue_handle : ∀ (dev : σ) qidx ram bufs,
    rxQueue (handle dev qidx ram bufs).1 = rxQueue dev := by intros; rfl
  rxQueue_ackConfig : ∀ dev : σ, rxQueue (ackConfig dev) = rxQueue dev := by intros; rfl
  rxQueue_pollRx : ∀ (dev : σ) cap, rxQueue (pollRx dev cap).1 = rxQueue dev := by intros; rfl
  rxQueue_lt : ∀ (dev : σ) rxq, rxQueue dev = some rxq → rxq < 2 ^ 32
  rewritten_handle : ∀ (dev : σ) qidx ram bufs, Rewritten ram (handle dev qidx ram bufs).2.1

instance : SteadyDevice RngDevice where
  rxQueue_lt _ _ h := by cases h
  rewritten_handle dev qidx ram bufs :=
    (LawfulDevice.handle_frame dev qidx ram bufs trivial).rewritten

instance : SteadyDevice BlkDevice where
  rxQueue_lt _ _ h := by cases h
  rewritten_handle dev qidx ram bufs := rewritten_iff.2 (dev.shape_handle qidx ram bufs)

instance : SteadyDevice NetDevice where
  rxQueue_lt _ _ h := by
    cases h
    decide
  rewritten_handle dev qidx ram bufs := by
    show Rewritten ram (dev.handle qidx ram bufs).2.1
    unfold NetDevice.handle
    dsimp only
    split_ifs
    all_goals exact ChangesOnly.refl _ ram

instance : SteadyDevice Vsock.HostedDevice where
  rxQueue_lt _ _ h := by
    cases h
    decide
  rewritten_handle d qidx ram bufs :=
    (LawfulDevice.handle_frame d qidx ram bufs trivial).rewritten

/-! ## A receive pump while the guest runs -/

section Race

variable {σ : Type} [VirtioDevice σ]

/-- The receive loop of `pump_rx`, with the guest writing in RAM before any turn and between a
turn's two looks at the available index. -/
inductive RacedLoop : σ → GuestRam → Queue → Pumped σ → Prop
  | guest {dev : σ} {ram ram' : GuestRam} {q : Queue} {r : Pumped σ} (hguest : Rewritten ram ram')
    (h : RacedLoop dev ram' q r) : RacedLoop dev ram q r
  | unposted {dev : σ} {ram : GuestRam} {q : Queue} (hcap : nextRxCapacity ram q = none) :
    RacedLoop dev ram q ⟨dev, ram, q, none, []⟩
  | silent {cap : ℕ} {dev dev' : σ} {ram : GuestRam} {q : Queue}
    (hcap : nextRxCapacity ram q = some cap) (hpoll : pollRx dev cap = (dev', none)) :
    RacedLoop dev ram q ⟨dev', ram, q, none, []⟩
  | held {cap : ℕ} {dev dev' : σ} {ram ram' : GuestRam} {q : Queue} {data : List UInt8}
    (hcap : nextRxCapacity ram q = some cap) (hpoll : pollRx dev cap = (dev', some data))
    (hguest : Rewritten ram ram') (hinj : injectOne ram' q data = none) :
    RacedLoop dev ram q ⟨dev', ram', q, some data, []⟩
  | frame {cap : ℕ} {dev dev' : σ} {ram ram' ram'' : GuestRam} {q q' : Queue} {data : List UInt8}
    {e : UsedElem} {r : Pumped σ} (hcap : nextRxCapacity ram q = some cap)
    (hpoll : pollRx dev cap = (dev', some data)) (hguest : Rewritten ram ram')
    (hinj : injectOne ram' q data = some (ram'', q', e)) (h : RacedLoop dev' ram'' q' r) :
    RacedLoop dev ram q { r with elems := e :: r.elems }

variable {dev : σ} {q : Queue} {r : Pumped σ} {ram : GuestRam}

/-- What a poll keeps of a device, the loop keeps. -/
theorem RacedLoop.keeps {P : σ → Prop} (hP : ∀ dev cap, P dev → P (pollRx dev cap).1)
    (h : RacedLoop dev ram q r) (hdev : P dev) :
    P r.dev := by
  induction h with
  | guest _ _ ih => exact ih hdev
  | unposted _ => exact hdev
  | @silent cap dev dev' ram q _ hpoll =>
    have hnext := hP dev cap hdev
    rwa [hpoll] at hnext
  | @held cap dev dev' ram ram' q data _ hpoll _ _ =>
    have hnext := hP dev cap hdev
    rwa [hpoll] at hnext
  | @frame cap dev dev' ram ram' ram'' q q' data e r _ hpoll _ _ _ ih =>
    have hnext := hP dev cap hdev
    rw [hpoll] at hnext
    exact ih hnext

/-- RAM has room for the available index of a ring at `avail`. -/
def HasIndex (ram : GuestRam) : Prop :=
  ∃ avail < 2 ^ 64, ram.inRange (wadd avail 2) 2 = true

theorem HasIndex.of_inRange {avail : ℕ}
    (h : ram.inRange (wadd avail 2) 2 = true) : HasIndex ram := by
  refine ⟨avail % 2 ^ 64, Nat.mod_lt _ (by decide), ?_⟩
  rwa [wadd, Nat.mod_add_mod]

theorem HasIndex.rewritten {ram' : GuestRam} (h : HasIndex ram) (hw : Rewritten ram ram') :
    HasIndex ram' := by
  obtain ⟨avail, hlt, hin⟩ := h
  exact ⟨avail, hlt, (hw.inRange_eq _ _).trans hin⟩

/-- A payload is held back where the available index was seen to change. -/
theorem RacedLoop.hasIndex (h : RacedLoop dev ram q r) (hheld : r.pending ≠ none) :
    HasIndex r.ram := by
  induction h with
  | guest _ _ ih => exact ih hheld
  | unposted _ => exact absurd rfl hheld
  | silent _ _ => exact absurd rfl hheld
  | @held cap dev dev' ram ram' q data hcap _ hguest hinj =>
    refine .of_inRange (inRange_of_readU16_ne hguest (a := wadd q.avail 2) ?_)
    unfold nextRxCapacity at hcap
    unfold injectOne at hinj
    split_ifs at hcap hinj with hact hposted hposted'
    rwa [← hposted', ne_comm]
  | frame _ _ _ _ _ ih => exact ih hheld

section Steady

variable [SteadyDevice σ]

open FixedShape SteadyDevice

theorem rewritten_processLoop (qidx availIdx budget : ℕ) (dev : σ) (ram : GuestRam) (q : Queue) :
    Rewritten ram (processLoop qidx availIdx budget dev ram q).ram := by
  induction budget generalizing dev ram q with
  | zero => exact ChangesOnly.refl _ ram
  | succ budget ih =>
    rw [processLoop]
    split_ifs
    · exact ChangesOnly.refl _ ram
    · exact ((rewritten_handle dev qidx ram _).trans (rewritten_pushUsed _ _ _ _ _)).trans
        (ih _ _ _)

theorem RacedLoop.steady {dev : σ} {ram : GuestRam} {q : Queue} {r : Pumped σ}
    (h : RacedLoop dev ram q r) : numQueues r.dev = numQueues dev ∧ rxQueue r.dev = rxQueue dev :=
  h.keeps (P := fun d => numQueues d = numQueues dev ∧ rxQueue d = rxQueue dev)
    (fun d cap hd => ⟨(numQueues_pollRx d cap).trans hd.1, (rxQueue_pollRx d cap).trans hd.2⟩)
    ⟨rfl, rfl⟩

end Steady

namespace VirtioMmio

/-- A call of `pump_rx` while the guest runs, and where it leaves the transport.  It leaves it as
it is when there is no RAM, no receive queue, or still no buffer for a payload held back. -/
inductive RacedPump (m : VirtioMmio σ) : VirtioMmio σ → Prop
  | idle : RacedPump m m
  | lost {ram : GuestRam} {rxq : ℕ} (hram : m.ram = some ram) (hrx : rxQueue m.dev = some rxq)
    (hq : m.queues[rxq]? = none) : RacedPump m { m with pendingRx := none }
  | loop {ram : GuestRam} {rxq : ℕ} {q : Queue} {r : Pumped σ} (hram : m.ram = some ram)
    (hrx : rxQueue m.dev = some rxq) (hq : m.queues[rxq]? = some q) (hnone : m.pendingRx = none)
    (hr : RacedLoop m.dev ram q r) : RacedPump m (m.finishRx rxq [] r).1
  | placed {ram ram' : GuestRam} {rxq : ℕ} {q q' : Queue} {data : List UInt8} {e : UsedElem}
    {r : Pumped σ} (hram : m.ram = some ram) (hrx : rxQueue m.dev = some rxq)
    (hq : m.queues[rxq]? = some q) (hdata : m.pendingRx = some data)
    (hinj : injectOne ram q data = some (ram', q', e)) (hr : RacedLoop m.dev ram' q' r) :
    RacedPump m (m.finishRx rxq [e] r).1

variable {m : VirtioMmio σ} {out : VirtioMmio σ × List UsedElem}

/-- A transport over any RAM after whatever the driver writes in registers and in RAM, whatever
is pumped meanwhile, and whatever is restored. -/
inductive Reached : VirtioMmio σ → Prop
  | new (dev : σ) (ram : Option GuestRam) : Reached { new dev with ram }
  | guest {m : VirtioMmio σ} (h : Reached m) {ram ram' : GuestRam} (hram : m.ram = some ram)
    (hguest : Rewritten ram ram') : Reached { m with ram := some ram' }
  | write {m : VirtioMmio σ} (h : Reached m) (offset value : ℕ) : Reached (m.write offset value)
  | pump {m m' : VirtioMmio σ} (h : Reached m) (hpump : m.RacedPump m') : Reached m'
  | restore {m : VirtioMmio σ} (h : Reached m) (s : Snapshot.VirtioDevState) :
    Reached (m.restore s)

/-! ## Room for what is held back -/

/-- The transport has a receive queue, and its RAM room for an available index. -/
def Room (m : VirtioMmio σ) : Prop :=
  ∃ ram rxq, m.ram = some ram ∧ rxQueue m.dev = some rxq ∧ rxq < m.queues.length ∧ HasIndex ram

theorem pendingRx_write (m : VirtioMmio σ) (offset value : ℕ) :
    (m.write offset value).pendingRx = m.pendingRx := by
  refine write_rule (P := fun m' => m'.pendingRx = m.pendingRx) m offset value
    (fun _ _ _ => rfl) (fun _ _ => rfl) ?_ (fun _ _ _ => rfl) rfl
  intro qidx
  obtain heq | ⟨_, _, _, _, heq⟩ := m.process_cases qidx
  all_goals rw [heq]

section Steady

variable [SteadyDevice σ] {m m' : VirtioMmio σ}

open FixedShape SteadyDevice

theorem Room.write (h : m.Room) (offset value : ℕ) : (m.write offset value).Room := by
  obtain ⟨ram, rxq, hram, hrx, hlt, hindex⟩ := h
  refine write_rule (P := Room) m offset value (fun _ _ _ => ⟨ram, rxq, hram, hrx, hlt, hindex⟩)
    ?queue ?process ?ack ?reset
  case queue =>
    intro f _
    refine ⟨ram, rxq, hram, hrx, ?_, hindex⟩
    rwa [withQueue, length_modify]
  case process =>
    intro qidx
    obtain heq | ⟨ram₁, q, hram₁, -, heq⟩ := m.process_cases qidx
    · rw [heq]
      exact ⟨ram, rxq, hram, hrx, hlt, hindex⟩
    · cases hram.symm.trans hram₁
      rw [heq]
      refine ⟨_, rxq, rfl, (processLoop_fixed (fun d => rxQueue_handle d qidx) ..).trans hrx, ?_,
        hindex.rewritten (rewritten_processLoop ..)⟩
      rwa [length_set]
  case ack =>
    rintro irq dev (rfl | rfl)
    · exact ⟨ram, rxq, hram, hrx, hlt, hindex⟩
    · exact ⟨ram, rxq, hram, (rxQueue_ackConfig m.dev).trans hrx, hlt, hindex⟩
  case reset =>
    refine ⟨ram, rxq, hram, hrx, ?_, hindex⟩
    rwa [reset, length_map]

/-- What holds of a transport whatever is done with it. -/
structure Sound (m : VirtioMmio σ) : Prop where
  length_eq : m.queues.length = max (numQueues m.dev) 1
  room : m.pendingRx ≠ none → m.Room

theorem Sound.finishRx (h : m.Sound) {ram : GuestRam} {rxq : ℕ} {q : Queue} {r : Pumped σ}
    (hrx : rxQueue m.dev = some rxq) (hlt : rxq < m.queues.length)
    (hr : RacedLoop m.dev ram q r) (es : List UsedElem) : (m.finishRx rxq es r).1.Sound where
  length_eq := by
    rw [VirtioMmio.finishRx, length_set, hr.steady.1]
    exact h.length_eq
  room := by
    intro hheld
    refine ⟨r.ram, rxq, rfl, hr.steady.2.trans hrx, ?_, hr.hasIndex hheld⟩
    rwa [VirtioMmio.finishRx, length_set]

theorem Sound.pump (h : m.Sound) (hpump : m.RacedPump m') : m'.Sound := by
  cases hpump with
  | idle => exact h
  | lost hram hrx hq => exact ⟨h.length_eq, fun hheld => absurd rfl hheld⟩
  | loop hram hrx hq hnone hr =>
    exact h.finishRx hrx (List.getElem?_eq_some_iff.1 hq).1 hr []
  | placed hram hrx hq hdata hinj hr =>
    exact h.finishRx hrx (List.getElem?_eq_some_iff.1 hq).1 hr _

theorem Reached.sound (h : m.Reached) : m.Sound := by
  induction h with
  | new dev ram => exact ⟨length_replicate, fun hheld => absurd rfl hheld⟩
  | @guest m _ ram ram' hram hguest ih =>
    refine ⟨ih.length_eq, fun hheld => ?_⟩
    obtain ⟨ram₁, rxq, hram₁, hrx, hlt, hindex⟩ := ih.room hheld
    cases hram.symm.trans hram₁
    exact ⟨ram', rxq, rfl, hrx, hlt, hindex.rewritten hguest⟩
  | @write m _ offset value ih =>
    refine ⟨length_write ih.length_eq offset value, fun hheld => ?_⟩
    rw [pendingRx_write] at hheld
    exact (ih.room hheld).write offset value
  | pump _ hpump ih => exact ih.pump hpump
  | @restore m _ s ih =>
    have hlen : (m.restore s).queues.length = m.queues.length :=
      length_restoreQueues m.queues s.queues
    refine ⟨hlen.trans ih.length_eq, fun hheld => ?_⟩
    obtain ⟨ram, rxq, hram, hrx, hlt, hindex⟩ := ih.room hheld
    exact ⟨ram, rxq, hram, hrx, hlt.trans_eq hlen.symm, hindex⟩

end Steady

/-! ## After the reset -/

/-- What goes on at a transport: register accesses, guest writes in RAM, receive pumps. -/
inductive Event
  | read (offset : ℕ)
  | write (offset value : ℕ)
  | guest (host : ℕ → UInt8)
  | pump (turns : ℕ)

/-- An event and what is seen of it; of a pump that is still running after so many turns,
nothing. -/
def event (m : VirtioMmio σ) : Event → VirtioMmio σ × Option Seen
  | .read offset => ((m.access (.read offset)).1, some (m.access (.read offset)).2)
  | .write offset value =>
    ((m.access (.write offset value)).1, some (m.access (.write offset value)).2)
  | .guest host =>
    let a : Access := .ram fun ram => { ram with host }
    ((m.access a).1, some (m.access a).2)
  | .pump turns =>
    match m.pumpRx turns with
    | none => (m, none)
    | some (m', elems) => (m', some (.effect elems m'.irqLevel m'.ram))

def after (m : VirtioMmio σ) (l : List Event) : VirtioMmio σ :=
  Runs.run (fun m e => (m.event e).1) m l

/-- A new transport with the RAM and the device of `m`. -/
def fresh (m : VirtioMmio σ) : VirtioMmio σ := { new m.dev with ram := m.ram }

/-- There is a payload held back and a buffer for it, so that a pump would deliver it. -/
def Delivers (m : VirtioMmio σ) : Prop :=
  ∃ ram rxq q data, m.ram = some ram ∧ rxQueue m.dev = some rxq ∧ m.queues[rxq]? = some q ∧
    m.pendingRx = some data ∧ (injectOne ram q data).isSome

/-- After a write of 0 to STATUS nothing that goes on at the transport tells it from a new one,
and no payload of before is delivered.  (Pumps of after the reset, undisturbed, hold nothing
back: what is held later was held then.) -/
def ResetsFresh (m : VirtioMmio σ) : Prop :=
  (∀ l, Runs.trace event (m.write regStatus 0) l = Runs.trace event m.fresh l) ∧
    ∀ l, ¬ ((m.write regStatus 0).after l).Delivers

theorem pendingRx_access (m : VirtioMmio σ) (a : Access) :
    (m.access a).1.pendingRx = m.pendingRx := by
  cases a with
  | read offset => rfl
  | write offset value => exact pendingRx_write m offset value
  | ram f => rfl

variable (h : m.pendingRx = none)

include h

theorem pendingRx_pumpRx {turns : ℕ} (hout : m.pumpRx turns = some out) :
    out.1.pendingRx = none := by
  obtain heq | heq | ⟨ram, rxq, q, q', es, r, -, -, hr, heq⟩ := pumpRx_cases hout
  · rw [heq]
    exact h
  · rw [heq]
  · rw [heq]
    exact pumpLoop_pending hr

/-- With nothing held back, nothing is held back later. -/
theorem pendingRx_event (e : Event) :
    (m.event e).1.pendingRx = none := by
  cases e with
  | read offset => exact h
  | write offset value => exact (pendingRx_write m offset value).trans h
  | guest host => exact h
  | pump turns =>
    rw [event]
    split
    · exact h
    · rename_i hout
      exact pendingRx_pumpRx h hout

theorem not_delivers_after (l : List Event) :
    ¬ (m.after l).Delivers := by
  have hnone : (m.after l).pendingRx = none :=
    Runs.invariant_always (I := fun m : VirtioMmio σ => m.pendingRx = none)
      (fun _ e hm => pendingRx_event hm e) h l
  rintro ⟨ram, rxq, q, data, -, -, -, hdata, -⟩
  rw [hnone] at hdata
  cases hdata

omit h

/-- A pump does not look at DEVICE_FEATURES_SEL. -/
theorem pumpRx_withSel (m : VirtioMmio σ) (sel turns : ℕ) :
    ({ m with deviceFeaturesSel := sel } : VirtioMmio σ).pumpRx turns =
      (m.pumpRx turns).map fun out => ({ out.1 with deviceFeaturesSel := sel }, out.2) := by
  unfold VirtioMmio.pumpRx
  dsimp only
  split
  · split
    · rfl
    · rw [Option.map_map]
      rfl
    · split
      · rfl
      · rw [Option.map_map]
        rfl
  · rfl

section Sim

variable [SteadyDevice σ] {m m' : VirtioMmio σ} {out : VirtioMmio σ × List UsedElem}

open SteadyDevice

theorem features_pumpRx {turns : ℕ} (hout : m.pumpRx turns = some out) :
    deviceFeatures out.1.dev = deviceFeatures m.dev ∧
      out.1.deviceFeaturesSel = m.deviceFeaturesSel := by
  obtain heq | heq | ⟨ram, rxq, q, q', es, r, -, -, hr, heq⟩ := pumpRx_cases hout
  · rw [heq]
    exact ⟨rfl, rfl⟩
  · rw [heq]
    exact ⟨rfl, rfl⟩
  · rw [heq]
    exact ⟨pumpLoop_keeps (P := fun d => deviceFeatures d = deviceFeatures m.dev)
      (fun d cap hd => (features_pollRx d cap).trans hd) turns ram q' rfl hr, rfl⟩

/-- The same but for a selector that does not show, with nothing held back. -/
def Alike (m m' : VirtioMmio σ) : Prop :=
  Same Eq m m' ∧ m.pendingRx = none ∧ m'.pendingRx = none

omit [SteadyDevice σ] in
theorem Alike.eq (h : m.Alike m') : m' = { m with deviceFeaturesSel := m'.deviceFeaturesSel } := by
  obtain ⟨⟨hdev, hram, -, hstatus, hsel, hqueues, hirq⟩, hnone, hnone'⟩ := h
  cases m
  cases m'
  simp_all

theorem Alike.access (h : m.Alike m') (a : Access) :
    some (m.access a).2 = some (m'.access a).2 ∧ (m.access a).1.Alike (m'.access a).1 := by
  obtain ⟨hsame, hnone, hnone'⟩ := h
  obtain ⟨hseen, hnext⟩ := hsame.access (deviceSim_eq σ) a
  exact ⟨congrArg some hseen, hnext, (pendingRx_access m a).trans hnone,
    (pendingRx_access m' a).trans hnone'⟩

theorem Alike.pumped (h : m.Alike m') {turns : ℕ} (hout : m.pumpRx turns = some out) :
    out.1.Alike { out.1 with deviceFeaturesSel := m'.deviceFeaturesSel } := by
  have hnone := pendingRx_pumpRx h.2.1 hout
  obtain ⟨hfeat, hsel⟩ := features_pumpRx hout
  refine ⟨⟨rfl, rfl, ?_, rfl, rfl, rfl, rfl⟩, hnone, hnone⟩
  have hword := h.1.features
  rw [← h.1.dev] at hword
  rw [featureWord_congr hfeat, featureWord_congr hfeat, hsel]
  exact hword

theorem Alike.event (h : m.Alike m') (e : Event) :
    (m.event e).2 = (m'.event e).2 ∧ (m.event e).1.Alike (m'.event e).1 := by
  cases e with
  | read offset => exact h.access (.read offset)
  | write offset value => exact h.access (.write offset value)
  | guest host => exact h.access (.ram fun ram => { ram with host })
  | pump turns =>
    have hpump := m.pumpRx_withSel m'.deviceFeaturesSel turns
    rw [← h.eq] at hpump
    cases hout : m.pumpRx turns with
    | none =>
      simp only [VirtioMmio.event, hout, hpump, map_none]
      exact ⟨trivial, h⟩
    | some out =>
      simp only [VirtioMmio.event, hout, hpump, map_some]
      exact ⟨rfl, h.pumped hout⟩

end Sim

/-! ## What a reset leaves -/

theorem queues_reset (h : m.queues.length = max (numQueues m.dev) 1) :
    (m.write regStatus 0).queues = m.fresh.queues := by
  show m.queues.map (fun _ => Queue.default) = replicate _ Queue.default
  rw [map_const', h]

section SetUp

variable (m : VirtioMmio σ) (v : ℕ)

theorem write_queueSel : m.write regQueueSel v = { m with queueSel := v % 2 ^ 32 } := rfl

theorem write_queueNum : m.write regQueueNum v =
    m.withQueue m.queueSel fun q => { q with num := min (v % 2 ^ 32) queueMax } := rfl

theorem write_queueReady : m.write regQueueReady v =
    m.withQueue m.queueSel fun q => { q with ready := v % 2 ^ 32 } := rfl

theorem write_queueDriverLow : m.write regQueueDriverLow v =
    m.withQueue m.queueSel fun q => { q with avail := setLow q.avail (v % 2 ^ 32) } := rfl

theorem write_queueDriverHigh : m.write regQueueDriverHigh v =
    m.withQueue m.queueSel fun q => { q with avail := setHigh q.avail (v % 2 ^ 32) } := rfl

end SetUp

/-- The driver sets up queue `rxq` for a ring of one entry at `avail`, and writes in RAM. -/
def receiveSetUp (rxq avail : ℕ) (host : ℕ → UInt8) : List Event :=
  [.write regQueueSel rxq, .write regQueueNum 1, .write regQueueReady 1,
    .write regQueueDriverLow (avail % 2 ^ 32), .write regQueueDriverHigh (avail / 2 ^ 32),
    .guest host]

theorem setHigh_setLow (avail : ℕ) :
    setHigh (setLow 0 (avail % 2 ^ 32)) (avail / 2 ^ 32) = avail := by
  rw [setHigh, setLow]
  omega

theorem after_receiveSetUp (m : VirtioMmio σ) {rxq avail : ℕ} (hrxq : rxq < 2 ^ 32)
    (havail : avail < 2 ^ 64) (host : ℕ → UInt8) :
    (m.write regStatus 0).after (receiveSetUp rxq avail host) =
      { m with
        status := 0
        interruptStatus := 0
        queueSel := rxq
        queues := (m.queues.map fun _ => Queue.default).modify rxq fun q =>
          { q with
            num := 1
            ready := 1
            avail := setHigh (setLow q.avail (avail % 2 ^ 32)) (avail / 2 ^ 32) }
        ram := m.ram.map fun ram => { ram with host } } := by
  have hreset : m.write regStatus 0 = ({ m with status := 0 } : VirtioMmio σ).reset := rfl
  have hlow : avail % 2 ^ 32 % 2 ^ 32 = avail % 2 ^ 32 := Nat.mod_mod _ _
  have hhigh : avail / 2 ^ 32 % 2 ^ 32 = avail / 2 ^ 32 := Nat.mod_eq_of_lt (by omega)
  simp only [after, receiveSetUp, Runs.run_cons, Runs.run_nil, event, access, hreset, reset,
    write_queueSel, write_queueNum, write_queueReady, write_queueDriverLow,
    write_queueDriverHigh, withQueue, modify_modify_eq, Nat.mod_eq_of_lt hrxq, hlow, hhigh]
  rfl

/-- A driver that sets up the receive queue and posts a buffer gets the payload held back. -/
theorem delivers_reset {m : VirtioMmio σ} {ram : GuestRam} {rxq avail : ℕ} {data : List UInt8}
    (hram : m.ram = some ram) (hrx : rxQueue m.dev = some rxq) (hlt : rxq < m.queues.length)
    (hsmall : rxq < 2 ^ 32) (hdata : m.pendingRx = some data) (havail : avail < 2 ^ 64)
    (hin : ram.inRange (wadd avail 2) 2 = true) :
    ((m.write regStatus 0).after
      (receiveSetUp rxq avail (ram.writeU16 (wadd avail 2) 1).host)).Delivers := by
  rw [after_receiveSetUp m hsmall havail]
  refine ⟨ram.writeU16 (wadd avail 2) 1, rxq, ⟨1, 1, 0, avail, 0, 0⟩, data, ?ram, hrx, ?queue,
    hdata, ?posted⟩
  case ram =>
    rw [hram, map_some, with_host (changesOnly_writeU16 ram _ 1).rewritten]
  case queue =>
    rw [getElem?_modify_eq, getElem?_map, getElem?_eq_getElem hlt]
    show some (⟨1, 1, 0, setHigh (setLow 0 (avail % 2 ^ 32)) (avail / 2 ^ 32), 0, 0⟩ : Queue) = _
    rw [setHigh_setLow]
  case posted =>
    have hidx := readU16_writeU16 hin (v := 1) (by decide)
    rw [injectOne, if_neg (by simp [Queue.active]), if_neg]
    · rfl
    · dsimp only
      rw [hidx]
      decide

section Probe

variable {m : VirtioMmio σ}

theorem ResetsFresh.read (h : m.ResetsFresh) (offset : ℕ) :
    (m.write regStatus 0).read offset = m.fresh.read offset :=
  Seen.value.inj (some.inj (head_eq_of_cons_eq (h.1 [.read offset])))

theorem ResetsFresh.probeReady (h : m.ResetsFresh) (v : ℕ) :
    (m.write regStatus 0).probeReady v = m.fresh.probeReady v := by
  have hl := h.1 [.write regQueueReady v, .write regQueueSel 0, .read regQueueReady]
  have htl := tail_eq_of_cons_eq (tail_eq_of_cons_eq hl)
  exact Seen.value.inj (some.inj (head_eq_of_cons_eq htl))

end Probe

section Iff

variable [SteadyDevice σ] {m : VirtioMmio σ}

/-- **A reset transport is as a new one exactly when nothing had been left in it**: QUEUE_SEL is
0, DEVICE_FEATURES shows the word of selector 0, and no payload is held back. -/
theorem resetsFresh_iff (hm : m.Reached) :
    m.ResetsFresh ↔ m.queueSel = 0 ∧
      featureWord m.dev m.deviceFeaturesSel = featureWord m.dev 0 ∧ m.pendingRx = none := by
  have hsound := hm.sound
  have hqueues := queues_reset hsound.length_eq
  constructor
  · intro hfresh
    refine ⟨?_, ?_, ?_⟩
    · by_contra hsel
      obtain ⟨v, hv⟩ := (m.write regStatus 0).probeReady_ne hsel
      refine hv ?_
      rw [hfresh.probeReady v, probeReady_of_zero rfl]
      rw [← hqueues]
      show 0 < (m.queues.map _).length
      rw [length_map, hsound.length_eq]
      exact lt_max_of_lt_right one_pos
    · exact hfresh.read regDeviceFeatures
    · by_contra hheld
      obtain ⟨ram, rxq, hram, hrx, hlt, avail, havail, hin⟩ := hsound.room hheld
      obtain ⟨data, hdata⟩ := ne_none_iff_exists'.1 hheld
      exact hfresh.2 _ (delivers_reset hram hrx hlt (SteadyDevice.rxQueue_lt m.dev rxq hrx) hdata
        havail hin)
  · rintro ⟨hsel, hfeat, hnone⟩
    have hreset : (m.write regStatus 0).pendingRx = none := hnone
    refine ⟨fun l => ?_, not_delivers_after hreset⟩
    have halike : (m.write regStatus 0).Alike m.fresh :=
      ⟨⟨rfl, rfl, hfeat, rfl, hsel, hqueues, rfl⟩, hreset, rfl⟩
    exact Runs.trace_eq_of_sim (fun _ _ e h => h.event e) halike l

end Iff

end VirtioMmio
end Race

/-! ## Two transports that are not reset -/

namespace VirtioMmio

/-- A network device with one frame to deliver. -/
def oneFrame : NetDevice :=
  .new ⟨Vector.replicate 6 0, [some [7]], false⟩ none ⟨0, fun _ => 0⟩

/-- RAM with a buffer of 32 bytes at 64 behind the one descriptor of a table at 0, and the
available index of a ring at 16. -/
def ringRam (idx : UInt8) : GuestRam :=
  { base := 0
    len := 128
    host := fun g => if g = 0 then 64 else if g = 8 then 32 else if g = 12 then 2
      else if g = 18 then idx else 0 }

/-- A receive queue of one entry on these rings. -/
def setUp (m : VirtioMmio NetDevice) : VirtioMmio NetDevice :=
  (((m.write regQueueNum 1).write regQueueReady 1).write regQueueDriverLow 16).write
    regQueueDeviceLow 32

/-- The guest takes its buffer back once the pump has seen it. -/
def heldBack : VirtioMmio NetDevice :=
  let m := setUp { new oneFrame with ram := some (ringRam 1) }
  (m.finishRx NetDevice.rx []
    ⟨(oneFrame.pollRx 32).1, ringRam 0, ⟨1, 1, 0, 16, 32, 0⟩,
      some (NetDevice.withHeader [7]), []⟩).1

theorem reached_heldBack : heldBack.Reached := by
  have hset : (setUp { new oneFrame with ram := some (ringRam 1) }).Reached :=
    ((((Reached.new oneFrame (some (ringRam 1))).write _ _).write _ _).write _ _).write _ _
  refine hset.pump (.loop rfl rfl (q := ⟨1, 1, 0, 16, 32, 0⟩) (by decide) rfl ?_)
  have hcap : nextRxCapacity (ringRam 1) ⟨1, 1, 0, 16, 32, 0⟩ = some 32 := by decide
  exact .held hcap rfl (rewritten_iff.2 ⟨rfl, rfl⟩) (by decide)

/-- A driver that has set up its receive queue and runs no race. -/
theorem resetsFresh_setUp :
    let m := setUp (new oneFrame)
    m.Reached ∧ m.ResetsFresh := by
  have hm : (setUp (new oneFrame)).Reached :=
    ((((Reached.new oneFrame none).write _ _).write _ _).write _ _).write _ _
  exact ⟨hm, (resetsFresh_iff hm).2 ⟨rfl, rfl, rfl⟩⟩

/-- **What a reset leaves behind.**  With queue 2 selected, QUEUE_NUM_MAX says after the reset
that there is no such queue; and a frame held back is put into the first buffer posted after
it. -/
theorem reset_remembers :
    let selected := (new oneFrame).write regQueueSel 2
    let posted := fun m : VirtioMmio NetDevice =>
      ((setUp m).event (.guest (ringRam 1).host)).1
    selected.Reached ∧ heldBack.Reached ∧
      (selected.write regStatus 0).read regQueueNumMax = 0 ∧
      selected.fresh.read regQueueNumMax = 256 ∧
      ((posted (heldBack.write regStatus 0)).pumpRx 2).map Prod.snd = some [(0, 13)] ∧
      ((posted heldBack.fresh).pumpRx 2).map Prod.snd = some [] ∧
      ¬ selected.ResetsFresh ∧ ¬ heldBack.ResetsFresh := by
  refine ⟨(Reached.new oneFrame none).write _ _, reached_heldBack, rfl, rfl, by decide, by decide,
    ?_, ?_⟩
  · intro h
    exact absurd (h.read regQueueNumMax) (by decide)
  · intro h
    exact h.2 _ (@delivers_reset _ _ _ (ringRam 0) _ 16 _ rfl rfl (by decide) (by decide) rfl
      (by decide) (by decide))

end VirtioMmio
end Amber
