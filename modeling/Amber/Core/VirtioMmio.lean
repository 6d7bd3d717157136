import Mathlib.Data.Nat.Bitwise
import Amber.Core.Virtqueue

/-!
# The virtio-mmio transport

`VirtioMmio` of `amber-core/src/virtio.rs`: the register file, queue set-up, the notify path
(`process`) and the receive path (`pumpRx`).  The device behind it is anything with a
`VirtioDevice` instance, the Rust trait of that name; what the host answers the device is
part of the device's own state.

Both consumers return, besides the new transport, the used elements they published, in
order; the `progressed` and `any` flags of the source say that this list is not empty.
The receive loop takes a bound on its number of turns and gives `none` when it is still
running at the bound.

* `processLoop_completions`, `pumpLoop_completions` — both consumers are sequences of the one
  step `Completion`: take the next posted chain, let the device write in it, publish it.
* `pumpLoop_rule` — what each turn of a receive loop keeps, the loop keeps.
* `pumpLoop_unfinished` — a receive loop that is still running has completed a chain in every
  turn so far.
-/

namespace Amber

open GuestRam

/-! ## The device trait -/

/-- The device-specific half of a virtio-mmio device, with the trait's defaults. -/
class VirtioDevice (σ : Type) where
  deviceId : σ → ℕ
  deviceFeatures : σ → ℕ → ℕ := fun _ _ => 0
  config : σ → ℕ → ℕ := fun _ _ => 0
  numQueues : σ → ℕ := fun _ => 1
  configChanged : σ → Bool := fun _ => false
  ackConfig : σ → σ := id
  /-- Service one chain on a queue; the number is the used-ring length. -/
  handle : σ → ℕ → GuestRam → List Buf → σ × GuestRam × ℕ
  rxQueue : σ → Option ℕ := fun _ => none
  eventQueue : σ → Option ℕ := fun _ => none
  /-- Next payload for the receive queue, given the capacity of the posted buffer. -/
  pollRx : σ → ℕ → σ × Option (List UInt8) := fun dev _ => (dev, none)
  wantsPoll : σ → Bool := fun _ => false

open VirtioDevice

/-! ## Registers -/

def regMagic : ℕ := 0x000
def regVersion : ℕ := 0x004
def regDeviceId : ℕ := 0x008
def regVendorId : ℕ := 0x00c
def regDeviceFeatures : ℕ := 0x010
def regDeviceFeaturesSel : ℕ := 0x014
def regDriverFeatures : ℕ := 0x020
def regDriverFeaturesSel : ℕ := 0x024
def regQueueSel : ℕ := 0x030
def regQueueNumMax : ℕ := 0x034
def regQueueNum : ℕ := 0x038
def regQueueReady : ℕ := 0x044
def regQueueNotify : ℕ := 0x050
def regInterruptStatus : ℕ := 0x060
def regInterruptAck : ℕ := 0x064
def regStatus : ℕ := 0x070
def regQueueDescLow : ℕ := 0x080
def regQueueDescHigh : ℕ := 0x084
def regQueueDriverLow : ℕ := 0x090
def regQueueDriverHigh : ℕ := 0x094
def regQueueDeviceLow : ℕ := 0x0a0
def regQueueDeviceHigh : ℕ := 0x0a4
def regConfigGeneration : ℕ := 0x0fc
def regConfig : ℕ := 0x100

def virtioMagic : ℕ := 0x74726976
def vendor : ℕ := 0x616d6265
def queueMax : ℕ := 256
def featureVersion1Word : ℕ := 1

/-- `(x & !0xffff_ffff) | v`. -/
def setLow (x v : ℕ) : ℕ := x / 2 ^ 32 * 2 ^ 32 + v

/-- `(x & 0xffff_ffff) | (v << 32)`. -/
def setHigh (x v : ℕ) : ℕ := x % 2 ^ 32 + v * 2 ^ 32

/-- The transport wrapping one device and its virtqueues. -/
structure VirtioMmio (σ : Type) where
  dev : σ
  ram : Option GuestRam
  deviceFeaturesSel : ℕ
  status : ℕ
  queueSel : ℕ
  queues : List Queue
  interruptStatus : ℕ
  pendingRx : Option (List UInt8)

/-- Raise the used-buffer bit if anything was published. -/
def raiseIf (elems : List UsedElem) (interruptStatus : ℕ) : ℕ :=
  if elems = [] then interruptStatus else interruptStatus ||| 1

theorem raiseIf_testBit {elems : List UsedElem} {s : ℕ} (h : elems ≠ [] ∨ s.testBit 0 = true) :
    (raiseIf elems s).testBit 0 = true := by
  unfold raiseIf
  split
  · rename_i hnil
    exact h.resolve_left fun hne => hne hnil
  · simp

/-! ## The notify path -/

/-- What servicing a queue leaves behind. -/
structure Serviced (σ : Type) where
  dev : σ
  ram : GuestRam
  q : Queue
  elems : List UsedElem

section Consumers

variable {σ : Type} [VirtioDevice σ]

/-- The loop of `process` with `budget` chains left to serve. -/
def processLoop (qidx availIdx : ℕ) : ℕ → σ → GuestRam → Queue → Serviced σ
  | 0, dev, ram, q => ⟨dev, ram, q, []⟩
  | budget + 1, dev, ram, q =>
    if q.lastAvail = availIdx then ⟨dev, ram, q, []⟩
    else
      let head := nextHead ram q
      let served := handle dev qidx ram (nextChain ram q)
      let written := served.2.2
      let rest := processLoop qidx availIdx budget served.1
        (pushUsed served.2.1 q.used head written q.qsz) q.advance
      { rest with elems := (head, written) :: rest.elems }

/-- A QUEUE_NOTIFY on queue `qidx`. -/
def VirtioMmio.process (m : VirtioMmio σ) (qidx : ℕ) : VirtioMmio σ × List UsedElem :=
  match m.ram, m.queues[qidx]? with
  | some ram, some q =>
    -- the receive and event queues are device-driven: a notify only posts buffers there
    if rxQueue m.dev = some qidx ∨ eventQueue m.dev = some qidx then (m, [])
    else if !q.active then (m, [])
    else
      let r := processLoop qidx (ram.readU16 (wadd q.avail 2)) q.qsz m.dev ram q
      ({ m with
          dev := r.dev
          ram := some r.ram
          queues := m.queues.set qidx r.q
          interruptStatus := raiseIf r.elems m.interruptStatus }, r.elems)
  | _, _ => (m, [])

/-- The chains that the loop of `process` hands to the device, each with the RAM of that time. -/
def chainsServed (qidx availIdx : ℕ) : ℕ → σ → GuestRam → Queue → List (GuestRam × List Buf)
  | 0, _, _, _ => []
  | budget + 1, dev, ram, q =>
    if q.lastAvail = availIdx then []
    else
      let served := handle dev qidx ram (nextChain ram q)
      (ram, nextChain ram q) :: chainsServed qidx availIdx budget served.1
        (pushUsed served.2.1 q.used (nextHead ram q) served.2.2 q.qsz) q.advance

/-- The lengths the device returns for chains handed to it one after the other. -/
def answers (qidx : ℕ) : σ → List (GuestRam × List Buf) → List ℕ
  | _, [] => []
  | dev, c :: cs => (handle dev qidx c.1 c.2).2.2 :: answers qidx (handle dev qidx c.1 c.2).1 cs

/-- The calls of the device behind the elements `es`: the chain of each head is handed to the
device, and its length is what the device returns. -/
structure Answered (qidx : ℕ) (q : Queue) (dev : σ) (calls : List (GuestRam × List Buf))
    (es : List UsedElem) (dev' : σ) : Prop where
  chains : List.Forall₂ (fun c e => c.2 = collectChain c.1 q.desc e.1 q.qsz) calls es
  lens : es.map Prod.snd = answers qidx dev calls
  dev_eq : dev' = calls.foldl (fun dev c => (handle dev qidx c.1 c.2).1) dev

/-- **What the loop publishes is what the device answers.** -/
theorem processLoop_answered (qidx availIdx budget : ℕ) (dev : σ) (ram : GuestRam) (q : Queue) :
    Answered qidx q dev (chainsServed qidx availIdx budget dev ram q)
      (processLoop qidx availIdx budget dev ram q).elems
      (processLoop qidx availIdx budget dev ram q).dev := by
  induction budget generalizing dev ram q with
  | zero => exact ⟨.nil, rfl, rfl⟩
  | succ budget ih =>
    unfold processLoop chainsServed
    split
    · exact ⟨.nil, rfl, rfl⟩
    · set served := handle dev qidx ram (nextChain ram q)
      have hrest := ih served.1 (pushUsed served.2.1 q.used (nextHead ram q) served.2.2 q.qsz)
        q.advance
      exact ⟨.cons rfl hrest.chains, congrArg (served.2.2 :: ·) hrest.lens, hrest.dev_eq⟩

/-! ## The receive path -/

/-- What the receive loop leaves behind; `pending` is a payload it could not place. -/
structure Pumped (σ : Type) where
  dev : σ
  ram : GuestRam
  q : Queue
  pending : Option (List UInt8)
  elems : List UsedElem

/-- The `while let` loop of `pump_rx` on the receive queue `q`, for at most `turns` turns. -/
def pumpLoop : ℕ → σ → GuestRam → Queue → Option (Pumped σ)
  | 0, _, _, _ => none
  | turns + 1, dev, ram, q =>
    match nextRxCapacity ram q with
    | none => some ⟨dev, ram, q, none, []⟩
    | some cap =>
      match pollRx dev cap with
      | (dev, none) => some ⟨dev, ram, q, none, []⟩
      | (dev, some data) =>
        match injectOne ram q data with
        | none => some ⟨dev, ram, q, some data, []⟩
        | some (ram, q, e) =>
          (pumpLoop turns dev ram q).map fun rest => { rest with elems := e :: rest.elems }

/-- A buffer that `pump_rx` fills with a payload: guest memory before, and guest memory and the
queue behind it. -/
structure Fill where
  ram : GuestRam
  data : List UInt8
  ram' : GuestRam
  q' : Queue

/-- The buffers that the loop of `pump_rx` fills. -/
def pumpFills : ℕ → σ → GuestRam → Queue → List Fill
  | 0, _, _, _ => []
  | turns + 1, dev, ram, q =>
    match nextRxCapacity ram q with
    | none => []
    | some cap =>
      match pollRx dev cap with
      | (_, none) => []
      | (dev, some data) =>
        match injectOne ram q data with
        | none => []
        | some (ram', q', _) => ⟨ram, data, ram', q'⟩ :: pumpFills turns dev ram' q'

/-- Store the result of the receive loop, after `es` had been published before it. -/
def VirtioMmio.finishRx (m : VirtioMmio σ) (rxq : ℕ) (es : List UsedElem) (r : Pumped σ) :
    VirtioMmio σ × List UsedElem :=
  ({ m with
      dev := r.dev
      ram := some r.ram
      queues := m.queues.set rxq r.q
      pendingRx := r.pending
      interruptStatus := raiseIf (es ++ r.elems) m.interruptStatus }, es ++ r.elems)

/-- Deliver host-originated frames into the receive queue: first the payload held back last
time, then whatever the device has. -/
def VirtioMmio.pumpRx (m : VirtioMmio σ) (turns : ℕ) : Option (VirtioMmio σ × List UsedElem) :=
  match m.ram, rxQueue m.dev with
  | some ram, some rxq =>
    match m.queues[rxq]?, m.pendingRx with
    -- the held payload has been taken and there is no queue to put it in
    | none, _ => some ({ m with pendingRx := none }, [])
    | some q, none => (pumpLoop turns m.dev ram q).map (m.finishRx rxq [])
    | some q, some data =>
      match injectOne ram q data with
      | none => some (m, [])
      | some (ram, q, e) => (pumpLoop turns m.dev ram q).map (m.finishRx rxq [e])
  | _, _ => some (m, [])

/-- The buffers that `pump_rx` fills, the one for the payload held back last time first. -/
def VirtioMmio.rxFills (m : VirtioMmio σ) (turns : ℕ) : List Fill :=
  match m.ram, rxQueue m.dev with
  | some ram, some rxq =>
    match m.queues[rxq]?, m.pendingRx with
    | none, _ => []
    | some q, none => pumpFills turns m.dev ram q
    | some q, some data =>
      match injectOne ram q data with
      | none => []
      | some (ram', q', _) => ⟨ram, data, ram', q'⟩ :: pumpFills turns m.dev ram' q'
  | _, _ => []

/-! ## Register accesses -/

namespace VirtioMmio

def new (dev : σ) : VirtioMmio σ where
  dev
  ram := none
  deviceFeaturesSel := 0
  status := 0
  queueSel := 0
  queues := List.replicate (max (numQueues dev) 1) Queue.default
  interruptStatus := 0
  pendingRx := none

def attach (m : VirtioMmio σ) (ram : GuestRam) : VirtioMmio σ := { m with ram := some ram }

def irqLevel (m : VirtioMmio σ) : Bool := m.interruptStatus != 0 || configChanged m.dev

def withQueue (m : VirtioMmio σ) (sel : ℕ) (f : Queue → Queue) : VirtioMmio σ :=
  { m with queues := m.queues.modify sel f }

def reset (m : VirtioMmio σ) : VirtioMmio σ :=
  { m with interruptStatus := 0, queues := m.queues.map fun _ => Queue.default }

def read (m : VirtioMmio σ) (offset : ℕ) : ℕ :=
  let q := (m.queues[m.queueSel]?).getD Queue.default
  if offset = regMagic then virtioMagic
  else if offset = regVersion then 2
  else if offset = regDeviceId then deviceId m.dev
  else if offset = regVendorId then vendor
  else if offset = regDeviceFeatures then
    let f := deviceFeatures m.dev m.deviceFeaturesSel
    if m.deviceFeaturesSel = 1 then f ||| featureVersion1Word else f
  else if offset = regQueueNumMax then
    if m.queueSel < m.queues.length then queueMax else 0
  else if offset = regQueueReady then q.ready
  else if offset = regInterruptStatus then
    m.interruptStatus ||| (if configChanged m.dev then 2 else 0)
  else if offset = regStatus then m.status
  else if offset = regConfigGeneration then 0
  else if offset ≥ regConfig then config m.dev (offset - regConfig)
  else 0

/-- A write of the 64-bit `value`, of which the transport keeps the low 32 bits. -/
def write (m : VirtioMmio σ) (offset value : ℕ) : VirtioMmio σ :=
  let v := value % 2 ^ 32
  let sel := m.queueSel
  if offset = regDeviceFeaturesSel then { m with deviceFeaturesSel := v }
  else if offset = regDriverFeatures ∨ offset = regDriverFeaturesSel then m
  else if offset = regQueueSel then { m with queueSel := v }
  else if offset = regQueueNum then m.withQueue sel fun q => { q with num := min v queueMax }
  else if offset = regQueueReady then m.withQueue sel fun q => { q with ready := v }
  else if offset = regQueueNotify then (m.process v).1
  else if offset = regInterruptAck then
    { m with
      interruptStatus := Nat.ldiff m.interruptStatus v
      dev := if v &&& 2 ≠ 0 then ackConfig m.dev else m.dev }
  else if offset = regStatus then
    if v = 0 then ({ m with status := v } : VirtioMmio σ).reset else { m with status := v }
  else if offset = regQueueDescLow then m.withQueue sel fun q => { q with desc := setLow q.desc v }
  else if offset = regQueueDescHigh then
    m.withQueue sel fun q => { q with desc := setHigh q.desc v }
  else if offset = regQueueDriverLow then
    m.withQueue sel fun q => { q with avail := setLow q.avail v }
  else if offset = regQueueDriverHigh then
    m.withQueue sel fun q => { q with avail := setHigh q.avail v }
  else if offset = regQueueDeviceLow then
    m.withQueue sel fun q => { q with used := setLow q.used v }
  else if offset = regQueueDeviceHigh then
    m.withQueue sel fun q => { q with used := setHigh q.used v }
  else m

end VirtioMmio

/-! ## Both consumers are sequences of completions -/

/-- What is required of a chain before the device's writes are known to stay in it, and the
law itself: a device writes in the device-writable buffers of the chain it is handed. -/
class LawfulDevice (σ : Type) [VirtioDevice σ] where
  chainOk : ℕ → List Buf → Prop
  handle_frame : ∀ (dev : σ) (qidx : ℕ) (ram : GuestRam) (bufs : List Buf), chainOk qidx bufs →
    ChangesOnly (InWritable bufs) ram (handle dev qidx ram bufs).2.1
  handle_len : ∀ (dev : σ) (qidx : ℕ) (ram : GuestRam) (bufs : List Buf),
    (handle dev qidx ram bufs).2.2 < 2 ^ 32

/-- One completed chain: the next posted chain is taken, only its writable buffers change if
the chain is one the device accepts, and its head is published with the length. -/
structure Completion (ok : List Buf → Prop) (ram : GuestRam) (q : Queue) (e : UsedElem)
    (ram' : GuestRam) (q' : Queue) : Prop where
  active : q.active = true
  posted : q.lastAvail ≠ ram.readU16 (wadd q.avail 2)
  head_eq : e.1 = nextHead ram q
  len_lt : e.2 < 2 ^ 32
  queue_eq : q' = q.advance
  ram_eq : ∃ filled,
    (ok (nextChain ram q) → ChangesOnly (InWritable (nextChain ram q)) ram filled) ∧
    ram' = pushUsed filled q.used e.1 e.2 q.qsz

/-- A sequence of completions on one queue, with the elements it publishes. -/
inductive Completions (ok : List Buf → Prop) :
    GuestRam → Queue → List UsedElem → GuestRam → Queue → Prop
  | nil (ram : GuestRam) (q : Queue) : Completions ok ram q [] ram q
  | cons {ram ram' ram'' : GuestRam} {q q' q'' : Queue} {e : UsedElem} {es : List UsedElem} :
    Completion ok ram q e ram' q' → Completions ok ram' q' es ram'' q'' →
      Completions ok ram q (e :: es) ram'' q''

variable {q q' : Queue} {ram ram' : GuestRam}

/-- The less a chain has to meet, the more a completion says. -/
theorem Completion.mono {ok ok' : List Buf → Prop} (hok : ∀ bufs, ok bufs → ok' bufs)
    {e : UsedElem} (c : Completion ok' ram q e ram' q') :
    Completion ok ram q e ram' q' := by
  obtain ⟨filled, hfill, hram⟩ := c.ram_eq
  exact { c with ram_eq := ⟨filled, fun h => hfill (hok _ h), hram⟩ }

theorem Completions.mono {ok ok' : List Buf → Prop} (hok : ∀ bufs, ok bufs → ok' bufs)
    {es : List UsedElem}
    (c : Completions ok' ram q es ram' q') : Completions ok ram q es ram' q' := by
  induction c with
  | nil ram q => exact .nil ram q
  | cons hstep _ ih => exact .cons (hstep.mono hok) ih

/-- Filling a receive buffer is a completion, whatever is required of chains. -/
theorem injectOne_completion (ok : List Buf → Prop) {data : List UInt8} {e : UsedElem}
    (h : injectOne ram q data = some (ram', q', e)) :
    Completion ok ram q e ram' q' := by
  unfold injectOne at h
  split at h
  · exact absurd h (by simp)
  · rename_i hact
    split at h
    · exact absurd h (by simp)
    · rename_i hposted
      obtain ⟨rfl, rfl, rfl⟩ := by simpa using h
      exact ⟨by simpa using hact, hposted, rfl, Nat.mod_lt _ (by decide), rfl, _,
        fun _ => changesOnly_fillChain ram _ data, rfl⟩

section Spec

variable [LawfulDevice σ]

open LawfulDevice

@[simp] theorem active_advance (q : Queue) : q.advance.active = q.active := rfl

/-- The notify loop is a sequence of completions, provided the available index stays put. -/
theorem processLoop_completions {qidx availIdx : ℕ} :
    ∀ (budget : ℕ) (dev : σ) (ram : GuestRam) (q : Queue), q.active = true →
      let r := processLoop qidx availIdx budget dev ram q
      (∀ ram' q' es, Completions (chainOk σ qidx) ram q es ram' q' →
        ram'.readU16 (wadd q'.avail 2) = availIdx) →
      Completions (chainOk σ qidx) ram q r.elems r.ram r.q ∧
        (r.q.lastAvail = availIdx ∨ r.elems.length = budget) := by
  intro budget
  induction budget with
  | zero => exact fun dev ram q _ _ => ⟨.nil ram q, .inr rfl⟩
  | succ budget ih =>
    intro dev ram q hact r hidx
    by_cases hlast : q.lastAvail = availIdx
    · have hr : r = ⟨dev, ram, q, []⟩ := by simp only [r, processLoop, if_pos hlast]
      rw [hr]
      exact ⟨.nil ram q, .inl hlast⟩
    · set served := handle dev qidx ram (nextChain ram q) with hserved
      set rest := processLoop qidx availIdx budget served.1
        (pushUsed served.2.1 q.used (nextHead ram q) served.2.2 q.qsz) q.advance with hrest
      have hr : r = { rest with elems := (nextHead ram q, served.2.2) :: rest.elems } := by
        simp only [r, processLoop, if_neg hlast, hrest, hserved]
      have hstep : Completion (chainOk σ qidx) ram q (nextHead ram q, served.2.2)
          (pushUsed served.2.1 q.used (nextHead ram q) served.2.2 q.qsz) q.advance := by
        refine ⟨hact, ?_, rfl, handle_len dev qidx ram _, rfl, served.2.1,
          handle_frame dev qidx ram _, rfl⟩
        rw [hidx ram q [] (.nil ram q)]
        exact hlast
      obtain ⟨hrun, hend⟩ := ih served.1 _ q.advance hact
        fun ram' q' es h => hidx ram' q' _ (.cons hstep h)
      rw [hr]
      refine ⟨.cons hstep hrun, hend.imp_right fun hlen => ?_⟩
      rw [List.length_cons, hlen]

end Spec

/-! ## The turns of the receive loop -/

/-- A posted buffer can be filled. -/
theorem injectOne_of_capacity {cap : ℕ}
    (h : nextRxCapacity ram q = some cap) (data : List UInt8) :
    ∃ ram' e, injectOne ram q data = some (ram', q.advance, e) := by
  unfold nextRxCapacity at h
  unfold injectOne
  split at h
  · cases h
  · rename_i hact
    split at h
    · cases h
    · rename_i hposted
      rw [if_neg hact, if_neg hposted]
      exact ⟨_, _, rfl⟩

section Loop

variable {turns cap : ℕ} {dev dev' : σ} {ram ram' : GuestRam} {q q' : Queue} {data : List UInt8}
  {e : UsedElem}

theorem pumpLoop_unposted (hcap : nextRxCapacity ram q = none) :
    pumpLoop (turns + 1) dev ram q = some ⟨dev, ram, q, none, []⟩ := by
  rw [pumpLoop, hcap]

theorem pumpLoop_silent (hcap : nextRxCapacity ram q = some cap)
    (hpoll : pollRx dev cap = (dev', none)) :
    pumpLoop (turns + 1) dev ram q = some ⟨dev', ram, q, none, []⟩ := by
  simp only [pumpLoop, hcap, hpoll]

theorem pumpLoop_frame (hcap : nextRxCapacity ram q = some cap)
    (hpoll : pollRx dev cap = (dev', some data))
    (hinj : injectOne ram q data = some (ram', q', e)) :
    pumpLoop (turns + 1) dev ram q =
      (pumpLoop turns dev' ram' q').map fun rest => { rest with elems := e :: rest.elems } := by
  simp only [pumpLoop, hcap, hpoll, hinj]

theorem pumpFills_unposted (hcap : nextRxCapacity ram q = none) :
    pumpFills (turns + 1) dev ram q = [] := by
  rw [pumpFills, hcap]

theorem pumpFills_silent (hcap : nextRxCapacity ram q = some cap)
    (hpoll : pollRx dev cap = (dev', none)) : pumpFills (turns + 1) dev ram q = [] := by
  simp only [pumpFills, hcap, hpoll]

theorem pumpFills_frame (hcap : nextRxCapacity ram q = some cap)
    (hpoll : pollRx dev cap = (dev', some data))
    (hinj : injectOne ram q data = some (ram', q', e)) :
    pumpFills (turns + 1) dev ram q = ⟨ram, data, ram', q'⟩ :: pumpFills turns dev' ram' q' := by
  simp only [pumpFills, hcap, hpoll, hinj]

/-- What a turn of the loop can come to: a buffer that is posted can be filled. -/
theorem pump_cases (dev : σ) (ram : GuestRam) (q : Queue) :
    nextRxCapacity ram q = none ∨
      (∃ cap dev', nextRxCapacity ram q = some cap ∧ pollRx dev cap = (dev', none)) ∨
      ∃ cap dev' data ram' e, nextRxCapacity ram q = some cap ∧
        pollRx dev cap = (dev', some data) ∧
        injectOne ram q data = some (ram', q.advance, e) := by
  cases hcap : nextRxCapacity ram q with
  | none => exact .inl rfl
  | some cap =>
    rcases hpoll : pollRx dev cap with ⟨dev', _ | data⟩
    · exact .inr (.inl ⟨cap, dev', rfl, hpoll⟩)
    · obtain ⟨ram', e, hinj⟩ := injectOne_of_capacity hcap data
      exact .inr (.inr ⟨cap, dev', data, ram', e, rfl, hpoll, hinj⟩)

variable {r : Pumped σ} (ok : List Buf → Prop)

/-- **Induction over the turns of a receive loop that ends.** -/
theorem pumpLoop_rule {motive : ℕ → σ → GuestRam → Queue → Pumped σ → Prop}
    (unposted : ∀ turns dev ram q, nextRxCapacity ram q = none →
      motive (turns + 1) dev ram q ⟨dev, ram, q, none, []⟩)
    (silent : ∀ turns cap dev dev' ram q, nextRxCapacity ram q = some cap →
      pollRx dev cap = (dev', none) → motive (turns + 1) dev ram q ⟨dev', ram, q, none, []⟩)
    (frame : ∀ turns cap dev dev' data ram ram' q e rest, nextRxCapacity ram q = some cap →
      pollRx dev cap = (dev', some data) → injectOne ram q data = some (ram', q.advance, e) →
      motive turns dev' ram' q.advance rest →
      motive (turns + 1) dev ram q { rest with elems := e :: rest.elems })
    (h : pumpLoop turns dev ram q = some r) : motive turns dev ram q r := by
  induction turns generalizing dev ram q r with
  | zero => cases h
  | succ turns ih =>
    rcases pump_cases dev ram q with hcap | ⟨cap, dev', hcap, hpoll⟩ |
      ⟨cap, dev', data, ram', e, hcap, hpoll, hinj⟩
    · rw [pumpLoop_unposted hcap] at h
      cases h
      exact unposted _ _ _ _ hcap
    · rw [pumpLoop_silent hcap hpoll] at h
      cases h
      exact silent _ _ _ _ _ _ hcap hpoll
    · rw [pumpLoop_frame hcap hpoll hinj] at h
      obtain ⟨rest, hrest, rfl⟩ := Option.map_eq_some_iff.1 h
      exact frame _ _ _ _ _ _ _ _ _ rest hcap hpoll hinj (ih hrest)

/-- An undisturbed pump holds nothing back. -/
theorem pumpLoop_pending (h : pumpLoop turns dev ram q = some r) :
    r.pending = none :=
  pumpLoop_rule (motive := fun _ _ _ _ r => r.pending = none) (fun _ _ _ _ _ => rfl)
    (fun _ _ _ _ _ _ _ _ => rfl) (fun _ _ _ _ _ _ _ _ _ _ _ _ _ ih => ih) h

/-- The receive loop is a sequence of completions. -/
theorem pumpLoop_completions (h : pumpLoop turns dev ram q = some r) :
    Completions ok ram q r.elems r.ram r.q := by
  refine pumpLoop_rule (motive := fun _ _ ram q r => Completions ok ram q r.elems r.ram r.q)
    ?_ ?_ ?_ h
  · exact fun _ _ ram q _ => .nil ram q
  · exact fun _ _ _ _ ram q _ _ => .nil ram q
  · exact fun _ _ _ _ _ _ _ _ _ _ _ _ hinj ih => .cons (injectOne_completion ok hinj) ih

/-- A receive loop that has not finished after `turns` turns has completed `turns` chains. -/
theorem pumpLoop_unfinished (h : pumpLoop turns dev ram q = none) :
    ∃ es ram' q', Completions ok ram q es ram' q' ∧ es.length = turns := by
  induction turns generalizing dev ram q with
  | zero => exact ⟨[], ram, q, .nil ram q, rfl⟩
  | succ turns ih =>
    rcases pump_cases dev ram q with hcap | ⟨cap, dev', hcap, hpoll⟩ |
      ⟨cap, dev', data, ram', e, hcap, hpoll, hinj⟩
    · rw [pumpLoop_unposted hcap] at h
      cases h
    · rw [pumpLoop_silent hcap hpoll] at h
      cases h
    · rw [pumpLoop_frame hcap hpoll hinj] at h
      obtain ⟨es, ram'', q'', hrun, hlen⟩ := ih (Option.map_eq_none_iff.1 h)
      exact ⟨e :: es, ram'', q'', .cons (injectOne_completion ok hinj) hrun,
        by rw [List.length_cons, hlen]⟩

/-- The element of a buffer: its length is what fits of the payload into the chain of its head. -/
def Filled (q : Queue) (f : Fill) (e : UsedElem) : Prop :=
  e.2 = min (((collectChain f.ram q.desc e.1 q.qsz).filter (·.writable)).map (·.len)).sum
    f.data.length % 2 ^ 32

omit [VirtioDevice σ] in
theorem injectOne_filled (h : injectOne ram q data = some (ram', q', e)) :
    q' = q.advance ∧ Filled q ⟨ram, data, ram', q'⟩ e := by
  unfold injectOne at h
  split_ifs at h
  cases h
  exact ⟨rfl, congrArg (· % 2 ^ 32) (fillBufs_snd _ ram data)⟩

/-- **What the receive loop publishes is what the device had.** -/
theorem pumpLoop_filled (h : pumpLoop turns dev ram q = some r) :
    List.Forall₂ (Filled q) (pumpFills turns dev ram q) r.elems := by
  refine pumpLoop_rule (motive := fun turns dev ram q r =>
    List.Forall₂ (Filled q) (pumpFills turns dev ram q) r.elems) ?_ ?_ ?_ h
  · intro turns dev ram q hcap
    rw [pumpFills_unposted hcap]
    exact .nil
  · intro turns cap dev dev' ram q hcap hpoll
    rw [pumpFills_silent hcap hpoll]
    exact .nil
  · intro turns cap dev dev' data ram ram' q e rest hcap hpoll hinj ih
    rw [pumpFills_frame hcap hpoll hinj]
    exact .cons (injectOne_filled hinj).2 ih

end Loop

theorem VirtioMmio.pumpRx_filled {m m' : VirtioMmio σ} {ram : GuestRam} {q : Queue} {i turns : ℕ}
    {es : List UsedElem} (h : m.pumpRx turns = some (m', es)) (hram : m.ram = some ram)
    (hrx : rxQueue m.dev = some i) (hq : m.queues[i]? = some q) :
    List.Forall₂ (Filled q) (m.rxFills turns) es := by
  simp only [pumpRx, hram, hrx, hq] at h
  simp only [rxFills, hram, hrx, hq]
  cases hpend : m.pendingRx with
  | none =>
    simp only [hpend] at h
    obtain ⟨r, hr, hfin⟩ := Option.map_eq_some_iff.1 h
    obtain rfl : r.elems = es := congrArg Prod.snd hfin
    exact pumpLoop_filled hr
  | some data =>
    simp only [hpend] at h ⊢
    cases hinj : injectOne ram q data with
    | none =>
      simp only [hinj, Option.some.injEq] at h
      cases h
      exact .nil
    | some out =>
      obtain ⟨ram', q', e⟩ := out
      simp only [hinj] at h ⊢
      obtain ⟨r, hr, hfin⟩ := Option.map_eq_some_iff.1 h
      obtain rfl : e :: r.elems = es := congrArg Prod.snd hfin
      obtain ⟨rfl, hfilled⟩ := injectOne_filled hinj
      exact .cons hfilled (pumpLoop_filled hr)

end Consumers

end Amber
