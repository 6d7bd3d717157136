import Amber.Core.VirtioSnapshot

/-!
# What a driver can tell of a restore

A driver goes on with its register accesses on a transport that has been captured and restored
in between.  The device behind the restored transport is a new one; it is taken to answer as the
old one would (`DeviceSim`), so what is compared is the transports.

* `Same.access` — transports that differ only in what no register shows answer every access
  alike, serve the same chains and raise the same interrupts, and stay so.
* `transparent_iff` — a restore does not show exactly when queue 0 was selected and the feature
  word on show was that of selector 0.
* `selectors_lost` — a driver between writing a selector and using it.
-/

namespace Amber

open VirtioDevice List

/-- Two device states no request can tell apart, as a relation that requests keep. -/
structure DeviceSim {σ : Type} [VirtioDevice σ] (R : σ → σ → Prop) : Prop where
  deviceId : ∀ {d d'}, R d d' → deviceId d = deviceId d'
  features : ∀ {d d'}, R d d' → deviceFeatures d = deviceFeatures d'
  config : ∀ {d d'}, R d d' → config d = config d'
  configChanged : ∀ {d d'}, R d d' → configChanged d = configChanged d'
  numQueues : ∀ {d d'}, R d d' → numQueues d = numQueues d'
  rxQueue : ∀ {d d'}, R d d' → rxQueue d = rxQueue d'
  eventQueue : ∀ {d d'}, R d d' → eventQueue d = eventQueue d'
  ackConfig : ∀ {d d'}, R d d' → R (ackConfig d) (ackConfig d')
  handle : ∀ {d d'} qidx ram bufs, R d d' →
    R (handle d qidx ram bufs).1 (handle d' qidx ram bufs).1 ∧
      (handle d qidx ram bufs).2 = (handle d' qidx ram bufs).2

/-- The same state, for one. -/
theorem deviceSim_eq (σ : Type) [VirtioDevice σ] : DeviceSim (Eq : σ → σ → Prop) where
  deviceId := congrArg _
  features := congrArg _
  config := congrArg _
  configChanged := congrArg _
  numQueues := congrArg _
  rxQueue := congrArg _
  eventQueue := congrArg _
  ackConfig := congrArg _
  handle qidx ram bufs h := by
    rw [h]
    exact ⟨rfl, rfl⟩

/-- The word DEVICE_FEATURES shows for a selector. -/
def featureWord {σ : Type} [VirtioDevice σ] (dev : σ) (sel : ℕ) : ℕ :=
  if sel = 1 then deviceFeatures dev sel ||| featureVersion1Word else deviceFeatures dev sel

theorem featureWord_congr {σ : Type} [VirtioDevice σ] {d d' : σ}
    (h : deviceFeatures d = deviceFeatures d') (sel : ℕ) :
    featureWord d sel = featureWord d' sel := by
  rw [featureWord, featureWord, h]

/-- What a driver does.  Between accesses it writes in RAM. -/
inductive Access
  | read (offset : ℕ)
  | write (offset value : ℕ)
  | ram (f : GuestRam → GuestRam)

/-- What comes of an access: the value read; or the chains served, the interrupt line and what is
in RAM. -/
inductive Seen
  | value (v : ℕ)
  | effect (served : List UsedElem) (irq : Bool) (ram : Option GuestRam)

namespace VirtioMmio

variable {σ : Type} [VirtioDevice σ]

/-- The chains a register write has served. -/
def served (m : VirtioMmio σ) (offset value : ℕ) : List UsedElem :=
  if offset = regQueueNotify then (m.process (value % 2 ^ 32)).2 else []

def access (m : VirtioMmio σ) : Access → VirtioMmio σ × Seen
  | .read offset => (m, .value (m.read offset))
  | .write offset value =>
    let m' := m.write offset value
    (m', .effect (m.served offset value) m'.irqLevel m'.ram)
  | .ram f =>
    let m' : VirtioMmio σ := { m with ram := m.ram.map f }
    (m', .effect [] m'.irqLevel m'.ram)

/-- Restored on `dev`, a transport answers every later sequence of accesses as before. -/
def Transparent (m : VirtioMmio σ) (dev : σ) : Prop :=
  ∀ l, Runs.trace access (m.revived dev) l = Runs.trace access m l

/-! ## Transports that are the same -/

/-- The same but for what no register shows. -/
structure Same (R : σ → σ → Prop) (m m' : VirtioMmio σ) : Prop where
  dev : R m.dev m'.dev
  ram : m.ram = m'.ram
  features : featureWord m.dev m.deviceFeaturesSel = featureWord m'.dev m'.deviceFeaturesSel
  status : m.status = m'.status
  queueSel : m.queueSel = m'.queueSel
  queues : m.queues = m'.queues
  interruptStatus : m.interruptStatus = m'.interruptStatus

section Same

variable {R : σ → σ → Prop} {m m' : VirtioMmio σ}

theorem Same.ite {c : Prop} [Decidable c] {a b a' b' : VirtioMmio σ} (ha : Same R a a')
    (hb : Same R b b') : Same R (if c then a else b) (if c then a' else b') := by
  split_ifs
  · exact ha
  · exact hb

theorem Same.withQueue (h : Same R m m') (f : Queue → Queue) :
    Same R (m.withQueue m.queueSel f) (m'.withQueue m'.queueSel f) := by
  refine ⟨h.dev, h.ram, h.features, h.status, h.queueSel, ?_, h.interruptStatus⟩
  rw [VirtioMmio.withQueue, VirtioMmio.withQueue, h.queues, h.queueSel]

variable (hR : DeviceSim R)

include hR

theorem Same.read (h : Same R m m') (offset : ℕ) : m.read offset = m'.read offset := by
  have hfeat : (if m.deviceFeaturesSel = 1 then
      deviceFeatures m.dev m.deviceFeaturesSel ||| featureVersion1Word
      else deviceFeatures m.dev m.deviceFeaturesSel) =
      if m'.deviceFeaturesSel = 1 then
      deviceFeatures m'.dev m'.deviceFeaturesSel ||| featureVersion1Word
      else deviceFeatures m'.dev m'.deviceFeaturesSel := h.features
  simp only [VirtioMmio.read, hfeat, h.queues, h.queueSel, h.status, h.interruptStatus,
    hR.deviceId h.dev, hR.configChanged h.dev, hR.config h.dev]

theorem Same.irqLevel (h : Same R m m') : m.irqLevel = m'.irqLevel := by
  rw [VirtioMmio.irqLevel, VirtioMmio.irqLevel, h.interruptStatus, hR.configChanged h.dev]

theorem processLoop_same (qidx availIdx budget : ℕ) (ram : GuestRam) (q : Queue) {d d' : σ}
    (h : R d d') :
    let r := processLoop qidx availIdx budget d ram q
    let r' := processLoop qidx availIdx budget d' ram q
    R r.dev r'.dev ∧ r.ram = r'.ram ∧ r.q = r'.q ∧ r.elems = r'.elems := by
  induction budget generalizing d d' ram q with
  | zero => exact ⟨h, rfl, rfl, rfl⟩
  | succ budget ih =>
    dsimp only [processLoop]
    split_ifs
    · exact ⟨h, rfl, rfl, rfl⟩
    · obtain ⟨hdev, hout⟩ := hR.handle qidx ram (nextChain ram q) h
      rw [hout]
      obtain ⟨hd, hram, hq, helems⟩ := ih _ q.advance hdev
      exact ⟨hd, hram, hq, congrArg (cons _) helems⟩

end Same

section Access

variable [FixedShape σ] {R : σ → σ → Prop} {m m' : VirtioMmio σ} (hR : DeviceSim R)

open FixedShape

theorem features_ack (c : Prop) [Decidable c] (dev : σ) :
    deviceFeatures (if c then ackConfig dev else dev) = deviceFeatures dev := by
  split_ifs
  · exact features_ackConfig dev
  · rfl

include hR

/-- A notify serves the same chains in the same way. -/
theorem Same.process (h : Same R m m') (qidx : ℕ) :
    Same R (m.process qidx).1 (m'.process qidx).1 ∧
      (m.process qidx).2 = (m'.process qidx).2 := by
  unfold VirtioMmio.process
  rw [← h.ram, ← h.queues, ← hR.rxQueue h.dev, ← hR.eventQueue h.dev]
  split
  · rename_i ram q _ hq
    split_ifs
    · exact ⟨h, rfl⟩
    · exact ⟨h, rfl⟩
    · obtain ⟨hdev, hram, hqueue, helems⟩ := processLoop_same hR qidx
        (ram.readU16 (wadd q.avail 2)) q.qsz ram q h.dev
      refine ⟨⟨hdev, congrArg some hram, ?_, h.status, h.queueSel, ?_, ?_⟩, helems⟩
      · have hfix := processLoop_fixed fun d : σ => features_handle d qidx
        exact (featureWord_congr (hfix ..) _).trans
          (h.features.trans (featureWord_congr (hfix ..) _).symm)
      · dsimp only
        rw [hqueue]
      · dsimp only
        rw [helems, h.interruptStatus]
  · exact ⟨h, rfl⟩

theorem Same.write (h : Same R m m') (offset value : ℕ) :
    Same R (m.write offset value) (m'.write offset value) := by
  refine .ite ?featuresSel (.ite h (.ite ?queueSel (.ite ?_ (.ite ?_ (.ite (h.process hR _).1
    (.ite ?ack (.ite ?status (.ite ?_ (.ite ?_ (.ite ?_ (.ite ?_ (.ite ?_ (.ite ?_ h)))))))))))))
  case featuresSel => exact { h with features := featureWord_congr (hR.features h.dev) _ }
  case queueSel => exact { h with queueSel := rfl }
  case ack =>
    refine { h with dev := ?_, features := ?_, interruptStatus := ?_ }
    · split_ifs
      · exact hR.ackConfig h.dev
      · exact h.dev
    · exact (featureWord_congr (features_ack ..) _).trans
        (h.features.trans (featureWord_congr (features_ack ..) _).symm)
    · exact congrArg (Nat.ldiff · _) h.interruptStatus
  case status =>
    refine .ite ⟨h.dev, h.ram, h.features, rfl, h.queueSel, ?_, rfl⟩ { h with status := rfl }
    exact congrArg (map fun _ => Queue.default) h.queues
  all_goals exact h.withQueue _

/-- Transports that are the same answer an access alike and stay the same. -/
theorem Same.access (h : Same R m m') (a : Access) :
    (m.access a).2 = (m'.access a).2 ∧ Same R (m.access a).1 (m'.access a).1 := by
  cases a with
  | read offset => exact ⟨congrArg Seen.value (h.read hR offset), h⟩
  | write offset value =>
    have hw := h.write hR offset value
    refine ⟨?_, hw⟩
    have hserved : m.served offset value = m'.served offset value := by
      rw [served, served, (h.process hR _).2]
    show Seen.effect _ _ _ = Seen.effect _ _ _
    rw [hserved, hw.irqLevel hR, hw.ram]
  | ram f =>
    have hram : m.ram.map f = m'.ram.map f := congrArg (Option.map f) h.ram
    refine ⟨?_, { h with ram := hram }⟩
    show Seen.effect [] m.irqLevel (m.ram.map f) = Seen.effect [] m'.irqLevel (m'.ram.map f)
    rw [h.irqLevel hR, hram]

end Access

/-! ## Telling a restore -/

section Probe

variable {m : VirtioMmio σ}

theorem Transparent.read {dev : σ} (h : m.Transparent dev) (offset : ℕ) :
    (m.revived dev).read offset = m.read offset :=
  Seen.value.inj (head_eq_of_cons_eq (h [.read offset]))

/-- Write QUEUE_READY of the queue selected and look at queue 0's. -/
def probeReady (m : VirtioMmio σ) (v : ℕ) : ℕ :=
  ((m.write regQueueReady v).write regQueueSel 0).read regQueueReady

theorem Transparent.probeReady {dev : σ} (h : m.Transparent dev) (v : ℕ) :
    (m.revived dev).probeReady v = m.probeReady v := by
  have hl := h [.write regQueueReady v, .write regQueueSel 0, .read regQueueReady]
  have htl := tail_eq_of_cons_eq (tail_eq_of_cons_eq hl)
  exact Seen.value.inj (head_eq_of_cons_eq htl)

theorem probeReady_of_zero (h : m.queueSel = 0) (hlen : 0 < m.queues.length) (v : ℕ) :
    m.probeReady v = v % 2 ^ 32 := by
  show ((m.queues.modify m.queueSel fun q => { q with ready := v % 2 ^ 32 })[0]?.getD
    Queue.default).ready = v % 2 ^ 32
  rw [h, getElem?_modify, getElem?_eq_getElem hlen]
  rfl

theorem probeReady_of_ne (h : m.queueSel ≠ 0) (v : ℕ) :
    m.probeReady v = (m.queues[0]?.getD Queue.default).ready := by
  show ((m.queues.modify m.queueSel fun q => { q with ready := v % 2 ^ 32 })[0]?.getD
    Queue.default).ready = _
  rw [getElem?_modify]
  simp [h]

/-- Whatever queue 0 has in QUEUE_READY, one of the two values is another. -/
theorem probeReady_ne (h : m.queueSel ≠ 0) : ∃ v, m.probeReady v ≠ v % 2 ^ 32 := by
  by_cases hzero : (m.queues[0]?.getD Queue.default).ready = 0
  · refine ⟨1, ?_⟩
    rw [probeReady_of_ne h, hzero]
    decide
  · refine ⟨0, ?_⟩
    rw [probeReady_of_ne h]
    exact hzero

end Probe

variable [FixedShape σ]

/-- **A restore does not show exactly when nothing had been selected.**  For a transport reached
by any writes, notifies and pumps, and a device that answers as the old one, all later accesses
answer alike if and only if QUEUE_SEL is 0 and DEVICE_FEATURES shows the word of selector 0. -/
theorem transparent_iff {R : σ → σ → Prop} (hR : DeviceSim R) {m : VirtioMmio σ}
    (hm : m.Reachable) {dev : σ} (hdev : R m.dev dev) :
    m.Transparent dev ↔
      m.queueSel = 0 ∧ featureWord m.dev m.deviceFeaturesSel = featureWord m.dev 0 := by
  have heq := revived_eq hm.wf (hR.numQueues hdev).symm
  have hword : featureWord m.dev 0 = featureWord dev 0 := featureWord_congr (hR.features hdev) 0
  have hlen : 0 < m.queues.length := by
    rw [hm.wf.length_eq]
    exact lt_max_of_lt_right one_pos
  constructor
  · intro h
    constructor
    · by_contra hsel
      obtain ⟨v, hv⟩ := probeReady_ne hsel
      refine hv ?_
      rw [← h.probeReady v, heq]
      apply probeReady_of_zero
      · rfl
      · exact hlen
    · have hread := h.read regDeviceFeatures
      exact hread.symm.trans hword.symm
  · rintro ⟨hsel, hfeat⟩ l
    rw [heq]
    have hsame :
        Same R m { m with dev, deviceFeaturesSel := 0, queueSel := 0, pendingRx := none } :=
      ⟨hdev, rfl, hfeat.trans hword, rfl, hsel, rfl, rfl⟩
    exact (Runs.trace_eq_of_sim (fun _ _ a h => h.access hR a) hsame l).symm

/-- A driver that has read the features and set up its queue. -/
theorem transparent_afterSetUp :
    let m := ((((new (RngDevice.mk [])).write regDeviceFeaturesSel 0).write regQueueSel 0).write
      regQueueNum 8).write regQueueReady 1
    m.Reachable ∧ m.Transparent ⟨[]⟩ := by
  have hm := (((Reachable.new (RngDevice.mk [])).write regDeviceFeaturesSel 0).write
    regQueueSel 0).write regQueueNum 8 |>.write regQueueReady 1
  exact ⟨hm, (transparent_iff (deviceSim_eq RngDevice) hm rfl).2 ⟨rfl, rfl⟩⟩

/-- **A selector does not survive.**  With selector 1 written, DEVICE_FEATURES offers
VIRTIO_F_VERSION_1 before the snapshot and nothing after it; with queue 1 selected, QUEUE_NUM_MAX
says before it that there is no such queue, and after it that there is one. -/
theorem selectors_lost :
    let fresh : VirtioMmio RngDevice := new ⟨[]⟩
    let features := fresh.write regDeviceFeaturesSel 1
    let queue := fresh.write regQueueSel 1
    features.Reachable ∧ queue.Reachable ∧
      Runs.trace access features [.read regDeviceFeatures] = [.value 1] ∧
      Runs.trace access (features.revived ⟨[]⟩) [.read regDeviceFeatures] = [.value 0] ∧
      Runs.trace access queue [.read regQueueNumMax] = [.value 0] ∧
      Runs.trace access (queue.revived ⟨[]⟩) [.read regQueueNumMax] = [.value 256] ∧
      ¬ features.Transparent ⟨[]⟩ ∧ ¬ queue.Transparent ⟨[]⟩ := by
  refine ⟨.write (.new _) _ _, .write (.new _) _ _, rfl, rfl, rfl, rfl, ?_, ?_⟩
  · intro h
    exact absurd (h.read regDeviceFeatures) (by decide)
  · intro h
    exact absurd (h.read regQueueNumMax) (by decide)

end VirtioMmio
end Amber
