import Amber.Lib.Runs
import Amber.Core.RingInvariant
import Amber.Core.Rng

/-!
# Runs of a transport with a conforming driver

The guest posts chains and touches its memory, it writes the transport's registers, and the
run loop pumps the receive queue, in any order.  `QueueSys` records beside the transport what
the driver has posted and what the device side has published on each queue.

`QueueSys.Legal` is the driver's side of the virtio contract: it leaves the used rings alone,
does not reconfigure or reset a live device, and keeps `DriverOk` on every live queue.

* `QueueSys.step_inv` — every legal step keeps the ring invariant and the interrupt bit.
* `QueueSys.run_exactlyOnce` — in every legal run every posted chain is completed at most
  once, in order, a notify leaves none behind, and what it publishes is what the device returned
  for the chain of each head (`Answered`).
-/

namespace Amber

open GuestRam VirtioDevice LawfulDevice LittleEndian WrapCounter List Function Option

/-- A transport with the history of its queues. -/
structure QueueSys (σ : Type) where
  mmio : VirtioMmio σ
  /-- The heads the driver has posted on each queue since set-up. -/
  posted : ℕ → List ℕ
  /-- The elements published on each queue since set-up. -/
  served : ℕ → List UsedElem
  /-- An element was published since interrupt bit 0 was last acknowledged. -/
  unacked : Bool

/-- What can happen next: the guest runs (its memory and what it has posted become these),
the guest writes a register, or the run loop pumps the receive queue. -/
inductive QueueStep
  | guest (ram : GuestRam) (posted : ℕ → List ℕ)
  | write (offset value : ℕ)
  | pumpRx

/-- A bound no receive loop over an intact ring reaches: its index has 2^16 values. -/
def pumpTurns : ℕ := 2 ^ 16

namespace QueueSys

variable {σ : Type} [VirtioDevice σ]

/-- Record the elements published on queue `i`. -/
def publish (s : QueueSys σ) (i : ℕ) (es : List UsedElem) : QueueSys σ :=
  { s with
    served := Function.update s.served i (s.served i ++ es)
    unacked := s.unacked || !es.isEmpty }

def step (s : QueueSys σ) : QueueStep → QueueSys σ
  | .guest ram posted => { s with mmio := { s.mmio with ram := some ram }, posted }
  | .write offset value =>
    let s' := { s with mmio := s.mmio.write offset value }
    if offset = regQueueNotify then
      s'.publish (value % 2 ^ 32) (s.mmio.process (value % 2 ^ 32)).2
    else if offset = regInterruptAck ∧ (value % 2 ^ 32).testBit 0 = true then
      { s' with unacked := false }
    else s'
  | .pumpRx =>
    match s.mmio.pumpRx pumpTurns, rxQueue s.mmio.dev with
    | some (mmio, es), some rxq => ({ s with mmio } : QueueSys σ).publish rxq es
    | some (mmio, _), none => { s with mmio }
    | none, _ => s

/-- Register writes that set up a queue or reset the device. -/
def Reconfigures (offset value : ℕ) : Prop :=
  offset ∈ [regQueueNum, regQueueReady, regQueueDescLow, regQueueDescHigh, regQueueDriverLow,
    regQueueDriverHigh, regQueueDeviceLow, regQueueDeviceHigh] ∨
  (offset = regStatus ∧ value % 2 ^ 32 = 0)

/-- `g` lies in the used ring of a live queue. -/
def InUsedRings (queues : List Queue) (g : ℕ) : Prop :=
  ∃ q ∈ queues, q.active = true ∧ InUsedRing q.used q.num g

variable [LawfulDevice σ]

/-- What virtio requires of the driver when it takes this step. -/
def Legal (s : QueueSys σ) : QueueStep → Prop
  | .guest ram posted =>
    (∃ ram₀, s.mmio.ram = some ram₀ ∧
      ChangesOnly (fun g => ¬ InUsedRings s.mmio.queues g) ram₀ ram) ∧
    (∀ i, s.posted i <+: posted i) ∧
    ∀ (i : ℕ) (q : Queue), s.mmio.queues[i]? = some q → q.active = true →
      DriverOk (chainOk σ i) (InRings s.mmio.queues) ram q (posted i) (s.served i).length
  | .write offset value => ¬ Reconfigures offset value
  | .pumpRx => True

/-- A transport right after set-up: rings laid out in RAM, all indices at zero. -/
structure Fresh (s : QueueSys σ) : Prop where
  ram : ∃ ram, s.mmio.ram = some ram ∧ Layout ram s.mmio.queues ∧
    ∀ q ∈ s.mmio.queues, q.active = true →
      q.lastAvail = 0 ∧ ram.readU16 (q.avail + 2) = 0 ∧ ram.readU16 (q.used + 2) = 0
  posted : ∀ i, s.posted i = []
  served : ∀ i, s.served i = []
  unacked : s.unacked = false

/-- The state invariant of a run. -/
def Inv (s : QueueSys σ) : Prop :=
  (∃ ram, s.mmio.ram = some ram ∧
    RingInv (chainOk σ) ram s.mmio.queues s.posted s.served) ∧
  (s.unacked = true → s.mmio.interruptStatus.testBit 0 = true)

omit [VirtioDevice σ] [LawfulDevice σ] in
/-- Before anything is posted the rings are in order, whatever is required of chains. -/
theorem Fresh.ringInv {s : QueueSys σ} (h : s.Fresh) (ok : ℕ → List Buf → Prop) :
    ∃ ram, s.mmio.ram = some ram ∧ RingInv ok ram s.mmio.queues s.posted s.served := by
  obtain ⟨ram, hram, hlay, hzero⟩ := h.ram
  refine ⟨ram, hram, hlay, ?_, ?_⟩
  · intro i q hi hact
    obtain ⟨-, havail, -⟩ := hzero q (mem_of_getElem? hi) hact
    rw [h.posted i, h.served i]
    refine ⟨havail, le_refl _, Nat.zero_le _, ?_, ?_⟩
    all_goals exact fun k hk => absurd hk (Nat.not_lt_zero k)
  · intro i q hi hact
    obtain ⟨hlast, -, hused⟩ := hzero q (mem_of_getElem? hi) hact
    rw [h.posted i, h.served i]
    exact ⟨hlast, hused, fun k hk => absurd hk (Nat.not_lt_zero k), rfl⟩

theorem Fresh.inv {s : QueueSys σ} (h : s.Fresh) : s.Inv :=
  ⟨h.ringInv _, fun hu => by rw [h.unacked] at hu; cases hu⟩

section Consume

variable {ok : ℕ → List Buf → Prop} {m : VirtioMmio σ} {ram : GuestRam} {posted : ℕ → List ℕ}
  {served : ℕ → List UsedElem}

theorem update_append_nil (served : ℕ → List UsedElem) (i : ℕ) :
    Function.update served i (served i ++ []) = served := by
  rw [append_nil, update_eq_self]

/-- What a consumer leaves behind: the ring invariant with the published elements counted,
and the interrupt bit raised if there were any. -/
def Consumed (m m' : VirtioMmio σ) (posted : ℕ → List ℕ) (served : ℕ → List UsedElem) (i : ℕ)
    (es : List UsedElem) : Prop :=
  (∃ ram', m'.ram = some ram' ∧
    RingInv (chainOk σ) ram' m'.queues posted (Function.update served i (served i ++ es))) ∧
  m'.interruptStatus = raiseIf es m.interruptStatus

variable {i : ℕ} {q : Queue}

/-- The notify path on a queue the transport consumes serves every outstanding chain. -/
theorem processLoop_ringInv (h : RingInv ok ram m.queues posted served)
    (hok : ∀ bufs, ok i bufs → chainOk σ i bufs) (hi : m.queues[i]? = some q)
    (hact : q.active = true) :
    let r := processLoop i (ram.readU16 (wadd q.avail 2)) q.qsz m.dev ram q
    RingInv ok r.ram (m.queues.set i r.q) posted
        (update served i (served i ++ r.elems)) ∧
      r.q.active = true ∧ (served i).length + r.elems.length = (posted i).length := by
  intro r
  have hlt := (List.getElem?_eq_some_iff.1 hi).1
  have hgeo := h.layout.geometry q (List.mem_of_getElem? hi) hact
  have hfit := hgeo.avail_fits
  have hidx : ram.readU16 (wadd q.avail 2) = (posted i).length % 2 ^ 16 := by
    rw [wadd_of_lt (by omega), (h.driver i q hi hact).availIdx]
  -- no completion moves the available index
  have hstay : ∀ ram' q' es, Completions (chainOk σ i) ram q es ram' q' →
      ram'.readU16 (wadd q'.avail 2) = ram.readU16 (wadd q.avail 2) := by
    intro ram' q' es c
    have hmem := List.getElem?_set_self (a := q') hlt
    have h' := RingInv.completions (c.mono hok) h hi
    have hgeo' := h'.layout.geometry q' (List.mem_of_getElem? hmem) (c.active hact)
    have hfit' := hgeo'.avail_fits
    rw [hidx, wadd_of_lt (by omega), (h'.driver i q' hmem (c.active hact)).availIdx]
  obtain ⟨c, hend⟩ : Completions (chainOk σ i) ram q r.elems r.ram r.q ∧
      (r.q.lastAvail = ram.readU16 (wadd q.avail 2) ∨ r.elems.length = q.qsz) :=
    processLoop_completions q.qsz m.dev ram q hact hstay
  have h' := RingInv.completions (c.mono hok) h hi
  refine ⟨h', c.active hact, ?_⟩
  have hdrv := h.driver i q hi hact
  have hle := h.completions_length hi hact (c.mono hok)
  have hout := hdrv.outstanding
  rcases hend with hlast | hbudget
  · have hdev := h'.device i _ (List.getElem?_set_self hlt) (c.active hact)
    rw [hidx, hdev.lastAvail, update_self, List.length_append] at hlast
    have hnum := hgeo.num_le
    by_contra hne
    exact mod_ne_mod_of_lt (lt_of_le_of_ne hle hne) (by omega) hlast
  · rw [hgeo.qsz_eq] at hbudget
    omega

omit [LawfulDevice σ] in
theorem interruptStatus_process (m : VirtioMmio σ) (i : ℕ) :
    (m.process i).1.interruptStatus = raiseIf (m.process i).2 m.interruptStatus := by
  unfold VirtioMmio.process
  split
  · split_ifs <;> rfl
  · rfl

/-- A notify keeps the ring invariant, whatever more than the device asks is required of
chains. -/
theorem process_ringInv (hok : ∀ i bufs, ok i bufs → chainOk σ i bufs) (hram : m.ram = some ram)
    (h : RingInv ok ram m.queues posted served) (i : ℕ) :
    ∃ ram', (m.process i).1.ram = some ram' ∧ RingInv ok ram' (m.process i).1.queues posted
      (Function.update served i (served i ++ (m.process i).2)) := by
  have hidle : ∃ ram', m.ram = some ram' ∧ RingInv ok ram' m.queues posted
      (update served i (served i ++ [])) :=
    ⟨ram, hram, by rw [update_append_nil]; exact h⟩
  unfold VirtioMmio.process
  rw [hram]
  cases hi : m.queues[i]? with
  | none => exact hidle
  | some q =>
    simp only
    split
    · exact hidle
    · split
      · exact hidle
      · rename_i hact
        exact ⟨_, rfl, (processLoop_ringInv h (hok i) hi (by simpa using hact)).1⟩

omit [LawfulDevice σ] in
/-- The receive loop, after the elements `es` had been published before it. -/
theorem finishRx_ringInv {ram₁ : GuestRam} {q₁ : Queue} {es : List UsedElem}
    (h : RingInv ok ram m.queues posted served) (hi : m.queues[i]? = some q)
    (c : Completions (ok i) ram q es ram₁ q₁) {r : Pumped σ}
    (hr : pumpLoop pumpTurns m.dev ram₁ q₁ = some r) :
    RingInv ok r.ram (m.finishRx i es r).1.queues posted
      (Function.update served i (served i ++ (m.finishRx i es r).2)) := by
  have c' := pumpLoop_completions (ok i) hr
  have hlt := (List.getElem?_eq_some_iff.1 hi).1
  have h' := RingInv.completions c' (RingInv.completions c h hi) (List.getElem?_set_self hlt)
  rw [List.set_set, update_idem, update_self, List.append_assoc] at h'
  exact h'

omit [LawfulDevice σ] in
/-- The receive loop finishes: it cannot complete more chains than are outstanding. -/
theorem pumpLoop_finishes (dev : σ) {queues : List Queue} (h : RingInv ok ram queues posted served)
    (hi : queues[i]? = some q) :
    ∃ r, pumpLoop pumpTurns dev ram q = some r := by
  by_contra hnone
  have hloop : pumpLoop pumpTurns dev ram q = none := by
    cases hp : pumpLoop pumpTurns dev ram q with
    | none => rfl
    | some r => exact absurd ⟨r, hp⟩ hnone
  obtain ⟨es, ram', q', c, hlen⟩ := pumpLoop_unfinished (ok i) hloop
  have hact : q.active = true := by
    cases c with
    | nil => simp [pumpTurns] at hlen
    | cons hstep _ => exact hstep.active
  have hle := h.completions_length hi hact c
  have hout := (h.driver i q hi hact).outstanding
  have hnum := (h.layout.geometry q (mem_of_getElem? hi) hact).num_le
  rw [hlen, pumpTurns] at hle
  omega

section Invariant

variable (hram : m.ram = some ram) (h : RingInv (chainOk σ) ram m.queues posted served)

include hram h

theorem Consumed.none (i : ℕ) : Consumed m m posted served i [] :=
  ⟨⟨ram, hram, by rw [update_append_nil]; exact h⟩, rfl⟩

theorem process_consumed (i : ℕ) :
    Consumed m (m.process i).1 posted served i (m.process i).2 :=
  ⟨process_ringInv (fun _ _ hbufs => hbufs) hram h i, interruptStatus_process m i⟩

/-- A notify on a live queue that is neither the receive nor the event queue serves every
posted chain. -/
theorem process_drains (hi : m.queues[i]? = some q) (hact : q.active = true)
    (hrx : rxQueue m.dev ≠ some i) (hev : eventQueue m.dev ≠ some i) :
    (served i ++ (m.process i).2).map Prod.fst = posted i := by
  have hskip : ¬ (rxQueue m.dev = some i ∨ eventQueue m.dev = some i) := by tauto
  have hlt := (List.getElem?_eq_some_iff.1 hi).1
  obtain ⟨hring, hact', hlen⟩ := processLoop_ringInv h (fun _ hbufs => hbufs) hi hact
  have hord := (hring.device i _ (List.getElem?_set_self hlt) hact').inOrder
  rw [update_self, List.length_append, hlen, List.take_length] at hord
  simpa only [VirtioMmio.process, hram, hi, if_neg hskip, hact, Bool.not_true,
    Bool.false_eq_true, if_false] using hord

/-- **A pump call finishes and keeps the ring invariant**, on the receive queue if there is
one. -/
theorem pumpRx_consumed :
    ∃ m' es, m.pumpRx pumpTurns = some (m', es) ∧
      (∀ i, rxQueue m.dev = some i → Consumed m m' posted served i es) ∧
      (rxQueue m.dev = none → m' = m) := by
  unfold VirtioMmio.pumpRx
  rw [hram]
  cases hrx : rxQueue m.dev with
  | none => exact ⟨m, [], rfl, fun i hi => (by cases hi), fun _ => rfl⟩
  | some rxq =>
    simp only [some.injEq, forall_eq', reduceCtorEq, IsEmpty.forall_iff, and_true]
    cases hi : m.queues[rxq]? with
    | none => exact ⟨_, [], rfl, (Consumed.none hram h rxq).imp_left fun hc => hram ▸ hc⟩
    | some q =>
      cases m.pendingRx with
      | none =>
        obtain ⟨r, hr⟩ := pumpLoop_finishes m.dev h hi
        simp only [hr, map_some, some.injEq]
        exact ⟨_, _, rfl, ⟨_, rfl, finishRx_ringInv h hi (.nil ram q) hr⟩, rfl⟩
      | some data =>
        cases hinj : injectOne ram q data with
        | none =>
          simp only [hinj, some.injEq]
          exact ⟨m, [], rfl, Consumed.none hram h rxq⟩
        | some out =>
          obtain ⟨ram₁, q₁, e⟩ := out
          have c := Completions.cons (injectOne_completion (chainOk σ rxq) hinj) (.nil ram₁ q₁)
          obtain ⟨r, hr⟩ := pumpLoop_finishes m.dev (RingInv.completions c h hi)
            (List.getElem?_set_self (List.getElem?_eq_some_iff.1 hi).1)
          simp only [hinj, hr, map_some, some.injEq]
          exact ⟨_, _, rfl, ⟨_, rfl, finishRx_ringInv h hi c hr⟩, rfl⟩

end Invariant

end Consume

/-! ## Steps -/

variable {s : QueueSys σ}

theorem publish_inv (hinv : s.Inv) {m : VirtioMmio σ} {i : ℕ} {es : List UsedElem}
    (h : Consumed s.mmio m s.posted s.served i es) :
    (({ s with mmio := m } : QueueSys σ).publish i es).Inv := by
  refine ⟨h.1, fun hu => ?_⟩
  change m.interruptStatus.testBit 0 = true
  rw [h.2]
  refine raiseIf_testBit ?_
  have hor : s.unacked = true ∨ es ≠ [] := by
    simpa [publish, List.isEmpty_iff] using hu
  rcases hor with hold | hnew
  · exact .inr (hinv.2 hold)
  · exact .inl hnew

omit [LawfulDevice σ] in
/-- A register write that neither notifies nor reconfigures leaves the queues and RAM alone,
and clears interrupt bits only through the acknowledge register. -/
theorem write_quiet {m : VirtioMmio σ} {offset value : ℕ} (hn : offset ≠ regQueueNotify)
    (hr : ¬ Reconfigures offset value) :
    (m.write offset value).ram = m.ram ∧ (m.write offset value).queues = m.queues ∧
      (m.write offset value).interruptStatus =
        if offset = regInterruptAck then Nat.ldiff m.interruptStatus (value % 2 ^ 32)
        else m.interruptStatus := by
  simp only [Reconfigures, mem_cons, not_mem_nil, or_false, not_or, not_and] at hr
  obtain ⟨⟨h1, h2, h3, h4, h5, h6, h7, h8⟩, hstatus⟩ := hr
  by_cases hack : offset = regInterruptAck
  · subst hack
    exact ⟨rfl, rfl, rfl⟩
  · simp only [VirtioMmio.write, if_neg hn, if_neg hack, if_neg h1, if_neg h2, if_neg h3,
      if_neg h4, if_neg h5, if_neg h6, if_neg h7, if_neg h8]
    by_cases hst : offset = regStatus
    · subst hst
      rw [if_neg (hstatus rfl)]
      exact ⟨rfl, rfl, rfl⟩
    · split_ifs <;> exact ⟨rfl, rfl, rfl⟩

omit [VirtioDevice σ] [LawfulDevice σ] in
/-- The guest posts chains and leaves the used rings alone. -/
theorem ringInv_guest {ok : ℕ → List Buf → Prop} {ram ram' : GuestRam} {queues : List Queue}
    {posted posted' : ℕ → List ℕ} {served : ℕ → List UsedElem}
    (h : RingInv ok ram queues posted served)
    (hc : ChangesOnly (fun g => ¬ InUsedRings queues g) ram ram')
    (hext : ∀ i, posted i <+: posted' i)
    (hdrv : ∀ (i : ℕ) (q : Queue), queues[i]? = some q → q.active = true →
      DriverOk (ok i) (InRings queues) ram' q (posted' i) (served i).length) :
    RingInv ok ram' queues posted' served := by
  refine ⟨⟨?_, h.layout.used_free⟩, hdrv, ?_⟩
  · exact fun q hq hact => (h.layout.geometry q hq hact).of_changesOnly hc
  · intro i q hi hact
    have hmem := mem_of_getElem? hi
    have hdev := h.device i q hi hact
    have hframe := hdev.frame (h.layout.geometry q hmem hact) hc
      fun g hg hout => hout ⟨q, hmem, hact, hg⟩
    refine { hframe with inOrder := hdev.inOrder.trans ?_ }
    obtain ⟨more, hmore⟩ := hext i
    rw [← hmore, take_append_of_le_length hdev.served_le]

theorem step_guest_inv (hinv : s.Inv) {ram : GuestRam} {posted : ℕ → List ℕ}
    (hl : s.Legal (.guest ram posted)) : (s.step (.guest ram posted)).Inv := by
  obtain ⟨⟨ram₀, hram₀, hring⟩, hirq⟩ := hinv
  obtain ⟨⟨ram₁, hram₁, hc⟩, hext, hdrv⟩ := hl
  obtain rfl : ram₀ = ram₁ := some.inj (hram₀.symm.trans hram₁)
  exact ⟨⟨ram, rfl, ringInv_guest hring hc hext hdrv⟩, hirq⟩

theorem step_write_inv (hinv : s.Inv) {offset value : ℕ} (hl : s.Legal (.write offset value)) :
    (s.step (.write offset value)).Inv := by
  obtain ⟨ram, hram, hring⟩ := hinv.1
  unfold step
  by_cases hn : offset = regQueueNotify
  · subst hn
    exact publish_inv hinv (process_consumed hram hring (value % 2 ^ 32))
  · obtain ⟨hsame, hqueues, hirq⟩ := write_quiet (m := s.mmio) hn hl
    have hrings : ∃ ram, (s.mmio.write offset value).ram = some ram ∧
        RingInv (chainOk σ) ram (s.mmio.write offset value).queues s.posted s.served :=
      ⟨ram, hsame.trans hram, hqueues ▸ hring⟩
    simp only [if_neg hn]
    split
    · exact ⟨hrings, nofun⟩
    · rename_i hack
      refine ⟨hrings, fun hu => ?_⟩
      have hbit := hinv.2 hu
      simp only [hirq]
      split
      · -- an acknowledge that does not name bit 0 keeps it
        rename_i hoff
        have hzero : (value % 2 ^ 32).testBit 0 = false := by
          simpa using fun hb => hack ⟨hoff, hb⟩
        rw [Nat.testBit_ldiff, hbit, hzero]
        rfl
      · exact hbit

theorem step_pumpRx_inv (hinv : s.Inv) : (s.step .pumpRx).Inv := by
  obtain ⟨ram, hram, hring⟩ := hinv.1
  obtain ⟨m, es, hpump, hsome, hnone⟩ := pumpRx_consumed hram hring
  unfold step
  rw [hpump]
  cases hrx : rxQueue s.mmio.dev with
  | none =>
    rw [hnone hrx]
    exact hinv
  | some rxq => exact publish_inv hinv (hsome rxq hrx)

/-- **Every legal step keeps the invariant.** -/
theorem step_inv (s : QueueSys σ) (a : QueueStep) (hinv : s.Inv) (hl : s.Legal a) :
    (s.step a).Inv := by
  cases a with
  | guest ram posted => exact step_guest_inv hinv hl
  | write offset value => exact step_write_inv hinv hl
  | pumpRx => exact step_pumpRx_inv hinv

/-! ## Exactly-once completion -/

/-- What the driver can rely on. -/
structure ExactlyOnce (s : QueueSys σ) : Prop where
  /-- The used ring and `last_avail` of every live queue count the published elements, the
  last `num` of which are in their slots, and their heads are the posted heads in order. -/
  rings : ∀ (i : ℕ) (q : Queue), s.mmio.queues[i]? = some q → q.active = true →
    ∃ ram, s.mmio.ram = some ram ∧ DeviceOk ram q (s.posted i) (s.served i)
  /-- A notify on a queue the guest drives completes every posted chain. -/
  drained : ∀ (v : ℕ) (q : Queue), s.mmio.queues[v % 2 ^ 32]? = some q → q.active = true →
    rxQueue s.mmio.dev ≠ some (v % 2 ^ 32) → eventQueue s.mmio.dev ≠ some (v % 2 ^ 32) →
    ((s.step (.write regQueueNotify v)).served (v % 2 ^ 32)).map Prod.fst =
      s.posted (v % 2 ^ 32)
  /-- The elements of such a notify are the device's answers: it is handed the chain of each head,
  and the length is the one it returns. -/
  answered : ∀ (v : ℕ) (q : Queue) (ram : GuestRam), s.mmio.queues[v % 2 ^ 32]? = some q →
    q.active = true → rxQueue s.mmio.dev ≠ some (v % 2 ^ 32) →
    eventQueue s.mmio.dev ≠ some (v % 2 ^ 32) → s.mmio.ram = some ram →
    ∃ es, (s.step (.write regQueueNotify v)).served (v % 2 ^ 32) = s.served (v % 2 ^ 32) ++ es ∧
      Answered (v % 2 ^ 32) q s.mmio.dev
        (chainsServed (v % 2 ^ 32) (ram.readU16 (wadd q.avail 2)) q.qsz s.mmio.dev ram q) es
        (s.step (.write regQueueNotify v)).mmio.dev
  /-- The elements of a pump are the payloads of the device, with as much of each as fits. -/
  filled : ∀ (i : ℕ) (q : Queue) (ram : GuestRam), rxQueue s.mmio.dev = some i →
    s.mmio.queues[i]? = some q → s.mmio.ram = some ram →
    ∃ es, (s.step .pumpRx).served i = s.served i ++ es ∧
      Forall₂ (Filled q) (s.mmio.rxFills pumpTurns) es
  /-- The used-buffer interrupt is pending whenever an element is unacknowledged. -/
  raised : s.unacked = true → s.mmio.interruptStatus.testBit 0 = true
  /-- The receive loop ends. -/
  finishes : (s.mmio.pumpRx pumpTurns).isSome = true

omit [LawfulDevice σ] in
theorem step_notify (s : QueueSys σ) (v : ℕ) :
    s.step (.write regQueueNotify v) =
      ({ s with mmio := (s.mmio.process (v % 2 ^ 32)).1 } : QueueSys σ).publish (v % 2 ^ 32)
        (s.mmio.process (v % 2 ^ 32)).2 := rfl

omit [VirtioDevice σ] [LawfulDevice σ] in
theorem served_publish (s : QueueSys σ) (i : ℕ) (es : List UsedElem) :
    (s.publish i es).served i = s.served i ++ es := update_self ..

omit [LawfulDevice σ] in
theorem process_answered {m : VirtioMmio σ} {ram : GuestRam} {q : Queue} {i : ℕ}
    (hram : m.ram = some ram) (hi : m.queues[i]? = some q) (hact : q.active = true)
    (hrx : rxQueue m.dev ≠ some i) (hev : eventQueue m.dev ≠ some i) :
    Answered i q m.dev (chainsServed i (ram.readU16 (wadd q.avail 2)) q.qsz m.dev ram q)
      (m.process i).2 (m.process i).1.dev := by
  have hskip : ¬ (rxQueue m.dev = some i ∨ eventQueue m.dev = some i) := by tauto
  have hans := processLoop_answered i (ram.readU16 (wadd q.avail 2)) q.qsz m.dev ram q
  simpa only [VirtioMmio.process, hram, hi, if_neg hskip, hact, Bool.not_true,
    Bool.false_eq_true, if_false] using hans

theorem Inv.exactlyOnce (hinv : s.Inv) : s.ExactlyOnce := by
  obtain ⟨ram, hram, hring⟩ := hinv.1
  obtain ⟨m, es, hpump, -⟩ := pumpRx_consumed hram hring
  refine ⟨?_, ?_, ?_, ?_, hinv.2, by rw [hpump]; rfl⟩
  · exact fun i q hi hact => ⟨ram, hram, hring.device i q hi hact⟩
  · intro v q hi hact hrx hev
    rw [step_notify, served_publish]
    exact process_drains hram hring hi hact hrx hev
  · intro v q ram' hi hact hrx hev hram'
    exact ⟨_, by rw [step_notify, served_publish], process_answered hram' hi hact hrx hev⟩
  · intro i q ram' hrx hi hram'
    refine ⟨es, ?_, VirtioMmio.pumpRx_filled hpump hram' hrx hi⟩
    simp only [step, hpump, hrx]
    exact served_publish _ i es

/-- **Exactly-once completion.**  In every run with a conforming driver, whatever the order of
guest activity, register writes and pump calls and however often the 16-bit indices wrap. -/
theorem run_exactlyOnce (s : QueueSys σ) (hfresh : s.Fresh) (l : List QueueStep)
    (hl : Runs.Each step Legal s l) : (Runs.run step s l).ExactlyOnce :=
  (Runs.invariant step_inv hfresh.inv hl).exactlyOnce

/-! A queue of 256 descriptors, which are one chain of buffers of 16 MiB: the table is at 0,
the available ring at 4096 and the used ring at 8192, and buffer `i` at `(i + 1) * 2^24`. -/

def wideQueue : Queue := ⟨256, 1, 0, 4096, 8192, 0⟩

/-- Descriptor `i`: address, length, flags and the next one. -/
def wideDesc (i : ℕ) : List (ℕ × ℕ) :=
  [(8, (i + 1) * 2 ^ 24), (4, 2 ^ 24), (2, if i = 255 then 2 else 3), (2, i + 1)]

/-- The memory with this available index. -/
def wideRam (index : ℕ) : GuestRam :=
  { base := 0
    len := 2 ^ 33
    host := fun g =>
      if g < 4096 then (record (wideDesc (g / 16))).getD (g % 16) 0
      else if g = 4098 then UInt8.ofNat index else 0 }

def wideBuf (i : ℕ) : Buf := ⟨(i + 1) * 2 ^ 24, 2 ^ 24, true⟩

section Wide

variable {index i : ℕ}

variable (hi : i < 256)

include hi

theorem read_wideRam {k n : ℕ} (hk : k + n ≤ 16) :
    (wideRam index).read (16 * i + k) n =
      ((record (wideDesc i)).drop k).take n := by
  have hin : (wideRam index).inRange (16 * i + k) n = true := by
    rw [inRange_iff]
    simp only [wideRam]
    omega
  have hlen : (record (wideDesc i)).length = 16 := length_record _
  refine ext_getElem? fun j => ?_
  by_cases hj : j < n
  · have hdiv : (16 * i + k + j) / 16 = i := by omega
    have hmod : (16 * i + k + j) % 16 = k + j := by omega
    rw [getElem?_read hin hj, getElem?_take_of_lt hj, getElem?_drop, getElem?_eq_getElem (by omega)]
    simp only [byteAt, wideRam, Nat.sub_zero, hdiv, hmod,
      if_pos (show 16 * i + k + j < 4096 by omega)]
    rw [getD_eq_getElem]
  · rw [getElem?_eq_none (by rw [length_read]; omega),
      getElem?_eq_none (by rw [length_take]; omega)]

/-- A number of a descriptor, read from its place. -/
theorem field_wideRam (pre : List (ℕ × ℕ)) (n v : ℕ) (post : List (ℕ × ℕ))
    (hdesc : wideDesc i = pre ++ (n, v) :: post) :
    fromLe ((wideRam index).read (16 * i + width pre) n) =
      v % 256 ^ n := by
  have hk : width pre + n ≤ 16 := by
    have hall : width (wideDesc i) = 16 := rfl
    rw [hdesc] at hall
    simp only [width, map_append, map_cons, sum_append, sum_cons] at hall ⊢
    omega
  have hfield := field_record pre n v post []
  rw [append_nil, ← hdesc] at hfield
  rw [read_wideRam hi hk]
  exact hfield

theorem flags_wideRam :
    (wideRam index).readU16 (16 * i + 12) = if i = 255 then 2 else 3 := by
  refine (field_wideRam hi [(8, _), (4, _)] 2 _ _ rfl).trans (Nat.mod_eq_of_lt ?_)
  split_ifs
  · decide
  · decide

theorem wadd_wideRam :
    wadd 0 (16 * i) = 16 * i ∧ ∀ k, k < 16 → wadd (16 * i) k = 16 * i + k :=
  ⟨(wadd_of_lt (by omega)).trans (zero_add _), fun _ _ => wadd_of_lt (by omega)⟩

theorem descBuf_wideRam : descBuf (wideRam index) 0 i = wideBuf i := by
  obtain ⟨hd, hoff⟩ := wadd_wideRam hi
  have haddr : (wideRam index).readU64 (16 * i) = (i + 1) * 2 ^ 24 :=
    (field_wideRam hi [] 8 _ _ rfl).trans (Nat.mod_eq_of_lt (by omega))
  have hlen : (wideRam index).readU32 (16 * i + 8) = 2 ^ 24 :=
    (field_wideRam hi [(8, _)] 4 _ _ rfl).trans (Nat.mod_eq_of_lt (by omega))
  have hin : (wideRam index).inRange ((i + 1) * 2 ^ 24) (2 ^ 24) = true := by
    rw [inRange_iff]
    simp only [wideRam]
    omega
  have hmin : min (2 ^ 24) maxDescLen = 2 ^ 24 := rfl
  have hw : ((if i = 255 then 2 else 3) &&& virtqDescFWrite != 0) = true := by
    split_ifs <;> rfl
  simp only [descBuf, hd, hoff 8 (by decide), hoff 12 (by decide), haddr, hlen, flags_wideRam hi,
    hw, hmin, hin, if_true]
  rfl

theorem descNext_wideRam :
    descNext (wideRam index) 0 i = if i = 255 then none else some (i + 1) := by
  obtain ⟨hd, hoff⟩ := wadd_wideRam hi
  have hnext : (wideRam index).readU16 (16 * i + 14) = i + 1 :=
    (field_wideRam hi [(8, _), (4, _), (2, _)] 2 _ _ rfl).trans
      (Nat.mod_eq_of_lt (by omega))
  simp only [descNext, hd, hoff 12 (by decide), hoff 14 (by decide), flags_wideRam hi, hnext]
  split_ifs with hlast hnone hnone
  · rfl
  · exact absurd rfl hnone
  · cases hnone
  · rfl

omit hi

theorem collectFrom_wideRam (steps : ℕ) : ∀ i, i + steps = 256 →
    collectFrom (wideRam index) 0 256 steps i = (List.range' i steps).map wideBuf := by
  induction steps with
  | zero => exact fun i _ => rfl
  | succ steps ih =>
    intro i hi
    rw [collectFrom, if_neg (by omega), descBuf_wideRam (by omega), descNext_wideRam (by omega),
      range'_succ, map_cons]
    by_cases hlast : i = 255
    · obtain rfl : steps = 0 := by omega
      rw [if_pos hlast]
      rfl
    · rw [if_neg hlast]
      dsimp only
      rw [ih (i + 1) (by omega)]

theorem chain_wideRam :
    collectChain (wideRam index) wideQueue.desc 0 wideQueue.num =
      (List.range' 0 256).map wideBuf :=
  collectFrom_wideRam 256 0 rfl

theorem wideQueue_only {q : Queue} (h : [wideQueue, Queue.default][i]? = some q)
    (hact : q.active = true) : i = 0 ∧ q = wideQueue := by
  match i with
  | 0 => exact ⟨rfl, (Option.some.inj h).symm⟩
  | 1 =>
    obtain rfl : Queue.default = q := Option.some.inj h
    cases hact
  | i + 2 => simp at h

theorem layout_wideRam : Layout (wideRam index) [wideQueue, Queue.default] := by
  constructor
  · intro q hq hact
    obtain ⟨i, hi⟩ := mem_iff_getElem?.1 hq
    obtain ⟨-, rfl⟩ := wideQueue_only hi hact
    refine ⟨⟨8, le_rfl, rfl⟩, by decide, by decide, by decide, ?_⟩
    rw [inRange_iff]
    simp only [wideRam, wideQueue]
    omega
  · intro i j q q' hi hj hact hact' g hg
    obtain ⟨rfl, rfl⟩ := wideQueue_only hi hact
    obtain ⟨rfl, rfl⟩ := wideQueue_only hj hact'
    simp only [InUsedRing, InDescTable, InAvailRing, wideQueue] at hg ⊢
    omega

end Wide

/-- The queue before anything is posted, and perhaps a payload that was held back. -/
def wideSys (dev : σ) (held : Option (List UInt8)) : QueueSys σ :=
  { mmio :=
      { VirtioMmio.new dev with
        ram := some (wideRam 0)
        queues := [wideQueue, Queue.default]
        pendingRx := held }
    posted := fun _ => []
    served := fun _ => []
    unacked := false }

/-- The driver makes the chain available. -/
def widePost : QueueStep := .guest (wideRam 1) fun i => if i = 0 then [0] else []

omit [LawfulDevice σ] in
theorem wideSys_fresh (dev : σ) (held : Option (List UInt8)) : (wideSys dev held).Fresh := by
  refine ⟨⟨wideRam 0, rfl, layout_wideRam, ?_⟩, fun _ => rfl, fun _ => rfl, rfl⟩
  intro q hq hact
  obtain ⟨i, hi⟩ := mem_iff_getElem?.1 hq
  obtain ⟨-, rfl⟩ := wideQueue_only hi hact
  exact ⟨rfl, by decide, by decide⟩

theorem widePost_legal (dev : σ) (held : Option (List UInt8))
    (hok : chainOk σ 0 ((List.range' 0 256).map wideBuf)) : (wideSys dev held).Legal widePost := by
  have hone : ∀ k, k < [0].length → k = 0 := fun k hk => by simpa using hk
  refine ⟨⟨wideRam 0, rfl, rfl, rfl, ?_⟩, fun i => nil_prefix, ?_⟩
  · -- the driver has only moved the index, which is not in the used ring
    intro g _ hused
    obtain ⟨q, hq, hact, hin⟩ := not_not.1 hused
    obtain ⟨i, hi⟩ := mem_iff_getElem?.1 hq
    obtain ⟨-, rfl⟩ := wideQueue_only hi hact
    simp only [InUsedRing, wideQueue] at hin
    simp only [byteAt, wideRam, Nat.sub_zero]
    rw [if_neg (by omega), if_neg (by omega), if_neg (by omega), if_neg (by omega)]
  · intro i q hi hact
    obtain ⟨rfl, rfl⟩ := wideQueue_only hi hact
    have hslot : (wideRam 1).readU16 (wideQueue.avail + 4 + 2 * (0 % wideQueue.num)) = 0 := by
      decide
    refine ⟨by decide, Nat.zero_le _, Nat.le_add_left 1 255, ?_, ?_⟩
    · intro k hk _
      obtain rfl := hone k hk
      exact hslot
    · intro k hk _
      obtain rfl := hone k hk
      show chainOk σ 0 (collectChain (wideRam 1) wideQueue.desc 0 wideQueue.num) ∧
        ∀ g, InWritable (collectChain (wideRam 1) wideQueue.desc 0 wideQueue.num) g → _
      rw [chain_wideRam]
      refine ⟨hok, ?_⟩
      rintro g ⟨b, hb, -, hlo, hhi⟩ ⟨q, hq, hact', hin⟩
      obtain ⟨i, -, rfl⟩ := mem_map.1 hb
      obtain ⟨j, hj⟩ := mem_iff_getElem?.1 hq
      obtain ⟨-, rfl⟩ := wideQueue_only hj hact'
      simp only [InUsedRing, InDescTable, InAvailRing, wideQueue, wideBuf] at hin hlo hhi
      omega

/-- The chain is posted for a source that never delivers, and the queue is notified. -/
theorem run_exactlyOnce_wide :
    (Runs.run step (wideSys (⟨[]⟩ : RngDevice) none)
      [widePost, .write regQueueNotify 0]).ExactlyOnce := by
  refine run_exactlyOnce _ (wideSys_fresh _ none) _ ⟨widePost_legal _ none trivial, ?_, trivial⟩
  simp [Legal, Reconfigures, regQueueNotify, regQueueNum, regQueueReady, regQueueDescLow,
    regQueueDescHigh, regQueueDriverLow, regQueueDriverHigh, regQueueDeviceLow,
    regQueueDeviceHigh, regStatus]

end QueueSys
end Amber
