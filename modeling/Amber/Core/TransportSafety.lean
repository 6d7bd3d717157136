import Mathlib.Algebra.Order.BigOperators.Group.List
import Amber.Lib.Checked
import Amber.Core.VirtioSnapshot

/-!
# The transport survives any guest

Everything the transport of `amber-core/src/virtio.rs` walks over is the guest's: the rings, the
descriptors, the indices, the queue sizes and addresses.  The definitions of `Virtqueue` and
`VirtioMmio` say what the code computes where it computes anything; here the same code is written
with every operation at which it could stop: `Faulting.process`, `Faulting.pumpRx` and what they
call have a `Fault` for an index out of range, a division by zero and a sum, product or
difference that does not fit, and their loops run on fuel (`none` is a loop that still runs).

* `Exposed` — the transports that registers written at will, restores of any captured state, any
  contents of RAM and receive pumps lead to.
* `Exposed.survives` — there every queue is at most `queueMax` long, the code with the faults
  returns what the code without them computes, and a notify ends: it serves at most as many
  chains as the queue is long, of at most as many descriptors.
-/

namespace Amber

open GuestRam VirtioDevice Checked Snapshot List

/-! ## The code with its faults -/

namespace Faulting

/-- The loop of `collect_chain`. -/
def collectFrom (ram : GuestRam) (desc qsz : ℕ) : ℕ → ℕ → Except Fault (List Buf)
  | 0, _ => .ok []
  | steps + 1, i =>
    if i ≥ qsz then .ok []
    else do
      let off ← mul 64 16 i
      let d := wadd desc off
      let addr := ram.readU64 d
      let len := min (ram.readU32 (wadd d 8)) maxDescLen
      let flags := ram.readU16 (wadd d 12)
      let next := ram.readU16 (wadd d 14)
      let buf : Buf :=
        { addr
          len := if ram.inRange addr len then len else 0
          writable := flags &&& virtqDescFWrite != 0 }
      if flags &&& virtqDescFNext = 0 then .ok [buf]
      else do
        let bufs ← collectFrom ram desc qsz steps next
        .ok (buf :: bufs)

def collectChain (ram : GuestRam) (desc head qsz : ℕ) : Except Fault (List Buf) :=
  collectFrom ram desc qsz qsz head

def pushUsed (ram : GuestRam) (used id len qsz : ℕ) : Except Fault GuestRam :=
  if qsz = 0 then .ok ram
  else do
    let idx := ram.readU16 (wadd used 2)
    let slot ← rem idx qsz
    let bytes ← mul 64 8 slot
    let off ← add 64 4 bytes
    let elem := wadd used off
    let ram := ram.writeU32 elem id
    let ram := ram.writeU32 (wadd elem 4) len
    .ok (ram.writeU16 (wadd used 2) ((idx + 1) % 2 ^ 16))

/-- `ram.read_u16(q.avail.wrapping_add(4 + 2 * slot as u64))` with `slot = q.last_avail % qsz`. -/
def nextHead (ram : GuestRam) (q : Queue) : Except Fault ℕ := do
  let slot ← rem q.lastAvail q.qsz
  let bytes ← mul 64 2 slot
  let off ← add 64 4 bytes
  .ok (ram.readU16 (wadd q.avail off))

def nextRxCapacity (ram : GuestRam) (q : Queue) : Except Fault (Option ℕ) :=
  if !q.active then .ok none
  else if q.lastAvail = ram.readU16 (wadd q.avail 2) then .ok none
  else do
    let head ← nextHead ram q
    let bufs ← collectChain ram q.desc head q.qsz
    let cap ← sum 64 ((bufs.filter (·.writable)).map (·.len))
    .ok (some cap)

/-- The copy loop of `inject_one`, with `off` bytes of `data` copied already. -/
def fillBufs (data : List UInt8) : GuestRam → List Buf → ℕ → Except Fault (GuestRam × ℕ)
  | ram, [], off => .ok (ram, off)
  | ram, b :: bs, off =>
    if off ≥ data.length then .ok (ram, off)
    else do
      let left ← sub data.length off
      let n := min b.len left
      let stop ← add 64 off n
      let piece ← slice data off stop
      let off ← add 64 off n
      fillBufs data (ram.write b.addr piece) bs off

def injectOne (ram : GuestRam) (q : Queue) (data : List UInt8) :
    Except Fault (Option (GuestRam × Queue × UsedElem)) :=
  if !q.active then .ok none
  else if q.lastAvail = ram.readU16 (wadd q.avail 2) then .ok none
  else do
    let head ← nextHead ram q
    let bufs ← collectChain ram q.desc head q.qsz
    let filled ← fillBufs data ram (bufs.filter (·.writable)) 0
    let len := filled.2 % 2 ^ 32
    let ram ← pushUsed filled.1 q.used head len q.qsz
    .ok (some (ram, q.advance, (head, len)))

section Consumers

variable {σ : Type} [VirtioDevice σ]

/-- The `while` loop of `process`; the second number is its `budget`. -/
def processLoop (qidx availIdx : ℕ) :
    ℕ → ℕ → σ → GuestRam → Queue → Except Fault (Option (Serviced σ))
  | 0, _, _, _, _ => .ok none
  | fuel + 1, budget, dev, ram, q =>
    if q.lastAvail ≠ availIdx ∧ budget > 0 then do
      let head ← nextHead ram q
      let bufs ← collectChain ram q.desc head q.qsz
      let served := handle dev qidx ram bufs
      let written := served.2.2
      let ram ← pushUsed served.2.1 q.used head written q.qsz
      let budget ← sub budget 1
      let rest ← processLoop qidx availIdx fuel budget served.1 ram q.advance
      .ok (rest.map fun rest => { rest with elems := (head, written) :: rest.elems })
    else .ok (some ⟨dev, ram, q, []⟩)

def process (fuel : ℕ) (m : VirtioMmio σ) (qidx : ℕ) : Except Fault (Option (VirtioMmio σ)) :=
  match m.ram with
  | none => .ok (some m)
  | some ram =>
    if rxQueue m.dev = some qidx ∨ eventQueue m.dev = some qidx then .ok (some m)
    else
      match m.queues[qidx]? with
      | none => .ok (some m)
      | some q =>
        if !q.active then .ok (some m)
        else do
          let done ← processLoop qidx (ram.readU16 (wadd q.avail 2)) fuel q.qsz m.dev ram q
          match done with
          | none => .ok none
          | some r => do
            -- `self.queues[qidx].last_avail = q.last_avail`
            let slot ← index m.queues qidx
            .ok (some { m with
              dev := r.dev
              ram := some r.ram
              queues := m.queues.set qidx { slot with lastAvail := r.q.lastAvail }
              interruptStatus := raiseIf r.elems m.interruptStatus })

/-- A register write; every arm but QUEUE_NOTIFY only stores what it is given. -/
def write (fuel : ℕ) (m : VirtioMmio σ) (offset value : ℕ) : Except Fault (Option (VirtioMmio σ)) :=
  if offset = regQueueNotify then process fuel m (value % 2 ^ 32)
  else .ok (some (m.write offset value))

/-- A register read; the device's configuration is read at `offset - CONFIG`. -/
def read (m : VirtioMmio σ) (offset : ℕ) : Except Fault ℕ :=
  if offset ≥ regConfig then do
    let off ← sub offset regConfig
    .ok (config m.dev off)
  else .ok (m.read offset)

def pumpLoop : ℕ → σ → GuestRam → Queue → Except Fault (Option (Pumped σ))
  | 0, _, _, _ => .ok none
  | turns + 1, dev, ram, q => do
    let posted ← nextRxCapacity ram q
    match posted with
    | none => .ok (some ⟨dev, ram, q, none, []⟩)
    | some cap =>
      match pollRx dev cap with
      | (dev, none) => .ok (some ⟨dev, ram, q, none, []⟩)
      | (dev, some data) => do
        let placed ← injectOne ram q data
        match placed with
        | none => .ok (some ⟨dev, ram, q, some data, []⟩)
        | some (ram, q, e) => do
          let rest ← pumpLoop turns dev ram q
          .ok (rest.map fun rest => { rest with elems := e :: rest.elems })

def pumpRx (m : VirtioMmio σ) (turns : ℕ) :
    Except Fault (Option (VirtioMmio σ × List UsedElem)) :=
  match m.ram, rxQueue m.dev with
  | some ram, some rxq =>
    match m.queues[rxq]?, m.pendingRx with
    | none, _ => .ok (some ({ m with pendingRx := none }, []))
    | some q, none => do
      let done ← pumpLoop turns m.dev ram q
      .ok (done.map (m.finishRx rxq []))
    | some q, some data => do
      let placed ← injectOne ram q data
      match placed with
      | none => .ok (some (m, []))
      | some (ram, q, e) => do
        let done ← pumpLoop turns m.dev ram q
        .ok (done.map (m.finishRx rxq [e]))
  | _, _ => .ok (some (m, []))

end Consumers

end Faulting

/-! ## Bounds on a chain -/

variable {q : Queue}

variable (h : q.num ≤ queueMax)

include h

theorem Queue.qsz_eq : q.qsz = q.num :=
  Nat.mod_eq_of_lt (lt_of_le_of_lt h (by decide))

theorem Queue.qsz_le : q.qsz ≤ queueMax :=
  (q.qsz_eq h).trans_le h

theorem Queue.qsz_pos (hact : q.active = true) : 0 < q.qsz := by
  rw [q.qsz_eq h]
  simp only [Queue.active, Bool.not_or, Bool.and_eq_true, Bool.not_eq_true', beq_eq_false_iff_ne]
    at hact
  exact Nat.pos_of_ne_zero hact.2

omit h

theorem length_nextChain_le (ram : GuestRam) (q : Queue) : (nextChain ram q).length ≤ q.qsz :=
  length_collectFrom_le ram q.desc q.qsz q.qsz (nextHead ram q)

/-- The writable bytes of a chain are at most 256 times 16 MiB. -/
theorem capacity_lt {ram : GuestRam} (h : q.num ≤ queueMax) :
    (((nextChain ram q).filter (·.writable)).map (·.len)).sum < 2 ^ 64 := by
  have hlen : (((nextChain ram q).filter (·.writable)).map (·.len)).length ≤ queueMax := by
    rw [length_map]
    exact (length_filter_le _ _).trans ((length_nextChain_le ram q).trans (q.qsz_le h))
  have hsum := sum_le_card_nsmul (((nextChain ram q).filter (·.writable)).map (·.len))
    maxDescLen fun n hn => by
      obtain ⟨b, hb, rfl⟩ := mem_map.1 hn
      exact len_le_of_mem_collectFrom (mem_of_mem_filter hb)
  calc _ ≤ _ := hsum
    _ = _ * maxDescLen := Nat.nsmul_eq_mul _ _
    _ ≤ queueMax * maxDescLen := Nat.mul_le_mul_right _ hlen
    _ < 2 ^ 64 := by decide

/-! ## No fault -/

section NoFault

variable {ram : GuestRam} {q : Queue}

theorem collectFrom_ok (desc : ℕ) {qsz : ℕ} (hq : qsz ≤ queueMax) :
    ∀ steps i, Faulting.collectFrom ram desc qsz steps i =
      .ok (collectFrom ram desc qsz steps i) := by
  intro steps
  induction steps with
  | zero => exact fun i => rfl
  | succ steps ih =>
    intro i
    rw [Faulting.collectFrom, collectFrom]
    split_ifs with hi
    · rfl
    · have hsmall : 16 * i < 2 ^ 64 := by
        simp only [queueMax] at hq
        omega
      rw [mul_of_lt hsmall, ok_bind]
      dsimp only [descBuf, descNext]
      split_ifs
      · rfl
      · rfl
      · rw [ih, ok_bind]
      · rw [ih, ok_bind]

theorem collectChain_ok (hq : q.qsz ≤ queueMax) :
    Faulting.collectChain ram q.desc (nextHead ram q) q.qsz = .ok (nextChain ram q) :=
  collectFrom_ok q.desc hq q.qsz (nextHead ram q)

theorem nextHead_ok (hpos : 0 < q.qsz) (hq : q.qsz ≤ queueMax) :
    Faulting.nextHead ram q = .ok (nextHead ram q) := by
  have hslot := Nat.mod_lt q.lastAvail hpos
  simp only [queueMax] at hq
  rw [Faulting.nextHead, rem_of_pos hpos, ok_bind, mul_of_lt (by omega), ok_bind,
    add_of_lt (by omega), ok_bind, nextHead]

theorem pushUsed_ok (ram : GuestRam) (used id len : ℕ) {qsz : ℕ} (hq : qsz ≤ queueMax) :
    Faulting.pushUsed ram used id len qsz = .ok (pushUsed ram used id len qsz) := by
  rw [Faulting.pushUsed, pushUsed]
  split_ifs with hzero
  · rfl
  · have hslot := Nat.mod_lt (ram.readU16 (wadd used 2)) (Nat.pos_of_ne_zero hzero)
    simp only [queueMax] at hq
    dsimp only
    rw [rem_of_pos (Nat.pos_of_ne_zero hzero), ok_bind, mul_of_lt (by omega), ok_bind,
      add_of_lt (by omega), ok_bind]

theorem nextRxCapacity_ok (h : q.num ≤ queueMax) :
    Faulting.nextRxCapacity ram q = .ok (nextRxCapacity ram q) := by
  rw [Faulting.nextRxCapacity, nextRxCapacity]
  split_ifs with hact hidx
  · rfl
  · rfl
  · have hpos := q.qsz_pos h (by simpa using hact)
    rw [nextHead_ok hpos (q.qsz_le h), ok_bind, collectChain_ok (q.qsz_le h), ok_bind,
      sum_of_lt (capacity_lt h), ok_bind]

/-- The copy loop by offsets is the copy loop by what is left of the payload. -/
theorem fillBufs_ok (data : List UInt8) :
    ∀ (bufs : List Buf) (ram : GuestRam) (off : ℕ), off ≤ data.length →
      off + (bufs.map (·.len)).sum < 2 ^ 64 →
      Faulting.fillBufs data ram bufs off =
        .ok ((fillBufs ram bufs (data.drop off)).1,
          off + (fillBufs ram bufs (data.drop off)).2) := by
  intro bufs
  induction bufs with
  | nil => exact fun ram off _ _ => rfl
  | cons b bs ih =>
    intro ram off hoff hfit
    rw [map_cons, sum_cons] at hfit
    rw [Faulting.fillBufs, fillBufs]
    by_cases hend : data.length ≤ off
    · rw [if_pos hend, if_pos (drop_eq_nil_iff.2 hend)]
      rfl
    · have hmore : data.drop off ≠ [] := fun hnil => hend (drop_eq_nil_iff.1 hnil)
      set n := min b.len (data.length - off) with hn
      have hle : off + n ≤ data.length := by omega
      have hsum : off + n + (bs.map (·.len)).sum < 2 ^ 64 := by omega
      rw [if_neg hend, if_neg hmore, sub_of_le hoff, ok_bind]
      dsimp only
      rw [← hn, add_of_lt (by omega), ok_bind, slice_of_le hle, ok_bind, ok_bind,
        ih _ _ hle hsum, length_drop, ← hn, drop_drop, add_assoc]

theorem injectOne_ok (h : q.num ≤ queueMax) (data : List UInt8) :
    Faulting.injectOne ram q data = .ok (injectOne ram q data) := by
  rw [Faulting.injectOne, injectOne]
  split_ifs with hact hidx
  · rfl
  · rfl
  · have hpos := q.qsz_pos h (by simpa using hact)
    have hcap : 0 + (((nextChain ram q).filter (·.writable)).map (·.len)).sum < 2 ^ 64 := by
      rw [zero_add]
      exact capacity_lt h
    rw [nextHead_ok hpos (q.qsz_le h), ok_bind, collectChain_ok (q.qsz_le h), ok_bind,
      fillBufs_ok data _ ram 0 (Nat.zero_le _) hcap, ok_bind, drop_zero]
    dsimp only
    rw [zero_add, pushUsed_ok _ _ _ _ (q.qsz_le h), ok_bind]

variable {σ : Type} [VirtioDevice σ]

/-- The queue that the loop of `process` leaves differs in `lastAvail` only. -/
theorem processLoop_queue (qidx availIdx budget : ℕ) (dev : σ) (ram : GuestRam) (q : Queue) :
    { q with lastAvail := (processLoop qidx availIdx budget dev ram q).q.lastAvail } =
      (processLoop qidx availIdx budget dev ram q).q := by
  induction budget generalizing dev ram q with
  | zero => rfl
  | succ budget ih =>
    rw [processLoop]
    split_ifs
    · rfl
    · exact ih _ _ q.advance

/-- Fuel for one turn more than the budget is enough for the loop of `process`. -/
theorem processLoop_done {budget : ℕ} :
    ∀ {fuel : ℕ} (dev : σ) (ram : GuestRam) {q : Queue}, budget < fuel → 0 < q.qsz →
      q.qsz ≤ queueMax →
      Faulting.processLoop qidx availIdx fuel budget dev ram q =
        .ok (some (processLoop qidx availIdx budget dev ram q)) := by
  induction budget with
  | zero =>
    intro fuel dev ram q hfuel hpos hq
    obtain ⟨fuel, rfl⟩ : ∃ k, fuel = k + 1 := ⟨fuel - 1, by omega⟩
    rw [Faulting.processLoop, if_neg (by simp), processLoop]
  | succ budget ih =>
    intro fuel dev ram q hfuel hpos hq
    obtain ⟨fuel, rfl⟩ : ∃ k, fuel = k + 1 := ⟨fuel - 1, by omega⟩
    rw [Faulting.processLoop, processLoop]
    by_cases hlast : q.lastAvail = availIdx
    · rw [if_neg (fun hc => hc.1 hlast), if_pos hlast]
    · rw [if_pos ⟨hlast, Nat.succ_pos budget⟩, if_neg hlast, nextHead_ok hpos hq, ok_bind,
        collectChain_ok hq, ok_bind]
      dsimp only
      rw [pushUsed_ok _ _ _ _ hq, ok_bind, sub_of_le (Nat.le_add_left 1 budget), ok_bind,
        Nat.add_sub_cancel, ih (q := q.advance) _ _ (Nat.lt_of_succ_lt_succ hfuel) hpos hq, ok_bind,
        Option.map_some]

theorem pumpLoop_noFault {turns : ℕ} :
    ∀ (dev : σ) (ram : GuestRam) {q : Queue}, q.num ≤ queueMax →
      Faulting.pumpLoop turns dev ram q = .ok (pumpLoop turns dev ram q) := by
  induction turns with
  | zero => exact fun dev ram q _ => rfl
  | succ turns ih =>
    intro dev ram q h
    rw [Faulting.pumpLoop, pumpLoop, nextRxCapacity_ok h, ok_bind]
    cases nextRxCapacity ram q with
    | none => rfl
    | some cap =>
      dsimp only
      rcases pollRx dev cap with ⟨dev', _ | data⟩
      · rfl
      · dsimp only
        rw [injectOne_ok h, ok_bind]
        cases hinj : injectOne ram q data with
        | none => rfl
        | some out =>
          obtain ⟨ram', q', e⟩ := out
          have hq' : q'.num ≤ queueMax := injectOne_queue hinj ▸ h
          dsimp only
          rw [ih dev' ram' hq', ok_bind]

/-! ## The chains of one notify -/

variable {qidx availIdx : ℕ}

theorem length_chainsServed (budget : ℕ) (dev : σ) (ram : GuestRam) (q : Queue) :
    (chainsServed qidx availIdx budget dev ram q).length =
      (processLoop qidx availIdx budget dev ram q).elems.length := by
  induction budget generalizing dev ram q with
  | zero => rfl
  | succ budget ih =>
    unfold chainsServed processLoop
    split_ifs
    · rfl
    · exact congrArg (· + 1) (ih _ _ _)

theorem chainsServed_le (budget : ℕ) (dev : σ) (ram : GuestRam) (q : Queue) :
    (chainsServed qidx availIdx budget dev ram q).length ≤ budget ∧
      ∀ c ∈ chainsServed qidx availIdx budget dev ram q, c.2.length ≤ q.qsz := by
  induction budget generalizing dev ram q with
  | zero => exact ⟨le_rfl, fun c hc => absurd hc not_mem_nil⟩
  | succ budget ih =>
    unfold chainsServed
    split_ifs
    · exact ⟨Nat.zero_le _, fun c hc => absurd hc not_mem_nil⟩
    · obtain ⟨hlen, hchain⟩ := ih _ _ q.advance
      exact ⟨Nat.succ_le_succ hlen, forall_mem_cons.2 ⟨length_nextChain_le ram q, hchain⟩⟩

end NoFault

/-! ## Any guest -/

namespace VirtioMmio

variable {σ : Type} [VirtioDevice σ] {m : VirtioMmio σ}

/-- A transport after anything that can be done to it: RAM with any contents is attached, the
host side changes the device, the guest writes any register, a captured state is restored, the
transport is reset, the receive queue is pumped. -/
inductive Exposed : VirtioMmio σ → Prop
  | new (dev : σ) : Exposed (new dev)
  | attach {m : VirtioMmio σ} (h : Exposed m) (ram : GuestRam) : Exposed (m.attach ram)
  | device {m : VirtioMmio σ} (h : Exposed m) (dev : σ) : Exposed { m with dev }
  | write {m : VirtioMmio σ} (h : Exposed m) (offset value : ℕ) : Exposed (m.write offset value)
  | restore {m : VirtioMmio σ} (h : Exposed m) (s : VirtioDevState) : Exposed (m.restore s)
  | reset {m : VirtioMmio σ} (h : Exposed m) : Exposed m.reset
  | pump {m : VirtioMmio σ} (h : Exposed m) {turns : ℕ} {out : VirtioMmio σ × List UsedElem}
    (hout : m.pumpRx turns = some out) : Exposed out.1

theorem restoreQueues_ok {qs : List Queue} (h : ∀ q ∈ qs, q.Ok) (vs) :
    ∀ q ∈ restoreQueues qs vs, q.Ok := by
  induction qs generalizing vs with
  | nil => exact h
  | cons q qs ih =>
    cases vs with
    | nil => exact h
    | cons v vs =>
      rw [forall_mem_cons] at h
      rw [restoreQueues, forall_mem_cons]
      exact ⟨⟨min_le_right _ _, Nat.mod_lt _ (by decide), Nat.mod_lt _ (by decide)⟩, ih h.2 vs⟩

theorem Exposed.fits (h : m.Exposed) : m.Fits := by
  induction h with
  | new dev => exact fits_new dev
  | attach _ ram ih => exact ih
  | device _ dev ih => exact ih
  | write _ offset value ih => exact ih.write offset value
  | restore _ s ih => exact restoreQueues_ok ih s.queues
  | reset _ _ => exact fits_reset _
  | pump _ hout ih => exact ih.pumpRx hout

theorem process_noFault (h : m.Fits) {fuel : ℕ} (hfuel : queueMax < fuel) (qidx : ℕ) :
    Faulting.process fuel m qidx = .ok (some (m.process qidx).1) := by
  unfold Faulting.process VirtioMmio.process
  cases hram : m.ram with
  | none => rfl
  | some ram =>
    cases hq : m.queues[qidx]? with
    | none =>
      split_ifs <;> rfl
    | some q =>
      have hnum : q.num ≤ queueMax := (h q (mem_of_getElem? hq)).num_le
      dsimp only
      split_ifs with hrx hact
      · rfl
      · rfl
      · have hpos := q.qsz_pos hnum (by simpa using hact)
        rw [processLoop_done m.dev ram ((q.qsz_le hnum).trans_lt hfuel) hpos (q.qsz_le hnum),
          ok_bind]
        dsimp only
        rw [index_of_some hq, ok_bind, processLoop_queue]

theorem write_noFault (h : m.Fits) {fuel : ℕ} (hfuel : queueMax < fuel) (offset value : ℕ) :
    Faulting.write fuel m offset value = .ok (some (m.write offset value)) := by
  unfold Faulting.write
  split_ifs with hn
  · rw [process_noFault h hfuel, hn]
    rfl
  · rfl

theorem read_noFault (m : VirtioMmio σ) (offset : ℕ) :
    Faulting.read m offset = .ok (m.read offset) := by
  unfold Faulting.read
  split_ifs with hconfig
  · -- the named registers lie below the configuration space
    have hne : ∀ r, r < regConfig → offset ≠ r := fun r hr => by omega
    rw [sub_of_le hconfig, ok_bind, VirtioMmio.read, if_neg (hne _ (by decide)),
      if_neg (hne _ (by decide)), if_neg (hne _ (by decide)), if_neg (hne _ (by decide)),
      if_neg (hne _ (by decide)), if_neg (hne _ (by decide)), if_neg (hne _ (by decide)),
      if_neg (hne _ (by decide)), if_neg (hne _ (by decide)), if_neg (hne _ (by decide)),
      if_pos hconfig]
  · rfl

theorem pumpRx_noFault (h : m.Fits) (turns : ℕ) :
    Faulting.pumpRx m turns = .ok (m.pumpRx turns) := by
  unfold Faulting.pumpRx VirtioMmio.pumpRx
  cases m.ram with
  | none => rfl
  | some ram =>
    cases rxQueue m.dev with
    | none => rfl
    | some rxq =>
      dsimp only
      cases hq : m.queues[rxq]? with
      | none => rfl
      | some q =>
        have hnum : q.num ≤ queueMax := (h q (mem_of_getElem? hq)).num_le
        cases m.pendingRx with
        | none =>
          dsimp only
          rw [pumpLoop_noFault m.dev ram hnum, ok_bind]
        | some data =>
          dsimp only
          rw [injectOne_ok hnum, ok_bind]
          cases hinj : injectOne ram q data with
          | none => rfl
          | some out =>
            obtain ⟨ram', q', e⟩ := out
            have hq' : q'.num ≤ queueMax := injectOne_queue hinj ▸ hnum
            dsimp only
            rw [pumpLoop_noFault m.dev ram' hq', ok_bind]

/-! ## The work of one notify -/

/-- The chains that a notify on queue `qidx` hands to the device. -/
def notified (m : VirtioMmio σ) (qidx : ℕ) : List (List Buf) :=
  match m.ram, m.queues[qidx]? with
  | some ram, some q =>
    if rxQueue m.dev = some qidx ∨ eventQueue m.dev = some qidx then []
    else if !q.active then []
    else (chainsServed qidx (ram.readU16 (wadd q.avail 2)) q.qsz m.dev ram q).map (·.2)
  | _, _ => []

/-- A notify publishes one element for each of them. -/
theorem length_notified (m : VirtioMmio σ) (qidx : ℕ) :
    (m.notified qidx).length = (m.process qidx).2.length := by
  unfold notified VirtioMmio.process
  cases m.ram with
  | none => rfl
  | some ram =>
    cases m.queues[qidx]? with
    | none => rfl
    | some q =>
      dsimp only
      split_ifs
      · rfl
      · rfl
      · rw [length_map, length_chainsServed]

theorem notified_le (h : m.Fits) {qidx : ℕ} {q : Queue} (hq : m.queues[qidx]? = some q) :
    (m.notified qidx).length ≤ q.num ∧ ∀ chain ∈ m.notified qidx, chain.length ≤ q.num := by
  have hnum : q.num ≤ queueMax := (h q (mem_of_getElem? hq)).num_le
  unfold notified
  rw [hq]
  cases m.ram with
  | none => simp
  | some ram =>
    dsimp only
    split_ifs
    · simp
    · simp
    · rw [length_map, forall_mem_map, ← q.qsz_eq hnum]
      exact chainsServed_le ..

/-- **The transport survives any guest.**  Whatever registers were written, states restored and
pumps made, with whatever in RAM: every queue is at most `queueMax` long; no register access and
no turn of a receive pump reaches a fault; a register write ends within `queueMax + 1` turns of
its loop; and a notify serves at most `num` chains, of at most `num` descriptors each. -/
theorem Exposed.survives (h : m.Exposed) :
    (∀ q ∈ m.queues, q.num ≤ queueMax) ∧
    (∀ offset, Faulting.read m offset = .ok (m.read offset)) ∧
    (∀ offset value fuel, queueMax < fuel →
      Faulting.write fuel m offset value = .ok (some (m.write offset value))) ∧
    (∀ turns, Faulting.pumpRx m turns = .ok (m.pumpRx turns)) ∧
    ∀ qidx q, m.queues[qidx]? = some q →
      (m.notified qidx).length = (m.process qidx).2.length ∧
      (m.notified qidx).length ≤ q.num ∧ ∀ chain ∈ m.notified qidx, chain.length ≤ q.num :=
  ⟨fun q hq => (h.fits q hq).num_le, read_noFault m,
    fun offset value _ hfuel => write_noFault h.fits hfuel offset value, pumpRx_noFault h.fits,
    fun qidx _ hq => ⟨m.length_notified qidx, notified_le h.fits hq⟩⟩

/-- A transport restored from a queue of 2^16 entries whose rings lie across the end of the address
space and on top of one another, and then notified. -/
def mistreated : VirtioMmio RngDevice :=
  (((new (RngDevice.mk [])).attach ⟨0, 64, fun _ => 255⟩).restore
    ⟨15, 0, [#v[2 ^ 16, 1, 2 ^ 64 - 8, 0, 0, 7]]⟩).write regQueueNotify 0

theorem mistreated_survives :
    mistreated.queues.map (·.num) = [queueMax] ∧
      Faulting.write 257 mistreated regQueueNotify 0 =
        .ok (some (mistreated.write regQueueNotify 0)) := by
  have h : mistreated.Exposed := (((Exposed.new _).attach _).restore _).write _ _
  exact ⟨by decide +kernel, h.survives.2.2.1 regQueueNotify 0 257 (by decide)⟩

end VirtioMmio

end Amber
