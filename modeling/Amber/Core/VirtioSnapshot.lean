import Amber.Core.Blk
import Amber.Core.Rng
import Amber.Core.Snapshot
import Amber.Lib.Runs

/-!
# Snapshots of the virtio transport

`VirtioMmio::capture` and `restore` of `amber-core/src/virtio.rs`.  Of the transport's own state
they keep the status, the interrupt status and the queues; the two selector registers and a
payload held back are not captured, nor is the device behind it.

* `write_rule`, `pumpRx_cases` — what a register write and a receive pump can do.
* `Reachable.wf` — whatever registers were written and pumps made, the queues keep to the bounds
  a restore puts on them.
* `revived_eq` — so a new transport restored from a capture has them all.
-/

namespace Amber

open VirtioDevice Snapshot

/-! ## Capture and restore -/

/-- A queue as it is captured. -/
def Queue.toState (q : Queue) : Vector ℕ 6 :=
  #v[q.num, q.ready, q.desc, q.avail, q.used, q.lastAvail]

/-- A queue as it is restored. -/
def Queue.ofState (v : Vector ℕ 6) : Queue :=
  ⟨min (v[0] % 2 ^ 32) queueMax, v[1] % 2 ^ 32, v[2], v[3], v[4], v[5] % 2 ^ 16⟩

/-- `queues.iter_mut().zip(..)`: a queue that was not captured stays as it is. -/
def restoreQueues : List Queue → List (Vector ℕ 6) → List Queue
  | _ :: qs, v :: vs => .ofState v :: restoreQueues qs vs
  | qs, _ => qs

open List

namespace VirtioMmio

variable {σ : Type}

def capture (m : VirtioMmio σ) : VirtioDevState :=
  ⟨m.status, m.interruptStatus, m.queues.map Queue.toState⟩

def restore (m : VirtioMmio σ) (s : VirtioDevState) : VirtioMmio σ :=
  { m with
    status := s.status
    interruptStatus := s.interruptStatus
    queues := restoreQueues m.queues s.queues }

/-- A new transport on a device of the type, over the same RAM, restored from `m`. -/
def revived [VirtioDevice σ] (m : VirtioMmio σ) (dev : σ) : VirtioMmio σ :=
  ({ new dev with ram := m.ram } : VirtioMmio σ).restore m.capture

end VirtioMmio

/-! ## Queues that fit -/

/-- The bounds the registers keep. -/
structure Queue.Ok (q : Queue) : Prop where
  num_le : q.num ≤ queueMax
  ready_lt : q.ready < 2 ^ 32
  lastAvail_lt : q.lastAvail < 2 ^ 16

theorem Queue.ok_default : Queue.default.Ok := ⟨by decide, by decide, by decide⟩

theorem Queue.Ok.advance {q : Queue} (h : q.Ok) : q.advance.Ok :=
  ⟨h.num_le, h.ready_lt, Nat.mod_lt _ (by decide)⟩

theorem Queue.Ok.ofState_toState {q : Queue} (h : q.Ok) : Queue.ofState q.toState = q := by
  have hnum : q.num < 2 ^ 32 := lt_of_le_of_lt h.num_le (by decide)
  show Queue.mk (min (q.num % 2 ^ 32) queueMax) (q.ready % 2 ^ 32) q.desc q.avail q.used
    (q.lastAvail % 2 ^ 16) = q
  rw [Nat.mod_eq_of_lt hnum, min_eq_left h.num_le, Nat.mod_eq_of_lt h.ready_lt,
    Nat.mod_eq_of_lt h.lastAvail_lt]

theorem restoreQueues_toState {qs fresh : List Queue} (h : ∀ q ∈ qs, q.Ok)
    (hlen : fresh.length = qs.length) : restoreQueues fresh (qs.map Queue.toState) = qs := by
  induction qs generalizing fresh with
  | nil =>
    rw [length_eq_zero_iff.1 hlen]
    rfl
  | cons q qs ih =>
    cases fresh with
    | nil => cases hlen
    | cons f fresh =>
      rw [forall_mem_cons] at h
      rw [map_cons, restoreQueues, h.1.ofState_toState, ih h.2 (Nat.succ.inj hlen)]

/-- What does not change about a device while it is used: how many queues it has, and the
features it offers. -/
class FixedShape (σ : Type) [VirtioDevice σ] : Prop where
  numQueues_handle : ∀ (dev : σ) qidx ram bufs,
    numQueues (handle dev qidx ram bufs).1 = numQueues dev := by intros; rfl
  numQueues_ackConfig : ∀ dev : σ, numQueues (ackConfig dev) = numQueues dev := by intros; rfl
  numQueues_pollRx : ∀ (dev : σ) cap, numQueues (pollRx dev cap).1 = numQueues dev := by
    intros; rfl
  features_handle : ∀ (dev : σ) qidx ram bufs,
    deviceFeatures (handle dev qidx ram bufs).1 = deviceFeatures dev := by intros; rfl
  features_ackConfig : ∀ dev : σ, deviceFeatures (ackConfig dev) = deviceFeatures dev := by
    intros; rfl

instance : FixedShape RngDevice where

instance : FixedShape BlkDevice where
  features_handle dev qidx ram bufs := by
    funext sel
    show (if sel = 0 ∧ !(dev.handle qidx ram bufs).1.writable then _ else 0) =
      if sel = 0 ∧ !dev.writable then _ else 0
    rw [(dev.mode_handle qidx ram bufs).1]

section Wf

variable {σ : Type} [VirtioDevice σ]

/-! ## What an access can do to the transport -/

variable {q : Queue} {r : Pumped σ} {dev : σ}

theorem processLoop_ok (qidx availIdx budget : ℕ) (dev : σ) (ram : GuestRam)
    (h : q.Ok) : (processLoop qidx availIdx budget dev ram q).q.Ok := by
  induction budget generalizing dev ram q with
  | zero => exact h
  | succ budget ih =>
    rw [processLoop]
    split_ifs
    · exact h
    · exact ih _ _ h.advance

/-- A filled receive buffer takes one available entry. -/
theorem injectOne_queue {ram ram' : GuestRam} {q' : Queue} {data : List UInt8} {e : UsedElem}
    (h : injectOne ram q data = some (ram', q', e)) : q' = q.advance :=
  (injectOne_completion (fun _ => True) h).queue_eq

theorem pumpLoop_ok (turns : ℕ) (dev : σ) (ram : GuestRam) (h : q.Ok)
    (hr : pumpLoop turns dev ram q = some r) : r.q.Ok := by
  refine pumpLoop_rule (motive := fun _ _ _ q r => q.Ok → r.q.Ok) ?_ ?_ ?_ hr h
  · exact fun _ _ _ _ _ hq => hq
  · exact fun _ _ _ _ _ _ _ _ hq => hq
  · exact fun _ _ _ _ _ _ _ _ _ _ _ _ _ ih hq => ih hq.advance

/-- What serving a chain keeps of a device, serving a queue keeps. -/
theorem processLoop_keeps {P : σ → Prop} {qidx : ℕ}
    (hP : ∀ dev ram bufs, P dev → P (handle dev qidx ram bufs).1) (availIdx budget : ℕ)
    (ram : GuestRam) (q : Queue) (h : P dev) :
    P (processLoop qidx availIdx budget dev ram q).dev := by
  induction budget generalizing dev ram q with
  | zero => exact h
  | succ budget ih =>
    rw [processLoop]
    split_ifs
    · exact h
    · exact ih _ _ (hP dev ram _ h)

/-- What no chain changes of a device. -/
theorem processLoop_fixed {α : Type} {f : σ → α} {qidx : ℕ}
    (hf : ∀ dev ram bufs, f (handle dev qidx ram bufs).1 = f dev) (availIdx budget : ℕ) (dev : σ)
    (ram : GuestRam) (q : Queue) : f (processLoop qidx availIdx budget dev ram q).dev = f dev :=
  processLoop_keeps (P := fun d => f d = f dev) (fun d ram bufs => (hf d ram bufs).trans) availIdx
    budget ram q rfl

/-- What a poll keeps of a device, the receive loop keeps. -/
theorem pumpLoop_keeps {P : σ → Prop} (hP : ∀ dev cap, P dev → P (pollRx dev cap).1) (turns : ℕ)
    (ram : GuestRam) (q : Queue) (h : P dev)
    (hr : pumpLoop turns dev ram q = some r) : P r.dev := by
  refine pumpLoop_rule (motive := fun _ dev _ _ r => P dev → P r.dev) ?_ ?_ ?_ hr h
  · exact fun _ _ _ _ _ hdev => hdev
  · intro _ cap dev dev' _ _ _ hpoll hdev
    have hnext := hP dev cap hdev
    rwa [hpoll] at hnext
  · intro _ cap dev dev' _ _ _ _ _ _ _ hpoll _ ih hdev
    have hnext := hP dev cap hdev
    rw [hpoll] at hnext
    exact ih hnext

namespace VirtioMmio

variable {m : VirtioMmio σ} {out : VirtioMmio σ × List UsedElem}

theorem process_cases (m : VirtioMmio σ) (qidx : ℕ) :
    (m.process qidx).1 = m ∨ ∃ ram q, m.ram = some ram ∧ m.queues[qidx]? = some q ∧
      (m.process qidx).1 =
        let r := processLoop qidx (ram.readU16 (wadd q.avail 2)) q.qsz m.dev ram q
        { m with
          dev := r.dev
          ram := some r.ram
          queues := m.queues.set qidx r.q
          interruptStatus := raiseIf r.elems m.interruptStatus } := by
  unfold VirtioMmio.process
  split
  · rename_i ram q hram hq
    split_ifs
    · exact .inl rfl
    · exact .inl rfl
    · exact .inr ⟨ram, q, hram, hq, rfl⟩
  · exact .inl rfl

theorem queues_process (m : VirtioMmio σ) (qidx : ℕ) :
    (m.process qidx).1.queues.length = m.queues.length := by
  obtain heq | ⟨ram, q, -, -, heq⟩ := m.process_cases qidx
  · rw [heq]
  · rw [heq]
    exact length_set

/-- The receive pump gives up, loses a payload for which there is no queue, or runs the receive
loop on the receive queue, of which it may have filled one buffer before. -/
theorem pumpRx_cases {turns : ℕ} (hout : m.pumpRx turns = some out) :
    out.1 = m ∨ out.1 = { m with pendingRx := none } ∨
      ∃ ram rxq q q' es r, m.queues[rxq]? = some q ∧ (q' = q ∨ q' = q.advance) ∧
        pumpLoop turns m.dev ram q' = some r ∧ out.1 = (m.finishRx rxq es r).1 := by
  unfold VirtioMmio.pumpRx at hout
  split at hout
  · rename_i ram rxq _ _
    split at hout
    · cases hout
      exact .inr (.inl rfl)
    · rename_i q hq _
      obtain ⟨r, hr, rfl⟩ := Option.map_eq_some_iff.1 hout
      exact .inr (.inr ⟨ram, rxq, q, q, [], r, hq, .inl rfl, hr, rfl⟩)
    · rename_i q data hq _
      split at hout
      · cases hout
        exact .inl rfl
      · rename_i ram' q' e hinj
        obtain ⟨r, hr, rfl⟩ := Option.map_eq_some_iff.1 hout
        exact .inr (.inr ⟨ram', rxq, q, q', [e], r, hq, .inr (injectOne_queue hinj), hr, rfl⟩)
  · cases hout
    exact .inl rfl

/-- **What a register write can do**: set a selector or the status, change the selected queue
within the bounds, serve a queue, acknowledge an interrupt, or reset. -/
theorem write_rule {P : VirtioMmio σ → Prop} (m : VirtioMmio σ) (offset value : ℕ)
    (hset : ∀ f sel st,
      P { m with deviceFeaturesSel := f, queueSel := sel, status := st })
    (hqueue : ∀ f : Queue → Queue, (∀ q, q.Ok → (f q).Ok) → P (m.withQueue m.queueSel f))
    (hprocess : ∀ qidx, P (m.process qidx).1)
    (hack : ∀ irq dev, dev = m.dev ∨ dev = ackConfig m.dev →
      P { m with interruptStatus := irq, dev })
    (hreset : P ({ m with status := 0 } : VirtioMmio σ).reset) : P (m.write offset value) := by
  have hv : value % 2 ^ 32 < 2 ^ 32 := Nat.mod_lt _ (by decide)
  refine iteInduction (fun _ => hset _ _ _) fun _ => iteInduction (fun _ => hset _ _ _) fun _ =>
    iteInduction (fun _ => hset _ _ _) fun _ => iteInduction (fun _ => ?num) fun _ =>
    iteInduction (fun _ => ?ready) fun _ => iteInduction (fun _ => hprocess _) fun _ =>
    iteInduction (fun _ => ?ack) fun _ => iteInduction (fun _ => ?status) fun _ =>
    iteInduction (fun _ => ?_) fun _ => iteInduction (fun _ => ?_) fun _ =>
    iteInduction (fun _ => ?_) fun _ => iteInduction (fun _ => ?_) fun _ =>
    iteInduction (fun _ => ?_) fun _ => iteInduction (fun _ => ?_) fun _ => hset _ _ _
  case num => exact hqueue _ fun q hq => ⟨min_le_right _ _, hq.ready_lt, hq.lastAvail_lt⟩
  case ready => exact hqueue _ fun q hq => ⟨hq.num_le, hv, hq.lastAvail_lt⟩
  case ack =>
    refine hack _ _ ?_
    split_ifs
    · exact .inr rfl
    · exact .inl rfl
  case status =>
    split_ifs with hzero
    · rw [hzero]
      exact hreset
    · exact hset _ _ _
  all_goals exact hqueue _ fun q hq => ⟨hq.num_le, hq.ready_lt, hq.lastAvail_lt⟩

/-! ## The queues stay within bounds -/

/-- Every queue is within bounds. -/
def Fits (m : VirtioMmio σ) : Prop := ∀ q ∈ m.queues, q.Ok

theorem fits_new (dev : σ) : (new dev).Fits := by
  intro q hq
  rw [eq_of_mem_replicate hq]
  exact Queue.ok_default

omit [VirtioDevice σ] in
theorem Fits.set (h : m.Fits) {i : ℕ} {q : Queue} (hq : q.Ok) : ∀ q' ∈ m.queues.set i q, q'.Ok := by
  intro q' hq'
  rcases mem_or_eq_of_mem_set hq' with hmem | rfl
  · exact h q' hmem
  · exact hq

omit [VirtioDevice σ] in
theorem Fits.withQueue (h : m.Fits) {sel : ℕ} {f : Queue → Queue} (hf : ∀ q, q.Ok → (f q).Ok) :
    (m.withQueue sel f).Fits := by
  intro q hq
  obtain ⟨i, hi⟩ := mem_iff_getElem?.1 hq
  rw [VirtioMmio.withQueue, getElem?_modify] at hi
  obtain ⟨q', hq', rfl⟩ := Option.map_eq_some_iff.1 hi
  have hok := h q' (mem_of_getElem? hq')
  split_ifs
  · exact hf q' hok
  · exact hok

theorem Fits.process (h : m.Fits) (qidx : ℕ) : (m.process qidx).1.Fits := by
  obtain heq | ⟨ram, q, -, hq, heq⟩ := m.process_cases qidx
  · rw [heq]
    exact h
  · rw [heq]
    exact h.set (processLoop_ok qidx _ _ m.dev ram (h q (mem_of_getElem? hq)))

omit [VirtioDevice σ] in
theorem fits_reset (m : VirtioMmio σ) : m.reset.Fits := by
  intro q hq
  obtain ⟨_, _, rfl⟩ := mem_map.1 hq
  exact Queue.ok_default

theorem Fits.write (h : m.Fits) (offset value : ℕ) : (m.write offset value).Fits :=
  write_rule m offset value (fun _ _ _ => h) (fun _ hf => h.withQueue hf) h.process
    (fun _ _ _ => h) (fits_reset _)

theorem Fits.pumpRx (h : m.Fits) {turns : ℕ} (hout : m.pumpRx turns = some out) : out.1.Fits := by
  obtain heq | heq | ⟨ram, rxq, q, q', es, r, hq, hq', hr, heq⟩ := pumpRx_cases hout
  · rw [heq]
    exact h
  · rw [heq]
    exact h
  · have hok : q.Ok := h q (mem_of_getElem? hq)
    have hok' : q'.Ok := by
      rcases hq' with rfl | rfl
      · exact hok
      · exact hok.advance
    rw [heq]
    exact h.set (pumpLoop_ok turns m.dev ram hok' hr)

/-- The transport has the queues of its device, and they are within bounds. -/
structure Wf (m : VirtioMmio σ) : Prop where
  length_eq : m.queues.length = max (numQueues m.dev) 1
  queues : ∀ q ∈ m.queues, q.Ok

theorem wf_new (dev : σ) : (new dev).Wf where
  length_eq := length_replicate
  queues := fits_new dev

/-- A new transport restored from a well-formed one: everything but the selectors and the payload
held back. -/
theorem revived_eq (h : m.Wf) {dev : σ} (hnum : numQueues dev = numQueues m.dev) :
    m.revived dev = { m with dev, deviceFeaturesSel := 0, queueSel := 0, pendingRx := none } := by
  have hlen : (new dev).queues.length = m.queues.length := by
    rw [new, length_replicate, hnum, h.length_eq]
  have hqueues : restoreQueues (new dev).queues (m.queues.map Queue.toState) = m.queues :=
    restoreQueues_toState h.queues hlen
  rw [revived, restore, capture, hqueues]
  rfl

end VirtioMmio

variable [FixedShape σ]

open FixedShape

theorem numQueues_pumpLoop {turns : ℕ} {ram : GuestRam} (hr : pumpLoop turns dev ram q = some r) :
    numQueues r.dev = numQueues dev :=
  pumpLoop_keeps (P := fun d => numQueues d = numQueues dev)
    (fun d cap hd => (numQueues_pollRx d cap).trans hd) turns ram q rfl hr

namespace VirtioMmio

variable {m : VirtioMmio σ}

theorem length_process (h : m.queues.length = max (numQueues m.dev) 1) (qidx : ℕ) :
    (m.process qidx).1.queues.length = max (numQueues (m.process qidx).1.dev) 1 := by
  obtain heq | ⟨ram, q, -, -, heq⟩ := m.process_cases qidx
  · rw [heq]
    exact h
  · rw [heq]
    rw [length_set, processLoop_fixed fun d => numQueues_handle d qidx]
    exact h

/-- A register write does not change how many queues there are. -/
theorem length_write (h : m.queues.length = max (numQueues m.dev) 1) (offset value : ℕ) :
    (m.write offset value).queues.length = max (numQueues (m.write offset value).dev) 1 := by
  refine write_rule (P := fun m' => m'.queues.length = max (numQueues m'.dev) 1) m offset value
    (fun _ _ _ => h) ?queue (length_process h) ?ack ?reset
  case queue =>
    intro f _
    rw [withQueue, length_modify]
    exact h
  case ack =>
    rintro irq dev (rfl | rfl)
    · exact h
    · rw [numQueues_ackConfig]
      exact h
  case reset =>
    rw [reset, length_map]
    exact h

theorem Wf.write (h : m.Wf) (offset value : ℕ) : (m.write offset value).Wf :=
  ⟨length_write h.length_eq offset value, Fits.write h.queues offset value⟩

theorem Wf.pumpRx (h : m.Wf) {turns : ℕ} {out : VirtioMmio σ × List UsedElem}
    (hout : m.pumpRx turns = some out) : out.1.Wf := by
  refine ⟨?_, Fits.pumpRx h.queues hout⟩
  obtain heq | heq | ⟨ram, rxq, q, q', es, r, -, -, hr, heq⟩ := pumpRx_cases hout
  · rw [heq]
    exact h.length_eq
  · rw [heq]
    exact h.length_eq
  · rw [heq, finishRx, length_set, numQueues_pumpLoop hr]
    exact h.length_eq

/-- A transport after any register writes, queue notifies and receive pumps.  RAM is attached,
and what is in it changes, at any time. -/
inductive Reachable : VirtioMmio σ → Prop
  | new (dev : σ) : Reachable (new dev)
  | attach {m : VirtioMmio σ} (h : Reachable m) (ram : GuestRam) : Reachable (m.attach ram)
  | write {m : VirtioMmio σ} (h : Reachable m) (offset value : ℕ) :
    Reachable (m.write offset value)
  | pump {m : VirtioMmio σ} (h : Reachable m) {turns : ℕ} {out : VirtioMmio σ × List UsedElem}
    (hout : m.pumpRx turns = some out) : Reachable out.1

theorem Reachable.wf (h : m.Reachable) : m.Wf := by
  induction h with
  | new dev => exact wf_new dev
  | attach _ ram ih => exact ⟨ih.length_eq, ih.queues⟩
  | write _ offset value ih => exact ih.write offset value
  | pump _ hout ih => exact ih.pumpRx hout

end VirtioMmio
end Wf
end Amber
