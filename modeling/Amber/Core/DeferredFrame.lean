import Amber.Core.LimiterRun
import Amber.Core.Net

/-!
# Is a deferred frame delivered later?

Under a receive cap `poll_rx` of `amber-core/src/net.rs` hands a frame on if the bucket has its
bytes, and else keeps it for the next poll; frames behind it wait.  A bucket never holds more than
one second of its rate, so a frame that is longer than that is never handed on.

* `tryTake_after_second` — a second's wait fills the bucket.
* `deliverable_iff` — there is a waiting time after which the frame is delivered if and only if the
  frame is no longer than one second of the rate.
* `deferred_forever` — otherwise no polls, at whatever times, deliver it or anything behind it.
* `large_frame_stuck` — a frame of 1500 bytes under a cap of 1000 bytes a second.
-/

namespace Amber
namespace TokenBucket

variable {b : TokenBucket} {c : Clock} {bytes : ℕ}

/-- What the bucket cannot hold it never grants. -/
theorem tryTake_of_rate_lt (h : b.rate < bytes) : (b.tryTake c bytes).1 = false := by
  rw [tryTake_of_lt ((b.tokens_refill_le c).trans_lt h)]

/-- **After a second the bucket is full.** -/
theorem tryTake_after_second (hrate : 0 < b.rate) (htokens : 0 ≤ b.tokens)
    (hlast : b.last ≤ c.now) (hbytes : (bytes : ℚ) ≤ b.rate) {w : ℚ} (hw : 1 ≤ w) :
    (b.tryTake (c.pass w) bytes).1 = true := by
  have hread := (c.pass w).now_le_read
  have hpast : 1 ≤ (c.pass w).read.now - b.last := by
    have hpass : (c.pass w).now = c.now + w := rfl
    linarith
  have hcredit : b.rate ≤ b.tokens + max ((c.pass w).read.now - b.last) 0 * b.rate := by
    have hone : 1 * b.rate ≤ max ((c.pass w).read.now - b.last) 0 * b.rate :=
      mul_le_mul_of_nonneg_right (hpast.trans (le_max_left _ _)) hrate.le
    linarith
  have hfull : (b.refill (c.pass w)).1.tokens = b.rate := min_eq_right hcredit
  rw [tryTake_of_le (hfull.symm ▸ hbytes)]

end TokenBucket

namespace NetDevice

open TokenBucket

/-- Time passes. -/
def wait (dev : NetDevice) (w : ℚ≥0) : NetDevice := { dev with clock := dev.clock.pass w }

/-- A frame waits for the receive bucket, which has been used like this so far. -/
structure Deferring (m : Meter) (dev : NetDevice) (frame : List UInt8) : Prop where
  limit : dev.rxLimit = some m.bucket
  clock : dev.clock = m.clock
  pending : dev.pendingRx = some frame

section Deferring

variable {m : Meter} {dev : NetDevice} {frame : List UInt8}

/-- A poll takes from the bucket what the frame is long. -/
theorem Deferring.pollRx_eq (h : dev.Deferring m frame) (w : ℚ≥0) (cap : ℕ) :
    (dev.wait w).pollRx cap =
      let r := m.bucket.tryTake (m.clock.pass w) frame.length
      let dev := { dev with rxLimit := some r.2.1, clock := r.2.2 }
      if r.1 then ({ dev with pendingRx := none }, some (withHeader frame))
      else ({ dev with pendingRx := some frame }, none) := by
  have hnext : (dev.wait w).nextRx = ({ dev.wait w with pendingRx := none }, some frame) := by
    have hpending : (dev.wait w).pendingRx = some frame := h.pending
    rw [nextRx, hpending]
  have hlimit : (dev.wait w).rxLimit = some m.bucket := h.limit
  have hclock : (dev.wait w).clock = m.clock.pass w := congrArg (Clock.pass · w) h.clock
  rw [pollRx, hnext]
  dsimp only
  rw [hlimit]
  rw [hclock]
  rfl

/-- A frame that the bucket cannot hold stays where it is. -/
theorem Deferring.pollRx_of_rate_lt (h : dev.Deferring m frame)
    (hlong : m.bucket.rate < frame.length) (w : ℚ≥0) (cap : ℕ) :
    ((dev.wait w).pollRx cap).2 = none ∧
      ((dev.wait w).pollRx cap).1.backend = dev.backend ∧
      ∃ m', m'.bucket.rate = m.bucket.rate ∧
        ((dev.wait w).pollRx cap).1.Deferring m' frame := by
  have hfalse : (m.bucket.tryTake (m.clock.pass w) frame.length).1 = false :=
    tryTake_of_rate_lt hlong
  rw [h.pollRx_eq]
  rw [if_neg (by rw [hfalse]; decide)]
  refine ⟨rfl, rfl, ⟨_, _, 0⟩, ?_, rfl, rfl, rfl⟩
  exact rate_tryTake ..

end Deferring

/-- A frame that comes from the backend and is too long is deferred. -/
theorem pollRx_defers {dev : NetDevice} {b : TokenBucket} {frame : List UInt8}
    (hnone : dev.pendingRx = none) (hpoll : dev.backend.poll.2 = some frame)
    (hlimit : dev.rxLimit = some b) (hlong : b.rate < frame.length) (cap : ℕ) :
    (dev.pollRx cap).2 = none ∧
      ∃ m, m.bucket.rate = b.rate ∧ (dev.pollRx cap).1.Deferring m frame := by
  have hnext : dev.nextRx = ({ dev with backend := dev.backend.poll.1 }, some frame) := by
    rw [nextRx, hnone]
    rw [hpoll]
  have hfalse : (b.tryTake dev.clock frame.length).1 = false := tryTake_of_rate_lt hlong
  rw [pollRx, hnext]
  rw [hlimit]
  dsimp only
  rw [if_neg (by rw [hfalse]; decide)]
  exact ⟨rfl, ⟨_, _, 0⟩, rate_tryTake .., rfl, rfl, rfl⟩

/-- Polls, each with the time since the one before it, and what they return. -/
def polls (cap : ℕ) (dev : NetDevice) : List ℚ≥0 → NetDevice × List (List UInt8)
  | [] => (dev, [])
  | w :: ws =>
    let r := (dev.wait w).pollRx cap
    let rest := polls cap r.1 ws
    (rest.1, r.2.toList ++ rest.2)

/-- **Deferred for ever.**  However often and at whatever times the device is polled, a frame longer
than one second of the rate stays pending, and nothing behind it is asked for or handed on. -/
theorem deferred_forever {m : Meter} {dev : NetDevice} {frame : List UInt8}
    (h : dev.Deferring m frame) (hlong : m.bucket.rate < frame.length) (cap : ℕ) (ws : List ℚ≥0) :
    (dev.polls cap ws).2 = [] ∧ (dev.polls cap ws).1.pendingRx = some frame ∧
      (dev.polls cap ws).1.backend = dev.backend := by
  induction ws generalizing dev m with
  | nil => exact ⟨rfl, h.pending, rfl⟩
  | cons w ws ih =>
    obtain ⟨hnone, hbackend, m', hrate, hstill⟩ := h.pollRx_of_rate_lt hlong w cap
    obtain ⟨hout, hpending, hlast⟩ := ih hstill (hrate.symm ▸ hlong)
    refine ⟨?_, hpending, hlast.trans hbackend⟩
    rw [polls]
    rw [hnone, hout]
    rfl

/-- **When a frame can be delivered.**  Whatever calls a bucket has seen, there is a waiting time
after which it grants `bytes`, and `poll_rx` hands on a deferred frame of that length, if and only
if one second of the rate is enough for it. -/
theorem deliverable_iff (bytesPerSec : ℕ) (c : Clock) (calls : List Call) (bytes : ℕ) :
    let m := Runs.run Meter.call (Meter.start bytesPerSec c) calls
    ((∃ w : ℚ≥0, ∀ w', w ≤ w' → (m.bucket.tryTake (m.clock.pass w') bytes).1 = true) ∧
      ∀ (dev : NetDevice) (frame : List UInt8) (cap : ℕ), dev.Deferring m frame →
        frame.length = bytes →
        ∃ w : ℚ≥0, ∀ w', w ≤ w' → ((dev.wait w').pollRx cap).2 = some (withHeader frame)) ↔
    bytes ≤ max bytesPerSec 1 := by
  intro m
  have hrun : m.Conforming (max bytesPerSec 1) c.read.now :=
    Meter.run_conforming (Meter.start_conforming bytesPerSec c) calls
  have hrate : m.bucket.rate = ((max bytesPerSec 1 : ℕ) : ℚ) := by
    rw [hrun.rate_eq, Nat.cast_max, Nat.cast_one]
  constructor
  · rintro ⟨⟨w, hw⟩, -⟩
    by_contra hlong
    have hlt : m.bucket.rate < bytes := by
      rw [hrate]
      exact_mod_cast not_le.1 hlong
    have hgranted := hw w le_rfl
    rw [tryTake_of_rate_lt hlt] at hgranted
    cases hgranted
  · intro hbytes
    have hfits : (bytes : ℚ) ≤ m.bucket.rate := by
      rw [hrate]
      exact_mod_cast hbytes
    have hgrant : ∀ w' : ℚ≥0, 1 ≤ w' → (m.bucket.tryTake (m.clock.pass w') bytes).1 = true :=
      fun w' hw' => tryTake_after_second hrun.account.rate_pos hrun.account.tokens_nonneg
        hrun.behind hfits (by exact_mod_cast hw')
    refine ⟨⟨1, hgrant⟩, ?_⟩
    rintro dev frame cap hdefer rfl
    refine ⟨1, fun w' hw' => ?_⟩
    rw [hdefer.pollRx_eq]
    rw [if_pos (hgrant w' hw')]

section Example

/-- A device under a cap of 1000 bytes a second whose backend has a frame of 1500 bytes, and a
second frame. -/
def cappedNet : NetDevice :=
  new ⟨Vector.replicate 6 0, [some (List.replicate 1500 0), some [1]], false⟩ (some 1000)
    ⟨0, fun _ => 0⟩

/-- **A large frame blocks the receive queue.**  No waiting time makes the bucket grant 1500 bytes,
and polls at whatever times never return a frame. -/
theorem large_frame_stuck :
    ¬ (∃ w : ℚ≥0, ∀ w', w ≤ w' →
      ((Meter.start 1000 ⟨0, fun _ => 0⟩).bucket.tryTake
        ((Meter.start 1000 ⟨0, fun _ => 0⟩).clock.pass w') 1500).1 = true) ∧
    ∀ ws, (cappedNet.polls 2048 ws).2 = [] := by
  have hrate : (TokenBucket.new 1000 ⟨0, fun _ => 0⟩).1.rate < (1500 : ℕ) := by
    show (max ((1000 : ℕ) : ℚ) 1) < (1500 : ℕ)
    norm_num
  refine ⟨?_, fun ws => ?_⟩
  · rintro ⟨w, hw⟩
    have hrefused : ((Meter.start 1000 ⟨0, fun _ => 0⟩).bucket.tryTake
        ((Meter.start 1000 ⟨0, fun _ => 0⟩).clock.pass w) 1500).1 = false :=
      tryTake_of_rate_lt hrate
    exact Bool.noConfusion (hrefused.symm.trans (hw w le_rfl))
  · cases ws with
    | nil => rfl
    | cons w ws =>
      have hlong : (TokenBucket.new 1000 (TokenBucket.new 1000 ⟨0, fun _ => 0⟩).2).1.rate <
          (List.replicate 1500 (0 : UInt8)).length := by
        rw [List.length_replicate]
        exact hrate
      obtain ⟨hnone, m, hm, hdefer⟩ :=
        @pollRx_defers (cappedNet.wait w) _ _ rfl rfl rfl hlong 2048
      rw [polls]
      rw [hnone, (deferred_forever hdefer (hm.symm ▸ hlong) 2048 ws).1]
      rfl

end Example

end NetDevice
end Amber
