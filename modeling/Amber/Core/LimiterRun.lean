import Amber.Lib.Runs
import Amber.Core.Limiter

/-!
# What a token bucket grants over time

One bucket and the calls made on it one after another: `try_take`, which never waits, and
`throttle`, which comes back when it has slept off what `debit` says.  The two mix freely.  A
`debit` moves the bucket ahead of the clock and the sleep catches up with it, so that every call
finds the bucket behind the clock.

* `Account.tryTake` — a `try_take` keeps the books of the bucket, whether it grants or not.
* `Conforming` — the books, the burst capacity, and that the bucket is not ahead of the clock.
* `granted_le` — after any calls, the bucket holds at most one second of its rate and has granted
  no more than that and what the rate has brought since it was created.
-/

namespace Amber.TokenBucket

/-- `throttle`: take the bytes, sleeping off any deficit. -/
def throttle (b : TokenBucket) (c : Clock) (bytes : ℕ) : TokenBucket × Clock :=
  match b.debit c bytes with
  | (some wait, b, c) => (b, c.pass wait)
  | (none, b, c) => (b, c)

/-! ## Calls -/

/-- A call on the bucket.  `delay` is how long it takes to come back beyond what it has to: the
host's sleep may be longer than asked for. -/
inductive Call
  | tryTake (bytes : ℕ) (delay : ℚ≥0)
  | throttle (bytes : ℕ) (delay : ℚ≥0)

/-- A bucket in use: the time is that of the clock, and `granted` is what the calls were given. -/
structure Meter where
  bucket : TokenBucket
  clock : Clock
  granted : ℕ

namespace Meter

/-- A new bucket. -/
def start (bytesPerSec : ℕ) (c : Clock) : Meter :=
  ⟨(TokenBucket.new bytesPerSec c).1, (TokenBucket.new bytesPerSec c).2, 0⟩

/-- One call, up to its return. -/
def call (m : Meter) : Call → Meter
  | .tryTake bytes delay =>
    match m.bucket.tryTake m.clock bytes with
    | (true, b, c) => ⟨b, c.pass delay, m.granted + bytes⟩
    | (false, b, c) => ⟨b, c.pass delay, m.granted⟩
  | .throttle bytes delay =>
    match m.bucket.throttle m.clock bytes with
    | (b, c) => ⟨b, c.pass delay, m.granted + bytes⟩

end Meter

/-! ## The books -/

section Books

variable {b : TokenBucket} {c : Clock} {t0 spent : ℚ}

theorem tokens_refill_le (b : TokenBucket) (c : Clock) : (b.refill c).1.tokens ≤ b.rate :=
  min_le_right _ _

theorem tryTake_of_le {bytes : ℕ} (h : (bytes : ℚ) ≤ (b.refill c).1.tokens) :
    b.tryTake c bytes =
      (true, { (b.refill c).1 with tokens := (b.refill c).1.tokens - bytes }, (b.refill c).2) :=
  if_pos h

theorem tryTake_of_lt {bytes : ℕ} (h : (b.refill c).1.tokens < bytes) :
    b.tryTake c bytes = (false, b.refill c) :=
  if_neg (not_le.2 h)

/-- What a `try_take` grants. -/
def taken (b : TokenBucket) (c : Clock) (bytes : ℕ) : ℕ :=
  if (b.tryTake c bytes).1 then bytes else 0

/-- **A `try_take` keeps the books**, provided the bucket was not ahead of the clock, and brings the
bucket up to the clock. -/
theorem Account.tryTake (h : Account t0 spent b) (hlast : b.last ≤ c.now) (bytes : ℕ) :
    Account t0 (spent + b.taken c bytes) (b.tryTake c bytes).2.1 ∧
      (b.tryTake c bytes).2.1.last = (b.tryTake c bytes).2.2.now := by
  have hrefill := h.refill hlast
  rcases le_or_gt (bytes : ℚ) (b.refill c).1.tokens with hle | hlt
  · rw [taken, tryTake_of_le hle]
    refine ⟨⟨h.rate_pos, sub_nonneg.2 hle, ?_⟩, rfl⟩
    calc spent + bytes + ((b.refill c).1.tokens - bytes)
        = spent + (b.refill c).1.tokens := by ring
      _ ≤ b.rate * (1 + ((b.refill c).1.last - t0)) := hrefill.covered
  · rw [taken, tryTake_of_lt hlt]
    refine ⟨?_, rfl⟩
    simpa using hrefill

theorem tokens_tryTake_le (b : TokenBucket) (c : Clock) (bytes : ℕ) :
    (b.tryTake c bytes).2.1.tokens ≤ b.rate := by
  have hrefill := b.tokens_refill_le c
  rcases le_or_gt (bytes : ℚ) (b.refill c).1.tokens with hle | hlt
  · rw [tryTake_of_le hle]
    exact (sub_le_self _ bytes.cast_nonneg).trans hrefill
  · rw [tryTake_of_lt hlt]
    exact hrefill

@[simp] theorem rate_tryTake (b : TokenBucket) (c : Clock) (bytes : ℕ) :
    (b.tryTake c bytes).2.1.rate = b.rate := by
  rcases le_or_gt (bytes : ℚ) (b.refill c).1.tokens with hle | hlt
  · rw [tryTake_of_le hle]
    rfl
  · rw [tryTake_of_lt hlt]
    rfl

theorem tokens_debit_le (hrate : 0 < b.rate) (bytes : ℕ) :
    (b.debit c bytes).2.1.tokens ≤ b.rate := by
  rcases le_or_gt (bytes : ℚ) (b.refill c).1.tokens with hle | hlt
  · rw [debit_of_le hle]
    exact (sub_le_self _ bytes.cast_nonneg).trans (b.tokens_refill_le c)
  · rw [debit_of_lt hlt]
    exact hrate.le

/-- What `throttle` leaves is what `debit` leaves, and the wait is over. -/
theorem throttle_eq (b : TokenBucket) (c : Clock) (bytes : ℕ) :
    b.throttle c bytes =
      ((b.debit c bytes).2.1, (b.debit c bytes).2.2.pass ((b.debit c bytes).1.getD 0)) := by
  unfold throttle
  obtain ⟨wait, b', c'⟩ := b.debit c bytes
  cases wait with
  | some wait => rfl
  | none =>
    have hpass : c'.pass 0 = c' := by rw [Clock.pass, add_zero]
    exact Prod.ext rfl hpass.symm

end Books

/-! ## Runs -/

namespace Meter

/-- A bucket of rate `rate`, created at `t0`, between two calls. -/
structure Conforming (rate t0 : ℚ) (m : Meter) : Prop where
  rate_eq : m.bucket.rate = rate
  tokens_le : m.bucket.tokens ≤ rate
  account : m.bucket.Account t0 m.granted
  behind : m.bucket.last ≤ m.clock.now

variable {rate t0 : ℚ} {m : Meter}

theorem start_conforming (bytesPerSec : ℕ) (c : Clock) :
    (start bytesPerSec c).Conforming (max bytesPerSec 1) c.read.now where
  rate_eq := rfl
  tokens_le := le_rfl
  account := by
    have hnew := account_new bytesPerSec c
    simpa [start] using hnew
  behind := le_rfl

theorem call_tryTake (m : Meter) (bytes : ℕ) (delay : ℚ≥0) :
    m.call (.tryTake bytes delay) =
      ⟨(m.bucket.tryTake m.clock bytes).2.1, (m.bucket.tryTake m.clock bytes).2.2.pass delay,
        m.granted + m.bucket.taken m.clock bytes⟩ := by
  rw [call, taken]
  obtain ⟨granted, b, c⟩ := m.bucket.tryTake m.clock bytes
  cases granted with
  | true | false => rfl

/-- **Every call** finds the bucket behind the clock, and leaves it so. -/
theorem call_conforming (h : m.Conforming rate t0) (a : Call) :
    (m.call a).Conforming rate t0 := by
  obtain ⟨rfl, htokens, haccount, hbehind⟩ := h
  cases a with
  | tryTake bytes delay =>
    obtain ⟨hbooks, hlast⟩ := haccount.tryTake hbehind bytes
    rw [call_tryTake]
    refine ⟨rate_tryTake .., tokens_tryTake_le .., ?_, ?_⟩
    · rw [Nat.cast_add]
      exact hbooks
    · exact hlast.le.trans (le_add_of_nonneg_right delay.coe_nonneg)
  | throttle bytes delay =>
    obtain ⟨hbooks, hlast⟩ := haccount.debit hbehind bytes
    rw [call, throttle_eq]
    refine ⟨rate_debit .., tokens_debit_le haccount.rate_pos bytes, ?_, ?_⟩
    · rw [Nat.cast_add]
      exact hbooks
    · -- the sleep has caught up with the bucket
      exact hlast.le.trans (le_add_of_nonneg_right delay.coe_nonneg)

theorem run_conforming (h : m.Conforming rate t0) (calls : List Call) :
    (Runs.run call m calls).Conforming rate t0 :=
  Runs.invariant_always (I := Conforming rate t0) (fun _ a h => call_conforming h a) h calls

/-- **A bucket conforms to its rate.**  Whatever calls are made on it and whenever they come, the
bucket holds at most one second of its rate, and when a call has come back, no more has been
granted than that second and what the rate has brought since the bucket was created. -/
theorem granted_le (bytesPerSec : ℕ) (c : Clock) (calls : List Call) :
    let rate : ℚ := max bytesPerSec 1
    let m := Runs.run call (start bytesPerSec c) calls
    m.bucket.tokens ≤ rate ∧ m.granted ≤ rate * (1 + (m.clock.now - c.read.now)) := by
  intro rate m
  have hrun : m.Conforming rate c.read.now := run_conforming (start_conforming bytesPerSec c) calls
  refine ⟨hrun.tokens_le, ?_⟩
  have hspent := hrun.account.spent_le hrun.behind
  rwa [hrun.rate_eq] at hspent

end Meter
end Amber.TokenBucket
