import Mathlib.Tactic.Linarith
import Mathlib.Tactic.Ring

/-!
# The token bucket

`TokenBucket` of `amber-core/src/limiter.rs`: a bucket holds up to one second of its rate and
refills continuously.  The floating-point arithmetic of the source is read as exact rational
arithmetic, and a `Duration` as the number of its seconds.

`Instant::now()` is a reading of `Clock`, which knows how much later each next reading comes, so
that `refill` and `debit` read it where the source does: `debit` reads it a second time when it
leaves a deficit.

* `Account` — the books of a bucket that was created at `t0`: what was spent and what is left is
  at most one second of the rate and what the rate has brought since `t0`.
* `Account.debit` — a debit keeps the books if the instant the bucket was last brought up to has
  been reached, and brings it up to the end of the wait that it asks for.
-/

namespace Amber

/-- The host's monotonic clock: what it read last, and how much later each next reading is. -/
structure Clock where
  now : ℚ
  gaps : ℕ → ℚ≥0

namespace Clock

/-- `Instant::now()`; the instant is the `now` of the clock after it. -/
def read (c : Clock) : Clock where
  now := c.now + c.gaps 0
  gaps := fun k => c.gaps (k + 1)

/-- Time passes without a reading. -/
def pass (c : Clock) (d : ℚ) : Clock := { c with now := c.now + d }

theorem now_le_read (c : Clock) : c.now ≤ c.read.now :=
  le_add_of_nonneg_right (c.gaps 0).coe_nonneg

end Clock

structure TokenBucket where
  rate : ℚ
  tokens : ℚ
  last : ℚ

namespace TokenBucket

def new (bytesPerSec : ℕ) (c : Clock) : TokenBucket × Clock :=
  let rate : ℚ := max bytesPerSec 1
  (⟨rate, rate, c.read.now⟩, c.read)

/-- Credit the time since `last`; `duration_since` is zero if that lies in the future. -/
def refill (b : TokenBucket) (c : Clock) : TokenBucket × Clock :=
  let now := c.read.now
  let dt := max (now - b.last) 0
  ({ b with tokens := min (b.tokens + dt * b.rate) b.rate, last := now }, c.read)

/-- Take the bytes now if the bucket has them. -/
def tryTake (b : TokenBucket) (c : Clock) (bytes : ℕ) : Bool × TokenBucket × Clock :=
  let r := b.refill c
  if (bytes : ℚ) ≤ r.1.tokens then (true, { r.1 with tokens := r.1.tokens - bytes }, r.2)
  else (false, r)

/-- Take the bytes and say how long the caller must wait to clear the deficit. -/
def debit (b : TokenBucket) (c : Clock) (bytes : ℕ) : Option ℚ × TokenBucket × Clock :=
  let r := b.refill c
  let tokens := r.1.tokens - bytes
  if tokens < 0 then
    let wait := -tokens / b.rate
    (some wait, { r.1 with tokens := 0, last := r.2.read.now + wait }, r.2.read)
  else (none, { r.1 with tokens }, r.2)

/-! ## The books of a bucket -/

/-- What was spent from a bucket created at `t0`, and what is left, came from its first second of
rate and from the time up to `last`. -/
structure Account (t0 spent : ℚ) (b : TokenBucket) : Prop where
  rate_pos : 0 < b.rate
  tokens_nonneg : 0 ≤ b.tokens
  covered : spent + b.tokens ≤ b.rate * (1 + (b.last - t0))

variable {b : TokenBucket} {c : Clock} {t0 spent : ℚ}

theorem account_new (bytesPerSec : ℕ) (c : Clock) :
    Account c.read.now 0 (new bytesPerSec c).1 where
  rate_pos := by simp [new]
  tokens_nonneg := by simp [new]
  covered := by simp [new]

/-- What has been spent by the time the bucket has been brought up to. -/
theorem Account.spent_le (h : Account t0 spent b) {t : ℚ} (ht : b.last ≤ t) :
    spent ≤ b.rate * (1 + (t - t0)) := by
  have hmono : b.rate * (1 + (b.last - t0)) ≤ b.rate * (1 + (t - t0)) :=
    mul_le_mul_of_nonneg_left (by linarith) h.rate_pos.le
  linarith [h.covered, h.tokens_nonneg]

/-- A refill keeps the books if the bucket was not ahead of the clock. -/
theorem Account.refill (h : Account t0 spent b) (hlast : b.last ≤ c.now) :
    Account t0 spent (b.refill c).1 := by
  have hdt : max (c.read.now - b.last) 0 = c.read.now - b.last :=
    max_eq_left (sub_nonneg.2 (hlast.trans c.now_le_read))
  refine ⟨h.rate_pos, ?_, ?_⟩
  · exact le_min (add_nonneg h.tokens_nonneg
      (mul_nonneg (le_max_right _ _) h.rate_pos.le)) h.rate_pos.le
  · -- the credit is the rate over the time that `last` moves by
    have hcredit : (b.refill c).1.tokens ≤ b.tokens + (c.read.now - b.last) * b.rate := by
      rw [← hdt]
      exact min_le_left _ _
    calc spent + (b.refill c).1.tokens
        ≤ b.rate * (1 + (b.last - t0)) + (c.read.now - b.last) * b.rate := by
          linarith [h.covered]
      _ = b.rate * (1 + (c.read.now - t0)) := by ring

/-- A debit that the bucket covers. -/
theorem debit_of_le {bytes : ℕ} (h : (bytes : ℚ) ≤ (b.refill c).1.tokens) :
    b.debit c bytes =
      (none, { (b.refill c).1 with tokens := (b.refill c).1.tokens - bytes }, (b.refill c).2) :=
  if_neg (not_lt.2 (sub_nonneg.2 h))

/-- The time in which the rate brings what is missing. -/
def shortfall (b : TokenBucket) (c : Clock) (bytes : ℕ) : ℚ :=
  -((b.refill c).1.tokens - bytes) / b.rate

/-- A debit that leaves a deficit. -/
theorem debit_of_lt {bytes : ℕ} (h : (b.refill c).1.tokens < bytes) :
    b.debit c bytes =
      (some (b.shortfall c bytes),
        { (b.refill c).1 with
          tokens := 0
          last := (b.refill c).2.read.now + b.shortfall c bytes },
        (b.refill c).2.read) :=
  if_pos (sub_neg.2 h)

@[simp] theorem rate_debit (b : TokenBucket) (c : Clock) (bytes : ℕ) :
    (b.debit c bytes).2.1.rate = b.rate := by
  rcases le_or_gt (bytes : ℚ) (b.refill c).1.tokens with hle | hlt
  · rw [debit_of_le hle]
    rfl
  · rw [debit_of_lt hlt]
    rfl

theorem rate_mul_shortfall (hrate : 0 < b.rate) (bytes : ℕ) :
    b.rate * b.shortfall c bytes = bytes - (b.refill c).1.tokens := by
  rw [shortfall, mul_div_cancel₀ _ hrate.ne', neg_sub]

/-- **A debit keeps the books**, provided the bucket was not ahead of the clock, and leaves the
bucket ahead of the clock by no more than the wait it asks for. -/
theorem Account.debit (h : Account t0 spent b) (hlast : b.last ≤ c.now) (bytes : ℕ) :
    Account t0 (spent + bytes) (b.debit c bytes).2.1 ∧
      (b.debit c bytes).2.1.last = (b.debit c bytes).2.2.now + (b.debit c bytes).1.getD 0 := by
  have hcov : spent + (b.refill c).1.tokens ≤ b.rate * (1 + ((b.refill c).2.now - t0)) :=
    (h.refill hlast).covered
  rcases le_or_gt (bytes : ℚ) (b.refill c).1.tokens with hle | hlt
  · rw [debit_of_le hle]
    refine ⟨⟨h.rate_pos, sub_nonneg.2 hle, ?_⟩, (add_zero _).symm⟩
    calc spent + bytes + ((b.refill c).1.tokens - bytes)
        = spent + (b.refill c).1.tokens := by ring
      _ ≤ b.rate * (1 + ((b.refill c).2.now - t0)) := hcov
  · rw [debit_of_lt hlt]
    refine ⟨⟨h.rate_pos, le_rfl, ?_⟩, rfl⟩
    -- the wait is worth the deficit, and the second reading is not before the first
    have hread : b.rate * (1 + ((b.refill c).2.now - t0)) ≤
        b.rate * (1 + ((b.refill c).2.read.now - t0)) :=
      mul_le_mul_of_nonneg_left (by linarith [(b.refill c).2.now_le_read]) h.rate_pos.le
    calc spent + bytes + 0
        = spent + (b.refill c).1.tokens + b.rate * b.shortfall c bytes := by
          rw [rate_mul_shortfall h.rate_pos]
          ring
      _ ≤ b.rate * (1 + ((b.refill c).2.read.now - t0)) + b.rate * b.shortfall c bytes := by
          linarith
      _ = b.rate * (1 + ((b.refill c).2.read.now + b.shortfall c bytes - t0)) := by ring

end TokenBucket

end Amber
