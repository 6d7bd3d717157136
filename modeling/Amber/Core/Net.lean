import Amber.Lib.Runs
import Amber.Core.Limiter
import Amber.Core.VirtioMmio

/-!
# The network device and its transmit cap

`NetDevice` of `amber-core/src/net.rs`: a packet pump between the two virtqueues and the host
network, with an optional rate cap for each direction.  What the backend answers and the host's
clock are part of the device's own state, and `sent` records what was handed to
`backend.send`.

A transmit over the cap is not slept off in `handle`, which runs under the lock that all devices
share.  The deficit goes to `txDebt`; `dispatch_mmio` of `amber-core/src/vm.rs` takes it once the
notify is done and sleeps without the lock.  `notify` is that whole exchange.

There is one `txDebt`, and a notify serves every chain that is posted.  Each chain with a payload
overwrites what the chain before it left there, and its `refill` takes the bucket back from the
end of that wait to the present.

* `Billed` — the books of the device: what was sent is covered by the bucket, which is ahead of
  the clock by at most the debt that is still to be slept off.
* `sent_le_of_paced` — the cap holds in every run in which no payload is handled over a debt.
* `batch_outruns_cap` — three chains in one notify that do not keep to it.
-/

namespace Amber

open GuestRam LittleEndian

/-- What the host-network seam answers: the MAC, the outcomes of the next `poll`s, and whether it
has work in flight. -/
structure NetBackend where
  mac : Vector UInt8 6
  polls : List (Option (List UInt8))
  wantsPoll : Bool

namespace NetBackend

def poll (be : NetBackend) : NetBackend × Option (List UInt8) :=
  match be.polls with
  | [] => (be, none)
  | answer :: rest => ({ be with polls := rest }, answer)

end NetBackend

def virtioNetHdrLen : ℕ := 12

def maxTxFrame : ℕ := 64 * 1024

structure NetDevice where
  backend : NetBackend
  mac : Vector UInt8 6
  txLimit : Option TokenBucket
  rxLimit : Option TokenBucket
  pendingRx : Option (List UInt8)
  txDebt : Option ℚ
  clock : Clock
  /-- The frames handed to `backend.send`, oldest first. -/
  sent : List (List UInt8)

namespace NetDevice

def deviceId : ℕ := 1
def rx : ℕ := 0
def tx : ℕ := 1
def fMac : ℕ := 2 ^ 5
def fVersion1 : ℕ := 1

/-- `TokenBucket::from_env`, given the bytes per second that the knob is set to. -/
def limitFromEnv (knob : Option ℕ) (c : Clock) : Option TokenBucket × Clock :=
  match knob with
  | some n => if 0 < n then (some (TokenBucket.new n c).1, (TokenBucket.new n c).2) else (none, c)
  | none => (none, c)

/-- A device under `AMBER_NET_BPS = knob`, which caps each direction on its own. -/
def new (backend : NetBackend) (knob : Option ℕ) (c : Clock) : NetDevice :=
  let txl := limitFromEnv knob c
  let rxl := limitFromEnv knob txl.2
  { backend, mac := backend.mac, txLimit := txl.1, rxLimit := rxl.1, pendingRx := none,
    txDebt := none, clock := rxl.2, sent := [] }

def deviceFeatures (_ : NetDevice) (sel : ℕ) : ℕ :=
  if sel = 0 then fMac else if sel = 1 then fVersion1 else 0

def config (dev : NetDevice) (off : ℕ) : ℕ :=
  fromLe ((List.range 4).map fun i => (dev.mac[off + i]?).getD 0)

def wantsPoll (dev : NetDevice) : Bool := dev.pendingRx.isSome || dev.backend.wantsPoll

/-- The loop of `handle` over the readable buffers, which stops at `maxTxFrame` bytes. -/
def gather (ram : GuestRam) : List Buf → List UInt8 → List UInt8
  | [], frame => frame
  | b :: bs, frame =>
    if maxTxFrame ≤ frame.length then frame
    else
      let take := min b.len (maxTxFrame - frame.length)
      gather ram bs (frame ++ ram.read b.addr take)

/-- The frame of a transmit chain, header included. -/
def txFrame (ram : GuestRam) (bufs : List Buf) : List UInt8 :=
  gather ram (bufs.filter fun b => !b.writable) []

/-- Charge the transmit cap and record the deficit. -/
def debitTx (dev : NetDevice) (bytes : ℕ) : NetDevice :=
  match dev.txLimit with
  | none => dev
  | some l =>
    let r := l.debit dev.clock bytes
    { dev with txDebt := r.1, txLimit := some r.2.1, clock := r.2.2 }

def handle (dev : NetDevice) (queue : ℕ) (ram : GuestRam) (bufs : List Buf) :
    NetDevice × GuestRam × ℕ :=
  if queue = tx then
    let frame := txFrame ram bufs
    if virtioNetHdrLen < frame.length then
      let dev := dev.debitTx (frame.length - virtioNetHdrLen)
      ({ dev with sent := dev.sent ++ [frame.drop virtioNetHdrLen] }, ram, 0)
    else (dev, ram, 0)
  else (dev, ram, 0)

def takeThrottle (dev : NetDevice) : Option ℚ × NetDevice :=
  (dev.txDebt, { dev with txDebt := none })

/-- The frame to deliver next: the deferred one, or the backend's. -/
def nextRx (dev : NetDevice) : NetDevice × Option (List UInt8) :=
  match dev.pendingRx with
  | some frame => ({ dev with pendingRx := none }, some frame)
  | none => ({ dev with backend := dev.backend.poll.1 }, dev.backend.poll.2)

/-- A zeroed header with `num_buffers = 1`, then the frame. -/
def withHeader (frame : List UInt8) : List UInt8 :=
  (List.replicate virtioNetHdrLen 0).set 10 1 ++ frame

def pollRx (dev : NetDevice) (_maxFrame : ℕ) : NetDevice × Option (List UInt8) :=
  match dev.nextRx with
  | (dev, none) => (dev, none)
  | (dev, some frame) =>
    match dev.rxLimit with
    | none => (dev, some (withHeader frame))
    | some l =>
      let r := l.tryTake dev.clock frame.length
      let dev := { dev with rxLimit := some r.2.1, clock := r.2.2 }
      if r.1 then (dev, some (withHeader frame))
      else ({ dev with pendingRx := some frame }, none)

instance : VirtioDevice NetDevice where
  deviceId := fun _ => deviceId
  deviceFeatures := deviceFeatures
  config := config
  numQueues := fun _ => 2
  handle := handle
  rxQueue := fun _ => some rx
  pollRx := pollRx
  wantsPoll := wantsPoll

/-! ## A notify of the transmit queue -/

/-- Serve one transmit chain; `handle` neither writes guest RAM nor returns a length here. -/
def serve (dev : NetDevice) (chain : GuestRam × List Buf) : NetDevice :=
  (dev.handle tx chain.1 chain.2).1

/-- One notify as the run loop sees it: the chains it finds, how long after one another the clock
is read meanwhile, and how long it takes until the run loop begins to sleep. -/
structure Notify where
  chains : List (GuestRam × List Buf)
  gaps : ℕ → ℚ≥0
  lag : ℚ≥0

/-- The device as the notify meets it: what the clock is going to read is now known. -/
def meet (dev : NetDevice) (n : Notify) : NetDevice :=
  { dev with clock := { dev.clock with gaps := n.gaps } }

/-- The device when the chains of the notify have been served. -/
def served (dev : NetDevice) (n : Notify) : NetDevice := n.chains.foldl serve (dev.meet n)

/-- Serve the notify, take the throttle, and sleep for exactly that long. -/
def notify (dev : NetDevice) (n : Notify) : NetDevice :=
  let (throttle, dev) := (dev.served n).takeThrottle
  { dev with clock := (dev.clock.pass n.lag).pass (throttle.getD 0) }

/-- The payload bytes handed to the backend. -/
def bytesSent (dev : NetDevice) : ℕ := (dev.sent.map List.length).sum

/-! ## The cap -/

/-- The chain has bytes behind the header, which is when it is charged and sent. -/
def Carries (chain : GuestRam × List Buf) : Prop :=
  virtioNetHdrLen < (txFrame chain.1 chain.2).length

instance (chain : GuestRam × List Buf) : Decidable (Carries chain) :=
  inferInstanceAs (Decidable (_ < _))

/-- A chain with a payload is handled when no debt is waiting to be slept off. -/
def Clear (dev : NetDevice) (chain : GuestRam × List Buf) : Prop :=
  Carries chain → dev.txDebt = none

instance (dev : NetDevice) (chain : GuestRam × List Buf) : Decidable (dev.Clear chain) :=
  inferInstanceAs (Decidable (_ → _))

/-- Every chain of the notify is `Clear` when its turn comes. -/
def Paced (dev : NetDevice) (n : Notify) : Prop := Runs.Each serve Clear (dev.meet n) n.chains

instance (dev : NetDevice) (n : Notify) : Decidable (dev.Paced n) :=
  inferInstanceAs (Decidable (Runs.Each _ _ _ _))

/-- The books of a device whose transmit bucket `b`, of rate `rate`, was created at `t0`: the
bucket covers what was sent, and is ahead of the clock by at most the debt. -/
structure Billed (rate t0 : ℚ) (dev : NetDevice) (b : TokenBucket) : Prop where
  limit : dev.txLimit = some b
  rate_eq : b.rate = rate
  account : b.Account t0 dev.bytesSent
  ahead : b.last ≤ dev.clock.now + dev.txDebt.getD 0

variable {dev : NetDevice} {b : TokenBucket} {rate t0 : ℚ} {chain : GuestRam × List Buf}

theorem billed_new (backend : NetBackend) {n : ℕ} (hn : 0 < n) (c : Clock) :
    Billed n c.read.now (new backend (some n) c) (TokenBucket.new n c).1 where
  limit := by simp [new, limitFromEnv, hn]
  rate_eq := by
    have hone : (1 : ℚ) ≤ n := by exact_mod_cast hn
    exact max_eq_left hone
  account := TokenBucket.account_new n c
  ahead := by
    simp only [new, limitFromEnv, if_pos hn, Option.getD_none, add_zero]
    exact c.read.now_le_read

theorem serve_of_not_carries (h : ¬ Carries chain) : dev.serve chain = dev := by
  have hframe : ¬ virtioNetHdrLen < (txFrame chain.1 chain.2).length := h
  simp only [serve, handle, if_pos, if_neg hframe]

/-- The payload of a chain in bytes. -/
def payloadLen (chain : GuestRam × List Buf) : ℕ :=
  (txFrame chain.1 chain.2).length - virtioNetHdrLen

theorem serve_of_carries (h : Carries chain) (hlimit : dev.txLimit = some b) :
    dev.serve chain =
      { dev with
        txDebt := (b.debit dev.clock (payloadLen chain)).1
        txLimit := some (b.debit dev.clock (payloadLen chain)).2.1
        clock := (b.debit dev.clock (payloadLen chain)).2.2
        sent := dev.sent ++ [(txFrame chain.1 chain.2).drop virtioNetHdrLen] } := by
  have hframe : virtioNetHdrLen < (txFrame chain.1 chain.2).length := h
  simp only [serve, handle, if_pos, if_pos hframe, debitTx, hlimit, payloadLen]

variable (h : Billed rate t0 dev b)

include h

/-- Without a debt the bucket is not ahead of the clock. -/
theorem Billed.last_le (hdebt : dev.txDebt = none) :
    b.last ≤ dev.clock.now := by
  have hahead := h.ahead
  rwa [hdebt, Option.getD_none, add_zero] at hahead

/-- A chain that is served over no debt keeps the books. -/
theorem Billed.serve (hclear : dev.Clear chain) :
    ∃ b', Billed rate t0 (dev.serve chain) b' := by
  by_cases hc : Carries chain
  · obtain ⟨hacc, hend⟩ := h.account.debit (h.last_le (hclear hc)) (payloadLen chain)
    rw [serve_of_carries hc h.limit]
    refine ⟨_, rfl, (b.rate_debit _ _).trans h.rate_eq, ?_, hend.le⟩
    convert hacc using 1
    simp [bytesSent, payloadLen]
  · rw [serve_of_not_carries hc]
    exact ⟨b, h⟩

/-- A paced notify, with the sleep that follows it, keeps the books and leaves no debt. -/
theorem Billed.notify {n : Notify} (hpaced : dev.Paced n) :
    ∃ b', Billed rate t0 (dev.notify n) b' := by
  have hmeet : ∃ b', Billed rate t0 (dev.meet n) b' := ⟨b, h.limit, h.rate_eq, h.account, h.ahead⟩
  obtain ⟨b', hserved⟩ : ∃ b', Billed rate t0 (dev.served n) b' :=
    Runs.invariant (I := fun d => ∃ b', Billed rate t0 d b')
      (fun _ _ hd hok => hd.elim fun _ hb => hb.serve hok) hmeet hpaced
  refine ⟨b', hserved.limit, hserved.rate_eq, hserved.account, ?_⟩
  have hlag : 0 ≤ (n.lag : ℚ) := n.lag.coe_nonneg
  -- by the end of the sleep the clock has caught up with the bucket
  calc b'.last ≤ (dev.served n).clock.now + (dev.served n).txDebt.getD 0 := hserved.ahead
    _ ≤ (dev.served n).clock.now + n.lag + (dev.served n).txDebt.getD 0 + 0 := by linarith

omit h

@[simp] theorem txDebt_notify (dev : NetDevice) (n : Notify) : (dev.notify n).txDebt = none := rfl

/-- What no run of paced notifies breaks. -/
def Settled (rate t0 : ℚ) (dev : NetDevice) : Prop :=
  dev.txDebt = none ∧ ∃ b, Billed rate t0 dev b

theorem Settled.bytesSent_le (h : Settled rate t0 dev) :
    (dev.bytesSent : ℚ) ≤ rate * (1 + dev.clock.now - t0) := by
  obtain ⟨hdebt, b, hb⟩ := h
  have hspent := hb.account.spent_le (hb.last_le hdebt)
  rwa [hb.rate_eq, ← add_sub_assoc] at hspent

/-- **The transmit cap holds as long as no payload is handled over a debt.**  In every run of
notifies in which each chain with a payload finds `txDebt` empty, what was handed to the backend
by the end of any notify and of its sleep is at most one second of the rate and the rate over the
time since the device was created. -/
theorem sent_le_of_paced (backend : NetBackend) (rate : ℕ) (hrate : 0 < rate) (c : Clock)
    (l : List Notify) (hpaced : Runs.Each notify Paced (new backend (some rate) c) l) :
    ∀ pre, pre <+: l →
      ((Runs.run notify (new backend (some rate) c) pre).bytesSent : ℚ) ≤
        rate * (1 + (Runs.run notify (new backend (some rate) c) pre).clock.now -
          c.read.now) := by
  rintro pre ⟨post, rfl⟩
  have hstart : Settled rate c.read.now (new backend (some rate) c) :=
    ⟨rfl, _, billed_new backend hrate c⟩
  exact (Runs.invariant (I := Settled rate c.read.now)
    (fun d n hd hok => ⟨txDebt_notify d n, hd.2.elim fun _ hb => hb.notify hok⟩) hstart
    (Runs.each_append.1 hpaced).1).bytesSent_le

/-! ## A batch -/

/-- A backend that never receives. -/
def silent : NetBackend where
  mac := #v[0x52, 0x54, 0x00, 0x12, 0x34, 0x56]
  polls := []
  wantsPoll := false

/-- A clock under which everything but a sleep takes no time. -/
def still : Clock := ⟨0, fun _ => 0⟩

/-- A device under a cap of one byte per second. -/
def slow : NetDevice := new silent (some 1) still

/-- Guest RAM with three one-descriptor chains posted on a ring of four, each of a header and
one byte: the descriptor table at 0, the available ring at 64, the used ring at 96. -/
def batchRam : GuestRam where
  base := 0
  len := 256
  host := fun a =>
    if a = 0 ∨ a = 16 ∨ a = 32 then 128
    else if a = 8 ∨ a = 24 ∨ a = 40 then 13
    else if a = 66 then 3
    else if a = 70 then 1
    else if a = 72 then 2
    else 0

def batchMmio : VirtioMmio NetDevice :=
  { (VirtioMmio.new slow).attach batchRam with
    queues := [Queue.default,
      { num := 4, ready := 1, desc := 0, avail := 64, used := 96, lastAvail := 0 }] }

/-- `n` chains of a header and one byte. -/
def ones (n : ℕ) : Notify where
  chains := List.replicate n (batchRam, [⟨128, 13, false⟩])
  gaps := fun _ => 0
  lag := 0

theorem sent_le_of_paced_ones :
    Runs.Each notify Paced slow [ones 2, ones 1, ones 1] ∧
      ((Runs.run notify slow [ones 2, ones 1, ones 1]).bytesSent : ℚ) ≤
        (1 : ℕ) * (1 + (Runs.run notify slow [ones 2, ones 1, ones 1]).clock.now -
          still.read.now) :=
  have hpaced : Runs.Each notify Paced slow [ones 2, ones 1, ones 1] := by decide +kernel
  ⟨hpaced, sent_le_of_paced silent 1 one_pos still [ones 2, ones 1, ones 1] hpaced _
    List.prefix_rfl⟩

/-- One notify that finds three chains of a byte each: all three are sent, and the one second
that the run loop sleeps is the wait of the last of them. -/
theorem batch_outruns_cap :
    (batchMmio.write regQueueNotify 1).dev.sent = (slow.served (ones 3)).sent ∧
      (slow.served (ones 3)).takeThrottle.1 = some 1 ∧
      (slow.notify (ones 3)).bytesSent = 3 ∧ (slow.notify (ones 3)).clock.now = 1 ∧
      ¬ ((slow.notify (ones 3)).bytesSent : ℚ) ≤
        1 * (1 + (slow.notify (ones 3)).clock.now - still.read.now) := by
  decide +kernel

end NetDevice

end Amber
