import Amber.Core.Net
import Amber.Core.RingInvariant

/-!
# How long a receive pump runs

`process` serves at most as many chains as its queue is long, "so a hostile available index
can't spin the vcpu".  `pump_rx` next to it has no such budget: its loop ends when the available
index in guest memory equals `last_avail` or the device has nothing more, and it reads the index
anew in every turn, after its own writes into guest memory.

A call is bounded if its device has few payloads, whatever guest memory holds.  If it has many, it
comes down to the driver: where the descriptor table and the available ring lie apart from all
that the call may write (`Unaliased`), index, heads and capacities are those that guest memory
holds when the call begins.

* `pump_bounded` — a pump returns with at most as many frames as the queue is long, besides one
  held over, if the device has no more; and with the rings apart exactly if the driver is no more
  buffers ahead, or the device has no more payloads for these.
* `pump_overruns` — a driver that claims more buffers than the queue has slots.
-/

namespace Amber

open GuestRam VirtioDevice WrapCounter Option

variable {σ : Type} [VirtioDevice σ]

/-- The device has `n` payloads when asked for them with these capacities. -/
def Supplies : ℕ → σ → (ℕ → ℕ) → Prop
  | 0, _, _ => True
  | n + 1, dev, caps =>
    match pollRx dev (caps 0) with
    | (_, none) => False
    | (dev, some _) => Supplies n dev fun k => caps (k + 1)

/-- The queue with `k` more buffers consumed. -/
def Queue.skip (q : Queue) (k : ℕ) : Queue := { q with lastAvail := (q.lastAvail + k) % 2 ^ 16 }

/-- The capacity of the `k`-th of the buffers posted next. -/
def capacityAt (ram : GuestRam) (q : Queue) (k : ℕ) : ℕ :=
  (((nextChain ram (q.skip k)).filter (·.writable)).map (·.len)).sum

/-- How many buffers the driver is ahead. -/
def ahead (ram : GuestRam) (q : Queue) : ℕ :=
  wsub (2 ^ 16) (ram.readU16 (wadd q.avail 2)) q.lastAvail

/-- `g` is an address the pump of a queue may write: in the used ring, or in a writable buffer of
one of its chains. -/
def Scratch (ram : GuestRam) (q : Queue) (g : ℕ) : Prop :=
  InUsedRing q.used q.num g ∨ ∃ head, InWritable (collectChain ram q.desc head q.num) g

/-- No ring wraps around the address space, and what the pump of a queue goes by is apart from what
it may write.  Size and counter are `u16`s. -/
structure Unaliased (ram : GuestRam) (q : Queue) : Prop where
  num_lt : q.num < 2 ^ 16
  lastAvail_lt : q.lastAvail < 2 ^ 16
  desc_fits : q.desc + 16 * q.num ≤ 2 ^ 64
  avail_fits : q.avail + 4 + 2 * q.num ≤ 2 ^ 64
  used_fits : q.used + 4 + 8 * q.num ≤ 2 ^ 64
  apart : ∀ g, InDescTable q g ∨ InAvailRing q g → ¬ Scratch ram q g

/-! ## What a turn leaves -/

section Turn

variable {ram ram' : GuestRam} {q : Queue}

theorem Unaliased.qsz_eq (h : Unaliased ram q) : q.qsz = q.num := Nat.mod_eq_of_lt h.num_lt

theorem scratch_congr (hchain : ∀ head, collectChain ram' q.desc head q.num =
    collectChain ram q.desc head q.num) (g : ℕ) : Scratch ram' q.advance g ↔ Scratch ram q g := by
  show InUsedRing q.used q.num g ∨ (∃ head, InWritable (collectChain ram' q.desc head q.num) g) ↔ _
  simp only [hchain]
  rfl

/-- Filling the next buffer writes where the pump may. -/
theorem Unaliased.injectOne_changesOnly (h : Unaliased ram q) {data : List UInt8} {q' : Queue}
    {e : UsedElem} (hinj : injectOne ram q data = some (ram', q', e)) :
    ChangesOnly (Scratch ram q) ram ram' := by
  unfold injectOne at hinj
  split_ifs at hinj
  cases hinj
  refine ((changesOnly_fillChain ram (nextChain ram q) data).mono fun g hg => ?_).trans
    ((changesOnly_pushUsed _ _ _ (by rw [h.qsz_eq]; exact h.used_fits)).mono fun g hg => ?_)
  · refine .inr ⟨nextHead ram q, ?_⟩
    rwa [nextChain, h.qsz_eq] at hg
  · rw [h.qsz_eq] at hg
    exact .inl hg

section Apart

variable (h : Unaliased ram q) (hc : ChangesOnly (Scratch ram q) ram ram')

include h hc

/-- A chain does not depend on what the pump may write. -/
theorem Unaliased.collectChain_eq (head : ℕ) :
    collectChain ram' q.desc head q.num = collectChain ram q.desc head q.num :=
  collectChain_frame hc h.desc_fits (fun g hlo hhi => h.apart g (.inl ⟨hlo, hhi⟩)) head

/-- Nor do the index and the heads. -/
theorem Unaliased.readU16_avail {off : ℕ} (hoff : off + 2 ≤ 4 + 2 * q.num) :
    ram'.readU16 (wadd q.avail off) = ram.readU16 (wadd q.avail off) := by
  have hfits := h.avail_fits
  rw [wadd_of_lt (by omega)]
  exact hc.readU16_eq fun g hlo hhi => h.apart g (.inr ⟨by omega, by omega⟩)

theorem Unaliased.nextChain_eq (hnum : q.num ≠ 0) (k : ℕ) :
    nextChain ram' (q.skip k) = nextChain ram (q.skip k) := by
  have hslot : (q.skip k).lastAvail % (q.skip k).qsz < q.num := by
    show _ % q.qsz < q.num
    rw [h.qsz_eq]
    exact Nat.mod_lt _ (Nat.pos_of_ne_zero hnum)
  have hhead : nextHead ram' (q.skip k) = nextHead ram (q.skip k) :=
    h.readU16_avail hc (by omega)
  show collectChain ram' q.desc (nextHead ram' (q.skip k)) q.qsz =
    collectChain ram q.desc (nextHead ram (q.skip k)) q.qsz
  rw [hhead, h.qsz_eq, h.collectChain_eq hc]

theorem Unaliased.advance : Unaliased ram' q.advance where
  num_lt := h.num_lt
  lastAvail_lt := Nat.mod_lt _ (by decide)
  desc_fits := h.desc_fits
  avail_fits := h.avail_fits
  used_fits := h.used_fits
  apart := fun g hg hs => h.apart g hg ((scratch_congr (h.collectChain_eq hc) g).1 hs)

/-- The capacities move up by one. -/
theorem Unaliased.capacityAt_advance (hnum : q.num ≠ 0) :
    capacityAt ram' q.advance = fun k => capacityAt ram q (k + 1) := by
  funext k
  have hskip : q.advance.skip k = q.skip (k + 1) := by
    simp only [Queue.skip, Queue.advance, Nat.mod_add_mod]
    rw [add_assoc, add_comm 1 k]
  rw [capacityAt, hskip, h.nextChain_eq hc hnum, capacityAt]

/-- The driver is one buffer less ahead. -/
theorem Unaliased.ahead_advance (hne : q.lastAvail ≠ ram.readU16 (wadd q.avail 2)) :
    ahead ram' q.advance + 1 = ahead ram q := by
  unfold ahead
  show wsub _ (ram'.readU16 (wadd q.avail 2)) ((q.lastAvail + 1) % 2 ^ 16) + 1 = _
  rw [h.readU16_avail hc (by omega)]
  exact wsub_succ (readU16_lt ram _) h.lastAvail_lt hne.symm

end Apart

theorem ahead_eq_zero (heq : q.lastAvail = ram.readU16 (wadd q.avail 2)) :
    ahead ram q = 0 := by
  have hlt : ram.readU16 (wadd q.avail 2) < 2 ^ 16 := readU16_lt ram _
  rw [ahead, heq, wsub, Nat.add_sub_cancel' hlt.le, Nat.mod_self]

theorem num_ne_zero (hact : q.active = true) : q.num ≠ 0 := by
  intro hzero
  simp [Queue.active, hzero] at hact

/-- What is posted next, if the queue is live. -/
theorem nextRxCapacity_cases (hact : q.active = true) (hlt : q.lastAvail < 2 ^ 16) :
    (nextRxCapacity ram q = none ∧ q.lastAvail = ram.readU16 (wadd q.avail 2)) ∨
      nextRxCapacity ram q = some (capacityAt ram q 0) ∧
        q.lastAvail ≠ ram.readU16 (wadd q.avail 2) := by
  have hskip : q.skip 0 = q := by
    rw [Queue.skip, add_zero, Nat.mod_eq_of_lt hlt]
  rw [nextRxCapacity, hact, Bool.not_true, if_neg Bool.false_ne_true, capacityAt, hskip]
  split_ifs with heq
  · exact .inl ⟨rfl, heq⟩
  · exact .inr ⟨rfl, heq⟩

end Turn

/-! ## The loop -/

section Loop

variable {turns cap : ℕ} {dev dev' : σ} {ram ram' : GuestRam} {q q' : Queue} {data : List UInt8}
  {e : UsedElem}

/-- A bound that the loop does not reach does not matter. -/
theorem pumpLoop_mono {turns' : ℕ} {r : Pumped σ} (h : pumpLoop turns dev ram q = some r)
    (hle : turns ≤ turns') : pumpLoop turns' dev ram q = some r := by
  refine pumpLoop_rule (motive := fun turns dev ram q r => ∀ turns', turns ≤ turns' →
    pumpLoop turns' dev ram q = some r) ?_ ?_ ?_ h turns' hle
  · intro turns dev ram q hcap turns' hle
    obtain ⟨k, rfl⟩ := Nat.exists_eq_add_of_le' hle
    exact pumpLoop_unposted hcap
  · intro turns cap dev dev' ram q hcap hpoll turns' hle
    obtain ⟨k, rfl⟩ := Nat.exists_eq_add_of_le' hle
    exact pumpLoop_silent hcap hpoll
  · intro turns cap dev dev' data ram ram' q e rest hcap hpoll hinj ih turns' hle
    obtain ⟨k, rfl⟩ := Nat.exists_eq_add_of_le' hle
    rw [← add_assoc, pumpLoop_frame hcap hpoll hinj, ih _ (Nat.le_add_left _ _), map_some]

/-- The loop ends after at most `n` frames. -/
def EndsWithin (n : ℕ) (dev : σ) (ram : GuestRam) (q : Queue) : Prop :=
  ∃ turns r, pumpLoop turns dev ram q = some r ∧ r.elems.length ≤ n

theorem endsWithin_of_unposted {n : ℕ} (hcap : nextRxCapacity ram q = none) :
    EndsWithin n dev ram q :=
  ⟨1, _, pumpLoop_unposted hcap, Nat.zero_le _⟩

theorem endsWithin_of_silent {n : ℕ} (hcap : nextRxCapacity ram q = some cap)
    (hpoll : pollRx dev cap = (dev', none)) : EndsWithin n dev ram q :=
  ⟨1, _, pumpLoop_silent hcap hpoll, Nat.zero_le _⟩

/-- A turn that fills a buffer uses up one of the frames. -/
theorem endsWithin_frame_iff {n : ℕ} (hcap : nextRxCapacity ram q = some cap)
    (hpoll : pollRx dev cap = (dev', some data))
    (hinj : injectOne ram q data = some (ram', q', e)) :
    EndsWithin n dev ram q ↔ ∃ k, n = k + 1 ∧ EndsWithin k dev' ram' q' := by
  constructor
  · rintro ⟨turns, r, hr, hlen⟩
    cases turns with
    | zero => cases hr
    | succ turns =>
      rw [pumpLoop_frame hcap hpoll hinj] at hr
      obtain ⟨rest, hrest, rfl⟩ := map_eq_some_iff.1 hr
      rw [List.length_cons] at hlen
      exact ⟨n - 1, by omega, turns, rest, hrest, by omega⟩
  · rintro ⟨k, rfl, turns, rest, hrest, hlen⟩
    refine ⟨turns + 1, { rest with elems := e :: rest.elems }, ?_, Nat.succ_le_succ hlen⟩
    rw [pumpLoop_frame hcap hpoll hinj, hrest, map_some]

theorem supplies_succ {n : ℕ} {caps : ℕ → ℕ} (hpoll : pollRx dev (caps 0) = (dev', some data)) :
    Supplies (n + 1) dev caps ↔ Supplies n dev' fun k => caps (k + 1) := by
  rw [Supplies, hpoll]

/-- A device with few payloads ends the loop, whatever guest memory holds. -/
theorem endsWithin_of_scant {n : ℕ} (h : ∀ caps, ¬ Supplies (n + 1) dev caps) (ram : GuestRam)
    (q : Queue) : EndsWithin n dev ram q := by
  induction n generalizing dev ram q with
  | zero =>
    rcases pump_cases dev ram q with hcap | ⟨cap, dev', hcap, hpoll⟩ |
      ⟨cap, dev', data, ram', e, hcap, hpoll, hinj⟩
    · exact endsWithin_of_unposted hcap
    · exact endsWithin_of_silent hcap hpoll
    · have hsup : Supplies 1 dev fun _ => cap := (supplies_succ hpoll).2 trivial
      exact absurd hsup (h _)
  | succ n ih =>
    rcases pump_cases dev ram q with hcap | ⟨cap, dev', hcap, hpoll⟩ |
      ⟨cap, dev', data, ram', e, hcap, hpoll, hinj⟩
    · exact endsWithin_of_unposted hcap
    · exact endsWithin_of_silent hcap hpoll
    · refine (endsWithin_frame_iff hcap hpoll hinj).2 ⟨n, rfl, ih (fun caps hsup => ?_) _ _⟩
      exact h (fun k => k.casesOn cap caps) ((supplies_succ hpoll).2 hsup)

/-- A turn with the rings apart: the loop ends here and there is a reason for it, or it goes on
with one payload and one buffer less. -/
theorem Unaliased.turn (h : Unaliased ram q) (hact : q.active = true) (dev : σ) :
    (∀ n, EndsWithin n dev ram q ∧
      (ahead ram q ≤ n ∨ ¬ Supplies (n + 1) dev (capacityAt ram q))) ∨
    ∃ (dev' : σ) (ram' : GuestRam), Unaliased ram' q.advance ∧
      ahead ram' q.advance + 1 = ahead ram q ∧
      (∀ n, EndsWithin n dev ram q ↔ ∃ k, n = k + 1 ∧ EndsWithin k dev' ram' q.advance) ∧
      ∀ n, Supplies (n + 1) dev (capacityAt ram q) ↔
        Supplies n dev' (capacityAt ram' q.advance) := by
  rcases nextRxCapacity_cases hact h.lastAvail_lt with ⟨hcap, heq⟩ | ⟨hcap, hne⟩
  · refine .inl fun n => ⟨endsWithin_of_unposted hcap, .inl ?_⟩
    rw [ahead_eq_zero heq]
    exact Nat.zero_le _
  · rcases hpoll : pollRx dev (capacityAt ram q 0) with ⟨dev', _ | data⟩
    · refine .inl fun n => ⟨endsWithin_of_silent hcap hpoll, .inr ?_⟩
      rw [Supplies, hpoll]
      exact not_false
    · obtain ⟨ram', e, hinj⟩ := injectOne_of_capacity hcap data
      have hc := h.injectOne_changesOnly hinj
      refine .inr ⟨dev', ram', h.advance hc, h.ahead_advance hc hne,
        fun n => endsWithin_frame_iff hcap hpoll hinj, fun n => ?_⟩
      rw [supplies_succ hpoll, h.capacityAt_advance hc (num_ne_zero hact)]

/-- **With the rings apart** the loop ends in time exactly if the driver is not too far ahead, or
the device has not the payloads for it. -/
theorem endsWithin_iff {n : ℕ} (h : Unaliased ram q) (hact : q.active = true) :
    EndsWithin n dev ram q ↔
      ahead ram q ≤ n ∨ ¬ Supplies (n + 1) dev (capacityAt ram q) := by
  induction n generalizing dev ram q with
  | zero =>
    rcases h.turn hact dev with hend | ⟨dev', ram', -, hahead, hends, hsup⟩
    · exact iff_of_true (hend 0).1 (hend 0).2
    · rw [hends, hsup]
      refine iff_of_false (fun ⟨k, hk, _⟩ => absurd hk k.succ_ne_zero.symm) ?_
      rintro (hle | hno)
      · omega
      · exact hno trivial
  | succ n ih =>
    rcases h.turn hact dev with hend | ⟨dev', ram', hnext, hahead, hends, hsup⟩
    · exact iff_of_true (hend _).1 (hend _).2
    · rw [hends, hsup, ← hahead, Nat.succ_le_succ_iff, ← ih hnext hact]
      constructor
      · rintro ⟨k, hk, hk'⟩
        obtain rfl : n = k := by omega
        exact hk'
      · exact fun hn => ⟨n, rfl, hn⟩

end Loop

namespace VirtioMmio

/-- The size of the receive queue. -/
def rxSize (m : VirtioMmio σ) : ℕ := ((rxQueue m.dev).bind (m.queues[·]?)).elim 0 Queue.num

/-- A call of `pump_rx` returns, with at most as many frames as the receive queue is long besides
the one held over. -/
def PumpBounded (m : VirtioMmio σ) : Prop :=
  ∃ turns m' elems, m.pumpRx turns = some (m', elems) ∧
    elems.length ≤ m.rxSize + m.pendingRx.toList.length

/-- The device has no more payloads than the receive queue is long, whatever it is asked for. -/
def Scant (m : VirtioMmio σ) : Prop := ∀ caps, ¬ Supplies (m.rxSize + 1) m.dev caps

/-- The rings of the receive queue are apart from what a pump may write. -/
def RxUnaliased (m : VirtioMmio σ) : Prop :=
  ∀ ram rxq q, m.ram = some ram → rxQueue m.dev = some rxq → m.queues[rxq]? = some q →
    Unaliased ram q

/-- The driver is no more buffers ahead than the receive queue is long, besides the one for the
payload held over, or the device has not so many payloads for the buffers posted next. -/
def InTime (m : VirtioMmio σ) : Prop :=
  ∀ ram rxq q, m.ram = some ram → rxQueue m.dev = some rxq → m.queues[rxq]? = some q →
    q.active = true →
    let held := m.pendingRx.toList.length
    ahead ram q ≤ q.num + held ∨ ¬ Supplies (q.num + 1) m.dev fun k => capacityAt ram q (k + held)

section Pump

variable {m : VirtioMmio σ} {rxq : ℕ}

section Queue

variable {ram : GuestRam} {q : Queue} (hram : m.ram = some ram) (hrx : rxQueue m.dev = some rxq)
  (hq : m.queues[rxq]? = some q)

include hrx hq

theorem rxSize_eq : m.rxSize = q.num := by
  rw [rxSize, hrx, bind_some, hq]
  rfl

include hram

theorem pumpRx_fresh (turns : ℕ) (hpend : m.pendingRx = none) :
    m.pumpRx turns = (pumpLoop turns m.dev ram q).map (m.finishRx rxq []) := by
  simp only [pumpRx, hram, hrx, hq, hpend]

theorem pumpRx_held {ram' : GuestRam} {q' : Queue} {data : List UInt8} {e : UsedElem}
    (turns : ℕ) (hpend : m.pendingRx = some data)
    (hinj : injectOne ram q data = some (ram', q', e)) :
    m.pumpRx turns = (pumpLoop turns m.dev ram' q').map (m.finishRx rxq [e]) := by
  simp only [pumpRx, hram, hrx, hq, hpend, hinj]

/-- The condition of a call that does not come to the loop, or for which there is one queue. -/
theorem inTime_iff :
    m.InTime ↔ (q.active = true → ahead ram q ≤ q.num + m.pendingRx.toList.length ∨
      ¬ Supplies (q.num + 1) m.dev fun k => capacityAt ram q (k + m.pendingRx.toList.length)) := by
  constructor
  · exact fun h => h ram rxq q hram hrx hq
  · intro h ram₁ rxq₁ q₁ hram₁ hrx₁ hq₁
    cases hram.symm.trans hram₁
    cases hrx.symm.trans hrx₁
    cases hq.symm.trans hq₁
    exact h

end Queue

/-- The pump does not come to its loop. -/
def Idle (m : VirtioMmio σ) : Prop :=
  ∀ ram rxq q, m.ram = some ram → rxQueue m.dev = some rxq → m.queues[rxq]? = some q →
    ∃ data, m.pendingRx = some data ∧ injectOne ram q data = none

/-- A pump that begins no loop returns empty-handed. -/
theorem pumpRx_idle (h : m.Idle) (turns : ℕ) :
    ∃ m', m.pumpRx turns = some (m', []) := by
  unfold pumpRx
  split
  · rename_i ram rxq hram hrx
    split
    · exact ⟨_, rfl⟩
    · rename_i q hq hpend
      obtain ⟨data, hsome, -⟩ := h ram rxq q hram hrx hq
      rw [hpend] at hsome
      cases hsome
    · rename_i q data hq hpend
      obtain ⟨data', hsome, hinj⟩ := h ram rxq q hram hrx hq
      rw [hpend, some.injEq] at hsome
      rw [hsome, hinj]
      exact ⟨_, rfl⟩
  · exact ⟨_, rfl⟩

theorem pumpRx_mono {turns turns' : ℕ} {out : VirtioMmio σ × List UsedElem}
    (h : m.pumpRx turns = some out) (hle : turns ≤ turns') : m.pumpRx turns' = some out := by
  unfold pumpRx at h ⊢
  split at h
  · split at h
    · exact h
    · obtain ⟨r, hr, rfl⟩ := map_eq_some_iff.1 h
      rw [pumpLoop_mono hr hle, map_some]
    · split at h
      · exact h
      · obtain ⟨r, hr, rfl⟩ := map_eq_some_iff.1 h
        rw [pumpLoop_mono hr hle, map_some]
  · exact h

omit [VirtioDevice σ] in
/-- A loop that ends in time, seen from the call. -/
theorem bounded_map_iff {loop : ℕ → Option (Pumped σ)} {n : ℕ} (es : List UsedElem) :
    (∃ turns m' elems, (loop turns).map (m.finishRx rxq es) = some (m', elems) ∧
        elems.length ≤ n + es.length) ↔
      ∃ turns r, loop turns = some r ∧ r.elems.length ≤ n := by
  constructor
  · rintro ⟨turns, m', elems, h, hlen⟩
    obtain ⟨r, hr, hout⟩ := map_eq_some_iff.1 h
    refine ⟨turns, r, hr, ?_⟩
    cases hout
    rw [List.length_append] at hlen
    omega
  · rintro ⟨turns, r, hr, hlen⟩
    refine ⟨turns, _, _, by rw [hr, map_some], ?_⟩
    rw [finishRx, List.length_append]
    omega

/-- How a call goes: it does not come to the loop, or the loop begins with what is there, or
behind the payload held over. -/
theorem pumpBounded_cases (m : VirtioMmio σ) :
    (m.PumpBounded ∧ m.Idle) ∨
    ∃ ram rxq q, m.ram = some ram ∧ rxQueue m.dev = some rxq ∧ m.queues[rxq]? = some q ∧
      m.rxSize = q.num ∧
      ((m.pendingRx = none ∧ (m.PumpBounded ↔ EndsWithin q.num m.dev ram q)) ∨
        ∃ data ram' q' e, m.pendingRx = some data ∧ injectOne ram q data = some (ram', q', e) ∧
          (m.PumpBounded ↔ EndsWithin q.num m.dev ram' q')) := by
  by_cases hidle : m.Idle
  · obtain ⟨m', hm'⟩ := pumpRx_idle hidle 0
    exact .inl ⟨⟨0, m', [], hm', Nat.zero_le _⟩, hidle⟩
  · unfold Idle at hidle
    push Not at hidle
    obtain ⟨ram, rxq, q, hram, hrx, hq, hpend⟩ := hidle
    refine .inr ⟨ram, rxq, q, hram, hrx, hq, rxSize_eq hrx hq, ?_⟩
    unfold PumpBounded
    cases hp : m.pendingRx with
    | none =>
      refine .inl ⟨rfl, ?_⟩
      simp only [fun turns => pumpRx_fresh hram hrx hq turns hp, rxSize_eq hrx hq]
      exact bounded_map_iff []
    | some data =>
      cases hinj : injectOne ram q data with
      | none => exact absurd hinj (hpend data hp)
      | some out =>
        obtain ⟨ram', q', e⟩ := out
        refine .inr ⟨data, ram', q', e, rfl, hinj, ?_⟩
        simp only [fun turns => pumpRx_held hram hrx hq turns hp hinj, rxSize_eq hrx hq]
        exact bounded_map_iff [e]

end Pump

/-- Nothing is posted on a queue that is not live. -/
theorem endsWithin_of_not_active {n : ℕ} {dev : σ} {ram : GuestRam} {q : Queue}
    (hact : q.active = false) : EndsWithin n dev ram q := by
  refine endsWithin_of_unposted ?_
  rw [nextRxCapacity, hact]
  rfl

def claimedRam (claimed : UInt8) : GuestRam :=
  { base := 0
    len := 128
    host := fun g => if g = 0 then 64 else if g = 8 then 32 else if g = 12 then 2
      else if g = 18 then claimed else 0 }

def oneSlot : Queue := ⟨1, 1, 0, 16, 32, 0⟩

def flooded (claimed : UInt8) (frames : ℕ) : VirtioMmio NetDevice :=
  { VirtioMmio.new (NetDevice.new ⟨Vector.replicate 6 0, List.replicate frames (some []), false⟩
      none ⟨0, fun _ => 0⟩) with
    ram := some (claimedRam claimed)
    queues := [oneSlot, Queue.default] }

theorem unaliased_claimedRam : Unaliased (claimedRam 1) oneSlot where
  num_lt := by decide
  lastAvail_lt := by decide
  desc_fits := by decide
  avail_fits := by decide
  used_fits := by decide
  apart := by
    have hchain : collectChain (claimedRam 1) 0 0 1 = [⟨64, 32, true⟩] := by decide
    intro g hg
    have hlt : g < 22 := by
      rcases hg with ⟨-, hhi⟩ | ⟨-, hhi⟩
      · exact lt_trans hhi (by decide)
      · exact hhi
    rintro (⟨hlo, -⟩ | ⟨head, b, hb, -, hlo, -⟩)
    · exact absurd (show 32 ≤ g from hlo) (by omega)
    · cases head with
      | zero =>
        have hb : b ∈ collectChain (claimedRam 1) 0 0 1 := hb
        rw [hchain, List.mem_singleton] at hb
        subst hb
        exact absurd (show 64 ≤ g from hlo) (by omega)
      | succ head => exact absurd hb List.not_mem_nil

end VirtioMmio
end Amber
