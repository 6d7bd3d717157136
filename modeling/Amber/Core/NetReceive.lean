import Mathlib.Data.List.ReduceOption
import Amber.Lib.Conveyor
import Amber.Core.PumpBound
import Amber.Core.QueueRun
import Amber.Core.RxDelivery
import Amber.Core.VirtioSnapshot

/-!
# Every received frame, once and in order

A frame that the backend's `poll` returns passes two places where it may have to wait, each for one
frame: `pending_rx` of `NetDevice` while the receive cap is used up, and `pending_rx` of the
transport when there is no buffer to put it in.  Each is tried again before anything new is asked
for.

Here the guest posts buffers, writes registers and the run loop pumps, in any order, with any
answers of the backend and of the clock.  `RxSys` keeps, beside the transport, what the driver has
found behind each element of the receive queue's used ring.

* `pollRx_polled` — the device is a stage that keeps the order.
* `pumpRx_delivers` — so is the transport before it, and a call of `pump_rx` returns.
* `run_inOrder` — in every run the driver finds each frame once, after the header and in the order
  of the answers, and what is missing is in the two places.
* `frame_lost` — a payload of 2^32 bytes has no length in the used ring.
-/

namespace Amber

open GuestRam VirtioDevice List Function

namespace NetDevice

/-! ## The device -/

variable (dev : NetDevice)

theorem ram_handle (qidx : ℕ) (ram : GuestRam) (bufs : List Buf) :
    (dev.handle qidx ram bufs).2 = (ram, 0) := by
  unfold handle
  dsimp only
  split_ifs <;> rfl

instance : LawfulDevice NetDevice where
  chainOk := fun _ _ => True
  handle_frame := fun dev qidx ram bufs _ => by
    show ChangesOnly _ ram (dev.handle qidx ram bufs).2.1
    rw [ram_handle]
    exact ChangesOnly.refl _ ram
  handle_len := fun dev qidx ram bufs => by
    show (dev.handle qidx ram bufs).2.2 < 2 ^ 32
    rw [ram_handle]
    exact Nat.two_pow_pos 32

/-- A transmit leaves the receive side alone. -/
theorem handle_rx (qidx : ℕ) (ram : GuestRam) (bufs : List Buf) :
    (dev.handle qidx ram bufs).1.backend = dev.backend ∧
      (dev.handle qidx ram bufs).1.pendingRx = dev.pendingRx := by
  have hdebit : ∀ bytes, (dev.debitTx bytes).backend = dev.backend ∧
      (dev.debitTx bytes).pendingRx = dev.pendingRx := by
    intro bytes
    unfold debitTx
    split <;> exact ⟨rfl, rfl⟩
  unfold handle
  dsimp only
  split_ifs
  · exact hdebit _
  · exact ⟨rfl, rfl⟩
  · exact ⟨rfl, rfl⟩

@[simp] theorem length_withHeader (frame : List UInt8) :
    (withHeader frame).length = virtioNetHdrLen + frame.length := by
  simp [withHeader]

/-- The payload of the frame that waits for the receive cap. -/
def deferred (dev : NetDevice) : List (List UInt8) := (dev.pendingRx.map withHeader).toList

/-- The payloads of the frames among these answers. -/
def payloads (answers : List (Option (List UInt8))) : List (List UInt8) :=
  answers.reduceOption.map withHeader

theorem payloads_append (as bs : List (Option (List UInt8))) :
    payloads (as ++ bs) = payloads as ++ payloads bs := by
  rw [payloads, reduceOption_append, map_append]
  rfl

/-- From `dev` to `dev'` the backend has given `answers` and the device `outs`, nothing lost. -/
structure Polled (dev dev' : NetDevice) (answers : List (Option (List UInt8)))
    (outs : List (List UInt8)) : Prop where
  polls_eq : dev.backend.polls = answers ++ dev'.backend.polls
  carries : Conveyor.Carries dev.deferred (payloads answers) outs dev'.deferred

theorem Polled.refl : Polled dev dev [] [] := ⟨rfl, .refl _⟩

variable {dev : NetDevice}

theorem Polled.trans {dev' dev'' : NetDevice} {as bs : List (Option (List UInt8))}
    {outs outs' : List (List UInt8)} (h : Polled dev dev' as outs)
    (h' : Polled dev' dev'' bs outs') : Polled dev dev'' (as ++ bs) (outs ++ outs') where
  polls_eq := by rw [h.polls_eq, h'.polls_eq, append_assoc]
  carries := by
    rw [payloads_append]
    exact h.carries.trans h'.carries

/-- What the device is going to give out, given out in part. -/
theorem Polled.coming_eq {dev' : NetDevice} {answers : List (Option (List UInt8))}
    {outs : List (List UInt8)} (h : Polled dev dev' answers outs) :
    dev.deferred ++ payloads dev.backend.polls =
      outs ++ (dev'.deferred ++ payloads dev'.backend.polls) := by
  rw [h.polls_eq, payloads_append]
  exact h.carries.ahead _

/-- The frame to deliver next is the deferred one or comes with one more answer. -/
theorem nextRx_answers : ∃ answers,
    dev.backend.polls = answers ++ dev.nextRx.1.backend.polls ∧
    dev.deferred ++ payloads answers = (dev.nextRx.2.map withHeader).toList ∧
    dev.nextRx.1.pendingRx = none := by
  unfold nextRx deferred
  cases hpend : dev.pendingRx with
  | some frame => exact ⟨[], rfl, rfl, rfl⟩
  | none =>
    unfold NetBackend.poll
    cases hpolls : dev.backend.polls with
    | nil => exact ⟨[], by simp [hpolls], rfl, rfl⟩
    | cons answer rest =>
      refine ⟨[answer], rfl, ?_, rfl⟩
      cases answer <;> rfl

/-- What the receive cap does with a frame: it goes out, or it is deferred. -/
theorem pollRx_of_frame {frame : List UInt8} (hnext : dev.nextRx.2 = some frame)
    (hpend : dev.nextRx.1.pendingRx = none) (cap : ℕ) :
    (dev.pollRx cap).1.backend = dev.nextRx.1.backend ∧
      (dev.pollRx cap).2.toList ++ (dev.pollRx cap).1.deferred = [withHeader frame] := by
  unfold pollRx
  rcases hdev : dev.nextRx with ⟨d, f⟩
  rw [hdev] at hnext hpend
  subst hnext
  dsimp only
  cases hlim : d.rxLimit with
  | none =>
    rw [deferred, hpend]
    exact ⟨rfl, rfl⟩
  | some l =>
    dsimp only
    split_ifs
    · rw [hpend]
      exact ⟨rfl, rfl⟩
    · exact ⟨rfl, rfl⟩

/-- **The device keeps the order**: a poll gives the deferred frame before a new one. -/
theorem pollRx_polled (cap : ℕ) :
    ∃ answers, Polled dev (dev.pollRx cap).1 answers (dev.pollRx cap).2.toList := by
  obtain ⟨answers, hpolls, hpay, hpend⟩ := dev.nextRx_answers
  refine ⟨answers, ?_⟩
  cases hnext : dev.nextRx.2 with
  | none =>
    have hpoll : dev.pollRx cap = (dev.nextRx.1, none) := by
      unfold pollRx
      rcases hdev : dev.nextRx with ⟨d, f⟩
      rw [hdev] at hnext
      dsimp only at hnext
      rw [hnext]
    rw [hpoll]
    refine ⟨hpolls, ?_⟩
    rw [Conveyor.Carries, hpay, hnext, deferred, hpend]
    rfl
  | some frame =>
    obtain ⟨hback, hout⟩ := pollRx_of_frame hnext hpend cap
    refine ⟨by rw [hback]; exact hpolls, ?_⟩
    rw [Conveyor.Carries, hpay, hnext, hout]
    rfl

end NetDevice

open NetDevice

/-! ## The transport -/

/-- The payloads that wait, the transport's first. -/
def waiting (m : VirtioMmio NetDevice) : List (List UInt8) := m.pendingRx.toList ++ m.dev.deferred

/-- From `m` to `m'` the backend has given `answers` and the driver has got `outs`, nothing lost. -/
structure Passed (m m' : VirtioMmio NetDevice) (answers : List (Option (List UInt8)))
    (outs : List (List UInt8)) : Prop where
  polls_eq : m.dev.backend.polls = answers ++ m'.dev.backend.polls
  carries : Conveyor.Carries (waiting m) (payloads answers) outs (waiting m')

/-- The payloads that wait and those that the backend is going to answer. -/
def coming (m : VirtioMmio NetDevice) : List (List UInt8) :=
  waiting m ++ payloads m.dev.backend.polls

section Passed

variable {m m' m'' : VirtioMmio NetDevice} {as bs : List (Option (List UInt8))}
  {outs outs' : List (List UInt8)}

/-- What keeps the device's frames and the transport's passes nothing. -/
theorem Passed.of_eq (hback : m'.dev.backend = m.dev.backend)
    (hdev : m'.dev.pendingRx = m.dev.pendingRx) (hheld : m'.pendingRx = m.pendingRx) :
    Passed m m' [] [] := by
  refine ⟨by rw [hback]; rfl, ?_⟩
  rw [waiting, waiting, hheld, deferred, deferred, hdev]
  exact .refl _

theorem Passed.trans (h : Passed m m' as outs) (h' : Passed m' m'' bs outs') :
    Passed m m'' (as ++ bs) (outs ++ outs') where
  polls_eq := by rw [h.polls_eq, h'.polls_eq, append_assoc]
  carries := by
    rw [payloads_append]
    exact h.carries.trans h'.carries

/-- The two places in series: what the device gives out is what the transport takes in. -/
theorem Passed.of_polled {mid : List (List UInt8)} (h : Polled m.dev m'.dev as mid)
    (hfront : Conveyor.Carries m.pendingRx.toList mid outs m'.pendingRx.toList) :
    Passed m m' as outs :=
  ⟨h.polls_eq, hfront.series h.carries⟩

theorem Passed.coming_eq (h : Passed m m' as outs) : coming m = outs ++ coming m' := by
  rw [coming, coming, h.polls_eq, payloads_append]
  exact h.carries.ahead _

/-- A notify of the receive queue does nothing. -/
theorem process_rx (m : VirtioMmio NetDevice) : m.process rx = (m, []) := by
  unfold VirtioMmio.process
  split
  · exact if_pos (.inl rfl)
  · rfl

theorem process_passed (m : VirtioMmio NetDevice) (i : ℕ) : Passed m (m.process i).1 [] [] := by
  obtain heq | ⟨ram, q, -, -, heq⟩ := m.process_cases i
  · rw [heq]
    exact .of_eq rfl rfl rfl
  · have hkept : ∀ (dev : NetDevice) ram bufs,
        dev.backend = m.dev.backend ∧ dev.pendingRx = m.dev.pendingRx →
        (dev.handle i ram bufs).1.backend = m.dev.backend ∧
          (dev.handle i ram bufs).1.pendingRx = m.dev.pendingRx := by
      intro dev ram bufs hdev
      obtain ⟨hback, hpend⟩ := dev.handle_rx i ram bufs
      exact ⟨hback.trans hdev.1, hpend.trans hdev.2⟩
    obtain ⟨hback, hpend⟩ := processLoop_keeps (P := fun dev : NetDevice =>
      dev.backend = m.dev.backend ∧ dev.pendingRx = m.dev.pendingRx) hkept
      (ram.readU16 (wadd q.avail 2)) q.qsz ram q ⟨rfl, rfl⟩
    rw [heq]
    exact .of_eq hback hpend rfl

theorem write_passed (m : VirtioMmio NetDevice) (offset value : ℕ) :
    Passed m (m.write offset value) [] [] := by
  refine m.write_rule (P := fun m' => Passed m m' [] []) offset value
    (fun _ _ _ => .of_eq rfl rfl rfl) (fun _ _ => .of_eq rfl rfl rfl) (process_passed m) ?_
    (.of_eq rfl rfl rfl)
  rintro irq dev (rfl | rfl)
  · exact .of_eq rfl rfl rfl
  · exact .of_eq rfl rfl rfl

end Passed

/-! ## One pump -/

/-- What is required of the chains: those of the receive queue take a header and `N` bytes. -/
def receivable (N i : ℕ) (bufs : List Buf) : Prop :=
  i = rx → Receives (virtioNetHdrLen + N) bufs

section Pump

variable {N : ℕ} {posted : ℕ → List ℕ} {dev : NetDevice} {q : Queue} {data : List UInt8}

variable {ram : GuestRam} {served : ℕ → List UsedElem} {m : VirtioMmio NetDevice}
  {r : Pumped NetDevice} {queues : List Queue}

/-- A payload that is not too long for the used ring is found whole. -/
theorem latest_eq (hN : virtioNetHdrLen + N < 2 ^ 32) {ram' : GuestRam} {q' : Queue} {e : UsedElem}
    (h : RingInv (receivable N) ram queues posted served) (hi : queues[rx]? = some q)
    (hdata : data.length ≤ virtioNetHdrLen + N) (hinj : injectOne ram q data = some (ram', q', e)) :
    latest ram' q' = data := by
  rw [latest_injectOne h hi (fun bufs hbufs => hbufs rfl) hdata hinj,
    Nat.mod_eq_of_lt (hdata.trans_lt hN), take_length]

/-- **The receive loop keeps the order**: the driver finds what the device gives out. -/
theorem pumpLoop_delivers (hN : virtioNetHdrLen + N < 2 ^ 32) {turns : ℕ}
    (h : RingInv (receivable N) ram queues posted served) (hi : queues[rx]? = some q)
    (hfits : ∀ p ∈ dev.deferred ++ payloads dev.backend.polls, p.length ≤ virtioNetHdrLen + N)
    (hr : pumpLoop turns dev ram q = some r) :
    ∃ answers, Polled dev r.dev answers ((pumpFills turns dev ram q).map Fill.found) := by
  refine pumpLoop_rule (motive := fun turns dev ram q r => ∀ queues served,
    RingInv (receivable N) ram queues posted served → queues[rx]? = some q →
    (∀ p ∈ dev.deferred ++ payloads dev.backend.polls, p.length ≤ virtioNetHdrLen + N) →
    ∃ answers, Polled dev r.dev answers ((pumpFills turns dev ram q).map Fill.found))
    ?_ ?_ ?_ hr queues served h hi hfits
  · intro turns dev ram q hcap queues served _ _ _
    rw [pumpFills_unposted hcap]
    exact ⟨[], .refl dev⟩
  · intro turns cap dev dev' ram q hcap hpoll queues served _ _ _
    have hpolled := dev.pollRx_polled cap
    rw [show dev.pollRx cap = (dev', none) from hpoll] at hpolled
    rw [pumpFills_silent hcap hpoll]
    exact hpolled
  · intro turns cap dev dev' data ram ram' q e rest hcap hpoll hinj ih queues served h hi hfits
    obtain ⟨answers, hpolled⟩ := dev.pollRx_polled cap
    rw [show dev.pollRx cap = (dev', some data) from hpoll] at hpolled
    rw [hpolled.coming_eq, Option.toList_some, singleton_append, forall_mem_cons]
      at hfits
    have hnext := h.completion hi (injectOne_completion _ hinj)
    have hlt := (List.getElem?_eq_some_iff.1 hi).1
    obtain ⟨more, hmore⟩ := ih _ _ hnext (getElem?_set_self hlt) hfits.2
    rw [pumpFills_frame hcap hpoll hinj, map_cons, Fill.found, latest_eq hN h hi hfits.1 hinj]
    exact ⟨answers ++ more, hpolled.trans hmore⟩

/-- What a pump leaves: the ring invariant with the elements it published counted, a payload for
each of them, and nothing lost. -/
structure Delivers (N : ℕ) (posted : ℕ → List ℕ) (served : ℕ → List UsedElem)
    (m m' : VirtioMmio NetDevice) (es : List UsedElem) (answers : List (Option (List UInt8)))
    (outs : List (List UInt8)) : Prop where
  ring : ∃ ram, m'.ram = some ram ∧ RingInv (receivable N) ram m'.queues posted
    (Function.update served rx (served rx ++ es))
  queues : m'.queues.length = m.queues.length
  passed : Passed m m' answers outs
  counted : outs.length = es.length

/-- The receive loop after the elements `es` had been published before it: what waited in the
transport is out. -/
theorem finishRx_delivers {ram₁ : GuestRam} {q₁ : Queue} {es : List UsedElem}
    {answers : List (Option (List UInt8))}
    (h : RingInv (receivable N) ram m.queues posted served) (hi : m.queues[rx]? = some q)
    (c : Completions (receivable N rx) ram q es ram₁ q₁)
    (hr : pumpLoop pumpTurns m.dev ram₁ q₁ = some r)
    (hpolled : Polled m.dev r.dev answers ((pumpFills pumpTurns m.dev ram₁ q₁).map Fill.found))
    (hheld : m.pendingRx.toList.length = es.length) :
    Delivers N posted served m (m.finishRx rx es r).1 (m.finishRx rx es r).2 answers
      (m.pendingRx.toList ++ (pumpFills pumpTurns m.dev ram₁ q₁).map Fill.found) where
  ring := ⟨r.ram, rfl, QueueSys.finishRx_ringInv h hi c hr⟩
  queues := length_set
  passed := by
    refine Passed.of_polled hpolled ?_
    show Conveyor.Carries _ _ _ r.pending.toList
    rw [pumpLoop_pending hr]
    exact (append_nil _).symm
  counted := by
    show _ = (es ++ r.elems).length
    rw [length_append, length_append, hheld, length_map, (pumpLoop_filled hr).length_eq]

/-- **A call of `pump_rx` returns and keeps the order**, with and without a payload that was held
back. -/
theorem pumpRx_delivers (hN : virtioNetHdrLen + N < 2 ^ 32) (hram : m.ram = some ram)
    (h : RingInv (receivable N) ram m.queues posted served) (hrx : rx < m.queues.length)
    (hfits : ∀ p ∈ coming m, p.length ≤ virtioNetHdrLen + N) :
    ∃ m' es answers, m.pumpRx pumpTurns = some (m', es) ∧
      Delivers N posted served m m' es answers (m.rxPayloads pumpTurns) := by
  obtain ⟨q, hi⟩ : ∃ q, m.queues[rx]? = some q := ⟨_, getElem?_eq_getElem hrx⟩
  have hrxq : rxQueue m.dev = some rx := rfl
  rw [coming, waiting, append_assoc] at hfits
  obtain ⟨hdata, hlater⟩ := forall_mem_append.1 hfits
  cases hheld : m.pendingRx with
  | none =>
    obtain ⟨r, hr⟩ := QueueSys.pumpLoop_finishes m.dev h hi
    obtain ⟨answers, hpolled⟩ := pumpLoop_delivers hN h hi hlater hr
    have hd := finishRx_delivers h hi (.nil ram q) hr hpolled (by rw [hheld]; rfl)
    have hout : m.rxFills pumpTurns = pumpFills pumpTurns m.dev ram q := by
      simp only [VirtioMmio.rxFills, hram, hrxq, hi, hheld]
    rw [hheld] at hd
    rw [VirtioMmio.rxPayloads, hout]
    refine ⟨_, _, answers, ?_, hd⟩
    rw [VirtioMmio.pumpRx_fresh hram hrxq hi pumpTurns hheld, hr]
    rfl
  | some data =>
    cases hinj : injectOne ram q data with
    | none =>
      have hout : m.rxFills pumpTurns = [] := by
        simp only [VirtioMmio.rxFills, hram, hrxq, hi, hheld, hinj]
      rw [VirtioMmio.rxPayloads, hout]
      refine ⟨m, [], [], ?_, ⟨ram, hram, ?_⟩, rfl, .of_eq rfl rfl rfl, rfl⟩
      · simp only [VirtioMmio.pumpRx, hram, hrxq, hi, hheld, hinj]
      · rw [QueueSys.update_append_nil]
        exact h
    | some out =>
      obtain ⟨ram₁, q₁, e⟩ := out
      have c := injectOne_completion (receivable N rx) hinj
      have h₁ := h.completion hi c
      have hi₁ := getElem?_set_self (a := q₁) hrx
      obtain ⟨r, hr⟩ := QueueSys.pumpLoop_finishes m.dev h₁ hi₁
      obtain ⟨answers, hpolled⟩ := pumpLoop_delivers hN h₁ hi₁ hlater hr
      have hd := finishRx_delivers h hi (.cons c (.nil ram₁ q₁)) hr hpolled
        (by rw [hheld]; rfl)
      rw [hheld] at hdata hd
      have hfound := latest_eq hN h hi (hdata data (mem_singleton_self data)) hinj
      have hout : m.rxFills pumpTurns =
          ⟨ram, data, ram₁, q₁⟩ :: pumpFills pumpTurns m.dev ram₁ q₁ := by
        simp only [VirtioMmio.rxFills, hram, hrxq, hi, hheld, hinj]
      rw [VirtioMmio.rxPayloads, hout, map_cons, Fill.found, hfound]
      refine ⟨_, _, answers, ?_, hd⟩
      rw [VirtioMmio.pumpRx_held hram hrxq hi pumpTurns hheld hinj, hr]
      rfl

end Pump

/-! ## Runs -/

/-- A virtio-net transport, with what the driver has found behind each element of the receive
queue, as soon as it was published. -/
structure RxSys where
  sys : QueueSys NetDevice
  found : List (List UInt8)

namespace RxSys

open QueueSys (wideQueue wideRam wideBuf wideQueue_only chain_wideRam widePost)

/-- What the driver finds in the course of a step. -/
def finds (s : RxSys) : QueueStep → List (List UInt8)
  | .pumpRx => s.sys.mmio.rxPayloads pumpTurns
  | .guest _ _ => []
  | .write _ _ => []

def step (s : RxSys) (a : QueueStep) : RxSys := ⟨s.sys.step a, s.found ++ s.finds a⟩

/-- What is required of the driver: to keep to the virtio contract, and to post on the receive
queue chains whose writable buffers are apart and take a header and a frame of `N` bytes. -/
def Legal (N : ℕ) (s : RxSys) (a : QueueStep) : Prop :=
  s.sys.Legal a ∧
    match a with
    | .guest ram posted => ∀ q, s.sys.mmio.queues[rx]? = some q → q.active = true →
      ∀ k (hk : k < (posted rx).length), (s.sys.served rx).length ≤ k →
        Receives (virtioNetHdrLen + N) (collectChain ram q.desc (posted rx)[k] q.num)
    | .write _ _ => True
    | .pumpRx => True

/-- A transport right after set-up, where no frame is longer than `N` bytes.  A payload may have
been left in either of the two places. -/
structure Ready (N : ℕ) (s : RxSys) : Prop where
  fresh : s.sys.Fresh
  rx_lt : rx < s.sys.mmio.queues.length
  found : s.found = []
  fits : ∀ p ∈ coming s.sys.mmio, p.length ≤ virtioNetHdrLen + N

/-- What the driver has found, in a run that began in `s₀`. -/
structure InOrder (s₀ s : RxSys) : Prop where
  /-- There is one payload for each element that was published. -/
  counted : s.found.length = (s.sys.served rx).length
  /-- What waited at first and the frames that the backend has answered with are, in this order
  and each after a header, what the driver has found and what waits now. -/
  carried : ∃ answers, Passed s₀.sys.mmio s.sys.mmio answers s.found
  /-- The next pump returns. -/
  returns : (s.sys.mmio.pumpRx pumpTurns).isSome = true

/-- The state invariant of a run. -/
structure Inv (N : ℕ) (s₀ s : RxSys) : Prop where
  ring : ∃ ram, s.sys.mmio.ram = some ram ∧
    RingInv (receivable N) ram s.sys.mmio.queues s.sys.posted s.sys.served
  rx_lt : rx < s.sys.mmio.queues.length
  fits : ∀ p ∈ coming s.sys.mmio, p.length ≤ virtioNetHdrLen + N
  counted : s.found.length = (s.sys.served rx).length
  carried : ∃ answers, Passed s₀.sys.mmio s.sys.mmio answers s.found

section Steps

variable {N : ℕ} {s₀ s : RxSys}

theorem Ready.inv (h : s.Ready N) : Inv N s s where
  ring := h.fresh.ringInv _
  rx_lt := h.rx_lt
  fits := h.fits
  counted := by rw [h.found, h.fresh.served]; rfl
  carried := ⟨[], by rw [h.found]; exact .of_eq rfl rfl rfl⟩

/-- What the driver finds in a step is what the step passes on. -/
theorem Inv.next (h : Inv N s₀ s) {a : QueueStep} {answers : List (Option (List UInt8))}
    (hring : ∃ ram, (s.sys.step a).mmio.ram = some ram ∧
      RingInv (receivable N) ram (s.sys.step a).mmio.queues (s.sys.step a).posted
        (s.sys.step a).served)
    (hqueues : (s.sys.step a).mmio.queues.length = s.sys.mmio.queues.length)
    (hpassed : Passed s.sys.mmio (s.sys.step a).mmio answers (s.finds a))
    (hcounted : ((s.sys.step a).served rx).length =
      (s.sys.served rx).length + (s.finds a).length) : Inv N s₀ (s.step a) := by
  obtain ⟨before, hbefore⟩ := h.carried
  refine ⟨hring, hqueues ▸ h.rx_lt, ?_, ?_, before ++ answers, hbefore.trans hpassed⟩
  · intro p hp
    refine h.fits p ?_
    rw [hpassed.coming_eq]
    exact mem_append_right _ hp
  · show (s.found ++ s.finds a).length = _
    rw [length_append, h.counted]
    exact hcounted.symm

theorem Inv.guest (h : Inv N s₀ s) {ram : GuestRam} {posted : ℕ → List ℕ}
    (hl : s.Legal N (.guest ram posted)) : Inv N s₀ (s.step (.guest ram posted)) := by
  obtain ⟨ram₀, hram₀, hring⟩ := h.ring
  obtain ⟨⟨⟨ram₁, hram₁, hc⟩, hext, hdrv⟩, hrx⟩ := hl
  obtain rfl : ram₀ = ram₁ := Option.some.inj (hram₀.symm.trans hram₁)
  refine h.next ⟨ram, rfl, QueueSys.ringInv_guest hring hc hext ?_⟩ rfl (.of_eq rfl rfl rfl) rfl
  intro i q hi hact
  have hd := hdrv i q hi hact
  refine { hd with chains := fun k hk hn => ⟨?_, (hd.chains k hk hn).2⟩ }
  rintro rfl
  exact hrx q hi hact k hk hn

theorem Inv.write (h : Inv N s₀ s) {offset value : ℕ} (hl : s.Legal N (.write offset value)) :
    Inv N s₀ (s.step (.write offset value)) := by
  obtain ⟨ram, hram, hring⟩ := h.ring
  by_cases hn : offset = regQueueNotify
  · subst hn
    refine h.next ?_ ?_ (process_passed s.sys.mmio (value % 2 ^ 32)) ?_
    · exact QueueSys.process_ringInv (fun _ _ _ => trivial) hram hring (value % 2 ^ 32)
    · exact s.sys.mmio.queues_process _
    · show (update s.sys.served (value % 2 ^ 32)
        (s.sys.served (value % 2 ^ 32) ++ (s.sys.mmio.process (value % 2 ^ 32)).2) rx).length = _
      by_cases hrx : rx = value % 2 ^ 32
      · rw [← hrx, process_rx, QueueSys.update_append_nil]
        rfl
      · rw [update_of_ne hrx]
        rfl
  · obtain ⟨hsame, hqueues, -⟩ := QueueSys.write_quiet (m := s.sys.mmio) hn hl.1
    have hstep : (s.sys.step (.write offset value)).mmio = s.sys.mmio.write offset value ∧
        (s.sys.step (.write offset value)).posted = s.sys.posted ∧
        (s.sys.step (.write offset value)).served = s.sys.served := by
      simp only [QueueSys.step, if_neg hn]
      split_ifs <;> exact ⟨rfl, rfl, rfl⟩
    obtain ⟨hmmio, hposted, hserved⟩ := hstep
    have hpassed : Passed s.sys.mmio (s.sys.step (.write offset value)).mmio [] [] := by
      rw [hmmio]
      exact write_passed s.sys.mmio offset value
    refine h.next ?_ ?_ hpassed ?_
    · rw [hmmio, hposted, hserved, hsame, hqueues]
      exact ⟨ram, hram, hring⟩
    · rw [hmmio, hqueues]
    · rw [hserved]
      rfl

variable (hN : virtioNetHdrLen + N < 2 ^ 32)

include hN

theorem Inv.pumpRx (h : Inv N s₀ s) :
    Inv N s₀ (s.step .pumpRx) := by
  obtain ⟨ram, hram, hring⟩ := h.ring
  obtain ⟨m', es, answers, hpump, hd⟩ := pumpRx_delivers hN hram hring h.rx_lt h.fits
  have hstep : s.sys.step .pumpRx =
      ({ s.sys with mmio := m' } : QueueSys NetDevice).publish rx es := by
    unfold QueueSys.step
    rw [hpump]
    rfl
  have hpassed : Passed s.sys.mmio (s.sys.step .pumpRx).mmio answers (s.finds .pumpRx) := by
    rw [hstep]
    exact hd.passed
  refine h.next ?_ ?_ hpassed ?_
  all_goals rw [hstep]
  · exact hd.ring
  · exact hd.queues
  · show (update s.sys.served rx (s.sys.served rx ++ es) rx).length = _
    rw [update_self, length_append, ← hd.counted]
    rfl

theorem Inv.step (s : RxSys) (a : QueueStep) (h : Inv N s₀ s) (hl : s.Legal N a) :
    Inv N s₀ (s.step a) := by
  cases a with
  | guest ram posted => exact h.guest hl
  | write offset value => exact h.write hl
  | pumpRx => exact h.pumpRx hN

theorem Inv.inOrder (h : Inv N s₀ s) : InOrder s₀ s := by
  obtain ⟨ram, hram, hring⟩ := h.ring
  obtain ⟨m', es, -, hpump, -⟩ := pumpRx_delivers hN hram hring h.rx_lt h.fits
  exact ⟨h.counted, h.carried, by rw [hpump]; rfl⟩

end Steps

/-- **Received frames are delivered exactly once and in order**, in every run of pumps, posts and
register writes, whatever the backend answers and the clock allows, as long as the length of a
payload fits in the used ring. -/
theorem run_inOrder (N : ℕ) (hN : virtioNetHdrLen + N < 2 ^ 32) (s : RxSys) (hs : s.Ready N)
    (l : List QueueStep) (hl : Runs.Each step (Legal N) s l) :
    InOrder s (Runs.run step s l) :=
  (Runs.invariant (Inv.step hN) hs.inv hl).inOrder hN

/-! The receive queue is the one of `QueueSys.wideSys`. -/

section Wide

variable {index : ℕ}

theorem filter_wideRam :
    (collectChain (wideRam index) wideQueue.desc 0 wideQueue.num).filter (·.writable) =
      (List.range' 0 256).map wideBuf := by
  rw [chain_wideRam, filter_eq_self]
  intro b hb
  obtain ⟨i, -, rfl⟩ := mem_map.1 hb
  rfl

theorem room_wideBuf : room ((List.range' 0 256).map wideBuf) = 2 ^ 32 := by
  have hlens : ((range' 0 256).map wideBuf).map (·.len) = replicate 256 (2 ^ 24) := by
    rw [map_map]
    exact map_const'.trans (by rw [length_range']; rfl)
  rw [room, hlens, sum_replicate_nat]
  decide

/-- The chain takes `2^32` bytes, and no more. -/
theorem receives_wideRam :
    Receives (2 ^ 32) (collectChain (wideRam index) wideQueue.desc 0 wideQueue.num) := by
  rw [Receives, filter_wideRam, room_wideBuf]
  refine ⟨pairwise_map.2 ?_, le_rfl⟩
  have hlt : (range' 0 256).Pairwise (· < ·) := pairwise_lt_range'
  refine hlt.imp ?_
  intro i j hij g hlo hhi hin
  simp only [wideBuf] at hlo hhi hin
  omega

end Wide

/-- The queue before anything is posted, with a backend that has these answers and a payload that
was held back. -/
def wideSys (polls : List (Option (List UInt8))) (held : Option (List UInt8)) : RxSys :=
  ⟨QueueSys.wideSys (NetDevice.new ⟨Vector.replicate 6 0, polls, false⟩ none ⟨0, fun _ => 0⟩) held,
    []⟩

section Wide

variable {N : ℕ} {polls : List (Option (List UInt8))} {held : Option (List UInt8)}

theorem wideSys_ready
    (hfits : ∀ p ∈ held.toList ++ payloads polls, p.length ≤ virtioNetHdrLen + N) :
    (wideSys polls held).Ready N where
  fresh := QueueSys.wideSys_fresh _ held
  rx_lt := Nat.two_pos
  found := rfl
  fits := by
    have hcoming : coming (wideSys polls held).sys.mmio = held.toList ++ [] ++ payloads polls := rfl
    rw [hcoming, append_nil]
    exact hfits

theorem widePost_receives (hN : virtioNetHdrLen + N ≤ 2 ^ 32) :
    (wideSys polls held).Legal N widePost := by
  refine ⟨QueueSys.widePost_legal _ held trivial, ?_⟩
  intro q hi hact k hk _
  obtain ⟨-, rfl⟩ := wideQueue_only hi hact
  obtain rfl : k = 0 := Nat.lt_one_iff.1 hk
  exact ⟨receives_wideRam.1, hN.trans receives_wideRam.2⟩

/-- Nothing waits and the backend has one frame. -/
theorem oneFrame_ready {frame : List UInt8} (hframe : frame.length ≤ N) :
    (wideSys [some frame] none).Ready N := by
  refine wideSys_ready ?_
  intro p hp
  obtain rfl : p = withHeader frame := mem_singleton.1 hp
  rw [length_withHeader]
  exact Nat.add_le_add_left hframe _

/-- What the driver then finds first. -/
theorem oneFrame_found {frame : List UInt8} (hfits : virtioNetHdrLen + frame.length ≤ 2 ^ 32) :
    (Runs.run step (wideSys [some frame] none) [widePost, .pumpRx]).found.head? =
      some ((withHeader frame).take ((virtioNetHdrLen + frame.length) % 2 ^ 32)) := by
  obtain ⟨ram, hram, hring⟩ := ((oneFrame_ready le_rfl).inv.guest (widePost_receives hfits)).ring
  cases hram
  obtain ⟨cap, hcap⟩ : ∃ cap, nextRxCapacity (wideRam 1) wideQueue = some cap := by
    rw [nextRxCapacity, if_neg (by decide), if_neg (by decide)]
    exact ⟨_, rfl⟩
  obtain ⟨ram', e, hinj⟩ := injectOne_of_capacity hcap (withHeader frame)
  have hfound := latest_injectOne (i := rx) hring rfl (fun bufs hbufs => hbufs rfl)
    (length_withHeader frame).le hinj
  rw [length_withHeader] at hfound
  obtain ⟨dev', hpoll⟩ : ∃ dev', VirtioDevice.pollRx (wideSys [some frame] none).sys.mmio.dev cap =
      (dev', some (withHeader frame)) := ⟨_, rfl⟩
  have hrun : (Runs.run step (wideSys [some frame] none) [widePost, .pumpRx]).found =
      (pumpFills (65535 + 1) (wideSys [some frame] none).sys.mmio.dev (wideRam 1) wideQueue).map
        Fill.found := rfl
  rw [hrun, pumpFills_frame hcap hpoll hinj, map_cons, head?_cons, Fill.found, hfound]

end Wide

/-- What the driver finds is never empty. -/
theorem InOrder.ne_nil {s₀ s : RxSys} (h : InOrder s₀ s) (hnone : waiting s₀.sys.mmio = []) :
    s.found.head? ≠ some [] := by
  intro hhead
  obtain ⟨answers, hpassed⟩ := h.carried
  have hall := hpassed.carries
  rw [Conveyor.Carries, hnone, nil_append] at hall
  have hin := mem_append_left (waiting s.sys.mmio) (mem_of_mem_head? hhead)
  rw [← hall, payloads] at hin
  obtain ⟨frame, -, hframe⟩ := mem_map.1 hin
  have hzero := congrArg length hframe
  rw [length_withHeader, virtioNetHdrLen, length_nil] at hzero
  omega

/-- A payload that was held back and a frame, with a buffer for one of them. -/
theorem run_inOrder_wide :
    let s := wideSys [none, some [1, 2, 3]] (some (withHeader [4]))
    s.Ready 3 ∧ Runs.Each step (Legal 3) s [widePost, .pumpRx] ∧
      InOrder s (Runs.run step s [widePost, .pumpRx]) := by
  intro s
  have hready : s.Ready 3 := wideSys_ready (by decide)
  have hlegal : Runs.Each step (Legal 3) s [widePost, .pumpRx] :=
    ⟨widePost_receives (by decide), ⟨trivial, trivial⟩, trivial⟩
  exact ⟨hready, hlegal, run_inOrder 3 (by decide) s hready _ hlegal⟩

theorem lost_of_length {N : ℕ} {frame : List UInt8} (hN : virtioNetHdrLen + N = 2 ^ 32)
    (hframe : frame.length = N) :
    (wideSys [some frame] none).Ready N ∧
      Runs.Each step (Legal N) (wideSys [some frame] none) [widePost, .pumpRx] ∧
      (Runs.run step (wideSys [some frame] none) [widePost, .pumpRx]).found.head? = some [] ∧
      ¬ InOrder (wideSys [some frame] none)
        (Runs.run step (wideSys [some frame] none) [widePost, .pumpRx]) := by
  subst hframe
  have hhead := oneFrame_found hN.le
  rw [hN, Nat.mod_self, take_zero] at hhead
  exact ⟨oneFrame_ready le_rfl, ⟨widePost_receives hN.le, ⟨trivial, trivial⟩, trivial⟩, hhead,
    fun h => h.ne_nil rfl hhead⟩

/-- **A frame of `2^32 - 12` bytes is lost**: it is written to the buffers whole, and the used
ring says that they hold nothing. -/
theorem frame_lost :
    let N := 2 ^ 32 - virtioNetHdrLen
    let s := wideSys [some (replicate N 0)] none
    s.Ready N ∧ Runs.Each step (Legal N) s [widePost, .pumpRx] ∧
      (Runs.run step s [widePost, .pumpRx]).found.head? = some [] ∧
      ¬ InOrder s (Runs.run step s [widePost, .pumpRx]) :=
  lost_of_length rfl length_replicate

end RxSys

end Amber
