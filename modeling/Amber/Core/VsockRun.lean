import Amber.Lib.Runs
import Amber.Lib.WrapCounter
import Amber.Core.VsockTrack

/-!
# Runs of the vsock device, seen from one connection

Guest packets, pumps, deliveries from the receive queue and receptions by the guest in any
order, with the books kept on connection number `k`: what the guest has sent on it, whether it
kept to its window, what it has reported and what it has been told.

`Legal` is what every run obeys: the host hands out descriptors that are not open, and no
REQUEST opens a second connection over the ports of connection `k`.  Under it the device
invariant holds in every state (`step_base`), and `holds_transmit` says what is left to show of
a property of one connection when the guest transmits.

The stream from the guest to the host can have a hole: `stream_skips_refused`, in which the
device accepts a payload after it has refused one.
-/

namespace Amber.Vsock

open VsockDevice WrapCounter List Runs

/-- The books on one connection. -/
structure Ledger where
  /-- The RW payloads the guest has sent on it. -/
  sent : List UInt8
  /-- One of them went beyond the window as the guest counts it, or was in a packet longer than
  `maxPacket`. -/
  strayed : Bool
  /-- The bytes the guest has consumed, as of its last report. -/
  consumed : ℕ
  /-- The `buf_alloc` the guest last advertised. -/
  advertised : ℕ

def Ledger.blank : Ledger := ⟨[], false, 0, 0⟩

structure VsockSys where
  dev : VsockDevice
  ledger : Ledger
  /-- How many of the packets queued so far the guest has received. -/
  received : ℕ

/-- What can happen: the guest transmits a packet, having consumed so many bytes of the
connection; the host side is pumped; a packet leaves the receive queue; the guest receives
the next one. -/
inductive VsockStep
  | transmit (pkt : List UInt8) (dial : Option ℕ) (consumed : ℕ)
  | pump (maxPayload : ℕ) (peers : List (ℕ × ℕ)) (io : ℕ → ConnIo)
  | deliver
  | receive

/-- The device reassembles a packet of this length. -/
def seen (pkt : List UInt8) : Bool := decide (pkt.length ≤ maxPacket)

/-- The `fwd_cnt` the last of the packets carries. -/
def lastFwdCnt (ps : List Packet) : ℕ := (ps.getLast?.map (·.fwdCnt)).getD 0

/-- With this payload the guest has at most `bufAlloc` bytes beyond the `fwd_cnt` of the last
packet it has received. -/
def Ledger.InWindow (b : Ledger) (got : List Packet) (h : GuestPacket) : Prop :=
  h.payload.length ≤ bufAlloc ∧
    wsub (2 ^ 32) ((b.sent.length + h.payload.length) % 2 ^ 32) (lastFwdCnt got) ≤ bufAlloc

instance (b : Ledger) (got : List Packet) (h : GuestPacket) : Decidable (b.InWindow got h) :=
  inferInstanceAs (Decidable (_ ∧ _))

/-- A packet for connection `k`, of whose packets the guest has received `got`. -/
def Ledger.note (b : Ledger) (got : List Packet) (pkt : List UInt8) (h : GuestPacket)
    (consumed : ℕ) : Ledger where
  sent := if h.op = opRw then b.sent ++ h.payload else b.sent
  strayed := b.strayed || (h.op == opRw && !(seen pkt && decide (b.InWindow got h)))
  consumed := if seen pkt then consumed else b.consumed
  advertised := if seen pkt then h.alloc else b.advertised

/-- The REQUEST opens connection `k`. -/
def VsockDevice.opens (d : VsockDevice) (k : ℕ) (pkt : List UInt8) (h : GuestPacket)
    (dial : Option ℕ) : Bool :=
  seen pkt && h.op == opRequest && dial.isSome && d.opened == k

namespace VsockSys

def start (guestCid : ℕ) : VsockSys := ⟨VsockDevice.new guestCid, .blank, 0⟩

/-- The packets of connection `k` that the guest has received. -/
def heard (k : ℕ) (s : VsockSys) : List Packet := packetsOf k (s.dev.queued.take s.received)

/-- The books on connection `k` after the guest transmits `pkt`. -/
def bookkeep (k : ℕ) (s : VsockSys) (pkt : List UInt8) (dial : Option ℕ) (consumed : ℕ) : Ledger :=
  match parse pkt with
  | none => s.ledger
  | some h =>
    if h.dstCid ≠ cidHost then s.ledger
    else if s.dev.touches k h then s.ledger.note (s.heard k) pkt h consumed
    else if s.dev.opens k pkt h dial then { s.ledger with advertised := h.alloc }
    else s.ledger

def step (k : ℕ) (s : VsockSys) : VsockStep → VsockSys
  | .transmit pkt dial consumed =>
    { s with dev := s.dev.transmit pkt dial, ledger := s.bookkeep k pkt dial consumed }
  | .pump maxPayload peers io => { s with dev := s.dev.pump maxPayload peers io }
  | .deliver => { s with dev := { s.dev with rx := s.dev.rx.tail } }
  | .receive => { s with received := s.received + 1 }

/-- What every run obeys, for connection `k`. -/
def Legal (k : ℕ) (s : VsockSys) : VsockStep → Prop
  | .transmit pkt dial _ =>
    (∀ fd, dial = some fd → s.dev.FreshFd fd) ∧
    ∀ h, parse pkt = some h → h.dstCid = cidHost → seen pkt = true → s.dev.Solo k h dial
  | .pump _ peers _ => s.dev.FreshPeers peers
  | .deliver => True
  | .receive => s.received + s.dev.rx.length < s.dev.queued.length

/-- What holds of the device in every state of a run. -/
structure Base (k : ℕ) (s : VsockSys) : Prop where
  dev : s.dev.DevInv
  exclusive : s.dev.Exclusive k
  blank : s.dev.opened ≤ k → s.ledger = .blank

variable {k : ℕ} {s : VsockSys}

theorem start_base (k guestCid : ℕ) : (start guestCid).Base k :=
  ⟨new_devInv guestCid, nofun, fun _ => rfl⟩

/-- How a transmission can turn out: the packet goes nowhere near connection `k`, or it is
for connection `k` and dropped, or the device processes it. -/
theorem transmit_cases (k : ℕ) (s : VsockSys) (pkt : List UInt8) (dial : Option ℕ)
    (consumed : ℕ) :
    (s.dev.transmit pkt dial = s.dev ∧ s.bookkeep k pkt dial consumed = s.ledger) ∨
    ∃ h, parse pkt = some h ∧ h.dstCid = cidHost ∧
      ((seen pkt = false ∧ s.dev.touches k h = true ∧ s.dev.transmit pkt dial = s.dev ∧
          s.bookkeep k pkt dial consumed = s.ledger.note (s.heard k) pkt h consumed) ∨
        (seen pkt = true ∧ s.dev.transmit pkt dial = s.dev.onPacket h dial ∧
          s.bookkeep k pkt dial consumed =
            if s.dev.touches k h then s.ledger.note (s.heard k) pkt h consumed
            else if s.dev.opens k pkt h dial then { s.ledger with advertised := h.alloc }
            else s.ledger)) := by
  unfold transmit onGuestPacket bookkeep
  cases hp : parse pkt with
  | none => exact .inl ⟨by split <;> rfl, rfl⟩
  | some h =>
    by_cases hcid : h.dstCid = cidHost
    · simp only [hcid, ne_eq, not_true_eq_false, if_false]
      by_cases hseen : pkt.length ≤ maxPacket
      · refine .inr ⟨h, rfl, hcid, .inr ⟨decide_eq_true hseen, ?_, rfl⟩⟩
        rw [if_neg (by omega)]
      · have hns : seen pkt = false := decide_eq_false hseen
        rw [if_pos (by omega)]
        cases ht : s.dev.touches k h with
        | true => exact .inr ⟨h, rfl, hcid, .inl ⟨hns, ht, rfl, if_pos rfl⟩⟩
        | false => exact .inl ⟨rfl, by simp [opens, hns]⟩
    · simp only [ne_eq, hcid, not_false_eq_true, if_true]
      exact .inl ⟨by split <;> rfl, trivial⟩

theorem touches_opened (hd : s.dev.DevInv) {h : GuestPacket} (ht : s.dev.touches k h = true) :
    k < s.dev.opened := by
  obtain ⟨c, hc, rfl, -⟩ := touches_iff.1 ht
  exact hd.id_lt (mem_append_left _ hc)

theorem opened_onRequest (d : VsockDevice) (h : GuestPacket) (dial : Option ℕ) :
    (d.onRequest h dial).opened = d.opened + if dial.isSome = true then 1 else 0 := by
  cases dial with
  | none => rfl
  | some fd => rfl

theorem opened_onPacket (d : VsockDevice) (h : GuestPacket) (dial : Option ℕ) :
    (d.onPacket h dial).opened =
      d.opened + if h.op = opRequest ∧ dial.isSome = true then 1 else 0 := by
  unfold VsockDevice.onPacket
  cases d.find h.srcPort h.dstPort with
  | some i =>
    by_cases hop : h.op = opRequest
    · simp [hop, opened_onRequest, opened_update]
    · simp [hop, opened_update]
  | none =>
    by_cases hop : h.op = opRequest
    · simp [hop, opened_onRequest]
    · simp only [if_neg hop, if_neg fun h => hop (And.left h)]
      split_ifs <;> rfl

theorem opened_acceptAll_le (peers : List (ℕ × ℕ)) (d : VsockDevice) :
    d.opened ≤ (peers.foldl VsockDevice.accept d).opened :=
  invariant_always (I := fun d' : VsockDevice => d.opened ≤ d'.opened)
    (fun _ _ h => h.trans (Nat.le_succ _)) le_rfl peers

/-- **Every legal step keeps the device invariant**, and the books stay blank until the
connection is opened. -/
theorem step_base (a : VsockStep) (h : s.Base k) (hl : s.Legal k a) : (s.step k a).Base k := by
  cases a with
  | transmit pkt dial consumed =>
    obtain ⟨hfd, hsolo⟩ := hl
    rcases transmit_cases k s pkt dial consumed with ⟨hdev, hbook⟩ |
      ⟨p, hp, hcid, ⟨hseen, ht, hdev, hbook⟩ | ⟨hseen, hdev, hbook⟩⟩
    · simp only [step, hdev, hbook]
      exact ⟨h.dev, h.exclusive, h.blank⟩
    · simp only [step, hdev, hbook]
      exact ⟨h.dev, h.exclusive, fun hk => absurd (touches_opened h.dev ht) (by simpa using hk)⟩
    · simp only [step, hdev]
      refine ⟨h.dev.onPacket hfd, h.exclusive.onPacket (hsolo p hp hcid hseen), fun hk => ?_⟩
      rw [opened_onPacket] at hk
      have hnt : s.dev.touches k p = false := by
        rw [Bool.eq_false_iff]
        exact fun ht => absurd (touches_opened h.dev ht) (by omega)
      simp only [hbook, hnt, Bool.false_eq_true, if_false]
      have hno : s.dev.opens k pkt p dial = false := by
        rw [Bool.eq_false_iff]
        intro ho
        simp only [opens, Bool.and_eq_true, beq_iff_eq] at ho
        rw [if_pos ⟨ho.1.1.2, ho.1.2⟩] at hk
        omega
      rw [hno]
      exact h.blank (by omega)
  | pump maxPayload peers io =>
    refine ⟨h.dev.pump hl, h.exclusive.pump h.dev hl, fun hk => h.blank ?_⟩
    exact (opened_acceptAll_le peers s.dev).trans hk
  | deliver => exact ⟨⟨h.dev.ids, h.dev.tags, h.dev.port_lo, h.dev.port_hi, h.dev.fds,
      h.dev.fds_lt⟩, h.exclusive, h.blank⟩
  | receive => exact ⟨h.dev, h.exclusive, h.blank⟩

/-- A packet for connection `k` that the device processes is not a REQUEST. -/
theorem not_request {h : GuestPacket} {dial : Option ℕ} (ht : s.dev.touches k h = true)
    (hsolo : s.dev.Solo k h dial) : h.op ≠ opRequest := by
  intro hop
  obtain ⟨c, hc, hid, hkey⟩ := touches_iff.1 ht
  exact (hsolo hop c hc hkey).1 hid

/-- **The transmission rule.**  A property of the books, of connection `k` and of its packets
survives a transmission if it survives a packet for the connection that is dropped and one that
is processed, and holds of a connection just dialed. -/
theorem holds_transmit {I J : Ledger → Conn → List Packet → Prop} {pkt : List UInt8}
    {dial : Option ℕ} {n : ℕ} (hbase : s.Base k) (h : s.dev.Holds k (I s.ledger))
    (hl : s.Legal k (.transmit pkt dial n)) (hkeep : ∀ c ps, I s.ledger c ps → J s.ledger c ps)
    (hdrop : ∀ p, parse pkt = some p → p.dstCid = cidHost → seen pkt = false →
      s.dev.touches k p = true → ∀ c ps, I s.ledger c ps →
        J (s.ledger.note (s.heard k) pkt p n) c ps)
    (htake : ∀ p, parse pkt = some p → p.dstCid = cidHost → seen pkt = true →
      s.dev.touches k p = true → ∀ c ∈ s.dev.conns, c.id = k → ∀ ps, I s.ledger c ps →
        J (s.ledger.note (s.heard k) pkt p n) ((c.refresh p).onPacket p).1
          (ps ++ ((c.refresh p).onPacket p).2))
    (hdial : ∀ p fd, parse pkt = some p → p.dstCid = cidHost → seen pkt = true →
      p.op = opRequest → s.dev.opened = k → J { s.ledger with advertised := p.alloc }
        (s.dev.dialed p fd) [(s.dev.dialed p fd).packet opResponse 0 []]) :
    (s.step k (.transmit pkt dial n)).dev.Holds k
      (J (s.step k (.transmit pkt dial n)).ledger) := by
  rcases transmit_cases k s pkt dial n with ⟨hdev, hbook⟩ |
    ⟨p, hp, hcid, ⟨hseen, ht, hdev, hbook⟩ | ⟨hseen, hdev, hbook⟩⟩
  · simp only [step, hdev, hbook]
    exact h.imp hkeep
  · simp only [step, hdev, hbook]
    exact h.imp (hdrop p hp hcid hseen ht)
  · simp only [step, hdev]
    cases ht : s.dev.touches k p with
    | true =>
      rw [ht, if_pos rfl] at hbook
      rw [hbook]
      exact h.onPacket_touch hbase.dev hbase.exclusive ht (not_request ht (hl.2 p hp hcid hseen))
        (htake p hp hcid hseen ht)
    | false =>
      rw [hbook, ht, if_neg Bool.false_ne_true]
      cases ho : s.dev.opens k pkt p dial with
      | false =>
        refine (h.imp hkeep).onPacket_other hbase.dev ht fun fd hop hd hk => ?_
        simp [opens, hseen, hop, hd, hk] at ho
      | true =>
        simp only [opens, Bool.and_eq_true, beq_iff_eq] at ho
        refine Holds.onPacket_other hbase.dev (fun c hc hid => ?_) ht fun fd hop _ hk =>
          hdial p fd hp hcid hseen hop hk
        -- the connection being opened is not there yet
        have hlt := hbase.dev.id_lt hc
        omega

end VsockSys

/-! ## A stream with a hole -/

namespace VsockSys

variable {k : ℕ} {s : VsockSys} {c : Conn} {payload : List UInt8}

/-! A guest at port 40000 that talks to host port 1024 and always advertises a window of
64 KiB with nothing consumed. -/

def guestHdr (op : ℕ) (payload : List UInt8) : GuestPacket :=
  { dstCid := cidHost
    srcPort := 40000
    dstPort := 1024
    op
    alloc := 65536
    fwdCnt := 0
    payload }

def guestPkt (op : ℕ) (payload : List UInt8) : List UInt8 :=
  frame 3 cidHost 40000 1024 op 65536 0 payload

theorem parse_guestPkt (op : ℕ) (hop : op < 2 ^ 16)
    (hlen : payload.length ≤ bufAlloc) :
    parse (guestPkt op payload) = some (guestHdr op payload) := by
  rw [guestPkt, parse_frame _ _ _ _ _ _ _ (by simp only [bufAlloc] at hlen; omega),
    Nat.mod_eq_of_lt hop]
  rfl

/-- A transmission that is not a REQUEST is legal whatever the state. -/
theorem legal_guestPkt {op : ℕ} (hop : op < 2 ^ 16) (hne : op ≠ opRequest)
    (hlen : payload.length ≤ bufAlloc) (s : VsockSys) (n : ℕ) :
    s.Legal k (.transmit (guestPkt op payload) none n) := by
  refine ⟨fun fd h => absurd h (by simp), fun h hp _ _ => ?_⟩
  rw [parse_guestPkt op hop hlen] at hp
  obtain rfl := Option.some.inj hp
  exact fun h => absurd h hne

/-- Connection `k` is that guest's and the only one.  Nothing of it has been written out, and this
much is buffered and sent. -/
def Alone (k : ℕ) (s : VsockSys) (buffered sent : List UInt8) : Prop :=
  s.ledger.sent = sent ∧ ∃ c, s.dev.conns = [c] ∧ c.id = k ∧ c.hasKey 40000 1024 = true ∧
    c.stream.written = [] ∧ c.toHost = buffered

/-- An RW from that guest counts as sent, and is buffered if it fits. -/
theorem Alone.send {buffered sent : List UInt8} (h : Alone k s buffered sent)
    (payload : List UInt8) (hlen : payload.length ≤ bufAlloc) (n : ℕ) :
    Alone k (s.step k (.transmit (guestPkt opRw payload) none n))
      (if buffered.length + payload.length ≤ bufAlloc then buffered ++ payload else buffered)
      (sent ++ payload) := by
  obtain ⟨rfl, c, hconns, hid, hkey, hw, rfl⟩ := h
  have hp := parse_guestPkt opRw (by decide) hlen
  have hat : s.dev.find (guestHdr opRw payload).srcPort (guestHdr opRw payload).dstPort =
      some 0 := by
    rw [find, hconns, findIdx?_cons]
    exact if_pos hkey
  have ht : s.dev.touches k (guestHdr opRw payload) = true :=
    touches_iff.2 ⟨c, by rw [hconns]; exact mem_singleton_self c, hid, hkey⟩
  have hop : ¬ (guestHdr opRw payload).op = opRequest := (by decide : ¬ opRw = opRequest)
  have hnot : ¬ (guestPkt opRw payload).length > maxPacket := by
    rw [guestPkt, length_frame, maxPacket]
    omega
  refine ⟨?_, ((c.refresh (guestHdr opRw payload)).onPacket (guestHdr opRw payload)).1, ?_, ?_⟩
  · simp only [step, bookkeep, hp]
    rw [if_neg (show ¬ (guestHdr opRw payload).dstCid ≠ cidHost from fun h => h rfl), if_pos ht]
    rfl
  · simp only [step, transmit, if_neg hnot, onGuestPacket, hp, VsockDevice.onPacket, hat]
    rw [if_neg hop, VsockDevice.update, hconns]
    rfl
  · rcases c.onPacket_cases (guestHdr opRw payload) with ⟨-, hfit, heq⟩ | ⟨-, hover, heq⟩ | ⟨hop, -⟩
    · rw [heq]
      exact ⟨hid, hkey, hw, (if_pos hfit).symm⟩
    · rw [heq]
      exact ⟨hid, hkey, hw, (if_neg (not_le.2 hover)).symm⟩
    · exact absurd rfl hop

/-- The connection the guest's REQUEST opens, on descriptor 3. -/
def opened0 : VsockSys := (start 3).step 0 (.transmit (guestPkt opRequest []) (some 3) 0)

theorem opened0_legal : (start 3).Legal 0 (.transmit (guestPkt opRequest []) (some 3) 0) := by
  refine ⟨fun fd h => ?_, nofun⟩
  obtain rfl := Option.some.inj h
  exact ⟨by decide, nofun⟩

/-- A run with a refused payload in the middle. -/
def holeRun (big : List UInt8) : List VsockStep :=
  [.transmit (guestPkt opRequest []) (some 3) 0, .transmit (guestPkt opRw [1]) none 0,
    .transmit (guestPkt opRw big) none 0, .transmit (guestPkt opRw [2]) none 0]

theorem holeRun_legal {big : List UInt8} (hbig : big.length ≤ bufAlloc) :
    Runs.Each (step 0) (Legal 0) (start 3) (holeRun big) :=
  ⟨opened0_legal, legal_guestPkt (by decide) (by decide) (by decide) _ 0,
    legal_guestPkt (by decide) (by decide) hbig _ 0,
    legal_guestPkt (by decide) (by decide) (by decide) _ 0, trivial⟩

/-- **A refused payload leaves a hole.**  The first RW carries 1, the second does not fit and is
refused, the third carries 2: the stream to the host reads 1, 2, and the guest sent 1, 1, … -/
theorem stream_skips_refused :
    let l := holeRun (replicate bufAlloc 1)
    Runs.Each (step 0) (Legal 0) (start 3) l ∧
    ∃ c ∈ (run (step 0) (start 3) l).dev.conns, c.id = 0 ∧
      ¬ c.stream.written ++ c.toHost <+: (run (step 0) (start 3) l).ledger.sent := by
  have hlen : (replicate bufAlloc (1 : UInt8)).length = bufAlloc := length_replicate ..
  have hopen : Alone 0 opened0 [] [] :=
    ⟨rfl, _, rfl, by decide, by decide, by decide, by decide⟩
  have hfirst : Alone 0 _ [1] [1] := hopen.send [1] (by decide) 0
  -- a payload that fills the window does not fit behind the first byte; the last one does
  have hbig := hfirst.send _ hlen.le 0
  rw [if_neg (by rw [hlen]; decide)] at hbig
  obtain ⟨hsent, c, hc, hid, -, hw, hto⟩ := hbig.send [2] (by decide) 0
  have hto : c.toHost = [1, 2] := hto
  refine ⟨holeRun_legal hlen.le, c, ?_, hid, ?_⟩
  · exact hc ▸ mem_singleton_self c
  have hsent : (run (step 0) (start 3) (holeRun (replicate bufAlloc 1))).ledger.sent = _ := hsent
  rw [hw, hto, hsent]
  rintro ⟨t, ht⟩
  have hcons : replicate bufAlloc (1 : UInt8) = 1 :: replicate (bufAlloc - 1) 1 :=
    replicate_succ (n := bufAlloc - 1)
  rw [hcons] at ht
  simp at ht

end VsockSys
end Amber.Vsock
