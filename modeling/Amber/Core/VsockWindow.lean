import Amber.Core.VsockRun

/-!
# The window towards the host

The guest may keep `bufAlloc` bytes in flight towards the host, counted from the `fwd_cnt` of
the last packet it has received on the connection, however old that packet is.

* `run_noReset` — a guest that does so never overflows the buffer of the connection, and no
  guest at all gets more than `bufAlloc` bytes buffered.
* `run_prefix` — what reaches the host stream is a prefix of what the guest sent, if the guest
  does so with packets the device reassembles, or stops at the first payload with which it
  does not.

Every packet of the connection carries the number of bytes drained when it was queued
(`FlowOk.carried`), and that number only grows from packet to packet (`FlowOk.sorted`): what
the guest counts from is never more than what has really been drained.
-/

namespace Amber.Vsock

open VsockDevice WrapCounter List

/-! ## Packets are only ever added -/

namespace VsockDevice

/-- The device has queued further packets. -/
def Extends (d d' : VsockDevice) : Prop := ∃ ps, d'.queued = d.queued ++ ps ∧ d'.rx = d.rx ++ ps

variable {d d' d'' : VsockDevice}

theorem Extends.refl (d : VsockDevice) : d.Extends d :=
  ⟨[], (append_nil _).symm, (append_nil _).symm⟩

theorem Extends.trans (h : d.Extends d') (h' : d'.Extends d'') : d.Extends d'' := by
  obtain ⟨ps, hq, hr⟩ := h
  obtain ⟨qs, hq', hr'⟩ := h'
  exact ⟨ps ++ qs, by rw [hq', hq, append_assoc], by rw [hr', hr, append_assoc]⟩

theorem extends_transmit (d : VsockDevice) (pkt : List UInt8) (dial : Option ℕ) :
    d.Extends (d.transmit pkt dial) := by
  rcases transmit_eq d pkt dial with ⟨heq, -⟩ | ⟨p, -, -, -, heq⟩
  · rw [heq]
    exact Extends.refl d
  · rw [heq]
    obtain ⟨ps, -, hext⟩ := onPacket_drawn d p dial
    exact ⟨ps, hext⟩

theorem extends_acceptAll (peers : List (ℕ × ℕ)) (d : VsockDevice) :
    d.Extends (peers.foldl accept d) :=
  Runs.invariant_always (I := d.Extends) (fun _ _ h => h.trans ⟨_, rfl, rfl⟩) (Extends.refl d) peers

theorem extends_pump (d : VsockDevice) (maxPayload : ℕ) (peers : List (ℕ × ℕ))
    (io : ℕ → ConnIo) : d.Extends (d.pump maxPayload peers io) := by
  have hconns : ∀ d : VsockDevice, d.Extends (d.pumpConns maxPayload io) :=
    fun d => ⟨_, rfl, rfl⟩
  have hreap : ∀ d : VsockDevice, d.Extends d.reap := fun d => ⟨_, rfl, rfl⟩
  exact ((extends_acceptAll peers d).trans (hconns _)).trans (hreap _)

end VsockDevice

namespace VsockSys

variable {k : ℕ} {s : VsockSys}

/-- The guest has received no more than has left the device. -/
def Delivered (s : VsockSys) : Prop := s.received + s.dev.rx.length ≤ s.dev.queued.length

theorem heard_isPrefix (k : ℕ) (s : VsockSys) : s.heard k <+: packetsOf k s.dev.queued :=
  List.IsPrefix.filter _ <| take_prefix _ _

theorem heard_extends (hd : s.Delivered) {d : VsockDevice} (b : Ledger) (h : s.dev.Extends d) :
    heard k { s with dev := d, ledger := b } = s.heard k := by
  obtain ⟨ps, hq, -⟩ := h
  have hle : s.received ≤ s.dev.queued.length := le_trans (Nat.le_add_right _ _) hd
  change packetsOf k (d.queued.take s.received) = packetsOf k (s.dev.queued.take s.received)
  rw [hq, take_append_of_le_length hle]

theorem step_delivered (a : VsockStep) (h : s.Delivered) (hl : s.Legal k a) :
    (s.step k a).Delivered := by
  have hext : ∀ {d : VsockDevice}, s.dev.Extends d →
      s.received + d.rx.length ≤ d.queued.length := by
    rintro d ⟨ps, hq, hr⟩
    have hle : s.received + s.dev.rx.length ≤ s.dev.queued.length := h
    rw [hq, hr, length_append, length_append]
    omega
  cases a with
  | transmit pkt dial n => exact hext (extends_transmit s.dev pkt dial)
  | pump maxPayload peers io => exact hext (extends_pump s.dev maxPayload peers io)
  | deliver =>
    have hle : s.received + s.dev.rx.length ≤ s.dev.queued.length := h
    change s.received + s.dev.rx.tail.length ≤ s.dev.queued.length
    rw [length_tail]
    omega
  | receive =>
    have hlt : s.received + s.dev.rx.length < s.dev.queued.length := hl
    change s.received + 1 + s.dev.rx.length ≤ s.dev.queued.length
    omega

end VsockSys

/-! ## What the guest counts from -/

/-- The bytes drained when the last of the packets was queued. -/
def lastDrained (ps : List Packet) : ℕ := (ps.getLast?.map (·.drained)).getD 0

theorem lastDrained_cases (ps : List Packet) :
    (ps = [] ∧ lastDrained ps = 0 ∧ lastFwdCnt ps = 0) ∨
      ∃ p ∈ ps, lastDrained ps = p.drained ∧ lastFwdCnt ps = p.fwdCnt := by
  cases hlast : ps.getLast? with
  | none =>
    rw [lastDrained, lastFwdCnt, hlast]
    exact .inl ⟨getLast?_eq_none_iff.1 hlast, rfl, rfl⟩
  | some p =>
    rw [lastDrained, lastFwdCnt, hlast]
    exact .inr ⟨p, mem_of_getLast? hlast, rfl, rfl⟩

/-- In a list sorted by it, what was drained is largest at the end. -/
theorem drained_le_lastDrained {ps : List Packet}
    (h : ps.Pairwise fun p q => p.drained ≤ q.drained) {p : Packet} (hp : p ∈ ps) :
    p.drained ≤ lastDrained ps := by
  induction ps using reverseRecOn with
  | nil => exact absurd hp not_mem_nil
  | append_singleton ps q _ =>
    have hlast : lastDrained (ps ++ [q]) = q.drained := by
      rw [lastDrained, getLast?_concat]
      rfl
    rw [hlast]
    rcases mem_append.1 hp with hp | hp
    · exact (pairwise_append.1 h).2.2 p hp q (mem_singleton_self q)
    · rw [mem_singleton.1 hp]

theorem lastDrained_mono {ps qs : List Packet} (hpre : ps <+: qs)
    (h : qs.Pairwise fun p q => p.drained ≤ q.drained) : lastDrained ps ≤ lastDrained qs := by
  rcases lastDrained_cases ps with ⟨-, hzero, -⟩ | ⟨p, hp, heq, -⟩
  · rw [hzero]
    exact Nat.zero_le _
  · rw [heq]
    exact drained_le_lastDrained h (hpre.subset hp)

/-! ## The flow invariant -/

/-- Connection `c`, its packets `ps` and those of them, `got`, that the guest has received. -/
structure FlowOk (b : Ledger) (got : List Packet) (c : Conn) (ps : List Packet) : Prop where
  buffered : c.stream.written.length + c.toHost.length ≤ b.sent.length
  fwd : c.fwdCnt = c.stream.written.length % 2 ^ 32
  carried : ∀ p ∈ ps, p.fwdCnt = p.drained % 2 ^ 32 ∧ p.drained ≤ c.stream.written.length
  sorted : ps.Pairwise fun p q => p.drained ≤ q.drained
  heard : got <+: ps
  window : b.sent.length ≤ lastDrained got + bufAlloc

namespace FlowOk

variable {b b' : Ledger} {got got' : List Packet} {c c' : Conn} {ps : List Packet}

variable (h : FlowOk b got c ps)

include h

/-- Only the streams, the drained count and the bytes sent matter. -/
theorem congr (hwritten : c'.stream.written = c.stream.written)
    (hto : c'.toHost = c.toHost) (hfwd : c'.fwdCnt = c.fwdCnt) (hsent : b'.sent = b.sent) :
    FlowOk b' got c' ps := by
  obtain ⟨h1, h2, h3, h4, h5, h6⟩ := h
  rw [← hwritten, ← hto, ← hsent] at h1
  rw [← hwritten] at h2 h3
  rw [← hsent] at h6
  exact ⟨h1, hfwd.trans h2, h3, h4, h5, h6⟩

/-- A packet with the current count. -/
theorem say (op : ℕ) (payload : List UInt8) :
    FlowOk b got c (ps ++ [c.packet op c.fwdCnt payload]) where
  buffered := h.buffered
  fwd := h.fwd
  carried := forall_mem_append.2 ⟨h.carried, forall_mem_singleton.2 ⟨h.fwd, le_refl _⟩⟩
  sorted := by
    refine pairwise_append.2 ⟨h.sorted, pairwise_singleton _ _, ?_⟩
    intro p hp q hq
    rw [mem_singleton.1 hq]
    exact (h.carried p hp).2
  heard := h.heard.trans (prefix_append _ _)
  window := h.window

/-- Bytes landing on the host stream. -/
theorem landed {n : ℕ} (hn : n ≤ c.toHost.length) :
    FlowOk b got (c.landed n) ps := by
  have hwritten : (c.landed n).stream.written.length = c.stream.written.length + n := by
    change (c.stream.written ++ c.toHost.take n).length = _
    rw [length_append, length_take, min_eq_left hn]
  have hto : (c.landed n).toHost.length = c.toHost.length - n := length_drop
  refine ⟨?_, ?_, fun p hp => ?_, h.sorted, h.heard, h.window⟩
  · have := h.buffered
    omega
  · rw [hwritten]
    change (c.fwdCnt + n) % 2 ^ 32 = _
    rw [h.fwd, Nat.mod_add_mod]
  · obtain ⟨hfwd, hle⟩ := h.carried p hp
    exact ⟨hfwd, by omega⟩

/-- What the guest counts from is at most what has been drained. -/
theorem lastDrained_le :
    lastDrained got ≤ c.stream.written.length ∧ lastFwdCnt got = lastDrained got % 2 ^ 32 := by
  rcases lastDrained_cases got with ⟨-, hd, hf⟩ | ⟨p, hp, hd, hf⟩
  · rw [hd, hf]
    exact ⟨Nat.zero_le _, rfl⟩
  · rw [hd, hf]
    exact ⟨(h.carried p (h.heard.subset hp)).2, (h.carried p (h.heard.subset hp)).1⟩

/-- A guest that stays within the window as it counts it stays within the real one. -/
theorem room {m : ℕ} (hm : m ≤ bufAlloc)
    (hin : wsub (2 ^ 32) ((b.sent.length + m) % 2 ^ 32) (lastFwdCnt got) ≤ bufAlloc) :
    b.sent.length + m ≤ lastDrained got + bufAlloc ∧ c.toHost.length + m ≤ bufAlloc := by
  obtain ⟨hle, hfwd⟩ := h.lastDrained_le
  have hbuf := h.buffered
  have hwin := h.window
  have hsmall : bufAlloc + bufAlloc < 2 ^ 32 := by decide
  rw [hfwd, wsub_mod_mod (by omega) (by omega)] at hin
  omega

/-- A payload of `m` bytes within the window is sent, and buffered or dropped. -/
theorem sent {m : ℕ} (hsent : b'.sent.length = b.sent.length + m)
    (hroom : b.sent.length + m ≤ lastDrained got + bufAlloc)
    (hwritten : c'.stream.written = c.stream.written) (hfwd : c'.fwdCnt = c.fwdCnt)
    (hto : c'.toHost.length ≤ c.toHost.length + m) :
    FlowOk b' got c' ps := by
  obtain ⟨h1, h2, h3, h4, h5, -⟩ := h
  refine ⟨?_, ?_, ?_, h4, h5, ?_⟩
  · rw [hwritten, hsent]
    omega
  · rw [hfwd, hwritten]
    exact h2
  · rw [hwritten]
    exact h3
  · rw [hsent]
    exact hroom

/-- The guest receives more of the packets. -/
theorem hear (hmore : got <+: got') (hpre : got' <+: ps) :
    FlowOk b got' c ps := by
  refine ⟨h.buffered, h.fwd, h.carried, h.sorted, hpre, ?_⟩
  have hmono := lastDrained_mono hmore (h.sorted.sublist hpre.sublist)
  have := h.window
  omega

omit h

/-- A connection that has only been announced. -/
theorem fresh (c : Conn) (hwritten : c.stream.written = []) (hto : c.toHost = [])
    (hfwd : c.fwdCnt = 0) (op : ℕ) : FlowOk .blank [] c [c.packet op 0 []] := by
  have hnone : FlowOk .blank [] c [] := by
    refine ⟨?_, ?_, nofun, List.Pairwise.nil, prefix_refl _, Nat.zero_le _⟩
    · rw [hwritten, hto]
      exact le_refl _
    · rw [hfwd, hwritten, length_nil, Nat.zero_mod]
  have hsay := hnone.say op []
  rwa [hfwd] at hsay

end FlowOk

namespace VsockSys

variable {k : ℕ} {s : VsockSys}

/-- The guest keeps to the window. -/
def Honest (k : ℕ) (s : VsockSys) : VsockStep → Prop
  | .transmit pkt _ _ => ∀ h, parse pkt = some h → h.dstCid = cidHost →
      s.dev.touches k h = true → h.op = opRw → s.ledger.InWindow (s.heard k) h
  | _ => True

theorem sent_note {b : Ledger} {got : List Packet} {pkt : List UInt8} {h : GuestPacket} {n : ℕ} :
    (b.note got pkt h n).sent = if h.op = opRw then b.sent ++ h.payload else b.sent := rfl

theorem heard_nil (hbase : s.Base k) (hk : s.dev.opened ≤ k) : s.heard k = [] := by
  have hpre := heard_isPrefix k s
  rw [hbase.dev.packetsOf_opened hk] at hpre
  exact prefix_nil.1 hpre

theorem step_flow (a : VsockStep) (hbase : s.Base k) (hdel : s.Delivered)
    (h : s.dev.Holds k (FlowOk s.ledger (s.heard k))) (hl : s.Legal k a) (hh : s.Honest k a) :
    (s.step k a).dev.Holds k (FlowOk (s.step k a).ledger ((s.step k a).heard k)) := by
  cases a with
  | transmit pkt dial n =>
    have hheard : (s.step k (.transmit pkt dial n)).heard k = s.heard k :=
      heard_extends hdel _ (extends_transmit s.dev pkt dial)
    rw [hheard]
    refine holds_transmit (I := fun b => FlowOk b (s.heard k)) (J := fun b => FlowOk b (s.heard k))
      hbase h hl (fun _ _ hc => hc) ?dropped ?taken ?dialed
    case dropped =>
      -- the payload counts as sent all the same
      intro p hp hcid _ ht c _ hc
      by_cases hop : p.op = opRw
      · obtain ⟨hlen, hin⟩ := hh p hp hcid ht hop
        refine hc.sent (m := p.payload.length) ?_ (hc.room hlen hin).1 rfl rfl
          (Nat.le_add_right _ _)
        rw [sent_note, if_pos hop, length_append]
      · exact hc.congr rfl rfl rfl (by rw [sent_note, if_neg hop])
    case taken =>
      intro p hp hcid _ ht c _ _ ps hok
      rcases c.onPacket_cases p with ⟨hop, -, heq⟩ | ⟨hop, hover, -⟩ |
        ⟨hop, up, hostDone, qs, rfl | rfl, heq⟩
      · obtain ⟨hlen, hin⟩ := hh p hp hcid ht hop
        rw [heq, append_nil]
        refine hok.sent (m := p.payload.length) ?_ (hok.room hlen hin).1 rfl rfl ?_
        · rw [sent_note, if_pos hop, length_append]
        · exact length_append.le
      · obtain ⟨hlen, hin⟩ := hh p hp hcid ht hop
        exact absurd (hok.room hlen hin).2 (not_le.2 hover)
      · rw [heq, append_nil]
        exact hok.congr rfl rfl rfl (by rw [sent_note, if_neg hop])
      · rw [heq]
        exact (hok.say opCreditUpdate []).congr rfl rfl rfl (by rw [sent_note, if_neg hop])
    case dialed =>
      intro p fd _ _ _ _ hk
      rw [hbase.blank hk.le, heard_nil hbase hk.le]
      exact (FlowOk.fresh _ rfl rfl rfl opResponse).congr rfl rfl rfl rfl
  | pump maxPayload peers io =>
    have hheard : (s.step k (.pump maxPayload peers io)).heard k = s.heard k :=
      heard_extends hdel s.ledger (extends_pump s.dev maxPayload peers io)
    rw [hheard]
    refine h.pump hbase.dev hl ?_ ?_ fun c ps _ hc => hc.say opShutdown []
    · rintro hk c - ⟨gp, hp, fd, d, rfl⟩
      rw [hbase.blank hk, heard_nil hbase hk]
      exact FlowOk.fresh _ rfl rfl rfl opRequest
    · intro c ps io _ hc
      refine Conn.pump_rule (P := FlowOk s.ledger (s.heard k)) ?_ ?_ ?_ ?_ ps io hc
      · exact fun c ps n _ hn hc => hc.landed hn
      · exact fun c ps hc => hc.say opCreditUpdate []
      · exact fun c ps got _ _ hc => (hc.say opRw got).congr rfl rfl rfl rfl
      · exact fun c ps hc => hc.congr rfl rfl rfl rfl
  | deliver => exact h
  | receive =>
    intro c hc hid
    refine (h c hc hid).hear ?_ (heard_isPrefix k _)
    exact (take_prefix_take_left (Nat.le_succ _)).filter _

end VsockSys

/-! ## The buffer of every connection -/

namespace VsockDevice

/-- No connection, live or reaped, has more than `bufAlloc` bytes buffered. -/
def Buffered (d : VsockDevice) : Prop := ∀ c ∈ d.everyConn, c.toHost.length ≤ bufAlloc

variable {d : VsockDevice}

theorem Buffered.transmit (h : d.Buffered) (pkt : List UInt8) (dial : Option ℕ) :
    (d.transmit pkt dial).Buffered := by
  refine every_transmit h (fun p _ c hc => hc) (fun p _ c hc => ?_) fun p _ d fd => Nat.zero_le _
  rcases c.onPacket_cases p with ⟨-, hfit, heq⟩ | ⟨-, -, heq⟩ | ⟨-, _, _, _, -, heq⟩
  · rw [heq]
    exact length_append.trans_le hfit
  · rw [heq]
    exact hc
  · rw [heq]
    exact hc

theorem Buffered.pump (h : d.Buffered) (maxPayload : ℕ) (peers : List (ℕ × ℕ))
    (io : ℕ → ConnIo) : (d.pump maxPayload peers io).Buffered := by
  refine every_pump h (fun d gp hp fd => Nat.zero_le _) fun c io hc => ?_
  refine Conn.pump_rule (P := fun c _ => c.toHost.length ≤ bufAlloc) ?_
    (fun _ _ h => h) (fun _ _ _ _ _ h => h) (fun _ _ h => h) [] io hc
  intro c ps n _ _ hc
  exact (length_drop.trans_le (Nat.sub_le _ _)).trans hc

end VsockDevice

namespace VsockSys

variable {k : ℕ} {s : VsockSys}

theorem step_buffered (k : ℕ) (a : VsockStep) (h : s.dev.Buffered) :
    (s.step k a).dev.Buffered := by
  cases a with
  | transmit pkt dial n => exact h.transmit pkt dial
  | pump maxPayload peers io => exact h.pump maxPayload peers io
  | deliver | receive => exact h

/-- **No false resets.**  In every state of a run with an honest guest, the next RW it sends
on the connection fits in the buffer; and in every run at all, whatever the guest does, no
connection has more than `bufAlloc` bytes buffered. -/
theorem run_noReset (k guestCid : ℕ) (l : List VsockStep) :
    let s := Runs.run (step k) (start guestCid) l
    (Runs.Each (step k) (fun s a => s.Legal k a ∧ s.Honest k a) (start guestCid) l →
      ∀ pkt dial n p, s.Honest k (.transmit pkt dial n) → parse pkt = some p →
        p.dstCid = cidHost → p.op = opRw → ∀ c ∈ s.dev.conns, c.id = k →
        c.hasKey p.srcPort p.dstPort = true → c.toHost.length + p.payload.length ≤ bufAlloc) ∧
    ∀ c ∈ s.dev.everyConn, c.toHost.length ≤ bufAlloc := by
  constructor
  · intro hl pkt dial n p hh hp hcid hop c hc hid hkey
    have hinv := Runs.invariant
      (I := fun s : VsockSys => (s.Base k ∧ s.Delivered) ∧
        s.dev.Holds k (FlowOk s.ledger (s.heard k)))
      (fun s a hs ha => ⟨⟨step_base a hs.1.1 ha.1, step_delivered a hs.1.2 ha.1⟩,
        step_flow a hs.1.1 hs.1.2 hs.2 ha.1 ha.2⟩)
      ⟨⟨start_base k guestCid, le_refl _⟩, nofun⟩ hl
    obtain ⟨hlen, hin⟩ := hh p hp hcid (touches_iff.2 ⟨c, hc, hid, hkey⟩) hop
    exact ((hinv.2 c (mem_append_left _ hc) hid).room hlen hin).2
  · exact Runs.invariant_always (I := fun s : VsockSys => s.dev.Buffered)
      (fun s a hs => step_buffered k a hs) (fun c hc => absurd hc not_mem_nil) l

/-- A byte of the guest's, counted from a connection it has heard nothing of. -/
theorem honest_guestPkt {b : UInt8} {n : ℕ}
    (hin : wsub (2 ^ 32) ((s.ledger.sent.length + 1) % 2 ^ 32) (lastFwdCnt (s.heard k)) ≤
      bufAlloc) :
    s.Honest k (.transmit (guestPkt opRw [b]) none n) := by
  have hlen : [b].length ≤ bufAlloc := show 1 ≤ bufAlloc by decide
  intro h hp _ _ _
  rw [parse_guestPkt opRw (by decide) hlen] at hp
  obtain rfl := Option.some.inj hp
  exact ⟨hlen, hin⟩

/-- The guest opens a connection, sends one byte and then another. -/
theorem run_noReset_twoBytes :
    let l : List VsockStep := [.transmit (guestPkt opRequest []) (some 3) 0,
      .transmit (guestPkt opRw [7]) none 0]
    let s := Runs.run (step 0) (start 3) l
    s.dev.conns.map (·.toHost) = [[7]] ∧
    (∀ c ∈ s.dev.conns, c.id = 0 → c.hasKey 40000 1024 = true →
      c.toHost.length + [(8 : UInt8)].length ≤ bufAlloc) ∧
    ∀ c ∈ s.dev.everyConn, c.toHost.length ≤ bufAlloc := by
  obtain ⟨hfit, hall⟩ := run_noReset 0 3 [.transmit (guestPkt opRequest []) (some 3) 0,
    .transmit (guestPkt opRw [7]) none 0]
  refine ⟨by decide, ?_, hall⟩
  refine hfit ⟨⟨opened0_legal, ?_⟩, ⟨?_, honest_guestPkt (by decide)⟩, trivial⟩
    (guestPkt opRw [8]) none 0 (guestHdr opRw [8]) (honest_guestPkt (by decide))
    (parse_guestPkt opRw (by decide) (by decide)) rfl rfl
  · intro h _ _ ht
    exact absurd ht (by simp [touches, start, VsockDevice.new])
  · exact legal_guestPkt (by decide) (by decide) (by decide) _ 0

end VsockSys

/-! ## The stream to the host -/

namespace Conn

/-- What the device has accepted into the stream to the host: written out, then buffered. -/
def inbound (c : Conn) : List UInt8 := c.stream.written ++ c.toHost

theorem inbound_landed (c : Conn) (n : ℕ) : (c.landed n).inbound = c.inbound := by
  rw [inbound, landed, append_assoc, take_append_drop, inbound]

end Conn

/-- The stream is a prefix of what was sent, and all of it until the guest strays. -/
structure StreamOk (b : Ledger) (c : Conn) : Prop where
  sent : c.inbound <+: b.sent
  kept : b.strayed = false → c.inbound = b.sent

theorem StreamOk.congr {b b' : Ledger} {c c' : Conn} (h : StreamOk b c)
    (hin : c'.inbound = c.inbound) (hsent : b'.sent = b.sent) (hstray : b'.strayed = b.strayed) :
    StreamOk b' c' :=
  ⟨by rw [hin, hsent]; exact h.sent, fun hno => by rw [hin, hsent, h.kept (hstray ▸ hno)]⟩

/-- A connection that has only been announced. -/
theorem StreamOk.fresh {b : Ledger} {c : Conn} (hb : b.sent = []) (hin : c.inbound = []) :
    StreamOk b c := by
  have heq : c.inbound = b.sent := hin.trans hb.symm
  exact ⟨heq ▸ prefix_refl _, fun _ => heq⟩

namespace VsockSys

variable {k : ℕ} {s : VsockSys}

/-- Once the guest has strayed with an RW on the connection, it sends no further payload. -/
def Stops (k : ℕ) (s : VsockSys) : VsockStep → Prop
  | .transmit pkt _ _ => ∀ h, parse pkt = some h → h.dstCid = cidHost →
      s.dev.touches k h = true → h.op = opRw → h.payload ≠ [] → s.ledger.strayed = false
  | _ => True

section Note

variable {b : Ledger} {got : List Packet} {pkt : List UInt8} {h : GuestPacket} {n : ℕ}

theorem strayed_note_of_ne (hop : h.op ≠ opRw) : (b.note got pkt h n).strayed = b.strayed := by
  simp [Ledger.note, hop]

theorem strayed_note_iff (hop : h.op = opRw) : (b.note got pkt h n).strayed = false ↔
    b.strayed = false ∧ seen pkt = true ∧ b.InWindow got h := by
  simp [Ledger.note, hop]

theorem strayed_of_note (hno : (b.note got pkt h n).strayed = false) : b.strayed = false := by
  by_cases hop : h.op = opRw
  · exact ((strayed_note_iff hop).1 hno).1
  · rwa [strayed_note_of_ne hop] at hno

end Note

/-- A step with which the guest does not stray is honest. -/
theorem honest_of_kept (a : VsockStep) (hno : (s.step k a).ledger.strayed = false) :
    s.ledger.strayed = false ∧ s.Honest k a := by
  cases a with
  | transmit pkt dial n =>
    change (s.bookkeep k pkt dial n).strayed = false at hno
    unfold bookkeep at hno
    constructor
    · split at hno
      · exact hno
      · split_ifs at hno
        · exact hno
        · exact strayed_of_note hno
        · exact hno
        · exact hno
    · intro h hp hcid ht hop
      rw [hp] at hno
      simp only [hcid, ne_eq, not_true_eq_false, if_false, ht, if_true] at hno
      exact ((strayed_note_iff hop).1 hno).2.2
  | pump | deliver | receive => exact ⟨hno, trivial⟩

/-- A packet for the connection that the device processes. -/
theorem streamOk_onPacket {c : Conn} {got ps : List Packet} {pkt : List UInt8} {p : GuestPacket}
    {n : ℕ} (hok : StreamOk s.ledger c)
    (hflow : s.ledger.strayed = false → FlowOk s.ledger got c ps)
    (hq : p.op = opRw → p.payload ≠ [] → s.ledger.strayed = false) :
    StreamOk (s.ledger.note got pkt p n) ((c.refresh p).onPacket p).1 := by
  rcases c.onPacket_cases p with ⟨hop, -, heq⟩ | ⟨hop, hover, heq⟩ | ⟨hop, _, _, _, -, heq⟩
  · rw [heq]
    have hall : c.inbound = s.ledger.sent →
        c.stream.written ++ (c.toHost ++ p.payload) = s.ledger.sent ++ p.payload := by
      intro hall
      rw [← append_assoc, ← hall]
      rfl
    refine ⟨?_, fun hno => ?_⟩
    · change c.stream.written ++ (c.toHost ++ p.payload) <+: _
      rw [sent_note, if_pos hop]
      by_cases hnil : p.payload = []
      · rw [hnil, append_nil, append_nil]
        exact hok.sent
      · exact hall (hok.kept (hq hop hnil)) ▸ prefix_rfl
    · rw [sent_note, if_pos hop]
      exact hall (hok.kept (strayed_of_note hno))
  · -- what does not fit is beyond the window as the guest counts it
    rw [heq]
    refine ⟨?_, fun hno => ?_⟩
    · rw [sent_note, if_pos hop]
      exact hok.sent.trans (prefix_append _ _)
    · obtain ⟨hno, -, hlen, hin⟩ := (strayed_note_iff hop).1 hno
      exact absurd ((hflow hno).room hlen hin).2 (not_le.2 hover)
  · rw [heq]
    exact hok.congr rfl (by rw [sent_note, if_neg hop]) (strayed_note_of_ne hop)

theorem step_streamOk (a : VsockStep) (hbase : s.Base k)
    (hflow : s.ledger.strayed = false → s.dev.Holds k (FlowOk s.ledger (s.heard k)))
    (h : s.dev.Holds k fun c _ => StreamOk s.ledger c) (hl : s.Legal k a) (hq : s.Stops k a) :
    (s.step k a).dev.Holds k fun c _ => StreamOk (s.step k a).ledger c := by
  cases a with
  | transmit pkt dial n =>
    have hboth : s.dev.Holds k fun c ps => StreamOk s.ledger c ∧
        (s.ledger.strayed = false → FlowOk s.ledger (s.heard k) c ps) :=
      fun c hc hid => ⟨h c hc hid, fun hno => hflow hno c hc hid⟩
    refine holds_transmit (I := fun b c ps => StreamOk b c ∧
        (b.strayed = false → FlowOk b (s.heard k) c ps)) (J := fun b c _ => StreamOk b c)
      hbase hboth hl (fun _ _ hc => hc.1) ?dropped ?taken ?dialed
    case dropped =>
      intro p _ _ hseen _ c _ hc
      by_cases hop : p.op = opRw
      · refine ⟨?_, fun hno => ?_⟩
        · rw [sent_note, if_pos hop]
          exact hc.1.sent.trans (prefix_append _ _)
        · rw [strayed_note_iff hop, hseen] at hno
          exact absurd hno.2.1 Bool.false_ne_true
      · exact hc.1.congr rfl (by rw [sent_note, if_neg hop]) (strayed_note_of_ne hop)
    case taken =>
      intro p hp hcid _ ht c _ _ ps hok
      exact streamOk_onPacket hok.1 hok.2 (hq p hp hcid ht)
    case dialed =>
      intro p fd _ _ _ _ hk
      rw [hbase.blank hk.le]
      exact .fresh rfl rfl
  | pump maxPayload peers io =>
    refine h.pump hbase.dev hl ?_ ?_ fun c ps _ hc => hc
    · rintro hk c - ⟨gp, hp, fd, d, rfl⟩
      rw [hbase.blank hk]
      exact .fresh rfl rfl
    · intro c ps io _ hc
      refine Conn.pump_rule (P := fun c _ => StreamOk s.ledger c) ?_ (fun _ _ hc => hc) ?_ ?_ ps io
        hc
      · exact fun c ps n _ _ hc => hc.congr (c.inbound_landed n) rfl rfl
      · exact fun c ps got _ _ hc => hc.congr rfl rfl rfl
      · exact fun c ps hc => hc.congr rfl rfl rfl
  | deliver | receive => exact h

/-- **The stream to the host is a prefix of what the guest sent** in every state of a run in
which the guest keeps to its window, with packets the device reassembles, up to its last payload
on the connection. -/
theorem run_prefix (k guestCid : ℕ) (l : List VsockStep)
    (hl : Runs.Each (step k) (fun s a => s.Legal k a ∧ s.Stops k a) (start guestCid) l) :
    let s := Runs.run (step k) (start guestCid) l
    ∀ c ∈ s.dev.everyConn, c.id = k → c.stream.written ++ c.toHost <+: s.ledger.sent := by
  have hinv := Runs.invariant
    (I := fun s : VsockSys => (s.Base k ∧ s.Delivered) ∧
      (s.ledger.strayed = false → s.dev.Holds k (FlowOk s.ledger (s.heard k))) ∧
      s.dev.Holds k fun c _ => StreamOk s.ledger c)
    (fun s a ⟨⟨hbase, hdel⟩, hflow, hok⟩ ha =>
      ⟨⟨step_base a hbase ha.1, step_delivered a hdel ha.1⟩,
        fun hno => step_flow a hbase hdel (hflow (honest_of_kept a hno).1) ha.1
          (honest_of_kept a hno).2,
        step_streamOk a hbase hflow hok ha.1 ha.2⟩)
    ⟨⟨start_base k guestCid, le_refl _⟩, nofun, nofun⟩ hl
  exact fun c hc hid => (hinv.2.2 c hc hid).sent

/-- One byte sent and written through. -/
theorem run_prefix_oneByte :
    let l : List VsockStep := [.transmit (guestPkt opRequest []) (some 3) 0,
      .transmit (guestPkt opRw [7]) none 0, .pump 0 [] fun _ => ⟨[.ok 1], []⟩]
    (Runs.run (step 0) (start 3) l).dev.conns.map (·.stream.written) = [[7]] ∧
    ∀ c ∈ (Runs.run (step 0) (start 3) l).dev.everyConn, c.id = 0 →
      c.stream.written ++ c.toHost <+: (Runs.run (step 0) (start 3) l).ledger.sent := by
  refine ⟨by decide, run_prefix 0 3 _ ⟨⟨opened0_legal, ?_⟩, ⟨?_, ?_⟩, ⟨⟨nodup_nil, ?_⟩,
    trivial⟩, trivial⟩⟩
  · intro h _ _ ht
    exact absurd ht (by simp [touches, start, VsockDevice.new])
  · exact legal_guestPkt (by decide) (by decide) (by decide) _ 0
  · exact fun _ _ _ _ _ _ => rfl
  · exact fun peer hp => absurd hp not_mem_nil

end VsockSys
end Amber.Vsock
