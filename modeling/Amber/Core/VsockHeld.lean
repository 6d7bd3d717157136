import Mathlib.Algebra.Order.BigOperators.Group.List
import Amber.Core.VsockKeys
import Amber.Core.VsockPoll
import Amber.Core.VsockWindow

/-!
# How much a guest can make the vsock device hold

The device holds bytes in two places: what the guest has sent on a connection and the host has
not taken yet (`to_host`), and the packets that wait for the guest (`rx`).  The first is kept
below `BUF_ALLOC` for each connection.  The second is filled by a pump, under the windows the
guest has advertised, and only when it is empty; but a guest packet can add to it at any time.
A REQUEST that is refused, a CREDIT_REQUEST with or without a connection, and an RW that does
not fit are each answered by one packet, and nothing looks at how many are waiting.  And a pump
can drop connections whose last packets it has just queued.

* `Conn.pump_size` — one connection queues less than `2 ^ 32` packets and bytes in a pump.
* `Load.transmit`, `Load.pump` — what a step does to the queue.
* `held_lt` — if no packet that merely draws an answer comes while `n` packets wait, and no pump
  ends more than `n` connections, then what is held stays below a bound that depends on `n` and
  the number of live connections only.
* `credit_requests_pile_up` — without that there is no bound: CREDIT_REQUESTs on no connection.
-/

namespace Amber.Vsock

open WrapCounter List Runs

/-- The bytes of payload in a list of packets. -/
def payloads (ps : List Packet) : ℕ := (ps.map fun p => p.payload.length).sum

theorem payloads_append (ps qs : List Packet) :
    payloads (ps ++ qs) = payloads ps + payloads qs := by
  rw [payloads, map_append, sum_append, payloads, payloads]

theorem payloads_of_control {ps : List Packet} (h : ∀ p ∈ ps, p.payload = []) :
    payloads ps = 0 := by
  refine sum_eq_zero fun n hn => ?_
  obtain ⟨p, hp, rfl⟩ := mem_map.1 hn
  rw [h p hp, length_nil]

theorem sum_map_le {α : Type} {f : α → ℕ} {l : List α} {b : ℕ} (h : ∀ x ∈ l, f x ≤ b) :
    (l.map f).sum ≤ l.length * b := by
  simpa using sum_le_card_nsmul (l.map f) b (forall_mem_map.2 h)

theorem payloads_flatMap {α : Type} (f : α → List Packet) (l : List α) :
    payloads (l.flatMap f) = (l.map fun x => payloads (f x)).sum := by
  simp only [payloads, flatMap_def, map_flatten, sum_flatten, map_map, Function.comp_def]

theorem payloads_tail_le (ps : List Packet) : payloads ps.tail ≤ payloads ps := by
  cases ps with
  | nil => exact le_refl _
  | cons p ps => exact Nat.le_add_left _ _

/-! ## What one connection queues in a pump -/

namespace Conn

variable {c : Conn}

/-- What is read is taken from the window. -/
theorem guestWindow_took (halloc : c.peerBufAlloc < 2 ^ 32) {got : List UInt8}
    (hgot : got.length ≤ c.guestWindow) :
    got.length + (c.took got).guestWindow ≤ c.guestWindow := by
  have hwsub : wsub (2 ^ 32) ((c.txCnt + got.length) % 2 ^ 32) c.peerFwdCnt =
      (wsub (2 ^ 32) c.txCnt c.peerFwdCnt + got.length) % 2 ^ 32 := by
    simp only [wsub]
    omega
  simp only [guestWindow, took] at hgot ⊢
  rw [hwsub]
  rcases Nat.eq_zero_or_pos got.length with hzero | hpos
  · rw [hzero, add_zero, zero_add, wsub, Nat.mod_mod]
  · omega

variable (maxPayload : ℕ)

/-- Every packet of a fetch carries a byte at least, and together they fit the window. -/
theorem fetch_size (halloc : c.peerBufAlloc < 2 ^ 32) (rs : List IoRead) :
    (c.fetch maxPayload rs).2.length ≤ payloads (c.fetch maxPayload rs).2 ∧
      payloads (c.fetch maxPayload rs).2 ≤ c.guestWindow := by
  have hrule := @fetch_rule
    (fun c' ps => c'.peerBufAlloc < 2 ^ 32 ∧ ps.length ≤ payloads ps ∧
      payloads ps + c'.guestWindow ≤ c.guestWindow) maxPayload ?_ rs (fun _ c' ps h => h) c []
    ⟨halloc, Nat.zero_le _, (Nat.zero_add _).le⟩
  · exact ⟨hrule.2.1, (Nat.le_add_right _ _).trans hrule.2.2⟩
  · rintro c' ps got hne hlen ⟨halloc', hcount, hsum⟩
    have hpos : 0 < got.length := length_pos_iff.2 hne
    have hwin := guestWindow_took halloc' (hlen.trans (min_le_left ..))
    have hpay : payloads (ps ++ [c'.packet opRw c'.fwdCnt got]) = payloads ps + got.length :=
      payloads_append ..
    refine ⟨halloc', ?_, ?_⟩
    · rw [hpay, length_append, length_singleton]
      omega
    · omega

theorem drain_peerBufAlloc (c : Conn) (ws : List IoWrite) :
    (c.drain ws).1.peerBufAlloc = c.peerBufAlloc :=
  drain_rule (P := fun c' => c'.peerBufAlloc = c.peerBufAlloc) (fun _ _ _ _ h => h) ws
    (fun _ _ h => h) c rfl

/-- **What a pump queues for one connection**, whatever the host has for it. -/
theorem pump_size (halloc : c.peerBufAlloc < 2 ^ 32) (io : ConnIo) :
    (c.pump maxPayload io).2.length ≤ 2 ^ 32 ∧ payloads (c.pump maxPayload io).2 ≤ 2 ^ 32 := by
  set c' := (c.drain io.writes).1
  have halloc' : c'.peerBufAlloc < 2 ^ 32 := (drain_peerBufAlloc c io.writes).trans_lt halloc
  obtain ⟨hcount, hsum⟩ := fetch_size maxPayload halloc' io.reads
  have hwin : c'.guestWindow ≤ c'.peerBufAlloc := Nat.sub_le _ _
  obtain ⟨credit, fetched, hps, hclen, hcpay, hflen, hfpay⟩ : ∃ credit fetched,
      (c.pump maxPayload io).2 = credit ++ fetched ∧ credit.length ≤ 1 ∧ payloads credit = 0 ∧
      fetched.length ≤ c'.guestWindow ∧ payloads fetched ≤ c'.guestWindow := by
    refine ⟨_, _, rfl, ?_, ?_, ?_, ?_⟩
    · split_ifs
      · exact le_refl _
      · exact Nat.zero_le _
    · split_ifs <;> rfl
    · split_ifs
      · exact hcount.trans hsum
      · exact Nat.zero_le _
    · split_ifs
      · exact hsum
      · exact Nat.zero_le _
  rw [hps, length_append, payloads_append]
  omega

theorem pump_peerBufAlloc (c : Conn) (io : ConnIo) :
    (c.pump maxPayload io).1.peerBufAlloc = c.peerBufAlloc :=
  pump_rule (P := fun c' _ => c'.peerBufAlloc = c.peerBufAlloc) (fun _ _ _ _ _ h => h)
    (fun _ _ h => h) (fun _ _ _ _ _ h => h) (fun _ _ h => h) [] io rfl

end Conn

/-! ## Connections that end in a pump -/

/-- The host answers with an error or the end of the stream. -/
def ConnIo.ends (io : ConnIo) : Bool :=
  io.writes.any (· = .err) || io.reads.any fun r => r = .err || r = .ok []

namespace Conn

theorem drain_hostDone {ws : List IoWrite} (h : ∀ w ∈ ws, w ≠ .err) (c : Conn) :
    (c.drain ws).1.hostDone = c.hostDone :=
  drain_rule (P := fun c' => c'.hostDone = c.hostDone) (fun _ _ _ _ hc => hc) ws
    (fun herr => absurd rfl (h _ herr)) c rfl

theorem fetch_hostDone {maxPayload : ℕ} {rs : List IoRead} (h : ∀ r ∈ rs, r ≠ .err ∧ r ≠ .ok []) :
    ∀ c : Conn, (c.fetch maxPayload rs).1.hostDone = c.hostDone :=
  fun c => fetch_rule (P := fun c' _ => c'.hostDone = c.hostDone) (fun _ _ _ _ _ hc => hc) rs
    (fun hend => hend.elim (fun he => absurd rfl (h _ he).1) fun he => absurd rfl (h _ he).2)
    c [] rfl

/-- A connection that is dead after a pump was closing before, or its host stream ended. -/
theorem ending_of_dead {maxPayload : ℕ} {c : Conn} {io : ConnIo}
    (h : (c.pump maxPayload io).1.dead = true) : (c.hostDone || io.ends) = true := by
  rw [Bool.or_eq_true]
  by_contra hno
  rw [not_or, Bool.not_eq_true, Bool.not_eq_true, ConnIo.ends, Bool.or_eq_false_iff,
    any_eq_false, any_eq_false] at hno
  obtain ⟨hdone, hwrites, hreads⟩ := hno
  have hdrain : (c.drain io.writes).1.hostDone = c.hostDone :=
    drain_hostDone (fun w hw heq => hwrites w hw (by simpa using heq)) c
  have hpumped : (c.pump maxPayload io).1.hostDone = c.hostDone := by
    unfold pump
    simp only
    split_ifs
    · refine (fetch_hostDone (fun r hr => ?_) _).trans hdrain
      have := hreads r hr
      simp only [Bool.or_eq_true, decide_eq_true_eq, not_or] at this
      exact this
    · exact hdrain
  rw [dead, hpumped, hdone, Bool.false_and] at h
  cases h

/-- A pump does nothing for a connection that is not up and has nothing to flush. -/
theorem pump_idle (maxPayload : ℕ) {c : Conn} (io : ConnIo) (hup : c.up = false)
    (hto : c.toHost = []) : (c.pump maxPayload io).1 = c := by
  have hdrain : c.drain io.writes = (c, false) := by
    cases io.writes with
    | nil => rfl
    | cons w ws =>
      exact if_pos hto
  simp [pump, hdrain, hup]

end Conn

namespace VsockDevice

variable {n : ℕ} {d : VsockDevice}

/-- How many connections are closing, or end by what the host answers. -/
def ending (d : VsockDevice) (io : ℕ → ConnIo) : ℕ :=
  d.conns.zipIdx.countP fun x => x.1.hostDone || (io x.2).ends

/-- The peers a pump accepts: one idle connection and one empty packet each. -/
theorem acceptAll_new (peers : List (ℕ × ℕ)) :
    ∀ d : VsockDevice, ∃ (new : List Conn) (ps : List Packet),
      (peers.foldl accept d).conns = d.conns ++ new ∧ (peers.foldl accept d).rx = d.rx ++ ps ∧
      new.length = ps.length ∧ payloads ps = 0 ∧
      ∀ c ∈ new, c.up = false ∧ c.toHost = [] ∧ c.hostDone = false := by
  induction peers with
  | nil =>
    exact fun d => ⟨[], [], (append_nil _).symm, (append_nil _).symm, rfl, rfl, nofun⟩
  | cons peer peers ih =>
    intro d
    obtain ⟨new, ps, hconns, hrx, hlen, hpay, hidle⟩ := ih (d.accept peer)
    obtain ⟨c, q, hc, hq, hqpay, hup, hto, hdone⟩ : ∃ c q, (d.accept peer).conns = d.conns ++ [c] ∧
        (d.accept peer).rx = d.rx ++ [q] ∧ payloads [q] = 0 ∧ c.up = false ∧ c.toHost = [] ∧
        c.hostDone = false := ⟨_, _, rfl, rfl, rfl, rfl, rfl, rfl⟩
    refine ⟨c :: new, q :: ps, ?_, ?_, by rw [length_cons, length_cons, hlen], ?_, ?_⟩
    · rw [foldl_cons, hconns, hc, append_assoc, singleton_append]
    · rw [foldl_cons, hrx, hq, append_assoc, singleton_append]
    · rw [← singleton_append, payloads_append, hqpay, hpay]
    · exact forall_mem_cons.2 ⟨⟨hup, hto, hdone⟩, hidle⟩

/-- No more connections die in a pump than were ending. -/
theorem countP_dead_le (maxPayload : ℕ) (io : ℕ → ConnIo) {new : List Conn}
    (hidle : ∀ c ∈ new, c.up = false ∧ c.toHost = [] ∧ c.hostDone = false) :
    (((d.conns ++ new).mapIdx fun i c => c.pump maxPayload (io i)).map Prod.fst).countP Conn.dead ≤
      d.ending io := by
  rw [mapIdx_append, map_append, countP_append]
  have hnew : ((new.mapIdx fun i c => c.pump maxPayload (io (i + d.conns.length))).map
      Prod.fst).countP Conn.dead = 0 := by
    refine countP_eq_zero.2 fun c hc => ?_
    obtain ⟨x, hx, rfl⟩ := mem_map.1 hc
    obtain ⟨i, hi, rfl⟩ := mem_mapIdx.1 hx
    obtain ⟨hup, hto, hdone⟩ := hidle _ (getElem_mem hi)
    rw [Conn.pump_idle maxPayload _ hup hto, Conn.dead, hdone, Bool.false_and]
    exact Bool.false_ne_true
  rw [hnew, add_zero, ending, mapIdx_eq_zipIdx_map, map_map, countP_map]
  exact countP_mono_left fun x _ hx => Conn.ending_of_dead hx

/-! ## The queue for the guest -/

/-- No connection's window is wider than the header can say. -/
def Windows (d : VsockDevice) : Prop := ∀ c ∈ d.everyConn, c.peerBufAlloc < 2 ^ 32

theorem Windows.transmit (h : d.Windows) (pkt : List UInt8) (dial : Option ℕ) :
    (d.transmit pkt dial).Windows := by
  refine every_transmit h (fun p hp c _ => parse_alloc_lt hp) (fun p hp c _ => ?_)
    fun p hp d fd => parse_alloc_lt hp
  rcases c.onPacket_cases p with ⟨-, -, heq⟩ | ⟨-, -, heq⟩ | ⟨-, _, _, _, -, heq⟩ <;> rw [heq] <;>
    exact parse_alloc_lt hp

theorem Windows.pump (h : d.Windows) (maxPayload : ℕ) (peers : List (ℕ × ℕ)) (io : ℕ → ConnIo) :
    (d.pump maxPayload peers io).Windows := by
  refine every_pump h (fun d gp hp fd => Nat.two_pow_pos 32) fun c io hc => ?_
  rw [Conn.pump_peerBufAlloc]
  exact hc

/-- What waits for the guest, against the number of live connections. -/
structure Load (n : ℕ) (d : VsockDevice) : Prop where
  count : d.rx.length ≤ (2 ^ 32 + 2) * (d.conns.length + n)
  payload : payloads d.rx ≤ 2 ^ 32 * (d.conns.length + n)

/-- The payload does not fit in the buffer of the connection the packet is for. -/
def overflows (d : VsockDevice) (p : GuestPacket) : Bool :=
  match d.find p.srcPort p.dstPort with
  | some i => (d.conns[i]?).any fun c => decide (c.toHost.length + p.payload.length > bufAlloc)
  | none => false

/-- The packet draws an answer and opens no connection: a REQUEST that is refused, a
CREDIT_REQUEST, or an RW that does not fit. -/
def draws (d : VsockDevice) (p : GuestPacket) (dial : Option ℕ) : Bool :=
  (p.op == opRequest && dial.isNone) || p.op == opCreditRequest ||
    (p.op == opRw && d.overflows p)

/-- The connections a packet opens. -/
def newConns (p : GuestPacket) (dial : Option ℕ) : ℕ :=
  if p.op = opRequest ∧ dial.isSome = true then 1 else 0

/-- The packets it adds to the queue. -/
def answers (d : VsockDevice) (p : GuestPacket) (dial : Option ℕ) : ℕ :=
  (if d.draws p dial then 1 else 0) + newConns p dial

/-- **What a guest packet adds to the queue**: control packets, one for an answer it draws and
one for a connection it opens. -/
theorem onPacket_rx (d : VsockDevice) (p : GuestPacket) (dial : Option ℕ) :
    ∃ ps, (d.onPacket p dial).rx = d.rx ++ ps ∧ (∀ q ∈ ps, q.payload = []) ∧
      ps.length ≤ d.answers p dial := by
  obtain ⟨ps, hps, -, hrx⟩ := onPacket_drawn d p dial
  refine ⟨ps, hrx, hps.payload, ?_⟩
  cases hps with
  | nothing => exact Nat.zero_le _
  | packet _ _ hop =>
    rcases hop with hop | hop | ⟨hop, i, c, hfind, hi, hover⟩
    · cases dial with
      | none => simp [answers, draws, hop]
      | some fd => simp [answers, newConns, hop]
    · simp [answers, draws, hop]
    · simp [answers, draws, overflows, hop, hfind, hi, hover]

theorem length_conns_onPacket (d : VsockDevice) (p : GuestPacket) (dial : Option ℕ) :
    (d.onPacket p dial).conns.length =
      d.conns.length + newConns p dial := by
  have h := congrArg length (ports_onPacket d p dial)
  rw [ports, ports, length_append, length_map, length_map] at h
  rw [h, newConns]
  split_ifs <;> rfl

/-- A guest packet keeps the load, if one that draws an answer finds room in the queue. -/
theorem Load.transmit (h : d.Load n) {pkt : List UInt8} {dial : Option ℕ}
    (hroom : ∀ p, parse pkt = some p → p.dstCid = cidHost → pkt.length ≤ maxPacket →
      d.draws p dial = true → d.rx.length < n) : (d.transmit pkt dial).Load n := by
  rcases transmit_eq d pkt dial with ⟨heq, -⟩ | ⟨p, hp, hcid, hlen, heq⟩
  · rwa [heq]
  · rw [heq]
    obtain ⟨ps, hrx, hpay, hps⟩ := onPacket_rx d p dial
    have hconns := length_conns_onPacket d p dial
    rw [answers] at hps
    generalize newConns p dial = k at hps hconns
    obtain ⟨hcount, hload⟩ := h
    refine ⟨?_, ?_⟩
    · rw [hrx, length_append, hconns]
      by_cases hdraws : d.draws p dial = true
      · have hlt := hroom p hp hcid hlen hdraws
        rw [if_pos hdraws] at hps
        omega
      · rw [if_neg hdraws] at hps
        omega
    · rw [hrx, payloads_append, payloads_of_control hpay, hconns]
      omega

/-- A pump of an empty queue, if no more than `n` connections end in it. -/
theorem Load.pump (hw : d.Windows) (hrx : d.rx = []) {maxPayload : ℕ} {peers : List (ℕ × ℕ)}
    {io : ℕ → ConnIo} (hend : d.ending io ≤ n) : (d.pump maxPayload peers io).Load n := by
  obtain ⟨new, ps, hconns, hps, hlen, hpay, hidle⟩ := acceptAll_new peers d
  set d' := peers.foldl accept d
  have hw' : d'.Windows := every_acceptAll (fun d gp hp fd => Nat.two_pow_pos 32) peers hw
  set moved := d'.conns.mapIdx fun i c => c.pump maxPayload (io i) with hmoved
  have hmlen : moved.length = d'.conns.length := length_mapIdx
  -- what every connection queues
  have heach : ∀ x ∈ moved, x.2.length ≤ 2 ^ 32 ∧ payloads x.2 ≤ 2 ^ 32 := by
    intro x hx
    obtain ⟨c, hc, i, rfl⟩ := mem_pumped hx
    exact Conn.pump_size maxPayload (hw' c (mem_append_left _ hc)) (io i)
  have hcount : (moved.flatMap Prod.snd).length ≤ moved.length * 2 ^ 32 := by
    rw [length_flatMap]
    exact sum_map_le fun x hx => (heach x hx).1
  have hload : payloads (moved.flatMap Prod.snd) ≤ moved.length * 2 ^ 32 := by
    rw [payloads_flatMap]
    exact sum_map_le fun x hx => (heach x hx).2
  -- those that die were ending
  set conns := moved.map Prod.fst with hcs
  have hdead : conns.countP Conn.dead ≤ n := by
    rw [hcs, hmoved, hconns]
    exact (countP_dead_le maxPayload io hidle).trans hend
  have hsplit : conns.length = (conns.filter (!·.dead)).length + conns.countP Conn.dead := by
    rw [length_eq_countP_add_countP Conn.dead, ← countP_eq_length_filter, add_comm]
    congr 1
    exact countP_congr fun c _ => by simp
  have hclen : conns.length = d'.conns.length := by rw [hcs, length_map, hmlen]
  have hnew : ps.length ≤ d'.conns.length := by
    rw [hconns, length_append]
    omega
  have hrx' : (d.pump maxPayload peers io).rx = ps ++ moved.flatMap Prod.snd ++
      (conns.filter Conn.dead).map (fun c => c.packet opShutdown c.fwdCnt []) := by
    show d'.rx ++ _ ++ _ = _
    rw [hps, hrx, nil_append]
    rfl
  have hafter : (d.pump maxPayload peers io).conns = conns.filter (!·.dead) := rfl
  constructor
  · rw [hrx', hafter, length_append, length_append, length_map, ← countP_eq_length_filter]
    omega
  · have hshut : payloads ((conns.filter Conn.dead).map
        fun c => c.packet opShutdown c.fwdCnt []) = 0 := by
      refine payloads_of_control fun q hq => ?_
      obtain ⟨c, -, rfl⟩ := mem_map.1 hq
      rfl
    rw [hrx', hafter, payloads_append, payloads_append, hpay, hshut]
    omega

theorem Load.taken (h : d.Load n) : ({ d with rx := d.rx.tail } : VsockDevice).Load n :=
  ⟨(length_tail.trans_le (Nat.sub_le _ _)).trans h.count,
    (payloads_tail_le d.rx).trans h.payload⟩

/-! ## What the device holds -/

/-- The bytes the device holds: what waits for the host on every connection, and the packets
that wait for the guest. -/
def held (d : VsockDevice) : ℕ :=
  (d.conns.map fun c => c.toHost.length).sum + (d.rx.map fun p => (p.encode d.guestCid).length).sum

/-- A bound on what is held that depends on the number of live connections. -/
def heldBound (n conns : ℕ) : ℕ :=
  bufAlloc * conns + (hdrLen * (2 ^ 32 + 2) + 2 ^ 32) * (conns + n) + 1

theorem held_eq (d : VsockDevice) :
    d.held =
      (d.conns.map fun c => c.toHost.length).sum + (hdrLen * d.rx.length + payloads d.rx) := by
  rw [held]
  congr 1
  have henc : ∀ p : Packet, (p.encode d.guestCid).length = hdrLen + p.payload.length :=
    fun p => length_frame ..
  induction d.rx with
  | nil => rfl
  | cons p ps ih =>
    rw [map_cons, sum_cons, ih, henc, payloads, payloads, map_cons, sum_cons,
      length_cons, mul_add]
    omega

theorem Load.bounded (h : d.Load n) (hbuf : d.Buffered) : d.held < heldBound n d.conns.length := by
  have hto : (d.conns.map fun c => c.toHost.length).sum ≤ d.conns.length * bufAlloc :=
    sum_map_le fun c hc => hbuf c (mem_append_left _ hc)
  have hhdr := Nat.mul_le_mul_left hdrLen h.count
  rw [held_eq, heldBound, add_mul, mul_assoc, mul_comm bufAlloc]
  have := h.payload
  omega

end VsockDevice

/-! ## Runs -/

namespace PollSys

open VsockDevice
open VsockSys (guestPkt guestHdr parse_guestPkt)

/-- A packet that only draws an answer is sent while fewer than `n` packets wait, and a poll that
pumps meets at most `n` connections that end. -/
def Paced (n : ℕ) (s : PollSys) : PollStep → Prop
  | .transmit pkt dial => ∀ p, parse pkt = some p → p.dstCid = cidHost → pkt.length ≤ maxPacket →
      s.dev.draws p dial = true → s.dev.rx.length < n
  | .poll _ _ io => s.dev.rx = [] → s.dev.ending io ≤ n

/-- What holds in every state of a paced run. -/
structure Modest (n : ℕ) (s : PollSys) : Prop where
  windows : s.dev.Windows
  buffered : s.dev.Buffered
  load : s.dev.Load n

variable {n : ℕ} {s : PollSys}

theorem start_modest (n guestCid : ℕ) : (start guestCid).Modest n :=
  ⟨nofun, nofun,
    ⟨Nat.zero_le _, Nat.zero_le _⟩⟩

theorem step_modest (a : PollStep) (h : s.Modest n) (ha : s.Paced n a) : (s.step a).Modest n := by
  cases a with
  | transmit pkt dial =>
    exact ⟨h.windows.transmit pkt dial, h.buffered.transmit pkt dial, h.load.transmit ha⟩
  | poll maxFrame peers io =>
    by_cases hrx : s.dev.rx = []
    · have hdev : (s.step (.poll maxFrame peers io)).dev =
          { s.dev.pump (maxFrame - hdrLen) peers io with
            rx := (s.dev.pump (maxFrame - hdrLen) peers io).rx.tail } := by
        simp only [step, pollRx, if_pos hrx]
      have hpump : (s.dev.pump (maxFrame - hdrLen) peers io).Load n :=
        Load.pump h.windows hrx (ha hrx)
      refine ⟨?_, ?_, ?_⟩
      · rw [hdev]
        exact h.windows.pump (maxFrame - hdrLen) peers io
      · rw [hdev]
        exact h.buffered.pump (maxFrame - hdrLen) peers io
      · rw [hdev]
        exact hpump.taken
    · have hdev : (s.step (.poll maxFrame peers io)).dev =
          { s.dev with rx := s.dev.rx.tail } := by
        simp only [step, pollRx, if_neg hrx]
      exact ⟨hdev ▸ h.windows, hdev ▸ h.buffered, hdev ▸ h.load.taken⟩

/-- **What is held is bounded in a paced run.**  For every sequence of guest packets and polls in
which no packet that only draws an answer comes while `n` packets wait for the guest, and no pump
meets more than `n` connections that end, what the device holds stays in every state below a
bound that depends on the number of live connections. -/
theorem held_lt (n guestCid : ℕ) (l : List PollStep)
    (hl : Runs.Each step (Paced n) (start guestCid) l) :
    ∀ pre, pre <+: l → (Runs.run step (start guestCid) pre).dev.held <
      heldBound n (Runs.run step (start guestCid) pre).dev.conns.length := by
  rintro pre ⟨post, rfl⟩
  have hmodest : (run step (start guestCid) pre).Modest n :=
    invariant (I := Modest n) (fun _ a => step_modest a) (start_modest n guestCid)
      (each_append.1 hl).1
  exact hmodest.load.bounded hmodest.buffered

/-- A CREDIT_REQUEST. -/
def ask : PollStep := .transmit (guestPkt opCreditRequest []) none

/-- A CREDIT_REQUEST, its answer taken, and another one: never more than one packet waits. -/
theorem held_lt_twoRequests :
    let l : List PollStep := [ask, .poll 100 [] fun _ => ⟨[], []⟩, ask]
    (run step (start 3) l).dev.held = hdrLen ∧
      ∀ pre, pre <+: l → (run step (start 3) pre).dev.held <
        heldBound 1 (run step (start 3) pre).dev.conns.length := by
  intro l
  refine ⟨by decide, held_lt 1 3 l ⟨?_, ?_, ?_, trivial⟩⟩
  · exact fun _ _ _ _ _ => by decide
  · exact fun hrx => absurd hrx (by decide)
  · exact fun _ _ _ _ _ => by decide

/-- With no connection a CREDIT_REQUEST adds a packet to the queue. -/
theorem ask_unconnected {s : PollSys} (h : s.dev.conns = []) :
    let s' := s.step ask
    s'.dev.conns = [] ∧ s'.dev.rx.length = s.dev.rx.length + 1 := by
  have hparse : parse (guestPkt opCreditRequest []) =
      some (guestHdr opCreditRequest []) :=
    parse_guestPkt opCreditRequest (by decide) (by decide)
  have heq : s.dev.transmit (guestPkt opCreditRequest []) none =
      s.dev.send [reply (guestHdr opCreditRequest []) opCreditUpdate] := by
    have hfind : s.dev.find 40000 1024 = none := by
      rw [find, h]
      rfl
    rcases transmit_eq s.dev (guestPkt opCreditRequest []) none with
      ⟨-, hno⟩ | ⟨p, hp, -, -, heq⟩
    · exact absurd (by decide) (hno _ hparse rfl)
    · obtain rfl := Option.some.inj (hparse.symm.trans hp)
      rw [heq, VsockDevice.onPacket]
      simp only [guestHdr, hfind]
      rfl
  intro s'
  have hdev : s'.dev = s.dev.send [reply (guestHdr opCreditRequest []) opCreditUpdate] :=
    heq
  rw [hdev]
  exact ⟨h, length_append⟩

/-- **Without pacing there is no bound.**  Whatever the bound, a guest that opens no connection,
posts no buffer and keeps sending CREDIT_REQUESTs passes it. -/
theorem credit_requests_pile_up :
    ¬ ∃ bound : ℕ → ℕ, ∀ l : List PollStep,
      (∀ a ∈ l, a = ask) →
      (Runs.run step (start 3) l).dev.held <
        bound (Runs.run step (start 3) l).dev.conns.length := by
  rintro ⟨bound, hbound⟩
  have hpile : ∀ k (s : PollSys), s.dev.conns = [] →
      let s' := run step s (replicate k ask)
      s'.dev.conns = [] ∧ k ≤ s'.dev.rx.length := by
    intro k
    induction k with
    | zero => exact fun s h => ⟨h, Nat.zero_le _⟩
    | succ k ih =>
      intro s h
      rw [replicate_succ', run_concat]
      obtain ⟨hconns, hlen⟩ := ask_unconnected (ih s h).1
      exact ⟨hconns, by rw [hlen]; exact Nat.succ_le_succ (ih s h).2⟩
  obtain ⟨hconns, hlen⟩ := hpile (bound 0) (start 3) rfl
  have hlt := hbound (replicate (bound 0) _) fun a ha => eq_of_mem_replicate ha
  rw [hconns, held_eq, length_nil] at hlt
  simp only [hdrLen] at hlt
  omega

end PollSys
end Amber.Vsock
