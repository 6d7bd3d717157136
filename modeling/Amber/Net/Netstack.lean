import Mathlib.Data.List.Induction
import Mathlib.Data.List.Nodup
import Amber.Net.Bridge
import Amber.Net.Wire

/-!
# The userspace netstack: flows, port forwards and DNS

The rest of `amber-net`: which SYNs of the guest become proxied flows, how their frames are
translated, how accepted host connections are dialed into the guest and how DNS queries are
relayed.  The guest hands frames of any bytes to `send` and takes frames from `poll`; each of
the two is a fixed sequence of the acts modelled here, and `Call.acts` spells it out.  What
smoltcp and the host do is an input of each act.

`asked` is history: the addresses a connect thread was started for.

* `act_flows` — what an act can do to the table of flows.
* `egress_confined` — in every state of every run, the host was asked to connect only to addresses
  the policy admits and the guest sent a SYN to, no guest port has two flows to one
  destination, and flows and DNS queries stay within their caps.
-/

namespace Amber.Net

open List

/-! ## Addresses -/

/-- An IPv4 address as the number its four bytes make. -/
def ipv4 (a b c d : ℕ) : ℕ := ((a * 256 + b) * 256 + c) * 256 + d

def gatewayIp : ℕ := ipv4 10 0 0 1
def guestIp : ℕ := ipv4 10 0 0 2

/-- The four bytes of an address. -/
def octets (ip : ℕ) : ℕ × ℕ × ℕ × ℕ :=
  (ip / 256 ^ 3 % 256, ip / 256 ^ 2 % 256, ip / 256 % 256, ip % 256)

def isLoopback (ip : ℕ) : Bool := (octets ip).1 == 127

def isLinkLocal (ip : ℕ) : Bool :=
  match octets ip with
  | (a, b, _, _) => a == 169 && b == 254

def isBroadcast (ip : ℕ) : Bool := octets ip == (255, 255, 255, 255)

def isUnspecified (ip : ℕ) : Bool := octets ip == (0, 0, 0, 0)

def isDocumentation (ip : ℕ) : Bool :=
  match octets ip with
  | (a, b, c, _) =>
    (a, b, c) == (192, 0, 2) || (a, b, c) == (198, 51, 100) || (a, b, c) == (203, 0, 113)

def isPrivate (ip : ℕ) : Bool :=
  match octets ip with
  | (a, b, _, _) => a == 10 || (a == 172 && b / 16 == 1) || (a == 192 && b == 168)

/-- Whether the guest is forbidden from dialing `ip`; `allowPrivate` is whether the operator has
set AMBER_NET_ALLOW_PRIVATE=1. -/
def egressBlocked (allowPrivate : Bool) (ip : ℕ) : Bool :=
  if isLoopback ip || isLinkLocal ip || isBroadcast ip || isUnspecified ip ||
      isDocumentation ip then true
  else if isPrivate ip then !allowPrivate
  else false

/-! ## The state -/

def maxFlows : ℕ := 256
def maxPendingDns : ℕ := 256

/-- A DNS query in flight, with the guest's endpoint. -/
structure DnsQuery where
  guestAddr : ℕ
  guestPort : ℕ

structure Netstack where
  backend : Backend
  pendingDns : List DnsQuery
  /-- The guest ports that connections accepted by the listeners are forwarded to. -/
  accepted : List ℕ
  nextEph : ℕ
  /-- Frames for the netstack, and from it. -/
  rx : List (List UInt8)
  tx : List (List UInt8)
  /-- Frames handed to the guest. -/
  out : List (List UInt8)
  /-- A slice failed: the thread has panicked. -/
  crashed : Bool
  asked : List (ℕ × ℕ)

/-- What names a flow. -/
def Flow.names (f : Flow) : ℕ × ℕ × ℕ × ℕ := (f.guestPort, f.extIp, f.extPort, f.eph)

/-- The flow a guest frame with this tuple belongs to. -/
def Flow.carries (t : TcpTuple) (f : Flow) : Bool :=
  f.guestPort == t.sport && f.extIp == t.dst && f.extPort == t.dport

/-- The flow a reply with this tuple belongs to. -/
def Flow.answers (t : TcpTuple) (f : Flow) : Bool := f.eph == t.sport && f.guestPort == t.dport

/-- `next_eph.wrapping_add(1).max(40000)`. -/
def ephAfter (eph : ℕ) : ℕ := max ((eph + 1) % 2 ^ 16) 40000

/-- What smoltcp does in one `poll_iface`: progress on the sockets, frames to transmit. -/
structure IfacePoll where
  flows : ℕ → SockPoll
  inbound : ℕ → SockPoll
  sent : List (List UInt8)

/-- What the host does in one `pump_dns`: the queries received, each with whether the resolver
could be asked, and which pending queries are still without an answer or an error. -/
structure DnsPump where
  queries : List (DnsQuery × Bool)
  waiting : ℕ → Bool

/-- The steps `send` and `poll` are made of, and the listeners'. -/
inductive Act
  | maybeOpenFlow (frame : List UInt8) (listens : Bool)
  /-- `dnat_in`, and the frame goes to the netstack. -/
  | deliver (frame : List UInt8)
  | pollIface (p : IfacePoll)
  | acceptInbound (connects : ℕ → Bool)
  | pumpFlows (env : ℕ → FlowEnv)
  | pumpInbound (env : ℕ → IoWrite × IoRead)
  | pumpDns (p : DnsPump)
  /-- A frame of the netstack, through `dnat_out`, to the guest. -/
  | transmit
  /-- A listener thread queues an accepted connection. -/
  | incoming (guestPort : ℕ)

namespace Netstack

def new : Netstack :=
  { backend := ⟨[], []⟩
    pendingDns := []
    accepted := []
    nextEph := 40000
    rx := []
    tx := []
    out := []
    crashed := false
    asked := [] }

def flows (s : Netstack) : List Flow := s.backend.flows

/-- The checks of `maybe_open_flow`: a SYN without ACK from the guest, to a destination that has
no flow from this port yet, with room in the table and allowed by the policy. -/
def freshSyn (allowPrivate : Bool) (s : Netstack) (frame : List UInt8) : Option TcpTuple :=
  match tcpTuple frame with
  | none => none
  | some t =>
    if !t.syn || t.ack || t.src != guestIp then none
    else if s.flows.any (Flow.carries t) then none
    else if maxFlows ≤ s.flows.length then none
    else if egressBlocked allowPrivate t.dst then none
    else some t

/-- Start the connect thread, then listen on the next ephemeral port. -/
def maybeOpenFlow (allowPrivate : Bool) (s : Netstack) (frame : List UInt8) (listens : Bool) :
    Netstack :=
  match s.freshSyn allowPrivate frame with
  | none => s
  | some t =>
    let eph := ephAfter s.nextEph
    let s := { s with asked := s.asked ++ [(t.dst, t.dport)], nextEph := eph }
    if listens then
      { s with backend := s.backend.step (.openFlow t.sport t.dst t.dport eph) }
    else s

/-- Rewrite a guest frame so that its destination is the gateway and the flow's port. -/
def dnatIn (sums : Checksums) (s : Netstack) (frame : List UInt8) : Option (List UInt8) :=
  match tcpTuple frame with
  | none => some frame
  | some t =>
    if t.src != guestIp then some frame
    else
      match s.flows.find? (Flow.carries t) with
      | some f => rewrite sums frame none (some gatewayIp) none (some f.eph)
      | none => some frame

/-- Rewrite a reply of the gateway so that it comes from the host the guest dialed. -/
def dnatOut (sums : Checksums) (s : Netstack) (frame : List UInt8) : Option (List UInt8) :=
  match tcpTuple frame with
  | none => some frame
  | some t =>
    if t.src != gatewayIp || t.dst != guestIp then some frame
    else
      match s.flows.find? (Flow.answers t) with
      | some f => rewrite sums frame (some f.extIp) none (some f.extPort) none
      | none => some frame

/-- Dial the guest for one accepted connection, from the next ephemeral port. -/
def dialGuest (s : Netstack) (connects : Bool) : Netstack :=
  let s := { s with nextEph := ephAfter s.nextEph }
  if connects then { s with backend := s.backend.step .acceptInbound } else s

def acceptInbound (s : Netstack) (connects : ℕ → Bool) : Netstack :=
  let dialed := (List.range s.accepted.length).foldl (fun s i => s.dialGuest (connects i)) s
  { dialed with accepted := [] }

/-- Forward one query, unless too many are in flight. -/
def forwardDns (pending : List DnsQuery) (query : DnsQuery × Bool) : List DnsQuery :=
  if maxPendingDns ≤ pending.length then pending
  else if query.2 then pending ++ [query.1]
  else pending

def pumpDns (s : Netstack) (p : DnsPump) : Netstack :=
  let pending := p.queries.foldl forwardDns s.pendingDns
  { s with pendingDns := (pending.zipIdx.filter fun q => p.waiting q.2).map Prod.fst }

def transmit (sums : Checksums) (s : Netstack) : Netstack :=
  match s.tx with
  | [] => s
  | frame :: tx =>
    match s.dnatOut sums frame with
    | some f => { s with tx, out := s.out ++ [f] }
    | none => { s with tx, crashed := true }

def deliver (sums : Checksums) (s : Netstack) (frame : List UInt8) : Netstack :=
  match s.dnatIn sums frame with
  | some f => { s with rx := s.rx ++ [f] }
  | none => { s with crashed := true }

/-- One act of a thread that has not panicked. -/
def run1 (sums : Checksums) (allowPrivate : Bool) (s : Netstack) : Act → Netstack
  | .maybeOpenFlow frame listens => s.maybeOpenFlow allowPrivate frame listens
  | .deliver frame => s.deliver sums frame
  | .pollIface p =>
    { s with
      backend := s.backend.step (.pollIface p.flows p.inbound)
      rx := []
      tx := s.tx ++ p.sent }
  | .acceptInbound connects => s.acceptInbound connects
  | .pumpFlows env => { s with backend := s.backend.step (.pumpFlows env) }
  | .pumpInbound env => { s with backend := s.backend.step (.pumpInbound env) }
  | .pumpDns p => s.pumpDns p
  | .transmit => s.transmit sums
  | .incoming guestPort => { s with accepted := s.accepted ++ [guestPort] }

def act (sums : Checksums) (allowPrivate : Bool) (s : Netstack) (a : Act) : Netstack :=
  if s.crashed then s else s.run1 sums allowPrivate a

end Netstack

/-! ## Calls -/

/-- What the outside does during one call. -/
structure CallEnv where
  listens : Bool
  before : IfacePoll
  connects : ℕ → Bool
  flows : ℕ → FlowEnv
  inbound : ℕ → IoWrite × IoRead
  dns : DnsPump
  after : IfacePoll

/-- The guest sends a frame, the run loop polls, a listener accepts a connection. -/
inductive Call
  | send (frame : List UInt8) (env : CallEnv)
  | poll (env : CallEnv)
  | incoming (guestPort : ℕ)

/-- The acts of a call, in order. -/
def Call.acts : Call → List Act
  | .send frame e => [.maybeOpenFlow frame e.listens, .deliver frame, .pollIface e.before,
      .pumpFlows e.flows, .pumpDns e.dns, .pollIface e.after]
  | .poll e => [.pollIface e.before, .acceptInbound e.connects, .pumpFlows e.flows,
      .pumpInbound e.inbound, .pumpDns e.dns, .pollIface e.after, .transmit]
  | .incoming guestPort => [.incoming guestPort]

namespace Netstack

variable {sums : Checksums} {allowPrivate : Bool} {s : Netstack}

/-! ## What an act does to the flows -/

/-- The names of the live flows. -/
def names (s : Netstack) : List (ℕ × ℕ × ℕ × ℕ) := s.flows.map Flow.names

theorem names_resolveHost (e : Connect) (f : Flow) : (resolveHost e f).names = f.names := by
  unfold resolveHost
  split
  · cases e <;> rfl
  · rfl

theorem names_pumpFlow (e : FlowEnv) (f : Flow) : (pumpFlow e f).names = f.names := by
  unfold pumpFlow
  simp only
  split
  · exact names_resolveHost e.connect f
  · exact names_resolveHost e.connect f

theorem map_names_mapIdx {l : List Flow} {g : ℕ → Flow → Flow}
    (h : ∀ i f, (g i f).names = f.names) :
    (l.mapIdx g).map Flow.names = l.map Flow.names := by
  refine ext_getElem (by simp) fun i h1 h2 => ?_
  simp [h]

theorem dialGuest_frame (s : Netstack) (connects : Bool) :
    (s.dialGuest connects).flows = s.flows ∧ (s.dialGuest connects).asked = s.asked ∧
      (s.dialGuest connects).pendingDns = s.pendingDns ∧
      (s.dialGuest connects).nextEph = ephAfter s.nextEph ∧
      (s.dialGuest connects).crashed = s.crashed := by
  cases connects <;> exact ⟨rfl, rfl, rfl, rfl, rfl⟩

/-- Accepting connections only moves the counter. -/
theorem acceptInbound_frame (s : Netstack) (connects : ℕ → Bool) :
    (s.acceptInbound connects).flows = s.flows ∧ (s.acceptInbound connects).asked = s.asked ∧
      (s.acceptInbound connects).pendingDns = s.pendingDns ∧
      (s.acceptInbound connects).nextEph = ephAfter^[s.accepted.length] s.nextEph ∧
      (s.acceptInbound connects).crashed = s.crashed := by
  have hfold : ∀ (n : ℕ), let d := (range n).foldl (fun s i => s.dialGuest (connects i)) s
      d.flows = s.flows ∧ d.asked = s.asked ∧ d.pendingDns = s.pendingDns ∧
        d.nextEph = ephAfter^[n] s.nextEph ∧ d.crashed = s.crashed := by
    intro n
    induction n with
    | zero => exact ⟨rfl, rfl, rfl, rfl, rfl⟩
    | succ n ih =>
      rw [range_succ, foldl_append, foldl_cons, foldl_nil]
      obtain ⟨h1, h2, h3, h4, h5⟩ := dialGuest_frame
        ((range n).foldl (fun s i => s.dialGuest (connects i)) s) (connects n)
      obtain ⟨ih1, ih2, ih3, ih4, ih5⟩ := ih
      refine ⟨h1.trans ih1, h2.trans ih2, h3.trans ih3, h4.trans ?_, h5.trans ih5⟩
      rw [Function.iterate_succ_apply', ih4]
  exact hfold s.accepted.length

theorem deliver_frame (sums : Checksums) (s : Netstack) (frame : List UInt8) :
    (s.deliver sums frame).flows = s.flows ∧ (s.deliver sums frame).asked = s.asked ∧
      (s.deliver sums frame).pendingDns = s.pendingDns ∧
      (s.deliver sums frame).nextEph = s.nextEph := by
  unfold deliver
  split <;> exact ⟨rfl, rfl, rfl, rfl⟩

theorem transmit_frame (sums : Checksums) (s : Netstack) :
    (s.transmit sums).flows = s.flows ∧ (s.transmit sums).asked = s.asked ∧
      (s.transmit sums).pendingDns = s.pendingDns ∧
      (s.transmit sums).nextEph = s.nextEph := by
  unfold transmit
  split
  · exact ⟨rfl, rfl, rfl, rfl⟩
  · split <;> exact ⟨rfl, rfl, rfl, rfl⟩

variable {frame : List UInt8} {t : TcpTuple}

/-- What `maybe_open_flow` has checked when it goes ahead. -/
theorem freshSyn_eq_some (h : s.freshSyn allowPrivate frame = some t) :
    tcpTuple frame = some t ∧ t.syn = true ∧ t.ack = false ∧ t.src = guestIp ∧
      (∀ f ∈ s.flows, f.carries t = false) ∧ s.flows.length < maxFlows ∧
      egressBlocked allowPrivate t.dst = false := by
  unfold freshSyn at h
  cases ht : tcpTuple frame with
  | none => rw [ht] at h; cases h
  | some t' =>
    simp only [ht] at h
    split_ifs at h with h1 h2 h3 h4
    obtain rfl := Option.some.inj h
    simp only [Bool.or_eq_true, Bool.not_eq_true', bne_iff_ne, not_or, Bool.not_eq_true,
      Bool.not_eq_false, not_not] at h1
    refine ⟨rfl, h1.1.1, h1.1.2, h1.2, fun f hf => ?_, not_le.1 h3, by simpa using h4⟩
    exact Bool.eq_false_iff.2 fun hc => h2 (any_eq_true.2 ⟨f, hf, hc⟩)

/-- **What an act does to the flows, the connects and the counter.**  A SYN that passes the
checks asks for one connect and takes one port, and opens one flow if the socket listens; every
other act asks for nothing and at most closes flows. -/
theorem act_flows (sums : Checksums) (allowPrivate : Bool) (s : Netstack) (a : Act) :
    (∃ frame listens t, a = .maybeOpenFlow frame listens ∧
        s.freshSyn allowPrivate frame = some t ∧
        (s.act sums allowPrivate a).asked = s.asked ++ [(t.dst, t.dport)] ∧
        (s.act sums allowPrivate a).names = s.names ++
          (if listens then [(t.sport, t.dst, t.dport, ephAfter s.nextEph)] else []) ∧
        (s.act sums allowPrivate a).nextEph = ephAfter s.nextEph) ∨
      ((s.act sums allowPrivate a).asked = s.asked ∧
        (s.act sums allowPrivate a).names.Sublist s.names ∧
        ∃ n, (s.act sums allowPrivate a).nextEph = ephAfter^[n] s.nextEph) := by
  have hsame : ∀ s' : Netstack, s'.asked = s.asked → s'.flows = s.flows → s'.nextEph = s.nextEph →
      s'.asked = s.asked ∧ s'.names.Sublist s.names ∧ ∃ n, s'.nextEph = ephAfter^[n] s.nextEph :=
    fun s' h1 h2 h3 => ⟨h1, by rw [names, h2]; exact List.Sublist.refl _, 0, h3⟩
  unfold act
  split_ifs with hcrash
  · exact .inr (hsame s rfl rfl rfl)
  cases a with
  | maybeOpenFlow frame listens =>
    cases hsyn : s.freshSyn allowPrivate frame with
    | none =>
      refine .inr (hsame _ ?_ ?_ ?_) <;> simp only [run1, maybeOpenFlow, hsyn]
    | some t =>
      refine .inl ⟨frame, listens, t, rfl, hsyn, ?_⟩
      cases listens with
      | true =>
        simp only [run1, maybeOpenFlow, hsyn, if_true]
        exact ⟨trivial, map_append, trivial⟩
      | false =>
        simp only [run1, maybeOpenFlow, hsyn, Bool.false_eq_true, if_false]
        exact ⟨trivial, (append_nil _).symm, trivial⟩
  | deliver frame =>
    obtain ⟨h1, h2, -, h4⟩ := s.deliver_frame sums frame
    exact .inr (hsame _ h2 h1 h4)
  | pollIface p =>
    have hnames : (s.run1 sums allowPrivate (.pollIface p)).names = s.names :=
      map_names_mapIdx fun i f => rfl
    exact .inr ⟨rfl, hnames ▸ List.Sublist.refl _, 0, rfl⟩
  | acceptInbound connects =>
    obtain ⟨h1, h2, -, h4, -⟩ := s.acceptInbound_frame connects
    exact .inr ⟨h2, by rw [run1, names, h1]; exact List.Sublist.refl _, _, h4⟩
  | pumpFlows env =>
    have hnames : (s.flows.mapIdx fun i f => pumpFlow (env i) f).map Flow.names = s.names :=
      map_names_mapIdx fun i f => names_pumpFlow (env i) f
    exact .inr ⟨rfl, hnames ▸ filter_sublist.map _, 0, rfl⟩
  | pumpInbound _ | pumpDns _ | incoming _ => exact .inr (hsame _ rfl rfl rfl)
  | transmit =>
    obtain ⟨h1, h2, -, h4⟩ := s.transmit_frame sums
    exact .inr (hsame _ h2 h1 h4)

/-- A SYN that passes the checks opens a flow on the next port. -/
theorem act_opens (hcrash : s.crashed = false)
    (hsyn : s.freshSyn allowPrivate frame = some t) :
    (s.act sums allowPrivate (.maybeOpenFlow frame true)).names =
      s.names ++ [(t.sport, t.dst, t.dport, ephAfter s.nextEph)] := by
  simp only [act, hcrash, Bool.false_eq_true, if_false, run1, maybeOpenFlow, hsyn, if_true]
  exact map_append

/-! ## The table of flows -/

/-- What a guest frame is matched by. -/
def keys (s : Netstack) : List (ℕ × ℕ × ℕ) := s.names.map fun n => (n.1, n.2.1, n.2.2.1)

/-- The table of flows is keyed and within its cap. -/
structure Tabled (s : Netstack) : Prop where
  keyed : s.keys.Nodup
  capped : s.flows.length ≤ maxFlows

theorem carries_iff {f : Flow} :
    f.carries t = true ↔ (f.guestPort, f.extIp, f.extPort) = (t.sport, t.dst, t.dport) := by
  simp [Flow.carries, Prod.ext_iff, and_assoc]

theorem length_names (s : Netstack) : s.names.length = s.flows.length := length_map ..

theorem new_tabled : new.Tabled := ⟨nodup_nil, Nat.zero_le _⟩

theorem act_tabled (a : Act) (h : s.Tabled) : (s.act sums allowPrivate a).Tabled := by
  rcases act_flows sums allowPrivate s a with ⟨frame, listens, t, -, hsyn, -, hnames, -⟩ |
    ⟨-, hsub, -⟩
  · obtain ⟨-, -, -, -, hnew, hroom, -⟩ := freshSyn_eq_some hsyn
    have hcarry : (t.sport, t.dst, t.dport) ∉ s.keys := by
      intro hmem
      rw [keys, names, map_map] at hmem
      obtain ⟨f, hf, hkey⟩ := mem_map.1 hmem
      exact absurd ((hnew f hf).symm.trans (carries_iff.2 hkey)) (by decide)
    cases listens with
    | true =>
      refine ⟨?_, ?_⟩
      · rw [keys, hnames, map_append]
        exact h.keyed.append (nodup_singleton _) (disjoint_singleton.2 hcarry)
      · rw [← length_names, hnames, length_append, length_names]
        exact hroom
    | false =>
      have hnames' : (s.act sums allowPrivate a).names = s.names := by
        rw [hnames]
        exact append_nil _
      refine ⟨by rw [keys, hnames']; exact h.keyed, ?_⟩
      rw [← length_names, hnames', length_names]
      exact h.capped
  · refine ⟨h.keyed.sublist (hsub.map _), ?_⟩
    have := hsub.length_le
    rw [length_names, length_names] at this
    exact this.trans h.capped

/-! ## DNS queries in flight -/

theorem length_forwardDns_le (queries : List (DnsQuery × Bool)) :
    ∀ pending : List DnsQuery, pending.length ≤ maxPendingDns →
      (queries.foldl forwardDns pending).length ≤ maxPendingDns := by
  induction queries with
  | nil => exact fun pending h => h
  | cons q queries ih =>
    intro pending h
    refine ih _ ?_
    unfold forwardDns
    split_ifs with hfull hasked
    · exact h
    · rw [length_append, length_singleton]
      omega
    · exact h

theorem act_pendingDns (a : Act) (h : s.pendingDns.length ≤ maxPendingDns) :
    (s.act sums allowPrivate a).pendingDns.length ≤ maxPendingDns := by
  unfold act
  split_ifs with hcrash
  · exact h
  cases a with
  | maybeOpenFlow frame listens =>
    simp only [run1, maybeOpenFlow]
    split
    · exact h
    · split_ifs <;> exact h
  | deliver frame =>
    rw [run1, (s.deliver_frame sums frame).2.2.1]
    exact h
  | pollIface p => exact h
  | acceptInbound connects =>
    rw [run1, (s.acceptInbound_frame connects).2.2.1]
    exact h
  | pumpFlows env | pumpInbound env => exact h
  | pumpDns p =>
    refine (length_map ..).trans_le ((length_filter_le _ _).trans ?_)
    rw [length_zipIdx]
    exact length_forwardDns_le p.queries s.pendingDns h
  | transmit =>
    rw [run1, (s.transmit_frame sums).2.2.1]
    exact h
  | incoming guestPort => exact h

/-! ## Runs of calls -/

/-- A SYN without ACK that the guest sent to this address and port. -/
def SynTo (frame : List UInt8) (x : ℕ × ℕ) : Prop :=
  ∃ t, tcpTuple frame = some t ∧ t.syn = true ∧ t.ack = false ∧ t.src = guestIp ∧
    (t.dst, t.dport) = x

/-- A frame handed to `maybe_open_flow` was sent by the guest. -/
theorem mem_acts {calls : List Call} {listens : Bool}
    (h : Act.maybeOpenFlow frame listens ∈ calls.flatMap Call.acts) :
    ∃ env, Call.send frame env ∈ calls := by
  obtain ⟨c, hc, ha⟩ := mem_flatMap.1 h
  cases c with
  | send frame' env =>
    simp only [Call.acts, mem_cons, Act.maybeOpenFlow.injEq, reduceCtorEq, not_mem_nil,
      or_false] at ha
    exact ⟨env, ha.1 ▸ hc⟩
  | poll env => simp [Call.acts] at ha
  | incoming guestPort => simp [Call.acts] at ha

/-- Every connect was asked for by a SYN of the run, to an address the policy admits. -/
theorem asked_of_run (sums : Checksums) (allowPrivate : Bool) (l : List Act) :
    ∀ x ∈ (Runs.run (act sums allowPrivate) new l).asked, egressBlocked allowPrivate x.1 = false ∧
      ∃ frame listens, Act.maybeOpenFlow frame listens ∈ l ∧ SynTo frame x := by
  induction l using reverseRecOn with
  | nil => exact nofun
  | append_singleton l a ih =>
    have hold : ∀ x ∈ (Runs.run (act sums allowPrivate) new l).asked,
        egressBlocked allowPrivate x.1 = false ∧
          ∃ frame listens, Act.maybeOpenFlow frame listens ∈ l ++ [a] ∧ SynTo frame x := by
      intro x hx
      obtain ⟨hok, frame, listens, hmem, hsyn⟩ := ih x hx
      exact ⟨hok, frame, listens, mem_append_left _ hmem, hsyn⟩
    intro x hx
    rw [Runs.run_concat] at hx
    rcases act_flows sums allowPrivate (Runs.run (act sums allowPrivate) new l) a with
      ⟨frame, listens, t, rfl, hsyn, hasked, -⟩ | ⟨hasked, -⟩
    · rw [hasked] at hx
      rcases mem_append.1 hx with hx | hx
      · exact hold x hx
      · obtain rfl := mem_singleton.1 hx
        obtain ⟨ht, h1, h2, h3, -, -, hok⟩ := freshSyn_eq_some hsyn
        exact ⟨hok, frame, listens, mem_append_right _ (mem_singleton_self _), t, ht, h1,
          h2, h3, rfl⟩
    · rw [hasked] at hx
      exact hold x hx

/-- **Egress is confined.**  For every sequence of frames the guest sends, polls and accepted
connections, in every state on the way: every address the host was asked to connect to is one
the policy does not block and one the guest sent a SYN without ACK to; no guest port has two
live flows to one address and port; there are at most `maxFlows` flows and at most
`maxPendingDns` DNS queries in flight. -/
theorem egress_confined (sums : Checksums) (allowPrivate : Bool) (calls : List Call) :
    ∀ pre, pre <+: calls.flatMap Call.acts →
      let s := Runs.run (act sums allowPrivate) new pre
      (∀ x ∈ s.asked, egressBlocked allowPrivate x.1 = false ∧
        ∃ frame env, Call.send frame env ∈ calls ∧ SynTo frame x) ∧
      s.keys.Nodup ∧ s.flows.length ≤ maxFlows ∧ s.pendingDns.length ≤ maxPendingDns := by
  intro pre hpre s
  have htab : s.Tabled := Runs.invariant_always (I := Tabled) (fun _ a => act_tabled a)
    new_tabled pre
  have hdns : s.pendingDns.length ≤ maxPendingDns :=
    Runs.invariant_always (I := fun s : Netstack => s.pendingDns.length ≤ maxPendingDns)
      (fun _ a => act_pendingDns a) (Nat.zero_le _) pre
  refine ⟨fun x hx => ?_, htab.keyed, htab.capped, hdns⟩
  obtain ⟨hok, frame, listens, hmem, hsyn⟩ := asked_of_run sums allowPrivate pre x hx
  obtain ⟨env, hsend⟩ := mem_acts (hpre.subset hmem)
  exact ⟨hok, frame, env, hsend, hsyn⟩

/-- A SYN of the guest from port `sport`, to `a.b.c.d:80`. -/
def synFrame (sport : UInt8) (a b c d : UInt8) : List UInt8 :=
  [0, 0, 0, 0, 0, 0, 0, 0, 0, 0, 0, 0, 8, 0, 0x45, 0, 0, 40, 0, 0, 0, 0, 64, 6, 0, 0, 10, 0, 0, 2,
    a, b, c, d, 0, sport, 0, 80, 0, 0, 0, 0, 0, 0, 0, 0, 0x50, 2, 0, 0, 0, 0, 0, 0]

/-- A netstack that sums to zero. -/
def noSums : Checksums := ⟨fun _ => 0, fun _ _ _ => 0⟩

/-- Sockets that are not closed, with nothing to read. -/
def idlePoll : IfacePoll :=
  ⟨fun _ => ⟨64 * 1024, false, [], false⟩, fun _ => ⟨64 * 1024, false, [], false⟩, []⟩

/-- A call in which the socket listens and the host connects, and nothing more happens. -/
def connectingEnv : CallEnv where
  listens := true
  before := idlePoll
  connects := fun _ => true
  flows := fun _ => ⟨.ready, .wouldBlock, .wouldBlock⟩
  inbound := fun _ => (.wouldBlock, .wouldBlock)
  dns := ⟨[], fun _ => true⟩
  after := idlePoll

/-- A SYN to `8.8.8.8:80`: the host is asked to connect there. -/
theorem egress_confined_syn :
    let calls := [Call.send (synFrame 7 8 8 8 8) connectingEnv]
    ∃ s, s = Runs.run (act noSums false) new (calls.flatMap Call.acts) ∧
      s.asked = [(ipv4 8 8 8 8, 80)] ∧ s.keys = [(7, ipv4 8 8 8 8, 80)] ∧
      (∀ x ∈ s.asked, egressBlocked false x.1 = false ∧
        ∃ frame env, Call.send frame env ∈ calls ∧ SynTo frame x) ∧
      s.keys.Nodup ∧ s.flows.length ≤ maxFlows ∧ s.pendingDns.length ≤ maxPendingDns :=
  ⟨_, rfl, by decide, by decide, egress_confined noSums false _ _ prefix_rfl⟩

end Netstack

end Amber.Net
