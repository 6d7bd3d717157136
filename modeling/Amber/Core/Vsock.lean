import Amber.Core.HostIo
import Amber.Core.VirtioMmio
import Amber.Core.VsockPacket
import Amber.Lib.WrapCounter

/-!
# The vsock device

`VsockDevice` of `amber-core/src/vsock.rs`: guest streams bridged to host Unix sockets, with
credit flow control in both directions.

Everything that happens to one connection is a function on `Conn` that also returns the
packets it queues for the guest: `Conn.refresh` and `Conn.onPacket` for a guest packet,
`Conn.pump` for the host side.  The device finds the connection and queues the packets.

What the host does is an input of each step: the result of a dial, the connections accepted,
and for every connection the results of its writes and reads (a list that has run out answers
`WouldBlock`).  A few fields are history that no code reads: what has crossed each host
stream, the number of a connection, the packets queued so far and the connections reaped.
-/

namespace Amber.Vsock

open WrapCounter GuestRam

/-- A connected host socket, with the bytes that have crossed it. -/
structure UnixStream where
  fd : ℕ
  written : List UInt8
  taken : List UInt8
  deriving DecidableEq

def UnixStream.connected (fd : ℕ) : UnixStream := ⟨fd, [], []⟩

/-- A packet queued for the guest.  `conn` and `drained` are history: the connection it
belongs to, and how many guest bytes had reached that connection's host stream. -/
structure Packet where
  conn : Option ℕ
  drained : ℕ
  guestPort : ℕ
  hostPort : ℕ
  op : ℕ
  fwdCnt : ℕ
  payload : List UInt8
  deriving DecidableEq

/-- The bytes `send` builds. -/
def Packet.encode (guestCid : ℕ) (p : Packet) : List UInt8 :=
  frame cidHost guestCid p.hostPort p.guestPort p.op bufAlloc p.fwdCnt p.payload

/-! ## One connection -/

/-- One live stream connection; `id` is its number in the order of opening. -/
structure Conn where
  id : ℕ
  guestPort : ℕ
  hostPort : ℕ
  stream : UnixStream
  peerBufAlloc : ℕ
  peerFwdCnt : ℕ
  txCnt : ℕ
  fwdCnt : ℕ
  toHost : List UInt8
  up : Bool
  hostDone : Bool
  deriving DecidableEq

/-- What the host answers one connection during a pump. -/
structure ConnIo where
  writes : List IoWrite
  reads : List IoRead

namespace Conn

/-- Bytes we may still send to the guest under its credit. -/
def guestWindow (c : Conn) : ℕ := c.peerBufAlloc - wsub (2 ^ 32) c.txCnt c.peerFwdCnt

/-- A packet of this connection. -/
def packet (c : Conn) (op fwdCnt : ℕ) (payload : List UInt8) : Packet :=
  { conn := some c.id
    drained := c.stream.written.length
    guestPort := c.guestPort
    hostPort := c.hostPort
    op
    fwdCnt
    payload }

/-- The refresh of the peer's window that every guest packet makes. -/
def refresh (c : Conn) (h : GuestPacket) : Conn :=
  { c with peerBufAlloc := h.alloc, peerFwdCnt := h.fwdCnt }

/-- A guest packet other than a REQUEST. -/
def onPacket (c : Conn) (h : GuestPacket) : Conn × List Packet :=
  if h.op = opResponse then ({ c with up := true }, [])
  else if h.op = opRw then
    if c.toHost.length + h.payload.length > bufAlloc then
      ({ c with up := false, hostDone := true }, [c.packet opRst 0 []])
    else ({ c with toHost := c.toHost ++ h.payload }, [])
  else if h.op = opCreditRequest then (c, [c.packet opCreditUpdate c.fwdCnt []])
  else if h.op = opCreditUpdate then (c, [])
  else if h.op = opShutdown ∨ h.op = opRst then ({ c with hostDone := true, up := false }, [])
  else (c, [])

/-- The host has taken the first `n` buffered bytes. -/
def landed (c : Conn) (n : ℕ) : Conn :=
  { c with
    stream := { c.stream with written := c.stream.written ++ c.toHost.take n }
    toHost := c.toHost.drop n
    fwdCnt := (c.fwdCnt + n) % 2 ^ 32 }

/-- The host side is finished. -/
def done (c : Conn) : Conn := { c with hostDone := true }

/-- The loop that drains `to_host` to the stream.  Returns whether credit changed. -/
def drain (c : Conn) : List IoWrite → Conn × Bool
  | [] => (c, false)
  | w :: ws =>
    if c.toHost = [] then (c, false)
    else
      match w with
      | .ok n =>
        if min n c.toHost.length = 0 then (c, false)
        else (((c.landed (min n c.toHost.length)).drain ws).1, true)
      | .wouldBlock => (c, false)
      | .err => (c.done, false)

/-- The bytes `got` were read from the stream and sent to the guest. -/
def took (c : Conn) (got : List UInt8) : Conn :=
  { c with
    stream := { c.stream with taken := c.stream.taken ++ got }
    txCnt := (c.txCnt + got.length) % 2 ^ 32 }

/-- The loop that reads from the stream under the guest's window. -/
def fetch (maxPayload : ℕ) (c : Conn) : List IoRead → Conn × List Packet
  | [] => (c, [])
  | r :: rs =>
    let take := min c.guestWindow maxPayload
    if take = 0 then (c, [])
    else
      match r with
      | .ok bs =>
        let got := bs.take take
        if got = [] then (c.done, [])
        else
          let rest := (c.took got).fetch maxPayload rs
          (rest.1, c.packet opRw c.fwdCnt got :: rest.2)
      | .wouldBlock => (c, [])
      | .err => (c.done, [])

/-- The body of the pump's loop over connections. -/
def pump (maxPayload : ℕ) (c : Conn) (io : ConnIo) : Conn × List Packet :=
  let drained := c.drain io.writes
  let credit := if drained.2 && drained.1.up then
    [drained.1.packet opCreditUpdate drained.1.fwdCnt []] else []
  let fetched := if drained.1.up then drained.1.fetch maxPayload io.reads else (drained.1, [])
  (fetched.1, credit ++ fetched.2)

/-- The host side is done and nothing is left to flush. -/
def dead (c : Conn) : Bool := c.hostDone && c.toHost.isEmpty

def hasKey (guestPort hostPort : ℕ) (c : Conn) : Bool :=
  c.guestPort == guestPort && c.hostPort == hostPort

end Conn

/-! ## The device -/

structure VsockDevice where
  guestCid : ℕ
  conns : List Conn
  rx : List Packet
  nextHostPort : ℕ
  /-- History: how many connections have been opened. -/
  opened : ℕ
  /-- History: every packet queued so far. -/
  queued : List Packet
  /-- History: the connections that have been reaped. -/
  gone : List Conn

namespace VsockDevice

def new (guestCid : ℕ) : VsockDevice :=
  { guestCid
    conns := []
    rx := []
    nextHostPort := ephemeralBase
    opened := 0
    queued := []
    gone := [] }

/-- Queue packets for the guest. -/
def send (d : VsockDevice) (ps : List Packet) : VsockDevice :=
  { d with rx := d.rx ++ ps, queued := d.queued ++ ps }

def find (d : VsockDevice) (guestPort hostPort : ℕ) : Option ℕ :=
  d.conns.findIdx? (Conn.hasKey guestPort hostPort)

/-- The ephemeral port after `hp`. -/
def nextPort (hp : ℕ) : ℕ := if hp + 1 < 2 ^ 32 then hp + 1 else ephemeralBase

/-- The loop of `alloc_host_port`: the port found and the next one to try. -/
def allocFrom (conns : List Conn) (guestPort : ℕ) : ℕ → ℕ → ℕ × ℕ
  | 0, hp => (ephemeralBase, hp)
  | tries + 1, hp =>
    if conns.any (Conn.hasKey guestPort hp) then allocFrom conns guestPort tries (nextPort hp)
    else (hp, nextPort hp)

/-- The number of ephemeral ports. -/
def ephemeralPorts : ℕ := 2 ^ 32 - ephemeralBase

/-- Take up a new connection and tell the guest. -/
def push (d : VsockDevice) (c : Conn) (op : ℕ) : VsockDevice :=
  ({ d with conns := d.conns ++ [c], opened := d.opened + 1 } : VsockDevice).send
    [c.packet op 0 []]

/-- A packet of no connection. -/
def reply (h : GuestPacket) (op : ℕ) : Packet :=
  { conn := none
    drained := 0
    guestPort := h.srcPort
    hostPort := h.dstPort
    op
    fwdCnt := 0
    payload := [] }

/-- The connection a REQUEST opens when the dial succeeds. -/
def dialed (d : VsockDevice) (h : GuestPacket) (fd : ℕ) : Conn :=
  { id := d.opened
    guestPort := h.srcPort
    hostPort := h.dstPort
    stream := .connected fd
    peerBufAlloc := h.alloc
    peerFwdCnt := h.fwdCnt
    txCnt := 0
    fwdCnt := 0
    toHost := []
    up := true
    hostDone := false }

/-- Let connection `i` change and queue what it sends. -/
def update (d : VsockDevice) (i : ℕ) (f : Conn → Conn × List Packet) : VsockDevice :=
  match d.conns[i]? with
  | some c => ({ d with conns := d.conns.set i (f c).1 } : VsockDevice).send (f c).2
  | none => d

/-- A REQUEST: the connection that dialling gives, or a reset. -/
def onRequest (d : VsockDevice) (h : GuestPacket) (dial : Option ℕ) : VsockDevice :=
  match dial with
  | some fd => d.push (d.dialed h fd) opResponse
  | none => d.send [reply h opRst]

/-- A packet addressed to the host; `dial` is what dialling the host port gives. -/
def onPacket (d : VsockDevice) (h : GuestPacket) (dial : Option ℕ) : VsockDevice :=
  match d.find h.srcPort h.dstPort with
  | some i =>
    if h.op = opRequest then (d.update i fun c => (c.refresh h, [])).onRequest h dial
    else d.update i fun c => (c.refresh h).onPacket h
  | none =>
    if h.op = opRequest then d.onRequest h dial
    else if h.op = opCreditRequest then d.send [reply h opCreditUpdate]
    else d

def onGuestPacket (d : VsockDevice) (pkt : List UInt8) (dial : Option ℕ) : VsockDevice :=
  match parse pkt with
  | none => d
  | some h => if h.dstCid ≠ cidHost then d else d.onPacket h dial

/-- `handle` on the transmit queue, given the bytes of the readable buffers: a packet that
claims more than the window is dropped. -/
def transmit (d : VsockDevice) (pkt : List UInt8) (dial : Option ℕ) : VsockDevice :=
  if pkt.length > maxPacket then d else d.onGuestPacket pkt dial

/-- A host peer that asked for a guest port. -/
def accepted (d : VsockDevice) (guestPort hostPort fd : ℕ) : Conn :=
  { id := d.opened
    guestPort
    hostPort
    stream := .connected fd
    peerBufAlloc := 0
    peerFwdCnt := 0
    txCnt := 0
    fwdCnt := 0
    toHost := []
    up := false
    hostDone := false }

/-- Accept one host peer: pick a host port and send the guest a REQUEST. -/
def accept (d : VsockDevice) (peer : ℕ × ℕ) : VsockDevice :=
  let alloc := allocFrom d.conns peer.1 ephemeralPorts d.nextHostPort
  ({ d with nextHostPort := alloc.2 } : VsockDevice).push (d.accepted peer.1 alloc.1 peer.2)
    opRequest

/-- Move bytes both ways on every connection, in order. -/
def pumpConns (d : VsockDevice) (maxPayload : ℕ) (io : ℕ → ConnIo) : VsockDevice :=
  let moved := d.conns.mapIdx fun i c => c.pump maxPayload (io i)
  ({ d with conns := moved.map Prod.fst } : VsockDevice).send (moved.flatMap Prod.snd)

/-- Drop the dead connections and tell the guest. -/
def reap (d : VsockDevice) : VsockDevice :=
  let deads := d.conns.filter Conn.dead
  ({ d with conns := d.conns.filter (!·.dead), gone := d.gone ++ deads } : VsockDevice).send
    (deads.map fun c => c.packet opShutdown c.fwdCnt [])

/-- The host-side work: accept, move bytes, reap. -/
def pump (d : VsockDevice) (maxPayload : ℕ) (peers : List (ℕ × ℕ)) (io : ℕ → ConnIo) :
    VsockDevice :=
  ((peers.foldl accept d).pumpConns maxPayload io).reap

/-- The next packet for the guest's receive queue. -/
def pollRx (d : VsockDevice) (maxFrame : ℕ) (peers : List (ℕ × ℕ)) (io : ℕ → ConnIo) :
    VsockDevice × Option (List UInt8) :=
  let d := if d.rx = [] then d.pump (maxFrame - hdrLen) peers io else d
  ({ d with rx := d.rx.tail }, d.rx.head?.map (·.encode d.guestCid))

end VsockDevice

/-! ## Behind the transport -/

/-- What the host does at each call of a device: the descriptor a dial gives, the peers accepted,
and the I/O of every connection. -/
structure HostSide where
  dial : ℕ → Option ℕ
  peers : ℕ → List (ℕ × ℕ)
  io : ℕ → ℕ → ConnIo

/-- A device with its host side, and the number of calls so far. -/
structure HostedDevice where
  dev : VsockDevice
  host : HostSide
  calls : ℕ

namespace HostedDevice

def rx : ℕ := 0
def tx : ℕ := 1
def event : ℕ := 2

/-- The bytes of the readable buffers. -/
def txPacket (ram : GuestRam) (bufs : List Buf) : List UInt8 :=
  (bufs.filter fun b => !b.writable).flatMap fun b => ram.read b.addr b.len

instance : VirtioDevice HostedDevice where
  deviceId _ := 19
  config d off :=
    if off = 0 then d.dev.guestCid % 2 ^ 32
    else if off = 4 then d.dev.guestCid / 2 ^ 32 % 2 ^ 32
    else 0
  numQueues _ := 3
  handle d queue ram bufs :=
    if queue = tx then
      ({ d with dev := d.dev.transmit (txPacket ram bufs) (d.host.dial d.calls),
                calls := d.calls + 1 }, ram, 0)
    else (d, ram, 0)
  rxQueue _ := some rx
  eventQueue _ := some event
  pollRx d maxFrame :=
    let r := d.dev.pollRx maxFrame (d.host.peers d.calls) (d.host.io d.calls)
    ({ d with dev := r.1, calls := d.calls + 1 }, r.2)
  wantsPoll _ := true

theorem ram_handle (d : HostedDevice) (queue : ℕ) (ram : GuestRam) (bufs : List Buf) :
    (VirtioDevice.handle d queue ram bufs).2 = (ram, 0) := by
  show (if queue = tx then _ else _ : HostedDevice × GuestRam × ℕ).2 = _
  split_ifs <;> rfl

instance : LawfulDevice HostedDevice where
  chainOk _ _ := True
  handle_frame d queue ram bufs _ := by
    rw [ram_handle]
    exact ChangesOnly.refl _ ram
  handle_len d queue ram bufs := by
    rw [ram_handle]
    exact Nat.two_pow_pos 32

end HostedDevice

end Amber.Vsock
