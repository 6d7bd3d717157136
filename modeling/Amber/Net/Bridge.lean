import Mathlib.Data.List.TakeDrop
import Amber.Core.HostIo
import Amber.Lib.Runs

/-!
# The TCP proxy: bridging a netstack socket to a host stream

`amber-net` terminates the guest's TCP connections on sockets of the userspace
netstack and copies bytes between such a socket and a host stream.  `bridge` is the
copying step, shared by connections the guest opens (`pumpFlow`) and connections the
host opens (`pumpInbound`).  The netstack itself is outside this repository: a
`Socket` shows what the bridge relies on — whether there is room to send, how much, and
that `sendSlice` takes as many bytes as there is room for.

* `step_lossless_iff` — one action keeps a connection lossless exactly when the chunk
  it reads fits the free space.
* `lossless_iff_fits` — a connection is lossless in every state of a run exactly when
  every chunk read in the run fitted the space that was free.
* `bridge_drops_bytes` — a read larger than the free space loses the excess.
-/

namespace Amber.Net

open List

/-! ## Sockets and streams -/

/-- A TCP socket of the netstack. -/
structure Socket where
  /-- Free bytes in the transmit buffer. -/
  txFree : ℕ
  /-- Whether the transmit half is open. -/
  maySend : Bool
  /-- Received bytes the proxy has not consumed yet. -/
  rx : List UInt8
  /-- Whether the state machine has reached `Closed`. -/
  closed : Bool
  /-- Every byte that has been enqueued for the guest. -/
  enqueued : List UInt8
  deriving DecidableEq

/-- A host stream, as far as the proxy sees it. -/
structure TcpStream where
  /-- Every byte read from it. -/
  taken : List UInt8
  /-- Every byte written to it. -/
  given : List UInt8
  deriving DecidableEq

namespace Socket

def canSend (s : Socket) : Bool := s.maySend && decide (0 < s.txFree)

def canRecv (s : Socket) : Bool := !s.rx.isEmpty

/-- `send_slice`: enqueue as much of `data` as there is room for. -/
def sendSlice (s : Socket) (data : List UInt8) : Socket :=
  { s with txFree := s.txFree - data.length, enqueued := s.enqueued ++ data.take s.txFree }

/-- `recv` with a closure that consumed `n` bytes. -/
def recv (s : Socket) (n : ℕ) : Socket := { s with rx := s.rx.drop n }

/-- `close`: no more data will be sent. -/
def close (s : Socket) : Socket := { s with maySend := false }

/-- `abort`: drop the connection at once. -/
def abort (s : Socket) : Socket := { s with maySend := false, closed := true }

/-- A socket just created, with its 64 KiB buffers. -/
def new : Socket := ⟨64 * 1024, false, [], false, []⟩

end Socket

/-- The buffer `bridge` reads a host chunk into. -/
def bridgeBuf : ℕ := 32 * 1024

/-- The guest-to-host half of `bridge`: hand what the guest sent to the host, `w` being
what the host answers to the write. -/
def bridgeToHost (w : IoWrite) (sock : Socket) (host : TcpStream) : Socket × TcpStream :=
  if sock.canRecv then
    -- a failed write consumes nothing (`unwrap_or(0)`)
    let n := match w with
      | .ok n => min n sock.rx.length
      | _ => 0
    (sock.recv n, { host with given := host.given ++ sock.rx.take n })
  else (sock, host)

/-- The host-to-guest half of `bridge`: `r` is what the host answers to a read into a
32 KiB buffer. -/
def bridgeToGuest (r : IoRead) (sock : Socket) (host : TcpStream) (hostDone : Bool) :
    Socket × TcpStream × Bool :=
  if sock.canSend && !hostDone then
    match r with
    | .ok bs =>
      let chunk := bs.take bridgeBuf
      if chunk.isEmpty then (sock.close, host, true)
      else (sock.sendSlice chunk, { host with taken := host.taken ++ chunk }, hostDone)
    | .wouldBlock => (sock, host, hostDone)
    | .err => (sock.close, host, true)
  else (sock, host, hostDone)

/-- Bridge bytes between a netstack socket and its host stream. -/
def bridge (w : IoWrite) (r : IoRead) (sock : Socket) (host : TcpStream) (hostDone : Bool) :
    Socket × TcpStream × Bool :=
  let (sock, host) := bridgeToHost w sock host
  bridgeToGuest r sock host hostDone

/-! ## One proxied connection -/

/-- One proxied connection: its socket, its host stream and the flag that says the host
side is finished. -/
structure Conn where
  sock : Socket
  host : TcpStream
  hostDone : Bool
  deriving DecidableEq

/-- What can happen to a connection. -/
inductive ConnStep where
  /-- `pump_flows` bridges it: the flag is kept. -/
  | pump (w : IoWrite) (r : IoRead)
  /-- `pump_inbound` bridges it: the flag starts as `false` and is thrown away. -/
  | pumpInbound (w : IoWrite) (r : IoRead)
  /-- The netstack makes progress: transmit space is freed or used up, data arrives,
  the connection changes state. -/
  | poll (txFree : ℕ) (maySend : Bool) (rx : List UInt8) (closed : Bool)

namespace Conn

/-- The connection after one step. -/
def step (c : Conn) : ConnStep → Conn
  | .pump w r =>
    let (sock, host, done) := bridge w r c.sock c.host c.hostDone
    ⟨sock, host, done⟩
  | .pumpInbound w r =>
    let (sock, host, _) := bridge w r c.sock c.host false
    ⟨sock, host, c.hostDone⟩
  | .poll txFree maySend rx closed =>
    { c with sock := { c.sock with txFree, maySend, rx, closed } }

/-- What was enqueued for the guest is what was read from the host. -/
def Lossless (c : Conn) : Prop := c.sock.enqueued = c.host.taken

instance (c : Conn) : Decidable c.Lossless := inferInstanceAs (Decidable (_ = _))

/-- A connection that has just been set up. -/
def new : Conn := ⟨Socket.new, ⟨[], []⟩, false⟩

end Conn

/-- The chunk a bridge call with this flag reads from the host: empty when it does not
read, or reads nothing. -/
def chunkRead (sock : Socket) (hostDone : Bool) : IoRead → List UInt8
  | .ok bs => if sock.canSend && !hostDone then bs.take bridgeBuf else []
  | _ => []

/-- The bytes a step reads from the host. -/
def bytesRead (c : Conn) : ConnStep → List UInt8
  | .pump _ r => chunkRead c.sock c.hostDone r
  | .pumpInbound _ r => chunkRead c.sock false r
  | .poll .. => []

/-- The step reads no more from the host than there is room for in the socket. -/
def Fits (c : Conn) (st : ConnStep) : Prop := (bytesRead c st).length ≤ c.sock.txFree

instance (c : Conn) (st : ConnStep) : Decidable (Fits c st) :=
  inferInstanceAs (Decidable (_ ≤ _))

/-- The guest-to-host half leaves the transmit side and the log of reads alone. -/
theorem bridgeToHost_frame (w : IoWrite) (sock : Socket) (host : TcpStream) :
    (bridgeToHost w sock host).1.enqueued = sock.enqueued ∧
      (bridgeToHost w sock host).1.txFree = sock.txFree ∧
      (bridgeToHost w sock host).1.canSend = sock.canSend ∧
      (bridgeToHost w sock host).2.taken = host.taken := by
  unfold bridgeToHost
  split <;> exact ⟨rfl, rfl, rfl, rfl⟩

/-- What the host-to-guest half enqueues and reads. -/
theorem bridgeToGuest_spec (r : IoRead) (sock : Socket) (host : TcpStream) (done : Bool) :
    (bridgeToGuest r sock host done).1.enqueued =
        sock.enqueued ++ (chunkRead sock done r).take sock.txFree ∧
      (bridgeToGuest r sock host done).2.1.taken = host.taken ++ chunkRead sock done r := by
  unfold bridgeToGuest
  cases hc : (sock.canSend && !done) with
  | false => cases r <;> simp [chunkRead, hc]
  | true =>
    cases r with
    | wouldBlock => simp [chunkRead]
    | err => simp [chunkRead, Socket.close]
    | ok bs =>
      by_cases hempty : bs.take bridgeBuf = []
      · simp [chunkRead, hc, hempty, Socket.close]
      · simp [chunkRead, hc, hempty, Socket.sendSlice]

/-- What a bridge call enqueues and reads. -/
theorem bridge_spec (w : IoWrite) (r : IoRead) (sock : Socket) (host : TcpStream)
    (done : Bool) :
    (bridge w r sock host done).1.enqueued =
        sock.enqueued ++ (chunkRead sock done r).take sock.txFree ∧
      (bridge w r sock host done).2.1.taken = host.taken ++ chunkRead sock done r := by
  obtain ⟨henq, hfree, hcan, htaken⟩ := bridgeToHost_frame w sock host
  have hchunk : chunkRead (bridgeToHost w sock host).1 done r = chunkRead sock done r := by
    cases r <;> simp [chunkRead, hcan]
  have h := bridgeToGuest_spec r (bridgeToHost w sock host).1 (bridgeToHost w sock host).2 done
  rwa [henq, hfree, htaken, hchunk] at h

/-! ## Losslessness of one connection -/

/-- What a step adds to the two logs: all it read on the host side, and on the guest
side as much of that as there was room for. -/
theorem step_spec (c : Conn) (st : ConnStep) :
    (c.step st).sock.enqueued = c.sock.enqueued ++ (bytesRead c st).take c.sock.txFree ∧
      (c.step st).host.taken = c.host.taken ++ bytesRead c st := by
  cases st with
  | pump w r => exact bridge_spec w r c.sock c.host c.hostDone
  | pumpInbound w r => exact bridge_spec w r c.sock c.host false
  | poll txFree maySend rx closed => simp [Conn.step, bytesRead]

/-- **One step.**  A lossless connection stays lossless exactly when the step reads no
more than fits. -/
theorem step_lossless_iff {c : Conn} (h : c.Lossless) (st : ConnStep) :
    (c.step st).Lossless ↔ Fits c st := by
  obtain ⟨henq, htaken⟩ := step_spec c st
  rw [Conn.Lossless, henq, htaken, h, append_cancel_left_eq, Fits]
  exact take_eq_self_iff _

/-- **A connection loses nothing exactly when every chunk fits.**  For every sequence of
bridge calls, host answers and netstack progress, the bytes enqueued for the guest equal
the bytes read from the host in every state of the run if and only if no read returned
more than was free in the transmit buffer at that moment. -/
theorem lossless_iff_fits (l : List ConnStep) :
    (∀ pre, pre <+: l → (Runs.run Conn.step Conn.new pre).Lossless) ↔
      Runs.Each Conn.step Fits Conn.new l :=
  Runs.always_iff_each (L := fun _ _ => True) (I := fun _ => True) (P := Conn.Lossless)
    (fun _ _ _ _ => trivial) (fun _ st _ _ h => step_lossless_iff h st) trivial rfl
    (Runs.each_of_forall fun _ _ => trivial)

/-- A transmit buffer with one free byte meets a read of two: the second byte is read
from the host and never reaches the guest. -/
theorem bridge_drops_bytes :
    ¬ (Runs.run Conn.step Conn.new
        [.poll 1 true [] false, .pump .wouldBlock (.ok [7, 8])]).Lossless := by
  decide

/-! ## The backend -/

/-- One proxied connection the guest opened. -/
structure Flow where
  guestPort : ℕ
  extIp : ℕ
  extPort : ℕ
  eph : ℕ
  sock : Socket
  /-- The host connection, once it completes. -/
  host : Option TcpStream
  /-- Whether the connect thread still owes an answer. -/
  connecting : Bool
  hostDone : Bool

/-- What the channel from the connect thread holds. -/
inductive Connect where
  | ready
  | failed
  | pending

/-- What the host does while one flow is pumped. -/
structure FlowEnv where
  connect : Connect
  write : IoWrite
  read : IoRead

/-- Resolve a still-connecting host, without blocking. -/
def resolveHost (e : Connect) (f : Flow) : Flow :=
  if f.host.isNone && f.connecting then
    match e with
    | .ready => { f with host := some ⟨[], []⟩, connecting := false }
    | .failed => { f with connecting := false, hostDone := true, sock := f.sock.abort }
    | .pending => f
  else f

/-- The body of the loop of `pump_flows`. -/
def pumpFlow (e : FlowEnv) (f : Flow) : Flow :=
  let f := resolveHost e.connect f
  match f.host with
  | none => f
  | some host =>
    let (sock, host, hostDone) := bridge e.write e.read f.sock host f.hostDone
    { f with sock, host := some host, hostDone }

/-- The netstack's progress on one socket. -/
structure SockPoll where
  txFree : ℕ
  maySend : Bool
  rx : List UInt8
  closed : Bool

/-- A socket after the netstack has made progress. -/
def Socket.poll (s : Socket) (p : SockPoll) : Socket :=
  { s with txFree := p.txFree, maySend := p.maySend, rx := p.rx, closed := p.closed }

/-- The proxied connections of the backend; an inbound one is a socket and the stream
the listener accepted. -/
structure Backend where
  flows : List Flow
  inbound : List (Socket × TcpStream)

/-- The steps of the backend that concern proxied connections. -/
inductive BackendStep where
  /-- `maybe_open_flow` let a SYN through. -/
  | openFlow (guestPort extIp extPort eph : ℕ)
  /-- `accept_inbound` dialed the guest for an accepted host connection. -/
  | acceptInbound
  | pumpFlows (env : ℕ → FlowEnv)
  | pumpInbound (env : ℕ → IoWrite × IoRead)
  /-- `poll_iface`, with the progress of each socket. -/
  | pollIface (flows inbound : ℕ → SockPoll)

namespace Backend

def step (b : Backend) : BackendStep → Backend
  | .openFlow guestPort extIp extPort eph =>
    { b with flows := b.flows ++
        [⟨guestPort, extIp, extPort, eph, Socket.new, none, true, false⟩] }
  | .acceptInbound => { b with inbound := b.inbound ++ [(Socket.new, ⟨[], []⟩)] }
  | .pumpFlows env =>
    let pumped := b.flows.mapIdx fun i f => pumpFlow (env i) f
    { b with flows := pumped.filter fun f => !f.sock.closed }
  | .pumpInbound env =>
    let pumped := b.inbound.mapIdx fun i c =>
      let (sock, host, _) := bridge (env i).1 (env i).2 c.1 c.2 false
      (sock, host)
    { b with inbound := pumped.filter fun c => !c.1.closed }
  | .pollIface flows inbound =>
    { flows := b.flows.mapIdx fun i f => { f with sock := f.sock.poll (flows i) }
      inbound := b.inbound.mapIdx fun i c => (c.1.poll (inbound i), c.2) }

end Backend

end Amber.Net
