import Amber.Core.Control
import Amber.Lib.Runs

/-!
# The threads of a running VM

`run` and `secondary_loop` of `amber-core/src/vm.rs` with `control_reader`: the loop of the
primary vcpu, one loop for every other vcpu, and the reader of the control channel.  They share
the flag `running`, the pause gate, and `SnapCoord`, by which the primary stops the others for a
snapshot.

Every thread is a program counter at the places where it can be held up or where others can see
it; one event is one thread going on from there, with a `Choice` for what it meets outside (what
the vcpu exits with, whether a call fails, whether a deadline has passed).  Events come in any
order.  A thread at a gate that is closed stays where it is.

`Primary.next_goes` lists the ways through the loop of the primary once and for all.

A vcpu's state is its registers, of any type, with a count of the times it has executed guest
code or had an exit serviced.  The console reader, the kicker thread and the balloon target are
left out: they touch none of this.
-/

namespace Amber.RunLoop

open Control

/-! ## Vcpus -/

/-- The registers of a vcpu, and how often it has run or been served. -/
structure Cpu (ρ : Type) where
  regs : ρ
  work : ℕ
  deriving DecidableEq

/-- It executes, or an exit of it is serviced. -/
def Cpu.advance {ρ : Type} (cpu : Cpu ρ) (after : ρ) : Cpu ρ := ⟨after, cpu.work + 1⟩

inductive VmExit
  | mmio
  | idle
  | shutdown
  | fault
  deriving DecidableEq

/-- What a vcpu thread meets outside, whichever of it the next step asks for. -/
structure Choice (ρ : Type) where
  /-- What the vcpu exits with. -/
  exit : VmExit
  /-- The registers after that. -/
  after : ρ
  /-- The error of a call that fails. -/
  fails : Option String
  /-- A snapshot is asked for, and its marker or its time has come. -/
  due : Bool
  /-- The deadline for the other vcpus has passed. -/
  expired : Bool
  deriving DecidableEq

/-! ## The primary -/

/-- How `run` can fail. -/
inductive RunError
  | snapshot (message : String)
  | guestFault
  /-- A call to the backend or to a device that failed. -/
  | failed (message : String)
  deriving DecidableEq

inductive PrimaryPc
  /-- `while running`. -/
  | head
  /-- The pause gate. -/
  | gate
  | pump
  | snapPoint
  /-- Waiting for the registers of the others. -/
  | quiesce
  | captureGic
  /-- Inside `snapshot::write`. -/
  | writing
  | run
  | mmio
  | idle
  /-- Out of the loop, with the error if there is one. -/
  | done (err : Option RunError)
  deriving DecidableEq

structure Primary (ρ : Type) where
  pc : PrimaryPc
  cpu : Cpu ρ
  /-- The registers it has captured of itself. -/
  captured : Option (Cpu ρ)
  deriving DecidableEq

/-- Some vcpu has not left its registers by the deadline. -/
def quiesceError : RunError := .snapshot "vcpus did not quiesce for snapshot"

namespace Primary

variable {ρ : Type}

/-- The primary captures itself; `smp` is `vcpus > 1`. -/
def capture (p : Primary ρ) (smp : Bool) : Primary ρ :=
  { p with captured := some p.cpu, pc := if smp then .quiesce else .captureGic }

/-- What the exit of the vcpu leads to. -/
def afterRun (c : Choice ρ) : PrimaryPc :=
  match c.fails, c.exit with
  | some err, _ => .done (some (.failed err))
  | none, .mmio => .mmio
  | none, .idle => .idle
  | none, .shutdown => .done none
  | none, .fault => .done (some .guestFault)

/-- A call that fails ends the loop. -/
def orFail (c : Choice ρ) (pc : PrimaryPc) : PrimaryPc :=
  match c.fails with
  | some err => .done (some (.failed err))
  | none => pc

/-- The primary goes on.  `deposited` is whether every slot of `SnapCoord` is filled. -/
def next (running paused smp deposited : Bool) (c : Choice ρ) (p : Primary ρ) : Primary ρ :=
  match p.pc with
  | .head => { p with pc := if running then .gate else .done none }
  | .gate => { p with pc := if paused then .gate else .pump }
  | .pump => { p with pc := orFail c .snapPoint }
  | .snapPoint =>
    match c.due, c.fails with
    | false, _ => { p with pc := .run }
    | true, some err => { p with pc := .done (some (.failed err)) }
    | true, none => p.capture smp
  | .quiesce =>
    { p with
      pc := if deposited then .captureGic
        else if c.expired then .done (some quiesceError) else .quiesce }
  | .captureGic => { p with pc := orFail c .writing }
  | .writing => { p with pc := orFail c (.done none) }
  | .run => { p with cpu := p.cpu.advance c.after, pc := afterRun c }
  | .mmio => { p with cpu := p.cpu.advance c.after, pc := orFail c .head }
  | .idle => { p with pc := .head }
  | .done err => { p with pc := .done err }

/-- Out of the loop. -/
def finished (p : Primary ρ) : Bool :=
  match p.pc with
  | .done _ => true
  | _ => false

/-- The ways through the loop of the primary. -/
inductive Goes (running paused smp deposited : Bool) : PrimaryPc → PrimaryPc → Prop
  | enter : running = true → Goes running paused smp deposited .head .gate
  | wait : paused = true → Goes running paused smp deposited .gate .gate
  | pass : paused = false → Goes running paused smp deposited .gate .pump
  | pumped : Goes running paused smp deposited .pump .snapPoint
  | notDue : Goes running paused smp deposited .snapPoint .run
  | captured : smp = true → Goes running paused smp deposited .snapPoint .quiesce
  | alone : smp = false → Goes running paused smp deposited .snapPoint .captureGic
  | waitOthers : deposited = false → Goes running paused smp deposited .quiesce .quiesce
  | complete : deposited = true → Goes running paused smp deposited .quiesce .captureGic
  | write : Goes running paused smp deposited .captureGic .writing
  | exitMmio : Goes running paused smp deposited .run .mmio
  | exitIdle : Goes running paused smp deposited .run .idle
  | served : Goes running paused smp deposited .mmio .head
  | woken : Goes running paused smp deposited .idle .head
  | ends (pc : PrimaryPc) (err : Option RunError) :
    Goes running paused smp deposited pc (.done err)

variable {running paused smp deposited : Bool} {c : Choice ρ} {p : Primary ρ}

theorem goes_orFail {pc pc' : PrimaryPc} (h : Goes running paused smp deposited pc pc')
    (c : Choice ρ) : Goes running paused smp deposited pc (orFail c pc') := by
  unfold orFail
  split
  · exact .ends _ _
  · exact h

theorem goes_afterRun (c : Choice ρ) : Goes running paused smp deposited .run (afterRun c) := by
  unfold afterRun
  split
  · exact .ends _ _
  · exact .exitMmio
  · exact .exitIdle
  · exact .ends _ _
  · exact .ends _ _

theorem goes_capture (p : Primary ρ) :
    Goes running paused smp deposited .snapPoint (p.capture smp).pc := by
  cases smp with
  | true => exact .captured rfl
  | false => exact .alone rfl

/-- Every turn of the primary is one of these. -/
theorem next_goes (running paused smp deposited : Bool) (c : Choice ρ) (p : Primary ρ) :
    Goes running paused smp deposited p.pc (p.next running paused smp deposited c).pc := by
  unfold next
  cases p.pc with
  | head =>
    cases running with
    | true => exact .enter rfl
    | false => exact .ends _ _
  | gate =>
    cases paused with
    | true => exact .wait rfl
    | false => exact .pass rfl
  | pump => exact goes_orFail .pumped c
  | snapPoint =>
    cases c.due with
    | false => exact .notDue
    | true =>
      cases c.fails with
      | some err => exact .ends _ _
      | none => exact goes_capture p
  | quiesce =>
    cases deposited with
    | true => exact .complete rfl
    | false =>
      cases c.expired with
      | true => exact .ends _ _
      | false => exact .waitOthers rfl
  | captureGic => exact goes_orFail .write c
  | writing => exact goes_orFail (.ends _ _) c
  | run => exact goes_afterRun c
  | mmio => exact goes_orFail .served c
  | idle => exact .woken
  | done err => exact .ends _ _

/-- The registers change in the guest and in a device. -/
theorem next_cpu (hrun : p.pc ≠ .run) (hmmio : p.pc ≠ .mmio) :
    (p.next running paused smp deposited c).cpu = p.cpu := by
  unfold next
  cases hpc : p.pc with
  | run => exact absurd hpc hrun
  | mmio => exact absurd hpc hmmio
  | snapPoint =>
    cases c.due with
    | false => rfl
    | true => cases c.fails <;> rfl
  | _ => rfl

theorem next_captured_of_ne (h : p.pc ≠ .snapPoint) :
    (p.next running paused smp deposited c).captured = p.captured := by
  unfold next
  cases hpc : p.pc with
  | snapPoint => exact absurd hpc h
  | _ => rfl

end Primary

/-! ## The other vcpus -/

inductive SecondaryPc
  /-- `create_vcpu`, and the restore or the template. -/
  | create
  /-- `while running`. -/
  | head
  | checkWant
  | deposit
  /-- Parked with its registers left. -/
  | parked
  /-- The pause gate. -/
  | gate
  | run
  | mmio
  | idle
  | exited
  deriving DecidableEq

structure Secondary (ρ : Type) where
  pc : SecondaryPc
  cpu : Cpu ρ
  /-- Its slot of `SnapCoord.states`. -/
  slot : Option (Cpu ρ)
  deriving DecidableEq

namespace Secondary

variable {ρ : Type}

/-- Does this step of the loop stop the VM? -/
def stops (c : Choice ρ) (q : Secondary ρ) : Bool :=
  match q.pc with
  | .create => c.fails.isSome
  | .deposit => q.slot.isNone && c.fails.isSome
  | .run => c.fails.isSome || c.exit == .shutdown || c.exit == .fault
  | .mmio => c.fails.isSome
  | _ => false

/-- What the exit of the vcpu leads to. -/
def afterRun (c : Choice ρ) : SecondaryPc :=
  match c.fails, c.exit with
  | none, .mmio => .mmio
  | none, .idle => .idle
  | _, _ => .head

/-- The registers go into the slot, once. -/
def leave (c : Choice ρ) (q : Secondary ρ) : Secondary ρ :=
  match q.slot, c.fails with
  | some _, _ => { q with pc := .parked }
  | none, some _ => { q with pc := .head }
  | none, none => { q with pc := .parked, slot := some q.cpu }

/-- The loop goes on. -/
def next (running paused want : Bool) (c : Choice ρ) (q : Secondary ρ) : Secondary ρ :=
  match q.pc with
  | .create => { q with pc := if c.fails.isSome then .exited else .head }
  | .head => { q with pc := if running then .checkWant else .exited }
  | .checkWant => { q with pc := if want then .deposit else .gate }
  | .deposit => q.leave c
  | .parked => { q with pc := .head }
  | .gate => { q with pc := if paused && running then .gate else .run }
  | .run => { q with cpu := q.cpu.advance c.after, pc := afterRun c }
  | .mmio => { q with cpu := q.cpu.advance c.after, pc := .head }
  | .idle => { q with pc := .head }
  | .exited => q

end Secondary

/-! ## The control reader -/

inductive ControlPc
  /-- `while running`. -/
  | check
  | poll
  | reading (r : Reader)
  | exited
  deriving DecidableEq

/-- What the reader meets: whether `poll` says there is something, and whether a read fails. -/
structure ControlChoice where
  ready : Bool
  readFails : Bool
  deriving DecidableEq

/-- The reader's end of the control channel. -/
structure Channel where
  pc : ControlPc
  wire : List UInt8
  eof : Bool
  deriving DecidableEq

namespace Channel

/-- The next byte, for a reader that is reading. -/
def byte (c : ControlChoice) (ch : Channel) : Option UInt8 :=
  if c.readFails then none else ch.wire.head?

/-- A read comes back with an error or the end of the channel. -/
def readEnds (c : ControlChoice) (ch : Channel) : Bool :=
  c.readFails || (ch.wire.isEmpty && ch.eof)

/-- The end of the channel before an opcode stops the VM; inside a payload it does not. -/
def hangsUp (c : ControlChoice) (ch : Channel) : Bool :=
  ch.pc == .reading .opcode && ch.readEnds c

/-- The frame that is complete with this step. -/
def frame (c : ControlChoice) (ch : Channel) : Option Frame :=
  match ch.pc, ch.byte c with
  | .reading r, some b => (r.feed b).2
  | _, _ => none

/-- Where the loop is after a byte. -/
def afterByte (r : Reader) (b : UInt8) : ControlPc :=
  match (r.feed b).1 with
  | .opcode => .check
  | .payload got => .reading (.payload got)

/-- The loop goes on.  A read with nothing there yet blocks. -/
def next (running : Bool) (c : ControlChoice) (ch : Channel) : Channel :=
  match ch.pc with
  | .check => { ch with pc := if running then .poll else .exited }
  | .poll =>
    { ch with
      pc := if c.ready && (!ch.wire.isEmpty || ch.eof) then .reading .opcode else .check }
  | .reading r =>
    match ch.byte c with
    | some b => { ch with pc := afterByte r b, wire := ch.wire.tail }
    | none => { ch with pc := if ch.readEnds c then .exited else .reading r }
  | .exited => ch

end Channel

/-! ## All of them -/

structure Sys (ρ : Type) (k : ℕ) where
  running : Bool
  /-- The flag of the pause gate. -/
  paused : Bool
  /-- `SnapCoord.want`. -/
  want : Bool
  primary : Primary ρ
  secondary : Fin k → Secondary ρ
  channel : Channel

/-- A frame that has been read takes effect. -/
def applyFrame (paused : Bool) : Option Frame → Bool
  | some .pause => true
  | some .resume => false
  | _ => paused

inductive Event (ρ : Type) (k : ℕ)
  | primary (c : Choice ρ)
  | secondary (i : Fin k) (c : Choice ρ)
  | control (c : ControlChoice)
  /-- The daemon writes a byte. -/
  | send (b : UInt8)
  /-- The daemon is gone. -/
  | hangUp

namespace Sys

variable {ρ : Type} {k : ℕ}

/-- All threads are about to begin; without a control channel its reader has ended. -/
def start (hasControl : Bool) (cpu : Cpu ρ) (cpus : Fin k → Cpu ρ) : Sys ρ k where
  running := true
  paused := false
  want := false
  primary := ⟨.head, cpu, none⟩
  secondary i := ⟨.create, cpus i, none⟩
  channel := ⟨if hasControl then .check else .exited, [], false⟩

/-- Every slot of `SnapCoord` is filled. -/
def deposited (s : Sys ρ k) : Bool := decide (∀ i, (s.secondary i).slot.isSome = true)

/-- The primary goes on.  Out of its loop it clears `running`; when it has captured itself it
asks the others to stop. -/
def primaryStep (s : Sys ρ k) (c : Choice ρ) : Sys ρ k :=
  let p := s.primary.next s.running s.paused (decide (0 < k)) s.deposited c
  { s with
    primary := p
    running := s.running && !p.finished
    want := s.want || p.pc == .quiesce }

def secondaryStep (s : Sys ρ k) (i : Fin k) (c : Choice ρ) : Sys ρ k :=
  { s with
    running := s.running && !(s.secondary i).stops c
    secondary := Function.update s.secondary i
      ((s.secondary i).next s.running s.paused s.want c) }

def controlStep (s : Sys ρ k) (c : ControlChoice) : Sys ρ k :=
  { s with
    running := s.running && !s.channel.hangsUp c
    paused := applyFrame s.paused (s.channel.frame c)
    channel := s.channel.next s.running c }

def send (s : Sys ρ k) (b : UInt8) : Sys ρ k :=
  { s with channel := { s.channel with wire := s.channel.wire ++ [b] } }

def hangUp (s : Sys ρ k) : Sys ρ k := { s with channel := { s.channel with eof := true } }

def step (s : Sys ρ k) : Event ρ k → Sys ρ k
  | .primary c => s.primaryStep c
  | .secondary i c => s.secondaryStep i c
  | .control c => s.controlStep c
  | .send b => s.send b
  | .hangUp => s.hangUp

theorem secondaryStep_self (s : Sys ρ k) (i : Fin k) (c : Choice ρ) :
    (s.secondaryStep i c).secondary i = (s.secondary i).next s.running s.paused s.want c :=
  Function.update_self i _ _

theorem secondaryStep_of_ne (s : Sys ρ k) {i j : Fin k} (c : Choice ρ) (h : j ≠ i) :
    (s.secondaryStep i c).secondary j = s.secondary j := Function.update_of_ne h _ _

end Sys
end Amber.RunLoop
