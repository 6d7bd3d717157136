import Amber.Proto.Frame

/-!
# The exec channel

One `amber exec` crosses three programs: the agent in the guest (`agent/src/main.rs`), which
runs the command and frames its output and exit code; the daemon (`exec_relay` and
`handle_exec` of `amber/src/daemon.rs`), which forwards the output and turns the exit code into
a reply; and the client (`exec` of the same file and `cmd_exec` of `amber/src/main.rs`), which
prints the output and becomes a process status.

Each side reads a stream that may end at any byte.  The daemon's writes to a client that has
gone away are not modelled: there is no status left to get wrong.

* `relay_forward`, `relay_exit`, `relay_silent`, `relay_torn` — what the daemon makes of the
  agent's frames and of each way its stream can end.
* `execLoop_show`, `execLoop_reply`, `execLoop_silent`, `execLoop_error` — the same for the
  client.
-/

namespace Amber.Exec

open LittleEndian TagFrame Proto List

/-! ## The agent -/

/-- The two output pipes of the command. -/
inductive Pipe
  | stdout
  | stderr
  deriving DecidableEq

/-- The tag of the agent's frames for a pipe. -/
def Pipe.agentTag : Pipe → UInt8
  | .stdout => 1
  | .stderr => 2

/-- The tag of the daemon's frames for a pipe. -/
def Pipe.clientTag : Pipe → UInt8
  | .stdout => tagStdout
  | .stderr => tagStderr

/-- What one read of a pipe gives the agent's pump: its buffer holds 16 KiB. -/
structure Chunk where
  pipe : Pipe
  bytes : List UInt8
  fits : bytes.length ≤ 16 * 1024

def Chunk.agentFrame (c : Chunk) : Frame := ⟨c.pipe.agentTag, c.bytes⟩

def Chunk.clientFrame (c : Chunk) : Frame := ⟨c.pipe.clientTag, c.bytes⟩

/-- What `wait` says about the command. -/
inductive WaitResult
  | exited (code : Fin 256)
  | signalled (signal : ℕ)
  | failed
  deriving DecidableEq

/-- `child.wait().ok().and_then(|s| s.code()).unwrap_or(-1)`. -/
def WaitResult.rc : WaitResult → Int32
  | .exited code => Int32.ofNat code
  | .signalled _ => -1
  | .failed => -1

/-- What became of the command: there was no shell to run it, it has not ended, or it has. -/
inductive Fate
  | noShell
  | running
  | ended (result : WaitResult)
  deriving DecidableEq

/-- `i32::to_le_bytes`. -/
def i32ToLe (x : Int32) : List UInt8 := toLe 4 x.toUInt32.toNat

/-- `i32::from_le_bytes`. -/
def i32FromLe (bs : List UInt8) : Int32 := (UInt32.ofNat (fromLe bs)).toInt32

@[simp] theorem length_i32ToLe (x : Int32) : (i32ToLe x).length = 4 := length_toLe 4 _

theorem i32FromLe_i32ToLe (x : Int32) : i32FromLe (i32ToLe x) = x := by
  have hlt : x.toUInt32.toNat < 256 ^ 4 := x.toUInt32.toNat_lt
  rw [i32FromLe, i32ToLe, fromLe_toLe_of_lt hlt, UInt32.ofNat_toNat, Int32.toInt32_toUInt32]

def exitFrame (rc : Int32) : Frame := ⟨3, i32ToLe rc⟩

/-- The code the agent reports, once there is one to report. -/
def Fate.rc : Fate → Option Int32
  | .noShell => some 127
  | .running => none
  | .ended result => some result.rc

/-- The output the agent passes on; without a shell it stops at once. -/
def Fate.output (chunks : List Chunk) : Fate → List Chunk
  | .noShell => []
  | _ => chunks

/-- The frames the agent writes, if it lives to write them. -/
def agentFrames (chunks : List Chunk) (fate : Fate) : List Frame :=
  (fate.output chunks).map Chunk.agentFrame ++ (fate.rc.map exitFrame).toList

/-! ## The daemon -/

/-- The code in an exit frame's payload. -/
def exitCode (payload : List UInt8) : Int32 :=
  i32FromLe (if 4 ≤ payload.length then payload.take 4 else [0, 0, 0, 0])

theorem exitCode_i32ToLe (rc : Int32) : exitCode (i32ToLe rc) = rc := by
  rw [exitCode, if_pos (length_i32ToLe rc).ge, take_of_length_le (length_i32ToLe rc).le,
    i32FromLe_i32ToLe]

/-- What the daemon finds at the head of the agent's stream. -/
inductive AgentRead
  /-- No whole header: the agent has closed. -/
  | ended
  | failed (e : IoError)
  | frame (f : Frame) (rest : Source)

def readAgentFrame (s : Source) : AgentRead :=
  match s.readExact 5 with
  | none => .ended
  | some (hdr, s₁) =>
    if fromLe (hdr.drop 1) > maxFrame then .failed (.ofOther "agent frame too large")
    else
      match s₁.readExact (fromLe (hdr.drop 1)) with
      | none => .failed (readError s₁)
      | some (payload, s₂) => .frame ⟨hdr.headD 0, payload⟩ s₂

theorem length_readAgentFrame {s rest : Source} {f : Frame}
    (h : readAgentFrame s = .frame f rest) : rest.bytes.length < s.bytes.length := by
  unfold readAgentFrame at h
  split at h
  · cases h
  · rename_i hdr s₁ h₁
    split_ifs at h
    split at h
    · cases h
    · rename_i payload s₂ h₂
      cases h
      have := length_readExact h₁
      have := length_readExact h₂
      omega

/-- The loop of `exec_relay`: the frames forwarded to the client, and the result.  An agent that
closes without an exit frame gives `-1`. -/
def relay (s : Source) : List Frame × Except IoError Int32 :=
  match _h : readAgentFrame s with
  | .ended => ([], .ok (-1))
  | .failed e => ([], .error e)
  | .frame f rest =>
    if f.tag = 1 then (⟨tagStdout, f.payload⟩ :: (relay rest).1, (relay rest).2)
    else if f.tag = 2 then (⟨tagStderr, f.payload⟩ :: (relay rest).1, (relay rest).2)
    else if f.tag = 3 then ([], .ok (exitCode f.payload))
    else relay rest
termination_by s.bytes.length
decreasing_by all_goals exact length_readAgentFrame _h

/-- What `handle_exec` meets before it has an agent to relay. -/
inductive Host
  /-- It returns an error without a reply, and the connection closes. -/
  | dropped
  /-- The request is refused or the worker cannot be staged. -/
  | refused (message : String)
  /-- No agent dials in time. -/
  | noAgent
  /-- The command cannot be sent to the agent. -/
  | sendFailed (e : IoError)
  | connected (wire : Source)

/-- The frames `handle_exec` writes to the client. -/
def handleExec (codec : ReplyCodec) : Host → List Frame
  | .dropped => []
  | .refused message => [replyFrame codec (.error message)]
  | .noAgent => [replyFrame codec (.error "exec agent did not connect")]
  | .sendFailed e => [replyFrame codec (.error e.message)]
  | .connected wire =>
    (relay wire).1 ++
      match (relay wire).2 with
      | .ok code => [replyFrame codec (.exit code)]
      | .error e => [replyFrame codec (.error e.message)]

section Relay

variable {f : Frame} {t : Bool}

theorem readAgentFrame_encode (h : f.payload.length ≤ maxFrame) (rest : List UInt8) :
    readAgentFrame ⟨f.encode ++ rest, t⟩ = .frame f ⟨rest, t⟩ := by
  have hbytes : f.encode ++ rest = (f.tag :: toLe 4 f.payload.length) ++ (f.payload ++ rest) := by
    simp [Frame.encode]
  have hhdr : (f.tag :: toLe 4 f.payload.length).length = 5 := by simp
  rw [readAgentFrame, hbytes, readExact_append hhdr]
  simp only [drop_one, tail_cons, fromLe_length h, headD_cons]
  rw [if_neg (not_lt.2 h), readExact_append rfl]

/-- A frame whose payload is not all there. -/
theorem readAgentFrame_torn (h : f.payload.length ≤ maxFrame) {m : ℕ} (hlo : 5 ≤ m)
    (hm : m < f.encode.length) :
    ∃ s, readAgentFrame ⟨f.encode.take m, t⟩ = .failed (readError s) := by
  obtain ⟨k, rfl⟩ := Nat.exists_eq_add_of_le hlo
  have hhdr : (f.tag :: toLe 4 f.payload.length).length = 5 := by simp
  have hbytes : f.encode.take (5 + k) = (f.tag :: toLe 4 f.payload.length) ++ f.payload.take k := by
    rw [← take_length_add_append, hhdr]
    rfl
  rw [length_encode] at hm
  rw [readAgentFrame, hbytes, readExact_append hhdr]
  simp only [drop_one, tail_cons, fromLe_length h]
  rw [if_neg (not_lt.2 h), readExact_short (by rw [length_take]; omega)]
  exact ⟨_, rfl⟩

theorem relay_of_frame {s rest : Source} (h : readAgentFrame s = .frame f rest) :
    relay s =
      if f.tag = 1 then (⟨tagStdout, f.payload⟩ :: (relay rest).1, (relay rest).2)
      else if f.tag = 2 then (⟨tagStderr, f.payload⟩ :: (relay rest).1, (relay rest).2)
      else if f.tag = 3 then ([], .ok (exitCode f.payload))
      else relay rest := by
  rw [relay]
  split <;> simp_all

/-- The agent's stream ends before the next header is whole. -/
theorem relay_silent {bs : List UInt8} (h : bs.length < 5) : relay ⟨bs, t⟩ = ([], .ok (-1)) := by
  have hread : readAgentFrame ⟨bs, t⟩ = .ended := by
    rw [readAgentFrame, readExact_short h]
  rw [relay]
  split <;> simp_all

theorem relay_torn (h : f.payload.length ≤ maxFrame) {m : ℕ} (hlo : 5 ≤ m)
    (hm : m < f.encode.length) :
    ∃ e, (Reply.error e.message).Small ∧ relay ⟨f.encode.take m, t⟩ = ([], .error e) := by
  obtain ⟨s, hs⟩ := readAgentFrame_torn (t := t) h hlo hm
  refine ⟨_, readError_small s, ?_⟩
  rw [relay]
  split <;> simp_all

theorem relay_exit {payload : List UInt8} (h : payload.length ≤ maxFrame) (rest : List UInt8) :
    relay ⟨(Frame.mk 3 payload).encode ++ rest, t⟩ = ([], .ok (exitCode payload)) := by
  rw [relay_of_frame (readAgentFrame_encode h rest)]
  rfl

/-- **Output frames are forwarded in order**, under the client's tags. -/
theorem relay_forward (chunks : List Chunk) (rest : List UInt8) :
    relay ⟨encodeAll (chunks.map Chunk.agentFrame) ++ rest, t⟩ =
      (chunks.map Chunk.clientFrame ++ (relay ⟨rest, t⟩).1, (relay ⟨rest, t⟩).2) := by
  induction chunks with
  | nil => rfl
  | cons c chunks ih =>
    have hread := readAgentFrame_encode (t := t) (f := c.agentFrame) (c.fits.trans (by decide))
      (encodeAll (chunks.map Chunk.agentFrame) ++ rest)
    rw [map_cons, encodeAll_cons, append_assoc, relay_of_frame hread, ih]
    obtain ⟨pipe, bytes, hfits⟩ := c
    cases pipe <;> rfl

end Relay

/-! ## The client -/

def budgetMsg (budget used requested : UInt64) : String :=
  let mib (b : UInt64) : ℕ := b.toNat / (1024 * 1024)
  s!"BudgetExceeded: budget {mib budget} MiB, in use {mib used} MiB, requested {mib requested} MiB"

/-- What the client makes of the terminal reply. -/
def replyResult : Reply → Except IoError Int32
  | .exit code => .ok code
  | .error message => .error (.ofOther message)
  | .budgetExceeded budget used requested => .error (.ofOther (budgetMsg budget used requested))
  | _ => .ok 0

/-- The loop of `exec`: the output frames shown, and the result.  `sink i` says whether the
`i`-th write to the client's own output succeeds. -/
def execLoop (codec : ReplyCodec) (sink : ℕ → Bool) (i : ℕ) (s : Source) :
    List Frame × Except IoError Int32 :=
  match _h : readFrame s with
  | .error e => ([], .error e)
  | .ok none => ([], .ok 0)
  | .ok (some (f, rest)) =>
    if f.tag = tagStdout ∨ f.tag = tagStderr then
      if sink i then
        (f :: (execLoop codec sink (i + 1) rest).1, (execLoop codec sink (i + 1) rest).2)
      else ([], .error (.ofOther "broken pipe"))
    else if f.tag = tagReply then
      match codec.fromSlice f.payload with
      | none => ([], .error ⟨.invalidData, "invalid reply"⟩)
      | some r => ([], replyResult r)
    else ([], .ok 0)
termination_by s.bytes.length
decreasing_by all_goals exact length_readFrame _h

/-- `exec`; there is no stream if the daemon cannot be reached or the request cannot be sent. -/
def exec (codec : ReplyCodec) (sink : ℕ → Bool) : Option Source → Except IoError Int32
  | none => .error (.ofOther "no amberd (run 'amber up')")
  | some s => (execLoop codec sink 0 s).2

/-- The template and the command on the command line of `amber exec`. -/
def execArgs (args : List String) : Option (String × String) :=
  let split := args.findIdx? (· == "--")
  let cmd := match split with
    | some i => " ".intercalate (args.drop (i + 1))
    | none => ""
  match args[2]? with
  | none => none
  | some template => if split = some 2 ∨ cmd = "" then none else some (template, cmd)

/-- `code.clamp(0, 255) as u8`. -/
def clampStatus (code : Int32) : ℕ := (min (max code.toInt 0) 255).toNat

/-- The status `cmd_exec` ends with after `exec`. -/
def resultStatus : Except IoError Int32 → ℕ
  | .ok code => clampStatus code
  | .error _ => 1

/-- `cmd_exec`: the process status. -/
def cmdExec (args : List String) (exec : String → String → Except IoError Int32) : ℕ :=
  match execArgs args with
  | none => 1
  | some (template, cmd) => resultStatus (exec template cmd)

section Client

variable {codec : ReplyCodec} {sink : ℕ → Bool} {i : ℕ} {t : Bool}

theorem execLoop_of_frame {s rest : Source} {f : Frame}
    (h : readFrame s = .ok (some (f, rest))) :
    execLoop codec sink i s =
      if f.tag = tagStdout ∨ f.tag = tagStderr then
        if sink i then
          (f :: (execLoop codec sink (i + 1) rest).1, (execLoop codec sink (i + 1) rest).2)
        else ([], .error (.ofOther "broken pipe"))
      else if f.tag = tagReply then
        match codec.fromSlice f.payload with
        | none => ([], .error ⟨.invalidData, "invalid reply"⟩)
        | some r => ([], replyResult r)
      else ([], .ok 0) := by
  rw [execLoop]
  split <;> cases h.symm.trans ‹_›
  rfl

theorem execLoop_silent : execLoop codec sink i ⟨[], false⟩ = ([], .ok 0) := by
  rw [execLoop]
  rfl

theorem execLoop_error {s : Source} {e : IoError} (h : readFrame s = .error e) :
    execLoop codec sink i s = ([], .error e) := by
  rw [execLoop]
  split <;> simp_all

theorem execLoop_reply {r : Reply} (h : r.Small) (rest : List UInt8) :
    execLoop codec sink i ⟨(replyFrame codec r).encode ++ rest, t⟩ = ([], replyResult r) := by
  have hread := readFrame_encode (t := t) (f := replyFrame codec r) (codec.toVec_le r h) rest
  have htag : ¬ ((replyFrame codec r).tag = tagStdout ∨ (replyFrame codec r).tag = tagStderr) :=
    show ¬ (tagReply = tagStdout ∨ tagReply = tagStderr) by decide
  have hreply : (replyFrame codec r).tag = tagReply := rfl
  rw [execLoop_of_frame hread, if_neg htag, if_pos hreply, replyFrame, codec.fromSlice_toVec]

/-- **The client shows output frames as they come**, until one cannot be written. -/
theorem execLoop_show (chunks : List Chunk) (rest : List UInt8) (i : ℕ) :
    ∃ shown, shown <+: chunks.map Chunk.clientFrame ∧
      execLoop codec sink i ⟨encodeAll (chunks.map Chunk.clientFrame) ++ rest, t⟩ =
        if ∀ j < chunks.length, sink (i + j) = true then
          (chunks.map Chunk.clientFrame ++ (execLoop codec sink (i + chunks.length) ⟨rest, t⟩).1,
            (execLoop codec sink (i + chunks.length) ⟨rest, t⟩).2)
        else (shown, .error (.ofOther "broken pipe")) := by
  induction chunks generalizing i with
  | nil => exact ⟨[], prefix_rfl, by simp [encodeAll]⟩
  | cons c chunks ih =>
    have hread := readFrame_encode (t := t) (f := c.clientFrame) (c.fits.trans (by decide))
      (encodeAll (chunks.map Chunk.clientFrame) ++ rest)
    have htag : c.clientFrame.tag = tagStdout ∨ c.clientFrame.tag = tagStderr := by
      obtain ⟨pipe, bytes, hfits⟩ := c
      cases pipe
      · exact .inl rfl
      · exact .inr rfl
    have hall : (∀ j < chunks.length + 1, sink (i + j) = true) ↔
        sink i = true ∧ ∀ j < chunks.length, sink (i + 1 + j) = true := by
      rw [Nat.forall_lt_succ_left]
      simp only [add_zero, add_assoc, add_comm 1]
    rw [map_cons, encodeAll_cons, append_assoc, execLoop_of_frame hread, if_pos htag]
    simp only [length_cons, hall]
    by_cases h0 : sink i = true
    · obtain ⟨shown, hpre, heq⟩ := ih (i + 1)
      refine ⟨c.clientFrame :: shown, prefix_cons_inj _ |>.2 hpre, ?_⟩
      rw [if_pos h0, heq, add_assoc i 1, add_comm 1]
      simp only [h0, true_and]
      split_ifs <;> rfl
    · exact ⟨[], nil_prefix, by rw [if_neg h0, if_neg fun h => h0 h.1]⟩

end Client

end Amber.Exec
