import Amber.Lib.Runs
import Amber.Lib.ShortReads
import Amber.Exec.Channel

/-!
# The wire between the daemon and the agent

The daemon sends the command and its standard input, the agent sends the output of the command and
its exit code.  Both ends are written by hand: `exec_relay` of `amber/src/daemon.rs` and `read_n`,
`write_frame` and `pump` of `agent/src/main.rs`.  The agent's reads return what has arrived; two
threads of it read the two output pipes and write to one socket, a frame at a time.

* `readCommand_eq` — the command the agent reads does not depend on how it arrives.
* `turn_chunked` — what a turn of a pump thread adds to the socket and takes off a pipe.
* `run_length_le` — every turn on a pipe that has not ended takes something off it.
* `exec_codec` — the agent reads the command and input that were sent; the daemon forwards the
  output of both pipes, byte for byte, returns the exit code, and looks for headers where the agent
  put them.
-/

namespace Amber.Exec

open LittleEndian TagFrame Proto ShortReads List

/-! ## The command -/

/-- What `exec_relay` sends: the command, then the input. -/
def sendCommand (cmd input : List UInt8) : List UInt8 :=
  toLe 4 cmd.length ++ cmd ++ toLe 4 input.length ++ input

/-- `u32::from_le_bytes(bs.try_into().unwrap_or([0; 4]))`. -/
def u32OrZero (bs : List UInt8) : ℕ := if bs.length = 4 then fromLe bs else 0

/-- Read exactly `n` bytes, or fewer if the stream ends. -/
def readN (s : Stream) (n : ℕ) : List UInt8 × Stream := s.fill n

/-- The agent reads the command and its input. -/
def readCommand (s : Stream) : List UInt8 × List UInt8 :=
  let clen := readN s 4
  let cmd := readN clen.2 (u32OrZero clen.1)
  let ilen := readN cmd.2 4
  let input := readN ilen.2 (u32OrZero ilen.1)
  (cmd.1, input.1)

/-- **How the bytes arrive makes no difference** to the command that is read. -/
theorem readCommand_eq (s : Stream) :
    readCommand s =
      let clen := u32OrZero (s.bytes.take 4)
      let rest := (s.bytes.drop 4).drop clen
      ((s.bytes.drop 4).take clen, (rest.drop 4).take (u32OrZero (rest.take 4))) := by
  simp only [readCommand, readN, fill_fst, fill_snd_bytes]

theorem u32OrZero_toLe {n : ℕ} (h : n < 2 ^ 32) : u32OrZero (toLe 4 n) = n := by
  rw [u32OrZero, if_pos (length_toLe 4 n), fromLe_toLe_of_lt h]

theorem sendCommand_eq (cmd input : List UInt8) :
    sendCommand cmd input = toLe 4 cmd.length ++ (cmd ++ (toLe 4 input.length ++ input)) := by
  simp [sendCommand]

/-- A length field of a message that ends after `m` bytes, and what is left of the rest. -/
theorem field_cut (v m : ℕ) (rest : List UInt8) :
    u32OrZero (((toLe 4 v ++ rest).take m).take 4) = (if m < 4 then 0 else v % 2 ^ 32) ∧
      ((toLe 4 v ++ rest).take m).drop 4 = rest.take (m - 4) := by
  refine ⟨?_, by rw [drop_take, drop_left' (length_toLe 4 v)]⟩
  rw [take_take]
  split_ifs with hm
  · rw [u32OrZero, if_neg]
    rw [length_take]
    omega
  · rw [min_eq_left (not_lt.1 hm), take_left' (length_toLe 4 v), u32OrZero,
      if_pos (length_toLe 4 v)]
    exact fromLe_toLe 4 v

/-- The agent reads what was sent. -/
theorem readCommand_sendCommand {cmd input : List UInt8} (hc : cmd.length < 2 ^ 32)
    (hi : input.length < 2 ^ 32) (rest : List UInt8) (sizes : ℕ → ℕ) :
    readCommand ⟨sendCommand cmd input ++ rest, sizes⟩ = (cmd, input) := by
  rw [readCommand_eq]
  simp [sendCommand_eq, take_left' (length_toLe 4 _), drop_left' (length_toLe 4 _),
    u32OrZero_toLe hc, u32OrZero_toLe hi]

/-! ## The pump threads -/

/-- The agent's `write_frame`: a header of five bytes and the payload, under the socket's lock. -/
def writeAgentFrame (tag : UInt8) (payload : List UInt8) : List UInt8 :=
  (tag :: toLe 4 payload.length) ++ payload

/-- The bytes of the frames on the socket. -/
def agentWire (fs : List Frame) : List UInt8 := fs.flatMap fun f => writeAgentFrame f.tag f.payload

theorem agentWire_eq (fs : List Frame) : agentWire fs = encodeAll fs := rfl

/-- The command's output pipes, and the frames its pump threads have written. -/
structure Pump where
  pipes : Pipe → Stream
  sent : List Frame

/-- One turn of the pump thread of a pipe: a read into its buffer of 16 KiB, and a frame. -/
def Pump.turn (p : Pump) (pipe : Pipe) : Pump :=
  match (p.pipes pipe).read (16 * 1024) with
  -- the pipe has ended, and its thread has
  | ([], _) => p
  | (b :: bs, s) =>
    { pipes := Function.update p.pipes pipe s, sent := p.sent ++ [⟨pipe.agentTag, b :: bs⟩] }

/-- The chunks that were read of a pipe. -/
def ofPipe (chunks : List Chunk) (pipe : Pipe) : List UInt8 :=
  (chunks.filter (·.pipe = pipe)).flatMap Chunk.bytes

/-- The frames are chunks of the pipes, which with what is left make up the streams. -/
def Pump.Chunked (streams : Pipe → List UInt8) (p : Pump) : Prop :=
  ∃ chunks : List Chunk, p.sent = chunks.map Chunk.agentFrame ∧
    ∀ pipe, ofPipe chunks pipe ++ (p.pipes pipe).bytes = streams pipe

/-- **One turn** moves a chunk from a pipe to the socket. -/
theorem turn_chunked {streams : Pipe → List UInt8} (p : Pump) (pipe : Pipe)
    (h : p.Chunked streams) : (p.turn pipe).Chunked streams := by
  unfold Pump.turn
  cases hread : (p.pipes pipe).read (16 * 1024) with
  | mk bs s =>
    cases bs with
    | nil => exact h
    | cons b bs =>
      obtain ⟨htake, rfl⟩ := Prod.mk.inj hread
      obtain ⟨chunks, hsent, hstreams⟩ := h
      set n := min (16 * 1024) (max 1 ((p.pipes pipe).sizes 0)) with hn
      have hfits : (b :: bs).length ≤ 16 * 1024 := by
        rw [← htake, length_take]
        omega
      refine ⟨chunks ++ [⟨pipe, b :: bs, hfits⟩], ?_, fun other => ?_⟩
      · rw [map_append, ← hsent]
        rfl
      · rw [ofPipe, filter_append, flatMap_append, ← ofPipe, append_assoc]
        by_cases hother : other = pipe
        · subst hother
          simp only [Function.update_self]
          rw [← hstreams other]
          congr 1
          rw [filter_cons_of_pos (by simp), filter_nil, flatMap_cons, flatMap_nil, append_nil]
          show b :: bs ++ (p.pipes other).bytes.drop n = (p.pipes other).bytes
          rw [← htake, take_append_drop]
        · simp only [Function.update_of_ne hother]
          rw [← hstreams other]
          congr 1
          rw [filter_cons_of_neg (by simpa using fun h => hother h.symm), filter_nil,
            flatMap_nil, nil_append]

/-- A turn takes at least one byte off its pipe, if there is one, and nothing off the other. -/
theorem turn_length_le (p : Pump) (pipe other : Pipe) :
    ((p.turn pipe).pipes other).bytes.length ≤
      (p.pipes other).bytes.length - if pipe = other then 1 else 0 := by
  unfold Pump.turn
  cases hread : (p.pipes pipe).read (16 * 1024) with
  | mk bs s =>
    obtain ⟨htake, rfl⟩ := Prod.mk.inj hread
    set n := min (16 * 1024) (max 1 ((p.pipes pipe).sizes 0)) with hn
    by_cases hother : pipe = other
    · subst hother
      rw [if_pos rfl]
      cases bs with
      | nil =>
        have hlen := congrArg List.length htake
        rw [length_take, length_nil] at hlen
        dsimp only
        omega
      | cons b bs =>
        dsimp only
        rw [Function.update_self, length_drop]
        omega
    · rw [if_neg hother, Nat.sub_zero]
      cases bs with
      | nil => exact le_refl _
      | cons b bs =>
        dsimp only
        rw [Function.update_of_ne (Ne.symm hother)]

/-- **As many turns as a pipe has bytes drain it**, whatever the other thread does. -/
theorem run_length_le (order : List Pipe) (p : Pump) (pipe : Pipe) :
    ((Runs.run Pump.turn p order).pipes pipe).bytes.length ≤
      (p.pipes pipe).bytes.length - order.count pipe := by
  induction order generalizing p with
  | nil => exact le_refl _
  | cons first order ih =>
    have hstep := turn_length_le p first pipe
    have hrest := ih (p.turn first)
    rw [Runs.run_cons, count_cons]
    simp only [beq_iff_eq]
    split_ifs at hstep ⊢ <;> omega

/-! ## The daemon's reads -/

/-- The frames `exec_relay` takes off the stream, each with the place of the bytes it takes for
its header. -/
def relayReads (pos : ℕ) (s : Source) : List (ℕ × Frame) :=
  match _h : readAgentFrame s with
  | .ended => []
  | .failed _ => []
  | .frame f rest =>
    (pos, f) ::
      if f.tag = 3 then [] else relayReads (pos + (s.bytes.length - rest.bytes.length)) rest
termination_by s.bytes.length
decreasing_by exact length_readAgentFrame _h

/-- Frames with the place where each was written. -/
def framesAt : ℕ → List Frame → List (ℕ × Frame)
  | _, [] => []
  | pos, f :: fs => (pos, f) :: framesAt (pos + (writeAgentFrame f.tag f.payload).length) fs

theorem relayReads_of_frame {s rest : Source} {f : Frame} (pos : ℕ)
    (h : readAgentFrame s = .frame f rest) :
    relayReads pos s = (pos, f) ::
      if f.tag = 3 then [] else relayReads (pos + (s.bytes.length - rest.bytes.length)) rest := by
  rw [relayReads]
  split <;> simp_all

/-- Headers are looked for where frames begin, up to the exit frame. -/
theorem relayReads_forward (chunks : List Chunk) {payload : List UInt8}
    (h : payload.length ≤ maxFrame) (rest : List UInt8) (t : Bool) (pos : ℕ) :
    relayReads pos ⟨encodeAll (chunks.map Chunk.agentFrame ++ [⟨3, payload⟩]) ++ rest, t⟩ =
      framesAt pos (chunks.map Chunk.agentFrame ++ [⟨3, payload⟩]) := by
  induction chunks generalizing pos with
  | nil =>
    have hread := readAgentFrame_encode (t := t) (f := ⟨3, payload⟩) h rest
    have hbytes : encodeAll ([].map Chunk.agentFrame ++ [⟨3, payload⟩]) ++ rest =
        (Frame.mk 3 payload).encode ++ rest := by simp [encodeAll]
    rw [hbytes, relayReads_of_frame pos hread]
    rfl
  | cons c chunks ih =>
    set fs := chunks.map Chunk.agentFrame ++ [⟨3, payload⟩]
    have hread := readAgentFrame_encode (t := t) (f := c.agentFrame) (c.fits.trans (by decide))
      (encodeAll fs ++ rest)
    have htag : ¬ c.agentFrame.tag = 3 := by
      obtain ⟨pipe, bytes, hfits⟩ := c
      cases pipe
      · exact (by decide : ¬ (1 : UInt8) = 3)
      · exact (by decide : ¬ (2 : UInt8) = 3)
    have hplace : (c.agentFrame.encode ++ (encodeAll fs ++ rest)).length -
        (encodeAll fs ++ rest).length = c.agentFrame.encode.length := by
      rw [length_append, Nat.add_sub_cancel]
    rw [map_cons, cons_append, encodeAll_cons, append_assoc,
      relayReads_of_frame pos hread, if_neg htag, ih, hplace]
    rfl

theorem clientTag_inj {pipe other : Pipe} : pipe.clientTag = other.clientTag ↔ pipe = other := by
  cases pipe <;> cases other <;> decide

/-- What the client gets of a pipe are the chunks of that pipe. -/
theorem payloads_forwarded (chunks : List Chunk) (pipe : Pipe) :
    ((chunks.map Chunk.clientFrame).filter (·.tag = pipe.clientTag)).flatMap Frame.payload =
      ofPipe chunks pipe := by
  have htag : ((fun f : Frame => decide (f.tag = pipe.clientTag)) ∘ Chunk.clientFrame) =
      fun c => decide (c.pipe = pipe) := by
    funext c
    exact decide_eq_decide.2 clientTag_inj
  rw [filter_map, htag, flatMap_map]
  rfl

/-! ## The codec -/

/-- **The exec channel is a codec.**  Whatever the command and input (below 4 GiB each) and however
they arrive, the agent reads these.  Whatever the output of the two pipes, in whatever pieces it is
read and in whatever order the two threads write: what the daemon forwards of a pipe and what is
left in it are its stream, and nothing is left after as many turns as there are bytes; a turn on a
pipe with something left takes some of it; with the exit frame the daemon returns that exit code,
and it has looked for headers exactly where the agent wrote them. -/
theorem exec_codec :
    (∀ (cmd input rest : List UInt8) (sizes : ℕ → ℕ), cmd.length < 2 ^ 32 →
      input.length < 2 ^ 32 →
      readCommand ⟨sendCommand cmd input ++ rest, sizes⟩ = (cmd, input)) ∧
    ∀ (pipes : Pipe → Stream) (order : List Pipe) (rc : Int32) (rest : List UInt8) (t : Bool),
      let pump := Runs.run Pump.turn ⟨pipes, []⟩ order
      let sent := pump.sent ++ [exitFrame rc]
      let wire : Source := ⟨agentWire sent ++ rest, t⟩
      (∀ pipe : Pipe, ((relay wire).1.filter (·.tag = pipe.clientTag)).flatMap Frame.payload ++
        (pump.pipes pipe).bytes = (pipes pipe).bytes) ∧
      (∀ pipe : Pipe, (pipes pipe).bytes.length ≤ order.count pipe →
        (pump.pipes pipe).bytes = []) ∧
      (∀ pipe : Pipe, (pump.pipes pipe).bytes ≠ [] →
        ((pump.turn pipe).pipes pipe).bytes.length < (pump.pipes pipe).bytes.length) ∧
      (∀ f ∈ (relay wire).1, ∃ pipe : Pipe, f.tag = pipe.clientTag) ∧
      (relay wire).2 = .ok rc ∧ relayReads 0 wire = framesAt 0 sent := by
  refine ⟨fun cmd input rest sizes hc hi => readCommand_sendCommand hc hi rest sizes, ?_⟩
  intro pipes order rc rest t
  obtain ⟨chunks, hsent, hstreams⟩ :=
    Runs.invariant_always (I := Pump.Chunked fun pipe => (pipes pipe).bytes) turn_chunked
      (s := ⟨pipes, []⟩) ⟨[], rfl, fun pipe => rfl⟩ order
  have hexit : (i32ToLe rc).length ≤ maxFrame := by
    rw [length_i32ToLe]
    decide
  intro pump sent wire
  have hwire : wire = ⟨encodeAll (chunks.map Chunk.agentFrame) ++
      ((exitFrame rc).encode ++ rest), t⟩ := by
    have hone : encodeAll [exitFrame rc] = (exitFrame rc).encode := by
      exact append_nil _
    show (⟨agentWire (_ ++ [exitFrame rc]) ++ rest, t⟩ : Source) = _
    rw [hsent, agentWire_eq, encodeAll_append, append_assoc, hone]
  have hrelay : relay wire = (chunks.map Chunk.clientFrame, .ok rc) := by
    rw [hwire, relay_forward, exitFrame, relay_exit hexit, append_nil, exitCode_i32ToLe]
  rw [hrelay]
  refine ⟨fun pipe => ?_, fun pipe hturns => ?_, fun pipe hleft => ?_, fun f hf => ?_, rfl, ?_⟩
  · rw [payloads_forwarded]
    exact hstreams pipe
  · have hle := run_length_le order ⟨pipes, []⟩ pipe
    rw [Nat.sub_eq_zero_of_le hturns] at hle
    exact length_eq_zero_iff.1 (Nat.le_zero.1 hle)
  · have hle := turn_length_le pump pipe pipe
    rw [if_pos rfl] at hle
    have hpos := length_pos_iff.2 hleft
    omega
  · obtain ⟨c, -, rfl⟩ := mem_map.1 hf
    exact ⟨c.pipe, rfl⟩
  · show relayReads 0 ⟨agentWire (_ ++ [exitFrame rc]) ++ rest, t⟩ =
      framesAt 0 (_ ++ [exitFrame rc])
    rw [hsent]
    exact relayReads_forward chunks hexit rest t 0

/-- Three bytes of output and one of errors, read two bytes at a time. -/
def outAndErr : Pipe → Stream
  | .stdout => ⟨[1, 2, 3], fun _ => 2⟩
  | .stderr => ⟨[9], fun _ => 2⟩

/-- A command with output on both pipes, which exits with 7. -/
theorem exec_codec_outAndErr :
    let pumped := Runs.run Pump.turn ⟨outAndErr, []⟩ [.stdout, .stderr, .stdout]
    let sent := pumped.sent ++ [exitFrame 7]
    let wire : Source := ⟨agentWire sent, false⟩
    sent.map Frame.tag = [1, 2, 1, 3] ∧
    readCommand ⟨sendCommand [108, 115] [5], fun _ => 1⟩ = ([108, 115], [5]) ∧
    ((relay wire).1.filter (·.tag = Pipe.stdout.clientTag)).flatMap Frame.payload = [1, 2, 3] ∧
    ((relay wire).1.filter (·.tag = Pipe.stderr.clientTag)).flatMap Frame.payload = [9] ∧
    (relay wire).2 = .ok 7 := by
  obtain ⟨hcommand, houtput⟩ := exec_codec
  obtain ⟨hstream, -, -, -, hcode, -⟩ := houtput outAndErr [.stdout, .stderr, .stdout] 7 [] false
  refine ⟨by decide, ?_, ?_, ?_, ?_⟩
  · exact hcommand [108, 115] [5] [] (fun _ => 1) (by decide) (by decide)
  · exact @append_cancel_right _ _ [] _ (hstream .stdout)
  · exact @append_cancel_right _ _ [] _ (hstream .stderr)
  · exact hcode

end Amber.Exec
