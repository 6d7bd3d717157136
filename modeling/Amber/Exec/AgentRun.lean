import Amber.Exec.AgentCodec

/-!
# Does the agent run a truncated command?

`main` of `agent/src/main.rs` reads the command and its input and starts a shell.  `read_n` gives
back fewer bytes when the connection ends, and a length that did not arrive counts as zero; nothing
looks at whether all of the message was there.

* `cmd_of_cut` — the command that is read when the connection ends after `k` bytes.
* `runsWhole_iff` — exactly when the agent runs a whole command with its whole input, and nothing
  else: all of the message arrives and both parts are below 4 GiB, or the shell is not started at
  all.
* `half_command_runs` — `rm -rf /tmp/x`, cut to `rm -rf /`.
-/

namespace Amber.Exec

open LittleEndian ShortReads List

/-- What the agent does with what it has read. -/
inductive AgentEnd
  /-- `sh -c cmd`, with these bytes for its standard input; `none` is `Stdio::null()`. -/
  | shell (cmd : List UInt8) (stdin : Option (List UInt8))
  /-- The shell could not be started: the agent sends this and returns. -/
  | notFound (frame : List UInt8)
  deriving DecidableEq

/-- `main`, from the first read to the spawn.  A process is not started (`starts` is false), or
refused because its argument has a NUL byte. -/
def agentMain (starts : Bool) (s : Stream) : AgentEnd :=
  let (cmd, input) := readCommand s
  let stdin := if input = [] then none else some input
  if starts = true ∧ (0 : UInt8) ∉ cmd then .shell cmd stdin
  else .notFound (writeAgentFrame 3 (i32ToLe 127))

/-! ## Where the connection ends -/

/-- **The command when the connection ends after `k` bytes**: what came of it, and no more than its
length says in 32 bits. -/
theorem cmd_of_cut (cmd input : List UInt8) (k : ℕ) (sizes : ℕ → ℕ) :
    (readCommand ⟨(sendCommand cmd input).take k, sizes⟩).1 =
      cmd.take (min (k - 4) (cmd.length % 2 ^ 32)) := by
  obtain ⟨hlen, hrest⟩ := field_cut cmd.length k (cmd ++ (toLe 4 input.length ++ input))
  rw [readCommand_eq, sendCommand_eq]
  dsimp only
  rw [hlen, hrest, take_take]
  split_ifs with hk
  · -- not even the length is there
    rw [Nat.zero_min, take_zero, Nat.sub_eq_zero_of_le hk.le, Nat.zero_min, take_zero]
  · rw [Nat.min_comm, take_append_of_le_length (by omega)]

/-- The input, when all of the message is there. -/
theorem input_of_whole {cmd : List UInt8} (hcmd : cmd.length < 2 ^ 32) (input : List UInt8)
    (sizes : ℕ → ℕ) :
    (readCommand ⟨sendCommand cmd input, sizes⟩).2 = input.take (input.length % 2 ^ 32) := by
  have hilen : u32OrZero (toLe 4 input.length) = input.length % 2 ^ 32 := by
    rw [u32OrZero, if_pos (length_toLe 4 _)]
    exact fromLe_toLe 4 _
  rw [readCommand_eq]
  simp [sendCommand_eq, take_left' (length_toLe 4 _), drop_left' (length_toLe 4 _),
    u32OrZero_toLe hcmd, hilen]

/-! ## What is run -/

/-- The agent runs a command only with all of the message: on a strict part of it no shell, and
otherwise this command with this input. -/
structure RunsWhole (starts : Bool) (cmd input : List UInt8) (k : ℕ) (sizes : ℕ → ℕ) : Prop where
  cut : k < (sendCommand cmd input).length → ∀ c i,
    agentMain starts ⟨(sendCommand cmd input).take k, sizes⟩ ≠ .shell c i
  whole : ∀ c i, agentMain starts ⟨(sendCommand cmd input).take k, sizes⟩ = .shell c i →
    c = cmd ∧ i.getD [] = input

/-- A shell is started unless it cannot be, or what came of the command has a NUL byte. -/
theorem agentMain_eq (starts : Bool) (cmd input : List UInt8) (k : ℕ) (sizes : ℕ → ℕ) :
    agentMain starts ⟨(sendCommand cmd input).take k, sizes⟩ =
      let came := cmd.take (min (k - 4) (cmd.length % 2 ^ 32))
      let input := (readCommand ⟨(sendCommand cmd input).take k, sizes⟩).2
      if starts = true ∧ (0 : UInt8) ∉ came then
        .shell came (if input = [] then none else some input)
      else .notFound (writeAgentFrame 3 (i32ToLe 127)) := by
  rw [← cmd_of_cut cmd input k sizes]
  rfl

theorem getD_stdin (input : List UInt8) :
    (if input = [] then none else some input : Option (List UInt8)).getD [] = input := by
  split_ifs with h
  · exact h.symm
  · rfl

/-- **When the agent runs nothing but whole commands.**  For every command and input, wherever the
connection ends and however the bytes arrive: if no shell can be started, or the part of the command
that has arrived has a NUL byte, or all of the message has arrived and command and input are shorter
than 4 GiB; and in no other case. -/
theorem runsWhole_iff (starts : Bool) (cmd input : List UInt8) (k : ℕ) (sizes : ℕ → ℕ) :
    RunsWhole starts cmd input k sizes ↔
      starts = false ∨ 0 ∈ cmd.take (min (k - 4) (cmd.length % 2 ^ 32)) ∨
        ((sendCommand cmd input).length ≤ k ∧ cmd.length < 2 ^ 32 ∧ input.length < 2 ^ 32) := by
  have hmain := agentMain_eq starts cmd input k sizes
  by_cases hspawn : starts = true ∧ (0 : UInt8) ∉ cmd.take (min (k - 4) (cmd.length % 2 ^ 32))
  · rw [if_pos hspawn] at hmain
    constructor
    · intro h
      have hk : (sendCommand cmd input).length ≤ k := by
        by_contra hlt
        exact h.cut (not_le.1 hlt) _ _ hmain
      obtain ⟨hcmd, hinput⟩ := h.whole _ _ hmain
      rw [getD_stdin] at hinput
      -- all of the command has come, so its length was not cut to 32 bits
      have hshort : cmd.length < 2 ^ 32 := by
        have hlen := congrArg length hcmd
        rw [length_take] at hlen
        omega
      rw [take_of_length_le hk, input_of_whole hshort] at hinput
      have hshort' : input.length < 2 ^ 32 := by
        have hlen := congrArg length hinput
        rw [length_take] at hlen
        omega
      exact .inr (.inr ⟨hk, hshort, hshort'⟩)
    · rintro (hfalse | hnul | ⟨hk, hc, hi⟩)
      · rw [hfalse] at hspawn
        cases hspawn.1
      · exact absurd hnul hspawn.2
      · refine ⟨fun hlt => absurd hk (not_le.2 hlt), fun c i hrun => ?_⟩
        have hread := readCommand_sendCommand hc hi [] sizes
        rw [append_nil] at hread
        rw [agentMain, take_of_length_le hk, hread] at hrun
        dsimp only at hrun
        by_cases hstarts : starts = true ∧ (0 : UInt8) ∉ cmd
        · rw [if_pos hstarts] at hrun
          obtain ⟨rfl, rfl⟩ := AgentEnd.shell.inj hrun
          exact ⟨rfl, getD_stdin input⟩
        · rw [if_neg hstarts] at hrun
          cases hrun
  · rw [if_neg hspawn] at hmain
    refine ⟨fun _ => ?_, fun _ => ⟨fun _ c i hrun => ?_, fun c i hrun => ?_⟩⟩
    · rw [not_and, not_not] at hspawn
      cases hstarts : starts with
      | false => exact .inl rfl
      | true => exact .inr (.inl (hspawn hstarts))
    · rw [hmain] at hrun
      cases hrun
    · rw [hmain] at hrun
      cases hrun

/-- `rm -rf /tmp/x`. -/
def removeX : List UInt8 := [114, 109, 32, 45, 114, 102, 32, 47, 116, 109, 112, 47, 120]

/-- **Half a command is run.**  The connection ends after 12 of the 21 bytes: the agent runs
`rm -rf /`. -/
theorem half_command_runs :
    agentMain true ⟨(sendCommand removeX []).take 12, fun _ => 4⟩ =
        .shell [114, 109, 32, 45, 114, 102, 32, 47] none ∧
      12 < (sendCommand removeX []).length ∧
      ¬ RunsWhole true removeX [] 12 fun _ => 4 := by
  have hrun : agentMain true ⟨(sendCommand removeX []).take 12, fun _ => 4⟩ =
      .shell [114, 109, 32, 45, 114, 102, 32, 47] none := by
    rw [agentMain, readCommand_eq]
    decide
  have hlt : 12 < (sendCommand removeX []).length := by decide
  exact ⟨hrun, hlt, fun h => h.cut hlt _ _ hrun⟩

end Amber.Exec
