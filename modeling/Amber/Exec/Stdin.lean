import Mathlib.Data.List.TakeDrop
import Amber.Exec.AgentRun

/-!
# The standard input of `amber exec`

The client reads its standard input to the end and sends it as one frame behind the request.  The
daemon reads that frame (`handle_exec`), sends command and input on to the agent (`exec_relay`), and
the agent starts the command with the input it has read.  Either connection may break off at any
byte.  Is the command only ever run with what the client read?

* `stdinOf_cut` — what the daemon takes for the input: a beginning of it whose length is cut to 32
  bits, or nothing at all.
* `input_cut` — what the agent makes of a message that is broken off.
* `exact_iff` — the command gets the client's input exactly if there is none, or it fits a frame and
  both messages arrive whole (or if it is not run).
* `stdin_lost` — else it is run all the same: with nothing, or with a part of it.
-/

namespace Amber.Exec

open LittleEndian TagFrame Proto ShortReads List

/-! ## The hops -/

/-- What `handle_exec` takes for the input: anything but a frame tagged as such is no input. -/
def stdinOf (s : Source) : List UInt8 :=
  match readFrame s with
  | .ok (some (f, _)) => if f.tag = tagStdin then f.payload else []
  | _ => []

/-- One exec, as far as the input goes. -/
structure StdinRun where
  cmd : List UInt8
  /-- The command comes in a request frame. -/
  carried : cmd.length ≤ maxFrame
  /-- What the client reads from its standard input. -/
  input : List UInt8
  /-- How many bytes of the client's frame reach the daemon, and whether its connection then fails
  instead of ending. -/
  arrives : ℕ
  broken : Bool
  /-- A worker is staged and its agent connects in time. -/
  connected : Bool
  /-- How many of the daemon's bytes reach the agent before its stream ends, and how. -/
  delivered : ℕ
  sizes : ℕ → ℕ
  /-- The agent finds a shell. -/
  shell : Bool

namespace StdinRun

/-- The command and the input the agent runs it with. -/
def ran (r : StdinRun) : Option (List UInt8 × List UInt8) :=
  if r.connected then
    let input := stdinOf ⟨(writeFrame tagStdin r.input).take r.arrives, r.broken⟩
    match agentMain r.shell ⟨(sendCommand r.cmd input).take r.delivered, r.sizes⟩ with
    | .shell cmd stdin => some (cmd, stdin.getD [])
    | .notFound _ => none
  else none

/-- What is run gets the client's input. -/
def Exact (r : StdinRun) : Prop := ∀ cmd input, r.ran = some (cmd, input) → input = r.input

end StdinRun

/-! ## What each hop makes of a message -/

/-- **What the daemon takes for the input**, if `n` bytes of the frame arrive: its header holds the
length cut to 32 bits, and that much is read if it is not too much and is there. -/
theorem stdinOf_cut (input : List UInt8) (n : ℕ) (t : Bool) :
    stdinOf ⟨(writeFrame tagStdin input).take n, t⟩ =
      if input.length % 2 ^ 32 ≤ maxFrame ∧ 5 + input.length % 2 ^ 32 ≤ n then
        input.take (input.length % 2 ^ 32)
      else [] := by
  by_cases hhdr : n < 5
  · -- not even the header is there
    rw [if_neg (by omega)]
    rcases Nat.eq_zero_or_pos n with rfl | hpos
    · cases t <;> rfl
    · obtain ⟨e, he⟩ := readFrame_torn (f := ⟨tagStdin, input⟩) (t := t) hpos (.inl hhdr)
        (by rw [length_encode]; omega)
      change readFrame ⟨(writeFrame tagStdin input).take n, t⟩ = _ at he
      rw [stdinOf, he]
  · obtain ⟨k, rfl⟩ := Nat.exists_eq_add_of_le (not_lt.1 hhdr)
    have hbytes : (writeFrame tagStdin input).take (5 + k) =
        [tagStdin] ++ (toLe 4 input.length ++ input.take k) := by
      have hhead : (tagStdin :: toLe 4 input.length).length = 5 := by simp
      rw [← hhead]
      exact take_length_add_append k
    have hcut : fromLe (toLe 4 input.length) = input.length % 2 ^ 32 := fromLe_toLe 4 _
    rw [stdinOf, readFrame, hbytes, readFrameLog,
      readExact_append (length_singleton (a := tagStdin))]
    simp only [readExact_append (length_toLe 4 input.length), hcut]
    by_cases hlarge : input.length % 2 ^ 32 > maxFrame
    · rw [if_pos hlarge, if_neg fun h => absurd h.1 (not_le.2 hlarge)]
    · rw [if_neg hlarge]
      by_cases hall : input.length % 2 ^ 32 ≤ k
      · rw [if_pos ⟨not_lt.1 hlarge, by omega⟩, Source.readExact,
          if_pos (by rw [length_take]; omega)]
        simp only [take_take, min_eq_left hall]
        rfl
      · rw [readExact_short (by rw [length_take]; omega), if_neg fun h => hall (by omega)]

/-- **What the agent takes for the input**, if `n` bytes of the message arrive. -/
theorem input_cut {cmd input : List UInt8} (hc : cmd.length < 2 ^ 32) (hi : input.length < 2 ^ 32)
    (n : ℕ) (sizes : ℕ → ℕ) :
    (readCommand ⟨(sendCommand cmd input).take n, sizes⟩).2 =
      input.take (n - (8 + cmd.length)) := by
  obtain ⟨hclen, hcrest⟩ := field_cut cmd.length n (cmd ++ (toLe 4 input.length ++ input))
  obtain ⟨hilen, hirest⟩ := field_cut input.length (n - 4 - cmd.length) input
  rw [readCommand_eq, sendCommand_eq]
  dsimp only
  rw [hclen, hcrest, Nat.mod_eq_of_lt hc]
  split_ifs with hn
  · -- no command length: an empty command, without input
    rw [Nat.sub_eq_zero_of_le hn.le, take_zero, drop_nil, drop_nil, take_nil,
      Nat.sub_eq_zero_of_le (by omega), take_zero]
  · rw [drop_take, drop_left, hilen, hirest, Nat.mod_eq_of_lt hi, take_take]
    have hcount : n - 4 - cmd.length - 4 = n - (8 + cmd.length) := by omega
    split_ifs with hm
    · rw [Nat.zero_min, Nat.sub_eq_zero_of_le (by omega)]
    · rw [hcount, take_eq_take_iff]
      omega

/-! ## The whole way -/

namespace StdinRun

/-- The input that is run with is a beginning of the client's, of this length. -/
def kept (r : StdinRun) : ℕ :=
  if r.input.length % 2 ^ 32 ≤ maxFrame ∧ 5 + r.input.length % 2 ^ 32 ≤ r.arrives then
    min (r.delivered - (8 + r.cmd.length)) (r.input.length % 2 ^ 32)
  else 0

/-- What comes of the command. -/
def came (r : StdinRun) : List UInt8 := r.cmd.take (r.delivered - 4)

/-- **What the agent runs**, if it is reached and finds a shell, and no NUL byte in the command. -/
theorem ran_eq (r : StdinRun) :
    r.ran = if r.connected = true ∧ r.shell = true ∧ 0 ∉ r.came then
      some (r.came, r.input.take r.kept) else none := by
  have hcmd : r.cmd.length < 2 ^ 32 := r.carried.trans_lt (by decide)
  have hcame : r.cmd.take (min (r.delivered - 4) (r.cmd.length % 2 ^ 32)) = r.came := by
    rw [Nat.mod_eq_of_lt hcmd, came, take_eq_take_iff, min_assoc, min_self]
  have hsmall :
      (stdinOf ⟨(writeFrame tagStdin r.input).take r.arrives, r.broken⟩).length < 2 ^ 32 := by
    rw [stdinOf_cut]
    split_ifs
    · rw [length_take]
      omega
    · exact Nat.two_pow_pos 32
  have hinput := input_cut hcmd hsmall r.delivered r.sizes
  have hkept : (stdinOf ⟨(writeFrame tagStdin r.input).take r.arrives, r.broken⟩).take
      (r.delivered - (8 + r.cmd.length)) = r.input.take r.kept := by
    rw [stdinOf_cut, kept]
    split_ifs
    · exact take_take
    · rw [take_nil, take_zero]
  rw [ran, ite_and]
  split_ifs with hcon hruns
  · simp only [agentMain_eq, hcame, if_pos hruns, getD_stdin, hinput, hkept]
  · simp only [agentMain_eq, hcame, if_neg hruns]
  · rfl

/-- **When the command gets the client's input.**  If it is run, exactly if there is no input, or
the input fits a frame, the client's frame reaches the daemon whole and the daemon's message reaches
the agent whole. -/
theorem exact_iff (r : StdinRun) :
    r.Exact ↔ r.connected = false ∨ r.shell = false ∨ 0 ∈ r.cmd.take (r.delivered - 4) ∨
      r.input = [] ∨ (r.input.length ≤ maxFrame ∧ 5 + r.input.length ≤ r.arrives ∧
        8 + r.cmd.length + r.input.length ≤ r.delivered) := by
  have hran := r.ran_eq
  by_cases hruns : r.connected = true ∧ r.shell = true ∧ 0 ∉ r.came
  · rw [if_pos hruns] at hran
    have hexact : r.Exact ↔ r.input.length ≤ r.kept := by
      rw [← take_eq_self_iff r.input]
      constructor
      · exact fun h => h _ _ hran
      · intro h cmd input hran'
        cases hran.symm.trans hran'
        exact h
    have hmax : maxFrame < 2 ^ 32 := by decide
    have hkept : r.input.length ≤ r.kept ↔ r.input.length = 0 ∨
        (r.input.length ≤ maxFrame ∧ 5 + r.input.length ≤ r.arrives ∧
          8 + r.cmd.length + r.input.length ≤ r.delivered) := by
      rw [kept]
      split_ifs with hframe
      · omega
      · omega
    rw [hexact, hkept, length_eq_zero_iff]
    obtain ⟨hcon, hshell, hnul⟩ := hruns
    rw [came] at hnul
    simp only [hcon, hshell, hnul, Bool.true_eq_false, false_or]
  · rw [if_neg hruns] at hran
    refine iff_of_true (fun cmd input h => ?_) ?_
    · rw [hran] at h
      cases h
    · rw [came] at hruns
      simp only [not_and_or, Bool.not_eq_true, not_not] at hruns
      tauto

/-- `cat` with some input; everything arrives but what is said not to. -/
def catRun (input : List UInt8) (arrives delivered : ℕ) : StdinRun where
  cmd := [99, 97, 116]
  carried := by decide
  input := input
  arrives := arrives
  broken := false
  connected := true
  delivered := delivered
  sizes := fun _ => 4096
  shell := true

/-- **The command is run without its input**: with an input one byte too large for a frame, of which
everything arrives; and with one byte of which the daemon never hears.  And it is run with a part of
its input, if the agent's connection ends within it. -/
theorem stdin_lost :
    (∃ cmd, (catRun (List.replicate (maxFrame + 1) 1) (maxFrame + 6) (2 ^ 32)).ran =
      some (cmd, [])) ∧
    ¬ (catRun (List.replicate (maxFrame + 1) 1) (maxFrame + 6) (2 ^ 32)).Exact ∧
    (∃ cmd, (catRun [1] 0 (2 ^ 32)).ran = some (cmd, [])) ∧ ¬ (catRun [1] 0 (2 ^ 32)).Exact ∧
    (∃ cmd, (catRun [1, 2] 7 12).ran = some (cmd, [1])) ∧ ¬ (catRun [1, 2] 7 12).Exact := by
  have hrun : ∀ r : StdinRun, r.connected = true ∧ r.shell = true ∧ 0 ∉ r.came →
      ∃ cmd, r.ran = some (cmd, r.input.take r.kept) :=
    fun r hr => ⟨_, r.ran_eq.trans (if_pos hr)⟩
  refine ⟨?_, ?_, ?_, ?_, ?_, ?_⟩
  · have hkept : (catRun (replicate (maxFrame + 1) 1) (maxFrame + 6) (2 ^ 32)).kept = 0 := by
      rw [kept, if_neg]
      simp only [catRun, length_replicate]
      decide
    have hex := hrun (catRun (replicate (maxFrame + 1) 1) (maxFrame + 6) (2 ^ 32))
      ⟨rfl, rfl, by decide⟩
    rwa [hkept, take_zero] at hex
  · rw [exact_iff]
    rintro (h | h | h | h | ⟨h, -⟩)
    · cases h
    · cases h
    · exact absurd h (by decide)
    · exact cons_ne_nil _ _ (replicate_succ.symm.trans h)
    · have hlen : (replicate (maxFrame + 1) (1 : UInt8)).length ≤ maxFrame := h
      rw [length_replicate] at hlen
      omega
  · exact hrun (catRun [1] 0 (2 ^ 32)) ⟨rfl, rfl, by decide⟩
  · rw [exact_iff]
    decide
  · exact hrun (catRun [1, 2] 7 12) ⟨rfl, rfl, by decide⟩
  · rw [exact_iff]
    decide

end StdinRun

end Amber.Exec
