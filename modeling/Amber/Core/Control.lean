import Amber.Lib.LittleEndian

/-!
# Control frames

The frames the daemon sends a worker (`control` in `amber-core/src/lib.rs`) and how
`control_reader` in `amber-core/src/vm.rs` takes them off the byte stream: one opcode byte, for
a balloon target followed by eight more.  There is no length and no check, so the reader is in
step with the writer only if it starts at the right byte.

* `feed_inStep` — a reader that is in step with the frames still to come stays so with every
  byte, and what it gives is the next of them.
-/

namespace Amber.Control

open LittleEndian List

/-- Set the balloon target. -/
def opBalloon : UInt8 := 1

/-- Freeze the vcpus. -/
def opPause : UInt8 := 2

/-- Let them go on. -/
def opResume : UInt8 := 3

inductive Frame
  | balloon (mib : UInt64)
  | pause
  | resume
  deriving DecidableEq

def Frame.encode : Frame → List UInt8
  | .balloon mib => opBalloon :: toLe 8 mib.toNat
  | .pause => [opPause]
  | .resume => [opResume]

def encodeAll (fs : List Frame) : List UInt8 := fs.flatMap Frame.encode

@[simp] theorem encodeAll_nil : encodeAll [] = [] := rfl

@[simp] theorem encodeAll_cons (f : Frame) (fs : List Frame) :
    encodeAll (f :: fs) = f.encode ++ encodeAll fs := flatMap_cons

theorem encodeAll_append (fs gs : List Frame) :
    encodeAll (fs ++ gs) = encodeAll fs ++ encodeAll gs := flatMap_append

/-! ## The reader -/

/-- Where `control_reader` is in the stream: before an opcode, or in the payload of a balloon
frame with some of its eight bytes read. -/
inductive Reader
  | opcode
  | payload (got : List UInt8)
  deriving DecidableEq

/-- The next byte.  An unknown opcode is skipped. -/
def Reader.feed : Reader → UInt8 → Reader × Option Frame
  | .opcode, b =>
    if b = opBalloon then (.payload [], none)
    else if b = opPause then (.opcode, some .pause)
    else if b = opResume then (.opcode, some .resume)
    else (.opcode, none)
  | .payload got, b =>
    if got.length + 1 < 8 then (.payload (got ++ [b]), none)
    else (.opcode, some (.balloon (UInt64.ofNat (fromLe (got ++ [b])))))

/-- The bytes of the frame that has been begun. -/
def Reader.begun : Reader → List UInt8
  | .opcode => []
  | .payload got => opBalloon :: got

/-- A reader that is in step: it has begun a frame that is still to come. -/
def Reader.InStep (r : Reader) (wire : List UInt8) (rest : List Frame) : Prop :=
  r.begun ++ wire = encodeAll rest

/-- A payload that is complete has been handed over. -/
def Reader.Short : Reader → Prop
  | .opcode => True
  | .payload got => got.length < 8

theorem feed_short {r : Reader} (h : r.Short) (b : UInt8) : (r.feed b).1.Short := by
  cases r with
  | opcode =>
    rw [Reader.feed]
    split_ifs
    · exact Nat.zero_lt_succ 7
    all_goals trivial
  | payload got =>
    rw [Reader.feed]
    split_ifs with hmore
    · show (got ++ [b]).length < 8
      rw [length_append]
      exact hmore
    · trivial

variable {b : UInt8} {rest : List Frame} {wire : List UInt8}

/-- Before an opcode, the next byte is that of the next frame. -/
theorem feed_opcode (h : Reader.opcode.InStep (b :: wire) rest) :
    ∃ r frame rest', Reader.feed .opcode b = (r, frame) ∧ rest = frame.toList ++ rest' ∧
      r.InStep wire rest' := by
  unfold Reader.InStep at h
  cases rest with
  | nil => cases h
  | cons f rest =>
    cases f with
    | balloon mib =>
      obtain ⟨rfl, hwire⟩ := cons.inj h
      refine ⟨.payload [], none, .balloon mib :: rest, rfl, rfl, ?_⟩
      rw [Reader.InStep, encodeAll_cons, hwire]
      rfl
    | pause =>
      obtain ⟨rfl, hwire⟩ := cons.inj h
      exact ⟨.opcode, some .pause, rest, rfl, rfl, hwire⟩
    | resume =>
      obtain ⟨rfl, hwire⟩ := cons.inj h
      exact ⟨.opcode, some .resume, rest, rfl, rfl, hwire⟩

/-- Inside a payload, the next byte is one of its eight. -/
theorem feed_payload {got : List UInt8} (hlt : got.length < 8)
    (h : (Reader.payload got).InStep (b :: wire) rest) :
    ∃ r frame rest', Reader.feed (.payload got) b = (r, frame) ∧ rest = frame.toList ++ rest' ∧
      r.InStep wire rest' := by
  unfold Reader.InStep at h
  cases rest with
  | nil => cases h
  | cons f rest =>
    cases f with
    | pause | resume => exact absurd (cons.inj h).1 (by decide)
    | balloon mib =>
      have hbytes : (got ++ [b]) ++ wire = toLe 8 mib.toNat ++ encodeAll rest := by
        rw [append_assoc]
        exact (cons.inj h).2
      by_cases hmore : got.length + 1 < 8
      · refine ⟨.payload (got ++ [b]), none, .balloon mib :: rest, if_pos hmore, rfl, ?_⟩
        show opBalloon :: (got ++ [b]) ++ wire = encodeAll (.balloon mib :: rest)
        rw [encodeAll_cons, cons_append, hbytes]
        rfl
      · -- the eighth byte: the payload is the number that was sent
        have hlen : (got ++ [b]).length = (toLe 8 mib.toNat).length := by
          rw [length_toLe, length_append, length_singleton]
          omega
        obtain ⟨hpay, hwire⟩ := append_inj hbytes hlen
        refine ⟨.opcode, some (.balloon mib), rest, ?_, rfl, hwire⟩
        have hval : fromLe (toLe 8 mib.toNat) = mib.toNat := fromLe_toLe_of_lt mib.toNat_lt
        rw [Reader.feed, if_neg hmore, hpay, hval, UInt64.ofNat_toNat]

/-- **The reader stays in step.**  What it gives for a byte is the next frame or nothing yet. -/
theorem feed_inStep {r : Reader} (hshort : r.Short) (h : r.InStep (b :: wire) rest) :
    ∃ rest', rest = (r.feed b).2.toList ++ rest' ∧ (r.feed b).1.InStep wire rest' := by
  cases r with
  | opcode =>
    obtain ⟨r', frame, rest', hfeed, hrest, hstep⟩ := feed_opcode h
    rw [hfeed]
    exact ⟨rest', hrest, hstep⟩
  | payload got =>
    obtain ⟨r', frame, rest', hfeed, hrest, hstep⟩ := feed_payload hshort h
    rw [hfeed]
    exact ⟨rest', hrest, hstep⟩

end Amber.Control
