import Amber.Lib.TagFrame

/-!
# The control protocol

`write_frame`, `read_frame` and the replies of `amber/src/proto.rs`: length-prefixed frames
over a Unix socket.  Control frames carry JSON.  The JSON library is a parameter
(`ReplyCodec`): all that is assumed of it is that decoding undoes encoding and that the
replies the daemon sends are small.

* `readFrame_encode` — a frame of at most `maxFrame` bytes is read back.
* `readFrame_torn` — a proper part of one is an error, never a clean end.
-/

namespace Amber.Proto

open LittleEndian TagFrame List

def tagReply : UInt8 := 2
def tagStdout : UInt8 := 3
def tagStdin : UInt8 := 4
def tagStderr : UInt8 := 5

/-- Frames larger than this are rejected. -/
def maxFrame : ℕ := 16 * 1024 * 1024

inductive ErrorKind
  | unexpectedEof
  | invalidData
  | other
  deriving DecidableEq

structure IoError where
  kind : ErrorKind
  message : String
  deriving DecidableEq

def IoError.ofOther (message : String) : IoError := ⟨.other, message⟩

/-- What `read_exact` fails with when the stream has too few bytes left. -/
def readError (s : Source) : IoError :=
  if s.broken then .ofOther "connection reset by peer"
  else ⟨.unexpectedEof, "failed to fill whole buffer"⟩

def writeFrame (tag : UInt8) (payload : List UInt8) : List UInt8 :=
  [tag] ++ toLe 4 payload.length ++ payload

/-- Read one frame, with the sizes of the payload buffers allocated for it. -/
def readFrameLog (s : Source) : Except IoError (Option (Frame × Source)) × List ℕ :=
  match s.readExact 1 with
  | none => (if (readError s).kind = .unexpectedEof then .ok none else .error (readError s), [])
  | some (tag, s₁) =>
    match s₁.readExact 4 with
    | none => (.error (readError s₁), [])
    | some (len, s₂) =>
      if fromLe len > maxFrame then (.error ⟨.invalidData, "frame too large"⟩, [])
      else
        -- `vec![0u8; len]`, before the payload is there
        match s₂.readExact (fromLe len) with
        | none => (.error (readError s₂), [fromLe len])
        | some (payload, s₃) => (.ok (some (⟨tag.headD 0, payload⟩, s₃)), [fromLe len])

/-- Read one frame; `none` on a clean end at a frame boundary. -/
def readFrame (s : Source) : Except IoError (Option (Frame × Source)) := (readFrameLog s).1

section Read

variable {f : Frame} {t : Bool}

theorem fromLe_length {n : ℕ} (h : n ≤ maxFrame) : fromLe (toLe 4 n) = n :=
  fromLe_toLe_of_lt (h.trans_lt (by decide))

theorem readFrame_encode (h : f.payload.length ≤ maxFrame) (rest : List UInt8) :
    readFrame ⟨f.encode ++ rest, t⟩ = .ok (some (f, ⟨rest, t⟩)) := by
  have hbytes : f.encode ++ rest = [f.tag] ++ (toLe 4 f.payload.length ++ (f.payload ++ rest)) := by
    simp [Frame.encode]
  rw [readFrame, readFrameLog, hbytes, readExact_append (length_singleton (a := f.tag))]
  simp only [readExact_append (length_toLe 4 f.payload.length), fromLe_length h]
  rw [if_neg (not_lt.2 h), readExact_append rfl]
  rfl

theorem readFrame_broken : ∃ e, readFrame ⟨[], true⟩ = .error e := ⟨_, rfl⟩

/-- A frame that is not all there is an error. -/
theorem readFrame_torn {m : ℕ} (hpos : 0 < m)
    (h : m < 5 ∨ f.payload.length ≤ maxFrame) (hm : m < f.encode.length) :
    ∃ e, readFrame ⟨f.encode.take m, t⟩ = .error e := by
  obtain ⟨m, rfl⟩ := Nat.exists_eq_succ_of_ne_zero hpos.ne'
  have htag : f.encode.take (m + 1) = [f.tag] ++ (toLe 4 f.payload.length ++ f.payload).take m :=
    rfl
  rw [length_encode] at hm
  rw [readFrame, readFrameLog, htag, readExact_append (length_singleton (a := f.tag))]
  simp only
  by_cases hhdr : m < 4
  · rw [readExact_short (by rw [length_take]; omega)]
    exact ⟨_, rfl⟩
  · obtain ⟨k, rfl⟩ := Nat.exists_eq_add_of_le (not_lt.1 hhdr)
    replace h := h.resolve_left (by omega)
    have hlen : (toLe 4 f.payload.length ++ f.payload).take (4 + k) =
        toLe 4 f.payload.length ++ f.payload.take k := by
      rw [← take_length_add_append, length_toLe]
    rw [hlen]
    simp only [readExact_append (length_toLe 4 f.payload.length), fromLe_length h]
    rw [if_neg (not_lt.2 h), readExact_short (by rw [length_take]; omega)]
    exact ⟨_, rfl⟩

/-- Reading a frame consumes bytes. -/
theorem length_readFrame {s s' : Source} (h : readFrame s = .ok (some (f, s'))) :
    s'.bytes.length < s.bytes.length := by
  unfold readFrame readFrameLog at h
  split at h
  · split_ifs at h
    cases h
  · rename_i tag s₁ h₁
    split at h
    · cases h
    · rename_i len s₂ h₂
      split_ifs at h
      split at h
      · cases h
      · rename_i payload s₃ h₃
        cases h
        have := length_readExact h₁
        have := length_readExact h₂
        have := length_readExact h₃
        omega

end Read

/-! ## Replies -/

/-- A reply of the daemon.  Of the ones that answer other requests only the kind is kept. -/
inductive Reply
  | exit (code : Int32)
  | started
  | vms
  | budget
  | budgetExceeded (budget used requested : UInt64)
  | ok
  | error (message : String)
  deriving DecidableEq

/-- Replies of bounded size; error texts are those of the operating system and of this code. -/
def Reply.Small : Reply → Prop
  | .error message => message.length ≤ 2 ^ 16
  | _ => True

instance (r : Reply) : Decidable r.Small := by
  cases r <;> unfold Reply.Small <;> infer_instance

theorem readError_small (s : Source) : (Reply.error (readError s).message).Small := by
  unfold readError
  split <;> decide

/-- `serde_json` on replies. -/
structure ReplyCodec where
  toVec : Reply → List UInt8
  fromSlice : List UInt8 → Option Reply
  fromSlice_toVec : ∀ r, fromSlice (toVec r) = some r
  toVec_le : ∀ r, r.Small → (toVec r).length ≤ maxFrame

/-- The frame `write_reply` writes. -/
def replyFrame (codec : ReplyCodec) (r : Reply) : Frame := ⟨tagReply, codec.toVec r⟩

/-! ### The assumption can be met -/

/-- A text in UTF-8. -/
def textBytes (m : String) : List UInt8 := m.toByteArray.data.toList

theorem length_textBytes (m : String) : (textBytes m).length ≤ 4 * m.length := by
  rw [← String.length_toList, textBytes, ← String.utf8Encode_toList]
  induction m.toList with
  | nil => exact Nat.le_refl 0
  | cons c l ih =>
    have hc := c.utf8Size_le_four
    rw [utf8Encode_cons, ByteArray.data_append, Array.toList_append, length_append, length_cons]
    have hone : [c].utf8Encode.data.toList.length = c.utf8Size := by simp [utf8Encode_singleton]
    omega

theorem textBytes_injective : Function.Injective textBytes := by
  intro m m' h
  exact String.toByteArray_inj.1 (ByteArray.ext (Array.toList_inj.1 h))

/-- A plain encoding of replies: the kind, and the data. -/
def plainVec : Reply → List UInt8
  | .exit code => 0 :: toLe 4 code.toUInt32.toNat
  | .started => [1]
  | .vms => [2]
  | .budget => [3]
  | .budgetExceeded budget used requested =>
    4 :: (toLe 8 budget.toNat ++ (toLe 8 used.toNat ++ toLe 8 requested.toNat))
  | .ok => [5]
  | .error message => 6 :: textBytes message

theorem toLe_toNat_inj {x y : UInt64} (h : toLe 8 x.toNat = toLe 8 y.toNat) : x = y :=
  UInt64.toNat_inj.1 (toLe_inj x.toNat_lt y.toNat_lt h)

theorem plainVec_injective : Function.Injective plainVec := by
  intro r r' h
  cases r <;> cases r' <;> first | rfl | (simp [plainVec] at h; done) | replace h := (cons.inj h).2
  case exit.exit code code' =>
    have hnat := toLe_inj code.toUInt32.toNat_lt code'.toUInt32.toNat_lt h
    rw [show code = code' from congrArg Int32.ofUInt32 (UInt32.toNat_inj.1 hnat)]
  case budgetExceeded.budgetExceeded =>
    obtain ⟨h1, h2⟩ := append_inj h (by rw [length_toLe, length_toLe])
    obtain ⟨h2, h3⟩ := append_inj h2 (by rw [length_toLe, length_toLe])
    rw [toLe_toNat_inj h1, toLe_toNat_inj h2, toLe_toNat_inj h3]
  case error.error message message' => rw [textBytes_injective h]

/-- There is a codec. -/
theorem replyCodec_nonempty : Nonempty ReplyCodec := by
  refine ⟨⟨plainVec, Function.partialInv _, Function.partialInv_left plainVec_injective,
    fun r hr => ?_⟩⟩
  cases r with
  | error message =>
    have hlen : message.length ≤ 2 ^ 16 := hr
    have hbytes := length_textBytes message
    rw [plainVec, length_cons, maxFrame]
    omega
  | _ => simp [plainVec, maxFrame]

end Amber.Proto
