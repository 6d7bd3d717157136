import Amber.Lib.LittleEndian

/-!
# Tagged frames on a byte stream

A frame is a tag byte, the length of its payload as four bytes, least significant first, and
the payload.  A stream is a finite list of bytes that then ends, cleanly or with an error.

* `take_encodeAll` — however a sequence of frames is cut, what is left is the frames wholly
  before the cut and a proper part of the next one (`cut_map`).
* `readExact_append` — reading as many bytes as were written gives those bytes.
-/

namespace TagFrame

open LittleEndian List

/-! ## Streams -/

/-- What can still be read from a stream, and whether it then fails instead of ending. -/
structure Source where
  bytes : List UInt8
  broken : Bool

/-- Exactly `n` bytes and the rest of the stream; `none` if it ends before. -/
def Source.readExact (s : Source) (n : ℕ) : Option (List UInt8 × Source) :=
  if n ≤ s.bytes.length then some (s.bytes.take n, { s with bytes := s.bytes.drop n }) else none

theorem readExact_append {a : List UInt8} {n : ℕ} (h : a.length = n) (b : List UInt8) (t : Bool) :
    (Source.mk (a ++ b) t).readExact n = some (a, ⟨b, t⟩) := by
  subst h
  have hle : a.length ≤ (a ++ b).length := by
    rw [length_append]
    omega
  simp [Source.readExact]

theorem readExact_short {s : Source} {n : ℕ} (h : s.bytes.length < n) : s.readExact n = none :=
  if_neg (not_le.2 h)

theorem length_readExact {s s' : Source} {n : ℕ} {bs : List UInt8}
    (h : s.readExact n = some (bs, s')) : s'.bytes.length + n = s.bytes.length := by
  unfold Source.readExact at h
  split_ifs at h with hle
  obtain ⟨rfl, rfl⟩ := Prod.mk.inj (Option.some.inj h)
  simp only [length_drop]
  omega

/-! ## Frames -/

structure Frame where
  tag : UInt8
  payload : List UInt8
  deriving DecidableEq

def Frame.encode (f : Frame) : List UInt8 :=
  f.tag :: (toLe 4 f.payload.length ++ f.payload)

theorem length_encode (f : Frame) : f.encode.length = 5 + f.payload.length := by
  rw [Frame.encode, length_cons, length_append, length_toLe]
  omega

def encodeAll (fs : List Frame) : List UInt8 := fs.flatMap Frame.encode

theorem encodeAll_cons (f : Frame) (fs : List Frame) :
    encodeAll (f :: fs) = f.encode ++ encodeAll fs := flatMap_cons

theorem encodeAll_append (fs gs : List Frame) :
    encodeAll (fs ++ gs) = encodeAll fs ++ encodeAll gs := flatMap_append

/-! ## Cuts -/

/-- A sequence of frames cut after `n` bytes: the frames wholly before the cut, and the bytes
of the next frame before it. -/
def cut : List Frame → ℕ → List Frame × List UInt8
  | [], _ => ([], [])
  | f :: fs, n =>
    if f.encode.length ≤ n then
      let rest := cut fs (n - f.encode.length)
      (f :: rest.1, rest.2)
    else ([], f.encode.take n)

theorem take_encodeAll (fs : List Frame) (n : ℕ) :
    (encodeAll fs).take n = encodeAll (cut fs n).1 ++ (cut fs n).2 := by
  induction fs generalizing n with
  | nil => exact take_nil
  | cons f fs ih =>
    rw [encodeAll_cons, cut]
    split_ifs with hle
    · obtain ⟨m, rfl⟩ := Nat.exists_eq_add_of_le hle
      rw [take_length_add_append, ih, Nat.add_sub_cancel_left, encodeAll_cons, append_assoc]
    · rw [take_append_of_le_length (Nat.le_of_not_le hle)]
      rfl

/-- A cut within one frame. -/
theorem cut_singleton {f : Frame} {n : ℕ} (hn : n < (encodeAll [f]).length) :
    n < f.encode.length ∧ cut [f] n = ([], f.encode.take n) := by
  have hlt : n < f.encode.length := hn.trans_eq (congrArg length (append_nil f.encode))
  exact ⟨hlt, if_neg (not_le.2 hlt)⟩

/-- A cut through frames made from a list and perhaps one more leaves whole frames of the list and
a proper part of the next frame. -/
theorem cut_map {α : Type} (g : α → Frame) (as : List α) (last : Option Frame) {n : ℕ}
    (hn : n < (encodeAll (as.map g ++ last.toList)).length) :
    let c := cut (as.map g ++ last.toList) n
    ∃ j f m, j ≤ as.length ∧ c.1 = (as.take j).map g ∧ f ∈ as.map g ++ last.toList ∧
      m < f.encode.length ∧ c.2 = f.encode.take m := by
  induction as generalizing n with
  | nil =>
    cases last with
    | none => exact absurd hn (Nat.not_lt_zero n)
    | some f =>
      obtain ⟨hlt, hcut⟩ := cut_singleton hn
      exact ⟨0, f, n, le_rfl, congrArg Prod.fst hcut, mem_cons_self, hlt, congrArg Prod.snd hcut⟩
  | cons a as ih =>
    rw [map_cons, cons_append, encodeAll_cons, length_append] at hn
    rw [map_cons, cons_append, cut]
    split_ifs with hle
    · obtain ⟨j, f, m, hj, hwhole, hf, hm, hleft⟩ := ih (n := n - (g a).encode.length) (by omega)
      exact ⟨j + 1, f, m, Nat.succ_le_succ hj, congrArg (g a :: ·) hwhole, mem_cons_of_mem _ hf, hm,
        hleft⟩
    · exact ⟨0, g a, n, Nat.zero_le _, rfl, mem_cons_self, not_le.1 hle, rfl⟩

/-- A cut before the last frame is whole. -/
theorem cut_concat (fs : List Frame) (g : Frame) {n : ℕ}
    (hn : n < (encodeAll (fs ++ [g])).length) :
    (cut (fs ++ [g]) n).1 = (cut fs n).1 ∧ ((cut (fs ++ [g]) n).2 = [] ↔
      (cut fs n).2 = [] ∧ n ≤ (encodeAll fs).length) := by
  induction fs generalizing n with
  | nil =>
    rw [nil_append, (cut_singleton hn).2]
    simp [cut, encodeAll, Frame.encode]
  | cons f fs ih =>
    rw [cons_append, encodeAll_cons, length_append] at hn
    rw [cons_append, cut, cut, encodeAll_cons, length_append]
    split_ifs with hle
    · obtain ⟨hwhole, hleft⟩ := ih (n := n - f.encode.length) (by omega)
      exact ⟨congrArg (f :: ·) hwhole, hleft.trans (and_congr_right fun _ => by omega)⟩
    · exact ⟨rfl, (and_iff_left (by omega)).symm⟩

end TagFrame
