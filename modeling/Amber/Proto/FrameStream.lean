import Amber.Proto.Frame

/-!
# Streams of control frames

A connection carries one frame after the other, and either side may go away at any byte.  Reading
it is calling `read_frame` until it says that the stream has ended or is broken off.

* `readAll_encodeAll` — whole frames are read as they were written, whatever follows.
* `readAll_cut` — at any cut, the frames wholly before it are read; the end is clean exactly if the
  cut is on a frame boundary.
* `frames_read_back` — both together, and no stream of bytes makes a reader allocate a payload
  larger than `maxFrame`.
-/

namespace Amber.Proto

open LittleEndian TagFrame List

/-! ## Reading to the end -/

/-- A length that is too large is refused before anything is allocated for it. -/
theorem readFrameLog_le (s : Source) : ∀ a ∈ (readFrameLog s).2, a ≤ maxFrame := by
  unfold readFrameLog
  split
  · exact forall_mem_nil _
  · split
    · exact forall_mem_nil _
    · rename_i len s₂ _
      split_ifs with hlarge
      · exact forall_mem_nil _
      · have hle : ∀ a ∈ [fromLe len], a ≤ maxFrame := forall_mem_singleton.2 (not_lt.1 hlarge)
        split
        · exact hle
        · exact hle

/-- What reading a stream to its end gives: the frames, how it ended (`.ok` for `None`), and the
payload buffers allocated on the way. -/
structure Reading where
  frames : List Frame
  ended : Except IoError Unit
  allocated : List ℕ

/-- `read_frame`, again and again, until it returns `None` or an error. -/
def readAll (s : Source) : Reading :=
  match _h : readFrame s with
  | .error e => ⟨[], .error e, (readFrameLog s).2⟩
  | .ok none => ⟨[], .ok (), (readFrameLog s).2⟩
  | .ok (some (f, rest)) =>
    ⟨f :: (readAll rest).frames, (readAll rest).ended,
      (readFrameLog s).2 ++ (readAll rest).allocated⟩
termination_by s.bytes.length
decreasing_by all_goals exact length_readFrame _h

section ReadAll

variable {s rest : Source} {f : Frame} {t : Bool}

theorem readAll_eq (s : Source) :
    readAll s = match readFrame s with
      | .error e => ⟨[], .error e, (readFrameLog s).2⟩
      | .ok none => ⟨[], .ok (), (readFrameLog s).2⟩
      | .ok (some (f, rest)) =>
        ⟨f :: (readAll rest).frames, (readAll rest).ended,
          (readFrameLog s).2 ++ (readAll rest).allocated⟩ := by
  rw [readAll]
  split <;> simp only [*]

theorem readAll_of_frame (h : readFrame s = .ok (some (f, rest))) :
    readAll s = ⟨f :: (readAll rest).frames, (readAll rest).ended,
      (readFrameLog s).2 ++ (readAll rest).allocated⟩ := by
  rw [readAll_eq, h]

theorem readAll_of_error {e : IoError} (h : readFrame s = .error e) :
    readAll s = ⟨[], .error e, (readFrameLog s).2⟩ := by
  rw [readAll_eq, h]

theorem readAll_nil : readAll ⟨[], false⟩ = ⟨[], .ok (), []⟩ := by
  rw [readAll]
  rfl

/-- **Whole frames are read as they were written**, whatever follows. -/
theorem readAll_encodeAll {fs : List Frame} (h : ∀ f ∈ fs, f.payload.length ≤ maxFrame)
    (bs : List UInt8) :
    (readAll ⟨encodeAll fs ++ bs, t⟩).frames = fs ++ (readAll ⟨bs, t⟩).frames ∧
      (readAll ⟨encodeAll fs ++ bs, t⟩).ended = (readAll ⟨bs, t⟩).ended := by
  induction fs with
  | nil => exact ⟨rfl, rfl⟩
  | cons f fs ih =>
    rw [forall_mem_cons] at h
    obtain ⟨hframes, hended⟩ := ih h.2
    rw [encodeAll_cons, append_assoc, readAll_of_frame (readFrame_encode h.1 _)]
    exact ⟨by rw [hframes, cons_append], hended⟩

/-- **Nothing large is allocated**, whatever the bytes are. -/
theorem readAll_allocated_le (s : Source) : ∀ a ∈ (readAll s).allocated, a ≤ maxFrame := by
  induction hn : s.bytes.length using Nat.strong_induction_on generalizing s with
  | h n ih =>
    rw [readAll_eq]
    cases hread : readFrame s with
    | error e => exact readFrameLog_le s
    | ok r =>
      cases r with
      | none => exact readFrameLog_le s
      | some p =>
        exact forall_mem_append.2
          ⟨readFrameLog_le s, ih _ (hn ▸ length_readFrame hread) p.2 rfl⟩

end ReadAll

/-! ## Cuts -/

/-- The bytes that `write_frame` puts on the stream for a list of frames. -/
def written (fs : List Frame) : List UInt8 := fs.flatMap fun f => writeFrame f.tag f.payload

/-- After this many bytes a frame ends, or none has begun. -/
def Boundary (fs : List Frame) (n : ℕ) : Prop :=
  ∃ j ≤ fs.length, n = (written (fs.take j)).length

/-- **A cut stream.**  The frames wholly before the cut are read, and the end is clean exactly at a
boundary. -/
theorem readAll_cut {fs : List Frame} (h : ∀ f ∈ fs, f.payload.length ≤ maxFrame) {n : ℕ}
    (hn : n ≤ (written fs).length) :
    ∃ k ≤ fs.length, (∀ j ≤ fs.length, (written (fs.take j)).length ≤ n ↔ j ≤ k) ∧
      (readAll ⟨(written fs).take n, false⟩).frames = fs.take k ∧
      ((readAll ⟨(written fs).take n, false⟩).ended = .ok () ↔ Boundary fs n) := by
  induction fs generalizing n with
  | nil =>
    obtain rfl : n = 0 := Nat.le_zero.1 hn
    have hnil : readAll ⟨(written []).take 0, false⟩ = ⟨[], .ok (), []⟩ := readAll_nil
    rw [hnil]
    exact ⟨0, le_rfl, fun j hj => by simp [written, Nat.le_zero.1 hj], rfl,
      iff_of_true rfl ⟨0, le_rfl, rfl⟩⟩
  | cons f fs ih =>
    rw [forall_mem_cons] at h
    have hlen : 0 < f.encode.length := by
      rw [length_encode]
      omega
    have hnext : ∀ j, (written ((f :: fs).take (j + 1))).length =
        f.encode.length + (written (fs.take j)).length := fun j => length_append
    by_cases hle : f.encode.length ≤ n
    · -- the first frame is all there
      obtain ⟨m, rfl⟩ := Nat.exists_eq_add_of_le hle
      obtain ⟨k, hk, hbefore, hframes, hended⟩ := ih h.2
        (Nat.le_of_add_le_add_left (hn.trans_eq length_append))
      have hbytes : (written (f :: fs)).take (f.encode.length + m) =
          f.encode ++ (written fs).take m := take_length_add_append m
      rw [hbytes, readAll_of_frame (readFrame_encode h.1 _)]
      refine ⟨k + 1, Nat.succ_le_succ hk, ?_, congrArg (f :: ·) hframes, hended.trans ?_⟩
      · rintro (_ | j) hj
        · simp [written]
        · have hj := hbefore j (Nat.le_of_succ_le_succ hj)
          rw [hnext]
          omega
      · constructor
        · rintro ⟨j, hj, rfl⟩
          exact ⟨j + 1, Nat.succ_le_succ hj, (hnext j).symm⟩
        · rintro ⟨_ | j, hj, hm⟩
          · have : f.encode.length + m = 0 := hm
            omega
          · rw [hnext] at hm
            exact ⟨j, Nat.le_of_succ_le_succ hj, Nat.add_left_cancel hm⟩
    · -- the cut is in the first frame
      have hbytes : (written (f :: fs)).take n = f.encode.take n :=
        take_append_of_le_length (Nat.le_of_not_le hle)
      have hbefore : ∀ j ≤ (f :: fs).length, (written ((f :: fs).take j)).length ≤ n ↔ j ≤ 0 := by
        rintro (_ | j) -
        · simp [written]
        · rw [hnext]
          omega
      rw [hbytes]
      rcases Nat.eq_zero_or_pos n with rfl | hpos
      · rw [take_zero, readAll_nil]
        exact ⟨0, Nat.zero_le _, hbefore, rfl, iff_of_true rfl ⟨0, Nat.zero_le _, rfl⟩⟩
      · obtain ⟨e, he⟩ := readFrame_torn (t := false) hpos (.inr h.1) (not_le.1 hle)
        rw [readAll_of_error he]
        refine ⟨0, Nat.zero_le _, hbefore, rfl, iff_of_false nofun ?_⟩
        rintro ⟨j, hj, rfl⟩
        obtain rfl := Nat.le_zero.1 ((hbefore j hj).1 le_rfl)
        exact hpos.ne rfl

/-! ## The codec -/

/-- **Control frames are read back.**  From the frames that were written, `read_frame` returns
exactly these and then `None`; from any beginning of their bytes exactly the frames wholly in it,
and then `None` if it ends on a frame boundary and an error if not.  No bytes at all make it
allocate more than `maxFrame` for a payload. -/
theorem frames_read_back :
    (∀ fs : List Frame, (∀ f ∈ fs, f.payload.length ≤ maxFrame) →
      (readAll ⟨written fs, false⟩).frames = fs ∧
        (readAll ⟨written fs, false⟩).ended = .ok () ∧
      ∀ n ≤ (written fs).length, ∃ k ≤ fs.length,
        (∀ j ≤ fs.length, (written (fs.take j)).length ≤ n ↔ j ≤ k) ∧
        (readAll ⟨(written fs).take n, false⟩).frames = fs.take k ∧
        ((readAll ⟨(written fs).take n, false⟩).ended = .ok () ↔ Boundary fs n)) ∧
    ∀ s : Source, ∀ a ∈ (readAll s).allocated, a ≤ maxFrame := by
  refine ⟨fun fs h => ?_, readAll_allocated_le⟩
  obtain ⟨hframes, hended⟩ := readAll_encodeAll (t := false) h []
  rw [readAll_nil, append_nil, append_nil] at hframes
  rw [readAll_nil, append_nil] at hended
  exact ⟨hframes, hended, fun n hn => readAll_cut h hn⟩

/-- Two frames of seven and five bytes are read back; cut after nine bytes, the first one. -/
theorem frames_read_back_two :
    let fs : List Frame := [⟨tagStdout, [104, 105]⟩, ⟨tagReply, []⟩]
    (readAll ⟨written fs, false⟩).frames = fs ∧ (readAll ⟨written fs, false⟩).ended = .ok () ∧
      (readAll ⟨(written fs).take 9, false⟩).frames = fs.take 1 := by
  obtain ⟨hframes, hended, hcut⟩ :=
    frames_read_back.1 [⟨tagStdout, [104, 105]⟩, ⟨tagReply, []⟩] (by decide)
  obtain ⟨k, hk, hbefore, hframes', -⟩ := hcut 9 (by decide)
  have hone : 1 ≤ k := (hbefore 1 (by decide)).1 (by decide)
  have htwo : ¬ 2 ≤ k := fun h => absurd ((hbefore 2 le_rfl).2 h) (by decide)
  obtain rfl : k = 1 := by omega
  exact ⟨hframes, hended, hframes'⟩

end Amber.Proto
