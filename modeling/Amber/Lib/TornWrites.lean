import Mathlib.Data.Countable.Basic
import Mathlib.Logic.Equiv.List

/-!
# Files written in place, one after another

A directory maps names to contents.  `writeFiles` writes a list of files over what is there; at
a chosen file it may fail, either before the file is created, with the old contents kept, or
after, with a prefix of the new contents in its place.

* `writeFiles_frame` — other names are left alone.
* `writeFiles_all` — without a failure every file is there in full.
* `writeFiles_torn` — where nothing was before, every file is absent or a prefix.
* `writeFiles_of_last` — where nothing was before, the last file in full means all in full.

`PrefixCodec` is a format in which a torn text does not decode; `nonempty` says there is one for
every countable type.
-/

namespace TornWrites

section Torn

open List

/-- A directory: the contents of the files in it. -/
abbrev Dir := String → Option (List UInt8)

/-- Nothing there. -/
def Dir.empty : Dir := fun _ => none

def Dir.put (d : Dir) (name : String) (bytes : List UInt8) : Dir :=
  fun n => if n = name then some bytes else d n

/-- A write that failed: the error, and how much of the file was written if it was created. -/
structure Fault where
  err : String
  left : Option ℕ

/-- What a failed write leaves. -/
def Fault.leave (fault : Fault) (d : Dir) (file : String × List UInt8) : Dir :=
  match fault.left with
  | none => d
  | some n => d.put file.1 (file.2.take n)

/-- Write the files in order.  The `k`-th write, if there is one, fails. -/
def writeFiles (d : Dir) : List (String × List UInt8) → ℕ → Fault → Dir × Except String Unit
  | [], _, _ => (d, .ok ())
  | file :: _, 0, fault => (fault.leave d file, .error fault.err)
  | file :: files, k + 1, fault => writeFiles (d.put file.1 file.2) files k fault

variable {d : Dir} {file : String × List UInt8} {files : List (String × List UInt8)} {k : ℕ}
  {fault : Fault} {name : String} {bytes : List UInt8}

@[simp] theorem put_self : d.put name bytes name = some bytes := if_pos rfl

theorem put_of_ne {n : String} (h : n ≠ name) : d.put name bytes n = d n := if_neg h

theorem leave_of_ne (h : name ≠ file.1) : fault.leave d file name = d name := by
  unfold Fault.leave
  cases fault.left with
  | none => rfl
  | some n => exact put_of_ne h

theorem leave_self :
    fault.leave d file file.1 = (fault.left.map fun n => file.2.take n).or (d file.1) := by
  unfold Fault.leave
  cases fault.left with
  | none => rfl
  | some n => exact put_self

theorem writeFiles_frame (h : name ∉ files.map Prod.fst) :
    (writeFiles d files k fault).1 name = d name := by
  induction files generalizing d k with
  | nil => rfl
  | cons file files ih =>
    rw [map_cons, mem_cons, not_or] at h
    cases k with
    | zero => exact leave_of_ne h.1
    | succ k =>
      rw [writeFiles, ih h.2]
      exact put_of_ne h.1

/-- **What is in the `i`-th file**: all of it before the failure, nothing new after it. -/
theorem writeFiles_at (hnodup : (files.map Prod.fst).Nodup) {i : ℕ} (hi : files[i]? = some file) :
    (writeFiles d files k fault).1 file.1 =
      if i < k then some file.2
      else if i = k then (fault.left.map fun n => file.2.take n).or (d file.1)
      else d file.1 := by
  induction files generalizing d k i with
  | nil => cases hi
  | cons f files ih =>
    rw [map_cons, nodup_cons] at hnodup
    cases i with
    | zero =>
      cases hi
      cases k with
      | zero => exact leave_self
      | succ k => simp [writeFiles, writeFiles_frame hnodup.1]
    | succ i =>
      have hne : file.1 ≠ f.1 := fun heq => hnodup.1 (heq ▸ mem_map_of_mem (mem_of_getElem? hi))
      cases k with
      | zero => exact leave_of_ne hne
      | succ k => simp [writeFiles, ih hnodup.2 hi, put_of_ne hne]

/-- Without a failure every file is there. -/
theorem writeFiles_all (hnodup : (files.map Prod.fst).Nodup) (hk : files.length ≤ k) :
    ∀ f ∈ files, (writeFiles d files k fault).1 f.1 = some f.2 := by
  intro f hf
  obtain ⟨i, hi⟩ := mem_iff_getElem?.1 hf
  rw [writeFiles_at hnodup hi, if_pos ((List.getElem?_eq_some_iff.1 hi).1.trans_le hk)]

/-- Where nothing was before, every file is absent or a prefix. -/
theorem writeFiles_torn (hnodup : (files.map Prod.fst).Nodup) (hd : ∀ f ∈ files, d f.1 = none)
    (hfile : file ∈ files) (h : (writeFiles d files k fault).1 file.1 = some bytes) :
    bytes <+: file.2 := by
  obtain ⟨i, hi⟩ := mem_iff_getElem?.1 hfile
  rw [writeFiles_at hnodup hi, hd file hfile, Option.or_none] at h
  split_ifs at h
  · cases h
    exact prefix_refl _
  · obtain ⟨n, -, rfl⟩ := Option.map_eq_some_iff.1 h
    exact take_prefix _ _

/-- Where nothing was before, the last file in full means all in full. -/
theorem writeFiles_of_last (hnodup : (files.map Prod.fst).Nodup)
    (hd : ∀ f ∈ files, d f.1 = none) {last : String × List UInt8}
    (hlast : files.getLast? = some last)
    (hfull : (writeFiles d files k fault).1 last.1 = some last.2) :
    ∀ f ∈ files, (writeFiles d files k fault).1 f.1 = some f.2 := by
  intro f hf
  obtain ⟨i, hi⟩ := mem_iff_getElem?.1 hf
  have hlen := (List.getElem?_eq_some_iff.1 hi).1
  rw [getLast?_eq_getElem?] at hlast
  rcases (Nat.le_sub_one_of_lt hlen).eq_or_lt with rfl | hlt
  · cases hi.symm.trans hlast
    exact hfull
  · rw [writeFiles_at hnodup hlast, hd last (mem_of_getElem? hlast)] at hfull
    -- the last file has been reached
    rw [writeFiles_at hnodup hi, if_pos]
    split_ifs at hfull
    all_goals omega

/-! ## Formats that notice a torn text -/

/-- A format: decoding undoes encoding, and a torn text does not decode. -/
structure PrefixCodec (α : Type*) where
  encode : α → List UInt8
  decode : List UInt8 → Option α
  decode_encode : ∀ a, decode (encode a) = some a
  decode_torn : ∀ a bytes, bytes <+: encode a → bytes ≠ encode a → decode bytes = none

variable {α : Type*}

/-- A prefix that decodes is the whole text. -/
theorem PrefixCodec.of_decode (codec : PrefixCodec α) {a b : α} (hpre : bytes <+: codec.encode a)
    (h : codec.decode bytes = some b) : bytes = codec.encode a ∧ b = a := by
  by_cases heq : bytes = codec.encode a
  · rw [heq, codec.decode_encode] at h
    exact ⟨heq, (Option.some.inj h).symm⟩
  · rw [codec.decode_torn a bytes hpre heq] at h
    cases h

/-- A number in unary, with a mark at the end. -/
def unary (n : ℕ) : List UInt8 := List.replicate n 1 ++ [0]

theorem unary_injective : Function.Injective unary := by
  intro m n h
  have := congrArg length h
  simp only [unary, length_append, length_replicate, length_singleton] at this
  omega

/-- No text of the format goes on in another. -/
theorem unary_prefix_eq {m n : ℕ} (h : unary m <+: unary n) : m = n := by
  obtain ⟨rest, hrest⟩ := h
  induction m generalizing n with
  | zero =>
    cases n with
    | zero => rfl
    | succ n => cases hrest
  | succ m ih =>
    cases n with
    | zero => cases hrest
    | succ n => rw [ih (cons.inj hrest).2]

/-- There is a format for every countable type. -/
theorem PrefixCodec.nonempty [Countable α] : Nonempty (PrefixCodec α) := by
  classical
  obtain ⟨f, hf⟩ := exists_injective_nat α
  have huniq : ∀ a b, unary (f a) = unary (f b) → a = b := fun a b h => hf (unary_injective h)
  refine ⟨⟨fun a => unary (f a),
    fun bytes => if h : ∃ a, bytes = unary (f a) then some h.choose else none, ?_, ?_⟩⟩
  · intro a
    have h : ∃ b, unary (f a) = unary (f b) := ⟨a, rfl⟩
    rw [dif_pos h, ← huniq a _ h.choose_spec]
  · intro a bytes hpre hne
    rw [dif_neg]
    rintro ⟨b, rfl⟩
    exact hne (congrArg unary (unary_prefix_eq hpre))

end Torn

/-! ### Countable types -/

variable {α : Type*}

instance countableBitVec (w : ℕ) : Countable (BitVec w) :=
  Function.Injective.countable (f := BitVec.toNat) fun _ _ => BitVec.eq_of_toNat_eq

instance countableUInt8 : Countable UInt8 :=
  Function.Injective.countable (f := UInt8.toNat) fun _ _ => UInt8.toNat_inj.1

instance countableChar : Countable Char :=
  Function.Injective.countable (f := Char.toNat) fun _ _ => Char.toNat_inj.1

instance countableString : Countable String :=
  Function.Injective.countable (f := String.toList) fun _ _ => String.toList_inj.1

instance countableVector (n : ℕ) [Countable α] : Countable (Vector α n) :=
  Function.Injective.countable (f := Vector.toList) fun _ _ => Vector.toList_inj.1

end TornWrites
