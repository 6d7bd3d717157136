import Amber.Core.VirtioMmio

/-!
# The entropy device

`RngDevice` of `amber-core/src/virtio.rs`: every device-writable buffer of a chain is filled
with host randomness.  What `/dev/urandom` answers is part of the device: each entry of `src`
is the outcome of one `read_exact`, an error (`none`) or the bytes it delivers.
-/

namespace Amber

open GuestRam

/-- The open `/dev/urandom`, as the answers it is going to give. -/
structure RngDevice where
  src : List (Option (ℕ → UInt8))

namespace RngDevice

def deviceId : ℕ := 4

/-- `read_exact` into a buffer of `n` bytes. -/
def readExact (dev : RngDevice) (n : ℕ) : RngDevice × Option (List UInt8) :=
  match dev.src with
  | [] => (dev, none)
  | none :: rest => (⟨rest⟩, none)
  | some bytes :: rest => (⟨rest⟩, some ((List.range n).map bytes))

theorem readExact_length {dev dev' : RngDevice} {n : ℕ} {data : List UInt8}
    (h : dev.readExact n = (dev', some data)) : data.length = n := by
  unfold readExact at h
  split at h <;> simp_all only [Prod.mk.injEq, reduceCtorEq, and_false, Option.some.injEq]
  rw [← h.2, List.length_map, List.length_range]

/-- The loop over the writable buffers; a failed read skips its buffer. -/
def fill : RngDevice → GuestRam → List Buf → ℕ → RngDevice × GuestRam × ℕ
  | dev, ram, [], written => (dev, ram, written)
  | dev, ram, b :: bs, written =>
    match dev.readExact b.len with
    | (dev, none) => fill dev ram bs written
    | (dev, some data) => fill dev (ram.write b.addr data) bs ((written + b.len) % 2 ^ 32)

def handle (dev : RngDevice) (_queue : ℕ) (ram : GuestRam) (bufs : List Buf) :
    RngDevice × GuestRam × ℕ :=
  dev.fill ram (bufs.filter (·.writable)) 0

instance : VirtioDevice RngDevice where
  deviceId := fun _ => deviceId
  handle := handle

theorem fill_spec (bufs : List Buf) :
    ∀ (dev : RngDevice) (ram : GuestRam) (written : ℕ), (∀ b ∈ bufs, b.writable = true) →
      written < 2 ^ 32 →
      ChangesOnly (InWritable bufs) ram (dev.fill ram bufs written).2.1 ∧
        (dev.fill ram bufs written).2.2 < 2 ^ 32 := by
  induction bufs with
  | nil => exact fun dev ram written _ hw => ⟨ChangesOnly.refl _ ram, hw⟩
  | cons b bs ih =>
    intro dev ram written hall hw
    have hb : b ∈ b :: bs := List.mem_cons_self
    have hbs : ∀ c ∈ bs, c.writable = true := fun c hc => hall c (List.mem_cons_of_mem b hc)
    unfold fill
    split
    · obtain ⟨hframe, hlen⟩ := ih _ ram written hbs hw
      exact ⟨hframe.mono fun g hg => hg.of_cons, hlen⟩
    · rename_i dev' data hread
      obtain ⟨hframe, hlen⟩ := ih dev' (ram.write b.addr data) ((written + b.len) % 2 ^ 32) hbs
        (Nat.mod_lt _ (by decide))
      have hwrite := changesOnly_writeBuf ram hb (hall b hb) (readExact_length hread).le
      exact ⟨hwrite.trans (hframe.mono fun g hg => hg.of_cons), hlen⟩

/-- The entropy device writes in the writable buffers of any chain. -/
instance : LawfulDevice RngDevice where
  chainOk := fun _ _ => True
  handle_frame := by
    intro dev qidx ram bufs _
    have h := (fill_spec (bufs.filter (·.writable)) dev ram 0
      (fun b hb => (List.mem_filter.1 hb).2) (by decide)).1
    refine h.mono ?_
    rintro g ⟨b, hb, hrest⟩
    exact ⟨b, (List.mem_filter.1 hb).1, hrest⟩
  handle_len := by
    intro dev qidx ram bufs
    exact (fill_spec (bufs.filter (·.writable)) dev ram 0
      (fun b hb => (List.mem_filter.1 hb).2) (by decide)).2

end RngDevice
end Amber
