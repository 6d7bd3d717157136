import Amber.Core.HostFile
import Amber.Core.VirtioMmio

/-!
# The block device

`BlkDevice` of `amber-core/src/virtio.rs` over a host file.  A request is a chain
`[header, data…, status]`; IN copies from the file into the writable data buffers, OUT from
the readable ones into the file, at a wrapping 64-bit offset that starts at `512 * sector`.
(The `AMBER_DISK_BPS` rate limiter only delays a request and is not part of the model.)

The lemmas about `outLoop` say what a request does to the file: `outLoop_inside` bounds what
it can change, `outLoop_stores` says what it does change when it succeeds or the host is
willing.  The device is lawful: it writes in the chain's writable buffers, given that the status
buffer is one of them.
-/

namespace Amber

open GuestRam HostFile List

def sectorSize : ℕ := 512

/-- `u64::wrapping_mul`. -/
def wmul (a b : ℕ) : ℕ := a * b % 2 ^ 64

/-- An open backing file with the capacity advertised when it was opened; the file never
gets shorter than that. -/
structure BlkDevice where
  disk : HostFile
  capacitySectors : ℕ
  writable : Bool
  capacity_le : sectorSize * capacitySectors ≤ disk.len

namespace BlkDevice

def deviceId : ℕ := 2
def tIn : ℕ := 0
def tOut : ℕ := 1
def tFlush : ℕ := 4
def sOk : UInt8 := 0
def sIoerr : UInt8 := 1
def sUnsupp : UInt8 := 2
def fRo : ℕ := 1 <<< 5

def openWith (disk : HostFile) (writable : Bool) : BlkDevice :=
  { disk
    capacitySectors := disk.len / sectorSize
    writable
    capacity_le := Nat.mul_div_le disk.len sectorSize }

/-- `read_disk` into a zeroed buffer of `n` bytes. -/
def readDisk (disk : HostFile) (offset n : ℕ) : List UInt8 :=
  match disk.readAt offset n with
  | some got => got ++ List.replicate (n - got.length) 0
  | none => List.replicate n 0

/-! ## Requests -/

def reqType (ram : GuestRam) (header : Buf) : ℕ := ram.readU32 header.addr

def sector (ram : GuestRam) (header : Buf) : ℕ := ram.readU64 (wadd header.addr 8)

/-- The guest-memory writes of an IN request, one for each writable data buffer. -/
def inChunks : HostFile → ℕ → List Buf → List (ℕ × List UInt8)
  | _, _, [] => []
  | disk, offset, b :: bs =>
    (b.addr, readDisk disk offset b.len) :: inChunks disk.nextAnswer (wadd offset b.len) bs

/-- The file after the reads of an IN request: only answers are used up. -/
def afterReads : HostFile → List Buf → HostFile
  | disk, [] => disk
  | disk, _ :: bs => afterReads disk.nextAnswer bs

def writeChunks (ram : GuestRam) (chunks : List (ℕ × List UInt8)) : GuestRam :=
  chunks.foldl (fun ram c => ram.write c.1 c.2) ram

/-- The loop of an OUT request: the first failed write ends it. -/
def outLoop (ram : GuestRam) : HostFile → ℕ → List Buf → HostFile × Bool
  | disk, _, [] => (disk, true)
  | disk, offset, b :: bs =>
    match disk.writeAllAt offset (ram.read b.addr b.len) with
    | (disk, true) => outLoop ram disk (wadd offset b.len) bs
    | (disk, false) => (disk, false)

theorem len_afterReads (bufs : List Buf) :
    ∀ disk : HostFile, (afterReads disk bufs).len = disk.len ∧
      (afterReads disk bufs).data = disk.data := by
  induction bufs with
  | nil => exact fun disk => ⟨rfl, rfl⟩
  | cons b bs ih => exact fun disk => ih disk.nextAnswer

variable (ram : GuestRam)

theorem outLoop_cons (disk : HostFile) (offset : ℕ) (b : Buf) (bs : List Buf) :
    outLoop ram disk offset (b :: bs) =
      let w := disk.writeAllAt offset (ram.read b.addr b.len)
      if w.2 = true then outLoop ram w.1 (wadd offset b.len) bs else (w.1, false) := by
  rw [outLoop]
  rcases disk.writeAllAt offset (ram.read b.addr b.len) with ⟨disk', _ | _⟩
  · rfl
  · rfl

/-- What every write keeps of the file, the loop keeps. -/
theorem outLoop_keeps {P : HostFile → Prop}
    (hP : ∀ (f : HostFile) offset d, P f → P (f.writeAllAt offset d).1) (ram : GuestRam)
    (bufs : List Buf) :
    ∀ (disk : HostFile) (offset : ℕ), P disk → P (outLoop ram disk offset bufs).1 := by
  induction bufs with
  | nil => exact fun _ _ h => h
  | cons b bs ih =>
    intro disk offset h
    rw [outLoop_cons]
    dsimp only
    split_ifs
    · exact ih _ _ (hP _ _ _ h)
    · exact hP _ _ _ h

theorem len_le_outLoop (ram : GuestRam) (bufs : List Buf) (disk : HostFile) (offset : ℕ) :
    disk.len ≤ (outLoop ram disk offset bufs).1.len :=
  outLoop_keeps (P := fun f => disk.len ≤ f.len)
    (fun f offset d h => h.trans (f.len_le_writeAllAt offset d)) ram bufs disk offset le_rfl

/-- What a request does to the file, its guest-memory writes and its status byte. -/
def perform (dev : BlkDevice) (ram : GuestRam) (header : Buf) (data : List Buf) :
    BlkDevice × List (ℕ × List UInt8) × UInt8 :=
  let offset := wmul (sector ram header) sectorSize
  if reqType ram header = tIn then
    let bufs := data.filter (·.writable)
    ({ dev with
        disk := afterReads dev.disk bufs
        capacity_le := by rw [(len_afterReads bufs dev.disk).1]; exact dev.capacity_le },
      inChunks dev.disk offset bufs, sOk)
  else if reqType ram header = tOut then
    if dev.writable then
      let bufs := data.filter (!·.writable)
      let out := outLoop ram dev.disk offset bufs
      ({ dev with
          disk := out.1
          capacity_le := dev.capacity_le.trans (len_le_outLoop ram bufs dev.disk offset) },
        [], if out.2 then sOk else sIoerr)
    -- a write to a read-only disk is refused
    else (dev, [], sIoerr)
  else if reqType ram header = tFlush then
    if dev.writable then
      ({ dev with disk := dev.disk.syncAll.1, capacity_le := dev.capacity_le }, [],
        if dev.disk.syncAll.2 then sOk else sIoerr)
    else (dev, [], sOk)
  else (dev, [], sUnsupp)

/-- Header, data buffers and status buffer of a chain that has at least two buffers. -/
def request : List Buf → Option (Buf × List Buf × Buf)
  | header :: b :: rest =>
    some (header, (b :: rest).dropLast, (b :: rest).getLast (List.cons_ne_nil b rest))
  | _ => none

/-- Service one chain. -/
def handle (dev : BlkDevice) (_queue : ℕ) (ram : GuestRam) (bufs : List Buf) :
    BlkDevice × GuestRam × ℕ :=
  match request bufs with
  | some (header, data, status) =>
    let done := dev.perform ram header data
    let written := (done.2.1.map (·.2.length)).sum % 2 ^ 32
    (done.1, (writeChunks ram done.2.1).write status.addr [done.2.2], (written + 1) % 2 ^ 32)
  | none => (dev, ram, 0)

variable {bufs data : List Buf} {header status : Buf} (dev : BlkDevice)

theorem handle_of_request {dev : BlkDevice} {queue : ℕ} {ram : GuestRam}
    (h : request bufs = some (header, data, status)) :
    dev.handle queue ram bufs =
      ((dev.perform ram header data).1,
        (writeChunks ram (dev.perform ram header data).2.1).write status.addr
          [(dev.perform ram header data).2.2],
        (((dev.perform ram header data).2.1.map (·.2.length)).sum % 2 ^ 32 + 1) % 2 ^ 32) := by
  rw [handle, h]

/-- A request changes neither the mode nor the capacity. -/
theorem mode_handle (queue : ℕ) (ram : GuestRam) (bufs : List Buf) :
    (dev.handle queue ram bufs).1.writable = dev.writable ∧
      (dev.handle queue ram bufs).1.capacitySectors = dev.capacitySectors := by
  unfold handle
  split
  · dsimp only [perform]
    split_ifs <;> exact ⟨rfl, rfl⟩
  · exact ⟨rfl, rfl⟩

instance : VirtioDevice BlkDevice where
  deviceId := fun _ => deviceId
  deviceFeatures := fun dev sel => if sel = 0 ∧ !dev.writable then fRo else 0
  config := fun dev off =>
    if off = 0 then dev.capacitySectors % 2 ^ 32
    else if off = 4 then dev.capacitySectors / 2 ^ 32 % 2 ^ 32
    else 0
  handle := handle

/-! ## What the OUT loop does to the file -/

def lens (bufs : List Buf) : ℕ := (bufs.map (·.len)).sum

/-- The bytes an OUT request carries. -/
def payload (ram : GuestRam) (bufs : List Buf) : List UInt8 :=
  bufs.flatMap fun b => ram.read b.addr b.len

theorem lens_cons (b : Buf) (bs : List Buf) : lens (b :: bs) = b.len + lens bs := rfl

theorem length_payload (bufs : List Buf) :
    (payload ram bufs).length = lens bufs := by
  induction bufs with
  | nil => rfl
  | cons b bs ih => rw [payload, flatMap_cons, length_append, length_read, lens_cons, ← ih, payload]

theorem read_eq_nil_iff {ram : GuestRam} {b : Buf} : ram.read b.addr b.len = [] ↔ b.len = 0 := by
  rw [← length_eq_zero_iff, length_read]

section OutLoop

variable {ram : GuestRam}

/-- An empty buffer is skipped. -/
theorem outLoop_skip {disk : HostFile} {offset : ℕ} {b : Buf} {bs : List Buf} (hb : b.len = 0)
    (hoff : offset < 2 ^ 64) : outLoop ram disk offset (b :: bs) = outLoop ram disk offset bs := by
  have hd : ram.read b.addr b.len = [] := read_eq_nil_iff.2 hb
  rw [outLoop, hd, writeAllAt_nil, hb, wadd_of_lt (by omega), add_zero]

/-- A request that starts at an offset the host cannot represent stores nothing. -/
theorem outLoop_refused (bufs : List Buf) :
    ∀ (disk : HostFile) (offset : ℕ), 2 ^ 63 ≤ offset → offset < 2 ^ 64 →
      ∀ i, (outLoop ram disk offset bufs).1.get? i = disk.get? i := by
  induction bufs with
  | nil => exact fun disk offset _ _ i => rfl
  | cons b bs ih =>
    intro disk offset hlo hhi i
    by_cases hb : b.len = 0
    · rw [outLoop_skip hb hhi]
      exact ih disk offset hlo hhi i
    · rw [outLoop, writeAllAt_refused (mt read_eq_nil_iff.1 hb) hlo]
      exact get?_nextAnswer i

/-- A request without data stores nothing. -/
theorem outLoop_empty (bufs : List Buf) :
    ∀ (disk : HostFile) (offset : ℕ), offset < 2 ^ 64 → lens bufs = 0 →
      (outLoop ram disk offset bufs).1 = disk := by
  induction bufs with
  | nil => exact fun disk _ _ _ => rfl
  | cons b bs ih =>
    intro disk offset hoff hsum
    rw [lens_cons] at hsum
    rw [outLoop_skip (by omega) hoff]
    exact ih disk offset hoff (by omega)

/-- Outside the request's range, what the file has is not touched, and neither is anything if the
range is inside the file. -/
theorem outLoop_outside (bufs : List Buf) :
    ∀ (disk : HostFile) (offset i : ℕ), offset < 2 ^ 64 →
      i < disk.len ∨ offset + lens bufs ≤ disk.len → i < offset ∨ offset + lens bufs ≤ i →
      (outLoop ram disk offset bufs).1.get? i = disk.get? i := by
  induction bufs with
  | nil => exact fun disk offset i _ _ _ => rfl
  | cons b bs ih =>
    intro disk offset i hoff hlen hout
    rw [lens_cons] at hlen hout
    by_cases hb : b.len = 0
    · rw [outLoop_skip hb hoff]
      exact ih disk offset i hoff (by omega) (by omega)
    · have hgrow := disk.len_le_writeAllAt offset (ram.read b.addr b.len)
      have hkeep : (disk.writeAllAt offset (ram.read b.addr b.len)).1.get? i = disk.get? i :=
        get?_writeAllAt_outside (by rw [length_read]; omega) (by rw [length_read]; omega)
      rw [outLoop_cons]
      dsimp only
      split_ifs with hw
      · -- a successful write ends below 2^63, so the offset does not wrap
        have hfit := ((writeAllAt_ok_iff (mt read_eq_nil_iff.1 hb)).1 hw).1
        rw [length_read, maxFileLen] at hfit
        rw [wadd_of_lt (by omega), ih _ _ i (by omega) (by omega) (by omega), hkeep]
      · exact hkeep

/-- A request inside the file changes its own range only. -/
theorem outLoop_inside (bufs : List Buf) (disk : HostFile) (offset : ℕ)
    (hin : offset + lens bufs ≤ disk.len) (i : ℕ)
    (hne : (outLoop ram disk offset bufs).1.get? i ≠ disk.get? i) :
    offset ≤ i ∧ i < offset + lens bufs := by
  have hfit := disk.fits
  rw [maxFileLen] at hfit
  by_contra hi
  exact hne (outLoop_outside bufs disk offset i (by omega) (.inr hin) (by omega))

/-- Where the request succeeds, or the host is willing and a file can have the position, every
position of its range ends up holding the byte the guest sent for it. -/
theorem outLoop_stores (bufs : List Buf) :
    ∀ (disk : HostFile) (offset i : ℕ), (outLoop ram disk offset bufs).2 = true ∨
      disk.answers = [] ∧ i < maxFileLen → offset < 2 ^ 64 → offset ≤ i → i < offset + lens bufs →
      (outLoop ram disk offset bufs).1.get? i = (payload ram bufs)[i - offset]? := by
  induction bufs with
  | nil =>
    intro disk offset i _ _ hlo hhi
    simp only [lens, map_nil, sum_nil] at hhi
    omega
  | cons b bs ih =>
    intro disk offset i hok hoff hlo hhi
    rw [lens_cons] at hhi
    have hpay : payload ram (b :: bs) = ram.read b.addr b.len ++ payload ram bs := rfl
    have hlen : (ram.read b.addr b.len).length = b.len := length_read ram b.addr b.len
    by_cases hb : b.len = 0
    · rw [outLoop_skip hb hoff] at hok ⊢
      rw [hpay, read_eq_nil_iff.2 hb, nil_append]
      exact ih disk offset i hok hoff hlo (by omega)
    · rw [outLoop_cons] at hok ⊢
      dsimp only at hok ⊢
      set w := disk.writeAllAt offset (ram.read b.addr b.len)
      -- the offset does not wrap after a successful write
      have hfit : w.2 = true → offset + b.len ≤ maxFileLen := fun hw =>
        hlen ▸ ((writeAllAt_ok_iff (mt read_eq_nil_iff.1 hb)).1 hw).1
      rw [maxFileLen] at hfit
      have hwrote : (if w.2 = true then outLoop ram w.1 (wadd offset b.len) bs
          else (w.1, false)).2 = true → w.2 = true := by
        intro h
        by_contra hw
        rw [if_neg hw] at h
        cases h
      rw [hpay]
      by_cases hin : i < offset + b.len
      · -- the byte belongs to this buffer
        have hget : w.1.get? i = (ram.read b.addr b.len)[i - offset]? := by
          rcases hok with hok | ⟨ha, hmax⟩
          · exact get?_writeAllAt_of_ok (hwrote hok) hlo (by omega)
          · exact get?_writeAllAt_inside ha hlo (by omega) hmax
        rw [getElem?_append_left (by omega), ← hget]
        have hlen' : i < w.1.len := by
          by_contra hge
          rw [HostFile.get?, if_neg hge, eq_comm, getElem?_eq_none_iff] at hget
          omega
        split_ifs with hw
        · have := hfit hw
          exact outLoop_outside bs w.1 _ i (Nat.mod_lt _ (by decide)) (.inl hlen')
            (.inl (by rw [wadd_of_lt (by omega)]; omega))
        · rfl
      · have hw : w.2 = true := by
          rcases hok with hok | ⟨ha, hmax⟩
          · exact hwrote hok
          · refine (writeAllAt_ok_iff (mt read_eq_nil_iff.1 hb)).2 ⟨by omega, ?_⟩
            rw [HostFile.moves, ha]
        have := hfit hw
        rw [if_pos hw, wadd_of_lt (by omega)] at hok ⊢
        rw [getElem?_append_right (by omega), hlen, ih w.1 (offset + b.len) i
          (hok.imp_right fun h => ⟨by simp [w, answers_writeAllAt, h.1], h.2⟩) (by omega)
          (by omega)
          (by omega), Nat.sub_add_eq]

end OutLoop

/-! ## Writes into guest memory -/

theorem length_readDisk (disk : HostFile) (offset n : ℕ) : (readDisk disk offset n).length = n := by
  unfold readDisk
  split
  · rename_i got hgot
    have hle : got.length ≤ n := by
      unfold HostFile.readAt HostFile.moves at hgot
      split at hgot
      · cases hgot
      · obtain ⟨k, hk, rfl⟩ := Option.map_eq_some_iff.1 hgot
        rw [ByteMem.length_load]
        split at hk <;> cases hk <;> omega
    rw [length_append, length_replicate]
    omega
  · exact length_replicate

theorem changesOnly_inChunks (bufs : List Buf) :
    ∀ (disk : HostFile) (offset : ℕ) (ram : GuestRam), (∀ b ∈ bufs, b.writable = true) →
      ChangesOnly (InWritable bufs) ram (writeChunks ram (inChunks disk offset bufs)) := by
  induction bufs with
  | nil => exact fun _ _ ram _ => ChangesOnly.refl _ ram
  | cons b bs ih =>
    intro disk offset ram hall
    have hb : b ∈ b :: bs := mem_cons_self
    have hfirst := changesOnly_writeBuf ram hb (hall b hb)
      (length_readDisk disk offset b.len).le
    have hrest := ih disk.nextAnswer (wadd offset b.len)
      (ram.write b.addr (readDisk disk offset b.len))
      fun c hc => hall c (mem_cons_of_mem b hc)
    exact hfirst.trans (hrest.mono fun g hg => hg.of_cons)

theorem eq_of_request (h : request bufs = some (header, data, status)) :
    bufs = header :: (data ++ [status]) := by
  unfold request at h
  split at h
  · cases h
    rw [dropLast_append_getLast]
  · cases h

/-- The chunks of a request come from an IN over its writable data buffers. -/
theorem perform_chunks (header : Buf) (data : List Buf) :
    (dev.perform ram header data).2.1 =
      if reqType ram header = tIn then
        inChunks dev.disk (wmul (sector ram header) sectorSize) (data.filter (·.writable))
      else [] := by
  simp only [perform]
  split_ifs <;> rfl

/-- Only an OUT on a writable device changes the file. -/
theorem perform_get? (header : Buf) (data : List Buf) (i : ℕ) :
    (dev.perform ram header data).1.disk.get? i =
      if reqType ram header = tOut ∧ dev.writable = true then
        (outLoop ram dev.disk (wmul (sector ram header) sectorSize)
          (data.filter (!·.writable))).1.get? i
      else dev.disk.get? i := by
  by_cases hin : reqType ram header = tIn
  · have hne : ¬ (reqType ram header = tOut ∧ dev.writable = true) := by
      rw [hin]
      exact fun h => absurd h.1 (by decide)
    obtain ⟨hlen, hdata⟩ := len_afterReads (data.filter (·.writable)) dev.disk
    rw [if_neg hne]
    simp only [perform, if_pos hin, HostFile.get?, hlen, hdata]
  · by_cases hout : reqType ram header = tOut
    · by_cases hw : dev.writable = true
      · simp only [perform, if_neg hin, if_pos hout, if_pos hw, if_pos (And.intro hout hw)]
      · rw [if_neg fun h => hw h.2]
        simp only [perform, if_neg hin, if_pos hout, if_neg hw]
    · rw [if_neg fun h => hout h.1]
      simp only [perform, if_neg hin, if_neg hout]
      split_ifs <;> rfl

/-- Before its status byte, a request writes in the writable buffers of its chain only. -/
theorem changesOnly_perform (dev : BlkDevice) (ram : GuestRam)
    (h : request bufs = some (header, data, status)) :
    ChangesOnly (InWritable bufs) ram (writeChunks ram (dev.perform ram header data).2.1) := by
  rw [perform_chunks]
  split
  · refine (changesOnly_inChunks _ dev.disk _ ram fun b hb => (mem_filter.1 hb).2).mono ?_
    rintro g ⟨b, hb, hrest⟩
    have hmem : b ∈ bufs := by
      rw [eq_of_request h]
      exact mem_cons_of_mem _ (mem_append_left _ (mem_filter.1 hb).1)
    exact ⟨b, hmem, hrest⟩
  · exact ChangesOnly.refl _ ram

/-- The status buffer must be writable and hold a byte, as virtio requires. -/
instance : LawfulDevice BlkDevice where
  chainOk := fun _ bufs => ∀ header data status, request bufs = some (header, data, status) →
    status.writable = true ∧ 1 ≤ status.len
  handle_frame := by
    intro dev qidx ram bufs hok
    change ChangesOnly (InWritable bufs) ram (dev.handle qidx ram bufs).2.1
    cases hreq : request bufs with
    | none =>
      rw [handle, hreq]
      exact ChangesOnly.refl _ ram
    | some r =>
      obtain ⟨header, data, status⟩ := r
      obtain ⟨hw, hlen⟩ := hok header data status hreq
      have hstatus : status ∈ bufs := by rw [eq_of_request hreq]; simp
      rw [handle_of_request hreq]
      exact (dev.changesOnly_perform ram hreq).trans (changesOnly_writeBuf _ hstatus hw hlen)
  handle_len := by
    intro dev qidx ram bufs
    change (dev.handle qidx ram bufs).2.2 < 2 ^ 32
    unfold handle
    split
    · exact Nat.mod_lt _ (by decide)
    · exact Nat.two_pow_pos 32

end BlkDevice
end Amber
