import Amber.Core.Blk

/-!
# Requests and the advertised capacity

The device never compares a request with `capacity_sectors`.  `Contained` says what the
advertised capacity should mean for one request, whatever the file holds and whatever the
host answers: an OUT changes only bytes of its own range below the capacity, and an IN that
starts at or beyond the capacity depends on no byte below it.  `Safe` is the condition on the
request alone under which that is the case.

* `request_contained_iff` — a request is contained exactly when it is safe.
* `out_escapes` — an OUT at the capacity grows the file, and one at sector 2^55 overwrites
  sector 0.
-/

namespace Amber.BlkDevice

open GuestRam List Option

/-- The same device over a file of the same length with other content and another host. -/
def withFile (dev : BlkDevice) (content : ℕ → UInt8) (answers : List (Option ℕ)) : BlkDevice :=
  { dev with
    disk := { dev.disk with data := content, answers }
    capacity_le := dev.capacity_le }

/-- The number of bytes below the advertised capacity. -/
def capacity (dev : BlkDevice) : ℕ := sectorSize * dev.capacitySectors

/-- The request stays within the capacity, for every content of the file and every host. -/
structure ContainedRequest (dev : BlkDevice) (ram : GuestRam) (header : Buf) (data : List Buf) :
    Prop where
  changes : ∀ content answers i,
    ((dev.withFile content answers).perform ram header data).1.disk.get? i ≠
      (dev.withFile content answers).disk.get? i →
    sectorSize * sector ram header ≤ i ∧
      i < sectorSize * sector ram header + lens (data.filter (!·.writable)) ∧ i < dev.capacity
  reveals : reqType ram header = tIn → dev.capacitySectors ≤ sector ram header →
    ∀ content content' answers, (∀ i, dev.capacity ≤ i → content i = content' i) →
      ((dev.withFile content answers).perform ram header data).2.1 =
        ((dev.withFile content' answers).perform ram header data).2.1

/-- The condition on a request: an OUT with data lies below the capacity as unbounded numbers,
unless its wrapped offset is one the host refuses; and every non-empty buffer of an IN that
starts at or beyond the capacity has its wrapped offset at or beyond it too. -/
structure SafeRequest (dev : BlkDevice) (ram : GuestRam) (header : Buf) (data : List Buf) :
    Prop where
  out : reqType ram header = tOut → dev.writable = true →
    lens (data.filter (!·.writable)) = 0 ∨
    sectorSize * sector ram header + lens (data.filter (!·.writable)) ≤ dev.capacity ∨
    2 ^ 63 ≤ sectorSize * sector ram header % 2 ^ 64
  reads : reqType ram header = tIn → dev.capacitySectors ≤ sector ram header →
    ∀ pre b post, data.filter (·.writable) = pre ++ b :: post →
      b.len = 0 ∨ dev.capacity ≤ (sectorSize * sector ram header + lens pre) % 2 ^ 64

theorem wmul_sectorSize (s : ℕ) : wmul s sectorSize = sectorSize * s % 2 ^ 64 := by
  rw [wmul, mul_comm]

theorem capacity_lt (dev : BlkDevice) : dev.capacity < 2 ^ 63 := by
  have h1 := dev.capacity_le
  have h2 := dev.disk.fits
  rw [maxFileLen] at h2
  rw [capacity]
  omega

/-! ## OUT -/

section Out

variable {dev : BlkDevice} {ram : GuestRam} {bufs : List Buf} {s : ℕ}

/-- A safe OUT changes only bytes of its range below the capacity. -/
theorem out_contained (dev : BlkDevice)
    (hsafe : lens bufs = 0 ∨ sectorSize * s + lens bufs ≤ dev.capacity ∨
      2 ^ 63 ≤ sectorSize * s % 2 ^ 64) {i : ℕ}
    (hne : (outLoop ram dev.disk (wmul s sectorSize) bufs).1.get? i ≠ dev.disk.get? i) :
    sectorSize * s ≤ i ∧ i < sectorSize * s + lens bufs ∧ i < dev.capacity := by
  have hmod : sectorSize * s % 2 ^ 64 < 2 ^ 64 := Nat.mod_lt _ (by decide)
  rw [wmul_sectorSize] at hne
  rcases hsafe with hempty | hin | hrefused
  · rw [outLoop_empty bufs dev.disk _ hmod hempty] at hne
    exact absurd rfl hne
  · have hcap := dev.capacity_lt
    have hle := dev.capacity_le
    rw [← capacity] at hle
    have := outLoop_inside bufs dev.disk _ (by omega) i hne
    omega
  · exact absurd (outLoop_refused bufs dev.disk _ hrefused hmod i) hne

/-- A byte value other than the given one. -/
theorem ne_add_one (x : UInt8) : x ≠ x + 1 := by
  intro h
  have := congrArg UInt8.toNat h
  simp at this
  omega

/-- An OUT that is not safe changes a byte it must not change, for some content of the file
and a host that does all it is asked. -/
theorem out_escapes_of_unsafe (dev : BlkDevice) (ram : GuestRam)
    (hpos : lens bufs ≠ 0) (hbeyond : ¬ sectorSize * s + lens bufs ≤ dev.capacity)
    (hoff : sectorSize * s % 2 ^ 64 < 2 ^ 63) :
    ∃ content i,
      (outLoop ram (dev.withFile content []).disk (wmul s sectorSize) bufs).1.get? i ≠
        (dev.withFile content []).disk.get? i ∧
      ¬ (sectorSize * s ≤ i ∧ i < sectorSize * s + lens bufs ∧ i < dev.capacity) := by
  have hcap := dev.capacity_lt
  have hdiv : sectorSize * s % 2 ^ 64 % 512 = 0 := by
    rw [Nat.mod_mod_of_dvd _ (by decide), sectorSize, Nat.mul_mod_right]
  -- the first byte of the request, or the first of its bytes at the capacity
  obtain ⟨p, hlo, hhi, hmax, hbad⟩ : ∃ p, sectorSize * s % 2 ^ 64 ≤ p ∧
      p < sectorSize * s % 2 ^ 64 + lens bufs ∧ p < maxFileLen ∧
      ¬ (sectorSize * s ≤ p ∧ p < sectorSize * s + lens bufs ∧ p < dev.capacity) := by
    have hcapdiv : dev.capacity % 512 = 0 := by rw [capacity, sectorSize, Nat.mul_mod_right]
    rw [maxFileLen]
    by_cases hwrap : sectorSize * s < 2 ^ 64
    · exact ⟨max (sectorSize * s) dev.capacity, by omega, by omega, by omega, by omega⟩
    · exact ⟨sectorSize * s % 2 ^ 64, le_refl _, by omega, by omega, by omega⟩
  have hidx : p - sectorSize * s % 2 ^ 64 < (payload ram bufs).length := by
    rw [length_payload]
    omega
  refine ⟨fun _ => (payload ram bufs)[p - sectorSize * s % 2 ^ 64] + 1, p, ?_, hbad⟩
  rw [wmul_sectorSize, outLoop_stores bufs _ _ p (.inr ⟨rfl, hmax⟩) (by omega) hlo hhi,
    getElem?_eq_getElem hidx, HostFile.get?]
  split
  · exact fun h => ne_add_one _ (some.inj h)
  · simp

end Out

/-! ## IN -/

/-- A read at or beyond a bound does not depend on what lies below it. -/
theorem readDisk_congr {disk disk' : HostFile} {offset n bound : ℕ} (hlen : disk'.len = disk.len)
    (hans : disk'.answers = disk.answers) (hb : n = 0 ∨ bound ≤ offset)
    (hdata : ∀ i, bound ≤ i → disk'.data i = disk.data i) :
    readDisk disk' offset n = readDisk disk offset n := by
  have hread : disk'.readAt offset n = disk.readAt offset n := by
    unfold HostFile.readAt HostFile.moves
    rw [hans, hlen]
    split
    · rfl
    · split
      · simp only [map_some, some.injEq]
        exact ByteMem.load_congr fun i h1 h2 => hdata i (by omega)
      · rfl
      · simp only [map_some, some.injEq]
        exact ByteMem.load_congr fun i h1 h2 => hdata i (by omega)
  rw [readDisk, readDisk, hread]

theorem inChunks_congr (bound : ℕ) (bufs : List Buf) :
    ∀ (disk disk' : HostFile) (start : ℕ), disk'.len = disk.len → disk'.answers = disk.answers →
      (∀ i, bound ≤ i → disk'.data i = disk.data i) →
      (∀ pre b post, bufs = pre ++ b :: post →
        b.len = 0 ∨ bound ≤ (start + lens pre) % 2 ^ 64) →
      inChunks disk' (start % 2 ^ 64) bufs = inChunks disk (start % 2 ^ 64) bufs := by
  induction bufs with
  | nil => exact fun _ _ _ _ _ _ _ => rfl
  | cons b bs ih =>
    intro disk disk' start hlen hans hdata hsafe
    have hfirst : b.len = 0 ∨ bound ≤ start % 2 ^ 64 := hsafe [] b bs rfl
    have hnext : wadd (start % 2 ^ 64) b.len = (start + b.len) % 2 ^ 64 := Nat.mod_add_mod _ _ _
    rw [inChunks, inChunks, readDisk_congr hlen hans hfirst hdata, hnext,
      ih disk.nextAnswer disk'.nextAnswer (start + b.len) hlen
        (congrArg tail hans) hdata fun pre c post h => ?_]
    have := hsafe (b :: pre) c post (by rw [h, cons_append])
    rwa [lens_cons, ← add_assoc] at this

/-- With a willing host, a read below the end of the file begins with the byte there. -/
theorem head?_readDisk {disk : HostFile} {offset n : ℕ} (hans : disk.answers = []) (hn : n ≠ 0)
    (hoff : offset < disk.len) : (readDisk disk offset n).head? = some (disk.data offset) := by
  have hfit := disk.fits
  rw [maxFileLen] at hfit
  obtain ⟨k, hk⟩ := Nat.exists_eq_succ_of_ne_zero (n := min n (disk.len - offset)) (by omega)
  have hread : disk.readAt offset n = some (ByteMem.load disk.data offset (k + 1)) := by
    rw [HostFile.readAt, if_neg (by omega), HostFile.moves, hans]
    simp [hk]
  rw [readDisk, hread]
  simp [ByteMem.load, range_succ_eq_map]

theorem inChunks_split (pre : List Buf) :
    ∀ (disk : HostFile) (start : ℕ) (b : Buf) (post : List Buf), disk.answers = [] →
      (inChunks disk (start % 2 ^ 64) (pre ++ b :: post))[pre.length]? =
        some (b.addr, readDisk disk ((start + lens pre) % 2 ^ 64) b.len) := by
  induction pre with
  | nil => exact fun _ _ _ _ _ => rfl
  | cons a pre ih =>
    intro disk start b post hans
    have hnext : wadd (start % 2 ^ 64) a.len = (start + a.len) % 2 ^ 64 := Nat.mod_add_mod _ _ _
    rw [cons_append, inChunks, length_cons, getElem?_cons_succ, hnext,
      HostFile.nextAnswer_of_willing hans, ih disk _ b post hans, lens_cons, add_assoc]

/-! ## Requests -/

/-- Every request the chain makes stays within the capacity. -/
def Contained (dev : BlkDevice) (ram : GuestRam) (bufs : List Buf) : Prop :=
  ∀ header data status, request bufs = some (header, data, status) →
    dev.ContainedRequest ram header data

def Safe (dev : BlkDevice) (ram : GuestRam) (bufs : List Buf) : Prop :=
  ∀ header data status, request bufs = some (header, data, status) →
    dev.SafeRequest ram header data

variable {dev : BlkDevice} {ram : GuestRam} {header : Buf} {data : List Buf}

theorem SafeRequest.contained (h : dev.SafeRequest ram header data) :
    dev.ContainedRequest ram header data := by
  constructor
  · intro content answers i hne
    rw [perform_get?] at hne
    split at hne
    · rename_i hreq
      exact out_contained (dev.withFile content answers) (h.out hreq.1 hreq.2) hne
    · exact absurd rfl hne
  · intro hin hcap content content' answers hagree
    rw [perform_chunks, perform_chunks, if_pos hin, if_pos hin, wmul_sectorSize]
    exact inChunks_congr dev.capacity _ _ _ _ rfl rfl hagree (h.reads hin hcap)

theorem ContainedRequest.safe (h : dev.ContainedRequest ram header data) :
    dev.SafeRequest ram header data := by
  constructor
  · intro hout hw
    by_contra hunsafe
    simp only [not_or, not_le] at hunsafe
    obtain ⟨hpos, hbeyond, hoff⟩ := hunsafe
    obtain ⟨content, i, hne, hbad⟩ := out_escapes_of_unsafe dev ram hpos
      (by omega) hoff
    refine hbad (h.changes content [] i ?_)
    rwa [perform_get?, if_pos ⟨hout, hw⟩]
  · intro hin hcap pre b post hsplit
    by_contra hunsafe
    obtain ⟨hpos, hbelow⟩ := not_or.1 hunsafe
    -- two files that differ below the capacity only
    have hsame := h.reveals hin hcap (fun _ => 0) (fun i => if i < dev.capacity then 1 else 0) []
      fun i hi => by rw [if_neg (by omega)]
    rw [perform_chunks, perform_chunks, if_pos hin, if_pos hin, wmul_sectorSize, hsplit] at hsame
    have hat : ∀ content, (inChunks (dev.withFile content []).disk
        (sectorSize * sector ram header % 2 ^ 64) (pre ++ b :: post))[pre.length]? =
          some (b.addr, readDisk (dev.withFile content []).disk
            ((sectorSize * sector ram header + lens pre) % 2 ^ 64) b.len) :=
      fun content => inChunks_split pre _ _ b post rfl
    have hchunk := congrArg (fun chunks => chunks[pre.length]?) hsame
    simp only [hat, some.injEq, Prod.mk.injEq, true_and] at hchunk
    have hle := dev.capacity_le
    rw [← capacity] at hle
    have hoff : (sectorSize * sector ram header + lens pre) % 2 ^ 64 < dev.disk.len := by omega
    have hfirst : ∀ content, (readDisk (dev.withFile content []).disk
        ((sectorSize * sector ram header + lens pre) % 2 ^ 64) b.len).head? =
          some (content ((sectorSize * sector ram header + lens pre) % 2 ^ 64)) :=
      fun content => head?_readDisk rfl hpos hoff
    have hhead := congrArg head? hchunk
    rw [hfirst, hfirst, if_pos (not_le.1 hbelow)] at hhead
    exact absurd hhead (by decide)

/-- **A request stays within the advertised capacity exactly when it is safe.** -/
theorem request_contained_iff (dev : BlkDevice) (ram : GuestRam) (bufs : List Buf) :
    dev.Contained ram bufs ↔ dev.Safe ram bufs :=
  ⟨fun h header data status hreq => (h header data status hreq).safe,
    fun h header data status hreq => (h header data status hreq).contained⟩

/-! A one-sector disk of zeros, and guest memory holding an OUT header for a given sector
followed by one byte of data. -/

def oneSector : BlkDevice :=
  openWith { len := 512, data := fun _ => 0, answers := [], fits := sector_le_maxFileLen } true

def outRequest (sector : ℕ) : GuestRam :=
  ({ base := 0, len := 64, host := fun _ => 0 } : GuestRam).write 0
    (LittleEndian.toLe 4 tOut ++ LittleEndian.toLe 4 0 ++ LittleEndian.toLe 8 sector ++ [7])

def outChain : List Buf := [⟨0, 16, false⟩, ⟨16, 1, false⟩, ⟨32, 1, true⟩]

/-- An OUT at the capacity grows the file, and an OUT at sector 2^55 overwrites sector 0. -/
theorem out_escapes :
    (oneSector.handle 0 (outRequest 1) outChain).1.disk.len = 513 ∧
    (oneSector.handle 0 (outRequest (2 ^ 55)) outChain).1.disk.get? 0 = some 7 ∧
    ¬ oneSector.Contained (outRequest 1) outChain ∧
    ¬ oneSector.Contained (outRequest (2 ^ 55)) outChain := by
  refine ⟨by decide, by decide, ?_, ?_⟩
  · intro h
    have := (h _ _ _ rfl).changes (fun _ => 0) [] 512 (by decide)
    exact absurd this (by decide)
  · intro h
    have := (h _ _ _ rfl).changes (fun _ => 0) [] 0 (by decide)
    exact absurd this (by decide)

end Amber.BlkDevice
