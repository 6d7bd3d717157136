import Amber.Core.BlkCapacity

/-!
# Where the status byte goes, and what it says

A block request ends with one byte in the last buffer of its chain.  The device stores it at
that buffer's address without a look at its direction or its length, and after an IN it is
always `S_OK`: `read_disk` fills what the host did not deliver with zeros and does not say so,
while an OUT reports the first write that fails.

* `handle_confined_iff` — a request stays in the writable buffers of its chain exactly when
  its status byte does, or changes nothing.
* `transferred_iff` — a status of `S_OK` means that the data has been transferred exactly when
  the host delivered every byte that is not zero anyway, no offset wrapped onto other data and
  buffers that share an address share the byte too.
-/

namespace Amber.BlkDevice

open GuestRam HostFile List Option

/-! ## The status of a request -/

/-- By its answers the host moves all bytes of every buffer of an OUT, none of which ends behind the
longest file. -/
def accepted : HostFile → ℕ → List Buf → Bool
  | _, _, [] => true
  | disk, offset, b :: bs =>
    if b.len = 0 then accepted disk (wadd offset b.len) bs
    else offset + b.len ≤ maxFileLen && disk.moves b.len = some b.len &&
      accepted disk.nextAnswer (wadd offset b.len) bs

/-- The status of a request, by its type and the host's answers. -/
def due (dev : BlkDevice) (ram : GuestRam) (header : Buf) (data : List Buf) : UInt8 :=
  if reqType ram header = tIn then sOk
  else if reqType ram header = tOut then
    if dev.writable && accepted dev.disk (wmul (sector ram header) sectorSize)
      (data.filter (!·.writable)) then sOk else sIoerr
  else if reqType ram header = tFlush then
    if !dev.writable || (dev.disk.moves 0).isSome then sOk else sIoerr
  else sUnsupp

theorem moves_congr {disk disk' : HostFile} (h : disk'.answers = disk.answers) (n : ℕ) :
    disk'.moves n = disk.moves n := by
  rw [HostFile.moves, h]
  rfl

/-- What decides about an OUT is the host's answers. -/
theorem outLoop_accepted (ram : GuestRam) (bufs : List Buf) :
    ∀ (disk disk' : HostFile) (offset : ℕ), disk'.answers = disk.answers →
      (outLoop ram disk' offset bufs).2 = accepted disk offset bufs := by
  induction bufs with
  | nil => exact fun _ _ _ _ => rfl
  | cons b bs ih =>
    intro disk disk' offset h
    have hans := disk'.answers_writeAllAt offset (ram.read b.addr b.len)
    rw [outLoop_cons, accepted]
    dsimp only
    by_cases hlen : b.len = 0
    · rw [if_pos hlen, read_eq_nil_iff.2 hlen, writeAllAt_nil, if_pos rfl]
      exact ih disk disk' _ h
    · have hne : ram.read b.addr b.len ≠ [] := mt read_eq_nil_iff.1 hlen
      have hok := @writeAllAt_ok_iff disk' offset _ hne
      rw [length_read, moves_congr h] at hok
      rw [if_neg hne, h] at hans
      rw [if_neg hlen]
      by_cases hw : (disk'.writeAllAt offset (ram.read b.addr b.len)).2 = true
      · rw [if_pos hw, ih disk.nextAnswer _ _ hans]
        simp [(hok.1 hw).1, (hok.1 hw).2]
      · rw [if_neg hw, eq_comm, Bool.and_eq_false_iff]
        exact .inl (by simpa using mt hok.2 hw)

theorem perform_due (dev : BlkDevice) (ram : GuestRam) (header : Buf) (data : List Buf) :
    (dev.perform ram header data).2.2 = dev.due ram header data := by
  unfold perform due
  dsimp only
  rw [← outLoop_accepted ram _ dev.disk dev.disk _ rfl]
  split_ifs <;> simp_all [HostFile.syncAll]

/-! ## Where a request writes -/

/-- The status byte lies in a writable buffer of the chain, or storing it is not noticed. -/
def StatusConfined (dev : BlkDevice) (ram : GuestRam) (bufs : List Buf) : Prop :=
  ∀ header data status, request bufs = some (header, data, status) →
    InWritable bufs status.addr ∨ ram.inRange status.addr 1 = false ∨
      ram.byteAt status.addr = dev.due ram header data

section Status

variable {dev : BlkDevice} {queue : ℕ} {ram : GuestRam} {bufs data : List Buf}
  {header status : Buf}

variable (h : request bufs = some (header, data, status))

include h

/-- The status byte is the last thing a request stores. -/
theorem byteAt_status (hin : ram.inRange status.addr 1 = true) :
    (dev.handle queue ram bufs).2.1.byteAt status.addr = dev.due ram header data := by
  have hframe := dev.changesOnly_perform ram h
  rw [handle_of_request h]
  have hrange : (writeChunks ram (dev.perform ram header data).2.1).inRange status.addr
      [(dev.perform ram header data).2.2].length = true := by
    rw [length_singleton, hframe.inRange_eq, hin]
  exact (byteAt_write hrange one_pos).trans (perform_due ..)

/-- Elsewhere the guest finds what the transfer has left. -/
theorem byteAt_elsewhere {g : ℕ} (hg : ram.base ≤ g) (hne : g ≠ status.addr) :
    (dev.handle queue ram bufs).2.1.byteAt g =
      (writeChunks ram (dev.perform ram header data).2.1).byteAt g := by
  have hframe := dev.changesOnly_perform ram h
  rw [handle_of_request h]
  refine (changesOnly_write _ status.addr _).same g (hframe.base_eq ▸ hg) ?_
  rw [length_singleton]
  omega

omit h

theorem shape_handle (dev : BlkDevice) (queue : ℕ) (ram : GuestRam) (bufs : List Buf) :
    (dev.handle queue ram bufs).2.1.base = ram.base ∧
      (dev.handle queue ram bufs).2.1.len = ram.len := by
  cases hreq : request bufs with
  | none =>
    rw [handle, hreq]
    exact ⟨rfl, rfl⟩
  | some r =>
    have hframe := dev.changesOnly_perform ram hreq
    rw [handle_of_request hreq]
    exact ⟨(write_base _ _ _).trans hframe.base_eq, (write_len _ _ _).trans hframe.len_eq⟩

theorem StatusConfined.confined (h : dev.StatusConfined ram bufs) :
    ChangesOnly (InWritable bufs) ram (dev.handle queue ram bufs).2.1 := by
  cases hreq : request bufs with
  | none =>
    rw [handle, hreq]
    exact ChangesOnly.refl _ ram
  | some r =>
    obtain ⟨header, data, status⟩ := r
    have hframe := dev.changesOnly_perform ram hreq
    cases hin : ram.inRange status.addr 1 with
    | false =>
      rw [handle_of_request hreq, write_of_not_inRange]
      · exact hframe
      · rw [length_singleton, hframe.inRange_eq, hin]
    | true =>
      refine ⟨(dev.shape_handle queue ram bufs).1, (dev.shape_handle queue ram bufs).2, ?_⟩
      intro g hg hnot
      by_cases hgs : g = status.addr
      · subst hgs
        rw [byteAt_status hreq hin]
        rcases h header data status hreq with hw | hout | hsame
        · exact absurd hw hnot
        · rw [hin] at hout
          cases hout
        · exact hsame.symm
      · rw [byteAt_elsewhere hreq hg hgs]
        exact hframe.same g hg hnot

end Status

/-- **A request changes no byte outside the writable buffers of its chain exactly when its
status byte lies in one of them, lies outside RAM or is there already.** -/
theorem handle_confined_iff (dev : BlkDevice) (queue : ℕ) (ram : GuestRam) (desc head qsz : ℕ) :
    ChangesOnly (InWritable (collectChain ram desc head qsz)) ram
        (dev.handle queue ram (collectChain ram desc head qsz)).2.1 ↔
      dev.StatusConfined ram (collectChain ram desc head qsz) := by
  refine ⟨?_, StatusConfined.confined⟩
  intro hframe header data status hreq
  by_contra hnot
  simp only [not_or, Bool.not_eq_false] at hnot
  obtain ⟨hw, hin, hne⟩ := hnot
  have hkept := hframe.same status.addr (inRange_iff.1 hin).1 hw
  rw [byteAt_status hreq hin] at hkept
  exact hne hkept.symm

/-! Guest memory with a request header at 0 and a descriptor table at 64. -/

/-- A descriptor as the guest lays it out. -/
def descriptor (addr len flags next : ℕ) : List UInt8 :=
  LittleEndian.toLe 8 addr ++ LittleEndian.toLe 4 len ++ LittleEndian.toLe 2 flags ++
    LittleEndian.toLe 2 next

/-- A request of the given type for sector 0, with the descriptors of its chain. -/
def requestRam (type : ℕ) (table : List UInt8) : GuestRam :=
  (({ base := 0, len := 128, host := fun _ => 0 } : GuestRam).write 0
    (LittleEndian.toLe 4 type)).write 64 table

/-- A header, and a last buffer of one byte at 32 that the device may only read. -/
def readOnlyTail : GuestRam := requestRam 9 (descriptor 0 16 1 1 ++ descriptor 32 1 0 0)

/-- The device stores a status into a buffer that is not writable. -/
theorem status_escapes :
    collectChain readOnlyTail 64 0 2 = [⟨0, 16, false⟩, ⟨32, 1, false⟩] ∧
    readOnlyTail.byteAt 32 = 0 ∧
    (oneSector.handle 0 readOnlyTail (collectChain readOnlyTail 64 0 2)).2.1.byteAt 32 = sUnsupp ∧
    ¬ ChangesOnly (InWritable (collectChain readOnlyTail 64 0 2)) readOnlyTail
        (oneSector.handle 0 readOnlyTail (collectChain readOnlyTail 64 0 2)).2.1 := by
  have hchain : collectChain readOnlyTail 64 0 2 = [⟨0, 16, false⟩, ⟨32, 1, false⟩] := by decide
  rw [hchain]
  refine ⟨rfl, by decide, by decide, ?_⟩
  intro hframe
  refine absurd (hframe.same 32 (by decide) ?_) (by decide)
  rintro ⟨b, hb, hw, -⟩
  simp only [mem_cons, not_mem_nil, or_false] at hb
  rcases hb with rfl | rfl <;> cases hw

/-! ## The bytes of a transfer -/

/-- A byte of a list of buffers: the buffer it lies in, the ones before and after, and its
address. -/
structure Place (bufs : List Buf) where
  pre : List Buf
  buf : Buf
  post : List Buf
  split : bufs = pre ++ buf :: post
  addr : ℕ
  le : buf.addr ≤ addr
  lt : addr < buf.addr + buf.len

namespace Place

variable {bufs : List Buf} (p : Place bufs)

/-- The position in the concatenated buffers. -/
def pos (p : Place bufs) : ℕ := lens p.pre + (p.addr - p.buf.addr)

/-- No later writable buffer covers the address. -/
def Last (p : Place bufs) : Prop := ¬ InWritable p.post p.addr

theorem mem : p.buf ∈ bufs := by
  obtain ⟨pre, buf, post, rfl, addr, hle, hlt⟩ := p
  exact mem_append_right _ mem_cons_self

theorem offset_lt : p.addr - p.buf.addr < p.buf.len := by
  have hle := p.le
  have hlt := p.lt
  omega

theorem lens_pre_le : lens p.pre + p.buf.len ≤ lens bufs := by
  obtain ⟨pre, buf, post, rfl, addr, hle, hlt⟩ := p
  simp only [lens, map_append, map_cons, sum_append, sum_cons]
  omega

theorem pos_lt : p.pos < lens bufs := by
  have hoff := p.offset_lt
  have hpre := p.lens_pre_le
  rw [pos]
  omega

/-- Every position has a place. -/
theorem exists_pos : ∀ {i : ℕ}, i < lens bufs → ∃ p : Place bufs, p.pos = i := by
  induction bufs with
  | nil => exact fun hi => absurd hi (Nat.not_lt_zero _)
  | cons b bufs ih =>
    intro i hi
    rw [lens_cons] at hi
    by_cases hb : i < b.len
    · refine ⟨⟨[], b, bufs, rfl, b.addr + i, by omega, by omega⟩, ?_⟩
      simp only [pos, lens, map_nil, sum_nil]
      omega
    · obtain ⟨⟨pre, buf, post, hsplit, addr, hle, hlt⟩, hpos⟩ := ih (i := i - b.len) (by omega)
      refine ⟨⟨b :: pre, buf, post, by rw [hsplit, cons_append], addr, hle, hlt⟩, ?_⟩
      simp only [pos] at hpos ⊢
      rw [lens_cons]
      omega

end Place

variable {bufs : List Buf} {disk : HostFile}

/-- An address in a writable buffer lies in a last one. -/
theorem exists_last_split {g : ℕ} (h : InWritable bufs g) :
    ∃ pre b post, bufs = pre ++ b :: post ∧ b.addr ≤ g ∧ g < b.addr + b.len ∧
      ¬ InWritable post g := by
  induction bufs with
  | nil =>
    obtain ⟨b, hb, -⟩ := h
    exact absurd hb not_mem_nil
  | cons a bufs ih =>
    by_cases hlater : InWritable bufs g
    · obtain ⟨pre, b, post, hsplit, hrest⟩ := ih hlater
      exact ⟨a :: pre, b, post, by rw [hsplit, cons_append], hrest⟩
    · obtain ⟨b, hb, hw, hlo, hhi⟩ := h
      rcases mem_cons.1 hb with rfl | hb
      · exact ⟨[], b, bufs, rfl, hlo, hhi, hlater⟩
      · exact absurd ⟨b, hb, hw, hlo, hhi⟩ hlater

theorem Place.exists_last (hw : ∀ b ∈ bufs, b.writable = true)
    (p : Place bufs) : ∃ q : Place bufs, q.addr = p.addr ∧ q.Last := by
  obtain ⟨pre, b, post, hsplit, hlo, hhi, hlast⟩ :=
    exists_last_split ⟨p.buf, p.mem, hw _ p.mem, p.le, p.lt⟩
  exact ⟨⟨pre, b, post, hsplit, p.addr, hlo, hhi⟩, rfl, hlast⟩

/-- The bytes the buffers hold, by position. -/
theorem getElem?_payload {ram : GuestRam}
    (hin : ∀ b ∈ bufs, b.len ≠ 0 → ram.inRange b.addr b.len = true) (p : Place bufs) :
    (payload ram bufs)[p.pos]? = some (ram.byteAt p.addr) := by
  have hmem := p.mem
  obtain ⟨pre, buf, post, rfl, g, hlo, hhi⟩ := p
  have hsplit : payload ram (pre ++ buf :: post) =
      payload ram pre ++ (ram.read buf.addr buf.len ++ payload ram post) := by
    rw [payload, flatMap_append, flatMap_cons]
    rfl
  have hgpa : buf.addr + (g - buf.addr) = g := by omega
  have hlt : g - buf.addr < buf.len := by omega
  simp only [Place.pos]
  rw [hsplit, getElem?_append_right (by rw [length_payload]; omega), length_payload,
    Nat.add_sub_cancel_left, getElem?_append_left (by rwa [length_read]),
    getElem?_read (hin buf hmem (by omega)) hlt, hgpa]

/-! ## What an IN delivers -/

/-- How many bytes a read delivers. -/
def delivered (disk : HostFile) (offset n : ℕ) : ℕ :=
  ((disk.readAt offset n).map List.length).getD 0

/-- The byte a file has at a position, zero past its end. -/
def byteOnDisk (disk : HostFile) (i : ℕ) : UInt8 := (disk.get? i).getD 0

/-- A read delivers what the file has, up to the end of the file at most. -/
theorem readAt_cases (disk : HostFile) (offset n : ℕ) :
    disk.readAt offset n = none ∨
      ∃ k, k ≤ n ∧ offset + k ≤ max offset disk.len ∧
        disk.readAt offset n = some (ByteMem.load disk.data offset k) := by
  unfold HostFile.readAt HostFile.moves
  split
  · exact .inl rfl
  · split
    · exact .inr ⟨_, by omega, by omega, rfl⟩
    · exact .inl rfl
    · exact .inr ⟨_, by omega, by omega, rfl⟩

theorem lt_len_of_delivered {offset n j : ℕ}
    (h : j < delivered disk offset n) : offset + j < disk.len := by
  unfold delivered at h
  rcases readAt_cases disk offset n with hnone | ⟨k, -, hend, hsome⟩
  · rw [hnone] at h
    exact absurd h (Nat.not_lt_zero j)
  · rw [hsome, map_some, getD_some, ByteMem.length_load] at h
    omega

/-- What arrives in the buffer: the bytes delivered, then zeros. -/
theorem getElem?_readDisk {offset n j : ℕ} (hj : j < n) :
    (readDisk disk offset n)[j]? =
      some (if j < delivered disk offset n then disk.data (offset + j) else 0) := by
  unfold readDisk delivered
  rcases readAt_cases disk offset n with hnone | ⟨k, hk, -, hsome⟩
  · rw [hnone]
    simp [getElem?_replicate, if_pos hj]
  · rw [hsome]
    simp only [map_some, getD_some, ByteMem.length_load]
    by_cases hjk : j < k
    · rw [getElem?_append_left (by rwa [ByteMem.length_load]), if_pos hjk]
      simp [ByteMem.load, getElem?_range hjk]
    · rw [getElem?_append_right (by rw [ByteMem.length_load]; omega), if_neg hjk,
        ByteMem.length_load, getElem?_replicate, if_pos (by omega)]

/-- The byte of a buffer after the reads, where no later buffer covers it. -/
theorem byteAt_writeChunks (pre : List Buf) :
    ∀ (disk : HostFile) (start : ℕ) (ram : GuestRam) (b : Buf) (post : List Buf) (g : ℕ),
      (∀ c ∈ pre ++ b :: post, c.writable = true) →
      (∀ c ∈ pre ++ b :: post, c.len ≠ 0 → ram.inRange c.addr c.len = true) →
      b.addr ≤ g → g < b.addr + b.len → ¬ InWritable post g →
      some ((writeChunks ram (inChunks disk (start % 2 ^ 64) (pre ++ b :: post))).byteAt g) =
        (readDisk (afterReads disk pre) ((start + lens pre) % 2 ^ 64) b.len)[g - b.addr]? := by
  induction pre with
  | nil =>
    intro disk start ram b post g hw hin hlo hhi hlast
    have hlen := length_readDisk disk (start % 2 ^ 64) b.len
    have hrange := hin b mem_cons_self (by omega)
    have hbyte : (ram.write b.addr (readDisk disk (start % 2 ^ 64) b.len)).byteAt
        (b.addr + (g - b.addr)) = (readDisk disk (start % 2 ^ 64) b.len)[g - b.addr] :=
      byteAt_write (by rw [hlen, hrange]) (by omega)
    have hgpa : b.addr + (g - b.addr) = g := by omega
    have hlater := changesOnly_inChunks post disk.nextAnswer
      (wadd (start % 2 ^ 64) b.len) (ram.write b.addr (readDisk disk (start % 2 ^ 64) b.len))
      fun c hc => hw c (mem_cons_of_mem b hc)
    have hbase : ram.base ≤ g := (inRange_iff.1 hrange).1.trans hlo
    rw [hgpa] at hbyte
    have hkept := hlater.same g (by rwa [write_base]) hlast
    rw [hbyte] at hkept
    simp only [nil_append, afterReads, lens, map_nil, sum_nil, add_zero]
    rw [getElem?_eq_getElem (by omega), ← hkept]
    rfl
  | cons a pre ih =>
    intro disk start ram b post g hw hin hlo hhi hlast
    have hnext : wadd (start % 2 ^ 64) a.len = (start + a.len) % 2 ^ 64 := Nat.mod_add_mod _ _ _
    have hframe := changesOnly_write ram a.addr (readDisk disk (start % 2 ^ 64) a.len)
    have hrest := ih disk.nextAnswer (start + a.len)
      (ram.write a.addr (readDisk disk (start % 2 ^ 64) a.len)) b post g
      (fun c hc => hw c (mem_cons_of_mem a hc))
      (fun c hc hne => by
        rw [hframe.inRange_eq]
        exact hin c (mem_cons_of_mem a hc) hne)
      hlo hhi hlast
    rw [lens_cons, ← add_assoc, afterReads, ← hrest, ← hnext]
    rfl

/-! ## Success means transferred -/

/-- If a request stores `S_OK`: after an IN the writable data buffers hold the disk's bytes, and
after an OUT the disk holds the bytes of the readable ones, each at its offset. -/
def Transferred (dev : BlkDevice) (queue : ℕ) (ram : GuestRam) (bufs : List Buf) : Prop :=
  ∀ header data status, request bufs = some (header, data, status) →
    ram.inRange status.addr 1 = true →
    (dev.handle queue ram bufs).2.1.byteAt status.addr = sOk →
    (reqType ram header = tIn → ∀ p : Place (data.filter (·.writable)),
      (dev.handle queue ram bufs).2.1.byteAt p.addr =
        byteOnDisk dev.disk (sectorSize * sector ram header + p.pos)) ∧
    (reqType ram header = tOut → ∀ p : Place (data.filter (!·.writable)),
      (dev.handle queue ram bufs).1.disk.get? (sectorSize * sector ram header + p.pos) =
        some (ram.byteAt p.addr))

/-- The host delivers the byte when the buffer it lies in is read, in its turn, from the wrapped
offset. -/
def Delivered (disk : HostFile) (start : ℕ) {bufs : List Buf} (p : Place bufs) : Prop :=
  p.addr - p.buf.addr <
    delivered (afterReads disk p.pre) ((start + lens p.pre) % 2 ^ 64) p.buf.len

/-- What an IN at the byte offset `start` needs to be as good as its status says. -/
structure SoundReads (disk : HostFile) (start : ℕ) (bufs : List Buf) (status : Buf) : Prop where
  /-- A byte that is delivered comes from its own offset, or the one delivered is zero. -/
  unwrapped : ∀ p : Place bufs, p.Last → p.addr ≠ status.addr → Delivered disk start p →
    start + lens p.pre < 2 ^ 64 ∨
      disk.data ((start + lens p.pre) % 2 ^ 64 + (p.addr - p.buf.addr)) = 0
  /-- A byte that is not delivered is zero anyway. -/
  missing : ∀ p : Place bufs, p.Last → p.addr ≠ status.addr → ¬ Delivered disk start p →
    byteOnDisk disk (start + p.pos) = 0
  /-- Bytes that share an address are equal. -/
  shared : ∀ p q : Place bufs, p.addr = q.addr →
    byteOnDisk disk (start + p.pos) = byteOnDisk disk (start + q.pos)
  /-- A byte under the status byte is equal to it. -/
  covered : ∀ p : Place bufs, p.addr = status.addr → byteOnDisk disk (start + p.pos) = sOk

/-- The condition on a request and the host's answers: an IN has sound reads, and an OUT that
carries data does not start at an offset that wraps, or the host refuses one of its writes. -/
def SoundTransfer (dev : BlkDevice) (ram : GuestRam) (bufs : List Buf) : Prop :=
  ∀ header data status, request bufs = some (header, data, status) →
    ram.inRange status.addr 1 = true →
    (reqType ram header = tIn →
      SoundReads dev.disk (sectorSize * sector ram header) (data.filter (·.writable)) status) ∧
    (reqType ram header = tOut → dev.writable = true →
      sectorSize * sector ram header < 2 ^ 64 ∨ lens (data.filter (!·.writable)) = 0 ∨
        accepted dev.disk (wmul (sector ram header) sectorSize) (data.filter (!·.writable)) = false)

/-- What arrives at a place is the disk's byte exactly when it is not mixed up by a wrapped
offset and not missing. -/
theorem arrives_iff {start : ℕ} (p : Place bufs) :
    (readDisk (afterReads disk p.pre) ((start + lens p.pre) % 2 ^ 64) p.buf.len)[
        p.addr - p.buf.addr]? = some (byteOnDisk disk (start + p.pos)) ↔
      (Delivered disk start p → start + lens p.pre < 2 ^ 64 ∨
        disk.data ((start + lens p.pre) % 2 ^ 64 + (p.addr - p.buf.addr)) = 0) ∧
      (¬ Delivered disk start p → byteOnDisk disk (start + p.pos) = 0) := by
  obtain ⟨hlen, hdata⟩ := len_afterReads p.pre disk
  have hfits := disk.fits
  rw [maxFileLen] at hfits
  rw [getElem?_readDisk p.offset_lt, hdata, some.injEq]
  unfold Delivered
  by_cases hd : p.addr - p.buf.addr <
      delivered (afterReads disk p.pre) ((start + lens p.pre) % 2 ^ 64) p.buf.len
  · have hin := lt_len_of_delivered hd
    rw [hlen] at hin
    rw [if_pos hd, Place.pos, ← add_assoc]
    simp only [hd, true_implies, not_true_eq_false, false_implies, and_true]
    by_cases hwrap : start + lens p.pre < 2 ^ 64
    · rw [Nat.mod_eq_of_lt hwrap] at hin ⊢
      simp only [hwrap, true_or, byteOnDisk, HostFile.get?, if_pos hin, getD_some]
    · have hpast : ¬ start + lens p.pre + (p.addr - p.buf.addr) < disk.len := by omega
      simp only [hwrap, false_or, byteOnDisk, HostFile.get?, if_neg hpast, getD_none]
  · simp only [hd, false_implies, not_false_eq_true, true_implies, true_and]
    exact eq_comm

section Transfer

variable (dev : BlkDevice) (queue : ℕ) {ram : GuestRam} {bufs data : List Buf}
  {header status : Buf}

variable (hreq : request bufs = some (header, data, status))
  (hdata : ∀ b ∈ data, b.len ≠ 0 → ram.inRange b.addr b.len = true)

include hreq hdata

/-- Where no later buffer and not the status byte covers it, a place holds what arrived. -/
theorem in_byteAt (hin : reqType ram header = tIn) (p : Place (data.filter (·.writable)))
    (hlast : p.Last) (hne : p.addr ≠ status.addr) :
    some ((dev.handle queue ram bufs).2.1.byteAt p.addr) =
      (readDisk (afterReads dev.disk p.pre)
        ((sectorSize * sector ram header + lens p.pre) % 2 ^ 64) p.buf.len)[
          p.addr - p.buf.addr]? := by
  have hw : ∀ b ∈ data.filter (·.writable), b.writable = true :=
    fun b hb => (mem_filter.1 hb).2
  have hrange : ∀ b ∈ data.filter (·.writable), b.len ≠ 0 →
      ram.inRange b.addr b.len = true := fun b hb => hdata b (mem_filter.1 hb).1
  have hoff := p.offset_lt
  have hbase := (inRange_iff.1 (hrange _ p.mem (by omega))).1.trans p.le
  rw [byteAt_elsewhere hreq hbase hne, perform_chunks, if_pos hin, wmul_sectorSize]
  have hchunk := byteAt_writeChunks p.pre dev.disk (sectorSize * sector ram header) ram p.buf
    p.post p.addr
  rw [← p.split] at hchunk
  exact hchunk hw hrange p.le p.lt hlast

theorem in_transferred_iff (hstatus : ram.inRange status.addr 1 = true)
    (hin : reqType ram header = tIn) :
    (∀ p : Place (data.filter (·.writable)), (dev.handle queue ram bufs).2.1.byteAt p.addr =
        byteOnDisk dev.disk (sectorSize * sector ram header + p.pos)) ↔
      SoundReads dev.disk (sectorSize * sector ram header) (data.filter (·.writable)) status := by
  have hok : (dev.handle queue ram bufs).2.1.byteAt status.addr = sOk := by
    rw [byteAt_status hreq hstatus]
    exact if_pos hin
  constructor
  · intro h
    have harrives : ∀ p : Place (data.filter (·.writable)), p.Last → p.addr ≠ status.addr →
        (readDisk (afterReads dev.disk p.pre)
          ((sectorSize * sector ram header + lens p.pre) % 2 ^ 64) p.buf.len)[
            p.addr - p.buf.addr]? =
          some (byteOnDisk dev.disk (sectorSize * sector ram header + p.pos)) := by
      intro p hlast hne
      rw [← in_byteAt dev queue hreq hdata hin p hlast hne, h p]
    refine ⟨?_, ?_, ?_, ?_⟩
    · exact fun p hlast hne => ((arrives_iff p).1 (harrives p hlast hne)).1
    · exact fun p hlast hne => ((arrives_iff p).1 (harrives p hlast hne)).2
    · intro p q hpq
      rw [← h p, ← h q, hpq]
    · intro p hp
      rw [← h p, hp, hok]
  · intro h p
    by_cases hp : p.addr = status.addr
    · rw [h.covered p hp, hp, hok]
    · -- the last buffer over the address decides
      obtain ⟨q, hqp, hlast⟩ := p.exists_last fun b hb => (mem_filter.1 hb).2
      have hq : q.addr ≠ status.addr := by rwa [hqp]
      have hbyte := in_byteAt dev queue hreq hdata hin q hlast hq
      rw [(arrives_iff q).2 ⟨h.unwrapped q hlast hq, h.missing q hlast hq⟩, some.injEq]
        at hbyte
      rw [← hqp, hbyte, h.shared q p hqp]

theorem out_transferred_iff (hstatus : ram.inRange status.addr 1 = true)
    (hout : reqType ram header = tOut) :
    ((dev.handle queue ram bufs).2.1.byteAt status.addr = sOk →
        ∀ p : Place (data.filter (!·.writable)),
          (dev.handle queue ram bufs).1.disk.get? (sectorSize * sector ram header + p.pos) =
            some (ram.byteAt p.addr)) ↔
      (dev.writable = true →
        sectorSize * sector ram header < 2 ^ 64 ∨ lens (data.filter (!·.writable)) = 0 ∨
          accepted dev.disk (wmul (sector ram header) sectorSize)
            (data.filter (!·.writable)) = false) := by
  have hin : reqType ram header ≠ tIn := by
    rw [hout]
    decide
  have hget := dev.perform_get? ram header data
  have hsok : (dev.handle queue ram bufs).2.1.byteAt status.addr = sOk ↔
      dev.writable = true ∧ accepted dev.disk (wmul (sector ram header) sectorSize)
        (data.filter (!·.writable)) = true := by
    rw [byteAt_status hreq hstatus, due, if_neg hin, if_pos hout]
    split_ifs with hok <;> simp_all [sOk, sIoerr]
  rw [hsok]
  simp only [handle_of_request hreq, hget]
  have hrange : ∀ b ∈ data.filter (!·.writable), b.len ≠ 0 →
      ram.inRange b.addr b.len = true := fun b hb => hdata b (mem_filter.1 hb).1
  constructor
  · intro h hw
    rw [or_iff_not_imp_left, or_iff_not_imp_left]
    intro hwrap hpos
    by_contra hok
    rw [Bool.not_eq_false] at hok
    obtain ⟨p, -⟩ := Place.exists_pos (Nat.pos_of_ne_zero hpos)
    have hstored := h ⟨hw, hok⟩ p
    rw [if_pos ⟨hout, hw⟩, HostFile.get?] at hstored
    split at hstored
    · rename_i hlt
      have hfits := (outLoop ram dev.disk (wmul (sector ram header) sectorSize)
        (data.filter (!·.writable))).1.fits
      rw [maxFileLen] at hfits
      omega
    · cases hstored
  · rintro h ⟨hw, hok⟩ p
    have hpos := p.pos_lt
    rcases h hw with hlt | hzero | hfail
    · have hoff : wmul (sector ram header) sectorSize = sectorSize * sector ram header := by
        rw [wmul_sectorSize, Nat.mod_eq_of_lt hlt]
      rw [if_pos ⟨hout, hw⟩, hoff]
      rw [hoff, ← outLoop_accepted ram _ dev.disk dev.disk _ rfl] at hok
      rw [outLoop_stores _ dev.disk _ _ (.inl hok) hlt (by omega) (by omega),
        Nat.add_sub_cancel_left, getElem?_payload hrange p]
    · omega
    · rw [hok] at hfail
      cases hfail

end Transfer

/-- **A status of `S_OK` means that the data has been transferred exactly when the transfer is
sound**, for every chain a queue can hand over and every host. -/
theorem transferred_iff (dev : BlkDevice) (queue : ℕ) (ram : GuestRam) (desc head qsz : ℕ) :
    dev.Transferred queue ram (collectChain ram desc head qsz) ↔
      dev.SoundTransfer ram (collectChain ram desc head qsz) := by
  have hrange : ∀ {header data status}, request (collectChain ram desc head qsz) =
      some (header, data, status) → ∀ b ∈ data, b.len ≠ 0 →
        ram.inRange b.addr b.len = true := by
    intro header data status hreq b hb
    have hmem : b ∈ collectChain ram desc head qsz := by
      rw [eq_of_request hreq]
      exact mem_cons_of_mem _ (mem_append_left _ hb)
    exact inRange_of_mem_collectFrom hmem
  constructor
  · intro h header data status hreq hstatus
    have hdata := hrange hreq
    have h := h header data status hreq hstatus
    constructor
    · intro hin
      refine (in_transferred_iff dev queue hreq hdata hstatus hin).1 ((h ?_).1 hin)
      rw [byteAt_status hreq hstatus]
      exact if_pos hin
    · intro hout
      exact (out_transferred_iff dev queue hreq hdata hstatus hout).1
        fun hok => (h hok).2 hout
  · intro h header data status hreq hstatus hok
    have hdata := hrange hreq
    obtain ⟨hreads, hwrites⟩ := h header data status hreq hstatus
    exact ⟨fun hin => (in_transferred_iff dev queue hreq hdata hstatus hin).2 (hreads hin),
      fun hout => (out_transferred_iff dev queue hreq hdata hstatus hout).2 (hwrites hout) hok⟩

/-! A disk of one sector of sevens whose next read fails, and an IN of one byte at 40. -/

def failingDisk : BlkDevice :=
  openWith { len := 512, data := fun _ => 7, answers := [none], fits := sector_le_maxFileLen } true

def inRam : GuestRam :=
  requestRam tIn (descriptor 0 16 1 1 ++ descriptor 40 1 3 2 ++ descriptor 32 1 2 0)

/-- The read fails, the guest gets a zero for the seven on disk, and the status is `S_OK`. -/
theorem failed_read_ok :
    collectChain inRam 64 0 3 = [⟨0, 16, false⟩, ⟨40, 1, true⟩, ⟨32, 1, true⟩] ∧
    failingDisk.disk.readAt 0 1 = none ∧ byteOnDisk failingDisk.disk 0 = 7 ∧
    (failingDisk.handle 0 inRam (collectChain inRam 64 0 3)).2.1.byteAt 40 = 0 ∧
    (failingDisk.handle 0 inRam (collectChain inRam 64 0 3)).2.1.byteAt 32 = sOk ∧
    ¬ failingDisk.Transferred 0 inRam (collectChain inRam 64 0 3) := by
  have hchain : collectChain inRam 64 0 3 =
      [⟨0, 16, false⟩, ⟨40, 1, true⟩, ⟨32, 1, true⟩] := by decide
  rw [hchain]
  refine ⟨rfl, rfl, rfl, by decide, by decide, ?_⟩
  intro h
  have hbyte := (h _ _ _ rfl (by decide) (by decide)).1 (by decide)
    ⟨[], ⟨40, 1, true⟩, [], rfl, 40, le_refl _, by decide⟩
  exact absurd hbyte (by decide)

end Amber.BlkDevice
