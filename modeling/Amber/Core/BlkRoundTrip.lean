import Amber.Lib.Runs
import Amber.Core.BlkStatus

/-!
# Block transfers do not depend on their layout

A driver may cut the data of a request into any number of descriptors, and the device advances
its offset from one to the next, skipping those of the other direction.  With a host that does
all it is asked and a range inside the advertised capacity, the cutting does not matter:

* `Transfer.get?_out` — what an OUT leaves in the file is a function of its sector and the bytes
  it carries;
* `Transfer.received_in` — what an IN leaves in the buffers is the part of the file it asks for;
* `get?_serve_of_spares` — requests on other ranges leave a range alone, so an IN after an OUT
  returns what was written;
* `get?_readOnly` — on a read-only device nothing changes the file, whatever the host does.
-/

namespace Amber.BlkDevice

open GuestRam List Option Runs

/-! ## Transfers -/

/-- The buffer covers the address. -/
def Covers (b : Buf) (g : ℕ) : Prop := b.addr ≤ g ∧ g < b.addr + b.len

/-- A request as a driver lays it out: the data buffers that are not empty are in RAM, no two
buffers share an address and none of them covers the status byte.  The buffers may differ in
direction. -/
structure Transfer where
  ram : GuestRam
  header : Buf
  data : List Buf
  status : Buf
  data_in : ∀ b ∈ data, b.len ≠ 0 → ram.inRange b.addr b.len = true
  data_apart : data.Pairwise fun b c => ∀ g, ¬ (Covers b g ∧ Covers c g)
  status_apart : ∀ b ∈ data, ¬ Covers b status.addr

namespace Transfer

def chain (t : Transfer) : List Buf := t.header :: (t.data ++ [t.status])

def type (t : Transfer) : ℕ := reqType t.ram t.header

/-- The byte offset a transfer asks for. -/
def start (t : Transfer) : ℕ := sectorSize * sector t.ram t.header

/-- The buffers an IN fills. -/
def inBufs (t : Transfer) : List Buf := t.data.filter (·.writable)

/-- The bytes an OUT carries. -/
def sent (t : Transfer) : List UInt8 := payload t.ram (t.data.filter (!·.writable))

/-- The device after the transfer. -/
def after (t : Transfer) (dev : BlkDevice) (queue : ℕ) : BlkDevice :=
  (dev.handle queue t.ram t.chain).1

/-- What the writable data buffers hold after the transfer, one after the other. -/
def received (t : Transfer) (dev : BlkDevice) (queue : ℕ) : List UInt8 :=
  payload (dev.handle queue t.ram t.chain).2.1 t.inBufs

theorem request_chain (t : Transfer) : request t.chain = some (t.header, t.data, t.status) := by
  have hne : t.data ++ [t.status] ≠ [] := concat_ne_nil _ _
  obtain ⟨b, rest, hcons⟩ := exists_cons_of_ne_nil hne
  have hlast : (b :: rest).getLast (cons_ne_nil b rest) = t.status := by
    simp [← hcons]
  rw [chain, hcons, request, hlast, ← hcons, dropLast_concat]

end Transfer

/-! ## OUT -/

section Out

variable {dev : BlkDevice} {t : Transfer}

/-- An OUT inside the capacity: its range holds what it carries, the rest is as before. -/
theorem Transfer.get?_out (hw : dev.writable = true) (hhost : dev.disk.answers = [])
    (htype : t.type = tOut) (hcap : t.start + t.sent.length ≤ dev.capacity) (queue i : ℕ) :
    (t.after dev queue).disk.get? i =
      if t.start ≤ i ∧ i < t.start + t.sent.length then t.sent[i - t.start]?
      else dev.disk.get? i := by
  have hlt := dev.capacity_lt
  have hle := dev.capacity_le
  rw [← capacity] at hle
  have hlen : t.sent.length = lens (t.data.filter (!·.writable)) := length_payload _ _
  have hoff : wmul (sector t.ram t.header) sectorSize = t.start := by
    rw [wmul_sectorSize, ← Transfer.start, Nat.mod_eq_of_lt (by omega)]
  rw [Transfer.after, handle_of_request t.request_chain]
  rw [perform_get?, if_pos ⟨htype, hw⟩, hoff]
  split
  · rename_i hi
    exact outLoop_stores _ dev.disk _ i (.inr ⟨hhost, by rw [maxFileLen]; omega⟩) (by omega) hi.1
      (by omega)
  · rename_i hi
    by_contra hne
    have := outLoop_inside _ dev.disk t.start (by omega) i hne
    omega

end Out

/-! ## IN -/

theorem afterReads_of_willing {disk : HostFile} (hhost : disk.answers = []) (bufs : List Buf) :
    afterReads disk bufs = disk := by
  induction bufs with
  | nil => rfl
  | cons b bs ih => rw [afterReads, HostFile.nextAnswer_of_willing hhost, ih]

/-- A willing host delivers all of a read inside the file. -/
theorem delivered_of_willing {disk : HostFile} {offset n : ℕ} (hhost : disk.answers = [])
    (hin : offset + n ≤ disk.len) : delivered disk offset n = n := by
  have hfits := disk.fits
  rw [maxFileLen] at hfits
  rw [delivered, HostFile.readAt, if_neg (by omega), HostFile.moves, hhost]
  simp only [map_some, getD_some, ByteMem.length_load]
  omega

section In

variable {dev : BlkDevice} {queue : ℕ} {t : Transfer}

/-- No later buffer covers a byte of a transfer. -/
theorem Transfer.last (t : Transfer) (p : Place t.inBufs) : p.Last := by
  have hapart := t.data_apart.sublist (filter_sublist (p := fun b => b.writable))
  have hsplit : t.data.filter (·.writable) = p.pre ++ p.buf :: p.post := p.split
  rw [hsplit, pairwise_append, pairwise_cons] at hapart
  rintro ⟨c, hc, -, hlo, hhi⟩
  exact hapart.2.1.1 c hc p.addr ⟨⟨p.le, p.lt⟩, hlo, hhi⟩

/-- Every byte of an IN inside the capacity is the file's byte. -/
theorem Transfer.byteAt_in (hhost : dev.disk.answers = []) (htype : t.type = tIn)
    (hcap : t.start + lens t.inBufs ≤ dev.capacity) (p : Place t.inBufs) :
    (dev.handle queue t.ram t.chain).2.1.byteAt p.addr = dev.disk.data (t.start + p.pos) := by
  have hlt := dev.capacity_lt
  have hle := dev.capacity_le
  rw [← capacity] at hle
  have hmem : p.buf ∈ t.data := (mem_filter.1 p.mem).1
  have hne : p.addr ≠ t.status.addr := fun h => t.status_apart _ hmem ⟨h ▸ p.le, h ▸ p.lt⟩
  have hpre := p.lens_pre_le
  have hbyte := in_byteAt dev queue t.request_chain t.data_in htype p (t.last p) hne
  rw [← Transfer.start, afterReads_of_willing hhost, Nat.mod_eq_of_lt (by omega),
    getElem?_readDisk p.offset_lt, delivered_of_willing hhost (by omega), if_pos p.offset_lt,
    some.injEq] at hbyte
  rw [hbyte, Place.pos, add_assoc]

/-- What an IN inside the capacity returns is the part of the file it asks for. -/
theorem Transfer.received_in (hhost : dev.disk.answers = []) (htype : t.type = tIn)
    (hcap : t.start + lens t.inBufs ≤ dev.capacity) :
    t.received dev queue = ByteMem.load dev.disk.data t.start (lens t.inBufs) := by
  have hshape := dev.shape_handle queue t.ram t.chain
  have hin : ∀ b ∈ t.inBufs, b.len ≠ 0 →
      (dev.handle queue t.ram t.chain).2.1.inRange b.addr b.len = true := by
    intro b hb hne
    rw [inRange_iff, hshape.1, hshape.2, ← inRange_iff]
    exact t.data_in b (mem_filter.1 hb).1 hne
  refine ext_getElem? ?_
  intro i
  by_cases hi : i < lens t.inBufs
  · obtain ⟨p, rfl⟩ := Place.exists_pos hi
    rw [Transfer.received, getElem?_payload hin p, Transfer.byteAt_in hhost htype hcap p,
      ByteMem.load, getElem?_map, getElem?_range hi, map_some]
  · rw [getElem?_eq_none (by rw [Transfer.received, length_payload]; omega),
      getElem?_eq_none (by rw [ByteMem.length_load]; omega)]

end In

/-! ## Sequences of requests -/

/-- A chain the transport hands to the device, with the guest memory it finds. -/
structure Call where
  queue : ℕ
  ram : GuestRam
  bufs : List Buf

/-- The device after one request. -/
def serve (dev : BlkDevice) (c : Call) : BlkDevice := (dev.handle c.queue c.ram c.bufs).1

/-- The request has its range among the byte offsets of 64 bits and writes nothing to the `n`
bytes from `lo` on. -/
def Call.Spares (c : Call) (lo n : ℕ) : Prop :=
  ∀ header data status, request c.bufs = some (header, data, status) →
    reqType c.ram header = tOut →
    sectorSize * sector c.ram header < 2 ^ 64 ∧
      ∀ i, lo ≤ i → i < lo + n → i < sectorSize * sector c.ram header ∨
        sectorSize * sector c.ram header + lens (data.filter (!·.writable)) ≤ i

theorem answers_outLoop {ram : GuestRam} (bufs : List Buf) :
    ∀ (disk : HostFile) (offset : ℕ), disk.answers = [] →
      (outLoop ram disk offset bufs).1.answers = [] :=
  outLoop_keeps (fun f offset d h => by simp [f.answers_writeAllAt offset d, h]) ram bufs

/-- A willing host stays willing. -/
theorem answers_perform {dev : BlkDevice} (hhost : dev.disk.answers = []) (ram : GuestRam)
    (header : Buf) (data : List Buf) : (dev.perform ram header data).1.disk.answers = [] := by
  unfold perform
  dsimp only
  split
  · exact (congrArg HostFile.answers (afterReads_of_willing hhost _)).trans hhost
  · split
    · split
      · exact answers_outLoop _ _ _ hhost
      · exact hhost
    · split
      · split
        · exact (congrArg HostFile.answers (HostFile.nextAnswer_of_willing hhost)).trans hhost
        · exact hhost
      · exact hhost

section Serve

variable {dev : BlkDevice} {c : Call} {lo n : ℕ}

theorem answers_serve (hhost : dev.disk.answers = []) : (dev.serve c).disk.answers = [] := by
  unfold serve handle
  split
  · exact answers_perform hhost _ _ _
  · exact hhost

/-- The file after one request. -/
theorem get?_serve (dev : BlkDevice) (c : Call) (i : ℕ) :
    (dev.serve c).disk.get? i = dev.disk.get? i ∨
      ∃ header data status, request c.bufs = some (header, data, status) ∧
        reqType c.ram header = tOut ∧ dev.writable = true ∧
        (dev.serve c).disk.get? i =
          (outLoop c.ram dev.disk (wmul (sector c.ram header) sectorSize)
            (data.filter (!·.writable))).1.get? i := by
  cases hreq : request c.bufs with
  | none =>
    rw [serve, handle, hreq]
    exact .inl rfl
  | some r =>
    obtain ⟨header, data, status⟩ := r
    have hget := dev.perform_get? c.ram header data i
    rw [serve, handle_of_request hreq]
    by_cases hout : reqType c.ram header = tOut ∧ dev.writable = true
    · rw [if_pos hout] at hget
      exact .inr ⟨header, data, status, rfl, hout.1, hout.2, hget⟩
    · rw [if_neg hout] at hget
      exact .inl hget

/-- A request that spares a range below the capacity leaves it as it is. -/
theorem get?_serve_of_spares (h : c.Spares lo n) (hcap : lo + n ≤ dev.capacity) {i : ℕ}
    (hlo : lo ≤ i) (hhi : i < lo + n) : (dev.serve c).disk.get? i = dev.disk.get? i := by
  rcases dev.get?_serve c i with hsame | ⟨header, data, status, hreq, hout, -, hget⟩
  · exact hsame
  · obtain ⟨hlt, hapart⟩ := h header data status hreq hout
    have hle := dev.capacity_le
    rw [← capacity] at hle
    rw [hget, wmul_sectorSize, Nat.mod_eq_of_lt hlt]
    exact outLoop_outside _ dev.disk _ i hlt (by omega) (hapart i hlo hhi)

/-- What holds of the device and a range all through a sequence of requests that spare it. -/
structure Untouched (dev dev' : BlkDevice) (lo n : ℕ) : Prop where
  willing : dev'.disk.answers = []
  capacity : dev'.capacity = dev.capacity
  same : ∀ i, lo ≤ i → i < lo + n → dev'.disk.get? i = dev.disk.get? i

theorem untouched_of_spares (hhost : dev.disk.answers = []) (hcap : lo + n ≤ dev.capacity)
    {calls : List Call} (h : ∀ c ∈ calls, c.Spares lo n) :
    Untouched dev (run serve dev calls) lo n := by
  refine invariant (I := fun d => Untouched dev d lo n) ?_
    ⟨hhost, rfl, fun _ _ _ => rfl⟩ (each_of_forall h)
  intro d c hd hc
  refine ⟨answers_serve hd.willing, ?_, ?_⟩
  · rw [← hd.capacity, BlkDevice.capacity, BlkDevice.capacity, serve, (d.mode_handle _ _ _).2]
  · intro i hlo hhi
    rw [get?_serve_of_spares hc (by rw [hd.capacity]; exact hcap) hlo hhi, hd.same i hlo hhi]

/-- No sequence of requests changes the file of a read-only device. -/
theorem get?_readOnly (hro : dev.writable = false) (calls : List Call) (i : ℕ) :
    (run serve dev calls).disk.get? i = dev.disk.get? i := by
  refine (invariant_always
    (I := fun d : BlkDevice => d.writable = false ∧ d.disk.get? i = dev.disk.get? i) ?_
    ⟨hro, rfl⟩ calls).2
  rintro d c ⟨hd, hsame⟩
  refine ⟨by rw [serve, (d.mode_handle _ _ _).1, hd], ?_⟩
  rcases d.get?_serve c i with hkept | ⟨_, _, _, _, _, hw, _⟩
  · rw [hkept, hsame]
  · rw [hd] at hw
    cases hw

end Serve

/-! ## Layout and round trip -/

/-- An IN of a range that an OUT has written returns the bytes it carried, whatever requests on
other ranges come between. -/
theorem Transfer.round_trip {dev : BlkDevice} {queue : ℕ} {t u : Transfer} {between : List Call}
    (hw : dev.writable = true) (hhost : dev.disk.answers = []) (hout : t.type = tOut)
    (hcap : t.start + t.sent.length ≤ dev.capacity)
    (hspare : ∀ c ∈ between, c.Spares t.start t.sent.length)
    (hin : u.type = tIn) (hstart : u.start = t.start) (hlen : lens u.inBufs = t.sent.length) :
    u.received (run serve (t.after dev queue) between) queue = t.sent := by
  have hmode := dev.mode_handle queue t.ram t.chain
  have hcap' : (t.after dev queue).capacity = dev.capacity := by
    rw [BlkDevice.capacity, BlkDevice.capacity, Transfer.after, hmode.2]
  have hhost' : (t.after dev queue).disk.answers = [] :=
    answers_serve (c := ⟨queue, t.ram, t.chain⟩) hhost
  have hkept := untouched_of_spares hhost' (by rw [hcap']; exact hcap) hspare
  rw [Transfer.received_in hkept.willing hin
    (by rw [hkept.capacity, hcap', hstart, hlen]; exact hcap), hstart, hlen]
  refine ext_getElem? ?_
  intro i
  by_cases hi : i < t.sent.length
  · have hbyte := hkept.same (t.start + i) (by omega) (by omega)
    rw [Transfer.get?_out hw hhost hout hcap, if_pos ⟨by omega, by omega⟩,
      Nat.add_sub_cancel_left, HostFile.get?, getElem?_eq_getElem hi] at hbyte
    split at hbyte
    · rw [ByteMem.load, getElem?_map, getElem?_range hi, map_some, hbyte, getElem?_eq_getElem hi]
    · cases hbyte
  · rw [getElem?_eq_none (by rw [ByteMem.length_load]; omega), getElem?_eq_none (by omega)]

/-- **Block transfers inside the capacity do not depend on the layout of their data, and they
round-trip.**  For a writable device whose host does all it is asked: an OUT leaves the same file
whatever its cutting and changes nothing outside its range, an IN leaves the same bytes, and an IN
after an OUT returns what was written whatever comes between on other ranges.  On a read-only
device no sequence of requests changes the file. -/
theorem transfers_layout_free :
    (∀ (dev : BlkDevice) (queue : ℕ), dev.writable = true → dev.disk.answers = [] →
      (∀ t u : Transfer, t.type = tOut → u.type = tOut → u.start = t.start → u.sent = t.sent →
        t.start + t.sent.length ≤ dev.capacity → ∀ i,
          (t.after dev queue).disk.get? i = (u.after dev queue).disk.get? i ∧
          (i < t.start ∨ t.start + t.sent.length ≤ i →
            (t.after dev queue).disk.get? i = dev.disk.get? i)) ∧
      (∀ t u : Transfer, t.type = tIn → u.type = tIn → u.start = t.start →
        lens u.inBufs = lens t.inBufs → t.start + lens t.inBufs ≤ dev.capacity →
          t.received dev queue = u.received dev queue) ∧
      (∀ t u : Transfer, t.type = tOut → u.type = tIn → u.start = t.start →
        lens u.inBufs = t.sent.length → t.start + t.sent.length ≤ dev.capacity →
        ∀ between : List Call, (∀ c ∈ between, c.Spares t.start t.sent.length) →
          u.received (Runs.run serve (t.after dev queue) between) queue = t.sent)) ∧
    ∀ dev : BlkDevice, dev.writable = false → ∀ (calls : List Call) (i : ℕ),
      (Runs.run serve dev calls).disk.get? i = dev.disk.get? i := by
  refine ⟨?_, fun dev hro => get?_readOnly hro⟩
  intro dev queue hw hhost
  refine ⟨?_, ?_, ?_⟩
  · intro t u ht hu hstart hsent hcap i
    have htget := Transfer.get?_out hw hhost ht hcap queue i
    have huget := Transfer.get?_out hw hhost hu (by rw [hstart, hsent]; exact hcap)
      queue i
    rw [hstart, hsent] at huget
    refine ⟨htget.trans huget.symm, fun hout => ?_⟩
    rw [htget, if_neg (by omega)]
  · intro t u ht hu hstart hlen hcap
    rw [Transfer.received_in hhost ht hcap,
      Transfer.received_in hhost hu (by rw [hstart, hlen]; exact hcap), hstart, hlen]
  · intro t u ht hu hstart hlen hcap between hspare
    exact Transfer.round_trip hw hhost ht hcap hspare hu hstart hlen

/-! Two bytes written in two pieces, with a buffer of the other direction between them, and read
back in one. -/

def splitOut : Transfer where
  ram := (requestRam tOut []).write 40 [7, 8]
  header := ⟨0, 16, false⟩
  data := [⟨40, 1, false⟩, ⟨50, 4, true⟩, ⟨41, 1, false⟩]
  status := ⟨32, 1, true⟩
  data_in := by decide
  data_apart := by
    simp only [List.pairwise_cons, List.mem_cons, List.not_mem_nil, or_false, forall_eq_or_imp,
      forall_eq, Covers, List.Pairwise.nil, false_imp_iff, implies_true, and_true]
    exact ⟨⟨by omega, by omega⟩, by omega⟩
  status_apart := by
    simp only [List.mem_cons, List.not_mem_nil, or_false, forall_eq_or_imp, forall_eq, Covers]
    omega

def wholeIn : Transfer where
  ram := requestRam tIn []
  header := ⟨0, 16, false⟩
  data := [⟨40, 2, true⟩]
  status := ⟨32, 1, true⟩
  data_in := by decide
  data_apart := List.pairwise_singleton _ _
  status_apart := by
    simp only [List.mem_singleton, forall_eq, Covers]
    omega

theorem transfers_layout_free_two :
    wholeIn.received (Runs.run serve (splitOut.after oneSector 0)
      [⟨0, requestRam tFlush [], outChain⟩]) 0 = [7, 8] := by
  refine (transfers_layout_free.1 oneSector 0 rfl rfl).2.2 splitOut wholeIn (by decide)
    (by decide) (by decide) (by decide) (by decide) _ ?_
  intro c hc header data status hreq htype
  rw [mem_singleton.1 hc] at hreq htype
  cases hreq
  exact absurd htype (by decide)

end Amber.BlkDevice
