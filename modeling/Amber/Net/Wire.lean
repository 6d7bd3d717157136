import Amber.Lib.ByteBuf

/-!
# Frames on the wire

`tcp_tuple` and `rewrite` of `amber-net`, on the bytes of an Ethernet frame.  The header fields
are read and written through smoltcp, whose accessors are taken to do what the formats say: an
Ethernet header of 14 bytes, an IPv4 header whose length stands in its first byte, a TCP header
after it.  `new_checked` refuses a buffer that is too short for the lengths it announces; it
does not ask that an IPv4 header have the 20 bytes every header has.  How smoltcp sums a header
or a segment is a parameter.

`rewrite` works on the slice of the header alone, so it fails on an IPv4 header announced as
shorter than its address fields; a run of it is `none` then.

* `tcpTuple_rewrite` — a TCP frame stays one, with exactly the addresses and ports asked for.
-/

namespace Amber.Net

open ByteBuf

/-- (src, dst, src_port, dst_port, syn, ack) of an Ethernet/IPv4/TCP frame. -/
structure TcpTuple where
  src : ℕ
  dst : ℕ
  sport : ℕ
  dport : ℕ
  syn : Bool
  ack : Bool
  deriving DecidableEq

/-- How the netstack sums an IPv4 header, and a TCP segment between two addresses. -/
structure Checksums where
  ip : List UInt8 → ℕ
  tcp : ℕ → ℕ → List UInt8 → ℕ

def ethLen : ℕ := 14

/-- The length the IPv4 header announces for itself. -/
def headerLen (b : List UInt8) : ℕ := be b ethLen 1 % 16 * 4

/-- … and for header and payload together. -/
def totalLen (b : List UInt8) : ℕ := be b (ethLen + 2) 2

/-- `Ipv4Packet::new_checked` on what follows the Ethernet header. -/
def ipv4Checked (b : List UInt8) : Bool :=
  decide (ethLen + 20 ≤ b.length ∧ ethLen + headerLen b ≤ b.length ∧ headerLen b ≤ totalLen b ∧
    ethLen + totalLen b ≤ b.length)

/-- Where the TCP header starts. -/
def tcpAt (b : List UInt8) : ℕ := ethLen + headerLen b

/-- The length the TCP header announces for itself. -/
def dataOffset (b : List UInt8) : ℕ := be b (tcpAt b + 12) 1 / 16 * 4

/-- `TcpPacket::new_checked` on the IPv4 payload. -/
def tcpChecked (b : List UInt8) : Bool :=
  decide (headerLen b + 20 ≤ totalLen b ∧ headerLen b + dataOffset b ≤ totalLen b ∧
    20 ≤ dataOffset b)

def tcpTuple (b : List UInt8) : Option TcpTuple :=
  if b.length < ethLen then none
  else if be b 12 2 ≠ 0x0800 then none
  else if !ipv4Checked b then none
  else if be b (ethLen + 9) 1 ≠ 6 then none
  else if !tcpChecked b then none
  else
    some
      { src := be b (ethLen + 12) 4
        dst := be b (ethLen + 16) 4
        sport := be b (tcpAt b) 2
        dport := be b (tcpAt b + 2) 2
        syn := be b (tcpAt b + 13) 1 / 2 % 2 == 1
        ack := be b (tcpAt b + 13) 1 / 16 % 2 == 1 }

/-- `Ipv4Packet::fill_checksum`: the sum of the header with a zero in the checksum's place. -/
def fillIpChecksum (sums : Checksums) (b : List UInt8) (ihl : ℕ) : List UInt8 :=
  let zeroed := putBe b (ethLen + 10) 2 0
  putBe b (ethLen + 10) 2 (sums.ip ((zeroed.drop ethLen).take ihl))

/-- `TcpPacket::fill_checksum` on everything after the IPv4 header. -/
def fillTcpChecksum (sums : Checksums) (b : List UInt8) (ihl src dst : ℕ) : List UInt8 :=
  let zeroed := putBe b (ethLen + ihl + 16) 2 0
  putBe b (ethLen + ihl + 16) 2 (sums.tcp src dst (zeroed.drop (ethLen + ihl)))

/-- The writes of `rewrite`, in order; the slices are split once, at the header's length. -/
def rewritten (sums : Checksums) (b : List UInt8) (ihl : ℕ)
    (newSrc newDst newSport newDport : Option ℕ) : List UInt8 :=
  let b := putOpt b (ethLen + 12) 4 newSrc
  let b := putOpt b (ethLen + 16) 4 newDst
  let src := be b (ethLen + 12) 4
  let dst := be b (ethLen + 16) 4
  let b := fillIpChecksum sums b ihl
  let b := putOpt b (ethLen + ihl) 2 newSport
  let b := putOpt b (ethLen + ihl + 2) 2 newDport
  fillTcpChecksum sums b ihl src dst

/-- Rewrite addresses and ports, fixing both checksums; `none` in an argument leaves a field
unchanged.  The result `none` is a failed slice: a header too short for the address fields or a
segment too short for the checksum field. -/
def rewrite (sums : Checksums) (b : List UInt8) (newSrc newDst newSport newDport : Option ℕ) :
    Option (List UInt8) :=
  if b.length < ethLen then some b
  else if !ipv4Checked b then some b
  else if headerLen b < 20 ∨ b.length < tcpAt b + 18 then none
  else some (rewritten sums b (headerLen b) newSrc newDst newSport newDport)

/-! ## What a rewritten frame reads as -/

section Rewritten

variable (sums : Checksums) (b : List UInt8) (ihl : ℕ)
  (newSrc newDst newSport newDport : Option ℕ)

@[simp] theorem length_rewritten :
    (rewritten sums b ihl newSrc newDst newSport newDport).length = b.length := by
  simp only [rewritten, fillIpChecksum, fillTcpChecksum, length_putBe, length_putOpt]

variable {ihl}

variable (hihl : 20 ≤ ihl)

include hihl

/-- What lies before the checksum of the first header, or between the ports and the checksum of
the second, is not written. -/
theorem be_rewritten {i n : ℕ}
    (hi : i + n ≤ ethLen + 10 ∨ ethLen + ihl + 4 ≤ i ∧ i + n ≤ ethLen + ihl + 16) :
    be (rewritten sums b ihl newSrc newDst newSport newDport) i n = be b i n := by
  simp only [ethLen] at hi
  simp only [rewritten, fillIpChecksum, fillTcpChecksum, ethLen]
  rw [be_putBe_disjoint (by omega), be_putOpt_disjoint (by omega), be_putOpt_disjoint (by omega),
    be_putBe_disjoint (by omega), be_putOpt_disjoint (by omega), be_putOpt_disjoint (by omega)]

theorem headerLen_rewritten :
    headerLen (rewritten sums b ihl newSrc newDst newSport newDport) = headerLen b := by
  rw [headerLen, headerLen, be_rewritten _ _ _ _ _ _ hihl (.inl (by decide))]

theorem totalLen_rewritten :
    totalLen (rewritten sums b ihl newSrc newDst newSport newDport) = totalLen b := by
  rw [totalLen, totalLen, be_rewritten _ _ _ _ _ _ hihl (.inl (by decide))]

theorem fields_rewritten (hlen : ethLen + ihl + 18 ≤ b.length) :
    let b' := rewritten sums b ihl newSrc newDst newSport newDport
    be b' (ethLen + 12) 4 = (newSrc.map (· % 256 ^ 4)).getD (be b (ethLen + 12) 4) ∧
      be b' (ethLen + 16) 4 = (newDst.map (· % 256 ^ 4)).getD (be b (ethLen + 16) 4) ∧
      be b' (ethLen + ihl) 2 = (newSport.map (· % 256 ^ 2)).getD (be b (ethLen + ihl) 2) ∧
      be b' (ethLen + ihl + 2) 2 =
        (newDport.map (· % 256 ^ 2)).getD (be b (ethLen + ihl + 2) 2) := by
  simp only [rewritten, fillIpChecksum, fillTcpChecksum, ethLen] at hlen ⊢
  -- of the six writes exactly one meets the field
  refine ⟨?_, ?_, ?_, ?_⟩ <;>
    simp (disch := first | omega | (simp only [length_putBe, length_putOpt]; omega)) only
      [be_putBe_disjoint, be_putOpt_disjoint, be_putOpt_self]

end Rewritten

variable {b : List UInt8} {t : TcpTuple}

/-- What a frame must be for `tcp_tuple` to accept it. -/
theorem tcpTuple_eq_some (h : tcpTuple b = some t) :
    ethLen ≤ b.length ∧ be b 12 2 = 0x0800 ∧ ipv4Checked b = true ∧ be b (ethLen + 9) 1 = 6 ∧
      tcpChecked b = true ∧ t = { src := be b (ethLen + 12) 4
                                  dst := be b (ethLen + 16) 4
                                  sport := be b (tcpAt b) 2
                                  dport := be b (tcpAt b + 2) 2
                                  syn := be b (tcpAt b + 13) 1 / 2 % 2 == 1
                                  ack := be b (tcpAt b + 13) 1 / 16 % 2 == 1 } := by
  unfold tcpTuple at h
  split_ifs at h with h1 h2 h3 h4 h5
  refine ⟨not_lt.1 h1, not_not.1 h2, by simpa using h3, not_not.1 h4, by simpa using h5, ?_⟩
  exact (Option.some.inj h).symm

/-- A TCP frame is rewritten if its IPv4 header has the fields of one, and fails otherwise. -/
theorem rewrite_accepted (sums : Checksums) (ht : tcpTuple b = some t)
    (newSrc newDst newSport newDport : Option ℕ) :
    rewrite sums b newSrc newDst newSport newDport =
      if 20 ≤ headerLen b then some (rewritten sums b (headerLen b) newSrc newDst newSport newDport)
      else none := by
  obtain ⟨heth, -, hip, -, htcp, -⟩ := tcpTuple_eq_some ht
  have hip' := of_decide_eq_true hip
  have htcp' := of_decide_eq_true htcp
  rw [rewrite, if_neg (not_lt.2 heth), hip, if_neg (by decide), tcpAt]
  by_cases hihl : 20 ≤ headerLen b
  · rw [if_neg (by omega), if_pos hihl]
  · rw [if_pos (by omega), if_neg hihl]

/-- **A rewritten frame is a TCP frame with the fields asked for**, and all others as they were. -/
theorem tcpTuple_rewrite (sums : Checksums) (ht : tcpTuple b = some t) (hihl : 20 ≤ headerLen b)
    (newSrc newDst newSport newDport : Option ℕ) :
    ∃ b', rewrite sums b newSrc newDst newSport newDport = some b' ∧ 20 ≤ headerLen b' ∧
      tcpTuple b' = some
        { t with
          src := (newSrc.map (· % 256 ^ 4)).getD t.src
          dst := (newDst.map (· % 256 ^ 4)).getD t.dst
          sport := (newSport.map (· % 256 ^ 2)).getD t.sport
          dport := (newDport.map (· % 256 ^ 2)).getD t.dport } := by
  obtain ⟨heth, htype, hip, hproto, htcp, rfl⟩ := tcpTuple_eq_some ht
  have hip' := of_decide_eq_true hip
  have htcp' := of_decide_eq_true htcp
  have hseg : ethLen + headerLen b + 18 ≤ b.length := by omega
  refine ⟨rewritten sums b (headerLen b) newSrc newDst newSport newDport, ?_, ?_⟩
  · rw [rewrite_accepted sums ht, if_pos hihl]
  set b' := rewritten sums b (headerLen b) newSrc newDst newSport newDport
  have hkeep : ∀ {i n : ℕ}, i + n ≤ ethLen + 10 ∨
      ethLen + headerLen b + 4 ≤ i ∧ i + n ≤ ethLen + headerLen b + 16 → be b' i n = be b i n :=
    fun hi => be_rewritten sums b newSrc newDst newSport newDport hihl hi
  have hlen : b'.length = b.length := length_rewritten ..
  have hhl : headerLen b' = headerLen b := headerLen_rewritten _ _ _ _ _ _ hihl
  have htl : totalLen b' = totalLen b := totalLen_rewritten _ _ _ _ _ _ hihl
  have hat : tcpAt b' = tcpAt b := congrArg (ethLen + ·) hhl
  have hat' : tcpAt b = ethLen + headerLen b := rfl
  have hoff : dataOffset b' = dataOffset b := by
    rw [dataOffset, dataOffset, hat, hkeep (.inr (by omega))]
  have hchecked : ipv4Checked b' = true := by
    rw [ipv4Checked, hlen, hhl, htl]
    exact hip
  have hchecked' : tcpChecked b' = true := by
    rw [tcpChecked, hhl, htl, hoff]
    exact htcp
  have hflags : be b' (ethLen + headerLen b + 13) 1 = be b (ethLen + headerLen b + 13) 1 :=
    hkeep (.inr (by omega))
  obtain ⟨hsrc, hdst, hsport, hdport⟩ :=
    fields_rewritten sums b newSrc newDst newSport newDport hihl hseg
  refine ⟨hhl.symm ▸ hihl, ?_⟩
  rw [tcpTuple, if_neg (by omega), hkeep (.inl (by decide)), if_neg (not_not.2 htype), hchecked,
    if_neg (by decide), hkeep (.inl (by decide)), if_neg (not_not.2 hproto), hchecked',
    if_neg (by decide), hat, hat', hflags, hsrc, hdst, hsport, hdport]

end Amber.Net
