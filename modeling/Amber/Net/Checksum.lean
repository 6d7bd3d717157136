import Amber.Lib.InternetChecksum
import Amber.Net.Wire

/-!
# Do rewritten frames keep valid checksums?

`rewrite` changes addresses and ports and then has smoltcp fill in both checksums.  It hands
`fill_checksum` the IPv4 header on the one side, and everything behind that header on the other.
What a receiver sums is the TCP segment, which ends where the IPv4 total length says; a frame may
go on after that, with the padding of a short Ethernet frame for example.

* `data_rewritten` — the IPv4 checksum of a rewritten frame verifies.
* `segmentSum_rewritten_iff` — the TCP checksum does exactly when the bytes behind the segment do
  not show in the sum.
* `rewrite_valid_iff` — the two together, with the tuple.
* `padded_frame_broken` — a SYN padded to the 60 bytes of the shortest Ethernet frame.
-/

namespace Amber.Net

open ByteBuf InternetChecksum List

/-! ## The sums of smoltcp -/

/-- The bytes of an IPv4 address. -/
def addrBytes (addr : ℕ) : List UInt8 :=
  [.ofNat (addr / 2 ^ 24), .ofNat (addr / 2 ^ 16), .ofNat (addr / 2 ^ 8), .ofNat addr]

/-- `checksum::pseudo_header` of a TCP segment; the length is cut to 16 bits. -/
def pseudoHeader (src dst len : ℕ) : ℕ :=
  combine [data (addrBytes src), data (addrBytes dst),
    data [0, 6, .ofNat (len / 256), .ofNat len]]

/-- The sum over the pseudo header and a segment. -/
def segmentSum (src dst : ℕ) (seg : List UInt8) : ℕ :=
  combine [pseudoHeader src dst seg.length, data seg]

/-- The Internet checksums of an IPv4 packet and of a TCP packet. -/
def smoltcp : Checksums where
  ip header := 0xffff - data header
  tcp src dst seg := 0xffff - segmentSum src dst seg

/-- What is assumed of `fill_checksum`: it puts the Internet checksum in its field. -/
structure Checksums.Internet (sums : Checksums) : Prop where
  ip : ∀ header, sums.ip header = smoltcp.ip header
  tcp : ∀ src dst seg, sums.tcp src dst seg = smoltcp.tcp src dst seg

theorem Checksums.Internet.eq_smoltcp {sums : Checksums} (h : sums.Internet) : sums = smoltcp := by
  obtain ⟨ip, tcp⟩ := sums
  obtain rfl : ip = smoltcp.ip := funext h.ip
  obtain rfl : tcp = smoltcp.tcp := funext fun src => funext fun dst => funext (h.tcp src dst)
  rfl

/-- `Ipv4Packet::verify_checksum`. -/
def IpVerified (b : List UInt8) : Prop := data ((b.drop ethLen).take (headerLen b)) = 0xffff

/-- The payload of the IPv4 packet. -/
def segment (b : List UInt8) : List UInt8 :=
  (b.drop (tcpAt b)).take (totalLen b - headerLen b)

/-- `TcpPacket::verify_checksum`. -/
def TcpVerified (b : List UInt8) : Prop :=
  segmentSum (be b (ethLen + 12) 4) (be b (ethLen + 16) 4) (segment b) = 0xffff

instance (b : List UInt8) : Decidable (IpVerified b) := inferInstanceAs (Decidable (_ = _))

instance (b : List UInt8) : Decidable (TcpVerified b) := inferInstanceAs (Decidable (_ = _))

theorem words_protocol (len : ℕ) :
    words [0, 6, .ofNat (len / 256), .ofNat len] = 6 + len % 65536 := by
  have hzero : (0 : UInt8).toNat = 0 := rfl
  have hsix : (6 : UInt8).toNat = 6 := rfl
  rw [words, words, words, hzero, hsix, toNat_ofNat_pair]
  omega

theorem pseudoHeader_pos (src dst len : ℕ) : 0 < pseudoHeader src dst len := by
  have hproto : 0 < carry (6 + len % 65536) := carry_pos (by omega)
  rw [pseudoHeader, combine]
  refine carry_pos ?_
  simp only [sum_cons, sum_nil, data, words_protocol]
  omega

theorem pseudoHeader_mod (src dst len : ℕ) :
    pseudoHeader src dst len % 0xffff =
      (words (addrBytes src) + words (addrBytes dst) + 6 + len % 65536) % 0xffff := by
  have hsrc := carry_mod (words (addrBytes src))
  have hdst := carry_mod (words (addrBytes dst))
  have hlen := carry_mod (6 + len % 65536)
  rw [pseudoHeader, combine, carry_mod]
  simp only [sum_cons, sum_nil, data, words_protocol]
  omega

theorem segmentSum_mod (src dst : ℕ) (seg : List UInt8) :
    segmentSum src dst seg % 0xffff =
      (words (addrBytes src) + words (addrBytes dst) + 6 + seg.length % 65536 + words seg) %
        0xffff := by
  have hpseudo := pseudoHeader_mod src dst seg.length
  have hdata := carry_mod (words seg)
  rw [segmentSum, combine, carry_mod]
  simp only [sum_cons, sum_nil, data]
  omega

theorem segmentSum_eq_top_iff {src dst : ℕ} {seg : List UInt8} :
    segmentSum src dst seg = 0xffff ↔ segmentSum src dst seg % 0xffff = 0 := by
  have hpos := pseudoHeader_pos src dst seg.length
  have hsum : 0 < (sum [pseudoHeader src dst seg.length, data seg]) := by
    rw [sum_cons]
    omega
  rw [segmentSum, combine, carry_mod, carry_eq_top_iff]
  exact and_iff_right hsum

/-! ## A segment with bytes behind it -/

/-- What bytes behind a segment of `n` bytes add to a sum that goes over them too. -/
def beyond (n : ℕ) (rest : List UInt8) : ℕ :=
  words (if n % 2 = 0 then rest else 0 :: rest)

/-- **Filling over more than the segment.**  The checksum over all of a buffer verifies for its
first `n` bytes exactly when the rest, and the length it adds, do not show in the sum. -/
theorem segmentSum_fill_iff (src dst : ℕ) {buf : List UInt8} {n : ℕ} (hn : 18 ≤ n)
    (hlen : n ≤ buf.length) (hn' : n < 65536) :
    segmentSum src dst ((putBe buf 16 2 (0xffff - segmentSum src dst (putBe buf 16 2 0))).take n) =
        0xffff ↔
      (buf.length % 65536 + beyond n (buf.drop n)) % 0xffff = n % 0xffff := by
  set sum := segmentSum src dst (putBe buf 16 2 0) with hsum
  have hle : sum ≤ 0xffff := carry_le _
  have htake : (buf.take n).length = n := length_take_of_le hlen
  have hsplit : words (putBe buf 16 2 0) =
      words (putBe (buf.take n) 16 2 0) + beyond n (buf.drop n) := by
    rw [← take_append_drop n (putBe buf 16 2 0), words_append, take_putBe,
      drop_putBe_of_le _ _ (by omega), length_putBe, htake]
    rfl
  have hfilled : words (putBe (buf.take n) 16 2 (0xffff - sum)) =
      words (putBe (buf.take n) 16 2 0) + (0xffff - sum) := by
    rw [words_putBe _ (by decide) (by omega), Nat.mod_eq_of_lt (by omega)]
  have hall := segmentSum_mod src dst (putBe buf 16 2 0)
  have hseg := segmentSum_mod src dst (putBe (buf.take n) 16 2 (0xffff - sum))
  rw [length_putBe, hsplit, ← hsum] at hall
  rw [length_putBe, htake, hfilled] at hseg
  rw [take_putBe, segmentSum_eq_top_iff, hseg]
  omega

/-! ## Rewritten frames -/

section Rewritten

variable (b : List UInt8) (newSrc newDst newSport newDport : Option ℕ) {ihl : ℕ}

/-- The frame with its new addresses. -/
def addressed : List UInt8 := putOpt (putOpt b (ethLen + 12) 4 newSrc) (ethLen + 16) 4 newDst

/-- … and then with the checksum of its header and its new ports. -/
def ported (ihl : ℕ) : List UInt8 :=
  putOpt (putOpt (fillIpChecksum smoltcp (addressed b newSrc newDst) ihl) (ethLen + ihl) 2 newSport)
    (ethLen + ihl + 2) 2 newDport

@[simp] theorem length_ported :
    (ported b newSrc newDst newSport newDport ihl).length = b.length := by
  simp only [ported, fillIpChecksum, addressed, length_putOpt, length_putBe]

/-- The last step of `rewrite`, seen from the segment. -/
theorem drop_rewritten :
    (rewritten smoltcp b ihl newSrc newDst newSport newDport).drop (ethLen + ihl) =
      let src := be (addressed b newSrc newDst) (ethLen + 12) 4
      let dst := be (addressed b newSrc newDst) (ethLen + 16) 4
      let buf := (ported b newSrc newDst newSport newDport ihl).drop (ethLen + ihl)
      putBe buf 16 2 (0xffff - segmentSum src dst (putBe buf 16 2 0)) := by
  show (fillTcpChecksum smoltcp (ported b newSrc newDst newSport newDport ihl) ihl _ _).drop _ = _
  rw [fillTcpChecksum, drop_putBe _ _ (by omega), drop_putBe _ _ (by omega),
    Nat.add_sub_cancel_left]
  rfl

/-- **The IPv4 checksum of a rewritten frame verifies.** -/
theorem data_rewritten (hihl : 20 ≤ ihl) (hlen : ethLen + ihl ≤ b.length) :
    data (((rewritten smoltcp b ihl newSrc newDst newSport newDport).drop ethLen).take ihl) =
      0xffff := by
  -- the writes after the header's checksum are behind the header
  have hheader : ((rewritten smoltcp b ihl newSrc newDst newSport newDport).drop ethLen).take ihl =
      ((fillIpChecksum smoltcp (addressed b newSrc newDst) ihl).drop ethLen).take ihl := by
    show ((putBe _ _ 2 _).drop ethLen).take ihl = _
    rw [slice_putBe_of_le _ _ (by omega), slice_putOpt_of_le _ _ (by omega),
      slice_putOpt_of_le _ _ (by omega)]
    rfl
  have hfill : ∀ v, ((putBe (addressed b newSrc newDst) (ethLen + 10) 2 v).drop ethLen).take ihl =
      putBe (((addressed b newSrc newDst).drop ethLen).take ihl) 10 2 v := by
    intro v
    rw [drop_putBe _ _ (by omega), Nat.add_sub_cancel_left, take_putBe]
  rw [hheader, fillIpChecksum, hfill]
  rw [hfill]
  refine data_fill (by decide) ?_
  rw [length_take, length_drop, addressed, length_putOpt, length_putOpt]
  omega

/-- **When the TCP checksum of a rewritten frame verifies** for a segment of `n` bytes. -/
theorem segmentSum_rewritten_iff (hihl : 20 ≤ ihl) {n : ℕ} (hn : 18 ≤ n) (hn' : n < 65536)
    (hlen : ethLen + ihl + n ≤ b.length) :
    let b' := rewritten smoltcp b ihl newSrc newDst newSport newDport
    segmentSum (be b' (ethLen + 12) 4) (be b' (ethLen + 16) 4)
        ((b'.drop (ethLen + ihl)).take n) = 0xffff ↔
      ((b.length - (ethLen + ihl)) % 65536 + beyond n (b.drop (ethLen + ihl + n))) % 0xffff =
        n % 0xffff := by
  intro b'
  have haddr : ∀ {i : ℕ}, i + 4 ≤ ethLen + 20 → ethLen + 12 ≤ i →
      be b' i 4 = be (addressed b newSrc newDst) i 4 := by
    intro i hi hi'
    show be (putBe _ _ 2 _) i 4 = _
    rw [be_putBe_disjoint (by omega), be_putOpt_disjoint (by omega), be_putOpt_disjoint (by omega),
      fillIpChecksum, be_putBe_disjoint (by omega)]
    rfl
  have hrest : ((ported b newSrc newDst newSport newDport ihl).drop (ethLen + ihl)).drop n =
      b.drop (ethLen + ihl + n) := by
    rw [drop_drop, ported, drop_putOpt_of_le _ _ (by omega), drop_putOpt_of_le _ _ (by omega),
      fillIpChecksum, drop_putBe_of_le _ _ (by omega), addressed, drop_putOpt_of_le _ _ (by omega),
      drop_putOpt_of_le _ _ (by omega)]
  have hbuf : ((ported b newSrc newDst newSport newDport ihl).drop (ethLen + ihl)).length =
      b.length - (ethLen + ihl) := by
    rw [length_drop, length_ported]
  rw [haddr (by omega) (by omega), haddr (by omega) (by omega), drop_rewritten,
    segmentSum_fill_iff _ _ hn (by omega) hn', hrest, hbuf]

end Rewritten

/-! ## Frames with bytes behind the segment -/

/-- The bytes of a frame behind the IPv4 packet. -/
def trailer (b : List UInt8) : List UInt8 := b.drop (ethLen + totalLen b)

/-- The bytes behind the segment, and the length they add, do not show in a sum that goes over
them. -/
def TrailerNeutral (b : List UInt8) : Prop :=
  let n := totalLen b - headerLen b
  ((n + (trailer b).length) % 65536 + beyond n (trailer b)) % 0xffff = n % 0xffff

instance (b : List UInt8) : Decidable (TrailerNeutral b) := inferInstanceAs (Decidable (_ = _))

section Accepted

variable {b : List UInt8} {t : TcpTuple} (ht : tcpTuple b = some t) (hihl : 20 ≤ headerLen b)
  (newSrc newDst newSport newDport : Option ℕ)

include ht hihl

theorem ipVerified_rewritten :
    IpVerified (rewritten smoltcp b (headerLen b) newSrc newDst newSport newDport) := by
  obtain ⟨-, -, hip, -, -, -⟩ := tcpTuple_eq_some ht
  have hip' := of_decide_eq_true hip
  rw [IpVerified, headerLen_rewritten _ _ _ _ _ _ hihl]
  exact data_rewritten b newSrc newDst newSport newDport hihl (by omega)

theorem tcpVerified_rewritten_iff :
    TcpVerified (rewritten smoltcp b (headerLen b) newSrc newDst newSport newDport) ↔
      TrailerNeutral b := by
  obtain ⟨-, -, hip, -, htcp, -⟩ := tcpTuple_eq_some ht
  have hip' := of_decide_eq_true hip
  have htcp' := of_decide_eq_true htcp
  have htotal : totalLen b < 65536 := be_lt b (ethLen + 2) 2
  have hat : ethLen + headerLen b + (totalLen b - headerLen b) = ethLen + totalLen b := by omega
  have hsize : b.length - (ethLen + headerLen b) =
      totalLen b - headerLen b + (trailer b).length := by
    rw [trailer, length_drop]
    omega
  have hiff := segmentSum_rewritten_iff b newSrc newDst newSport newDport hihl
    (show 18 ≤ totalLen b - headerLen b by omega) (by omega) (by omega)
  rw [hat, hsize] at hiff
  rw [TcpVerified, segment, tcpAt, headerLen_rewritten _ _ _ _ _ _ hihl,
    totalLen_rewritten _ _ _ _ _ _ hihl]
  exact hiff

end Accepted

/-- **When a rewritten frame is valid.**  Every frame that `tcp_tuple` accepts is accepted after a
rewrite, with exactly the tuple asked for and with both checksums right, if and only if its IPv4
header has at least the 20 bytes of its fixed fields and what is behind the segment is neutral. -/
theorem rewrite_valid_iff {sums : Checksums} (hsums : sums.Internet) {b : List UInt8}
    {t : TcpTuple} (ht : tcpTuple b = some t) (newSrc newDst newSport newDport : Option ℕ) :
    (∃ b', rewrite sums b newSrc newDst newSport newDport = some b' ∧
      tcpTuple b' = some
        { t with
          src := (newSrc.map (· % 256 ^ 4)).getD t.src
          dst := (newDst.map (· % 256 ^ 4)).getD t.dst
          sport := (newSport.map (· % 256 ^ 2)).getD t.sport
          dport := (newDport.map (· % 256 ^ 2)).getD t.dport } ∧
      IpVerified b' ∧ TcpVerified b') ↔
    20 ≤ headerLen b ∧ TrailerNeutral b := by
  obtain rfl := hsums.eq_smoltcp
  have haccepted := rewrite_accepted smoltcp ht newSrc newDst newSport newDport
  by_cases hihl : 20 ≤ headerLen b
  · have hip := ipVerified_rewritten ht hihl newSrc newDst newSport newDport
    have htcp := tcpVerified_rewritten_iff ht hihl newSrc newDst newSport newDport
    obtain ⟨b', hb', -, htuple⟩ := tcpTuple_rewrite smoltcp ht hihl newSrc newDst newSport newDport
    rw [if_pos hihl, hb'] at haccepted
    obtain rfl := Option.some.inj haccepted
    rw [← htcp]
    constructor
    · rintro ⟨b'', hb'', -, -, htcp'⟩
      obtain rfl := Option.some.inj (hb'.symm.trans hb'')
      exact ⟨hihl, htcp'⟩
    · rintro ⟨-, htcp'⟩
      exact ⟨_, hb', htuple, hip, htcp'⟩
  · refine ⟨?_, fun h => absurd h.1 hihl⟩
    rintro ⟨b', hb', -⟩
    rw [haccepted, if_neg hihl] at hb'
    cases hb'

/-- A SYN from `10.0.0.2:40000` to `93.184.216.34:80`, with both checksums right. -/
def validSyn : List UInt8 :=
  [2, 0, 0, 0, 0, 1, 2, 0, 0, 0, 0, 2, 8, 0,
    0x45, 0, 0, 40, 0, 0, 0x40, 0, 64, 6, 0xfa, 0xf3, 10, 0, 0, 2, 93, 184, 216, 34,
    0x9c, 0x40, 0, 80, 0, 0, 0, 0, 0, 0, 0, 0, 0x50, 2, 0xfa, 0xf0, 0xd8, 0x84, 0, 0]

/-- What `tcp_tuple` reads in it. -/
def validSynTuple : TcpTuple :=
  { src := 0x0a000002, dst := 0x5db8d822, sport := 40000, dport := 80, syn := true, ack := false }

/-- Rewritten to go to port 40001 of `10.0.0.1`, that frame stays valid. -/
theorem rewrite_valid_iff_syn :
    tcpTuple validSyn = some validSynTuple ∧
      ∃ b', rewrite smoltcp validSyn none (some 0x0a000001) none (some 40001) = some b' ∧
        tcpTuple b' = some { validSynTuple with dst := 0x0a000001, dport := 40001 } ∧
        IpVerified b' ∧ TcpVerified b' :=
  ⟨by decide, (rewrite_valid_iff ⟨fun _ => rfl, fun _ _ _ => rfl⟩
    (show tcpTuple validSyn = some validSynTuple by decide) none (some 0x0a000001) none
    (some 40001)).2 (by decide)⟩

/-- The same frame, padded with zeros to the 60 bytes of the shortest Ethernet frame. -/
def paddedSyn : List UInt8 := validSyn ++ [0, 0, 0, 0, 0, 0]

/-- **A padded frame is valid before the rewrite and not after.**  The checksum that was filled in
is one for a segment of 26 bytes. -/
theorem padded_frame_broken :
    tcpTuple paddedSyn = some validSynTuple ∧ IpVerified paddedSyn ∧ TcpVerified paddedSyn ∧
      ∃ b', rewrite smoltcp paddedSyn none (some 0x0a000001) none (some 40001) = some b' ∧
        tcpTuple b' = some { validSynTuple with dst := 0x0a000001, dport := 40001 } ∧
        IpVerified b' ∧ ¬ TcpVerified b' :=
  ⟨by decide, by decide, by decide, _, rfl, by decide, by decide, by decide⟩

end Amber.Net
