import Amber.Lib.LittleEndian

/-!
# virtio-vsock packets

The 44-byte packet header of `amber-core/src/vsock.rs`, as the device writes it (`send`) and
as it reads a packet the guest sent (`on_guest_packet`).

* `parse_frame` — reading back a packet that was laid out with the header's own length gives
  every field and the whole payload.
-/

namespace Amber.Vsock

open LittleEndian

def hdrLen : ℕ := 44
def typeStream : ℕ := 1
def cidHost : ℕ := 2

/-- Bottom of the host ephemeral port range. -/
def ephemeralBase : ℕ := 1024

def opRequest : ℕ := 1
def opResponse : ℕ := 2
def opRst : ℕ := 3
def opShutdown : ℕ := 4
def opRw : ℕ := 5
def opCreditUpdate : ℕ := 6
def opCreditRequest : ℕ := 7

/-- The receive window advertised for every connection. -/
def bufAlloc : ℕ := 256 * 1024

/-- The largest packet reassembled from a chain. -/
def maxPacket : ℕ := hdrLen + bufAlloc

/-- The header, field by field; type and flags are always those of a plain stream. -/
def header (srcCid dstCid srcPort dstPort len op alloc fwdCnt : ℕ) : List (ℕ × ℕ) :=
  [(8, srcCid), (8, dstCid), (4, srcPort), (4, dstPort), (4, len), (2, typeStream), (2, op),
    (4, 0), (4, alloc), (4, fwdCnt)]

/-- A packet on the wire. -/
def frame (srcCid dstCid srcPort dstPort op alloc fwdCnt : ℕ) (payload : List UInt8) :
    List UInt8 :=
  record (header srcCid dstCid srcPort dstPort payload.length op alloc fwdCnt) ++ payload

/-- What the device reads from a guest packet. -/
structure GuestPacket where
  dstCid : ℕ
  srcPort : ℕ
  dstPort : ℕ
  op : ℕ
  alloc : ℕ
  fwdCnt : ℕ
  payload : List UInt8
  deriving DecidableEq

/-- The reads at the top of `on_guest_packet`: a short packet is ignored, and the payload is
cut to what is really there. -/
def parse (pkt : List UInt8) : Option GuestPacket :=
  if pkt.length < hdrLen then none
  else
    some
      { dstCid := field pkt 8 8
        srcPort := field pkt 16 4
        dstPort := field pkt 20 4
        op := field pkt 30 2
        alloc := field pkt 36 4
        fwdCnt := field pkt 40 4
        payload := (pkt.drop hdrLen).take (min (field pkt 24 4) (pkt.length - hdrLen)) }

theorem parse_alloc_lt {pkt : List UInt8} {h : GuestPacket} (hp : parse pkt = some h) :
    h.alloc < 2 ^ 32 := by
  unfold parse at hp
  split at hp
  · cases hp
  · cases hp
    exact field_lt pkt 36 4

theorem length_frame (srcCid dstCid srcPort dstPort op alloc fwdCnt : ℕ) (payload : List UInt8) :
    (frame srcCid dstCid srcPort dstPort op alloc fwdCnt payload).length =
      hdrLen + payload.length := by
  rw [frame, List.length_append, length_record]
  rfl

/-- Reading a framed packet gives back its fields, cut to their widths, and its payload. -/
theorem parse_frame (srcCid dstCid srcPort dstPort op alloc fwdCnt : ℕ) {payload : List UInt8}
    (hlen : payload.length < 2 ^ 32) :
    parse (frame srcCid dstCid srcPort dstPort op alloc fwdCnt payload) =
      some
        { dstCid := dstCid % 2 ^ 64
          srcPort := srcPort % 2 ^ 32
          dstPort := dstPort % 2 ^ 32
          op := op % 2 ^ 16
          alloc := alloc % 2 ^ 32
          fwdCnt := fwdCnt % 2 ^ 32
          payload } := by
  set pkt := frame srcCid dstCid srcPort dstPort op alloc fwdCnt payload with hpkt
  -- every field sits behind the fields before it
  have hat : ∀ pre n v post, header srcCid dstCid srcPort dstPort payload.length op alloc fwdCnt =
      pre ++ (n, v) :: post → field pkt (width pre) n = v % 256 ^ n := by
    intro pre n v post h
    rw [hpkt, frame, h]
    exact field_record pre n v post payload
  have hl : pkt.length = hdrLen + payload.length := length_frame ..
  have hpay : pkt.drop hdrLen = payload := List.drop_left' (length_record _)
  have hcid := hat [(8, srcCid)] 8 dstCid _ rfl
  have hsrc := hat [(8, srcCid), (8, dstCid)] 4 srcPort _ rfl
  have hdst := hat [(8, srcCid), (8, dstCid), (4, srcPort)] 4 dstPort _ rfl
  have hplen := hat [(8, srcCid), (8, dstCid), (4, srcPort), (4, dstPort)] 4 payload.length _ rfl
  have hop := hat [(8, srcCid), (8, dstCid), (4, srcPort), (4, dstPort), (4, payload.length),
    (2, typeStream)] 2 op _ rfl
  have halloc := hat [(8, srcCid), (8, dstCid), (4, srcPort), (4, dstPort), (4, payload.length),
    (2, typeStream), (2, op), (4, 0)] 4 alloc _ rfl
  have hfwd := hat [(8, srcCid), (8, dstCid), (4, srcPort), (4, dstPort), (4, payload.length),
    (2, typeStream), (2, op), (4, 0), (4, alloc)] 4 fwdCnt _ rfl
  norm_num [width] at hcid hsrc hdst hplen hop halloc hfwd
  rw [Nat.mod_eq_of_lt (by omega)] at hplen
  rw [parse, if_neg (by omega)]
  simp only [hpay, hplen, hl, hcid, hsrc, hdst, hop, halloc, hfwd, Nat.add_sub_cancel_left,
    Nat.min_self, List.take_length]
  norm_num

end Amber.Vsock
