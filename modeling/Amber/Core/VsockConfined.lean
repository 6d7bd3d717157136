import Amber.Core.VsockKeys
import Amber.Lib.Checked

/-!
# What a guest packet can touch

The guest chooses every byte of a packet it sends, and with its two ports it names the connection
the packet is for.  `on_guest_packet` reads the header at fixed offsets, refreshes the window of
that connection before it looks at the operation, and then acts on the operation.

* `parseChecked_eq` — no read leaves the packet, whatever its length and whatever length it
  states.
* `getElem?_onPacket_iff`, `rx_onPacket`, `onPacket_eq_self` — the connections under other ports
  stay as they are, at most one packet is queued and it goes to the same ports, and for ports that
  are not in the table most operations do nothing.
* `onGuestPacket_confined` — the three together, for every packet and every state.
-/

namespace Amber.Vsock

open LittleEndian List

/-! ## The reads -/

/-- `from_le_bytes(pkt[a..a + n].try_into().unwrap())`. -/
def fieldChecked (pkt : List UInt8) (a n : ℕ) : Except Checked.Fault ℕ :=
  fromLe <$> Checked.slice pkt a (a + n)

/-- The reads of `parse`, with the slices that may be out of range. -/
def parseChecked (pkt : List UInt8) : Except Checked.Fault (Option GuestPacket) :=
  if pkt.length < hdrLen then .ok none
  else do
    let dstCid ← fieldChecked pkt 8 8
    let srcPort ← fieldChecked pkt 16 4
    let dstPort ← fieldChecked pkt 20 4
    let len ← fieldChecked pkt 24 4
    let op ← fieldChecked pkt 30 2
    let alloc ← fieldChecked pkt 36 4
    let fwdCnt ← fieldChecked pkt 40 4
    let payload ← Checked.slice pkt hdrLen (hdrLen + min len (pkt.length - hdrLen))
    return some { dstCid, srcPort, dstPort, op, alloc, fwdCnt, payload }

theorem fieldChecked_eq {pkt : List UInt8} {a n : ℕ} (h : a + n ≤ pkt.length) :
    fieldChecked pkt a n = .ok (field pkt a n) := by
  rw [fieldChecked, Checked.slice_of_le h]
  rfl

/-- **Every read is inside the packet.** -/
theorem parseChecked_eq (pkt : List UInt8) : parseChecked pkt = .ok (parse pkt) := by
  unfold parseChecked parse
  by_cases hlen : pkt.length < hdrLen
  · rw [if_pos hlen, if_pos hlen]
  · rw [if_neg hlen, if_neg hlen]
    have hread : ∀ {a n : ℕ}, a + n ≤ hdrLen → fieldChecked pkt a n = .ok (field pkt a n) :=
      fun h => fieldChecked_eq (h.trans (not_lt.1 hlen))
    have hpayload : hdrLen + min (field pkt 24 4) (pkt.length - hdrLen) ≤ pkt.length := by omega
    rw [hread (by decide), hread (by decide), hread (by decide), hread (by decide),
      hread (by decide), hread (by decide), hread (by decide)]
    simp only [Checked.ok_bind]
    rw [Checked.slice_of_le hpayload]
    rfl

namespace VsockDevice

variable {d : VsockDevice} {p : GuestPacket} {dial : Option ℕ}

/-- `on_guest_packet` with the reads that may panic. -/
def onGuestPacketChecked (d : VsockDevice) (pkt : List UInt8) (dial : Option ℕ) :
    Except Checked.Fault VsockDevice := do
  match ← parseChecked pkt with
  | none => return d
  | some p => if p.dstCid ≠ cidHost then return d else return d.onPacket p dial

/-! ## The other connections -/

theorem getElem?_update_iff {i j : ℕ} {c₀ c : Conn} {gp hp : ℕ} {f : Conn → Conn × List Packet}
    (hi : d.conns[i]? = some c₀) (hkey : c₀.hasKey gp hp = true) (hsame : c₀.Same (f c₀).1)
    (hother : c.hasKey gp hp = false) :
    (d.update i f).conns[j]? = some c ↔ d.conns[j]? = some c := by
  have hconns : (d.update i f).conns = d.conns.set i (f c₀).1 := by
    rw [VsockDevice.update, hi]
    rfl
  have hkey' : (f c₀).1.hasKey gp hp = true := by
    rw [hasKey_iff, hsame.guestPort, hsame.hostPort]
    exact hasKey_iff.1 hkey
  rw [hconns]
  by_cases hij : i = j
  · subst hij
    rw [List.getElem?_set_self (List.getElem?_eq_some_iff.1 hi).1, hi]
    constructor
    · intro h
      rw [Option.some.inj h, hother] at hkey'
      cases hkey'
    · intro h
      rw [Option.some.inj h, hother] at hkey
      cases hkey
  · rw [getElem?_set_ne hij]

theorem getElem?_onRequest_iff {j : ℕ} {c : Conn} (hother : c.hasKey p.srcPort p.dstPort = false) :
    (d.onRequest p dial).conns[j]? = some c ↔ d.conns[j]? = some c := by
  cases dial with
  | none => exact Iff.rfl
  | some fd =>
    show (d.conns ++ [d.dialed p fd])[j]? = some c ↔ _
    by_cases hj : j < d.conns.length
    · rw [getElem?_append_left hj]
    · rw [getElem?_append_right (not_lt.1 hj), getElem?_eq_none (not_lt.1 hj)]
      constructor
      · intro h
        have hc := mem_singleton.1 (mem_of_getElem? h)
        have hkey : (d.dialed p fd).hasKey p.srcPort p.dstPort = true := hasKey_iff.2 rfl
        rw [← hc, hother] at hkey
        cases hkey
      · intro h
        cases h

/-- **Connections under other ports stay as they are**, each in its place, and none is added. -/
theorem getElem?_onPacket_iff {j : ℕ} {c : Conn} (hother : c.hasKey p.srcPort p.dstPort = false) :
    (d.onPacket p dial).conns[j]? = some c ↔ d.conns[j]? = some c := by
  unfold VsockDevice.onPacket
  cases hfind : d.find p.srcPort p.dstPort with
  | some i =>
    obtain ⟨c₀, hi, hkey⟩ := find_eq_some hfind
    dsimp only
    split_ifs
    · rw [getElem?_onRequest_iff hother, getElem?_update_iff hi hkey (c₀.refresh_same p) hother]
    · exact getElem?_update_iff hi hkey (c₀.onPacket_same p) hother
  | none =>
    split_ifs
    · exact getElem?_onRequest_iff hother
    · exact Iff.rfl
    · exact Iff.rfl

/-! ## The answer -/

/-- At most one packet, for these ports. -/
def Answer (gp hp : ℕ) (ps : List Packet) : Prop :=
  ps.length ≤ 1 ∧ ∀ q ∈ ps, (q.guestPort, q.hostPort) = (gp, hp)

theorem answer_nil (gp hp : ℕ) : Answer gp hp [] :=
  ⟨Nat.zero_le 1, nofun⟩

theorem answer_singleton {gp hp : ℕ} {q : Packet} (h : (q.guestPort, q.hostPort) = (gp, hp)) :
    Answer gp hp [q] :=
  ⟨le_refl 1, fun q' hq' => by rw [mem_singleton.1 hq']; exact h⟩

/-- **At most one packet is queued**, addressed to the ports of the packet it answers. -/
theorem rx_onPacket (d : VsockDevice) (p : GuestPacket) (dial : Option ℕ) :
    ∃ ps, (d.onPacket p dial).rx = d.rx ++ ps ∧ Answer p.srcPort p.dstPort ps := by
  obtain ⟨ps, hps, -, hrx⟩ := onPacket_drawn d p dial
  refine ⟨ps, hrx, ?_⟩
  cases hps with
  | nothing => exact answer_nil _ _
  | packet _ hport => exact answer_singleton hport

/-! ## Packets that do nothing -/

/-- For ports that are not in the table only a REQUEST and a CREDIT_REQUEST do something. -/
theorem onPacket_eq_self (hport : (p.srcPort, p.dstPort) ∉ d.ports) (hrequest : p.op ≠ opRequest)
    (hcredit : p.op ≠ opCreditRequest) : d.onPacket p dial = d := by
  rw [VsockDevice.onPacket, find_eq_none_iff.2 hport]
  rw [if_neg hrequest, if_neg hcredit]

/-- The ports in a header: those of the connection the packet is for. -/
def packetPorts (pkt : List UInt8) : ℕ × ℕ := (field pkt 16 4, field pkt 20 4)

/-- The operation in a header. -/
def packetOp (pkt : List UInt8) : ℕ := field pkt 30 2

/-- The packets that are to be ignored: too short, for another CID, or with an operation other
than the two that may open a connection or be answered without one, for ports that are not in
the table. -/
def Ignored (d : VsockDevice) (pkt : List UInt8) : Prop :=
  pkt.length < hdrLen ∨ field pkt 8 8 ≠ cidHost ∨
    packetPorts pkt ∉ d.ports ∧ packetOp pkt ≠ opRequest ∧ packetOp pkt ≠ opCreditRequest

/-- **A guest packet affects its own connection only.**  For every state of the device, every byte
string and whatever dialling gives: no read leaves the packet; the connections under ports other
than the packet's are the same before and after, each in its place; at most one packet is queued,
for the packet's ports; and a packet that is to be ignored leaves the whole state as it is. -/
theorem onGuestPacket_confined (d : VsockDevice) (pkt : List UInt8) (dial : Option ℕ) :
    d.onGuestPacketChecked pkt dial = .ok (d.onGuestPacket pkt dial) ∧
      (∀ (i : ℕ) (c : Conn), (c.guestPort, c.hostPort) ≠ packetPorts pkt →
        ((d.onGuestPacket pkt dial).conns[i]? = some c ↔ d.conns[i]? = some c)) ∧
      (∃ ps, (d.onGuestPacket pkt dial).rx = d.rx ++ ps ∧
        Answer (packetPorts pkt).1 (packetPorts pkt).2 ps) ∧
      (d.Ignored pkt → d.onGuestPacket pkt dial = d) := by
  have hchecked : d.onGuestPacketChecked pkt dial = .ok (d.onGuestPacket pkt dial) := by
    rw [onGuestPacketChecked, parseChecked_eq, Checked.ok_bind, onGuestPacket]
    cases parse pkt with
    | none => rfl
    | some p =>
      dsimp only
      split_ifs <;> rfl
  refine ⟨hchecked, ?_⟩
  have hself : (∀ (i : ℕ) (c : Conn), (c.guestPort, c.hostPort) ≠ packetPorts pkt →
      (d.conns[i]? = some c ↔ d.conns[i]? = some c)) ∧
      (∃ ps, d.rx = d.rx ++ ps ∧ Answer (packetPorts pkt).1 (packetPorts pkt).2 ps) ∧
      (d.Ignored pkt → d = d) :=
    ⟨fun _ _ _ => Iff.rfl, ⟨[], (append_nil _).symm, answer_nil _ _⟩, fun _ => rfl⟩
  unfold onGuestPacket parse
  by_cases hlen : pkt.length < hdrLen
  · rw [if_pos hlen]
    exact hself
  · rw [if_neg hlen]
    dsimp only
    by_cases hcid : field pkt 8 8 = cidHost
    · rw [if_neg (not_not.2 hcid)]
      refine ⟨fun i c hother => getElem?_onPacket_iff ?_, rx_onPacket d _ dial, ?_⟩
      · rw [Bool.eq_false_iff, Ne, hasKey_iff]
        exact hother
      · rintro (hshort | hfor | ⟨hport, hrequest, hcredit⟩)
        · exact absurd hshort hlen
        · exact absurd hcid hfor
        · exact onPacket_eq_self hport hrequest hcredit
    · rw [if_pos hcid]
      exact hself

end VsockDevice
end Amber.Vsock
