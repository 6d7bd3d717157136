import Amber.Core.VsockRun

/-!
# Credit towards the guest

The device sends what it reads from the host stream, as far as the guest's
window allows; the window is computed from two 32-bit counters that wrap.  `CreditOk` relates
the wrapped counters to the true counts.

* `run_credit` — with a guest that reports what it has consumed, the RW packets of a
  connection carry exactly the bytes read from its host stream, and no RW takes the bytes in
  flight over the window last advertised.
-/

namespace Amber.Vsock

open VsockDevice WrapCounter List

/-! ## RW payloads -/

/-- The payload bytes of the RW packets. -/
def rwBytes (ps : List Packet) : List UInt8 :=
  (ps.filter fun p => p.op == opRw).flatMap (·.payload)

theorem rwBytes_append (ps qs : List Packet) : rwBytes (ps ++ qs) = rwBytes ps ++ rwBytes qs := by
  rw [rwBytes, filter_append, flatMap_append, ← rwBytes, ← rwBytes]

theorem rwBytes_concat_other (ps : List Packet) {p : Packet} (h : p.op ≠ opRw) :
    rwBytes (ps ++ [p]) = rwBytes ps := by
  have hnone : rwBytes [p] = [] := by
    rw [rwBytes, filter_cons_of_neg (by simpa using h)]
    rfl
  rw [rwBytes_append, hnone, append_nil]

theorem rwBytes_concat_rw {ps : List Packet} {p : Packet} (h : p.op = opRw) :
    rwBytes (ps ++ [p]) = rwBytes ps ++ p.payload := by
  have hone : rwBytes [p] = p.payload := by
    rw [rwBytes, filter_cons_of_pos (by simpa using h)]
    simp
  rw [rwBytes_append, hone]

/-- Of the packets queued after the first `n`, each RW leaves at most `bound` bytes sent. -/
def RwWithin (bound n : ℕ) (ps : List Packet) : Prop :=
  ∀ qs p, qs ++ [p] <+: ps → n ≤ qs.length → p.op = opRw → (rwBytes (qs ++ [p])).length ≤ bound

theorem rwWithin_start (bound : ℕ) (ps : List Packet) : RwWithin bound ps.length ps := by
  intro qs p hpre hn
  have := hpre.length_le
  rw [length_append, length_singleton] at this
  omega

theorem RwWithin.concat {bound n : ℕ} {ps : List Packet} {q : Packet} (h : RwWithin bound n ps)
    (hq : q.op = opRw → (rwBytes (ps ++ [q])).length ≤ bound) : RwWithin bound n (ps ++ [q]) := by
  intro qs p hpre hn hop
  rcases prefix_concat_iff.1 hpre with heq | hpre
  · obtain ⟨rfl, hpq⟩ := append_inj' heq rfl
    obtain rfl := singleton_inj.1 hpq
    exact hq hop
  · exact h qs p hpre hn hop

/-! ## From the host to the guest -/

/-- The device's counters of a connection against the true counts. -/
structure CreditOk (b : Ledger) (c : Conn) (ps : List Packet) : Prop where
  bytes : rwBytes ps = c.stream.taken
  tx : c.txCnt = c.stream.taken.length % 2 ^ 32
  fwd : c.peerFwdCnt = b.consumed % 2 ^ 32
  alloc : c.peerBufAlloc = b.advertised
  alloc_lt : b.advertised < 2 ^ 32
  consumed_le : b.consumed ≤ c.stream.taken.length
  inFlight_lt : c.stream.taken.length < b.consumed + 2 ^ 32

namespace CreditOk

variable {b b' : Ledger} {c : Conn} {ps : List Packet}

variable (h : CreditOk b c ps)

include h

theorem guestWindow :
    c.guestWindow = b.advertised - (c.stream.taken.length - b.consumed) := by
  rw [Conn.guestWindow, h.tx, h.fwd, h.alloc, wsub_mod_mod h.consumed_le h.inFlight_lt]

/-- A packet without payload bytes. -/
theorem concat_other {q : Packet} (hq : q.op ≠ opRw) :
    CreditOk b c (ps ++ [q]) :=
  { h with bytes := (rwBytes_concat_other ps hq).trans h.bytes }

/-- An RW within the window leaves no more in flight than was advertised. -/
theorem took {got : List UInt8} (hne : got ≠ [])
    (hgot : got.length ≤ c.guestWindow) :
    CreditOk b (c.took got) (ps ++ [c.packet opRw c.fwdCnt got]) ∧
      (rwBytes (ps ++ [c.packet opRw c.fwdCnt got])).length ≤ b.consumed + b.advertised := by
  have hpos : 0 < got.length := length_pos_of_ne_nil hne
  have hwin := h.guestWindow
  have hle := h.consumed_le
  have halloc := h.alloc_lt
  have hbytes : rwBytes (ps ++ [c.packet opRw c.fwdCnt got]) = c.stream.taken ++ got := by
    rw [rwBytes_concat_rw rfl, h.bytes]
    rfl
  have hlen : (c.stream.taken ++ got).length = c.stream.taken.length + got.length :=
    length_append
  refine ⟨⟨hbytes, ?_, h.fwd, h.alloc, h.alloc_lt, ?_, ?_⟩, ?_⟩
  · change (c.txCnt + got.length) % 2 ^ 32 = (c.stream.taken ++ got).length % 2 ^ 32
    rw [h.tx, Nat.mod_add_mod, hlen]
  · change b.consumed ≤ (c.stream.taken ++ got).length
    omega
  · change (c.stream.taken ++ got).length < b.consumed + 2 ^ 32
    omega
  · rw [hbytes]
    omega

/-- A report: the guest has consumed `n` bytes and advertises a new window. -/
theorem report {p : GuestPacket} {n : ℕ} (hfwd : p.fwdCnt = n % 2 ^ 32)
    (hold : b.consumed ≤ n) (hn : n ≤ c.stream.taken.length) (halloc : p.alloc < 2 ^ 32)
    (hcons : b'.consumed = n) (hadv : b'.advertised = p.alloc) :
    CreditOk b' (c.refresh p) ps where
  bytes := h.bytes
  tx := h.tx
  fwd := by rw [hcons]; exact hfwd
  alloc := hadv.symm
  alloc_lt := by rw [hadv]; exact halloc
  consumed_le := by rw [hcons]; exact hn
  inFlight_lt := by
    have := h.inFlight_lt
    rw [hcons]
    change c.stream.taken.length < n + 2 ^ 32
    omega

/-- Only the report and the window matter to the counters. -/
theorem congr (hcons : b'.consumed = b.consumed)
    (hadv : b'.advertised = b.advertised) : CreditOk b' c ps := by
  obtain ⟨h1, h2, h3, h4, h5, h6, h7⟩ := h
  rw [← hcons] at h3 h6 h7
  rw [← hadv] at h4 h5
  exact ⟨h1, h2, h3, h4, h5, h6, h7⟩

/-- Flags and buffered bytes do not matter to the counters. -/
theorem of_counters {c' : Conn} (hstream : c'.stream.taken = c.stream.taken)
    (htx : c'.txCnt = c.txCnt) (hfwd : c'.peerFwdCnt = c.peerFwdCnt)
    (halloc : c'.peerBufAlloc = c.peerBufAlloc) : CreditOk b c' ps := by
  obtain ⟨h1, h2, h3, h4, h5, h6, h7⟩ := h
  rw [← hstream] at h1 h2 h6 h7
  exact ⟨h1, htx.trans h2, hfwd.trans h3, halloc.trans h4, h5, h6, h7⟩

end CreditOk

namespace VsockSys

variable {k : ℕ} {s : VsockSys}

/-- The guest reports what it has really consumed of connection `k`: at least what it
reported before, at most what it was sent, and nothing when it opens the connection. -/
def Truthful (k : ℕ) (s : VsockSys) : VsockStep → Prop
  | .transmit pkt _ n => ∀ h, parse pkt = some h → h.dstCid = cidHost → seen pkt = true →
      (s.dev.touches k h = true → h.fwdCnt = n % 2 ^ 32 ∧ s.ledger.consumed ≤ n ∧
        n ≤ (rwBytes (packetsOf k s.dev.queued)).length) ∧
      (h.op = opRequest → s.dev.opened = k → h.fwdCnt = 0)
  | _ => True

/-- The counters are right, and since `n` packets ago every RW stayed within the window. -/
def CreditSince (n : ℕ) (b : Ledger) (c : Conn) (ps : List Packet) : Prop :=
  CreditOk b c ps ∧ RwWithin (b.consumed + b.advertised) n ps

/-- A connection that has only been announced. -/
theorem creditSince_fresh (n : ℕ) {b : Ledger} {c : Conn} {q : Packet} (hq : q.op ≠ opRw)
    (htaken : c.stream.taken = []) (htx : c.txCnt = 0) (hfwd : c.peerFwdCnt = 0)
    (hcons : b.consumed = 0) (halloc : c.peerBufAlloc = b.advertised)
    (hlt : b.advertised < 2 ^ 32) : CreditSince n b c [q] := by
  refine ⟨⟨?_, ?_, ?_, halloc, hlt, ?_, ?_⟩, ?_⟩
  · rw [htaken]
    exact rwBytes_concat_other [] hq
  · rw [htx, htaken, length_nil, Nat.zero_mod]
  · rw [hfwd, hcons, Nat.zero_mod]
  · rw [hcons]
    exact Nat.zero_le _
  · rw [htaken, length_nil, hcons, zero_add]
    exact Nat.two_pow_pos 32
  · have hnone : RwWithin (b.consumed + b.advertised) n [] := fun _ _ hpre => absurd hpre (by simp)
    exact hnone.concat fun hop => absurd hop hq

theorem step_credit (a : VsockStep) (hbase : s.Base k)
    (h : s.dev.Holds k (CreditOk s.ledger)) (hl : s.Legal k a) (ht : s.Truthful k a) :
    (s.step k a).dev.Holds k
      (CreditSince (packetsOf k s.dev.queued).length (s.step k a).ledger) := by
  have hstart : ∀ b, s.dev.Holds k (CreditOk b) →
      s.dev.Holds k (CreditSince (packetsOf k s.dev.queued).length b) :=
    fun b hb c hc hid => ⟨hb c hc hid, rwWithin_start _ _⟩
  have hother : ∀ {n b c ps} {q : Packet}, q.op ≠ opRw → CreditSince n b c ps →
      CreditSince n b c (ps ++ [q]) := by
    intro n b c ps q hq hc
    exact ⟨hc.1.concat_other hq, hc.2.concat fun hop => absurd hop hq⟩
  cases a with
  | transmit pkt dial n =>
    refine holds_transmit (J := CreditSince (packetsOf k s.dev.queued).length)
      (I := fun b c ps => CreditOk b c ps ∧ ps = packetsOf k s.dev.queued) hbase
      (fun c hc hid => ⟨h c hc hid, rfl⟩) hl ?kept ?dropped ?taken ?dialed
    case kept =>
      rintro c ps ⟨hc, rfl⟩
      exact ⟨hc, rwWithin_start _ _⟩
    case dropped =>
      rintro p - - hseen - c ps ⟨hc, rfl⟩
      refine ⟨hc.congr ?_ ?_, rwWithin_start _ _⟩ <;> simp [Ledger.note, hseen]
    case taken =>
      rintro p hp hcid hseen htouch c - - ps ⟨hok, rfl⟩
      obtain ⟨hfwd, hold, hn⟩ := (ht p hp hcid hseen).1 htouch
      have hrep : CreditOk (s.ledger.note (s.heard k) pkt p n) (c.refresh p)
          (packetsOf k s.dev.queued) :=
        hok.report hfwd hold (hok.bytes ▸ hn) (parse_alloc_lt hp) (by simp [Ledger.note, hseen])
          (by simp [Ledger.note, hseen])
      have hcred : ∀ {c' : Conn}, c'.stream = c.stream → c'.txCnt = c.txCnt →
          c'.peerFwdCnt = p.fwdCnt → c'.peerBufAlloc = p.alloc →
          CreditSince (packetsOf k s.dev.queued).length
            (s.ledger.note (s.heard k) pkt p n) c' (packetsOf k s.dev.queued) :=
        fun h1 h2 h3 h4 => ⟨hrep.of_counters (congrArg _ h1) h2 h3 h4, rwWithin_start _ _⟩
      rcases c.onPacket_cases p with ⟨-, -, heq⟩ | ⟨-, -, heq⟩ |
        ⟨-, up, hostDone, qs, rfl | rfl, heq⟩
      · rw [heq, append_nil]
        exact hcred rfl rfl rfl rfl
      · rw [heq]
        exact hother (show opRst ≠ opRw by decide) (hcred rfl rfl rfl rfl)
      · rw [heq, append_nil]
        exact hcred rfl rfl rfl rfl
      · rw [heq]
        exact hother (show opCreditUpdate ≠ opRw by decide) (hcred rfl rfl rfl rfl)
    case dialed =>
      intro p fd hp hcid hseen hop hk
      rw [hbase.blank hk.le]
      exact creditSince_fresh _ (show opResponse ≠ opRw by decide) rfl rfl
        ((ht p hp hcid hseen).2 hop hk) rfl rfl (parse_alloc_lt hp)
  | pump maxPayload peers io =>
    refine (hstart _ h).pump hbase.dev hl ?_ ?_
      fun c ps _ hc => hother (show opShutdown ≠ opRw by decide) hc
    · rintro hk c - ⟨gp, hp, fd, d, rfl⟩
      rw [hbase.blank hk]
      exact creditSince_fresh _ (show opRequest ≠ opRw by decide) rfl rfl rfl rfl rfl
        (Nat.two_pow_pos 32)
    · intro c ps io _ hc
      refine Conn.pump_rule (P := CreditSince (packetsOf k s.dev.queued).length s.ledger)
        ?_ (fun _ _ => hother (show opCreditUpdate ≠ opRw by decide)) ?_ ?_ ps io hc
      · exact fun c ps n _ _ hc => ⟨hc.1.of_counters rfl rfl rfl rfl, hc.2⟩
      · intro c ps got hne hgot hc
        obtain ⟨hok, hbound⟩ := hc.1.took hne (hgot.trans (min_le_left ..))
        exact ⟨hok, hc.2.concat fun _ => hbound⟩
      · exact fun c ps hc => ⟨hc.1.of_counters rfl rfl rfl rfl, hc.2⟩
  | deliver | receive => exact hstart _ h

/-- Connection `k` is there once it has been opened. -/
theorem exists_conn (hbase : s.Base k) (hk : k < s.dev.opened) : ∃ c ∈ s.dev.everyConn, c.id = k :=
  mem_map.1 (hbase.dev.ids.mem_iff.2 (mem_range.2 hk))

/-- **Host bytes reach the guest in order and within its window.**  In every state of a run
with a truthful guest the RW packets queued for a connection carry what was read from its host
stream, and the RWs the next step queues leave no more unreported than the guest advertised. -/
theorem run_credit (k guestCid : ℕ) (l : List VsockStep)
    (hl : Runs.Each (step k) (fun s a => s.Legal k a ∧ s.Truthful k a) (start guestCid) l) :
    let s := Runs.run (step k) (start guestCid) l
    (∀ c ∈ s.dev.everyConn, c.id = k → rwBytes (packetsOf k s.dev.queued) = c.stream.taken) ∧
    ∀ a, s.Legal k a → s.Truthful k a →
      RwWithin ((s.step k a).ledger.consumed + (s.step k a).ledger.advertised)
        (packetsOf k s.dev.queued).length (packetsOf k (s.step k a).dev.queued) := by
  have hinv := Runs.invariant
    (I := fun s : VsockSys => s.Base k ∧ s.dev.Holds k (CreditOk s.ledger))
    (fun s a hs ha => ⟨step_base a hs.1 ha.1,
      (step_credit a hs.1 hs.2 ha.1 ha.2).imp fun _ _ hc => hc.1⟩)
    ⟨start_base k guestCid, nofun⟩ hl
  obtain ⟨hbase, hok⟩ := hinv
  refine ⟨fun c hc hid => (hok c hc hid).bytes, fun a hlegal htrue => ?_⟩
  have hbase' := step_base a hbase hlegal
  by_cases hk : k < ((Runs.run (step k) (start guestCid) l).step k a).dev.opened
  · obtain ⟨c, hc, hid⟩ := exists_conn hbase' hk
    exact (step_credit a hbase hok hlegal htrue c hc hid).2
  · rw [hbase'.dev.packetsOf_opened (not_lt.1 hk)]
    intro qs p hpre
    exact absurd hpre (by simp)

/-- The connection is opened and one byte is read from its stream. -/
theorem run_credit_oneByte :
    let l : List VsockStep := [.transmit (guestPkt opRequest []) (some 3) 0,
      .pump 100 [] fun _ => ⟨[], [.ok [5]]⟩]
    let s := Runs.run (step 0) (start 3) l
    rwBytes (packetsOf 0 s.dev.queued) = [5] ∧
    (∀ c ∈ s.dev.everyConn, c.id = 0 → rwBytes (packetsOf 0 s.dev.queued) = c.stream.taken) ∧
    ∀ a, s.Legal 0 a → s.Truthful 0 a →
      RwWithin ((s.step 0 a).ledger.consumed + (s.step 0 a).ledger.advertised)
        (packetsOf 0 s.dev.queued).length (packetsOf 0 (s.step 0 a).dev.queued) := by
  refine ⟨by decide, run_credit 0 3 _ ⟨⟨opened0_legal, ?_⟩, ⟨⟨nodup_nil, ?_⟩, trivial⟩, trivial⟩⟩
  · intro h hp _ _
    obtain rfl := Option.some.inj hp
    exact ⟨fun ht => absurd ht (by simp [touches, start, VsockDevice.new]), fun _ _ => rfl⟩
  · exact fun peer hp => absurd hp not_mem_nil

end VsockSys
end Amber.Vsock
