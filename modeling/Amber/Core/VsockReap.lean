import Amber.Core.VsockKeys

/-!
# Is a connection whose host side has failed dropped?

A pump marks a connection `host_done` when a write or a read on its host stream fails or the stream
ends, and drops a connection that is `host_done` once nothing is left in `to_host`.  A write fails
only while something is left.  If the host takes nothing any more, it is left for good.

* `Lingers.step` — with a host that takes nothing, a connection that is done with bytes left
  stays in the table, whatever the guest and the other peers do.
* `never_reaped` — so a connection on which a write fails for good is never dropped.
* `broken_pipe_lingers` — one buffered byte and a broken pipe.
-/

namespace Amber.Vsock

open List Runs

/-! ## One connection -/

namespace Conn

variable {c : Conn} {maxPayload : ℕ} {io : ConnIo}

/-- A write of the drain loop fails for good. -/
def writeFails (c : Conn) : List IoWrite → Bool
  | [] => false
  | w :: ws =>
    if c.toHost = [] then false
    else
      match w with
      | .ok n =>
        if min n c.toHost.length = 0 then false
        else (c.landed (min n c.toHost.length)).writeFails ws
      | .wouldBlock => false
      | .err => true

/-- The host side is done, with bytes left that it did not take. -/
def Stuck (c : Conn) : Prop := c.hostDone = true ∧ c.toHost ≠ []

/-- **A write fails only while something is left**, and marks the connection. -/
theorem drain_of_writeFails (ws : List IoWrite) :
    ∀ c : Conn, c.writeFails ws = true → (c.drain ws).1.Stuck := by
  induction ws with
  | nil => exact fun _ h => absurd h Bool.false_ne_true
  | cons w ws ih =>
    intro c h
    unfold writeFails at h
    unfold drain
    by_cases hempty : c.toHost = []
    · rw [if_pos hempty] at h
      exact absurd h Bool.false_ne_true
    · rw [if_neg hempty] at h ⊢
      cases w with
      | ok n =>
        by_cases hmin : min n c.toHost.length = 0
        · simp only [if_pos hmin] at h
          exact absurd h Bool.false_ne_true
        · simp only [if_neg hmin] at h ⊢
          exact ih _ h
      | wouldBlock => exact absurd h Bool.false_ne_true
      | err => exact ⟨rfl, hempty⟩

/-- Reading from the host does not make it take anything. -/
theorem Stuck.pump_of_drain (h : (c.drain io.writes).1.Stuck) : (c.pump maxPayload io).1.Stuck := by
  unfold Conn.pump
  dsimp only
  split_ifs
  · exact fetch_rule (P := fun c' _ => c'.Stuck) (fun _ _ _ _ _ h => h) io.reads
      (fun _ _ _ h => ⟨rfl, h.2⟩) _ [] h
  · exact h

theorem Stuck.pump (h : c.Stuck) (hw : ∀ w ∈ io.writes, w = .err) :
    (c.pump maxPayload io).1.Stuck := by
  refine Stuck.pump_of_drain ?_
  unfold drain
  split
  · exact h
  · rename_i w ws heq
    obtain rfl := hw w (heq ▸ mem_cons_self)
    rw [if_neg h.2]
    exact ⟨rfl, h.2⟩

theorem Stuck.onPacket (h : c.Stuck) (p : GuestPacket) : ((c.refresh p).onPacket p).1.Stuck := by
  obtain ⟨hdone, hleft⟩ := h
  unfold Conn.onPacket
  split_ifs
  · exact ⟨hdone, hleft⟩
  · exact ⟨rfl, hleft⟩
  · exact ⟨hdone, append_ne_nil_of_left_ne_nil hleft _⟩
  · exact ⟨hdone, hleft⟩
  · exact ⟨hdone, hleft⟩
  · exact ⟨rfl, hleft⟩
  · exact ⟨hdone, hleft⟩

end Conn

/-! ## The table -/

namespace VsockDevice

variable {d : VsockDevice} {k : ℕ} (peers : List (ℕ × ℕ)) {c : Conn} {io : ℕ → ConnIo}

/-- Accepting peers leaves the connections there are in their places. -/
theorem getElem?_acceptAll {i : ℕ} (h : d.conns[i]? = some c) :
    (peers.foldl accept d).conns[i]? = some c := by
  refine invariant_always (I := fun d : VsockDevice => d.conns[i]? = some c) ?_ h peers
  intro d peer h
  show (d.conns ++ [_])[i]? = some c
  rw [List.getElem?_append_left (List.getElem?_eq_some_iff.1 h).1, h]

/-! ## A connection that stays -/

/-- Connection `k` is live, done, and has bytes left. -/
def Lingers (k : ℕ) (d : VsockDevice) : Prop := ∃ c ∈ d.conns, c.id = k ∧ c.Stuck

theorem Lingers.update (h : Lingers k d) (i : ℕ) {f : Conn → Conn × List Packet}
    (hsame : ∀ c : Conn, c.Same (f c).1) (hstuck : ∀ c : Conn, c.Stuck → (f c).1.Stuck) :
    Lingers k (d.update i f) := by
  obtain ⟨c, hc, hid, hs⟩ := h
  unfold VsockDevice.update
  cases hi : d.conns[i]? with
  | none => exact ⟨c, hc, hid, hs⟩
  | some c' =>
    obtain ⟨j, hj⟩ := mem_iff_getElem?.1 hc
    by_cases hij : i = j
    · subst hij
      obtain rfl := Option.some.inj (hi.symm.trans hj)
      refine ⟨(f c').1, ?_, (hsame c').id.trans hid, hstuck c' hs⟩
      exact List.mem_set (List.getElem?_eq_some_iff.1 hi).1 _
    · refine ⟨c, mem_iff_getElem?.2 ⟨j, ?_⟩, hid, hs⟩
      show (d.conns.set i _)[j]? = some c
      rw [getElem?_set_ne hij, hj]

theorem Lingers.onRequest (h : Lingers k d) (p : GuestPacket) (dial : Option ℕ) :
    Lingers k (d.onRequest p dial) := by
  cases dial with
  | none => exact h
  | some fd =>
    obtain ⟨c, hc, hid, hs⟩ := h
    exact ⟨c, mem_append_left _ hc, hid, hs⟩

theorem Lingers.onPacket (h : Lingers k d) (p : GuestPacket) (dial : Option ℕ) :
    Lingers k (d.onPacket p dial) := by
  unfold VsockDevice.onPacket
  cases d.find p.srcPort p.dstPort with
  | some i =>
    dsimp only
    split_ifs
    · exact (h.update i (fun c => c.refresh_same p) fun _ hs => hs).onRequest p dial
    · exact h.update i (fun c => c.onPacket_same p) fun _ hs => hs.onPacket p
  | none =>
    split_ifs
    · exact h.onRequest p dial
    · exact h
    · exact h

/-- Every write on the stream of connection `k` fails. -/
def Failing (k : ℕ) (d : VsockDevice) : DevStep → Prop
  | .pump _ _ io => ∀ i c, d.conns[i]? = some c → c.id = k → ∀ w ∈ (io i).writes, w = .err
  | _ => True

/-- Where connection `i` is after the bytes have been moved. -/
theorem getElem?_pumpConns (d : VsockDevice) (maxPayload : ℕ) (io : ℕ → ConnIo) (i : ℕ) :
    (d.pumpConns maxPayload io).conns[i]? =
      d.conns[i]?.map fun c => (c.pump maxPayload (io i)).1 := by
  show (map Prod.fst (d.conns.mapIdx _))[i]? = _
  rw [getElem?_map, getElem?_mapIdx, Option.map_map]
  rfl

/-- A connection that is done and not dead after its own pump lingers. -/
theorem lingers_pump {i : ℕ} (hi : d.conns[i]? = some c) {maxPayload : ℕ} (peers : List (ℕ × ℕ))
    (hstuck : (c.pump maxPayload (io i)).1.Stuck) :
    Lingers c.id (d.pump maxPayload peers io) := by
  refine ⟨(c.pump maxPayload (io i)).1, mem_filter.2 ⟨?_, ?_⟩,
    (Conn.pump_same maxPayload c (io i)).id, hstuck⟩
  · refine mem_of_getElem? (i := i) ?_
    rw [getElem?_pumpConns, getElem?_acceptAll peers hi]
    rfl
  · rw [Conn.dead, hstuck.1, Bool.true_and, Bool.not_eq_true', isEmpty_eq_false_iff]
    exact hstuck.2

/-- **A stuck connection stays**, in every step in which the host takes nothing from it. -/
theorem Lingers.step (h : Lingers k d) {a : DevStep} (ha : Failing k d a) :
    Lingers k (d.step a) := by
  cases a with
  | transmit pkt dial =>
    rcases transmit_eq d pkt dial with ⟨heq, -⟩ | ⟨p, -, -, -, heq⟩
    · rw [VsockDevice.step, heq]
      exact h
    · rw [VsockDevice.step, heq]
      exact h.onPacket p dial
  | pump maxPayload peers io =>
    obtain ⟨c, hc, hid, hs⟩ := h
    obtain ⟨i, hi⟩ := mem_iff_getElem?.1 hc
    subst hid
    exact lingers_pump hi peers (hs.pump (ha i c hi rfl))
  | deliver => exact h

/-! ## When it goes -/

/-- Connection `c` of `d` is not in the table any more, and of the packets queued for it since then
the last and no other is a SHUTDOWN. -/
structure Reaped (c : Conn) (d d' : VsockDevice) : Prop where
  dropped : ∀ c' ∈ d'.conns, c'.id ≠ c.id
  told : ∃ ps p, packetsOf c.id d'.queued = packetsOf c.id d.queued ++ ps ++ [p] ∧
    p.op = opShutdown ∧ p.guestPort = c.guestPort ∧ p.hostPort = c.hostPort ∧
    ∀ q ∈ ps, q.op ≠ opShutdown

section Later

variable {i : ℕ} {c : Conn} {maxPayload : ℕ} {peers : List (ℕ × ℕ)} {io : ℕ → ConnIo}

theorem Lingers.not_reaped {d' : VsockDevice} (h : Lingers c.id d') : ¬ Reaped c d d' := by
  obtain ⟨c', hc', hid, -⟩ := h
  exact fun hreaped => hreaped.dropped c' hc' hid

/-- **A connection on which a write fails for good is never dropped.**  Whatever the state, the
connection and the pump in which a write on its host stream fails, and whatever the guest, the
other peers and the reads do later: as long as the later writes on it fail too, it is still in the
table, and has not been shut down. -/
theorem never_reaped (hi : d.conns[i]? = some c) (hfails : c.writeFails (io i).writes = true)
    {l : List DevStep}
    (hl : Runs.Each step (Failing c.id) (d.pump maxPayload peers io) l) :
    (∃ c' ∈ (Runs.run step (d.pump maxPayload peers io) l).conns, c'.id = c.id) ∧
      ¬ Reaped c d (Runs.run step (d.pump maxPayload peers io) l) := by
  have hstuck : (c.pump maxPayload (io i)).1.Stuck :=
    .pump_of_drain (Conn.drain_of_writeFails _ c hfails)
  have hlingers := invariant (I := Lingers c.id) (fun _ _ h ha => h.step ha)
    (lingers_pump hi peers hstuck) hl
  refine ⟨?_, hlingers.not_reaped⟩
  obtain ⟨c', hc', hid, -⟩ := hlingers
  exact ⟨c', hc', hid⟩

end Later

/-- A pump in which every host stream turns out to be broken. -/
def brokenPump : DevStep := .pump 4096 [] fun _ => ⟨[.err], []⟩

theorem each_brokenPump (k n : ℕ) (d : VsockDevice) :
    Runs.Each step (Failing k) d ((List.range n).map fun _ => brokenPump) := by
  refine each_iff.2 fun pre a post heq => ?_
  have ha : a ∈ (range n).map fun _ => brokenPump := by
    rw [heq]
    exact mem_append_right _ mem_cons_self
  obtain ⟨-, -, rfl⟩ := mem_map.1 ha
  exact fun _ _ _ _ w hw => mem_singleton.1 hw

/-- A guest has connected and written one byte. -/
def oneByte : VsockDevice :=
  Runs.run step (new 3) [.transmit (VsockSys.guestPkt opRequest []) (some 3),
    .transmit (VsockSys.guestPkt opRw [1]) none]

/-- That connection. -/
def oneByteConn : Conn :=
  { id := 0, guestPort := 40000, hostPort := 1024, stream := .connected 3, peerBufAlloc := 65536,
    peerFwdCnt := 0, txCnt := 0, fwdCnt := 0, toHost := [1], up := true, hostDone := false }

/-- Three broken pumps after the first. -/
theorem never_reaped_oneByte :
    let d := Runs.run step (oneByte.pump 4096 [] fun _ => ⟨[.err], []⟩)
      ((List.range 3).map fun _ => brokenPump)
    (∃ c' ∈ d.conns, c'.id = 0) ∧ ¬ Reaped oneByteConn oneByte d := by
  have hat : oneByte.conns[0]? = some oneByteConn := by decide
  exact never_reaped hat (show oneByteConn.writeFails [.err] = true by decide)
    (each_brokenPump _ 3 _)

/-- **A broken pipe with one byte left.**  The write fails in every pump, and after any number of
them the connection is still there and the guest has not been told. -/
theorem broken_pipe_lingers :
    oneByte.conns = [oneByteConn] ∧ oneByteConn.writeFails [.err] = true ∧
      ∀ n, let d := Runs.run step oneByte (replicate (n + 1) brokenPump)
        d.conns = [{ oneByteConn with hostDone := true }] ∧
          ∀ p ∈ d.queued, p.op ≠ opShutdown := by
  have hfix : (oneByte.step brokenPump).step brokenPump = oneByte.step brokenPump := rfl
  have hrun : ∀ n, Runs.run step (oneByte.step brokenPump) (replicate n brokenPump) =
      oneByte.step brokenPump := by
    intro n
    induction n with
    | zero => rfl
    | succ n ih => rw [replicate_succ, Runs.run_cons, hfix, ih]
  refine ⟨by decide, rfl, fun n => ?_⟩
  rw [replicate_succ, Runs.run_cons, hrun]
  decide

end VsockDevice
end Amber.Vsock
