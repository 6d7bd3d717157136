import Amber.Core.VsockKeys

/-!
# Are host ports fresh, and recycled last?

A guest may still have a connection in teardown when its host port could be given out again, so
`alloc_host_port` goes on from where it stopped instead of starting at the bottom of the range.  A
run of the device is followed here by the ports that its searches look at, in order: those found in
use and those returned.

* `runLooks_cyclic` — the ports looked at are the range from its beginning, over and over.
* `host_ports_recycled_last` — every port returned is free and in the range, and none is returned
  again before all the others have been looked at.
-/

namespace Amber.Vsock

open List

/-- What a search does with a port it looks at. -/
inductive Look
  | inUse (port : ℕ)
  | returned (port : ℕ)
  deriving DecidableEq

def Look.port : Look → ℕ
  | inUse port => port
  | returned port => port

namespace VsockDevice

/-- The ports that `alloc_host_port` looks at for a guest port. -/
def looks (d : VsockDevice) (guestPort : ℕ) : List Look :=
  (skipped d.conns guestPort ephemeralPorts d.nextHostPort).map .inUse ++
    [.returned (allocFrom d.conns guestPort ephemeralPorts d.nextHostPort).1]

def acceptLooks : VsockDevice → List (ℕ × ℕ) → List Look
  | _, [] => []
  | d, peer :: peers => d.looks peer.1 ++ acceptLooks (d.accept peer) peers

def stepLooks (d : VsockDevice) : DevStep → List Look
  | .transmit _ _ => []
  | .pump _ peers _ => d.acceptLooks peers
  | .deliver => []

def runLooks : VsockDevice → List DevStep → List Look
  | _, [] => []
  | d, a :: l => d.stepLooks a ++ runLooks (d.step a) l

/-- At every peer that is accepted there are fewer connections than ephemeral ports. -/
def Few (d : VsockDevice) : DevStep → Prop
  | .pump _ peers _ => d.conns.length + peers.length ≤ ephemeralPorts
  | _ => True

/-! ## The cursor -/

variable {d d' : VsockDevice} {n : ℕ}

theorem nextHostPort_update (d : VsockDevice) (i : ℕ) (f : Conn → Conn × List Packet) :
    (d.update i f).nextHostPort = d.nextHostPort := by
  unfold update
  cases d.conns[i]? <;> rfl

theorem nextHostPort_onRequest (d : VsockDevice) (p : GuestPacket) (dial : Option ℕ) :
    (d.onRequest p dial).nextHostPort = d.nextHostPort := by
  cases dial <;> rfl

theorem nextHostPort_transmit (d : VsockDevice) (pkt : List UInt8) (dial : Option ℕ) :
    (d.transmit pkt dial).nextHostPort = d.nextHostPort := by
  rcases transmit_eq d pkt dial with ⟨heq, -⟩ | ⟨p, -, -, -, heq⟩
  · rw [heq]
  · rw [heq, onPacket]
    cases d.find p.srcPort p.dstPort with
    | some i =>
      simp only
      split_ifs
      · rw [nextHostPort_onRequest, nextHostPort_update]
      · rw [nextHostPort_update]
    | none =>
      simp only
      split_ifs
      · rw [nextHostPort_onRequest]
      · rfl
      · rfl

/-- The cursor stays in the range, however many connections there are. -/
theorem nextHostPort_step (a : DevStep) (h : ∃ n, d.nextHostPort = ephemeral n) :
    ∃ n, (d.step a).nextHostPort = ephemeral n := by
  cases a with
  | transmit pkt dial =>
    rw [step, nextHostPort_transmit]
    exact h
  | pump maxPayload peers io =>
    change ∃ n, (peers.foldl accept d).nextHostPort = ephemeral n
    induction peers generalizing d with
    | nil => exact h
    | cons peer peers ih =>
      obtain ⟨n, hn⟩ := h
      refine ih ?_
      change ∃ n, (allocFrom d.conns peer.1 ephemeralPorts d.nextHostPort).2 = ephemeral n
      rw [hn]
      obtain ⟨-, ⟨-, halloc, -⟩ | ⟨-, halloc⟩⟩ := allocFrom_search d.conns peer.1 ephemeralPorts n
      · exact ⟨_, congrArg Prod.snd halloc⟩
      · exact ⟨_, halloc⟩
  | deliver => exact h

/-! ## The ports of a run -/

/-- The looks are at the ports from place `n` of the range on, and the cursor is behind them. -/
structure Advances (n : ℕ) (ls : List Look) (d : VsockDevice) : Prop where
  ports : ls.map Look.port = (List.range' n ls.length).map ephemeral
  cursor : d.nextHostPort = ephemeral (n + ls.length)

theorem Advances.append {ls ls' : List Look} (h : Advances n ls d)
    (h' : Advances (n + ls.length) ls' d') : Advances n (ls ++ ls') d' where
  ports := by
    rw [map_append, h.ports, h'.ports, ← map_append, range'_append_1, length_append]
  cursor := by rw [h'.cursor, length_append, add_assoc]

theorem advances_accept (hlen : d.conns.length < ephemeralPorts)
    (hn : d.nextHostPort = ephemeral n) (peer : ℕ × ℕ) :
    Advances n (d.looks peer.1) (d.accept peer) := by
  obtain ⟨k, hskipped, halloc, -⟩ := alloc_free hlen peer.1 n
  have hlooks : d.looks peer.1 =
      ((range' n k).map ephemeral).map .inUse ++ [.returned (ephemeral (n + k))] := by
    rw [looks, hn, hskipped, halloc]
  have hk : (d.looks peer.1).length = k + 1 := by simp [hlooks]
  refine ⟨?_, ?_⟩
  · rw [hk, range'_1_concat, hlooks]
    simp [Look.port, Function.comp_def]
  · change (allocFrom d.conns peer.1 ephemeralPorts d.nextHostPort).2 = _
    rw [hk, hn, halloc, add_assoc]

theorem advances_acceptAll (peers : List (ℕ × ℕ)) : ∀ {d : VsockDevice} {n : ℕ},
    d.conns.length + peers.length ≤ ephemeralPorts → d.nextHostPort = ephemeral n →
      Advances n (d.acceptLooks peers) (peers.foldl accept d) := by
  induction peers with
  | nil => exact fun _ hn => ⟨rfl, hn⟩
  | cons peer peers ih =>
    intro d n hlen hn
    rw [length_cons] at hlen
    have hone := advances_accept (by omega) hn peer
    have hconns : (d.accept peer).conns.length = d.conns.length + 1 := length_append
    exact hone.append (ih (by omega) hone.cursor)

theorem advances_step {a : DevStep} (hfew : d.Few a) (hn : d.nextHostPort = ephemeral n) :
    Advances n (d.stepLooks a) (d.step a) := by
  cases a with
  | transmit pkt dial => exact ⟨rfl, (nextHostPort_transmit d pkt dial).trans hn⟩
  | pump maxPayload peers io =>
    have hall := advances_acceptAll peers hfew hn
    exact ⟨hall.ports, hall.cursor⟩
  | deliver => exact ⟨rfl, hn⟩

/-- **The ports looked at in a run are the range, over and over.** -/
theorem runLooks_cyclic (l : List DevStep) : ∀ {d : VsockDevice} {n : ℕ},
    Runs.Each step Few d l → d.nextHostPort = ephemeral n →
      Advances n (d.runLooks l) (Runs.run step d l) := by
  induction l with
  | nil => exact fun _ hn => ⟨rfl, hn⟩
  | cons a l ih =>
    intro d n hl hn
    have hone := advances_step hl.1 hn
    exact hone.append (ih hl.2 hone.cursor)

/-- Between two looks at one port there is one at every other. -/
theorem Advances.between {pre mid post : List Look} {look look' : Look}
    (h : Advances n (pre ++ look :: (mid ++ look' :: post)) d) (heq : look.port = look'.port)
    {q : ℕ} (hlo : ephemeralBase ≤ q) (hhi : q < 2 ^ 32) (hq : q ≠ look.port) :
    ∃ l ∈ mid, l.port = q := by
  have hat : ∀ {m : ℕ} {l : Look}, (pre ++ look :: (mid ++ look' :: post))[m]? = some l →
      l.port = ephemeral (n + m) := by
    intro m l hl
    have hm := congrArg (·[m]?) h.ports
    simp only [getElem?_map, hl, Option.map_some] at hm
    rw [List.getElem?_range' (List.getElem?_eq_some_iff.1 hl).1, Option.map_some, one_mul] at hm
    exact Option.some.inj hm
  have hfirst : look.port = ephemeral (n + pre.length) := hat (by simp)
  have hagain : look'.port = ephemeral (n + (pre.length + 1 + mid.length)) :=
    hat (by simp [add_assoc, add_comm 1])
  have hfar : ephemeralPorts ≤ mid.length + 1 := by
    by_contra hnear
    exact ephemeral_ne (by omega) (by omega) (hfirst.symm.trans (heq.trans hagain))
  -- how far behind the first look the port `q` comes
  obtain ⟨y, hy, rfl⟩ := exists_ephemeral hlo hhi
  obtain ⟨t, ht, hty⟩ : ∃ t < ephemeralPorts, ephemeral y = ephemeral (n + pre.length + t) := by
    refine ⟨(y + (ephemeralPorts - (n + pre.length) % ephemeralPorts)) % ephemeralPorts,
      Nat.mod_lt _ (by decide), ?_⟩
    simp only [ephemeral, ephemeralPorts, ephemeralBase] at *
    omega
  cases t with
  | zero => exact absurd (hty.trans hfirst.symm) hq
  | succ t =>
    have hlt : t < mid.length := by omega
    refine ⟨mid[t], getElem_mem hlt, ?_⟩
    rw [hty, hat (m := pre.length + (t + 1)), add_assoc]
    rw [getElem?_append_right (Nat.le_add_right _ _), Nat.add_sub_cancel_left,
      getElem?_cons_succ, getElem?_append_left hlt, getElem?_eq_getElem hlt]

/-- **Host ports are fresh and recycled last.**  In every run the cursor stays in the range, and a
search among fewer connections than ports returns a port of the range that no live connection to
the guest port has, and leaves the cursor in the range.  In a run in which every peer accepted meets
fewer connections than ports, a port is not returned again before every other port of the range has
been returned or found in use. -/
theorem host_ports_recycled_last (guestCid : ℕ) (l : List DevStep) :
    let d := Runs.run step (new guestCid) l
    (ephemeralBase ≤ d.nextHostPort ∧ d.nextHostPort < 2 ^ 32) ∧
    (d.conns.length < 2 ^ 32 - 1024 → ∀ gp,
      let r := allocFrom d.conns gp ephemeralPorts d.nextHostPort
      (ephemeralBase ≤ r.1 ∧ r.1 < 2 ^ 32) ∧ (ephemeralBase ≤ r.2 ∧ r.2 < 2 ^ 32) ∧
        ∀ c ∈ d.conns, c.guestPort = gp → c.hostPort ≠ r.1) ∧
    (Runs.Each step Few (new guestCid) l → ∀ pre mid post p,
      (new guestCid).runLooks l = pre ++ .returned p :: (mid ++ .returned p :: post) →
        ∀ q, ephemeralBase ≤ q → q < 2 ^ 32 → q ≠ p → ∃ look ∈ mid, look.port = q) := by
  intro d
  obtain ⟨n, hn⟩ : ∃ n, d.nextHostPort = ephemeral n :=
    Runs.invariant_always (I := fun d : VsockDevice => ∃ n, d.nextHostPort = ephemeral n)
      (fun _ a h => nextHostPort_step a h) ⟨0, rfl⟩ l
  refine ⟨hn ▸ ephemeral_range n, fun hlen gp => ?_, ?_⟩
  · obtain ⟨k, -, halloc, hfree⟩ := alloc_free hlen gp n
    rw [hn, halloc]
    refine ⟨ephemeral_range _, ephemeral_range _, fun c hc hgp hhp => ?_⟩
    exact any_eq_false.1 hfree c hc (hasKey_iff.2 (Prod.ext hgp hhp))
  · intro hl pre mid post p hlooks q hlo hhi hq
    have h := runLooks_cyclic (n := 0) l hl rfl
    rw [hlooks] at h
    exact h.between rfl hlo hhi hq

/-- Two host peers call a guest that has a connection on the first port of the range. -/
theorem host_ports_recycled_last_callRun :
    let l := callRun ++ [.pump 0 [(40000, 5)] fun _ => ⟨[], []⟩]
    let d := Runs.run step (new 3) l
    (new 3).runLooks l = [.inUse 1024, .returned 1025, .returned 1026] ∧
      (∀ c ∈ d.conns, c.guestPort = 40000 → c.hostPort ≠
        (allocFrom d.conns 40000 ephemeralPorts d.nextHostPort).1) ∧
      ∀ pre mid post p, (new 3).runLooks l = pre ++ .returned p :: (mid ++ .returned p :: post) →
        ∀ q, ephemeralBase ≤ q → q < 2 ^ 32 → q ≠ p → ∃ look ∈ mid, look.port = q := by
  intro l d
  obtain ⟨-, hfresh, hlast⟩ := host_ports_recycled_last 3 l
  refine ⟨by decide, (hfresh (by decide) 40000).2.2, hlast ⟨trivial, ?_, trivial, ?_, trivial⟩⟩
  · change (_ : ℕ) ≤ _
    decide
  · change (_ : ℕ) ≤ _
    decide

end VsockDevice
end Amber.Vsock
