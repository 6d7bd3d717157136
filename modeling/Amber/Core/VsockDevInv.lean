import Mathlib.Data.List.Range
import Amber.Core.HostPorts

/-!
# The vsock device invariant

`DevInv`: connections are numbered in the order of opening, open sockets have distinct
descriptors, and the ephemeral port counter is in range.  Every step keeps it.

* `drain_rule`, `fetch_rule`, `pump_rule` — the rules for the two loops of a pump, from what one
  round does.
* `alloc_unused` — with a descriptor a non-negative C `int` there are too few connections to run
  out of ephemeral ports, so a port allocated for a host peer is never in use.
* `DevInv.pump`, `DevInv.onPacket` — the two kinds of steps.
* `every_transmit`, `every_pump` — the rules for a property of every single connection.
-/

namespace Amber.Vsock

open WrapCounter List

/-! ## Packets of one connection -/

/-- The packets that belong to connection `k`. -/
def packetsOf (k : ℕ) (ps : List Packet) : List Packet := ps.filter fun p => p.conn == some k

variable {k : ℕ} {ps qs : List Packet}

theorem packetsOf_append : packetsOf k (ps ++ qs) = packetsOf k ps ++ packetsOf k qs :=
  filter_append ..

theorem packetsOf_tagged (h : ∀ p ∈ ps, p.conn = some k) : packetsOf k ps = ps :=
  filter_eq_self.2 fun p hp => by rw [h p hp]; exact beq_self_eq_true _

theorem packetsOf_eq_nil (h : ∀ p ∈ ps, p.conn ≠ some k) : packetsOf k ps = [] :=
  filter_eq_nil_iff.2 fun p hp => by simpa using h p hp

/-! ## The two loops of a pump -/

namespace Conn

/-- The drain loop lands bytes, and finds the host side finished at an error only. -/
theorem drain_rule {P : Conn → Prop}
    (hland : ∀ c n, 0 < n → n ≤ c.toHost.length → P c → P (c.landed n))
    (ws : List IoWrite) (hdone : .err ∈ ws → ∀ c, P c → P c.done) :
    ∀ c, P c → P (c.drain ws).1 := by
  induction ws with
  | nil => exact fun c h => h
  | cons w ws ih =>
    intro c h
    unfold drain
    split_ifs with hempty
    · exact h
    · cases w with
      | ok n =>
        simp only
        split_ifs with hzero
        · exact h
        · exact ih (fun he => hdone (mem_cons_of_mem _ he)) _
            (hland c _ (Nat.pos_of_ne_zero hzero) (min_le_right _ _) h)
      | wouldBlock => exact h
      | err => exact hdone mem_cons_self c h

/-- The fetch loop sends RW packets within the window and the payload limit, and finds the host
side finished at an error or an end of file only. -/
theorem fetch_rule {P : Conn → List Packet → Prop} {maxPayload : ℕ}
    (htook : ∀ c ps got, got ≠ [] → got.length ≤ min c.guestWindow maxPayload → P c ps →
      P (c.took got) (ps ++ [c.packet opRw c.fwdCnt got]))
    (rs : List IoRead) (hdone : .err ∈ rs ∨ .ok [] ∈ rs → ∀ c ps, P c ps → P c.done ps) :
    ∀ c ps, P c ps → P (c.fetch maxPayload rs).1 (ps ++ (c.fetch maxPayload rs).2) := by
  induction rs with
  | nil =>
    intro c ps h
    rw [fetch, append_nil]
    exact h
  | cons r rs ih =>
    intro c ps h
    unfold fetch
    simp only
    split_ifs with hzero
    · rw [append_nil]
      exact h
    · cases r with
      | ok bs =>
        simp only
        split_ifs with hgot
        · obtain rfl := (take_eq_nil_iff.1 hgot).resolve_left hzero
          rw [append_nil]
          exact hdone (.inr mem_cons_self) c ps h
        · have hnext := ih (fun he => hdone (he.imp (mem_cons_of_mem _) (mem_cons_of_mem _))) _ _
            (htook c ps _ hgot (length_take_le _ _) h)
          rwa [append_assoc, singleton_append] at hnext
      | wouldBlock =>
        rw [append_nil]
        exact h
      | err =>
        rw [append_nil]
        exact hdone (.inl mem_cons_self) c ps h

/-- What a property of a connection and its packets needs to survive a pump. -/
theorem pump_rule {P : Conn → List Packet → Prop} {maxPayload : ℕ}
    (hland : ∀ c ps n, 0 < n → n ≤ c.toHost.length → P c ps → P (c.landed n) ps)
    (hcredit : ∀ c ps, P c ps → P c (ps ++ [c.packet opCreditUpdate c.fwdCnt []]))
    (htook : ∀ c ps got, got ≠ [] → got.length ≤ min c.guestWindow maxPayload → P c ps →
      P (c.took got) (ps ++ [c.packet opRw c.fwdCnt got]))
    (hdone : ∀ c ps, P c ps → P c.done ps) {c : Conn} (ps : List Packet) (io : ConnIo)
    (h : P c ps) : P (c.pump maxPayload io).1 (ps ++ (c.pump maxPayload io).2) := by
  have hdrain : P (c.drain io.writes).1 ps :=
    drain_rule (P := fun c => P c ps) (fun c n => hland c ps n) io.writes (fun _ c => hdone c ps)
      c h
  have hafter : P (c.drain io.writes).1 (ps ++ if (c.drain io.writes).2 && (c.drain io.writes).1.up
      then [(c.drain io.writes).1.packet opCreditUpdate (c.drain io.writes).1.fwdCnt []]
      else []) := by
    split_ifs
    · exact hcredit _ ps hdrain
    · rwa [append_nil]
  unfold pump
  simp only
  rw [← append_assoc]
  by_cases hup : (c.drain io.writes).1.up = true
  · rw [if_pos hup]
    exact fetch_rule htook io.reads (fun _ => hdone) _ _ hafter
  · rw [if_neg hup, append_nil]
    exact hafter

end Conn

/-! ## What never changes about a connection -/

/-- The same connection at another moment. -/
structure Conn.Same (c c' : Conn) : Prop where
  id : c'.id = c.id
  guestPort : c'.guestPort = c.guestPort
  hostPort : c'.hostPort = c.hostPort
  fd : c'.stream.fd = c.stream.fd

namespace Conn

theorem Same.refl (c : Conn) : c.Same c := ⟨rfl, rfl, rfl, rfl⟩

theorem refresh_same (c : Conn) (h : GuestPacket) : c.Same (c.refresh h) := ⟨rfl, rfl, rfl, rfl⟩

/-- What a guest packet does to its connection: an RW that fits is buffered, one that does not
resets the connection, and anything else changes its flags at most. -/
theorem onPacket_cases (c : Conn) (h : GuestPacket) :
    (h.op = opRw ∧ c.toHost.length + h.payload.length ≤ bufAlloc ∧
      (c.refresh h).onPacket h = ({ c.refresh h with toHost := c.toHost ++ h.payload }, [])) ∨
    (h.op = opRw ∧ bufAlloc < c.toHost.length + h.payload.length ∧
      (c.refresh h).onPacket h =
        ({ c.refresh h with up := false, hostDone := true }, [c.packet opRst 0 []])) ∨
    (h.op ≠ opRw ∧ ∃ up hostDone ps, (ps = [] ∨ ps = [c.packet opCreditUpdate c.fwdCnt []]) ∧
      (c.refresh h).onPacket h = ({ c.refresh h with up, hostDone }, ps)) := by
  have hlen : (c.refresh h).toHost.length = c.toHost.length := rfl
  by_cases hop : h.op = opRw
  · have hne : h.op ≠ opResponse := by rw [hop]; decide
    by_cases hfit : c.toHost.length + h.payload.length ≤ bufAlloc
    · refine .inl ⟨hop, hfit, ?_⟩
      rw [onPacket, if_neg hne, if_pos hop, hlen, if_neg (not_lt.2 hfit)]
      rfl
    · refine .inr (.inl ⟨hop, not_le.1 hfit, ?_⟩)
      rw [onPacket, if_neg hne, if_pos hop, hlen, if_pos (not_le.1 hfit)]
      rfl
  · refine .inr (.inr ⟨hop, ?_⟩)
    unfold onPacket
    split_ifs
    · exact ⟨true, c.hostDone, [], .inl rfl, rfl⟩
    · exact ⟨c.up, c.hostDone, _, .inr rfl, rfl⟩
    · exact ⟨c.up, c.hostDone, [], .inl rfl, rfl⟩
    · exact ⟨false, true, [], .inl rfl, rfl⟩
    · exact ⟨c.up, c.hostDone, [], .inl rfl, rfl⟩

theorem onPacket_same (c : Conn) (h : GuestPacket) : c.Same ((c.refresh h).onPacket h).1 := by
  unfold onPacket
  split_ifs <;> exact ⟨rfl, rfl, rfl, rfl⟩

theorem onPacket_tagged (c : Conn) (h : GuestPacket) :
    ∀ p ∈ ((c.refresh h).onPacket h).2, p.conn = some c.id := by
  unfold onPacket
  split_ifs <;> simp [packet, refresh]

/-- A pump leaves a connection the one it is; what it sends is tagged, within the payload limit, and
no SHUTDOWN. -/
theorem pump_same_sent (maxPayload : ℕ) (c : Conn) (io : ConnIo) :
    c.Same (c.pump maxPayload io).1 ∧ ∀ p ∈ (c.pump maxPayload io).2,
      p.conn = some c.id ∧ p.payload.length ≤ maxPayload ∧ p.op ≠ opShutdown := by
  refine pump_rule (P := fun c' ps => c.Same c' ∧ ∀ p ∈ ps,
      p.conn = some c.id ∧ p.payload.length ≤ maxPayload ∧ p.op ≠ opShutdown)
    (c := c) ?_ ?_ ?_ ?_ [] io ⟨Same.refl c, by simp⟩
  · rintro c' ps n - - ⟨⟨h1, h2, h3, h4⟩, hps⟩
    exact ⟨⟨h1, h2, h3, h4⟩, hps⟩
  · rintro c' ps ⟨hsame, hps⟩
    refine ⟨hsame, forall_mem_append.2 ⟨hps, forall_mem_singleton.2 ?_⟩⟩
    exact ⟨congrArg some hsame.id, Nat.zero_le _, show opCreditUpdate ≠ opShutdown by decide⟩
  · rintro c' ps got - hlen ⟨⟨h1, h2, h3, h4⟩, hps⟩
    refine ⟨⟨h1, h2, h3, h4⟩, forall_mem_append.2 ⟨hps, forall_mem_singleton.2 ?_⟩⟩
    exact ⟨congrArg some h1, hlen.trans (min_le_right ..), show opRw ≠ opShutdown by decide⟩
  · rintro c' ps ⟨⟨h1, h2, h3, h4⟩, hps⟩
    exact ⟨⟨h1, h2, h3, h4⟩, hps⟩

theorem pump_same (maxPayload : ℕ) (c : Conn) (io : ConnIo) : c.Same (c.pump maxPayload io).1 :=
  (pump_same_sent maxPayload c io).1

end Conn

/-! ## The device invariant -/

namespace VsockDevice

variable {d : VsockDevice}

/-- Every connection there has been. -/
def everyConn (d : VsockDevice) : List Conn := d.conns ++ d.gone

structure DevInv (d : VsockDevice) : Prop where
  ids : (d.everyConn.map (·.id)).Perm (List.range d.opened)
  tags : ∀ p ∈ d.queued, ∀ j, p.conn = some j → j < d.opened
  port_lo : ephemeralBase ≤ d.nextHostPort
  port_hi : d.nextHostPort < 2 ^ 32
  fds : (d.conns.map (·.stream.fd)).Nodup
  fds_lt : ∀ c ∈ d.conns, c.stream.fd < 2 ^ 31

/-- A descriptor the host can hand out: a non-negative `int` that is not open. -/
def FreshFd (d : VsockDevice) (fd : ℕ) : Prop := fd < 2 ^ 31 ∧ ∀ c ∈ d.conns, c.stream.fd ≠ fd

theorem new_devInv (guestCid : ℕ) : (new guestCid).DevInv :=
  ⟨List.Perm.refl _, nofun, le_refl ephemeralBase,
    show ephemeralBase < 2 ^ 32 by decide, nodup_nil,
    nofun⟩

namespace DevInv

variable {c c' : Conn} {i : ℕ}

variable (h : d.DevInv)

include h

theorem id_lt (hc : c ∈ d.everyConn) : c.id < d.opened :=
  mem_range.1 (h.ids.mem_iff.1 (mem_map_of_mem hc))

theorem nodup_ids : (d.conns.map (·.id) ++ d.gone.map (·.id)).Nodup := by
  rw [← map_append]
  exact h.ids.nodup_iff.2 nodup_range

/-- … and to one place of the table. -/
theorem place_inj {j : ℕ} (hi : d.conns[i]? = some c)
    (hj : d.conns[j]? = some c') (hid : c.id = c'.id) : i = j := by
  have hmi : (d.conns.map (·.id))[i]? = some c.id := by
    rw [getElem?_map, hi]
    rfl
  have hmj : (d.conns.map (·.id))[j]? = some c.id := by
    rw [getElem?_map, hj, hid]
    rfl
  exact (List.getElem?_inj (List.getElem?_eq_some_iff.1 hmi).1 h.nodup_ids.of_append_left).1
    (hmi.trans hmj.symm)

theorem not_gone (hc : c ∈ d.conns) (hc' : c' ∈ d.gone) :
    c.id ≠ c'.id :=
  (nodup_append.1 h.nodup_ids).2.2 _ (mem_map_of_mem hc) _ (mem_map_of_mem hc')

theorem packetsOf_opened {j : ℕ} (hj : d.opened ≤ j) : packetsOf j d.queued = [] :=
  packetsOf_eq_nil fun p hp htag => absurd (h.tags p hp j htag) (not_lt.2 hj)

theorem length_le : d.conns.length ≤ 2 ^ 31 := by
  have hsub : d.conns.map (·.stream.fd) ⊆ range (2 ^ 31) := by
    intro fd hfd
    obtain ⟨c, hc, rfl⟩ := mem_map.1 hfd
    exact mem_range.2 (h.fds_lt c hc)
  have hle := (subperm_of_subset h.fds hsub).length_le
  rwa [length_map, length_range] at hle

theorem send
    (hps : ∀ p ∈ ps, ∀ j, p.conn = some j → j < d.opened) : (d.send ps).DevInv :=
  ⟨h.ids, forall_mem_append.2 ⟨h.tags, hps⟩, h.port_lo, h.port_hi, h.fds, h.fds_lt⟩

theorem push {op : ℕ} (hid : c.id = d.opened)
    (hfd : d.FreshFd c.stream.fd) : (d.push c op).DevInv := by
  refine ⟨?_, ?_, h.port_lo, h.port_hi, ?_, ?_⟩
  · have hp : ((d.conns ++ [c] ++ d.gone).map (·.id)).Perm (d.everyConn.map (·.id) ++ [c.id]) := by
      simp only [everyConn, map_append, map_singleton, append_assoc]
      exact (perm_append_comm).append_left _
    refine hp.trans ?_
    rw [hid]
    change List.Perm _ (range (d.opened + 1))
    rw [range_succ]
    exact h.ids.append_right _
  · intro p hp j htag
    rcases mem_append.1 hp with hp | hp
    · exact (h.tags p hp j htag).trans (Nat.lt_succ_self _)
    · obtain rfl := mem_singleton.1 hp
      obtain rfl : c.id = j := Option.some.inj htag
      exact hid ▸ Nat.lt_succ_self _
  · change ((d.conns ++ [c]).map (·.stream.fd)).Nodup
    rw [map_append, map_singleton, ← concat_eq_append]
    refine List.Nodup.concat ?_ h.fds
    intro hmem
    obtain ⟨c', hc', heq⟩ := mem_map.1 hmem
    exact hfd.2 c' hc' heq
  · exact forall_mem_append.2 ⟨h.fds_lt, forall_mem_singleton.2 hfd.1⟩

/-- Replacing every connection by itself at a later moment keeps the invariant. -/
theorem of_same {conns : List Conn}
    (hids : conns.map (·.id) = d.conns.map (·.id))
    (hfds : conns.map (·.stream.fd) = d.conns.map (·.stream.fd))
    (hps : ∀ p ∈ ps, ∀ j, p.conn = some j → j < d.opened) :
    (({ d with conns } : VsockDevice).send ps).DevInv := by
  refine DevInv.send (d := { d with conns }) ⟨?_, h.tags, h.port_lo, h.port_hi, ?_, ?_⟩ hps
  · simpa only [everyConn, map_append, hids] using h.ids
  · simpa only [hfds] using h.fds
  · intro c hc
    have hmem : c.stream.fd ∈ d.conns.map (·.stream.fd) := hfds ▸ mem_map_of_mem hc
    obtain ⟨c', hc', heq⟩ := mem_map.1 hmem
    exact heq ▸ h.fds_lt c' hc'

omit h in
theorem map_set_of_eq {α : Type} {f : Conn → α} {l : List Conn} (hi : i < l.length)
    (h : f c = f l[i]) : (l.set i c).map f = l.map f := by
  refine ext_getElem (by simp) ?_
  intro j h1 h2
  simp only [getElem_map, getElem_set]
  split
  · rename_i hij
    subst hij
    exact h
  · rfl

theorem update {f : Conn → Conn × List Packet}
    (hsame : ∀ c : Conn, c.Same (f c).1) (htag : ∀ c, ∀ p ∈ (f c).2, p.conn = some c.id) :
    (d.update i f).DevInv := by
  unfold VsockDevice.update
  cases hi : d.conns[i]? with
  | none => exact h
  | some c =>
    obtain ⟨hlt, rfl⟩ := List.getElem?_eq_some_iff.1 hi
    refine h.of_same (map_set_of_eq hlt (hsame _).id) (map_set_of_eq hlt (hsame _).fd) ?_
    · intro p hp j hj
      obtain rfl := Option.some.inj ((htag _ p hp).symm.trans hj)
      exact h.id_lt (mem_append_left _ (getElem_mem hlt))

end DevInv

/-- **The port allocated for a host peer is not in use** for that guest port. -/
theorem alloc_unused (h : d.DevInv) (gp : ℕ) :
    let r := allocFrom d.conns gp ephemeralPorts d.nextHostPort
    (ephemeralBase ≤ r.2 ∧ r.2 < 2 ^ 32) ∧ d.conns.any (Conn.hasKey gp r.1) = false := by
  obtain ⟨n, -, hn⟩ := exists_ephemeral h.port_lo h.port_hi
  have hlen : d.conns.length < ephemeralPorts := h.length_le.trans_lt (by decide)
  obtain ⟨k, -, halloc, hfree⟩ := alloc_free hlen gp n
  rw [hn, halloc]
  exact ⟨ephemeral_range _, hfree⟩

/-! ## Steps keep the device invariant -/

theorem mem_pumped {maxPayload : ℕ} {io : ℕ → ConnIo} {x : Conn × List Packet}
    (hx : x ∈ d.conns.mapIdx fun i c => c.pump maxPayload (io i)) :
    ∃ c ∈ d.conns, ∃ i, x = c.pump maxPayload (io i) := by
  obtain ⟨i, hi, rfl⟩ := mem_mapIdx.1 hx
  exact ⟨_, getElem_mem hi, i, rfl⟩

/-- What is the same at every moment of a connection is the same after a pump. -/
theorem map_pumped {α : Type} {f : Conn → α} (hf : ∀ {c c' : Conn}, c.Same c' → f c' = f c)
    (maxPayload : ℕ) (io : ℕ → ConnIo) :
    (d.conns.mapIdx fun i c => c.pump maxPayload (io i)).map (fun x => f x.1) =
      d.conns.map f := by
  refine ext_getElem (by simp) ?_
  intro i h1 h2
  simp only [getElem_map, getElem_mapIdx]
  exact hf (Conn.pump_same maxPayload _ _)

theorem DevInv.pumpConns (h : d.DevInv) (maxPayload : ℕ) (io : ℕ → ConnIo) :
    (d.pumpConns maxPayload io).DevInv := by
  refine h.of_same ?_ ?_ ?_
  · rw [map_map, ← map_pumped (f := (·.id)) Conn.Same.id maxPayload io]
    rfl
  · rw [map_map, ← map_pumped (f := (·.stream.fd)) Conn.Same.fd maxPayload io]
    rfl
  · intro p hp j hj
    obtain ⟨x, hx, hp⟩ := mem_flatMap.1 hp
    obtain ⟨c, hc, i, rfl⟩ := mem_pumped hx
    have htag := ((Conn.pump_same_sent maxPayload c (io i)).2 p hp).1
    obtain rfl := Option.some.inj (htag.symm.trans hj)
    exact h.id_lt (mem_append_left _ hc)

theorem mem_everyConn_push {c c' : Conn} {op : ℕ} (h : c' ∈ (d.push c op).everyConn) :
    c' ∈ d.everyConn ∨ c' = c := by
  rcases mem_append.1 h with h | h
  · rcases mem_append.1 h with h | h
    · exact .inl (mem_append_left _ h)
    · exact .inr (mem_singleton.1 h)
  · exact .inl (mem_append_right _ h)

theorem everyConn_reap_perm (d : VsockDevice) : d.reap.everyConn.Perm d.everyConn := by
  have hsplit := filter_append_perm Conn.dead d.conns
  change (d.conns.filter (!·.dead) ++ (d.gone ++ d.conns.filter Conn.dead)).Perm
    (d.conns ++ d.gone)
  refine List.Perm.trans ?_ (hsplit.append_right d.gone)
  rw [← append_assoc]
  refine perm_append_comm.trans ?_
  rw [append_assoc]

theorem DevInv.reap (h : d.DevInv) : d.reap.DevInv := by
  refine ⟨((everyConn_reap_perm d).map _).trans h.ids, ?_, h.port_lo, h.port_hi, ?_, ?_⟩
  · intro p hp j hj
    rcases mem_append.1 hp with hp | hp
    · exact h.tags p hp j hj
    · obtain ⟨c, hc, rfl⟩ := mem_map.1 hp
      obtain rfl : c.id = j := Option.some.inj hj
      exact h.id_lt (mem_append_left _ (mem_filter.1 hc).1)
  · exact h.fds.sublist (filter_sublist.map _)
  · exact fun c hc => h.fds_lt c (mem_filter.1 hc).1

theorem DevInv.accept (h : d.DevInv) {peer : ℕ × ℕ} (hfd : d.FreshFd peer.2) :
    (d.accept peer).DevInv := by
  obtain ⟨⟨hlo, hhi⟩, -⟩ := alloc_unused h peer.1
  exact DevInv.push
    (d := { d with nextHostPort := (allocFrom d.conns peer.1 ephemeralPorts d.nextHostPort).2 })
    ⟨h.ids, h.tags, hlo, hhi, h.fds, h.fds_lt⟩ rfl hfd

/-- Host peers with descriptors that are fresh and distinct. -/
def FreshPeers (d : VsockDevice) (peers : List (ℕ × ℕ)) : Prop :=
  (peers.map Prod.snd).Nodup ∧ ∀ peer ∈ peers, d.FreshFd peer.2

theorem FreshPeers.accept {peer : ℕ × ℕ} {peers : List (ℕ × ℕ)}
    (h : d.FreshPeers (peer :: peers)) : (d.accept peer).FreshPeers peers := by
  rw [FreshPeers, map_cons, nodup_cons] at h
  refine ⟨h.1.2, fun p hp => ⟨(h.2 p (mem_cons_of_mem _ hp)).1, fun c hc => ?_⟩⟩
  rcases mem_append.1 hc with hc | hc
  · exact (h.2 p (mem_cons_of_mem _ hp)).2 c hc
  · obtain rfl := mem_singleton.1 hc
    intro heq
    exact h.1.1 (mem_map.2 ⟨p, hp, heq.symm⟩)

/-- **The rule for accepting.**  What one accept keeps, accepting all the peers keeps. -/
theorem acceptAll_rule {P : VsockDevice → Prop}
    (hstep : ∀ (d : VsockDevice) (peer : ℕ × ℕ), d.DevInv → d.FreshFd peer.2 → P d →
      P (d.accept peer))
    (peers : List (ℕ × ℕ)) : ∀ {d : VsockDevice}, d.DevInv → d.FreshPeers peers → P d →
      P (peers.foldl VsockDevice.accept d) := by
  induction peers with
  | nil => exact fun _ _ h => h
  | cons peer peers ih =>
    intro d hd hfresh h
    have hfd := hfresh.2 peer mem_cons_self
    exact ih (hd.accept hfd) hfresh.accept (hstep d peer hd hfd h)

theorem DevInv.acceptAll (peers : List (ℕ × ℕ)) (h : d.DevInv) (hfresh : d.FreshPeers peers) :
    (peers.foldl VsockDevice.accept d).DevInv :=
  acceptAll_rule (P := DevInv) (fun _ _ hd hfd _ => hd.accept hfd) peers h hfresh h

theorem DevInv.pump (h : d.DevInv) {maxPayload : ℕ} {peers : List (ℕ × ℕ)} {io : ℕ → ConnIo}
    (hfresh : d.FreshPeers peers) : (d.pump maxPayload peers io).DevInv :=
  ((DevInv.acceptAll peers h hfresh).pumpConns maxPayload io).reap

theorem FreshFd.update {fd i : ℕ} {f : Conn → Conn × List Packet}
    (hsame : ∀ c : Conn, c.Same (f c).1) (h : d.FreshFd fd) : (d.update i f).FreshFd fd := by
  unfold VsockDevice.update
  cases hi : d.conns[i]? with
  | none => exact h
  | some c =>
    refine ⟨h.1, fun c' hc' => ?_⟩
    rcases mem_or_eq_of_mem_set hc' with hc' | rfl
    · exact h.2 c' hc'
    · rw [(hsame c).fd]
      exact h.2 c (mem_of_getElem? hi)

theorem reply_tags (h : GuestPacket) (op : ℕ) (j n : ℕ) :
    ∀ p ∈ [reply h op], p.conn = some j → j < n := by
  intro p hp hj
  obtain rfl := mem_singleton.1 hp
  cases hj

theorem DevInv.onPacket (hd : d.DevInv) {h : GuestPacket} {dial : Option ℕ}
    (hdial : ∀ fd, dial = some fd → d.FreshFd fd) : (d.onPacket h dial).DevInv := by
  have hreply : ∀ {d : VsockDevice} (op : ℕ), d.DevInv → (d.send [reply h op]).DevInv :=
    fun op hd => hd.send fun p hp j hj => reply_tags h op j _ p hp hj
  unfold VsockDevice.onPacket
  cases d.find h.srcPort h.dstPort with
  | some i =>
    simp only
    split_ifs
    · have hd' := hd.update (i := i) (f := fun c => (c.refresh h, []))
        (fun c => c.refresh_same h) nofun
      cases dial with
      | some fd => exact hd'.push rfl ((hdial fd rfl).update fun c => c.refresh_same h)
      | none => exact hreply opRst hd'
    · exact hd.update (fun c => c.onPacket_same h) (fun c => c.onPacket_tagged h)
  | none =>
    split_ifs
    · cases dial with
      | some fd => exact hd.push rfl (hdial fd rfl)
      | none => exact hreply opRst hd
    · exact hreply opCreditUpdate hd
    · exact hd

/-- A packet is ignored, or processed. -/
theorem transmit_eq (d : VsockDevice) (pkt : List UInt8) (dial : Option ℕ) :
    (d.transmit pkt dial = d ∧
        ∀ p, parse pkt = some p → p.dstCid = cidHost → ¬ pkt.length ≤ maxPacket) ∨
      ∃ p, parse pkt = some p ∧ p.dstCid = cidHost ∧ pkt.length ≤ maxPacket ∧
        d.transmit pkt dial = d.onPacket p dial := by
  unfold transmit onGuestPacket
  by_cases hlen : pkt.length ≤ maxPacket
  · rw [if_neg (not_lt.2 hlen)]
    cases hp : parse pkt with
    | none => exact .inl ⟨rfl, nofun⟩
    | some p =>
      by_cases hcid : p.dstCid = cidHost
      · exact .inr ⟨p, rfl, hcid, hlen, if_neg (not_not.2 hcid)⟩
      · refine .inl ⟨if_pos hcid, fun q hq hqcid => absurd hqcid ?_⟩
        rwa [← Option.some.inj hq]
  · exact .inl ⟨if_pos (not_le.1 hlen), fun _ _ _ => hlen⟩

/-! ## A property of every connection -/

section Every

variable {P : Conn → Prop}

theorem every_push (h : ∀ c ∈ d.everyConn, P c) {c : Conn} {op : ℕ} (hc : P c) :
    ∀ c' ∈ (d.push c op).everyConn, P c' := by
  intro c' hc'
  rcases mem_everyConn_push hc' with hmem | rfl
  · exact h c' hmem
  · exact hc

variable (h : ∀ c ∈ d.everyConn, P c)

include h

theorem every_update {i : ℕ} {f : Conn → Conn × List Packet} (hf : ∀ c, P c → P (f c).1) :
    ∀ c ∈ (d.update i f).everyConn, P c := by
  unfold VsockDevice.update
  split
  · rename_i c hi
    intro c' hc'
    rcases mem_append.1 hc' with hc' | hc'
    · rcases mem_or_eq_of_mem_set hc' with hc' | rfl
      · exact h c' (mem_append_left _ hc')
      · exact hf c (h c (mem_append_left _ (mem_of_getElem? hi)))
    · exact h c' (mem_append_right _ hc')
  · exact h

theorem every_onPacket {p : GuestPacket} {dial : Option ℕ} (hrefresh : ∀ c, P c → P (c.refresh p))
    (hpkt : ∀ c, P c → P ((c.refresh p).onPacket p).1)
    (hdial : ∀ (d : VsockDevice) fd, P (d.dialed p fd)) :
    ∀ c ∈ (d.onPacket p dial).everyConn, P c := by
  have hrequest : ∀ d : VsockDevice, (∀ c ∈ d.everyConn, P c) →
      ∀ c ∈ (d.onRequest p dial).everyConn, P c := by
    intro d hd
    cases dial with
    | none => exact hd
    | some fd => exact every_push hd (hdial d fd)
  unfold VsockDevice.onPacket
  cases d.find p.srcPort p.dstPort with
  | some i =>
    simp only
    split_ifs
    · exact hrequest _ (every_update h hrefresh)
    · exact every_update h hpkt
  | none =>
    split_ifs
    · exact hrequest d h
    · exact h
    · exact h

/-- **The rule for a guest packet.** -/
theorem every_transmit {pkt : List UInt8} {dial : Option ℕ}
    (hrefresh : ∀ p, parse pkt = some p → ∀ c, P c → P (c.refresh p))
    (hpkt : ∀ p, parse pkt = some p → ∀ c, P c → P ((c.refresh p).onPacket p).1)
    (hdial : ∀ p, parse pkt = some p → ∀ (d : VsockDevice) fd, P (d.dialed p fd)) :
    ∀ c ∈ (d.transmit pkt dial).everyConn, P c := by
  rcases transmit_eq d pkt dial with ⟨heq, -⟩ | ⟨p, hp, -, -, heq⟩
  · rwa [heq]
  · rw [heq]
    exact every_onPacket h (hrefresh p hp) (hpkt p hp) (hdial p hp)

omit h

theorem every_acceptAll (haccept : ∀ (d : VsockDevice) gp hp fd, P (d.accepted gp hp fd))
    (peers : List (ℕ × ℕ)) (h : ∀ c ∈ d.everyConn, P c) :
    ∀ c ∈ (peers.foldl VsockDevice.accept d).everyConn, P c := by
  refine foldlRecOn (motive := (∀ c ∈ everyConn ·, P c)) peers _ h fun d h peer _ => ?_
  exact every_push (d := { d with nextHostPort :=
    (allocFrom d.conns peer.1 ephemeralPorts d.nextHostPort).2 }) h (haccept d peer.1 _ peer.2)

/-- **The rule for a pump.** -/
theorem every_pump (h : ∀ c ∈ d.everyConn, P c) {maxPayload : ℕ} {peers : List (ℕ × ℕ)}
    {io : ℕ → ConnIo} (haccept : ∀ (d : VsockDevice) gp hp fd, P (d.accepted gp hp fd))
    (hpump : ∀ c io, P c → P (c.pump maxPayload io).1) :
    ∀ c ∈ (d.pump maxPayload peers io).everyConn, P c := by
  have hall := every_acceptAll haccept peers h
  intro c hc
  rw [VsockDevice.pump, (everyConn_reap_perm _).mem_iff] at hc
  rcases mem_append.1 hc with hc | hc
  · obtain ⟨x, hx, rfl⟩ := mem_map.1 hc
    obtain ⟨c₀, hc₀, i, rfl⟩ := mem_pumped hx
    exact hpump c₀ (io i) (hall c₀ (mem_append_left _ hc₀))
  · exact hall c (mem_append_right _ hc)

end Every

end VsockDevice
end Amber.Vsock
