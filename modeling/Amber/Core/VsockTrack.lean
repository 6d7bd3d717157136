import Amber.Core.VsockDevInv

/-!
# Following one connection through the device

The properties of the vsock device are about one connection, and the device handles many.
`Holds k I d` says that connection number `k`, if it has been opened, and the packets queued
for it satisfy `I`.  The rules of this module reduce keeping `Holds` over a step of the
device to keeping `I` over what the step does to that connection alone:

* `Holds.onPacket_touch`, `Holds.onPacket_other` — a guest packet for it, or for another;
* `Holds.pump` — the host-side work;
* `onPacket_drawn` — what a guest packet queues.

They need the device invariant, and for guest packets that no two open connections share a pair
of ports (`Exclusive`).
-/

namespace Amber.Vsock

open List

namespace VsockDevice

variable {k : ℕ} {d : VsockDevice}

/-! ## Following connection `k` -/

/-- Connection `k`, if it has been opened, and its packets satisfy `I`. -/
def Holds (k : ℕ) (I : Conn → List Packet → Prop) (d : VsockDevice) : Prop :=
  ∀ c ∈ d.everyConn, c.id = k → I c (packetsOf k d.queued)

variable {I J : Conn → List Packet → Prop}

theorem Holds.imp (h : Holds k I d) (hIJ : ∀ c ps, I c ps → J c ps) : Holds k J d :=
  fun c hc hid => hIJ c _ (h c hc hid)

theorem Holds.send (h : Holds k I d) {ps : List Packet} (hps : ∀ p ∈ ps, p.conn ≠ some k) :
    Holds k I (d.send ps) := by
  intro c hc hid
  change I c (packetsOf k (d.queued ++ ps))
  rw [packetsOf_append, packetsOf_eq_nil hps, append_nil]
  exact h c hc hid

variable {c : Conn} {i maxPayload gp hp : ℕ} {io : ℕ → ConnIo} {p : GuestPacket} {dial : Option ℕ}
  {f : Conn → Conn × List Packet} (peers : List (ℕ × ℕ)) {x : Conn × List Packet}

/-- Opening a connection: if it is number `k`, its first packet is its only one. -/
theorem Holds.push (hd : d.DevInv) (h : Holds k I d) {op : ℕ} (hid : c.id = d.opened)
    (hopen : c.id = k → I c [c.packet op 0 []]) : Holds k I (d.push c op) := by
  intro c' hc' hk
  change I c' (packetsOf k (d.queued ++ [c.packet op 0 []]))
  rw [packetsOf_append]
  have hmem := mem_everyConn_push hc'
  by_cases hck : c.id = k
  · have hold : packetsOf k d.queued = [] := hd.packetsOf_opened (by omega)
    have hnew : packetsOf k [c.packet op 0 []] = [c.packet op 0 []] :=
      packetsOf_tagged fun p hp => by
        obtain rfl := mem_singleton.1 hp
        exact congrArg some hck
    rw [hold, hnew, nil_append]
    rcases hmem with hmem | rfl
    · have := hd.id_lt hmem
      omega
    · exact hopen hck
  · have hnew : packetsOf k [c.packet op 0 []] = [] :=
      packetsOf_eq_nil fun p hp htag => by
        obtain rfl := mem_singleton.1 hp
        exact hck (Option.some.inj htag)
    rw [hnew, append_nil]
    rcases hmem with hmem | rfl
    · exact h c' hmem hk
    · exact absurd hk hck

/-- A change to one connection, which is number `k` or is not. -/
theorem Holds.update (hd : d.DevInv) (h : Holds k I d) (hi : d.conns[i]? = some c)
    (hsame : c.Same (f c).1) (htag : ∀ p ∈ (f c).2, p.conn = some c.id)
    (hstep : c.id = k → ∀ ps, I c ps → J (f c).1 (ps ++ (f c).2))
    (hother : c.id ≠ k → ∀ c ps, I c ps → J c ps) : Holds k J (d.update i f) := by
  have hlive : c ∈ d.conns := mem_of_getElem? hi
  have hupd : d.update i f =
      ({ d with conns := d.conns.set i (f c).1 } : VsockDevice).send (f c).2 := by
    rw [VsockDevice.update, hi]
  rw [hupd]
  intro c' hc' hk
  replace hc' : c' ∈ d.conns.set i (f c).1 ++ d.gone := hc'
  change J c' (packetsOf k (d.queued ++ (f c).2))
  rw [packetsOf_append]
  by_cases hck : c.id = k
  · rw [packetsOf_tagged (k := k) fun p hp => (htag p hp).trans (congrArg some hck)]
    obtain rfl : c' = (f c).1 := by
      rcases mem_append.1 hc' with hc' | hc'
      · obtain ⟨j, hj⟩ := mem_iff_getElem?.1 hc'
        rw [getElem?_set] at hj
        split_ifs at hj with hij
        · exact (Option.some.inj hj).symm
        · -- two places of the table cannot hold connection `k`
          exact absurd (hd.place_inj hi hj (hck.trans hk.symm)) hij
      · exact absurd (hck.trans hk.symm) (hd.not_gone hlive hc')
    exact hstep hck _ (h c (mem_append_left _ hlive) hck)
  · rw [packetsOf_eq_nil (k := k) fun p hp htag' =>
      hck (Option.some.inj ((htag p hp).symm.trans htag')), append_nil]
    have hmem : c' ∈ d.everyConn := by
      rcases mem_append.1 hc' with hc' | hc'
      · rcases mem_or_eq_of_mem_set hc' with hc' | rfl
        · exact mem_append_left _ hc'
        · exact absurd (hsame.id.symm.trans hk) hck
      · exact mem_append_right _ hc'
    exact hother hck c' _ (h c' hmem hk)

/-- Of packets sent by connections with distinct numbers, those of one connection are the
packets it sent. -/
theorem packetsOf_flatMap (moved : List (Conn × List Packet)) (hnd : (moved.map (·.1.id)).Nodup)
    (htag : ∀ x ∈ moved, ∀ p ∈ x.2, p.conn = some x.1.id) (hx : x ∈ moved) :
    packetsOf x.1.id (moved.flatMap Prod.snd) = x.2 := by
  induction moved with
  | nil => exact absurd hx not_mem_nil
  | cons y ys ih =>
    rw [map_cons, nodup_cons] at hnd
    have hys : ∀ z ∈ ys, z.1.id ≠ y.1.id := fun z hz heq =>
      hnd.1 (heq ▸ mem_map_of_mem (f := (·.1.id)) hz)
    rw [flatMap_cons, packetsOf_append]
    rcases mem_cons.1 hx with rfl | hx
    · rw [packetsOf_tagged (htag x mem_cons_self), packetsOf_eq_nil, append_nil]
      intro p hp htag'
      obtain ⟨z, hz, hp⟩ := mem_flatMap.1 hp
      exact hys z hz (Option.some.inj
        ((htag z (mem_cons_of_mem _ hz) p hp).symm.trans htag'))
    · rw [packetsOf_eq_nil, nil_append, ih hnd.2 (fun z hz => htag z (mem_cons_of_mem _ hz)) hx]
      intro p hp htag'
      exact hys x hx (Option.some.inj
        ((htag y mem_cons_self p hp).symm.trans htag')).symm

/-- A connection that sent none of the packets has none of them. -/
theorem packetsOf_flatMap_eq_nil {moved : List (Conn × List Packet)}
    (htag : ∀ x ∈ moved, ∀ p ∈ x.2, p.conn = some x.1.id) (hne : ∀ x ∈ moved, x.1.id ≠ k) :
    packetsOf k (moved.flatMap Prod.snd) = [] := by
  refine packetsOf_eq_nil fun p hp htag' => ?_
  obtain ⟨x, hx, hp⟩ := mem_flatMap.1 hp
  exact hne x hx (Option.some.inj ((htag x hx p hp).symm.trans htag'))

theorem pumped_tagged (hx : x ∈ d.conns.mapIdx fun i c => c.pump maxPayload (io i)) :
    ∀ p ∈ x.2, p.conn = some x.1.id := by
  intro p hp
  obtain ⟨c, -, i, rfl⟩ := mem_pumped hx
  obtain ⟨hsame, hsent⟩ := Conn.pump_same_sent maxPayload c (io i)
  rw [(hsent p hp).1, hsame.id]

/-- What the pumps queue for one connection is what its own pump sends. -/
theorem packetsOf_pumpConns (hnd : (d.conns.map (·.id)).Nodup) (hi : d.conns[i]? = some c)
    (maxPayload : ℕ) (io : ℕ → ConnIo) :
    packetsOf c.id (d.pumpConns maxPayload io).queued =
      packetsOf c.id d.queued ++ (c.pump maxPayload (io i)).2 := by
  set moved := d.conns.mapIdx fun i c => c.pump maxPayload (io i) with hmoved
  have hids : moved.map (·.1.id) = d.conns.map (·.id) := map_pumped Conn.Same.id maxPayload io
  have hx : c.pump maxPayload (io i) ∈ moved := by
    refine mem_of_getElem? (i := i) ?_
    rw [hmoved, getElem?_mapIdx, hi]
    rfl
  have hown := packetsOf_flatMap moved (hids ▸ hnd) (fun x hx => pumped_tagged hx) hx
  rw [(Conn.pump_same maxPayload c (io i)).id] at hown
  change packetsOf c.id (d.queued ++ moved.flatMap Prod.snd) = _
  rw [packetsOf_append, hown]

theorem packetsOf_pumpConns_of_ne (hne : ∀ c ∈ d.conns, c.id ≠ k) (maxPayload : ℕ)
    (io : ℕ → ConnIo) :
    packetsOf k (d.pumpConns maxPayload io).queued = packetsOf k d.queued := by
  change packetsOf k (d.queued ++ flatMap Prod.snd _) = _
  rw [packetsOf_append, packetsOf_flatMap_eq_nil (fun x hx => pumped_tagged hx), append_nil]
  intro x hx hxk
  obtain ⟨c, hc, i, rfl⟩ := mem_pumped hx
  exact hne c hc ((Conn.pump_same maxPayload c (io i)).id.symm.trans hxk)

theorem Holds.pumpConns (hd : d.DevInv) (h : Holds k I d) (hpump : ∀ c ps io, c.id = k → I c ps →
      I (c.pump maxPayload io).1 (ps ++ (c.pump maxPayload io).2)) :
    Holds k I (d.pumpConns maxPayload io) := by
  intro c' hc' hk
  rcases mem_append.1 hc' with hlive | hgone
  · obtain ⟨x, hx, rfl⟩ := mem_map.1 hlive
    obtain ⟨i, hi, rfl⟩ := mem_mapIdx.1 hx
    have hid : d.conns[i].id = k :=
      (Conn.pump_same maxPayload _ (io i)).id.symm.trans hk
    have hown := packetsOf_pumpConns hd.nodup_ids.of_append_left (getElem?_eq_getElem hi)
      maxPayload io
    rw [hid] at hown
    rw [hown]
    exact hpump _ _ (io i) hid (h _ (mem_append_left _ (getElem_mem hi)) hid)
  · rw [packetsOf_pumpConns_of_ne fun c hc hck => hd.not_gone hc hgone (hck.trans hk.symm)]
    exact h c' (mem_append_right _ hgone) hk

/-- A connection gets one SHUTDOWN if it is dead, and nothing otherwise. -/
theorem packetsOf_reap (hnd : (d.conns.map (·.id)).Nodup) (hc : c ∈ d.conns) :
    packetsOf c.id d.reap.queued =
      packetsOf c.id d.queued ++ if c.dead then [c.packet opShutdown c.fwdCnt []] else [] := by
  set shut : List (Conn × List Packet) :=
    (d.conns.filter Conn.dead).map fun c => (c, [c.packet opShutdown c.fwdCnt []]) with hshut
  have hflat : (d.conns.filter Conn.dead).map (fun c => c.packet opShutdown c.fwdCnt []) =
      shut.flatMap Prod.snd := by
    rw [hshut, flatMap_map, map_eq_flatMap]
  have htag : ∀ x ∈ shut, ∀ p ∈ x.2, p.conn = some x.1.id := by
    intro x hx p hp
    obtain ⟨c, -, rfl⟩ := mem_map.1 hx
    obtain rfl := mem_singleton.1 hp
    rfl
  change packetsOf c.id (d.queued ++ (d.conns.filter Conn.dead).map fun c =>
    c.packet opShutdown c.fwdCnt []) = _
  rw [hflat, packetsOf_append]
  split_ifs with hdead
  · have hx : (c, [c.packet opShutdown c.fwdCnt []]) ∈ shut :=
      mem_map_of_mem (mem_filter.2 ⟨hc, hdead⟩)
    have hshutnd : (shut.map (·.1.id)).Nodup := by
      rw [hshut, map_map]
      exact hnd.sublist (filter_sublist.map _)
    rw [packetsOf_flatMap shut hshutnd htag hx]
  · rw [packetsOf_flatMap_eq_nil htag]
    intro x hx hxc
    obtain ⟨c', hc', rfl⟩ := mem_map.1 hx
    obtain ⟨hmem, hdead'⟩ := mem_filter.1 hc'
    exact hdead (inj_on_of_nodup_map hnd hmem hc hxc ▸ hdead')

theorem packetsOf_reap_of_ne (hne : ∀ c ∈ d.conns, c.id ≠ k) :
    packetsOf k d.reap.queued = packetsOf k d.queued := by
  change packetsOf k (d.queued ++ _) = _
  rw [packetsOf_append, @packetsOf_eq_nil k (map _ _), append_nil]
  intro p hp htag
  obtain ⟨c, hc, rfl⟩ := mem_map.1 hp
  exact hne c (mem_filter.1 hc).1 (Option.some.inj htag)

theorem Holds.reap (hd : d.DevInv) (h : Holds k I d)
    (hreap : ∀ c ps, c.id = k → I c ps → I c (ps ++ [c.packet opShutdown c.fwdCnt []])) :
    Holds k I d.reap := by
  intro c' hc' hk
  have hmem : c' ∈ d.everyConn := (everyConn_reap_perm d).mem_iff.1 hc'
  rcases mem_append.1 hmem with hlive | hgone
  · have hown := packetsOf_reap hd.nodup_ids.of_append_left hlive
    rw [hk] at hown
    rw [hown]
    split_ifs
    · exact hreap c' _ hk (h c' hmem hk)
    · rw [append_nil]
      exact h c' hmem hk
  · rw [packetsOf_reap_of_ne fun c hc hck => hd.not_gone hc hgone (hck.trans hk.symm)]
    exact h c' hmem hk

theorem Holds.acceptAll :
    ∀ {d : VsockDevice}, d.DevInv → d.FreshPeers peers → Holds k I d →
      (d.opened ≤ k → ∀ c, c.id = k →
        (∃ gp hp fd, ∃ d : VsockDevice, c = d.accepted gp hp fd) →
        I c [c.packet opRequest 0 []]) → Holds k I (peers.foldl VsockDevice.accept d) := by
  induction peers with
  | nil => exact fun _ _ h _ => h
  | cons peer peers ih =>
    intro d hd hfresh h hopen
    refine ih (hd.accept (hfresh.2 peer mem_cons_self)) hfresh.accept ?_
      fun hk => hopen ((Nat.le_succ _).trans hk)
    obtain ⟨⟨hlo, hhi⟩, -⟩ := alloc_unused hd peer.1
    exact Holds.push
      (d := { d with nextHostPort := (allocFrom d.conns peer.1 ephemeralPorts d.nextHostPort).2 })
      ⟨hd.ids, hd.tags, hlo, hhi, hd.fds, hd.fds_lt⟩ h rfl
      fun hk => hopen hk.le _ hk ⟨_, _, _, d, rfl⟩

/-- **The pump rule.**  A property of connection `k` and its packets survives the host-side
work if it holds of a connection just accepted and survives a pump and a reap of its own. -/
theorem Holds.pump (hd : d.DevInv) (h : Holds k I d) {peers : List (ℕ × ℕ)}
    (hfresh : d.FreshPeers peers)
    (hopen : d.opened ≤ k → ∀ c, c.id = k →
      (∃ gp hp fd, ∃ d : VsockDevice, c = d.accepted gp hp fd) → I c [c.packet opRequest 0 []])
    (hpump : ∀ c ps io, c.id = k → I c ps →
      I (c.pump maxPayload io).1 (ps ++ (c.pump maxPayload io).2))
    (hreap : ∀ c ps, c.id = k → I c ps → I c (ps ++ [c.packet opShutdown c.fwdCnt []])) :
    Holds k I (d.pump maxPayload peers io) := by
  have hd' := DevInv.acceptAll peers hd hfresh
  exact ((Holds.acceptAll peers hd hfresh h hopen).pumpConns hd' hpump).reap
    (hd'.pumpConns maxPayload io) hreap

/-! ## Guest packets -/

/-- The packet is addressed to connection `k`, which is live. -/
def touches (d : VsockDevice) (k : ℕ) (h : GuestPacket) : Bool :=
  d.conns.any fun c => c.id == k && c.hasKey h.srcPort h.dstPort

/-- Numbers and ports of the live connections. -/
def keys (d : VsockDevice) : List (ℕ × ℕ × ℕ) :=
  d.conns.map fun c => (c.id, c.guestPort, c.hostPort)

/-- No other live connection has the ports of connection `k`. -/
def Exclusive (k : ℕ) (d : VsockDevice) : Prop :=
  ∀ x ∈ d.keys, ∀ y ∈ d.keys, x.1 = k → y.2 = x.2 → y.1 = k

theorem mem_keys (hc : c ∈ d.conns) : (c.id, c.guestPort, c.hostPort) ∈ d.keys :=
  mem_map_of_mem (f := fun c : Conn => (c.id, c.guestPort, c.hostPort)) hc

theorem hasKey_iff :
    c.hasKey gp hp = true ↔ (c.guestPort, c.hostPort) = (gp, hp) := by
  rw [Conn.hasKey, Bool.and_eq_true, beq_iff_eq, beq_iff_eq, Prod.mk.injEq]

theorem Exclusive.hasKey (h : d.Exclusive k) {c' : Conn} (hc : c ∈ d.conns) (hc' : c' ∈ d.conns)
    (hid : c.id = k) (hkey : c.hasKey gp hp = true) (hkey' : c'.hasKey gp hp = true) :
    c'.id = k :=
  h _ (mem_keys hc) _ (mem_keys hc') hid
    ((hasKey_iff.1 hkey').trans (hasKey_iff.1 hkey).symm)

theorem Exclusive.of_subset (h : d.Exclusive k) {d' : VsockDevice} (hsub : d'.keys ⊆ d.keys) :
    d'.Exclusive k :=
  fun x hx y hy => h x (hsub hx) y (hsub hy)

theorem keys_update (hsame : ∀ c : Conn, c.Same (f c).1) : (d.update i f).keys = d.keys := by
  unfold VsockDevice.update
  cases hi : d.conns[i]? with
  | none => rfl
  | some c =>
    obtain ⟨hlt, rfl⟩ := List.getElem?_eq_some_iff.1 hi
    have hs := hsame d.conns[i]
    exact DevInv.map_set_of_eq hlt (by rw [hs.id, hs.guestPort, hs.hostPort])

theorem opened_update (d : VsockDevice) (i : ℕ) (f : Conn → Conn × List Packet) :
    (d.update i f).opened = d.opened := by
  unfold VsockDevice.update
  split <;> rfl

/-- A new connection whose ports are those of no live connection, or at least neither is
number `k`. -/
theorem Exclusive.push (h : d.Exclusive k) {op : ℕ}
    (hnew : ∀ c' ∈ d.conns, c'.hasKey c.guestPort c.hostPort = true → c'.id ≠ k ∧ c.id ≠ k) :
    (d.push c op).Exclusive k := by
  have hkeys : (d.push c op).keys = d.keys ++ [(c.id, c.guestPort, c.hostPort)] :=
    map_append
  have hcross : ∀ x ∈ d.keys, x.2 = (c.guestPort, c.hostPort) → x.1 ≠ k ∧ c.id ≠ k := by
    intro x hx heq
    obtain ⟨c', hc', rfl⟩ := mem_map.1 hx
    exact hnew c' hc' (hasKey_iff.2 heq)
  intro x hx y hy hk heq
  rw [hkeys] at hx hy
  rcases mem_append.1 hx with hx | hx <;> rcases mem_append.1 hy with hy | hy
  · exact h x hx y hy hk heq
  · obtain rfl := mem_singleton.1 hy
    exact absurd hk (hcross x hx heq.symm).1
  · obtain rfl := mem_singleton.1 hx
    exact absurd hk (hcross y hy heq).2
  · obtain rfl := mem_singleton.1 hx
    obtain rfl := mem_singleton.1 hy
    exact hk

theorem Exclusive.acceptAll :
    ∀ {d : VsockDevice}, d.DevInv → d.FreshPeers peers → d.Exclusive k →
      (peers.foldl VsockDevice.accept d).Exclusive k := by
  intro d hd hfresh h
  refine acceptAll_rule (P := Exclusive k) (fun d peer hd _ h => ?_) peers hd hfresh h
  obtain ⟨-, hfree⟩ := alloc_unused hd peer.1
  refine Exclusive.push (d := { d with nextHostPort :=
    (allocFrom d.conns peer.1 ephemeralPorts d.nextHostPort).2 }) h fun c' hc' hkey => ?_
  exact absurd hkey (any_eq_false.1 hfree c' hc')

/-- A pump moves bytes on the connections there are. -/
theorem keys_pumpConns (d : VsockDevice) (maxPayload : ℕ) (io : ℕ → ConnIo) :
    (d.pumpConns maxPayload io).keys = d.keys := by
  change ((d.conns.mapIdx fun i c => c.pump maxPayload (io i)).map Prod.fst).map _ = _
  rw [map_map]
  exact map_pumped (f := fun c : Conn => (c.id, c.guestPort, c.hostPort))
    (fun hs => by rw [hs.id, hs.guestPort, hs.hostPort]) maxPayload io

theorem Exclusive.pump (h : d.Exclusive k) (hd : d.DevInv)
    {peers : List (ℕ × ℕ)} (hfresh : d.FreshPeers peers) :
    (d.pump maxPayload peers io).Exclusive k := by
  refine (Exclusive.acceptAll peers hd hfresh h).of_subset ?_
  rw [← keys_pumpConns (peers.foldl VsockDevice.accept d) maxPayload io]
  exact map_subset _ fun c hc => (mem_filter.1 hc).1

/-- A REQUEST opens no connection on top of connection `k`, nor `k` on top of another. -/
def Solo (k : ℕ) (d : VsockDevice) (h : GuestPacket) (dial : Option ℕ) : Prop :=
  h.op = opRequest → ∀ c ∈ d.conns, c.hasKey h.srcPort h.dstPort = true →
    c.id ≠ k ∧ (dial.isSome = true → d.opened ≠ k)

theorem find_eq_some (h : d.find gp hp = some i) :
    ∃ c, d.conns[i]? = some c ∧ c.hasKey gp hp = true := by
  obtain ⟨hi, hkey, -⟩ := findIdx?_eq_some_iff_getElem.1 h
  exact ⟨_, getElem?_eq_getElem hi, hkey⟩

theorem find_eq_none (h : d.find gp hp = none) (hc : c ∈ d.conns) :
    c.hasKey gp hp = false := findIdx?_eq_none_iff.1 h c hc

theorem touches_iff :
    d.touches k p = true ↔ ∃ c ∈ d.conns, c.id = k ∧ c.hasKey p.srcPort p.dstPort = true := by
  simp [touches]

theorem Exclusive.onPacket (h : d.Exclusive k) (hsolo : d.Solo k p dial) :
    (d.onPacket p dial).Exclusive k := by
  have hupd : ∀ (i : ℕ) (f : Conn → Conn × List Packet), (∀ c : Conn, c.Same (f c).1) →
      (d.update i f).Exclusive k :=
    fun i f hs => h.of_subset (by rw [keys_update hs]; exact List.Subset.refl _)
  unfold VsockDevice.onPacket
  cases hfind : d.find p.srcPort p.dstPort with
  | some i =>
    simp only
    split_ifs with hop
    · cases dial with
      | none => exact hupd i _ fun c => c.refresh_same p
      | some fd =>
        refine (hupd i _ fun c => c.refresh_same p).push fun c' hc' hkey => ?_
        -- the connection with these ports, before its window was refreshed
        have hmem : (c'.id, c'.guestPort, c'.hostPort) ∈ d.keys :=
          keys_update (d := d) (i := i) (f := fun c => (c.refresh p, []))
            (fun c => c.refresh_same p) ▸ mem_keys hc'
        obtain ⟨c₀, hc₀, heq⟩ := mem_map.1 hmem
        rw [Prod.mk.injEq] at heq
        obtain ⟨hid, hopened⟩ := hsolo hop c₀ hc₀
          (hasKey_iff.2 (heq.2.trans (hasKey_iff.1 hkey)))
        rw [heq.1] at hid
        refine ⟨hid, fun hk => hopened rfl ?_⟩
        rw [← hk]
        exact (opened_update ..).symm
    · exact hupd i _ fun c => c.onPacket_same p
  | none =>
    split_ifs with hop
    · cases dial with
      | none => exact h
      | some fd =>
        refine h.push fun c' hc' hkey => ?_
        exact absurd ((find_eq_none hfind hc').symm.trans hkey) (by decide)
    · exact h
    · exact h

/-- **The packet rule, for a packet of connection `k`.** -/
theorem Holds.onPacket_touch (hd : d.DevInv) (hex : d.Exclusive k) (h : Holds k I d)
    (ht : d.touches k p = true) (hop : p.op ≠ opRequest)
    (hstep : ∀ c ∈ d.conns, c.id = k → ∀ ps, I c ps →
      J ((c.refresh p).onPacket p).1 (ps ++ ((c.refresh p).onPacket p).2)) :
    Holds k J (d.onPacket p dial) := by
  obtain ⟨c, hc, hid, hkey⟩ := touches_iff.1 ht
  unfold VsockDevice.onPacket
  cases hfind : d.find p.srcPort p.dstPort with
  | none => exact absurd ((find_eq_none hfind hc).symm.trans hkey) (by decide)
  | some i =>
    obtain ⟨c', hi, hkey'⟩ := find_eq_some hfind
    have hc' := mem_of_getElem? hi
    have hid' := hex.hasKey hc hc' hid hkey hkey'
    simp only [if_neg hop]
    exact h.update hd hi (c'.onPacket_same p) (c'.onPacket_tagged p)
      (fun _ ps => hstep c' hc' hid' ps) fun hne => absurd hid' hne

/-- **The packet rule, for any other packet.** -/
theorem Holds.onPacket_other (hd : d.DevInv) (h : Holds k I d)
    (ht : d.touches k p = false)
    (hopen : ∀ fd, p.op = opRequest → dial = some fd → d.opened = k →
      I (d.dialed p fd) [(d.dialed p fd).packet opResponse 0 []]) :
    Holds k I (d.onPacket p dial) := by
  have hreply : ∀ op, ∀ q ∈ [reply p op], q.conn ≠ some k := by
    intro op q hq
    obtain rfl := mem_singleton.1 hq
    exact nofun
  unfold VsockDevice.onPacket
  cases hfind : d.find p.srcPort p.dstPort with
  | none =>
    split_ifs with hop
    · cases dial with
      | none => exact h.send (hreply opRst)
      | some fd => exact h.push hd rfl fun hk => hopen fd hop rfl hk
    · exact h.send (hreply opCreditUpdate)
    · exact h
  | some i =>
    obtain ⟨c, hi, hkey⟩ := find_eq_some hfind
    have hne : c.id ≠ k := by
      intro hid
      rw [touches_iff.2 ⟨c, mem_of_getElem? hi, hid, hkey⟩] at ht
      cases ht
    simp only
    split_ifs with hop
    · have hupd := h.update (J := I) (f := fun c => (c.refresh p, [])) hd hi (c.refresh_same p)
        nofun (fun hid => absurd hid hne) fun _ _ _ h => h
      cases dial with
      | none => exact hupd.send (hreply opRst)
      | some fd =>
        have hsame : (d.update i fun c => (c.refresh p, [])).dialed p fd = d.dialed p fd := by
          rw [dialed, opened_update, ← dialed]
        have hd' := hd.update (i := i) (f := fun c => (c.refresh p, []))
          (fun c => c.refresh_same p) nofun
        refine hupd.push hd' rfl fun hk => ?_
        rw [hsame]
        exact hopen fd hop rfl ((opened_update ..).symm.trans hk)
    · exact h.update hd hi (c.onPacket_same p) (c.onPacket_tagged p)
        (fun hid => absurd hid hne) fun _ _ _ h => h

/-! ## What a guest packet queues -/

/-- The answer to a guest packet: nothing, or a control packet for the same ports if it is a
REQUEST, a CREDIT_REQUEST, or an RW that does not fit. -/
inductive Drawn (d : VsockDevice) (p : GuestPacket) : List Packet → Prop
  | nothing : Drawn d p []
  | packet {q : Packet} (hpay : q.payload = [])
    (hport : (q.guestPort, q.hostPort) = (p.srcPort, p.dstPort))
    (hop : p.op = opRequest ∨ p.op = opCreditRequest ∨ p.op = opRw ∧ ∃ i c,
      d.find p.srcPort p.dstPort = some i ∧ d.conns[i]? = some c ∧
        bufAlloc < c.toHost.length + p.payload.length) : Drawn d p [q]

theorem Drawn.payload {ps : List Packet} (h : d.Drawn p ps) : ∀ q ∈ ps, q.payload = [] := by
  cases h with
  | nothing => exact nofun
  | packet hpay => exact forall_mem_singleton.2 hpay

/-- **A guest packet queues its answer** and nothing else. -/
theorem onPacket_drawn (d : VsockDevice) (p : GuestPacket) (dial : Option ℕ) :
    ∃ ps, d.Drawn p ps ∧ (d.onPacket p dial).queued = d.queued ++ ps ∧
      (d.onPacket p dial).rx = d.rx ++ ps := by
  have hrequest : ∀ d' : VsockDevice, d'.queued = d.queued → d'.rx = d.rx → p.op = opRequest →
      ∃ ps, d.Drawn p ps ∧ (d'.onRequest p dial).queued = d.queued ++ ps ∧
        (d'.onRequest p dial).rx = d.rx ++ ps := by
    intro d' hq hr hop
    rw [← hq, ← hr]
    cases dial with
    | none | some _ => exact ⟨_, .packet rfl rfl (.inl hop), rfl, rfl⟩
  unfold VsockDevice.onPacket
  cases hfind : d.find p.srcPort p.dstPort with
  | some i =>
    obtain ⟨c, hi, hkey⟩ := find_eq_some hfind
    have hupdate : ∀ f, d.update i f =
        ({ d with conns := d.conns.set i (f c).1 } : VsockDevice).send (f c).2 := by
      intro f
      rw [VsockDevice.update, hi]
    simp only [hupdate]
    split_ifs with hop
    · exact hrequest _ (append_nil _) (append_nil _) hop
    · refine ⟨_, ?_, rfl, rfl⟩
      have hport := hasKey_iff.1 hkey
      unfold Conn.onPacket
      split_ifs with _ hrw hover hcredit
      · exact .nothing
      · exact .packet rfl hport (.inr (.inr ⟨hrw, i, c, hfind, hi, hover⟩))
      · exact .nothing
      · exact .packet rfl hport (.inr (.inl hcredit))
      all_goals exact .nothing
  | none =>
    split_ifs with hop hcredit
    · exact hrequest d rfl rfl hop
    · exact ⟨_, .packet rfl rfl (.inr (.inl hcredit)), rfl, rfl⟩
    · exact ⟨[], .nothing, (append_nil _).symm, (append_nil _).symm⟩

end VsockDevice
end Amber.Vsock
