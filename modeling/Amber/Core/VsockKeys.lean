import Amber.Core.VsockRun

/-!
# Are vsock connections uniquely keyed?

A guest packet names its connection by two ports, and `find` takes the first entry of the table
that has them.  Connections enter the table in two ways: a host peer is accepted on a port that
`alloc_host_port` has looked up in the table, and a REQUEST of the guest is dialed on whatever
ports it names, with no look at the table at all.

* `ports_onPacket` — what a guest packet does to the ports in the table.
* `keyed_iff_unclaimed` — the ports in the table are distinct in every state of a run, and `find`
  selects the only connection there is, exactly when no REQUEST that is dialed names the ports
  of a live connection.
* `request_twice` — a guest that repeats its REQUEST gets a second entry under the same ports.
-/

namespace Amber.Vsock

open List

namespace VsockDevice

variable {d : VsockDevice}

/-- The ports of the live connections. -/
def ports (d : VsockDevice) : List (ℕ × ℕ) := d.conns.map fun c => (c.guestPort, c.hostPort)

/-- No two entries have the same ports, so that `find` selects the only one that has them. -/
structure Keyed (d : VsockDevice) : Prop where
  nodup : d.ports.Nodup
  only : ∀ gp hp i, d.find gp hp = some i →
    ∀ j c, d.conns[j]? = some c → c.hasKey gp hp = true → j = i

theorem ports_eq_keys (d : VsockDevice) : d.ports = d.keys.map Prod.snd := by
  rw [keys, map_map]
  rfl

theorem find_eq_none_iff {gp hp : ℕ} : d.find gp hp = none ↔ (gp, hp) ∉ d.ports := by
  constructor
  · intro h hmem
    obtain ⟨c, hc, hkey⟩ := mem_map.1 hmem
    exact absurd ((find_eq_none h hc).symm.trans (hasKey_iff.2 hkey)) (by decide)
  · intro h
    refine findIdx?_eq_none_iff.2 fun c hc => Bool.eq_false_iff.2 fun hkey => h ?_
    exact mem_map.2 ⟨c, hc, hasKey_iff.1 hkey⟩

/-- Distinct ports are all it takes. -/
theorem keyed_iff : d.Keyed ↔ d.ports.Nodup := by
  refine ⟨fun h => h.nodup, fun h => ⟨h, fun gp hp i hi j c hj hkey => ?_⟩⟩
  obtain ⟨c', hi', hkey'⟩ := find_eq_some hi
  have hat : ∀ {n : ℕ} {c : Conn}, d.conns[n]? = some c → c.hasKey gp hp = true →
      d.ports[n]? = some (gp, hp) := by
    intro n c hn hkey
    rw [ports, getElem?_map, hn]
    exact congrArg some (hasKey_iff.1 hkey)
  have hpj := hat hj hkey
  exact (List.getElem?_inj (List.getElem?_eq_some_iff.1 hpj).1 h).1
    (hpj.trans (hat hi' hkey').symm)

/-! ## What a step does to the table -/

theorem ports_update {i : ℕ} {f : Conn → Conn × List Packet}
    (hsame : ∀ c : Conn, c.Same (f c).1) : (d.update i f).ports = d.ports := by
  rw [ports_eq_keys, ports_eq_keys, keys_update hsame]

theorem ports_onRequest (d : VsockDevice) (p : GuestPacket) (dial : Option ℕ) :
    (d.onRequest p dial).ports =
      d.ports ++ if dial.isSome = true then [(p.srcPort, p.dstPort)] else [] := by
  cases dial with
  | none => exact (append_nil _).symm
  | some fd => exact map_append

/-- **A REQUEST that is dialed puts its ports in the table**, whatever is there already. -/
theorem ports_onPacket (d : VsockDevice) (p : GuestPacket) (dial : Option ℕ) :
    (d.onPacket p dial).ports =
      d.ports ++ if p.op = opRequest ∧ dial.isSome = true then [(p.srcPort, p.dstPort)]
        else [] := by
  unfold VsockDevice.onPacket
  cases d.find p.srcPort p.dstPort with
  | some i =>
    show VsockDevice.ports (if p.op = opRequest then _ else _) = _
    by_cases hop : p.op = opRequest
    · rw [if_pos hop, ports_onRequest, ports_update fun c => c.refresh_same p]
      simp [hop]
    · rw [if_neg hop, ports_update fun c => c.onPacket_same p, if_neg fun h => hop h.1, append_nil]
  | none =>
    by_cases hop : p.op = opRequest
    · rw [if_pos hop, ports_onRequest]
      simp [hop]
    · rw [if_neg hop, if_neg fun h => hop (And.left h), append_nil]
      split_ifs <;> rfl

theorem nodup_ports_acceptAll (peers : List (ℕ × ℕ)) :
    ∀ {d : VsockDevice}, d.DevInv → d.FreshPeers peers → d.ports.Nodup →
      (peers.foldl VsockDevice.accept d).ports.Nodup := by
  intro d hd hfresh h
  refine acceptAll_rule (P := fun d => d.ports.Nodup) (fun d peer hd _ h => ?_) peers hd hfresh h
  have hports : (d.accept peer).ports = d.ports ++
      [(peer.1, (allocFrom d.conns peer.1 ephemeralPorts d.nextHostPort).1)] := map_append
  rw [hports, ← concat_eq_append]
  refine h.concat fun hmem => ?_
  obtain ⟨c, hc, hkey⟩ := mem_map.1 hmem
  exact any_eq_false.1 (alloc_unused hd peer.1).2 c hc (hasKey_iff.2 hkey)

/-- A pump keeps ports distinct: those it adds are looked up first. -/
theorem nodup_ports_pump (hd : d.DevInv) {maxPayload : ℕ} {peers : List (ℕ × ℕ)}
    {io : ℕ → ConnIo} (hfresh : d.FreshPeers peers) (h : d.ports.Nodup) :
    (d.pump maxPayload peers io).ports.Nodup := by
  set d' := peers.foldl VsockDevice.accept d
  have hpumped : (d'.pumpConns maxPayload io).ports = d'.ports := by
    rw [ports_eq_keys, ports_eq_keys, keys_pumpConns]
  have hall : d'.ports.Nodup := nodup_ports_acceptAll peers hd hfresh h
  rw [← hpumped] at hall
  exact hall.sublist (filter_sublist.map _)

end VsockDevice

/-! ## Runs of the device -/

/-- What happens to the device: a guest packet, with what dialling gives; a pump, with the host
peers that wait to be accepted; a packet taken from the receive queue. -/
inductive DevStep
  | transmit (pkt : List UInt8) (dial : Option ℕ)
  | pump (maxPayload : ℕ) (peers : List (ℕ × ℕ)) (io : ℕ → ConnIo)
  | deliver

namespace VsockDevice

def step (d : VsockDevice) : DevStep → VsockDevice
  | .transmit pkt dial => d.transmit pkt dial
  | .pump maxPayload peers io => d.pump maxPayload peers io
  | .deliver => { d with rx := d.rx.tail }

/-- The host hands out descriptors that are not open. -/
def Descriptors (d : VsockDevice) : DevStep → Prop
  | .transmit _ dial => ∀ fd, dial = some fd → d.FreshFd fd
  | .pump _ peers _ => d.FreshPeers peers
  | .deliver => True

/-- A REQUEST that is dialed finds no live connection under its ports. -/
def Unclaimed (d : VsockDevice) : DevStep → Prop
  | .transmit pkt dial => ∀ p, parse pkt = some p → p.dstCid = cidHost → pkt.length ≤ maxPacket →
      p.op = opRequest → dial.isSome = true → d.find p.srcPort p.dstPort = none
  | _ => True

variable {d : VsockDevice}

theorem step_devInv (a : DevStep) (hd : d.DevInv) (hfd : d.Descriptors a) : (d.step a).DevInv := by
  cases a with
  | transmit pkt dial =>
    rcases transmit_eq d pkt dial with ⟨heq, -⟩ | ⟨p, -, -, -, heq⟩
    · rw [step, heq]
      exact hd
    · rw [step, heq]
      exact hd.onPacket hfd
  | pump maxPayload peers io => exact hd.pump hfd
  | deliver => exact ⟨hd.ids, hd.tags, hd.port_lo, hd.port_hi, hd.fds, hd.fds_lt⟩

/-- **One step** keeps the table keyed exactly when it dials no REQUEST over a live connection. -/
theorem step_keyed_iff (a : DevStep) (hd : d.DevInv) (hfd : d.Descriptors a) (h : d.Keyed) :
    (d.step a).Keyed ↔ d.Unclaimed a := by
  rw [keyed_iff] at h ⊢
  cases a with
  | transmit pkt dial =>
    rcases transmit_eq d pkt dial with ⟨heq, hno⟩ | ⟨p, hp, hcid, hlen, heq⟩
    · rw [step, heq]
      exact ⟨fun _ p hp hcid hlen => absurd hlen (hno p hp hcid), fun _ => h⟩
    · rw [step, heq, ports_onPacket]
      have hun : d.Unclaimed (.transmit pkt dial) ↔
          (p.op = opRequest ∧ dial.isSome = true → (p.srcPort, p.dstPort) ∉ d.ports) := by
        constructor
        · rintro hun ⟨hop, hdial⟩
          exact find_eq_none_iff.1 (hun p hp hcid hlen hop hdial)
        · intro himp q hq _ _ hop hdial
          obtain rfl := Option.some.inj (hp.symm.trans hq)
          exact find_eq_none_iff.2 (himp ⟨hop, hdial⟩)
      rw [hun]
      split_ifs with hreq
      · rw [← concat_eq_append, nodup_concat]
        exact ⟨fun hn _ => hn.1, fun hn => ⟨hn hreq, h⟩⟩
      · rw [append_nil]
        exact ⟨fun _ hr => absurd hr hreq, fun _ => h⟩
  | pump maxPayload peers io => exact ⟨fun _ => trivial, fun _ => nodup_ports_pump hd hfd h⟩
  | deliver => exact ⟨fun _ => trivial, fun _ => h⟩

/-- **Connections are uniquely keyed exactly when no REQUEST claims the ports of another.**  For
every interleaving of guest packets, pumps that accept host peers, and deliveries, the ports in
the table are distinct in every state of the run, and `find` selects the only connection that has
them, if and only if every REQUEST that is dialed finds no live connection under its ports. -/
theorem keyed_iff_unclaimed (guestCid : ℕ) (l : List DevStep)
    (hl : Runs.Each step Descriptors (new guestCid) l) :
    (∀ pre, pre <+: l → (Runs.run step (new guestCid) pre).Keyed) ↔
      Runs.Each step Unclaimed (new guestCid) l :=
  Runs.always_iff_each (I := DevInv) (fun _ a hd hfd => step_devInv a hd hfd)
    (fun _ a hd hfd h => step_keyed_iff a hd hfd h) (new_devInv guestCid)
    (keyed_iff.2 nodup_nil) hl

/-- A guest that connects and is then called by a host peer. -/
def callRun : List DevStep :=
  [.transmit (VsockSys.guestPkt opRequest []) (some 3), .pump 0 [(40000, 4)] fun _ => ⟨[], []⟩,
    .deliver]

theorem callRun_descriptors : Runs.Each step Descriptors (new 3) callRun := by
  refine ⟨?_, ⟨by decide, ?_⟩, trivial, trivial⟩
  · rintro fd ⟨⟩
    exact ⟨by decide, nofun⟩
  · intro peer hpeer
    obtain rfl := mem_singleton.1 hpeer
    refine ⟨by decide, ?_⟩
    decide

/-- In that run the host peer asks for the guest port in use and the first host port tried is
taken: it is given the next one. -/
theorem keyed_callRun :
    (∀ pre, pre <+: callRun → (Runs.run step (new 3) pre).Keyed) ∧
      (Runs.run step (new 3) callRun).ports = [(40000, 1024), (40000, 1025)] := by
  refine ⟨(keyed_iff_unclaimed 3 callRun callRun_descriptors).2 ⟨?_, trivial, trivial, trivial⟩,
    by decide⟩
  exact fun _ _ _ _ _ _ => rfl

/-- **A repeated REQUEST is dialed again.**  The same packet twice, with a host that accepts both:
two connections with the same ports. -/
theorem request_twice :
    let l : List DevStep := [.transmit (VsockSys.guestPkt opRequest []) (some 3),
      .transmit (VsockSys.guestPkt opRequest []) (some 4)]
    Runs.Each step Descriptors (new 3) l ∧
      (Runs.run step (new 3) l).ports = [(40000, 1024), (40000, 1024)] ∧
      ¬ (Runs.run step (new 3) l).Keyed := by
  intro l
  have hports : (Runs.run step (new 3) l).ports = [(40000, 1024), (40000, 1024)] := by decide
  refine ⟨⟨?_, ?_, trivial⟩, hports, fun hk => ?_⟩
  · rintro fd ⟨⟩
    exact ⟨by decide, nofun⟩
  · rintro fd ⟨⟩
    refine ⟨by decide, ?_⟩
    decide
  · have hnodup := hk.nodup
    exact absurd hnodup (by decide)

end VsockDevice
end Amber.Vsock
