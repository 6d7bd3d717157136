import Amber.Net.Netstack

/-!
# Is the translation of addresses invertible?

A frame of a flow is sent on to the gateway and the flow's ephemeral port; a reply from there is
matched by that port and the guest's, and made to come from the host the guest dialed.  That
works as long as no two live flows share the pair of ports.  The ephemeral port comes from a
16-bit counter that runs from 40000 to 65535 and round again; flows and inbound dials both take
from it, and nobody asks whether a port is in use.

* `roundTrip` — with distinct pairs, the reply to a translated frame is translated back.
* `invertible_iff_free` — in every state of a run, of any acts in any order, the pairs are distinct
  and replies come back right, exactly when no SYN opens a flow on the pair of a live one.
* `ephAfter_laps` — 25536 steps bring the counter round.
* `pair_reused` — a flow, 25535 inbound dials, and a second connection of the guest from the same
  port: two flows under one pair.
-/

namespace Amber.Net

open ByteBuf List Function Runs

/-- What a reply is matched by. -/
def Flow.pair (f : Flow) : ℕ × ℕ := (f.guestPort, f.eph)

namespace Netstack

variable {sums : Checksums} {allowPrivate : Bool} {s : Netstack} {t : TcpTuple}

def pairs (s : Netstack) : List (ℕ × ℕ) := s.flows.map Flow.pair

theorem pairs_eq (s : Netstack) : s.pairs = s.names.map fun n => (n.1, n.2.2.2) := by
  rw [names, map_map]
  rfl

/-- For every live flow: a frame of the guest to the flow's destination, translated, goes to the
gateway; and every answer to it, from the gateway and with addresses and ports swapped, is
translated to come from the address and port the guest dialed. -/
def RoundTrip (sums : Checksums) (s : Netstack) : Prop :=
  ∀ f ∈ s.flows, ∀ frame t, tcpTuple frame = some t → t.src = guestIp →
    (t.sport, t.dst, t.dport) = (f.guestPort, f.extIp, f.extPort) →
    ∀ frame', s.dnatIn sums frame = some frame' →
      ∃ t', tcpTuple frame' = some t' ∧ t'.dst = gatewayIp ∧
        ∀ reply r, tcpTuple reply = some r → 20 ≤ headerLen reply →
          (r.src, r.dst, r.sport, r.dport) = (t'.dst, t'.src, t'.dport, t'.sport) →
          ∃ reply' r', s.dnatOut sums reply = some reply' ∧ tcpTuple reply' = some r' ∧
            (r'.src, r'.sport) = (f.extIp, f.extPort) ∧ (r'.dst, r'.dport) = (t.src, t.sport)

/-- The property in question: distinct pairs, and translations that are undone. -/
structure Invertible (sums : Checksums) (s : Netstack) : Prop where
  distinct : s.pairs.Nodup
  undone : s.RoundTrip sums

/-- What the fields of a flow fit in. -/
def InRange (n : ℕ × ℕ × ℕ × ℕ) : Prop :=
  n.2.1 < 256 ^ 4 ∧ n.2.2.1 < 256 ^ 2 ∧ n.2.2.2 < 256 ^ 2

/-- What holds of the table in every state. -/
structure Sound (s : Netstack) : Prop where
  tabled : s.Tabled
  ranges : ∀ n ∈ s.names, InRange n

/-! ## Frames there and back -/

theorem ephAfter_lt (eph : ℕ) : ephAfter eph < 256 ^ 2 := by
  unfold ephAfter
  omega

theorem tcpTuple_ranges {frame : List UInt8} (h : tcpTuple frame = some t) :
    t.dst < 256 ^ 4 ∧ t.dport < 256 ^ 2 := by
  obtain ⟨-, -, -, -, -, rfl⟩ := tcpTuple_eq_some h
  exact ⟨be_lt _ _ _, be_lt _ _ _⟩

/-- A list has one element with a given image, if images are distinct. -/
theorem find?_of_nodup_map {α β : Type} {l : List α} {g : α → β} {p : α → Bool} {a : α}
    (hnodup : (l.map g).Nodup) (ha : a ∈ l) (hpa : p a = true)
    (hp : ∀ b ∈ l, p b = true → g b = g a) : l.find? p = some a := by
  cases hf : l.find? p with
  | none => exact absurd hpa (find?_eq_none.1 hf a ha)
  | some b =>
    have hb := mem_of_find?_eq_some hf
    rw [inj_on_of_nodup_map hnodup hb ha (hp b hb (find?_some hf))]

theorem carries_eq {f g : Flow} (hf : f.carries t = true) (hg : g.carries t = true) :
    (fun n : ℕ × ℕ × ℕ × ℕ => (n.1, n.2.1, n.2.2.1)) g.names =
      (fun n : ℕ × ℕ × ℕ × ℕ => (n.1, n.2.1, n.2.2.1)) f.names :=
  (carries_iff.1 hg).trans (carries_iff.1 hf).symm

theorem answers_iff {f : Flow} :
    f.answers t = true ↔ f.pair = (t.dport, t.sport) := by
  simp [Flow.answers, Flow.pair, and_comm]

/-- `rewrite` goes through only when the header has room for the addresses. -/
theorem headerLen_of_rewrite {frame frame' : List UInt8} (ht : tcpTuple frame = some t)
    {a b c d : Option ℕ} (h : rewrite sums frame a b c d = some frame') : 20 ≤ headerLen frame := by
  obtain ⟨heth, -, hip, -⟩ := tcpTuple_eq_some ht
  rw [rewrite, if_neg (not_lt.2 heth), hip, if_neg (by decide)] at h
  split_ifs at h with hshort
  omega

/-- **With distinct pairs a translation is undone.** -/
theorem roundTrip (h : s.Sound) (hpairs : s.pairs.Nodup) : s.RoundTrip sums := by
  intro f hf frame t ht hsrc hkey frame' hin
  have hrange : InRange f.names := h.ranges _ (mem_map_of_mem hf)
  have heph : f.eph % 256 ^ 2 = f.eph := Nat.mod_eq_of_lt hrange.2.2
  have hcarry : f.carries t = true := carries_iff.2 hkey.symm
  have hkeyed :
      (s.flows.map fun f => (fun n : ℕ × ℕ × ℕ × ℕ => (n.1, n.2.1, n.2.2.1)) f.names).Nodup := by
    have := h.tabled.keyed
    rwa [keys, names, map_map] at this
  have hfind : s.flows.find? (Flow.carries t) = some f :=
    find?_of_nodup_map hkeyed hf hcarry fun g _ hg => carries_eq hcarry hg
  -- there: to the gateway and the flow's port
  simp only [dnatIn, ht, hsrc, bne_self_eq_false, Bool.false_eq_true, if_false, hfind] at hin
  obtain ⟨frame'', hin', -, ht'⟩ := tcpTuple_rewrite sums ht (headerLen_of_rewrite ht hin) none
    (some gatewayIp) none (some f.eph)
  obtain rfl := Option.some.inj (hin'.symm.trans hin)
  refine ⟨_, ht', rfl, fun reply r hr hlen hswap => ?_⟩
  simp only [Option.map_some, Option.map_none, Option.getD_some, Option.getD_none, hsrc,
    heph, Prod.mk.injEq] at hswap
  obtain ⟨hrsrc, hrdst, hrsport, hrdport⟩ := hswap
  have hsport : t.sport = f.guestPort := congrArg Prod.fst hkey
  -- and back: from the address and port dialed
  have hanswer : f.answers r = true := by
    rw [answers_iff, hrsport, hrdport, hsport]
    rfl
  have hback : s.flows.find? (Flow.answers r) = some f :=
    find?_of_nodup_map hpairs hf hanswer fun g _ hg =>
      (answers_iff.1 hg).trans (answers_iff.1 hanswer).symm
  obtain ⟨reply', hout, -, hr'⟩ := tcpTuple_rewrite sums hr hlen (some f.extIp) none
    (some f.extPort) none
  refine ⟨reply', _, ?_, hr', ?_, ?_⟩
  · simp only [dnatOut, hr, hrsrc, hrdst, bne_self_eq_false, hback]
    exact hout
  · have hip : f.extIp % 256 ^ 4 = f.extIp := Nat.mod_eq_of_lt hrange.1
    have hport : f.extPort % 256 ^ 2 = f.extPort := Nat.mod_eq_of_lt hrange.2.1
    simp only [Option.map_some, Option.getD_some, hip, hport]
  · simp only [Option.map_none, Option.getD_none, hrdst, hrdport, hsrc]

theorem invertible_iff (h : s.Sound) : s.Invertible sums ↔ s.pairs.Nodup :=
  ⟨fun hi => hi.distinct, fun hp => ⟨hp, roundTrip h hp⟩⟩

/-! ## Runs -/

/-- A SYN that opens a flow finds no live flow of its port on the port the counter gives it. -/
def Free (allowPrivate : Bool) (s : Netstack) : Act → Prop
  | .maybeOpenFlow frame true => s.crashed = false → ∀ t, s.freshSyn allowPrivate frame = some t →
      (t.sport, ephAfter s.nextEph) ∉ s.pairs
  | _ => True

theorem act_sound (a : Act) (h : s.Sound) : (s.act sums allowPrivate a).Sound := by
  refine ⟨act_tabled a h.tabled, ?_⟩
  rcases act_flows sums allowPrivate s a with ⟨frame, listens, t, -, hsyn, -, hnames, -⟩ |
    ⟨-, hsub, -⟩
  · rw [hnames]
    intro n hn
    rcases mem_append.1 hn with hn | hn
    · exact h.ranges n hn
    · split_ifs at hn
      · obtain rfl := mem_singleton.1 hn
        obtain ⟨hdst, hdport⟩ := tcpTuple_ranges (freshSyn_eq_some hsyn).1
        exact ⟨hdst, hdport, ephAfter_lt _⟩
      · exact absurd hn not_mem_nil
  · exact fun n hn => h.ranges n (hsub.subset hn)

/-- **One act** keeps the translation invertible exactly when it opens no flow on a taken pair. -/
theorem act_invertible_iff (a : Act) (h : s.Sound) (hi : s.Invertible sums) :
    (s.act sums allowPrivate a).Invertible sums ↔ s.Free allowPrivate a := by
  rw [invertible_iff (act_sound a h), pairs_eq]
  have hpairs := hi.distinct
  rw [pairs_eq] at hpairs
  cases hcrash : s.crashed with
  | true =>
    have hfree : s.Free allowPrivate a := by
      cases a with
      | maybeOpenFlow frame listens =>
        cases listens with
        | true => exact fun hc => absurd (hc.symm.trans hcrash) (by decide)
        | false => trivial
      | _ => trivial
    rw [act, if_pos hcrash]
    exact ⟨fun _ => hfree, fun _ => hpairs⟩
  | false =>
    rcases act_flows sums allowPrivate s a with ⟨frame, listens, t, rfl, hsyn, -, hnames, -⟩ |
      ⟨-, hsub, -⟩
    · rw [hnames]
      cases listens with
      | false =>
        simp only [Bool.false_eq_true, if_false, append_nil]
        exact ⟨fun _ => trivial, fun _ => hpairs⟩
      | true =>
        have hfree : s.Free allowPrivate (.maybeOpenFlow frame true) ↔
            (t.sport, ephAfter s.nextEph) ∉ s.names.map fun n => (n.1, n.2.2.2) := by
          rw [← pairs_eq]
          refine ⟨fun hf => hf hcrash t hsyn, fun hf _ t' ht' => ?_⟩
          obtain rfl := Option.some.inj (hsyn.symm.trans ht')
          exact hf
        rw [hfree, if_pos rfl, map_append, map_singleton, ← concat_eq_append, nodup_concat]
        exact ⟨fun hn => hn.1, fun hn => ⟨hn, hpairs⟩⟩
    · have hfree : s.Free allowPrivate a := by
        cases a with
        | maybeOpenFlow frame listens =>
          cases listens with
          | false => trivial
          | true =>
            -- a SYN that passes the checks adds a flow
            intro _ t ht
            have hle := hsub.length_le
            rw [act_opens hcrash ht, length_append, length_singleton] at hle
            omega
        | _ => trivial
      exact ⟨fun _ => hfree, fun _ => hpairs.sublist (hsub.map _)⟩

theorem new_sound : new.Sound := ⟨new_tabled, nofun⟩

/-- **The translation is invertible exactly when no pair is taken twice.**  For every run, of any
length and in any order, of SYNs, pumps that close flows, inbound dials and whatever else the
backend does: in every state the live flows have distinct pairs of ports and every translated
frame's answer is translated back, if and only if no SYN opens a flow whose port already has a
live flow on the ephemeral port that the counter yields. -/
theorem invertible_iff_free (sums : Checksums) (allowPrivate : Bool) (l : List Act) :
    (∀ pre, pre <+: l → (Runs.run (act sums allowPrivate) new pre).Invertible sums) ↔
      Runs.Each (act sums allowPrivate) (Free allowPrivate) new l :=
  always_iff_each (L := fun _ _ => True) (I := Sound) (P := Invertible sums)
    (fun _ a h _ => act_sound a h) (fun _ a h _ hi => act_invertible_iff a h hi) new_sound
    ((invertible_iff new_sound).2 nodup_nil) (each_of_forall fun _ _ => trivial)

/-! ## Round the counter -/

theorem iterate_ephAfter {n : ℕ} (h : n < 25535) : ephAfter^[n] 40001 = 40001 + n := by
  induction n with
  | zero => rfl
  | succ n ih =>
    rw [iterate_succ_apply', ih (by omega), ephAfter]
    omega

/-- **25536 steps bring the counter round.** -/
theorem ephAfter_laps : ephAfter^[25536] 40001 = 40001 := by
  rw [iterate_succ_apply', iterate_succ_apply', iterate_ephAfter (by decide)]
  rfl

/-- A connection of the guest, a number of inbound dials, and another connection from the same
port to somewhere else. -/
def lapRun (dials : ℕ) : List Act :=
  [.maybeOpenFlow (synFrame 7 8 8 8 8) true] ++ List.replicate dials (.incoming 22) ++
    [.acceptInbound fun _ => true, .maybeOpenFlow (synFrame 7 1 1 1 1) true]

theorem run_incoming (sums : Checksums) (allowPrivate : Bool) (dials : ℕ) :
    ∀ s : Netstack, s.crashed = false →
      Runs.run (act sums allowPrivate) s (List.replicate dials (.incoming 22)) =
        { s with accepted := s.accepted ++ List.replicate dials 22 } := by
  induction dials with
  | zero => exact fun s _ => by simp
  | succ dials ih =>
    intro s hs
    have hact : s.act sums allowPrivate (.incoming 22) =
        { s with accepted := s.accepted ++ [22] } := by
      rw [act, if_neg (by rw [hs]; decide), run1]
    rw [replicate_succ, run_cons, hact,
      ih { s with accepted := s.accepted ++ [22] } hs, replicate_succ]
    simp

/-- If the dials take the counter all but one step round, the second connection gets the port of
the first. -/
theorem pairs_lapRun {dials : ℕ} (hlap : ephAfter^[dials + 1] 40001 = 40001) :
    (Runs.run (act noSums false) new (lapRun dials)).pairs = [(7, 40001), (7, 40001)] := by
  set s1 := new.act noSums false (.maybeOpenFlow (synFrame 7 8 8 8 8) true)
  have hfirst : run (act noSums false) new [.maybeOpenFlow (synFrame 7 8 8 8 8) true] = s1 := by
    rw [run_cons, run_nil]
  have hnames1 : s1.names = [(7, ipv4 8 8 8 8, 80, 40001)] := by decide
  obtain ⟨f, hflows1, hf⟩ := map_eq_singleton_iff.1 hnames1
  obtain ⟨heph1, hcrash1, hacc1⟩ : s1.nextEph = 40001 ∧ s1.crashed = false ∧ s1.accepted = [] :=
    ⟨by decide, by decide, by decide⟩
  clear_value s1
  set s2 : Netstack := { s1 with accepted := s1.accepted ++ replicate dials 22 } with hs2
  have hlen : s2.accepted.length = dials := by
    rw [hs2, hacc1, nil_append]
    exact length_replicate
  -- the dials move the counter and nothing else
  obtain ⟨hflows, -, -, heph, hcrash⟩ := s2.acceptInbound_frame fun _ => true
  set s3 := s2.acceptInbound fun _ => true
  have heph3 : ephAfter s3.nextEph = 40001 := by
    have hnext : s2.nextEph = 40001 := heph1
    rw [heph, hlen, hnext, ← iterate_succ_apply' ephAfter dials]
    exact hlap
  have hcrash2 : s2.crashed = false := hcrash1
  have hflows3 : s3.flows = [f] := hflows.trans hflows1
  have hsyn : s3.freshSyn false (synFrame 7 1 1 1 1) =
      some ⟨guestIp, ipv4 1 1 1 1, 7, 80, true, false⟩ := by
    have ht : tcpTuple (synFrame 7 1 1 1 1) =
        some ⟨guestIp, ipv4 1 1 1 1, 7, 80, true, false⟩ := by decide
    have hother : f.carries ⟨guestIp, ipv4 1 1 1 1, 7, 80, true, false⟩ = false := by
      rw [Bool.eq_false_iff]
      intro hc
      have hip : f.extIp = ipv4 8 8 8 8 := congrArg (fun n => n.2.1) hf
      rw [carries_iff, hip] at hc
      exact absurd hc (by simp [ipv4])
    simp only [freshSyn, ht, hflows3, any_cons, hother, any_nil, length_singleton]
    decide
  have hrun : run (act noSums false) new (lapRun dials) =
      s3.act noSums false (.maybeOpenFlow (synFrame 7 1 1 1 1) true) := by
    have hacc : s2.act noSums false (.acceptInbound fun _ => true) = s3 := by
      rw [act, if_neg (by rw [hcrash2]; decide), run1]
    rw [lapRun, append_assoc, run_append, run_append, hfirst,
      run_incoming noSums false dials s1 hcrash1, ← hs2, run_cons, hacc]
    rfl
  have hnames : s3.names = [(7, ipv4 8 8 8 8, 80, 40001)] := by
    rw [names, hflows3, map_singleton, hf]
  rw [hrun, pairs_eq, act_opens (hcrash.trans hcrash1) hsyn, hnames, heph3]
  rfl

/-- **A pair is taken twice.**  A connection of the guest, 25535 connections forwarded to it, and a
second connection from the same port: the first flow and the second have the same two ports. -/
theorem pair_reused :
    (Runs.run (act noSums false) new (lapRun 25535)).pairs = [(7, 40001), (7, 40001)] ∧
      ¬ (Runs.run (act noSums false) new (lapRun 25535)).Invertible noSums := by
  have hpairs := pairs_lapRun ephAfter_laps
  refine ⟨hpairs, fun hinv => ?_⟩
  have hd := hinv.distinct
  rw [hpairs] at hd
  exact absurd hd (by decide)

end Netstack

end Amber.Net
