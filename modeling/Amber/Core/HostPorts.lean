import Mathlib.Data.List.Nodup
import Mathlib.Data.List.Perm.Subperm
import Amber.Core.Vsock

/-!
# The search for a host port

`alloc_host_port` of `amber-core/src/vsock.rs` tries the ephemeral ports one after the other, from
the cursor `next_host_port` on and around at the end of the range, for one that no live connection
to the guest port uses.

* `skipped` — the ports that the search finds in use.
* `allocFrom_search` — they are consecutive, the port returned comes right behind them, and the
  cursor behind it.
* `alloc_free` — with fewer connections than ports, the search does not come to its fallback.
-/

namespace Amber.Vsock.VsockDevice

open WrapCounter List

/-- The ephemeral ports, counted around. -/
def ephemeral (n : ℕ) : ℕ := ephemeralBase + n % ephemeralPorts

/-- The ports that the loop of `alloc_host_port` finds in use. -/
def skipped (conns : List Conn) (guestPort : ℕ) : ℕ → ℕ → List ℕ
  | 0, _ => []
  | tries + 1, hp =>
    if conns.any (Conn.hasKey guestPort hp) then hp :: skipped conns guestPort tries (nextPort hp)
    else []

variable {conns : List Conn} {gp tries m n : ℕ}

theorem ephemeral_range (n : ℕ) : ephemeralBase ≤ ephemeral n ∧ ephemeral n < 2 ^ 32 := by
  simp only [ephemeral, ephemeralPorts, ephemeralBase]
  omega

theorem exists_ephemeral {hp : ℕ} (hlo : ephemeralBase ≤ hp) (hhi : hp < 2 ^ 32) :
    ∃ n < ephemeralPorts, hp = ephemeral n := by
  refine ⟨hp - ephemeralBase, ?_, ?_⟩
  all_goals
    simp only [ephemeral, ephemeralPorts, ephemeralBase] at *
    omega

theorem ephemeral_ne (h : m < n) (hn : n < m + ephemeralPorts) : ephemeral m ≠ ephemeral n :=
  fun heq => mod_ne_mod_of_lt h hn (add_left_cancel heq)

theorem nextPort_ephemeral (n : ℕ) : nextPort (ephemeral n) = ephemeral (n + 1) := by
  unfold nextPort
  split_ifs with h
  all_goals
    simp only [ephemeral, ephemeralPorts, ephemeralBase] at *
    omega

theorem any_of_mem_skipped {hp : ℕ} : ∀ {tries cursor : ℕ}, hp ∈ skipped conns gp tries cursor →
    conns.any (Conn.hasKey gp hp) = true := by
  intro tries
  induction tries with
  | zero => exact nofun
  | succ tries ih =>
    intro cursor h
    rw [skipped] at h
    split_ifs at h with hused
    · rcases mem_cons.1 h with rfl | h
      · exact hused
      · exact ih h
    · exact absurd h not_mem_nil

/-- **What a search does**, from any place of the range. -/
theorem allocFrom_search (conns : List Conn) (gp tries : ℕ) : ∀ n,
    let k := (skipped conns gp tries (ephemeral n)).length
    skipped conns gp tries (ephemeral n) = (range' n k).map ephemeral ∧
      (k < tries ∧
          allocFrom conns gp tries (ephemeral n) = (ephemeral (n + k), ephemeral (n + k + 1)) ∧
          conns.any (Conn.hasKey gp (ephemeral (n + k))) = false ∨
        k = tries ∧ (allocFrom conns gp tries (ephemeral n)).2 = ephemeral (n + k)) := by
  induction tries with
  | zero => exact fun n => ⟨rfl, .inr ⟨rfl, rfl⟩⟩
  | succ tries ih =>
    intro n
    rw [skipped, allocFrom, nextPort_ephemeral]
    split_ifs with hused
    · obtain ⟨hports, hcase⟩ := ih (n + 1)
      generalize skipped conns gp tries (ephemeral (n + 1)) = ports at *
      have hnext : n + (ports.length + 1) = n + 1 + ports.length := by omega
      simp only [length_cons, hnext, range'_succ, map_cons, ← hports, true_and,
        Nat.add_lt_add_iff_right, Nat.add_right_cancel_iff]
      exact hcase
    · exact ⟨rfl, .inl ⟨Nat.succ_pos _, rfl, Bool.eq_false_iff.2 hused⟩⟩

/-- **A search among fewer connections than ports finds a free one**: one that fails has seen every
port in use, and no two of them by the same connection. -/
theorem alloc_free (hlen : conns.length < ephemeralPorts) (gp n : ℕ) :
    ∃ k, skipped conns gp ephemeralPorts (ephemeral n) = (List.range' n k).map ephemeral ∧
      allocFrom conns gp ephemeralPorts (ephemeral n) = (ephemeral (n + k), ephemeral (n + k + 1)) ∧
      conns.any (Conn.hasKey gp (ephemeral (n + k))) = false := by
  obtain ⟨hports, ⟨-, hfound⟩ | ⟨hall, -⟩⟩ := allocFrom_search conns gp ephemeralPorts n
  · exact ⟨_, hports, hfound⟩
  · have hnodup : (skipped conns gp ephemeralPorts (ephemeral n)).Nodup := by
      rw [hports, hall]
      refine pairwise_map.2 ?_
      have hup : (range' n ephemeralPorts).Pairwise (· < ·) := pairwise_lt_range'
      refine hup.imp_of_mem fun hs ht hlt => ephemeral_ne hlt ?_
      have hs := mem_range'_1.1 hs
      have ht := mem_range'_1.1 ht
      omega
    have hsub : skipped conns gp ephemeralPorts (ephemeral n) ⊆ conns.map (·.hostPort) := by
      intro hp hmem
      obtain ⟨c, hc, hkey⟩ := any_eq_true.1 (any_of_mem_skipped hmem)
      rw [Conn.hasKey, Bool.and_eq_true, beq_iff_eq, beq_iff_eq] at hkey
      exact hkey.2 ▸ mem_map_of_mem hc
    have hle := (subperm_of_subset hnodup hsub).length_le
    rw [hall, length_map] at hle
    omega

end Amber.Vsock.VsockDevice
