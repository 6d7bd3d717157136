import Amber.Hvf.GicDelivery

/-!
# Restoring a blob and the banks of the CPUs

A controller has one bank for each vcpu, and every access picks a bank by the number of the vcpu.
So a restore must not leave it with fewer banks than there are vcpus, whatever the blob is: a
current one, one of the older layout, a truncated one or no blob at all.

* `restoreChecked_eq` — the restore never indexes a bank that is not there.
* `keepsBanks_iff` — a restore leaves every vcpu its bank exactly if the blob begins with the magic
  byte or there is only one vcpu: anything else is taken for the older layout, and that makes a
  controller of one bank.
-/

namespace Amber.Hvf

open ByteReader List

/-! ## The restore with its indices checked -/

/-- `restore_v2`, into a controller that has `have_` CPUs; `none` is a failed `self.cpus[k]`. -/
def readV2Checked (have_ : ℕ) : Reader (Option GicV2) := do
  let count ← byte
  let ncpu := min (max count.toNat 1) maxCpus
  let distEnabled ← flag
  let filled ← fill readBank ncpu 0 (List.replicate (max ncpu have_) CpuBank.default)
  match filled with
  | none => return none
  | some cpus => do
    let shared ← readLines numIntid
    let targets ← array byte numIntid
    return some { distEnabled, cpus, shared, targets }

/-- `restore`.  The older layout has one bank made for it, and that is the only one indexed. -/
def GicV2.restoreChecked (g : GicV2) (b : List UInt8) : Option GicV2 :=
  if b.head? = some blobMagic then ((readV2Checked g.cpus.length).run (b.drop 2)).1
  else some (g.restoreLegacy b)

namespace GicV2

/-- The loop over the banks finds them all there, since there are never fewer than it fills. -/
theorem fill_banks (n m : ℕ) :
    fill readBank n 0 (List.replicate (max n m) CpuBank.default) = do
      let banks ← many readBank n
      return some (banks ++ List.replicate (m - banks.length) CpuBank.default) := by
  refine StateT.ext fun bs => ?_
  have hlen : ((many readBank n).run bs).1.length = n := length_many readBank n bs
  have hrest : (replicate (max n m) CpuBank.default).drop n =
      replicate (m - ((many readBank n).run bs).1.length) CpuBank.default := by
    rw [hlen, drop_replicate]
    congr 1
    omega
  rw [fill_run readBank n 0 _ bs (by rw [length_replicate]; omega), take_zero,
    nil_append, zero_add, hrest, StateT.run_bind]
  rfl

theorem readV2Checked_eq (m : ℕ) : readV2Checked m = some <$> readV2 m := by
  simp [readV2Checked, readV2, fill_banks]

/-- **No index fails in a restore**, whatever the blob. -/
theorem restoreChecked_eq (g : GicV2) (b : List UInt8) :
    g.restoreChecked b = some (g.restore b) := by
  unfold restoreChecked restore
  split_ifs
  · rw [readV2Checked_eq, StateT.run_map]
    rfl
  · rfl

/-! ## How many banks there are afterwards -/

theorem length_readV2 (m : ℕ) : Yields (readV2 m) fun g => m ≤ g.cpus.length := by
  refine Yields.bind fun count => Yields.bind fun distEnabled => Yields.bind fun banks =>
    Yields.bind fun shared => Yields.bind fun targets => Yields.pure ?_
  rw [length_append, length_replicate]
  omega

theorem length_readLegacy (old : Lines numIntid) :
    Yields (readLegacy old) fun g => g.cpus.length = 1 :=
  Yields.bind fun _ => Yields.bind fun _ => Yields.bind fun _ => Yields.bind fun _ =>
    Yields.bind fun _ => Yields.bind fun _ => Yields.pure rfl

theorem length_run (g : GicV2) (l : List Access) :
    (Runs.run access g l).cpus.length = g.cpus.length :=
  Runs.invariant_always (I := fun g' : GicV2 => g'.cpus.length = g.cpus.length)
    (fun _ a h => (length_access a).trans h) rfl l

/-- The restore of `b` completes with no failed index and leaves no fewer banks than there were, and
from then on no access by one of the vcpus, and no look at its IRQ line, misses a bank. -/
def KeepsBanks (g : GicV2) (b : List UInt8) : Prop :=
  ∃ g', g.restoreChecked b = some g' ∧ g.cpus.length ≤ g'.cpus.length ∧
    ∀ l : List Access, (∀ a ∈ l, a.cpu < g.cpus.length) →
      Runs.Each access (fun s a => a.cpu < s.cpus.length) g' l ∧
        ∀ c < g.cpus.length, c < (Runs.run access g' l).cpus.length

/-- **When a restore leaves every vcpu its bank**: exactly if the blob begins with the magic byte of
the current layout, or there is no vcpu but the first. -/
theorem keepsBanks_iff (g : GicV2) (b : List UInt8) :
    g.KeepsBanks b ↔ b.head? = some blobMagic ∨ g.cpus.length ≤ 1 := by
  have hlater : ∀ g' : GicV2, g.cpus.length ≤ g'.cpus.length → ∀ l : List Access,
      (∀ a ∈ l, a.cpu < g.cpus.length) →
      Runs.Each access (fun s a => a.cpu < s.cpus.length) g' l ∧
        ∀ c < g.cpus.length, c < (Runs.run access g' l).cpus.length := by
    intro g' hle l hl
    refine ⟨Runs.each_iff.2 fun pre a post heq => ?_, fun c hc => ?_⟩
    · rw [length_run]
      exact (hl a (heq ▸ mem_append_right _ mem_cons_self)).trans_le hle
    · rw [length_run]
      exact hc.trans_le hle
  have hkeeps : g.KeepsBanks b ↔ g.cpus.length ≤ (g.restore b).cpus.length := by
    constructor
    · rintro ⟨g', hg', hle, -⟩
      rw [restoreChecked_eq, Option.some.injEq] at hg'
      rwa [hg']
    · exact fun hle => ⟨_, restoreChecked_eq g b, hle, hlater _ hle⟩
  rw [hkeeps, restore]
  split_ifs with hmagic
  · rw [restoreV2]
    exact ⟨fun _ => .inl hmagic, fun _ => length_readV2 g.cpus.length (b.drop 2)⟩
  · rw [restoreLegacy, length_readLegacy]
    exact ⟨.inr, fun h => h.resolve_left hmagic⟩

/-- An empty blob leaves a controller of four vcpus with one bank, and the IRQ line of vcpu 3 is
then looked up out of bounds. -/
theorem empty_blob_shrinks :
    (withCpus 4).cpus.length = 4 ∧ ((withCpus 4).restore []).cpus.length = 1 ∧
      ¬ (withCpus 4).KeepsBanks [] := by
  have hone : ((withCpus 4).restore []).cpus.length = 1 := by
    rw [restore, if_neg (by decide), restoreLegacy, length_readLegacy]
  refine ⟨rfl, hone, ?_⟩
  rintro ⟨g', hg', hle, -⟩
  rw [restoreChecked_eq, Option.some.injEq] at hg'
  rw [← hg', hone] at hle
  exact absurd hle (show ¬ 4 ≤ 1 by decide)

end GicV2
end Amber.Hvf
