import Amber.Core.MmioBus
import Amber.Lib.Conveyor

/-!
# The console trigger

A template is captured when its guest prints a marker.  `arm_marker` of `amber-core/src/bus.rs`
sets the marker, every byte the guest writes to the data register goes through a window of the
marker's length, and `marked` latches when the window shows the marker.

* `Watching` — what the trigger knows of the bytes since it was armed: whether they contain the
  marker, and as long as they do not, the last of them.
* `access_watching` — every register access keeps it.
* `fires_iff_written` — the trigger has fired exactly if the bytes written to the data register
  since it
  was armed contain the marker, and from then on it stays so.
* `console_lossless` — both ways, every byte arrives once and in order.
-/

namespace Amber.Pl011

open List Conveyor

/-- `arm_marker`; an empty marker disables the trigger. -/
def armMarker (p : Pl011) (marker : List UInt8) : Pl011 :=
  { p with marker, txTail := [], marked := false }

/-- `push_rx`: a byte from the host, and the receive interrupts. -/
def pushRx (p : Pl011) (byte : UInt8) : Pl011 :=
  { p with rx := p.rx ++ [byte], ris := p.ris ||| (intRx ||| intRt) }

/-! ## Accesses -/

/-- What happens to the UART: a register access of the guest, or a byte of the host's. -/
inductive Access
  | read (offset : ℕ)
  | write (offset : ℕ) (value : BitVec 64)
  | pushRx (byte : UInt8)

def access (p : Pl011) : Access → Pl011
  | .read offset => (p.read offset).1
  | .write offset value => p.write offset value
  | .pushRx byte => p.pushRx byte

/-- The byte that an access writes to the data register. -/
def Access.sent : Access → Option UInt8
  | .write offset value => if offset = regDr then some (UInt8.ofNat value.toNat) else none
  | _ => none

/-- The bytes that the accesses write to the data register. -/
def written (l : List Access) : List UInt8 := l.filterMap Access.sent

theorem written_cons (a : Access) (l : List Access) :
    written (a :: l) = a.sent.toList ++ written l := by
  rw [written, filterMap_cons, written]
  cases a.sent <;> rfl

/-- The state that the trigger looks at. -/
def trigger (p : Pl011) : List UInt8 × List UInt8 × Bool := (p.marker, p.txTail, p.marked)

/-- Only a read of the data register changes anything. -/
theorem read_fst (p : Pl011) {offset : ℕ} (h : offset ≠ regDr) : (p.read offset).1 = p := by
  unfold read
  split
  · rfl
  · rw [if_neg h]
    simp only [apply_ite Prod.fst, ite_self]

/-- Only a write to the data register moves the trigger. -/
theorem access_of_not_sent (p : Pl011) {a : Access} (h : a.sent = none) :
    (p.access a).trigger = p.trigger := by
  cases a with
  | read offset =>
    by_cases hdr : offset = regDr
    · rw [hdr]
      rfl
    · rw [access, read_fst p hdr]
  | pushRx byte => rfl
  | write offset value =>
    have hdr : offset ≠ regDr := by
      rintro rfl
      cases h
    simp only [access, write, if_neg hdr, trigger, apply_ite marker, apply_ite txTail,
      apply_ite marked, ite_self]

theorem access_of_sent {p : Pl011} {a : Access} {byte : UInt8} (h : a.sent = some byte) :
    p.access a = p.transmit byte := by
  cases a with
  | read _ | pushRx _ => cases h
  | write offset value =>
    rw [Access.sent] at h
    split_ifs at h with hdr
    obtain rfl := Option.some.inj h
    rw [access, write, if_pos hdr]

/-! ## The window -/

/-- The trigger has seen `bytes` since it was armed. -/
structure Watching (marker bytes : List UInt8) (p : Pl011) : Prop where
  marker_eq : p.marker = marker
  marked_iff : p.marked = true ↔ marker <:+: bytes
  tail_eq : p.marked = false → p.txTail = bytes.drop (bytes.length - marker.length)

section Window

variable {p : Pl011} {marker bytes : List UInt8}

theorem armMarker_watching (p : Pl011) (hne : marker ≠ []) :
    (p.armMarker marker).Watching marker [] := by
  refine ⟨rfl, ?_, fun _ => drop_nil.symm⟩
  rw [infix_nil]
  exact ⟨fun h => Bool.noConfusion h, fun h => absurd h hne⟩

/-- The last bytes of a stream, from those before it: what falls out of the window is not needed
again. -/
theorem drop_window (bytes : List UInt8) (byte : UInt8) (n : ℕ) :
    let tail := bytes.drop (bytes.length - n) ++ [byte]
    tail.drop (tail.length - n) = (bytes ++ [byte]).drop ((bytes ++ [byte]).length - n) := by
  have hsplit : bytes.drop (bytes.length - n) ++ [byte] =
      (bytes ++ [byte]).drop (bytes.length - n) := by
    rw [drop_append_of_le_length (Nat.sub_le _ _)]
  dsimp only
  rw [hsplit, drop_drop, length_drop]
  congr 1
  rw [length_append, length_singleton]
  omega

variable (h : p.Watching marker bytes) (hne : marker ≠ [])

include h hne

/-- **One byte**: the window moves on, and the trigger fires when it shows the marker. -/
theorem Watching.transmit (byte : UInt8) :
    (p.transmit byte).Watching marker (bytes ++ [byte]) := by
  obtain ⟨rfl, hmarked, htail⟩ := h
  unfold Pl011.transmit
  dsimp only
  cases hm : p.marked with
  | true =>
    -- the trigger has fired: the window is not looked at any more
    rw [if_neg (by simp)]
    refine ⟨rfl, ?_, nofun⟩
    have hinside := hmarked.1 hm
    exact ⟨fun _ => hinside.trans (prefix_append bytes [byte]).isInfix, fun _ => rfl⟩
  | false =>
    rw [if_pos ⟨hne, rfl⟩, htail hm, drop_window]
    refine ⟨rfl, ?_, fun _ => rfl⟩
    have hnot : ¬ p.marker <:+: bytes := fun hinside => by
      rw [hmarked.2 hinside] at hm
      cases hm
    rw [beq_iff_eq, infix_concat_iff, or_iff_left hnot, suffix_iff_eq_drop]
    exact eq_comm

/-- **Every access** keeps what the trigger knows. -/
theorem access_watching (a : Access) :
    (p.access a).Watching marker (bytes ++ a.sent.toList) := by
  cases hsent : a.sent with
  | none =>
    have hsame := access_of_not_sent p hsent
    simp only [trigger, Prod.mk.injEq] at hsame
    obtain ⟨hmarker, htail, hmarked⟩ := hsame
    rw [Option.toList_none, append_nil]
    refine ⟨hmarker.trans h.marker_eq, ?_, fun hfalse => ?_⟩
    · rw [hmarked]
      exact h.marked_iff
    · rw [htail]
      exact h.tail_eq (hmarked.symm.trans hfalse)
  | some byte =>
    rw [access_of_sent hsent]
    exact h.transmit hne byte

theorem run_watching (l : List Access) :
    (Runs.run access p l).Watching marker (bytes ++ written l) := by
  induction l generalizing p bytes with
  | nil =>
    rw [written, filterMap_nil, append_nil]
    exact h
  | cons a l ih =>
    rw [written_cons, ← append_assoc]
    exact ih (access_watching h hne a)

end Window

/-- **The trigger fires exactly on the marker.**  After any accesses, `marked` says whether the
bytes written to the data register since the trigger was armed contain the marker; and once it is
set, further accesses leave it set. -/
theorem fires_iff_written (p : Pl011) {marker : List UInt8} (hne : marker ≠ []) (l : List Access) :
    ((Runs.run access (p.armMarker marker) l).marked = true ↔ marker <:+: written l) ∧
      ∀ l', (Runs.run access (p.armMarker marker) l).marked = true →
        (Runs.run access (p.armMarker marker) (l ++ l')).marked = true := by
  have hrun : ∀ l, (Runs.run access (p.armMarker marker) l).Watching marker (written l) :=
    fun l => run_watching (armMarker_watching p hne) hne l
  refine ⟨(hrun l).marked_iff, fun l' hmarked => ?_⟩
  have hinside := (hrun l).marked_iff.1 hmarked
  have hlonger : written l <+: written (l ++ l') := by
    rw [written, written, filterMap_append]
    exact prefix_append _ _
  exact (hrun (l ++ l')).marked_iff.2 (hinside.trans hlonger.isInfix)

/-- The output `aab` contains the marker `ab`, and a read and an interrupt mask in between do not
matter. -/
theorem fires_iff_written_aab :
    (Runs.run access (new.armMarker [97, 98])
      [.write regDr 97, .read regFr, .write regDr 97, .write regImsc 98, .write regDr 98]).marked =
        true :=
  (fires_iff_written new (by decide) _).1.2 ⟨[97], [], by decide⟩

/-! ## Both directions -/

/-- The byte that the host pushes. -/
def Access.pushed : Access → List UInt8
  | .pushRx byte => [byte]
  | _ => []

/-- What a read of the data register answers, unless the FIFO is empty. -/
def got (p : Pl011) : Access → List UInt8
  | .read offset => if offset = regDr ∧ p.rx ≠ [] then [UInt8.ofNat (p.read offset).2] else []
  | _ => []

/-- The bytes that the guest reads. -/
def taken : Pl011 → List Access → List UInt8
  | _, [] => []
  | p, a :: l => p.got a ++ taken (p.access a) l

theorem access_carries (p : Pl011) (a : Access) :
    (p.access a).out = p.out ++ a.sent.toList ∧
      Carries p.rx a.pushed (p.got a) (p.access a).rx := by
  cases a with
  | pushRx byte => exact ⟨(append_nil _).symm, rfl⟩
  | write offset value =>
    by_cases hdr : offset = regDr
    · simp only [access, write, transmit, Access.sent, if_pos hdr]
      split_ifs <;> exact ⟨rfl, .refl _⟩
    · simp [access, write, Access.sent, hdr, apply_ite out, apply_ite rx, Carries, got,
        Access.pushed]
  | read offset =>
    by_cases hdr : offset = regDr
    · rw [hdr]
      refine ⟨(append_nil _).symm, ?_⟩
      cases hrx : p.rx <;>
        simp [Carries, got, access, read, takeRx, hrx, idBytes, regDr, Access.pushed]
    · rw [got, if_neg fun h => hdr h.1, access, read_fst p hdr]
      exact ⟨(append_nil _).symm, .refl _⟩

/-- **The console loses nothing.**  However the guest's accesses and the host's input mix, the
guest reads the bytes that were pushed, each once and in order, the FIFO holds those it has yet to
read, and the host gets what the guest writes. -/
theorem console_lossless (p : Pl011) (l : List Access) :
    (Runs.run access p l).out = p.out ++ written l ∧
      p.rx ++ l.flatMap Access.pushed = taken p l ++ (Runs.run access p l).rx := by
  induction l generalizing p with
  | nil => exact ⟨(append_nil _).symm, append_nil _⟩
  | cons a l ih =>
    obtain ⟨hout, hrx⟩ := access_carries p a
    obtain ⟨houts, hrxs⟩ := ih (p.access a)
    rw [hout, append_assoc, ← written_cons] at houts
    exact ⟨houts, hrx.trans hrxs⟩

end Amber.Pl011
