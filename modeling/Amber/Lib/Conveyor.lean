import Mathlib.Data.List.Basic

/-!
# Stages that keep the order

A stage holds some items.  Over some time it takes others in at its back and gives some out at its
front: `Carries held ins outs held'` says that what it held and took in is, in this order, what it
gave out and still holds, so that nothing was lost, repeated or overtaken.

* `Carries.trans` — one stretch of time after another.
* `Carries.series` — a stage that feeds another is one stage together with it.
-/

namespace Conveyor

open List

variable {α : Type*}

def Carries (held ins outs held' : List α) : Prop := held ++ ins = outs ++ held'

namespace Carries

variable {a a' a'' b b' ins ins' mid outs outs' : List α}

theorem refl (held : List α) : Carries held [] [] held := append_nil held

theorem trans (h : Carries a ins outs a') (h' : Carries a' ins' outs' a'') :
    Carries a (ins ++ ins') (outs ++ outs') a'' := by
  unfold Carries at *
  rw [← append_assoc, h, append_assoc, h', append_assoc]

/-- What is still to come in, seen from both ends of the time. -/
theorem ahead (h : Carries a ins outs a') (rest : List α) :
    a ++ (ins ++ rest) = outs ++ (a' ++ rest) := by
  rw [← append_assoc, h, append_assoc]

/-- The stage in front gives out what it gets from the stage behind. -/
theorem series (front : Carries a mid outs a') (back : Carries b ins mid b') :
    Carries (a ++ b) ins outs (a' ++ b') := by
  unfold Carries at *
  rw [append_assoc, back, ← append_assoc, front, append_assoc]

end Carries

end Conveyor
