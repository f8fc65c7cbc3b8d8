import Lvalue.Proofs.Watch

/-!
# Known references

All that is known under a name as a reference was known under it before, or has been built since
(`World.Acquires`). An action that makes a reference known builds it, and whatever else is done, by
the session or by functions and handlers that it runs, makes none and changes none.

As every single change keeps to that, it is a custody (`Custody.acquiring`), in which everything
may be handled.
-/

namespace Lvalue

open Eval

/-- Only a change of the handles makes references known, and there it is part of the change that
    they are built. -/
theorem ChangeAmong.acquires {known : Thing → Prop} {w w' : World} (h : ChangeAmong known w w') :
    w.Acquires w' := by
  cases h with
  | handles _ _ _ references => exact references
  | _ => exact .of_eq rfl

/-- The custody of the worlds in which nothing has become known since `w` but what was built. -/
def Custody.acquiring (w : World) : Custody :=
  .unrestricted (fun _ u => w.Acquires u) (fun hw h => hw.trans h.acquires)
    (·.trans (.of_eq rfl)) (·.trans (.of_eq rfl)) (·.trans (.of_eq rfl))
    (fun hw _ => hw.trans (.of_eq rfl)) (·.trans (.of_eq rfl))

/-- Whatever functions and handlers do, they make no reference known but such as are built. -/
theorem Behaviour.acquires_program (B : Behaviour) (budget n : Nat) (p : Program Action)
    (w : World) : w.Acquires ((p.run (runAction (B.runner budget n))).on w).2 := by
  have start : (Custody.acquiring w).order ⟨0, []⟩ w := .of_eq rfl
  exact (B.run_in_custody id budget n p _ (S := fun _ => True) (fun _ _ _ _ => trivial) start).2

namespace World

/-- Step by step, a session makes no reference known but such as are built. -/
theorem acquires_performAll (w : World) (as : List Action) : w.Acquires (w.performAll as).2 := by
  have start : (Custody.acquiring w).order ⟨0, []⟩ w := .of_eq rfl
  exact performAll_in_custody as start

/-- At first no reference is known. -/
theorem references_initial (config : Config) : (initial config).handles.references = ∅ := by
  rw [initial]
  split <;> rfl

end World

end Lvalue
