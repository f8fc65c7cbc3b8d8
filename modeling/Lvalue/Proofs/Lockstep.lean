import Lvalue.Proofs.Change

/-!
# Evaluations in lockstep

Two evaluations go in *lockstep* on the worlds that satisfy a property if they do
the same on each of them and leave a world that satisfies it too. An evaluation in
lockstep with itself is one that keeps the property.

They need not go so for ever. A run may come to a moment that is a turn, and what is
asked of it then is another thing. So there are two properties (`Phases`): in the
early phase the evaluations go in lockstep, until perhaps the first of them passes
into its late phase, which it does not leave again.
-/

namespace Lvalue

/-- What holds of the worlds of a run before some moment, and what holds from it on. -/
structure Phases where
  early : World → Prop
  late : World → Prop

/-- A run that has no late phase. -/
def Phases.only (V : World → Prop) : Phases where
  early := V
  late _ := False

namespace Eval

variable {α β : Type}

/-- In the early phase both evaluations do the same and stay in it, or else the first one
    passes into the late phase; and there it stays. -/
def Lockstep (V : Phases) (act act' : Eval α) : Prop :=
  ∀ w, (V.early w → (act'.on w = act.on w ∧ V.early (act.on w).2) ∨ V.late (act.on w).2) ∧
    (V.late w → V.late (act.on w).2)

namespace Lockstep

variable {V : Phases} {act act' : Eval α}

theorem of_looks (h : Looks act) : Lockstep V act act :=
  fun w => ⟨fun hw => .inl ⟨rfl, (h w).symm ▸ hw⟩, fun hw => (h w).symm ▸ hw⟩

/-- Without a late phase to pass into, both evaluations do the same to the end. -/
theorem of_only {U : World → Prop} (h : Lockstep (.only U) act act') {w : World} (hw : U w) :
    act'.on w = act.on w ∧ U (act.on w).2 :=
  ((h w).1 hw).resolve_right id

/-- What comes next goes in lockstep, from either phase. -/
theorem bind {f f' : α → Eval β} (h : Lockstep V act act') (hf : ∀ a, Lockstep V (f a) (f' a)) :
    Lockstep V (act >>= f) (act' >>= f') := by
  intro w
  -- Once the first evaluation is in its late phase, so is what comes after it.
  have late : V.late (act.on w).2 → V.late ((act >>= f).on w).2 := by
    rw [on_bind]
    rcases act.on w with ⟨_ | a, w'⟩
    · exact id
    · exact (hf a w').2
  refine ⟨fun hw => ?_, fun hw => late ((h w).2 hw)⟩
  rcases (h w).1 hw with ⟨e, hw'⟩ | hw'
  · rw [on_bind, on_bind, e]
    revert hw'
    rcases act.on w with ⟨_ | a, w'⟩
    · exact fun hw' => .inl ⟨rfl, hw'⟩
    · exact (hf a w').1
  · exact .inr (late hw')

end Lockstep

end Eval

end Lvalue
