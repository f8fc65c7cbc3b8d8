import Lvalue.Proofs.Watch

/-!
# Completion

An evaluation *completes* another one if it does the same wherever that comes to an end, be it
a result or a failure, and does not run out of budget. What runs out of budget says nothing
about what it would have done.

The way in which bodies run is the only thing that runs out of budget. So everything else is
completed by itself with ways to run bodies that complete one another
(`Runner.Completes`), and comes to an end if bodies do. To say both at once, `Completes p`
tells that the one that is completed runs out of budget at most if `p`; if it never does, it
is the same as what completes it.

To be completed is to be in custody where every world is in order, every thing is known, and
what runs out of budget is excused if `p` (`Custodies.completing`). So nothing is left to be
shown here of single accesses, commands and actions.
-/

namespace Lvalue

open Bearer Eval

/-- `act'` does the same as `act` wherever `act` does not run out of budget, and `act` does so only
    if `p`. -/
def Eval.Completes {α : Type} (p : Prop) (act act' : Eval α) : Prop :=
  ∀ w, ((act.on w).1 = .error .exhausted ∧ p) ∨
    ((act.on w).1 ≠ .error .exhausted ∧ act'.on w = act.on w)

/-- The functions of `run'` complete those of `run`. -/
def Caller.Completes (p : Prop) (run run' : Caller) : Prop :=
  ∀ f this args, Eval.Completes p (run f this args) (run' f this args)

/-- The functions and handlers of `run'` complete those of `run`. -/
structure Runner.Completes (p : Prop) (run run' : Runner) : Prop where
  call : Caller.Completes p run.call run'.call
  hook : ∀ label body v, Eval.Completes p (run.hook label body v) (run'.hook label body v)

/-! ## Completion as a custody -/

/-- Every world is in order. -/
def Custody.anywhere : Custody :=
  .unrestricted (fun _ _ => True) (fun _ _ => trivial) id id id (fun _ _ => trivial) id

/-- Every world is in order, and what runs out of budget is excused if `p`. There is no turn. -/
def Custodies.completing (p : Prop) : Custodies where
  early := .anywhere
  late := Custody.anywhere.nowhere
  counts := False
  excused := p
  counts_of_late := False.elim

section

variable {α : Type} {p : Prop} {act act' : Eval α} {l : Layer}

/-- As every thing is known, what is in custody is completed whatever it starts from. -/
theorem Eval.Triple.completes {P : Assertion} {Q : α → Assertion}
    (h : Triple (.completing p) l P act act' Q)
    (hP : ∀ C w, (∀ t, C.known w t ∧ C.kept w t) → P C w) : Completes p act act' := by
  refine fun w => ((h w).1 trivial (hP _ _ fun _ => ⟨trivial, trivial⟩)).imp_right ?_
  exact fun ⟨lasts, ends⟩ => ⟨lasts, (ends.resolve_right fun late => late.order).1⟩

/-- What is safe is completed. -/
theorem Eval.Safe.completes [Bearer α] {ts : List Thing}
    (h : Safe (.completing p) l (Knows ts) act act') : Completes p act act' :=
  Triple.completes h fun _ _ all t _ => (all t).1

/-- And what is completed is safe, as the custody asks for nothing else. -/
theorem Eval.Completes.safe [Bearer α] {P : Assertion} (h : Completes p act act') :
    Safe (.completing p) l P act act' :=
  fun w => ⟨fun _ _ => (h w).imp_right fun ⟨lasts, same⟩ =>
    ⟨lasts, .inl ⟨same, trivial, fun _ _ _ _ => trivial⟩⟩, False.elim⟩

end

section

variable {p : Prop} {k : Nat} {run run' : Runner}

theorem Caller.Completes.safe {call call' : Caller} (h : Caller.Completes p call call') :
    Caller.Safe (.completing p) k call call' :=
  fun _ f this args => (h f this args).safe

/-- What completes bodies keeps them in custody. -/
theorem Runner.Completes.safe (h : Runner.Completes p run run') :
    Runner.Safe (.completing p) k run run' where
  call := h.call.safe
  hook _ label body v := (h.hook label body v).safe

/-! ## What is completed -/

/-- What lasts is completed by itself. -/
theorem Eval.Lasts.completes {α : Type} {act : Eval α} (h : act.Lasts) : Completes p act act :=
  fun w => .inr ⟨h w, rfl⟩

/-- Anything completes what runs out of budget. -/
theorem completes_exhausted {α : Type} (hp : p) (act : Eval α) :
    Completes p (throw .exhausted) act :=
  fun _ => .inl ⟨rfl, hp⟩

/-- The body of a function is completed if the functions that it runs are. -/
theorem completes_function {call call' : Caller} (h : Caller.Completes p call call')
    (frame : Table String Value) (q : Program Command) :
    Completes p (framed frame (q.run (runCommand call)))
      (framed frame (q.run (runCommand call'))) :=
  Safe.completes (l := ⟨0, []⟩)
    (.framed (Program.safe_run (safe_runCommand h.safe []) q) fun _ _ _ => id)

variable (h : Runner.Completes p run run')
include h

/-- A program is completed by itself if the bodies that it runs are. -/
theorem completes_program (q : Program Action) :
    Completes p (q.run (runAction run)) (q.run (runAction run')) :=
  Triple.completes (l := ⟨0, []⟩) (safe_program h.safe q) fun _ _ all t _ => (all t).2

/-- The body of a handler is completed if the functions and handlers that it runs are. -/
theorem completes_handler (frame : Table String Value) (q : Program Action) :
    Completes p (framed frame (q.run (runAction run))) (framed frame (q.run (runAction run'))) :=
  Safe.completes (l := ⟨0, []⟩) (.framed (safe_program h.safe q) fun _ _ _ => id)

/-- Every operation through a reference is completed by itself if the bodies that it runs are. -/
theorem completes_operate (r : Reference) (request : Request) :
    Completes p (operate run r request) (operate run' r request) :=
  Safe.completes (l := ⟨0, []⟩) (safe_operate h.safe r request)

end

end Lvalue
