import Lvalue.Proofs.Ancestry
import Lvalue.Proofs.Completion
import Lvalue.Proofs.Depth

/-!
# Termination

Handlers may run themselves and one another again, install more of them on the way, and go on
after a failure. Still every operation comes to an end. A body is a tree that ends on each of
its branches, a handler that runs in another one is one more in depth, and at the limit of the
depth no handler starts, whatever its body would do. So the number of handlers that may still
run inside one another, and what is left of each running body, go down together. The first is
what a way to run bodies takes as its budget (`Behaviour.runnerOn`), and the second is what
programs are made of.

A budget that reaches to the limit is therefore never used up: what the handlers would do that
come after it makes no difference (`lockstep_runnerOn`). What is left to run out of budget are
functions, which run one another as they like. An operation fails to end if it runs one that
does, and only then (`Eval.Stalls`).

The other walks of an operation are those along prototypes. They are walks in a heap where all
paths come to an end, at every step of every run.
-/

namespace Lvalue

open Bearer Eval

/-! ## Ways to run bodies -/

/-- The way to run bodies when at most `n` handlers run inside one another, with a way to run
    functions, and with `bottom` in the place of the handlers that are one too many. -/
def Behaviour.runnerOn (B : Behaviour) (bottom : Eval Value) (call : Caller) : Nat → Runner
  | 0 => { call, hook := fun _ _ _ => bottom }
  | n + 1 =>
    { call
      hook := fun label body v =>
        Eval.framed (hookFrame v)
          ((B.hook label body v).run (runAction (B.runnerOn bottom call n))) }

theorem Behaviour.runner_eq (B : Behaviour) (budget n : Nat) :
    B.runner budget n = B.runnerOn (throw .exhausted) (B.caller budget) n := by
  induction n with
  | zero => rfl
  | succ n ih => rw [runner, runnerOn, ih]

/-! ### Completion -/

section

variable {p : Prop} {call call' : Caller} {bottom bottom' : Eval Value} (B : Behaviour)

/-- More budget at the bottom completes what runs above it, one handler after the other. -/
theorem Behaviour.completes_runnerOn (h : Caller.Completes p call call')
    (hb : Completes p bottom bottom') (n : Nat) :
    Runner.Completes p (B.runnerOn bottom call n) (B.runnerOn bottom' call' n) := by
  induction n with
  | zero => exact ⟨h, fun _ _ _ => hb⟩
  | succ n ih => exact ⟨h, fun _ _ _ => completes_handler ih _ _⟩

/-- With a greater budget, functions do what they do with a smaller one that is enough. -/
theorem Behaviour.completes_caller {budget budget' : Nat} (le : budget ≤ budget') :
    Caller.Completes True (B.caller budget) (B.caller budget') := by
  induction budget generalizing budget' with
  | zero => exact fun _ _ _ => completes_exhausted trivial _
  | succ budget ih =>
    obtain ⟨budget', rfl⟩ := Nat.exists_eq_add_of_lt le
    exact fun _ _ _ => completes_function (ih (Nat.le_add_right ..)) _ _

end

/-! ### Lockstep -/

section

variable {α : Type} {act act' : Eval α} {V : Nat → Phases} (hV : Phases.Layered V) {k : Nat}
  {run run' : Runner}

/-- What goes in lockstep with anything goes so with itself. -/
theorem Eval.Lockstep.self {V : Phases} (h : Lockstep V act act') : Lockstep V act act :=
  fun w => ⟨fun hw => ((h w).1 hw).imp_left fun ⟨_, hw'⟩ => ⟨rfl, hw'⟩, (h w).2⟩

include hV

/-- A program goes in lockstep with itself if the bodies do that it runs. -/
theorem lockstep_program (h : Runner.Lockstep V k run run') (p : Program Action) :
    Lockstep (V k) (p.run (runAction run)) (p.run (runAction run')) :=
  Triple.lockstep (safe_program (h.safe hV) p) fun _ _ all t _ => (all t).2

theorem lockstep_framed (h : Runner.Lockstep V k run run') (frame : Table String Value)
    (p : Program Action) :
    Lockstep (V k) (framed frame (p.run (runAction run)))
      (framed frame (p.run (runAction run'))) :=
  Safe.lockstep (.framed (safe_program (h.safe hV) p) fun _ _ _ hP => hP)

end

/-! ### Budgets that reach to the limit -/

section

variable {limit : UInt32} {call : Caller} {k n n' : Nat}

/-- The phases of a run in which the depth is the number of handlers. -/
abbrev balanced (limit : UInt32) (k : Nat) : Phases := .only (World.Balanced limit k)

theorem layered_phases_balanced (limit : UInt32) : Phases.Layered (balanced limit) :=
  .only (layered_balanced limit)

/-- At the limit, no handler starts, so that nothing is asked of one. -/
theorem lockstep_of_full (full : limit.toNat ≤ k) (act act' : Eval Value) :
    Lockstep (balanced limit (k + 1)) act act' :=
  fun _ => ⟨fun hw => absurd hw.le (Nat.not_le_of_lt (Nat.lt_succ_of_le full)), False.elim⟩

/-- Budgets that reach to the limit are as good as one another, whatever there is below them. -/
theorem lockstep_runnerOn (B : Behaviour)
    (h : ∀ k, Caller.Lockstep (balanced limit k) call call) (bottom bottom' : Eval Value)
    (room : limit.toNat ≤ k + n) (room' : limit.toNat ≤ k + n') :
    Runner.Lockstep (balanced limit) k (B.runnerOn bottom call n) (B.runnerOn bottom' call n') := by
  induction n generalizing k n' with
  | zero => exact ⟨by cases n' <;> exact h k, fun _ _ _ => lockstep_of_full room _ _⟩
  | succ n ih =>
    cases n' with
    | zero => exact ⟨h k, fun _ _ _ => lockstep_of_full room' _ _⟩
    | succ n' =>
      refine ⟨h k, fun label body v => lockstep_framed (layered_phases_balanced limit) ?_ _ _⟩
      exact ih (Nat.le_trans room (by omega)) (Nat.le_trans room' (by omega))

theorem Behaviour.lockstep_caller (B : Behaviour) (budget k : Nat) :
    Caller.Lockstep (balanced limit k) (B.caller budget) (B.caller budget) :=
  fun f this args => Lockstep.self
    ((B.lockstep_runner id budget (layered_phases_balanced limit) (fun _ => .only _) k 0).call
      f this args)

end

/-! ## Functions that do not end -/

/-- The evaluation that is stuck where `act` runs out of budget. -/
def Eval.cut {α : Type} (act : Eval α) : Eval α :=
  ofFn fun w =>
    match act.on w with
    | (.error .exhausted, w') => (.error .stuck, w')
    | end_ => end_

section

variable {α : Type} {p : Prop}

/-- Cut off, an evaluation ends as it would, unless it runs out of budget. -/
theorem on_cut (act : Eval α) (w : World) :
    ((act.on w).1 = .error .exhausted ∧ act.cut.on w = (.error .stuck, (act.on w).2)) ∨
      ((act.on w).1 ≠ .error .exhausted ∧ act.cut.on w = act.on w) := by
  have cut : act.cut.on w = match act.on w with
    | (.error .exhausted, w') => (.error .stuck, w')
    | end_ => end_ := rfl
  rw [cut]
  rcases act.on w with ⟨(_ | _ | _) | a, w'⟩
  case error.exhausted => exact .inl ⟨rfl, rfl⟩
  all_goals exact .inr ⟨nofun, rfl⟩

theorem completes_cut (act : Eval α) : Completes True act act.cut :=
  fun w => (on_cut act w).imp_left fun ⟨out, _⟩ => ⟨out, trivial⟩

/-- What is stuck there does not run out of budget. -/
theorem completes_cut_self (act : Eval α) : Completes p act.cut act.cut := by
  refine Lasts.completes fun w => ?_
  rcases on_cut act w with ⟨-, same⟩ | ⟨ends, same⟩ <;> rw [same]
  · nofun
  · exact ends

theorem Eval.Lockstep.cut {V : Phases} {act : Eval α} (h : Lockstep V act act) :
    Lockstep V act.cut act.cut := by
  intro w
  have same : (act.cut.on w).2 = (act.on w).2 := by
    rcases on_cut act w with ⟨-, same⟩ | ⟨-, same⟩ <;> rw [same]
  rw [same]
  exact ⟨fun hw => ((h w).1 hw).imp_left fun ⟨_, hw'⟩ => ⟨rfl, hw'⟩, (h w).2⟩

end

/-- In `w`, the evaluation stalls in functions that run out of budget: it makes a difference what
    others do in their place. -/
def Eval.Stalls {α : Type} (act : Caller → Eval α) (call : Caller) (w : World) : Prop :=
  ∃ call', Caller.Completes True call call' ∧ (act call').on w ≠ (act call).on w

/-- Where all functions come to an end, there is none to stall in. -/
theorem Eval.not_stalls {α : Type} {call : Caller}
    (ends : ∀ f this args w, ((call f this args).on w).1 ≠ .error .exhausted)
    (act : Caller → Eval α) (w : World) : ¬Stalls act call w := by
  rintro ⟨call', h, differs⟩
  have same : call' = call := by
    funext f this args
    exact Eval.ext fun w => ((h f this args w).resolve_left fun out => ends f this args w out.1).2
  exact differs (by rw [same])

/-! ## Evaluations that come to an end -/

/-- What `act` does in `w` if at most `n` handlers run inside one another, and at most `budget`
    functions, where there are `room` for as many handlers as `n`. -/
structure Terminates {α : Type} (B : Behaviour) (room budget n : Nat) (act : Runner → Eval α)
    (w : World) : Prop where
  /-- It makes no difference if more handlers might run inside one another. -/
  handlers : ∀ n', room ≤ n' → (act (B.runner budget n')).on w = (act (B.runner budget n)).on w
  /-- It comes to an end, a result or a failure, exactly if the functions do that it runs. -/
  ends_iff : ((act (B.runner budget n)).on w).1 ≠ .error .exhausted ↔
    ¬Stalls (fun call => act (B.runnerOn (throw .exhausted) call n)) (B.caller budget) w
  /-- Then it makes no difference either if more functions might run inside one another. -/
  functions : ((act (B.runner budget n)).on w).1 ≠ .error .exhausted →
    ∀ budget', budget ≤ budget' → (act (B.runner budget' n)).on w = (act (B.runner budget n)).on w

/-- What goes in lockstep where bodies do, and is completed where bodies are, terminates. -/
theorem terminates_of {α : Type} {act : Runner → Eval α} (B : Behaviour) (budget : Nat)
    {limit : UInt32} {k n : Nat} {w : World} (hw : w.Balanced limit k)
    (room : limit.toNat ≤ k + n)
    (lockstep : ∀ {run run'}, Runner.Lockstep (balanced limit) k run run' →
      Lockstep (balanced limit k) (act run) (act run'))
    (completes : ∀ {p run run'}, Runner.Completes p run run' → Completes p (act run) (act run')) :
    Terminates B (limit.toNat - k) budget n act w where
  handlers n' le := by
    rw [B.runner_eq, B.runner_eq]
    exact ((lockstep (lockstep_runnerOn B (B.lockstep_caller budget) _ _ room
      (Nat.sub_le_iff_le_add'.1 le))).of_only hw).1
  ends_iff := by
    rw [B.runner_eq]
    refine ⟨fun ends ⟨call', h, differs⟩ => ?_, fun stays out => ?_⟩
    · have completed := completes
        (B.completes_runnerOn h (completes_exhausted trivial (throw .exhausted)) n)
      exact differs ((completed w).resolve_left fun out => ends out.1).2
    · -- Functions are cut short where they run out of budget, and handlers beyond the limit,
      -- which makes no difference. Then nothing is left that runs out of budget.
      let call' : Caller := fun f this args => (B.caller budget f this args).cut
      have same : (act (B.runnerOn (throw .exhausted) call' n)).on w =
          (act (B.runnerOn (throw .exhausted) (B.caller budget) n)).on w :=
        Classical.not_not.1 fun differs => stays ⟨call', fun _ _ _ => completes_cut _, differs⟩
      have lock : Runner.Lockstep (balanced limit) k (B.runnerOn (throw .exhausted) call' n)
          (B.runnerOn stuck call' n) :=
        lockstep_runnerOn B (fun k f this args => (B.lockstep_caller budget k f this args).cut) _ _
          room room
      have cut : Caller.Completes False call' call' := fun _ _ _ => completes_cut_self _
      have last : Completes False (stuck : Eval Value) stuck := Lasts.completes fun _ => nofun
      have ends := completes (B.completes_runnerOn cut last n) w
      rw [((lockstep lock).of_only hw).1, same] at ends
      exact ends.elim And.right fun ends => ends.1 out
  functions ends budget' le := by
    rw [B.runner_eq] at ends
    rw [B.runner_eq, B.runner_eq]
    have completed := completes
      (B.completes_runnerOn (B.completes_caller le) (completes_exhausted trivial (throw .exhausted))
        n)
    exact ((completed w).resolve_left fun out => ends out.1).2

/-- Whatever is resolved comes to an end. Take any behaviour, in particular that of scripts, in a
    world where `k` handlers run inside one another, whatever is installed there, and a budget for
    handlers that reaches to the limit of the depth. So it is between the actions of any session.

    Every operation through a reference, and every body, comes to an end, in a result or a failure,
    unless it runs a function that does not. It would do the same with any greater budget for
    handlers, and if it ends, with any greater budget for functions: what bounds it is the limit of
    the depth. The walks along prototypes come to an end, too, if they do at first and nothing is
    held that is not there: a watch over each start and end of a step, in the body itself or in any
    function or handler inside it, has never to strike. -/
theorem resolution_terminates (B : Behaviour) (strike : World → World) (budget n : Nat)
    {limit : UInt32} {k : Nat} {w : World} (hw : w.Balanced limit k)
    (room : limit.toNat ≤ k + n) :
    (∀ r request,
      Terminates B (limit.toNat - k) budget n (fun run => operate run r request) w) ∧
    (∀ p : Program Action,
      Terminates B (limit.toNat - k) budget n (fun run => p.run (runAction run)) w) ∧
    (w.Intact → w.heap.Grounded → ∀ p : Program Action,
      let run := runAction (B.runner budget n)
      let watch := watchAction World.Ancestral strike
        (B.runnerUnder (fun _ act => act) (fun _ => World.Ancestral) strike budget k n)
      w.Ancestral ∧ (p.run watch).on w = (p.run run).on w ∧ ((p.run run).on w).2.Ancestral) ∧
    ∀ (config : Config) (as : List Action),
      let u := ((World.initial config).performAll as).2
      u.Balanced config.maxDepth 0 ∧ u.Intact ∧ u.heap.Grounded ∧
        u.runner = Behaviour.scripted.runner World.callBudget config.maxDepth.toNat := by
  refine ⟨fun r request => ?_, fun p => ?_, fun intact hh p => ?_, fun config as => ?_⟩
  · exact terminates_of B budget hw room
      (fun h => lockstep_operate (layered_phases_balanced limit) h r request)
      fun h => completes_operate h r request
  · exact terminates_of B budget hw room
      (fun h => lockstep_program (layered_phases_balanced limit) h p)
      fun h => completes_program h p
  · have order : Custody.ancestry.order ⟨k, w.handles.operands⟩ w := ⟨⟨intact, rfl⟩, hh⟩
    obtain ⟨same, ends⟩ := B.run_in_custody strike budget n p .ancestry (S := World.Ancestral)
      (fun _ _ _ hw => hw.1.1.ancestral hw.2) order
    exact ⟨intact.ancestral hh, same, ends.1.1.ancestral ends.2⟩
  · intro u
    have balanced := World.balanced_performAll config as
    have order := World.ancestry_performAll config as
    refine ⟨balanced, order.1.1, order.2, ?_⟩
    rw [World.runner, Behaviour.runner_scripted, balanced.maxDepth]

/-- A handler that runs itself again each time that it runs, and goes on when that fails. -/
theorem resolution_terminates_of_recursion :
    let again : Script Action :=
      { steps := [⟨.getValue "r" (some "$v"), true⟩], result := some (.register "$v") }
    let w := ((World.initial { maxDepth := 3 }).performAll
      [.command (.new .ordinary .standard (some "m")),
        .refAbstract (.bool true) (.register "m") true "r",
        .install (.register "m") "again" (.scripted { read := some again })]).2
    let B := Behaviour.scripted
    let read (run : Runner) := operate run (.abstractMember (.bool true) ⟨8⟩ true) .read
    w.Balanced 3 0 ∧
      (∀ n, 3 ≤ n → ((read (B.runner 1 n)).on w).1.toOption = some .undefined) ∧
      ¬Stalls (fun call => read (B.runnerOn (throw .exhausted) call 3)) (B.caller 1) w := by
  intro again w B read
  have balanced : w.Balanced 3 0 := World.balanced_performAll { maxDepth := 3 } _
  have ends : ((read (B.runner 1 3)).on w).1.toOption = some .undefined := by decide +kernel
  have terminates : Terminates B (UInt32.toNat 3 - 0) 1 3 read w :=
    (resolution_terminates B id 1 3 balanced (by decide)).1 _ _
  refine ⟨balanced, fun n le => ?_, terminates.ends_iff.1 fun out => ?_⟩
  · rw [terminates.handlers n le, ends]
  · rw [out] at ends
    cases ends

end Lvalue
