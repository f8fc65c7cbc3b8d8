import Lvalue.Session

/-!
# Behaviours

A script does its steps one after the other, whatever comes of them. What bodies
do in general is more: they look at the answers, and at the failures, and choose
how to go on. A *program* is such a body, a tree that branches at every answer.
A program ends on each of its branches, but nothing bounds their number or their
length.

Programs may look at all that there is, and so at the journal, in which they tell
what they like. What a body has told, every later one can look up: in this way
bodies have a memory, and need not do the same every time that they run.

A *behaviour* gives a program to every function and to every handler. It says
what is to happen; how deep it happens inside itself is left to a budget, as it
is with scripts. Scripts are one behaviour among others (`Behaviour.scripted`).
-/

namespace Lvalue

/-- A body that chooses how to go on. The parameter is what a step can do. -/
inductive Program (α : Type) where
  /-- Ends with the value of an expression. -/
  | finish (result : Option Expr)
  /-- Ends with a failure. -/
  | abort (e : Error Value)
  /-- Looks at the world and goes on as is called for. -/
  | look (next : World → Program α)
  | tell (entry : Entry) (rest : Program α)
  /-- Does a step and goes on with what comes of it, an answer or a failure. -/
  | step (a : α) (next : Except (Error Value) Answer → Program α)

/-- Runs a program, given how a step is done. -/
def Program.run {α : Type} (exec : α → Eval Answer) : Program α → Eval Value
  | .finish result => Expr.evalOr .undefined result
  | .abort e => Eval.raise e
  | .look next => do
    let w ← get
    (next w).run exec
  | .tell entry rest => do
    Eval.tell entry
    rest.run exec
  | .step a next => do
    match ← Eval.outcome (exec a) with
    | .ok answer => (next (.ok answer)).run exec
    | .error (.raised e) => (next (.error e)).run exec
    | .error halt => throw halt

/-- What functions and handlers do. -/
structure Behaviour where
  call : NativeFunction → (this : Value) → (args : List Value) → Program Command
  hook : (label : String) → Script Action → Visit → Program Action

namespace Behaviour

/-- The way to run functions of which at most `n` run inside one another. -/
def caller (B : Behaviour) : Nat → Caller
  | 0 => fun _ _ _ => throw .exhausted
  | n + 1 => fun f this args =>
    Eval.framed (callFrame this args) ((B.call f this args).run (runCommand (B.caller n)))

/-- The way to run bodies when at most `n` handlers run inside one another, and at most
    `budget` functions. -/
def runner (B : Behaviour) (budget : Nat) : Nat → Runner
  | 0 => { call := B.caller budget, hook := fun _ _ _ => throw .exhausted }
  | n + 1 =>
    { call := B.caller budget
      hook := fun label body v =>
        Eval.framed (hookFrame v) ((B.hook label body v).run (runAction (B.runner budget n))) }

end Behaviour

/-! ## Scripts -/

section

variable {α : Type}

/-- The program of some steps, with `last` after them. -/
def Program.ofSteps (last : Program α) : List (Step α) → Program α
  | [] => last
  | s :: rest => .step s.command fun
    | .ok a => .tell (.answered a) (ofSteps last rest)
    | .error e =>
      if s.guarded then .look fun w => .tell (.caught (w.report e)) (ofSteps last rest)
      else .abort e

/-- The program of a script that is announced by `opening`. -/
def Script.program (opening : World → Entry) (s : Script α) : Program α :=
  let body := Program.ofSteps (.finish s.result) s.steps
  if s.quiet then body else .look fun w => .tell (opening w) body

/-- The behaviour of functions and handlers that do as their scripts say. -/
def Behaviour.scripted : Behaviour where
  call f this args :=
    f.body.program fun w => .call f.name (w.picture this) (args.map w.picture)
  hook label body v :=
    body.program fun w =>
      .handler label v.request.operation (w.pictureObject v.name) (w.pictureObject v.receiver)
        (v.request.value?.map w.picture)

variable {exec : α → Eval Answer}

/-- Evaluations are the same if they do the same on every world. -/
theorem Eval.ext {β : Type} {act act' : Eval β} (h : ∀ w, act.on w = act'.on w) : act = act' :=
  funext h

/-- The program of some steps does as the steps do, if `steps` does them in turn. -/
theorem Program.run_ofSteps {steps : List (Step α) → Eval Unit} (nil : steps [] = pure ())
    (cons : ∀ s rest,
      steps (s :: rest) = runStep s.guarded (exec s.command) >>= fun _ => steps rest)
    (last : Program α) (ss : List (Step α)) :
    (ofSteps last ss).run exec = steps ss >>= fun _ => last.run exec := by
  induction ss with
  | nil => rw [nil, pure_bind]; rfl
  | cons s ss ih =>
    apply Eval.ext
    intro w
    simp only [ofSteps, Program.run, cons, runStep, bind_assoc, Eval.on_bind, Eval.on_outcome]
    rcases (exec s.command).on w with ⟨e | a, w'⟩
    · cases e with
      | raised e =>
        -- A failure is told and passed over if the step is guarded, and ends the steps if not.
        by_cases guarded : s.guarded
        · simp [guarded, Program.run, ih, Eval.on_bind]
        · simp [guarded, Program.run]
      | exhausted | stuck => simp
    · simp [ih, Eval.on_bind]

theorem Program.run_script {steps : List (Step α) → Eval Unit} (nil : steps [] = pure ())
    (cons : ∀ s rest,
      steps (s :: rest) = runStep s.guarded (exec s.command) >>= fun _ => steps rest)
    (opening : World → Entry) (s : Script α) :
    (s.program opening).run exec = (do
      if !s.quiet then Eval.tell (← Eval.see opening)
      steps s.steps
      Expr.evalOr .undefined s.result) := by
  cases quiet : s.quiet <;>
    simp [Script.program, quiet, Program.run, Program.run_ofSteps nil cons, Eval.see]

/-- Scripts run as programs do what they do as scripts. -/
theorem Behaviour.caller_scripted (n : Nat) : scripted.caller n = callerAt n := by
  induction n with
  | zero => rfl
  | succ n ih =>
    funext f this args
    rw [caller, callerAt, ih]
    exact congrArg _ (Program.run_script rfl (fun _ _ => rfl) _ _)

/-- Scripts are run the way of their behaviour. -/
theorem Behaviour.runner_scripted (budget n : Nat) :
    scripted.runner budget n = runnerAt (callerAt budget) n := by
  induction n with
  | zero => rw [runner, runnerAt, caller_scripted]
  | succ n ih =>
    rw [runner, runnerAt, caller_scripted, ih]
    congr 1
    funext label body v
    refine congrArg _ (Program.run_script ?_ ?_ _ _)
    · rw [runActions]
    · rintro ⟨a, guarded⟩ rest
      rw [runActions, runActionStep]

end

end Lvalue
