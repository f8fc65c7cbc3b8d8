import Lvalue.Session.Command

/-!
# Running functions

A function runs its body with registers for `this` and for the arguments. Bodies
may call functions in turn, to any depth, so a budget bounds how many of them
run inside one another; `callerAt n` is the way to run functions within the
budget `n`.
-/

namespace Lvalue

/-- Runs one step of a body. A guarded step that fails is recorded. -/
def runStep (guarded : Bool) (act : Eval Answer) : Eval Unit := do
  match ← Eval.outcome act with
  | .ok a => Eval.tell (.answered a)
  | .error (.raised e) =>
    if guarded then Eval.tell (.caught (← Eval.see (·.report e))) else throw (.raised e)
  | .error halt => throw halt

/-- Runs the steps of a body, up to the first that fails and is not guarded. -/
def runCommands (run : Caller) : List (Step Command) → Eval Unit
  | [] => pure ()
  | ⟨c, guarded⟩ :: rest => do
    runStep guarded (runCommand run c)
    runCommands run rest

/-- The registers that the body of a function starts with. -/
def callFrame (this : Value) (args : List Value) : Table String Value :=
  (args.zipIdx).foldl (fun t (v, i) => t.insert ("$" ++ toString i) v)
    (Table.empty.insert "$this" this)

/-- Runs a function. -/
def runFunction (run : Caller) : Caller := fun f this args =>
  Eval.framed (callFrame this args) do
    if !f.body.quiet then
      Eval.tell (← Eval.see fun w => .call f.name (w.picture this) (args.map w.picture))
    runCommands run f.body.steps
    Expr.evalOr .undefined f.body.result

/-- The way to run functions of which at most `n` run inside one another. -/
def callerAt : Nat → Caller
  | 0 => fun _ _ _ => throw .exhausted
  | n + 1 => fun f this args => runFunction (callerAt n) f this args

end Lvalue
