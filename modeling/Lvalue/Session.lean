import Lvalue.Session.Action

/-!
# Sessions

A session performs actions on a world, one after the other. A failure ends its
action and nothing else.
-/

namespace Lvalue

/-- How an action ended, and what the bodies that it ran have told. -/
structure Response where
  /-- The answer, or the report of a failure; nothing for an action that is ill-formed or
      out of budget. -/
  outcome : Option (Except Report Answer)
  entries : List Entry

namespace World

/-- How many functions may run inside one another: more than any memory holds, so this is
    no limit that a program can meet. -/
def callBudget : Nat := 0x4000000000000000

/-- The way in which a world runs bodies. -/
def runner (w : World) : Runner := runnerAt (callerAt callBudget) w.config.maxDepth.toNat

/-- Performs an action. In the world that it leaves, everything is held by something. -/
def perform (w : World) (a : Action) : Response × World :=
  let (result, w') := (runAction w.runner a).on { w with journal := [] }
  let outcome :=
    match result with
    | .ok answer => some (.ok answer)
    | .error (.raised e) => some (.error (w'.report e))
    | .error _ => none
  ({ outcome, entries := w'.journal.reverse }, w'.settle)

/-- Performs actions in turn. -/
def performAll (w : World) : List Action → List Response × World
  | [] => ([], w)
  | a :: rest =>
    let (response, w') := w.perform a
    let (responses, w'') := w'.performAll rest
    (response :: responses, w'')

end World

end Lvalue
