import Lvalue.Value

/-!
# Scripts

A script is the body of a function or of a handler: a finite list of steps and a
result. What a step can do is the parameter `α` of a script, so that functions
and handlers share this one shape. A script speaks of values through
expressions: it writes primitive values out and finds all others in registers.
-/

namespace Lvalue

/-- An expression: a primitive value, or the content of a register. -/
inductive Expr where
  | undefined
  | null
  | bool (b : Bool)
  | number (x : Number)
  | text (s : String)
  | register (name : String)
  deriving DecidableEq, Repr, Inhabited

/-- A command with what becomes of its failure. -/
structure Step (α : Type) where
  command : α
  /-- A failure is recorded, and the script goes on. -/
  guarded : Bool := false

/-- A body: steps, and then a result. -/
structure Script (α : Type) where
  steps : List (Step α) := []
  /-- The result; without one it is undefined. -/
  result : Option Expr := none
  /-- The body runs without a record of it. -/
  quiet : Bool := false

end Lvalue
