import Lvalue.Eval
import Lvalue.World.Description

/-!
# Registers and names

How expressions get their values, and where results go. A name that starts with
a dollar sign is a register of the running body; one that was never set is
undefined. The intrinsic objects have registers that are always set. All other
registers, and the names of scopes, belong to the session as a whole.
-/

namespace Lvalue

/-- The register belongs to the running body. -/
def isLocal (register : String) : Bool := register.toList.head? = some '$'

namespace Handles

/-- The content of a register. -/
def value? (h : Handles) (register : String) : Option Value :=
  if isLocal register then
    some (((h.frames.head?).bind (·.get? register)).getD .undefined)
  else
    match Intrinsic.ofName? register with
    | some i => some (.object i.id)
    | none => h.registers.get? register

/-- The handles with the registers of the running body changed. -/
def onFrame (h : Handles) (f : Table String Value → Table String Value) : Handles :=
  { h with frames := f (h.frames.head?.getD ∅) :: h.frames.tail }

/-- The handles with another content of a register. -/
def assign (h : Handles) (register : String) (v : Value) : Handles :=
  if isLocal register then h.onFrame (·.insert register v)
  else { h with registers := h.registers.insert register v }

/-- The handles without a register. -/
def forget (h : Handles) (register : String) : Handles :=
  if isLocal register then h.onFrame (·.erase register)
  else { h with registers := h.registers.erase register }

/-- The name of the outermost scope. -/
def globalName : String := "global"

/-- The scope that a name stands for. -/
def scope? (h : Handles) (name : String) : Option ScopeId :=
  if name = globalName then some globalScope else h.scopes.get? name

/-- The first name of a scope. -/
def scopeName (h : Handles) (s : ScopeId) : String :=
  if s = globalScope then globalName
  else ((h.scopes.entries.find? fun e => e.2 = s).map (·.1)).getD "?"

end Handles

/-! ## Expressions -/

/-- The value of an expression. -/
def Expr.eval : Expr → Eval Value
  | .undefined => return .undefined
  | .null => return .null
  | .bool b => return .bool b
  | .number x => return .number x
  | .text s => return .text (.text s)
  | .register name => do Eval.demand (← Eval.see (·.handles.value? name))

/-- The object that an expression stands for. -/
def Expr.object (e : Expr) : Eval ObjectId := do Eval.demand (← e.eval).object?

/-- The object that an optional expression stands for. -/
def Expr.objectOption : Option Expr → Eval (Option ObjectId)
  | none => return none
  | some e => return some (← e.object)

/-- The key that an expression stands for. -/
def Expr.key (e : Expr) : Eval Key := do Eval.demand (← e.eval).key?

/-- The text that an expression stands for. -/
def Expr.atom (e : Expr) : Eval Atom := do
  match ← e.eval with
  | .text a => return a
  | _ => Eval.stuck

/-- The value of an optional expression. -/
def Expr.evalOr (default : Value) : Option Expr → Eval Value
  | none => return default
  | some e => e.eval

/-- The scope that a name stands for. -/
def scopeNamed (name : String) : Eval ScopeId := do
  Eval.demand (← Eval.see (·.handles.scope? name))

/-- Changes the handles. -/
def onHandles (f : Handles → Handles) : Eval Unit :=
  modify fun w => { w with handles := f w.handles }

/-- Puts a result into a register, if one is wanted for it. -/
def keep (into : Option String) (v : Value) : Eval Unit :=
  match into with
  | some register => onHandles (·.assign register v)
  | none => pure ()

end Lvalue
