import Lvalue.Access
import Lvalue.World.Description

/-!
# Resolution of references

Reading, writing and deleting through a reference. A name goes to its scope, and
a property with a key to the objects (`Lvalue.Access`). A property that an
object names goes to the handlers on the chain of that object: `dispatch` picks
the nearest one that serves the operation and runs it.

How bodies run is left open: all here is said for every `Runner`. What runs is
told how deep it is by `World.depth`, which counts the handlers that run inside
one another.
-/

namespace Lvalue

/-- What is asked of a handler. -/
inductive Request where
  | read
  | write (v : Value)
  | delete
  deriving DecidableEq, Repr

/-- The operation that a request is for. -/
def Request.operation : Request → Operation
  | read => .read
  | write _ => .write
  | delete => .delete

/-- The value to be written. -/
def Request.value? : Request → Option Value
  | write v => some v
  | _ => none

/-- A request with what it is about: the object that names the property, and the one
    whose property it names. -/
structure Visit where
  request : Request
  name : ObjectId
  receiver : ObjectId
  deriving DecidableEq, Repr

/-- The way in which bodies run: those of functions, and those of handlers under their
    label. -/
structure Runner where
  call : Caller
  hook : String → Script Action → Visit → Eval Value

/-! ## Handlers -/

/-- The first entry of a map for an object of the chain; nothing if it is no map. -/
def World.inheritedValue? (w : World) (m : ObjectId) : List ObjectId → Option Value
  | [] => some .undefined
  | o :: chain =>
    match w.valueAt? m (.object o) with
    | some (some v) => some v
    | some none => w.inheritedValue? m chain
    | none => none

/-- The handler of maps. The entry for the receiver is read, or else the nearest one for
    an object that it inherits from; only its own entry is written and deleted. -/
def serveEntry (v : Visit) : Eval Value := do
  match v.request with
  | .read =>
    match ← Eval.see fun w => w.inheritedValue? v.name (w.heap.chain v.receiver) with
    | some found => return found
    | none => incompatible
  | .write value =>
    match ← Eval.see (·.setEntry v.name (.object v.receiver) value) with
    | some w => set w; return .undefined
    | none => incompatible
  | .delete =>
    match ← Eval.see (·.valueAt? v.name (.object v.receiver)) with
    | some old =>
      modify fun w => (w.deleteEntry v.name (.object v.receiver)).getD w
      return .bool old.isSome
    | none => incompatible
where
  /-- The name is no map. -/
  incompatible : Eval Value := do
    Eval.raise (.noMap (← Eval.see (·.heap.className v.name)))

/-- Runs a handler that serves the request. -/
def serve (run : Runner) (h : Handler) (v : Visit) : Eval Value :=
  match h.service with
  | .scripted hooks =>
    match hooks.on v.request.operation with
    | some body => run.hook h.label body v
    | none => Eval.stuck
  | .itself => return .object v.name
  | .entries => serveEntry v
  | .inert => Eval.stuck

/-- Runs one more handler inside those that run. -/
def deeper {α : Type} (act : Eval α) : Eval α :=
  Eval.between (fun w => { w with depth := w.depth + 1 }) (fun w => { w with depth := w.depth - 1 })
    act

/-- Runs the first of the handlers that serves the request, if one does. No other runs. -/
def serveFirst (run : Runner) (v : Visit) : List Handler → Eval (Option Value)
  | [] => return none
  | h :: rest =>
    if h.service.serves v.request.operation then some <$> serve run h v
    else serveFirst run v rest

/-- Has a request served by the nearest handler on the chain of the name that can. The
    limit is looked at first, whether there is a handler or not. The handlers are those of
    the moment: what one of them does to the registry or to the chain comes too late for
    this request. -/
def dispatch (run : Runner) (v : Visit) : Eval Value := do
  let limit ← Eval.see (·.config.maxDepth)
  if limit ≤ (← Eval.see (·.depth)) then Eval.raise (.tooDeep limit)
  else
    let candidates ← Eval.see fun w => w.registry.handlers (w.heap.chain v.name)
    match ← deeper (serveFirst run v candidates) with
    | some result => return result
    | none =>
      Eval.raise (.missing v.request.operation (← Eval.see (·.heap.className v.name)))

section

variable (run : Runner) (v : Visit) {w : World}

theorem on_deeper {α : Type} (act : Eval α) (w : World) :
    (deeper act).on w =
      ((act.on { w with depth := w.depth + 1 }).1,
        { (act.on { w with depth := w.depth + 1 }).2 with
          depth := (act.on { w with depth := w.depth + 1 }).2.depth - 1 }) :=
  rfl

/-- The first that serves is the only one that does. -/
theorem serveFirst_eq (candidates : List Handler) :
    serveFirst run v candidates =
      match candidates.find? (·.service.serves v.request.operation) with
      | some h => some <$> serve run h v
      | none => pure none := by
  induction candidates with
  | nil => rfl
  | cons h rest ih =>
    cases serves : h.service.serves v.request.operation <;> simp [serveFirst, serves, ih]

/-- Where no more handlers may run, none is looked for. -/
theorem dispatch_of_le (h : w.config.maxDepth ≤ w.depth) :
    (dispatch run v).on w = (.error (.raised (.tooDeep w.config.maxDepth)), w) := by
  simp [dispatch, Eval.on_bind, h]

/-- Below the limit of the depth, a request is served by the nearest handler. -/
theorem dispatch_of_server (h : w.depth < w.config.maxDepth) {handler : Handler}
    (hs : w.registry.server? (w.heap.chain v.name) v.request.operation = some handler) :
    (dispatch run v).on w = (deeper (serve run handler v)).on w := by
  rw [Registry.server?] at hs
  simp only [dispatch, Eval.on_bind, Eval.on_see, UInt32.not_le.2 h, if_false, serveFirst_eq, hs,
    on_deeper, Eval.on_map]
  rcases (serve run handler v).on { w with depth := w.depth + 1 } with ⟨_ | _, _⟩ <;> rfl

/-- Below the limit, a request that no handler serves fails. -/
theorem dispatch_of_missing (h : w.depth < w.config.maxDepth)
    (hs : w.registry.server? (w.heap.chain v.name) v.request.operation = none) :
    (dispatch run v).on w =
      (.error (.raised (.missing v.request.operation (w.heap.className v.name))), w) := by
  rw [Registry.server?] at hs
  simp [dispatch, Eval.on_bind, UInt32.not_le.2 h, serveFirst_eq, hs, on_deeper]

end

/-! ## References -/

/-- The object whose property a reference is to. A primitive base gets a new wrapper each
    time. -/
def coerceBase (op : Operation) (base : Value) (name : Prose) : Eval ObjectId := do
  if base.isNullish then
    Eval.raise (.nullishBase op name (← Eval.see (·.heap.typeName base)))
  else toObject base

/-- Serves a request for the property of `base` that `name` names. The base, the name, the
    object that stands for the base and a value to be written are held meanwhile. -/
def resolveAbstract (run : Runner) (request : Request) (base : Value) (name : ObjectId) :
    Eval Value := do
  let description ← Eval.see (·.describeObject name)
  let receiver ← coerceBase request.operation base description
  let held := [base, .object name, .object receiver] ++ request.value?.toList
  Eval.holding held (dispatch run { request, name, receiver })

/-- The result, or its failure as the failure of a reference. -/
def liftFault {α : Type} : Except (Fault Value) α → Eval α
  | .ok a => pure a
  | .error f => Eval.fault f

/-- The value that a reference denotes. -/
def readReference (run : Runner) : Reference → Eval Value
  | .value v => return v
  | .binding none x _ => Eval.raise (.unbound (Spelling.full x))
  | .binding (some s) x strict => do
    liftFault (← Eval.see (·.scopes.read .full s x strict))
  | .member base k this _ => do
    let o ← coerceBase .read base (k.spell .full)
    Eval.holding (.object o :: base :: this.toList) (getProperty run.call o k (this.getD base))
  | .abstractMember base name _ => resolveAbstract run .read base name

/-- Writes `v` through a reference. A name that is bound nowhere becomes a variable of the
    global scope, unless the reference is strict. -/
def writeReference (run : Runner) (r : Reference) (v : Value) : Eval Unit :=
  match r with
  | .value _ => Eval.raise .invalidTarget
  | .binding none x strict =>
    if strict then Eval.raise (.unbound (Spelling.full x))
    else modify fun w => { w with scopes := w.scopes.createGlobal globalScope x v }
  | .binding (some s) x strict => do
    let scopes ← liftFault (← Eval.see (·.scopes.write .full s x v strict))
    modify fun w => { w with scopes }
  | .member base k this strict => do
    let o ← coerceBase .write base (k.spell .full)
    let accepted ← Eval.holding (.object o :: base :: v :: this.toList)
      (setProperty run.call o k v (this.getD base))
    if !accepted && strict then Eval.raise (.readOnly (k.spell .full))
  | .abstractMember base name _ => do
    let _ ← resolveAbstract run (.write v) base name

/-- Deletes what a reference denotes. Returns whether it is gone. What a handler answers
    is of no account: it says that it failed by failing. -/
def deleteReference (run : Runner) : Reference → Eval Bool
  | .value _ | .binding none _ _ => return true
  | .binding (some s) x _ => do
    let released ← Eval.see (·.scopes.releases s x)
    modify fun w => { w with scopes := w.scopes.delete s x }
    return released
  | .member base k this strict => do
    if Reference.overridesReceiver base this then Eval.raise (.superDelete (k.spell .full))
    else
      let o ← coerceBase .delete base (k.spell .full)
      let released ← deleteProperty o k
      if !released && strict then Eval.raise (.undeletable (k.spell .full))
      else return released
  | .abstractMember base name _ => do
    let _ ← resolveAbstract run .delete base name
    return true

/-- The abstract reference to the property of `base` that `name` names. The base is kept as
    it is and gets a wrapper only when the reference is resolved. -/
def abstractReference (base name : Value) (strict : Bool) : Eval Reference := do
  if base.isNullish then Eval.raise (.abstractBase (← Eval.see (·.heap.typeName base)))
  else
    match name with
    | .object o => return .abstractMember base o strict
    | _ => Eval.raise (.abstractName (← Eval.see (·.heap.typeName name)))

/-- The abstract reference whose base and name are still to be evaluated. The base is evaluated
    and read through first; a failure of it leaves the name unevaluated. -/
def evaluateAbstract (run : Runner) (base name : Eval Reference) (strict : Bool) :
    Eval Reference := do
  let baseRef ← base
  Eval.holdingAll [baseRef] do
    let baseValue ← readReference run baseRef
    Eval.holding [baseValue] do
      let nameRef ← name
      let nameValue ← Eval.holdingAll [nameRef] (readReference run nameRef)
      abstractReference baseValue nameValue strict

end Lvalue
