import Lvalue.Access
import Lvalue.Session.Register

/-!
# Running commands

What each command does and answers, for every way in which functions run.
-/

namespace Lvalue

open Eval (see onHeap)

/-! ## Answers -/

/-- Keeps a value and answers with its picture. -/
def answerValue (into : Option String) (v : Value) : Eval Answer := do
  keep into v
  return .value (← see (·.picture v))

/-- Keeps an object and answers with its picture. -/
def answerObject (into : Option String) (o : ObjectId) : Eval Answer :=
  answerValue into (.object o)

/-- The answer to what was asked about the world. -/
def answerFlag (f : World → Bool) : Eval Answer := return .flag (← see f)

/-- Makes a change and answers whether the world before it allowed it. -/
def answerChange (allowed : World → Bool) (change : World → World) : Eval Answer := do
  let b ← see allowed
  modify change
  return .flag b

/-- A change of the heap that it may not allow. -/
def answerHeapChange (allowed : Heap → Bool) (change : Heap → Heap) : Eval Answer :=
  answerChange (allowed ·.heap) fun w => { w with heap := change w.heap }

/-! ## Parts of commands -/

/-- The property that a command writes. -/
def PropertyExpr.eval : PropertyExpr → Eval Property
  | .data v writable enumerable configurable => do
    return { slot := .data (← v.eval) writable, enumerable, configurable }
  | .accessor getter setter enumerable configurable => do
    return { slot := .accessor (← Expr.objectOption getter) (← Expr.objectOption setter)
             enumerable, configurable }

/-- The kind of object that a command makes. -/
def Blueprint.eval : Blueprint → Eval Kind
  | .ordinary => return .ordinary
  | .map => return .map ∅
  | .weakMap => return .weakMap ∅
  | .wrapper v => return .wrapper (← v.eval)

/-- The prototype of a new object of a kind. -/
def Parent.eval (kind : Kind) : Parent → Eval (Option ObjectId)
  | .standard => return (Intrinsic.ofKind kind).map (·.id)
  | .none => return Option.none
  | .object e => return some (← e.object)

/-- The binding that a declaration makes. -/
def Declaration.eval : Declaration → Eval Binding
  | .var v => return .var (← v.eval)
  | .letting => return .pending .letting
  | .constant => return .pending .constant

/-- The fault with the value that its expression has. -/
def Fault.eval : Fault Expr → Eval (Fault Value)
  | .unfit reason => return .unfit reason
  | .noObject typeName => return .noObject typeName
  | .notCallable className o => return .notCallable className o
  | .unbound name => return .unbound name
  | .uninitialised name => return .uninitialised name
  | .constant name => return .constant name
  | .thrown v => return .thrown (← v.eval)

/-- Makes `n` objects, the first inheriting from `root` and each other from the one before
    it, and returns the last one. -/
def allocChain (root : ObjectId) : Nat → Eval ObjectId
  | 0 => return root
  | n + 1 => do Eval.alloc { prototype := some (← allocChain root n) }

/-- Makes `n` scopes, the first in `parent` and each other in the one before it, and
    returns the last one. -/
def nestScopes (parent : ScopeId) : Nat → Eval ScopeId
  | 0 => return parent
  | n + 1 => do allocScope (some (← nestScopes parent n))
where
  /-- Makes a new scope. -/
  allocScope (parent : Option ScopeId) : Eval ScopeId :=
    modifyGet fun w =>
      let (s, scopes) := w.scopes.alloc parent
      (s, { w with scopes })

/-- A key comes before another in a listing: texts by their characters, then symbols by
    age. -/
def Key.precedes : Key → Key → Bool
  | .text a, .text b => !(Spelling.full b < Spelling.full a)
  | .text _, .symbol _ => true
  | .symbol _, .text _ => false
  | .symbol s, .symbol t => s.serial ≤ t.serial

/-- The picture of an object with its properties, in the order of their keys. -/
def World.dump (w : World) (o : ObjectId) : Dump :=
  let object := (w.heap.get? o).getD { prototype := none }
  let properties := object.properties.entries.mergeSort fun e f => e.1.precedes f.1
  { object := w.pictureObject o
    prototype := object.prototype.map w.pictureObject
    extensible := object.extensible
    callable := object.isCallable
    properties := properties.map fun (k, p) => (w.picture k.toValue, w.pictureProperty p) }

/-- The picture of a binding. -/
def World.pictureBinding (w : World) (b : Binding) : ShownBinding :=
  { b with value := w.picture b.value }

/-- The spelling that knows all texts, or none. -/
def Spelling.of (blank : Bool) : Spelling := if blank then .blank else .full

/-! ## Commands -/

/-- Gives a scope another name and answers with its first one. -/
def answerScope (into : String) (s : ScopeId) : Eval Answer := do
  onHandles fun h => { h with scopes := h.scopes.insert into s }
  see fun w => .scope (w.handles.scopeName s) (w.scopes.parent? s).isNone

/-- Runs a command. -/
def runCommand (run : Caller) : Command → Eval Answer
  | .value v into => do answerValue into (← v.eval)
  | .note v => do
    let shown ← see (·.picture (← v.eval))
    Eval.tell (.note shown)
    return .value shown
  | .newSymbol description into => do
    let serial ← see (·.nextSymbol)
    modify fun w => { w with nextSymbol := serial + 1 }
    answerValue into (.symbol { serial, description })
  | .danglingText index into => answerValue into (.text (.dangling index))
  | .inspect v => do
    let v ← v.eval
    see fun w => .inspection
      { value := w.picture v
        typeName := w.heap.typeName v
        undefined := v = .undefined
        nullish := v.isNullish
        isObject := v.object?.isSome
        display := w.display .full v }
  | .displayBlank v => do
    let v ← v.eval
    see fun w => .prose (w.display .blank v)
  | .describe v busy => do
    let v ← v.eval
    if let .object o := v then Eval.tell (.mention o)
    see fun w => .prose <|
      match busy, v with
      | true, .object o => ("Object(" : Prose) ++ World.describeBusy o ++ ")"
      | _, _ => w.describe v
  | .describeFunction fn => do
    match ← see (·.heap.kind? (← fn.object)) with
    | some (.function f) => return .prose ("NativeFunction(" ++ Text.quoted f.name ++ ")")
    | _ => Eval.stuck
  | .compare a b => do
    let a ← a.eval
    let b ← b.eval
    return .comparison (a.equals b) (a.same b)
  | .keyName key blank => do return .prose ((← key.key).spell (.of blank))
  | .fail cause => do Eval.fault (← cause.eval)
  | .new blueprint parent into => do
    let kind ← blueprint.eval
    let prototype ← parent.eval kind
    answerObject into (← Eval.alloc { kind, prototype })
  | .newChain root n into => do answerObject into (← allocChain (← root.object) n)
  | .function name body into => do
    let kind := Kind.function { name, body }
    answerObject into (← Eval.alloc { kind, prototype := some Intrinsic.function.id })
  | .toObject v into => do answerObject into (← toObject (← v.eval))
  | .define obj key property => do
    let o ← obj.object
    let k ← key.key
    let p ← property.eval
    answerHeapChange (·.admits o k p) (·.define o k p)
  | .own obj key => do
    let o ← obj.object
    let k ← key.key
    see fun w => .own ((w.heap.own? o k).map w.pictureProperty)
  | .delete obj key => do return .flag (← deleteProperty (← obj.object) (← key.key))
  | .get obj key receiver into => do
    let o ← obj.object
    let k ← key.key
    let receiver ← Expr.evalOr (.object o) receiver
    answerValue into (← Eval.holding [.object o, receiver] (getProperty run o k receiver))
  | .set obj key v receiver => do
    let o ← obj.object
    let k ← key.key
    let v ← v.eval
    let receiver ← Expr.evalOr (.object o) receiver
    return .flag (← Eval.holding [.object o, v, receiver] (setProperty run o k v receiver))
  | .call fn this args into => do
    let f ← fn.object
    Eval.tell (.mention f)
    let this ← Expr.evalOr .undefined this
    let args ← args.mapM (·.eval)
    answerValue into (← Eval.holding (.object f :: this :: args) (call run f this args))
  | .setPrototype obj prototype => do
    let o ← obj.object
    let p ← Expr.objectOption prototype
    answerHeapChange (·.mayInherit o p) (·.setPrototype o p)
  | .preventExtensions obj => do
    let o ← obj.object
    onHeap (·.preventExtensions o)
    answerFlag fun w => (w.heap.get? o).any (·.extensible)
  | .chain obj => do return .objects (← see (·.heap.chain (← obj.object)))
  | .chainLength obj => do return .count (← see (·.heap.chain (← obj.object))).length
  | .dump obj => do return .dump (← see (·.dump (← obj.object)))
  | .mapGet map key into => do
    let m ← map.object
    let k ← key.eval
    let found ← Eval.demand (← see (·.valueAt? m k))
    if let some v := found then keep into v
    see fun w => .entry (found.map w.picture)
  | .mapHas map key => do
    let m ← map.object
    let k ← key.eval
    return .flag (← Eval.demand (← see (·.valueAt? m k))).isSome
  | .mapSet map key v => do
    let m ← map.object
    let k ← key.eval
    let v ← v.eval
    set (← Eval.demand (← see (·.setEntry m k v)))
    return .done
  | .mapDelete map key => do
    let m ← map.object
    let k ← key.eval
    let old ← Eval.demand (← see (·.valueAt? m k))
    set (← Eval.demand (← see (·.deleteEntry m k)))
    return .flag old.isSome
  | .mapSize map => do
    match ← see (·.heap.kind? (← map.object)) with
    | some (.map entries) => return .mapSize entries.size none
    | some (.weakMap entries) =>
      modify World.settle
      let living ← see (·.heap.living)
      return .mapSize entries.size (some (entries.liveSize (living.contains ·.serial)))
    | _ => Eval.stuck
  | .mapPrune map => do
    let m ← map.object
    modify (·.prune m)
    return .done
  | .downgrade obj into => do
    let o ← obj.object
    onHandles fun h => { h with weak := h.weak.insert into o }
    return .done
  | .weak name => do
    let o ← Eval.demand (← see (·.handles.weak.get? name))
    modify World.settle
    see fun w =>
      if w.heap.alive o then
        .weak (some (w.pictureObject o)) (("Weak(" : Prose) ++ w.describeObject o ++ ")")
      else .weak none "Weak(<dropped>)"
  | .dropRegisters names => do
    onHandles fun h => names.foldl Handles.forget h
    return .done
  | .dropReference name => do
    onHandles fun h => { h with references := h.references.erase name }
    return .done
  | .dropScope name => do
    onHandles fun h => { h with scopes := h.scopes.erase name }
    return .done
  | .newScope parent into => do
    let parent ← parent.mapM scopeNamed
    answerScope into (← nestScopes.allocScope parent)
  | .nestScopes parent n into => do answerScope into (← nestScopes (← scopeNamed parent) n)
  | .scopeInfo scope => do
    let s ← scopeNamed scope
    see fun w =>
      let size := ((w.scopes.get? s).map (·.bindings.size)).getD 0
      .scopeInfo (w.handles.scopeName s) (w.handles.scopeName (w.scopes.outermost s))
        ((w.scopes.parent? s).map w.handles.scopeName)
        ("Scope(" ++ toString size ++ " bindings)")
  | .declare scope name declaration => do
    let s ← scopeNamed scope
    let x ← name.atom
    let b ← declaration.eval
    modify fun w => { w with scopes := w.scopes.declare s x b }
    return .done
  | .initialise scope name v => do
    let s ← scopeNamed scope
    let x ← name.atom
    let v ← v.eval
    answerChange (·.scopes.awaits s x) fun w => { w with scopes := w.scopes.initialise s x v }
  | .binding scope name => do
    let s ← scopeNamed scope
    let x ← name.atom
    see fun w => .binding ((w.scopes.binding? s x).map w.pictureBinding)
  | .findScope scope name => do
    let s ← scopeNamed scope
    let x ← name.atom
    see fun w => .scopeName ((w.scopes.resolve s x).map w.handles.scopeName)
  | .scopeGet scope name strict blank into => do
    let s ← scopeNamed scope
    let x ← name.atom
    match ← see (·.scopes.read (.of blank) s x strict) with
    | .ok v => answerValue into v
    | .error f => Eval.fault f
  | .scopeSet scope name v strict blank => do
    let s ← scopeNamed scope
    let x ← name.atom
    let v ← v.eval
    match ← see (·.scopes.write (.of blank) s x v strict) with
    | .ok scopes =>
      modify fun w => { w with scopes }
      return .done
    | .error f => Eval.fault f
  | .scopeDelete scope name => do
    let s ← scopeNamed scope
    let x ← name.atom
    answerChange (·.scopes.releases s x) fun w => { w with scopes := w.scopes.delete s x }
  | .createGlobal scope name v => do
    let s ← scopeNamed scope
    let x ← name.atom
    let v ← v.eval
    modify fun w => { w with scopes := w.scopes.createGlobal s x v }
    return .done

end Lvalue
