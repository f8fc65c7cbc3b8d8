import Lvalue.Resolution
import Lvalue.Session.Function

/-!
# Running actions

What each action does and answers. Actions resolve references, and that may run
a handler, whose body runs actions in turn. Every handler that runs brings the
depth nearer to its limit, so `runnerAt` needs no more than the limit as its
budget.
-/

namespace Lvalue

open Eval (see)

/-! ## Pictures of references -/

/-- The picture of a reference. -/
def World.pictureReference (w : World) (r : Reference) : ShownReference where
  isReference := r.isReference
  isProperty := r.isProperty
  isUnresolvable := r.isUnresolvable
  isAbstract := r.isAbstract
  isStrict := r.isStrict
  target :=
    match r with
    | .value v => .value (w.picture v)
    | .binding s x _ => .binding (s.map w.handles.scopeName) (Spelling.full x)
    | .member base k this _ =>
      .property (w.picture base) (w.picture (this.getD base))
        (Reference.overridesReceiver base this) (w.picture k.toValue) (k.spell .full)
    | .abstractMember base name _ =>
      .property (w.picture base) (w.picture base) false (w.pictureObject name)
        (w.describeObject name)

/-- Keeps a reference and answers with its picture. -/
def answerReference (into : String) (r : Reference) : Eval Answer := do
  onHandles fun h => { h with references := h.references.insert into r }
  see fun w => .reference (w.pictureReference r)

/-- The reference with a name. -/
def referenceNamed (name : String) : Eval Reference := do
  Eval.demand (← see (·.handles.references.get? name))

/-! ## Parts of actions -/

/-- The error with the value that its expression has. -/
def Error.eval : Error Expr → Eval (Error Value)
  | .unbound name => return .unbound name
  | .invalidTarget => return .invalidTarget
  | .readOnly key => return .readOnly key
  | .undeletable key => return .undeletable key
  | .superDelete name => return .superDelete name
  | .missing op className => return .missing op className
  | .unfit reason => return .unfit reason
  | .nullishBase op name typeName => return .nullishBase op name typeName
  | .abstractBase typeName => return .abstractBase typeName
  | .abstractName typeName => return .abstractName typeName
  | .noMap className => return .noMap className
  | .tooDeep limit => return .tooDeep limit
  | .thrown v => return .thrown (← v.eval)
  | .fault f => return .fault (← f.eval)

/-- The reference that an evaluation ends in. -/
def Yield.eval : Yield → Eval Reference
  | .reference name => referenceNamed name
  | .value v => return .value (← v.eval)

/-- Installs a handler and answers with the label of the one in its place before. -/
def answerInstall (target : ObjectId) (h : Handler) : Eval Answer := do
  let old ← see (·.registry.get? target)
  modify fun w => { w with registry := w.registry.insert target h }
  return .previous (old.map (·.label))

/-- The description of the installed handlers. -/
def Registry.description (r : Registry) : String :=
  "CapabilityRegistry \x7b entries: " ++ toString r.size ++ " \x7d"

/-- The description of the bodies of a handler: which of them there are. -/
def Hooks.description {α : Type} (h : Hooks α) : String :=
  "Capability \x7b read: " ++ toString h.read.isSome ++ ", write: " ++ toString h.write.isSome ++
    ", delete: " ++ toString h.delete.isSome ++ " \x7d"

/-! ## Actions -/

mutual

/-- Runs an action. -/
def runAction (run : Runner) : Action → Eval Answer
  | .command c => runCommand run.call c
  | .fail cause => do Eval.raise (← cause.eval)
  | .refValue v into => do answerReference into (.value (← v.eval))
  | .refBinding scope name strict into => do
    let s ← scopeNamed scope
    let x ← name.atom
    answerReference into (.binding (← see (·.scopes.resolve s x)) x strict)
  | .refMember base key this strict into => do
    let base ← base.eval
    let k ← key.key
    let this ← this.mapM (·.eval)
    answerReference into (.member base k this strict)
  | .refAbstract base name strict into => do
    answerReference into (← abstractReference (← base.eval) (← name.eval) strict)
  | .refEvaluated base name strict into => do
    answerReference into (← evaluateAbstract run
      (do Eval.tell (.evaluate false); produce run base)
      (do Eval.tell (.evaluate true); produce run name) strict)
  | .getValue reference into => do
    let r ← referenceNamed reference
    answerValue into (← Eval.holdingAll [r] (readReference run r))
  | .putValue reference v => do
    let r ← referenceNamed reference
    let v ← v.eval
    Eval.holdingAll [r, .value v] (writeReference run r v)
    return .done
  | .deleteReference reference => do
    let r ← referenceNamed reference
    return .flag (← Eval.holdingAll [r] (deleteReference run r))
  | .install target label service => do answerInstall (← target.object) { label, service }
  | .share source target => do
    let h ← Eval.demand (← see (·.registry.get? (← source.object)))
    answerInstall (← target.object) h
  | .installStandard => do
    modify World.installStandard
    return .done
  | .uninstall target => do
    let o ← target.object
    let old ← see (·.registry.get? o)
    modify fun w => { w with registry := w.registry.erase o }
    return .removed (old.map (·.label))
  | .installed target => do
    return .installed ((← see (·.registry.get? (← target.object))).map (·.label))
  | .handlersFor name => do
    let o ← name.object
    see fun w => .labels ((w.registry.handlers (w.heap.chain o)).map (·.label))
  | .registrySize => see fun w => .registry w.registry.size w.registry.description
  | .describeHooks hooks => return .prose hooks.description
  | .config => see fun w => .config w.config.standardHandlers w.config.maxDepth.toNat

/-- Runs the steps of one side of an abstract reference, and returns what it ends in. -/
def produce (run : Runner) : Producer Action → Eval Reference
  | ⟨steps, yields⟩ => do
    runActions run steps
    yields.eval

/-- Runs the steps of a body, up to the first that fails and is not guarded. -/
def runActions (run : Runner) : List (Step Action) → Eval Unit
  | [] => pure ()
  | s :: rest => do
    runActionStep run s
    runActions run rest

/-- Runs one step of a body. -/
def runActionStep (run : Runner) : Step Action → Eval Unit
  | ⟨a, guarded⟩ => runStep guarded (runAction run a)

end

/-! ## Handlers -/

/-- The registers that the body of a handler starts with. -/
def hookFrame (v : Visit) : Table String Value :=
  let frame := (Table.empty.insert "$name" (.object v.name)).insert "$receiver" (.object v.receiver)
  match v.request.value? with
  | some value => frame.insert "$value" value
  | none => frame

/-- Runs the body of a handler. -/
def runHook (run : Runner) (label : String) (body : Script Action) (v : Visit) : Eval Value :=
  Eval.framed (hookFrame v) do
    if !body.quiet then
      Eval.tell (← see fun w =>
        .handler label v.request.operation (w.pictureObject v.name) (w.pictureObject v.receiver)
          (v.request.value?.map w.picture))
    runActions run body.steps
    Expr.evalOr .undefined body.result

/-- The way to run bodies when at most `n` handlers run inside one another. -/
def runnerAt (call : Caller) : Nat → Runner
  | 0 => { call, hook := fun _ _ _ => throw .exhausted }
  | n + 1 => { call, hook := fun label body v => runHook (runnerAt call n) label body v }

end Lvalue
