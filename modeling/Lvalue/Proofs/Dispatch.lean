import Lvalue.Session

/-!
# Dispatch

Which handler serves an operation on the property that an object names. A
registry is the outcome of the calls that made it, and of all the calls for one
object only the latest counts (`Registry.get?_after`). An operation is served by
the handler of the first object on the chain of the name that has one for it:
that handler runs, once, and no other does (`operate_nearest`).

An operation is made of three parts. The base becomes an object (`World.coerced`),
the request is served, and the operation makes of the answer what it returns
(`Request.conclude`).
-/

namespace Lvalue

/-! ## The history of a registry -/

/-- A call that changes a registry. -/
inductive RegistryCall where
  | install (target : ObjectId) (h : Handler)
  | uninstall (target : ObjectId)

namespace RegistryCall

/-- The object that the call is for. -/
def target : RegistryCall → ObjectId
  | install target _ | uninstall target => target

/-- The handler that the call leaves on its object. -/
def handler? : RegistryCall → Option Handler
  | install _ h => some h
  | uninstall _ => none

/-- What the call makes of a registry. -/
def apply (r : Registry) : RegistryCall → Registry
  | install target h => r.insert target h
  | uninstall target => r.erase target

/-- A call to the registry is about its target and nothing else. -/
theorem get?_apply (r : Registry) (c : RegistryCall) (o : ObjectId) :
    (c.apply r).get? o = if c.target = o then c.handler? else r.get? o := by
  cases c with
  | install target h => exact Table.get?_insert r target o h
  | uninstall target => exact Table.get?_erase r target o

/-- The handler that the latest call for the object left there, the latest call first. -/
def latest? (history : List RegistryCall) (o : ObjectId) : Option Handler :=
  (history.find? (·.target = o)).bind (·.handler?)

/-- After the history, the object has the handler `h`, which serves the operation. -/
def Serves (history : List RegistryCall) (op : Operation) (o : ObjectId) (h : Handler) : Prop :=
  latest? history o = some h ∧ h.service.serves op

end RegistryCall

open RegistryCall

namespace Registry

/-- The registry after a history of calls, the latest call first. -/
def after : List RegistryCall → Registry
  | [] => ∅
  | c :: earlier => c.apply (after earlier)

/-- The handler that is installed at a target is the one of the latest call about it. -/
theorem get?_after (history : List RegistryCall) (o : ObjectId) :
    (after history).get? o = latest? history o := by
  induction history with
  | nil => rfl
  | cons c earlier ih =>
    rw [after, get?_apply, ih, latest?, latest?]
    by_cases e : c.target = o
    · rw [if_pos e, List.find?_cons_of_pos (by simpa using e)]
      rfl
    · rw [if_neg e, List.find?_cons_of_neg (by simpa using e)]

variable {r : Registry} {op : Operation}

/-- No handler serves the operation if none on the chain does. -/
theorem server?_eq_none {chain : List ObjectId}
    (h : ∀ o ∈ chain, ∀ handler, r.get? o = some handler → ¬handler.service.serves op) :
    r.server? chain op = none := by
  refine List.find?_eq_none.2 fun handler mem => ?_
  obtain ⟨o, ho, installed⟩ := List.mem_filterMap.1 mem
  exact h o ho handler installed

/-- The nearest handler for the operation serves it. -/
theorem server?_eq_some {before after : List ObjectId} {o : ObjectId} {handler : Handler}
    (installed : r.get? o = some handler) (serves : handler.service.serves op)
    (nearest : ∀ o' ∈ before, ∀ handler', r.get? o' = some handler' →
      ¬handler'.service.serves op) :
    r.server? (before ++ o :: after) op = some handler := by
  have none_before : r.server? before op = none := server?_eq_none nearest
  unfold server? handlers at *
  -- The handlers along the chain are those before `o`, `handler` and those after.
  rw [List.filterMap_append, List.find?_append, none_before, List.filterMap_cons_some installed,
    Option.none_or]
  exact List.find?_cons_of_pos serves

end Registry

/-! ## The base -/

namespace World

/-- The object that stands for a base: itself, or the next new one. -/
def receiver (w : World) : Value → ObjectId
  | .object o => o
  | _ => ⟨w.heap.next⟩

/-- The world in which an object stands for the base: a primitive base has got a wrapper. -/
def coerced (w : World) (base : Value) : World :=
  match Intrinsic.ofPrimitive base with
  | some i => { w with heap := (w.heap.alloc (wrapper base i.id)).2 }
  | none => w

end World

variable {w : World} {base : Value}

/-- A base that is not nullish is taken for an object, and no failure is possible. -/
theorem on_coerceBase (hb : base.isNullish = false) (op : Operation) (name : Prose) :
    (coerceBase op base name).on w = (.ok (w.receiver base), w.coerced base) := by
  rw [coerceBase]
  rw [if_neg (by rw [hb]; exact Bool.false_ne_true)]
  cases base with
  | undefined | null => contradiction
  | _ => rfl

/-- A nullish base is refused by its name. -/
theorem on_coerceBase_of_nullish (hb : base.isNullish = true) (op : Operation) (name : Prose) :
    (coerceBase op base name).on w =
      (.error (.raised (.nullishBase op name (w.heap.typeName base))), w) := by
  rw [coerceBase, if_pos hb]
  rfl

/-- To coerce a base touches neither the depth and its limit nor the registry. -/
theorem coerced_frame (w : World) (base : Value) :
    (w.coerced base).depth = w.depth ∧ (w.coerced base).config = w.config ∧
      (w.coerced base).registry = w.registry := by
  rw [World.coerced]
  split <;> exact ⟨rfl, rfl, rfl⟩

/-! ## Operations -/

/-- Performs the operation that is requested. What it returns is shown as a value. -/
def operate (run : Runner) (r : Reference) : Request → Eval Value
  | .read => readReference run r
  | .write v => do
    writeReference run r v
    return .undefined
  | .delete => return .bool (← deleteReference run r)

/-- What an operation makes of the answer of the handler that served it. -/
def Request.conclude : Request → Value → Value
  | read, answer => answer
  | write _, _ => .undefined
  | delete, _ => .bool true

/-- What is held while a request is served. -/
def Visit.held (v : Visit) (base : Value) : List Value :=
  [base, .object v.name, .object v.receiver] ++ v.request.value?.toList

variable (run : Runner) (request : Request) (name : ObjectId)

/-- An operation through an abstract reference is a request to handlers. -/
theorem operate_abstract (strict : Bool) :
    operate run (.abstractMember base name strict) request =
      request.conclude <$> resolveAbstract run request base name := by
  cases request with
  | read => exact (id_map _).symm
  | write v =>
    simp only [operate, writeReference, bind_assoc, pure_bind]
    rfl
  | delete =>
    simp only [operate, deleteReference, bind_assoc, pure_bind]
    rfl

theorem on_resolveAbstract (hb : base.isNullish = false) :
    let v : Visit := { request, name, receiver := w.receiver base }
    (resolveAbstract run request base name).on w =
      (Eval.holding (v.held base) (dispatch run v)).on (w.coerced base) := by
  simp only [resolveAbstract, Eval.on_bind, Eval.on_see, on_coerceBase hb]
  rfl

/-- The world with some values held. -/
def World.hold (w : World) (vs : List Value) : World :=
  { w with handles := { w.handles with operands := vs.map .value ++ w.handles.operands } }

/-- The world with as many values no longer held. -/
def World.release (w : World) (vs : List Value) : World :=
  { w with handles := { w.handles with operands := w.handles.operands.drop vs.length } }

theorem on_holding {α : Type} (vs : List Value) (act : Eval α) (w : World) :
    (Eval.holding vs act).on w = ((act.on (w.hold vs)).1, (act.on (w.hold vs)).2.release vs) := by
  rw [Eval.holding, Eval.holdingAll, Eval.on_between, List.length_map]
  rfl

/-- What is held is let go again. -/
theorem release_hold (w : World) (vs : List Value) : (w.hold vs).release vs = w := by
  rw [World.release, World.hold, List.drop_left' (List.length_map _)]

namespace World

/-- The world in which a handler runs while some values are held. -/
def inside (w : World) (vs : List Value) : World := { w.hold vs with depth := w.depth + 1 }

/-- The world after that. -/
def outside (w : World) (vs : List Value) : World :=
  ({ w with depth := w.depth - 1 } : World).release vs

theorem on_holding_deeper {α : Type} (vs : List Value) (act : Eval α) (w : World) :
    (Eval.holding vs (deeper act)).on w =
      ((act.on (w.inside vs)).1, (act.on (w.inside vs)).2.outside vs) := by
  rw [on_holding, on_deeper]
  rfl

/-- Whoever changes heap and scopes alone leaves the rest as it was outside. -/
theorem outside_inside (w : World) (vs : List Value) (heap : Heap) (scopes : Scopes) :
    ({ w.inside vs with heap, scopes } : World).outside vs = { w with heap, scopes } := by
  rw [outside, release, inside, hold, UInt32.add_sub_cancel]
  simp

end World

/-- The nearest handler serves a request whatever is held meanwhile. -/
theorem on_holding_dispatch_of_server (v : Visit) (vs : List Value)
    (room : w.depth < w.config.maxDepth) {handler : Handler}
    (hs : w.registry.server? (w.heap.chain v.name) v.request.operation = some handler) :
    (Eval.holding vs (dispatch run v)).on w =
      (Eval.holding vs (deeper (serve run handler v))).on w := by
  have room' : (w.hold vs).depth < (w.hold vs).config.maxDepth := room
  rw [on_holding, on_holding, dispatch_of_server run v room' hs]

/-- Without a handler the request fails, and nothing has been done. -/
theorem on_holding_dispatch_of_missing (v : Visit) (vs : List Value)
    (room : w.depth < w.config.maxDepth)
    (hs : w.registry.server? (w.heap.chain v.name) v.request.operation = none) :
    (Eval.holding vs (dispatch run v)).on w =
      (.error (.raised (.missing v.request.operation (w.heap.className v.name))), w) := by
  have room' : (w.hold vs).depth < (w.hold vs).config.maxDepth := room
  rw [on_holding, dispatch_of_missing run v room' hs, release_hold]
  rfl

/-- At the limit of the depth it fails before any handler is looked for. -/
theorem on_holding_dispatch_of_le (v : Visit) (vs : List Value)
    (full : w.config.maxDepth ≤ w.depth) :
    (Eval.holding vs (dispatch run v)).on w =
      (.error (.raised (.tooDeep w.config.maxDepth)), w) := by
  have full' : (w.hold vs).config.maxDepth ≤ (w.hold vs).depth := full
  rw [on_holding, dispatch_of_le run v full', release_hold]
  rfl

/-- Where no more handlers may run, none does, whether there is one or not. -/
theorem operate_of_full (hb : base.isNullish = false) (full : w.config.maxDepth ≤ w.depth)
    (strict : Bool) :
    (operate run (.abstractMember base name strict) request).on w =
      (.error (.raised (.tooDeep w.config.maxDepth)), w.coerced base) := by
  obtain ⟨depth, config, -⟩ := coerced_frame w base
  have full' : (w.coerced base).config.maxDepth ≤ (w.coerced base).depth := by
    rw [depth, config]
    exact full
  rw [operate_abstract, Eval.on_map, on_resolveAbstract run request name hb,
    on_holding_dispatch_of_le run _ _ full', config]
  rfl

/-! ## The nearest handler -/

namespace World

/-- What the handler of maps makes of a request in the world `u`: its answer, and the world that it
    leaves. A read takes the nearest entry that the receiver inherits, and a write and a delete go
    to its own. There is nothing if the name is no map. -/
def mapAnswer? (u : World) (v : Visit) : Option (Value × World) :=
  match v.request with
  | .read => (u.inheritedValue? v.name (u.heap.chain v.receiver)).map (·, u)
  | .write value => (u.setEntry v.name (.object v.receiver) value).map (.undefined, ·)
  | .delete =>
    (u.valueAt? v.name (.object v.receiver)).map fun old =>
      (.bool old.isSome, (u.deleteEntry v.name (.object v.receiver)).getD u)

/-- A read of an entry leaves the world as it is. -/
theorem world_of_mapAnswer? (u : World) {v : Visit} {end_ : Value × World}
    (read : v.request = .read) (answers : u.mapAnswer? v = some end_) : end_.2 = u := by
  rw [mapAnswer?, read] at answers
  obtain ⟨found, -, rfl⟩ := Option.map_eq_some_iff.1 answers
  rfl

end World

/-- The handler of maps answers so; for a name that is no map it fails and leaves all as it is. -/
theorem on_serveEntry (v : Visit) (u : World) :
    (serveEntry v).on u =
      (u.mapAnswer? v).elim (.error (.raised (.noMap (u.heap.className v.name))), u)
        fun end_ => (.ok end_.1, end_.2) := by
  rcases v with ⟨_ | value | _, name, receiver⟩ <;> dsimp only [serveEntry, World.mapAnswer?] <;>
    rw [Eval.on_bind, Eval.on_see]
  · cases u.inheritedValue? name (u.heap.chain receiver) <;> rfl
  · cases u.setEntry name (.object receiver) value <;> rfl
  · cases u.valueAt? name (.object receiver) <;> rfl

/-- A handler with a hook for the operation runs its body. -/
theorem serve_of_hook {h : Handler} {hooks : Hooks Action} {body : Script Action} (v : Visit)
    (service : h.service = .scripted hooks) (hook : hooks.on v.request.operation = some body) :
    serve run h v = run.hook h.label body v := by
  rw [serve, service]
  dsimp only
  rw [hook]

/-- The handler that is found serves the operation, inside, and what it answers is made use of
    outside. -/
theorem operate_of_server (hb : base.isNullish = false) (strict : Bool)
    (room : (w.coerced base).depth < (w.coerced base).config.maxDepth) {h : Handler}
    (hs : (w.coerced base).registry.server? ((w.coerced base).heap.chain name) request.operation =
      some h) :
    let v : Visit := { request, name, receiver := w.receiver base }
    let end_ := (serve run h v).on ((w.coerced base).inside (v.held base))
    (operate run (.abstractMember base name strict) request).on w =
      (end_.1.map request.conclude, end_.2.outside (v.held base)) := by
  intro v end_
  rw [operate_abstract, Eval.on_map, on_resolveAbstract run request name hb,
    on_holding_dispatch_of_server run v _ room hs, World.on_holding_deeper]

/-- Without a handler on the chain of the name the operation fails, and that is all. -/
theorem operate_of_missing (hb : base.isNullish = false) (strict : Bool)
    (room : (w.coerced base).depth < (w.coerced base).config.maxDepth)
    (hs : (w.coerced base).registry.server? ((w.coerced base).heap.chain name) request.operation =
      none) :
    (operate run (.abstractMember base name strict) request).on w =
      (.error (.raised (.missing request.operation ((w.coerced base).heap.className name))),
        w.coerced base) := by
  rw [operate_abstract, Eval.on_map, on_resolveAbstract run request name hb,
    on_holding_dispatch_of_missing run _ _ room hs]
  rfl

/-- An operation on the property of `base` that the object `name` names, in a world whose registry
    has any history, where there is room for one more handler. The chain and the registry are those
    of the moment when the base has become an object.

    The first object on the chain that has a handler for the operation decides. The body of this
    handler runs, once, one deeper, and sees the name itself and the object that stands for the
    base; what the operation returns is its answer, but that a delete always returns true, and its
    failure is that of the operation. The handler of functions answers with the name, and the one of
    maps with an entry. Nothing else runs, whatever the body does to the registry and to the chain.
    If there is no such handler, nothing runs and the operation fails. -/
theorem operate_nearest {history : List RegistryCall} (hr : w.registry = .after history)
    (hb : base.isNullish = false) (room : w.depth < w.config.maxDepth) (strict : Bool) :
    let v : Visit := { request, name, receiver := w.receiver base }
    let w' := w.coerced base
    let u := w'.inside (v.held base)
    let act := operate run (.abstractMember base name strict) request
    let op := request.operation
    (∀ before o after h, w'.heap.chain name = before ++ o :: after → Serves history op o h →
      (∀ o' ∈ before, ∀ h', ¬Serves history op o' h') →
      (∀ hooks body, h.service = .scripted hooks → hooks.on op = some body →
        let end_ := (run.hook h.label body v).on u
        act.on w = (end_.1.map request.conclude, end_.2.outside (v.held base))) ∧
      (h.service = .itself → act.on w = (.ok (.object name), w')) ∧
      (h.service = .entries →
        act.on w =
          (u.mapAnswer? v).elim (.error (.raised (.noMap (w'.heap.className name))), w')
            fun end_ => (.ok (request.conclude end_.1), end_.2.outside (v.held base)))) ∧
    ((∀ o ∈ w'.heap.chain name, ∀ h, ¬Serves history op o h) →
      act.on w = (.error (.raised (.missing op (w'.heap.className name))), w')) := by
  intro v w' u act op
  obtain ⟨depth, config, registry⟩ := coerced_frame w base
  have room' : w'.depth < w'.config.maxDepth := by
    rw [depth, config]
    exact room
  -- A wrapper for the base changes the heap alone, so that the history is still that of the
  -- registry at the moment of dispatch.
  have installed (o : ObjectId) : w'.registry.get? o = latest? history o := by
    rw [registry, hr, Registry.get?_after]
  refine ⟨fun before o after h chain serves nearest => ?_, fun nobody => ?_⟩
  · have hs : w'.registry.server? (w'.heap.chain name) op = some h := by
      rw [chain]
      refine Registry.server?_eq_some ((installed o).trans serves.1) serves.2 fun o' ho' h' hi => ?_
      exact fun hserves => nearest o' ho' h' ⟨(installed o').symm.trans hi, hserves⟩
    have served := operate_of_server run request name hb strict room' hs
    refine ⟨fun hooks body service hook => ?_, fun service => ?_, fun service => ?_⟩
    · rw [served, serve_of_hook run v service hook]
    · -- Functions have a handler for reads alone.
      have read : request.operation = .read := by
        have := serves.2
        rw [service] at this
        exact of_decide_eq_true this
      have request_read : request = .read := by
        cases request with
        | read => rfl
        | write | delete => contradiction
      subst request_read
      have itself : serve run h v = pure (.object name) := by rw [serve, service]
      rw [served, itself]
      exact congrArg _ (World.outside_inside w' _ _ _)
    · have entries : serve run h v = serveEntry v := by rw [serve, service]
      rw [served, entries, on_serveEntry]
      cases u.mapAnswer? v with
      | none => exact congrArg _ (World.outside_inside w' _ _ _)
      | some end_ => rfl
  · have hs : w'.registry.server? (w'.heap.chain name) op = none :=
      Registry.server?_eq_none fun o ho h hi hserves =>
        nobody o ho h ⟨(installed o).symm.trans hi, hserves⟩
    exact operate_of_missing run request name hb strict room' hs

/-- A name with a handler for writes alone, whose prototype has one for reads: a read falls through
    to the prototype, whose handler is told of the name itself and of the wrapper, and ends in its
    answer; a delete finds nobody. -/
theorem operate_nearest_on_prototype :
    let run := runnerAt (callerAt 1) 1
    let writer : Handler := ⟨"writer", .scripted { write := some {} }⟩
    let reader : Handler := ⟨"reader", .scripted { read := some { result := some .null } }⟩
    let name := Intrinsic.map.id
    let history : List RegistryCall :=
      [.install Intrinsic.object.id reader, .install name writer, .uninstall name]
    let w : World := { World.initial {} with registry := .after history }
    let w' := w.coerced (.bool true)
    let read := (operate run (.abstractMember (.bool true) name true) .read).on w
    let told : Entry := .handler "reader" .read (w'.pictureObject name) (w'.pictureObject ⟨8⟩) none
    read = (.ok .null, { w' with journal := [told] }) ∧
      (operate run (.abstractMember (.bool true) name true) .delete).on w =
        (.error (.raised (.missing .delete "Object")), w') := by
  intro run writer reader name history w w' read told
  have room : w.depth < w.config.maxDepth := by decide
  have chain : w'.heap.chain name = [name] ++ Intrinsic.object.id :: [] := by decide
  have onName : latest? history name = some writer := rfl
  have onPrototype : latest? history Intrinsic.object.id = some reader := rfl
  have read_eq := ((operate_nearest run .read name rfl rfl room true).1 _ _ _ reader chain
    ⟨onPrototype, rfl⟩ fun o mem h serves => by
      obtain rfl := List.mem_singleton.1 mem
      obtain rfl := Option.some.inj (onName.symm.trans serves.1)
      exact absurd serves.2 (by decide)).1 _ _ rfl rfl
  constructor
  · -- Inside, the depth was one more.
    have depth : w'.depth + 1 - 1 = w'.depth := UInt32.add_sub_cancel ..
    exact read_eq.trans (congrArg (fun depth => (_, { w' with depth, journal := [told] })) depth)
  · refine (operate_nearest run .delete name rfl rfl room true).2 fun o mem h serves => ?_
    rw [chain] at mem
    rcases List.mem_cons.1 mem with rfl | mem
    · obtain rfl := Option.some.inj (onName.symm.trans serves.1)
      exact absurd serves.2 (by decide)
    · obtain rfl := List.mem_singleton.1 mem
      obtain rfl := Option.some.inj (onPrototype.symm.trans serves.1)
      exact absurd serves.2 (by decide)

end Lvalue
