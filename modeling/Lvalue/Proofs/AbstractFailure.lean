import Lvalue.Proofs.Acquisition
import Lvalue.Proofs.Dispatch

/-!
# Failures of abstract references

An abstract reference is checked when it is built: its base is neither undefined nor null, and its
name is an object (`Reference.Built.based`). Nothing changes it afterwards. So nothing but the
handlers has a say in what is done through it. The request always reaches them, and how it fails
is how `dispatch` fails (`Exit`): no handler may run, none serves the request, or the nearest one
that does has failed, with the failure of that one (`dispatch_error_iff`).

The refusals that other references are answered with (`Error.Refusal`) never come from the
resolution of an abstract one. If an operation on it ends in one, then a body has ended so.
-/

namespace Lvalue

open Eval

/-! ## Abstract references that are built -/

/-- What comes of two evaluations in turn comes of the second one. -/
theorem Eval.ok_of_bind {α β : Type} {act : Eval α} {f : α → Eval β} {w : World} {b : β}
    (h : ((act >>= f).on w).1 = .ok b) :
    ∃ a w', act.on w = (.ok a, w') ∧ ((f a).on w').1 = .ok b := by
  rw [on_bind] at h
  revert h
  rcases act.on w with ⟨_ | a, w'⟩
  · nofun
  · exact fun h => ⟨a, w', rfl, h⟩

section

variable {base name : Value} {strict : Bool} {r : Reference} {w : World}

theorem abstractReference_ok (h : ((abstractReference base name strict).on w).1 = .ok r) :
    base.isNullish = false ∧ ∃ o, name = .object o ∧ r = .abstractMember base o strict := by
  unfold abstractReference at h
  split at h
  · cases h
  · rename_i notNullish
    split at h
    · cases h
      exact ⟨eq_false_of_ne_true notNullish, _, rfl, rfl⟩
    · cases h

/-- However base and name are evaluated, it is their values that are checked. -/
theorem evaluateAbstract_ok {run : Runner} {evalBase evalName : Eval Reference}
    (h : ((evaluateAbstract run evalBase evalName strict).on w).1 = .ok r) :
    ∃ base name w', ((abstractReference base name strict).on w').1 = .ok r := by
  obtain ⟨baseRef, w₁, -, h⟩ := ok_of_bind h
  obtain ⟨baseValue, w₂, -, h⟩ := ok_of_bind h
  obtain ⟨nameRef, w₃, -, h⟩ := ok_of_bind h
  obtain ⟨nameValue, w₄, -, h⟩ := ok_of_bind h
  exact ⟨baseValue, nameValue, w₄, h⟩

/-- An abstract reference has a base that an object can stand for, and an object for a name. -/
theorem Reference.Built.based (built : r.Built) (abstract : r.isAbstract) :
    ∃ base name strict, r = .abstractMember base name strict ∧ base.isNullish = false := by
  cases built with
  | value | binding | member => contradiction
  | abstract made =>
    obtain ⟨notNullish, o, -, rfl⟩ := abstractReference_ok made
    exact ⟨_, o, _, rfl, notNullish⟩
  | evaluated made =>
    obtain ⟨base, name, w', made⟩ := evaluateAbstract_ok made
    obtain ⟨notNullish, o, -, rfl⟩ := abstractReference_ok made
    exact ⟨_, o, _, rfl, notNullish⟩

end

/-- An object stands for every base that gets as far as that. -/
theorem coerceBase_cases (op : Operation) (base : Value) (name : Prose) (w : World) :
    (base.isNullish = true ∧ (coerceBase op base name).on w =
      (.error (.raised (.nullishBase op name (w.heap.typeName base))), w)) ∨
    (base.isNullish = false ∧ coerceBase op base name = toObject base ∧
      (toObject base).on w = (.ok (w.receiver base), w.coerced base)) := by
  cases hb : base.isNullish with
  | true => exact .inl ⟨rfl, on_coerceBase_of_nullish hb op name⟩
  | false =>
    have reaches : coerceBase op base name = toObject base :=
      if_neg (by rw [hb]; exact Bool.false_ne_true)
    exact .inr ⟨rfl, reaches, reaches ▸ on_coerceBase hb op name⟩

/-! ## How a request fails -/

/-- The ways in which a request fails in the world `u`. -/
inductive Exit (run : Runner) (v : Visit) (u : World) : Halt → Prop
  /-- No more handlers may run inside one another. -/
  | tooDeep (full : u.config.maxDepth ≤ u.depth) :
    Exit run v u (.raised (.tooDeep u.config.maxDepth))
  /-- No handler on the chain of the name serves the operation. -/
  | missing (room : u.depth < u.config.maxDepth)
    (nobody : u.registry.server? (u.heap.chain v.name) v.request.operation = none) :
    Exit run v u (.raised (.missing v.request.operation (u.heap.className v.name)))
  /-- The nearest handler that serves the operation fails so. -/
  | handler (room : u.depth < u.config.maxDepth) {handler : Handler}
    (nearest : u.registry.server? (u.heap.chain v.name) v.request.operation = some handler)
    {halt : Halt}
    (fails : ((serve run handler v).on { u with depth := u.depth + 1 }).1 = .error halt) :
    Exit run v u halt

section

variable {run : Runner} {v : Visit} {u : World} {halt : Halt}

theorem dispatch_error_iff : ((dispatch run v).on u).1 = .error halt ↔ Exit run v u halt := by
  constructor
  · intro h
    by_cases full : u.config.maxDepth ≤ u.depth
    · rw [dispatch_of_le run v full] at h
      cases h
      exact .tooDeep full
    have room : u.depth < u.config.maxDepth := UInt32.not_le.1 full
    cases found : u.registry.server? (u.heap.chain v.name) v.request.operation with
    | none =>
      rw [dispatch_of_missing run v room found] at h
      cases h
      exact .missing room found
    | some handler =>
      rw [dispatch_of_server run v room found] at h
      exact .handler room found h
  · rintro (full | ⟨room, nobody⟩ | ⟨room, nearest, fails⟩)
    · rw [dispatch_of_le run v full]
    · rw [dispatch_of_missing run v room nobody]
    · rw [dispatch_of_server run v room nearest]
      exact fails

/-- The handler of maps fails only for a name that is no map. -/
theorem serveEntry_error (h : ((serveEntry v).on u).1 = .error halt) :
    halt = .raised (.noMap (u.heap.className v.name)) := by
  rw [on_serveEntry] at h
  cases answers : u.mapAnswer? v with
  | none =>
    rw [answers] at h
    cases h
    rfl
  | some end_ =>
    rw [answers] at h
    cases h

/-- A handler fails with the failure of its body, unless it is the one of maps. -/
theorem serve_error {handler : Handler} (serves : handler.service.serves v.request.operation)
    (h : ((serve run handler v).on u).1 = .error halt) :
    halt = .raised (.noMap (u.heap.className v.name)) ∨
      ∃ hooks body, handler.service = .scripted hooks ∧ hooks.on v.request.operation = some body ∧
        ((run.hook handler.label body v).on u).1 = .error halt := by
  cases service : handler.service with
  | scripted hooks =>
    rw [service] at serves
    obtain ⟨body, hbody⟩ := Option.isSome_iff_exists.1 serves
    rw [serve_of_hook run v service hbody] at h
    exact .inr ⟨hooks, body, rfl, hbody, h⟩
  | itself =>
    rw [serve, service] at h
    cases h
  | entries =>
    rw [serve, service] at h
    exact .inl (serveEntry_error h)
  | inert =>
    rw [service] at serves
    contradiction

/-- The failures with which names, keys and plain values are refused. -/
inductive Error.Refusal : Error Value → Prop
  | nullishBase (op : Operation) (name : Prose) (typeName : String) :
    Refusal (.nullishBase op name typeName)
  | superDelete (name : String) : Refusal (.superDelete name)
  | readOnly (key : String) : Refusal (.readOnly key)
  | undeletable (key : String) : Refusal (.undeletable key)
  | unbound (name : String) : Refusal (.unbound name)
  | invalidTarget : Refusal .invalidTarget

/-- If a request is refused, then it is the body of the nearest handler that has ended so. -/
theorem Exit.body_of_refusal {e : Error Value} (refusal : e.Refusal)
    (h : Exit run v u (.raised e)) :
    ∃ handler hooks body,
      u.registry.server? (u.heap.chain v.name) v.request.operation = some handler ∧
      handler.service = .scripted hooks ∧ hooks.on v.request.operation = some body ∧
      ((run.hook handler.label body v).on { u with depth := u.depth + 1 }).1 =
        .error (.raised e) := by
  generalize raised : Halt.raised e = halt at h
  cases h with
  | tooDeep | missing =>
    -- What dispatch itself raises is no refusal.
    cases raised
    cases refusal
  | handler room nearest fails =>
    subst raised
    have serves := List.find?_some nearest
    rcases serve_error serves fails with noMap | ⟨hooks, body, service, hbody, ends⟩
    · cases noMap
      cases refusal
    · exact ⟨_, hooks, body, nearest, service, hbody, ends⟩

end

/-! ## Operations -/

section

variable (run : Runner) (request : Request) {base : Value} (name : ObjectId) (strict : Bool)
  (w : World) (hb : base.isNullish = false)
include hb

/-- An operation on an abstract reference is the one request. -/
theorem operate_reaches_dispatch :
    let v : Visit := { request, name, receiver := w.receiver base }
    (operate run (.abstractMember base name strict) request).on w =
      (request.conclude <$> holding (v.held base) (dispatch run v)).on (w.coerced base) := by
  intro v
  rw [operate_abstract, on_map, on_map, on_resolveAbstract run request name hb]

theorem operate_error_iff (halt : Halt) :
    let v : Visit := { request, name, receiver := w.receiver base }
    ((operate run (.abstractMember base name strict) request).on w).1 = .error halt ↔
      Exit run v ((w.coerced base).hold (v.held base)) halt := by
  intro v
  rw [operate_reaches_dispatch run request name strict w hb, on_map, on_holding,
    ← dispatch_error_iff]
  dsimp only
  cases ((dispatch run v).on ((w.coerced base).hold (v.held base))).1 <;> simp [Except.map]

end

/-- Where an object has to stand for the base of a property, one always does: a base that none can
    stand for is turned away before.

    All that is ever known as a reference was built. Whatever runs, a name stands for the reference
    that it stood for before, or for another one that was built since.

    So an abstract reference has, for ever, a base that an object can stand for and an object for a
    name. To read, to write and to delete through it always reaches the handlers. It fails only if
    no more of them may run, if none serves the operation, or as the one that served it has failed;
    and it is refused only if the body of that one has ended so. -/
theorem abstract_fails_with_its_handler :
    (∀ (op : Operation) (base : Value) (name : Prose) (w : World),
      (base.isNullish = true ∧ (coerceBase op base name).on w =
        (.error (.raised (.nullishBase op name (w.heap.typeName base))), w)) ∨
      (base.isNullish = false ∧ coerceBase op base name = toObject base ∧
        (toObject base).on w = (.ok (w.receiver base), w.coerced base))) ∧
    (∀ (config : Config) (as : List Action) (name : String) (r : Reference),
      ((World.initial config).performAll as).2.handles.references.get? name = some r → r.Built) ∧
    (∀ (B : Behaviour) (budget n : Nat) (p : Program Action) (w : World),
      w.Acquires ((p.run (runAction (B.runner budget n))).on w).2) ∧
    ∀ r : Reference, r.Built → r.isAbstract →
      ∃ base name strict, r = .abstractMember base name strict ∧ base.isNullish = false ∧
        ∀ (run : Runner) (request : Request) (w : World),
          let v : Visit := { request, name, receiver := w.receiver base }
          let u := (w.coerced base).hold (v.held base)
          let act := operate run r request
          act.on w =
            (request.conclude <$> holding (v.held base) (dispatch run v)).on (w.coerced base) ∧
          (∀ halt, (act.on w).1 = .error halt ↔ Exit run v u halt) ∧
          ∀ e : Error Value, e.Refusal → (act.on w).1 = .error (.raised e) →
            ∃ handler hooks body,
              u.registry.server? (u.heap.chain name) request.operation = some handler ∧
              handler.service = .scripted hooks ∧ hooks.on request.operation = some body ∧
              ((run.hook handler.label body v).on { u with depth := u.depth + 1 }).1 =
                .error (.raised e) := by
  refine ⟨coerceBase_cases, fun config as name r known => ?_,
    fun B budget n p w => B.acquires_program budget n p w, fun r built abstract => ?_⟩
  · -- At first nothing is known, so that whatever is known was built.
    refine ((World.initial config).acquires_performAll as name r known).resolve_left fun early => ?_
    rw [World.references_initial] at early
    cases early
  · -- What was built as an abstract reference has a base that an object can stand for, and so
    -- its operations get as far as the handlers.
    obtain ⟨base, name, strict, rfl, hb⟩ := built.based abstract
    refine ⟨base, name, strict, rfl, hb, fun run request w => ?_⟩
    have iff := operate_error_iff run request name strict w hb
    exact ⟨operate_reaches_dispatch run request name strict w hb, iff,
      fun e refusal refused => ((iff _).1 refused).body_of_refusal refusal⟩

/-- A name whose handler serves reads alone, with a body that ends in a refusal. A read of the
    property of a boolean ends in the same refusal, and a delete finds nobody. -/
theorem abstract_fails_with_its_handler_of_refusal :
    let refuses : Script Action := { steps := [⟨.fail (.undeletable "x"), false⟩], quiet := true }
    let handler : Handler := ⟨"refuses", .scripted { read := some refuses }⟩
    let w₀ := ((World.initial {}).performAll [
      .command (.new .ordinary .none (some "a")),
      .refAbstract (.bool true) (.register "a") true "r"]).2
    let w : World := { w₀ with registry := .after [.install ⟨8⟩ handler] }
    let run := runnerAt (callerAt 1) 1
    let r := Reference.abstractMember (.bool true) ⟨8⟩ true
    w.handles.references.get? "r" = some r ∧ r.Built ∧
      ((operate run r .read).on w).1 = .error (.raised (.undeletable "x")) ∧
      ((operate run r .delete).on w).1 = .error (.raised (.missing .delete "Object")) := by
  intro refuses handler w₀ w run r
  obtain ⟨-, known, -, fails⟩ := abstract_fails_with_its_handler
  have there : w₀.handles.references.get? "r" = some r := by decide +kernel
  have built : r.Built := known _ _ "r" r there
  obtain ⟨base, name, strict, e, -, exits⟩ := fails r built rfl
  obtain ⟨rfl, rfl, rfl⟩ := Reference.abstractMember.inj e
  -- The world in which the handlers are looked for, whatever the operation.
  let u := (w.coerced (.bool true)).hold
    [.bool true, .object ⟨8⟩, .object (w.receiver (.bool true))]
  have room : u.depth < u.config.maxDepth := by decide +kernel
  have chain : u.heap.chain ⟨8⟩ = [] ++ ⟨8⟩ :: [] := by decide +kernel
  have serves : u.registry.server? (u.heap.chain ⟨8⟩) .read = some handler := by
    rw [chain]
    exact Registry.server?_eq_some (Registry.get?_after _ _) rfl nofun
  have nobody : u.registry.server? (u.heap.chain ⟨8⟩) .delete = none :=
    Option.isNone_iff_eq_none.1 (by decide +kernel)
  have plain : u.heap.className ⟨8⟩ = "Object" := by decide +kernel
  have kept : w.handles.references.get? "r" = some r := there
  clear_value w
  refine ⟨kept, built, ?_, ?_⟩
  · obtain ⟨-, iff, -⟩ := exits run .read w
    refine (iff _).2 (.handler (u := u) room serves ?_)
    simp [serve, handler, Hooks.on, Request.operation, run, runnerAt, runHook, refuses,
      runActions, runActionStep, runAction, runStep, framed, Error.eval, on_bind]
  · obtain ⟨-, iff, -⟩ := exits run .delete w
    rw [iff, ← plain]
    exact .missing (u := u) room nobody

end Lvalue
