import Lvalue.Proofs.Dispatch
import Lvalue.Proofs.Lockstep

/-!
# Invocations

The engine leaves off in two places only: to call a function that stands for a
property, and to run the hook of a handler. Whatever else happens, happens in
the body that is run there.

An operation through a reference comes to such a place at most once
(`Eval.Single`). Either it runs no body, and then all that comes of it is settled
beforehand; or it *invokes* one, in a world and with values that are settled
beforehand, and what it makes of the outcome is settled too. What an operation
does without any body is told along with this (`single_getProperty` and so on): a
failure, and anything short of success, leaves the world *undisturbed*.
-/

namespace Lvalue

/-! ## Undisturbed worlds -/

/-- All is as it was, but that there may be new objects. -/
structure World.Undisturbed (w w' : World) : Prop where
  frame : ∃ heap, w' = { w with heap }
  objects : ∀ o x, w.heap.get? o = some x → w'.heap.get? o = some x

namespace World.Undisturbed

variable {w w' w'' : World}

/-- To do nothing is to disturb nothing. -/
theorem refl (w : World) : w.Undisturbed w := ⟨⟨w.heap, rfl⟩, fun _ _ h => h⟩

/-- What disturbs nothing step by step disturbs nothing as a whole. -/
theorem trans (h : w.Undisturbed w') (h' : w'.Undisturbed w'') : w.Undisturbed w'' := by
  obtain ⟨heap, rfl⟩ := h.frame
  obtain ⟨heap', rfl⟩ := h'.frame
  exact ⟨⟨heap', rfl⟩, fun o x hx => h'.objects o x (h.objects o x hx)⟩

/-- A new object is in the way of no other. -/
theorem alloc (new : Object) : w.Undisturbed { w with heap := (w.heap.alloc new).2 } := by
  refine ⟨⟨_, rfl⟩, fun o x hx => ?_⟩
  have old : ⟨w.heap.next⟩ ≠ o := by
    rintro rfl
    exact Nat.lt_irrefl _ (Heap.serial_lt_next hx)
  rw [Heap.get?_alloc, if_neg old]
  exact hx

/-- A base is taken for an object without a trace in what was there. -/
theorem coerced (base : Value) : w.Undisturbed (w.coerced base) := by
  rw [World.coerced]
  split
  · exact alloc _
  · exact refl w

/-- Operands that are held for a while disturb nothing. -/
theorem release {vs : List Value} (h : (w.hold vs).Undisturbed w') :
    w.Undisturbed (w'.release vs) := by
  obtain ⟨heap, rfl⟩ := h.frame
  exact ⟨⟨heap, release_hold { w with heap } vs⟩, h.objects⟩

/-- What is done one handler deeper leaves undisturbed what is around it. -/
theorem leave (h : World.Undisturbed { w with depth := w.depth + 1 } w') :
    w.Undisturbed { w' with depth := w'.depth - 1 } := by
  obtain ⟨heap, rfl⟩ := h.frame
  exact ⟨⟨heap, by rw [UInt32.add_sub_cancel]⟩, h.objects⟩

end World.Undisturbed

/-! ## Operations that run at most one body -/

/-- A body that is run, and what it is run on. -/
inductive Invocation where
  | call (f : NativeFunction) (this : Value) (args : List Value)
  | hook (label : String) (body : Script Action) (v : Visit)

/-- Runs a body. -/
def Runner.invoke (run : Runner) : Invocation → Eval Value
  | .call f this args => run.call f this args
  | .hook label body v => run.hook label body v

/-- The way to run bodies in which all of them come to the same end. -/
def Runner.halting (halt : Halt) : Runner where
  call _ _ _ := throw halt
  hook _ _ _ := throw halt

/-- What comes of an evaluation: the result, and the world that is left. -/
abbrev Outcome (α : Type) := Except Halt α × World

namespace Eval

variable {α β : Type} {act : Runner → Eval α} {act' : Runner → Eval β} {w u : World}
  {E : Outcome α → Prop} {E' : Outcome β → Prop}

/-- On the world `w` the evaluation runs no body: the same comes of it, whatever bodies do. -/
def Silent (act : Runner → Eval α) (w : World) : Prop :=
  ∀ run run', (act run).on w = (act run').on w

/-- A failure of a part is a failure of the whole. -/
def Fails (resume : Outcome α → Outcome β) : Prop :=
  ∀ halt e, e.1 = .error halt → (resume e).1 = .error halt

/-- On the world `w` the evaluation runs the body `i`, in the world `u`, and no other. -/
def Invokes (act : Runner → Eval α) (w : World) (i : Invocation) (u : World) : Prop :=
  ∃ resume : Outcome Value → Outcome α, Fails resume ∧
    ∀ run, (act run).on w = resume ((run.invoke i).on u)

/-- If it runs a body, it is not silent. -/
theorem Invokes.not_silent {i : Invocation} (h : Invokes act w i u) : ¬Silent act w := by
  obtain ⟨resume, fails, on⟩ := h
  intro silent
  have ends (halt : Halt) : ((act (.halting halt)).on w).1 = .error halt := by
    rw [on]
    cases i <;> exact fails halt _ rfl
  have same := congrArg Prod.fst (silent (.halting .stuck) (.halting .exhausted))
  rw [ends, ends] at same
  cases same

/-- On the world `w` the evaluation runs no body and ends as `E` says, or it runs one. -/
inductive Single (act : Runner → Eval α) (w : World) (E : Outcome α → Prop) : Prop
  | silent (e : Outcome α) (on : ∀ run, (act run).on w = e) (ends : E e)
  | invokes (i : Invocation) (u : World) (h : Invokes act w i u)

/-- How a silent evaluation ends. -/
theorem Single.ends (h : Single act w E) (silent : Silent act w) (run : Runner) :
    E ((act run).on w) := by
  cases h with
  | silent e on ends =>
    rw [on]
    exact ends
  | invokes i u h => exact absurd silent h.not_silent

/-- An evaluation that runs no body is one of those that run at most one. -/
theorem Single.of_silent (h : Silent act w) (ends : ∀ run, E ((act run).on w)) :
    Single act w E :=
  .silent _ (fun run => h run (.halting .stuck)) (ends _)

/-- A part of what is done runs the body. -/
theorem Invokes.part {i : Invocation} {v : World} (h : Invokes act u i v)
    (resume : Outcome α → Outcome β) (fails : Fails resume)
    (on : ∀ run, (act' run).on w = resume ((act run).on u)) : Invokes act' w i v := by
  obtain ⟨inner, innerFails, settled⟩ := h
  refine ⟨resume ∘ inner, fun halt e he => fails halt _ (innerFails halt e he), fun run => ?_⟩
  rw [on, settled]
  rfl

/-- No body runs but in the part `act`, which is done in the world `u`. -/
theorem Single.part (h : Single act u E) (resume : Outcome α → Outcome β) (fails : Fails resume)
    (on : ∀ run, (act' run).on w = resume ((act run).on u)) (ends : ∀ e, E e → E' (resume e)) :
    Single act' w E' := by
  cases h with
  | silent e settled he => exact .silent (resume e) (fun run => by rw [on, settled]) (ends e he)
  | invokes i v h => exact .invokes i v (h.part resume fails on)

theorem Single.of_eq {act' : Runner → Eval α} (h : Single act u E)
    (on : ∀ run, (act' run).on w = (act run).on u) : Single act' w E :=
  h.part id (fun _ _ he => he) on fun _ he => he

/-- More may be said of the ways to end. -/
theorem Single.mono {E' : Outcome α → Prop} (h : Single act w E) (ends : ∀ e, E e → E' e) :
    Single act w E' :=
  h.part id (fun _ _ he => he) (fun _ => rfl) ends

/-- What is done with the outcome of a part to go on with `f`. -/
def continued (f : α → Eval β) : Outcome α → Outcome β
  | (.ok a, w) => (f a).on w
  | (.error halt, w) => (.error halt, w)

theorem fails_continued (f : α → Eval β) : Fails (continued f) := by
  rintro halt ⟨_ | _, w⟩ he
  · cases he
    rfl
  · contradiction

/-- What comes next runs no body either, as it does not know of any. -/
theorem Silent.bind (h : Silent act w) (f : α → Eval β) : Silent (fun run => act run >>= f) w :=
  fun run run' => by rw [on_bind, on_bind, h run run']

/-- What comes next is resumed after the body too. -/
theorem Invokes.bind {i : Invocation} (h : Invokes act w i u) (f : α → Eval β) :
    Invokes (fun run => act run >>= f) w i u :=
  h.part (continued f) (fails_continued f) fun run => on_bind (act run) f w

/-- What comes next runs no body of its own and is told how the first part ended. -/
theorem Single.bind (h : Single act w E) (f : α → Eval β)
    (ends : ∀ e, E e → E' (continued f e)) : Single (fun run => act run >>= f) w E' :=
  h.part (continued f) (fails_continued f) (fun run => on_bind (act run) f w) ends

/-- At most one body is run: none, or this one. -/
theorem Single.silent_or_invokes (h : Single act w E) :
    Silent act w ∨ ∃ i u, Invokes act w i u := by
  cases h with
  | silent e on ends => exact .inl fun run run' => (on run).trans (on run').symm
  | invokes i u h => exact .inr ⟨i, u, h⟩

/-- No body runs in a part if none runs in the whole. -/
theorem Single.silent_of_bind (h : Single act w E) {f : α → Eval β}
    (silent : Silent (fun run => act run >>= f) w) : Silent act w :=
  h.silent_or_invokes.resolve_right fun ⟨_, _, runs⟩ => (runs.bind f).not_silent silent

/-- Something may come first that runs no body. -/
theorem Single.after {pre : Eval β} {b : β} (hpre : pre.on w = (.ok b, u))
    {act : β → Runner → Eval α} (h : Single (act b) u E) :
    Single (fun run => pre >>= fun b => act b run) w E :=
  h.of_eq fun _ => on_bind_of_ok hpre _

/-! ### What is left -/

/-- A result that is good, or a world that is undisturbed. -/
def Careful (good : α → Prop) (w : World) (e : Outcome α) : Prop :=
  (∃ a, e.1 = .ok a ∧ good a) ∨ w.Undisturbed e.2

/-- No result is good. -/
def NoResult (_ : α) : Prop := False

variable {good : α → Prop} {good' : β → Prop} {e : Outcome α}

theorem Careful.ok {a : α} (h : good a) (w' : World) : Careful good w (.ok a, w') :=
  .inl ⟨a, rfl, h⟩

/-- An evaluation that has not touched the world has been careful. -/
theorem Careful.rest (h : e.2 = w) : Careful good w e := .inr (h ▸ .refl _)

theorem Careful.mono {good' : α → Prop} (h : Careful good w e) (hgood : ∀ a, good a → good' a) :
    Careful good' w e :=
  h.imp_left fun ⟨a, ok, ha⟩ => ⟨a, ok, hgood a ha⟩

/-- Care goes on from a world that is undisturbed. -/
theorem Careful.trans (h : Careful good u e) (hw : w.Undisturbed u) : Careful good w e :=
  h.imp_right hw.trans

/-- To look at the result changes nothing, and good things come of good ones. -/
theorem Careful.continued (h : Careful good w e) {f : α → Eval β} (looks : ∀ a, (f a).Looks)
    (hgood : ∀ a w', good a → ∃ b, ((f a).on w').1 = .ok b ∧ good' b) :
    Careful good' w (continued f e) := by
  obtain ⟨_ | a, w'⟩ := e
  · exact .inr (h.resolve_left fun ⟨_, ok, _⟩ => nomatch ok)
  · rcases h with ⟨b, ok, hb⟩ | undisturbed
    · cases ok
      exact .inl (hgood a w' hb)
    · exact .inr ((looks a w').symm ▸ undisturbed)

/-- Operands that are held meanwhile make no difference. -/
theorem Single.holding {vs : List Value}
    (h : Single act (w.hold vs) (Careful good (w.hold vs))) :
    Single (fun run => Eval.holding vs (act run)) w (Careful good w) :=
  h.part (fun e => (e.1, e.2.release vs)) (fun _ _ he => he) (fun run => on_holding vs (act run) w)
    fun _ he => he.imp_right (·.release)

/-- Neither does the depth. -/
theorem Single.deeper (h : Single act { w with depth := w.depth + 1 }
      (Careful good { w with depth := w.depth + 1 })) :
    Single (fun run => Lvalue.deeper (act run)) w (Careful good w) :=
  h.part (fun e => (e.1, { e.2 with depth := e.2.depth - 1 })) (fun _ _ he => he)
    (fun run => on_deeper (act run) w) fun _ he => he.imp_right (·.leave)

end Eval

open Eval

/-! ## Access to properties -/

section

variable {w : World} (k : Key) (v : Value)

/-- A call runs the function that is called, and nothing else. -/
theorem single_call (f : ObjectId) (this : Value) (args : List Value) :
    Single (fun run : Runner => call run.call f this args) w (Careful NoResult w) := by
  refine .after (on_see _ w) ?_
  rcases w.heap.kind? f with _ | ⟨_ | g | _ | _ | _⟩
  case some.function => exact .invokes (.call g this args) w ⟨id, fun _ _ he => he, fun _ => rfl⟩
  all_goals exact .silent _ (fun _ => rfl) (.rest rfl)

/-- A read runs a getter at most. -/
theorem single_getProperty (o : ObjectId) (receiver : Value) :
    Single (fun run : Runner => getProperty run.call o k receiver) w (Careful NoResult w) := by
  refine .after (on_see _ w) ?_
  rcases w.heap.lookup o k with _ | ⟨holder, ⟨_ | ⟨_ | getter, setter⟩, _, _⟩⟩
  case some.accessor.some => exact .after (on_see _ w) (.holding (single_call _ _ _))
  all_goals exact .silent _ (fun _ => rfl) (.rest rfl)

theorem careful_define (target : ObjectId) (p : Property) :
    Careful (· = true) w ((assignOwn.define k target p).on w) := by
  cases h : w.heap.admits target k p with
  | false => exact .rest (congrArg ({ w with heap := · }) (Heap.define_of_not_admits h))
  | true => exact .inl ⟨true, congrArg _ h, rfl⟩

/-- If a property of its own is not given to the receiver, nothing has been changed. -/
theorem careful_assignOwn (receiver : Value) :
    Careful (· = true) w ((assignOwn k v receiver).on w) := by
  rcases receiver with _ | _ | _ | _ | _ | _ | target
  case object =>
    rw [assignOwn, on_bind, on_see]
    rcases w.heap.own? target k with _ | ⟨⟨_, _ | _⟩ | _, _, _⟩
    case none | some.data.true => exact careful_define k target _
    all_goals exact .rest rfl
  all_goals exact .rest rfl

/-- A write runs a setter at most, and if it is not accepted, nothing has been changed. -/
theorem single_setProperty (o : ObjectId) (receiver : Value) :
    Single (fun run : Runner => setProperty run.call o k v receiver) w (Careful (· = true) w) := by
  refine .after (on_see _ w) ?_
  rcases w.heap.lookup o k with _ | ⟨holder, ⟨⟨value, _ | _⟩ | ⟨getter, _ | setter⟩, _, _⟩⟩
  case some.accessor.some =>
    exact .bind (.holding (single_call _ _ _)) _ fun e he =>
      he.continued (fun _ _ => rfl) fun _ _ h => h.elim
  case some.data.false | some.accessor.none => exact .silent _ (fun _ => rfl) (.rest rfl)
  all_goals exact .silent _ (fun _ => rfl) (careful_assignOwn k v receiver)

/-- If a property is not deleted, nothing has been changed. -/
theorem careful_deleteProperty (o : ObjectId) :
    Careful (· = true) w ((deleteProperty o k).on w) := by
  cases h : w.heap.releases o k with
  | false => exact .rest (congrArg ({ w with heap := · }) (Heap.delete_of_not_releases h))
  | true => exact .inl ⟨true, congrArg _ h, rfl⟩

end

/-! ## Handlers -/

section

variable {w : World} (v : Visit)

/-- The handler of maps changes nothing when it reads and when it fails. -/
theorem careful_serveEntry :
    Careful (fun _ => v.request ≠ .read) w ((serveEntry v).on w) := by
  rw [on_serveEntry]
  cases answers : w.mapAnswer? v with
  | none => exact .rest rfl
  | some end_ =>
    by_cases read : v.request = .read
    · exact .rest (w.world_of_mapAnswer? read answers)
    · exact .inl ⟨end_.1, rfl, read⟩

/-- What serves a visit runs the body of its hook at most. -/
theorem single_serve (h : Handler) :
    Single (fun run => serve run h v) w (Careful (fun _ => v.request ≠ .read) w) := by
  rcases h with ⟨label, hooks | _ | _ | _⟩
  case scripted =>
    cases hook : hooks.on v.request.operation with
    | some body =>
      refine .invokes (.hook label body v) w ⟨id, fun _ _ he => he, fun run => ?_⟩
      simp only [serve, hook]
      rfl
    | none =>
      refine .silent (.error .stuck, w) (fun run => ?_) (.rest rfl)
      simp only [serve, hook]
      rfl
  case entries => exact .silent _ (fun _ => rfl) (careful_serveEntry v)
  all_goals exact .silent _ (fun _ => rfl) (.rest rfl)

/-- To dispatch runs at most the handler that is found. -/
theorem single_dispatch :
    Single (fun run => dispatch run v) w (Careful (fun _ => v.request ≠ .read) w) := by
  by_cases room : w.depth < w.config.maxDepth
  · cases hs : w.registry.server? (w.heap.chain v.name) v.request.operation with
    | some h =>
      exact .of_eq (.deeper (single_serve v h)) fun run => dispatch_of_server run v room hs
    | none => exact .silent _ (fun run => dispatch_of_missing run v room hs) (.rest rfl)
  · exact .silent _ (fun run => dispatch_of_le run v (UInt32.not_lt.1 room)) (.rest rfl)

/-- To make an object of the base leaves undisturbed what is there. -/
theorem Eval.Single.coerced {α : Type} {good : α → Prop} {base : Value}
    {act : ObjectId → Runner → Eval α}
    (h : ∀ u, Single (act (w.receiver base)) u (Careful good u)) (op : Operation) (name : Prose) :
    Single (fun run => coerceBase op base name >>= fun o => act o run) w (Careful good w) := by
  cases hb : base.isNullish with
  | false =>
    exact .after (on_coerceBase hb op name) ((h _).mono fun e he => he.trans (.coerced base))
  | true =>
    refine .silent (.error (.raised (.nullishBase op name (w.heap.typeName base))), w)
      (fun run => ?_) (.rest rfl)
    rw [on_bind, on_coerceBase_of_nullish hb]

/-- A request to handlers runs one body at most, that of the one that serves. -/
theorem single_resolveAbstract (request : Request) (base : Value) (name : ObjectId) :
    Single (fun run => resolveAbstract run request base name) w
      (Careful (fun _ => request ≠ .read) w) :=
  .after (on_see _ w) (.coerced (fun _ => .holding (single_dispatch _)) _ _)

end

end Lvalue
