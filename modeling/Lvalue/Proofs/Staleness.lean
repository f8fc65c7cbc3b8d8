import Lvalue.Proofs.Deletion

/-!
# Staleness

A reference to a name keeps to the scope that the name meant when it was resolved. Since then
the name may have been deleted there, declared anew, or bound in scopes further in. A write
through the reference has to do with none of this: it looks at what that one scope binds now,
and changes that binding or none (`stale_write_hits_one_binding`).

What was written stays to be read through all references to the scope, whatever else is done
meanwhile, until something is done to this binding itself (`Act.Touches`).
-/

namespace Lvalue

open Eval

/-! ## Writes -/

/-- The name has got the value in `t`, and a binding made in passing if it had none there. Every
    other name in every scope is bound as before, and nothing else has changed. -/
structure World.Bound (t : ScopeId) (x : Atom) (v : Value) (w w' : World) : Prop where
  here : w'.scopes.binding? t x = Binding.overwritten v (w.scopes.binding? t x)
  others : ∀ s y, s ≠ t ∨ y ≠ x → w'.scopes.binding? s y = w.scopes.binding? s y
  tree : w.scopes.SameTree w'.scopes
  frame : ∃ scopes, w' = { w with scopes }

/-- What stands against a write to `x` in `t`, and how it is reported. -/
inductive World.Refuses (w : World) (t : ScopeId) (x : Atom) (strict : Bool) : Fault Value → Prop
  | uninitialised {b : Binding} (hb : w.scopes.binding? t x = some b)
    (awaits : b.initialised = false) : w.Refuses t x strict (.uninitialised (Spelling.full x))
  | constant {b : Binding} (hb : w.scopes.binding? t x = some b) (ready : b.initialised = true)
    (constant : b.kind = .constant) : w.Refuses t x strict (.constant (Spelling.full x))
  | unbound (hb : w.scopes.binding? t x = none) (reports : strict = true) :
    w.Refuses t x strict (.unbound (Spelling.full x))

/-- Nothing stands against a write to `x` in `t`: it is bound and can be written, or it is not bound
    and the write is not strict. -/
def World.Permits (w : World) (t : ScopeId) (x : Atom) (strict : Bool) : Prop :=
  (∃ b, w.scopes.binding? t x = some b ∧ b.initialised = true ∧ b.kind ≠ .constant) ∨
    w.scopes.binding? t x = none ∧ strict = false

section

variable {w : World} {t : ScopeId} {x : Atom}

theorem World.Refuses.not_permits {strict : Bool} {fault : Fault Value}
    (h : w.Refuses t x strict fault) : ¬w.Permits t x strict := by
  rintro (⟨b, hb, ready, variable_⟩ | ⟨hb, lenient⟩)
  · cases h with
    | uninitialised hb' awaits =>
      cases hb.symm.trans hb'
      exact Bool.false_ne_true (awaits.symm.trans ready)
    | constant hb' _ constant =>
      cases hb.symm.trans hb'
      exact variable_ constant
    | unbound hb' => cases hb.symm.trans hb'
  · cases h with
    | uninitialised hb' | constant hb' => cases hb.symm.trans hb'
    | unbound _ reports => exact Bool.false_ne_true (lenient.symm.trans reports)

/-- A write changes at most one binding, in a scope that is alive. -/
theorem World.bound_of_written {strict : Bool} {v : Value} (alive : w.scopes.Alive t)
    (free : Binding.written v strict (w.scopes.binding? t x) =
      Binding.overwritten v (w.scopes.binding? t x)) :
    w.Bound t x v { w with scopes := w.scopes.written t x v strict } := by
  obtain ⟨c, hc⟩ := alive
  refine ⟨?_, fun s y other => ?_, Scopes.sameTree_written t x v strict, _, rfl⟩ <;> dsimp only
  · rw [Scopes.binding?_written v strict hc, if_pos ⟨rfl, rfl⟩, free]
  · by_cases there : w.scopes.Alive s
    · obtain ⟨c, hc⟩ := there
      rw [Scopes.binding?_written v strict hc, if_neg fun e => other.elim (· e.1.symm) (· e.2.symm)]
    · have gone := mt (Scopes.sameTree_written t x v strict).alive.1 there
      rw [Scopes.binding?_of_not_alive gone, Scopes.binding?_of_not_alive there]

/-- A write through a reference to a scope is refused, or it is permitted and done. -/
theorem on_writeReference_scope (alive : w.scopes.Alive t) (strict : Bool) (v : Value) :
    (∃ fault, w.Refuses t x strict fault ∧ ∀ run,
      (writeReference run (.binding (some t) x strict) v).on w =
        (.error (.raised (.fault fault)), w)) ∨
    ∃ w', w.Permits t x strict ∧ w.Bound t x v w' ∧ ∀ run,
      (writeReference run (.binding (some t) x strict) v).on w = (.ok (), w') := by
  have refused {fault : Fault Value} (h : w.scopes.write .full t x v strict = .error fault)
      (run : Runner) : (writeReference run (.binding (some t) x strict) v).on w =
        (.error (.raised (.fault fault)), w) := by
    rw [writeReference, on_bind, on_see, h]
    rfl
  have done {scopes : Scopes} (h : w.scopes.write .full t x v strict = .ok scopes) (run : Runner) :
      (writeReference run (.binding (some t) x strict) v).on w =
        (.ok (), { w with scopes := w.scopes.written t x v strict }) := by
    rw [writeReference, on_bind, on_see, h, Scopes.written, h]
    rfl
  rcases hb : w.scopes.binding? t x with _ | b
  · cases strict with
    | true => exact .inl ⟨_, .unbound hb rfl, refused (by rw [Scopes.write, hb]; rfl)⟩
    | false =>
      exact .inr ⟨_, .inr ⟨hb, rfl⟩, World.bound_of_written alive (by rw [hb]; rfl),
        done (by rw [Scopes.write, hb]; rfl)⟩
  · by_cases guarded : b.Guarded
    · have fails := refused (Scopes.write_of_guarded hb guarded v strict)
      cases ready : b.initialised with
      | false => exact .inl ⟨_, .uninitialised hb ready, by simpa [ready] using fails⟩
      | true =>
        have constant : b.kind = .constant := guarded.resolve_left (by simp [ready])
        exact .inl ⟨_, .constant hb ready constant, by simpa [ready] using fails⟩
    · obtain ⟨awaits, constant⟩ := not_or.1 guarded
      exact .inr ⟨_, .inl ⟨b, hb, Bool.of_not_eq_false awaits, constant⟩,
        World.bound_of_written alive (by rw [hb]; exact if_neg guarded),
        done (Scopes.write_of_not_guarded hb guarded v strict)⟩

/-- What was written has a value, and that is the one. -/
theorem World.Bound.binding? {w' : World} {strict : Bool} {v : Value} (h : w.Bound t x v w')
    (permits : w.Permits t x strict) :
    ∃ b, w'.scopes.binding? t x = some b ∧ b.initialised = true ∧ b.value = v := by
  rw [h.here]
  rcases permits with ⟨b, hb, ready, -⟩ | ⟨hb, -⟩
  · exact ⟨{ b with value := v }, by rw [hb]; rfl, ready, rfl⟩
  · exact ⟨.implicit v, by rw [hb]; rfl, rfl, rfl⟩

/-- A value is read, be the reading strict or not. -/
theorem on_readReference_of_initialised {b : Binding} (hb : w.scopes.binding? t x = some b)
    (ready : b.initialised = true) (run : Runner) (strict : Bool) :
    (readReference run (.binding (some t) x strict)).on w = (.ok b.value, w) := by
  rw [readReference, on_bind, on_see, Scopes.read, hb]
  dsimp only
  rw [if_pos ready]
  rfl

end

/-! ## What a binding outlasts -/

/-- The act is about the binding of `x` in `t`: it declares the name there, writes to it, or deletes
    it. What fails or is refused, whatever there is, does not count. -/
def Act.Touches (scopes : Scopes) (t : ScopeId) (x : Atom) : Act → Prop
  | deed (.declare s x' _) => s = t ∧ x' = x
  | deed (.write r _) => r.LeadsTo t x ∧ ¬(r.isUnresolvable = true ∧ r.isStrict = true)
  | deed (.delete (.binding (some s) x' _)) => s = t ∧ x' = x ∧ scopes.releases t x = true
  | createGlobal s x' _ => scopes.outermost s = t ∧ x' = x
  | _ => False

namespace Scene

variable {run : Runner} {σ σ' : Scene} {act : Act} {acts : List Act} {s t : ScopeId} {x : Atom}
  {b : Binding}

/-- Some acts, one after the other, none of which is about the binding of `x` in `t`. -/
inductive Spares (run : Runner) (t : ScopeId) (x : Atom) : Scene → List Act → Scene → Prop
  | nil (σ : Scene) : Spares run t x σ [] σ
  | cons {σ σ' σ'' : Scene} {act : Act} {acts : List Act} (first : Does run σ act σ')
    (spares : ¬act.Touches σ.world.scopes t x) (rest : Spares run t x σ' acts σ'') :
    Spares run t x σ (act :: acts) σ''

theorem Acts.alive (h : Acts run σ acts σ') (hσ : σ.Named) (ht : σ.Alive t) : σ'.Alive t := by
  induction h with
  | nil => exact ht
  | cons first _ ih => exact ih (first.named hσ) (first.alive hσ ht)

/-- A scope that a name once meant is still alive. -/
theorem Acts.alive_of_resolve (h : Acts run σ acts σ') (hσ : σ.Named)
    (resolved : σ.world.scopes.resolve s x = some t) : σ'.Alive t := by
  obtain ⟨b, hb⟩ := Scopes.binding?_of_resolve resolved
  exact h.alive hσ (alive_of_binding? hb)

/-- What a deed is not about outlasts it, if it has a value. -/
theorem Step.spares {d : Deed} (h : Step run σ d σ') (hσ : σ.Named)
    (spares : ¬(Act.deed d).Touches σ.world.scopes t x) (hb : σ.binding? t x = some b)
    (ready : b.initialised = true) : σ'.binding? t x = some b := by
  rw [h.binding? hσ (alive_of_binding? hb), hb]
  cases h with
  | enter | resolve | read => rfl
  | declare s' x' declared => exact if_neg spares
  | initialise s' x' v =>
    have idle : b.initialise v = b := if_pos ready
    simp [Deed.effect, idle]
  | @write r mem v =>
    -- A reference to no scope writes to the global one if it is not strict.
    obtain ⟨_ | s', x', strict, rfl⟩ := hσ r mem
    · cases strict with
      | true => rfl
      | false => exact if_neg fun e => spares ⟨e, fun rejected => Bool.false_ne_true rejected.2⟩
    · exact if_neg fun e => spares ⟨e, fun rejected => Bool.false_ne_true rejected.1⟩
  | @delete r mem =>
    obtain ⟨_ | s', x', strict, rfl⟩ := hσ r mem
    · rfl
    · by_cases e : s' = t ∧ x' = x
      · have kept : b.deletable = false := Bool.eq_false_iff.2 fun deletable => by
          refine spares ⟨e.1, e.2, ?_⟩
          rw [Scopes.releases, show σ.world.scopes.binding? t x = some b from hb]
          exact deletable
        exact (if_pos e).trans (Option.filter_some_pos (by simp [kept]))
      · exact if_neg e

theorem Does.spares (h : Does run σ act σ') (hσ : σ.Named)
    (spares : ¬act.Touches σ.world.scopes t x) (hb : σ.binding? t x = some b)
    (ready : b.initialised = true) : σ'.binding? t x = some b := by
  cases h with
  | deed step => exact step.spares hσ spares hb ready
  | found => exact (Scopes.binding?_alloc none).trans hb
  | createGlobal s' x' v =>
    obtain ⟨c, hc⟩ := alive_of_binding? hb
    rw [binding?_rescope, Scopes.binding?_createGlobal s' v hc]
    exact (if_neg spares).trans hb

/-- All along a run that is not about it, a binding that has a value stays as it is. -/
theorem Spares.binding? (h : Spares run t x σ acts σ') (hσ : σ.Named)
    (hb : σ.binding? t x = some b) (ready : b.initialised = true) : σ'.binding? t x = some b := by
  induction h with
  | nil => exact hb
  | cons first spares _ ih => exact ih (first.named hσ) (first.spares hσ spares hb ready)

/-! ## Writes through stale references -/

/-- A write through a reference to a scope that the name once meant, whatever has been done since
    then.

    It succeeds exactly if the scope binds the name to what has a value and is no constant, or does
    not bind it and the reference is not strict. Then the name has got the value there, and no other
    binding of any scope has changed. The value is read back through every reference to the scope,
    until something is done to this very binding.

    Otherwise the write fails, with what stands against it, and changes nothing. -/
theorem stale_write_hits_one_binding {run : Runner} {σ₀ σ : Scene} {acts : List Act}
    {s t : ScopeId} {x : Atom} (named : σ₀.Named)
    (resolved : σ₀.world.scopes.resolve s x = some t) (since : Acts run σ₀ acts σ) (strict : Bool)
    (v : Value) :
    ∃ result w', (∀ run, (writeReference run (.binding (some t) x strict) v).on σ.world =
        (result, w')) ∧
      (result = .ok () ↔ σ.world.Permits t x strict) ∧
      (result = .ok () → σ.world.Bound t x v w' ∧
        ∀ σ₁ later σ', σ₁.world = w' → σ₁.Named → Spares run t x σ₁ later σ' → ∀ run strict',
          (readReference run (.binding (some t) x strict')).on σ'.world = (.ok v, σ'.world)) ∧
      (result ≠ .ok () → w' = σ.world ∧ ∃ fault, σ.world.Refuses t x strict fault ∧
        result = .error (.raised (.fault fault))) := by
  have alive : σ.Alive t := since.alive_of_resolve named resolved
  -- The binding may have changed since then; what counts is what the scope binds now.
  rcases on_writeReference_scope (x := x) alive strict v with
    ⟨fault, refuses, on⟩ | ⟨w', permits, bound, on⟩
  · exact ⟨_, _, on, ⟨nofun, fun permits => absurd permits refuses.not_permits⟩, nofun,
      fun _ => ⟨rfl, fault, refuses, rfl⟩⟩
  · refine ⟨_, _, on, ⟨fun _ => permits, fun _ => rfl⟩, fun _ => ⟨bound, ?_⟩,
      fun fails => absurd rfl fails⟩
    rintro σ₁ later σ' rfl named₁ spares run strict'
    obtain ⟨b, hb, ready, rfl⟩ := bound.binding? permits
    exact on_readReference_of_initialised (spares.binding? named₁ hb ready) ready run strict'

/-- A name is resolved and then deleted. The strict reference to it has nothing to write to any
    more; a lenient one binds it anew, where it was, and both read it from there. -/
theorem stale_write_hits_one_binding_of_deleted :
    let run := runnerAt (callerAt 1) 1
    let x : Atom := .text "x"
    let r (strict : Bool) : Reference := .binding (some globalScope) x strict
    ∃ σ₀ σ : Scene, σ₀.Named ∧ σ₀.world.scopes.resolve globalScope x = some globalScope ∧
      Acts run σ₀ [.deed (.resolve globalScope x true), .deed (.delete (r true))] σ ∧
      σ.binding? globalScope x = none ∧
      (∀ run, (writeReference run (r true) .null).on σ.world =
        (.error (.raised (.fault (.unbound (Spelling.full x)))), σ.world)) ∧
      ∃ w', (∀ run, (writeReference run (r false) .null).on σ.world = (.ok (), w')) ∧
        w'.scopes.binding? globalScope x = some (.implicit .null) ∧
        ∀ run strict, (readReference run (r strict)).on w' = (.ok .null, w') := by
  intro run x r
  let start : Scene := ⟨World.initial {}, []⟩
  let σ₀ := start.rescope (start.world.scopes.createGlobal globalScope x .undefined)
  let resolved : Scene := { σ₀ with references := [r true] }
  let σ : Scene := { resolved with world := ((deleteReference run (r true)).on σ₀.world).2 }
  have named : σ₀.Named := fun r mem => absurd mem List.not_mem_nil
  have means : σ₀.world.scopes.resolve globalScope x = some globalScope := by decide +kernel
  have since : Acts run σ₀ [.deed (.resolve globalScope x true), .deed (.delete (r true))] σ :=
    .cons (.deed (.resolve σ₀ globalScope x true) nofun)
      (.cons (.deed (.delete (.head _)) nofun) (.nil σ))
  have gone : σ.binding? globalScope x = none := by decide +kernel
  obtain ⟨strictly, u, refuses, iff, -, fails⟩ :=
    stale_write_hits_one_binding named means since true .null
  obtain ⟨leniently, w', writes, iff', done, -⟩ :=
    stale_write_hits_one_binding named means since false .null
  have refused : strictly ≠ .ok () := fun ok => by
    rcases iff.1 ok with ⟨b, hb, -⟩ | ⟨-, lenient⟩
    · cases gone.symm.trans hb
    · cases lenient
  obtain ⟨rfl, fault, because, rfl⟩ := fails refused
  obtain rfl : leniently = .ok () := iff'.2 (.inr ⟨gone, rfl⟩)
  obtain ⟨bound, reads⟩ := done rfl
  have fault_eq : fault = .unbound (Spelling.full x) := by
    cases because with
    | uninitialised hb | constant hb => cases gone.symm.trans hb
    | unbound => rfl
  have here := bound.here
  rw [show σ.world.scopes.binding? globalScope x = none from gone] at here
  let later : Scene := ⟨w', []⟩
  refine ⟨σ₀, σ, named, means, since, gone, fault_eq ▸ refuses, w', writes, here, ?_⟩
  exact reads later [] later rfl (fun r mem => absurd mem List.not_mem_nil) (.nil later)

end Scene

end Lvalue
