import Lvalue.Session

/-!
# Scoping

Runs of programs that work with names: they open scopes, declare and initialise
names, resolve them, and read, write and delete through the references that they
got, at once or long after. When it is used, a reference may be older than the
binding that it leads to.

What such a *deed* does to the binding of one name in one scope can be told from
this binding alone (`Deed.effect`), so that the other scopes and names are out of
the way from here on: for a single binding, a run is a run of the effects of its
deeds (`Run.binding?`).
-/

namespace Lvalue

/-! ## Single bindings -/

namespace Binding

/-- The binding with a value, if it awaits one. -/
def initialise (b : Binding) (v : Value) : Binding :=
  if b.initialised then b else { b with value := v, initialised := true }

/-- The binding cannot be written: it is a constant, or has no value yet. -/
def Guarded (b : Binding) : Prop := b.initialised = false ∨ b.kind = .constant

instance (b : Binding) : Decidable b.Guarded := inferInstanceAs (Decidable (_ ∨ _))

/-- What is bound after a write through a reference to the scope. -/
def written (v : Value) (strict : Bool) : Option Binding → Option Binding
  | none => if strict then none else some (implicit v)
  | some b => if b.Guarded then some b else some { b with value := v }

/-- What is bound after a write that no guard stands against. -/
def overwritten (v : Value) : Option Binding → Option Binding
  | none => some (implicit v)
  | some b => some { b with value := v }

/-- The binding that a declaration makes. -/
inductive Declared : Binding → Prop
  | var (v : Value) : Declared (.var v)
  | letting : Declared (.pending .letting)
  | constant : Declared (.pending .constant)

end Binding

namespace Scopes

variable {t : Scopes} {s s' : ScopeId} {x x' : Atom} {c : Scope}

/-- The scope is alive. -/
def Alive (t : Scopes) (s : ScopeId) : Prop := ∃ c, t.get? s = some c

/-- The same scopes are alive, and each is in the scope where it was. -/
def SameTree (t t' : Scopes) : Prop :=
  ∀ s, (t'.get? s).map (·.parent) = (t.get? s).map (·.parent)

theorem SameTree.refl (t : Scopes) : t.SameTree t := fun _ => rfl

/-- In the same tree, the same scopes are there. -/
theorem SameTree.alive {t' : Scopes} (h : t.SameTree t') : t'.Alive s ↔ t.Alive s := by
  have same := congrArg Option.isSome (h s)
  rw [Option.isSome_map, Option.isSome_map] at same
  rw [Alive, Alive, ← Option.isSome_iff_exists, ← Option.isSome_iff_exists, same]

theorem SameTree.parent? {t' : Scopes} (h : t.SameTree t') : t'.parent? s = t.parent? s := by
  have same := congrArg (Option.bind · id) (h s)
  rwa [Option.bind_map, Option.bind_map] at same

/-- A change of bindings is no change of the tree. -/
theorem sameTree_rebind (f : Table Atom Binding → Table Atom Binding) :
    t.SameTree (t.rebind s' f) := by
  intro s
  rw [get?_rebind]
  split
  · rw [Option.map_map]
    rfl
  · rfl

/-- A change of the bindings of one scope is one there and nowhere else. -/
theorem binding?_rebind (f : Table Atom Binding → Table Atom Binding) (hs : t.get? s' = some c) :
    (t.rebind s f).binding? s' x =
      if s = s' then (f c.bindings).get? x else t.binding? s' x := by
  rw [binding?, get?_rebind]
  split
  · rw [hs]
    rfl
  · rfl

/-- A new scope binds nothing, and the other ones are as they were. -/
theorem binding?_alloc (parent : Option ScopeId) :
    (t.alloc parent).2.binding? s x = t.binding? s x := by
  rw [binding?, get?_alloc, binding?]
  split
  · next e =>
    rw [← e, get?_next]
    rfl
  · rfl

/-- A change of what is bound under one name is seen in this binding alone. -/
theorem binding?_rebind_at {f : Table Atom Binding → Table Atom Binding}
    {g : Option Binding → Option Binding}
    (hf : ∀ bindings, (f bindings).get? x =
      if x' = x then g (bindings.get? x) else bindings.get? x) (hs : t.get? s = some c) :
    (t.rebind s' f).binding? s x =
      if s' = s ∧ x' = x then g (t.binding? s x) else t.binding? s x := by
  rw [binding?_rebind f hs, hf]
  by_cases e : s' = s
  · subst e
    simp only [true_and, if_true, binding?, hs, Option.bind_some]
  · simp only [e, false_and, if_false]

/-- A declaration is found where it was made, and hides nothing elsewhere. -/
theorem binding?_declare (b : Binding) (hs : t.get? s = some c) :
    (t.declare s' x' b).binding? s x = if s' = s ∧ x' = x then some b else t.binding? s x :=
  binding?_rebind_at (g := fun _ => some b) (fun bindings => bindings.get?_insert x' x b) hs

/-- A change of one binding is one of that name in that scope. -/
theorem binding?_modify (f : Binding → Binding) (hs : t.get? s = some c) :
    (t.rebind s' (·.modify x' f)).binding? s x =
      if s' = s ∧ x' = x then (t.binding? s x).map f else t.binding? s x :=
  binding?_rebind_at (g := Option.map f) (fun bindings => bindings.get?_modify x' x f) hs

@[inherit_doc binding?_modify]
theorem binding?_erase (hs : t.get? s = some c) :
    (t.rebind s' (·.erase x')).binding? s x =
      if s' = s ∧ x' = x then none else t.binding? s x :=
  binding?_rebind_at (g := fun _ => none) (fun bindings => bindings.get?_erase x' x) hs

/-- To initialise is to change one binding, if it is there. -/
theorem binding?_initialise (v : Value) (hs : t.get? s = some c) :
    (t.initialise s' x' v).binding? s x =
      if s' = s ∧ x' = x then (t.binding? s x).map (·.initialise v) else t.binding? s x := by
  by_cases e : s' = s ∧ x' = x
  · rw [if_pos e]
    obtain ⟨rfl, rfl⟩ := e
    cases hb : t.binding? s' x' with
    | none => simp [initialise, awaits, hb]
    | some b =>
      cases hi : b.initialised with
      | true => simp [initialise, awaits, hb, hi, Binding.initialise]
      | false => simp [initialise, awaits, hb, hi, Binding.initialise, binding?_modify _ hs]
  · rw [if_neg e, initialise]
    split
    · rw [binding?_modify _ hs, if_neg e]
    · rfl

/-- Only a deletable binding is gone afterwards. -/
theorem binding?_delete (hs : t.get? s = some c) :
    (t.delete s' x').binding? s x =
      if s' = s ∧ x' = x then (t.binding? s x).filter (!·.deletable) else t.binding? s x := by
  by_cases e : s' = s ∧ x' = x
  · rw [if_pos e]
    obtain ⟨rfl, rfl⟩ := e
    cases hb : t.binding? s' x' with
    | none => simp [delete, releases, hb, binding?_erase hs]
    | some b =>
      cases hd : b.deletable <;> simp [delete, releases, hb, hd, Option.filter, binding?_erase hs]
  · rw [if_neg e, delete]
    split
    · rw [binding?_erase hs, if_neg e]
    · rfl

/-- A write to a binding that cannot be written fails. -/
theorem write_of_guarded {b : Binding} (hb : t.binding? s x = some b) (hg : b.Guarded) (v : Value)
    (strict : Bool) :
    t.write .full s x v strict = .error
      (if b.initialised then .constant (Spelling.full x)
        else .uninitialised (Spelling.full x)) := by
  rw [write, hb]
  rcases hg with hi | hc
  · simp [hi]
  · cases hi : b.initialised <;> simp [hi, hc]

/-- A binding that is not guarded takes the value. -/
theorem write_of_not_guarded {b : Binding} (hb : t.binding? s x = some b) (hg : ¬b.Guarded)
    (v : Value) (strict : Bool) : t.write .full s x v strict = .ok (t.assign s x v) := by
  obtain ⟨hi, hc⟩ := not_or.1 hg
  simp [write, hb, Bool.of_not_eq_false hi, hc]

/-- The scopes after a write, whether it succeeds or fails. -/
def written (t : Scopes) (s : ScopeId) (x : Atom) (v : Value) (strict : Bool) : Scopes :=
  match t.write .full s x v strict with
  | .ok t' => t'
  | .error _ => t

/-- Where nothing is bound, a strict write leaves all as it is, and any other one declares the name.
    -/
theorem written_of_unbound (hb : t.binding? s x = none) (v : Value) (strict : Bool) :
    t.written s x v strict = if strict then t else t.declare s x (.implicit v) := by
  rw [written, write, hb]
  cases strict <;> rfl

/-- A guarded binding stays as it is. -/
theorem written_of_guarded {b : Binding} (hb : t.binding? s x = some b) (hg : b.Guarded)
    (v : Value) (strict : Bool) : t.written s x v strict = t := by
  rw [written, write_of_guarded hb hg]

theorem written_of_not_guarded {b : Binding} (hb : t.binding? s x = some b) (hg : ¬b.Guarded)
    (v : Value) (strict : Bool) : t.written s x v strict = t.assign s x v := by
  rw [written, write_of_not_guarded hb hg]

/-- A write touches one binding at most, and what becomes of that depends on nothing else. -/
theorem binding?_written (v : Value) (strict : Bool) (hs : t.get? s = some c) :
    (t.written s' x' v strict).binding? s x =
      if s' = s ∧ x' = x then Binding.written v strict (t.binding? s x) else t.binding? s x := by
  by_cases e : s' = s ∧ x' = x
  · rw [if_pos e]
    obtain ⟨rfl, rfl⟩ := e
    rcases hb : t.binding? s' x' with _ | b
    · rw [written_of_unbound hb]
      cases strict with
      | true => exact hb
      | false => exact (binding?_declare _ hs).trans (if_pos ⟨rfl, rfl⟩)
    · by_cases hg : b.Guarded
      · rw [written_of_guarded hb hg, hb, Binding.written, if_pos hg]
      · rw [written_of_not_guarded hb hg, assign, binding?_modify _ hs, if_pos ⟨rfl, rfl⟩, hb,
          Binding.written, if_neg hg]
        rfl
  · rw [if_neg e]
    rcases hb : t.binding? s' x' with _ | b
    · rw [written_of_unbound hb]
      cases strict with
      | true => rfl
      | false => exact (binding?_declare _ hs).trans (if_neg e)
    · by_cases hg : b.Guarded
      · rw [written_of_guarded hb hg]
      · rw [written_of_not_guarded hb hg, assign, binding?_modify _ hs, if_neg e]

/-- What is created is in the outermost scope, whatever was there. -/
theorem binding?_createGlobal (inner : ScopeId) (v : Value) (hs : t.get? s = some c) :
    (t.createGlobal inner x' v).binding? s x =
      if t.outermost inner = s ∧ x' = x then Binding.overwritten v (t.binding? s x)
      else t.binding? s x := by
  rw [createGlobal]
  by_cases e : t.outermost inner = s ∧ x' = x
  · rw [if_pos e]
    obtain ⟨rfl, rfl⟩ := e
    cases hb : t.binding? (t.outermost inner) x' with
    | none => simp [Binding.overwritten, binding?_declare _ hs]
    | some b => simp [Binding.overwritten, hb, assign, binding?_modify _ hs]
  · rw [if_neg e]
    split
    · rw [assign, binding?_modify _ hs, if_neg e]
    · rw [binding?_declare _ hs, if_neg e]

end Scopes

/-! ## References to names -/

/-- The scopes after a write through a reference to a name, whether it succeeds or fails. -/
def Scopes.put (t : Scopes) (v : Value) : Reference → Scopes
  | .binding none x strict => if strict then t else t.createGlobal globalScope x v
  | .binding (some s) x strict => t.written s x v strict
  | _ => t

/-- The scopes after a delete through a reference to a name. -/
def Scopes.remove (t : Scopes) : Reference → Scopes
  | .binding (some s) x _ => t.delete s x
  | _ => t

namespace Scopes

variable {t : Scopes} (s : ScopeId) (x : Atom) (v : Value)

theorem sameTree_initialise : t.SameTree (t.initialise s x v) := by
  rw [initialise]
  split
  · exact sameTree_rebind _
  · exact .refl t

/-- A write to a name is no change of the tree. -/
theorem sameTree_written (strict : Bool) : t.SameTree (t.written s x v strict) := by
  rcases hb : t.binding? s x with _ | b
  · rw [written_of_unbound hb]
    split
    · exact .refl t
    · exact sameTree_rebind _
  · by_cases hg : b.Guarded
    · rw [written_of_guarded hb hg]
      exact .refl t
    · rw [written_of_not_guarded hb hg]
      exact sameTree_rebind _

theorem sameTree_createGlobal : t.SameTree (t.createGlobal s x v) := by
  rw [createGlobal]
  split <;> exact sameTree_rebind _

/-- No reference changes the tree when it is written to. -/
theorem sameTree_put (r : Reference) : t.SameTree (t.put v r) := by
  rcases r with _ | ⟨_ | s, x, strict⟩ | _ | _
  case binding.none =>
    cases strict with
    | true => exact .refl t
    | false => exact sameTree_createGlobal globalScope x v
  case binding.some => exact sameTree_written s x v strict
  all_goals exact .refl t

/-- No reference changes the tree when it is deleted. -/
theorem sameTree_remove (r : Reference) : t.SameTree (t.remove r) := by
  rcases r with _ | ⟨_ | s, x, strict⟩ | _ | _
  case binding.some =>
    simp only [remove, delete]
    split
    · exact sameTree_rebind _
    · exact .refl t
  all_goals exact .refl t

end Scopes

section

variable (run : Runner) (w : World) (s : Option ScopeId) (x : Atom) (strict : Bool)

/-- A read of a name leaves the world as it is. -/
theorem on_readReference_binding :
    ((readReference run (.binding s x strict)).on w).2 = w := by
  cases s with
  | none => rfl
  | some s =>
    rw [readReference, Eval.on_bind, Eval.on_see]
    cases w.scopes.read .full s x strict <;> rfl

/-- A write to a name changes the scopes alone, in the way that was told. -/
theorem on_writeReference_binding (v : Value) :
    ((writeReference run (.binding s x strict) v).on w).2 =
      { w with scopes := w.scopes.put v (.binding s x strict) } := by
  cases s with
  | none => cases strict <;> rfl
  | some s =>
    rw [writeReference, Eval.on_bind, Eval.on_see, Scopes.put, Scopes.written]
    cases w.scopes.write .full s x v strict <;> rfl

@[inherit_doc on_writeReference_binding]
theorem on_deleteReference_binding :
    ((deleteReference run (.binding s x strict)).on w).2 =
      { w with scopes := w.scopes.remove (.binding s x strict) } := by
  cases s <;> rfl

/-- To delete what cannot be deleted fails silently. -/
theorem on_deleteReference_of_kept {s : ScopeId} (kept : w.scopes.releases s x = false) :
    (deleteReference run (.binding (some s) x strict)).on w = (.ok false, w) := by
  refine Prod.ext (congrArg Except.ok kept) ?_
  rw [on_deleteReference_binding, Scopes.remove, Scopes.delete, kept]
  rfl

end

/-! ## Runs -/

/-- Something that a program does with names. -/
inductive Deed where
  /-- Opens a scope in another one. -/
  | enter (parent : ScopeId)
  | declare (s : ScopeId) (x : Atom) (b : Binding)
  | initialise (s : ScopeId) (x : Atom) (v : Value)
  | resolve (s : ScopeId) (x : Atom) (strict : Bool)
  | read (r : Reference)
  | write (r : Reference) (v : Value)
  | delete (r : Reference)

/-- A world, and the references to names that a run has got so far. -/
structure Scene where
  world : World
  references : List Reference := []

namespace Scene

/-- The binding of `x` in `s`. -/
def binding? (σ : Scene) (s : ScopeId) (x : Atom) : Option Binding := σ.world.scopes.binding? s x

/-- The scene with other scopes. -/
def rescope (σ : Scene) (scopes : Scopes) : Scene :=
  { σ with world := { σ.world with scopes } }

/-- One deed, given how bodies run. What is used is a reference that was resolved before. -/
inductive Step (run : Runner) : Scene → Deed → Scene → Prop
  | enter (σ : Scene) (parent : ScopeId) :
    Step run σ (.enter parent) (σ.rescope (σ.world.scopes.alloc (some parent)).2)
  | declare (σ : Scene) (s : ScopeId) (x : Atom) {b : Binding} (h : b.Declared) :
    Step run σ (.declare s x b) (σ.rescope (σ.world.scopes.declare s x b))
  | initialise (σ : Scene) (s : ScopeId) (x : Atom) (v : Value) :
    Step run σ (.initialise s x v) (σ.rescope (σ.world.scopes.initialise s x v))
  | resolve (σ : Scene) (s : ScopeId) (x : Atom) (strict : Bool) :
    Step run σ (.resolve s x strict)
      { σ with references := .binding (σ.world.scopes.resolve s x) x strict :: σ.references }
  | read {σ : Scene} {r : Reference} (h : r ∈ σ.references) :
    Step run σ (.read r) { σ with world := ((readReference run r).on σ.world).2 }
  | write {σ : Scene} {r : Reference} (h : r ∈ σ.references) (v : Value) :
    Step run σ (.write r v) { σ with world := ((writeReference run r v).on σ.world).2 }
  | delete {σ : Scene} {r : Reference} (h : r ∈ σ.references) :
    Step run σ (.delete r) { σ with world := ((deleteReference run r).on σ.world).2 }

/-- Some deeds, one after the other. -/
inductive Run (run : Runner) : Scene → List Deed → Scene → Prop
  | nil (σ : Scene) : Run run σ [] σ
  | cons {σ σ' σ'' : Scene} {d : Deed} {ds : List Deed} (first : Step run σ d σ')
    (rest : Run run σ' ds σ'') : Run run σ (d :: ds) σ''

/-- The scenes that a program can reach from the start. -/
def Reachable (run : Runner) (σ : Scene) : Prop :=
  ∃ (config : Config) (ds : List Deed), Run run ⟨World.initial config, []⟩ ds σ

end Scene

/-! ## Effects -/

/-- What a deed makes of the binding of `x` in `s`, if that scope is alive. -/
def Deed.effect (s : ScopeId) (x : Atom) : Deed → Option Binding → Option Binding
  | declare s' x' b', b => if s' = s ∧ x' = x then some b' else b
  | initialise s' x' v, b => if s' = s ∧ x' = x then b.map (·.initialise v) else b
  | write (.binding none x' false) v, b =>
    if globalScope = s ∧ x' = x then Binding.overwritten v b else b
  | write (.binding (some s') x' strict) v, b =>
    if s' = s ∧ x' = x then Binding.written v strict b else b
  | delete (.binding (some s') x' _), b =>
    if s' = s ∧ x' = x then b.filter (!·.deletable) else b
  | _, b => b

/-- What some deeds make of the binding of `x` in `s`. -/
def Deed.effects (s : ScopeId) (x : Atom) (ds : List Deed) (b : Option Binding) : Option Binding :=
  ds.foldl (fun b d => d.effect s x b) b

/-- The scopes after a deed. -/
def Deed.after (t : Scopes) : Deed → Scopes
  | enter parent => (t.alloc (some parent)).2
  | declare s x b => t.declare s x b
  | initialise s x v => t.initialise s x v
  | write r v => t.put v r
  | delete r => t.remove r
  | _ => t

namespace Scopes

variable {t : Scopes} {s : ScopeId} {c : Scope} {x : Atom}

/-- A write through a reference has the effect of a deed. -/
theorem binding?_put (hs : t.get? s = some c) (v : Value) (r : Reference) :
    (t.put v r).binding? s x = (Deed.write r v).effect s x (t.binding? s x) := by
  rcases r with _ | ⟨_ | s', x', strict⟩ | _ | _
  case binding.none =>
    cases strict with
    | true => rfl
    | false => exact binding?_createGlobal globalScope v hs
  case binding.some => exact binding?_written v strict hs
  all_goals rfl

/-- A delete through a reference has the effect of a deed. -/
theorem binding?_remove (hs : t.get? s = some c) (r : Reference) :
    (t.remove r).binding? s x = (Deed.delete r).effect s x (t.binding? s x) := by
  rcases r with _ | ⟨_ | s', x', strict⟩ | _ | _
  case binding.some => exact binding?_delete hs
  all_goals rfl

/-- A deed does to a binding in a scope that is alive what its effect says. -/
theorem binding?_after (hs : t.get? s = some c) (d : Deed) :
    (d.after t).binding? s x = d.effect s x (t.binding? s x) := by
  cases d with
  | enter parent => exact binding?_alloc _
  | declare s' x' b => exact binding?_declare b hs
  | initialise s' x' v => exact binding?_initialise v hs
  | write r v => exact binding?_put hs v r
  | delete r => exact binding?_remove hs r
  | resolve | read => rfl

/-- The tree grows when a scope is opened, and does not change otherwise. -/
theorem sameTree_after {d : Deed} (h : ∀ parent, d ≠ .enter parent) : t.SameTree (d.after t) := by
  cases d with
  | enter parent => exact absurd rfl (h parent)
  | declare s x b => exact sameTree_rebind _
  | initialise s x v => exact sameTree_initialise s x v
  | write r v => exact sameTree_put v r
  | delete r => exact sameTree_remove r
  | resolve | read => exact .refl t

theorem alive_alloc (hs : t.Alive s) (parent : Option ScopeId) :
    (t.alloc parent).2.Alive s := by
  rw [Alive, get?_alloc]
  split
  · exact ⟨_, rfl⟩
  · exact hs

/-- No deed takes a scope away. -/
theorem alive_after (hs : t.Alive s) (d : Deed) : (d.after t).Alive s := by
  cases d with
  | enter parent => exact alive_alloc hs _
  | _ => exact (sameTree_after (by simp)).alive.2 hs

/-- A scope that is not there binds nothing. -/
theorem binding?_of_not_alive (hs : ¬t.Alive s) : t.binding? s x = none := by
  have gone : t.get? s = none := Option.eq_none_iff_forall_ne_some.2 fun c hc => hs ⟨c, hc⟩
  rw [binding?, gone, Option.bind_none]

/-- A deed binds nothing in a scope that is not alive. -/
theorem binding?_after_of_not_alive (hs : ¬t.Alive s) (d : Deed) :
    (d.after t).binding? s x = none := by
  cases d with
  -- The new scope may be `s`, but it binds nothing either.
  | enter parent => exact (binding?_alloc _).trans (binding?_of_not_alive hs)
  | _ => exact binding?_of_not_alive (mt (sameTree_after (by simp)).alive.1 hs)

end Scopes

namespace Scene

variable {run : Runner} {σ σ' : Scene} {d : Deed} {ds : List Deed} {s : ScopeId} {x : Atom}

/-- All that a run holds on to are references to names. -/
def Named (σ : Scene) : Prop := ∀ r ∈ σ.references, ∃ s x strict, r = .binding s x strict

/-- The scope is alive. -/
def Alive (σ : Scene) (s : ScopeId) : Prop := σ.world.scopes.Alive s

/-- A step knows its references by name afterwards too. -/
theorem Step.named (h : Step run σ d σ') (hσ : σ.Named) : σ'.Named := by
  cases h with
  | resolve s x strict =>
    intro r mem
    rcases List.mem_cons.1 mem with rfl | mem
    · exact ⟨_, x, strict, rfl⟩
    · exact hσ r mem
  | _ => exact hσ

/-- All that a deed does, apart from the reference that it may get, it does to the scopes. -/
theorem Step.scopes (h : Step run σ d σ') (hσ : σ.Named) :
    σ'.world.scopes = d.after σ.world.scopes := by
  cases h with
  | enter | declare | initialise | resolve => rfl
  | read mem =>
    obtain ⟨s, x, strict, rfl⟩ := hσ _ mem
    rw [on_readReference_binding]
    rfl
  | write mem v =>
    obtain ⟨s, x, strict, rfl⟩ := hσ _ mem
    rw [on_writeReference_binding]
    rfl
  | delete mem =>
    obtain ⟨s, x, strict, rfl⟩ := hσ _ mem
    rw [on_deleteReference_binding]
    rfl

/-- No scope goes in a step. -/
theorem Step.alive (h : Step run σ d σ') (hσ : σ.Named) (hs : σ.Alive s) : σ'.Alive s := by
  rw [Alive, h.scopes hσ]
  exact Scopes.alive_after hs d

/-- In a step, each binding goes the way of the deed. -/
theorem Step.binding? (h : Step run σ d σ') (hσ : σ.Named) (hs : σ.Alive s) :
    σ'.binding? s x = d.effect s x (σ.binding? s x) := by
  obtain ⟨c, hc⟩ := hs
  rw [Scene.binding?, h.scopes hσ]
  exact Scopes.binding?_after hc d

theorem Step.binding?_eq_none (h : Step run σ d σ') (hσ : σ.Named) (hs : ¬σ.Alive s) :
    σ'.binding? s x = none := by
  rw [Scene.binding?, h.scopes hσ]
  exact Scopes.binding?_after_of_not_alive hs d

@[inherit_doc Step.named]
theorem Run.named (h : Run run σ ds σ') (hσ : σ.Named) : σ'.Named := by
  induction h with
  | nil => exact hσ
  | cons first _ ih => exact ih (first.named hσ)

/-- For a single binding, a run is a run of the effects of its deeds. -/
theorem Run.binding? (h : Run run σ ds σ') (hσ : σ.Named) (hs : σ.Alive s) :
    σ'.binding? s x = Deed.effects s x ds (σ.binding? s x) := by
  induction h with
  | nil => rfl
  | cons first _ ih =>
    rw [ih (first.named hσ) (first.alive hσ hs), first.binding? hσ hs]
    rfl

theorem Reachable.named (h : Reachable run σ) : σ.Named := by
  obtain ⟨config, ds, hrun⟩ := h
  exact hrun.named fun r mem => absurd mem List.not_mem_nil

/-- A scope that binds a name is alive. -/
theorem alive_of_binding? {b : Binding} (h : σ.binding? s x = some b) : σ.Alive s := by
  rw [Scene.binding?, Scopes.binding?, Option.bind_eq_some_iff] at h
  obtain ⟨c, hc, -⟩ := h
  exact ⟨c, hc⟩

end Scene

end Lvalue
