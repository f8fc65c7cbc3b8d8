import Lvalue.Proofs.Scoping

/-!
# Integrity of bindings

What runs keep of a binding until its name is declared again. It stays what it
is, a variable or not, and once it has a value it does not lose it. A constant,
and any binding that has no value yet, is *guarded*: a write to it fails and
leaves it as it is.

But a name that was bound nowhere when it was resolved is written past all
guards, if the reference is not strict: such an *implicit* write is to make a
variable in the global scope, and it takes whatever it finds there for one. If
the name has been declared meanwhile, the write succeeds, on a constant too
(`constant_overwritten`). It is the one way around the guards, and all that it
changes is the value (`guarded_until_implicit_write`).
-/

namespace Lvalue

/-! ## Deeds about one binding -/

namespace Deed

variable (s : ScopeId) (x : Atom)

/-- The deed declares the name. -/
def Declares : Deed → Prop
  | declare s' x' _ => s' = s ∧ x' = x
  | _ => False

/-- The deed is to initialise the binding. -/
def Initialises : Deed → Prop
  | initialise s' x' _ => s' = s ∧ x' = x
  | _ => False

/-- The value of a write past the guards of the binding. -/
def implicit? : Deed → Option Value
  | write (.binding none x' false) v => if globalScope = s ∧ x' = x then some v else none
  | _ => none

/-- The value that the last of the implicit writes leaves, and the old one if there is none. -/
def lastImplicit : List Deed → Value → Value
  | [], v => v
  | d :: ds, v => lastImplicit ds ((d.implicit? s x).getD v)

variable {s x}

/-- Only the global scope is open to implicit writes. -/
theorem implicit?_eq_none (hs : s ≠ globalScope) (d : Deed) : d.implicit? s x = none := by
  unfold implicit?
  split
  · exact if_neg fun h => hs h.1.symm
  · rfl

/-- Without implicit writes, the value is the first one. -/
theorem lastImplicit_of_none {ds : List Deed} (h : ∀ d ∈ ds, d.implicit? s x = none) (v : Value) :
    lastImplicit s x ds v = v := by
  induction ds with
  | nil => rfl
  | cons d ds ih =>
    rw [lastImplicit, h d List.mem_cons_self, Option.getD_none]
    exact ih fun d' hd' => h d' (List.mem_cons_of_mem _ hd')

end Deed

namespace Binding

variable {s : ScopeId} {x : Atom} {b : Binding} {d : Deed} {ds : List Deed}

/-- Only a variable that has a value can be deleted. -/
def Sound (b : Binding) : Prop := b.deletable = true → b.kind = .var ∧ b.initialised = true

/-- What can be deleted was created by a write, and so it is not guarded. -/
theorem Sound.not_guarded (hb : b.Sound) (deletable : b.deletable = true) : ¬b.Guarded := by
  obtain ⟨kind, initialised⟩ := hb deletable
  rintro (pending | constant)
  · rw [pending] at initialised
    contradiction
  · rw [kind] at constant
    contradiction

/-- What may come of a binding that is not declared again. One that is deleted may be made anew,
    but only as what it was. -/
def Evolves (b : Binding) : Option Binding → Prop
  | none => b.deletable = true
  | some b' => b'.kind = b.kind ∧ (b.initialised = true → b'.initialised = true) ∧
    (b'.deletable = true → b.deletable = true)

theorem Evolves.refl (b : Binding) : b.Evolves (some b) := ⟨rfl, id, id⟩

/-- A binding that has evolved is no less sound. -/
theorem Evolves.sound {b' : Binding} (h : b.Evolves (some b')) (hb : b.Sound) : b'.Sound := by
  intro deletable
  obtain ⟨kind, initialised⟩ := hb (h.2.2 deletable)
  exact ⟨h.1.trans kind, h.2.1 initialised⟩

theorem Declared.sound (h : b.Declared) : b.Sound := by
  cases h <;> exact fun deletable => absurd deletable Bool.false_ne_true

/-- What a write creates is sound. -/
theorem sound_implicit (v : Value) : (implicit v).Sound := fun _ => ⟨rfl, rfl⟩

section

variable {c : Option Binding} (hc : b.Evolves c)
include hc

/-- To initialise is to evolve. -/
theorem Evolves.initialise (v : Value) : b.Evolves (c.map (·.initialise v)) := by
  cases c with
  | none => exact hc
  | some b' =>
    rw [Option.map_some, Binding.initialise]
    split
    · exact hc
    · exact ⟨hc.1, fun _ => rfl, hc.2.2⟩

/-- A declared binding is not removed. -/
theorem Evolves.remove : b.Evolves (c.filter (!·.deletable)) := by
  cases c with
  | none => exact hc
  | some b' =>
    cases hd : b'.deletable with
    | true =>
      rw [Option.filter_some_neg (by simp [hd])]
      exact hc.2.2 hd
    | false =>
      rw [Option.filter_some_pos (by simp [hd])]
      exact hc

variable (hb : b.Sound)
include hb

/-- Even what is overwritten keeps its kind. -/
theorem Evolves.overwritten (v : Value) : b.Evolves (Binding.overwritten v c) := by
  cases c with
  -- A new variable stands where one was deleted.
  | none => exact ⟨(hb hc).1.symm, fun _ => rfl, fun _ => hc⟩
  | some b' => exact hc

theorem Evolves.written (v : Value) (strict : Bool) : b.Evolves (Binding.written v strict c) := by
  cases c with
  | none =>
    cases strict with
    | true => exact hc
    | false => exact ⟨(hb hc).1.symm, fun _ => rfl, fun _ => hc⟩
  | some b' =>
    rw [Binding.written]
    split <;> exact hc

/-- Whatever is done, a binding evolves, unless it is declared anew. -/
theorem Evolves.effect (undeclared : ¬d.Declares s x) : b.Evolves (d.effect s x c) := by
  have at_cell {p : Prop} [Decidable p] {c' : Option Binding} (h : b.Evolves c') :
      b.Evolves (if p then c' else c) := by
    split
    · exact h
    · exact hc
  unfold Deed.effect
  split
  · rw [if_neg (show ¬(_ ∧ _) from undeclared)]
    exact hc
  · exact at_cell (hc.initialise _)
  · exact at_cell (hc.overwritten hb _)
  · exact at_cell (hc.written hb _ _)
  · exact at_cell hc.remove
  · exact hc

end

/-- So it does in a run. -/
theorem Evolves.effects (hb : b.Sound) {c : Option Binding} (hc : b.Evolves c)
    (undeclared : ∀ d ∈ ds, ¬d.Declares s x) : b.Evolves (Deed.effects s x ds c) := by
  induction ds generalizing c with
  | nil => exact hc
  | cons d ds ih =>
    exact ih (hc.effect hb (undeclared d List.mem_cons_self))
      fun d' hd' => undeclared d' (List.mem_cons_of_mem _ hd')

/-- Of all deeds, only an implicit write gets past the guards of a binding. -/
theorem Guarded.effect (hg : b.Guarded) (hb : b.Sound) (undeclared : ¬d.Declares s x)
    (uninitialised : b.initialised = true ∨ ¬d.Initialises s x) :
    d.effect s x (some b) = some { b with value := (d.implicit? s x).getD b.value } := by
  cases d with
  | declare s' x' b' => exact if_neg undeclared
  | initialise s' x' v =>
    rw [Deed.effect, Option.map_some, Binding.initialise]
    rcases uninitialised with initialised | other
    · rw [if_pos initialised, ite_self]
      rfl
    · exact if_neg other
  | write r v =>
    rcases r with _ | ⟨_ | s', x', strict⟩ | _ | _
    case binding.none =>
      cases strict with
      | true => rfl
      | false =>
        -- The implicit write: both sides ask whether it goes to this binding.
        rw [Deed.effect, Deed.implicit?]
        split <;> rfl
    case binding.some =>
      rw [Deed.effect, Binding.written, if_pos hg, ite_self]
      rfl
    all_goals rfl
  | delete r =>
    -- What can be deleted is a variable that has a value, and that is not guarded.
    have kept : b.deletable = false := Bool.eq_false_iff.2 fun h => hb.not_guarded h hg
    rcases r with _ | ⟨_ | s', x', strict⟩ | _ | _
    case binding.some =>
      rw [Deed.effect, Option.filter_some_pos (by simp [kept]), ite_self]
      rfl
    all_goals rfl
  | enter | resolve | read => rfl

theorem Guarded.effects (hg : b.Guarded) (hb : b.Sound) (undeclared : ∀ d ∈ ds, ¬d.Declares s x)
    (uninitialised : b.initialised = true ∨ ∀ d ∈ ds, ¬d.Initialises s x) :
    Deed.effects s x ds (some b) = some { b with value := Deed.lastImplicit s x ds b.value } := by
  induction ds generalizing b with
  | nil => rfl
  | cons d ds ih =>
    have first : d.effect s x (some b) = some { b with value := (d.implicit? s x).getD b.value } :=
      hg.effect hb (undeclared d List.mem_cons_self)
        (uninitialised.imp_right (· d List.mem_cons_self))
    calc Deed.effects s x (d :: ds) (some b)
        = Deed.effects s x ds (d.effect s x (some b)) := rfl
      _ = Deed.effects s x ds (some { b with value := (d.implicit? s x).getD b.value }) := by
        rw [first]
      _ = _ := ih hg hb (fun d' hd' => undeclared d' (List.mem_cons_of_mem _ hd'))
        (uninitialised.imp_right fun h d' hd' => h d' (List.mem_cons_of_mem _ hd'))

end Binding

/-! ## Soundness -/

namespace Scene

variable {run : Runner} {σ σ' : Scene} {d : Deed} {ds : List Deed} {s : ScopeId} {x : Atom}

/-- All bindings are sound. -/
def Sound (σ : Scene) : Prop := ∀ s x b, σ.binding? s x = some b → b.Sound

/-- A step of a scene keeps all bindings sound. -/
theorem Step.sound (h : Step run σ d σ') (hσ : σ.Named) (sound : σ.Sound) : σ'.Sound := by
  intro s x b' hb'
  -- In a scope that is alive, `b'` is what the deed made of the binding before, if it did not
  -- declare it. Any other scope binds nothing.
  by_cases alive : σ.Alive s
  · rw [h.binding? hσ alive] at hb'
    by_cases declares : d.Declares s x
    · cases h with
      | declare s' x' declared =>
        have bound : some _ = some b' := (if_pos declares).symm.trans hb'
        exact Option.some.inj bound ▸ declared.sound
      | _ => exact declares.elim
    · cases hb : σ.binding? s x with
      | none =>
        -- As far as one can tell, a variable was deleted here.
        have deleted : (Binding.implicit .undefined).Evolves none := rfl
        have evolves := deleted.effect (Binding.sound_implicit _) declares
        rw [← hb, hb'] at evolves
        exact evolves.sound (Binding.sound_implicit _)
      | some b =>
        have evolves := (Binding.Evolves.refl b).effect (sound s x b hb) declares
        rw [← hb, hb'] at evolves
        exact evolves.sound (sound s x b hb)
  · rw [h.binding?_eq_none hσ alive] at hb'
    contradiction

/-- So does a run. -/
theorem Run.sound (h : Run run σ ds σ') (hσ : σ.Named) (sound : σ.Sound) : σ'.Sound := by
  induction h with
  | nil => exact sound
  | cons first _ ih => exact ih (first.named hσ) (first.sound hσ sound)

/-- At first nothing is bound. -/
theorem binding?_initial (config : Config) (s : ScopeId) (x : Atom) :
    Scene.binding? ⟨World.initial config, []⟩ s x = none := by
  rw [Scene.binding?, World.initial]
  split <;> exact (Scopes.binding?_alloc none).trans rfl

theorem Reachable.sound (h : Reachable run σ) : σ.Sound := by
  obtain ⟨config, ds, hrun⟩ := h
  refine hrun.sound (fun r mem => absurd mem List.not_mem_nil) fun s x b hb => ?_
  rw [binding?_initial] at hb
  contradiction

end Scene

/-! ## Integrity -/

namespace Reference

/-- A write through the reference goes to the binding of `x` in `s`. -/
def LeadsTo (s : ScopeId) (x : Atom) : Reference → Prop
  | binding s' x' _ => s'.getD globalScope = s ∧ x' = x
  | _ => False

/-- A write through the reference is implicit: the name was bound nowhere, and the reference is
    not strict. -/
def Implicit (r : Reference) : Prop := r.isUnresolvable = true ∧ r.isStrict = false

end Reference

section

variable (run : Runner) {w : World} {s : ScopeId} {x : Atom} {b : Binding} {r : Reference}
  (v : Value)

/-- A write through any other reference to a guarded binding fails. -/
theorem writeReference_of_guarded (hb : w.scopes.binding? s x = some b) (hg : b.Guarded)
    (leads : r.LeadsTo s x) (explicit : ¬r.Implicit) :
    ∃ e, (writeReference run r v).on w = (.error (.raised e), w) := by
  rcases r with _ | ⟨_ | s', x', strict⟩ | _ | _
  case binding.none =>
    cases strict with
    | true => exact ⟨_, rfl⟩
    | false => exact absurd ⟨rfl, rfl⟩ explicit
  case binding.some =>
    obtain ⟨rfl, rfl⟩ := leads
    rw [Option.getD_some] at hb
    rw [writeReference, Eval.on_bind, Eval.on_see, Scopes.write_of_guarded hb hg]
    exact ⟨_, rfl⟩
  all_goals exact leads.elim

/-- An implicit write to a binding succeeds, whatever the binding is, and changes its value. -/
theorem writeReference_of_implicit (hb : w.scopes.binding? s x = some b)
    (leads : r.LeadsTo s x) (implicit : r.Implicit) :
    (writeReference run r v).on w = (.ok (), { w with scopes := w.scopes.assign s x v }) := by
  rcases r with _ | ⟨_ | s', x', strict⟩ | _ | _
  case binding.none =>
    obtain ⟨rfl, rfl⟩ := leads
    obtain rfl : strict = false := implicit.2
    have bound : (w.scopes.binding? globalScope x').isSome := by
      rw [show w.scopes.binding? globalScope x' = some b from hb]
      rfl
    have assigned : w.scopes.createGlobal globalScope x' v = w.scopes.assign globalScope x' v :=
      if_pos bound
    rw [writeReference, if_neg Bool.false_ne_true, Eval.on_modify, assigned]
    rfl
  case binding.some => exact absurd implicit.1 Bool.false_ne_true
  all_goals exact leads.elim

end

namespace Scene

variable {run : Runner} {σ σ' : Scene} {ds : List Deed} {s : ScopeId} {x : Atom} {b : Binding}

/-- The integrity of bindings, and where it ends. Take any run from any reachable scene in which
    `x` is bound in `s`, and in which it is not declared there again.

    The binding keeps its kind, and it is not without a value again once it has one. If it is
    guarded, as a constant that has its value or as a binding without one that the run does not
    initialise, then it ends as it was, but with the value that the last implicit write to the name
    wrote; and just as it was if there was none, as there never is to any scope but the global one.
    A write that leads to a guarded binding fails and changes nothing, unless it is implicit; then
    it succeeds. -/
theorem guarded_until_implicit_write (hσ : σ.Reachable run) (hrun : Run run σ ds σ')
    (hb : σ.binding? s x = some b) (undeclared : ∀ d ∈ ds, ¬d.Declares s x) :
    (∀ b', σ'.binding? s x = some b' →
      b'.kind = b.kind ∧ (b.initialised = true → b'.initialised = true)) ∧
    (b.Guarded → (b.initialised = true ∨ ∀ d ∈ ds, ¬d.Initialises s x) →
      σ'.binding? s x = some { b with value := Deed.lastImplicit s x ds b.value } ∧
      (s ≠ globalScope ∨ (∀ d ∈ ds, d.implicit? s x = none) → σ'.binding? s x = some b)) ∧
    (b.Guarded → ∀ r v, r.LeadsTo s x →
      (¬r.Implicit → ∃ e, (writeReference run r v).on σ.world = (.error (.raised e), σ.world)) ∧
      (r.Implicit → (writeReference run r v).on σ.world =
        (.ok (), { σ.world with scopes := σ.world.scopes.assign s x v }))) := by
  -- Whatever else the run does, its effects on this one binding tell what becomes of it; and
  -- as it is sound, the effects of a delete and of most writes are none once it is guarded.
  have sound : b.Sound := hσ.sound s x b hb
  have outcome : σ'.binding? s x = Deed.effects s x ds (some b) := by
    rw [hrun.binding? hσ.named (alive_of_binding? hb), hb]
  refine ⟨fun b' hb' => ?_, fun hg uninitialised => ?_, fun hg r v leads => ?_⟩
  · have evolves := (Binding.Evolves.refl b).effects sound undeclared
    rw [← outcome, hb'] at evolves
    exact ⟨evolves.1, evolves.2.1⟩
  · have exact_value := outcome.trans (hg.effects sound undeclared uninitialised)
    refine ⟨exact_value, fun none => ?_⟩
    have none : ∀ d ∈ ds, d.implicit? s x = Option.none :=
      none.elim (fun hs d _ => Deed.implicit?_eq_none hs d) id
    rw [exact_value, Deed.lastImplicit_of_none none]
  · exact ⟨writeReference_of_guarded run v hb hg leads, writeReference_of_implicit run v hb leads⟩

/-- A constant of an inner scope keeps its value, and the write to it fails. -/
theorem guarded_until_implicit_write_of_inner :
    let run := runnerAt (callerAt 1) 1
    let x : Atom := .text "x"
    let s : ScopeId := ⟨1⟩
    let b : Binding := { value := .bool false, kind := .constant }
    let r : Reference := .binding (some s) x false
    ∃ σ σ' : Scene, σ.Reachable run ∧ Run run σ [.write r (.bool true)] σ' ∧
      σ.binding? s x = some b ∧ σ'.binding? s x = some b ∧
      ∃ e, (writeReference run r (.bool true)).on σ.world = (.error (.raised e), σ.world) := by
  intro run x s b r
  have start : Run run ⟨World.initial {}, []⟩
      [.enter globalScope, .declare s x (.pending .constant), .initialise s x (.bool false),
        .resolve s x false] _ :=
    .cons (.enter _ _) <| .cons (.declare _ _ _ .constant) <| .cons (.initialise _ _ _ _) <|
      .cons (.resolve _ _ _ _) (.nil _)
  have writes {σ : Scene} (_ : Reachable run σ) (mem : r ∈ σ.references) :
      Run run σ [.write r (.bool true)] _ := .cons (.write mem _) (.nil _)
  have reachable : Reachable run _ := ⟨{}, _, start⟩
  have write := writes reachable (.head _)
  obtain ⟨-, value, puts⟩ := guarded_until_implicit_write reachable write (s := s) (x := x) (b := b)
    rfl fun d mem => List.mem_singleton.1 mem ▸ id
  exact ⟨_, _, reachable, write, rfl, (value (.inr rfl) (.inl rfl)).2 (.inl (by decide)),
    (puts (.inr rfl) r (.bool true) ⟨rfl, rfl⟩).1 fun h => absurd h.1 Bool.false_ne_true⟩

/-- A constant that has its value is overwritten, and the write reports success: its name was bound
    nowhere when it was resolved, and was declared in the global scope since. -/
theorem constant_overwritten :
    let run := runnerAt (callerAt 1) 1
    let x : Atom := .text "x"
    let one : Value := .number (.ofNat 1)
    let two : Value := .number (.ofNat 2)
    let r : Reference := .binding none x false
    ∃ σ σ' : Scene,
      Run run ⟨World.initial {}, []⟩
        [.resolve globalScope x false, .declare globalScope x (.pending .constant),
          .initialise globalScope x one] σ ∧
      σ.binding? globalScope x = some { value := one, kind := .constant } ∧
      r ∈ σ.references ∧ Run run σ [.write r two] σ' ∧
      ((writeReference run r two).on σ.world).1 = .ok () ∧
      σ'.binding? globalScope x = some { value := two, kind := .constant } := by
  intro run x one two r
  refine ⟨_, _, .cons (.resolve _ _ _ _) (.cons (.declare _ _ _ .constant)
    (.cons (.initialise _ _ _ _) (.nil _))), ?_, ?_, .cons (.write ?_ _) (.nil _), rfl, ?_⟩
  · rfl
  · exact .head _
  · exact .head _
  · rfl

end Scene

end Lvalue
