import Lvalue.Proofs.Integrity

/-!
# Deletion

Only what was bound in passing can be deleted, and only in an outermost scope; a
declared name, and every name of an inner scope, is bound for good
(`bound_for_good`).

A write through a reference that is not strict binds the name anew where it is
gone, in whatever scope the reference is to. That an inner scope never gets such
a binding is a matter of the references: one to an inner scope was resolved
where the name was bound, and what is bound there stays
(`Settled.references`). So the two facts are shown together, by one list of all
that may become of a binding in a step (`Binding.Turn`).
-/

namespace Lvalue

/-! ## The tree of scopes -/

namespace Scopes

variable {t t' : Scopes} {s : ScopeId} {parent : Option ScopeId}

/-- Every scope is in an older one that is alive, or in none. -/
def Rooted (t : Scopes) : Prop := ∀ s p, t.parent? s = some p → t.Alive p ∧ p.serial < s.serial

/-- Only the new scope is in the scope that it was made in. -/
theorem parent?_alloc :
    (t.alloc parent).2.parent? s = if ⟨t.next⟩ = s then parent else t.parent? s := by
  rw [parent?, get?_alloc, parent?]
  split <;> rfl

/-- A scope that is alive is older than the next one. -/
theorem serial_lt_next (hs : t.Alive s) : s.serial < t.next := by
  obtain ⟨c, hc⟩ := hs
  have mem : s ∈ t.table.keys := Table.contains_iff_mem_keys.1 (Option.isSome_of_eq_some hc)
  exact t.older s mem

/-- A new scope may hang on any that is there. -/
theorem Rooted.alloc (h : t.Rooted) (hp : ∀ p, parent = some p → t.Alive p) :
    (t.alloc parent).2.Rooted := by
  intro s p hs
  rw [parent?_alloc] at hs
  split at hs
  · next e =>
    subst e
    exact ⟨alive_alloc (hp p hs) _, serial_lt_next (hp p hs)⟩
  · obtain ⟨alive, lt⟩ := h s p hs
    exact ⟨alive_alloc alive _, lt⟩

/-- What a tree has its roots in is told by the tree. -/
theorem Rooted.of_sameTree (h : t.Rooted) (same : t.SameTree t') : t'.Rooted := by
  intro s p hs
  obtain ⟨alive, lt⟩ := h s p (same.parent?.symm.trans hs)
  exact ⟨same.alive.2 alive, lt⟩

/-- A walk outwards from `s` that is long enough ends at a scope that is in no other. -/
theorem Rooted.getLast?_walk (h : t.Rooted) {n : Nat} (hn : s.serial < n) :
    ∃ root, (t.walk n (some s)).getLast? = some root ∧ t.parent? root = none := by
  induction n generalizing s with
  | zero => exact absurd hn (Nat.not_lt_zero _)
  | succ n ih =>
    rw [walk]
    cases hp : t.parent? s with
    | none => exact ⟨s, by cases n <;> rfl, hp⟩
    | some p =>
      obtain ⟨root, last, top⟩ := ih (Nat.lt_of_lt_of_le (h s p hp).2 (Nat.le_of_lt_succ hn))
      exact ⟨root, by rw [List.getLast?_cons, last, Option.getD_some], top⟩

/-- Where a walk out of a scope ends, there is a root. -/
theorem Rooted.parent?_outermost (h : t.Rooted) (s : ScopeId) :
    t.parent? (t.outermost s) = none := by
  obtain ⟨root, last, top⟩ := h.getLast?_walk (Nat.lt_succ_self s.serial)
  rw [outermost, chain, last]
  exact top

theorem Rooted.parent?_globalScope (h : t.Rooted) : t.parent? globalScope = none :=
  h.parent?_outermost globalScope

/-- A name means a scope in which it is bound. -/
theorem binding?_of_resolve {inner : ScopeId} {x : Atom} (h : t.resolve inner x = some s) :
    ∃ b, t.binding? s x = some b :=
  Option.isSome_iff_exists.1 (List.find?_some (p := fun s => (t.binding? s x).isSome) h)

end Scopes

/-! ## What may become of a binding -/

namespace Binding

/-- What may become of a binding in a step, where `root` says that its scope is in no other. -/
inductive Turn (root : Prop) : Option Binding → Option Binding → Prop
  | stays (c : Option Binding) : Turn root c c
  | declared (c : Option Binding) {b : Binding} (h : b.Declared) : Turn root c (some b)
  /-- The binding gets a value. -/
  | valued {b b' : Binding} (kind : b'.kind = b.kind)
    (initialised : b.initialised = true → b'.initialised = true)
    (deletable : b'.deletable = b.deletable) : Turn root (some b) (some b')
  /-- A write binds the name in passing. -/
  | made (h : root) (v : Value) : Turn root none (some (implicit v))
  | deleted {b : Binding} (h : b.deletable = true) : Turn root (some b) none

variable {root : Prop} {c c' : Option Binding} {b b' : Binding}

/-- A declared binding is not deletable. -/
theorem Declared.not_deletable (h : b.Declared) : b.deletable = false := by cases h <;> rfl

namespace Turn

/-- A value may be assigned. -/
theorem assigned (b : Binding) (v : Value) : Turn root (some b) (some { b with value := v }) :=
  .valued rfl id rfl

theorem initialise (c : Option Binding) (v : Value) : Turn root c (c.map (·.initialise v)) := by
  cases c with
  | none => exact .stays none
  | some b =>
    rw [Option.map_some, Binding.initialise]
    split
    · exact .stays _
    · exact .valued rfl (fun _ => rfl) rfl

theorem overwritten (h : root) (c : Option Binding) (v : Value) :
    Turn root c (Binding.overwritten v c) := by
  cases c with
  | none => exact .made h v
  | some b => exact .assigned b v

/-- A write assigns, or declares in a root scope. -/
theorem written (h : c = none → root) (v : Value) (strict : Bool) :
    Turn root c (Binding.written v strict c) := by
  cases c with
  | none =>
    cases strict with
    | true => exact .stays none
    | false => exact .made (h rfl) v
  | some b =>
    rw [Binding.written]
    split
    · exact .stays _
    · exact .assigned b v

/-- A binding may go if it is deletable. -/
theorem remove (c : Option Binding) : Turn root c (c.filter (!·.deletable)) := by
  cases c with
  | none => exact .stays none
  | some b =>
    cases hd : b.deletable with
    | true =>
      rw [Option.filter_some_neg (by simp [hd])]
      exact .deleted hd
    | false =>
      rw [Option.filter_some_pos (by simp [hd])]
      exact .stays _

/-- Something is done to one binding alone. -/
theorem ite {p : Prop} [Decidable p] (h : p → Turn root c c') :
    Turn root c (if p then c' else c) := by
  split
  · next hp => exact h hp
  · exact .stays c

/-- What has turned out of a sound binding is sound. -/
theorem sound (h : Turn root c (some b')) (hc : ∀ b, c = some b → b.Sound) : b'.Sound := by
  cases h with
  | stays => exact hc b' rfl
  | declared _ declared => exact declared.sound
  | valued kind initialised deletable =>
    intro hd
    obtain ⟨var, ready⟩ := hc _ rfl (deletable.symm.trans hd)
    exact ⟨kind.trans var, initialised ready⟩
  | made _ v => exact sound_implicit v

/-- What can be deleted could be before, or its scope is in no other. -/
theorem root_of_deletable (h : Turn root c (some b')) (hd : b'.deletable = true)
    (hc : ∀ b, c = some b → b.deletable = true → root) : root := by
  cases h with
  | stays => exact hc b' rfl hd
  | declared _ declared => exact absurd (declared.not_deletable.symm.trans hd) Bool.false_ne_true
  | valued _ _ deletable => exact hc _ rfl (deletable.symm.trans hd)
  | made root => exact root

/-- What cannot be deleted stays, and still cannot. -/
theorem lasting (h : Turn root (some b) c) (hb : b.deletable = false) :
    ∃ b', c = some b' ∧ b'.deletable = false := by
  cases h with
  | stays => exact ⟨b, rfl, hb⟩
  | declared _ declared => exact ⟨_, rfl, declared.not_deletable⟩
  | valued _ _ deletable => exact ⟨_, rfl, deletable.trans hb⟩
  | deleted hd => exact absurd (hb.symm.trans hd) Bool.false_ne_true

end Turn

end Binding

/-! ## Runs -/

/-- A deed, or something that the host of a program does with scopes. -/
inductive Act where
  | deed (d : Deed)
  /-- Opens a scope that is in no other one. -/
  | found
  /-- Writes to a name in the outermost scope around `s`. -/
  | createGlobal (s : ScopeId) (x : Atom) (v : Value)

namespace Scene

variable {run : Runner} {σ σ' : Scene} {act : Act} {acts : List Act} {s : ScopeId} {x : Atom}

/-- One act. A scope is opened only in one that is alive. -/
inductive Does (run : Runner) : Scene → Act → Scene → Prop
  | deed {σ σ' : Scene} {d : Deed} (step : Step run σ d σ')
    (parent : ∀ p, d = .enter p → σ.Alive p) : Does run σ (.deed d) σ'
  | found (σ : Scene) : Does run σ .found (σ.rescope (σ.world.scopes.alloc none).2)
  | createGlobal (σ : Scene) (s : ScopeId) (x : Atom) (v : Value) :
    Does run σ (.createGlobal s x v) (σ.rescope (σ.world.scopes.createGlobal s x v))

/-- Some acts, one after the other. -/
inductive Acts (run : Runner) : Scene → List Act → Scene → Prop
  | nil (σ : Scene) : Acts run σ [] σ
  | cons {σ σ' σ'' : Scene} {act : Act} {acts : List Act} (first : Does run σ act σ')
    (rest : Acts run σ' acts σ'') : Acts run σ (act :: acts) σ''

/-- The scenes that a program and its host can reach from the start. -/
def Attained (run : Runner) (σ : Scene) : Prop :=
  ∃ (config : Config) (acts : List Act), Acts run ⟨World.initial config, []⟩ acts σ

theorem binding?_rescope (scopes : Scopes) :
    (σ.rescope scopes).binding? s x = scopes.binding? s x := rfl

/-- An act knows its references by name afterwards too. -/
theorem Does.named (h : Does run σ act σ') (hσ : σ.Named) : σ'.Named := by
  cases h with
  | deed step => exact step.named hσ
  | found | createGlobal => exact hσ

/-- An act adds a leaf to the tree of scopes, or leaves the tree as it is. -/
theorem Does.tree (h : Does run σ act σ') (hσ : σ.Named) :
    (∃ parent, (∀ p, parent = some p → σ.Alive p) ∧
      σ'.world.scopes = (σ.world.scopes.alloc parent).2) ∨
    σ.world.scopes.SameTree σ'.world.scopes := by
  cases h with
  | @deed _ d step parent =>
    rw [step.scopes hσ]
    by_cases hd : ∃ p, d = .enter p
    · obtain ⟨p, rfl⟩ := hd
      exact .inl ⟨some p, fun _ e => parent _ (congrArg _ (Option.some.inj e)), rfl⟩
    · exact .inr (Scopes.sameTree_after fun p e => hd ⟨p, e⟩)
  | found => exact .inl ⟨none, nofun, rfl⟩
  | createGlobal s x v => exact .inr (Scopes.sameTree_createGlobal s x v)

/-- No act takes a scope away. -/
theorem Does.alive (h : Does run σ act σ') (hσ : σ.Named) (hs : σ.Alive s) : σ'.Alive s := by
  rcases h.tree hσ with ⟨parent, -, grown⟩ | same
  · rw [Alive, grown]
    exact Scopes.alive_alloc hs parent
  · exact same.alive.2 hs

theorem Does.parent? (h : Does run σ act σ') (hσ : σ.Named) (hs : σ.Alive s) :
    σ'.world.scopes.parent? s = σ.world.scopes.parent? s := by
  rcases h.tree hσ with ⟨parent, -, grown⟩ | same
  · have old : ⟨σ.world.scopes.next⟩ ≠ s := by
      rintro rfl
      exact Nat.lt_irrefl _ (Scopes.serial_lt_next hs)
    rw [grown, Scopes.parent?_alloc, if_neg old]
  · exact same.parent?

/-- No act moves a scope that is there. -/
theorem Does.rooted (h : Does run σ act σ') (hσ : σ.Named) (rooted : σ.world.scopes.Rooted) :
    σ'.world.scopes.Rooted := by
  rcases h.tree hσ with ⟨parent, alive, grown⟩ | same
  · rw [grown]
    exact rooted.alloc alive
  · exact rooted.of_sameTree same

/-! ## The invariant -/

/-- What is true all along a run. -/
structure Settled (σ : Scene) : Prop where
  named : σ.Named
  rooted : σ.world.scopes.Rooted
  sound : σ.Sound
  outermost : ∀ s x b, σ.binding? s x = some b → b.deletable = true →
    σ.world.scopes.parent? s = none
  /-- A reference to an inner scope is to a name that is bound there. -/
  references : ∀ s x strict, .binding (some s) x strict ∈ σ.references →
    σ.Alive s ∧ (σ.world.scopes.parent? s ≠ none → ∃ b, σ.binding? s x = some b)

/-- What is bound in an inner scope cannot be deleted. -/
theorem Settled.not_deletable (hσ : σ.Settled) {b : Binding} (hb : σ.binding? s x = some b)
    (inner : σ.world.scopes.parent? s ≠ none) : b.deletable = false :=
  Bool.eq_false_iff.2 fun hd => inner (hσ.outermost s x b hb hd)

/-- A scope that is not alive binds nothing, neither before the act nor after it. -/
theorem Does.binding?_of_not_alive (h : Does run σ act σ') (hσ : σ.Named) (hs : ¬σ.Alive s) :
    σ.binding? s x = none ∧ σ'.binding? s x = none := by
  have before : σ.binding? s x = none := Scopes.binding?_of_not_alive hs
  refine ⟨before, ?_⟩
  rcases h.tree hσ with ⟨parent, -, grown⟩ | same
  · rw [Scene.binding?, grown, Scopes.binding?_alloc]
    exact before
  · exact Scopes.binding?_of_not_alive (mt same.alive.1 hs)

/-- What a deed may do to a binding. -/
theorem Step.turn {d : Deed} (h : Step run σ d σ') (hσ : σ.Settled) (alive : σ.Alive s) :
    Binding.Turn (σ.world.scopes.parent? s = none) (σ.binding? s x) (σ'.binding? s x) := by
  rw [h.binding? hσ.named alive]
  cases h with
  | enter | resolve | read => exact .stays _
  | declare s' x' declared => exact .ite fun _ => .declared _ declared
  | initialise s' x' v => exact .ite fun _ => .initialise _ v
  | @write r mem v =>
    obtain ⟨_ | s', x', strict, rfl⟩ := hσ.named r mem
    · cases strict with
      | true => exact .stays _
      | false =>
        refine .ite fun e => .overwritten ?_ _ v
        rw [← e.1]
        exact hσ.rooted.parent?_globalScope
    · refine .ite fun e => .written (fun unbound => ?_) v strict
      -- The reference is to this scope. If it is an inner one, the name is bound there.
      obtain ⟨rfl, rfl⟩ := e
      refine Classical.byContradiction fun inner => ?_
      obtain ⟨b, hb⟩ := (hσ.references s' x' strict mem).2 inner
      exact absurd (unbound.symm.trans hb) nofun
  | @delete r mem =>
    obtain ⟨_ | s', x', strict, rfl⟩ := hσ.named r mem
    · exact .stays _
    · exact .ite fun _ => .remove _

/-- What an act may do to a binding. -/
theorem Does.turn (h : Does run σ act σ') (hσ : σ.Settled) (s : ScopeId) (x : Atom) :
    Binding.Turn (σ.world.scopes.parent? s = none) (σ.binding? s x) (σ'.binding? s x) := by
  by_cases alive : σ.Alive s
  · cases h with
    | deed step => exact step.turn hσ alive
    | found =>
      rw [binding?_rescope, Scopes.binding?_alloc]
      exact .stays _
    | createGlobal s' x' v =>
      obtain ⟨c, hc⟩ := alive
      rw [binding?_rescope, Scopes.binding?_createGlobal s' v hc]
      refine .ite fun e => .overwritten ?_ _ v
      rw [← e.1]
      exact hσ.rooted.parent?_outermost s'
  · obtain ⟨before, after⟩ := h.binding?_of_not_alive hσ.named alive (x := x)
    rw [before, after]
    exact .stays none

/-- The references after an act are those before it, and one that was resolved meanwhile. -/
theorem Does.references (h : Does run σ act σ') {r : Reference} (mem : r ∈ σ'.references) :
    r ∈ σ.references ∨
      ∃ inner x strict, r = .binding (σ.world.scopes.resolve inner x) x strict := by
  cases h with
  | deed step =>
    cases step with
    | resolve inner x strict =>
      rcases List.mem_cons.1 mem with rfl | mem
      · exact .inr ⟨inner, x, strict, rfl⟩
      · exact .inl mem
    | _ => exact .inl mem
  | found | createGlobal => exact .inl mem

/-- An act leaves the scene settled, whatever it is. -/
theorem Does.settled (h : Does run σ act σ') (hσ : σ.Settled) : σ'.Settled where
  named := h.named hσ.named
  rooted := h.rooted hσ.named hσ.rooted
  sound s x b hb := by
    have turn := h.turn hσ s x
    rw [hb] at turn
    exact turn.sound (hσ.sound s x)
  outermost s x b hb hd := by
    have alive : σ.Alive s := Classical.byContradiction fun dead => by
      rw [(h.binding?_of_not_alive hσ.named dead).2] at hb
      contradiction
    have turn := h.turn hσ s x
    rw [hb] at turn
    rw [h.parent? hσ.named alive]
    exact turn.root_of_deletable hd (hσ.outermost s x)
  references s x strict mem := by
    -- In the scene before, both an old reference and a new one have what is asked for.
    have before : σ.Alive s ∧
        (σ.world.scopes.parent? s ≠ none → ∃ b, σ.binding? s x = some b) := by
      rcases h.references mem with mem | ⟨inner, x', strict', e⟩
      · exact hσ.references s x strict mem
      · injection e with scope name
        subst name
        obtain ⟨b, hb⟩ := Scopes.binding?_of_resolve scope.symm
        exact ⟨alive_of_binding? hb, fun _ => ⟨b, hb⟩⟩
    refine ⟨h.alive hσ.named before.1, fun inner => ?_⟩
    rw [h.parent? hσ.named before.1] at inner
    obtain ⟨b, hb⟩ := before.2 inner
    have turn := h.turn hσ s x
    rw [hb] at turn
    obtain ⟨b', hb', -⟩ := turn.lasting (hσ.not_deletable hb inner)
    exact ⟨b', hb'⟩

/-- So do acts one after the other. -/
theorem Acts.settled (h : Acts run σ acts σ') (hσ : σ.Settled) : σ'.Settled := by
  induction h with
  | nil => exact hσ
  | cons first _ ih => exact ih (first.settled hσ)

/-- At first the scene is settled. -/
theorem settled_initial (config : Config) : Settled ⟨World.initial config, []⟩ where
  named r mem := absurd mem List.not_mem_nil
  rooted s p hp := by
    have single : (World.initial config).scopes.parent? s = none := by
      rw [World.initial]
      split <;> exact Scopes.parent?_alloc.trans (ite_self none)
    rw [single] at hp
    contradiction
  sound s x b hb := by
    rw [binding?_initial] at hb
    contradiction
  outermost s x b hb := by
    rw [binding?_initial] at hb
    contradiction
  references s x strict mem := absurd mem List.not_mem_nil

/-- Every scene that is attained is settled. -/
theorem Attained.settled (h : Attained run σ) : σ.Settled := by
  obtain ⟨config, acts, hrun⟩ := h
  exact hrun.settled (settled_initial config)

/-! ## Bound for good -/

theorem Does.of_declare {b : Binding} (h : Does run σ (.deed (.declare s x b)) σ')
    (alive : σ.Alive s) : σ'.binding? s x = some b ∧ b.deletable = false := by
  obtain ⟨step⟩ := h
  cases step with
  | declare _ _ declared =>
    obtain ⟨c, hc⟩ := alive
    refine ⟨?_, declared.not_deletable⟩
    rw [binding?_rescope, Scopes.binding?_declare b hc, if_pos ⟨rfl, rfl⟩]

/-- What cannot be deleted stays, all along a run. -/
theorem Acts.lasting (h : Acts run σ acts σ') (hσ : σ.Settled) {b : Binding}
    (hb : σ.binding? s x = some b) (kept : b.deletable = false) :
    ∃ b', σ'.binding? s x = some b' ∧ b'.deletable = false := by
  induction h generalizing b with
  | nil => exact ⟨b, hb, kept⟩
  | cons first _ ih =>
    have turn := first.turn hσ s x
    rw [hb] at turn
    obtain ⟨b', hb', kept'⟩ := turn.lasting kept
    exact ih (first.settled hσ) hb' kept'

/-- The name is bound in the scope, and to delete it through a reference fails silently. -/
def Fixed (run : Runner) (σ : Scene) (s : ScopeId) (x : Atom) : Prop :=
  (∃ b, σ.binding? s x = some b) ∧
    ∀ strict, (deleteReference run (.binding (some s) x strict)).on σ.world = (.ok false, σ.world)

theorem fixed_of_not_deletable {b : Binding} (hb : σ.binding? s x = some b)
    (kept : b.deletable = false) : σ.Fixed run s x := by
  have held : σ.world.scopes.releases s x = false := by
    rw [Scopes.releases, show σ.world.scopes.binding? s x = some b from hb]
    exact kept
  exact ⟨⟨b, hb⟩, fun strict => on_deleteReference_of_kept run σ.world x strict held⟩

/-- What can be deleted, in any scene that a program and its host can reach: only a variable that
    has its value, in a scope that is in no other one.

    What is bound in an inner scope, and what cannot be deleted, stays so whatever is done next, and
    to delete it answers that it is still there and changes nothing. That holds of a declared name
    from its declaration on, wherever it is declared. -/
theorem bound_for_good (hσ : σ.Attained run) :
    (∀ s x b, σ.binding? s x = some b → b.deletable = true →
      b.kind = .var ∧ b.initialised = true ∧ σ.world.scopes.parent? s = none) ∧
    (∀ s x b, σ.binding? s x = some b →
      σ.world.scopes.parent? s ≠ none ∨ b.deletable = false →
      ∀ acts σ', Acts run σ acts σ' → σ'.Fixed run s x) ∧
    (∀ s x b, σ.Alive s →
      ∀ acts σ', Acts run σ (.deed (.declare s x b) :: acts) σ' → σ'.Fixed run s x) := by
  have settled := hσ.settled
  refine ⟨fun s x b hb hd => ?_, fun s x b hb held acts σ' hrun => ?_,
    fun s x b alive acts σ' hrun => ?_⟩
  · obtain ⟨var, initialised⟩ := settled.sound s x b hb hd
    exact ⟨var, initialised, settled.outermost s x b hb hd⟩
  · have kept : b.deletable = false := held.elim (settled.not_deletable hb) id
    obtain ⟨b', hb', kept'⟩ := hrun.lasting settled hb kept
    exact fixed_of_not_deletable hb' kept'
  · cases hrun with
    | cons first rest =>
      obtain ⟨bound, kept⟩ := first.of_declare alive
      obtain ⟨b', hb', kept'⟩ := rest.lasting (first.settled settled) bound kept
      exact fixed_of_not_deletable hb' kept'

/-- A host makes a variable of the global scope from within an inner one, where the name is then
    declared and resolved. What was made in passing can be deleted; the declared name outlasts the
    delete and the write through the reference to it. -/
theorem bound_for_good_of_shadowed :
    let run := runnerAt (callerAt 1) 1
    let x : Atom := .text "x"
    let s : ScopeId := ⟨1⟩
    let r : Reference := .binding (some s) x false
    ∃ σ σ' : Scene, σ.Attained run ∧
      Acts run σ [.deed (.delete r), .deed (.write r .null)] σ' ∧
      σ.binding? globalScope x = some (.implicit .null) ∧
      σ.world.scopes.parent? globalScope = none ∧
      σ.world.scopes.parent? s = some globalScope ∧ σ'.Fixed run s x := by
  intro run x s r
  let start : Scene := ⟨World.initial {}, []⟩
  let inside := start.rescope (start.world.scopes.alloc (some globalScope)).2
  let bound := inside.rescope (inside.world.scopes.createGlobal s x .null)
  let declared := bound.rescope (bound.world.scopes.declare s x (.var .undefined))
  let σ : Scene := { declared with references := [r] }
  let deleted : Scene := { σ with world := ((deleteReference run r).on σ.world).2 }
  let σ' : Scene := { deleted with world := ((writeReference run r .null).on deleted.world).2 }
  have attained : σ.Attained run := by
    have entered : Does run start (.deed (.enter globalScope)) inside :=
      .deed (.enter start globalScope) fun p e => ⟨{ parent := none }, by cases e; rfl⟩
    have resolved : Does run declared (.deed (.resolve s x false)) σ :=
      .deed (.resolve declared s x false) nofun
    exact ⟨{}, _, .cons entered <| .cons (.createGlobal inside s x .null) <|
      .cons (.deed (.declare bound s x (.var .undefined)) nofun) <| .cons resolved (.nil σ)⟩
  have rest : Acts run σ [.deed (.delete r), .deed (.write r .null)] σ' :=
    .cons (.deed (.delete (.head _)) nofun) (.cons (.deed (.write (.head _) .null) nofun) (.nil σ'))
  obtain ⟨deletable, fixed, -⟩ := bound_for_good attained
  exact ⟨σ, σ', attained, rest, rfl, (deletable globalScope x (.implicit .null) rfl rfl).2.2, rfl,
    fixed s x (.var .undefined) rfl (.inl nofun) _ _ rest⟩

end Scene

end Lvalue
