import Lvalue.Proofs.Staleness

/-!
# Implicit globals

A name that no scope on the way outwards binds means nothing. A write to it that is not strict
makes a binding at the other end of the way, in the global scope. From then on the name means this
binding in all scopes of the tree that do not have another one nearer.

To delete it there takes the write back, to the last detail (`implicit_global_round_trip`): the
binding was put in last, so that not even the order of the others tells that it has been there.
-/

namespace Lvalue

namespace Scopes

variable {t t' : Scopes} {s u : ScopeId} {x : Atom} {b : Binding}

/-! ## The way outwards -/

theorem walk_none (t : Scopes) (n : Nat) : t.walk n none = [] := by cases n <;> rfl

/-- In the same tree, the same walks are made. -/
theorem SameTree.walk (h : t.SameTree t') (n : Nat) (start : Option ScopeId) :
    t'.walk n start = t.walk n start := by
  induction n generalizing start with
  | zero => rfl
  | succ n ih =>
    cases start with
    | none => rfl
    | some s => rw [Scopes.walk, Scopes.walk, h.parent?, ih]

/-- A walk out of a scope that is there meets scopes that are there. -/
theorem Rooted.alive_of_mem_walk (h : t.Rooted) {n : Nat} (hs : t.Alive s)
    (mem : u ∈ t.walk n (some s)) : t.Alive u := by
  induction n generalizing s with
  | zero => cases mem
  | succ n ih =>
    rcases List.mem_cons.1 mem with rfl | mem
    · exact hs
    · cases hp : t.parent? s with
      | none => simp [hp, walk_none] at mem
      | some p => exact ih (h s p hp).1 (hp ▸ mem)

/-- A walk that ends at the global scope comes to it only at the end. -/
theorem Rooted.walk_eq_append (h : t.Rooted) {n : Nat}
    (last : (t.walk n (some s)).getLast? = some globalScope) :
    ∃ inner, t.walk n (some s) = inner ++ [globalScope] ∧ globalScope ∉ inner := by
  induction n generalizing s with
  | zero => cases last
  | succ n ih =>
    rw [walk] at last ⊢
    cases hp : t.parent? s with
    | none =>
      rw [hp, walk_none] at last
      obtain rfl : s = globalScope := Option.some.inj last
      exact ⟨[], by rw [walk_none, List.nil_append], List.not_mem_nil⟩
    | some p =>
      have inner : globalScope ≠ s := by
        rintro rfl
        exact Nat.not_lt_zero _ (h _ p hp).2
      rw [hp, List.getLast?_cons] at last
      cases end' : (t.walk n (some p)).getLast? with
      | none =>
        rw [end'] at last
        exact absurd (Option.some.inj last).symm inner
      | some root =>
        rw [end'] at last
        obtain ⟨rest, walk, outside⟩ := ih (end'.trans last)
        exact ⟨s :: rest, by rw [walk, List.cons_append], by simp [inner, outside]⟩

/-- The scope belongs to the tree around which there is the global scope. -/
structure Inside (t : Scopes) (s : ScopeId) : Prop where
  alive : t.Alive s
  outermost : t.outermost s = globalScope

/-- To be inside is told by the tree. -/
theorem Inside.of_sameTree (h : t.Inside s) (same : t.SameTree t') : t'.Inside s where
  alive := same.alive.2 h.alive
  outermost := by rw [Scopes.outermost, chain, same.walk]; exact h.outermost

/-- A chain out of a scope inside ends in the global scope, which it meets but once. -/
theorem Inside.chain_eq_append (h : t.Inside s) (rooted : t.Rooted) :
    ∃ inner, t.chain s = inner ++ [globalScope] ∧ globalScope ∉ inner := by
  refine rooted.walk_eq_append ?_
  obtain ⟨root, last, -⟩ := rooted.getLast?_walk (Nat.lt_succ_self s.serial)
  have outermost : t.outermost s = root := by rw [Scopes.outermost, chain, last, Option.getD_some]
  rw [last, ← outermost, h.outermost]

theorem Inside.globalScope_mem_chain (h : t.Inside s) (rooted : t.Rooted) :
    globalScope ∈ t.chain s := by
  obtain ⟨inner, chain, -⟩ := h.chain_eq_append rooted
  simp [chain]

/-! ## What a name means -/

/-- A name is unresolvable if no scope around binds it. -/
theorem resolve_eq_none_iff : t.resolve s x = none ↔ ∀ u ∈ t.chain s, t.binding? u x = none := by
  simp [resolve]

/-- The scope binds the name, and no scope before it does, going outwards from `s`. -/
def Nearest (t : Scopes) (s : ScopeId) (x : Atom) (u : ScopeId) : Prop :=
  ∃ inner outer, t.chain s = inner ++ u :: outer ∧ (∃ b, t.binding? u x = some b) ∧
    ∀ u' ∈ inner, t.binding? u' x = none

/-- A name is resolved to the nearest scope that binds it. -/
theorem nearest_of_resolve (h : t.resolve s x = some u) : t.Nearest s x u := by
  obtain ⟨bound, inner, outer, chain, unbound⟩ := List.find?_eq_some_iff_append.1 h
  exact ⟨inner, outer, chain, Option.isSome_iff_exists.1 bound, by simpa using unbound⟩

/-- A name of the global scope means the nearest scope that binds it. That is the global scope
    itself if no inner one does. -/
theorem Inside.resolve (h : t.Inside s) (rooted : t.Rooted)
    (global : t.binding? globalScope x = some b) :
    ∃ u, t.resolve s x = some u ∧ t.Nearest s x u ∧
      (u = globalScope ↔ ∀ u' ∈ t.chain s, u' ≠ globalScope → t.binding? u' x = none) := by
  obtain ⟨inner, chain, outside⟩ := h.chain_eq_append rooted
  -- The walk outwards ends in the global scope at the latest, for the name is bound there.
  have split : t.resolve s x =
      (inner.find? fun u => (t.binding? u x).isSome).or (some globalScope) := by
    rw [Scopes.resolve, chain, List.find?_append]
    simp [global]
  cases found : inner.find? fun u => (t.binding? u x).isSome with
  | none =>
    have means : t.resolve s x = some globalScope := by rw [split, found, Option.none_or]
    refine ⟨globalScope, means, nearest_of_resolve means, iff_of_true rfl fun u mem other => ?_⟩
    rw [chain] at mem
    have inside : u ∈ inner := by simpa [other] using mem
    simpa using List.find?_eq_none.1 found u inside
  | some u =>
    have means : t.resolve s x = some u := by rw [split, found, Option.some_or]
    have inside : u ∈ inner := List.mem_of_find?_eq_some found
    have other : u ≠ globalScope := fun e => outside (e ▸ inside)
    obtain ⟨b', bound⟩ := binding?_of_resolve means
    refine ⟨u, means, nearest_of_resolve means, iff_of_false other fun unbound => ?_⟩
    have gone := unbound u (by simp [chain, inside]) other
    cases gone.symm.trans bound

/-! ## Bindings made in passing -/

theorem rebind_rebind (t : Scopes) (s : ScopeId) (f g : Table Atom Binding → Table Atom Binding) :
    (t.rebind s f).rebind s g = t.rebind s fun bindings => g (f bindings) := by
  simp only [rebind, Table.modify_modify]

/-- Where the bindings stay as they are, so does everything. -/
theorem rebind_of_fixed {f : Table Atom Binding → Table Atom Binding}
    (h : ∀ c, t.get? s = some c → f c.bindings = c.bindings) : t.rebind s f = t := by
  have same : (t.table.modify s fun c => { c with bindings := f c.bindings }) = t.table :=
    Table.modify_of_fixed fun c hc => by rw [h c hc]
  simp only [rebind, same]

/-- What can be deleted and was bound last leaves no trace. -/
theorem delete_declare (unbound : t.binding? s x = none) (deletable : b.deletable = true) :
    (t.declare s x b).delete s x = t := by
  have releases : (t.declare s x b).releases s x = true := by
    rw [Scopes.releases]
    by_cases alive : t.Alive s
    · obtain ⟨c, hc⟩ := alive
      rw [binding?_declare b hc, if_pos ⟨rfl, rfl⟩]
      exact deletable
    · have gone : ¬(t.declare s x b).Alive s := mt (sameTree_rebind _).alive.1 alive
      rw [binding?_of_not_alive gone]
      rfl
  rw [delete, if_pos releases, declare, rebind_rebind]
  refine rebind_of_fixed fun c hc => Table.erase_insert b ?_
  rwa [binding?, hc] at unbound

/-- A write to a global name that is bound nowhere is like one to a name of the global scope. -/
theorem createGlobal_of_unbound (unbound : t.binding? globalScope x = none) (v : Value) :
    t.createGlobal globalScope x v = t.written globalScope x v false := by
  have root : t.outermost globalScope = globalScope := rfl
  rw [written_of_unbound unbound, createGlobal, root, unbound]
  rfl

end Scopes

/-! ## There and back -/

/-- A name that is bound nowhere around a scope of the global tree, and the references to it.

    They are to nothing. A strict write through them fails and changes nothing. One that is not
    strict succeeds, and changes the binding of the name in the global scope only.

    After it the name means, in every scope of the tree, the nearest one that binds it, and this is
    the global scope if no scope further in binds it. Where it is, the value is read, and to delete
    the name leaves the very world in which it was bound nowhere. -/
theorem implicit_global_round_trip {w : World} {s : ScopeId} {x : Atom}
    (rooted : w.scopes.Rooted) (inside : w.scopes.Inside s)
    (unbound : ∀ u ∈ w.scopes.chain s, w.scopes.binding? u x = none) (v : Value) :
    let r (w : World) (s : ScopeId) (strict : Bool) : Reference :=
      .binding (w.scopes.resolve s x) x strict
    (∀ strict, (r w s strict).isUnresolvable) ∧
      (∀ run, (writeReference run (r w s true) v).on w =
        (.error (.raised (.unbound (Spelling.full x))), w)) ∧
      ∃ w', (∀ run, (writeReference run (r w s false) v).on w = (.ok (), w')) ∧
        w.Bound globalScope x v w' ∧
        (∀ u, u ≠ globalScope → w'.scopes.get? u = w.scopes.get? u) ∧
        ∀ t, w.scopes.Inside t → ∃ u, w'.scopes.resolve t x = some u ∧
          w'.scopes.Nearest t x u ∧
          (u = globalScope ↔
            ∀ u' ∈ w'.scopes.chain t, u' ≠ globalScope → w'.scopes.binding? u' x = none) ∧
          (u = globalScope → ∀ run strict,
            (readReference run (r w' t strict)).on w' = (.ok v, w') ∧
              (deleteReference run (r w' t strict)).on w' = (.ok true, w)) := by
  intro r
  have global := inside.globalScope_mem_chain rooted
  have alive : w.scopes.Alive globalScope := rooted.alive_of_mem_walk inside.alive global
  have gone : w.scopes.binding? globalScope x = none := unbound _ global
  have nothing : w.scopes.resolve s x = none := Scopes.resolve_eq_none_iff.2 unbound
  -- As nothing is bound around `s`, nothing is in the global scope, and the write declares the
  -- name.
  let w' : World := { w with scopes := w.scopes.written globalScope x v false }
  have bound : w.Bound globalScope x v w' := World.bound_of_written alive (by rw [gone]; rfl)
  have here : w'.scopes.binding? globalScope x = some (.implicit v) := by rw [bound.here, gone]; rfl
  have declared : w'.scopes = w.scopes.declare globalScope x (.implicit v) :=
    Scopes.written_of_unbound gone v false
  refine ⟨fun strict => ?_, fun run => ?_, w', fun run => ?_, bound, fun u other => ?_,
    fun t inside' => ?_⟩
  · simp only [r, nothing, Reference.isUnresolvable]
  · simp only [r, nothing]
    rfl
  · simp only [r, nothing, w', ← Scopes.createGlobal_of_unbound gone v]
    rfl
  · rw [declared, Scopes.declare, Scopes.get?_rebind, if_neg other.symm]
  · obtain ⟨u, means, nearest, iff⟩ :=
      (inside'.of_sameTree bound.tree).resolve (rooted.of_sameTree bound.tree) here
    refine ⟨u, means, nearest, iff, ?_⟩
    rintro rfl run strict
    refine ⟨?_, ?_⟩
    · simp only [r, means]
      exact on_readReference_of_initialised here rfl run strict
    · have releases : w'.scopes.releases globalScope x = true := by rw [Scopes.releases, here]; rfl
      have undone : w'.scopes.delete globalScope x = w.scopes := by
        rw [declared]
        exact Scopes.delete_declare gone rfl
      simp only [r, means]
      exact Prod.ext (congrArg Except.ok releases)
        (congrArg (fun t => { w with scopes := t }) undone)

/-- Two scopes in the global one, of which the second has a variable of its own. From within the
    first the name is made a global one; the second keeps to its own, and what was made can be
    deleted from the first. -/
theorem implicit_global_round_trip_of_sibling :
    let x : Atom := .text "x"
    let inner : ScopeId := ⟨1⟩
    let sibling : ScopeId := ⟨2⟩
    let scopes := (((World.initial {}).scopes.alloc (some globalScope)).2.alloc
      (some globalScope)).2.declare sibling x (.var .undefined)
    let w : World := { World.initial {} with scopes }
    scopes.Rooted ∧ scopes.Inside inner ∧ (∀ u ∈ scopes.chain inner, scopes.binding? u x = none) ∧
      ∃ w', (∀ run, (writeReference run (.binding none x false) .null).on w = (.ok (), w')) ∧
        w'.scopes.resolve inner x = some globalScope ∧
        w'.scopes.resolve sibling x ≠ some globalScope ∧
        ∀ run strict, (readReference run (.binding (some globalScope) x strict)).on w' =
            (.ok .null, w') ∧
          (deleteReference run (.binding (some globalScope) x strict)).on w' = (.ok true, w) := by
  intro x inner sibling scopes w
  have alive : (World.initial {}).scopes.Alive globalScope := ⟨_, rfl⟩
  have leaf {t : Scopes} (rooted : t.Rooted) (alive : t.Alive globalScope) :
      (t.alloc (some globalScope)).2.Rooted := rooted.alloc fun p e => by cases e; exact alive
  have rooted : scopes.Rooted :=
    (leaf (leaf (Scene.settled_initial {}).rooted alive) (Scopes.alive_alloc alive _)).of_sameTree
      (Scopes.sameTree_rebind _)
  have inside : scopes.Inside inner := ⟨⟨_, rfl⟩, by decide +kernel⟩
  have beside : scopes.Inside sibling := ⟨⟨_, rfl⟩, by decide +kernel⟩
  have unbound : ∀ u ∈ scopes.chain inner, scopes.binding? u x = none := by decide +kernel
  have nothing : scopes.resolve inner x = none := by decide +kernel
  obtain ⟨-, -, w', writes, bound, -, after⟩ :=
    implicit_global_round_trip (w := w) rooted inside unbound .null
  have chain (s : ScopeId) : w'.scopes.chain s = scopes.chain s := bound.tree.walk _ _
  obtain ⟨u, means, -, iff, uses⟩ := after inner inside
  obtain ⟨u', means', -, iff', -⟩ := after sibling beside
  obtain rfl : u = globalScope := iff.2 fun u mem other => by
    rw [bound.others u x (.inl other)]
    exact unbound u (chain inner ▸ mem)
  have kept : u' ≠ globalScope := fun e => by
    have gone := iff'.1 e sibling (by rw [chain]; decide +kernel) (by decide)
    rw [bound.others sibling x (.inl (by decide))] at gone
    exact absurd gone (by decide +kernel)
  simp only [means, forall_const] at uses
  refine ⟨rooted, inside, unbound, w', fun run => ?_, means, ?_, uses⟩
  · rw [← nothing]
    exact writes run
  · rw [means']
    exact fun e => kept (Option.some.inj e)

end Lvalue
