import Lvalue.Proofs.Ownership
import Lvalue.Proofs.Watch

/-!
# Life spans

Objects and scopes are alive as long as something holds them: a root of the world, or
another object or scope that is alive. In every world that a run comes to, what is held
in one of these ways is alive, and what is alive is held in one of them
(`World.Owned`); what is dead is designated by weak handles and keys of weak maps alone,
and never comes back (`World.Outlives`).

The ways to hold are listed here one by one (`World.Holds`, `World.Root`).
-/

namespace Lvalue

open Bearer Eval

/-! ## Ways to hold -/

/-- What a reference holds: its value or base, the `this` that it was given, the object
    that names the property, and the scope of a name. -/
inductive Reference.Holds : Reference → Thing → Prop
  | value (o : ObjectId) : Holds (.value (.object o)) (.object o)
  | base (o : ObjectId) (k : Key) (this : Option Value) (strict : Bool) :
    Holds (.member (.object o) k this strict) (.object o)
  | this (base : Value) (k : Key) (o : ObjectId) (strict : Bool) :
    Holds (.member base k (some (.object o)) strict) (.object o)
  | abstractBase (o name : ObjectId) (strict : Bool) :
    Holds (.abstractMember (.object o) name strict) (.object o)
  | name (base : Value) (o : ObjectId) (strict : Bool) :
    Holds (.abstractMember base o strict) (.object o)
  | scope (s : ScopeId) (x : Atom) (strict : Bool) :
    Holds (.binding (some s) x strict) (.scope s)

namespace World

/-- What an object or a scope holds. -/
inductive Holds (w : World) : Thing → Thing → Prop
  | prototype {o p : ObjectId} (h : w.heap.prototype? o = some p) : Holds w (.object o) (.object p)
  | value {o v : ObjectId} {k : Key} {p : Property} {writable : Bool}
    (h : w.heap.own? o k = some p) (is : p.slot = .data (.object v) writable) :
    Holds w (.object o) (.object v)
  | getter {o g : ObjectId} {k : Key} {p : Property} {setter : Option ObjectId}
    (h : w.heap.own? o k = some p) (is : p.slot = .accessor (some g) setter) :
    Holds w (.object o) (.object g)
  | setter {o g : ObjectId} {k : Key} {p : Property} {getter : Option ObjectId}
    (h : w.heap.own? o k = some p) (is : p.slot = .accessor getter (some g)) :
    Holds w (.object o) (.object g)
  | wrapped {o v : ObjectId} (h : w.heap.kind? o = some (.wrapper (.object v))) :
    Holds w (.object o) (.object v)
  | mapKey {m k : ObjectId} {entries : Entries} (h : w.heap.kind? m = some (.map entries))
    (mem : .object k ∈ entries.table.keys) : Holds w (.object m) (.object k)
  | mapValue {m v : ObjectId} {k : Value} {entries : Entries}
    (h : w.heap.kind? m = some (.map entries)) (entry : entries.table.get? k = some (.object v)) :
    Holds w (.object m) (.object v)
  /-- A weak map holds its values, and be it that the key is dead. -/
  | weakValue {m k v : ObjectId} {entries : WeakEntries}
    (h : w.heap.kind? m = some (.weakMap entries)) (entry : entries.get? k = some (.object v)) :
    Holds w (.object m) (.object v)
  | binding {s : ScopeId} {x : Atom} {b : Binding} {v : ObjectId}
    (h : w.scopes.binding? s x = some b) (is : b.value = .object v) :
    Holds w (.scope s) (.object v)
  | parent {s p : ScopeId} (h : w.scopes.parent? s = some p) : Holds w (.scope s) (.scope p)

/-- What is held from outside. -/
inductive Root (w : World) : Thing → Prop
  | intrinsic (i : Intrinsic) : Root w (.object i.id)
  | global : Root w (.scope globalScope)
  /-- An object with a handler. -/
  | target {o : ObjectId} {h : Handler} (entry : w.registry.get? o = some h) : Root w (.object o)
  | register {name : String} {o : ObjectId} (h : w.handles.registers.get? name = some (.object o)) :
    Root w (.object o)
  /-- A register of a running body. -/
  | frame {frame : Table String Value} {name : String} {o : ObjectId}
    (running : frame ∈ w.handles.frames) (h : frame.get? name = some (.object o)) :
    Root w (.object o)
  | scope {name : String} {s : ScopeId} (h : w.handles.scopes.get? name = some s) :
    Root w (.scope s)
  | reference {name : String} {r : Reference} {t : Thing}
    (h : w.handles.references.get? name = some r) (held : r.Holds t) : Root w t
  /-- What a running operation works on. -/
  | operand {r : Reference} {t : Thing} (running : r ∈ w.handles.operands) (held : r.Holds t) :
    Root w t

end World

theorem Reference.holds_iff {r : Reference} {t : Thing} : r.Holds t ↔ t ∈ things r := by
  constructor
  · intro h
    cases h <;> simp
  · intro h
    cases r with
    | value v =>
      obtain ⟨o, rfl, rfl⟩ := mem_things_value.1 (things_value v ▸ h)
      exact .value o
    | binding s x strict =>
      cases s with
      | none => exact absurd h List.not_mem_nil
      | some s =>
        obtain rfl := List.mem_singleton.1 (things_some s ▸ things_binding (some s) x strict ▸ h)
        exact .scope s x strict
    | member base k this strict =>
      rw [things_member, List.mem_append] at h
      rcases h with h | h
      · obtain ⟨o, rfl, rfl⟩ := mem_things_value.1 h
        exact .base o k this strict
      · cases this with
        | none => exact absurd h List.not_mem_nil
        | some v =>
          obtain ⟨o, rfl, rfl⟩ := mem_things_value.1 (things_some v ▸ h)
          exact .this base k o strict
    | abstractMember base name strict =>
      rw [things_abstractMember, List.mem_append] at h
      rcases h with h | h
      · obtain ⟨o, rfl, rfl⟩ := mem_things_value.1 h
        exact .abstractBase o name strict
      · obtain rfl := List.mem_singleton.1 h
        exact .name base name strict

namespace World

variable {w : World} {t t' : Thing}

/-- The ways in which a kind of object holds others. -/
theorem holds_of_kind {o : ObjectId} {kind : Kind} (is : w.heap.kind? o = some kind)
    (h : t ∈ things kind) : w.Holds (.object o) t := by
  cases kind with
  | ordinary | function => exact absurd h List.not_mem_nil
  | map entries =>
    rcases things_map.1 h with h | h <;> obtain ⟨v, mem, ht⟩ := mem_things.1 h <;>
      obtain ⟨o, rfl, rfl⟩ := mem_things_value.1 ht
    · exact .mapKey is mem
    · obtain ⟨k, entry⟩ := Table.mem_values.1 mem
      exact .mapValue is entry
  | weakMap entries =>
    obtain ⟨v, mem, ht⟩ := mem_things.1 (things_weakMap.1 h)
    obtain ⟨o, rfl, rfl⟩ := mem_things_value.1 ht
    obtain ⟨k, entry⟩ := Table.mem_values.1 mem
    exact .weakValue is entry
  | wrapper v =>
    obtain ⟨o, rfl, rfl⟩ := mem_things_value.1 h
    exact .wrapped is

theorem holds_of_property {o : ObjectId} {k : Key} {p : Property} (hp : w.heap.own? o k = some p)
    (h : t ∈ things p) : w.Holds (.object o) t := by
  obtain ⟨⟨v, writable⟩ | ⟨getter, setter⟩, enumerable, configurable⟩ := p
  · obtain ⟨o, rfl, rfl⟩ := mem_things_value.1 (things_data v writable enumerable configurable ▸ h)
    exact .value hp rfl
  · rw [things_accessor, List.mem_append] at h
    rcases h with h | h
    · cases getter with
      | none => exact absurd h List.not_mem_nil
      | some g => exact List.mem_singleton.1 h ▸ .getter hp rfl
    · cases setter with
      | none => exact absurd h List.not_mem_nil
      | some g => exact List.mem_singleton.1 h ▸ .setter hp rfl

/-- The list of the ways to hold is complete, and each of them is one. -/
theorem holds_iff : w.Holds t t' ↔ t' ∈ w.holds t := by
  -- One way to hold after the other; conversely, the fields of an object or a scope in turn.
  constructor
  · intro h
    cases h with
    | prototype h => exact mem_holds_of_prototype h
    | value h is | getter h is | setter h is =>
      refine mem_holds_of_own h ?_
      simp [things, Property.objects, is, Value.object?]
    | wrapped h => exact mem_holds_of_kind h (List.mem_singleton_self _)
    | mapKey h mem =>
      exact mem_holds_of_kind h
        (things_map.2 (.inl (mem_things.2 ⟨_, mem, List.mem_singleton_self _⟩)))
    | mapValue h entry =>
      exact mem_holds_of_kind h
        (things_map.2 (.inr (things_of_get? entry (List.mem_singleton_self _))))
    | weakValue h entry =>
      exact mem_holds_of_kind h (things_weakEntry entry (List.mem_singleton_self _))
    | binding h is => exact mem_holds_of_binding h (by simp [is])
    | parent h => exact mem_holds_of_parent h
  · intro h
    rcases mem_holds.1 h with ⟨o, x, rfl, hx, ht⟩ | ⟨s, c, rfl, hc, ht⟩
    · rw [things_properties, List.mem_append, List.mem_append] at ht
      rcases ht with (ht | ht) | ht
      · exact holds_of_kind (by rw [Heap.kind?, hx, Option.map_some]) ht
      · cases hp : x.prototype with
        | none => exact absurd (hp ▸ ht) List.not_mem_nil
        | some p =>
          rw [hp, things_some] at ht
          have inherits : w.heap.prototype? o = some p := by
            rw [Heap.prototype?, hx, Option.bind_some, hp]
          exact List.mem_singleton.1 ht ▸ .prototype inherits
      · obtain ⟨p, mem, ht⟩ := mem_things.1 ht
        obtain ⟨k, hp⟩ := Table.mem_values.1 mem
        exact holds_of_property (by rw [Heap.own?, hx, Option.bind_some, hp]) ht
    · rcases mem_things_scope.1 ht with ht | ht
      · cases hp : c.parent with
        | none => exact absurd (hp ▸ ht) List.not_mem_nil
        | some p =>
          rw [hp, things_some] at ht
          exact List.mem_singleton.1 ht ▸ .parent (by rw [Scopes.parent?, hc, Option.bind_some, hp])
      · obtain ⟨b, mem, ht⟩ := mem_things.1 ht
        obtain ⟨x, hb⟩ := Table.mem_values.1 mem
        obtain ⟨o, is, rfl⟩ := mem_things_value.1 (show t' ∈ things b.value from ht)
        exact .binding (by rw [Scopes.binding?, hc, Option.bind_some, hb]) is

@[inherit_doc holds_iff]
theorem root_iff : w.Root t ↔ t ∈ w.anchors := by
  simp only [anchors, List.mem_append, mem_things_handles]
  constructor
  · intro h
    cases h with
    | intrinsic i => exact .inl (.inl (.inl (mem_things_intrinsics i)))
    | global => exact .inl (.inr (List.mem_singleton_self _))
    | target entry =>
      refine .inl (.inl (.inr (mem_things.2 ⟨_, ?_, List.mem_singleton_self _⟩)))
      exact Table.contains_iff_mem_keys.1 (by rw [Table.contains, entry]; rfl)
    | register h => exact .inr (.inl (things_of_get? h (List.mem_singleton_self _)))
    | frame running h =>
      exact .inr (.inr (.inl ⟨_, running, things_of_get? h (List.mem_singleton_self _)⟩))
    | scope h =>
      exact .inr (.inr (.inr (.inr (.inl (things_of_get? h (List.mem_singleton_self _))))))
    | reference h held =>
      exact .inr (.inr (.inr (.inl (things_of_get? h (Reference.holds_iff.1 held)))))
    | operand running held =>
      exact .inr (.inr (.inr (.inr (.inr (mem_things.2 ⟨_, running, Reference.holds_iff.1 held⟩)))))
  · have table {κ : Type} [DecidableEq κ] {vs : Table κ Value} (h : t ∈ things vs.values) :
        ∃ k o, vs.get? k = some (.object o) ∧ t = .object o := by
      obtain ⟨v, mem, ht⟩ := mem_things.1 h
      obtain ⟨o, rfl, rfl⟩ := mem_things_value.1 ht
      obtain ⟨k, hk⟩ := Table.mem_values.1 mem
      exact ⟨k, o, hk, rfl⟩
    rintro (((h | h) | h) | h | ⟨frame, running, h⟩ | h | h | h)
    · obtain ⟨o, mem, ht⟩ := mem_things.1 h
      obtain ⟨i, -, rfl⟩ := List.mem_map.1 mem
      exact List.mem_singleton.1 ht ▸ .intrinsic i
    · obtain ⟨o, mem, ht⟩ := mem_things.1 h
      obtain ⟨h, entry⟩ := Option.isSome_iff_exists.1 (Table.contains_iff_mem_keys.2 mem)
      exact List.mem_singleton.1 ht ▸ .target entry
    · exact List.mem_singleton.1 h ▸ .global
    · obtain ⟨name, o, held, rfl⟩ := table h
      exact .register held
    · obtain ⟨name, o, held, rfl⟩ := table h
      exact .frame running held
    · obtain ⟨r, mem, ht⟩ := mem_things.1 h
      obtain ⟨name, h⟩ := Table.mem_values.1 mem
      exact .reference h (Reference.holds_iff.2 ht)
    · obtain ⟨s, mem, ht⟩ := mem_things.1 h
      obtain ⟨name, h⟩ := Table.mem_values.1 mem
      exact List.mem_singleton.1 ht ▸ .scope h
    · obtain ⟨r, running, ht⟩ := mem_things.1 h
      exact .operand running (Reference.holds_iff.2 ht)

/-! ## Intact worlds -/

/-- Nothing is held that is not there. -/
abbrev Intact (w : World) : Prop := w.Sealed fun _ => False

theorem heap_initial (config : Config) : (initial config).heap = .initial := by
  rw [initial]
  split <;> rfl

theorem scopes_initial (config : Config) :
    (initial config).scopes = (({} : Scopes).alloc none).2 := by
  rw [initial]
  split <;> rfl

/-- At first, all that is held from outside are the intrinsic objects and the outermost scope. -/
theorem anchors_initial (config : Config) {t : Thing} (h : t ∈ (initial config).anchors) :
    (∃ i : Intrinsic, t = .object i.id) ∨ t = .scope globalScope := by
  have handles : (initial config).handles = {} := by
    rw [initial]
    split <;> rfl
  have targets : ∀ o ∈ (initial config).registry.keys, ∃ i : Intrinsic, o = i.id := by
    intro o ho
    rw [initial] at ho
    split at ho
    · have : o ∈ [Intrinsic.function.id, Intrinsic.map.id, Intrinsic.weakMap.id] := ho
      simp only [List.mem_cons, List.not_mem_nil, or_false] at this
      rcases this with rfl | rfl | rfl <;> exact ⟨_, rfl⟩
    · exact absurd ho List.not_mem_nil
  rw [anchors, handles] at h
  simp only [List.mem_append, or_assoc] at h
  rcases h with h | h | h | h
  · obtain ⟨o, mem, ht⟩ := mem_things.1 h
    obtain ⟨i, -, rfl⟩ := List.mem_map.1 mem
    exact .inl ⟨i, List.mem_singleton.1 ht⟩
  · obtain ⟨o, mem, ht⟩ := mem_things.1 h
    obtain ⟨i, rfl⟩ := targets o mem
    exact .inl ⟨i, List.mem_singleton.1 ht⟩
  · exact .inr (List.mem_singleton.1 h)
  · exact absurd h List.not_mem_nil

theorem intact_initial (config : Config) : (initial config).Intact := by
  have objects : ∀ x ∈ Heap.initial.objects.values,
      x.kind.weakKeys = [] ∧ ∀ t ∈ things x, t = .object Intrinsic.object.id := by decide
  have scopes : ∀ c ∈ (({} : Scopes).alloc none).2.table.values, things c = [] := by decide
  have intrinsic (i : Intrinsic) : (initial config).Present (.object i.id) := by
    rw [Present, heap_initial]
    cases i <;> decide
  refine
    { anchors := fun t ht => ⟨?_, id⟩
      holds := fun t _ t' held => ⟨?_, id⟩
      past := nofun
      designates := fun o designated => ?_
      sterile := fun S supported t ht => (supported t ht).1 }
  · rcases anchors_initial config ht with ⟨i, rfl⟩ | rfl
    · exact intrinsic i
    · rw [Present, scopes_initial]
      decide
  · rcases mem_holds.1 held with ⟨o, x, rfl, hx, ht⟩ | ⟨s, c, rfl, hc, ht⟩
    · rw [heap_initial] at hx
      rw [(objects x (Table.mem_values.2 ⟨o, hx⟩)).2 t' ht]
      exact intrinsic .object
    · rw [scopes_initial] at hc
      exact absurd (scopes c (Table.mem_values.2 ⟨s, hc⟩) ▸ ht) List.not_mem_nil
  · rcases designated with mem | ⟨m, x, hx, mem⟩
    · rw [initial] at mem
      split at mem <;> exact absurd mem List.not_mem_nil
    · rw [heap_initial] at hx
      exact absurd ((objects x (Table.mem_values.2 ⟨m, hx⟩)).1 ▸ mem) List.not_mem_nil

/-- What is held is alive, and what is alive is held; and what weak handles and keys of weak
    maps designate is alive or dead, but was there. -/
structure Owned (w : World) : Prop where
  live_iff : ∀ t, w.Live t ↔ w.Root t ∨ ∃ t', w.Live t' ∧ w.Holds t' t
  designated : ∀ o, w.Designates o → w.Live (.object o) ∨ w.Dead (.object o)

theorem Sealed.owned (hw : w.Intact) : w.Owned where
  live_iff t := by
    simp only [root_iff, holds_iff]
    exact ⟨held_of_live, hw.live_of_held⟩
  designated o designated :=
    (Classical.em _).imp_right fun dead => ⟨hw.designates o designated, dead⟩

/-- What was dead in `u` is still dead. -/
def Outlives (w u : World) : Prop := ∀ t, u.Dead t → w.Dead t

theorem Sealed.outlives {u : World} (hw : w.Sealed u.Dead) : w.Outlives u :=
  fun t dead => ⟨hw.past t dead, hw.not_live dead⟩

/-! ## Runs -/

/-- A weak handle gives its object back exactly if that is alive. -/
theorem upgrades_iff_live (run : Caller) {name : String} {o : ObjectId}
    (h : w.handles.weak.get? name = some o) :
    (∃ shown prose, ((runCommand run (.weak name)).on w).1 = .ok (.weak (some shown) prose)) ↔
      w.Live (.object o) := by
  have answer : ((runCommand run (.weak name)).on w).1 = .ok
      (if w.settle.heap.alive o then
        .weak (some (w.settle.pictureObject o))
          (("Weak(" : Prose) ++ w.settle.describeObject o ++ ")")
      else .weak none "Weak(<dropped>)") := by
    rw [runCommand, on_bind, on_see, h]
    rfl
  rw [answer, Live, Present]
  split <;> simp_all

/-- Between the actions of a session, nothing is held that is not there. -/
theorem intact_performAll (config : Config) (as : List Action) :
    ((initial config).performAll as).2.Intact :=
  (performAll_in_custody (C := .ownership fun _ => False) as ⟨intact_initial config, rfl⟩).1

/-- What is dead stays dead for the rest of a session. -/
theorem outlives_performAll (hw : w.Intact) (as : List Action) : (w.performAll as).2.Outlives w :=
  (performAll_in_custody (C := .ownership w.Dead) as ⟨hw.dead, rfl⟩).1.outlives

end World

/-- The ownership of objects and scopes. Take any behaviour, and a body that runs a program `p` and
    then another, `p'`, at whatever depth, from the world at the start of a session or any other in
    which nothing is held that is not there.

    Whenever a step starts or ends, in the body itself or in any function or handler inside it,
    what is held is alive and what is alive is held, so that no watch for that strikes. What is
    dead when a step of `p` starts or ends is dead when `p` has ended, and whenever a step of `p'`
    starts or ends. And a weak handle gives its object back exactly if that is alive. -/
theorem owned_at_every_step (config : Config) (B : Behaviour) (strike : World → World)
    (budget n : Nat) (p p' : Program Action) {w : World} (hw : w.Intact) :
    let run := runAction (B.runner budget n)
    let watch S := watchAction S strike
      (B.runnerUnder (fun _ act => act) (fun _ => S) strike budget 0 n)
    let w' := ((p.run run).on w).2
    (World.initial config).Intact ∧
    (w.Owned ∧ (p.run (watch World.Owned)).on w = (p.run run).on w ∧ w'.Owned ∧ w'.Intact) ∧
    (∀ u, B.Passes budget n p w u → w'.Outlives u ∧
      (p'.run (watch (·.Outlives u))).on w' = (p'.run run).on w' ∧
      ((p'.run run).on w').2.Outlives u) ∧
    ∀ (u : World) (run' : Caller) (name : String) (o : ObjectId),
      u.handles.weak.get? name = some o →
      ((∃ shown prose, ((runCommand run' (.weak name)).on u).1 = .ok (.weak (some shown) prose)) ↔
        u.Live (.object o)) := by
  intro run watch w'
  let intact : Custody := .ownership fun _ => False
  have start : intact.order ⟨0, w.handles.operands⟩ w := ⟨hw, rfl⟩
  obtain ⟨owned, ends⟩ := B.run_in_custody strike budget n p intact
    (S := World.Owned) (fun _ _ _ order => order.1.owned) start
  refine ⟨World.intact_initial config, ⟨hw.owned, owned, ends.1.owned, ends.1⟩, fun u passes => ?_,
    fun u run' name o h => World.upgrades_iff_live run' h⟩
  -- From the moment at which the run passes `u`, it handles only what is not dead there.
  have late : (Custody.ownership u.Dead).order ⟨0, w.handles.operands⟩ w' :=
    B.ends_of_passes budget n p (E := intact) (L := .ownership u.Dead)
      (fun _ _ order => ⟨order.1.dead, order.2⟩) passes start
  obtain ⟨outlives, end'⟩ := B.run_in_custody strike budget n p' (.ownership u.Dead)
    (S := (·.Outlives u)) (fun _ _ _ order => order.1.outlives) late
  exact ⟨late.1.outlives, outlives, end'.1.outlives⟩

/-- An object that was made and dropped, with a weak handle left, when a step is taken after it. -/
theorem owned_at_every_step_of_dropped :
    let w := ((World.initial {}).performAll
      [.command (.new .ordinary .standard (some "a")), .command (.downgrade (.register "a") "h"),
        .command (.dropRegisters ["a"])]).2
    let p : Program Action := .step (.command (.newSymbol none none)) fun _ => .finish none
    let w' := ((p.run (runAction (Behaviour.scripted.runner 1 1))).on w).2
    w.Intact ∧ Behaviour.scripted.Passes 1 1 p w w ∧ w.handles.weak.get? "h" = some ⟨8⟩ ∧
      w.Dead (.object ⟨8⟩) ∧ w'.Dead (.object ⟨8⟩) ∧ w'.Owned := by
  intro w p w'
  have intact : w.Intact := World.intact_performAll {} _
  have passes : Behaviour.scripted.Passes 1 1 p w w := Behaviour.scripted.passes_step 1 1 _ _ w
  have dead : w.Dead (.object ⟨8⟩) :=
    ⟨show 8 < w.heap.next by decide +kernel,
      show ¬w.settle.heap.alive ⟨8⟩ by decide +kernel⟩
  obtain ⟨-, ⟨-, -, owned, -⟩, outlives, -⟩ :=
    owned_at_every_step {} Behaviour.scripted id 1 1 p p intact
  exact ⟨intact, passes, by decide +kernel, dead, (outlives w passes).1 _ dead, owned⟩

end Lvalue
