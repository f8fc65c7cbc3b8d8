import Lvalue.Proofs.Watch

/-!
# Locks

A property that is not configurable is locked, and so is the shape of an object
that is not extensible. A lock never opens again: whatever happens to an object
that stays alive, what is locked of it at one moment is locked in the same way at
every later one (`Heap.StaysLocked`).

The relation is a preorder, so it is enough that no single change breaks it
(`Change.staysLocked`). Dead objects are why it says of two heaps that no object
comes back: only then does an object that is alive in two of them live in those
between them.

* `locked_for_good`: from a world that a run has met on, for the rest of the run,
  whatever functions and handlers do.
* `World.staysLocked_performAll`: from one moment of a session to any later one.
-/

namespace Lvalue

/-! ## Properties -/

/-- What a locked property may come to consist of. The value of a writable one may change,
    and it may stop being writable. -/
inductive Slot.StaysLocked : Slot → Slot → Prop
  | accessor (getter setter : Option ObjectId) :
    StaysLocked (.accessor getter setter) (.accessor getter setter)
  | writable (v v' : Value) (writable : Bool) : StaysLocked (.data v true) (.data v' writable)
  | constant (v : Value) : StaysLocked (.data v false) (.data v false)

/-- What a locked property may become. -/
structure Property.StaysLocked (old new : Property) : Prop where
  configurable : new.configurable = false
  enumerable : new.enumerable = old.enumerable
  slot : old.slot.StaysLocked new.slot

theorem Slot.StaysLocked.refl (s : Slot) : s.StaysLocked s := by
  rcases s with ⟨v, _ | _⟩ | ⟨getter, setter⟩
  · exact .constant v
  · exact .writable v v true
  · exact .accessor getter setter

/-- What stays locked step by step stays locked. -/
theorem Slot.StaysLocked.trans {a b c : Slot} (h : a.StaysLocked b) (h' : b.StaysLocked c) :
    a.StaysLocked c := by
  cases h with
  | writable v v' writable => cases h' <;> exact .writable v _ _
  | accessor | constant => exact h'

namespace Property

theorem StaysLocked.refl {p : Property} (locked : p.configurable = false) : p.StaysLocked p where
  configurable := locked
  enumerable := rfl
  slot := .refl p.slot

@[inherit_doc Slot.StaysLocked.trans]
theorem StaysLocked.trans {a b c : Property} (h : a.StaysLocked b) (h' : b.StaysLocked c) :
    a.StaysLocked c where
  configurable := h'.configurable
  enumerable := h'.enumerable.trans h.enumerable
  slot := h.slot.trans h'.slot

/-- A locked property accepts only what leaves it locked. -/
theorem staysLocked_of_accepts {old new : Property} (locked : old.configurable = false)
    (h : old.accepts new) : old.StaysLocked new := by
  obtain ⟨oldSlot, _, _⟩ := old
  obtain ⟨newSlot, _, _⟩ := new
  obtain rfl : _ = false := locked
  rcases oldSlot with ⟨v, _ | _⟩ | _
  case data.true =>
    rcases newSlot with ⟨v', writable⟩ | _
    · simp only [accepts, Bool.false_or, Bool.and_eq_true, Bool.not_eq_true', beq_iff_eq] at h
      exact ⟨h.1, h.2, .writable v v' writable⟩
    · cases h
  all_goals cases h

end Property

/-! ## Objects -/

/-- What an object may become, by what is locked of it. -/
structure Object.StaysLocked (old new : Object) : Prop where
  property : ∀ {k p}, old.properties.get? k = some p → p.configurable = false →
    ∃ p', new.properties.get? k = some p' ∧ p.StaysLocked p'
  extensible : old.extensible = false → new.extensible = false
  prototype : old.extensible = false → new.prototype = old.prototype
  absent : old.extensible = false → ∀ {k}, old.properties.get? k = none →
    new.properties.get? k = none

namespace Object

/-- An object with the same properties and the same prototype, if it is not extended. -/
theorem StaysLocked.of_properties_eq {old new : Object}
    (properties : new.properties = old.properties)
    (shape : old.extensible = false → new.extensible = false ∧ new.prototype = old.prototype) :
    old.StaysLocked new where
  property {k p} h locked := ⟨p, by rw [properties, h], .refl locked⟩
  extensible h := (shape h).1
  prototype h := (shape h).2
  absent _ {k} h := by rw [properties, h]

theorem StaysLocked.refl (x : Object) : x.StaysLocked x := .of_properties_eq rfl fun h => ⟨h, rfl⟩

theorem StaysLocked.trans {a b c : Object} (h : a.StaysLocked b) (h' : b.StaysLocked c) :
    a.StaysLocked c where
  property hp locked := by
    obtain ⟨p', hp', hl⟩ := h.property hp locked
    obtain ⟨p'', hp'', hl'⟩ := h'.property hp' hl.configurable
    exact ⟨p'', hp'', hl.trans hl'⟩
  extensible he := h'.extensible (h.extensible he)
  prototype he := (h'.prototype (h.extensible he)).trans (h.prototype he)
  absent he _ hk := h'.absent (h.extensible he) (h.absent he hk)

/-- A definition leaves each locked property of the object as it is, or changes what may still be
    changed: a writable value may change, or become one that is not writable. -/
theorem staysLocked_define (x : Object) (k : Key) (p : Property) :
    x.StaysLocked (x.define k p) := by
  rw [define]
  split
  case isFalse => exact .refl x
  case isTrue admits =>
    -- Under `k` there is `p`, which what was there had to accept; all else is as it was.
    have hk' (k' : Key) := Table.get?_insert x.properties k k' p
    rw [Object.admits] at admits
    refine { property := fun {k'} {old} hp locked => ?_, extensible := id,
             prototype := fun _ => rfl, absent := fun sealed k' hp => ?_ }
    · by_cases e : k = k'
      · subst e
        rw [hp] at admits
        exact ⟨p, by rw [hk', if_pos rfl], Property.staysLocked_of_accepts locked admits⟩
      · exact ⟨old, by rw [hk', if_neg e, hp], .refl locked⟩
    · by_cases e : k = k'
      · subst e
        rw [hp, sealed] at admits
        contradiction
      · rw [hk', if_neg e, hp]

/-- A locked property is not deleted. -/
theorem staysLocked_delete (x : Object) (k : Key) : x.StaysLocked (x.delete k) := by
  rw [delete]
  split
  case isFalse => exact .refl x
  case isTrue releases =>
    -- What was under `k` let go of it, so that it was not locked.
    have hk' (k' : Key) := Table.get?_erase x.properties k k'
    rw [Object.releases] at releases
    refine { property := fun {k'} {old} hp locked => ?_, extensible := id,
             prototype := fun _ => rfl, absent := fun _ k' hp => ?_ }
    · by_cases e : k = k'
      · subst e
        rw [hp] at releases
        exact absurd releases (by simp [locked])
      · exact ⟨old, by rw [hk', if_neg e, hp], .refl locked⟩
    · rw [hk', hp, ite_self]

end Object

/-! ## Heaps -/

/-- What a heap may become, by what is locked in it. -/
structure Heap.StaysLocked (old new : Heap) : Prop where
  next : old.next ≤ new.next
  /-- No object comes back. -/
  dead : ∀ {o}, o.serial < old.next → old.get? o = none → new.get? o = none
  object : ∀ {o x x'}, old.get? o = some x → new.get? o = some x' → x.StaysLocked x'

namespace Heap

theorem StaysLocked.refl (h : Heap) : h.StaysLocked h where
  next := Nat.le_refl _
  dead _ := id
  object ho ho' := Option.some.inj (ho.symm.trans ho') ▸ .refl _

theorem StaysLocked.trans {a b c : Heap} (h : a.StaysLocked b) (h' : b.StaysLocked c) :
    a.StaysLocked c where
  next := Nat.le_trans h.next h'.next
  dead lt ho := h'.dead (Nat.lt_of_lt_of_le lt h.next) (h.dead lt ho)
  object {o x x''} ho ho'' := by
    -- The object is alive in between: it would not have come back.
    cases ho' : b.get? o with
    | none =>
      have := h'.dead (Nat.lt_of_lt_of_le (serial_lt_next ho) h.next) ho'
      rw [this] at ho''
      contradiction
    | some x' => exact (h.object ho ho').trans (h'.object ho' ho'')

/-- A new object is another one. -/
theorem staysLocked_alloc (h : Heap) (new : Object) : h.StaysLocked (h.alloc new).2 where
  next := Nat.le_succ _
  dead {o} lt ho := by
    rw [get?_alloc, if_neg (fun e => Nat.lt_irrefl _ (e ▸ lt)), ho]
  object {o x x'} ho ho' := by
    rw [get?_alloc, if_neg (fun e => Nat.lt_irrefl _ (e ▸ serial_lt_next ho)), ho] at ho'
    exact Option.some.inj ho' ▸ .refl x

/-- To drop objects unlocks none that is left. -/
theorem staysLocked_keep (h : Heap) (p : ObjectId → Bool) : h.StaysLocked (h.keep p) where
  next := Nat.le_refl _
  dead {o} _ ho := by rw [get?_keep, ho, ite_self]
  object {o x x'} ho ho' := by
    rw [get?_keep, ho] at ho'
    split at ho'
    · exact Option.some.inj ho' ▸ .refl x
    · contradiction

/-- What leaves each object locked leaves the heap locked. -/
theorem staysLocked_update (h : Heap) (o : ObjectId) {f : Object → Object}
    (hf : ∀ x : Object, x.StaysLocked (f x)) : h.StaysLocked (h.update o f) where
  next := Nat.le_refl _
  dead {o'} _ ho := by rw [get?_update, ho, Option.map_none, ite_self]
  object {o' x x'} ho ho' := by
    rw [get?_update, ho] at ho'
    split at ho'
    · exact Option.some.inj ho' ▸ hf x
    · exact Option.some.inj ho' ▸ .refl x

/-- Only an extensible object gets another prototype. -/
theorem staysLocked_setPrototype (h : Heap) (o : ObjectId) (prototype : Option ObjectId) :
    h.StaysLocked (h.setPrototype o prototype) := by
  rw [setPrototype]
  split
  case isFalse => exact .refl h
  case isTrue may =>
    have extensible : (h.get? o).any (·.extensible) := (Bool.and_eq_true_iff.1 may).1
    refine { next := Nat.le_refl _, dead := fun {o'} _ ho => ?_,
             object := fun {o' x x'} ho ho' => ?_ }
    · rw [get?_update, ho, Option.map_none, ite_self]
    · rw [get?_update, ho] at ho'
      split at ho'
      · next e =>
        rw [e, ho] at extensible
        refine Option.some.inj ho' ▸ .of_properties_eq rfl fun sealed => ?_
        exact absurd extensible (by simp [sealed])
      · exact Option.some.inj ho' ▸ .refl x

end Heap

/-! ## Worlds -/

/-- No change opens a lock. -/
theorem Change.staysLocked {w w' : World} (h : Change w w') : w.heap.StaysLocked w'.heap := by
  cases h with
  | handles | journal | nextSymbol | scopes | registry => exact .refl _
  | alloc new => exact Heap.staysLocked_alloc _ new
  | setPrototype o prototype => exact Heap.staysLocked_setPrototype _ o prototype
  | preventExtensions o =>
    exact Heap.staysLocked_update _ o fun x => .of_properties_eq rfl fun _ => ⟨rfl, rfl⟩
  | define o k p => exact Heap.staysLocked_update _ o (·.staysLocked_define k p)
  | delete o k => exact Heap.staysLocked_update _ o (·.staysLocked_delete k)
  | entries | weakEntries =>
    exact Heap.staysLocked_update _ _ fun x => .of_properties_eq rfl fun h => ⟨h, rfl⟩
  | settle => exact Heap.staysLocked_keep _ _

/-- What is locked in the world `u` is locked in the same way in `w`. -/
def World.StaysLocked (u w : World) : Prop := u.heap.StaysLocked w.heap

/-- No change unlocks anything. -/
theorem World.stable_staysLocked (u : World) : Stable u.StaysLocked :=
  fun _ _ change hw => Heap.StaysLocked.trans hw change.staysLocked

theorem World.layered_staysLocked (u : World) : Layered fun _ => u.StaysLocked :=
  .of_stable u.stable_staysLocked fun _ _ => id

/-- Nothing is unlocked in a session. -/
theorem World.staysLocked_performAll (w : World) (as : List Action) :
    w.StaysLocked (w.performAll as).2 :=
  keeps_performAll w.layered_staysLocked as (.refl _)

/-- Locks hold for good. Take any behaviour, and a body that runs a program `p` and then another,
    `p'`, at whatever depth. What is locked in a world that the run of `p` meets, in the body itself
    or in any function or handler inside it, or in a world before it, is locked at the end of `p`;
    and whenever a function, a handler or a step of them starts or ends during `p'`, it is still
    locked, so that no watch for that strikes. -/
theorem locked_for_good (B : Behaviour) (strike : World → World) (budget n : Nat)
    (p p' : Program Action) {w u : World} (hu : B.Meets budget n p w u ∨ u.StaysLocked w) :
    let run := runAction (B.runner budget n)
    let watch := watchAction u.StaysLocked strike
      (B.watchedRunner (fun _ => u.StaysLocked) strike budget 0 n)
    let w' := ((p.run run).on w).2
    u.StaysLocked w' ∧
      (p'.run watch).on w' = (p'.run run).on w' ∧ u.StaysLocked ((p'.run run).on w').2 := by
  -- What is locked in `u` is locked in `u` itself, and so, from the moment at which the run
  -- meets it, at the end of `p`; from there on no watch strikes.
  have hL : Layered fun _ => u.StaysLocked := u.layered_staysLocked
  have now : u.StaysLocked ((p.run (runAction (B.runner budget n))).on w).2 := by
    rcases hu with met | before
    · exact holds_of_meets hL met (.refl _)
    · exact (run_watched B strike budget hL 0 n p before).2
  exact ⟨now, run_watched B strike budget hL 0 n p' now⟩

/-- A frozen property, on an object that is not extensible, when steps write and delete it. -/
theorem locked_for_good_of_frozen :
    let o := Intrinsic.object.id
    let w : World := { World.initial {} with
      heap := (Heap.initial.define o (.text (.text "")) (.frozen .null)).preventExtensions o
      handles := { registers := (∅ : Table String Value).insert "o" (.object o) } }
    let p : Program Action :=
      .step (.command (.define (.register "o") (.text "") (.data .undefined true true true)))
        fun _ => .finish none
    let p' : Program Action :=
      .step (.command (.delete (.register "o") (.text ""))) fun _ => .finish none
    let run := runAction (Behaviour.scripted.runner 1 1)
    let watch := watchAction w.StaysLocked id
      (Behaviour.scripted.watchedRunner (fun _ => w.StaysLocked) id 1 0 1)
    let w' := ((p.run run).on w).2
    Behaviour.scripted.Meets 1 1 p w w ∧ w.StaysLocked w' ∧
      (p'.run watch).on w' = (p'.run run).on w' ∧ w.StaysLocked ((p'.run run).on w').2 :=
  ⟨Behaviour.scripted.meets_step 1 1 _ _ _,
    locked_for_good Behaviour.scripted id 1 1 _ _ (.inl (Behaviour.scripted.meets_step 1 1 _ _ _))⟩

end Lvalue
