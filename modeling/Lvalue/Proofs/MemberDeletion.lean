import Mathlib.Logic.Function.Iterate
import Lvalue.Proofs.PrimitiveBase

/-!
# Deletion of properties

To delete a property of an object is to ask the object itself for it, and not what it inherits
from. Where it lets go of the property, the one that it inherits comes to light: the reference that
was deleted through then reads what a reference to the prototype reads, for the same receiver. Where
it does not, nothing happens, and nothing will (`delete_uncovers_inherited`).

A reference with a receiver that is not the base is none to delete through. That is said before
anyone looks at the base.
-/

namespace Lvalue

open Eval

namespace Heap

variable {h h' : Heap} {o o' target : ObjectId} {k k' : Key}

/-- An object lets go of a property that it does not have or that is configurable. -/
theorem releases_iff : h.releases o k ↔ ∀ p, h.own? o k = some p → p.configurable := by
  cases hx : h.get? o with
  | none => simp [releases, own?, hx]
  | some x =>
    rw [releases, hx, Option.all_some, Object.releases, own?, hx, Option.bind_some]
    cases x.properties.get? k <;> simp

theorem get?_delete (released : h.releases o k) (o' : ObjectId) :
    (h.delete o k).get? o' =
      if o = o' then (h.get? o').map fun x => { x with properties := x.properties.erase k }
      else h.get? o' := by
  rw [delete, get?_update]
  by_cases e : o = o'
  · subst e
    rw [if_pos rfl, if_pos rfl]
    cases hx : h.get? o with
    | none => rfl
    | some x =>
      rw [releases, hx, Option.all_some] at released
      rw [Option.map_some, Option.map_some, Object.delete, if_pos released]
  · rw [if_neg e, if_neg e]

theorem own?_delete (released : h.releases o k) (o' : ObjectId) (k' : Key) :
    (h.delete o k).own? o' k' = if o = o' ∧ k = k' then none else h.own? o' k' := by
  rw [own?, get?_delete released, own?]
  by_cases e : o = o'
  · rw [if_pos e, Option.bind_map]
    by_cases e' : k = k' <;> cases h.get? o' <;> simp [e, e']
  · rw [if_neg e, if_neg fun both => e both.1]

/-- What an object does not have is what its prototype has, if it has one. -/
theorem Grounded.lookup_of_lacks (hh : h.Grounded) (lacks : h.own? o k = none) :
    h.lookup o k = (h.prototype? o).bind (h.lookup · k) := by
  by_cases alive : h.alive o
  · rw [lookup, hh.chain_eq alive, List.findSome?_cons, lacks]
    cases h.prototype? o with
    | none => rw [chainFrom_none]; rfl
    | some p => rfl
  · have gone : h.get? o = none := Option.eq_none_iff_forall_ne_some.2 fun x hx =>
      alive (alive_iff.2 ⟨x, hx⟩)
    have none : h.prototype? o = none := by rw [prototype?, gone]; rfl
    -- The chain of a dead object is at most the object itself.
    rw [none, Option.bind_none, lookup, chain, chainFrom]
    cases h.objects.size with
    | zero => rfl
    | succ n =>
      rw [walk, none, List.findSome?_cons, lacks]
      cases n <;> rfl

theorem Grounded.reading_of_lacks (hh : h.Grounded) (lacks : h.own? o k = none) :
    h.reading o k = ((h.prototype? o).map (h.reading · k)).getD (.value .undefined) := by
  rw [reading, hh.lookup_of_lacks lacks]
  cases h.prototype? o <;> rfl

end Heap

/-! ## Released properties -/

/-- The object has no property at `k` any more, and nothing else has changed. -/
structure World.Released (o : ObjectId) (k : Key) (w w' : World) : Prop where
  own : w'.heap.own? o k = none
  others : ∀ o' k', o' ≠ o ∨ k' ≠ k → w'.heap.own? o' k' = w.heap.own? o' k'
  /-- An object stays what it is, with its prototype, extensible or not, and alive or not. -/
  objects : ∀ o', (w'.heap.get? o').map ({ · with properties := ∅ }) =
    (w.heap.get? o').map ({ · with properties := ∅ })
  frame : ∃ heap, w' = { w with heap } ∧ heap.next = w.heap.next

theorem World.released_delete {w : World} {o : ObjectId} {k : Key}
    (released : w.heap.releases o k) :
    w.Released o k { w with heap := w.heap.delete o k } where
  own := (Heap.own?_delete released o k).trans (if_pos ⟨rfl, rfl⟩)
  others o' k' other :=
    (Heap.own?_delete released o' k').trans (if_neg fun e => other.elim (· e.1.symm) (· e.2.symm))
  objects o' := by
    rw [Heap.get?_delete released]
    split
    · rw [Option.map_map]
      rfl
    · rfl
  frame := ⟨_, rfl, rfl⟩

/-- A reference with a receiver of its own is none to delete through, whatever the base is. -/
theorem on_deleteReference_of_override {w : World} {base : Value} {k : Key} {this : Option Value}
    (strict : Bool) (other : Reference.overridesReceiver base this = true) (run : Runner) :
    (deleteReference run (.member base k this strict)).on w =
      (.error (.raised (.superDelete (k.spell .full))), w) := by
  rw [deleteReference, if_pos other]
  rfl

/-! ## What comes to light -/

/-- A delete through any reference to a property with a key, in any world whose prototypes come to
    an end.

    If the reference has a receiver that is not the base, the delete fails and changes nothing,
    even if the base has no properties.

    Otherwise, if the base is an object, the delete succeeds exactly if this object does not have
    the property or has one that is configurable. Then the object has lost it, and no other property
    of any object has changed, nor what is found anywhere but from where the lost one was to be
    seen. What is read through the reference is what is read from the prototype for the same
    receiver, and nothing if there is no prototype. A second delete succeeds and changes nothing.

    If the property is not configurable, the delete is refused as the strictness of the reference
    wants it, and the world stays as it is, however often this is tried. -/
theorem delete_uncovers_inherited {w : World} (hh : w.heap.Grounded) (base : Value) (k : Key)
    (this : Option Value) (strict : Bool) :
    let r := Reference.member base k this strict
    let receiver := this.getD base
    (∀ t, this = some t → t.same base = false → ∀ run,
      (deleteReference run r).on w = (.error (.raised (.superDelete (k.spell .full))), w)) ∧
    ∀ o, base = .object o → (∀ t, this = some t → t.same base = true) →
      ∃ result w', (∀ run, (deleteReference run r).on w = (result, w')) ∧
        (result = .ok true ↔ ∀ p, w.heap.own? o k = some p → p.configurable = true) ∧
        (result = .ok true →
          w.Released o k w' ∧
          (∀ o' k', w.heap.alive o' → ¬(k' = k ∧ w.heap.Uncovers k o' o) →
            w'.heap.lookup o' k' = w.heap.lookup o' k') ∧
          (∀ p, w.heap.prototype? o = some p →
            Reads (readReference · r) w' w' receiver (w'.heap.reading p k) ∧
            Reads (fun run => getProperty run.call p k receiver) w' w' receiver
              (w'.heap.reading p k)) ∧
          (w.heap.prototype? o = none →
            ∀ run, (readReference run r).on w' = (.ok .undefined, w')) ∧
          ∀ run, (deleteReference run r).on w' = (.ok true, w')) ∧
        (result ≠ .ok true →
          result = (if strict then .error (.raised (.undeletable (k.spell .full))) else .ok false) ∧
          ∀ run n, (deleteReference run r).on
            ((fun u => ((deleteReference run r).on u).2)^[n] w) = (result, w)) := by
  intro r receiver
  refine ⟨fun t present other run => on_deleteReference_of_override strict (by
    simp [present, Reference.overridesReceiver, other]) run, ?_⟩
  rintro o rfl same
  have own : Reference.overridesReceiver (.object o) this = false := by
    cases this with
    | none => rfl
    | some t => simp [Reference.overridesReceiver, same t rfl]
  have on (w : World) (run : Runner) : (deleteReference run r).on w =
      (deleteResult k strict (w.heap.releases o k), { w with heap := w.heap.delete o k }) :=
    on_deleteReference_of_base strict rfl own run
  cases released : w.heap.releases o k with
  | true =>
    -- The object keeps its prototype, so that a lookup goes on there as it would have gone on
    -- before without the property.
    let w' : World := { w with heap := w.heap.delete o k }
    have done : w.Released o k w' := World.released_delete released
    have grounded : w'.heap.Grounded := hh.update o fun x => by rw [Object.delete]; split <;> rfl
    have prototype (o' : ObjectId) : w'.heap.prototype? o' = w.heap.prototype? o' := by
      have same := congrArg (·.bind (·.prototype)) (done.objects o')
      simp only [Option.bind_map] at same
      exact same
    have nullish : (Value.object o).isNullish = false := rfl
    have reads : Reads (readReference · r) w' w' receiver
        (((w.heap.prototype? o).map (w'.heap.reading · k)).getD (.value .undefined)) := by
      rw [← prototype, ← grounded.reading_of_lacks done.own]
      exact reads_readReference (w := w') nullish k this strict
    refine ⟨_, w', on w, ?_, fun _ => ⟨done, fun o' k' alive covered => ?_,
      fun p inherits => ⟨?_, reads_getProperty w' p k receiver⟩, fun nothing => ?_,
      fun run => ?_⟩, ?_⟩
    · rw [released]
      exact iff_of_true rfl (Heap.releases_iff.1 released)
    · have alive' : w'.heap.alive o' := (w.heap.alive_update o o' _).trans alive
      exact Heap.lookup_of_covered (hh.chain_congr grounded prototype alive alive') done.others
        covered
    · rw [inherits] at reads
      exact reads
    · rw [nothing] at reads
      exact reads
    · have gone : w'.heap.releases o k = true :=
        Heap.releases_iff.2 fun p hp => by rw [done.own] at hp; contradiction
      rw [on w', gone, Heap.delete_of_lacks done.own]
      rfl
    · rw [released]
      exact fun fails => absurd rfl fails
  | false =>
    -- A delete that is refused leaves the very world that it found, and so does every further one.
    have locked (run : Runner) :
        (deleteReference run r).on w = (deleteResult k strict false, w) := by
      rw [on, released, Heap.delete_of_not_releases released]
    have refused : deleteResult k strict false ≠ .ok true := by cases strict <;> rintro ⟨⟩
    refine ⟨_, w, locked, iff_of_false refused fun configurable => ?_, fun done =>
      absurd done refused, fun _ => ⟨by cases strict <;> rfl, fun run n => ?_⟩⟩
    · exact absurd (Heap.releases_iff.2 configurable) (by simp [released])
    · rw [Function.iterate_fixed (congrArg Prod.snd (locked run))]
      exact locked run

/-- An object loses the property that hid the one of its prototype. It keeps a property that is not
    configurable, and a reference with a receiver of its own deletes nothing. -/
theorem delete_uncovers_inherited_of_child :
    let w := ((World.initial {}).performAll (List.map Action.command
      [.new .ordinary .none (some "a"),
        .define (.register "a") (.text "x") (.data .null true true true),
        .newChain (.register "a") 1 (some "b"),
        .define (.register "b") (.text "x") (.data (.register "a") true true true),
        .define (.register "b") (.text "y") (.data .null true true false)])).2
    let x : Key := .text (.text "x")
    let y : Key := .text (.text "y")
    let r := Reference.member (.object ⟨9⟩) x (some (.object ⟨9⟩)) true
    w.heap.Grounded ∧
      (∀ run, (deleteReference run (.member .null x (some .undefined) true)).on w =
        (.error (.raised (.superDelete "x")), w)) ∧
      (∃ w', (∀ run, (deleteReference run r).on w = (.ok true, w')) ∧
        w'.heap.own? ⟨8⟩ x = some (.plain .null) ∧
        (∀ run, (readReference run r).on w' = (.ok .null, w')) ∧
        ∀ run, (deleteReference run r).on w' = (.ok true, w')) ∧
      ∀ run strict, (deleteReference run (.member (.object ⟨9⟩) y none strict)).on w =
        (if strict then .error (.raised (.undeletable "y")) else .ok false, w) := by
  intro w x y r
  have grounded : w.heap.Grounded := (World.ancestry_performAll {} _).2
  have has : w.heap.own? ⟨8⟩ x = some (.plain .null) := by decide +kernel
  have hides : w.heap.own? ⟨9⟩ x = some (.plain (.object ⟨8⟩)) := by decide +kernel
  have locked : w.heap.own? ⟨9⟩ y = some { Property.plain .null with configurable := false } := by
    decide +kernel
  have inherits : w.heap.prototype? ⟨9⟩ = some ⟨8⟩ := by decide +kernel
  have found : w.heap.lookup ⟨8⟩ x = some (⟨8⟩, .plain .null) := by decide +kernel
  have alive : w.heap.alive ⟨8⟩ := by decide +kernel
  have outside : ⟨9⟩ ∉ w.heap.chain ⟨8⟩ := by decide +kernel
  clear_value w
  obtain ⟨overrides, -⟩ := delete_uncovers_inherited grounded .null x (some .undefined) true
  refine ⟨grounded, overrides .undefined rfl rfl, ?_, fun run strict => ?_⟩
  · obtain ⟨-, deletes⟩ :=
      delete_uncovers_inherited grounded (.object ⟨9⟩) x (some (.object ⟨9⟩)) true
    obtain ⟨result, w', on, iff, done, -⟩ := deletes ⟨9⟩ rfl fun t e => by cases e; rfl
    obtain rfl : result = .ok true := iff.2 fun p hp => by cases hides.symm.trans hp; rfl
    obtain ⟨released, same, inherited, -, again⟩ := done rfl
    have found' : w'.heap.lookup ⟨8⟩ x = some (⟨8⟩, .plain .null) := by
      refine (same ⟨8⟩ x alive ?_).trans found
      rintro ⟨-, before, after, e, -⟩
      exact outside (e ▸ List.mem_append_right _ List.mem_cons_self)
    obtain ⟨reads, -⟩ := inherited ⟨8⟩ inherits
    rw [Heap.reading, found'] at reads
    exact ⟨w', on, (released.others ⟨8⟩ x (.inl (by decide))).trans has, reads, again⟩
  · obtain ⟨-, deletes⟩ := delete_uncovers_inherited grounded (.object ⟨9⟩) y none strict
    obtain ⟨result, w', on, iff, -, refused⟩ := deletes ⟨9⟩ rfl fun t e => by cases e
    have fails : result ≠ .ok true := fun ok =>
      absurd (iff.1 ok _ locked) Bool.false_ne_true
    obtain ⟨rfl, again⟩ := refused fails
    exact again run 0

end Lvalue
