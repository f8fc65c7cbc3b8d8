import Lvalue.Proofs.Entries

/-!
# Weak maps

A weak map refines a finite map of live objects. What is done to it, or happens elsewhere,
are its *steps* (`WeakMap.Step`), and beside each run of steps goes an abstract map: to set
an entry binds its key, to delete one unbinds it, and the death of a key does no more than
remove it (`WeakMap.Run`). After every run, whoever asks the weak map gets to know of the
abstract map and of nothing else (`WeakMap.Refines`).

The weak map itself knows nothing of deaths. Its entries die where they are, and are cleared
away later, in an order of its own, when the release of one may kill the next.
-/

namespace Lvalue

open Bearer

namespace World

/-- The object is alive. -/
def lives (w : World) (o : ObjectId) : Bool := w.settle.heap.alive o

@[simp]
theorem lives_iff {w : World} {o : ObjectId} : w.lives o ↔ w.Live (.object o) := Iff.rfl

/-- The part of an abstract map whose keys are alive. -/
def living (w : World) (M : Table ObjectId Value) : Table ObjectId Value :=
  M.filter fun k _ => w.lives k

variable {w : World} {M : Table ObjectId Value} {k : ObjectId}

/-- What is alive has its entry among the living. -/
theorem get?_living (live : w.Live (.object k)) : (w.living M).get? k = M.get? k := by
  have lives : w.lives k = true := live
  rw [living, Table.get?_filter]
  cases M.get? k <;> simp [Option.filter, lives]

/-- Only what is alive is among them. -/
theorem live_of_mem_living (mem : k ∈ (w.living M).keys) : w.Live (.object k) := by
  obtain ⟨v, hv⟩ := Option.isSome_iff_exists.1 (Table.contains_iff_mem_keys.2 mem)
  rw [living, Table.get?_filter] at hv
  exact lives_iff.1 (Option.filter_eq_some_iff.1 hv).2

end World

namespace WeakMap

/-! ## Steps -/

/-- What a step does with a weak map. -/
inductive Op where
  | set (k : ObjectId) (v : Value)
  | delete (k : ObjectId)
  | prune
  /-- Nothing: what happens, happens elsewhere. -/
  | elsewhere

namespace Op

/-- What the operation makes of an abstract map. -/
def apply : Op → Table ObjectId Value → Table ObjectId Value
  | set k v, M => M.insert k v
  | delete k, M => M.erase k
  | prune, M | elsewhere, M => M

/-- What it makes of what there is for a key. -/
def change : Op → ObjectId → Option Value → Option Value
  | set k v => replacing k (some v)
  | delete k => replacing k none
  | prune | elsewhere => fun _ => id

/-- The key that the operation is for. -/
def key? : Op → Option ObjectId
  | set k _ | delete k => some k
  | prune | elsewhere => none

/-- An operation changes the entry of its key. -/
theorem get?_apply (op : Op) (M : Table ObjectId Value) (k : ObjectId) :
    (op.apply M).get? k = op.change k (M.get? k) := by
  cases op with
  | set => exact Table.get?_insert ..
  | delete => exact Table.get?_erase ..
  | prune | elsewhere => rfl

/-- And no other. -/
theorem change_of_ne {op : Op} {k : ObjectId} (h : op.key? ≠ some k) (old : Option Value) :
    op.change k old = old := by
  cases op with
  | set k' | delete k' => exact if_neg fun e => h (congrArg some e)
  | prune | elsewhere => rfl

end Op

/-- One step of the weak map `m`. Whoever sets an entry holds the map, the key and the value,
    and the entries of dead keys go first, in any order. What happens elsewhere brings no dead
    thing back and leaves the entries alone, be they alive or dead. -/
inductive Step (m : ObjectId) : Op → World → World → Prop
  | set {w : World} {k : ObjectId} {v : Value} (order : List ObjectId)
    (map : .object m ∈ w.anchors) (key : .object k ∈ w.anchors) (value : things v ⊆ w.anchors) :
    Step m (.set k v) w (w.setAlong order m k v)
  | delete {w w' : World} {k : ObjectId} (map : .object m ∈ w.anchors)
    (deleted : w.deleteEntry m (.object k) = some w') : Step m (.delete k) w w'
  | prune {w : World} (order : List ObjectId) (map : .object m ∈ w.anchors) :
    Step m .prune w (w.pruneAlong order m)
  | elsewhere {w w' : World} (follows : w'.Follows w)
    (same : ¬w'.Dead (.object m) → w'.weakEntries? m = w.weakEntries? m) :
    Step m .elsewhere w w'

/-- Steps one after the other, from the world `w₀` and the abstract map `M₀` on: each does its
    part to the abstract map, and then the keys go that have died. -/
inductive Run (m : ObjectId) (w₀ : World) (M₀ : Table ObjectId Value) :
    World → Table ObjectId Value → Prop
  | start : Run m w₀ M₀ w₀ M₀
  | step {op : Op} {w w' : World} {M : Table ObjectId Value} (run : Run m w₀ M₀ w M)
    (step : Step m op w w') : Run m w₀ M₀ w' (w'.living (op.apply M))

/-! ## Refinement -/

/-- The weak map `m` has for living keys what the abstract map has, whose keys are alive. -/
structure Refines (m : ObjectId) (w : World) (M : Table ObjectId Value) : Prop where
  weak : (w.weakEntries? m).isSome
  keys : ∀ k ∈ M.keys, w.Live (.object k)
  get : ∀ k, w.Live (.object k) → w.valueAt? m (.object k) = some (M.get? k)

variable {m : ObjectId} {w w' : World} {op : Op} {M : Table ObjectId Value}

theorem valueAt?_of_weakEntries? {entries : WeakEntries} (is : w.weakEntries? m = some entries)
    (k : ObjectId) : w.valueAt? m (.object k) = some (entries.get? k) := by
  rw [World.valueAt?_object, World.kind?_of_weakEntries? is]
  rfl

/-- A step changes the entries as its operation says, except for those of dead keys. -/
theorem Step.acts (h : Step m op w w') (hw : w.Intact)
    (weak : ¬w.Dead (.object m) → (w.weakEntries? m).isSome) :
    w'.Follows w ∧ (¬w'.Dead (.object m) → (w'.weakEntries? m).isSome ∧
      ∀ k x, w.valueAt? m (.object k) = some x →
        w'.valueAt? m (.object k) = some (op.change k x) ∨ w'.Dead (.object k)) := by
  have of_amends (map : .object m ∈ w.anchors)
      (h : (w.weakEntries? m).isSome → w.Amends m op.change w') :
      w'.Follows w ∧ (¬w'.Dead (.object m) → (w'.weakEntries? m).isSome ∧
        ∀ k x, w.valueAt? m (.object k) = some x →
          w'.valueAt? m (.object k) = some (op.change k x) ∨ w'.Dead (.object k)) := by
    have weak := weak fun dead => dead.2 (hw.live_of_anchor map)
    exact ⟨(h weak).follows, fun _ => ⟨(h weak).weak.trans weak, (h weak).entry⟩⟩
  cases h with
  | set order map key value =>
    exact of_amends map fun weak => World.amends_setAlong hw weak map key value order
  | delete map deleted => exact of_amends map fun _ => World.amends_deleteEntry hw map deleted
  | prune order map => exact of_amends map fun _ => World.amends_pruneAlong hw map order
  | elsewhere follows same =>
    refine ⟨follows, fun alive => ?_⟩
    have weak := weak fun dead => alive (follows.outlives _ dead)
    obtain ⟨entries, is⟩ := Option.isSome_iff_exists.1 weak
    have is' := (same alive).trans is
    refine ⟨by rw [is']; rfl, fun k x hx => .inl ?_⟩
    rw [valueAt?_of_weakEntries? is']
    exact (valueAt?_of_weakEntries? is k).symm.trans hx

/-- The weak map has for a key that lives later what the abstract map has, be it that it does not
    live now. -/
theorem Refines.get_of_later (h : Refines m w M) (hw : w.Intact) (follows : w'.Follows w)
    {k : ObjectId} (live : w'.Live (.object k)) : w.valueAt? m (.object k) = some (M.get? k) := by
  by_cases now : w.Live (.object k)
  · exact h.get k now
  · -- A key of an entry that is not alive any more will not come back.
    obtain ⟨entries, is⟩ := Option.isSome_iff_exists.1 h.weak
    have unbound : M.get? k = none := Table.get?_eq_none_iff.2 fun mem => now (h.keys k mem)
    rw [valueAt?_of_weakEntries? is, unbound]
    cases found : entries.get? k with
    | none => rfl
    | some v => exact absurd (follows.live (hw.past_of_weakEntry is found) live) now

/-- A step of the map is one of the table, with the entries of the dead left out. -/
theorem Refines.step (h : ¬w.Dead (.object m) → Refines m w M) (hw : w.Intact)
    (step : Step m op w w') :
    w'.Follows w ∧ (¬w'.Dead (.object m) → Refines m w' (w'.living (op.apply M))) := by
  obtain ⟨follows, acts⟩ := step.acts hw fun alive => (h alive).weak
  refine ⟨follows, fun alive => ?_⟩
  have before := h fun dead => alive (follows.outlives _ dead)
  obtain ⟨weak, entry⟩ := acts alive
  refine ⟨weak, fun _ => World.live_of_mem_living, fun k live => ?_⟩
  rw [World.get?_living live, Op.get?_apply]
  exact (entry k _ (before.get_of_later hw follows live)).resolve_right fun dead => dead.2 live

/-- In every run, the weak map refines the abstract map as long as it lives. -/
theorem Run.refines {w₀ : World} {M₀ : Table ObjectId Value} (run : Run m w₀ M₀ w M)
    (hw : w₀.Intact) (h : Refines m w₀ M₀) :
    w.Intact ∧ (¬w.Dead (.object m) → Refines m w M) := by
  induction run with
  | start => exact ⟨hw, fun _ => h⟩
  | step run step ih =>
    obtain ⟨follows, refines⟩ := Refines.step ih.2 ih.1 step
    exact ⟨follows.intact, refines⟩

/-- Whatever a weak map has, it refines what it has for living keys. -/
theorem refines_living {entries : WeakEntries} (is : w.weakEntries? m = some entries) :
    Refines m w (w.living entries.table) := by
  refine ⟨by rw [is]; rfl, fun _ => World.live_of_mem_living, fun k live => ?_⟩
  rw [World.get?_living live]
  exact valueAt?_of_weakEntries? is k

/-! ## Sizes -/

/-- The number of living entries is that of the keys of the abstract map. -/
theorem Refines.liveSize_eq (h : Refines m w M) {entries : WeakEntries}
    (is : w.weakEntries? m = some entries) : entries.liveSize w.lives = M.size := by
  have same : (entries.table.keys.filter w.lives).Perm M.keys := by
    have nodup := entries.table.nodup_keys.sublist (List.filter_sublist (p := w.lives))
    refine (List.perm_ext_iff_of_nodup nodup M.nodup_keys).2 fun k => ?_
    have get (live : w.Live (.object k)) : entries.table.get? k = M.get? k :=
      Option.some.inj ((valueAt?_of_weakEntries? is k).symm.trans (h.get k live))
    rw [List.mem_filter, World.lives_iff]
    simp only [← Table.contains_iff_mem_keys, Table.contains]
    constructor
    · rintro ⟨bound, live⟩
      exact get live ▸ bound
    · intro bound
      have live := h.keys k (Table.contains_iff_mem_keys.1 bound)
      exact ⟨get live ▸ bound, live⟩
  rw [WeakEntries.liveSize, List.countP_eq_length_filter, same.length_eq, Table.length_keys]

/-- Dead entries may be counted, but no living one is missed. -/
theorem Refines.size_le (h : Refines m w M) {entries : WeakEntries}
    (is : w.weakEntries? m = some entries) : M.size ≤ entries.size := by
  rw [← h.liveSize_eq is, WeakEntries.size, ← Table.length_keys]
  exact List.countP_le_length

/-! ## Commands -/

/-- Commands on the weak map `m`, which the expression `map` stands for, tell what the abstract map
    has, and those that change something are steps of the weak map. -/
structure Serves (run : Caller) (m : ObjectId) (w : World) (M : Table ObjectId Value)
    (map : Expr) : Prop where
  get : ∀ (key : Expr) k, key.eval.on w = (.ok (.object k), w) →
    (runCommand run (.mapGet map key none)).on w = (.ok (.entry ((M.get? k).map w.picture)), w)
  has : ∀ (key : Expr) k, key.eval.on w = (.ok (.object k), w) →
    (runCommand run (.mapHas map key)).on w = (.ok (.flag (M.contains k)), w)
  delete : ∀ (key : Expr) k, key.eval.on w = (.ok (.object k), w) →
    ∃ w', (runCommand run (.mapDelete map key)).on w = (.ok (.flag (M.contains k)), w') ∧
      Step m (.delete k) w w'
  set : ∀ (key value : Expr) k v, key.eval.on w = (.ok (.object k), w) →
    value.eval.on w = (.ok v, w) →
    ∃ w', (runCommand run (.mapSet map key value)).on w = (.ok .done, w') ∧ Step m (.set k v) w w'
  prune : ∃ w', (runCommand run (.mapPrune map)).on w = (.ok .done, w') ∧ Step m .prune w w'
  size : ∃ n, M.size ≤ n ∧
    (runCommand run (.mapSize map)).on w = (.ok (.mapSize n (some M.size)), w.settle)

open Eval in
/-- Whoever asks the map for something is answered as by the table. -/
theorem Refines.serves (h : Refines m w M) (hw : w.Intact) (run : Caller) {map : Expr}
    (hmap : map.object.on w = (.ok m, w)) : Serves run m w M map := by
  obtain ⟨entries, is⟩ := Option.isSome_iff_exists.1 h.weak
  -- What an expression stands for has a name, so that it outlasts the command.
  have anchored_of_named {t : Thing} (h : t ∈ [] ∨ t ∈ w.named) : t ∈ w.anchors :=
    World.mem_anchors.2 (.inl (h.resolve_left List.not_mem_nil))
  have anchored {v : Value} {e : Expr} (he : e.eval.on w = (.ok v, w)) : things v ⊆ w.anchors :=
    fun t ht => anchored_of_named ((fetches_eval e).result w v (congrArg Prod.fst he) t ht)
  have map_anchored : .object m ∈ w.anchors :=
    anchored_of_named
      ((fetches_object map).result w m (congrArg Prod.fst hmap) _ (List.mem_singleton_self _))
  have found {k : ObjectId} {e : Expr} (he : e.eval.on w = (.ok (.object k), w)) :
      w.valueAt? m (.object k) = some (M.get? k) :=
    h.get k (hw.live_of_anchor (anchored he (List.mem_singleton_self _)))
  refine
    { get := fun key k hk => on_mapGet hmap hk (found hk)
      has := fun key k hk => on_mapHas hmap hk (found hk)
      delete := fun key k hk => ?_
      set := fun key value k v hk hv => ?_
      prune := ⟨w.pruneAlong entries.table.keys m, ?_, .prune _ map_anchored⟩
      size := ⟨entries.size, h.size_le is, ?_⟩ }
  · have deleted : w.deleteEntry m (.object k) =
        some { w with heap := w.heap.setKind m (.weakMap (entries.erase k)) } := by
      rw [World.deleteEntry, World.kind?_of_weakEntries? is]
      rfl
    exact ⟨_, on_mapDelete hmap hk (found hk) deleted, .delete map_anchored deleted⟩
  · exact ⟨_, on_mapSet hmap hk hv (World.setEntry_of_weakEntries? is),
      .set entries.table.keys map_anchored (anchored hk (List.mem_singleton_self _)) (anchored hv)⟩
  · rw [runCommand, on_bind_of_ok hmap, ← World.prune_of_weakEntries? is]
    rfl
  · rw [runCommand, on_bind_of_ok hmap, on_bind_of_ok (on_see ..), World.kind?_of_weakEntries? is,
      ← h.liveSize_eq is]
    have living : (fun o => w.settle.heap.living.contains o.serial) = w.lives := by
      funext o
      rw [Bool.eq_iff_iff, Heap.contains_living, World.lives]
    rw [← living]
    rfl

end WeakMap

/-- Weak maps refine finite maps of live objects. Take any world in which nothing is held that is
    not there, and from there any run of steps of a weak map, with an abstract map beside it that
    starts with what the weak map has for living keys.

    While the weak map lives, it has for every living key what the abstract map has, and nobody
    gets to know of any other key; the number of its living entries is the number of keys of the
    abstract map, and it has no fewer entries than that. So it answers what the abstract map
    says. A step, whatever dies in it, leaves what a living key reads as it is, unless it is for
    that key; and a key that is new reads nothing. Whatever programs do is a step, if it leaves
    the entries alone. -/
theorem weakMap_refines {m : ObjectId} {w₀ w : World} {entries₀ : WeakEntries}
    {M : Table ObjectId Value} (hw : w₀.Intact) (is : w₀.weakEntries? m = some entries₀)
    (run : WeakMap.Run m w₀ (w₀.living entries₀.table) w M) (live : w.Live (.object m)) :
    (∀ k, w.Live (.object k) → w.valueAt? m (.object k) = some (M.get? k)) ∧
    (∀ k ∈ M.keys, w.Live (.object k)) ∧
    (∃ entries, w.weakEntries? m = some entries ∧ entries.liveSize w.lives = M.size ∧
      M.size ≤ entries.size) ∧
    (∀ (caller : Caller) (map : Expr), map.object.on w = (.ok m, w) →
      WeakMap.Serves caller m w M map) ∧
    (∀ op w', WeakMap.Step m op w w' → w'.Live (.object m) →
      ∀ k, w'.Live (.object k) → op.key? ≠ some k →
        w'.valueAt? m (.object k) =
          if w.lives k then w.valueAt? m (.object k) else some none) ∧
    ∀ (B : Behaviour) (budget n : Nat) (p : Program Action),
      let w' := ((p.run (runAction (B.runner budget n))).on w).2
      (¬w'.Dead (.object m) → w'.weakEntries? m = w.weakEntries? m) →
        WeakMap.Step m .elsewhere w w' := by
  obtain ⟨intact, refines⟩ := run.refines hw (WeakMap.refines_living is)
  have refines := refines fun dead => dead.2 live
  obtain ⟨entries, is⟩ := Option.isSome_iff_exists.1 refines.weak
  refine ⟨refines.get, refines.keys, ⟨entries, is, refines.liveSize_eq is, refines.size_le is⟩,
    fun caller map hmap => refines.serves intact caller hmap,
    fun op w' step live' k livek ne => ?_,
    fun B budget n p same => .elsewhere (intact.follows_run B budget n p) same⟩
  have after := (WeakMap.Refines.step (fun _ => refines) intact step).2 fun dead => dead.2 live'
  rw [after.get k livek, World.get?_living livek, WeakMap.Op.get?_apply, WeakMap.Op.change_of_ne ne]
  -- A key that was not alive before is new, and the abstract map has living keys only.
  split
  · next now => exact (refines.get k now).symm
  · next dead =>
    exact congrArg some (Table.get?_eq_none_iff.2 fun mem => dead (refines.keys k mem))

/-- The key of an entry is dead, and its value is the key of the next one. A look at the entries
    in an unlucky order kills the second key after it has been looked at. -/
theorem weakMap_refines_of_cascade :
    let m := Expr.register "m"
    let a := Expr.register "a"
    let b := Expr.register "b"
    let c := Expr.register "c"
    let w₀ := ((World.initial {}).performAll (List.map Action.command
      [.new .weakMap .standard (some "m"), .new .ordinary .standard (some "a"),
        .new .ordinary .standard (some "b"), .new .ordinary .standard (some "c"),
        .mapSet m a b, .mapSet m b .null, .mapSet m c (.bool true),
        .dropRegisters ["a", "b"]])).2
    let w := w₀.pruneAlong [⟨10⟩, ⟨9⟩, ⟨11⟩] ⟨8⟩
    w₀.Live (.object ⟨10⟩) ∧ ¬w.Live (.object ⟨10⟩) ∧
      w.valueAt? ⟨8⟩ (.object ⟨11⟩) = some (some (.bool true)) ∧
      ∃ entries, w.weakEntries? ⟨8⟩ = some entries ∧ entries.size = 2 ∧
        entries.liveSize w.lives = 1 := by
  intro m a b c w₀ w
  have intact : w₀.Intact := World.intact_performAll {} _
  have is₀ : w₀.weakEntries? ⟨8⟩ = some ((w₀.weakEntries? ⟨8⟩).getD ∅) := by
    have weak : (w₀.weakEntries? ⟨8⟩).isSome := by decide +kernel
    obtain ⟨entries, is⟩ := Option.isSome_iff_exists.1 weak
    rw [is, Option.getD_some]
  have lives : w.lives ⟨8⟩ ∧ w.lives ⟨11⟩ := by decide +kernel
  obtain ⟨get, -, ⟨entries, is, liveSize, -⟩, -⟩ :=
    weakMap_refines intact is₀
      (.step .start (.prune [⟨10⟩, ⟨9⟩, ⟨11⟩] (by decide +kernel))) lives.1
  refine ⟨show w₀.lives ⟨10⟩ by decide +kernel, show ¬w.lives ⟨10⟩ by decide +kernel, ?_,
    entries, is, ?_, ?_⟩
  · rw [get ⟨11⟩ lives.2]
    decide +kernel
  · have size : (w.weakEntries? ⟨8⟩).map (·.size) = some 2 := by decide +kernel
    rw [is] at size
    exact Option.some.inj size
  · rw [liveSize]
    decide +kernel

end Lvalue
