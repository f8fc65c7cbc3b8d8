import Mathlib.Data.Set.Card
import Lvalue.Proofs.Entries
import Lvalue.Proofs.Equality

/-!
# Maps

A map has for every key the value that the key was last set to, and keys that stand for the
same are one (`Value.SameValueZero`). What has been done to the map is its *history*, the
latest call first. A key was last set to a value if the latest call for it, under whatever
name, is the one that set it (`MapCall.LastSet`); and the map has as many entries as there
are classes of keys with a value (`MapCall.bound`).

The entries are filed under canonical forms. The step from there to the classes of keys is
that no two forms stand for the same (`Entries.canonical_of_mem_keys`).
-/

namespace Lvalue

open Bearer

/-! ## The history of a map -/

/-- A call that changes a map. -/
inductive MapCall where
  | set (k v : Value)
  | delete (k : Value)

namespace MapCall

/-- The key that the call is for. -/
def key : MapCall → Value
  | set k _ | delete k => k

/-- The value that the call leaves for its key. -/
def value? : MapCall → Option Value
  | set _ v => some v
  | delete _ => none

/-- What the call makes of the entries. -/
def apply (t : Entries) : MapCall → Entries
  | set k v => t.insert k v
  | delete k => t.erase k

/-- The key was last set to `v`: some call has done that, be it under another key for the same
    entry, and no call was for that entry since. -/
def LastSet (history : List MapCall) (k v : Value) : Prop :=
  ∃ later k' earlier, history = later ++ set k' v :: earlier ∧ k'.SameValueZero k ∧
    ∀ c ∈ later, ¬c.key.SameValueZero k

/-- The classes of keys that have a value. -/
def bound (history : List MapCall) : Set (Quotient Value.sameValueZero) :=
  {c | ∃ k v, Quotient.mk _ k = c ∧ LastSet history k v}

variable {c : MapCall} {history : List MapCall} {k v : Value}

theorem get?_apply (c : MapCall) (t : Entries) (k : Value) :
    (c.apply t).get? k = if c.key.SameValueZero k then c.value? else t.get? k := by
  simp only [← Value.canonical_eq_iff]
  cases c with
  | set k' v => exact Entries.get?_insert t k' k v
  | delete k' => exact Entries.get?_erase t k' k

theorem lastSet_cons_of_same (h : c.key.SameValueZero k) :
    LastSet (c :: history) k v ↔ c.value? = some v := by
  constructor
  · rintro ⟨_ | ⟨c', later⟩, k', earlier, split, -, since⟩
    · rw [(List.cons.inj split).1]
      rfl
    · obtain rfl := (List.cons.inj split).1
      exact absurd h (since c (List.mem_cons_self ..))
  · intro hv
    cases c with
    | set k' v' =>
      obtain rfl := Option.some.inj hv
      exact ⟨[], k', history, rfl, h, List.forall_mem_nil _⟩
    | delete k' => contradiction

theorem lastSet_cons_of_not (h : ¬c.key.SameValueZero k) :
    LastSet (c :: history) k v ↔ LastSet history k v := by
  constructor
  · rintro ⟨_ | ⟨c', later⟩, k', earlier, split, same, since⟩
    · obtain rfl := (List.cons.inj split).1
      exact absurd same h
    · exact ⟨later, k', earlier, (List.cons.inj split).2, same,
        fun c hc => since c (List.mem_cons_of_mem _ hc)⟩
  · rintro ⟨later, k', earlier, rfl, same, since⟩
    exact ⟨c :: later, k', earlier, rfl, same, List.forall_mem_cons.2 ⟨h, since⟩⟩

end MapCall

open MapCall

/-! ## The entries of a map -/

namespace Entries

/-- The entries after a history of calls, the latest call first. -/
def after : List MapCall → Entries
  | [] => ∅
  | c :: earlier => c.apply (after earlier)

variable {history : List MapCall} {k v : Value}

/-- Every key has the value that it was last set to. -/
theorem get?_after_eq_some_iff : (after history).get? k = some v ↔ LastSet history k v := by
  induction history with
  | nil => exact ⟨nofun, fun ⟨later, _, _, split, _⟩ => by cases later <;> contradiction⟩
  | cons c earlier ih =>
    rw [after, get?_apply]
    split
    · next same => exact (lastSet_cons_of_same same).symm
    · next other => exact ih.trans (lastSet_cons_of_not other).symm

theorem contains_after_iff : (after history).contains k ↔ ∃ v, LastSet history k v := by
  simp only [← get?_after_eq_some_iff]
  exact Option.isSome_iff_exists

/-! ### Sizes -/

/-- The entries are filed under canonical forms. -/
theorem canonical_of_mem_keys (h : k ∈ (after history).table.keys) : k.canonical = k := by
  induction history with
  | nil => cases h
  | cons c earlier ih =>
    cases c with
    | set k' v =>
      rcases Table.mem_keys_insert.1 h with rfl | old
      · exact k'.canonical_canonical
      · exact ih old
    | delete k' => exact ih (Table.mem_keys_of_filter h)

/-- A class of keys has a value if one of its keys is that of an entry. -/
theorem bound_eq_image (history : List MapCall) :
    bound history = Quotient.mk _ '' {k | k ∈ (after history).table.keys} := by
  ext c
  constructor
  · rintro ⟨k, v, rfl, last⟩
    have filed : k.canonical ∈ (after history).table.keys :=
      Table.contains_iff_mem_keys.1 (contains_after_iff.2 ⟨v, last⟩)
    exact ⟨k.canonical, filed, Quotient.sound (Value.canonical_eq_iff.1 k.canonical_canonical)⟩
  · rintro ⟨k, filed, rfl⟩
    have bound : (after history).contains k := by
      rw [contains, get?, canonical_of_mem_keys filed]
      exact Table.contains_iff_mem_keys.2 filed
    obtain ⟨v, last⟩ := contains_after_iff.1 bound
    exact ⟨k, v, rfl, last⟩

/-- There are as many entries as classes of keys with a value. -/
theorem encard_bound (history : List MapCall) :
    (bound history).encard = ((after history).size : ℕ∞) := by
  have apart : Set.InjOn (Quotient.mk Value.sameValueZero)
      {k | k ∈ (after history).table.keys} := by
    intro k hk k' hk' same
    rw [← canonical_of_mem_keys hk, ← canonical_of_mem_keys hk']
    exact Value.canonical_eq_iff.2 (Quotient.exact same)
  have nodup := (after history).table.nodup_keys
  rw [bound_eq_image, apart.encard_image, ← List.coe_toFinset, Set.encard_coe_eq_coe_finsetCard,
    List.toFinset_card_of_nodup nodup, Table.length_keys]
  rfl

end Entries

/-! ## Runs -/

namespace Map

/-- One step of the map `m`, and the calls in it. -/
inductive Step (m : ObjectId) : List MapCall → World → World → Prop
  | set {w w' : World} {k v : Value} (done : w.setEntry m k v = some w') : Step m [.set k v] w w'
  | delete {w w' : World} {k : Value} (done : w.deleteEntry m k = some w') :
    Step m [.delete k] w w'
  /-- What happens elsewhere leaves the entries alone. -/
  | elsewhere {w w' : World} (same : w'.heap.kind? m = w.heap.kind? m) : Step m [] w w'

/-- Steps one after the other, from the world `w₀` on, and the history that they make. -/
inductive Run (m : ObjectId) (w₀ : World) : List MapCall → World → Prop
  | start : Run m w₀ [] w₀
  | step {calls history : List MapCall} {w w' : World} (run : Run m w₀ history w)
    (step : Step m calls w w') : Run m w₀ (calls ++ history) w'

variable {m : ObjectId} {w w' w₀ : World} {calls history : List MapCall}

theorem Step.kind? (step : Step m calls w w') (is : w.heap.kind? m = some (.map (.after history))) :
    w'.heap.kind? m = some (.map (.after (calls ++ history))) := by
  cases step with
  | set done | delete done =>
    simp only [World.setEntry, World.deleteEntry, is] at done
    obtain rfl := Option.some.inj done
    rw [Heap.kind?_setKind, if_pos rfl, is]
    rfl
  | elsewhere same => exact same.trans is

/-- In every run of a map that is new at first, the entries are those that the history makes. -/
theorem Run.kind? (run : Run m w₀ history w) (new : w₀.heap.kind? m = some (.map ∅)) :
    w.heap.kind? m = some (.map (.after history)) := by
  induction run with
  | start => exact new
  | step _ step ih => exact step.kind? ih

/-! ## Commands -/

/-- Commands on the map `m`, which the expression `map` stands for, tell what the entries `t` are,
    and those that change something are steps of the map. -/
structure Serves (run : Caller) (m : ObjectId) (w : World) (t : Entries) (map : Expr) : Prop where
  get : ∀ (key : Expr) k, key.eval.on w = (.ok k, w) →
    (runCommand run (.mapGet map key none)).on w = (.ok (.entry ((t.get? k).map w.picture)), w)
  has : ∀ (key : Expr) k, key.eval.on w = (.ok k, w) →
    (runCommand run (.mapHas map key)).on w = (.ok (.flag (t.contains k)), w)
  delete : ∀ (key : Expr) k, key.eval.on w = (.ok k, w) →
    ∃ w', (runCommand run (.mapDelete map key)).on w = (.ok (.flag (t.contains k)), w') ∧
      Step m [.delete k] w w'
  set : ∀ (key value : Expr) k v, key.eval.on w = (.ok k, w) → value.eval.on w = (.ok v, w) →
    ∃ w', (runCommand run (.mapSet map key value)).on w = (.ok .done, w') ∧
      Step m [.set k v] w w'
  size : (runCommand run (.mapSize map)).on w = (.ok (.mapSize t.size none), w)

open Eval in
theorem serves_of_kind? {t : Entries} (is : w.heap.kind? m = some (.map t)) (run : Caller)
    {map : Expr} (hmap : map.object.on w = (.ok m, w)) : Serves run m w t map := by
  have found (k : Value) : w.valueAt? m k = some (t.get? k) := by
    rw [World.valueAt?, is]
  exact
    { get := fun key k hk => on_mapGet hmap hk (found k)
      has := fun key k hk => on_mapHas hmap hk (found k)
      delete := fun key k hk =>
        have deleted : w.deleteEntry m k =
            some { w with heap := w.heap.setKind m (.map (t.erase k)) } := by
          rw [World.deleteEntry, is]
        ⟨_, on_mapDelete hmap hk (found k) deleted, .delete deleted⟩
      set := fun key value k v hk hv =>
        have changed : w.setEntry m k v =
            some { w with heap := w.heap.setKind m (.map (t.insert k v)) } := by
          rw [World.setEntry, is]
        ⟨_, on_mapSet hmap hk hv changed, .set changed⟩
      size := by
        rw [runCommand, on_bind_of_ok hmap, on_bind_of_ok (on_see ..), is]
        rfl }

/-- A map keeps the objects alive that are keys of its entries. -/
theorem live_of_contains {t : Entries} (is : w.heap.kind? m = some (.map t)) (hw : w.Intact)
    (live : w.Live (.object m)) {o : ObjectId} (bound : t.contains (.object o)) :
    w.Live (.object o) := by
  -- An object is its own canonical form, so that it is a key of the table as it stands.
  have filed : .object o ∈ t.table.keys := Table.contains_iff_mem_keys.1 bound
  have held : o ∈ t.objects :=
    List.mem_filterMap.2 ⟨_, List.mem_append_left _ filed, rfl⟩
  exact hw.live_of_held (.inr ⟨_, live, World.mem_holds_of_kind is (List.mem_map_of_mem held)⟩)

end Map

/-- A map is a finite map on classes of keys. Take any history of calls that set or delete an entry,
    with keys of any kind.

    A key has the value that it was last set to, and none if it was never set or has been deleted
    since; numbers that are equal are one key there, as are all words that are no number. The size
    is the number of classes of keys that have a value. In every run with this history of a map
    that is new at first, commands tell so, and a delete answers whether the key had a value
    before it. An object that is a key stays alive as long as the map does, so that its identity
    is not that of another one. -/
theorem map_has_lastSet (history : List MapCall) :
    let t := Entries.after history
    (∀ k v, t.get? k = some v ↔ LastSet history k v) ∧
    (∀ k, t.contains k ↔ ∃ v, LastSet history k v) ∧
    (bound history).encard = (t.size : ℕ∞) ∧
    ∀ m w₀ w, w₀.heap.kind? m = some (.map ∅) → Map.Run m w₀ history w →
      w.heap.kind? m = some (.map t) ∧
      (∀ (caller : Caller) (map : Expr), map.object.on w = (.ok m, w) →
        Map.Serves caller m w t map) ∧
      (w.Intact → w.Live (.object m) → ∀ o, t.contains (.object o) → w.Live (.object o)) := by
  refine ⟨fun k v => Entries.get?_after_eq_some_iff, fun k => Entries.contains_after_iff,
    Entries.encard_bound history, fun m w₀ w new run => ?_⟩
  have is := run.kind? new
  exact ⟨is, fun caller map hmap => Map.serves_of_kind? is caller hmap,
    fun intact live o bound => Map.live_of_contains is intact live bound⟩

/-- A map whose entry for one zero is found under the other, and which deletes an entry that it has
    got under another word for no number. -/
theorem map_has_lastSet_of_zeros :
    let minusZero : Value := .number ⟨0x8000000000000000⟩
    let notNumber : Value := .number .nan
    let other : Value := .number ⟨0xfff0000000000001⟩
    let history : List MapCall :=
      [.delete other, .set notNumber .null, .set minusZero (.bool true)]
    let new : Object := { kind := .map ∅, prototype := some Intrinsic.map.id }
    let w₀ : World := { World.initial {} with heap := (Heap.initial.alloc new).2 }
    ∃ w, Map.Run ⟨8⟩ w₀ history w ∧
      w.valueAt? ⟨8⟩ (.number .zero) = some (some (.bool true)) ∧
      w.valueAt? ⟨8⟩ notNumber = some none ∧ (bound history).encard = 1 := by
  intro minusZero notNumber other history new w₀
  have is₀ : w₀.heap.kind? ⟨8⟩ = some (.map ∅) := rfl
  obtain ⟨w, run⟩ : ∃ w, Map.Run ⟨8⟩ w₀ history w :=
    ⟨_, .step (.step (.step .start (.set rfl)) (.set rfl)) (.delete rfl)⟩
  obtain ⟨get, has, size, world⟩ := map_has_lastSet history
  have is := (world ⟨8⟩ w₀ w is₀ run).1
  have found (k : Value) : w.valueAt? ⟨8⟩ k = some ((Entries.after history).get? k) := by
    rw [World.valueAt?, is]
  have last : LastSet history (.number .zero) (.bool true) :=
    ⟨[.delete other, .set notNumber .null], minusZero, [], rfl, by decide, by decide⟩
  refine ⟨w, run, ?_, ?_, size⟩
  · rw [found, (get ..).2 last]
  · rw [found]
    rfl

end Lvalue
