import Lvalue.Proofs.WeakMap

/-!
# Pruning

A weak map that is pruned looks at each of its entries once, and drops it if the key is dead
at that moment. With an entry goes all that its value alone held, and this may be the key
of an entry that has had its look already: then the entry stays, dead, and so does its
value. Whether this happens depends on the order of the looks, and whether it can happen
depends on what would be left if all dead entries went at one stroke (`World.swept`): a key
that lives now and would die then can be caught after its look, and where there is none,
no order leaves a dead entry (`pruning_complete_iff`).

All worlds that come up here are the first one with fewer entries in the weak map
(`World.Thins`). Fewer entries hold fewer things, so that less is alive.
-/

namespace Lvalue

open Bearer

/-- From `w` to `u`, the weak map `m` may have lost entries, and things may have died. All that
    is alive is as it was. -/
structure World.Thins (m : ObjectId) (w u : World) : Prop where
  anchors : u.anchors = w.anchors
  scopes : ∀ s, u.Live (.scope s) → u.scopes.get? s = w.scopes.get? s
  objects : ∀ o, o ≠ m → u.Live (.object o) → u.heap.get? o = w.heap.get? o
  map : ∃ left entries : WeakEntries, w.weakEntries? m = some entries ∧
    u.heap.get? m = (w.heap.get? m).map ({ · with kind := .weakMap left }) ∧
    ∀ k v, left.get? k = some v → entries.get? k = some v

/-- The world in which the weak map `m` has lost the entries of all keys that are dead, at one
    stroke. -/
def World.swept (w : World) (m : ObjectId) (entries : WeakEntries) : World :=
  { w with heap := w.heap.setKind m (.weakMap ⟨w.living entries.table⟩) }

namespace World

variable {w u u' : World} {m k : ObjectId} {t : Thing} {entries left : WeakEntries}

/-- The object of a weak map. -/
theorem object_of_weakEntries? (is : w.weakEntries? m = some entries) :
    ∃ x, w.heap.get? m = some x ∧ x.kind = .weakMap entries :=
  Option.map_eq_some_iff.1 (kind?_of_weakEntries? is)

theorem weakEntries?_of_kind {x : Object} (hx : w.heap.get? m = some x)
    (kind : x.kind = .weakMap entries) : w.weakEntries? m = some entries := by
  rw [weakEntries?, Heap.kind?, hx, Option.map_some, kind]

/-! ## Worlds with fewer entries -/

namespace Thins

theorem refl (is : w.weakEntries? m = some entries) : Thins m w w := by
  obtain ⟨x, hx, kind⟩ := object_of_weakEntries? is
  refine ⟨rfl, fun _ _ => rfl, fun _ _ _ => rfl, entries, entries, is, ?_, fun _ _ => id⟩
  rw [hx, Option.map_some, ← kind]

/-- What is live was there and held no less. -/
theorem kept (h : Thins m w u) (live : u.Live t) : w.Present t ∧ u.holds t ⊆ w.holds t := by
  cases t with
  | scope s =>
    have same := h.scopes s live
    obtain ⟨c, hc⟩ := present_scope.1 (present_of_live live)
    refine ⟨present_scope.2 ⟨c, same ▸ hc⟩, ?_⟩
    rw [holds, holds, same]
    exact List.Subset.refl _
  | object o =>
    by_cases e : o = m
    · subst e
      obtain ⟨left, entries, is, hu, sub⟩ := h.map
      obtain ⟨x, hx, kind⟩ := object_of_weakEntries? is
      refine ⟨present_object.2 ⟨x, hx⟩, fun t ht => ?_⟩
      simp only [holds, hu, hx, Option.map_some, things_some, things_properties,
        List.mem_append] at ht ⊢
      -- What the map holds differs by the values of entries.
      refine ht.imp_left fun ht => ht.imp_left fun ht => ?_
      obtain ⟨v, mem, ht⟩ := mem_things.1 (things_weakMap.1 ht)
      obtain ⟨k, hk⟩ := Table.mem_values.1 mem
      exact kind ▸ things_weakEntry (sub k v hk) ht
    · have same := h.objects o e live
      obtain ⟨x, hx⟩ := present_object.1 (present_of_live live)
      refine ⟨present_object.2 ⟨x, same ▸ hx⟩, ?_⟩
      rw [holds, holds, same]
      exact List.Subset.refl _

theorem live (h : Thins m w u) (live : u.Live t) : w.Live t :=
  live.mono (h.anchors ▸ List.Subset.refl _) fun _ => h.kept

/-- What has become of the weak map, by the entries that it has. -/
theorem map_of (h : Thins m w u) (is : w.weakEntries? m = some entries)
    (his : u.weakEntries? m = some left) :
    u.heap.get? m = (w.heap.get? m).map ({ · with kind := .weakMap left }) ∧
      ∀ k v, left.get? k = some v → entries.get? k = some v := by
  obtain ⟨left', entries', is', hu, sub⟩ := h.map
  obtain ⟨x, hx, -⟩ := object_of_weakEntries? is
  obtain rfl : entries' = entries := Option.some.inj (is'.symm.trans is)
  have kind : u.weakEntries? m = some left' := weakEntries?_of_kind (by rw [hu, hx]; rfl) rfl
  obtain rfl : left' = left := Option.some.inj (kind.symm.trans his)
  exact ⟨hu, sub⟩

theorem trans (h : Thins m w u) (h' : Thins m u u') : Thins m w u' where
  anchors := h'.anchors.trans h.anchors
  scopes s live := (h'.scopes s live).trans (h.scopes s (h'.live live))
  objects o ne live := (h'.objects o ne live).trans (h.objects o ne (h'.live live))
  map := by
    obtain ⟨-, entries, is, -⟩ := h.map
    obtain ⟨left', left, his, hu', sub'⟩ := h'.map
    obtain ⟨hu, sub⟩ := h.map_of is his
    refine ⟨left', entries, is, ?_, fun k v hk => sub k v (sub' k v hk)⟩
    rw [hu', hu, Option.map_map]
    rfl

end Thins

/-- To settle kills nothing that is alive. -/
theorem live_settle (live : w.Live t) : w.settle.Live t :=
  live.mono (anchors_settle w ▸ List.Subset.refl _) fun t live => by
    rw [holds_settle live]
    exact ⟨live, List.Subset.refl _⟩

theorem thins_settle (is : w.weakEntries? m = some entries) (hm : w.Live (.object m)) :
    Thins m w w.settle where
  anchors := rfl
  scopes s live := by rw [get?_scopes_settle, if_pos (live_scope.1 (present_of_live live)).1]
  objects o _ live := by rw [get?_heap_settle, if_pos (live_object.1 (present_of_live live)).1]
  map := by
    obtain ⟨x, hx, kind⟩ := object_of_weakEntries? is
    refine ⟨entries, entries, is, ?_, fun _ _ => id⟩
    rw [get?_heap_settle, if_pos (live_object.1 hm).1, hx, Option.map_some, ← kind]

theorem thins_setKind (is : w.weakEntries? m = some entries)
    (sub : ∀ k v, left.get? k = some v → entries.get? k = some v) :
    Thins m w { w with heap := w.heap.setKind m (.weakMap left) } where
  anchors := rfl
  scopes _ _ := rfl
  objects _ ne _ := (Heap.get?_update ..).trans (if_neg ne.symm)
  map := ⟨left, entries, is, (Heap.get?_update ..).trans (if_pos rfl), sub⟩

/-- To settle leaves the entries of a live weak map alone. -/
theorem weakEntries?_settle (hm : w.Live (.object m)) :
    w.settle.weakEntries? m = w.weakEntries? m := by
  have same : w.settle.heap.kind? m = w.heap.kind? m := by
    rw [Heap.kind?, get?_heap_settle, if_pos (live_object.1 hm).1, Heap.kind?]
  rw [weakEntries?, weakEntries?, same]

theorem weakEntries?_setKind (left : WeakEntries) (is : w.weakEntries? m = some entries) :
    ({ w with heap := w.heap.setKind m (.weakMap left) } : World).weakEntries? m = some left := by
  rw [weakEntries?, Heap.kind?_setKind, if_pos rfl, kind?_of_weakEntries? is]
  rfl

theorem live_of_weakEntries? (is : w.weakEntries? m = some entries) (hm : .object m ∈ w.anchors) :
    w.Live (.object m) := by
  obtain ⟨x, hx, -⟩ := object_of_weakEntries? is
  exact live_of_held (present_object.2 ⟨x, hx⟩) (.inl hm)

/-! ## Looks at entries -/

/-- A world in which nothing is left that is dead. -/
def Settled (w : World) : Prop := ∀ o, w.heap.alive o → w.Live (.object o)

/-- To settle a world leaves it settled. -/
theorem settled_settle (w : World) : w.settle.Settled := fun _ alive => live_settle alive

/-- In the settled world `w`, the weak map `m` with some entries looks at those for some keys. In
    the world `u` that comes of it, those are left whose key lives then, and those that had no
    look; and none is left whose key was dead at first and that had a look. -/
structure Looks (m : ObjectId) (ks : List ObjectId) (entries left : WeakEntries) (w u : World) :
    Prop where
  thins : Thins m w u
  settled : u.Settled
  is : u.weakEntries? m = some left
  sub : ∀ k v, left.get? k = some v → entries.get? k = some v
  dropped : ∀ k ∈ ks, ¬w.Live (.object k) → left.get? k = none
  kept : ∀ k v, entries.get? k = some v → u.Live (.object k) ∨ k ∉ ks → left.get? k = some v

/-- The look at one entry. -/
theorem looks_visit (settled : w.Settled) (is : w.weakEntries? m = some entries)
    (hm : .object m ∈ w.anchors) (k : ObjectId) :
    ∃ left, Looks m [k] entries left w (w.visit m k) := by
  cases alive : w.heap.alive k with
  | true =>
    rw [visit_of_alive alive]
    refine ⟨entries, .refl is, settled, is, fun _ _ => id, fun k' mem dead => ?_, fun _ _ h _ => h⟩
    rw [List.mem_singleton.1 mem] at dead
    exact absurd (settled k alive) dead
  | false =>
    have sub (k' : ObjectId) (v : Value) (h : (entries.erase k).get? k' = some v) :
        entries.get? k' = some v := by
      rw [WeakEntries.get?_erase] at h
      split at h
      · contradiction
      · exact h
    have erased := thins_setKind is sub
    -- The entry goes, and with it whatever it alone had held; the map itself stays.
    have is' := weakEntries?_setKind (entries.erase k) is
    have hm' := live_of_weakEntries? is' hm
    have dying : ¬w.Live (.object k) := fun live =>
      Bool.false_ne_true (alive.symm.trans (present_of_live live))
    rw [visit, is]
    dsimp only
    rw [alive]
    have thins := erased.trans (thins_settle is' hm')
    refine ⟨entries.erase k, thins, settled_settle _, (weakEntries?_settle hm').trans is', sub,
      fun k' mem _ => ?_, fun k' v found live => ?_⟩
    · rw [List.mem_singleton.1 mem, WeakEntries.get?_erase, if_pos rfl]
    · have ne : k ≠ k' := by
        rintro rfl
        exact live.elim (fun live => dying (thins.live live)) fun no =>
          no (List.mem_singleton_self _)
      rw [WeakEntries.get?_erase, if_neg ne, found]

/-- Looks at some entries and then at others. -/
theorem Looks.append {ks ks' : List ObjectId} {left' : WeakEntries}
    (h : Looks m ks entries left w u) (h' : Looks m ks' left left' u u') :
    Looks m (ks ++ ks') entries left' w u' where
  thins := h.thins.trans h'.thins
  settled := h'.settled
  is := h'.is
  sub k v found := h.sub k v (h'.sub k v found)
  dropped k mem dead := by
    rcases List.mem_append.1 mem with mem | mem
    · cases found : left'.get? k with
      | none => rfl
      | some v => cases (h'.sub k v found).symm.trans (h.dropped k mem dead)
    · exact h'.dropped k mem fun live => dead (h.thins.live live)
  kept k v found live := by
    have here := h.kept k v found (live.imp h'.thins.live fun no mem =>
      no (List.mem_append_left _ mem))
    exact h'.kept k v here (live.imp_right fun no mem => no (List.mem_append_right _ mem))

/-- The looks at some entries, one after the other. -/
theorem looks_foldl (ks : List ObjectId) (settled : w.Settled)
    (is : w.weakEntries? m = some entries) (hm : .object m ∈ w.anchors) :
    ∃ left, Looks m ks entries left w (ks.foldl (visit m) w) := by
  induction ks generalizing w entries with
  | nil => exact ⟨entries, .refl is, settled, is, fun _ _ => id, nofun, fun _ _ h _ => h⟩
  | cons k ks ih =>
    obtain ⟨_, first⟩ := looks_visit settled is hm k
    obtain ⟨left, rest⟩ := ih first.settled first.is (first.thins.anchors ▸ hm)
    exact ⟨left, first.append rest⟩

/-- To prune is to settle and then to look at entries. -/
theorem looks_pruneAlong (order : List ObjectId) (is : w.weakEntries? m = some entries)
    (hm : .object m ∈ w.anchors) :
    Thins m w w.settle ∧ ∃ left, Looks m order entries left w.settle (w.pruneAlong order m) := by
  have live := live_of_weakEntries? is hm
  rw [pruneAlong_eq_foldl]
  exact ⟨thins_settle is live, looks_foldl order (settled_settle w)
    ((weakEntries?_settle live).trans is) hm⟩

/-- To prune a map leaves it some of its entries, as they were. -/
theorem thins_pruneAlong (order : List ObjectId) (is : w.weakEntries? m = some entries)
    (hm : .object m ∈ w.anchors) : Thins m w (w.pruneAlong order m) := by
  obtain ⟨settled, _, looks⟩ := looks_pruneAlong order is hm
  exact settled.trans looks.thins

/-- Nothing is made when a map is pruned. -/
theorem next_pruneAlong (w : World) (m : ObjectId) (order : List ObjectId) :
    (w.pruneAlong order m).heap.next = w.heap.next := by
  have visit (w : World) (k : ObjectId) : (w.visit m k).heap.next = w.heap.next := by
    rw [World.visit]
    split
    · split <;> rfl
    · rfl
  have looks (ks : List ObjectId) (w : World) :
      (ks.foldl (World.visit m) w).heap.next = w.heap.next := by
    induction ks generalizing w with
    | nil => rfl
    | cons k ks ih => exact (ih _).trans (visit w k)
  rw [pruneAlong_eq_foldl]
  exact looks order w.settle

/-! ## All dead entries at one stroke -/

/-- What is dead goes from the greater world without a trace in the lesser one. -/
theorem Thins.settle (h : Thins m w u) (hm : w.Live (.object m)) : Thins m w.settle u where
  anchors := h.anchors
  scopes s live := by
    rw [h.scopes s live, get?_scopes_settle, if_pos (live_scope.1 (h.live live)).1]
  objects o ne live := by
    rw [h.objects o ne live, get?_heap_settle, if_pos (live_object.1 (h.live live)).1]
  map := by
    obtain ⟨left, entries, is, hu, sub⟩ := h.map
    refine ⟨left, entries, (weakEntries?_settle hm).trans is, ?_, sub⟩
    rw [hu, get?_heap_settle, if_pos (live_object.1 hm).1]

/-- So do entries that the lesser one does not have. -/
theorem Thins.setKind {entries' : WeakEntries} (h : Thins m w u)
    (his : u.weakEntries? m = some left)
    (sub : ∀ k v, left.get? k = some v → entries'.get? k = some v) :
    Thins m { w with heap := w.heap.setKind m (.weakMap entries') } u where
  anchors := h.anchors
  scopes := h.scopes
  objects o ne live :=
    (h.objects o ne live).trans ((Heap.get?_update ..).trans (if_neg ne.symm)).symm
  map := by
    obtain ⟨-, entries, is, -⟩ := h.map
    refine ⟨left, entries', weakEntries?_setKind _ is, ?_, sub⟩
    rw [(h.map_of is his).1, Heap.setKind, Heap.get?_update, if_pos rfl, Option.map_map]
    rfl

/-- What is live in the lesser world differs by the kind of the map alone. -/
theorem Thins.holds_setKind (h : Thins m w u) (live : u.Live t) (kind : Kind) :
    ({ u with heap := u.heap.setKind m kind } : World).holds t =
      ({ w with heap := w.heap.setKind m kind } : World).holds t := by
  cases t with
  | scope s => exact congrArg things (h.scopes s live)
  | object o =>
    refine congrArg things ?_
    rw [Heap.setKind, Heap.setKind, Heap.get?_update, Heap.get?_update]
    by_cases e : m = o
    · subst e
      obtain ⟨left, entries, -, hu, -⟩ := h.map
      rw [if_pos rfl, if_pos rfl, hu, Option.map_map]
      rfl
    · rw [if_neg e, if_neg e, h.objects o (Ne.symm e) live]

/-- A weak map whose keys all live has none of the entries that looks drop. -/
theorem Thins.visit (h : Thins m w u) (hm : .object m ∈ w.anchors)
    (his : u.weakEntries? m = some left) (living : ∀ k, left.contains k → u.Live (.object k))
    (k : ObjectId) : Thins m (w.visit m k) u := by
  obtain ⟨-, entries, is, -⟩ := h.map
  cases alive : w.heap.alive k with
  | true => rwa [visit_of_alive alive]
  | false =>
    rw [World.visit, is]
    dsimp only
    rw [alive]
    have erased : Thins m { w with heap := w.heap.setKind m (.weakMap (entries.erase k)) } u := by
      refine h.setKind his fun k' v found => ?_
      have live := living k' (Option.isSome_iff_exists.2 ⟨v, found⟩)
      have ne : k ≠ k' := by
        rintro rfl
        exact Bool.false_ne_true (alive.symm.trans (present_of_live (h.live live)))
      rw [WeakEntries.get?_erase, if_neg ne, (h.map_of is his).2 k' v found]
    exact erased.settle (live_of_weakEntries? (weakEntries?_setKind _ is) hm)

theorem Thins.pruneAlong (h : Thins m w u) (hm : .object m ∈ w.anchors)
    (his : u.weakEntries? m = some left) (living : ∀ k, left.contains k → u.Live (.object k))
    (order : List ObjectId) : Thins m (w.pruneAlong order m) u := by
  have anchored : .object m ∈ u.anchors := h.anchors ▸ hm
  have looks {w : World} (h : Thins m w u) : Thins m (order.foldl (World.visit m) w) u := by
    induction order generalizing w with
    | nil => exact h
    | cons k ks ih => exact ih (h.visit (h.anchors ▸ anchored) his living k)
  obtain ⟨-, entries, is, -⟩ := h.map
  rw [pruneAlong_eq_foldl]
  exact looks (h.settle (live_of_weakEntries? is hm))

/-- What is left by looks at all entries: none is one of a key that was dead at first, and of those
    whose keys live in the end all are there. -/
theorem pruned {order : List ObjectId} (all : entries.table.keys ⊆ order)
    (hm : .object m ∈ w.anchors) (is : w.weakEntries? m = some entries) :
    ∃ left, (w.pruneAlong order m).weakEntries? m = some left ∧
      (∀ k v, left.get? k = some v → entries.get? k = some v ∧ w.Live (.object k)) ∧
      ∀ k v, entries.get? k = some v → (w.pruneAlong order m).Live (.object k) →
        left.get? k = some v := by
  obtain ⟨thins, left, looks⟩ := looks_pruneAlong order is hm
  refine ⟨left, looks.is, fun k v found => ?_,
    fun k v found live => looks.kept k v found (.inl live)⟩
  have here := looks.sub k v found
  refine ⟨here, Classical.not_not.1 fun dead => ?_⟩
  have looked : k ∈ order :=
    all (Table.contains_iff_mem_keys.1 (Option.isSome_iff_exists.2 ⟨v, here⟩))
  cases found.symm.trans (looks.dropped k looked fun live => dead (thins.live live))

/-- If no key that lives would die without the dead entries, what would live then outlasts the
    looks. -/
theorem live_of_swept {order : List ObjectId} (hm : .object m ∈ w.anchors)
    (is : w.weakEntries? m = some entries)
    (stays : ∀ k, entries.contains k → w.Live (.object k) → (w.swept m entries).Live (.object k))
    (live : (w.swept m entries).Live t) : (w.pruneAlong order m).Live t := by
  have sub (k : ObjectId) (v : Value) (found : (w.living entries.table).get? k = some v) :
      entries.get? k = some v ∧ w.Live (.object k) := by
    have live := live_of_mem_living
      (Table.contains_iff_mem_keys.1 (Option.isSome_iff_exists.2 ⟨v, found⟩))
    exact ⟨(get?_living live).symm.trans found, live⟩
  have swept : Thins m w (w.swept m entries) := thins_setKind is fun k v found => (sub k v found).1
  have living (k : ObjectId) (h : (⟨w.living entries.table⟩ : WeakEntries).contains k) :
      (w.swept m entries).Live (.object k) := by
    obtain ⟨v, found⟩ := Option.isSome_iff_exists.1 h
    obtain ⟨here, live⟩ := sub k v found
    exact stays k (Option.isSome_iff_exists.2 ⟨v, here⟩) live
  exact (swept.pruneAlong hm (weakEntries?_setKind _ is) living order).live live

/-- What outlasts looks at all entries would live without the dead entries. -/
theorem swept_of_live {order : List ObjectId} (hm : .object m ∈ w.anchors)
    (is : w.weakEntries? m = some entries) (all : entries.table.keys ⊆ order)
    (live : (w.pruneAlong order m).Live t) : (w.swept m entries).Live t := by
  obtain ⟨thins, left, looks⟩ := looks_pruneAlong order is hm
  obtain ⟨left', is', old, -⟩ := pruned all hm is
  have whole : Thins m (w.swept m entries) (w.pruneAlong order m) :=
    (thins.trans looks.thins).setKind is' fun k v found =>
      (get?_living (old k v found).2).trans (old k v found).1
  exact whole.live live

/-! ## Entries that hold nothing -/

/-- The dead entries of the weak map hold nothing. -/
def Idle (w : World) (m : ObjectId) : Prop :=
  ∀ entries, w.weakEntries? m = some entries →
    ∀ k v, entries.get? k = some v → ¬w.Live (.object k) → things v = []

/-- An object holds more if it becomes what holds more. -/
theorem holds_setKind_mono {kind kind' : Kind} (sub : things kind ⊆ things kind') (t : Thing) :
    ({ w with heap := w.heap.setKind m kind } : World).holds t ⊆
      ({ w with heap := w.heap.setKind m kind' } : World).holds t := by
  cases t with
  | scope s => exact List.Subset.refl _
  | object o =>
    rw [holds, holds, Heap.setKind, Heap.setKind, Heap.get?_update, Heap.get?_update]
    split
    · cases w.heap.get? o with
      | none => exact List.Subset.refl _
      | some x =>
        intro t ht
        simp only [Option.map_some, things_some, things_properties, List.mem_append] at ht ⊢
        exact ht.imp_left (.imp_left (sub ·))
    · exact List.Subset.refl _

theorem setKind_self {kind : Kind} (is : w.heap.kind? m = some kind) :
    ({ w with heap := w.heap.setKind m kind } : World) = w := by
  obtain ⟨x, hx, rfl⟩ := Option.map_eq_some_iff.1 is
  rw [Heap.setKind, Heap.update_of_fixed fun y hy => ?_]
  rw [hx] at hy
  cases hy
  rfl

theorem present_setKind (w : World) (m : ObjectId) (kind : Kind) (t : Thing) :
    ({ w with heap := w.heap.setKind m kind } : World).Present t ↔ w.Present t := by
  cases t with
  | scope s => exact Iff.rfl
  | object o => exact Bool.coe_iff_coe.2 (Heap.alive_update ..)

theorem live_setKind {kind kind' : Kind} (is : w.heap.kind? m = some kind)
    (sub : things kind ⊆ things kind') (live : w.Live t) :
    ({ w with heap := w.heap.setKind m kind' } : World).Live t := by
  have more (t : Thing) :
      w.holds t ⊆ ({ w with heap := w.heap.setKind m kind' } : World).holds t := by
    have := holds_setKind_mono (w := w) (m := m) sub t
    rwa [setKind_self is] at this
  exact Live.mono (u := w) (List.Subset.refl w.anchors)
    (fun t live => ⟨(present_setKind ..).2 (present_of_live live), more t⟩) live

/-- A weak map holds no less if it has all entries but those that hold nothing. -/
theorem things_weakMap_mono {entries entries' : WeakEntries}
    (h : ∀ k x, entries.get? k = some x → things x = [] ∨ entries'.get? k = some x) :
    things (Kind.weakMap entries) ⊆ things (Kind.weakMap entries') := by
  intro t ht
  obtain ⟨x, mem, ht⟩ := mem_things.1 (things_weakMap.1 ht)
  obtain ⟨k, hk⟩ := Table.mem_values.1 mem
  rcases h k x hk with none | here
  · exact absurd (none ▸ ht) List.not_mem_nil
  · exact things_weakEntry here ht

/-- If the dead entries hold nothing, nothing dies of it that they go. -/
theorem live_pruneAlong_of_idle {order : List ObjectId} (hm : .object m ∈ w.anchors)
    (is : w.weakEntries? m = some entries) (idle : w.Idle m) (live : w.Live t) :
    (w.pruneAlong order m).Live t := by
  have swept {t : Thing} (live : w.Live t) : (w.swept m entries).Live t := by
    refine live_setKind (kind?_of_weakEntries? is) (things_weakMap_mono fun k x found => ?_) live
    by_cases alive : w.Live (.object k)
    · exact .inr ((get?_living alive).trans found)
    · exact .inl (idle entries is k x found alive)
  exact live_of_swept hm is (fun _ _ => swept) (swept live)

end World

/-- When pruning is complete. Take any weak map that is held from outside, in any world.

    Whatever the order in which it looks at its entries, as long as it looks at all: no entry is
    left whose key was dead at first, those that are left are old ones, and the entries of keys
    that live in the end are among them. So the dead entries that may be left are those of keys
    that lived at first. And there are none, in any order, exactly if no key that lives would die
    if all dead entries went at one stroke: then all entries are alive, and there are as many as
    there are living keys. -/
theorem pruning_complete_iff {w : World} {m : ObjectId} {entries : WeakEntries}
    (hm : .object m ∈ w.anchors) (is : w.weakEntries? m = some entries) :
    (∀ order, entries.table.keys ⊆ order → ∃ left,
      (w.pruneAlong order m).weakEntries? m = some left ∧
      (∀ k v, left.get? k = some v → entries.get? k = some v ∧ w.Live (.object k)) ∧
      ∀ k v, entries.get? k = some v → (w.pruneAlong order m).Live (.object k) →
        left.get? k = some v) ∧
    ((∀ order, order.Perm entries.table.keys → ∃ left,
        (w.pruneAlong order m).weakEntries? m = some left ∧
        (∀ k, left.contains k → (w.pruneAlong order m).Live (.object k)) ∧
        left.size = left.liveSize (w.pruneAlong order m).lives) ↔
      ∀ k, entries.contains k → w.Live (.object k) → (w.swept m entries).Live (.object k)) := by
  refine ⟨fun order all => World.pruned all hm is, fun complete k bound live => ?_,
    fun stays order perm => ?_⟩
  · -- The entry of a key that lives at first stays if it has the first look.
    have mem := Table.contains_iff_mem_keys.1 bound
    have perm := (List.perm_cons_erase mem).symm
    obtain ⟨left, is', living, -⟩ := complete _ perm
    obtain ⟨v, found⟩ := Option.isSome_iff_exists.1 bound
    have stays : left.get? k = some v := by
      rw [World.pruneAlong_eq_foldl, List.foldl_cons, World.visit_of_alive live,
        ← World.pruneAlong_eq_foldl] at is'
      obtain ⟨-, left', looks⟩ := World.looks_pruneAlong (entries.table.keys.erase k) is hm
      obtain rfl := Option.some.inj (looks.is.symm.trans is')
      exact looks.kept k v found (.inr entries.table.nodup_keys.not_mem_erase)
    have alive := living k (Option.isSome_iff_exists.2 ⟨v, stays⟩)
    exact World.swept_of_live hm is perm.symm.subset alive
  · obtain ⟨left, is', old, -⟩ := World.pruned perm.symm.subset hm is
    have living (k : ObjectId) (bound : left.contains k) :
        (w.pruneAlong order m).Live (.object k) := by
      obtain ⟨v, found⟩ := Option.isSome_iff_exists.1 bound
      obtain ⟨here, live⟩ := old k v found
      exact World.live_of_swept hm is stays
        (stays k (Option.isSome_iff_exists.2 ⟨v, here⟩) live)
    refine ⟨left, is', living, ?_⟩
    rw [WeakEntries.size, ← Table.length_keys, WeakEntries.liveSize]
    exact (List.countP_eq_length.2 fun k mem => living k (Table.contains_iff_mem_keys.2 mem)).symm

/-- The key of an entry is dead, and its value is the key of another one that something else
    holds. -/
theorem pruning_complete_iff_of_held :
    let m := Expr.register "m"
    let a := Expr.register "a"
    let b := Expr.register "b"
    let w := ((World.initial {}).performAll (List.map Action.command
      [.new .weakMap .standard (some "m"), .new .ordinary .standard (some "a"),
        .new .ordinary .standard (some "b"), .mapSet m b .null, .mapSet m a b,
        .dropRegisters ["a"]])).2
    ∀ order : List ObjectId, order.Perm [⟨10⟩, ⟨9⟩] →
      ∃ left, (w.pruneAlong order ⟨8⟩).weakEntries? ⟨8⟩ = some left ∧
        left.size = left.liveSize (w.pruneAlong order ⟨8⟩).lives := by
  intro m a b w order perm
  have anchored : .object ⟨8⟩ ∈ w.anchors := by decide +kernel
  have weak : (w.weakEntries? ⟨8⟩).isSome := by decide +kernel
  obtain ⟨entries, is⟩ := Option.isSome_iff_exists.1 weak
  have keys : (w.weakEntries? ⟨8⟩).map (·.table.keys) = some [⟨10⟩, ⟨9⟩] := by decide +kernel
  have stays : (w.weakEntries? ⟨8⟩).all fun entries => entries.table.keys.all fun k =>
      !w.lives k || (w.swept ⟨8⟩ entries).lives k := by decide +kernel
  clear_value w
  rw [is] at keys stays
  have keys : entries.table.keys = [⟨10⟩, ⟨9⟩] := Option.some.inj keys
  have stays (k : ObjectId) (bound : entries.contains k) (live : w.Live (.object k)) :
      (w.swept ⟨8⟩ entries).Live (.object k) := by
    have := List.all_eq_true.1 stays k (Table.contains_iff_mem_keys.1 bound)
    simpa [World.lives_iff.2 live] using this
  obtain ⟨left, is', -, size⟩ :=
    (pruning_complete_iff anchored is).2.2 stays order (keys ▸ perm)
  exact ⟨left, is', size⟩

/-- The key of an entry is dead, and its value is the key of another one that nothing else holds.
    It dies after its look, and its entry stays. -/
theorem pruning_incomplete_of_cascade :
    let m := Expr.register "m"
    let a := Expr.register "a"
    let b := Expr.register "b"
    let w := ((World.initial {}).performAll (List.map Action.command
      [.new .weakMap .standard (some "m"), .new .ordinary .standard (some "a"),
        .new .ordinary .standard (some "b"), .mapSet m b .null, .mapSet m a b,
        .dropRegisters ["a", "b"]])).2
    let u := w.prune ⟨8⟩
    ¬w.lives ⟨9⟩ ∧ w.lives ⟨10⟩ ∧ ¬u.lives ⟨10⟩ ∧
      u.valueAt? ⟨8⟩ (.object ⟨10⟩) = some (some .null) ∧
      (u.weakEntries? ⟨8⟩).map (fun left => (left.size, left.liveSize u.lives)) = some (1, 0) := by
  decide +kernel

end Lvalue
