import Lvalue.Proofs.Passing

/-!
# Filing for new wrappers

A primitive value gets a new wrapper in every operation, which nothing knows (`fresh_receiver`,
`not_mem_holds_coerced`). To file a value for it passes by all else (`passes_fileMap`,
`passes_fileWeak`). A map holds the wrapper from then on. A weak map does not, and the operation
holds it no longer than it takes, so that the wrapper is dead when it is over.
-/

namespace Lvalue

open Bearer Eval

/-- A value that has a wrapper is not nullish. -/
theorem isNullish_of_ofPrimitive {base : Value} {i : Intrinsic}
    (hi : Intrinsic.ofPrimitive base = some i) : base.isNullish = false := by
  cases base <;> first | rfl | contradiction

theorem object?_of_ofPrimitive {base : Value} {i : Intrinsic}
    (hi : Intrinsic.ofPrimitive base = some i) : base.object? = none := by
  cases base <;> first | rfl | contradiction

namespace World

variable {w u : World} {m o : ObjectId} {v base : Value} {i : Intrinsic} {t : Thing}

/-! ## New wrappers -/

/-- The world in which a primitive value is taken for an object has a wrapper more. -/
theorem coerced_eq (hi : Intrinsic.ofPrimitive base = some i) :
    w.coerced base = { w with heap := (w.heap.alloc (wrapper base i.id)).2 } := by
  rw [coerced, hi]

/-- The receiver is that wrapper. -/
theorem receiver_eq (hi : Intrinsic.ofPrimitive base = some i) :
    w.receiver base = ⟨w.heap.next⟩ := by
  cases base with
  | object => contradiction
  | _ => rfl

/-- A primitive value holds nothing. -/
theorem things_of_ofPrimitive (hi : Intrinsic.ofPrimitive base = some i) : things base = [] := by
  change base.object?.toList.map _ = _
  rw [object?_of_ofPrimitive hi]
  rfl

/-- A wrapper may be made in every custody. -/
theorem change_coerced {C : Custody} {l : Layer} (order : C.order l w)
    (hi : Intrinsic.ofPrimitive base = some i) :
    (∀ t ∈ things (wrapper base i.id), C.known w t) ∧ C.order l (w.coerced base) ∧
      (∀ t, C.known w t → C.known (w.coerced base) t) ∧
      C.known (w.coerced base) (.object (w.receiver base)) := by
  have held : ∀ t ∈ things (wrapper base i.id), C.known w t := by
    rw [things_wrapper, things_of_ofPrimitive hi]
    simpa using C.known_intrinsic order i
  rw [coerced_eq hi, receiver_eq hi]
  obtain ⟨order', known⟩ := C.change order (.alloc held rfl)
  exact ⟨held, order', known, C.known_alloc order held⟩

/-- Of the objects, only the wrapper is new. -/
theorem get?_coerced (hi : Intrinsic.ofPrimitive base = some i) (o : ObjectId) :
    (w.coerced base).heap.get? o =
      if ⟨w.heap.next⟩ = o then some (wrapper base i.id) else w.heap.get? o := by
  rw [coerced_eq hi]
  exact Heap.get?_alloc ..

theorem get?_receiver (hi : Intrinsic.ofPrimitive base = some i) :
    (w.coerced base).heap.get? (w.receiver base) = some (wrapper base i.id) := by
  rw [receiver_eq hi, get?_coerced hi, if_pos rfl]

theorem get?_coerced_of_past (ho : w.Past (.object o)) (base : Value) :
    (w.coerced base).heap.get? o = w.heap.get? o := by
  have ne : (⟨w.heap.next⟩ : ObjectId) ≠ o := by
    rintro rfl
    exact Nat.lt_irrefl _ ho
  cases hi : Intrinsic.ofPrimitive base with
  | none => rw [coerced, hi]
  | some i => rw [get?_coerced hi, if_neg ne]

/-- What was there is there and holds what it held. -/
theorem holds_coerced (present : w.Present t) (base : Value) :
    (w.coerced base).Present t ∧ (w.coerced base).holds t = w.holds t := by
  cases t with
  | scope s =>
    have same : (w.coerced base).scopes = w.scopes := by
      rw [coerced]
      split <;> rfl
    rw [Present, holds, holds, same]
    exact ⟨present, rfl⟩
  | object o =>
    have same := get?_coerced_of_past (past_of_present present) base
    obtain ⟨x, hx⟩ := present_object.1 present
    exact ⟨present_object.2 ⟨x, same.trans hx⟩, by rw [holds, holds, same]⟩

/-- To take a primitive value for an object passes by all that was there. -/
theorem passes_coerced (hw : w.Intact) (hi : Intrinsic.ofPrimitive base = some i) :
    Passes [] w (w.coerced base) where
  follows := hw.follows_in_custody fun C order => (change_coerced order hi).2.1
  frame := by
    rw [coerced_eq hi]
    exact ⟨_, _, rfl⟩
  next := by
    rw [coerced_eq hi]
    exact Nat.le_succ _
  grounded hh := by
    rw [coerced_eq hi]
    refine hh.alloc fun o ho => ?_
    cases ho
    exact (hw.anchors _ (w.anchored_intrinsic i)).1
  prototype o ho := .inl (by rw [Heap.prototype?, get?_coerced_of_past ho, Heap.prototype?])
  kind o ho _ := .inl (by rw [Heap.kind?, get?_coerced_of_past ho, Heap.kind?])
  named := nofun
  map := nofun
  weak := nofun
  live _ t live := live.mono (by rw [coerced_eq hi]; exact List.Subset.refl _) fun t live => by
    obtain ⟨present, same⟩ := holds_coerced (present_of_live live) base
    exact ⟨present, same ▸ List.Subset.refl _⟩

/-! ## New entries -/

/-- What is held while a value is filed for the object that stands for the base. -/
def heldFiling (w : World) (m : ObjectId) (base v : Value) : List Value :=
  ({ request := .write v, name := m, receiver := w.receiver base } : Visit).held base

/-- The world in which it is filed. -/
def filing (w : World) (m : ObjectId) (base v : Value) : World :=
  (w.coerced base).inside (w.heldFiling m base v)

/-- While an entry is filed, the map and the wrapper are held. -/
theorem mem_things_heldFiling (hi : Intrinsic.ofPrimitive base = some i) (hv : things v = []) :
    t ∈ things (w.heldFiling m base v) ↔ t = .object m ∨ t = .object (w.receiver base) := by
  simp [heldFiling, Visit.held, Request.value?, things_of_ofPrimitive hi, hv]

/-- To file an entry leads to a world that comes after. -/
theorem follows_filing (hw : w.Intact) (hm : w.Live (.object m))
    (hi : Intrinsic.ofPrimitive base = some i) (hv : things v = []) :
    (w.filing m base v).Follows w := by
  refine hw.follows fun D hD => ?_
  have order : (Custody.ownership D).order ⟨0, w.handles.operands⟩ w := ⟨hD, rfl⟩
  obtain ⟨-, order', known, new⟩ := change_coerced order hi
  have held : ∀ t ∈ things ((w.heldFiling m base v).map Reference.value),
      (Custody.ownership D).known (w.coerced base) t := by
    intro t ht
    rw [things_map_value, mem_things_heldFiling hi hv] at ht
    rcases ht with rfl | rfl
    · exact known _ ⟨present_of_live hm, fun dead => hD.not_live dead hm⟩
    · exact new
  exact ((Custody.ownership D).hold order' held).1.evolves (.of_eq rfl rfl rfl rfl)

theorem anchors_coerced (w : World) (base : Value) : (w.coerced base).anchors = w.anchors := by
  rw [coerced]
  split <;> rfl

theorem anchors_inside (w : World) (vs : List Value) : w.anchors ⊆ (w.inside vs).anchors := by
  intro t ht
  rcases List.mem_append.1 ht with ht | ht
  · exact List.mem_append_left _ ht
  · refine List.mem_append_right _ (mem_things_handles.2 ?_)
    refine (mem_things_handles.1 ht).imp_right (.imp_right (.imp_right (.imp_right fun ht => ?_)))
    rw [inside, hold, things_append]
    exact List.mem_append_right _ ht

/-- In it everything holds what it held. -/
theorem holds_filing (w : World) (m : ObjectId) (base v : Value) (t : Thing) :
    (w.filing m base v).holds t = (w.coerced base).holds t := by
  cases t <;> rfl

/-- What is alive stays so while an entry is filed. -/
theorem live_filing (m : ObjectId) (base v : Value) (live : w.Live t) :
    (w.filing m base v).Live t := by
  refine live.mono (anchors_coerced w base ▸ anchors_inside ..) fun t live => ?_
  obtain ⟨present, same⟩ := holds_coerced (present_of_live live) base
  refine ⟨by cases t <;> exact present, ?_⟩
  rw [holds_filing, same]
  exact List.Subset.refl _

/-- What files an entry for the new wrapper passes by all else. -/
theorem passes_of_amends (hw : w.Intact) (hm : w.Live (.object m))
    (hi : Intrinsic.ofPrimitive base = some i) (hv : things v = [])
    (amends : (w.filing m base v).Amends m (replacing (w.receiver base) (some v)) u)
    (next : w.heap.next ≤ u.heap.next)
    (isMap : w.IsMap m)
    (grown : ∀ entries, w.heap.kind? m = some (.map entries) → ∃ entries',
      u.heap.kind? m = some (.map entries') ∧ Grown w 1 entries entries')
    (thinned : ∀ entries, w.weakEntries? m = some entries → ∃ entries',
      u.weakEntries? m = some entries' ∧
        Thinned w (u.outside (w.heldFiling m base v)) True entries entries')
    (live : w.Idle m → ∀ t, w.Live t → (u.outside (w.heldFiling m base v)).Live t) :
    Passes [m] w (u.outside (w.heldFiling m base v)) := by
  -- The frame of the world has not changed meanwhile, so that what was held is let go again.
  have held : u.handles.operands =
      (w.heldFiling m base v).map .value ++ (w.coerced base).handles.operands := by
    obtain ⟨_, _, rfl⟩ := amends.frame
    rfl
  have after := follows_outside amends.follows.intact held
  have coerced := passes_coerced hw hi
  refine
    { follows := after.trans (amends.follows.trans (follows_filing hw hm hi hv))
      frame := ?_
      next
      grounded := fun hh => amends.grounded (coerced.grounded hh)
      prototype := fun o ho => ?_
      kind := fun o ho no => ?_
      named := fun n mem => List.mem_singleton.1 mem ▸ ⟨hm, isMap⟩
      map := fun n mem entries is => ?_
      weak := fun n mem entries is => ?_
      live := fun idle => live (idle m (List.mem_singleton_self m)) }
  · obtain ⟨heap, scopes, rfl⟩ := amends.frame
    refine ⟨heap, scopes, (outside_inside (w.coerced base) _ heap scopes).trans ?_⟩
    rw [coerced_eq hi]
  · refine (amends.prototype o).imp (fun same => same.trans ?_) (after.outlives _)
    change (w.coerced base).heap.prototype? o = _
    rw [Heap.prototype?, get?_coerced_of_past ho, Heap.prototype?]
  · have ne : o ≠ m := fun e => no (List.mem_singleton.2 e)
    refine (amends.kind o ne).imp (fun same => same.trans ?_) (after.outlives _)
    change (w.coerced base).heap.kind? o = _
    rw [Heap.kind?, get?_coerced_of_past ho, Heap.kind?]
  · obtain rfl := List.mem_singleton.1 mem
    rw [List.count_singleton_self]
    exact .inr (grown entries is)
  · obtain rfl := List.mem_singleton.1 mem
    rw [eq_true mem]
    exact .inr (thinned entries is)

/-- The wrapper has not been there before. -/
theorem fresh_receiver (hi : Intrinsic.ofPrimitive base = some i) :
    ¬w.Past (.object (w.receiver base)) := by
  rw [receiver_eq hi]
  exact Nat.lt_irrefl _

/-- A map has no entry for what was not there. -/
theorem entries_of_new (hw : w.Intact) {entries : Entries}
    (is : w.heap.kind? m = some (.map entries)) (new : ¬w.Past (.object o)) :
    entries.get? (.object o) = none := by
  refine Option.eq_none_iff_forall_ne_some.2 fun x found => new ?_
  have mem : .object o ∈ entries.table.keys :=
    Table.contains_iff_mem_keys.1 (Option.isSome_iff_exists.2 ⟨x, found⟩)
  have held := mem_holds_of_kind is
    (things_map.2 (.inl (mem_things.2 ⟨_, mem, List.mem_singleton_self _⟩)))
  exact past_of_present (hw.holds _ id _ held).1

/-- A new wrapper is held by nothing. -/
theorem not_mem_holds_coerced (hw : w.Intact) (hi : Intrinsic.ofPrimitive base = some i)
    (t : Thing) : .object (w.receiver base) ∉ (w.coerced base).holds t := by
  have fresh : ¬w.Past (.object (w.receiver base)) := fresh_receiver hi
  intro held
  by_cases present : w.Present t
  · rw [(holds_coerced present base).2] at held
    exact fresh (past_of_present (hw.holds t id _ held).1)
  · cases t with
    | scope s =>
      have now := present_of_mem_holds held
      rw [coerced_eq hi] at now
      exact present now
    | object o =>
      -- It is the wrapper itself, which holds its prototype alone.
      obtain ⟨x, hx⟩ := present_object.1 (present_of_mem_holds held)
      rw [get?_coerced hi] at hx
      split at hx
      · next e =>
        subst e
        rw [holds, receiver_eq hi, get?_coerced hi, if_pos rfl, things_some, things_wrapper,
          things_of_ofPrimitive hi, List.nil_append, things_objectId, List.mem_singleton] at held
        rw [receiver_eq hi, held] at fresh
        exact fresh (past_of_present (hw.anchors _ (w.anchored_intrinsic i)).1)
      · exact present (present_object.2 ⟨x, hx⟩)

section

variable (hw : w.Intact) (hm : w.Live (.object m)) (hi : Intrinsic.ofPrimitive base = some i)
  (hv : things v = [])

include hm in
/-- The map is still the map that it was. -/
theorem kind?_filing (base v : Value) :
    (w.filing m base v).heap.kind? m = w.heap.kind? m := by
  change (w.coerced base).heap.kind? m = _
  rw [Heap.kind?, get?_coerced_of_past (past_of_present (present_of_live hm)), Heap.kind?]

include hw hm hi hv

theorem amends_filing
    (set : (w.filing m base v).setEntry m (.object (w.receiver base)) v = some u) :
    (w.filing m base v).Amends m (replacing (w.receiver base) (some v)) u := by
  have held {t : Thing} (ht : t = .object m ∨ t = .object (w.receiver base)) :
      t ∈ (w.filing m base v).anchors :=
    mem_anchors_inside ((mem_things_heldFiling hi hv).2 ht)
  exact amends_setEntry (follows_filing hw hm hi hv).intact (held (.inl rfl)) (held (.inr rfl))
    (hv ▸ List.nil_subset _) set

/-- A map files an entry for the new wrapper and passes by all else. -/
theorem passes_fileMap {entries : Entries} (is : w.heap.kind? m = some (.map entries))
    (set : (w.filing m base v).setEntry m (.object (w.receiver base)) v = some u) :
    Passes [m] w (u.outside (w.heldFiling m base v)) := by
  have amends := amends_filing hw hm hi hv set
  have now : (w.filing m base v).heap.kind? m = some (.map entries) :=
    (kind?_filing hm base v).trans is
  rw [setEntry, now] at set
  obtain rfl := Option.some.inj set
  have new := entries_of_new hw is (fresh_receiver hi)
  refine passes_of_amends hw hm hi hv amends (passes_coerced hw hi).next (.inl ⟨_, is⟩)
    (fun entries' is' => ?_) (fun entries' is' => ?_) fun _ t live => ?_
  · cases is.symm.trans is'
    refine ⟨entries.insert (.object (w.receiver base)) v,
      (Heap.kind?_setKind ..).trans (by rw [if_pos rfl, now, Option.map_some]),
      Table.size_insert_of_absent new, fun k old => ?_⟩
    rw [Entries.get?_insert, if_neg]
    -- A key that is the wrapper would not be among the old ones.
    intro e
    have mem : .object (w.receiver base) ∈ things k := by
      rw [← things_canonical, ← e]
      exact List.mem_singleton_self _
    obtain ⟨o, rfl, same⟩ := mem_things_value.1 mem
    exact fresh_receiver hi (same ▸ old o rfl)
  · cases is.symm.trans (kind?_of_weakEntries? is')
  · -- The map holds all that it held, so that what was alive still is.
    have after := outside_inside (w.coerced base) (w.heldFiling m base v)
      ((w.coerced base).heap.setKind m (.map (entries.insert (.object (w.receiver base)) v)))
      (w.coerced base).scopes
    have live := (passes_coerced hw hi).stays live
    refine after ▸ live_setKind now (fun t ht => ?_) live
    refine things_map.2 ((things_map.1 ht).imp (fun ht => ?_) fun ht => ?_)
    · obtain ⟨k, mem, ht⟩ := mem_things.1 ht
      exact mem_things.2 ⟨k, Table.mem_keys_insert.2 (.inr mem), ht⟩
    · obtain ⟨x, mem, ht⟩ := mem_things.1 ht
      obtain ⟨k, found⟩ := Table.mem_values.1 mem
      refine mem_things.2 ⟨x, Table.mem_values.2 ⟨k, ?_⟩, ht⟩
      refine (Table.get?_insert ..).trans ((if_neg ?_).trans found)
      rintro rfl
      cases new.symm.trans found

end

/-! ## New entries of weak maps

A weak map looks at all its entries before. So it files the new one in a world `p` with fewer
entries, and then all that was held for the time is held no more. -/

/-- The world in which the weak map has filed the value after that. -/
def filed (w p : World) (m : ObjectId) (left : WeakEntries) (base v : Value) : World :=
  { w.coerced base with
    heap := p.heap.setKind m (.weakMap (left.insert (w.receiver base) v))
    scopes := p.scopes }

section

variable {p : World} {entries left : WeakEntries}

theorem holds_filed (w p : World) (m : ObjectId) (left : WeakEntries) (base v : Value) (t : Thing) :
    (w.filed p m left base v).holds t = ({ p with
      heap := p.heap.setKind m (.weakMap (left.insert (w.receiver base) v)) } : World).holds t := by
  cases t <;> rfl

/-- What is there does not depend on the entries of a map. -/
theorem present_filed : (w.filed p m left base v).Present t ↔ p.Present t := by
  rw [← present_setKind p m (.weakMap (left.insert (w.receiver base) v)) t]
  cases t <;> exact Iff.rfl

variable (thins : Thins m (w.filing m base v) p)
include thins

/-- What is live in the end was live before the new entry, and has not come to hold anything. -/
theorem live_of_filed (here : p.weakEntries? m = some left) (hv : things v = [])
    (live : (w.filed p m left base v).Live t) :
    p.Live t ∧ (w.filed p m left base v).holds t ⊆ (w.coerced base).holds t := by
  have less : things (Kind.weakMap (left.insert (w.receiver base) v)) ⊆
      things (Kind.weakMap left) :=
    things_weakMap_mono fun k x found => by
      rw [WeakEntries.get?_insert] at found
      split at found
      · exact .inl (Option.some.inj found ▸ hv)
      · exact .inr found
  have holds (t : Thing) : (w.filed p m left base v).holds t ⊆ p.holds t := by
    have := holds_setKind_mono (w := p) (m := m) less t
    rwa [setKind_self (kind?_of_weakEntries? here), ← holds_filed] at this
  have before : p.Live t := by
    refine Live.mono (u := w.filed p m left base v) ?_ (fun t live => ⟨?_, holds t⟩) live
    · rw [thins.anchors]
      exact anchors_inside (w.coerced base) _
    · exact present_filed.1 (present_of_live live)
  refine ⟨before, fun t' held => ?_⟩
  rw [← holds_filing w m base v]
  exact (thins.kept before).2 (holds t held)

variable (hw : w.Intact) (hi : Intrinsic.ofPrimitive base = some i)
  (is : w.weakEntries? m = some entries)
  (kept : ∀ k x, entries.get? k = some x → p.Live (.object k) → left.get? k = some x)
include hw hi is kept

/-- If the dead entries held nothing, so that what lives outlasts that they go, it is live in the
    end. -/
theorem live_filed (hm : w.Live (.object m)) (idle : w.Idle m)
    (stays : ∀ t, (w.filing m base v).Live t → p.Live t) (live : w.Live t) :
    (w.filed p m left base v).Live t := by
  have stays (t : Thing) (live : w.Live t) : p.Live t := stays t (live_filing m base v live)
  have now : (w.filing m base v).heap.kind? m = some (.weakMap entries) :=
    (kind?_filing hm base v).trans (kind?_of_weakEntries? is)
  have more : things (Kind.weakMap entries) ⊆
      things (Kind.weakMap (left.insert (w.receiver base) v)) := by
    refine things_weakMap_mono fun k x found => ?_
    by_cases alive : w.Live (.object k)
    · refine .inr ?_
      rw [WeakEntries.get?_insert, if_neg, kept k x found (stays _ alive)]
      exact fun e => fresh_receiver hi (e ▸ hw.past_of_weakEntry is found)
    · exact .inl (idle entries is k x found alive)
  refine Live.mono (u := w) ?_ (fun t live => ⟨?_, ?_⟩) live
  · exact anchors_coerced w base ▸ List.Subset.refl _
  · exact present_filed.2 (present_of_live (stays t live))
  · rw [holds_filed, thins.holds_setKind (stays t live),
      ← (holds_coerced (present_of_live live) base).2, ← holds_filing w m base v]
    have := holds_setKind_mono (w := w.filing m base v) (m := m) more t
    rwa [setKind_self now] at this

/-- The weak map has dropped entries of dead keys, and has got one for the wrapper, which is dead
    in the end. -/
theorem thinned_filed (hv : things v = []) (follows : (w.filing m base v).Follows w)
    (here : p.weakEntries? m = some left)
    (old : ∀ k x, left.get? k = some x →
      entries.get? k = some x ∧ (w.filing m base v).Live (.object k)) :
    Thinned w (w.filed p m left base v) True entries (left.insert (w.receiver base) v) := by
  have fresh : ¬w.Past (.object (w.receiver base)) := fresh_receiver hi
  have ne {k : ObjectId} (past : w.Past (.object k)) : w.receiver base ≠ k :=
    fun e => fresh (e ▸ past)
  have left_of {k : ObjectId} {x : Value} (past : w.Past (.object k))
      (found : (left.insert (w.receiver base) v).get? k = some x) :
      entries.get? k = some x ∧ (w.filing m base v).Live (.object k) := by
    rw [WeakEntries.get?_insert, if_neg (ne past)] at found
    exact old k x found
  have wrapper {k : ObjectId} {x : Value} (new : ¬w.Past (.object k))
      (found : (left.insert (w.receiver base) v).get? k = some x) :
      k = w.receiver base ∧ v = x := by
    rw [WeakEntries.get?_insert] at found
    split at found
    · next e => exact ⟨e.symm, Option.some.inj found⟩
    · exact absurd (hw.past_of_weakEntry is (old k x found).1) new
  refine
    { same := fun no => absurd trivial no
      sub := fun k x found past => (left_of past found).1
      kept := fun k x found live => ?_
      dropped := fun _ k x found past => follows.live past (left_of past found).2
      single := ⟨_, fun k x found new => (wrapper new found).1⟩
      dead := fun k x found new => ?_ }
  · rw [WeakEntries.get?_insert, if_neg (ne (hw.past_of_weakEntry is found))]
    exact kept k x found (live_of_filed thins here hv live).1
  · -- Nothing holds the wrapper, and it is not held from outside.
    obtain ⟨rfl, rfl⟩ := wrapper new found
    refine ⟨hv, fun live => ?_⟩
    rcases held_of_live live with anchored | ⟨t, live, held⟩
    · exact fresh (past_of_present (hw.anchors _ (anchors_coerced w base ▸ anchored)).1)
    · exact not_mem_holds_coerced hw hi t ((live_of_filed thins here hv live).2 held)

end

/-- A weak map files an entry for the new wrapper, when it has looked at all its entries, and passes
    by all else. -/
theorem passes_fileWeak (hw : w.Intact) (hm : w.Live (.object m))
    (hi : Intrinsic.ofPrimitive base = some i) (hv : things v = []) {entries : WeakEntries}
    (is : w.weakEntries? m = some entries)
    (set : (w.filing m base v).setEntry m (.object (w.receiver base)) v = some u) :
    Passes [m] w (u.outside (w.heldFiling m base v)) := by
  have amends := amends_filing hw hm hi hv set
  have follows := follows_filing hw hm hi hv
  have now : (w.filing m base v).weakEntries? m = some entries := by
    rw [weakEntries?, kind?_filing hm, ← weakEntries?, is]
  have anchored : .object m ∈ (w.filing m base v).anchors :=
    mem_anchors_inside ((mem_things_heldFiling hi hv).2 (.inl rfl))
  -- What is left after the look at all entries is `left`, in a world `p` of which only heap and
  -- scopes are new.
  obtain ⟨left, here, old, kept⟩ := pruned (List.Subset.refl entries.table.keys) anchored now
  have thins := thins_pruneAlong entries.table.keys now anchored
  have next := next_pruneAlong (w.filing m base v) m entries.table.keys
  have stays (idle : w.Idle m) (t : Thing) (live : (w.filing m base v).Live t) :
      ((w.filing m base v).pruneAlong entries.table.keys m).Live t := by
    refine live_pruneAlong_of_idle anchored now (fun entries' is' k x found dead => ?_) live
    cases now.symm.trans is'
    exact idle entries is k x found fun live => dead (live_filing m base v live)
  obtain ⟨heap, scopes, frame⟩ :=
    (amends_pruneAlong follows.intact anchored entries.table.keys).frame
  rw [setEntry_of_weakEntries? now, setAlong, here, Option.elim_some] at set
  generalize (w.filing m base v).pruneAlong entries.table.keys m = p at *
  obtain rfl := Option.some.inj set
  have after :
    World.outside { p with heap := p.heap.setKind m (.weakMap (left.insert (w.receiver base) v)) }
      (w.heldFiling m base v) = w.filed p m left base v := by
    subst frame
    exact outside_inside (w.coerced base) (w.heldFiling m base v)
      (heap.setKind m (.weakMap (left.insert (w.receiver base) v))) scopes
  refine passes_of_amends hw hm hi hv amends ?_ (.inr ⟨_, kind?_of_weakEntries? is⟩)
    (fun _ is' => ?_) (fun entries' is' => ?_) fun idle t live => ?_
  · change w.heap.next ≤ p.heap.next
    rw [next]
    exact (passes_coerced hw hi).next
  · cases is'.symm.trans (kind?_of_weakEntries? is)
  · obtain rfl := Option.some.inj (is.symm.trans is')
    rw [after]
    exact ⟨_, weakEntries?_setKind _ here, thinned_filed thins hw hi is kept hv follows here old⟩
  · rw [after]
    exact live_filed thins hw hi is kept hm idle (stays idle) live

end World

end Lvalue
