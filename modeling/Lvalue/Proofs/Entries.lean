import Lvalue.Proofs.Ancestry

/-!
# Entries

What an operation on one map does to the world. Apart from what is dead afterwards, the map
has for every key the entry that the operation makes of the one it had, and all else is as
it was (`World.Amends`).

For a weak map that is not plain: to look at its entries, in whatever order, releases the
values of dead keys, which may kill the keys of other entries, and so on. But no dead thing
comes back (`World.Follows`), so that the entry of a key that lives in the end was never
touched (`World.amends_pruneAlong`). What a command answers is told by what the map has for its
key (`on_mapGet` and so on).
-/

namespace Lvalue

open Bearer

/-- What a kind of object has for an object as the key; nothing if it is no map. -/
def Kind.slot? : Kind → ObjectId → Option (Option Value)
  | .map entries, k => some (entries.get? (.object k))
  | .weakMap entries, k => some (entries.get? k)
  | _, _ => none

/-- One entry is replaced, and the others stay. -/
def replacing (k : ObjectId) (new : Option Value) (k' : ObjectId) (old : Option Value) :
    Option Value :=
  if k = k' then new else old

namespace World

variable {w w' w'' : World} {m k o : ObjectId} {v : Value} {t : Thing}

theorem valueAt?_object (w : World) (m k : ObjectId) :
    w.valueAt? m (.object k) = (w.heap.kind? m).bind (·.slot? k) := by
  rw [valueAt?]
  rcases w.heap.kind? m with _ | _ | _ | _ | _ | _ <;> rfl

/-! ## What comes after a world -/

/-- `w'` comes after `w`: nothing is held that is not there, and no dead thing has come back. -/
structure Follows (w' w : World) : Prop where
  intact : w'.Intact
  outlives : w'.Outlives w

theorem Follows.refl (hw : w.Intact) : w.Follows w := ⟨hw, fun _ => id⟩

theorem Follows.trans (h' : w''.Follows w') (h : w'.Follows w) : w''.Follows w :=
  ⟨h'.intact, fun t dead => h'.outlives t (h.outlives t dead)⟩

/-- What is live was live, if it was there at all. -/
theorem Follows.live (h : w'.Follows w) (past : w.Past t) (live : w'.Live t) : w.Live t :=
  Classical.not_not.1 fun dead => (h.outlives t ⟨past, dead⟩).2 live

/-- What keeps a world sealed off from whatever is dead leads to one that comes after it. -/
theorem Sealed.follows (hw : w.Intact) (h : ∀ D, w.Sealed D → w'.Sealed D) : w'.Follows w :=
  ⟨h _ hw, (h _ hw.dead).outlives⟩

/-- Where a run stands that works on the operands of the world. -/
abbrev layer (w : World) : Layer := ⟨0, w.handles.operands⟩

/-- So does whatever is kept in every custody. -/
theorem Sealed.follows_in_custody (hw : w.Intact)
    (h : ∀ C : Custody, C.order w.layer w → C.order w.layer w') : w'.Follows w :=
  hw.follows fun D hD => (h (.ownership D) ⟨hD, rfl⟩).1

/-- Whatever a program does to a world leads to one that comes after it. -/
theorem Sealed.follows_run (hw : w.Intact) (B : Behaviour) (budget n : Nat) (p : Program Action) :
    ((p.run (runAction (B.runner budget n))).on w).2.Follows w :=
  hw.follows_in_custody fun C order => (B.run_in_custody id budget n p C (S := fun _ => True)
    (fun _ _ _ _ => trivial) order).2

theorem Sealed.live_of_anchor (hw : w.Intact) (h : t ∈ w.anchors) : w.Live t :=
  hw.live_of_held (.inl h)

/-- To settle touches nothing but what is dead. -/
theorem get?_settle_or_dead (w : World) (o : ObjectId) :
    w.settle.heap.get? o = w.heap.get? o ∨ w.settle.Dead (.object o) := by
  by_cases live : w.Live (.object o)
  · exact .inl (by rw [get?_heap_settle, if_pos (live_object.1 live).1])
  · cases hx : w.heap.get? o with
    | none => exact .inl (by simp [hx])
    | some x =>
      have past : w.Past (.object o) := past_of_present (present_object.2 ⟨x, hx⟩)
      exact .inr ⟨past, fun live' => live (present_of_live live')⟩

/-- The key of an entry of a weak map was there. -/
theorem Sealed.past_of_weakEntry (hw : w.Intact) {entries : WeakEntries}
    (is : w.weakEntries? m = some entries) (found : entries.get? k = some v) :
    w.Past (.object k) := by
  obtain ⟨x, hx, kind⟩ := Option.map_eq_some_iff.1 (kind?_of_weakEntries? is)
  refine hw.designates k (.inr ⟨m, x, hx, ?_⟩)
  rw [kind]
  exact Table.contains_iff_mem_keys.1 (Option.isSome_iff_exists.2 ⟨v, found⟩)

/-! ## Operations on a map -/

/-- From `w` to `w'`, the entries of the map `m` become what `f` makes of them, and all else
    stays, except for what is dead in `w'`. -/
structure Amends (m : ObjectId) (f : ObjectId → Option Value → Option Value) (w w' : World) :
    Prop where
  follows : w'.Follows w
  frame : ∃ heap scopes, w' = { w with heap, scopes }
  alive : ∀ o, w'.heap.alive o → w.heap.alive o
  grounded : w.heap.Grounded → w'.heap.Grounded
  prototype : ∀ o, w'.heap.prototype? o = w.heap.prototype? o ∨ w'.Dead (.object o)
  kind : ∀ o, o ≠ m → w'.heap.kind? o = w.heap.kind? o ∨ w'.Dead (.object o)
  /-- A weak map stays one. -/
  weak : (w'.weakEntries? m).isSome = (w.weakEntries? m).isSome
  entry : ∀ k x, w.valueAt? m (.object k) = some x →
    w'.valueAt? m (.object k) = some (f k x) ∨ w'.Dead (.object k)

namespace Amends

variable {f g : ObjectId → Option Value → Option Value}

theorem refl (hw : w.Intact) : Amends m (fun _ => id) w w where
  follows := .refl hw
  frame := ⟨w.heap, w.scopes, rfl⟩
  alive _ := id
  grounded := id
  prototype _ := .inl rfl
  kind _ _ := .inl rfl
  weak := rfl
  entry _ _ := .inl

theorem trans (h : Amends m f w w') (h' : Amends m g w' w'') :
    Amends m (fun k x => g k (f k x)) w w'' where
  follows := h'.follows.trans h.follows
  frame := by
    obtain ⟨_, _, rfl⟩ := h.frame
    obtain ⟨heap, scopes, rfl⟩ := h'.frame
    exact ⟨heap, scopes, rfl⟩
  alive o ho := h.alive o (h'.alive o ho)
  grounded hh := h'.grounded (h.grounded hh)
  prototype o := by
    rcases h.prototype o with same | dead
    · exact same ▸ h'.prototype o
    · exact .inr (h'.follows.outlives _ dead)
  kind o ne := by
    rcases h.kind o ne with same | dead
    · exact same ▸ h'.kind o ne
    · exact .inr (h'.follows.outlives _ dead)
  weak := h'.weak.trans h.weak
  entry k x hx := by
    rcases h.entry k x hx with now | dead
    · exact h'.entry k _ now
    · exact .inr (h'.follows.outlives _ dead)

/-- The anchors are as they were. -/
theorem anchors_eq (h : Amends m f w w') : w'.anchors = w.anchors := by
  obtain ⟨_, _, rfl⟩ := h.frame
  rfl

end Amends

theorem amends_setKind {f : ObjectId → Option Value → Option Value} {old new : Kind}
    (is : w.heap.kind? m = some old)
    (follows : Follows { w with heap := w.heap.setKind m new } w)
    (weak : (match new with | .weakMap _ => true | _ => false) =
      match old with | .weakMap _ => true | _ => false)
    (entry : ∀ k x, old.slot? k = some x → new.slot? k = some (f k x) ∨ w.Dead (.object k)) :
    Amends m f w { w with heap := w.heap.setKind m new } where
  follows := follows
  frame := ⟨_, _, rfl⟩
  alive o ho := (Heap.alive_update ..).symm.trans ho
  grounded hh := hh.update _ fun _ => rfl
  prototype o := .inl (Heap.prototype?_setKind ..)
  kind o ne := .inl ((Heap.kind?_setKind ..).trans (if_neg ne.symm))
  weak := by
    rw [weakEntries?, weakEntries?, Heap.kind?_setKind, if_pos rfl, is, Option.map_some]
    cases old <;> cases new <;> simp_all
  entry k x hx := by
    rw [valueAt?_object, is, Option.bind_some] at hx
    rw [valueAt?_object, Heap.kind?_setKind, if_pos rfl, is, Option.map_some, Option.bind_some]
    exact (entry k x hx).imp_right (follows.outlives _)

/-- To settle changes nothing of the entries of a map that is held from outside. -/
theorem amends_settle (hw : w.Intact) (hm : .object m ∈ w.anchors) :
    Amends m (fun _ => id) w w.settle := by
  have follows : w.settle.Follows w := hw.follows_in_custody fun C => C.settle
  -- The map is alive, and what is alive is as it was.
  have map : w.settle.heap.kind? m = w.heap.kind? m := by
    rcases w.get?_settle_or_dead m with same | dead
    · rw [Heap.kind?, same, Heap.kind?]
    · exact absurd (follows.intact.live_of_anchor hm) dead.2
  exact
    { follows
      frame := ⟨_, _, rfl⟩
      alive := fun o => present_of_live (t := .object o)
      grounded := grounded_settle
      prototype := fun o => (w.get?_settle_or_dead o).imp_left fun same => by
        rw [Heap.prototype?, same, Heap.prototype?]
      kind := fun o _ => (w.get?_settle_or_dead o).imp_left fun same => by
        rw [Heap.kind?, same, Heap.kind?]
      weak := by rw [weakEntries?, weakEntries?, map]
      entry := fun k x hx => .inl (by rwa [valueAt?_object, map, ← valueAt?_object]) }

/-- The entry that a weak map drops when it looks at it is that of a dead key. -/
theorem amends_visit (hw : w.Intact) (hm : .object m ∈ w.anchors) (k : ObjectId) :
    Amends m (fun _ => id) w (w.visit m k) := by
  rw [visit]
  split
  · next entries is =>
    split
    · exact .refl hw
    · next dying =>
      have follows : Follows { w with heap := w.heap.setKind m (.weakMap (entries.erase k)) } w :=
        hw.follows_in_custody fun C order =>
          (C.change order (.weakErase k (Custody.known_of_anchor order rfl hm) is)).1
      -- The only entry that is missed is that of `k`, which had been there and is dead.
      have dropped := amends_setKind (f := fun _ => id) (kind?_of_weakEntries? is) follows rfl
        fun k' x hx => by
          obtain rfl : entries.get? k' = x := Option.some.inj hx
          by_cases e : k = k'
          · subst e
            cases found : entries.get? k with
            | none => exact .inl (by simp [Kind.slot?])
            | some v =>
              exact .inr ⟨hw.past_of_weakEntry is found, fun live => dying (present_of_live live)⟩
          · exact .inl (by simp [Kind.slot?, e])
      exact dropped.trans (amends_settle follows.intact (dropped.anchors_eq ▸ hm))
  · exact .refl hw

/-- To prune a weak map changes nothing of what a live key has there, whatever dies meanwhile. -/
theorem amends_pruneAlong (hw : w.Intact) (hm : .object m ∈ w.anchors) (order : List ObjectId) :
    Amends m (fun _ => id) w (w.pruneAlong order m) := by
  -- Induction on the entries that are left to look at.
  have looks (ks : List ObjectId) {w : World} (hw : w.Intact) (hm : .object m ∈ w.anchors) :
      Amends m (fun _ => id) w (ks.foldl (visit m) w) := by
    induction ks generalizing w with
    | nil => exact .refl hw
    | cons k ks ih =>
      have first := amends_visit hw hm k
      exact first.trans (ih first.follows.intact (first.anchors_eq ▸ hm))
  have settled := amends_settle hw hm
  rw [pruneAlong_eq_foldl]
  exact settled.trans (looks order settled.follows.intact (settled.anchors_eq ▸ hm))

/-- To set an entry of a weak map, in any order of the looks, amends this entry alone. -/
theorem amends_setAlong (hw : w.Intact) (weak : (w.weakEntries? m).isSome)
    (hm : .object m ∈ w.anchors) (hk : .object k ∈ w.anchors) (hv : things v ⊆ w.anchors)
    (order : List ObjectId) : Amends m (replacing k (some v)) w (w.setAlong order m k v) := by
  have pruned := amends_pruneAlong hw hm order
  obtain ⟨entries, is⟩ := Option.isSome_iff_exists.1 (pruned.weak.trans weak)
  have follows : Follows { w.pruneAlong order m with
      heap := (w.pruneAlong order m).heap.setKind m (.weakMap (entries.insert k v)) }
      (w.pruneAlong order m) :=
    pruned.follows.intact.follows_in_custody fun C order => by
      have known {t : Thing} (ht : t ∈ w.anchors) :=
        Custody.known_of_anchor order rfl (pruned.anchors_eq ▸ ht)
      exact (C.change order (.weakInsert (known hm) is (known hk) fun t ht => known (hv ht))).1
  rw [setAlong, is, Option.elim_some]
  refine pruned.trans (amends_setKind (kind?_of_weakEntries? is) follows rfl fun k' x hx => .inl ?_)
  obtain rfl : entries.get? k' = x := Option.some.inj hx
  rw [Kind.slot?, WeakEntries.get?_insert]
  rfl

/-- To set an entry sets that entry. -/
theorem amends_setEntry (hw : w.Intact) (hm : .object m ∈ w.anchors) (hk : .object k ∈ w.anchors)
    (hv : things v ⊆ w.anchors) (h : w.setEntry m (.object k) v = some w') :
    Amends m (replacing k (some v)) w w' := by
  have follows : w'.Follows w := hw.follows_in_custody fun C order => by
    have kept {t : Thing} (ht : t ∈ w.anchors) : C.kept w t := C.kept_of_anchor order rfl ht
    exact C.setEntry order (kept hm) (by simpa using kept hk) (fun t ht => kept (hv ht)) h
  cases weak : w.weakEntries? m with
  | some entries =>
    rw [setEntry_of_weakEntries? weak] at h
    obtain rfl := Option.some.inj h
    exact amends_setAlong hw (by rw [weak]; rfl) hm hk hv _
  | none =>
    rw [setEntry] at h
    split at h
    · next entries is =>
      obtain rfl := Option.some.inj h
      refine amends_setKind is follows rfl fun k' x hx => .inl ?_
      obtain rfl : entries.get? (.object k') = x := Option.some.inj hx
      rw [Kind.slot?, Entries.get?_insert, replacing]
      simp [Value.canonical]
    · next is => simp [weakEntries?, is] at weak
    · contradiction

/-- To delete an entry deletes that entry. -/
theorem amends_deleteEntry (hw : w.Intact) (hm : .object m ∈ w.anchors)
    (h : w.deleteEntry m (.object k) = some w') : Amends m (replacing k none) w w' := by
  have follows : w'.Follows w := hw.follows_in_custody fun C order =>
    C.deleteEntry order (Custody.known_of_anchor order rfl hm) h
  rw [deleteEntry] at h
  split at h
  · next entries is =>
    obtain rfl := Option.some.inj h
    refine amends_setKind is follows rfl fun k' x hx => .inl ?_
    obtain rfl : entries.get? (.object k') = x := Option.some.inj hx
    rw [Kind.slot?, Entries.get?_erase, replacing]
    simp [Value.canonical]
  · next entries is =>
    obtain rfl := Option.some.inj h
    refine amends_setKind is follows rfl fun k' x hx => .inl ?_
    obtain rfl : entries.get? k' = x := Option.some.inj hx
    rw [Kind.slot?, WeakEntries.get?_erase]
    rfl
  · contradiction

end World

/-! ## Commands -/

section

open Eval

variable {run : Caller} {w w' : World} {m : ObjectId} {map key value : Expr} {k v : Value}
  {x : Option Value} (hm : map.object.on w = (.ok m, w)) (hk : key.eval.on w = (.ok k, w))

include hm hk

/-- What a command on a map answers and does, by the entry that the map has. -/
theorem on_mapGet (found : w.valueAt? m k = some x) :
    (runCommand run (.mapGet map key none)).on w = (.ok (.entry (x.map w.picture)), w) := by
  rw [runCommand, on_bind_of_ok hm, on_bind_of_ok hk, on_bind_of_ok (on_see ..), found]
  cases x <;> rfl

@[inherit_doc on_mapGet]
theorem on_mapHas (found : w.valueAt? m k = some x) :
    (runCommand run (.mapHas map key)).on w = (.ok (.flag x.isSome), w) := by
  rw [runCommand, on_bind_of_ok hm, on_bind_of_ok hk, on_bind_of_ok (on_see ..), found]
  rfl

/-- To delete an entry answers whether there was one. -/
theorem on_mapDelete (found : w.valueAt? m k = some x) (deleted : w.deleteEntry m k = some w') :
    (runCommand run (.mapDelete map key)).on w = (.ok (.flag x.isSome), w') := by
  rw [runCommand, on_bind_of_ok hm, on_bind_of_ok hk, on_bind_of_ok (on_see ..), found, demand_some,
    pure_bind, on_bind_of_ok (on_see ..), deleted]
  rfl

@[inherit_doc on_mapGet]
theorem on_mapSet (hv : value.eval.on w = (.ok v, w)) (changed : w.setEntry m k v = some w') :
    (runCommand run (.mapSet map key value)).on w = (.ok .done, w') := by
  rw [runCommand, on_bind_of_ok hm, on_bind_of_ok hk, on_bind_of_ok hv, on_bind_of_ok (on_see ..),
    changed]
  rfl

end

end Lvalue
