import Lvalue.Proofs.Custody.Access

/-!
# Ownership

What is anchored, and what is held by something that is there, is there. Besides, some
things may be *dead*: nothing of the others holds them, and among themselves they do not
hold one another in a ring, so that they are never live. A world is sealed off from dead
things (`World.Sealed`) if all that is so, and it stays so as long as only other things
are handled. That makes a custody for any set of dead things (`Custody.ownership`).

With no thing dead, a sealed world is one in which nothing is held that is not there; and
such a world is sealed off from all that is not live (`World.Sealed.dead`).
-/

namespace Lvalue

open Bearer

namespace World

/-- The object is the key of an entry of a weak map, or there is a weak handle for it. -/
def Designates (w : World) (o : ObjectId) : Prop :=
  o ∈ w.handles.weak.values ∨ ∃ m x, w.heap.get? m = some x ∧ o ∈ x.kind.weakKeys

/-- What is in use is there and not among the dead things. -/
structure Sealed (D : Thing → Prop) (w : World) : Prop where
  anchors : ∀ t ∈ w.anchors, w.Present t ∧ ¬D t
  holds : ∀ t, ¬D t → ∀ t' ∈ w.holds t, w.Present t' ∧ ¬D t'
  past : ∀ t, D t → w.Past t
  designates : ∀ o, w.Designates o → w.Past (.object o)
  /-- No dead things hold one another in a ring. -/
  sterile : ∀ S : Thing → Prop, (∀ t, S t → D t ∧ ∃ t', S t' ∧ t ∈ w.holds t') → ∀ t, ¬S t

/-- The thing was there and is live no more. -/
def Dead (w : World) (t : Thing) : Prop := w.Past t ∧ ¬w.Live t

variable {w w' : World} {D : Thing → Prop} {t : Thing}

namespace Sealed

/-- What is sealed off is not live. -/
theorem not_live (h : w.Sealed D) (ht : D t) : ¬w.Live t := by
  -- A live dead thing is not anchored, so that a live thing holds it, which is dead as well.
  refine fun live => h.sterile (fun t => D t ∧ w.Live t) (fun t ⟨ht, live⟩ => ⟨ht, ?_⟩) t ⟨ht, live⟩
  rcases held_of_live live with anchored | ⟨t', live', held⟩
  · exact absurd ht (h.anchors t anchored).2
  · refine ⟨t', ⟨?_, live'⟩, held⟩
    by_cases ht' : D t'
    · exact ht'
    · exact absurd ht (h.holds t' ht' t held).2

/-- Where nothing is held that is not there, what is held is live. -/
theorem live_of_held (h : w.Sealed fun _ => False)
    (held : t ∈ w.anchors ∨ ∃ t', w.Live t' ∧ t ∈ w.holds t') : w.Live t := by
  refine World.live_of_held ?_ held
  rcases held with anchored | ⟨t', -, held⟩
  · exact (h.anchors t anchored).1
  · exact (h.holds t' id t held).1

/-- All that is dead is sealed off. -/
theorem dead (h : w.Sealed fun _ => False) : w.Sealed w.Dead where
  anchors t ht := ⟨(h.anchors t ht).1, fun dead => dead.2 (h.live_of_held (.inl ht))⟩
  holds t ht t' held := by
    have present : w.Present t := present_of_mem_holds held
    have live : w.Live t := Classical.not_not.1 fun dead => ht ⟨past_of_present present, dead⟩
    exact ⟨(h.holds t id t' held).1, fun dead => dead.2 (h.live_of_held (.inr ⟨t, live, held⟩))⟩
  past _ dead := dead.1
  designates := h.designates
  sterile S supported t ht := by
    refine (supported t ht).1.2 (live_of_supported (S := S) (fun t ht => ?_) (fun t ht => ?_) ht)
    · obtain ⟨-, t', -, held⟩ := supported t ht
      exact (h.holds t' id t held).1
    · exact .inr (supported t ht).2

end Sealed

/-! ## Steps -/

/-- A step that removes nothing and in which only known things come to be held, and only by
    known or new things. -/
structure Evolves (known : Thing → Prop) (w w' : World) : Prop where
  present : ∀ t, w.Present t → w'.Present t
  past : ∀ t, w.Past t → w'.Past t
  anchors : ∀ t ∈ w'.anchors, t ∈ w.anchors ∨ known t
  holds : ∀ t, w'.holds t ⊆ w.holds t ∨
    (known t ∨ ¬w.Past t) ∧ ∀ t' ∈ w'.holds t, t' ∈ w.holds t ∨ known t'
  designates : ∀ o, w'.Designates o → w.Designates o ∨ known (.object o)

/-- Nothing has come of it if only depth, settings and the like are others. -/
theorem Evolves.of_eq {known : Thing → Prop} (heap : w'.heap = w.heap)
    (scopes : w'.scopes = w.scopes) (registry : w'.registry = w.registry)
    (handles : w'.handles = w.handles) : Evolves known w w' where
  present t ht := by cases t <;> simpa [Present, heap, scopes] using ht
  past t ht := by cases t <;> simpa [Past, heap, scopes] using ht
  anchors t ht := .inl (by simpa [World.anchors, registry, handles] using ht)
  holds t := .inl (by cases t <;> simp [World.holds, heap, scopes])
  designates o ho := .inl (by simpa [Designates, heap, handles] using ho)

/-- What is in use stays sealed off if nothing else is handled. -/
theorem Sealed.evolves (h : w.Sealed D) (e : Evolves (fun t => w.Present t ∧ ¬D t) w w') :
    w'.Sealed D where
  anchors t ht := by
    obtain ⟨present, alive⟩ := (e.anchors t ht).elim (h.anchors t) id
    exact ⟨e.present t present, alive⟩
  holds t ht t' held := by
    have known : w.Present t' ∧ ¬D t' := by
      rcases e.holds t with sub | ⟨-, new⟩
      · exact h.holds t ht t' (sub held)
      · exact (new t' held).elim (h.holds t ht t') id
    exact ⟨e.present t' known.1, known.2⟩
  past t ht := e.past t (h.past t ht)
  designates o designated := by
    rcases e.designates o designated with old | ⟨present, -⟩
    · exact e.past _ (h.designates o old)
    · exact e.past _ (past_of_present present)
  sterile S supported := by
    -- A dead thing is neither known nor new, so that it holds no more than before.
    refine h.sterile S fun t ht => ?_
    obtain ⟨dead, t', ht', held⟩ := supported t ht
    have dead' : D t' := (supported t' ht').1
    rcases e.holds t' with sub | ⟨known | new, -⟩
    · exact ⟨dead, t', ht', sub held⟩
    · exact absurd dead' known.2
    · exact absurd (h.past t' dead') new

theorem Sealed.settle (h : w.Sealed D) : w.settle.Sealed D := by
  have sub (t : Thing) : w.settle.holds t ⊆ w.holds t := fun t' held =>
    holds_settle (w := w) (t := t) (present_of_mem_holds held) ▸ held
  refine
    { anchors := fun t ht => ⟨?_, (h.anchors t ht).2⟩
      holds := fun t ht t' held => ⟨?_, (h.holds t ht t' (sub t held)).2⟩
      past := fun t ht => ?_
      designates := fun o designated => ?_
      sterile := fun S supported => h.sterile S fun t ht => ?_ }
  · exact World.live_of_held (h.anchors t ht).1 (.inl ht)
  · exact World.live_of_held (h.holds t ht t' (sub t held)).1
      (.inr ⟨t, present_of_mem_holds held, sub t held⟩)
  · cases t <;> exact h.past _ ht
  · refine h.designates o (designated.imp_right fun ⟨m, x, hx, mem⟩ => ⟨m, x, ?_, mem⟩)
    rw [get?_heap_settle] at hx
    split at hx
    · exact hx
    · contradiction
  · obtain ⟨dead, t', ht', held⟩ := supported t ht
    exact ⟨dead, t', ht', sub t' held⟩

end World

/-! ## Changes -/

namespace ChangeAmong

open World

variable {known : Thing → Prop} {w : World}

/-- Where heap and scopes are as they were, the anchors and weak handles are all that counts. -/
theorem evolves_of_handles {r : Registry} {h : Handles}
    (targets : ∀ t ∈ things r.keys, t ∈ things w.registry.keys ∨ known t)
    (held : ∀ t ∈ things h, t ∈ things w.handles ∨ known t)
    (weak : ∀ o ∈ h.weak.values, o ∈ w.handles.weak.values ∨ known (.object o)) :
    Evolves known w { w with registry := r, handles := h } where
  present _ := id
  past _ := id
  anchors t ht := by
    have := targets t
    have := held t
    simp only [World.anchors, List.mem_append] at ht ⊢
    grind
  holds _ := .inl (List.Subset.refl _)
  designates o := by
    rintro (mem | old)
    · exact (weak o mem).imp_left .inl
    · exact .inl (.inr old)

theorem evolves_update {o : ObjectId} {f : Object → Object} (ho : known (.object o))
    (held : ∀ x, w.heap.get? o = some x → ∀ t ∈ things (f x), t ∈ things x ∨ known t)
    (weak : ∀ x, w.heap.get? o = some x →
      ∀ k ∈ (f x).kind.weakKeys, k ∈ x.kind.weakKeys ∨ known (.object k)) :
    Evolves known w { w with heap := w.heap.update o f } := by
  have get? (o' : ObjectId) : (w.heap.update o f).get? o' =
      if o = o' then (w.heap.get? o').map f else w.heap.get? o' := Heap.get?_update ..
  refine
    { present := fun t ht => ?_
      past := fun t ht => by cases t <;> exact ht
      anchors := fun _ => .inl
      holds := fun t => ?_
      designates := ?_ }
  · cases t with
    | scope s => exact ht
    | object o' =>
      obtain ⟨x, hx⟩ := present_object.1 ht
      refine present_object.2 ?_
      rw [get?]
      split
      · exact ⟨f x, by rw [hx]; rfl⟩
      · exact ⟨x, hx⟩
  · cases t with
    | scope s => exact .inl (List.Subset.refl _)
    | object o' =>
      by_cases e : o = o'
      · subst e
        refine .inr ⟨.inl ho, fun t' held' => ?_⟩
        rw [World.holds, get?, if_pos rfl] at held'
        rw [World.holds]
        cases hx : w.heap.get? o with
        | none => simp [hx] at held'
        | some x => simpa using held x hx t' (by simpa [hx] using held')
      · refine .inl fun t' held' => ?_
        rwa [World.holds, get?, if_neg e] at held'
  · rintro k (mem | ⟨m, x, hx, mem⟩)
    · exact .inl (.inl mem)
    · rw [get?] at hx
      split at hx
      · next e =>
        subst e
        obtain ⟨x', hx', rfl⟩ := Option.map_eq_some_iff.1 hx
        exact (weak x' hx' k mem).imp_left fun mem => .inr ⟨o, x', hx', mem⟩
      · exact .inl (.inr ⟨m, x, hx, mem⟩)

theorem evolves_kind {m : ObjectId} {kind : Kind} (hm : known (.object m))
    (held : ∀ x, w.heap.get? m = some x → ∀ t ∈ things kind, t ∈ things x.kind ∨ known t)
    (weak : ∀ x, w.heap.get? m = some x →
      ∀ k ∈ kind.weakKeys, k ∈ x.kind.weakKeys ∨ known (.object k)) :
    Evolves known w { w with heap := w.heap.setKind m kind } := by
  refine evolves_update hm (fun x hx t ht => ?_) weak
  have := held x hx t
  simp only [things_properties, List.mem_append] at ht ⊢
  grind

/-- A new object holds known things. -/
theorem evolves_alloc {new : Object} (held : ∀ t ∈ things new, known t)
    (weak : new.kind.weakKeys = []) :
    Evolves known w { w with heap := (w.heap.alloc new).2 } := by
  have get? (o : ObjectId) : (w.heap.alloc new).2.get? o =
      if ⟨w.heap.next⟩ = o then some new else w.heap.get? o := Heap.get?_alloc ..
  refine
    { present := fun t ht => ?_
      past := fun t ht => ?_
      anchors := fun _ => .inl
      holds := fun t => ?_
      designates := ?_ }
  · cases t with
    | scope s => exact ht
    | object o =>
      obtain ⟨x, hx⟩ := present_object.1 ht
      refine present_object.2 ?_
      rw [get?]
      split
      · exact ⟨new, rfl⟩
      · exact ⟨x, hx⟩
  · cases t with
    | scope s => exact ht
    | object o => exact Nat.lt_succ_of_lt ht
  · cases t with
    | scope s => exact .inl (List.Subset.refl _)
    | object o =>
      by_cases e : ⟨w.heap.next⟩ = o
      · subst e
        refine .inr ⟨.inr fun past => Nat.lt_irrefl w.heap.next past, fun t' held' => .inr ?_⟩
        rw [World.holds, get?, if_pos rfl] at held'
        exact held t' (by simpa using held')
      · refine .inl fun t' held' => ?_
        rwa [World.holds, get?, if_neg e] at held'
  · rintro k (mem | ⟨m, x, hx, mem⟩)
    · exact .inl (.inl mem)
    · rw [get?] at hx
      split at hx
      · obtain rfl := Option.some.inj hx
        exact absurd mem (by simp [weak])
      · exact .inl (.inr ⟨m, x, hx, mem⟩)

/-- Where the heap and the anchors are as they were, the scopes are all that counts. -/
theorem evolves_of_scopes {scopes : Scopes}
    (present : ∀ s, (w.scopes.get? s).isSome → (scopes.get? s).isSome)
    (past : w.scopes.next ≤ scopes.next)
    (held : ∀ s, things (scopes.get? s) ⊆ things (w.scopes.get? s) ∨
      (known (.scope s) ∨ w.scopes.next ≤ s.serial) ∧
        ∀ t ∈ things (scopes.get? s), t ∈ things (w.scopes.get? s) ∨ known t) :
    Evolves known w { w with scopes } where
  present t ht := by
    cases t with
    | object o => exact ht
    | scope s => exact present s ht
  past t ht := by
    cases t with
    | object o => exact ht
    | scope s => exact Nat.lt_of_lt_of_le ht past
  anchors _ := .inl
  holds t := by
    cases t with
    | object o => exact .inl (List.Subset.refl _)
    | scope s => exact (held s).imp_right (.imp_left (.imp_right Nat.not_lt.2))
  designates _ := .inl

theorem evolves_allocScope {parent : Option ScopeId} (hp : ∀ t ∈ things parent, known t) :
    Evolves known w { w with scopes := (w.scopes.alloc parent).2 } := by
  refine evolves_of_scopes (fun s hs => ?_) (Nat.le_succ _) fun s => ?_ <;> rw [Scopes.get?_alloc]
  · split
    · rfl
    · exact hs
  · split
    · next e =>
      subst e
      refine .inr ⟨.inr (Nat.le_refl _), fun t ht => .inr (hp t ?_)⟩
      simpa [mem_things_scope] using ht
    · exact .inl (List.Subset.refl _)

theorem evolves_rebind {s : ScopeId} {f : Table Atom Binding → Table Atom Binding}
    (hs : known (.scope s))
    (held : ∀ c, w.scopes.get? s = some c → ∀ t ∈ things (f c.bindings).values, known t) :
    Evolves known w { w with scopes := w.scopes.rebind s f } := by
  refine evolves_of_scopes (fun s' hs' => ?_) (Nat.le_refl _) fun s' => ?_ <;>
    rw [Scopes.get?_rebind]
  · split
    · simpa using hs'
    · exact hs'
  · split
    · next e =>
      subst e
      refine .inr ⟨.inl hs, fun t ht => ?_⟩
      cases hc : w.scopes.get? s with
      | none => simp [hc] at ht
      | some c =>
        rw [hc, Option.map_some, things_some, mem_things_scope] at ht
        rw [things_some, mem_things_scope]
        exact ht.elim (fun ht => .inl (.inl ht)) fun ht => .inr (held c hc t ht)
    · exact .inl (List.Subset.refl _)

theorem kind_of_weakEntries? {m : ObjectId} {x : Object} {entries : WeakEntries}
    (is : w.weakEntries? m = some entries) (hx : w.heap.get? m = some x) :
    x.kind = .weakMap entries := by
  have kind := kind?_of_weakEntries? is
  rw [Heap.kind?, hx] at kind
  exact Option.some.inj kind

/-- In no change anything is removed, and only known things come to be held. -/
theorem evolves {w' : World} (h : ChangeAmong known w w') : Evolves known w w' := by
  cases h with
  | @handles h operands held weak _ =>
    -- The operands are the same, and what has got a name was known or held before.
    refine evolves_of_handles (fun _ => .inl) (fun t ht => ?_) weak
    have := held t
    rw [mem_things_handles] at ht this ⊢
    rw [← operands]
    grind
  | registry targets =>
    exact evolves_of_handles (fun t ht => .inr (targets t ht)) (fun _ => .inl) fun _ => .inl
  | journal | nextSymbol => exact .of_eq rfl rfl rfl rfl
  | allocScope hp => exact evolves_allocScope hp
  | rebind hs held => exact evolves_rebind hs held
  | alloc held weak => exact evolves_alloc held weak
  | setPrototype ho hp =>
    rw [Heap.setPrototype]
    split
    · refine evolves_update ho (fun x _ t ht => ?_) fun x _ k => .inl
      simp only [things_properties, List.mem_append] at ht ⊢
      grind
    · exact .of_eq rfl rfl rfl rfl
  | preventExtensions ho => exact evolves_update ho (fun x _ t => .inl) fun x _ k => .inl
  | define k ho hp =>
    refine evolves_update ho (fun x _ t ht => ?_) fun x _ o mem => .inl ?_
    · exact (List.mem_append.1 (things_define x k _ ht)).symm.imp_right (hp t)
    · rwa [Object.kind_define] at mem
  | delete k ho =>
    refine evolves_update ho (fun x _ t ht => .inl (things_delete x k ht)) fun x _ o mem => .inl ?_
    rwa [Object.kind_delete] at mem
  | entries hm is held =>
    refine evolves_kind hm (fun x _ t ht => .inr (held t ht)) fun x _ k mem => nomatch mem
  | weakInsert hm is hk hv =>
    -- The value is held by the map, and the key is only remembered there.
    refine evolves_kind hm (fun x hx t ht => ?_) fun x hx k mem => ?_ <;>
      rw [kind_of_weakEntries? is hx]
    · rw [things_weakMap] at ht ⊢
      exact (List.mem_append.1 (things_insert _ _ ht)).symm.imp_right (hv t)
    · rcases Table.mem_keys_insert.1 mem with rfl | mem
      · exact .inr hk
      · exact .inl mem
  | weakErase k hm is =>
    refine evolves_kind hm (fun x hx t ht => .inl ?_) fun x hx k mem => .inl ?_ <;>
      rw [kind_of_weakEntries? is hx]
    · rw [things_weakMap] at ht ⊢
      exact things_filter _ ht
    · exact Table.mem_keys_of_filter mem

end ChangeAmong

/-! ## The custody of what is not dead -/

/-- To hold what is there and not dead keeps the world sealed off. -/
theorem World.Sealed.hold {w : World} {D : Thing → Prop} (h : w.Sealed D) {rs : List Reference}
    (hrs : ∀ t ∈ things rs, w.Present t ∧ ¬D t) : (w.onOperands (rs ++ ·)).Sealed D := by
  refine h.evolves (ChangeAmong.evolves_of_handles (fun _ => .inl) (fun t ht => ?_) fun _ => .inl)
  rw [mem_things_handles] at ht ⊢
  simp only [things_append, List.mem_append] at ht
  have := hrs t
  grind

theorem World.Sealed.release {w : World} {D : Thing → Prop} (h : w.Sealed D) (n : Nat) :
    (w.onOperands (·.drop n)).Sealed D := by
  refine h.evolves
    (ChangeAmong.evolves_of_handles (fun _ => .inl) (fun t ht => .inl ?_) fun _ => .inl)
  rw [mem_things_handles] at ht ⊢
  refine ht.imp_right (.imp_right (.imp_right (.imp_right fun ht => ?_)))
  obtain ⟨r, mem, ht⟩ := mem_things.1 ht
  exact mem_things.2 ⟨r, List.mem_of_mem_drop mem, ht⟩

/-- The things that are there and not dead may be handled. -/
def Custody.ownership (D : Thing → Prop) : Custody where
  order l w := w.Sealed D ∧ w.handles.operands = l.operands
  known w t := w.Present t ∧ ¬D t
  kept w t := t ∈ w.anchors
  known_of_kept hw := hw.1.anchors _
  kept_of_name _ ht := World.mem_anchors.2 (.inl ht)
  kept_of_operand hw ht := World.mem_anchors.2 (.inr (by rwa [hw.2]))
  known_of_held hw ht held := hw.1.holds _ ht.2 _ held
  known_congr {w w' t} heap scopes ht := by
    cases t <;> simpa [World.Present, heap, scopes] using ht
  kept_congr {w w' t} registry handles ht := by
    simpa [World.anchors, registry, handles] using ht
  change {l w w'} hw h := by
    refine ⟨⟨hw.1.evolves h.evolves, ?_⟩, fun t ht => ⟨h.evolves.present t ht.1, ht.2⟩⟩
    rw [← hw.2]
    cases h
    case handles operands _ _ _ => exact operands
    all_goals rfl
  known_alloc {l w new} hw _ := by
    refine ⟨World.present_object.2 ⟨new, ?_⟩,
      fun dead => Nat.lt_irrefl w.heap.next (hw.1.past _ dead)⟩
    exact (Heap.get?_alloc ..).trans (if_pos rfl)
  known_allocScope {l w parent} hw _ := by
    refine ⟨World.present_scope.2 ⟨{ parent }, ?_⟩,
      fun dead => Nat.lt_irrefl w.scopes.next (hw.1.past _ dead)⟩
    exact (Scopes.get?_alloc ..).trans (if_pos rfl)
  settle hw := ⟨hw.1.settle, hw.2⟩
  hold hw hrs := ⟨hw.1.hold hrs, by rw [World.onOperands, hw.2]⟩
  release hw := ⟨hw.1.release _, by rw [World.onOperands, hw.2, List.drop_left]⟩
  enter hw _ := ⟨hw.1.evolves (.of_eq rfl rfl rfl rfl), hw.2⟩
  leave hw := ⟨hw.1.evolves (.of_eq rfl rfl rfl rfl), hw.2⟩

end Lvalue
