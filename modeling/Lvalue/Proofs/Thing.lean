import Lvalue.World.Lifetime

/-!
# Things

Objects and scopes live as long as something holds them. For what follows it makes
no difference which of the two they are, so both are *things* here. `things a` are
those that `a`, a value or whatever else has values in it, holds.

A world has things in it (`World.Present`) that hold others (`World.holds`), and some
are held from outside by its *anchors*. A thing is *live* if it is there once the
world has settled. Live things are anchored or held by live things
(`World.held_of_live`), and they are all for which that can be said: things that are
there and that are anchored, or held by one of themselves, are live
(`World.live_of_supported`). So much about liveness is enough for all that follows.
-/

namespace Lvalue

/-- What lives as long as it is held. -/
inductive Thing where
  | object (o : ObjectId)
  | scope (s : ScopeId)
  deriving DecidableEq

/-- What has things in it. -/
class Bearer (α : Type) where
  /-- The things that are held by it. -/
  things : α → List Thing

export Bearer (things)

namespace Bearer

variable {α : Type} [Bearer α]

instance : Bearer ObjectId := ⟨fun o => [.object o]⟩
instance : Bearer ScopeId := ⟨fun s => [.scope s]⟩
instance : Bearer Value := ⟨fun v => v.object?.toList.map .object⟩
instance : Bearer (Option α) := ⟨fun a => a.toList.flatMap things⟩
instance : Bearer (List α) := ⟨fun as => as.flatMap things⟩
instance : Bearer Property := ⟨fun p => p.objects.map .object⟩
instance : Bearer Kind := ⟨fun k => k.objects.map .object⟩
instance : Bearer Object := ⟨fun x => x.objects.map .object⟩
instance : Bearer Binding := ⟨fun b => things b.value⟩
instance : Bearer Scope := ⟨fun c => things c.parent ++ c.objects.map .object⟩
instance : Bearer Reference := ⟨fun r => things r.values ++ things r.scope?⟩

/-! Keys and texts hold nothing, and neither do answers, which are pictures, and failures, from
    which no value comes back. -/

instance : Bearer Unit := ⟨fun _ => []⟩
instance : Bearer Answer := ⟨fun _ => []⟩
instance : Bearer Bool := ⟨fun _ => []⟩
instance : Bearer Key := ⟨fun _ => []⟩
instance : Bearer Atom := ⟨fun _ => []⟩
instance {ν : Type} : Bearer (Fault ν) := ⟨fun _ => []⟩
instance {ν : Type} : Bearer (Error ν) := ⟨fun _ => []⟩

@[simp]
theorem things_objectId (o : ObjectId) : things o = [.object o] := rfl

@[simp]
theorem things_scopeId (s : ScopeId) : things s = [.scope s] := rfl

@[simp]
theorem things_object (o : ObjectId) : things (Value.object o) = [.object o] := rfl

@[simp]
theorem things_nil : things ([] : List α) = [] := rfl

@[simp]
theorem things_cons (a : α) (as : List α) : things (a :: as) = things a ++ things as := rfl

@[simp]
theorem things_append (as bs : List α) : things (as ++ bs) = things as ++ things bs :=
  List.flatMap_append

@[simp]
theorem things_none : things (none : Option α) = [] := rfl

@[simp]
theorem things_some (a : α) : things (some a) = things a := List.append_nil _

@[simp]
theorem things_toList (a : Option α) : things a.toList = things a := rfl

@[simp]
theorem things_map_object (os : List ObjectId) : things (os.map Value.object) = things os :=
  List.flatMap_map ..

/-- A plain property holds what its value holds. -/
@[simp]
theorem things_data (v : Value) (writable enumerable configurable : Bool) :
    things ({ slot := .data v writable, enumerable, configurable } : Property) = things v := rfl

/-- An accessor holds its functions. -/
@[simp]
theorem things_accessor (getter setter : Option ObjectId) (enumerable configurable : Bool) :
    things ({ slot := .accessor getter setter, enumerable, configurable } : Property) =
      things getter ++ things setter := by
  cases getter <;> cases setter <;> rfl

@[simp]
theorem things_plain (v : Value) : things (Property.plain v) = things v := rfl

/-- A reference holds its values, and the scope that it was resolved to. -/
theorem things_reference (r : Reference) : things r = things r.values ++ things r.scope? := rfl

@[simp]
theorem things_value (v : Value) : things (Reference.value v) = things v := by
  simp [things_reference, Reference.values, Reference.scope?]

/-- A name holds the scope that it was resolved to. -/
@[simp]
theorem things_binding (s : Option ScopeId) (x : Atom) (strict : Bool) :
    things (Reference.binding s x strict) = things s := rfl

/-- A reference to a property holds the base, and the receiver if that is another one. -/
@[simp]
theorem things_member (base : Value) (k : Key) (this : Option Value) (strict : Bool) :
    things (Reference.member base k this strict) = things base ++ things this := by
  simp [things_reference, Reference.values, Reference.scope?]

/-- An abstract reference holds the base and the name. -/
@[simp]
theorem things_abstractMember (base : Value) (name : ObjectId) (strict : Bool) :
    things (Reference.abstractMember base name strict) = things base ++ things name := by
  simp [things_reference, Reference.values, Reference.scope?]

@[simp]
theorem things_map_value (vs : List Value) : things (vs.map Reference.value) = things vs := by
  simp [things, List.flatMap_map, Reference.values, Reference.scope?]

/-- An object holds what its kind has in it, its prototype, and what its properties hold. -/
theorem things_properties (x : Object) :
    things x = things x.kind ++ things x.prototype ++ things x.properties.values := by
  cases e : x.prototype <;> simp [things, Object.objects, e, List.map_flatMap]

/-- A list holds what one of its members holds. -/
theorem mem_things {as : List α} {t : Thing} : t ∈ things as ↔ ∃ a ∈ as, t ∈ things a :=
  List.mem_flatMap

/-- The only value that holds anything is an object, which is held itself. -/
theorem mem_things_value {v : Value} {t : Thing} :
    t ∈ things v ↔ ∃ o, v = .object o ∧ t = .object o := by
  cases v <;> simp [things, Value.object?, eq_comm]

/-- A scope holds its parent and the values of its bindings. -/
theorem mem_things_scope {c : Scope} {t : Thing} :
    t ∈ things c ↔ t ∈ things c.parent ∨ t ∈ things c.bindings.values := by
  cases t <;> simp [things, Scope.objects]

section

variable {κ : Type} [DecidableEq κ] {table : Table κ α}

/-- A table holds what any of its entries holds. -/
theorem things_of_get? {k : κ} {a : α} (h : table.get? k = some a) :
    things a ⊆ things table.values :=
  fun _ ht => mem_things.2 ⟨a, Table.mem_values.2 ⟨k, h⟩, ht⟩

/-- A new entry brings its own things and no other. -/
theorem things_insert (k : κ) (a : α) :
    things (table.insert k a).values ⊆ things a ++ things table.values := by
  intro t h
  obtain ⟨b, mem, ht⟩ := mem_things.1 h
  rcases Table.mem_values_of_insert mem with rfl | mem
  · exact List.mem_append_left _ ht
  · exact List.mem_append_right _ (mem_things.2 ⟨b, mem, ht⟩)

/-- What is put in the place of an entry brings its own things. -/
theorem things_modify (k : κ) {f : α → α} {ts : List Thing} (hf : ∀ a, things (f a) ⊆ ts) :
    things (table.modify k f).values ⊆ ts ++ things table.values := by
  rw [Table.modify]
  split
  · exact fun t ht => List.append_subset.2
      ⟨fun t ht => List.mem_append_left _ (hf _ ht), List.subset_append_right _ _⟩
      (things_insert _ _ ht)
  · exact List.subset_append_right _ _

omit [DecidableEq κ] in
theorem things_filter (p : κ → α → Bool) :
    things (table.filter p).values ⊆ things table.values := by
  intro t h
  obtain ⟨b, mem, ht⟩ := mem_things.1 h
  exact mem_things.2 ⟨b, Table.mem_values_of_filter mem, ht⟩

end

/-- A property that is put on an object brings its own things and no other. -/
theorem things_define (x : Object) (k : Key) (p : Property) :
    things (x.define k p) ⊆ things p ++ things x := by
  rw [Object.define]
  split
  · intro t ht
    have := @things_insert _ _ _ _ x.properties k p t
    simp only [things_properties, List.mem_append] at *
    grind
  · exact List.subset_append_right _ _

theorem things_delete (x : Object) (k : Key) : things (x.delete k) ⊆ things x := by
  rw [Object.delete]
  split
  · intro t ht
    have := @things_filter _ _ _ x.properties (fun k' _ => decide (k' ≠ k)) t
    simp only [things_properties, List.mem_append, Table.erase] at *
    grind
  · exact List.Subset.refl _

end Bearer

open Bearer

/-- The things that are known by name, and those that running operations hold. -/
instance : Bearer Handles := ⟨fun h => things h.values ++ things h.scopeIds⟩

theorem things_handles (h : Handles) : things h = things h.values ++ things h.scopeIds := rfl

/-- The handles hold what is in the registers, the frames, the references and the scopes that are
    known by name, and what running operations work on. -/
theorem mem_things_handles {h : Handles} {t : Thing} :
    t ∈ things h ↔ t ∈ things h.registers.values ∨
      (∃ frame ∈ h.frames, t ∈ things frame.values) ∨
      t ∈ things h.references.values ∨ t ∈ things h.scopes.values ∨
      t ∈ things h.operands := by
  -- A reference has values and perhaps a scope, which the handles list apart.
  have references (rs : List Reference) : t ∈ things rs ↔
      t ∈ things (rs.flatMap (·.values)) ∨
        t ∈ things (rs.filterMap (·.scope?)) := by
    induction rs with
    | nil => simp
    | cons r rs ih =>
      rw [things_cons, List.mem_append, ih, things_reference, List.mem_append, List.flatMap_cons,
        things_append, List.mem_append, List.filterMap_cons]
      cases r.scope? <;> grind [things_none, things_some, things_cons]
  have frames : t ∈ things (h.frames.flatMap (·.values)) ↔
      ∃ frame ∈ h.frames, t ∈ things frame.values := by
    simp only [mem_things, List.mem_flatMap]
    grind
  rw [references, references, ← frames]
  simp only [things_handles, Handles.values, Handles.scopeIds, things_append,
    List.filterMap_append, List.mem_append]
  grind

namespace World

/-- The things that a thing holds. -/
def holds (w : World) : Thing → List Thing
  | .object o => things (w.heap.get? o)
  | .scope s => things (w.scopes.get? s)

/-- The things that are held from outside. -/
def anchors (w : World) : List Thing :=
  things (Intrinsic.all.map (·.id)) ++ things w.registry.keys ++ things globalScope ++
    things w.handles

/-- The things among them that are known by name, whatever operations are running. -/
def named (w : World) : List Thing :=
  things (Intrinsic.all.map (·.id)) ++ things w.registry.keys ++ things globalScope ++
    things { w.handles with operands := [] }

/-- The thing is there, be it that nothing holds it any more. -/
def Present (w : World) : Thing → Prop
  | .object o => w.heap.alive o
  | .scope s => (w.scopes.get? s).isSome

/-- The thing is there or was there. -/
def Past (w : World) : Thing → Prop
  | .object o => o.serial < w.heap.next
  | .scope s => s.serial < w.scopes.next

/-- The thing is alive. -/
def Live (w : World) (t : Thing) : Prop := w.settle.Present t

variable {w : World} {t : Thing} {o : ObjectId} {s : ScopeId}

theorem present_object : w.Present (.object o) ↔ ∃ x, w.heap.get? o = some x :=
  Option.isSome_iff_exists

theorem present_scope : w.Present (.scope s) ↔ ∃ c, w.scopes.get? s = some c :=
  Option.isSome_iff_exists

/-- Only what is there holds anything. -/
theorem mem_holds {t' : Thing} :
    t' ∈ w.holds t ↔
      (∃ o x, t = .object o ∧ w.heap.get? o = some x ∧ t' ∈ things x) ∨
        ∃ s c, t = .scope s ∧ w.scopes.get? s = some c ∧ t' ∈ things c := by
  cases t with
  | object o => cases e : w.heap.get? o <;> simp [holds, e]
  | scope s => cases e : w.scopes.get? s <;> simp [holds, e]

/-- What is gone holds nothing. -/
theorem present_of_mem_holds {t' : Thing} (h : t' ∈ w.holds t) : w.Present t := by
  rcases mem_holds.1 h with ⟨o, x, rfl, hx, -⟩ | ⟨s, c, rfl, hc, -⟩
  · exact present_object.2 ⟨x, hx⟩
  · exact present_scope.2 ⟨c, hc⟩

/-- What is there has been made. -/
theorem past_of_present (h : w.Present t) : w.Past t := by
  cases t with
  | object o => exact w.heap.older o (Table.contains_iff_mem_keys.1 h)
  | scope s => exact w.scopes.older s (Table.contains_iff_mem_keys.1 h)

/-! ## What settles -/

/-- To settle takes nothing from what is held from outside. -/
@[simp]
theorem anchors_settle (w : World) : w.settle.anchors = w.anchors := rfl

/-- An object is alive if it is there and marked as one that is held. -/
theorem live_object : w.Live (.object o) ↔
    w.settleScopes.liveObjects.contains o.serial ∧ w.Present (.object o) := by
  rw [Live, present_object, get?_heap_settle, present_object]
  split <;> simp_all

theorem live_scope : w.Live (.scope s) ↔
    w.liveScopes.contains s.serial ∧ w.Present (.scope s) := by
  rw [Live, present_scope, get?_scopes_settle, present_scope]
  split <;> simp_all

theorem present_of_live (h : w.Live t) : w.Present t := by
  cases t with
  | object o => exact (live_object.1 h).2
  | scope s => exact (live_scope.1 h).2

/-- To settle changes nothing of what a live thing holds. -/
theorem holds_settle (h : w.Live t) : w.settle.holds t = w.holds t := by
  cases t with
  | object o => rw [holds, holds, get?_heap_settle, if_pos (live_object.1 h).1]
  | scope s => rw [holds, holds, get?_scopes_settle, if_pos (live_scope.1 h).1]

/-- The things in an object are those that it lists. -/
theorem object_mem_things {x : Object} : Thing.object o ∈ things x ↔ o ∈ x.objects := by
  simp [things]

/-- The objects in a scope are those that it lists. -/
theorem object_mem_scope {c : Scope} : Thing.object o ∈ things c ↔ o ∈ c.objects := by
  cases e : c.parent <;> simp [things, e]

/-- The only scope that a scope holds is its parent. -/
theorem scope_mem_scope {c : Scope} : Thing.scope s ∈ things c ↔ c.parent = some s := by
  cases e : c.parent <;> simp [things, e, eq_comm]

/-- The objects that are held from outside are those from which the search for what is alive sets
    out. -/
theorem object_mem_anchors : Thing.object o ∈ w.anchors ↔
    o ∈ Intrinsic.all.map (·.id) ++ w.registry.keys ++
      w.handles.values.filterMap Value.object? := by
  simp [anchors, things]

theorem scope_mem_anchors : Thing.scope s ∈ w.anchors ↔ s ∈ w.rootScopes := by
  simp [anchors, rootScopes, things]

/-- What is held from outside is known by name, or running operations hold it. -/
theorem mem_anchors : t ∈ w.anchors ↔ t ∈ w.named ∨ t ∈ things w.handles.operands := by
  simp only [anchors, named, List.mem_append, mem_things_handles, things_nil, List.not_mem_nil,
    or_false, or_assoc]

/-- Every intrinsic object is listed. -/
theorem mem_things_intrinsics (i : Intrinsic) :
    Thing.object i.id ∈ things (Intrinsic.all.map (·.id)) := by
  have mem : i.id ∈ Intrinsic.all.map (·.id) := by cases i <;> simp [Intrinsic.all]
  exact mem_things.2 ⟨i.id, mem, List.mem_singleton_self _⟩

/-- The intrinsic objects are known by name. -/
theorem named_intrinsic (w : World) (i : Intrinsic) : Thing.object i.id ∈ w.named := by
  simp only [named, List.mem_append]
  exact .inl (.inl (.inl (mem_things_intrinsics i)))

theorem named_globalScope (w : World) : Thing.scope globalScope ∈ w.named := by
  simp [named]

/-- The intrinsic objects are held from outside. -/
theorem anchored_intrinsic (w : World) (i : Intrinsic) : Thing.object i.id ∈ w.anchors :=
  mem_anchors.2 (.inl (w.named_intrinsic i))

/-- To be held at all is to be held from outside or by something. -/
theorem mem_heldObjects : o ∈ w.heldObjects ↔
    Thing.object o ∈ w.anchors ∨ ∃ t, Thing.object o ∈ w.holds t := by
  simp only [mem_holds, object_mem_anchors, heldObjects, rootObjects, List.mem_append,
    List.mem_flatMap, Table.mem_values, object_mem_things, object_mem_scope]
  constructor
  · rintro ((anchored | ⟨c, ⟨s, hc⟩, mem⟩) | ⟨x, ⟨o', hx⟩, mem⟩)
    · exact .inl anchored
    · exact .inr ⟨.scope s, .inr ⟨s, c, rfl, hc, mem⟩⟩
    · exact .inr ⟨.object o', .inl ⟨o', x, rfl, hx, mem⟩⟩
  · rintro (anchored | ⟨t, ⟨o', x, -, hx, mem⟩ | ⟨s, c, -, hc, mem⟩⟩)
    · exact .inl (.inl anchored)
    · exact .inr ⟨x, ⟨o', hx⟩, mem⟩
    · exact .inl (.inr ⟨c, ⟨s, hc⟩, mem⟩)

@[inherit_doc mem_heldObjects]
theorem mem_heldScopes : s ∈ w.heldScopes ↔
    Thing.scope s ∈ w.anchors ∨ ∃ t, Thing.scope s ∈ w.holds t := by
  rw [heldScopes, List.mem_append, scope_mem_anchors]
  refine or_congr_right ?_
  simp only [mem_holds, List.mem_filterMap, Table.mem_values, scope_mem_scope]
  constructor
  · rintro ⟨c, ⟨s', hc⟩, parent⟩
    exact ⟨.scope s', .inr ⟨s', c, rfl, hc, parent⟩⟩
  · rintro ⟨t, ⟨o, x, -, -, mem⟩ | ⟨s', c, -, hc, parent⟩⟩
    · simp [things] at mem
    · exact ⟨c, ⟨s', hc⟩, parent⟩

/-- A live thing is anchored, or a live thing holds it. -/
theorem held_of_live (h : w.Live t) : t ∈ w.anchors ∨ ∃ t', w.Live t' ∧ t ∈ w.holds t' := by
  have held : t ∈ w.settle.anchors ∨ ∃ t', t ∈ w.settle.holds t' := by
    cases t with
    | object o =>
      obtain ⟨x, hx⟩ := present_object.1 h
      exact mem_heldObjects.1 (mem_heldObjects_settle hx)
    | scope s =>
      obtain ⟨c, hc⟩ := present_scope.1 h
      exact mem_heldScopes.1 (mem_heldScopes_settle hc)
  rcases held with anchored | ⟨t', ht'⟩
  · exact .inl anchored
  · have live : w.Live t' := present_of_mem_holds ht'
    exact .inr ⟨t', live, holds_settle live ▸ ht'⟩

/-- Scopes that are anchored, or held by one of themselves, are alive. -/
theorem contains_liveScopes_of_supported {S : ScopeId → Prop}
    (present : ∀ s, S s → ∃ c, w.scopes.get? s = some c)
    (supported : ∀ s, S s → s ∈ w.rootScopes ∨
      ∃ s' c, S s' ∧ w.scopes.get? s' = some c ∧ c.parent = some s)
    (h : S s) : w.liveScopes.contains s.serial := by
  let T : Holder → Prop := fun h => ∃ s c, S s ∧ w.scopes.get? s = some c ∧
    h = ⟨s.serial, c.parent.toList.map (·.serial)⟩
  have mem {s : ScopeId} {c : Scope} (hc : w.scopes.get? s = some c) :
      (⟨s.serial, c.parent.toList.map (·.serial)⟩ : Holder) ∈ w.scopeHolders :=
    List.mem_map.2 ⟨(s, c), Table.get?_eq_some_iff.1 hc, rfl⟩
  obtain ⟨c, hc⟩ := present s h
  refine contains_liveScopes.2 ⟨_, Holder.mem_cascade (S := T) ?_ (mem hc) ⟨s, c, h, hc, rfl⟩, rfl⟩
  rintro _ - ⟨s, c, hs, hc, rfl⟩
  rcases supported s hs with root | ⟨s', c', hs', hc', parent⟩
  · exact .inl (Serials.contains_ofList.2 (List.mem_map_of_mem root))
  · exact .inr ⟨_, mem hc', ⟨s', c', hs', hc', rfl⟩, by simp [parent]⟩

@[inherit_doc contains_liveScopes_of_supported]
theorem contains_liveObjects_of_supported {S : ObjectId → Prop}
    (present : ∀ o, S o → ∃ x, w.heap.get? o = some x)
    (supported : ∀ o, S o → o ∈ w.rootObjects ∨
      ∃ o' x, S o' ∧ w.heap.get? o' = some x ∧ o ∈ x.objects)
    (h : S o) : w.liveObjects.contains o.serial := by
  let T : Holder → Prop := fun h => ∃ o x, S o ∧ w.heap.get? o = some x ∧
    h = ⟨o.serial, x.objects.map (·.serial)⟩
  have mem {o : ObjectId} {x : Object} (hx : w.heap.get? o = some x) :
      (⟨o.serial, x.objects.map (·.serial)⟩ : Holder) ∈ w.objectHolders :=
    List.mem_map.2 ⟨(o, x), Table.get?_eq_some_iff.1 hx, rfl⟩
  obtain ⟨x, hx⟩ := present o h
  refine contains_liveObjects.2
    ⟨_, Holder.mem_cascade (S := T) ?_ (mem hx) ⟨o, x, h, hx, rfl⟩, rfl⟩
  rintro _ - ⟨o, x, ho, hx, rfl⟩
  rcases supported o ho with root | ⟨o', x', ho', hx', held⟩
  · exact .inl (Serials.contains_ofList.2 (List.mem_map_of_mem root))
  · exact .inr ⟨_, mem hx', ⟨o', x', ho', hx', rfl⟩, List.mem_map_of_mem held⟩

/-- Things that are there are live if each of them is anchored, or one of them holds it. -/
theorem live_of_supported {S : Thing → Prop} (present : ∀ t, S t → w.Present t)
    (supported : ∀ t, S t → t ∈ w.anchors ∨ ∃ t', S t' ∧ t ∈ w.holds t') (h : S t) :
    w.Live t := by
  -- Only scopes hold scopes, so that the scopes of `S` support one another. They are alive, and
  -- then the objects of `S` are held by them, by the anchors or by one another.
  have scopes {s : ScopeId} (hs : S (.scope s)) : w.liveScopes.contains s.serial := by
    refine contains_liveScopes_of_supported (S := fun s => S (.scope s))
      (fun s hs => present_scope.1 (present _ hs)) (fun s hs => ?_) hs
    refine (supported _ hs).imp scope_mem_anchors.1 fun ⟨t, ht, held⟩ => ?_
    rcases mem_holds.1 held with ⟨o, x, -, -, mem⟩ | ⟨s', c, rfl, hc, mem⟩
    · simp [things] at mem
    · exact ⟨s', c, ht, hc, scope_mem_scope.1 mem⟩
  have objects {o : ObjectId} (ho : S (.object o)) :
      w.settleScopes.liveObjects.contains o.serial := by
    refine contains_liveObjects_of_supported (w := w.settleScopes) (S := fun o => S (.object o))
      (fun o ho => present_object.1 (present _ ho)) (fun o ho => ?_) ho
    rcases supported _ ho with anchored | ⟨t, ht, held⟩
    · exact .inl (List.mem_append_left _ (object_mem_anchors.1 anchored))
    · rcases mem_holds.1 held with ⟨o', x, rfl, hx, mem⟩ | ⟨s, c, rfl, hc, mem⟩
      · exact .inr ⟨o', x, ht, hx, object_mem_things.1 mem⟩
      · have alive : w.settleScopes.scopes.get? s = some c := by
          rw [← hc]
          exact (Scopes.get?_keep ..).trans (if_pos (scopes ht))
        refine .inl (List.mem_append_right _ (List.mem_flatMap.2 ⟨c, ?_, object_mem_scope.1 mem⟩))
        exact Table.mem_values.2 ⟨s, alive⟩
  cases t with
  | object o => exact live_object.2 ⟨objects h, present _ h⟩
  | scope s => exact live_scope.2 ⟨scopes h, present _ h⟩

/-- What is there is live if it is anchored or if a live thing holds it. -/
theorem live_of_held (present : w.Present t)
    (h : t ∈ w.anchors ∨ ∃ t', w.Live t' ∧ t ∈ w.holds t') : w.Live t := by
  refine live_of_supported (S := fun t' => w.Live t' ∨ t' = t) ?_ ?_ (.inr rfl)
  · rintro t' (live | rfl)
    · exact present_of_live live
    · exact present
  · have supported {t₁ : Thing} (h₁ : t₁ ∈ w.anchors ∨ ∃ t', w.Live t' ∧ t₁ ∈ w.holds t') :
        t₁ ∈ w.anchors ∨ ∃ t', (w.Live t' ∨ t' = t) ∧ t₁ ∈ w.holds t' :=
      h₁.imp_right fun ⟨t', live, held⟩ => ⟨t', .inl live, held⟩
    rintro t' (live | rfl)
    · exact supported (held_of_live live)
    · exact supported h

/-- What is live stays so where all that is live is there and holds no less. -/
theorem Live.mono {u : World} (anchors : u.anchors ⊆ w.anchors)
    (kept : ∀ t, u.Live t → w.Present t ∧ u.holds t ⊆ w.holds t) (live : u.Live t) : w.Live t := by
  refine live_of_supported (S := u.Live) (fun t ht => (kept t ht).1) (fun t ht => ?_) live
  rcases held_of_live ht with anchored | ⟨t', live, held⟩
  · exact .inl (anchors anchored)
  · exact .inr ⟨t', live, (kept t' live).2 held⟩

end World

end Lvalue
