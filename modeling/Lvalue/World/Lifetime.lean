import Lvalue.Holding
import Lvalue.World

/-!
# Lifetimes

Objects and scopes live as long as something that is there holds them: a live
object, a live scope, a handle, a running operation, or the world itself for its
intrinsic objects, its outermost scope and the objects with handlers. The keys
of weak maps and the weak handles hold nothing.

What nothing holds any more is dead, and so is all that it alone held. Nothing
that a program does can reach what is dead, so it may stay in the heap for a
while; `settle` clears it away, and whoever asks who is alive asks a settled
world. There, all that is left is held (`mem_heldObjects_settle`,
`mem_heldScopes_settle`). Objects that hold one another in a ring stay for ever.

A weak map looks at its entries one after the other and drops those whose key is
dead at that moment (`pruneAlong_eq_foldl`).
-/

namespace Lvalue

/-- The values that handles and running operations hold. -/
def Handles.values (h : Handles) : List Value :=
  h.registers.values ++ h.frames.flatMap (·.values) ++ h.references.values.flatMap (·.values) ++
    h.operands.flatMap (·.values)

/-- The scopes that handles and running operations hold. -/
def Handles.scopeIds (h : Handles) : List ScopeId :=
  h.scopes.values ++ (h.references.values ++ h.operands).filterMap (·.scope?)

namespace World

/-- The objects that are held from outside the heap. -/
def rootObjects (w : World) : List ObjectId :=
  Intrinsic.all.map (·.id) ++ w.registry.keys ++ w.handles.values.filterMap Value.object? ++
    w.scopes.table.values.flatMap (·.objects)

/-- The scopes that are held from outside the scopes. -/
def rootScopes (w : World) : List ScopeId := globalScope :: w.handles.scopeIds

/-- The objects that something holds. -/
def heldObjects (w : World) : List ObjectId :=
  w.rootObjects ++ w.heap.objects.values.flatMap (·.objects)

/-- The scopes that something holds. -/
def heldScopes (w : World) : List ScopeId :=
  w.rootScopes ++ w.scopes.table.values.filterMap (·.parent)

/-- What each object holds. -/
def objectHolders (w : World) : List Holder :=
  w.heap.objects.entries.map fun (o, x) => ⟨o.serial, x.objects.map (·.serial)⟩

/-- What each scope holds of the other scopes. -/
def scopeHolders (w : World) : List Holder :=
  w.scopes.table.entries.map fun (s, x) => ⟨s.serial, x.parent.toList.map (·.serial)⟩

/-- The scopes that are left when all that nothing holds has gone. -/
def liveScopes (w : World) : Serials :=
  .ofList ((Holder.cascade (.ofList (w.rootScopes.map (·.serial))) w.scopeHolders).map (·.serial))

/-- The objects that are left when all that nothing holds has gone. -/
def liveObjects (w : World) : Serials :=
  .ofList
    ((Holder.cascade (.ofList (w.rootObjects.map (·.serial))) w.objectHolders).map (·.serial))

/-- The world without the scopes that are dead. -/
def settleScopes (w : World) : World :=
  let live := w.liveScopes
  { w with scopes := w.scopes.keep fun s => live.contains s.serial }

/-- The world without the objects that are dead. -/
def settleObjects (w : World) : World :=
  let live := w.liveObjects
  { w with heap := w.heap.keep fun o => live.contains o.serial }

/-- The world without anything that is dead. Scopes hold objects and not the other way
    round, so they go first. -/
def settle (w : World) : World := w.settleScopes.settleObjects

/-! ### What is left is held -/

/-- The live scopes are those that are left when one after another goes that nothing holds. -/
theorem contains_liveScopes {w : World} {n : Nat} :
    w.liveScopes.contains n ↔
      ∃ h ∈ Holder.cascade (.ofList (w.rootScopes.map (·.serial))) w.scopeHolders,
        h.serial = n := by
  rw [liveScopes, Serials.contains_ofList, List.mem_map]

@[inherit_doc contains_liveScopes]
theorem contains_liveObjects {w : World} {n : Nat} :
    w.liveObjects.contains n ↔
      ∃ h ∈ Holder.cascade (.ofList (w.rootObjects.map (·.serial))) w.objectHolders,
        h.serial = n := by
  rw [liveObjects, Serials.contains_ofList, List.mem_map]

@[simp]
theorem get?_scopes_settle (w : World) (s : ScopeId) :
    w.settle.scopes.get? s =
      if w.liveScopes.contains s.serial then w.scopes.get? s else none :=
  Scopes.get?_keep ..

/-- After the world has settled, what is alive is as it was, and all else is gone. -/
@[simp]
theorem get?_heap_settle (w : World) (o : ObjectId) :
    w.settle.heap.get? o =
      if w.settleScopes.liveObjects.contains o.serial then w.heap.get? o else none :=
  Heap.get?_keep ..

/-- In a settled world, every scope is held. -/
theorem mem_heldScopes_settle {w : World} {s : ScopeId} {x : Scope}
    (hs : w.settle.scopes.get? s = some x) : s ∈ w.settle.heldScopes := by
  have live : w.liveScopes.contains s.serial := by
    rw [get?_scopes_settle] at hs
    split at hs
    · assumption
    · contradiction
  obtain ⟨h, hh, e⟩ := contains_liveScopes.1 live
  rcases Holder.held_of_mem_cascade hh with held | ⟨h', hh', held⟩
  · rw [Serials.contains_ofList, List.mem_map, e] at held
    obtain ⟨s', hs', e⟩ := held
    rw [ScopeId.serial_injective e] at hs'
    exact List.mem_append_left _ hs'
  · obtain ⟨⟨s', x'⟩, hx', rfl⟩ := List.mem_map.1 (Holder.mem_of_mem_cascade hh')
    rw [e, List.mem_map] at held
    obtain ⟨p, hp, e⟩ := held
    rw [ScopeId.serial_injective e, Option.mem_toList] at hp
    have live' : w.liveScopes.contains s'.serial := contains_liveScopes.2 ⟨_, hh', rfl⟩
    refine List.mem_append_right _ (List.mem_filterMap.2 ⟨x', ?_, hp⟩)
    exact List.mem_map.2 ⟨(s', x'), List.mem_filter.2 ⟨hx', live'⟩, rfl⟩

/-- In a settled world, every object is held. -/
theorem mem_heldObjects_settle {w : World} {o : ObjectId} {x : Object}
    (ho : w.settle.heap.get? o = some x) : o ∈ w.settle.heldObjects := by
  have live : w.settleScopes.liveObjects.contains o.serial := by
    rw [get?_heap_settle] at ho
    split at ho
    · assumption
    · contradiction
  obtain ⟨h, hh, e⟩ := contains_liveObjects.1 live
  rcases Holder.held_of_mem_cascade hh with held | ⟨h', hh', held⟩
  · rw [Serials.contains_ofList, List.mem_map, e] at held
    obtain ⟨o', ho', e⟩ := held
    rw [ObjectId.serial_injective e] at ho'
    exact List.mem_append_left _ ho'
  · obtain ⟨⟨o', x'⟩, hx', rfl⟩ := List.mem_map.1 (Holder.mem_of_mem_cascade hh')
    rw [e, List.mem_map] at held
    obtain ⟨p, hp, e⟩ := held
    rw [ObjectId.serial_injective e] at hp
    have live' : w.settleScopes.liveObjects.contains o'.serial :=
      contains_liveObjects.2 ⟨_, hh', rfl⟩
    refine List.mem_append_right _ (List.mem_flatMap.2 ⟨x', ?_, hp⟩)
    exact List.mem_map.2 ⟨(o', x'), List.mem_filter.2 ⟨hx', live'⟩, rfl⟩

/-! ## Weak maps -/

/-- The entries of a weak map. -/
def weakEntries? (w : World) (m : ObjectId) : Option WeakEntries :=
  match w.heap.kind? m with
  | some (.weakMap entries) => some entries
  | _ => none

theorem kind?_of_weakEntries? {w : World} {m : ObjectId} {entries : WeakEntries}
    (h : w.weakEntries? m = some entries) : w.heap.kind? m = some (.weakMap entries) := by
  rw [weakEntries?] at h
  split at h
  · rw [‹w.heap.kind? m = _›, ← Option.some.inj h]
  · contradiction

/-- The world after `m`, a weak map, has looked at its entry for `k`: if the key is
    dead, the entry goes, and all that its value alone held goes at once. -/
def visit (m : ObjectId) (w : World) (k : ObjectId) : World :=
  match w.weakEntries? m with
  | some entries =>
    if w.heap.alive k then w
    else ({ w with heap := w.heap.setKind m (.weakMap (entries.erase k)) }).settle
  | none => w

/-- The world after the weak map `m` has looked at its entries for some keys, one after the
    other. The set is that of the objects that are alive, so that a live key costs no
    search. -/
def visitAll (m : ObjectId) : Serials → List ObjectId → World → World
  | _, [], w => w
  | living, k :: ks, w =>
    if living.contains k.serial then visitAll m living ks w
    else
      let w := w.visit m k
      visitAll m w.heap.living ks w

/-- The world after the weak map `m` has looked at its entries for the keys `order`,
    one after the other. -/
def pruneAlong (order : List ObjectId) (m : ObjectId) (w : World) : World :=
  let w := w.settle
  visitAll m w.heap.living order w

/-- The world after the weak map `m` has looked at all its entries. -/
def prune (m : ObjectId) (w : World) : World :=
  match w.weakEntries? m with
  | some entries => w.pruneAlong entries.table.keys m
  | none => w

/-- A look at an entry whose key is alive changes nothing. -/
theorem visit_of_alive {w : World} {m k : ObjectId} (h : w.heap.alive k) : w.visit m k = w := by
  rw [visit]
  split <;> simp [h]

/-- To look which objects are alive once is as good as to look at each visit. -/
theorem visitAll_living (w : World) (m : ObjectId) (ks : List ObjectId) :
    visitAll m w.heap.living ks w = ks.foldl (visit m) w := by
  induction ks generalizing w with
  | nil => rfl
  | cons k ks ih =>
    rw [visitAll, List.foldl_cons]
    split
    · rw [ih, visit_of_alive (Heap.contains_living.1 ‹_›)]
    · exact ih _

@[inherit_doc visitAll_living]
theorem pruneAlong_eq_foldl (w : World) (m : ObjectId) (order : List ObjectId) :
    pruneAlong order m w = order.foldl (visit m) w.settle :=
  visitAll_living ..

theorem prune_of_weakEntries? {w : World} {m : ObjectId} {entries : WeakEntries}
    (h : w.weakEntries? m = some entries) : w.prune m = w.pruneAlong entries.table.keys m := by
  rw [prune, h]

/-! ## Maps of both kinds -/

/-- The value that the map `m` has for `k`; nothing if `m` is no map. -/
def valueAt? (w : World) (m : ObjectId) (k : Value) : Option (Option Value) :=
  match w.heap.kind? m with
  | some (.map entries) => some (entries.get? k)
  | some (.weakMap entries) => some (k.object?.bind entries.get?)
  | _ => none

/-- The world with `v` for `k` in the map `m`; nothing if `m` is no map. A weak map
    looks at all its entries first, and has none for a primitive value. -/
def setEntry (w : World) (m : ObjectId) (k v : Value) : Option World :=
  match w.heap.kind? m with
  | some (.map entries) => some { w with heap := w.heap.setKind m (.map (entries.insert k v)) }
  | some (.weakMap _) =>
    let w := w.prune m
    match k, w.weakEntries? m with
    | .object o, some entries =>
      some { w with heap := w.heap.setKind m (.weakMap (entries.insert o v)) }
    | _, _ => some w
  | _ => none

/-- The world with `v` for `k` in the weak map `m`, which looks at its entries for the keys
    `order` first, one after the other. -/
def setAlong (order : List ObjectId) (m k : ObjectId) (v : Value) (w : World) : World :=
  let w := w.pruneAlong order m
  (w.weakEntries? m).elim w fun entries =>
    { w with heap := w.heap.setKind m (.weakMap (entries.insert k v)) }

/-- To set an entry of a weak map is to look at all its entries in the order in which they
    came in. -/
theorem setEntry_of_weakEntries? {w : World} {m k : ObjectId} {v : Value} {entries : WeakEntries}
    (h : w.weakEntries? m = some entries) :
    w.setEntry m (.object k) v = some (w.setAlong entries.table.keys m k v) := by
  have pruned := prune_of_weakEntries? h
  rw [weakEntries?] at h
  rw [setEntry, setAlong]
  split at h
  · next is =>
    rw [is]
    dsimp only
    rw [pruned]
    cases (w.pruneAlong entries.table.keys m).weakEntries? m <;> rfl
  · contradiction

/-- The world without an entry for `k` in the map `m`; nothing if `m` is no map. -/
def deleteEntry (w : World) (m : ObjectId) (k : Value) : Option World :=
  match w.heap.kind? m with
  | some (.map entries) => some { w with heap := w.heap.setKind m (.map (entries.erase k)) }
  | some (.weakMap entries) =>
    some (k.object?.elim w fun o =>
      { w with heap := w.heap.setKind m (.weakMap (entries.erase o)) })
  | _ => none

end World

end Lvalue
