import Lvalue.Proofs.Depth
import Lvalue.Proofs.Entries

/-!
# Private state

A map or a weak map as the name of a property keeps the state of objects: to write the
property sets the entry for the object, to delete it deletes the entry, and to read it
takes the entry of the nearest object on the prototype chain that has one
(`World.privateValue`).

So a write to an object shows through to all that inherit from it up to those that are
hidden by an entry of their own or in between (`World.Uncovers`), and a delete uncovers
what the prototype has.
-/

namespace Lvalue

open Bearer Eval

namespace World

variable {w w' : World} {m o r : ObjectId} {v : Value}

/-- The object is a map or a weak map. -/
def IsMap (w : World) (m : ObjectId) : Prop :=
  (∃ entries, w.heap.kind? m = some (.map entries)) ∨
    ∃ entries, w.heap.kind? m = some (.weakMap entries)

/-- The entry that an object has in a map. -/
def entryOf (w : World) (m o : ObjectId) : Option Value := (w.valueAt? m (.object o)).join

/-- The value of the nearest entry in the map along the prototype chain of the object; undefined
    if there is none. -/
def privateValue (w : World) (m o : ObjectId) : Value :=
  ((w.heap.chain o).findSome? (w.entryOf m)).getD .undefined

/-- From `o`, an entry for `r` in the map can be seen: `r` is on the chain of `o`, and nothing
    before it has an entry. -/
def Uncovers (w : World) (m o r : ObjectId) : Prop :=
  ∃ before after, w.heap.chain o = before ++ r :: after ∧ ∀ o' ∈ before, w.entryOf m o' = none

/-- An object is a map if it has an answer for some key that is an object. -/
theorem isMap_iff {k : ObjectId} : w.IsMap m ↔ ∃ x, w.valueAt? m (.object k) = some x := by
  rw [IsMap, valueAt?_object]
  rcases w.heap.kind? m with _ | _ | _ | _ | _ | _ <;> simp [Kind.slot?]

/-- A map that is not dead is alive. -/
theorem IsMap.live (h : w.IsMap m) (alive : ¬w.Dead (.object m)) : w.Live (.object m) := by
  have present : w.Present (.object m) := by
    rcases h with ⟨_, is⟩ | ⟨_, is⟩ <;> obtain ⟨x, hx, -⟩ := Option.map_eq_some_iff.1 is <;>
      exact present_object.2 ⟨x, hx⟩
  exact Classical.not_not.1 fun dead => alive ⟨past_of_present present, dead⟩

theorem IsMap.valueAt? (h : w.IsMap m) (k : ObjectId) :
    w.valueAt? m (.object k) = some (w.entryOf m k) := by
  obtain ⟨x, hx⟩ := isMap_iff.1 h
  rw [entryOf, hx]
  rfl

/-- The map handler finds the nearest entry. -/
theorem IsMap.inheritedValue? (h : w.IsMap m) (chain : List ObjectId) :
    w.inheritedValue? m chain = some ((chain.findSome? (w.entryOf m)).getD .undefined) := by
  induction chain with
  | nil => rfl
  | cons o chain ih =>
    rw [World.inheritedValue?, h.valueAt? o, List.findSome?_cons]
    cases w.entryOf m o with
    | some v => rfl
    | none => exact ih

/-- Where what was there has the prototypes it had, unless it is dead, the chains of live objects
    are as they were. -/
theorem chain_of_prototypes (hw' : w'.Intact) (hh : w.heap.Grounded) (hh' : w'.heap.Grounded)
    (same : ∀ o, w.Past (.object o) →
      w'.heap.prototype? o = w.heap.prototype? o ∨ w'.Dead (.object o))
    (alive : w.heap.alive o) (live : w'.Live (.object o)) :
    w'.heap.chain o = w.heap.chain o ∧ ∀ o' ∈ w'.heap.chain o, w'.Live (.object o') := by
  have lives {start : Option ObjectId} {os : List ObjectId} (p : w.heap.Path start os)
      (alive : ∀ o ∈ os, w.heap.alive o) (live : ∀ o ∈ start, w'.Live (.object o)) :
      ∀ o ∈ os, w'.Live (.object o) ∧ w'.heap.prototype? o = w.heap.prototype? o := by
    induction p with
    | done => exact fun _ => nofun
    | @step o os rest ih =>
      have here : w'.heap.prototype? o = w.heap.prototype? o :=
        (same o (past_of_present (t := .object o) (alive o List.mem_cons_self))).resolve_right
          fun dead => dead.2 (live o rfl)
      have next : ∀ o' ∈ w.heap.prototype? o, w'.Live (.object o') := fun o' ho' =>
        hw'.live_of_held (.inr ⟨_, live o rfl, mem_holds_of_prototype (here.trans ho')⟩)
      intro o' mem
      rcases List.mem_cons.1 mem with rfl | mem
      · exact ⟨live o' rfl, here⟩
      · exact ih (fun o mem => alive o (List.mem_cons_of_mem _ mem)) next o' mem
  have starts : w.heap.Starts (some o) := fun o' e => Option.some.inj e ▸ alive
  have lives := lives (hh.path_chainFrom starts)
    (fun o' => hh.alive_of_mem_chainFrom starts) fun o' e => Option.some.inj e ▸ live
  have path : w'.heap.Path (some o) (w.heap.chain o) :=
    (hh.path_chainFrom starts).congr fun o' mem => (lives o' mem).2
  have chain : w'.heap.chain o = w.heap.chain o := by
    refine (hh'.path_chainFrom fun o' e => ?_).unique path
    exact Option.some.inj e ▸ present_of_live (t := .object o) live
  refine ⟨chain, fun o' mem => (lives o' ?_).1⟩
  rwa [chain] at mem

/-! ## What an operation makes of private values -/

section

variable {f : ObjectId → Option Value → Option Value} (h : w.Amends m f w')
include h

theorem Amends.isMap {m' : ObjectId} (hm : w.IsMap m') (alive : ¬w'.Dead (.object m')) :
    w'.IsMap m' := by
  by_cases e : m' = m
  · subst e
    exact isMap_iff.2 ⟨_, (h.entry m' _ (hm.valueAt? m')).resolve_right alive⟩
  · rw [IsMap, (h.kind m' e).resolve_right alive]
    exact hm

theorem Amends.entryOf (hm : w.IsMap m) (alive : ¬w'.Dead (.object o)) :
    w'.entryOf m o = f o (w.entryOf m o) := by
  rw [World.entryOf, (h.entry o _ (hm.valueAt? o)).resolve_right alive]
  rfl

theorem Amends.entryOf_of_ne {m' : ObjectId} (ne : m' ≠ m) (alive : ¬w'.Dead (.object m')) :
    w'.entryOf m' = w.entryOf m' := by
  funext o
  rw [World.entryOf, World.entryOf, valueAt?_object, valueAt?_object,
    (h.kind m' ne).resolve_right alive]

/-- The prototype chains of live objects are as they were. -/
theorem Amends.chain (hh : w.heap.Grounded) (live : w'.Live (.object o)) :
    w'.heap.chain o = w.heap.chain o ∧ ∀ o' ∈ w'.heap.chain o, w'.Live (.object o') :=
  chain_of_prototypes h.follows.intact hh (h.grounded hh) (fun o' _ => h.prototype o')
    (h.alive o (present_of_live live)) live

/-- After a write or a delete, the chain that was is asked for the entries that are. -/
theorem Amends.privateValue_eq (hh : w.heap.Grounded) (hm : w.IsMap m)
    (live : w'.Live (.object o)) : w'.privateValue m o =
      ((w.heap.chain o).findSome? fun o' => f o' (w.entryOf m o')).getD .undefined := by
  obtain ⟨same, lives⟩ := h.chain hh live
  rw [privateValue, findSome?_congr fun o' mem => h.entryOf hm fun dead => dead.2 (lives o' mem),
    same]

/-- The private values in other maps are as they were. -/
theorem Amends.privateValue_of_ne (hh : w.heap.Grounded) {m' : ObjectId} (ne : m' ≠ m)
    (live' : w'.Live (.object m')) (live : w'.Live (.object o)) :
    w'.privateValue m' o = w.privateValue m' o := by
  rw [privateValue, privateValue, h.entryOf_of_ne ne fun dead => dead.2 live', (h.chain hh live).1]

end

/-- An object that has the new entry in sight reads it. -/
theorem Amends.privateValue_of_uncovers (h : w.Amends m (replacing r (some v)) w')
    (hh : w.heap.Grounded) (hm : w.IsMap m) (live : w'.Live (.object o)) (sees : w.Uncovers m o r) :
    w'.privateValue m o = v := by
  obtain ⟨before, after, chain, hidden⟩ := sees
  have found : (before ++ r :: after).findSome?
      (fun o' => replacing r (some v) o' (w.entryOf m o')) = some v :=
    findSome?_of_hidden (if_pos rfl) fun o' mem ne => (if_neg ne.symm).trans (hidden o' mem)
  rw [h.privateValue_eq hh hm live, chain, found, Option.getD_some]

/-- An object that does not have the entry in sight reads what it read before. -/
theorem Amends.privateValue_of_not_uncovers {new : Option Value}
    (h : w.Amends m (replacing r new) w') (hh : w.heap.Grounded) (hm : w.IsMap m)
    (live : w'.Live (.object o)) (covered : ¬w.Uncovers m o r) :
    w'.privateValue m o = w.privateValue m o := by
  have same : (w.heap.chain o).findSome? (fun o' => replacing r new o' (w.entryOf m o')) =
      (w.heap.chain o).findSome? (w.entryOf m) :=
    findSome?_congr_of_covered (fun o' ne => if_neg ne.symm) covered
  rw [h.privateValue_eq hh hm live, same, privateValue]

/-- An object without an entry of its own reads what its prototype reads. -/
theorem privateValue_of_no_entry (hh : w.heap.Grounded) (alive : w.heap.alive o)
    (none_ : w.entryOf m o = none) :
    w.privateValue m o = (w.heap.prototype? o).elim .undefined (w.privateValue m) := by
  rw [privateValue, hh.chain_eq alive, List.findSome?_cons, none_]
  cases w.heap.prototype? o with
  | none => rw [Heap.chainFrom_none]; rfl
  | some p => rfl

/-! ## Inside a handler -/

theorem mem_anchors_inside {vs : List Value} {t : Thing} (h : t ∈ things vs) :
    t ∈ (w.inside vs).anchors := by
  refine List.mem_append_right _ (mem_things_handles.2 ?_)
  simp [inside, hold, h]

theorem follows_inside (hw : w.Intact) {vs : List Value} (live : ∀ t ∈ things vs, w.Live t) :
    (w.inside vs).Follows w := by
  refine hw.follows fun D hD => ?_
  have order : (Custody.ownership D).order ⟨0, w.handles.operands⟩ w := ⟨hD, rfl⟩
  have known : ∀ t ∈ things (vs.map Reference.value), (Custody.ownership D).known w t := by
    intro t ht
    have live := live t (things_map_value vs ▸ ht)
    exact ⟨present_of_live live, fun dead => hD.not_live dead live⟩
  exact ((Custody.ownership D).hold order known).1.evolves (.of_eq rfl rfl rfl rfl)

theorem follows_outside {vs : List Value} {ops : List Reference} (hw : w.Intact)
    (e : w.handles.operands = vs.map .value ++ ops) : (w.outside vs).Follows w := by
  refine hw.follows fun D hD => ?_
  have order : (Custody.ownership D).order ⟨0, vs.map .value ++ ops⟩ w := ⟨hD, e⟩
  have released : (Custody.ownership D).order ⟨0, ops⟩
      (w.onOperands (·.drop (vs.map Reference.value).length)) := (Custody.ownership D).release order
  rw [List.length_map] at released
  exact released.1.evolves (.of_eq rfl rfl rfl rfl)

/-- What a handler does to a map inside is done to it outside. -/
theorem Amends.outside {f : ObjectId → Option Value → Option Value} {vs : List Value}
    (h : (w.inside vs).Amends m f w') (hw : w.Intact) (live : ∀ t ∈ things vs, w.Live t) :
    w.Amends m f (w'.outside vs) := by
  obtain ⟨heap, scopes, rfl⟩ := h.frame
  have held : ({ w.inside vs with heap, scopes } : World).handles.operands =
      vs.map .value ++ w.handles.operands := rfl
  have after := follows_outside h.follows.intact held
  exact
    { follows := after.trans (h.follows.trans (follows_inside hw live))
      frame := ⟨heap, scopes, outside_inside ..⟩
      alive := h.alive
      grounded := h.grounded
      prototype := fun o => (h.prototype o).imp_right (after.outlives _)
      kind := fun o ne => (h.kind o ne).imp_right (after.outlives _)
      weak := h.weak
      entry := fun k x hx => (h.entry k x hx).imp_right (after.outlives _) }

theorem IsMap.setEntry (h : w.IsMap m) (k v : Value) : ∃ w', w.setEntry m k v = some w' := by
  rcases h with ⟨entries, is⟩ | ⟨entries, is⟩ <;> rw [World.setEntry, is]
  · exact ⟨_, rfl⟩
  · dsimp only
    split <;> exact ⟨_, rfl⟩

theorem IsMap.deleteEntry (h : w.IsMap m) (k : Value) : ∃ w', w.deleteEntry m k = some w' := by
  rcases h with ⟨entries, is⟩ | ⟨entries, is⟩ <;> rw [World.deleteEntry, is] <;> exact ⟨_, rfl⟩

end World

/-! ## Operations -/

namespace PrivateState

/-- Outside or inside running handlers, there is room for one more, and of the objects `names`,
    those that are alive are maps whose properties are served by the handler of maps. -/
structure Ready (names : ObjectId → Prop) (w : World) : Prop where
  intact : w.Intact
  grounded : w.heap.Grounded
  room : w.depth < w.config.maxDepth
  isMap : ∀ m, names m → ¬w.Dead (.object m) → w.IsMap m
  served : ∀ m, names m → ¬w.Dead (.object m) → ∀ op,
    (w.registry.server? (w.heap.chain m) op).map (·.service) = some .entries

variable {names : ObjectId → Prop} {w w' : World} {m o r : ObjectId} {v : Value}

/-- The handler of maps serves what is asked of a map, for the object that stands for the base. -/
theorem Ready.on_resolveAbstractOf (base : Value) (hb : base.isNullish = false)
    (ready : Ready names (w.coerced base)) (hm : names m)
    (alive : (w.coerced base).Live (.object m)) (run : Runner) (request : Request) :
    let visit : Visit := { request, name := m, receiver := w.receiver base }
    let end_ := (serveEntry visit).on ((w.coerced base).inside (visit.held base))
    (resolveAbstract run request base m).on w = (end_.1, end_.2.outside (visit.held base)) := by
  intro visit end_
  obtain ⟨h, hs, service⟩ := Option.map_eq_some_iff.1
    (ready.served m hm (fun dead => dead.2 alive) request.operation)
  rw [Lvalue.on_resolveAbstract run request m hb]
  refine (on_holding_dispatch_of_server run visit _ ready.room hs).trans ?_
  rw [World.on_holding_deeper, serve, service]

theorem Ready.on_resolveAbstract (ready : Ready names w) (hm : names m)
    (alive : w.Live (.object m)) (run : Runner) (request : Request) :
    let visit : Visit := { request, name := m, receiver := o }
    let end_ := (serveEntry visit).on (w.inside (visit.held (.object o)))
    (resolveAbstract run request (.object o) m).on w =
      (end_.1, end_.2.outside (visit.held (.object o))) :=
  Ready.on_resolveAbstractOf (.object o) rfl ready hm alive run request

/-- To read a private property is to look for the nearest entry. -/
theorem Ready.on_readOf (base : Value) (hb : base.isNullish = false)
    (ready : Ready names (w.coerced base)) (hm : names m)
    (alive : (w.coerced base).Live (.object m)) (run : Runner) (strict : Bool) :
    (readReference run (.abstractMember base m strict)).on w =
      (.ok ((w.coerced base).privateValue m (w.receiver base)), w.coerced base) := by
  let visit : Visit := { request := .read, name := m, receiver := w.receiver base }
  let w₁ := (w.coerced base).inside (visit.held base)
  have isMap := ready.isMap m hm fun dead => dead.2 alive
  have served : (serveEntry visit).on w₁ =
      (.ok ((w.coerced base).privateValue m (w.receiver base)), w₁) := by
    rw [on_serveEntry, World.mapAnswer?]
    dsimp only [visit]
    rw [World.IsMap.inheritedValue? (w := w₁) isMap]
    rfl
  rw [readReference, Ready.on_resolveAbstractOf base hb ready hm alive, served]
  exact congrArg _ (World.outside_inside (w.coerced base) _ _ _)

/-- A read finds the entry that is nearest on the chain. -/
theorem Ready.on_read (ready : Ready names w) (hm : names m) (alive : w.Live (.object m))
    (run : Runner) (o : ObjectId) (strict : Bool) :
    (readReference run (.abstractMember (.object o) m strict)).on w =
      (.ok (w.privateValue m o), w) :=
  Ready.on_readOf (.object o) rfl ready hm alive run strict

/-- The things that an operation works on are alive. -/
theorem live_of_held {request : Request} (alive : w.Live (.object m)) (base : w.Live (.object r))
    (value : ∀ t ∈ things request.value?, w.Live t) :
    ∀ t ∈ things (({ request, name := m, receiver := r } : Visit).held (.object r)), w.Live t := by
  intro t ht
  simp only [Visit.held, things_append, things_cons, things_object, things_nil, things_toList,
    List.mem_append, List.mem_singleton, List.not_mem_nil, or_false] at ht
  rcases ht with (rfl | rfl | rfl) | ht
  · exact base
  · exact alive
  · exact base
  · exact value t ht

/-- To write a private property is to set the entry of the object that stands for the base. -/
theorem Ready.on_writeOf (base : Value) (hb : base.isNullish = false)
    (ready : Ready names (w.coerced base)) (hm : names m)
    (alive : (w.coerced base).Live (.object m)) (v : Value) (run : Runner) (strict : Bool) :
    let visit : Visit := { request := .write v, name := m, receiver := w.receiver base }
    ∃ w', ((w.coerced base).inside (visit.held base)).setEntry m (.object (w.receiver base)) v =
        some w' ∧
      (writeReference run (.abstractMember base m strict) v).on w =
        (.ok (), w'.outside (visit.held base)) := by
  intro visit
  let w₁ := (w.coerced base).inside (visit.held base)
  have isMap : w₁.IsMap m := ready.isMap m hm fun dead => dead.2 alive
  obtain ⟨w', set⟩ := isMap.setEntry (.object (w.receiver base)) v
  have served : (serveEntry visit).on w₁ = (.ok .undefined, w') := by
    rw [on_serveEntry, World.mapAnswer?]
    dsimp only [visit]
    rw [set]
    rfl
  refine ⟨w', set, ?_⟩
  rw [writeReference, on_bind, Ready.on_resolveAbstractOf base hb ready hm alive, served]
  rfl

/-- A write succeeds, and amends the entry of the receiver alone. -/
theorem Ready.on_write (ready : Ready names w) (hm : names m) (alive : w.Live (.object m))
    (base : w.Live (.object r)) (value : ∀ t ∈ things v, w.Live t) (run : Runner) (strict : Bool) :
    ∃ w', (writeReference run (.abstractMember (.object r) m strict) v).on w = (.ok (), w') ∧
      w.Amends m (replacing r (some v)) w' := by
  let visit : Visit := { request := .write v, name := m, receiver := r }
  let w₁ := w.inside (visit.held (.object r))
  have live : ∀ t ∈ things (visit.held (.object r)), w.Live t :=
    live_of_held alive base (by simpa [Request.value?] using value)
  have held {t : Thing} (h : t ∈ things (visit.held (.object r))) : t ∈ w₁.anchors :=
    World.mem_anchors_inside h
  obtain ⟨w', set, written⟩ : ∃ w', w₁.setEntry m (.object r) v = some w' ∧
      (writeReference run (.abstractMember (.object r) m strict) v).on w =
        (.ok (), w'.outside (visit.held (.object r))) :=
    Ready.on_writeOf (.object r) rfl ready hm alive v run strict
  have amends := World.amends_setEntry (World.follows_inside ready.intact live).intact
    (held (by simp [visit, Visit.held])) (held (by simp [visit, Visit.held]))
    (fun t ht => held (by simp [visit, Visit.held, Request.value?, ht])) set
  exact ⟨_, written, amends.outside ready.intact live⟩

/-- To delete a private property is to delete the entry. -/
theorem Ready.on_delete (ready : Ready names w) (hm : names m) (alive : w.Live (.object m))
    (base : w.Live (.object r)) (run : Runner) (strict : Bool) :
    ∃ w', (deleteReference run (.abstractMember (.object r) m strict)).on w = (.ok true, w') ∧
      w.Amends m (replacing r none) w' := by
  let visit : Visit := { request := .delete, name := m, receiver := r }
  let w₁ := w.inside (visit.held (.object r))
  have isMap := ready.isMap m hm fun dead => dead.2 alive
  have live : ∀ t ∈ things (visit.held (.object r)), w.Live t :=
    live_of_held alive base (by simp [Request.value?])
  obtain ⟨w', deleted⟩ := World.IsMap.deleteEntry (w := w₁) isMap (.object r)
  have served : (serveEntry visit).on w₁ = (.ok (.bool (w.entryOf m r).isSome), w') := by
    rw [on_serveEntry, World.mapAnswer?]
    dsimp only [visit]
    rw [World.IsMap.valueAt? (w := w₁) isMap, deleted]
    rfl
  have amends := World.amends_deleteEntry (World.follows_inside ready.intact live).intact
    (World.mem_anchors_inside (by simp [visit, Visit.held])) deleted
  refine ⟨_, ?_, amends.outside ready.intact live⟩
  rw [deleteReference, on_bind, ready.on_resolveAbstract hm alive, served]
  rfl

/-- An operation on a map leaves all as it has to be. -/
theorem Ready.amends (ready : Ready names w) {f : ObjectId → Option Value → Option Value}
    (h : w.Amends m f w') : Ready names w' where
  intact := h.follows.intact
  grounded := h.grounded ready.grounded
  room := by
    obtain ⟨_, _, rfl⟩ := h.frame
    exact ready.room
  isMap m' hm' alive :=
    h.isMap (ready.isMap m' hm' fun dead => alive (h.follows.outlives _ dead)) alive
  served m' hm' alive op := by
    have before : ¬w.Dead (.object m') := fun dead => alive (h.follows.outlives _ dead)
    have live := (h.isMap (ready.isMap m' hm' before) alive).live alive
    rw [(h.chain ready.grounded live).1]
    obtain ⟨_, _, rfl⟩ := h.frame
    exact ready.served m' hm' before op

/-- Between the actions of a session, all is ready if the limit lets handlers run at all and the
    handler of maps serves the names. -/
theorem ready_performAll (config : Config) (limit : 0 < config.maxDepth) (as : List Action)
    (names : ObjectId → Prop) :
    let w := ((World.initial config).performAll as).2
    (∀ m, names m → w.IsMap m ∧
      ∀ op, (w.registry.server? (w.heap.chain m) op).map (·.service) = some .entries) →
    Ready names w := by
  intro w serves
  have order := World.ancestry_performAll config as
  have balanced := World.balanced_performAll config as
  have depth : w.depth = 0 := UInt32.toNat_inj.1 balanced.depth
  exact
    { intact := order.1.1
      grounded := order.2
      room := by rwa [depth, balanced.maxDepth]
      isMap := fun m hm _ => (serves m hm).1
      served := fun m hm _ => (serves m hm).2 }

/-! ## Runs -/

/-- What is done to private state. -/
inductive Op where
  | put (m r : ObjectId) (v : Value)
  | delete (m r : ObjectId)
  /-- Nothing: what happens, happens elsewhere. -/
  | elsewhere

/-- What the operation makes of the entries, by maps and objects. -/
def Op.apply (σ : ObjectId → ObjectId → Option Value) : Op → ObjectId → ObjectId → Option Value
  | put m r v, m', o => if m' = m then replacing r (some v) o (σ m o) else σ m' o
  | delete m r, m', o => if m' = m then replacing r none o (σ m o) else σ m' o
  | elsewhere, m', o => σ m' o

/-- One step: a write or a delete of a private property of an object that is alive, or something
    elsewhere, which brings no dead thing back, lets the handler of maps serve the names, and
    leaves their entries alone. Prototypes may change there. -/
inductive Step (run : Runner) (names : ObjectId → Prop) : Op → World → World → Prop
  | put {w : World} {m r : ObjectId} {v : Value} (strict : Bool) (name : names m)
    (map : w.Live (.object m)) (base : w.Live (.object r)) (value : ∀ t ∈ things v, w.Live t) :
    Step run names (.put m r v) w
      ((writeReference run (.abstractMember (.object r) m strict) v).on w).2
  | delete {w : World} {m r : ObjectId} (strict : Bool) (name : names m)
    (map : w.Live (.object m)) (base : w.Live (.object r)) :
    Step run names (.delete m r) w
      ((deleteReference run (.abstractMember (.object r) m strict)).on w).2
  | elsewhere {w w' : World} (follows : w'.Follows w) (ready : Ready names w')
    (same : ∀ m, names m → ¬w'.Dead (.object m) → ∀ o, ¬w'.Dead (.object o) →
      w'.entryOf m o = w.entryOf m o) : Step run names .elsewhere w w'

/-- Steps one after the other, and what they make of the entries. -/
inductive Run (run : Runner) (names : ObjectId → Prop) (w₀ : World) :
    World → (ObjectId → ObjectId → Option Value) → Prop
  | start : Run run names w₀ w₀ w₀.entryOf
  | step {op : Op} {w w' : World} {σ : ObjectId → ObjectId → Option Value}
    (before : Run run names w₀ w σ) (step : Step run names op w w') :
    Run run names w₀ w' (op.apply σ)

/-- The entries of the names that are not dead, for objects that are not dead. -/
def Holds (names : ObjectId → Prop) (w : World) (σ : ObjectId → ObjectId → Option Value) : Prop :=
  ∀ m, names m → ¬w.Dead (.object m) → ∀ o, ¬w.Dead (.object o) → w.entryOf m o = σ m o

variable {σ : ObjectId → ObjectId → Option Value}

/-- What the entries are expected to be is amended along with them. -/
theorem Holds.amends (h : Holds names w σ) (ready : Ready names w)
    {f : ObjectId → Option Value → Option Value} (amends : w.Amends m f w') :
    Holds names w' fun m' o => if m' = m then f o (σ m o) else σ m' o := by
  intro m' hm' alive o aliveo
  have alive₀ : ¬w.Dead (.object m') := fun dead => alive (amends.follows.outlives _ dead)
  have aliveo₀ : ¬w.Dead (.object o) := fun dead => aliveo (amends.follows.outlives _ dead)
  dsimp only
  split
  · next e =>
    subst e
    rw [amends.entryOf (ready.isMap m' hm' alive₀) aliveo, h m' hm' alive₀ o aliveo₀]
  · next ne => rw [amends.entryOf_of_ne ne alive, h m' hm' alive₀ o aliveo₀]

/-- After one step, the names are still ready and the entries are as expected. -/
theorem Step.keeps {run : Runner} {op : Op} (step : Step run names op w w') (ready : Ready names w)
    (h : Holds names w σ) : Ready names w' ∧ Holds names w' (op.apply σ) := by
  cases step with
  | put strict name map base value =>
    obtain ⟨w', written, amends⟩ := ready.on_write name map base value run strict
    rw [written]
    exact ⟨ready.amends amends, h.amends ready amends⟩
  | delete strict name map base =>
    obtain ⟨w', deleted, amends⟩ := ready.on_delete name map base run strict
    rw [deleted]
    exact ⟨ready.amends amends, h.amends ready amends⟩
  | elsewhere follows ready' same =>
    refine ⟨ready', fun m hm alive o aliveo => ?_⟩
    rw [same m hm alive o aliveo]
    exact h m hm (fun dead => alive (follows.outlives _ dead)) o
      fun dead => aliveo (follows.outlives _ dead)

/-- After every run, the entries are what its operations have made of them. -/
theorem Run.keeps {run : Runner} {w₀ : World} (steps : Run run names w₀ w σ)
    (ready : Ready names w₀) : Ready names w ∧ Holds names w σ := by
  induction steps with
  | start => exact ⟨ready, fun _ _ _ _ _ => rfl⟩
  | step _ step ih => exact step.keeps ih.1 ih.2

/-- To read the private property of `o` that `m` names yields `v` and changes nothing. -/
def Reads (run : Runner) (w : World) (m o : ObjectId) (v : Value) : Prop :=
  ∀ strict, (readReference run (.abstractMember (.object o) m strict)).on w = (.ok v, w)

end PrivateState

open PrivateState in
/-- Maps as names keep the state of objects. Take any collection of maps and weak maps that the
    handler of maps serves, in any world in which nothing is held that is not there, prototypes
    come to an end and there is room for one more handler, as between the actions of any session;
    and any run of writes and deletes of private properties from there. Let `m` be one of the
    names, alive.

    A read takes the nearest entry on the prototype chain, where the entries are what the run has
    made of them, or is undefined. A write succeeds; it is then read by just those objects that
    have the one written to on their chain with no entry before it, and the others read what they
    read before. After a delete, which succeeds as well, the object reads what its prototype reads,
    or undefined if it has none, and whoever did not have its entry in sight reads what it read
    before. No read through another name changes. -/
theorem privateState_of_run (run : Runner) {names : ObjectId → Prop} {w₀ w : World}
    {σ : ObjectId → ObjectId → Option Value} (ready : Ready names w₀)
    (steps : Run run names w₀ w σ) {m : ObjectId} (hm : names m) (alive : w.Live (.object m)) :
    (∀ (config : Config) (as : List Action) (names : ObjectId → Prop), 0 < config.maxDepth →
      let w := ((World.initial config).performAll as).2
      (∀ m, names m → w.IsMap m ∧
        ∀ op, (w.registry.server? (w.heap.chain m) op).map (·.service) = some .entries) →
      Ready names w) ∧
    (∀ o, w.Live (.object o) → w.entryOf m o = σ m o ∧ Reads run w m o (w.privateValue m o)) ∧
    (∀ r v strict, w.Live (.object r) → (∀ t ∈ things v, w.Live t) →
      ∃ w', (writeReference run (.abstractMember (.object r) m strict) v).on w = (.ok (), w') ∧
        (w'.Live (.object m) → ∀ o, w'.Live (.object o) →
          (w.Uncovers m o r → Reads run w' m o v) ∧
          (¬w.Uncovers m o r → Reads run w' m o (w.privateValue m o))) ∧
        ∀ m', names m' → m' ≠ m → w'.Live (.object m') → ∀ o, w'.Live (.object o) →
          Reads run w' m' o (w.privateValue m' o)) ∧
    (∀ r strict, w.Live (.object r) →
      ∃ w', (deleteReference run (.abstractMember (.object r) m strict)).on w = (.ok true, w') ∧
        (w'.Live (.object m) → w'.Live (.object r) →
          (w.heap.prototype? r = none → Reads run w' m r .undefined) ∧
          ∀ p, w.heap.prototype? r = some p → ∃ v, Reads run w' m p v ∧ Reads run w' m r v) ∧
        (w'.Live (.object m) → ∀ o, w'.Live (.object o) → ¬w.Uncovers m o r →
          Reads run w' m o (w.privateValue m o)) ∧
        ∀ m', names m' → m' ≠ m → w'.Live (.object m') → ∀ o, w'.Live (.object o) →
          Reads run w' m' o (w.privateValue m' o)) := by
  obtain ⟨ready, entries⟩ := steps.keeps ready
  have isMap := ready.isMap m hm fun dead => dead.2 alive
  refine ⟨fun config as names limit => ready_performAll config limit as names,
    fun o ho => ⟨?_, ready.on_read hm alive run o⟩, fun r v strict base value => ?_,
    fun r strict base => ?_⟩
  · exact entries m hm (fun dead => dead.2 alive) o fun dead => dead.2 ho
  · obtain ⟨w', written, amends⟩ := ready.on_write hm alive base value run strict
    have ready' := ready.amends amends
    refine ⟨w', written, fun alive' o ho => ⟨fun sees => ?_, fun covered => ?_⟩,
      fun m' hm' ne alive' o ho => ?_⟩
    · rw [← amends.privateValue_of_uncovers ready.grounded isMap ho sees]
      exact ready'.on_read hm alive' run o
    · rw [← amends.privateValue_of_not_uncovers ready.grounded isMap ho covered]
      exact ready'.on_read hm alive' run o
    · rw [← amends.privateValue_of_ne ready.grounded ne alive' ho]
      exact ready'.on_read hm' alive' run o
  · obtain ⟨w', deleted, amends⟩ := ready.on_delete hm alive base run strict
    have ready' := ready.amends amends
    refine ⟨w', deleted, fun alive' hr => ?_, fun alive' o ho covered => ?_,
      fun m' hm' ne alive' o ho => ?_⟩
    -- Without an entry of its own, the object reads what its prototype reads.
    · have gone : w'.entryOf m r = none := by
        rw [amends.entryOf isMap fun dead => dead.2 hr, replacing, if_pos rfl]
      have reads := ready'.on_read hm alive' run r
      rw [World.privateValue_of_no_entry ready'.grounded (World.present_of_live hr) gone,
        (amends.prototype r).resolve_right fun dead => dead.2 hr] at reads
      constructor
      · intro top
        rwa [top] at reads
      · intro p inherits
        rw [inherits] at reads
        exact ⟨_, ready'.on_read hm alive' run p, reads⟩
    · rw [← amends.privateValue_of_not_uncovers ready.grounded isMap ho covered]
      exact ready'.on_read hm alive' run o
    · rw [← amends.privateValue_of_ne ready.grounded ne alive' ho]
      exact ready'.on_read hm' alive' run o

/-- A weak map as a name, an object that inherits from another one, and a write to the latter. -/
theorem privateState_of_run_of_child :
    let w₀ := ((World.initial {}).performAll (List.map Action.command
      [.new .weakMap .standard (some "m"), .new .ordinary .none (some "a"),
        .new .ordinary (.object (.register "a")) (some "b")])).2
    let run := runnerAt (callerAt 1) 1
    let r (o : ObjectId) := Reference.abstractMember (.object o) ⟨8⟩ true
    let w := ((writeReference run (r ⟨9⟩) (.bool true)).on w₀).2
    PrivateState.Ready (· = ⟨8⟩) w₀ ∧
      (readReference run (r ⟨10⟩)).on w = (.ok (.bool true), w) ∧
      ∃ w', (deleteReference run (r ⟨9⟩)).on w = (.ok true, w') ∧
        (readReference run (r ⟨9⟩)).on w' = (.ok .undefined, w') := by
  intro w₀ run r w
  have served (op : Operation) : (w₀.registry.server? (w₀.heap.chain ⟨8⟩) op).any
      (·.service matches .entries) := by
    cases op <;> decide +kernel
  have ready : PrivateState.Ready (· = ⟨8⟩) w₀ :=
    PrivateState.ready_performAll {} (by decide) _ _ fun m hm => by
      subst hm
      refine ⟨(World.isMap_iff (k := ⟨8⟩)).2 (Option.isSome_iff_exists.1 (by decide +kernel)),
        fun op => ?_⟩
      obtain ⟨⟨label, service⟩, hs, entries⟩ := (Option.any_eq_true _ _).1 (served op)
      cases service with
      | entries => rw [hs]; rfl
      | _ => exact absurd entries Bool.false_ne_true
  have lives : w₀.settle.heap.alive ⟨8⟩ ∧ w₀.settle.heap.alive ⟨9⟩ := by decide +kernel
  have lives' : (w.settle.heap.alive ⟨8⟩ ∧ w.settle.heap.alive ⟨9⟩) ∧ w.settle.heap.alive ⟨10⟩ := by
    decide +kernel
  obtain ⟨-, reads, -, deletes⟩ := privateState_of_run run ready
    (.step .start (.put true rfl lives.1 lives.2 fun _ ht => absurd ht List.not_mem_nil)) rfl
    lives'.1.1
  obtain ⟨w', deleted, own, -⟩ := deletes ⟨9⟩ true lives'.1.2
  obtain rfl : ((deleteReference run (r ⟨9⟩)).on w).2 = w' := congrArg Prod.snd deleted
  have after : ((deleteReference run (r ⟨9⟩)).on w).2.settle.heap.alive ⟨8⟩ ∧
      ((deleteReference run (r ⟨9⟩)).on w).2.settle.heap.alive ⟨9⟩ := by decide +kernel
  have value : w.privateValue ⟨8⟩ ⟨10⟩ = .bool true := by decide +kernel
  refine ⟨ready, value ▸ (reads ⟨10⟩ lives'.2).2 true, _, deleted, ?_⟩
  exact (own after.1 after.2).1 (by decide +kernel) true

end Lvalue
