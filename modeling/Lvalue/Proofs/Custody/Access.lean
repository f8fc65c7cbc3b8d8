import Lvalue.Access
import Lvalue.Proofs.Custody

/-!
# Accesses in custody

What is read from a known object is known: its chain, its properties, its entries. So
maps and accesses to properties are in custody if the functions that they run are.
-/

namespace Lvalue

open Bearer Eval

/-! ## What objects hold -/

namespace World

variable {w : World} {o : ObjectId} {x : Object} {t : Thing}

theorem mem_holds_object (hx : w.heap.get? o = some x) :
    t ∈ w.holds (.object o) ↔ t ∈ things x := by
  rw [holds, hx, things_some]

/-- An object holds what its kind has in it: entries, or the value that it wraps. -/
theorem mem_holds_of_kind {kind : Kind} (hk : w.heap.kind? o = some kind) (ht : t ∈ things kind) :
    t ∈ w.holds (.object o) := by
  obtain ⟨x, hx, rfl⟩ := Option.map_eq_some_iff.1 hk
  simp only [mem_holds_object hx, things, Object.objects, List.map_append, List.mem_append]
  exact .inl (.inl ht)

/-- An object holds its prototype. -/
theorem mem_holds_of_prototype {p : ObjectId} (hp : w.heap.prototype? o = some p) :
    .object p ∈ w.holds (.object o) := by
  obtain ⟨x, hx, hp⟩ := Option.bind_eq_some_iff.1 hp
  rw [mem_holds_object hx, object_mem_things]
  simp [Object.objects, hp]

/-- An object holds what its properties hold. -/
theorem mem_holds_of_own {k : Key} {p : Property} (hp : w.heap.own? o k = some p)
    (ht : t ∈ things p) : t ∈ w.holds (.object o) := by
  obtain ⟨x, hx, hp⟩ := Option.bind_eq_some_iff.1 hp
  obtain ⟨o', ho', rfl⟩ := List.mem_map.1 ht
  rw [mem_holds_object hx, object_mem_things]
  exact List.mem_append_right _ (List.mem_flatMap.2 ⟨p, Table.mem_values.2 ⟨k, hp⟩, ho'⟩)

end World

namespace Custody

variable {C : Custody} {l : Layer} {w : World} {o : ObjectId}

/-- The prototype of a known object is known. -/
theorem known_prototype (hw : C.order l w) (ho : C.known w (.object o)) :
    Knows (things (w.heap.prototype? o)) C w := by
  cases hp : w.heap.prototype? o with
  | none => simp
  | some p => simpa using C.known_of_held hw ho (World.mem_holds_of_prototype hp)

/-- A walk along prototypes that starts at a known object, or at none, meets known objects only. -/
theorem known_walk (hw : C.order l w) {n : Nat} {start : Option ObjectId}
    (h : Knows (things start) C w) : Knows (things (w.heap.walk n start)) C w := by
  -- Induction on the length of the walk, for every start.
  induction n generalizing start with
  | zero => exact knows_nil.2 trivial
  | succ n ih =>
    cases start with
    | none => exact knows_nil.2 trivial
    | some o =>
      have ho : C.known w (.object o) := by simpa using h
      simpa [Heap.walk, ho] using ih (known_prototype hw ho)

/-- The chain of a known object is known. -/
theorem known_chain (hw : C.order l w) (ho : C.known w (.object o)) :
    Knows (things (w.heap.chain o)) C w :=
  known_walk hw (by simpa using ho)

/-- Whatever object has the property that is found is on the chain, and so it is known with all that
    the property holds. -/
theorem known_lookup (hw : C.order l w) (ho : C.known w (.object o)) {k : Key} {holder : ObjectId}
    {p : Property} (h : w.heap.lookup o k = some (holder, p)) :
    C.known w (.object holder) ∧ Knows (things p) C w := by
  obtain ⟨o', mem, found⟩ := List.exists_of_findSome?_eq_some h
  obtain ⟨p', hp', e⟩ := Option.map_eq_some_iff.1 found
  cases e
  -- The object that has the property is on the chain.
  have known := known_chain hw ho _ (mem_things.2 ⟨_, mem, List.mem_singleton_self _⟩)
  exact ⟨known, fun t ht => C.known_of_held hw known (World.mem_holds_of_own hp' ht)⟩

/-! ## Maps -/

/-- Two worlds in order, and what is kept in the one is kept in the other. -/
theorem visit (hw : C.order l w) {m : ObjectId} (hm : C.kept w (.object m)) (k : ObjectId) :
    C.order l (w.visit m k) ∧ ∀ t, C.kept w t → C.kept (w.visit m k) t := by
  rw [World.visit]
  split
  · next entries is =>
    split
    · exact ⟨hw, fun _ => id⟩
    · have hw' := (C.change hw (.weakErase k (C.known_of_kept hw hm) is)).1
      exact ⟨C.settle hw', fun t => C.kept_congr rfl rfl⟩
  · exact ⟨hw, fun _ => id⟩

/-- To prune a map is to visit it for one key after another, after the world has settled. -/
theorem prune (hw : C.order l w) {m : ObjectId} (hm : C.kept w (.object m)) :
    C.order l (w.prune m) ∧ ∀ t, C.kept w t → C.kept (w.prune m) t := by
  -- Induction on the keys. The map itself is among what every visit keeps, and so it is there for
  -- the next one.
  have step (ks : List ObjectId) {w : World} (hw : C.order l w) (hm : C.kept w (.object m)) :
      C.order l (ks.foldl (World.visit m) w) ∧
        ∀ t, C.kept w t → C.kept (ks.foldl (World.visit m) w) t := by
    induction ks generalizing w with
    | nil => exact ⟨hw, fun _ => id⟩
    | cons k ks ih =>
      obtain ⟨hw', keeps⟩ := visit hw hm k
      obtain ⟨hw'', keeps'⟩ := ih hw' (keeps _ hm)
      exact ⟨hw'', fun t ht => keeps' t (keeps t ht)⟩
  rw [World.prune]
  split
  · rw [World.pruneAlong_eq_foldl]
    have settled {t : Thing} (ht : C.kept w t) : C.kept w.settle t :=
      C.kept_congr (w := w) rfl rfl ht
    obtain ⟨hw', keeps⟩ := step _ (C.settle hw) (settled hm)
    exact ⟨hw', fun t ht => keeps t (settled ht)⟩
  · exact ⟨hw, fun _ => id⟩

end Custody

/-- A map holds its keys and its values. -/
theorem things_map {entries : Entries} {t : Thing} : t ∈ things (Kind.map entries) ↔
    t ∈ things entries.table.keys ∨ t ∈ things entries.table.values := by
  cases t <;> simp [things, Kind.objects, Entries.objects]

/-- A weak map holds its values, but not its keys. -/
theorem things_weakMap {entries : WeakEntries} {t : Thing} : t ∈ things (Kind.weakMap entries) ↔
    t ∈ things entries.table.values := by
  cases t <;> simp [things, Kind.objects, WeakEntries.objects]

theorem things_canonical (k : Value) : things k.canonical = things k := by
  cases k <;> rfl

/-- A new entry of a map brings its key and its value and nothing else. -/
theorem things_map_insert {entries : Entries} {k v : Value} {t : Thing}
    (h : t ∈ things (Kind.map (entries.insert k v))) :
    t ∈ things (Kind.map entries) ∨ t ∈ things k ∨ t ∈ things v := by
  rw [things_map] at h ⊢
  rcases h with h | h <;> obtain ⟨a, mem, ht⟩ := mem_things.1 h
  · rcases Table.mem_keys_insert.1 mem with rfl | mem
    · exact .inr (.inl (things_canonical k ▸ ht))
    · exact .inl (.inl (mem_things.2 ⟨a, mem, ht⟩))
  · rcases Table.mem_values_of_insert mem with rfl | mem
    · exact .inr (.inr ht)
    · exact .inl (.inr (mem_things.2 ⟨a, mem, ht⟩))

theorem things_map_erase {entries : Entries} {k : Value} {t : Thing}
    (h : t ∈ things (Kind.map (entries.erase k))) : t ∈ things (Kind.map entries) := by
  rw [things_map] at h ⊢
  rcases h with h | h <;> obtain ⟨a, mem, ht⟩ := mem_things.1 h
  · exact .inl (mem_things.2 ⟨a, Table.mem_keys_of_filter mem, ht⟩)
  · exact .inr (mem_things.2 ⟨a, Table.mem_values_of_filter mem, ht⟩)

theorem things_weakEntry {entries : WeakEntries} {k : ObjectId} {v : Value}
    (h : entries.get? k = some v) : things v ⊆ things (Kind.weakMap entries) := by
  intro t ht
  rw [things_weakMap]
  exact mem_things.2 ⟨v, Table.mem_values.2 ⟨k, h⟩, ht⟩

theorem things_entry {entries : Entries} {k v : Value} (h : entries.get? k = some v) :
    things v ⊆ things (Kind.map entries) := by
  intro t ht
  rw [things_map]
  exact .inr (mem_things.2 ⟨v, Table.mem_values.2 ⟨_, h⟩, ht⟩)

/-- An entry of a map is held by it. -/
theorem World.mem_holds_of_valueAt? {w : World} {m : ObjectId} {k v : Value} {t : Thing}
    (h : w.valueAt? m k = some (some v)) (ht : t ∈ things v) : t ∈ w.holds (.object m) := by
  rw [valueAt?] at h
  split at h
  · next is => exact mem_holds_of_kind is (things_entry (Option.some.inj h) ht)
  · next entries is =>
    obtain ⟨o, -, found⟩ := Option.bind_eq_some_iff.1 (Option.some.inj h)
    exact mem_holds_of_kind is (things_weakEntry found ht)
  · contradiction

namespace Custody

variable {C : Custody} {l : Layer} {w w' : World} {m : ObjectId} {k v : Value}

/-- An entry of kept things may be put into a kept map. Of what is only known it would not be
    enough, as a weak map lets go of its dead entries first. -/
theorem setEntry (hw : C.order l w) (hm : C.kept w (.object m)) (hk : ∀ t ∈ things k, C.kept w t)
    (hv : ∀ t ∈ things v, C.kept w t) (h : w.setEntry m k v = some w') : C.order l w' := by
  rw [World.setEntry] at h
  split at h
  · next entries is =>
    obtain rfl := Option.some.inj h
    have known : C.known w (.object m) := C.known_of_kept hw hm
    refine (C.change hw (.entries known is fun t ht => ?_)).1
    rcases things_map_insert ht with ht | ht | ht
    · exact C.known_of_held hw known (World.mem_holds_of_kind is ht)
    · exact C.known_of_kept hw (hk t ht)
    · exact C.known_of_kept hw (hv t ht)
  · -- A weak map is pruned first; map, key and value are kept meanwhile.
    obtain ⟨hw', keeps⟩ := prune hw hm
    have known {t : Thing} (ht : C.kept w t) : C.known (w.prune m) t :=
      C.known_of_kept hw' (keeps t ht)
    dsimp only at h
    split at h
    · next entries is =>
      obtain rfl := Option.some.inj h
      refine (C.change hw' (.weakInsert (known hm) is (known (hk _ ?_))
        fun t ht => known (hv t ht))).1
      exact List.mem_singleton_self _
    · obtain rfl := Option.some.inj h
      exact hw'
  · contradiction

theorem deleteEntry (hw : C.order l w) (hm : C.known w (.object m))
    (h : w.deleteEntry m k = some w') : C.order l w' := by
  rw [World.deleteEntry] at h
  split at h
  · next entries is =>
    obtain rfl := Option.some.inj h
    refine (C.change hw (.entries hm is fun t ht => ?_)).1
    exact C.known_of_held hw hm (World.mem_holds_of_kind is (things_map_erase ht))
  · next entries is =>
    obtain rfl := Option.some.inj h
    have is : w.weakEntries? m = some entries := by rw [World.weakEntries?, is]
    cases k.object? with
    | none => exact hw
    | some o => exact (C.change hw (.weakErase o hm is)).1
  · contradiction

end Custody

/-! ## Scopes -/

namespace World

variable {w : World} {s : ScopeId} {t : Thing}

theorem mem_holds_of_parent {p : ScopeId} (hp : w.scopes.parent? s = some p) :
    .scope p ∈ w.holds (.scope s) := by
  obtain ⟨c, hc, hp⟩ := Option.bind_eq_some_iff.1 hp
  exact mem_holds.2 (.inr ⟨s, c, rfl, hc, scope_mem_scope.2 hp⟩)

theorem mem_holds_of_bindings {c : Scope} (hc : w.scopes.get? s = some c)
    (ht : t ∈ things c.bindings.values) : t ∈ w.holds (.scope s) :=
  mem_holds.2 (.inr ⟨s, c, rfl, hc, mem_things_scope.2 (.inr ht)⟩)

theorem mem_holds_of_binding {x : Atom} {b : Binding} (hb : w.scopes.binding? s x = some b)
    (ht : t ∈ things b.value) : t ∈ w.holds (.scope s) := by
  obtain ⟨c, hc, hb⟩ := Option.bind_eq_some_iff.1 hb
  exact mem_holds_of_bindings hc (things_of_get? hb ht)

end World

namespace Custody

variable {C : Custody} {l : Layer} {w : World} {s : ScopeId} {x : Atom} {v : Value}
  {ts : List Thing}

/-- A walk out of a known scope, or of none, meets known scopes only. -/
theorem known_scopeWalk (hw : C.order l w) {n : Nat} {start : Option ScopeId}
    (h : Knows (things start) C w) : Knows (things (w.scopes.walk n start)) C w := by
  induction n generalizing start with
  | zero => exact knows_nil.2 trivial
  | succ n ih =>
    cases start with
    | none => exact knows_nil.2 trivial
    | some s =>
      have hs : C.known w (.scope s) := by simpa using h
      have parent : Knows (things (w.scopes.parent? s)) C w := by
        cases hp : w.scopes.parent? s with
        | none => simp
        | some p => simpa using C.known_of_held hw hs (World.mem_holds_of_parent hp)
      simpa [Scopes.walk, hs] using ih parent

/-- The scopes around a known scope are known. -/
theorem known_scopeChain (hw : C.order l w) (hs : C.known w (.scope s)) {s' : ScopeId}
    (h : s' ∈ w.scopes.chain s) : C.known w (.scope s') := by
  have start : Knows (things (some s)) C w := by simpa using hs
  exact known_scopeWalk hw start _ (mem_things.2 ⟨s', h, List.mem_singleton_self _⟩)

/-- The scope that a name is resolved to is around the one in which it is looked for. -/
theorem known_resolve (hw : C.order l w) (hs : C.known w (.scope s)) :
    Knows (things (w.scopes.resolve s x)) C w := by
  cases e : w.scopes.resolve s x with
  | none => simp
  | some s' => simpa using known_scopeChain hw hs (List.mem_of_find?_eq_some e)

theorem known_outermost (hw : C.order l w) (hs : C.known w (.scope s)) :
    C.known w (.scope (w.scopes.outermost s)) := by
  rw [Scopes.outermost]
  cases e : (w.scopes.chain s).getLast? with
  | none => exact hs
  | some s' => exact known_scopeChain hw hs (List.mem_of_getLast? e)

/-- What a name stands for in a known scope is known. -/
theorem known_read (hw : C.order l w) (hs : C.known w (.scope s)) {spelling : Spelling}
    {strict : Bool} (h : w.scopes.read spelling s x strict = .ok v) : Knows (things v) C w := by
  rw [Scopes.read] at h
  split at h
  · next b hb =>
    split at h
    · obtain rfl := Except.ok.inj h
      exact fun t ht => C.known_of_held hw hs (World.mem_holds_of_binding hb ht)
    · contradiction
  · split at h
    · contradiction
    · obtain rfl := Except.ok.inj h
      exact fun _ => nofun

/-- A known scope gets bindings of what it has and of what is known. -/
theorem rebind (hw : C.order l w) (hs : C.known w (.scope s)) (hts : Knows ts C w)
    {f : Table Atom Binding → Table Atom Binding}
    (hf : ∀ bindings, things (f bindings).values ⊆ ts ++ things bindings.values) :
    ChangeAmong (C.known w) w { w with scopes := w.scopes.rebind s f } := by
  refine .rebind hs fun c hc t ht => ?_
  rcases List.mem_append.1 (hf _ ht) with ht | ht
  · exact hts t ht
  · exact C.known_of_held hw hs (World.mem_holds_of_bindings hc ht)

/-- A known scope may get a new binding of what is known. -/
theorem declare (hw : C.order l w) (hs : C.known w (.scope s)) {b : Binding}
    (hb : Knows (things b) C w) :
    ChangeAmong (C.known w) w { w with scopes := w.scopes.declare s x b } :=
  rebind hw hs hb fun _ => things_insert x b

/-- A binding of a known scope may get a known value. -/
theorem assign (hw : C.order l w) (hs : C.known w (.scope s)) (hv : Knows (things v) C w) :
    ChangeAmong (C.known w) w { w with scopes := w.scopes.assign s x v } :=
  rebind hw hs hv fun _ => things_modify x fun _ => List.Subset.refl _

theorem initialise (hw : C.order l w) (hs : C.known w (.scope s)) (hv : Knows (things v) C w) :
    ChangeAmong (C.known w) w { w with scopes := w.scopes.initialise s x v } := by
  rw [Scopes.initialise]
  split
  · exact rebind hw hs hv fun _ => things_modify x fun _ => List.Subset.refl _
  · exact .refl w

/-- A write to a known scope, where it is allowed, assigns or declares. -/
theorem write (hw : C.order l w) (hs : C.known w (.scope s)) (hv : Knows (things v) C w)
    {spelling : Spelling} {strict : Bool} {scopes : Scopes}
    (h : w.scopes.write spelling s x v strict = .ok scopes) :
    ChangeAmong (C.known w) w { w with scopes } := by
  rw [Scopes.write] at h
  split at h
  · split at h
    · contradiction
    · split at h
      · contradiction
      · exact Except.ok.inj h ▸ assign hw hs hv
  · split at h
    · contradiction
    · exact Except.ok.inj h ▸ declare hw hs hv

theorem deleteBinding (hw : C.order l w) (hs : C.known w (.scope s)) :
    ChangeAmong (C.known w) w { w with scopes := w.scopes.delete s x } := by
  rw [Scopes.delete]
  split
  · exact rebind hw hs (knows_nil.2 trivial) fun _ => things_filter _
  · exact .refl w

/-- The global scope around a known one may get a binding of what is known. -/
theorem createGlobal (hw : C.order l w) (hs : C.known w (.scope s)) (hv : Knows (things v) C w) :
    ChangeAmong (C.known w) w { w with scopes := w.scopes.createGlobal s x v } := by
  rw [Scopes.createGlobal]
  split
  · exact assign hw (known_outermost hw hs) hv
  · exact declare hw (known_outermost hw hs) hv

end Custody

/-! ## Access to properties -/

section

variable {C : Custodies} {k : Nat} {run run' : Caller}

/-- The functions of both ways to run them are in custody where `k` handlers run. -/
def Caller.Safe (C : Custodies) (k : Nat) (run run' : Caller) : Prop :=
  ∀ ops f this args, Eval.Safe C ⟨k, ops⟩ (Knows (things this ++ things args)) (run f this args)
    (run' f this args)

variable {ops : List Reference}

/-- What is called is in custody, and what is no function fails. -/
theorem safe_call (h : Caller.Safe C k run run') (f : ObjectId) (this : Value) (args : List Value) :
    Safe C ⟨k, ops⟩ (Knows (things this ++ things args)) (call run f this args)
      (call run' f this args) := by
  refine .see fun kind => ?_
  rcases kind with _ | _ | g | _ | _ | _
  case some.function => exact (h ops g this args).pre fun _ _ _ hP => hP.1
  all_goals exact .see fun _ => .fault _

/-- A read finds a value on the chain, or runs a getter. While that runs, the operation holds where
    it stands. -/
theorem safe_getProperty (h : Caller.Safe C k run run') (o : ObjectId) (key : Key)
    (receiver : Value) :
    Safe C ⟨k, ops⟩ (Knows (things o ++ things receiver)) (getProperty run o key receiver)
      (getProperty run' o key receiver) := by
  refine .see fun found => ?_
  rcases found with _ | ⟨holder, ⟨⟨v, _⟩ | ⟨_ | getter, setter⟩, _, _⟩⟩
  case some.data =>
    refine .pure fun C w hw ⟨hP, found⟩ => ?_
    simp only [things_objectId, knows_append, knows_cons] at hP
    simpa using (C.known_lookup hw hP.1.1 found).2
  case some.accessor.some =>
    -- While the getter runs, what is held is the receiver and where the search has stopped: the
    -- object with the accessor, its functions, and the object that would come next.
    refine .see fun next => Safe.holding
      ((safe_call h getter receiver []).pre fun C w hw hP => hP.knows hw (by simp))
      fun C w hw known => ?_
    obtain ⟨⟨hP, found⟩, proto⟩ := known
    simp only [things_objectId, knows_append, knows_cons] at hP
    obtain ⟨hholder, functions⟩ := C.known_lookup hw hP.1.1 found
    have hnext : Knows (things next) C w := proto ▸ C.known_prototype hw hholder
    simp only [things_accessor, things_some, things_objectId, knows_append, knows_cons] at functions
    simp [hP, hholder, functions, hnext]
  all_goals exact .pure fun _ _ _ _ _ ht => absurd ht List.not_mem_nil

/-- To give an object a property of its own changes that object alone, and what is no object is not
    changed. -/
theorem safe_assignOwn (key : Key) (v receiver : Value) :
    Safe C ⟨k, ops⟩ (Knows (things v ++ things receiver)) (assignOwn key v receiver)
      (assignOwn key v receiver) := by
  -- In both ways to accept the value, a property with that value is put on the target.
  have define (target : ObjectId) {p : Property} (hp : things p = things v) {P : Assertion}
      (hP : ∀ (C : Custody) w, P C w → Knows (things v ++ things target) C w) :
      Safe C ⟨k, ops⟩ P (assignOwn.define key target p) (assignOwn.define key target p) := by
    refine .see fun _ => .bind (.change fun C w _ h => ?_) fun _ => .pure fun _ _ _ _ => nofun
    have known := hP C w h.1
    rw [knows_append] at known
    exact .define key (known.2 _ (by simp)) (hp ▸ known.1)
  cases receiver with
  | object target =>
    refine .see fun old => ?_
    rcases old with _ | ⟨⟨_, _ | _⟩ | _, _, _⟩
    case none | some.data.true => exact define target rfl fun C w h => h.1
    all_goals exact .pure fun _ _ _ _ => nofun
  | _ => exact .pure fun _ _ _ _ => nofun

/-- A write gives the receiver a property, or runs a setter, or is not accepted. -/
theorem safe_setProperty (h : Caller.Safe C k run run') (o : ObjectId) (key : Key)
    (v receiver : Value) :
    Safe C ⟨k, ops⟩ (Knows (things o ++ things v ++ things receiver))
      (setProperty run o key v receiver) (setProperty run' o key v receiver) := by
  refine .see fun found => ?_
  rcases found with _ | ⟨holder, ⟨⟨_, _ | _⟩ | ⟨getter, _ | setter⟩, _, _⟩⟩
  case some.accessor.some =>
    refine .bind (Safe.holding
      ((safe_call h setter receiver [v]).pre fun C w hw hP => hP.knows hw (by simp))
      fun C w hw ⟨hP, found⟩ => ?_) fun _ => .pure fun _ _ _ _ => nofun
    simp only [things_objectId, knows_append, knows_cons] at hP
    have functions := (C.known_lookup hw hP.1.1.1 found).2
    simp only [things_accessor, things_some, things_objectId, knows_append, knows_cons] at functions
    simp [hP, functions]
  -- Nothing on the chain is in the way: the receiver itself is written to.
  case none | some.data.true =>
    exact (safe_assignOwn key v receiver).pre fun C w _ hP => by
      simp only [knows_append] at hP ⊢
      exact ⟨hP.1.1.2, hP.1.2⟩
  all_goals exact .pure fun _ _ _ _ _ ht => absurd ht List.not_mem_nil

theorem safe_deleteProperty (o : ObjectId) (key : Key) :
    Safe C ⟨k, ops⟩ (Knows (things o)) (deleteProperty o key) (deleteProperty o key) :=
  .see fun _ => .bind (.change fun _ _ _ hP => .delete key (hP.1 _ (by simp))) fun _ =>
    .pure fun _ _ _ _ => nofun

theorem things_wrapper (v : Value) (prototype : ObjectId) :
    things (wrapper v prototype) = things v ++ things prototype := by
  cases v <;> rfl

/-- The object that stands for a known value is known, and all that was known is still known. -/
theorem triple_toObject {ts : List Thing} {v : Value} (hv : things v ⊆ ts) :
    Triple C ⟨k, ops⟩ (Knows ts) (toObject v) (toObject v) fun o => Knows (things o ++ ts) := by
  have wrapped (i : Intrinsic) : Triple C ⟨k, ops⟩ (Knows ts) (Eval.alloc (wrapper v i.id))
      (Eval.alloc (wrapper v i.id)) fun o => Knows (things o ++ ts) := by
    refine .alloc (fun C w hw hP => ?_) rfl
    rw [things_wrapper, knows_append]
    exact ⟨fun t ht => hP t (hv ht), by simpa using C.known_intrinsic hw i⟩
  cases v
  case object o => exact .pure fun C w _ hP => by simpa using ⟨hP _ (hv (by simp)), hP⟩
  case undefined | null => exact .see fun _ => .fault _
  all_goals exact wrapped _

end

end Lvalue
