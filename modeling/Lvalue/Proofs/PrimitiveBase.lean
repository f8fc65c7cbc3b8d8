import Lvalue.Proofs.Commutation
import Lvalue.Proofs.Filing
import Lvalue.Proofs.Hiding

/-!
# Primitive bases

A property of a primitive value is one of its prototype. For each operation the value gets
a new wrapper, which inherits from the prototype and has no property of its own, but for the
length of a text. So what is found from the wrapper is what is found from the prototype
(`World.lookup_coerced`), and the functions found there see the value itself.

Nobody else sees the wrapper: nothing holds it but the operation (`World.hides_coerced`),
which does not give it away.
-/

namespace Lvalue

open Bearer Eval

/-! ## What is found -/

/-- What a property reads: a value, or what a function returns. -/
inductive Reading where
  | value (v : Value)
  | getter (f : ObjectId)
  deriving DecidableEq

namespace Heap

/-- What the property at `k` that `o` has or inherits reads. -/
def reading (h : Heap) (o : ObjectId) (k : Key) : Reading :=
  match h.lookup o k with
  | some (_, { slot := .data v _, .. }) => .value v
  | some (_, { slot := .accessor (some getter) _, .. }) => .getter getter
  | some (_, { slot := .accessor none _, .. }) | none => .value .undefined

/-- The function that writes the property at `k` that `o` has or inherits. -/
def setter? (h : Heap) (o : ObjectId) (k : Key) : Option ObjectId :=
  match h.lookup o k with
  | some (_, { slot := .accessor _ setter, .. }) => setter
  | _ => none

end Heap

namespace Eval

variable {α β : Type} {act act' : Runner → Eval α} {w u v : World} {f : ObjectId} {this : Value}
  {args vs : List Value} {result : Value → α}

/-- On the world `w`, the evaluation calls `f` in the world `u` and does nothing else. If `f` is a
    function, its body runs, once, for `this` and the arguments, while some values are held, and the
    result is made of what it returns. If `f` is none, that is the failure, and nothing runs. -/
def Calls (act : Runner → Eval α) (w u : World) (f : ObjectId) (this : Value) (args : List Value)
    (result : Value → α) : Prop :=
  ∃ vs,
    (∀ g, u.heap.kind? f = some (.function g) → ∀ run,
      let called := (run.call g this args).on (u.hold vs)
      (act run).on w = (called.1.map result, called.2.release vs)) ∧
    ((∀ g, u.heap.kind? f ≠ some (.function g)) → ∀ run,
      (act run).on w = (.error (.raised (.fault (.notCallable (u.heap.className f) f))), u))

/-- On the world `w`, the evaluation reads so, in the world `u` and for `this`. -/
def Reads (act : Runner → Eval Value) (w u : World) (this : Value) : Reading → Prop
  | .value v => ∀ run, (act run).on w = (.ok v, u)
  | .getter f => Calls act w u f this [] id

/-- To call an object and do nothing else is to go on as the call goes. -/
theorem calls_iff : Calls act w u f this args result ↔
    ∃ vs, ∀ run, (act run).on w =
      (result <$> Eval.holding vs (call run.call f this args)).on u := by
  refine exists_congr fun vs => ⟨fun ⟨body, fails⟩ run => ?_, fun on => ⟨fun g is run => ?_,
    fun not run => ?_⟩⟩
  · rw [on_map, on_holding]
    by_cases is : ∃ g, u.heap.kind? f = some (.function g)
    · obtain ⟨g, is⟩ := is
      rw [body g is, on_call_of_function (w := u.hold vs) is]
    · have not : ∀ g, u.heap.kind? f ≠ some (.function g) := not_exists.1 is
      rw [fails not, on_call_of_not_function (w := u.hold vs) not, release_hold]
      rfl
  · rw [on, on_map, on_holding, on_call_of_function (w := u.hold vs) is]
  · rw [on, on_map, on_holding, on_call_of_not_function (w := u.hold vs) not, release_hold]
    rfl

theorem Calls.of_eq {act' : Runner → Eval α} (h : Calls act v u f this args result)
    (on : ∀ run, (act' run).on w = (act run).on v) : Calls act' w u f this args result := by
  obtain ⟨vs, settled⟩ := calls_iff.1 h
  exact calls_iff.2 ⟨vs, fun run => (on run).trans (settled run)⟩

/-- More may be held meanwhile. -/
theorem Calls.holding (h : Calls act (w.hold vs) (w.hold vs) f this args result) :
    Calls (fun run => Eval.holding vs (act run)) w w f this args result := by
  obtain ⟨vs', settled⟩ := calls_iff.1 h
  have hold : (w.hold vs).hold vs' = w.hold (vs' ++ vs) := by
    simp [World.hold]
  have release (w : World) : (w.release vs').release vs = w.release (vs' ++ vs) := by
    simp [World.release]
  refine calls_iff.2 ⟨vs' ++ vs, fun run => ?_⟩
  rw [on_holding, settled, on_map, on_map, on_holding, on_holding, hold, release]

theorem Calls.bind {g : α → Eval β} {result' : Value → β} (h : Calls act w u f this args result)
    (settled : ∀ v, g (result v) = pure (result' v)) :
    Calls (fun run => act run >>= g) w u f this args result' := by
  obtain ⟨vs, on⟩ := calls_iff.1 h
  refine calls_iff.2 ⟨vs, fun run => ?_⟩
  rw [on_bind, on, on_map, on_map]
  rcases (Eval.holding vs (call run.call f this args)).on u with ⟨_ | v, u'⟩
  · rfl
  · exact congrArg (fun act : Eval β => act.on u') (settled v)

theorem Reads.of_eq {act' : Runner → Eval Value} {act : Runner → Eval Value} {reading : Reading}
    (h : Reads act v u this reading) (on : ∀ run, (act' run).on w = (act run).on v) :
    Reads act' w u this reading := by
  cases reading with
  | value => exact fun run => (on run).trans (h run)
  | getter => exact Calls.of_eq h on

theorem Reads.holding {act : Runner → Eval Value} {reading : Reading}
    (h : Reads act (w.hold vs) (w.hold vs) this reading) :
    Reads (fun run => Eval.holding vs (act run)) w w this reading := by
  cases reading with
  | value v =>
    intro run
    rw [on_holding, h run, release_hold]
  | getter => exact Calls.holding h

end Eval

section

variable (w : World) (o : ObjectId) (k : Key)

/-- To read a property is to read as the heap says. -/
theorem reads_getProperty (receiver : Value) :
    Reads (fun run => getProperty run.call o k receiver) w w receiver (w.heap.reading o k) := by
  rw [Heap.reading]
  rcases found : w.heap.lookup o k with _ | ⟨holder, ⟨⟨v, _⟩ | ⟨_ | getter, setter⟩, _, _⟩⟩
  case some.accessor.some =>
    let ids := [o, holder, getter] ++ setter.toList ++ (w.heap.prototype? holder).toList
    refine calls_iff.2 ⟨receiver :: ids.map .object, fun run => ?_⟩
    rw [getProperty, on_bind, on_see, id_map]
    dsimp only
    rw [found]
    rfl
  case some.data => exact fun run => on_getProperty_of_data found rfl run.call receiver
  all_goals
    intro run
    dsimp only
    rw [getProperty, on_bind, on_see]
    dsimp only
    rw [found]
    rfl

variable {w o k}

/-- A property that has a function that writes is written by it. -/
theorem calls_setProperty {setter : ObjectId} (has : w.heap.setter? o k = some setter)
    (v receiver : Value) :
    Calls (fun run => setProperty run.call o k v receiver) w w setter receiver [v]
      fun _ => true := by
  rw [Heap.setter?] at has
  rcases found : w.heap.lookup o k with _ | ⟨holder, ⟨_ | ⟨getter, setter'⟩, _, _⟩⟩ <;>
    rw [found] at has
  case some.accessor =>
    obtain rfl : setter' = some setter := has
    refine calls_iff.2 ⟨heldBySetter getter setter v receiver, fun run => ?_⟩
    rw [on_setProperty_of_setter found rfl, on_map, on_holding]
  all_goals cases has

/-- A primitive value does not get a property. -/
theorem on_setProperty_of_primitive {receiver : Value} (primitive : receiver.object? = none)
    (plain : w.heap.setter? o k = none) (run : Caller) (v : Value) :
    (setProperty run o k v receiver).on w = (.ok false, w) := by
  rw [Heap.setter?] at plain
  rw [setProperty, on_bind, on_see]
  dsimp only
  rcases found : w.heap.lookup o k with
    _ | ⟨holder, ⟨⟨old, _ | _⟩ | ⟨getter, _ | setter⟩, _, _⟩⟩ <;> rw [found] at plain
  case some.accessor.some => cases plain
  case none | some.data.true =>
    cases receiver with
    | object => cases primitive
    | _ => rfl
  all_goals rfl

end

/-! ## New wrappers -/

namespace World

variable {w : World} {p : Value} {i : Intrinsic} {k : Key}

/-- Nothing holds a new wrapper. -/
theorem hides_coerced (hw : w.Intact) (hi : Intrinsic.ofPrimitive p = some i) :
    (w.coerced p).Hides (w.receiver p) where
  past := by
    rw [receiver_eq hi, coerced_eq hi]
    exact Nat.lt_succ_self _
  named ht := by
    have same : (w.coerced p).named = w.named := by rw [coerced_eq hi]; rfl
    rw [same] at ht
    exact fresh_receiver hi (past_of_present (hw.anchors _ (mem_anchors.2 (.inl ht))).1)
  held := not_mem_holds_coerced hw hi

/-- The wrapper of a primitive has the properties that it was made with. -/
theorem own?_coerced (hi : Intrinsic.ofPrimitive p = some i) (k : Key) :
    (w.coerced p).heap.own? (w.receiver p) k = (wrapper p i.id).properties.get? k := by
  rw [Heap.own?, get?_receiver hi, Option.bind_some]

/-- A wrapper has no property of its own, unless it is asked for the length of a text. -/
theorem own?_coerced_eq_none (hi : Intrinsic.ofPrimitive p = some i)
    (other : ∀ a, p = .text a → k ≠ lengthKey) :
    (w.coerced p).heap.own? (w.receiver p) k = none := by
  rw [own?_coerced hi]
  cases p with
  | text a => exact (Table.get?_insert ..).trans (if_neg (other a rfl).symm)
  | _ => rfl

/-- To make a wrapper changes nothing of what is found from other objects. -/
theorem lookup_coerced_of_alive (hw : w.Intact) (hh : w.heap.Grounded)
    (hi : Intrinsic.ofPrimitive p = some i) {o : ObjectId} (alive : w.heap.alive o) (k : Key) :
    (w.coerced p).heap.lookup o k = w.heap.lookup o k := by
  have starts : w.heap.Starts (some o) := fun _ e => Option.some.inj e ▸ alive
  have same {o' : ObjectId} (mem : o' ∈ w.heap.chain o) :
      (w.coerced p).heap.get? o' = w.heap.get? o' :=
    get?_coerced_of_past (past_of_present (hh.alive_of_mem_chainFrom starts mem)) p
  have chain : (w.coerced p).heap.chain o = w.heap.chain o := by
    have alive' : (w.coerced p).heap.alive o :=
      (holds_coerced (t := .object o) alive p).1
    refine (((passes_coerced hw hi).grounded hh).path_chainFrom fun _ e =>
      Option.some.inj e ▸ alive').unique ((hh.path_chainFrom starts).congr fun o' mem => ?_)
    rw [Heap.prototype?, same mem, Heap.prototype?]
  rw [Heap.lookup, chain]
  exact findSome?_congr fun o' mem => by rw [Heap.own?, same mem, Heap.own?]

/-- The chain of a wrapper goes on with that of the prototype of its kind. -/
theorem chain_coerced (hw : w.Intact) (hh : w.heap.Grounded)
    (hi : Intrinsic.ofPrimitive p = some i) :
    (w.coerced p).heap.chain (w.receiver p) = w.receiver p :: (w.coerced p).heap.chain i.id := by
  have wrapped := get?_receiver (w := w) hi
  have alive : (w.coerced p).heap.alive (w.receiver p) := Heap.alive_iff.2 ⟨_, wrapped⟩
  rw [((passes_coerced hw hi).grounded hh).chain_eq alive, Heap.prototype?, wrapped]
  rfl

/-- What is found from a wrapper is found from the prototype, unless it is asked for the length of
    a text. -/
theorem lookup_coerced (hw : w.Intact) (hh : w.heap.Grounded)
    (hi : Intrinsic.ofPrimitive p = some i) (other : ∀ a, p = .text a → k ≠ lengthKey) :
    (w.coerced p).heap.lookup (w.receiver p) k = (w.coerced p).heap.lookup i.id k := by
  rw [Heap.lookup, chain_coerced hw hh hi, List.findSome?_cons, own?_coerced_eq_none hi other]
  rfl

theorem own?_coerced_length (w : World) (a : Atom) :
    (w.coerced (.text a)).heap.own? (w.receiver (.text a)) lengthKey =
      some (.frozen (.number (.ofNat (Spelling.full a).length))) :=
  own?_coerced rfl lengthKey

/-- The length of a text is found on its wrapper. -/
theorem lookup_coerced_length (hw : w.Intact) (hh : w.heap.Grounded) (a : Atom) :
    (w.coerced (.text a)).heap.lookup (w.receiver (.text a)) lengthKey =
      some (w.receiver (.text a), .frozen (.number (.ofNat (Spelling.full a).length))) := by
  rw [Heap.lookup, chain_coerced hw hh rfl, List.findSome?_cons, own?_coerced_length]
  rfl

theorem releases_coerced_length (w : World) (a : Atom) :
    (w.coerced (.text a)).heap.releases (w.receiver (.text a)) lengthKey = false := by
  rw [Heap.releases, get?_receiver rfl]
  rfl

/-- A wrapper loses nothing by a delete. -/
theorem delete_coerced (hi : Intrinsic.ofPrimitive p = some i) (k : Key) :
    (w.coerced p).heap.delete (w.receiver p) k = (w.coerced p).heap := by
  by_cases length : ∃ a, p = .text a ∧ k = lengthKey
  · obtain ⟨a, rfl, rfl⟩ := length
    exact Heap.delete_of_not_releases (releases_coerced_length w a)
  · exact Heap.delete_of_lacks (own?_coerced_eq_none hi fun a e e' => length ⟨a, e, e'⟩)

/-- The wrapper gives up every key but the length of a text. -/
theorem releases_coerced (hi : Intrinsic.ofPrimitive p = some i)
    (other : ∀ a, p = .text a → k ≠ lengthKey) :
    (w.coerced p).heap.releases (w.receiver p) k = true := by
  have lacks := own?_coerced_eq_none (w := w) hi other
  rw [own?_coerced hi] at lacks
  rw [Heap.releases, get?_receiver hi, Option.all_some, Object.releases, lacks]

end World

/-! ## Operations -/

/-- How a delete of a property ends that the object releases, or not. -/
def deleteResult (k : Key) (strict released : Bool) : Except Halt Bool :=
  if !released && strict then .error (.raised (.undeletable (k.spell .full))) else .ok released

section

variable {w : World} {base : Value} (hb : base.isNullish = false) (k : Key) (this : Option Value)
  (strict : Bool)
include hb

theorem reads_readReference :
    Reads (readReference · (.member base k this strict)) w (w.coerced base) (this.getD base)
      ((w.coerced base).heap.reading (w.receiver base) k) :=
  .of_eq (.holding (reads_getProperty _ _ k _)) fun run => on_readMember hb run k this strict

variable {k}

/-- A write that finds a setter calls it, with the primitive as receiver, and reports success. -/
theorem calls_writeReference {setter : ObjectId}
    (has : (w.coerced base).heap.setter? (w.receiver base) k = some setter) (v : Value) :
    Calls (writeReference · (.member base k this strict) v) w (w.coerced base) setter
      (this.getD base) [v] fun _ => () := by
  have calls : Calls (fun run => writeMember run base k this v) w (w.coerced base) setter
      (this.getD base) [v] fun _ => true :=
    .of_eq (.holding (calls_setProperty (w := (w.coerced base).hold _) has v _)) fun run =>
      on_writeMember hb run k this v
  simp only [writeReference_member]
  exact calls.bind fun _ => rfl

end

section

variable {w : World} {base : Value} {k : Key} {this : Option Value} (strict : Bool)

/-- A delete asks the object that stands for the base. -/
theorem on_deleteReference_of_base (hb : base.isNullish = false)
    (own : Reference.overridesReceiver base this = false) (run : Runner) :
    (deleteReference run (.member base k this strict)).on w =
      (deleteResult k strict ((w.coerced base).heap.releases (w.receiver base) k),
        { w.coerced base with heap := (w.coerced base).heap.delete (w.receiver base) k }) := by
  have deleted : (deleteMember base k this).on w =
      (.ok ((w.coerced base).heap.releases (w.receiver base) k),
        { w.coerced base with heap := (w.coerced base).heap.delete (w.receiver base) k }) := by
    rw [deleteMember, if_neg (by simp [own]), on_bind_of_ok (on_coerceBase hb .delete _)]
    rfl
  rw [deleteReference_member, on_bind_of_ok deleted, reportRejection, deleteResult]
  split <;> rfl

end

section

variable {w : World} {p : Value} {i : Intrinsic} (hi : Intrinsic.ofPrimitive p = some i) {k : Key}
  (strict : Bool)
include hi

/-- Without a function that writes it, a write of a property of a primitive value is rejected. -/
theorem on_writeReference_of_primitive
    (plain : (w.coerced p).heap.setter? (w.receiver p) k = none) (run : Runner) (v : Value) :
    (writeReference run (.member p k none strict) v).on w =
      (writeResult k strict false, w.coerced p) := by
  refine on_writeReference_of_answer ?_ strict
  rw [on_writeMember (isNullish_of_ofPrimitive hi), on_holding]
  have rejected := on_setProperty_of_primitive
    (w := (w.coerced p).hold [.object (w.receiver p), p, v]) (object?_of_ofPrimitive hi) plain
    run.call v
  exact (congrArg (fun e : Outcome Bool => (e.1, e.2.release _)) rejected).trans
    (congrArg (Prod.mk _) (release_hold ..))

/-- A delete asks the wrapper, which stays as it is. -/
theorem on_deleteReference_of_primitive (run : Runner) :
    (deleteReference run (.member p k none strict)).on w =
      (deleteResult k strict ((w.coerced p).heap.releases (w.receiver p) k), w.coerced p) := by
  rw [on_deleteReference_of_base strict (isNullish_of_ofPrimitive hi)
    (by simp [Reference.overridesReceiver]), World.delete_coerced hi]

end

/-! ## What is given away -/

namespace Eval

variable {α : Type} [Bearer α] {act : Runner → Eval α} {w u : World} {o f : ObjectId} {this : Value}
  {args : List Value} {result : Value → α} (hides : u.Hides o)
  (operands : u.handles.operands = w.handles.operands) (hthis : .object o ∉ things this)
include hides operands hthis

/-- A call conceals an object that it does not hand to the function. -/
theorem Calls.conceals (h : Calls act w u f this args result) (hargs : .object o ∉ things args)
    (hresult : ∀ v, things (result v) ⊆ things v)
    (hook : String → Script Action → Visit → Eval Value) :
    Conceals o (fun call => act { call, hook }) w := by
  obtain ⟨vs, settled⟩ := calls_iff.1 h
  have calls : Conceals o (fun run => call run f this args) (u.hold vs) :=
    (hides.onOperands _).conceals_call f hthis hargs
  exact (calls.holding.map hresult).of_eq (fun run => settled { call := run, hook }) operands

/-- A read conceals an object that is not the value to be read. -/
theorem Reads.conceals {act : Runner → Eval Value} {reading : Reading}
    (h : Reads act w u this reading)
    (value : ∀ v, reading = .value v → .object o ∉ things v)
    (hook : String → Script Action → Visit → Eval Value) :
    Conceals o (fun call => act { call, hook }) w := by
  cases reading with
  | value v =>
    exact .silent (fun run => h { call := run, hook }) hides operands
      fun _ e => Except.ok.inj e ▸ value v rfl
  | getter f =>
    exact Calls.conceals hides operands hthis h List.not_mem_nil (fun _ => List.Subset.refl _) hook

end Eval

/-- A value that is read is held by what has the property. -/
theorem World.held_of_reading {w : World} {o : ObjectId} {k : Key} {v : Value} {t : Thing}
    (reads : w.heap.reading o k = .value v) (ht : t ∈ things v) :
    ∃ t', t ∈ w.holds t' := by
  rw [Heap.reading] at reads
  rcases found : w.heap.lookup o k with _ | ⟨holder, ⟨⟨v', _⟩ | ⟨_ | getter, setter⟩, _, _⟩⟩ <;>
    rw [found] at reads <;> cases reads
  case some.data.refl =>
    obtain ⟨o', -, has⟩ := List.exists_of_findSome?_eq_some found
    obtain ⟨p, hp, e⟩ := Option.map_eq_some_iff.1 has
    cases e
    exact ⟨.object holder, mem_holds_of_own hp (by simpa using ht)⟩
  all_goals exact absurd ht List.not_mem_nil

/-- No operation on a primitive value gives away its wrapper. -/
theorem conceals_operate {w : World} (hw : w.Intact) {p : Value} {i : Intrinsic}
    (hi : Intrinsic.ofPrimitive p = some i) (k : Key) (strict : Bool) {request : Request}
    (hv : ∀ o ∈ request.value?.bind Value.object?, w.Past (.object o))
    (hook : String → Script Action → Visit → Eval Value) :
    Conceals (w.receiver p)
      (fun run => operate { call := run, hook } (.member p k none strict) request) w := by
  have nullish : p.isNullish = false := isNullish_of_ofPrimitive hi
  have hides : (w.coerced p).Hides (w.receiver p) := World.hides_coerced hw hi
  have operands : (w.coerced p).handles.operands = w.handles.operands := by
    rw [World.coerced_eq hi]
  have base : .object (w.receiver p) ∉ things p := by
    rw [World.things_of_ofPrimitive hi]
    exact List.not_mem_nil
  cases request with
  | read =>
    refine (reads_readReference nullish k none strict).conceals hides operands base
      (fun v e ht => ?_) hook
    -- What is read is held by what has the property, and nothing holds the wrapper.
    obtain ⟨t, held⟩ := World.held_of_reading e ht
    exact hides.held t held
  | write v =>
    have written : .object (w.receiver p) ∉ things [v] := by
      -- Nobody can have meant to write an object that is still to be made.
      intro ht
      obtain ⟨o, rfl, e⟩ := mem_things_value.1 (by simpa using ht)
      cases e
      exact World.fresh_receiver hi (hv _ rfl)
    have writes : Conceals (w.receiver p)
        (fun run => writeReference { call := run, hook } (.member p k none strict) v) w := by
      cases has : (w.coerced p).heap.setter? (w.receiver p) k with
      | some setter =>
        exact (calls_writeReference nullish none strict has v).conceals hides operands base written
          (fun _ => List.nil_subset _) hook
      | none =>
        exact .silent (fun run => on_writeReference_of_primitive hi strict has _ v) hides operands
          fun _ _ => List.not_mem_nil
    simp only [operate, ← map_eq_pure_bind]
    exact writes.map fun _ => List.nil_subset _
  | delete =>
    have deletes : Conceals (w.receiver p)
        (fun run => deleteReference { call := run, hook } (.member p k none strict)) w :=
      .silent (fun run => on_deleteReference_of_primitive hi strict _) hides operands
        fun _ _ => List.not_mem_nil
    simp only [operate, ← map_eq_pure_bind]
    exact deletes.map fun _ => List.nil_subset _

/-- A property of a primitive value is read, written and deleted as one of its prototype, and the
    wrapper that is made for it stays hidden. The value is any but `undefined` and `null`, the key
    is any, and the objects have any properties and prototypes: nothing has to be true of the world
    but that nothing is held in it that is not there and prototypes come to an end, as between the
    actions of any session.

    A read reads what the prototype reads for the value as the receiver, in the world as it was and
    in the one with the wrapper: the same value, or what the same function returns, called on the
    value itself. If a function writes what is found from the prototype, a write calls it on the
    value itself; otherwise it is rejected. A delete succeeds. The length of a text is another
    matter: it is read whatever the prototypes have, no write and no delete of it is accepted, and
    no function is called. Whatever the case, nothing that was there is touched before a function is
    called, or without one.

    Whatever functions do, none of them gets hold of the wrapper: while they run nothing but the
    operation itself holds it, no operation returns it, and in the end it is not alive. -/
theorem primitive_base_goes_to_prototype {w : World} (hw : w.Intact) (hh : w.heap.Grounded)
    {p : Value} {i : Intrinsic} (hi : Intrinsic.ofPrimitive p = some i) (k : Key) (strict : Bool)
    {v : Value} (hv : ∀ o ∈ v.object?, w.Past (.object o)) :
    let r := Reference.member p k none strict
    let u := w.coerced p
    let wrapper := w.receiver p
    let rejected := writeResult k strict false
    let refused := deleteResult k strict false
    w.Undisturbed u ∧
      ((∀ a, p = .text a → k ≠ lengthKey) →
        (∀ w' ∈ [w, u],
          Reads (fun run => getProperty run.call i.id k p) w' w' p (w.heap.reading i.id k)) ∧
        Reads (readReference · r) w u p (w.heap.reading i.id k) ∧
        (∀ setter, w.heap.setter? i.id k = some setter →
          Calls (writeReference · r v) w u setter p [v] fun _ => ()) ∧
        (w.heap.setter? i.id k = none → ∀ run, (writeReference run r v).on w = (rejected, u)) ∧
        ∀ run, (deleteReference run r).on w = (.ok true, u)) ∧
      (∀ a, p = .text a → k = lengthKey → ∀ run,
        (readReference run r).on w = (.ok (.number (.ofNat (Spelling.full a).length)), u) ∧
        (writeReference run r v).on w = (rejected, u) ∧
        (deleteReference run r).on w = (refused, u)) ∧
      ∀ request ∈ [Request.read, .write v, .delete], ∀ hook,
        Conceals wrapper (fun run => operate { call := run, hook } r request) w ∧
        ∀ (B : Behaviour) budget,
          ¬((operate { call := B.caller budget, hook } r request).on w).2.Live
            (.object wrapper) := by
  intro r u wrapper rejected refused
  have nullish : p.isNullish = false := isNullish_of_ofPrimitive hi
  refine ⟨.coerced p, fun other => ?_, ?_, fun request mem hook => ?_⟩
  · have elsewhere : u.heap.lookup i.id k = w.heap.lookup i.id k :=
      World.lookup_coerced_of_alive hw hh hi (hw.anchors _ (w.anchored_intrinsic i)).1 k
    have found : u.heap.lookup wrapper k = w.heap.lookup i.id k :=
      (World.lookup_coerced hw hh hi other).trans elsewhere
    have reading {o : ObjectId} (same : u.heap.lookup o k = w.heap.lookup i.id k) :
        u.heap.reading o k = w.heap.reading i.id k := by
      rw [Heap.reading, same, Heap.reading]
    have setter? : u.heap.setter? wrapper k = w.heap.setter? i.id k := by
      rw [Heap.setter?, found, Heap.setter?]
    have prototype : ∀ w' ∈ [w, u],
        Reads (fun run => getProperty run.call i.id k p) w' w' p (w.heap.reading i.id k) := by
      rw [List.forall_mem_cons, List.forall_mem_singleton]
      exact ⟨reads_getProperty w i.id k p, reading elsewhere ▸ reads_getProperty u i.id k p⟩
    refine ⟨prototype, reading found ▸ reads_readReference nullish k none strict,
      fun setter has => calls_writeReference nullish none strict (setter?.trans has) v,
      fun plain run => on_writeReference_of_primitive hi strict (setter?.trans plain) run v,
      fun run => ?_⟩
    rw [on_deleteReference_of_primitive hi, World.releases_coerced hi other]
    rfl
  · rintro a rfl rfl run
    have found := World.lookup_coerced_length hw hh a
    have plain : u.heap.setter? wrapper lengthKey = none := by
      rw [Heap.setter?, found]
      rfl
    have reading : u.heap.reading wrapper lengthKey =
        .value (.number (.ofNat (Spelling.full a).length)) := by
      rw [Heap.reading, found]
      rfl
    have reads := reads_readReference (w := w) nullish lengthKey none strict
    rw [reading] at reads
    refine ⟨reads run, on_writeReference_of_primitive hi strict plain run v, ?_⟩
    rw [on_deleteReference_of_primitive hi, World.releases_coerced_length]
  · have written : ∀ o ∈ request.value?.bind Value.object?, w.Past (.object o) := by
      obtain rfl | rfl | rfl : request = .read ∨ request = .write v ∨ request = .delete := by
        simpa using mem
      · exact nofun
      · exact hv
      · exact nofun
    have conceals := conceals_operate hw hi k strict written hook
    refine ⟨conceals, fun B budget => (conceals.hidden B budget).not_live fun ht => ?_⟩
    rw [conceals.operands] at ht
    exact World.fresh_receiver hi
      (World.past_of_present (hw.anchors _ (World.mem_anchors.2 (.inr ht))).1)

/-- A truth value has a property that a function reads and none writes. The function returns the
    value itself. -/
theorem primitive_base_goes_to_prototype_of_getter :
    let w := ((World.initial {}).performAll (List.map Action.command
      [.function "f" { result := some (.register "$this") } (some "f"),
        .define (.register "%Boolean%") (.text "x")
          (.accessor (some (.register "f")) none true true)])).2
    let p : Value := .bool true
    let k : Key := .text (.text "x")
    let r := Reference.member p k none true
    w.Intact ∧ w.heap.Grounded ∧ Calls (readReference · r) w (w.coerced p) ⟨8⟩ p [] id ∧
      ((readReference (runnerAt (callerAt 1) 1) r).on w).1.toOption = some p ∧
      (∀ run, (writeReference run r (.object ⟨8⟩)).on w =
        (.error (.raised (.readOnly "x")), w.coerced p)) ∧
      ∀ budget, ¬((readReference (runnerAt (callerAt budget) 1) r).on w).2.Live
        (.object (w.receiver p)) := by
  intro w p k r
  have ordered : Custody.ancestry.order ⟨0, []⟩ w := World.ancestry_performAll {} _
  have reading : w.heap.reading Intrinsic.boolean.id k = .getter ⟨8⟩ := by decide +kernel
  have plain : w.heap.setter? Intrinsic.boolean.id k = none := by decide +kernel
  have past : w.Past (.object ⟨8⟩) := show 8 < w.heap.next by decide +kernel
  have itself : ((readReference (runnerAt (callerAt 1) 1) r).on w).1.toOption = some p := by
    decide +kernel
  clear_value w
  obtain ⟨⟨intact, -⟩, grounded⟩ := ordered
  obtain ⟨-, member, -, hidden⟩ := primitive_base_goes_to_prototype intact grounded
    (i := .boolean) (p := p) rfl k true (v := .object ⟨8⟩) fun o e => by cases e; exact past
  obtain ⟨-, reads, -, writes, -⟩ := member nofun
  rw [reading] at reads
  refine ⟨intact, grounded, reads, itself, writes plain, fun budget => ?_⟩
  have gone := (hidden .read (by simp) (runnerAt (callerAt budget) 1).hook).2 .scripted budget
  rwa [Behaviour.caller_scripted] at gone

end Lvalue
