import Lvalue.Proofs.Ancestry
import Lvalue.Proofs.Invocation

/-!
# Assignment

Two objects count when a property is written. The nearest property on the chain of the one
(`Heap.Nearest`) decides alone whether its setter is called, whether the write is refused,
or whether it may go on. If it may, the other one, the receiver, has to take the value as
a property of its own (`Heap.Takes`). Nothing is said of how the two are related: the
receiver may inherit from the object, the object from the receiver, and they may be one
and the same or have nothing to do with each other.

The rules are told without the walk of the heap and without the definition that files a
property, and the access to properties follows them (`setProperty_decides`).
-/

namespace Lvalue

open Eval

/-! ## The rules -/

/-- The property stands against every write: a value that may not change, or a pair of functions
    of which none writes. -/
def Property.Blocks (p : Property) : Prop :=
  (∃ v, p.slot = .data v false) ∨ ∃ getter, p.slot = .accessor getter none

namespace Heap

/-- The property at `k` that an object has, or else the nearest one of its prototype; none where
    the prototypes come to an end. -/
inductive Nearest (h : Heap) (k : Key) : Option ObjectId → Option Property → Prop
  | own {o : ObjectId} {p : Property} (has : h.own? o k = some p) : Nearest h k (some o) (some p)
  | inherited {o : ObjectId} {found : Option Property} (lacks : h.own? o k = none)
    (above : Nearest h k (h.prototype? o) found) : Nearest h k (some o) found
  | top : Nearest h k none none

/-- The object takes a value at `k`: what it has there is a value that may change, or it has nothing
    there and may get more. -/
def Takes (h : Heap) (k : Key) (o : ObjectId) : Prop :=
  (∃ p old, h.own? o k = some p ∧ p.slot = .data old true) ∨
    h.own? o k = none ∧ ∃ x, h.get? o = some x ∧ x.extensible = true

/-- What becomes of the property at `k` when it gets the value `v`: it stays what it is apart from
    that, and is one that may be changed in every way if it is new. -/
def successor (h : Heap) (o : ObjectId) (k : Key) (v : Value) : Property :=
  { (h.own? o k).getD (.plain v) with slot := .data v true }

end Heap

/-- The property of `target` at `k` has got the value `v`, and nothing else has changed. -/
structure World.Assigned (target : ObjectId) (k : Key) (v : Value) (w w' : World) : Prop where
  own : w'.heap.own? target k = some (w.heap.successor target k v)
  others : ∀ o k', o ≠ target ∨ k' ≠ k → w'.heap.own? o k' = w.heap.own? o k'
  /-- An object stays what it is, with its prototype, extensible or not, and alive or not. -/
  objects : ∀ o, (w'.heap.get? o).map ({ · with properties := ∅ }) =
    (w.heap.get? o).map ({ · with properties := ∅ })
  frame : ∃ heap, w' = { w with heap } ∧ heap.next = w.heap.next

/-- What comes of an attempt to give a receiver the value, where it takes a condition to succeed:
    the answer `b`, and the world `w'`. -/
structure World.Attempted (k : Key) (v receiver : Value) (w : World) (condition : Prop) (b : Bool)
    (w' : World) : Prop where
  succeeds : b = true ↔ condition
  assigned : b = true → ∀ target, receiver = .object target → w.Assigned target k v w'
  unchanged : b = false → w' = w

/-! ## The nearest property -/

namespace Heap

variable {h : Heap} {k : Key} {start : Option ObjectId} {found found' : Option Property}

/-- There is one nearest property at most. -/
theorem Nearest.unique (n : h.Nearest k start found) (n' : h.Nearest k start found') :
    found = found' := by
  induction n generalizing found' with
  | own has =>
    cases n' with
    | own has' => rw [← has, has']
    | inherited lacks => cases has.symm.trans lacks
  | inherited lacks _ ih =>
    cases n' with
    | own has => cases has.symm.trans lacks
    | inherited _ above => exact ih above
  | top =>
    cases n'
    rfl

/-- On a path, the nearest property is the first that is found. -/
theorem Path.nearest {os : List ObjectId} (p : h.Path start os) (k : Key) :
    h.Nearest k start (os.findSome? (h.own? · k)) := by
  induction p with
  | done => exact .top
  | @step o os rest ih =>
    rw [List.findSome?_cons]
    split
    · next has => exact .own has
    · next lacks => exact .inherited lacks ih

/-- A lookup goes along the chain. -/
theorem map_snd_lookup (h : Heap) (o : ObjectId) (k : Key) :
    (h.lookup o k).map Prod.snd = (h.chain o).findSome? (h.own? · k) := by
  rw [lookup, List.map_findSome?]
  congr 1
  funext holder
  rw [Function.comp_apply, Option.map_map]
  exact Option.map_id'

section

variable {o : ObjectId} (dead : ¬h.alive o)
include dead

/-- What is not there has no properties. -/
theorem own?_of_dead (k : Key) : h.own? o k = none := by
  have gone : h.get? o = none := Option.not_isSome_iff_eq_none.1 dead
  rw [own?, gone, Option.bind_none]

theorem prototype?_of_dead : h.prototype? o = none := by
  have gone : h.get? o = none := Option.not_isSome_iff_eq_none.1 dead
  rw [prototype?, gone, Option.bind_none]

/-- In an object that is dead, nothing is found. -/
theorem lookup_of_dead (k : Key) : h.lookup o k = none := by
  have walks (n : Nat) :
      (h.walk n (some o)).findSome? (fun holder => (h.own? holder k).map (holder, ·)) = none := by
    rcases n with _ | _ | n <;> simp [walk, prototype?_of_dead dead, own?_of_dead dead]
  exact walks _

end

/-- The lookup of the heap finds the nearest property. -/
theorem Grounded.nearest_lookup (hh : h.Grounded) (o : ObjectId) (k : Key) :
    h.Nearest k (some o) ((h.lookup o k).map Prod.snd) := by
  by_cases alive : h.alive o
  · rw [map_snd_lookup]
    exact (hh.path_chainFrom fun o' e => Option.some.inj e ▸ alive).nearest k
  · rw [lookup_of_dead alive]
    exact .inherited (own?_of_dead alive k) (prototype?_of_dead alive ▸ .top)

/-! ## The property of the receiver -/

variable {target : ObjectId} {v : Value}

/-- What takes a value has room for the property that holds it, also if that is locked. -/
theorem Takes.admits (takes : h.Takes k target) :
    h.admits target k (h.successor target k v) = true := by
  rcases takes with ⟨p, old, has, slot⟩ | ⟨lacks, x, hx, extensible⟩
  · obtain ⟨x, hx, here⟩ := Option.bind_eq_some_iff.1 has
    rw [Heap.admits, hx, Option.any_some, Object.admits, here, successor, has]
    cases locked : p.configurable <;> simp [Property.accepts, slot, locked]
  · have absent : x.properties.get? k = none := by rwa [own?, hx] at lacks
    rw [Heap.admits, hx, Option.any_some, Object.admits, absent]
    exact extensible

/-- An object without the property has room for it exactly if it may get more. -/
theorem takes_of_admits {p : Property} (lacks : h.own? target k = none)
    (room : h.admits target k p = true) : h.Takes k target := by
  obtain ⟨x, hx, admits⟩ := (Option.any_eq_true _ _).1 room
  have absent : x.properties.get? k = none := by rwa [own?, hx] at lacks
  rw [Object.admits, absent] at admits
  exact .inr ⟨lacks, x, hx, admits⟩

end Heap

section

variable {w : World} {target : ObjectId} {k : Key} {v : Value}

/-- An object with room for the property gets it, and that is all. -/
theorem World.assigned_define
    (room : w.heap.admits target k (w.heap.successor target k v) = true) :
    w.Assigned target k v
      { w with heap := w.heap.define target k (w.heap.successor target k v) } := by
  -- The object is there and has room, so that the definition is an entry in its table.
  obtain ⟨x, hx, admits⟩ := (Option.any_eq_true _ _).1 room
  have get? (o : ObjectId) :
      (w.heap.define target k (w.heap.successor target k v)).get? o =
        if target = o then
          some { x with properties := x.properties.insert k (w.heap.successor target k v) }
        else w.heap.get? o := by
    rw [Heap.define, Heap.get?_update]
    split
    · next e => rw [← e, hx, Option.map_some, Object.define, if_pos admits]
    · rfl
  refine ⟨?_, fun o k' other => ?_, fun o => ?_, _, rfl, rfl⟩ <;> dsimp only
  · rw [Heap.own?, get?, if_pos rfl, Option.bind_some, Table.get?_insert, if_pos rfl]
  · rw [Heap.own?, get?, Heap.own?]
    split
    · next e =>
      have ne : k ≠ k' := (other.resolve_left (absurd e.symm)).symm
      rw [← e, hx, Option.bind_some, Table.get?_insert, if_neg ne, Option.bind_some]
    · rfl
  · rw [get?]
    split
    · next e => rw [← e, hx]; rfl
    · rfl

/-- What is not accepted leaves the world as it is. -/
theorem World.Attempted.failure {receiver : Value} {condition : Prop} (h : ¬condition) :
    w.Attempted k v receiver condition false w :=
  ⟨⟨nofun, fun c => absurd c h⟩, nofun, fun _ => rfl⟩

/-- To define the successor of a property succeeds where the object takes the value. -/
theorem attempted_define (w : World) (target : ObjectId) (k : Key) (v : Value)
    (h : w.heap.admits target k (w.heap.successor target k v) = true → w.heap.Takes k target) :
    ∃ b w', (assignOwn.define k target (w.heap.successor target k v)).on w = (.ok b, w') ∧
      w.Attempted k v (.object target) (w.heap.Takes k target) b w' := by
  refine ⟨w.heap.admits target k (w.heap.successor target k v),
    { w with heap := w.heap.define target k (w.heap.successor target k v) }, rfl, ?_⟩
  cases room : w.heap.admits target k (w.heap.successor target k v) with
  | true =>
    refine ⟨⟨fun _ => h room, fun _ => rfl⟩, fun _ target' e => ?_, nofun⟩
    cases e
    exact World.assigned_define room
  | false =>
    rw [Heap.define_of_not_admits room]
    exact .failure fun takes => Bool.false_ne_true (room.symm.trans takes.admits)

/-- An object takes the value, or does not; what is no object never does. -/
theorem attempted_assignOwn (k : Key) (v receiver : Value) (w : World) :
    ∃ b w', (assignOwn k v receiver).on w = (.ok b, w') ∧
      w.Attempted k v receiver (∃ target, receiver = .object target ∧ w.heap.Takes k target)
        b w' := by
  rcases receiver with _ | _ | _ | _ | _ | _ | target
  case object =>
    have only : (∃ target', Value.object target = .object target' ∧ w.heap.Takes k target') ↔
        w.heap.Takes k target := by simp
    simp only [only]
    -- Without a property of its own, or with one that is writable, the object defines the
    -- successor; a constant or a pair of functions is left as it is.
    have define := attempted_define w target k v
    rw [Heap.successor] at define
    rw [assignOwn, on_bind, on_see]
    dsimp only
    rcases has : w.heap.own? target k with _ | ⟨⟨old, _ | _⟩ | _, e, c⟩
    case none =>
      rw [has] at define
      exact define (Heap.takes_of_admits has)
    case some.data.true =>
      rw [has] at define
      exact define fun _ => .inl ⟨_, old, has, rfl⟩
    all_goals
      refine ⟨false, w, rfl, .failure ?_⟩
      simp [Heap.Takes, has]
  all_goals
    refine ⟨false, w, rfl, .failure ?_⟩
    rintro ⟨_, ⟨⟩, -⟩

end

/-! ## Writes -/

/-- What is held while a setter runs. -/
def heldBySetter (getter : Option ObjectId) (setter : ObjectId) (v receiver : Value) : List Value :=
  v :: receiver :: (setter :: getter.toList).map .object

/-- Where a setter is found, it is called with the receiver and the value, and the write is accepted
    however it answers. -/
theorem on_setProperty_of_setter {w : World} {o holder setter : ObjectId} {k : Key}
    {getter : Option ObjectId} {p : Property} (found : w.heap.lookup o k = some (holder, p))
    (slot : p.slot = .accessor getter (some setter)) (run : Caller) (v receiver : Value) :
    let held := heldBySetter getter setter v receiver
    let called := (call run setter receiver [v]).on (w.hold held)
    (setProperty run o k v receiver).on w =
      (called.1.map fun _ => true, called.2.release held) := by
  intro held called
  obtain ⟨_, e, c⟩ := p
  cases slot
  have calls : (setProperty run o k v receiver).on w =
      ((fun _ => true) <$> Eval.holding held (call run setter receiver [v])).on w := by
    rw [setProperty, on_bind, on_see, map_eq_pure_bind]
    dsimp only
    rw [found]
    rfl
  rw [calls, on_map, on_holding]

/-- To call a function is to run it. -/
theorem on_call_of_function {w : World} {o : ObjectId} {f : NativeFunction}
    (h : w.heap.kind? o = some (.function f)) (run : Caller) (this : Value) (args : List Value) :
    (call run o this args).on w = (run f this args).on w := by
  rw [call, on_bind, on_see]
  dsimp only
  rw [h]

/-- What is no function cannot be called. -/
theorem on_call_of_not_function {w : World} {o : ObjectId}
    (h : ∀ f, w.heap.kind? o ≠ some (.function f)) (run : Caller) (this : Value)
    (args : List Value) :
    (call run o this args).on w =
      (.error (.raised (.fault (.notCallable (w.heap.className o) o))), w) := by
  rw [call, on_bind, on_see]
  dsimp only
  split
  · next f is => exact absurd is (h f)
  · rfl

/-- A write is decided by the nearest property and then by the receiver. Take any object, key, value
    and receiver, in any heap whose prototypes lead to an end from everywhere.

    If the nearest property is a pair of functions one of which writes, this one is called, once,
    with the receiver as `this` and the value as its argument, and the write does nothing else:
    it is accepted if the call returns, and fails as the call fails. Otherwise no function runs,
    and the write is accepted exactly if the nearest property does not stand against it and the
    receiver is an object that takes the value. Then the receiver gets the value and nothing else
    changes, and a write that is not accepted changes nothing. -/
theorem setProperty_decides {w : World} (hh : w.heap.Grounded) (o : ObjectId) (k : Key)
    (v receiver : Value) :
    ∃ found, w.heap.Nearest k (some o) found ∧
      (∀ found', w.heap.Nearest k (some o) found' → found' = found) ∧
      (∀ p getter setter, found = some p → p.slot = .accessor getter (some setter) →
        (∀ f, w.heap.kind? setter = some (.function f) → ∀ run,
          let held := heldBySetter getter setter v receiver
          let called := (run f receiver [v]).on (w.hold held)
          (setProperty run o k v receiver).on w =
            (called.1.map fun _ => true, called.2.release held)) ∧
        ((∀ f, w.heap.kind? setter ≠ some (.function f)) → ∀ run,
          (setProperty run o k v receiver).on w =
            (.error (.raised (.fault (.notCallable (w.heap.className setter) setter))), w))) ∧
      ((∀ p getter setter, found = some p → p.slot ≠ .accessor getter (some setter)) →
        ∃ b w', (∀ run, (setProperty run o k v receiver).on w = (.ok b, w')) ∧
          w.Attempted k v receiver ((∀ p, found = some p → ¬p.Blocks) ∧
            ∃ target, receiver = .object target ∧ w.heap.Takes k target) b w') := by
  have nearest := hh.nearest_lookup o k
  refine ⟨_, nearest, fun _ other => other.unique nearest, ?_, ?_⟩
  · -- A setter is found and called, if it is a function.
    intro p getter setter hp slot
    obtain ⟨⟨holder, _⟩, found, rfl⟩ := Option.map_eq_some_iff.1 hp
    have on (run : Caller) := on_setProperty_of_setter found slot run v receiver
    refine ⟨fun f is run => ?_, fun not run => ?_⟩
    · have is : (w.hold (heldBySetter getter setter v receiver)).heap.kind? setter =
          some (.function f) := is
      rw [on, on_call_of_function is]
    · rw [on, on_call_of_not_function (w := w.hold _) not, release_hold]
      rfl
  · -- Without a setter, either the nearest property is in the way, or it is up to the receiver.
    intro noSetter
    obtain ⟨b, w', attempt, ends⟩ := attempted_assignOwn k v receiver w
    rcases found : w.heap.lookup o k with _ | ⟨holder, ⟨⟨old, _ | _⟩ | ⟨getter, _ | setter⟩, e, c⟩⟩
    case some.accessor.some => exact absurd rfl (noSetter _ getter setter (congrArg _ found))
    case some.data.false | some.accessor.none =>
      refine ⟨false, w, fun run => ?_, .failure fun passes => passes.1 _ rfl ?_⟩
      · rw [setProperty, on_bind, on_see]
        dsimp only
        rw [found]
        rfl
      · simp [Property.Blocks]
    all_goals
      refine ⟨b, w', fun run => ?_, ?_⟩
      · rw [setProperty, on_bind, on_see]
        dsimp only
        rw [found]
        exact attempt
      · simpa [Property.Blocks] using ends

/-- A value on the chain of one object may change, and an object that has nothing to do with it gets
    the value, as a locked property that it has already. -/
theorem setProperty_decides_of_unrelated :
    let w := ((World.initial {}).performAll
      [.command (.new .ordinary .none (some "a")),
        .command (.define (.register "a") (.text "x") (.data .null true true true)),
        .command (.newChain (.register "a") 1 (some "b")),
        .command (.new .ordinary .none (some "c")),
        .command (.define (.register "c") (.text "x") (.data .null true false false))]).2
    let k : Key := .text (.text "x")
    w.heap.Grounded ∧ ∃ w', (∀ run : Caller,
        (setProperty run ⟨9⟩ k (.bool true) (.object ⟨10⟩)).on w = (.ok true, w')) ∧
      w'.heap.own? ⟨10⟩ k = some { Property.frozen (.bool true) with
        slot := .data (.bool true) true, enumerable := false } ∧
      w'.heap.own? ⟨8⟩ k = some (.plain .null) := by
  intro w k
  have grounded : w.heap.Grounded := (World.ancestry_performAll {} _).2
  have lacks : w.heap.own? ⟨9⟩ k = none := by decide +kernel
  have above : w.heap.prototype? ⟨9⟩ = some ⟨8⟩ := by decide +kernel
  have inherits : w.heap.own? ⟨8⟩ k = some (.plain .null) := by decide +kernel
  have has : w.heap.own? ⟨10⟩ k =
      some { Property.plain .null with enumerable := false, configurable := false } := by
    decide +kernel
  clear_value w
  obtain ⟨found, -, only, -, rest⟩ :=
    setProperty_decides grounded ⟨9⟩ k (.bool true) (.object ⟨10⟩)
  obtain rfl : some (.plain .null) = found := only _ (.inherited lacks (above ▸ .own inherits))
  obtain ⟨b, w', on, ends⟩ := rest fun p getter setter e slot => by cases e; cases slot
  have passes : ∀ p, some (Property.plain .null) = some p → ¬p.Blocks := by
    rintro p ⟨⟩
    simp [Property.Blocks, Property.plain]
  obtain rfl : b = true := ends.succeeds.2 ⟨passes, ⟨10⟩, rfl, .inl ⟨_, .null, has, rfl⟩⟩
  have assigned := ends.assigned rfl ⟨10⟩ rfl
  refine ⟨grounded, w', on, ?_, ?_⟩
  · rw [assigned.own, Heap.successor, has]
    rfl
  · rw [assigned.others ⟨8⟩ k (.inl (by decide)), inherits]

end Lvalue
