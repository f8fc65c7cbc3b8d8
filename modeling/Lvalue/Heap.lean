import Lvalue.Heap.Object
import Lvalue.Serials

/-!
# The heap

The objects that are alive. New objects get identities that were never used, so
an object that has died never comes back.

An object inherits along its *chain*: itself, its prototype, the prototype of
that, and so on. `setPrototype` refuses a prototype whose chain leads back, so
a chain visits no object twice and is no longer than the heap, which is what
bounds the walk in `chain`.
-/

namespace Lvalue

/-- A heap. -/
structure Heap where
  /-- The objects that are alive. -/
  objects : Table ObjectId Object := ∅
  /-- The serial number of the next object. -/
  next : Nat := 0
  /-- Every object is older than the next one. -/
  older : ∀ o ∈ objects.keys, o.serial < next := by nofun

namespace Heap

/-- The object, if it is alive. -/
def get? (h : Heap) (o : ObjectId) : Option Object := h.objects.get? o

/-- The object is alive. -/
def alive (h : Heap) (o : ObjectId) : Bool := h.objects.contains o

theorem alive_iff {h : Heap} {o : ObjectId} : h.alive o ↔ ∃ x, h.get? o = some x :=
  Option.isSome_iff_exists

/-- The heap with a new object, and its identity. -/
def alloc (h : Heap) (new : Object) : ObjectId × Heap :=
  (⟨h.next⟩,
    { objects := h.objects.insert ⟨h.next⟩ new
      next := h.next + 1
      older := fun o mem => by
        rcases Table.mem_keys_insert.1 mem with rfl | mem
        · exact Nat.lt_succ_self _
        · exact Nat.lt_succ_of_lt (h.older o mem) })

/-- The heap with the object changed, if it is alive. -/
def update (h : Heap) (o : ObjectId) (f : Object → Object) : Heap where
  objects := h.objects.modify o f
  next := h.next
  older o' mem := h.older o' (Table.mem_keys_modify.1 mem)

/-- A new object is found under the next serial number and hides no other. -/
@[simp]
theorem get?_alloc (h : Heap) (new : Object) (o : ObjectId) :
    (h.alloc new).2.get? o = if ⟨h.next⟩ = o then some new else h.get? o :=
  Table.get?_insert ..

/-- A change of one object is one of that object alone. -/
@[simp]
theorem get?_update (h : Heap) (o o' : ObjectId) (f : Object → Object) :
    (h.update o f).get? o' = if o = o' then (h.get? o').map f else h.get? o' :=
  Table.get?_modify ..

/-- To change an object neither makes nor drops any. -/
@[simp]
theorem alive_update (h : Heap) (o o' : ObjectId) (f : Object → Object) :
    (h.update o f).alive o' = h.alive o' := by
  rw [Bool.eq_iff_iff, alive_iff, alive_iff, get?_update]
  split
  · cases h.get? o' <;> simp
  · rfl

/-- A change that leaves the object as it is is none. -/
theorem update_of_fixed {h : Heap} {o : ObjectId} {f : Object → Object}
    (hf : ∀ x, h.get? o = some x → f x = x) : h.update o f = h := by
  have same : h.objects.modify o f = h.objects := Table.modify_of_fixed hf
  rw [update]
  congr

/-- The heap with only the objects that satisfy `p`. -/
def keep (h : Heap) (p : ObjectId → Bool) : Heap where
  objects := h.objects.filter fun o _ => p o
  next := h.next
  older o mem := h.older o (Table.mem_keys_of_filter mem)

/-- What is kept is found as before. -/
@[simp]
theorem get?_keep (h : Heap) (p : ObjectId → Bool) (o : ObjectId) :
    (h.keep p).get? o = if p o then h.get? o else none := by
  simp only [keep, get?, Table.get?_filter]
  cases h.objects.get? o <;> simp [Option.filter]

/-- An object that is alive is older than the next one. -/
theorem serial_lt_next {h : Heap} {o : ObjectId} {x : Object} (ho : h.get? o = some x) :
    o.serial < h.next := by
  refine h.older o (Table.contains_iff_mem_keys.1 ?_)
  rw [Table.contains, show h.objects.get? o = some x from ho]
  rfl

/-- The objects that are alive, as a set in which to look for many. -/
def living (h : Heap) : Serials := .ofList (h.objects.keys.map (·.serial))

theorem contains_living {h : Heap} {o : ObjectId} : h.living.contains o.serial ↔ h.alive o := by
  rw [living, Serials.contains_ofList, List.mem_map, alive, Table.contains_iff_mem_keys]
  exact ⟨fun ⟨_, mem, e⟩ => ObjectId.serial_injective e ▸ mem, fun mem => ⟨o, mem, rfl⟩⟩

/-! ## Prototypes -/

/-- The prototype of an object. -/
def prototype? (h : Heap) (o : ObjectId) : Option ObjectId := (h.get? o).bind (·.prototype)

/-- At most `n` objects from `start` on, each the prototype of the one before it. -/
def walk (h : Heap) : Nat → Option ObjectId → List ObjectId
  | 0, _ => []
  | _, none => []
  | n + 1, some o => o :: h.walk n (h.prototype? o)

/-- The chain that starts with `start`; it is empty if there is no start. -/
def chainFrom (h : Heap) (start : Option ObjectId) : List ObjectId := h.walk h.objects.size start

@[simp]
theorem chainFrom_none (h : Heap) : h.chainFrom none = [] := by
  rw [chainFrom]
  cases h.objects.size <;> rfl

/-- The object and all that it inherits from, nearest first. -/
def chain (h : Heap) (o : ObjectId) : List ObjectId := h.chainFrom (some o)

/-- The prototype of `o` may become `prototype`: the object is extensible, and it is
    not on the chain of its new prototype. -/
def mayInherit (h : Heap) (o : ObjectId) (prototype : Option ObjectId) : Bool :=
  (h.get? o).any (·.extensible) && !(h.chainFrom prototype).contains o

/-- The heap with another prototype for `o`, where that is possible. -/
def setPrototype (h : Heap) (o : ObjectId) (prototype : Option ObjectId) : Heap :=
  if h.mayInherit o prototype then h.update o fun x => { x with prototype } else h

/-- The object gets no more properties and keeps its prototype. -/
def preventExtensions (h : Heap) (o : ObjectId) : Heap :=
  h.update o fun x => { x with extensible := false }

/-! ## Properties -/

/-- The property of `o` itself at `k`. -/
def own? (h : Heap) (o : ObjectId) (k : Key) : Option Property :=
  (h.get? o).bind (·.properties.get? k)

/-- The first object on the chain of `o` that has a property at `k`, and the property. -/
def lookup (h : Heap) (o : ObjectId) (k : Key) : Option (ObjectId × Property) :=
  (h.chain o).findSome? fun holder => (h.own? holder k).map (holder, ·)

/-- `o` has room for the property `p` at `k`. -/
def admits (h : Heap) (o : ObjectId) (k : Key) (p : Property) : Bool :=
  (h.get? o).any (·.admits k p)

/-- The heap with the property `p` at `k` of `o`, where that is possible. -/
def define (h : Heap) (o : ObjectId) (k : Key) (p : Property) : Heap :=
  h.update o (·.define k p)

/-- The property of `o` at `k` can be deleted, or there is none. -/
def releases (h : Heap) (o : ObjectId) (k : Key) : Bool := (h.get? o).all (·.releases k)

/-- The heap without a property at `k` of `o`, where that is possible. -/
def delete (h : Heap) (o : ObjectId) (k : Key) : Heap := h.update o (·.delete k)

/-- An object without room for a property stays as it is. -/
theorem define_of_not_admits {h : Heap} {o : ObjectId} {k : Key} {p : Property}
    (full : h.admits o k p = false) : h.define o k p = h :=
  update_of_fixed fun x hx => by
    rw [admits, hx, Option.any_some] at full
    rw [Object.define, full]
    rfl

/-- An object that does not release a property keeps it. -/
theorem delete_of_not_releases {h : Heap} {o : ObjectId} {k : Key}
    (locked : h.releases o k = false) : h.delete o k = h :=
  update_of_fixed fun x hx => by
    rw [releases, hx, Option.all_some] at locked
    rw [Object.delete, locked]
    rfl

/-- An object without the property has none to lose. -/
theorem delete_of_lacks {h : Heap} {o : ObjectId} {k : Key} (lacks : h.own? o k = none) :
    h.delete o k = h :=
  update_of_fixed fun x hx => by
    rw [own?, hx, Option.bind_some] at lacks
    rw [Object.delete, Table.erase_of_absent lacks]
    split <;> rfl

/-! ## Kinds -/

/-- What an object is. -/
def kind? (h : Heap) (o : ObjectId) : Option Kind := (h.get? o).map (·.kind)

/-- The name of the class of an object. -/
def className (h : Heap) (o : ObjectId) : String :=
  ((h.kind? o).getD .ordinary).className

/-- The object can be called. -/
def isCallable (h : Heap) (o : ObjectId) : Bool := (h.get? o).any (·.isCallable)

/-- The name of the type of a value. -/
def typeName (h : Heap) : Value → String
  | .undefined => "undefined"
  | .null => "null"
  | .bool _ => "boolean"
  | .number _ => "number"
  | .text _ => "string"
  | .symbol _ => "symbol"
  | .object o => if h.isCallable o then "function" else "object"

/-- The heap with an object that has become another kind. -/
def setKind (h : Heap) (o : ObjectId) (kind : Kind) : Heap :=
  h.update o fun x => { x with kind }

/-- Another kind is one of that object alone. -/
@[simp]
theorem kind?_setKind (h : Heap) (o o' : ObjectId) (kind : Kind) :
    (h.setKind o kind).kind? o' =
      if o = o' then (h.kind? o').map fun _ => kind else h.kind? o' := by
  rw [kind?, kind?, setKind, get?_update]
  split
  · cases h.get? o' <;> rfl
  · rfl

@[simp]
theorem prototype?_setKind (h : Heap) (o o' : ObjectId) (kind : Kind) :
    (h.setKind o kind).prototype? o' = h.prototype? o' := by
  rw [prototype?, prototype?, setKind, get?_update]
  split
  · cases h.get? o' <;> rfl
  · rfl

end Heap

end Lvalue
