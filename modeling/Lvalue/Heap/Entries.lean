import Lvalue.Table
import Lvalue.Value

/-!
# Entries of maps

A map files its entries under the canonical form of the key, so both zeros find
the same entry, and so does all that is not a number. A weak map files them
under the identity of an object, which it does not hold: when the object dies,
its entry is dead and stays until it is pruned.
-/

namespace Lvalue

/-- The entries of a map. -/
structure Entries where
  table : Table Value Value := ∅

namespace Entries

instance : EmptyCollection Entries := ⟨{}⟩

/-- The value that is filed for `k`. -/
def get? (t : Entries) (k : Value) : Option Value := t.table.get? k.canonical

/-- There is an entry for `k`. -/
def contains (t : Entries) (k : Value) : Bool := (t.get? k).isSome

/-- The entries with `v` for `k`. -/
def insert (t : Entries) (k v : Value) : Entries := ⟨t.table.insert k.canonical v⟩

/-- The entries without one for `k`. -/
def erase (t : Entries) (k : Value) : Entries := ⟨t.table.erase k.canonical⟩

/-- The number of entries. -/
def size (t : Entries) : Nat := t.table.size

/-- Two keys with one canonical form have one entry. -/
@[simp]
theorem get?_insert (t : Entries) (k k' v : Value) :
    (t.insert k v).get? k' = if k.canonical = k'.canonical then some v else t.get? k' :=
  Table.get?_insert ..

@[inherit_doc get?_insert, simp]
theorem get?_erase (t : Entries) (k k' : Value) :
    (t.erase k).get? k' = if k.canonical = k'.canonical then none else t.get? k' :=
  Table.get?_erase ..

/-- The objects that the entries hold, as keys and as values. -/
def objects (t : Entries) : List ObjectId :=
  (t.table.keys ++ t.table.values).filterMap Value.object?

end Entries

/-- The entries of a weak map. -/
structure WeakEntries where
  table : Table ObjectId Value := ∅

namespace WeakEntries

instance : EmptyCollection WeakEntries := ⟨{}⟩

/-- The value that is filed for `k`. -/
def get? (t : WeakEntries) (k : ObjectId) : Option Value := t.table.get? k

/-- There is an entry for `k`. -/
def contains (t : WeakEntries) (k : ObjectId) : Bool := (t.get? k).isSome

/-- The entries with `v` for `k`. -/
def insert (t : WeakEntries) (k : ObjectId) (v : Value) : WeakEntries := ⟨t.table.insert k v⟩

/-- The entries without one for `k`. -/
def erase (t : WeakEntries) (k : ObjectId) : WeakEntries := ⟨t.table.erase k⟩

/-- The number of entries, dead ones included. -/
def size (t : WeakEntries) : Nat := t.table.size

@[simp]
theorem get?_insert (t : WeakEntries) (k k' : ObjectId) (v : Value) :
    (t.insert k v).get? k' = if k = k' then some v else t.get? k' :=
  Table.get?_insert ..

@[simp]
theorem get?_erase (t : WeakEntries) (k k' : ObjectId) :
    (t.erase k).get? k' = if k = k' then none else t.get? k' :=
  Table.get?_erase ..

/-- The number of entries whose key is alive. -/
def liveSize (t : WeakEntries) (alive : ObjectId → Bool) : Nat := t.table.keys.countP alive

/-- The objects that the entries hold. A dead entry holds its value like any other. -/
def objects (t : WeakEntries) : List ObjectId := t.table.values.filterMap Value.object?

end WeakEntries

end Lvalue
