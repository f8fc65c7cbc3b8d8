/-!
# Sets of serial numbers

A finite set of natural numbers as a row of flags, one for each number up to the
largest member. A set is seen through `contains` alone.
-/

namespace Lvalue

/-- A finite set of natural numbers. -/
structure Serials where
  /-- Whether each number is a member; the numbers beyond the end are none. -/
  flags : Array Bool := #[]
  deriving Repr

namespace Serials

instance : EmptyCollection Serials := ⟨{}⟩

/-- The number is a member. -/
def contains (s : Serials) (n : Nat) : Bool := s.flags.getD n false

/-- The set with one more member. -/
def insert (s : Serials) (n : Nat) : Serials :=
  if n < s.flags.size then ⟨s.flags.setIfInBounds n true⟩
  else ⟨(s.flags ++ Array.replicate (n - s.flags.size) false).push true⟩

/-- The set with more members. -/
def insertAll (s : Serials) (ns : List Nat) : Serials := ns.foldl insert s

/-- The set of the numbers in a list. -/
def ofList (ns : List Nat) : Serials := insertAll ∅ ns

@[simp, grind =]
theorem contains_empty {n : Nat} : (∅ : Serials).contains n = false := rfl

/-- A number that is put in is there, beside the others. -/
@[simp, grind =]
theorem contains_insert {s : Serials} {m n : Nat} :
    (s.insert m).contains n ↔ s.contains n ∨ n = m := by
  simp only [contains, insert, Array.getD_eq_getD_getElem?]
  by_cases h : m < s.flags.size
  · rw [if_pos h, Array.getElem?_setIfInBounds]
    by_cases e : m = n
    · simp [e, e ▸ h]
    · simp [e, Ne.symm e]
  · rw [if_neg h, Array.getElem?_push, Array.getElem?_append, Array.size_append,
      Array.size_replicate, Nat.add_sub_cancel' (Nat.le_of_not_lt h)]
    by_cases e : n = m
    · simp [e]
    · rw [if_neg e]
      split
      · simp [e]
      · rw [Array.getElem?_replicate, Array.getElem?_eq_none (Nat.le_of_not_lt ‹_›)]
        split <;> simp [e]

@[simp, grind =]
theorem contains_insertAll {s : Serials} {ns : List Nat} {n : Nat} :
    (s.insertAll ns).contains n ↔ s.contains n ∨ n ∈ ns := by
  induction ns generalizing s with
  | nil => simp [insertAll]
  | cons m ns ih =>
    rw [insertAll, List.foldl_cons, ← insertAll, ih, contains_insert, List.mem_cons, or_assoc]

/-- A set made of a list has the numbers of the list. -/
@[simp, grind =]
theorem contains_ofList {ns : List Nat} {n : Nat} : (ofList ns).contains n ↔ n ∈ ns := by
  simp [ofList]

end Serials

end Lvalue
