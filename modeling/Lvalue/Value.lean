import Lvalue.Number

/-!
# Values

What variables, properties and map entries hold: the primitive values and the
objects. An object is only its identity here; what it is stands in the heap
(`Lvalue.Heap`).

Texts are atoms. Two atoms are the same text if and only if they are equal, and
the text of an atom is found by a *spelling*. An atom need not have a text: a
dangling atom is one whose text no table holds, and it is spelled like all
those that a spelling does not know.
-/

namespace Lvalue

/-- The identity of an object. No two objects ever share one. -/
structure ObjectId where
  serial : Nat
  deriving DecidableEq, Repr, Inhabited

theorem ObjectId.serial_injective {o o' : ObjectId} (h : o.serial = o'.serial) : o = o' := by
  cases o; cases o'; simp_all

/-- The identity of a scope. -/
structure ScopeId where
  serial : Nat
  deriving DecidableEq, Repr, Inhabited

theorem ScopeId.serial_injective {s s' : ScopeId} (h : s.serial = s'.serial) : s = s' := by
  cases s; cases s'; simp_all

/-! ## Atoms -/

/-- A text as a value. -/
inductive Atom where
  | text (s : String)
  | dangling (index : Nat)
  deriving DecidableEq, Repr, Inhabited

/-- A way to find the texts of atoms. -/
abbrev Spelling := Atom → String

/-- How an atom without a text is spelled. -/
def Atom.unknown : String := "<NOT_FOUND>"

/-- The spelling that knows all texts. -/
def Spelling.full : Spelling
  | .text s => s
  | .dangling _ => Atom.unknown

/-- The spelling that knows no text. -/
def Spelling.blank : Spelling := fun _ => Atom.unknown

/-! ## Symbols and keys -/

/-- A symbol: a key that differs from every other, whatever its description. -/
structure Symbol where
  serial : Nat
  description : Option String
  deriving DecidableEq, Repr, Inhabited

/-- The text of a symbol, in which no description reads as an empty one. -/
def Symbol.text (s : Symbol) : String := "Symbol(" ++ s.description.getD "" ++ ")"

/-- The name of a property. -/
inductive Key where
  | text (a : Atom)
  | symbol (s : Symbol)
  deriving DecidableEq, Repr, Inhabited

/-- The text of a key, as it stands in messages. -/
def Key.spell (spelling : Spelling) : Key → String
  | .text a => spelling a
  | .symbol s => s.text

/-! ## Values -/

/-- A value. -/
inductive Value where
  | undefined
  | null
  | bool (b : Bool)
  | number (x : Number)
  | text (a : Atom)
  | symbol (s : Symbol)
  | object (o : ObjectId)
  deriving DecidableEq, Repr, Inhabited

namespace Value

/-- The two values that stand for nothing and have no properties. -/
def isNullish : Value → Bool
  | undefined | null => true
  | _ => false

/-- The object that the value is. -/
def object? : Value → Option ObjectId
  | object o => some o
  | _ => none

/-- The property key that the value is. -/
def key? : Value → Option Key
  | text a => some (.text a)
  | symbol s => some (.symbol s)
  | _ => none

/-! ### Three equalities

Numbers aside, two values are equal if they are the same text, the same symbol,
the same object, and so on. On numbers the three differ. -/

/-- Equality with numbers compared as numbers: the zeros are equal, and what is not
    a number differs from itself. -/
def equals : Value → Value → Bool
  | number x, number y => x.equals y
  | v, w => decide (v = w)

/-- Identity of values: a value is always the same as itself, and the zeros differ. -/
def same : Value → Value → Bool
  | number x, number y => x.same y
  | v, w => decide (v = w)

/-- The representative of a value among those that name the same map entry: both
    zeros name one entry, and all that is not a number names one. -/
def canonical : Value → Value
  | number x => number x.canonical
  | v => v

end Value

/-- The value that a key is. -/
def Key.toValue : Key → Value
  | .text a => .text a
  | .symbol s => .symbol s

end Lvalue
