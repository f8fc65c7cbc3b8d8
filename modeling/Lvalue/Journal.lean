import Lvalue.Scope
import Lvalue.Reference

/-!
# Journals

What a session tells about itself: the answers to its commands and the entries
that running functions and handlers leave. Both are pictures: they show objects
and values as they were when they were taken, and hold none of them alive.
-/

namespace Lvalue

/-! ## Pictures -/

/-- A value as it is shown. -/
inductive Shown where
  | undefined
  | null
  | bool (b : Bool)
  | number (x : Number)
  | text (s : String)
  | symbol (s : Symbol)
  /-- An object with its class, the value in it if it is a wrapper, and its name if
      it is a function. -/
  | object (o : ObjectId) (className : String) (wrapped : Option Shown) (name : Option String)

/-- A property as it is shown. -/
inductive ShownSlot where
  | data (value : Shown) (writable : Bool)
  | accessor (getter setter : Option Shown)

@[inherit_doc ShownSlot]
structure ShownProperty where
  slot : ShownSlot
  enumerable : Bool
  configurable : Bool

/-- A failure as it is shown: its cause, the value that was thrown, if one was, and
    the message, unless a text that was thrown says it all. -/
structure Report where
  cause : Error Value
  thrown : Option Shown
  message : Option Prose

/-- What is told about a value. -/
structure Inspection where
  value : Shown
  typeName : String
  undefined : Bool
  nullish : Bool
  isObject : Bool
  display : String

/-- What is told about an object with all its properties. -/
structure Dump where
  object : Shown
  prototype : Option Shown
  extensible : Bool
  callable : Bool
  properties : List (Shown × ShownProperty)

/-- What is told about a binding. -/
structure ShownBinding where
  value : Shown
  kind : BindingKind
  initialised : Bool
  deletable : Bool

/-- What is told about the target of a reference. -/
inductive ShownTarget where
  | value (v : Shown)
  | binding (scope : Option String) (name : String)
  | property (base this : Shown) (overridden : Bool) (name : Shown) (display : Prose)

/-- What is told about a reference. -/
structure ShownReference where
  isReference : Bool
  isProperty : Bool
  isUnresolvable : Bool
  isAbstract : Bool
  isStrict : Bool
  target : ShownTarget

/-! ## Answers and entries -/

/-- The answer to a command. -/
inductive Answer where
  | done
  | flag (b : Bool)
  | value (v : Shown)
  | prose (p : Prose)
  | inspection (i : Inspection)
  | comparison (equal same : Bool)
  | own (property : Option ShownProperty)
  | objects (os : List ObjectId)
  | count (n : Nat)
  | dump (d : Dump)
  | entry (v : Option Shown)
  /-- The number of entries, and how many of them have a key that is alive if the map
      does not hold its keys. -/
  | mapSize (size : Nat) (live : Option Nat)
  | weak (o : Option Shown) (description : Prose)
  | scope (name : String) (outermost : Bool)
  | scopeInfo (name : String) (outermost : String) (parent : Option String) (description : String)
  | binding (b : Option ShownBinding)
  | scopeName (name : Option String)
  | reference (r : ShownReference)
  | previous (label : Option String)
  | removed (label : Option String)
  | installed (label : Option String)
  | labels (ls : List String)
  | registry (size : Nat) (description : String)
  | config (standardHandlers : Bool) (maxDepth : Nat)

/-- An entry of the journal. -/
inductive Entry where
  | note (v : Shown)
  | call (name : String) (this : Shown) (args : List Shown)
  /-- A handler serves an operation; `value` is what it is to write. -/
  | handler (label : String) (op : Operation) (name receiver : Shown) (value : Option Shown)
  | caught (r : Report)
  /-- A side of an abstract reference is evaluated: its name, or else its base. -/
  | evaluate (isName : Bool)
  /-- An object is spoken of without a word. -/
  | mention (o : ObjectId)
  /-- A step of a script was answered. The answer goes nowhere. -/
  | answered (a : Answer)

end Lvalue
