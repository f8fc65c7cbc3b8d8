import Lvalue.Fault
import Lvalue.Script

/-!
# Commands

What the body of a function can do: work with values, objects, maps, lifetimes
and scopes. Resolving references is not among it (`Lvalue.Script.Action`), so
that a function never runs a handler.

A command names what it works on: by expressions for values, by name for scopes
and weak handles. The optional `into` is the register that takes the result.
-/

namespace Lvalue

/-- A property as a command writes it. -/
inductive PropertyExpr where
  | data (value : Expr) (writable enumerable configurable : Bool)
  | accessor (getter setter : Option Expr) (enumerable configurable : Bool)

/-- The kinds of objects that a command makes. -/
inductive Blueprint where
  | ordinary
  | map
  | weakMap
  /-- A wrapper around a value. -/
  | wrapper (v : Expr)

/-- The prototype of a new object. -/
inductive Parent where
  /-- The one for objects of its kind. -/
  | standard
  | none
  | object (e : Expr)

/-- The ways to declare a name. -/
inductive Declaration where
  | var (v : Expr)
  | letting
  | constant

/-- What a function can do. -/
inductive Command where
  -- Values
  | value (v : Expr) (into : Option String)
  | note (v : Expr)
  | newSymbol (description : Option String) (into : Option String)
  | danglingText (index : Nat) (into : Option String)
  | inspect (v : Expr)
  /-- The text of a value, where no texts are known. -/
  | displayBlank (v : Expr)
  /-- The description of a value; `busy` if the object is being changed. -/
  | describe (v : Expr) (busy : Bool)
  | describeFunction (fn : Expr)
  | compare (a b : Expr)
  | keyName (key : Expr) (blank : Bool)
  | fail (cause : Fault Expr)
  -- Objects
  | new (blueprint : Blueprint) (parent : Parent) (into : Option String)
  /-- `n` ordinary objects, the first inheriting from `root` and each other from the
      one before it. -/
  | newChain (root : Expr) (n : Nat) (into : Option String)
  | function (name : String) (body : Script Command) (into : Option String)
  | toObject (v : Expr) (into : Option String)
  | define (obj key : Expr) (property : PropertyExpr)
  | own (obj key : Expr)
  | delete (obj key : Expr)
  | get (obj key : Expr) (receiver : Option Expr) (into : Option String)
  | set (obj key v : Expr) (receiver : Option Expr)
  | call (fn : Expr) (this : Option Expr) (args : List Expr) (into : Option String)
  | setPrototype (obj : Expr) (prototype : Option Expr)
  | preventExtensions (obj : Expr)
  | chain (obj : Expr)
  | chainLength (obj : Expr)
  | dump (obj : Expr)
  -- Maps
  | mapGet (map key : Expr) (into : Option String)
  | mapHas (map key : Expr)
  | mapSet (map key v : Expr)
  | mapDelete (map key : Expr)
  | mapSize (map : Expr)
  | mapPrune (map : Expr)
  -- Lifetimes
  | downgrade (obj : Expr) (into : String)
  | weak (name : String)
  | dropRegisters (names : List String)
  | dropReference (name : String)
  | dropScope (name : String)
  -- Scopes
  /-- A scope in `parent`, or one of its own if there is none. -/
  | newScope (parent : Option String) (into : String)
  | nestScopes (parent : String) (n : Nat) (into : String)
  | scopeInfo (scope : String)
  | declare (scope : String) (name : Expr) (declaration : Declaration)
  | initialise (scope : String) (name v : Expr)
  | binding (scope : String) (name : Expr)
  | findScope (scope : String) (name : Expr)
  | scopeGet (scope : String) (name : Expr) (strict blank : Bool) (into : Option String)
  | scopeSet (scope : String) (name v : Expr) (strict blank : Bool)
  | scopeDelete (scope : String) (name : Expr)
  | createGlobal (scope : String) (name v : Expr)

end Lvalue
