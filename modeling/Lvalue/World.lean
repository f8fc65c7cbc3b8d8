import Lvalue.Handler
import Lvalue.Heap.Intrinsic
import Lvalue.Journal

/-!
# Worlds

All that there is at one moment: the heap, the scopes, the handlers, how deep
handlers run inside one another, and the handles, which are what a session and
its running scripts know by name.
-/

namespace Lvalue

/-- The settings of a world. -/
structure Config where
  /-- The handlers of functions and of maps are installed from the start. -/
  standardHandlers : Bool := true
  /-- How many handlers may run inside one another. -/
  maxDepth : UInt32 := 1000
  deriving DecidableEq, Repr

/-- What is known by name, and what running operations hold. -/
structure Handles where
  registers : Table String Value := ∅
  /-- The registers of the running bodies, innermost body first. -/
  frames : List (Table String Value) := []
  references : Table String Reference := ∅
  scopes : Table String ScopeId := ∅
  /-- Handles that do not hold their object. -/
  weak : Table String ObjectId := ∅
  /-- What the running operations work on. -/
  operands : List Reference := []

/-- A world. -/
structure World where
  heap : Heap
  scopes : Scopes
  registry : Registry := ∅
  config : Config := {}
  /-- How many handlers run inside one another. -/
  depth : UInt32 := 0
  handles : Handles := {}
  /-- The serial number of the next symbol. -/
  nextSymbol : Nat := 0
  /-- What running bodies have told, latest first. -/
  journal : List Entry := []

/-- The outermost scope of a world. -/
def globalScope : ScopeId := ⟨0⟩

namespace World

/-- The world with the handlers of functions and of maps installed on the prototypes
    of functions, maps and weak maps. -/
def installStandard (w : World) : World :=
  { w with registry := ((w.registry.insert Intrinsic.function.id .functions).insert
      Intrinsic.map.id .maps).insert Intrinsic.weakMap.id .maps }

/-- The world at the start. -/
def initial (config : Config) : World :=
  let w : World := { heap := .initial, scopes := (({} : Scopes).alloc none).2, config }
  if config.standardHandlers then w.installStandard else w

/-- The world with more told. -/
def tell (w : World) (e : Entry) : World := { w with journal := e :: w.journal }

end World

end Lvalue
