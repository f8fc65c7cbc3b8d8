import Lvalue.Fault
import Lvalue.Table

/-!
# Scopes

A scope binds names, and a name that it does not bind is looked for in the scope
around it. Scopes form a tree that only grows at its leaves: the parent of a
scope is older than the scope and never changes.

A binding that was declared stays. Only the bindings that a write made in
passing, without any declaration, can be deleted. A binding that has no value
yet can be neither read nor written; `initialise` is what gives it one.
-/

namespace Lvalue

/-- The ways in which a name is bound. -/
inductive BindingKind where
  | var
  | letting
  | constant
  deriving DecidableEq, Repr

/-- A bound name. -/
structure Binding where
  value : Value
  kind : BindingKind
  /-- The binding has a value. -/
  initialised : Bool := true
  /-- The binding was made in passing and can be deleted. -/
  deletable : Bool := false
  deriving DecidableEq, Repr

/-- The binding of a name that no declaration introduced. -/
def Binding.implicit (v : Value) : Binding := { value := v, kind := .var, deletable := true }

/-- The binding of a declared variable. -/
def Binding.var (v : Value) : Binding := { value := v, kind := .var }

/-- The binding of a name that was declared and still has to be initialised. -/
def Binding.pending (kind : BindingKind) : Binding :=
  { value := .undefined, kind, initialised := false }

/-- A scope. -/
structure Scope where
  /-- The scope around it; an outermost scope has none. -/
  parent : Option ScopeId
  bindings : Table Atom Binding := ∅

/-- The objects that the bindings of a scope hold. -/
def Scope.objects (s : Scope) : List ObjectId :=
  s.bindings.values.filterMap fun b => b.value.object?

/-- The scopes that are alive. -/
structure Scopes where
  table : Table ScopeId Scope := ∅
  /-- The serial number of the next scope. -/
  next : Nat := 0
  /-- Every scope is older than the next one. -/
  older : ∀ s ∈ table.keys, s.serial < next := by nofun

namespace Scopes

/-- The scope, if it is alive. -/
def get? (t : Scopes) (s : ScopeId) : Option Scope := t.table.get? s

/-- The scopes with a new one in `parent`, and its identity. -/
def alloc (t : Scopes) (parent : Option ScopeId) : ScopeId × Scopes :=
  (⟨t.next⟩,
    { table := t.table.insert ⟨t.next⟩ { parent }
      next := t.next + 1
      older := fun s mem => by
        rcases Table.mem_keys_insert.1 mem with rfl | mem
        · exact Nat.lt_succ_self _
        · exact Nat.lt_succ_of_lt (t.older s mem) })

@[simp]
theorem get?_alloc (t : Scopes) (parent : Option ScopeId) (s : ScopeId) :
    (t.alloc parent).2.get? s = if ⟨t.next⟩ = s then some { parent } else t.get? s :=
  Table.get?_insert ..

/-- The identity of the next scope is still free. -/
theorem get?_next (t : Scopes) : t.get? ⟨t.next⟩ = none :=
  Table.get?_eq_none_iff.2 fun mem => Nat.lt_irrefl _ (t.older _ mem)

/-- Only the scopes that satisfy `p`. -/
def keep (t : Scopes) (p : ScopeId → Bool) : Scopes where
  table := t.table.filter fun s _ => p s
  next := t.next
  older s mem := t.older s (Table.mem_keys_of_filter mem)

/-- What is kept is found as before. -/
@[simp]
theorem get?_keep (t : Scopes) (p : ScopeId → Bool) (s : ScopeId) :
    (t.keep p).get? s = if p s then t.get? s else none := by
  simp only [keep, get?, Table.get?_filter]
  cases t.table.get? s <;> simp [Option.filter]

/-- The scopes with the bindings of `s` changed. -/
def rebind (t : Scopes) (s : ScopeId) (f : Table Atom Binding → Table Atom Binding) : Scopes where
  table := t.table.modify s fun x => { x with bindings := f x.bindings }
  next := t.next
  older s' mem := t.older s' (Table.mem_keys_modify.1 mem)

/-- A change of bindings is one of that scope alone. -/
@[simp]
theorem get?_rebind (t : Scopes) (s s' : ScopeId)
    (f : Table Atom Binding → Table Atom Binding) :
    (t.rebind s f).get? s' =
      if s = s' then (t.get? s').map fun x => { x with bindings := f x.bindings }
      else t.get? s' :=
  Table.get?_modify ..

/-! ## The tree -/

/-- The scope around `s`. -/
def parent? (t : Scopes) (s : ScopeId) : Option ScopeId := (t.get? s).bind (·.parent)

/-- At most `n` scopes from `start` outwards. -/
def walk (t : Scopes) : Nat → Option ScopeId → List ScopeId
  | 0, _ => []
  | _, none => []
  | n + 1, some s => s :: t.walk n (t.parent? s)

/-- The scope and all those around it, innermost first. A parent is older than its
    child, so the serial number of the scope bounds their number. -/
def chain (t : Scopes) (s : ScopeId) : List ScopeId := t.walk (s.serial + 1) (some s)

/-- The outermost scope around `s`. -/
def outermost (t : Scopes) (s : ScopeId) : ScopeId := ((t.chain s).getLast?).getD s

/-! ## Bindings -/

/-- The binding of `x` in the scope `s` itself. -/
def binding? (t : Scopes) (s : ScopeId) (x : Atom) : Option Binding :=
  (t.get? s).bind (·.bindings.get? x)

/-- The scope that `x` means in `s`: the nearest one that binds it. -/
def resolve (t : Scopes) (s : ScopeId) (x : Atom) : Option ScopeId :=
  (t.chain s).find? fun s' => (t.binding? s' x).isSome

/-- The scopes with `x` bound anew in `s`. -/
def declare (t : Scopes) (s : ScopeId) (x : Atom) (b : Binding) : Scopes :=
  t.rebind s (·.insert x b)

/-- The binding of `x` in `s` waits for its value. -/
def awaits (t : Scopes) (s : ScopeId) (x : Atom) : Bool :=
  (t.binding? s x).any fun b => !b.initialised

/-- The scopes with a value for `x` in `s`, where one is awaited. -/
def initialise (t : Scopes) (s : ScopeId) (x : Atom) (v : Value) : Scopes :=
  if t.awaits s x then
    t.rebind s (·.modify x fun b => { b with value := v, initialised := true })
  else t

/-- The scopes with another value for `x` in `s`, and the rest of the binding kept. -/
def assign (t : Scopes) (s : ScopeId) (x : Atom) (v : Value) : Scopes :=
  t.rebind s (·.modify x fun b => { b with value := v })

/-- The value of `x` in `s`. A name that is not bound there is an error where the
    reading is strict, and undefined otherwise. -/
def read (t : Scopes) (spelling : Spelling) (s : ScopeId) (x : Atom) (strict : Bool) :
    Except (Fault Value) Value :=
  match t.binding? s x with
  | some b => if b.initialised then .ok b.value else .error (.uninitialised (spelling x))
  | none => if strict then .error (.unbound (spelling x)) else .ok .undefined

/-- The scopes after `v` is written to `x` in `s`. A name that is not bound there is
    an error where the writing is strict, and gets a binding otherwise. -/
def write (t : Scopes) (spelling : Spelling) (s : ScopeId) (x : Atom) (v : Value)
    (strict : Bool) : Except (Fault Value) Scopes :=
  match t.binding? s x with
  | some b =>
    if !b.initialised then .error (.uninitialised (spelling x))
    else if b.kind = .constant then .error (.constant (spelling x))
    else .ok (t.assign s x v)
  | none =>
    if strict then .error (.unbound (spelling x)) else .ok (t.declare s x (.implicit v))

/-- The binding of `x` in `s` can be deleted, or there is none. -/
def releases (t : Scopes) (s : ScopeId) (x : Atom) : Bool :=
  (t.binding? s x).all (·.deletable)

/-- The scopes without a binding of `x` in `s`, where it can be deleted. -/
def delete (t : Scopes) (s : ScopeId) (x : Atom) : Scopes :=
  if t.releases s x then t.rebind s (·.erase x) else t

/-- The scopes after `v` is written to `x` in the outermost scope around `s`, to
    whatever binding there is, and to a new one if there is none. -/
def createGlobal (t : Scopes) (s : ScopeId) (x : Atom) (v : Value) : Scopes :=
  let root := t.outermost s
  if (t.binding? root x).isSome then t.assign root x v else t.declare root x (.implicit v)

end Scopes

end Lvalue
