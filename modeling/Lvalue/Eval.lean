import Lvalue.World.Lifetime

/-!
# Evaluations

An evaluation works on a world and ends in a result, or it halts: with an error,
out of budget, or stuck at a command that makes no sense. However it ends, the
world that it leaves is kept.

An evaluation is seen through `on` alone, the result and the world that come of
it on a world; the lemmas `on_bind`, `on_between` and so on say what each way of
making one does to that view.

What a running operation works on is held while it runs (`holding`), and the
registers of a body last as long as the body (`framed`).
-/

namespace Lvalue

/-- The ways to end without a result. -/
inductive Halt where
  /-- The operation failed. -/
  | raised (e : Error Value)
  /-- Bodies run inside one another deeper than the budget for them. -/
  | exhausted
  /-- A command names what does not exist, or works on a value of the wrong type. -/
  | stuck
  deriving DecidableEq

/-- A computation on a world. -/
abbrev Eval := ExceptT Halt (StateM World)

namespace Eval

variable {α β : Type}

/-- What comes of an evaluation on the world `w`: the result, and the world that it
    leaves. -/
def on (act : Eval α) (w : World) : Except Halt α × World := act.run.run w

/-- The evaluation that has the given results. -/
def ofFn (f : World → Except Halt α × World) : Eval α := ExceptT.mk f

/-- Fails with an error. -/
def raise (e : Error Value) : Eval α := throw (.raised e)

/-- Fails with a fault. -/
def fault (f : Fault Value) : Eval α := raise (.fault f)

/-- Is stuck. -/
def stuck : Eval α := throw .stuck

/-- The result, or stuck if there is none. -/
def demand : Option α → Eval α
  | some a => pure a
  | none => stuck

/-- What `f` sees in the world. -/
def see (f : World → α) : Eval α := do return f (← get)

/-- Runs `act` between two changes of the world; the second one is made however
    `act` ends. -/
def between (enter leave : World → World) (act : Eval α) : Eval α :=
  ofFn fun w =>
    let (result, w') := act.on (enter w)
    (result, leave w')

/-- The way in which `act` ends, as a result. -/
def outcome (act : Eval α) : Eval (Except Halt α) :=
  ofFn fun w =>
    let (result, w') := act.on w
    (.ok result, w')

/-- Tells something. -/
def tell (e : Entry) : Eval Unit := modify (·.tell e)

/-- Runs `act` while `rs` are held. -/
def holdingAll (rs : List Reference) (act : Eval α) : Eval α :=
  between
    (fun w => { w with handles := { w.handles with operands := rs ++ w.handles.operands } })
    (fun w => { w with handles :=
      { w.handles with operands := w.handles.operands.drop rs.length } })
    act

/-- Runs `act` while the values are held. -/
def holding (vs : List Value) (act : Eval α) : Eval α := holdingAll (vs.map .value) act

/-- Runs `act`, a body, with registers of its own. -/
def framed (frame : Table String Value) (act : Eval α) : Eval α :=
  between
    (fun w => { w with handles := { w.handles with frames := frame :: w.handles.frames } })
    (fun w => { w with handles := { w.handles with frames := w.handles.frames.tail } })
    act

/-- Changes the heap. -/
def onHeap (f : Heap → Heap) : Eval Unit := modify fun w => { w with heap := f w.heap }

/-- Makes a new object. -/
def alloc (o : Object) : Eval ObjectId :=
  modifyGet fun w =>
    let (id, heap) := w.heap.alloc o
    (id, { w with heap })

/-! ## Results -/

@[simp]
theorem on_pure (a : α) (w : World) : (pure a : Eval α).on w = (.ok a, w) := rfl

/-- A failure leaves the world as it is at the time. -/
@[simp]
theorem on_throw (h : Halt) (w : World) : (throw h : Eval α).on w = (.error h, w) := rfl

/-- What comes next starts in the world that the first part leaves. After a failure nothing comes
    next. -/
theorem on_bind (act : Eval α) (f : α → Eval β) (w : World) :
    (act >>= f).on w =
      match act.on w with
      | (.ok a, w') => (f a).on w'
      | (.error h, w') => (.error h, w') := by
  simp only [on, ExceptT.run_bind, StateT.run_bind]
  rcases act.run.run w with ⟨_ | _, _⟩ <;> rfl

/-- If the first part succeeds, what it yields and leaves is all that matters of it. -/
theorem on_bind_of_ok {act : Eval α} {a : α} {w w' : World} (h : act.on w = (.ok a, w'))
    (f : α → Eval β) : (act >>= f).on w = (f a).on w' := by
  rw [on_bind, h]

@[simp]
theorem demand_some (a : α) : demand (some a) = pure a := rfl

/-- To work on a result does not touch the world. -/
@[simp]
theorem on_map (f : α → β) (act : Eval α) (w : World) :
    (f <$> act).on w = ((act.on w).1.map f, (act.on w).2) := by
  rw [map_eq_pure_bind, on_bind]
  rcases act.on w with ⟨_ | _, _⟩ <;> rfl

@[simp]
theorem on_get (w : World) : (get : Eval World).on w = (.ok w, w) := rfl

@[simp]
theorem on_set (w w' : World) : (set w' : Eval PUnit).on w = (.ok ⟨⟩, w') := rfl

/-- A change has no result but the world that it makes. -/
@[simp]
theorem on_modify (f : World → World) (w : World) :
    (modify f : Eval PUnit).on w = (.ok ⟨⟩, f w) := rfl

@[simp]
theorem on_modifyGet (f : World → α × World) (w : World) :
    (modifyGet f : Eval α).on w = (.ok (f w).1, (f w).2) := rfl

/-- What is raised comes back as a failure, with all that has been done so far. -/
@[simp]
theorem on_raise (e : Error Value) (w : World) :
    (raise e : Eval α).on w = (.error (.raised e), w) := rfl

@[simp]
theorem on_fault (f : Fault Value) (w : World) :
    (fault f : Eval α).on w = (.error (.raised (.fault f)), w) := rfl

@[simp]
theorem on_see (f : World → α) (w : World) : (see f).on w = (.ok (f w), w) := rfl

/-- The second change is made after a failure too. -/
@[simp]
theorem on_between (enter leave : World → World) (act : Eval α) (w : World) :
    (between enter leave act).on w = ((act.on (enter w)).1, leave (act.on (enter w)).2) := rfl

/-- Whether an evaluation succeeds or fails, its outcome is had with success. -/
@[simp]
theorem on_outcome (act : Eval α) (w : World) :
    (outcome act).on w = (.ok (act.on w).1, (act.on w).2) := rfl

end Eval

end Lvalue
