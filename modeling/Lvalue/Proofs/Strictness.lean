import Lvalue.Proofs.Invocation

/-!
# Strictness

A strict reference to a property reports it when a write or a delete is
rejected, and a lenient one does not; that is all that there is to strictness.
Both do the same, run the same bodies, and end in the same world
(`strict_only_reports`).

For what is done is done before anyone looks at the reference again: a write to a
property with a key is the work of the objects (`writeMember`), and so is a
delete (`deleteMember`). They answer whether they did it, and a rejection is
reported or not (`reportRejection`).
-/

namespace Lvalue

open Eval

/-! ## Rejections -/

/-- Writes `v` to the property `k` of the object that stands for the base. Returns whether the
    write was accepted. -/
def writeMember (run : Runner) (base : Value) (k : Key) (this : Option Value) (v : Value) :
    Eval Bool := do
  let o ← coerceBase .write base (k.spell .full)
  Eval.holding (.object o :: base :: v :: this.toList)
    (setProperty run.call o k v (this.getD base))

/-- Deletes the property `k` of the object that stands for the base. Returns whether it is gone. -/
def deleteMember (base : Value) (k : Key) (this : Option Value) : Eval Bool := do
  if Reference.overridesReceiver base this then Eval.raise (.superDelete (k.spell .full))
  else
    let o ← coerceBase .delete base (k.spell .full)
    deleteProperty o k

/-- Fails with `e` if a rejection is to be reported, and goes on with `a` if not. -/
def reportRejection {α : Type} (strict : Bool) (e : Error Value) (a : α) (accepted : Bool) :
    Eval α :=
  if !accepted && strict then Eval.raise e else return a

/-- A report changes nothing. -/
theorem looks_reportRejection {α : Type} (strict : Bool) (e : Error Value) (a : α)
    (accepted : Bool) : (reportRejection strict e a accepted).Looks := fun w => by
  rw [reportRejection]
  split <;> rfl

section

variable (run : Runner) (base : Value) (k : Key) (this : Option Value) (strict : Bool)

/-- A write is what it would be without a report, and then the report. -/
theorem writeReference_member (v : Value) :
    writeReference run (.member base k this strict) v =
      writeMember run base k this v >>= reportRejection strict (.readOnly (k.spell .full)) () :=
  (bind_assoc _ _ _).symm

@[inherit_doc writeReference_member]
theorem deleteReference_member :
    deleteReference run (.member base k this strict) =
      deleteMember base k this >>= fun released =>
        reportRejection strict (.undeletable (k.spell .full)) released released := by
  rw [deleteReference, deleteMember]
  split
  · rfl
  · exact (bind_assoc _ _ _).symm

/-- A lenient delete hands on the answer. -/
theorem deleteReference_lenient :
    deleteReference run (.member base k this false) = deleteMember base k this := by
  rw [deleteReference_member]
  simp only [reportRejection, Bool.and_false]
  exact bind_pure _

end

/-! ## One and the same body -/

namespace Eval

variable {α β : Type} {act act' : Runner → Eval α} {w : World} {E : Outcome α → Prop}

/-- On the world `w`, either both evaluations run no body, or both run the same one, on the same
    values and in the same world, and no other. -/
def SameCalls (act act' : Runner → Eval α) (w : World) : Prop :=
  (Silent act w ∧ Silent act' w) ∨ ∃ i u, Invokes act w i u ∧ Invokes act' w i u

/-- An evaluation makes the calls that it makes. -/
theorem Single.sameCalls (h : Single act w E) : SameCalls act act w :=
  h.silent_or_invokes.imp (fun silent => ⟨silent, silent⟩) fun ⟨i, u, h⟩ => ⟨i, u, h, h⟩

/-- What comes after it runs no body, and need not be the same. -/
theorem SameCalls.bind (h : SameCalls act act' w) (f f' : α → Eval β) :
    SameCalls (fun run => act run >>= f) (fun run => act' run >>= f') w := by
  rcases h with ⟨silent, silent'⟩ | ⟨i, u, invokes, invokes'⟩
  · exact .inl ⟨silent.bind f, silent'.bind f'⟩
  · exact .inr ⟨i, u, invokes.bind f, invokes'.bind f'⟩

end Eval

section

variable {w : World} (base : Value) (k : Key) (this : Option Value)

theorem single_writeMember (v : Value) :
    Single (fun run => writeMember run base k this v) w (Careful (· = true) w) :=
  .coerced (fun _ => .holding (single_setProperty k v _ _)) _ _

theorem single_deleteMember :
    Single (fun _ => deleteMember base k this) w (Careful (· = true) w) := by
  rw [deleteMember]
  split
  · exact .silent _ (fun _ => rfl) (.rest rfl)
  · exact .coerced (fun _ => .silent _ (fun _ => rfl) (careful_deleteProperty k _)) _ _

theorem single_readMember (strict : Bool) :
    Single (fun run => readReference run (.member base k this strict)) w (Careful NoResult w) :=
  .coerced (fun _ => .holding (single_getProperty k _ _)) _ _

end

/-! ## What strictness changes -/

/-- Two ways to end: in the same world and with the same result, except that the one ends with `a`
    and the other with the error `e` if there was a rejection. -/
structure OnlyReports {α : Type} (rejected : Prop) (a : α) (e : Error Value)
    (lenient strict : Outcome α) : Prop where
  world : strict.2 = lenient.2
  rejection : rejected → lenient.1 = .ok a ∧ strict.1 = .error (.raised e)
  result : ¬rejected → strict.1 = lenient.1

/-- The two ways to report differ where the answer was no, and there alone. -/
theorem onlyReports_reportRejection {α : Type} (act : Eval Bool) (e : Error Value) (f : Bool → α)
    (w : World) :
    OnlyReports ((act.on w).1 = .ok false) (f false) e
      ((act >>= fun accepted => reportRejection false e (f accepted) accepted).on w)
      ((act >>= fun accepted => reportRejection true e (f accepted) accepted).on w) := by
  rw [on_bind, on_bind]
  rcases act.on w with ⟨halt | _ | _, w'⟩
  · exact ⟨rfl, nofun, fun _ => rfl⟩
  · exact ⟨rfl, fun _ => ⟨rfl, rfl⟩, fun h => absurd rfl h⟩
  · exact ⟨rfl, nofun, fun _ => rfl⟩

/-- All that the strictness of a reference to a property changes, in any world, and whatever bodies
    do.

    If the key is given, a read is the same. A write and a delete end in the same world with the
    same result, unless the objects reject them: then the lenient reference reports success of the
    write and `false` for the delete, and the strict one fails with the key. If an object names the
    property, everything is the same.

    In all of this, both references run the same body, on the same values and in the same world, or
    both run none. -/
theorem strict_only_reports (w : World) (base : Value) (k : Key) (this : Option Value)
    (name : ObjectId) :
    let lenient := Reference.member base k this false
    let strict := Reference.member base k this true
    (∀ run, readReference run strict = readReference run lenient) ∧
    (∀ run v, OnlyReports (((writeMember run base k this v).on w).1 = .ok false) ()
      (.readOnly (k.spell .full)) ((writeReference run lenient v).on w)
      ((writeReference run strict v).on w)) ∧
    (∀ run, OnlyReports (((deleteReference run lenient).on w).1 = .ok false) false
      (.undeletable (k.spell .full)) ((deleteReference run lenient).on w)
      ((deleteReference run strict).on w)) ∧
    (∀ run request, operate run (.abstractMember base name true) request =
      operate run (.abstractMember base name false) request) ∧
    (∀ request, SameCalls (operate · lenient request) (operate · strict request) w ∧
      SameCalls (operate · (.abstractMember base name false) request)
        (operate · (.abstractMember base name true) request) w) := by
  intro lenient strict
  refine ⟨fun run => rfl, fun run v => ?_, fun run => ?_, fun run request => ?_, fun request => ?_⟩
  · rw [writeReference_member, writeReference_member]
    exact onlyReports_reportRejection _ _ (fun _ => ()) w
  · have answer : ((deleteReference run lenient).on w).1 = ((deleteMember base k this).on w).1 := by
      rw [deleteReference_lenient]
    rw [answer, deleteReference_member, deleteReference_member]
    exact onlyReports_reportRejection _ _ id w
  · cases request <;> rfl
  -- Bodies run before the rejection is reported, in a part that both have in common.
  · have named : SameCalls (operate · (.abstractMember base name false) request)
        (operate · (.abstractMember base name true) request) w := by
      simp only [operate_abstract]
      exact (single_resolveAbstract request base name).sameCalls.bind _ _
    refine ⟨?_, named⟩
    cases request with
    | read => exact (single_readMember base k this false).sameCalls
    | write v =>
      simp only [operate, lenient, strict, writeReference_member]
      exact ((single_writeMember base k this v).sameCalls.bind _ _).bind _ _
    | delete =>
      simp only [operate, lenient, strict, deleteReference_member]
      exact ((single_deleteMember base k this).sameCalls.bind _ _).bind _ _

end Lvalue
