import Lvalue.Proofs.Scoping
import Lvalue.Proofs.Strictness

/-!
# Failures

What fails has done nothing, unless a body has done it. A read changes nothing
either, and neither does a write or a delete that the objects reject, whether it
is reported or not. An operation may make a wrapper for a primitive base before
it fails; this is all that it leaves behind, and nothing leads to it.

By `Eval.Single` there is one proof for each kind of reference, and it need only
say how the operation ends where no body runs.
-/

namespace Lvalue

open Eval

/-- A rejection disturbs nothing, reported or not. -/
theorem Eval.Careful.reported {α : Type} {w : World} {e : Outcome Bool}
    (h : Careful (· = true) w e) (strict : Bool) (rejection : Error Value) {f : Bool → α}
    {good : α → Prop} (hgood : good (f true)) :
    Careful good w
      (Eval.continued
        (fun accepted => reportRejection strict rejection (f accepted) accepted) e) := by
  refine h.continued (fun _ => looks_reportRejection _ _ _ _) fun accepted w' accepts => ?_
  subst accepts
  exact ⟨f true, rfl, hgood⟩

section

variable {w : World} (r : Reference)

theorem single_readReference :
    Single (fun run => readReference run r) w (Careful NoResult w) := by
  rcases r with v | ⟨s, x, strict⟩ | ⟨base, k, this, strict⟩ | ⟨base, name, strict⟩
  · exact .silent _ (fun _ => rfl) (.rest rfl)
  · have silent : Silent (fun run => readReference run (.binding s x strict)) w := by
      intro run run'
      cases s <;> rfl
    exact .of_silent silent fun run => .rest (on_readReference_binding run w s x strict)
  · exact single_readMember base k this strict
  · exact (single_resolveAbstract .read base name).mono fun _ he => he.mono fun _ h => h rfl

theorem single_writeReference (v : Value) :
    Single (fun run => writeReference run r v) w (Careful (fun _ => True) w) := by
  rcases r with v | ⟨_ | s, x, strict⟩ | ⟨base, k, this, strict⟩ | ⟨base, name, strict⟩
  · exact .silent _ (fun _ => rfl) (.rest rfl)
  · cases strict with
    | true => exact .silent _ (fun _ => rfl) (.rest rfl)
    | false => exact .silent _ (fun _ => rfl) (.ok trivial _)
  · refine .of_silent (fun _ _ => rfl) fun run => ?_
    rw [writeReference, on_bind, on_see]
    rcases w.scopes.write .full s x v strict with fault | scopes
    · exact .rest rfl
    · exact .ok trivial _
  · simp only [writeReference_member]
    exact (single_writeMember base k this v).bind _ fun e he => he.reported _ _ trivial
  · exact (single_resolveAbstract (.write v) base name).bind _ fun e he =>
      he.continued (fun _ _ => rfl) fun _ _ _ => ⟨(), rfl, trivial⟩

theorem single_deleteReference :
    Single (fun run => deleteReference run r) w (Careful (· = true) w) := by
  rcases r with v | ⟨_ | s, x, strict⟩ | ⟨base, k, this, strict⟩ | ⟨base, name, strict⟩
  · exact .silent _ (fun _ => rfl) (.rest rfl)
  · exact .silent _ (fun _ => rfl) (.rest rfl)
  · refine .of_silent (fun _ _ => rfl) fun run => ?_
    cases h : w.scopes.releases s x with
    | true => exact .inl ⟨true, congrArg _ h, rfl⟩
    | false => exact .rest (congrArg Prod.snd (on_deleteReference_of_kept run w x strict h))
  · simp only [deleteReference_member]
    exact (single_deleteMember base k this).bind _ fun e he => he.reported _ _ rfl
  · exact (single_resolveAbstract .delete base name).bind _ fun e he =>
      he.continued (fun _ _ => rfl) fun _ _ _ => ⟨true, rfl, rfl⟩

/-- The answer says that what was requested was done. -/
def Request.Done : Request → Value → Prop
  | read, _ => False
  | write _, _ => True
  | delete, answer => answer = .bool true

/-- An operation runs at most one body. What other bodies run is up to that one. -/
theorem single_operate (request : Request) :
    Single (operate · r request) w (Careful request.Done w) := by
  cases request with
  | read => exact single_readReference r
  | write v =>
    exact (single_writeReference r v).bind _ fun e he =>
      he.continued (fun _ _ => rfl) fun _ _ _ => ⟨.undefined, rfl, trivial⟩
  | delete =>
    exact (single_deleteReference r).bind _ fun e he =>
      he.continued (fun _ _ => rfl) fun released _ done => ⟨.bool released, rfl, congrArg _ done⟩

end

/-- A failure, and an answer that is not good, leaves the world undisturbed. -/
theorem Eval.Careful.undisturbed {α : Type} {good : α → Prop} {w : World} {e : Outcome α}
    (h : Careful good w e) (bad : ∀ a, e.1 = .ok a → ¬good a) : w.Undisturbed e.2 :=
  h.resolve_left fun ⟨a, ok, ha⟩ => bad a ok ha

/-- What is requested is rejected, and this is not reported. -/
inductive Rejected (run : Runner) (w : World) : Reference → Request → Prop
  /-- The objects do not accept the write. -/
  | write {base : Value} {k : Key} {this : Option Value} {v : Value}
    (h : ((writeMember run base k this v).on w).1 = .ok false) :
    Rejected run w (.member base k this false) (.write v)
  | delete {r : Reference} (h : ((deleteReference run r).on w).1 = .ok false) :
    Rejected run w r .delete

section

variable {run : Runner} {w : World}

/-- A write that runs no body and is rejected leaves the world undisturbed. -/
theorem undisturbed_of_rejected_write {base : Value} {k : Key} {this : Option Value} {v : Value}
    (silent : Silent (operate · (.member base k this false) (.write v)) w)
    (rejected : ((writeMember run base k this v).on w).1 = .ok false) :
    w.Undisturbed ((operate run (.member base k this false) (.write v)).on w).2 := by
  simp only [operate, writeReference_member, bind_assoc] at silent ⊢
  have part := single_writeMember base k this v (w := w)
  have undisturbed := (part.ends (part.silent_of_bind silent) run).undisturbed fun accepted ok => by
    rw [rejected] at ok
    cases ok
    exact Bool.false_ne_true
  rw [on_bind_of_ok (Prod.ext rejected rfl)]
  exact undisturbed

theorem Rejected.undisturbed {r : Reference} {request : Request} (h : Rejected run w r request)
    (silent : Silent (operate · r request) w) :
    w.Undisturbed ((operate run r request).on w).2 := by
  cases h with
  | write rejected => exact undisturbed_of_rejected_write silent rejected
  | delete rejected =>
    refine ((single_operate r .delete).ends silent run).undisturbed fun answer ok done => ?_
    have answered : ((operate run r .delete).on w).1 = .ok (.bool false) := by
      rw [operate, on_bind_of_ok (Prod.ext rejected rfl)]
      rfl
    rw [answered] at ok
    cases ok
    cases done

end

/-- An operation runs a body of a function or of a handler, or else leaves the world undisturbed if
    it is a read, if it fails, or if what is requested is rejected.

    All objects that there were have the same properties, prototype and entries, and are extensible
    if they were; and all scopes, the registry and the depth are the same. -/
theorem undisturbed_unless_done (run : Runner) (w : World) (r : Reference) (request : Request) :
    (Silent (operate · r request) w ∨ ∃ i u, Invokes (operate · r request) w i u) ∧
    (Silent (operate · r request) w →
      request = .read ∨ (∃ halt, ((operate run r request).on w).1 = .error halt) ∨
        Rejected run w r request →
      w.Undisturbed ((operate run r request).on w).2) := by
  refine ⟨(single_operate r request).silent_or_invokes, fun silent undone => ?_⟩
  have ends := (single_operate r request).ends silent run
  rcases undone with rfl | ⟨halt, failed⟩ | rejected
  · exact ends.undisturbed fun _ _ done => done
  · refine ends.undisturbed fun answer ok => ?_
    rw [failed] at ok
    contradiction
  · exact rejected.undisturbed silent

/-- A property of a primitive: a read, a write that is rejected as the receiver is no object, and a
    delete that fails as the receiver is another value. The first two make a wrapper. -/
theorem undisturbed_unless_done_of_primitive :
    let run := runnerAt (callerAt 1) 1
    let w := World.initial {}
    let k : Key := .text (.text "x")
    let r : Reference := .member (.bool true) k none false
    let super : Reference := .member (.bool true) k (some .null) false
    Silent (operate · r .read) w ∧ w.Undisturbed ((operate run r .read).on w).2 ∧
      Silent (operate · r (.write .null)) w ∧ Rejected run w r (.write .null) ∧
      w.Undisturbed ((operate run r (.write .null)).on w).2 ∧
      Silent (operate · super .delete) w ∧
      ((operate run super .delete).on w).1 = .error (.raised (.superDelete (k.spell .full))) ∧
      w.Undisturbed ((operate run super .delete).on w).2 := by
  intro run w k r super
  have coerces (op : Operation) (name : Prose) : (coerceBase op (.bool true) name).on w =
      (.ok (w.receiver (.bool true)), w.coerced (.bool true)) := on_coerceBase rfl op name
  have missing (vs : List Value) :
      ((w.coerced (.bool true)).hold vs).heap.lookup (w.receiver (.bool true)) k = none :=
    show (w.coerced (.bool true)).heap.lookup (w.receiver (.bool true)) k = none by decide +kernel
  have reads : Silent (operate · r .read) w := by
    intro run run'
    simp only [operate, readReference, r, on_bind, coerces, on_holding, getProperty, on_see,
      missing]
  have rejects (run : Runner) : (writeMember run (.bool true) k none .null).on w =
      (.ok false, w.coerced (.bool true)) := by
    simp only [writeMember, on_bind, coerces, on_holding, setProperty, on_see, missing]
    rfl
  have writes : Silent (operate · r (.write .null)) w := by
    intro run run'
    simp only [operate, r, writeReference_member, on_bind, rejects]
  have deletes : Silent (operate · super .delete) w := fun _ _ => rfl
  have rejected : Rejected run w r (.write .null) := .write (congrArg Prod.fst (rejects run))
  exact ⟨reads, (undisturbed_unless_done run w r .read).2 reads (.inl rfl), writes, rejected,
    (undisturbed_unless_done run w r (.write .null)).2 writes (.inr (.inr rejected)), deletes, rfl,
    (undisturbed_unless_done run w super .delete).2 deletes (.inr (.inl ⟨_, rfl⟩))⟩

end Lvalue
