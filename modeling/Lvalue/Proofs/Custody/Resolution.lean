import Lvalue.Proofs.Custody.Access
import Lvalue.Proofs.Dispatch

/-!
# Resolution in custody

What a request is about is held while it is served, so that the handler of maps finds
it there even when it prunes, and the base of an abstract reference is held while its
name is evaluated. So the three operations are in custody if the bodies that they run
are, with those of the handlers one layer further in (`Runner.Safe`).
-/

namespace Lvalue

open Bearer Eval

instance : Bearer Visit := ⟨fun v => things v.name ++ things v.receiver ++ things v.request.value?⟩

theorem things_visit (v : Visit) :
    things v = things v.name ++ things v.receiver ++ things v.request.value? := rfl

/-- Where `k` handlers run, the functions and handlers of both runners are in custody. -/
structure Runner.Safe (C : Custodies) (k : Nat) (run run' : Runner) : Prop where
  call : Caller.Safe C k run.call run'.call
  hook : ∀ ops label body (v : Visit), Eval.Safe C ⟨k + 1, ops⟩ (Knows (things v))
    (run.hook label body v) (run'.hook label body v)

variable {C : Custodies} {k : Nat} {ops : List Reference} {ts : List Thing} {run run' : Runner}

/-! ## Handlers -/

/-- What a map has for some objects is held by it. -/
theorem World.mem_holds_of_inheritedValue? {w : World} {m : ObjectId} {chain : List ObjectId}
    {v : Value} {t : Thing} (h : w.inheritedValue? m chain = some v) (ht : t ∈ things v) :
    t ∈ w.holds (.object m) := by
  induction chain with
  | nil =>
    obtain rfl := Option.some.inj h
    exact absurd ht List.not_mem_nil
  | cons o chain ih =>
    rw [inheritedValue?] at h
    split at h
    · next found =>
      obtain rfl := Option.some.inj h
      exact mem_holds_of_valueAt? found ht
    · exact ih h
    · contradiction

/-- What the handler of maps finds is held by the map that is visited, and what it enters is held by
    the visit. -/
theorem safe_serveEntry {l : Layer} (v : Visit) :
    Safe C l (Keeps (things v)) (serveEntry v) (serveEntry v) := by
  have incompatible {P : Assertion} :
      Safe C l P (serveEntry.incompatible v) (serveEntry.incompatible v) := .see fun _ => .raise _
  rw [serveEntry]
  cases hr : v.request with
  | read =>
    refine .see fun found => ?_
    cases found with
    | none => exact incompatible
    | some found =>
      refine .pure fun C w hw ⟨hP, is⟩ t ht => ?_
      exact C.known_of_held hw (C.known_of_kept hw (hP _ (by simp [things_visit])))
        (World.mem_holds_of_inheritedValue? is ht)
  | write value =>
    refine .see fun set? => ?_
    cases set? with
    | none => exact incompatible
    | some w' =>
      refine .of_each (fun _ => nofun) fun C w hw ⟨hP, is⟩ =>
        ⟨?_, fun _ e => Except.ok.inj e ▸ nofun⟩
      -- The map lets go of its dead entries first. Its name, the receiver and the value are held
      -- by the visit meanwhile.
      rw [things_visit, hr, Request.value?, things_some, keeps_append, keeps_append] at hP
      exact C.setEntry (k := .object v.receiver) hw (hP.1.1 _ (by simp)) hP.1.2 hP.2 is
  | delete =>
    refine .see fun old => ?_
    cases old with
    | none => exact incompatible
    | some old =>
      refine .of_each (fun _ => nofun) fun C w hw ⟨hP, is⟩ =>
        ⟨?_, fun _ e => Except.ok.inj e ▸ nofun⟩
      change C.order l ((w.deleteEntry v.name (.object v.receiver)).getD w)
      cases e : w.deleteEntry v.name (.object v.receiver) with
      | none => exact hw
      | some w' =>
        exact C.deleteEntry hw (C.known_of_kept hw (hP _ (by simp [things_visit]))) e

/-- The body of a scripted hook may do anything that bodies do; what serves by itself does no more
    than look and file. -/
theorem safe_serve (h : Runner.Safe C k run run') (handler : Handler) (v : Visit) :
    Safe C ⟨k + 1, ops⟩ (Keeps (things v)) (serve run handler v) (serve run' handler v) := by
  unfold serve
  cases handler.service with
  | scripted hooks =>
    dsimp only
    cases hooks.on v.request.operation with
    | some body => exact (h.hook ops handler.label body v).kept (List.Subset.refl _)
    | none => exact .stuck
  | itself => exact .pure fun C w hw hP => hP.knows hw (by simp [things_visit])
  | entries => exact safe_serveEntry v
  | inert => exact .stuck

/-- At most one candidate serves, and so it does in custody. -/
theorem safe_serveFirst (h : Runner.Safe C k run run') (v : Visit) (candidates : List Handler) :
    Safe C ⟨k + 1, ops⟩ (Keeps (things v)) (serveFirst run v candidates)
      (serveFirst run' v candidates) := by
  rw [serveFirst_eq, serveFirst_eq]
  split
  · exact .map (.mono (safe_serve h _ v) (fun _ _ _ => id) fun a _ _ _ => by simp)
  · exact .pure fun _ _ _ _ => nofun

/-- Handlers run one layer further in. That layer is left however they end. -/
theorem safe_dispatch (h : Runner.Safe C k run run') (v : Visit) :
    Safe C ⟨k, ops⟩ (Keeps (things v)) (dispatch run v) (dispatch run' v) := by
  refine .see fun limit => .see fun depth => ?_
  split
  · exact .raise _
  · next room =>
    refine .see fun candidates => .bind (Q := fun a => Knows (things a))
      (.around (safe_serveFirst h v candidates) (fun C w hw hP => ⟨C.enter hw ?_, ?_⟩)
        (fun C w hw => C.leave hw) fun a C w _ hQ => ?_) fun result => ?_
    · -- The depth was seen to be below the limit.
      obtain ⟨⟨⟨-, rfl⟩, rfl⟩, -⟩ := hP
      exact UInt32.not_le.1 room
    · exact fun t ht => C.kept_congr (w := w) rfl rfl (hP.1.1.1 t ht)
    · exact fun t ht => C.known_congr (w := w) rfl rfl (hQ t ht)
    · cases result with
      | some result => exact .pure fun C w _ hQ => by simpa using hQ
      | none => exact .see fun _ => .raise _

/-! ## References -/

/-- The object that a base is taken for is known, and so is all that was known before. -/
theorem triple_coerceBase {op : Operation} {base : Value} {name : Prose}
    (hbase : things base ⊆ ts) :
    Triple C ⟨k, ops⟩ (Knows ts) (coerceBase op base name) (coerceBase op base name)
      fun o => Knows (things o ++ ts) := by
  rw [coerceBase]
  split
  · exact .see fun _ => .raise _
  · exact triple_toObject hbase

/-- The name, the receiver and the value are held as long as the request is served. -/
theorem safe_resolveAbstract (h : Runner.Safe C k run run') (request : Request) (base : Value)
    (name : ObjectId) :
    Safe C ⟨k, ops⟩ (Knows (things base ++ things name ++ things request.value?))
      (resolveAbstract run request base name) (resolveAbstract run' request base name) := by
  refine .see fun description => .bind (.pre (triple_coerceBase (by simp)) fun _ _ _ hP => hP.1)
    fun receiver => Safe.holding ((safe_dispatch h _).pre fun C w _ hP => ?_) fun C w _ hP => ?_
  · simp only [things_visit, things_cons, things_append, things_toList, keeps_append] at hP ⊢
    simp_all
  · simp only [things_cons, things_append, things_toList, knows_append] at hP ⊢
    simp_all

theorem triple_liftFault {α β : Type} {l : Layer} {P : Assertion} {R : β → Assertion}
    {a : Except (Fault Value) α} {f f' : α → Eval β}
    (h : ∀ b, a = .ok b → Triple C l P (f b) (f' b) R) :
    Triple C l P (liftFault a >>= f) (liftFault a >>= f') R := by
  cases a with
  | error e => exact .fails (by nofun) (fun _ => rfl) fun _ => rfl
  | ok b => exact h b rfl

theorem safe_readReference (h : Runner.Safe C k run run') (r : Reference) :
    Safe C ⟨k, ops⟩ (Knows (things r)) (readReference run r) (readReference run' r) := by
  cases r with
  | value v => exact .pure fun C w _ hP => by simpa using hP
  | binding s x strict =>
    cases s with
    | none => exact .raise _
    | some s =>
      refine .see fun read => ?_
      cases read with
      | error f => exact .fault f
      | ok v => exact .pure fun C w hw ⟨hP, read⟩ => C.known_read hw (hP _ (by simp)) read
  | member base key this strict =>
    refine .bind (triple_coerceBase (by simp)) fun o =>
      Safe.holding ((safe_getProperty h.call o key _).kept ?_) fun C w _ hP => by simpa using hP
    cases this <;> simp
  | abstractMember base name strict =>
    exact (safe_resolveAbstract h _ _ _).pre fun C w _ hP => by simpa [Request.value?] using hP

theorem safe_writeReference (h : Runner.Safe C k run run') (r : Reference) (v : Value) :
    Safe C ⟨k, ops⟩ (Knows (things r ++ things v)) (writeReference run r v)
      (writeReference run' r v) := by
  have done {P : Assertion} {l : Layer} {a : Unit} : Safe C l P (pure a) (pure a) :=
    .pure fun _ _ _ _ => nofun
  cases r with
  | value => exact .raise _
  | binding s x strict =>
    cases s with
    | none =>
      cases strict with
      | true => exact .raise _
      | false =>
        exact .change fun C w hw hP => C.createGlobal hw
          (C.known_of_name hw (World.named_globalScope _)) (by simpa using hP)
    | some s =>
      refine .see fun written => triple_liftFault fun scopes e => .change fun C w hw hP => ?_
      obtain ⟨hP, is⟩ := hP
      rw [things_binding, things_some, things_scopeId, knows_append, knows_cons] at hP
      exact C.write hw hP.1.1 hP.2 (is.trans e)
  | member base key this strict =>
    refine .bind (triple_coerceBase (by simp)) fun o => .bind (Safe.holding
      ((safe_setProperty h.call o key v _).kept ?_) fun C w _ hP => ?_) fun accepted => ?_
    · cases this <;> simp
    · simp only [things_member, things_cons, things_toList, things_object, things_objectId,
        knows_append] at hP ⊢
      simp_all
    · cases accepted <;> cases strict
      case false.true => exact .raise _
      all_goals exact done
  | abstractMember base name strict =>
    exact .bind ((safe_resolveAbstract h _ _ _).pre fun C w _ hP => by
      simpa [Request.value?] using hP) fun _ => done

theorem safe_deleteReference (h : Runner.Safe C k run run') (r : Reference) :
    Safe C ⟨k, ops⟩ (Knows (things r)) (deleteReference run r) (deleteReference run' r) := by
  have done {P : Assertion} {l : Layer} {a : Bool} : Safe C l P (pure a) (pure a) :=
    .pure fun _ _ _ _ => nofun
  cases r with
  | value => exact done
  | binding s x strict =>
    cases s with
    | none => exact done
    | some s =>
      exact .see fun _ => .bind (.change fun C w hw hP => C.deleteBinding hw (hP.1 _ (by simp)))
        fun _ => done
  | member base key this strict =>
    simp only [deleteReference]
    split
    · exact .raise _
    · refine .bind (triple_coerceBase (by simp)) fun o => .bind
        ((safe_deleteProperty o key).pre fun C w _ hP => (knows_append.1 hP).1) fun released => ?_
      cases released <;> cases strict
      case false.true => exact .raise _
      all_goals exact done
  | abstractMember base name strict =>
    exact .bind ((safe_resolveAbstract h _ _ _).pre fun C w _ hP => by
      simpa [Request.value?] using hP) fun _ => done

/-- All three operations at once. -/
theorem safe_operate (h : Runner.Safe C k run run') (r : Reference) (request : Request) :
    Safe C ⟨k, ops⟩ (Knows (things r ++ things request.value?)) (operate run r request)
      (operate run' r request) := by
  cases request with
  | read => exact (safe_readReference h r).pre fun C w _ hP => (knows_append.1 hP).1
  | write v =>
    exact .bind ((safe_writeReference h r v).pre fun C w _ hP => by
      simpa [Request.value?] using hP) fun _ => .pure fun _ _ _ _ => nofun
  | delete =>
    exact .bind ((safe_deleteReference h r).pre fun C w _ hP => (knows_append.1 hP).1)
      fun _ => .pure fun _ _ _ _ => nofun

/-- An abstract reference is built of an object as the name and of any base there is. -/
theorem safe_abstractReference {l : Layer} (base name : Value) (strict : Bool) :
    Safe C l (Knows (things base ++ things name)) (abstractReference base name strict)
      (abstractReference base name strict) := by
  unfold abstractReference
  split
  · exact .see fun _ => .raise _
  · cases name
    case object => exact .pure fun C w _ hP => by simpa using hP
    all_goals exact .see fun _ => .raise _

/-- The base is held while the name is evaluated, whatever that does. -/
theorem safe_evaluateAbstract (h : Runner.Safe C k run run')
    {base base' name name' : Eval Reference}
    (hbase : ∀ ops, Safe C ⟨k, ops⟩ (Keeps []) base base')
    (hname : ∀ ops, Safe C ⟨k, ops⟩ (Keeps []) name name') (strict : Bool) :
    Safe C ⟨k, ops⟩ (Keeps []) (evaluateAbstract run base name strict)
      (evaluateAbstract run' base' name' strict) := by
  refine .bind (hbase _) fun baseRef => Safe.holdingAll ?_ fun C w _ hP => by simpa using hP
  refine .bind ((safe_readReference h baseRef).kept (by simp)) fun baseValue =>
    Safe.holding ?_ fun C w _ hP => by simpa using hP
  -- What is in hand by now, the value of the base, is an operand while the other side runs, and so
  -- it is known afterwards.
  refine .bind ((hname _).pre fun _ _ _ _ => nofun) fun nameRef => .bind (Safe.holdingAll
    ((safe_readReference h nameRef).kept (by simp)) fun C w _ hP => by simpa using hP)
    fun nameValue => .operands ((safe_abstractReference _ _ _).pre fun C w _ hP => ?_)
  simp only [things_append, List.map_cons, things_cons, things_value, knows_append] at hP ⊢
  exact ⟨hP.2.1.1, hP.1⟩

end Lvalue
