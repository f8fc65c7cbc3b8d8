import Lvalue.Proofs.Custody.Access
import Lvalue.Session.Command

/-!
# Commands in custody

A command fetches what it names, and then makes a change or two.
So every command is in custody if the functions that it runs are
(`safe_runCommand`).
-/

namespace Lvalue

open Bearer Eval

/-! ## What commands name -/

namespace World

variable {w : World}

/-- What a register has in it is known by name, be it a register of the running body, one of the
    session, or an intrinsic. -/
theorem named_of_value? {register : String} {v : Value}
    (h : w.handles.value? register = some v) : things v ⊆ w.named := by
  intro t ht
  rw [Handles.value?] at h
  split at h
  · -- A register of the running body, where one that was never set is undefined.
    refine List.mem_append_right _ (mem_things_handles.2 (.inr (.inl ?_)))
    cases hv : w.handles.frames.head?.bind (·.get? register) with
    | none =>
      obtain rfl : Value.undefined = v := by simpa [hv] using h
      exact absurd ht List.not_mem_nil
    | some v' =>
      obtain rfl : v' = v := by simpa [hv] using h
      obtain ⟨frame, head, hv⟩ := Option.bind_eq_some_iff.1 hv
      exact ⟨frame, List.mem_of_head? head, things_of_get? hv ht⟩
  · split at h
    · next i _ =>
      obtain rfl := Option.some.inj h
      obtain rfl := List.mem_singleton.1 ht
      exact w.named_intrinsic i
    · exact List.mem_append_right _ (mem_things_handles.2 (.inl (things_of_get? h ht)))

theorem named_of_scope? {name : String} {s : ScopeId} (h : w.handles.scope? name = some s) :
    things s ⊆ w.named := by
  intro t ht
  obtain rfl := List.mem_singleton.1 ht
  rw [Handles.scope?] at h
  split at h
  · obtain rfl := Option.some.inj h
    exact w.named_globalScope
  · exact List.mem_append_right _
      (mem_things_handles.2 (.inr (.inr (.inr (.inl (things_of_get? h (by simp)))))))

end World

/-- The value of an expression is plain, or is in a register. -/
theorem fetches_eval (e : Expr) : Fetches [] e.eval := by
  cases e
  case register => exact .see fun _ _ => World.named_of_value?
  all_goals exact .pure (List.Subset.refl _)

/-- An expression for an object fetches it, or nothing happens. -/
theorem fetches_object (e : Expr) : Fetches [] e.object := by
  refine (fetches_eval e).bind fun v => ?_
  cases v
  case object o => exact .pure (by simp)
  all_goals exact .stuck

theorem fetches_objectOption (e : Option Expr) : Fetches [] (Expr.objectOption e) := by
  cases e with
  | none => exact .pure (List.Subset.refl _)
  | some e => exact (fetches_object e).bind fun _ => .pure (by simp)

/-- Keys hold nothing. -/
theorem fetches_key (e : Expr) : Fetches [] e.key := by
  refine (fetches_eval e).bind fun v => ?_
  cases v
  case text | symbol => exact .pure (List.nil_subset _)
  all_goals exact .stuck

theorem fetches_atom (e : Expr) : Fetches [] e.atom := by
  refine (fetches_eval e).bind fun v => ?_
  cases v
  case text => exact .pure (List.nil_subset _)
  all_goals exact .stuck

/-- Without an expression, the value is the one that is given instead. -/
theorem fetches_evalOr (v : Value) (e : Option Expr) : Fetches (things v) (Expr.evalOr v e) := by
  cases e with
  | none => exact .pure (List.Subset.refl _)
  | some e => exact (fetches_eval e).mono (List.nil_subset _)

theorem fetches_scopeNamed (name : String) : Fetches [] (scopeNamed name) :=
  .see fun _ _ => World.named_of_scope?

theorem fetches_property (p : PropertyExpr) : Fetches [] p.eval := by
  cases p with
  | data v => exact (fetches_eval v).bind fun _ => .pure (by simp)
  | accessor getter setter =>
    exact (fetches_objectOption getter).bind fun _ =>
      ((fetches_objectOption setter).mono (List.nil_subset _)).bind fun _ => .pure (by simp)

theorem fetches_declaration (d : Declaration) : Fetches [] d.eval := by
  cases d
  case var v => exact (fetches_eval v).bind fun v => .pure (List.subset_append_left ..)
  all_goals exact .pure (List.nil_subset _)

/-- A fault shows a value, but does not hold it. -/
theorem fetches_faultEval (f : Fault Expr) : Fetches [] f.eval := by
  cases f
  case thrown v => exact (fetches_eval v).bind fun _ => .pure (List.nil_subset _)
  all_goals exact .pure (List.nil_subset _)

/-- The prototype of a new object is an intrinsic, an object that is fetched, or none. -/
theorem fetches_parent (kind : Kind) (p : Parent) : Fetches [] (p.eval kind) := by
  cases p
  case standard =>
    refine .named fun w => ?_
    cases Intrinsic.ofKind kind with
    | none => exact List.nil_subset _
    | some i => simpa using w.named_intrinsic i
  case none => exact .pure (List.nil_subset _)
  case object e => exact (fetches_object e).bind fun _ => .pure (by simp)

/-! ## What handles take in -/

section

variable (h : Handles)

/-- Where only the registers of the running body change, only these bring anything in. -/
theorem things_onFrame (f : Table String Value → Table String Value) (ts : List Thing)
    (hf : ∀ frame, things (f frame).values ⊆ ts ++ things frame.values) :
    things (h.onFrame f) ⊆ ts ++ things h := by
  intro t ht
  rw [List.mem_append]
  rw [mem_things_handles] at ht ⊢
  rcases ht with ht | ⟨frame, mem, ht⟩ | ht
  · exact .inr (.inl ht)
  · -- The first frame is the one that has changed; there may have been none before.
    rcases List.mem_cons.1 mem with rfl | mem
    · refine (List.mem_append.1 (hf _ ht)).imp_right fun ht => .inr (.inl ?_)
      cases head : h.frames.head? with
      | none =>
        simp [head] at ht
      | some frame => exact ⟨frame, List.mem_of_head? head, by simpa [head] using ht⟩
    · exact .inr (.inr (.inl ⟨frame, List.mem_of_mem_tail mem, ht⟩))
  · exact .inr (.inr (.inr ht))

theorem things_assign (register : String) (v : Value) :
    things (h.assign register v) ⊆ things v ++ things h := by
  rw [Handles.assign]
  split
  · exact things_onFrame h _ _ fun frame => things_insert register v
  · intro t ht
    rw [List.mem_append]
    rw [mem_things_handles] at ht ⊢
    have := @things_insert _ _ _ _ h.registers register v t
    grind

theorem things_forget (register : String) : things (h.forget register) ⊆ things h := by
  rw [Handles.forget]
  split
  · exact things_onFrame h _ [] fun frame => things_filter _
  · intro t ht
    rw [mem_things_handles] at ht ⊢
    exact ht.imp_left fun ht => things_filter _ ht

theorem things_forgetAll (registers : List String) :
    things (registers.foldl Handles.forget h) ⊆ things h := by
  induction registers generalizing h with
  | nil => exact List.Subset.refl _
  | cons register rest ih => exact List.Subset.trans (ih _) (things_forget h register)

/-- Without some registers, the weak handles are as they were. -/
theorem weak_forgetAll (registers : List String) :
    (registers.foldl Handles.forget h).weak = h.weak := by
  induction registers generalizing h with
  | nil => rfl
  | cons register rest ih =>
    refine (ih _).trans ?_
    rw [Handles.forget]
    split <;> rfl

/-- Registers have nothing to do with references. -/
theorem references_assign (register : String) (v : Value) :
    (h.assign register v).references = h.references := by
  rw [Handles.assign]
  split <;> rfl

theorem references_forgetAll (registers : List String) :
    (registers.foldl Handles.forget h).references = h.references := by
  induction registers generalizing h with
  | nil => rfl
  | cons register rest ih =>
    refine (ih _).trans ?_
    rw [Handles.forget]
    split <;> rfl

/-- Registers are left whatever the operands are. -/
theorem operands_forgetAll (registers : List String) (ops : List Reference) :
    registers.foldl Handles.forget { h with operands := ops } =
      { registers.foldl Handles.forget h with operands := ops } := by
  induction registers generalizing h with
  | nil => rfl
  | cons register rest ih =>
    rw [List.foldl_cons, List.foldl_cons, ← ih]
    congr 1
    simp only [Handles.forget]
    split <;> rfl

end

/-! ## Parts of commands -/

section

variable {C : Custodies} {l : Layer} {ts : List Thing}

/-- Handles may change, whatever the operands are, as far as they take in what is known. -/
theorem triple_onHandles {f : Handles → Handles}
    (frame : ∀ h ops, f { h with operands := ops } = { f h with operands := ops })
    (held : ∀ h, things (f h) ⊆ ts ++ things h)
    (weak : ∀ h, ∀ o ∈ (f h).weak.values, o ∈ h.weak.values ∨ .object o ∈ ts)
    (references : ∀ w : World, w.Acquires { w with handles := f w.handles }) :
    Triple C l (Knows ts) (onHandles f) (onHandles f) fun _ => Knows ts := by
  refine .of_each (fun _ => nofun) fun C w hw hP => ?_
  have among : ChangeAmong (C.known w) w { w with handles := f w.handles } := by
    -- The change leaves the operands alone, so that they may be left out of what is looked at.
    have operands := congrArg Handles.operands (frame w.handles w.handles.operands)
    refine C.amongHandles hw _ operands (fun t ht => ?_)
      (fun o ho => (weak _ o ho).imp_right (hP _)) (references w)
    rw [← frame] at ht
    exact (List.mem_append.1 (held _ ht)).symm.imp_right (hP t)
  exact ⟨(C.change hw among).1, fun _ _ t ht => (C.change hw among).2 t (hP t ht)⟩

/-- Handles may let go of what they hold, whatever is known. -/
theorem triple_letGo {f : Handles → Handles}
    (frame : ∀ h ops, f { h with operands := ops } = { f h with operands := ops })
    (held : ∀ h, things (f h) ⊆ things h) (weak : ∀ h, (f h).weak = h.weak)
    (references : ∀ w : World, w.Acquires { w with handles := f w.handles }) (P : Assertion) :
    Triple C l P (onHandles f) (onHandles f) fun _ => Knows [] := by
  refine .pre (triple_onHandles frame held (fun h o ho => .inl ?_) references) fun _ _ _ _ => nofun
  rwa [weak] at ho

/-- A value that is put into a register, if into any, is still known afterwards. -/
theorem triple_keep (into : Option String) (v : Value) :
    Triple C l (Knows (things v)) (keep into v) (keep into v) fun _ => Knows (things v) := by
  cases into with
  | none => exact .pure fun _ _ _ => id
  | some register =>
    refine triple_onHandles (f := fun h => h.assign register v) ?_ ?_ ?_ ?_
    · intro h ops
      simp only [Handles.assign]
      split <;> rfl
    · exact fun h => things_assign h register v
    · intro h o
      rw [Handles.assign]
      split <;> exact .inl
    · exact fun w => .of_eq (references_assign w.handles register v)

theorem safe_answerValue (into : Option String) (v : Value) :
    Safe C l (Knows (things v)) (answerValue into v) (answerValue into v) :=
  .bind (triple_keep into v) fun _ => .see fun _ => .answer _

/-- A change among known things is made whatever the answer to it is. -/
theorem safe_answerChange (allowed : World → Bool) {change : World → World} {P : Assertion}
    (h : ∀ (C : Custody) w, C.order l w → P C w → ChangeAmong (C.known w) w (change w)) :
    Safe C l P (answerChange allowed change) (answerChange allowed change) :=
  .see fun _ => .bind (.change fun C w hw hP => h C w hw hP.1) fun _ => .answer _

theorem safe_answerScope (into : String) (s : ScopeId) :
    Safe C l (Knows (things s)) (answerScope into s) (answerScope into s) := by
  refine .bind (triple_onHandles (fun _ _ => rfl) (fun h t ht => ?_) (fun _ _ => .inl)
    fun _ => .of_eq rfl) fun _ => .see_answer _
  rw [List.mem_append]
  rw [mem_things_handles] at ht ⊢
  have := @things_insert _ _ _ _ h.scopes into s t
  grind

/-- A new object of known things is known. -/
theorem safe_alloc {new : Object} {P : Assertion}
    (held : ∀ (C : Custody) w, C.order l w → P C w → Knows (things new) C w)
    (weak : new.kind.weakKeys = []) : Safe C l P (Eval.alloc new) (Eval.alloc new) :=
  (Triple.alloc (fun _ _ _ => id) weak).mono held fun _ _ _ _ hQ => (knows_append.1 hQ).1

theorem things_new (kind : Kind) (prototype : Option ObjectId) :
    things ({ kind, prototype } : Object) = things kind ++ things prototype := by
  cases prototype <;> simp [things, Object.objects]

/-- A new object is of a kind that holds what is fetched for it. No kind starts with entries. -/
theorem triple_blueprint (b : Blueprint) :
    Triple C l (Keeps ts) b.eval b.eval fun kind C w =>
      Keeps (things kind ++ ts) C w ∧ kind.weakKeys = [] := by
  cases b
  case wrapper v =>
    refine .fetch ((fetches_eval v).mono (List.nil_subset _)) fun v => ?_
    refine .pure fun C w _ hP => ⟨?_, rfl⟩
    simpa [things, Kind.objects] using hP
  all_goals exact .pure fun _ _ _ hP => ⟨hP, rfl⟩

/-- Each object of the chain inherits from one that is known because it was made before. -/
theorem safe_allocChain (root : ObjectId) (n : Nat) :
    Safe C l (Knows (things root)) (allocChain root n) (allocChain root n) := by
  induction n with
  | zero => exact .pure fun _ _ _ => id
  | succ n ih =>
    refine .bind ih fun o => safe_alloc (fun C w _ hP => ?_) rfl
    rwa [things_new, things_some]

/-- A new scope is known. -/
theorem triple_allocScope {parent : Option ScopeId} (hp : things parent ⊆ ts) :
    Triple C l (Knows ts) (nestScopes.allocScope parent) (nestScopes.allocScope parent)
      fun s => Knows (things s) := by
  refine .of_each (fun _ => nofun) fun C w hw hP => ?_
  have held : Knows (things parent) C w := fun t ht => hP t (hp ht)
  refine ⟨(C.change hw (.allocScope held)).1, fun s e => ?_⟩
  obtain rfl : ⟨w.scopes.next⟩ = s := Except.ok.inj e
  exact List.forall_mem_singleton.2 (C.known_allocScope hw held)

/-- Each of the scopes is in one that is known because it was made before. -/
theorem safe_nestScopes (parent : ScopeId) (n : Nat) :
    Safe C l (Knows (things parent)) (nestScopes parent n) (nestScopes parent n) := by
  induction n with
  | zero => exact .pure fun _ _ _ => id
  | succ n ih => exact .bind ih fun s => triple_allocScope (by simp)

/-- A world in order takes the place of another one, or nothing happens. -/
theorem safe_become {f : World → Option World}
    (h : ∀ (C : Custody) w w', C.order l w → Keeps ts C w → f w = some w' → C.order l w')
    (a : Answer) :
    Safe C l (Keeps ts) (do set (← demand (← see f)); return a)
      (do set (← demand (← see f)); return a) := by
  -- Whether there is another world is seen first, so that both questions are about `f w`.
  refine .of_each (fun w => ?_) fun C w hw hP => ?_ <;> rw [on_bind, on_see] <;> dsimp only
  · cases f w <;> nofun
  · cases e : f w with
    | none => exact ⟨hw, nofun⟩
    | some w' => exact ⟨h C w w' hw hP e, fun _ _ => nofun⟩

end

/-! ## Commands -/

/-- Where `k` handlers run, the command is in custody if the functions that it runs are. -/
def Command.Safe (C : Custodies) (k : Nat) (c : Command) : Prop :=
  ∀ {run run' : Caller}, Caller.Safe C k run run' → ∀ ops,
    Eval.Safe C ⟨k, ops⟩ (Keeps []) (runCommand run c) (runCommand run' c)

namespace Command

variable {C : Custodies} {k : Nat}

/-! ### Values -/

/-- A description may be asked for while the object is being changed, which is told first. -/
theorem safe_describe (v : Expr) (busy : Bool) : (describe v busy).Safe C k := by
  refine fun _ _ => .fetch (fetches_eval v) fun v => ?_
  cases v
  case object o => exact .bind (.change fun _ w _ _ => .journal w _) fun _ => .see_answer _
  all_goals exact .see_answer _

/-- Only functions have a description of their own. -/
theorem safe_describeFunction (fn : Expr) : (describeFunction fn).Safe C k := by
  refine fun _ _ => .fetch (fetches_object fn) fun _ => .see fun kind => ?_
  rcases kind with _ | _ | f | _ | _ | _
  case some.function => exact .answer _
  all_goals exact .stuck

/-! ### Objects -/

/-- A new object holds what its blueprint and its prototype are made of. -/
theorem safe_new (blueprint : Blueprint) (parent : Parent) (into : Option String) :
    (new blueprint parent into).Safe C k := by
  refine fun _ _ => .bind (triple_blueprint blueprint) fun kind => .assume fun weak =>
    .fetch (fetches_parent kind parent) fun prototype => ?_
  exact .bind (safe_alloc (fun C w hw hP => hP.knows hw (by simp [things_new])) weak) fun o =>
    safe_answerValue into (.object o)

/-- A new function holds nothing but its prototype. -/
theorem safe_function (name : String) (body : Script Command) (into : Option String) :
    (function name body into).Safe C k := by
  refine fun _ _ => .bind (safe_alloc (fun C w hw _ => ?_) rfl) fun o =>
    safe_answerValue into (.object o)
  exact List.forall_mem_singleton.2 (C.known_intrinsic hw .function)

/-- The wrapper that is made for a value is known as a new object. -/
theorem safe_toObject (v : Expr) (into : Option String) : (toObject v into).Safe C k :=
  fun _ _ => .fetch (fetches_eval v) fun v =>
    .bind (.pre (triple_toObject (List.Subset.refl _)) fun _ _ hw hP => hP.knows hw (by simp))
    fun o => (safe_answerValue into (.object o)).pre fun _ _ _ hQ => (knows_append.1 hQ).1

/-- The object that is defined on and the new property are both kept. -/
theorem safe_define (obj key : Expr) (property : PropertyExpr) :
    (define obj key property).Safe C k :=
  fun _ _ => .fetch (fetches_object obj) fun _ => .fetch (fetches_key key) fun k =>
    .fetch (fetches_property property) fun _ => safe_answerChange _ fun _ _ hw hP =>
    .define k (hP.known hw (by simp)) (hP.knows hw (by simp))

/-- While a getter runs, the object and the receiver are held. -/
theorem safe_get (obj key : Expr) (receiver : Option Expr) (into : Option String) :
    (get obj key receiver into).Safe C k := by
  refine fun h _ => .fetch (fetches_object obj) fun o => .fetch (fetches_key key) fun k =>
    .fetch_from ((fetches_evalOr _ receiver).mono (by simp)) fun receiver => ?_
  exact .bind (Safe.holding ((safe_getProperty h o k receiver).kept (by simp))
    fun _ _ hw hP => hP.knows hw (by simp)) fun _ => safe_answerValue into _

/-- While a setter runs, the value is held too. -/
theorem safe_set (obj key v : Expr) (receiver : Option Expr) :
    (set obj key v receiver).Safe C k := by
  refine fun h _ => .fetch (fetches_object obj) fun o => .fetch (fetches_key key) fun k =>
    .fetch (fetches_eval v) fun v =>
    .fetch_from ((fetches_evalOr _ receiver).mono (by simp)) fun receiver => ?_
  exact .bind (Safe.holding ((safe_setProperty h o k v receiver).kept (by simp))
    fun _ _ hw hP => hP.knows hw (by simp)) fun _ => .answer _

/-- While a function runs, it is held with all that it is called with. -/
theorem safe_call (fn : Expr) (this : Option Expr) (args : List Expr) (into : Option String) :
    (call fn this args into).Safe C k := by
  refine fun h _ => .fetch (fetches_object fn) fun f => .bind (.tell _) fun _ =>
    .fetch_from ((fetches_evalOr _ this).mono (List.nil_subset _)) fun this =>
    .fetch (Fetches.list_mapM fetches_eval args) fun args => ?_
  exact .bind (Safe.holding ((Lvalue.safe_call h f this args).kept (by simp))
    fun _ _ hw hP => hP.knows hw (by simp)) fun _ => safe_answerValue into _

theorem safe_setPrototype (obj : Expr) (prototype : Option Expr) :
    (setPrototype obj prototype).Safe C k :=
  fun _ _ => .fetch (fetches_object obj) fun _ => .fetch (fetches_objectOption prototype) fun _ =>
    safe_answerChange _ fun _ _ hw hP => .setPrototype (hP.known hw (by simp))
      (hP.knows hw (by simp))

/-! ### Maps -/

/-- What is found in a map is held by it. -/
theorem safe_mapGet (map key : Expr) (into : Option String) : (mapGet map key into).Safe C k := by
  refine fun _ _ => .fetch (fetches_object map) fun m => .fetch (fetches_eval key) fun k =>
    .see fun _ => .demand fun found e => ?_
  cases found with
  | none => exact .see_answer _
  | some v =>
    refine .bind ((triple_keep into v).pre fun C w hw ⟨hP, is⟩ t ht => ?_) fun _ => .see_answer _
    exact C.known_of_held hw (hP.known hw (t := .object m) (by simp))
      (World.mem_holds_of_valueAt? (is.trans e) ht)

/-- Map, key and value are kept while dead entries go. -/
theorem safe_mapSet (map key v : Expr) : (mapSet map key v).Safe C k :=
  fun _ _ => .fetch (fetches_object map) fun m => .fetch (fetches_eval key) fun k =>
    .fetch (fetches_eval v) fun v => safe_become (fun C _ _ hw hP => C.setEntry hw
      (hP (.object m) (by simp)) (fun t ht => hP t (by simp [ht]))
      fun t ht => hP t (by simp [ht])) _

theorem safe_mapDelete (map key : Expr) : (mapDelete map key).Safe C k := by
  refine fun _ _ => .fetch (fetches_object map) fun m => .fetch (fetches_eval key) fun k =>
    .see fun _ => .demand fun _ _ => .pre (safe_become (fun C _ _ hw hP => ?_) _)
    fun _ _ _ hP => hP.1
  exact C.deleteEntry hw (hP.known hw (t := .object m) (by simp))

/-- Only for a weak map, the world settles before its entries are counted. -/
theorem safe_mapSize (map : Expr) : (mapSize map).Safe C k := by
  refine fun _ _ => .fetch (fetches_object map) fun _ => .see fun kind => ?_
  rcases kind with _ | _ | _ | _ | _ | _
  case some.map => exact .answer _
  case some.weakMap => exact .bind .settle fun _ => .see fun _ => .answer _
  all_goals exact .stuck

/-- A map stays where it is while its dead entries go, as it is named. -/
theorem safe_mapPrune (map : Expr) : (mapPrune map).Safe C k :=
  fun _ _ => .fetch (fetches_object map) fun m => .of_each (fun _ => nofun) fun C _ hw hP =>
    ⟨(C.prune hw (hP (.object m) (by simp))).1, fun _ _ => nofun⟩

/-! ### Lifetimes -/

/-- A weak handle is given to an object that is known at the time. -/
theorem safe_downgrade (obj : Expr) (into : String) : (downgrade obj into).Safe C k := by
  refine fun _ _ => .fetch (fetches_object obj) fun o => .bind (.pre (triple_onHandles
    (fun _ _ => rfl) (fun h => List.subset_append_right _ _) (fun h o' ho' => ?_)
    fun _ => .of_eq rfl) fun _ _ hw hP => hP.knows hw (List.Subset.refl _)) fun _ => .answer _
  rcases Table.mem_values_of_insert ho' with rfl | mem
  · exact .inr (by simp)
  · exact .inl mem

/-- To let go of registers lets nothing in. -/
theorem safe_dropRegisters (names : List String) : (dropRegisters names).Safe C k :=
  fun _ _ => .bind (triple_letGo (fun h => operands_forgetAll h names)
    (fun h => things_forgetAll h names) (fun h => weak_forgetAll h names)
    (fun w => .of_eq (references_forgetAll w.handles names)) _) fun _ => .answer _

@[inherit_doc safe_dropRegisters]
theorem safe_dropReference (name : String) : (dropReference name).Safe C k := by
  refine fun _ _ => .bind (triple_letGo (fun _ _ => by rfl) (fun h t ht => ?_) (fun _ => by rfl)
    (fun w name' r known => .inl ?_) _) fun _ => .answer _
  · rw [mem_things_handles] at *
    have := @things_filter _ _ _ h.references (fun k' _ => decide (k' ≠ name)) t
    grind [Table.erase]
  · -- A reference that is left has been there before.
    have left : (w.handles.references.erase name).get? name' = some r := known
    rw [Table.get?_erase] at left
    split at left
    · contradiction
    · exact left

theorem safe_dropScope (name : String) : (dropScope name).Safe C k := by
  refine fun _ _ => .bind (triple_letGo (fun _ _ => by rfl) (fun h t ht => ?_) (fun _ => by rfl)
    (fun _ => .of_eq rfl) _) fun _ => .answer _
  rw [mem_things_handles] at *
  have := @things_filter _ _ _ h.scopes (fun k' _ => decide (k' ≠ name)) t
  grind [Table.erase]

/-! ### Scopes -/

theorem safe_newScope (parent : Option String) (into : String) : (newScope parent into).Safe C k :=
  fun _ _ => .fetch (Fetches.option_mapM fetches_scopeNamed parent) fun parent =>
    .bind ((triple_allocScope (List.Subset.refl _)).pre fun _ _ hw hP => hP.knows hw (by simp))
    fun _ => safe_answerScope into _

theorem safe_declare (scope : String) (name : Expr) (declaration : Declaration) :
    (declare scope name declaration).Safe C k :=
  fun _ _ => .fetch (fetches_scopeNamed scope) fun _ => .fetch (fetches_atom name) fun _ =>
    .fetch (fetches_declaration declaration) fun _ => .bind (.change fun C _ hw hP =>
      C.declare hw (hP.known hw (by simp)) (hP.knows hw (by simp))) fun _ => .answer _

theorem safe_initialise (scope : String) (name v : Expr) : (initialise scope name v).Safe C k :=
  fun _ _ => .fetch (fetches_scopeNamed scope) fun _ => .fetch (fetches_atom name) fun _ =>
    .fetch (fetches_eval v) fun _ => safe_answerChange _ fun C _ hw hP =>
      C.initialise hw (hP.known hw (by simp)) (hP.knows hw (by simp))

/-- What a name stands for is held by the scope that binds it. -/
theorem safe_scopeGet (scope : String) (name : Expr) (strict blank : Bool)
    (into : Option String) : (scopeGet scope name strict blank into).Safe C k := by
  refine fun _ _ => .fetch (fetches_scopeNamed scope) fun s => .fetch (fetches_atom name) fun x =>
    .see fun found => ?_
  cases found with
  | error f => exact .fault f
  | ok v =>
    exact (safe_answerValue into v).pre fun C w hw ⟨hP, read⟩ =>
      C.known_read hw (hP.known hw (t := .scope s) (by simp)) read

/-- A write that fails writes nothing. -/
theorem safe_scopeSet (scope : String) (name v : Expr) (strict blank : Bool) :
    (scopeSet scope name v strict blank).Safe C k := by
  refine fun _ _ => .fetch (fetches_scopeNamed scope) fun s => .fetch (fetches_atom name) fun x =>
    .fetch (fetches_eval v) fun v => .see fun written => ?_
  cases written with
  | error f => exact .fault f
  | ok scopes =>
    exact .bind (.change fun C w hw ⟨hP, written⟩ =>
      C.write hw (hP.known hw (t := .scope s) (by simp)) (hP.knows hw (by simp)) written)
      fun _ => .answer _

theorem safe_scopeDelete (scope : String) (name : Expr) : (scopeDelete scope name).Safe C k :=
  fun _ _ => .fetch (fetches_scopeNamed scope) fun _ => .fetch (fetches_atom name) fun _ =>
    safe_answerChange _ fun C _ hw hP => C.deleteBinding hw (hP.known hw (by simp))

theorem safe_createGlobal (scope : String) (name v : Expr) :
    (createGlobal scope name v).Safe C k :=
  fun _ _ => .fetch (fetches_scopeNamed scope) fun _ => .fetch (fetches_atom name) fun _ =>
    .fetch (fetches_eval v) fun _ => .bind (.change fun C _ hw hP =>
      C.createGlobal hw (hP.known hw (by simp)) (hP.knows hw (by simp))) fun _ => .answer _

end Command

/-- Commands are in custody if the functions that they run are. -/
theorem safe_runCommand {C : Custodies} {k : Nat} {run run' : Caller} (h : Caller.Safe C k run run')
    (ops : List Reference) (c : Command) :
    Safe C ⟨k, ops⟩ (Keeps []) (runCommand run c) (runCommand run' c) := by
  cases c with
  | value v into => exact .fetch (fetches_eval v) fun v => (safe_answerValue into v).kept (by simp)
  | note v =>
    exact .fetch (fetches_eval v) fun _ => .see fun _ => .bind (.change fun _ w _ _ => .journal w _)
      fun _ => .answer _
  | newSymbol description into =>
    exact .see fun _ => .bind (.change fun _ w _ _ => .nextSymbol w _) fun _ =>
      (safe_answerValue into (.symbol _)).pre fun _ _ _ _ => nofun
  | danglingText index into => exact (safe_answerValue into _).kept (List.Subset.refl _)
  | inspect v | displayBlank v => exact .fetch (fetches_eval v) fun _ => .see_answer _
  | describe v busy => exact Command.safe_describe v busy h ops
  | describeFunction fn => exact Command.safe_describeFunction fn h ops
  | compare a b => exact .fetch (fetches_eval a) fun _ => .fetch (fetches_eval b) fun _ => .answer _
  | keyName key => exact .fetch (fetches_key key) fun _ => .answer _
  | fail cause => exact .fetch (fetches_faultEval cause) fun _ => .fault _
  | new blueprint parent into => exact Command.safe_new blueprint parent into h ops
  | newChain root n into =>
    exact .fetch (fetches_object root) fun _ =>
      .bind ((safe_allocChain _ _).kept (by simp)) fun o => safe_answerValue into (.object o)
  | function name body into => exact Command.safe_function name body into h ops
  | toObject v into => exact Command.safe_toObject v into h ops
  | define obj key property => exact Command.safe_define obj key property h ops
  | own obj key =>
    exact .fetch (fetches_object obj) fun _ => .fetch (fetches_key key) fun _ => .see_answer _
  | delete obj key =>
    exact .fetch (fetches_object obj) fun o => .fetch (fetches_key key) fun k =>
      .bind ((safe_deleteProperty o k).kept (by simp)) fun _ => .answer _
  | get obj key receiver into => exact Command.safe_get obj key receiver into h ops
  | set obj key v receiver => exact Command.safe_set obj key v receiver h ops
  | call fn this args into => exact Command.safe_call fn this args into h ops
  | setPrototype obj prototype => exact Command.safe_setPrototype obj prototype h ops
  | preventExtensions obj =>
    exact .fetch (fetches_object obj) fun o =>
      .bind (.change fun C w hw hP => .preventExtensions (hP.known hw (by simp)))
      fun _ => .see fun _ => .answer _
  | chain obj | chainLength obj | dump obj =>
    exact .fetch (fetches_object obj) fun _ => .see fun _ => .answer _
  | mapGet map key into => exact Command.safe_mapGet map key into h ops
  | mapHas map key =>
    exact .fetch (fetches_object map) fun _ => .fetch (fetches_eval key) fun _ =>
      .see fun _ => .demand fun _ _ => .answer _
  | mapSet map key v => exact Command.safe_mapSet map key v h ops
  | mapDelete map key => exact Command.safe_mapDelete map key h ops
  | mapSize map => exact Command.safe_mapSize map h ops
  | mapPrune map => exact Command.safe_mapPrune map h ops
  | downgrade obj into => exact Command.safe_downgrade obj into h ops
  | weak name => exact .see fun _ => .demand fun _ _ => .bind .settle fun _ => .see_answer _
  | dropRegisters names => exact Command.safe_dropRegisters names h ops
  | dropReference name => exact Command.safe_dropReference name h ops
  | dropScope name => exact Command.safe_dropScope name h ops
  | newScope parent into => exact Command.safe_newScope parent into h ops
  | nestScopes parent n into =>
    exact .fetch (fetches_scopeNamed parent) fun _ =>
      .bind ((safe_nestScopes _ n).kept (by simp)) fun _ => safe_answerScope into _
  | scopeInfo scope => exact .fetch (fetches_scopeNamed scope) fun _ => .see_answer _
  | declare scope name declaration => exact Command.safe_declare scope name declaration h ops
  | initialise scope name v => exact Command.safe_initialise scope name v h ops
  | binding scope name | findScope scope name =>
    exact .fetch (fetches_scopeNamed scope) fun _ => .fetch (fetches_atom name) fun _ =>
      .see_answer _
  | scopeGet scope name strict blank into =>
    exact Command.safe_scopeGet scope name strict blank into h ops
  | scopeSet scope name v strict blank =>
    exact Command.safe_scopeSet scope name v strict blank h ops
  | scopeDelete scope name => exact Command.safe_scopeDelete scope name h ops
  | createGlobal scope name v => exact Command.safe_createGlobal scope name v h ops

end Lvalue
