import Lvalue.Proofs.Behaviour
import Lvalue.Proofs.Custody.Command
import Lvalue.Proofs.Lockstep.Resolution

/-!
# Watched runs

To say that something holds *whenever* a body is running, a watch is set on the
run. Whenever a function, a handler or a single step of them starts or ends, the
watch looks at the world, and where the world is not as it should be the watch
*strikes* and puts another in its place. A run that goes the same way under a
watch as without it, whatever a strike may do, never saw the watch strike.

What the watch looks for may depend on the number of handlers that run inside
one another at the moment. The watch counts them itself, by the bodies around
it; it does not ask the world.

Every run, of whatever behaviour, is in custody, and goes so under a watch that strikes
in no world that is in order (`Behaviour.run_in_custody`). The same is said of a layered
property by itself in `run_watched`.

A watch is also a way to speak of the moments of a run: a run meets the worlds at which it
matters if a watch strikes (`Behaviour.Meets`). What every change keeps holds at the end if
it holds of any world that the run met (`holds_of_meets`), and a run that passes a world
that is in order in the way of another custody ends so (`Behaviour.ends_of_passes`). Every
step of a run is such a moment (`Behaviour.meets_step`, `Behaviour.passes_step`).
-/

namespace Lvalue

open Bearer Eval

section

variable {α : Type} {S : World → Prop} {strike : World → World}

open Classical in
/-- The world as a watch for `S` leaves it. -/
noncomputable def strikeUnless (S : World → Prop) (strike : World → World) (w : World) : World :=
  if S w then w else strike w

theorem strikeUnless_of (h : S w) : strikeUnless S strike w = w := if_pos h

/-- The evaluation with a watch for `S` that looks when it starts and when it ends. -/
noncomputable def Eval.watched (S : World → Prop) (strike : World → World) (act : Eval α) :
    Eval α :=
  between (strikeUnless S strike) (strikeUnless S strike) act

/-- A watch for `S` strikes only when the early phase is over. -/
def Phases.Unstruck (V : Phases) (S : World → Prop) : Prop := ∀ ⦃w⦄, V.early w → S w ∨ V.late w

/-- If the early phase is all that there is, a watch for it never strikes. -/
theorem Phases.Unstruck.only (V : World → Prop) : (Phases.only V).Unstruck V := fun _ hw => .inl hw

end

/-! ## Watched bodies -/

mutual

/-- Runs an action under a watch. The steps on both sides of an abstract reference are
    watched too. -/
noncomputable def watchAction (S : World → Prop) (strike : World → World) (run : Runner) :
    Action → Eval Answer
  | .refEvaluated base name strict into => watched S strike do
    answerReference into (← evaluateAbstract run
      (do Eval.tell (.evaluate false); watchProducer S strike run base)
      (do Eval.tell (.evaluate true); watchProducer S strike run name) strict)
  | a => watched S strike (runAction run a)

@[inherit_doc produce]
noncomputable def watchProducer (S : World → Prop) (strike : World → World) (run : Runner) :
    Producer Action → Eval Reference
  | ⟨steps, yields⟩ => do
    watchActions S strike run steps
    yields.eval

@[inherit_doc runActions]
noncomputable def watchActions (S : World → Prop) (strike : World → World) (run : Runner) :
    List (Step Action) → Eval Unit
  | [] => pure ()
  | s :: rest => do
    watchActionStep S strike run s
    watchActions S strike run rest

@[inherit_doc runActionStep]
noncomputable def watchActionStep (S : World → Prop) (strike : World → World) (run : Runner) :
    Step Action → Eval Unit
  | ⟨a, guarded⟩ => runStep guarded (watchAction S strike run a)

end

namespace Behaviour

/-- The way to run functions under a watch. -/
noncomputable def watchedCaller (B : Behaviour) (S : World → Prop) (strike : World → World) :
    Nat → Caller
  | 0 => fun _ _ _ => throw .exhausted
  | n + 1 => fun f this args => watched S strike <|
    Eval.framed (callFrame this args) <|
      (B.call f this args).run fun c => watched S strike (runCommand (B.watchedCaller S strike n) c)

/-- The way to run bodies under a watch, where `k` handlers run inside one another. -/
noncomputable def watchedRunner (B : Behaviour) (S : Nat → World → Prop) (strike : World → World)
    (budget : Nat) : (k n : Nat) → Runner
  | k, 0 => { call := B.watchedCaller (S k) strike budget, hook := fun _ _ _ => throw .exhausted }
  | k, n + 1 =>
    { call := B.watchedCaller (S k) strike budget
      hook := fun label body v => watched (S (k + 1)) strike <|
        Eval.framed (hookFrame v) <|
          (B.hook label body v).run
            (watchAction (S (k + 1)) strike (B.watchedRunner S strike budget (k + 1) n)) }

/-- The way to run functions with `body` around the bodies and a watch for their steps. -/
noncomputable def callerUnder (B : Behaviour) (body : Eval Value → Eval Value) (S : World → Prop)
    (strike : World → World) : Nat → Caller
  | 0 => fun _ _ _ => throw .exhausted
  | n + 1 => fun f this args => body <|
    Eval.framed (callFrame this args) <|
      (B.call f this args).run fun c =>
        watched S strike (runCommand (B.callerUnder body S strike n) c)

/-- The way to run bodies with `body` around them and a watch for their steps, where `k` handlers
    run inside one another. -/
noncomputable def runnerUnder (B : Behaviour) (body : Nat → Eval Value → Eval Value)
    (S : Nat → World → Prop) (strike : World → World) (budget : Nat) : (k n : Nat) → Runner
  | k, 0 =>
    { call := B.callerUnder (body k) (S k) strike budget, hook := fun _ _ _ => throw .exhausted }
  | k, n + 1 =>
    { call := B.callerUnder (body k) (S k) strike budget
      hook := fun label script v => body (k + 1) <|
        Eval.framed (hookFrame v) <|
          (B.hook label script v).run
            (watchAction (S (k + 1)) strike (B.runnerUnder body S strike budget (k + 1) n)) }

variable (B : Behaviour) (strike : World → World)

/-- To watch bodies too is to put watches around them. -/
theorem watchedCaller_eq (S : World → Prop) (n : Nat) :
    B.watchedCaller S strike n = B.callerUnder (watched S strike) S strike n := by
  induction n with
  | zero => rfl
  | succ n ih => rw [watchedCaller, callerUnder, ih]

@[inherit_doc watchedCaller_eq]
theorem watchedRunner_eq (S : Nat → World → Prop) (budget k n : Nat) :
    B.watchedRunner S strike budget k n =
      B.runnerUnder (fun k => watched (S k) strike) S strike budget k n := by
  induction n generalizing k with
  | zero => rw [watchedRunner, runnerUnder, watchedCaller_eq]
  | succ n ih => rw [watchedRunner, runnerUnder, watchedCaller_eq, ih]

end Behaviour

/-! ## No watch strikes -/

theorem fetches_errorEval (e : Error Expr) : Fetches [] e.eval := by
  cases e
  case thrown v => exact (fetches_eval v).bind fun _ => .pure (List.nil_subset _)
  case fault f => exact (fetches_faultEval f).bind fun _ => .pure (List.nil_subset _)
  all_goals exact .pure (List.nil_subset _)

theorem fetches_referenceNamed (name : String) : Fetches [] (referenceNamed name) :=
  .see fun _ _ h _ ht => List.mem_append_right _
    (mem_things_handles.2 (.inr (.inr (.inl (things_of_get? h ht)))))

theorem fetches_yield (y : Yield) : Fetches [] y.eval := by
  cases y with
  | reference name => exact fetches_referenceNamed name
  | value v => exact (fetches_eval v).bind fun _ => .pure (by simp)

theorem looks_yield (y : Yield) : Looks y.eval := (fetches_yield y).looks

/-- A watch for `S` of steps among `k` handlers strikes only when the early custody is over. -/
def Custodies.Unstruck (C : Custodies) (k : Nat) (S : World → Prop) : Prop :=
  ∀ ⦃ops w⦄, C.early.order ⟨k, ops⟩ w → S w ∨ C.late.order ⟨k, ops⟩ w

/-- Bodies stay in custody if `body` is put around them. -/
def Custodies.Admits (C : Custodies) (body : Nat → Eval Value → Eval Value) : Prop :=
  ∀ ⦃k ops ts act act'⦄, Safe C ⟨k, ops⟩ (Knows ts) act act' →
    Safe C ⟨k, ops⟩ (Knows ts) act (body k act')

section

variable {C : Custodies} {S : World → Prop} {strike : World → World} {l : Layer} {k : Nat}
  {ops : List Reference} {run run' : Runner}

theorem Custodies.admits_id : C.Admits fun _ act => act := fun _ _ _ _ _ h => h

/-- A step starts with nothing in hand and ends in an answer. So a watch that strikes only when
    the early custody is over does no harm to it. -/
theorem Eval.Safe.watched (hS : C.Unstruck k S) {act act' : Eval Answer}
    (h : Safe C ⟨k, ops⟩ (Keeps []) act act') :
    Safe C ⟨k, ops⟩ (Keeps []) act (act'.watched S strike) := by
  refine fun w => ⟨fun hw hP => ?_, (h w).2⟩
  rcases hS hw with before | late
  · rw [Eval.watched, on_between, strikeUnless_of before]
    refine ((h w).1 hw hP).imp fun ends => ends.elim (fun ⟨same, ends⟩ => ?_) .inr
    rw [same]
    rcases hS ends.order with after | late
    · rw [strikeUnless_of after]
      exact .inl ⟨rfl, ends⟩
    · exact .inr ⟨late, fun _ _ => nofun⟩
  · exact C.asks_of_counts (C.counts_of_late late) (.inr ((h w).2 late fun _ => nofun))

/-- A body may have things in hand when it starts and when it ends. A watch of bodies does no harm
    if it strikes only where things stay known. -/
theorem Custodies.admits_watched {S : Nat → World → Prop}
    (hS : ∀ ⦃l w⦄, C.early.order l w →
      S l.depth w ∨ (C.late.order l w ∧ ∀ t, C.early.known w t → C.late.known w t)) :
    C.Admits fun k => Eval.watched (S k) strike := by
  refine fun k ops ts act act' h w => ⟨fun hw hP => ?_, (h w).2⟩
  dsimp only
  rcases hS hw with before | ⟨late, known⟩
  · rw [Eval.watched, on_between, strikeUnless_of before]
    refine ((h w).1 hw hP).imp fun ends => ends.elim (fun ⟨same, ends⟩ => ?_) .inr
    rw [same]
    rcases hS ends.order with after | ⟨late, known⟩
    · rw [strikeUnless_of after]
      exact .inl ⟨rfl, ends⟩
    · exact .inr ⟨late, fun a ha t ht => known t (ends.result a ha t ht)⟩
  · refine C.asks_of_counts (C.counts_of_late late) (.inr ((h w).2 late ?_))
    exact fun t ht => known t (hP t ht)

/-! ### Parts of actions -/

/-- A reference that is built is made known. -/
theorem safe_answerReference (into : String) {r : Reference} (built : r.Built) :
    Safe C l (Knows (things r)) (answerReference into r) (answerReference into r) := by
  refine .bind (triple_onHandles (fun _ _ => rfl) (fun h t ht => ?_) (fun _ _ => .inl)
    fun w name r' known => ?_) fun _ => .see_answer _
  · rw [List.mem_append]
    rw [mem_things_handles] at ht ⊢
    have := @things_insert _ _ _ _ h.references into r t
    grind
  · -- A name is either the new one or stands for what it stood for.
    have there : (w.handles.references.insert into r).get? name = some r' := known
    rw [Table.get?_insert] at there
    split at there
    · cases there
      exact .inr built
    · exact .inl there

/-- The targets of handlers are known. -/
theorem Custody.known_targets {C : Custody} {w : World} (hw : C.order l w) :
    Knows (things w.registry.keys) C w :=
  fun _ ht => C.known_of_name hw
    (List.mem_append_left _ (List.mem_append_left _ (List.mem_append_right _ ht)))

theorem Custody.install {C : Custody} {w : World} {target : ObjectId} {r : Registry}
    (hr : Knows (things r.keys) C w) (ht : C.known w (.object target)) (h : Handler) :
    Knows (things (r.insert target h).keys) C w := by
  intro t mem
  obtain ⟨o, mem, ho⟩ := mem_things.1 mem
  rcases Table.mem_keys_insert.1 mem with rfl | mem
  · exact List.mem_singleton.1 ho ▸ ht
  · exact hr t (mem_things.2 ⟨o, mem, ho⟩)

theorem Custody.uninstall {C : Custody} {w : World} {r : Registry}
    (hr : Knows (things r.keys) C w) (target : ObjectId) :
    Knows (things (r.erase target).keys) C w := by
  intro t mem
  obtain ⟨o, mem, ho⟩ := mem_things.1 mem
  exact hr t (mem_things.2 ⟨o, Table.mem_keys_of_filter mem, ho⟩)

/-- To install a handler is in custody if its target is known. -/
theorem safe_answerInstall (target : ObjectId) (h : Handler) :
    Safe C l (Knows (things target)) (answerInstall target h) (answerInstall target h) :=
  .see fun _ => .bind (.change fun C _ hw hP =>
    .registry (C.install (C.known_targets hw) (hP.1 _ (by simp)) h)) fun _ => .answer _

/-- To guard a step, or not, makes no difference to its custody. -/
theorem safe_runStep (guarded : Bool) {act act' : Eval Answer} (h : Safe C l (Keeps []) act act') :
    Safe C l (Keeps []) (runStep guarded act) (runStep guarded act') := by
  have told {P : Assertion} (e : Entry) : Safe C l P (Eval.tell e) (Eval.tell e) :=
    .mono (.change fun _ w _ _ => .journal w _) (fun _ _ _ => id) fun _ _ _ _ _ => nofun
  refine .outcome h rfl rfl fun result lasts => ?_
  rcases result with (_ | _ | _) | answer
  case ok => exact told _
  case error.raised =>
    cases guarded with
    | true => exact .see fun _ => told _
    | false => exact .raise _
  case error.exhausted => exact absurd rfl lasts
  case error.stuck => exact .stuck

/-- A program whose single commands are in custody is in custody, guarded steps and all. -/
theorem Program.safe_run {α : Type} {exec exec' : α → Eval Answer}
    (h : ∀ a, Safe C l (Keeps []) (exec a) (exec' a)) (p : Program α) :
    Safe C l (Keeps []) (p.run exec) (p.run exec') := by
  induction p with
  | finish result => exact .of_fetches (fetches_evalOr .undefined result)
  | abort e => exact .raise e
  | look next ih => exact .see (f := id) fun w => (ih w).pre fun _ _ _ _ => nofun
  | tell entry rest ih => exact .bind (.tell _) fun _ => ih
  | step a next ih =>
    rw [Program.run, Program.run]
    refine .outcome (h a) rfl rfl fun result lasts => ?_
    rcases result with (_ | _ | _) | answer
    case ok => exact (ih (.ok answer)).pre fun _ _ _ _ => nofun
    case error.raised e => exact (ih (.error e)).pre fun _ _ _ _ => nofun
    case error.exhausted => exact absurd rfl lasts
    case error.stuck => exact .stuck

/-! ### Actions -/

mutual

/-- An action does the same under a watch as without it if the bodies that it runs do. -/
theorem safe_watchAction (hS : C.Unstruck k S) (h : Runner.Safe C k run run') : ∀ (a : Action) ops,
    Safe C ⟨k, ops⟩ (Keeps []) (runAction run a) (watchAction S strike run' a)
  | .command c, ops => .watched hS (safe_runCommand h.call ops c)
  | .fail cause, _ => .watched hS <| .fetch (fetches_errorEval cause) fun _ => .raise _
  | .refValue v _, _ => .watched hS <| .fetch (fetches_eval v) fun v =>
    (safe_answerReference _ (.value v)).kept (by simp)
  | .refBinding scope name strict _, _ => .watched hS <| .fetch (fetches_scopeNamed scope) fun s =>
    .fetch (fetches_atom name) fun x => .see fun s' =>
    .pre (.assume fun built => safe_answerReference _ built) fun C w hw hP =>
      ⟨hP.2 ▸ C.known_resolve hw (C.known_of_kept hw (hP.1 (.scope s) (by simp))),
        hP.2 ▸ .binding w s x strict⟩
  | .refMember base key this _ _, _ => .watched hS <| .fetch (fetches_eval base) fun base =>
    .fetch (fetches_key key) fun k =>
    .fetch (Fetches.option_mapM fetches_eval this) fun this =>
    (safe_answerReference _ (.member base k this _)).kept (by simp)
  | .refAbstract base name strict _, _ => .watched hS <| .fetch (fetches_eval base) fun base =>
    .fetch (fetches_eval name) fun name =>
    .bind_ok ((safe_abstractReference base name strict).kept (by simp)) fun _ _ made =>
    safe_answerReference _ (.abstract made)
  | .refEvaluated base name strict _, _ => .watched hS <|
    .bind_ok (safe_evaluateAbstract h
      (fun ops => .bind (.tell _) fun _ => safe_watchProducer hS h base ops)
      (fun ops => .bind (.tell _) fun _ => safe_watchProducer hS h name ops) strict)
    fun _ _ made => safe_answerReference _ (.evaluated made)
  | .getValue _ _, _ => .watched hS <| .fetch (fetches_referenceNamed _) fun r =>
    .bind (Safe.holdingAll ((safe_readReference h r).kept (by simp))
      fun _ _ hw hP => hP.knows hw (by simp)) fun v => safe_answerValue _ v
  | .putValue _ v, _ => .watched hS <| .fetch (fetches_referenceNamed _) fun r =>
    .fetch (fetches_eval v) fun v =>
    .bind (Safe.holdingAll ((safe_writeReference h r v).kept (by simp))
      fun _ _ hw hP => hP.knows hw (by simp)) fun _ => .answer _
  | .deleteReference _, _ => .watched hS <| .fetch (fetches_referenceNamed _) fun r =>
    .bind (Safe.holdingAll ((safe_deleteReference h r).kept (by simp))
      fun _ _ hw hP => hP.knows hw (by simp)) fun _ => .answer _
  | .install target _ _, _ => .watched hS <| .fetch (fetches_object target) fun o =>
    (safe_answerInstall o _).kept (by simp)
  | .share source target, _ => .watched hS <| .fetch (fetches_object source) fun _ =>
    .see fun _ => .demand fun _ _ => .pre (.fetch (fetches_object target)
      fun o => (safe_answerInstall o _).kept (by simp)) fun _ _ _ hP => hP.1
  | .installStandard, _ => .watched hS <|
    .bind (.change fun C _ hw _ => .registry
      (C.install (C.install (C.install (C.known_targets hw) (C.known_intrinsic hw _) _)
        (C.known_intrinsic hw _) _) (C.known_intrinsic hw _) _)) fun _ => .answer _
  | .uninstall target, _ => .watched hS <| .fetch (fetches_object target) fun _ => .see fun _ =>
    .bind (.change fun C _ hw _ => .registry (C.uninstall (C.known_targets hw) _)) fun _ =>
    .answer _
  | .installed target, _ => .watched hS <| .fetch (fetches_object target) fun _ => .see fun _ =>
    .answer _
  | .handlersFor name, _ => .watched hS <| .fetch (fetches_object name) fun _ => .see_answer _
  | .registrySize, _ => .watched hS (.see_answer _)
  | .describeHooks _, _ => .watched hS (.answer _)
  | .config, _ => .watched hS (.see_answer _)

theorem safe_watchProducer (hS : C.Unstruck k S) (h : Runner.Safe C k run run') :
    ∀ (p : Producer Action) ops,
    Safe C ⟨k, ops⟩ (Keeps []) (produce run p) (watchProducer S strike run' p)
  | ⟨steps, yields⟩, ops =>
    .bind (safe_watchActions hS h steps ops) fun _ =>
      (Safe.of_fetches (fetches_yield yields)).pre fun _ _ _ _ => nofun

theorem safe_watchActions (hS : C.Unstruck k S) (h : Runner.Safe C k run run') :
    ∀ (ss : List (Step Action)) ops,
    Safe C ⟨k, ops⟩ (Keeps []) (runActions run ss) (watchActions S strike run' ss)
  | [], _ => .pure fun _ _ _ _ => nofun
  | s :: rest, ops => .bind (safe_watchActionStep hS h s ops) fun _ =>
    (safe_watchActions hS h rest ops).pre fun _ _ _ _ => nofun

theorem safe_watchActionStep (hS : C.Unstruck k S) (h : Runner.Safe C k run run') :
    ∀ (s : Step Action) ops,
    Safe C ⟨k, ops⟩ (Keeps []) (runActionStep run s) (watchActionStep S strike run' s)
  | ⟨a, guarded⟩, ops => safe_runStep guarded (safe_watchAction hS h a ops)

end

/-! ### Nothing to watch for -/

/-- A watch for what always holds never strikes. -/
theorem watched_of_always (strike : World → World) (act : Eval Answer) :
    watched (fun _ => True) strike act = act := by
  refine Eval.ext fun w => ?_
  rw [Eval.watched, on_between, strikeUnless_of trivial, strikeUnless_of trivial]

mutual

/-- To watch for nothing is to watch not at all. -/
theorem watchAction_of_always (strike : World → World) (run : Runner) :
    ∀ a : Action, watchAction (fun _ => True) strike run a = runAction run a
  | .refEvaluated base name strict into => by
    rw [watchAction, watched_of_always, watchProducer_of_always, watchProducer_of_always, runAction]
  | .command _ | .fail _ | .refValue .. | .refBinding .. | .refMember .. | .refAbstract ..
  | .getValue .. | .putValue .. | .deleteReference .. | .install .. | .share .. | .installStandard
  | .uninstall .. | .installed .. | .handlersFor .. | .registrySize | .describeHooks .. | .config =>
    watched_of_always strike _

@[inherit_doc watchAction_of_always]
theorem watchProducer_of_always (strike : World → World) (run : Runner) :
    ∀ q : Producer Action, watchProducer (fun _ => True) strike run q = produce run q
  | ⟨steps, yields⟩ => by rw [watchProducer, watchActions_of_always, produce]

@[inherit_doc watchAction_of_always]
theorem watchActions_of_always (strike : World → World) (run : Runner) :
    ∀ ss : List (Step Action), watchActions (fun _ => True) strike run ss = runActions run ss
  | [] => by rw [watchActions, runActions]
  | ⟨a, guarded⟩ :: rest => by
    rw [watchActions, watchActionStep, watchAction_of_always, watchActions_of_always, runActions,
      runActionStep]

end

/-- An action is in custody if the bodies that it runs are. -/
theorem safe_runAction (h : Runner.Safe C k run run') (a : Action) :
    Safe C ⟨k, ops⟩ (Keeps []) (runAction run a) (runAction run' a) := by
  rw [← watchAction_of_always id run' a]
  exact safe_watchAction (fun _ _ _ => .inl trivial) h a ops

@[inherit_doc safe_runAction]
theorem safe_program (h : Runner.Safe C k run run') (p : Program Action) :
    Safe C ⟨k, ops⟩ (Keeps []) (p.run (runAction run)) (p.run (runAction run')) :=
  Program.safe_run (safe_runAction h) p

end

/-! ### Bodies -/

theorem things_callFrame (this : Value) (args : List Value) :
    things (callFrame this args).values ⊆ things this ++ things args := by
  have fold (as : List (Value × Nat)) (frame : Table String Value) :
      things (as.foldl (fun t a => t.insert ("$" ++ toString a.2) a.1) frame).values ⊆
        things frame.values ++ things (as.map Prod.fst) := by
    induction as generalizing frame with
    | nil => simp
    | cons a as ih =>
      intro t ht
      have inserted := @things_insert _ _ _ _ frame ("$" ++ toString a.2) a.1 t
      simp only [List.map_cons, things_cons, List.mem_append] at inserted ⊢
      exact (List.mem_append.1 (ih _ ht)).elim (fun ht => (inserted ht).symm.imp_right .inl)
        fun ht => .inr (.inr ht)
  intro t ht
  have ht := fold _ _ ht
  rw [List.zipIdx_map_fst, List.mem_append] at ht
  exact List.mem_append.2 (ht.imp_left fun ht =>
    (List.mem_append.1 (things_insert _ _ ht)).resolve_right List.not_mem_nil)

theorem things_hookFrame (v : Visit) : things (hookFrame v).values ⊆ things v := by
  have frame : things ((Table.empty.insert "$name" (Value.object v.name)).insert "$receiver"
      (.object v.receiver)).values ⊆ things v.name ++ things v.receiver := by
    intro t ht
    refine (List.mem_append.1 (things_insert _ _ ht)).elim (List.mem_append_right _) fun ht => ?_
    exact (List.mem_append.1 (things_insert _ _ ht)).elim (List.mem_append_left _)
      fun ht => absurd ht List.not_mem_nil
  rw [things_visit, hookFrame]
  cases v.request.value? with
  | none => exact List.Subset.trans frame (List.subset_append_left _ _)
  | some value =>
    intro t ht
    refine (List.mem_append.1 (things_insert _ _ ht)).elim (fun ht => ?_) fun ht => ?_
    · exact List.mem_append_right _ (by simpa using ht)
    · exact List.mem_append_left _ (frame ht)

section

variable {C : Custodies} (counts : C.counts) {body : Nat → Eval Value → Eval Value}
  (hb : C.Admits body) (B : Behaviour) (strike : World → World) (budget : Nat)
include counts hb

theorem Behaviour.safe_caller {k : Nat} {S : World → Prop} (hS : C.Unstruck k S) (n : Nat) :
    Caller.Safe C k (B.caller n) (B.callerUnder (body k) S strike n) := by
  induction n with
  | zero => exact fun _ _ _ _ => .exhausted counts
  | succ n ih =>
    intro ops f this args
    refine hb (.framed ?_ fun C w _ hP t ht => hP t (things_callFrame this args ht))
    exact Program.safe_run (fun c => .watched hS (safe_runCommand ih ops c)) _

theorem Behaviour.safe_runner {S : Nat → World → Prop} (hS : ∀ k, C.Unstruck k (S k)) (k n : Nat) :
    Runner.Safe C k (B.runner budget n) (B.runnerUnder body S strike budget k n) := by
  induction n generalizing k with
  | zero =>
    exact ⟨B.safe_caller counts hb strike (hS k) budget, fun _ _ _ _ => .exhausted counts⟩
  | succ n ih =>
    refine ⟨B.safe_caller counts hb strike (hS k) budget, fun ops label script v => ?_⟩
    -- The body runs inside one handler more, and so does all that it runs in turn.
    refine hb (.framed ?_ fun C w _ hP t ht => hP t (things_hookFrame v ht))
    exact Program.safe_run (fun a => safe_watchAction (hS _) (ih (k + 1)) a ops) _

/-- Whatever functions and handlers do, a program runs in custody, and a watch that strikes only
    when the early custody is over does no harm to it. -/
theorem Behaviour.safe_run {S : Nat → World → Prop} (hS : ∀ k, C.Unstruck k (S k)) (k n : Nat)
    (ops : List Reference) (p : Program Action) :
    Safe C ⟨k, ops⟩ (Keeps []) (p.run (runAction (B.runner budget n)))
      (p.run (watchAction (S k) strike (B.runnerUnder body S strike budget k n))) :=
  Program.safe_run
    (fun a => safe_watchAction (hS k) (B.safe_runner counts hb strike budget hS k n) a ops) p

end

section

variable (B : Behaviour) (strike : World → World) (budget : Nat) {V : Nat → Phases}
  (hV : Phases.Layered V) {S : Nat → World → Prop} (hS : ∀ k, (V k).Unstruck (S k))
include hS

theorem Phases.Layered.unstruck (k : Nat) : hV.custodies.Unstruck k (S k) := fun _ _ hw => hS k hw

theorem Phases.Layered.admits : hV.custodies.Admits fun k => watched (S k) strike :=
  Custodies.admits_watched fun l _ hw => (hS l.depth hw).imp_right fun late => ⟨late, fun _ => id⟩

include hV

theorem Behaviour.lockstep_runner (k n : Nat) :
    Runner.Lockstep V k (B.runner budget n) (B.watchedRunner S strike budget k n) := by
  rw [watchedRunner_eq]
  exact (B.safe_runner trivial (hV.admits strike hS) strike budget (hV.unstruck hS) k n).lockstep

/-- A program goes in lockstep with itself under the watch. -/
theorem lockstep_watched (k n : Nat) (p : Program Action) :
    Lockstep (V k) (p.run (runAction (B.runner budget n)))
      (p.run (watchAction (S k) strike (B.watchedRunner S strike budget k n))) := by
  rw [B.watchedRunner_eq]
  exact Triple.lockstep
    (B.safe_run trivial (hV.admits strike hS) strike budget (hV.unstruck hS) k n [] p)
    fun _ _ all t _ => (all t).2

end

/-- Whatever functions and handlers do: where `k` handlers run inside one another and the world
    satisfies `V k`, no watch for `V` strikes while a program runs. -/
theorem run_watched (B : Behaviour) (strike : World → World) (budget : Nat)
    {V : Nat → World → Prop} (hV : Layered V) (k n : Nat) (p : Program Action)
    {w : World} (hw : V k w) :
    (p.run (watchAction (V k) strike (B.watchedRunner V strike budget k n))).on w =
        (p.run (runAction (B.runner budget n))).on w ∧
      V k ((p.run (runAction (B.runner budget n))).on w).2 :=
  (lockstep_watched B strike budget (.only hV) (fun _ => .only _) k n p).of_only hw

/-! ## The worlds that a run meets -/

/-- Runs an action under a watch that puts `v` in the place of `u`. -/
noncomputable def Behaviour.exchanging (B : Behaviour) (budget n : Nat) (u v : World) :
    Action → Eval Answer :=
  watchAction (· ≠ u) (fun _ => v) (B.watchedRunner (fun _ => (· ≠ u)) (fun _ => v) budget 0 n)

/-- A run of `p` from the world `w` meets the world `u`: it makes a difference if a watch puts
    another in the place of `u`. -/
def Behaviour.Meets (B : Behaviour) (budget n : Nat) (p : Program Action) (w u : World) : Prop :=
  ∃ v, (p.run (B.exchanging budget n u v)).on w ≠ (p.run (runAction (B.runner budget n))).on w

theorem layered_config (config : Config) : Layered fun _ w => w.config = config :=
  .of_stable (fun _ _ change h => change.config_eq.trans h) fun _ _ h => h

theorem watchAction_eq_watched (S : World → Prop) (strike : World → World) (run : Runner)
    (a : Action) : ∃ act, watchAction S strike run a = watched S strike act := by
  cases a <;> exact ⟨_, rfl⟩

/-- An exchange takes place before the first step. -/
theorem on_exchanged_step (run : Runner) (a : Action)
    (next : Except (Error Value) Answer → Program Action) {w v : World} (ne : v ≠ w) :
    ((Program.step a next).run (watchAction (· ≠ w) (fun _ => v) run)).on w =
      ((Program.step a next).run (watchAction (· ≠ w) (fun _ => v) run)).on v := by
  obtain ⟨act, e⟩ := watchAction_eq_watched (· ≠ w) (fun _ => v) run a
  have atW : strikeUnless (· ≠ w) (fun _ => v) w = v := if_neg fun ne => ne rfl
  have atV : strikeUnless (· ≠ w) (fun _ => v) v = v := if_pos ne
  rw [Program.run, on_bind, on_bind, on_outcome, on_outcome, e, Eval.watched,
    on_between, on_between, atW, atV]

/-- Nothing changes the settings, so that others show at the end if they are put in before a step,
    whatever there is around bodies. -/
theorem Behaviour.exchange_shows (B : Behaviour) (budget n : Nat) (a : Action)
    (next : Except (Error Value) Answer → Program Action) {w v : World}
    (hc : v.config ≠ w.config) {body : Nat → Eval Value → Eval Value}
    (hb : (Phases.Layered.only (layered_config v.config)).custodies.Admits body) :
    ((Program.step a next).run (watchAction (· ≠ w) (fun _ => v)
      (B.runnerUnder body (fun _ => (· ≠ w)) (fun _ => v) budget 0 n))).on w ≠
        ((Program.step a next).run (runAction (B.runner budget n))).on w := by
  intro same
  have ne : v ≠ w := fun e => hc (congrArg World.config e)
  have apart (k : Nat) :
      (Phases.Layered.only (layered_config v.config)).custodies.Unstruck k (· ≠ w) :=
    fun _ w' h => .inl fun e => hc (h.symm.trans (congrArg World.config e))
  have plain := run_watched B id budget (layered_config w.config) 0 n (.step a next) rfl
  have exchanged := (Triple.lockstep
    (B.safe_run trivial hb (fun _ => v) budget apart 0 n [] (.step a next))
    fun _ _ all t _ => (all t).2).of_only (w := v) rfl
  refine hc ?_
  rw [← exchanged.2, ← exchanged.1, ← on_exchanged_step _ a next ne, same, plain.2]

/-- The world with other settings. -/
def World.resettled (w : World) : World :=
  { w with config := { w.config with standardHandlers := !w.config.standardHandlers } }

theorem World.resettled_config (w : World) : w.resettled.config ≠ w.config :=
  fun e => (Bool.not_eq_self _).1 (congrArg Config.standardHandlers e)

/-- A run meets the world in which it takes a step. -/
theorem Behaviour.meets_step (B : Behaviour) (budget n : Nat) (a : Action)
    (next : Except (Error Value) Answer → Program Action) (w : World) :
    B.Meets budget n (.step a next) w w := by
  have apart : ((Phases.only (·.config = w.resettled.config))).Unstruck (· ≠ w) :=
    fun w' h => .inl fun e => w.resettled_config (h.symm.trans (congrArg World.config e))
  refine ⟨w.resettled, ?_⟩
  rw [exchanging, B.watchedRunner_eq]
  exact B.exchange_shows budget n a next w.resettled_config
    (Phases.Layered.admits _ _ fun _ => apart)

/-- What holds of a world that a run meets holds at the end of the run, if it is stable and does
    not speak of the depth. -/
theorem holds_of_meets {U : World → Prop} (hU : Layered fun _ => U) {B : Behaviour}
    {budget n : Nat} {p : Program Action} {w u : World} (h : B.Meets budget n p w u) (hu : U u) :
    U ((p.run (runAction (B.runner budget n))).on w).2 := by
  -- If the run with the exchange and the one without it differ, they cannot have gone in
  -- lockstep to the end, so that there was a turn to the late phase.
  obtain ⟨v, differs⟩ := h
  -- Until the run meets `u`, nothing is asked of it.
  let V : Nat → Phases := fun _ => { early := fun _ => True, late := U }
  have hV : Phases.Layered V :=
    { early := .of_stable (fun _ _ _ _ => trivial) fun _ _ _ => trivial
      late := hU }
  have hS (k : Nat) : (V k).Unstruck (· ≠ u) := by
    intro w' _
    by_cases e : w' = u
    · exact .inr (e ▸ hu)
    · exact .inl e
  obtain ⟨same, -⟩ | late :=
    (lockstep_watched B (fun _ => v) budget hV (S := fun _ => (· ≠ u)) hS 0 n p w).1 trivial
  · exact absurd same differs
  · exact late

/-! ## The worlds that the steps of a run pass

Where a body starts or ends, it may have things in hand that nothing holds. Between the steps of
bodies, all that is in use is held, and so some things can be said of these moments alone. -/

/-- Runs an action under a watch that looks at steps alone and puts `v` in the place of `u`. -/
noncomputable def Behaviour.swapping (B : Behaviour) (budget n : Nat) (u v : World) :
    Action → Eval Answer :=
  watchAction (· ≠ u) (fun _ => v)
    (B.runnerUnder (fun _ act => act) (fun _ => (· ≠ u)) (fun _ => v) budget 0 n)

/-- The run of `p` from the world `w` passes the world `u`: it meets it where a step starts or
    ends, in the body itself or in any function or handler inside it. -/
def Behaviour.Passes (B : Behaviour) (budget n : Nat) (p : Program Action) (w u : World) : Prop :=
  ∃ v, (p.run (B.swapping budget n u v)).on w ≠ (p.run (runAction (B.runner budget n))).on w

/-- A run passes the world in which it takes a step. -/
theorem Behaviour.passes_step (B : Behaviour) (budget n : Nat) (a : Action)
    (next : Except (Error Value) Answer → Program Action) (w : World) :
    B.Passes budget n (.step a next) w w :=
  ⟨w.resettled, B.exchange_shows budget n a next w.resettled_config Custodies.admits_id⟩

section

variable (B : Behaviour) (strike : World → World) (budget n : Nat) (p : Program Action)
  {ops : List Reference} {w : World}

/-- A program that starts in order ends in order, and no watch for what is so in every world in
    order strikes at any step. -/
theorem Behaviour.run_in_custody (C : Custody) {S : World → Prop} {k : Nat}
    (hS : ∀ ⦃k ops w⦄, C.order ⟨k, ops⟩ w → S w) (hw : C.order ⟨k, ops⟩ w) :
    let run := runAction (B.runner budget n)
    let watch := watchAction S strike
      (B.runnerUnder (fun _ act => act) (fun _ => S) strike budget k n)
    (p.run watch).on w = (p.run run).on w ∧ C.order ⟨k, ops⟩ ((p.run run).on w).2 := by
  have safe := B.safe_run (C := .only C) (S := fun _ => S) trivial Custodies.admits_id strike budget
    (fun _ _ _ hw => .inl (hS hw)) k n ops p
  exact (Triple.of_only safe hw fun _ => nofun).imp_right (·.order)

/-- If a run passes a world that is in order in the way of another custody, it ends so. -/
theorem Behaviour.ends_of_passes {E L : Custody} {u : World}
    (hu : ∀ ⦃k ops⦄, E.order ⟨k, ops⟩ u → L.order ⟨k, ops⟩ u)
    (h : B.Passes budget n p w u) (hw : E.order ⟨0, ops⟩ w) :
    L.order ⟨0, ops⟩ ((p.run (runAction (B.runner budget n))).on w).2 := by
  -- If the run with the exchange and the one without it differ, they cannot have gone in
  -- lockstep to the end, so that there was a turn.
  obtain ⟨v, differs⟩ := h
  have hS (k : Nat) : (Custodies.turning E L).Unstruck k (· ≠ u) := by
    intro ops w' hw'
    by_cases e : w' = u
    · exact .inr (e ▸ hu (e ▸ hw'))
    · exact .inl e
  have safe := B.safe_run trivial Custodies.admits_id (fun _ => v) budget hS 0 n ops p
  obtain ⟨same, -⟩ | ends := ((safe w).1 hw fun _ => nofun).of_turning
  · exact absurd same differs
  · exact ends.order

end

/-! ## Sessions -/

namespace World

section

variable {C : Custody} {ops : List Reference} {w : World}

/-- An action of a session keeps the order of a custody. -/
theorem perform_in_custody (a : Action) (hw : C.order ⟨0, ops⟩ w) :
    C.order ⟨0, ops⟩ (w.perform a).2 := by
  have runner := Behaviour.scripted.safe_runner (C := .only C) trivial Custodies.admits_id id
    callBudget (S := fun _ _ => True) (fun _ _ _ _ => .inl trivial) 0 w.config.maxDepth.toNat
  have safe : Safe (.only C) ⟨0, ops⟩ (Keeps []) (runAction _ a)
      (watchAction (fun _ => True) id _ a) :=
    safe_watchAction (fun _ _ _ => .inl trivial) runner a ops
  rw [Behaviour.runner_scripted] at safe
  exact C.settle
    (Triple.of_only safe (C.change hw (.journal w [])).1 fun _ => nofun).2.order

/-- What is in order stays so through every session. -/
theorem performAll_in_custody (as : List Action) (hw : C.order ⟨0, ops⟩ w) :
    C.order ⟨0, ops⟩ (w.performAll as).2 := by
  induction as generalizing w with
  | nil => exact hw
  | cons a as ih => exact ih (perform_in_custody a hw)

end

/-- What is layered holds after every action of a session. -/
theorem keeps_performAll {V : Nat → World → Prop} (hV : Layered V) {w : World} (as : List Action)
    (hw : V 0 w) : V 0 (w.performAll as).2 := by
  have start : (Custody.free hV).order ⟨0, []⟩ w := hw
  exact performAll_in_custody as start

end World

end Lvalue
