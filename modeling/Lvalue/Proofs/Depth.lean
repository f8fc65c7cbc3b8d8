import Lvalue.Proofs.Watch
import Mathlib.Control.Monad.Basic

/-!
# Depth

The depth of a world counts the handlers that run inside one another, and it
never passes the limit (`World.Balanced`). It is a number of 32 bits, so that
this says more than it seems to: the depth can go no further than the limit, and
hence neither wraps around when a handler starts nor falls below zero when one
ends.

To count on its own, a watch takes the number of handlers from the bodies around
it. So a run in which no watch strikes is one in which the depth is right
whenever anything starts or ends, at any nesting and after any failure, caught or
not (`depth_counts_handlers`).
-/

namespace Lvalue

open Eval

/-- The depth is the number `k` of running handlers, which is within the limit. -/
structure World.Balanced (limit : UInt32) (k : Nat) (w : World) : Prop where
  maxDepth : w.config.maxDepth = limit
  depth : w.depth.toNat = k
  le : k ≤ limit.toNat

/-- Below a limit, one more does not wrap around. -/
theorem toNat_add_one {a limit : UInt32} (h : a.toNat < limit.toNat) :
    (a + 1).toNat = a.toNat + 1 := by
  have : limit.toNat < 2 ^ 32 := limit.toNat_lt
  rw [UInt32.toNat_add, UInt32.toNat_one, Nat.mod_eq_of_lt (by omega)]

theorem toNat_sub_one {a : UInt32} {k : Nat} (h : a.toNat = k + 1) : (a - 1).toNat = k := by
  have one_le : 1 ≤ a := UInt32.le_iff_toNat_le.2 (by rw [h, UInt32.toNat_one]; omega)
  rw [UInt32.toNat_sub_of_le _ _ one_le, h, UInt32.toNat_one, Nat.add_sub_cancel]

/-- The depth goes with the handlers: nothing else touches it. -/
theorem layered_balanced (limit : UInt32) : Layered (World.Balanced limit) where
  stable k w w' change hw :=
    { maxDepth := change.config_eq ▸ hw.maxDepth
      depth := change.depth_eq ▸ hw.depth
      le := hw.le }
  enter {k w} hw room := by
    -- There is room below the limit, so that one more does not wrap around.
    have lt : w.depth.toNat < limit.toNat := by
      rw [← hw.maxDepth]
      exact UInt32.lt_iff_toNat_lt.1 room
    exact
      { maxDepth := hw.maxDepth
        depth := (toNat_add_one lt).trans (congrArg (· + 1) hw.depth)
        le := hw.depth ▸ lt }
  leave hw :=
    { maxDepth := hw.maxDepth
      depth := toNat_sub_one hw.depth
      le := Nat.le_of_succ_le hw.le }

namespace World

/-- At first no handler runs. -/
theorem balanced_initial (config : Config) : (initial config).Balanced config.maxDepth 0 := by
  rw [initial]
  split <;> exact ⟨rfl, rfl, Nat.zero_le _⟩

/-- Between the actions of a session no handler runs. -/
theorem balanced_performAll (config : Config) (as : List Action) :
    ((initial config).performAll as).2.Balanced config.maxDepth 0 :=
  keeps_performAll (layered_balanced _) as (balanced_initial config)

end World

/-- An evaluation of one side of an abstract reference: a body of any kind, and what it ends in. -/
def Program.produce (run : Runner) (p : Program Action) (yields : Yield) : Eval Reference := do
  let _ ← p.run (runAction run)
  yields.eval

variable {limit : UInt32} {k : Nat} {w : World}

/-- What keeps the balance leaves the depth as it was. -/
theorem World.Balanced.depth_eq {w' : World} (hw : w.Balanced limit k) (hw' : w'.Balanced limit k) :
    w'.depth = w.depth :=
  UInt32.toNat_inj.1 (hw'.depth.trans hw.depth.symm)

theorem World.Balanced.at_limit (hw : w.Balanced limit k) :
    ({ w with depth := limit } : World).Balanced limit limit.toNat :=
  ⟨hw.maxDepth, rfl, Nat.le_refl _⟩

/-- The discipline of the depth, for every behaviour and every limit, where `k` handlers run inside
    one another.

    While a program runs, no watch for the depth strikes: whenever a function, a handler or a step
    of them starts or ends, the depth is the number of handlers that run, and within the limit.
    Every operation, and the evaluation of an abstract reference whatever its two sides do, ends
    with the depth with which it began. At the limit, an operation on an abstract reference fails at
    once, with all handlers and functions left aside; below it, one handler more is one more in
    depth. -/
theorem depth_counts_handlers (B : Behaviour) (strike : World → World) (budget n : Nat)
    (hw : w.Balanced limit k) :
    let run := B.runner budget n
    let watched := B.watchedRunner (World.Balanced limit) strike budget k n
    (∀ p : Program Action,
      (p.run (watchAction (World.Balanced limit k) strike watched)).on w =
          (p.run (runAction run)).on w ∧
        ((p.run (runAction run)).on w).2.Balanced limit k) ∧
    (∀ r request, ((operate run r request).on w).2.depth = w.depth) ∧
    (∀ (p p' : Program Action) (yields yields' : Yield) (strict : Bool),
      ((evaluateAbstract run (p.produce run yields) (p'.produce run yields') strict).on w).2.depth =
        w.depth) ∧
    (∀ (run' : Runner) (base : Value) (name : ObjectId) (strict : Bool) (request : Request),
      base.isNullish = false → k = limit.toNat →
      (operate run' (.abstractMember base name strict) request).on w =
        (.error (.raised (.tooDeep limit)), w.coerced base)) ∧
    (k < limit.toNat → (w.depth + 1).toNat = k + 1) := by
  intro run watched
  have hV : Phases.Layered fun k => .only (World.Balanced limit k) := .only (layered_balanced limit)
  have hrun : Runner.Lockstep _ k run watched :=
    B.lockstep_runner strike budget hV (fun _ => .only _) k n
  have keeps {α : Type} {act act' : Eval α}
      (h : Lockstep (.only (World.Balanced limit k)) act act') : (act.on w).2.depth = w.depth :=
    hw.depth_eq (h.of_only hw).2
  -- The sides of an abstract reference are bodies too, so that they go in lockstep with
  -- themselves under the watch.
  have side (p : Program Action) (yields : Yield) :
      Lockstep (.only (World.Balanced limit k)) (p.produce run yields)
        (p.run (watchAction (World.Balanced limit k) strike watched) >>= fun _ => yields.eval) :=
    .bind (lockstep_watched B strike budget hV (fun _ => .only _) k n p) fun _ =>
      .of_looks (looks_yield yields)
  refine ⟨fun p => run_watched B strike budget (layered_balanced limit) k n p hw,
    fun r request => keeps (lockstep_operate hV hrun r request),
    fun p p' yields yields' strict =>
      keeps (lockstep_evaluateAbstract hV hrun (side p yields) (side p' yields') strict),
    fun run' base name strict request hb full => ?_, fun lt => ?_⟩
  · -- At the limit, the depth of the world is the greatest that there may be.
    have eq : w.config.maxDepth.toNat = w.depth.toNat := by
      rw [hw.maxDepth, hw.depth, full]
    have full' : w.config.maxDepth ≤ w.depth := UInt32.le_iff_toNat_le.2 (Nat.le_of_eq eq)
    rw [operate_of_full run' request name hb full' strict, hw.maxDepth]
  · rw [← hw.depth] at lt ⊢
    exact toNat_add_one lt

/-- Two handlers that run one another, with room for two. The one that is read first runs the other,
    which finds no room for a third, passes over that failure and fails itself; the first passes
    over this failure and answers. At the limit none of them runs. -/
theorem depth_counts_handlers_of_nested :
    let patient : Script Action := { steps := [⟨.getValue "s" none, true⟩], result := some .null }
    let failing : Script Action :=
      { steps := [⟨.getValue "r" none, true⟩, ⟨.fail .invalidTarget, false⟩] }
    let w := ((World.initial { maxDepth := 2 }).performAll
      [.command (.new .ordinary .standard (some "m")),
        .command (.new .ordinary .standard (some "n")),
        .refAbstract (.bool true) (.register "m") true "r",
        .refAbstract (.bool true) (.register "n") true "s",
        .install (.register "m") "patient" (.scripted { read := some patient }),
        .install (.register "n") "failing" (.scripted { read := some failing })]).2
    let full : World := { w with depth := 2 }
    let run := Behaviour.scripted.runner 1 2
    let read (name : ObjectId) := operate run (.abstractMember (.bool true) name true) .read
    let body : Program Action := .step (.getValue "r" none) fun _ => .finish none
    let strike (_ : World) := World.initial {}
    (w.Balanced 2 0 ∧ full.Balanced 2 2) ∧
      (body.run (watchAction (World.Balanced 2 0) strike
          (Behaviour.scripted.watchedRunner (World.Balanced 2) strike 1 0 2))).on w =
        (body.run (runAction run)).on w ∧
      (((read ⟨8⟩).on w).1 = .ok .null ∧ ((read ⟨8⟩).on w).2.depth = w.depth) ∧
      (((read ⟨9⟩).on w).1 = .error (.raised .invalidTarget) ∧
        ((read ⟨9⟩).on w).2.depth = w.depth) ∧
      (read ⟨8⟩).on full = (.error (.raised (.tooDeep 2)), full.coerced (.bool true)) := by
  intro patient failing w full run read body strike
  have balanced : w.Balanced 2 0 := World.balanced_performAll { maxDepth := 2 } _
  have answered : ((read ⟨8⟩).on w).1 = .ok .null := by decide +kernel
  have failed : ((read ⟨9⟩).on w).1 = .error (.raised .invalidTarget) := by decide +kernel
  clear_value w
  have balanced' : full.Balanced 2 2 := balanced.at_limit
  obtain ⟨watched, operations, -⟩ := depth_counts_handlers Behaviour.scripted strike 1 2 balanced
  obtain ⟨-, -, -, refused, -⟩ := depth_counts_handlers Behaviour.scripted strike 1 2 balanced'
  exact ⟨⟨balanced, balanced'⟩, (watched body).1, ⟨answered, operations _ _⟩,
    ⟨failed, operations _ _⟩, refused run (.bool true) ⟨8⟩ true .read rfl rfl⟩

end Lvalue
