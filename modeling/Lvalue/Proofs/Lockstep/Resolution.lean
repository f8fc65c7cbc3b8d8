import Lvalue.Proofs.Custody.Resolution
import Lvalue.Proofs.Lockstep

/-!
# Resolution in lockstep

Through references handlers run, and inside them the depth is one more. A
property of worlds is therefore given for every number `k` of handlers that run
inside one another (`Layered`), and two runners go in lockstep at `k` if their
functions do at `k` and their handlers at `k + 1`.

Such a property is a custody in which every thing is known (`Custody.free`), so that
what is in custody goes in lockstep.
-/

namespace Lvalue

open Bearer Eval

/-- A property of worlds for every number of running handlers. Changes keep it, and a
    handler that starts or ends leads from one number to the next. -/
structure Layered (V : Nat → World → Prop) : Prop where
  stable : ∀ k, Stable (V k)
  enter : ∀ {k : Nat} {w : World}, V k w → w.depth < w.config.maxDepth →
    V (k + 1) { w with depth := w.depth + 1 }
  leave : ∀ {k : Nat} {w : World}, V (k + 1) w → V k { w with depth := w.depth - 1 }

/-- A stable property that does not speak of the depth is one for any number of handlers. -/
theorem Layered.of_stable {V : World → Prop} (hV : Stable V)
    (depth : ∀ ⦃w : World⦄ (d : UInt32), V w → V { w with depth := d }) : Layered fun _ => V where
  stable _ := hV
  enter hw _ := depth _ hw
  leave hw := depth _ hw

/-- Both phases are layered. -/
structure Phases.Layered (V : Nat → Phases) : Prop where
  early : Lvalue.Layered fun k => (V k).early
  late : Lvalue.Layered fun k => (V k).late

namespace Phases.Layered

/-- Where no late phase is, none has to be kept. -/
theorem only {V : Nat → World → Prop} (hV : Lvalue.Layered V) : Layered fun k => only (V k) where
  early := hV
  late :=
    { stable := fun _ _ _ _ hw => hw
      enter := fun hw _ => hw
      leave := id }

end Phases.Layered

/-- The custody of the worlds with a layered property. Every thing may be handled. -/
def Custody.free {V : Nat → World → Prop} (hV : Layered V) : Custody :=
  .unrestricted (fun l => V l.depth) (fun hw h => hV.stable _ h.change hw)
    (hV.stable _ (.settle _)) (hV.stable _ (.handles _ _)) (hV.stable _ (.handles _ _)) hV.enter
    hV.leave

variable {V : Nat → Phases} (hV : Phases.Layered V) {k : Nat}
  {run run' : Runner} {ts : List Thing}

/-- The custodies of both phases. -/
def Phases.Layered.custodies : Custodies := .turning (.free hV.early) (.free hV.late)

section

variable {α : Type} {act act' : Eval α} {hV}

/-- As every thing is known, what is in custody goes in lockstep. -/
theorem Eval.Triple.lockstep {P : Assertion} {Q : α → Assertion}
    (h : Triple hV.custodies ⟨k, []⟩ P act act' Q)
    (hP : ∀ C w, (∀ t, C.known w t ∧ C.kept w t) → P C w) : Lockstep (V k) act act' := by
  refine fun w => ⟨fun hw => ?_, fun hw => ((h w).2 hw ?_).order⟩
  · exact ((h w).1 hw (hP _ _ fun _ => ⟨trivial, trivial⟩)).of_turning.imp
      (fun ⟨same, ends⟩ => ⟨same, ends.order⟩) fun ends => ends.order
  · exact hP _ _ fun _ => ⟨trivial, trivial⟩

theorem Eval.Safe.lockstep [Bearer α] (h : Safe hV.custodies ⟨k, []⟩ (Knows ts) act act') :
    Lockstep (V k) act act' :=
  Triple.lockstep h fun _ _ all t _ => (all t).1

/-- And what goes in lockstep is in custody, as the custody asks for nothing else. -/
theorem Eval.Lockstep.safe [Bearer α] {ops : List Reference} {P : Assertion}
    (h : Lockstep (V k) act act') : Safe hV.custodies ⟨k, ops⟩ P act act' := by
  refine fun w => ⟨fun hw _ => Custodies.asks_of_counts trivial (((h w).1 hw).imp ?_ ?_),
    fun hw _ => ⟨(h w).2 hw, fun _ _ _ _ => trivial⟩⟩
  · exact fun ⟨same, hw'⟩ => ⟨same, hw', fun _ _ _ _ => trivial⟩
  · exact fun hw' => ⟨hw', fun _ _ _ _ => trivial⟩

end

/-! ## Runners -/

/-- The functions of both ways to run them go in lockstep. -/
def Caller.Lockstep (V : Phases) (run run' : Caller) : Prop :=
  ∀ f this args, Eval.Lockstep V (run f this args) (run' f this args)

/-- Where `k` handlers run, the functions and handlers of both runners go in lockstep. -/
structure Runner.Lockstep (V : Nat → Phases) (k : Nat) (run run' : Runner) : Prop where
  call : Caller.Lockstep (V k) run.call run'.call
  hook : ∀ label body v, Eval.Lockstep (V (k + 1)) (run.hook label body v) (run'.hook label body v)

/-- Bodies that go in lockstep are in custody. -/
theorem Runner.Lockstep.safe (h : Runner.Lockstep V k run run') :
    Runner.Safe hV.custodies k run run' where
  call _ f this args := (h.call f this args).safe
  hook _ label body v := (h.hook label body v).safe

/-- Bodies that are in custody go in lockstep. -/
theorem Runner.Safe.lockstep {hV : Phases.Layered V} (h : Runner.Safe hV.custodies k run run') :
    Runner.Lockstep V k run run' where
  call f this args := (h.call [] f this args).lockstep
  hook label body v := (h.hook [] label body v).lockstep

include hV

/-- Every operation through a reference goes in lockstep if bodies do. -/
theorem lockstep_operate (h : Runner.Lockstep V k run run') (r : Reference) (request : Request) :
    Lockstep (V k) (operate run r request) (operate run' r request) :=
  (safe_operate (h.safe hV) r request).lockstep

/-- So does the evaluation of an abstract reference if its two sides do. -/
theorem lockstep_evaluateAbstract (h : Runner.Lockstep V k run run')
    {base base' name name' : Eval Reference} (hbase : Lockstep (V k) base base')
    (hname : Lockstep (V k) name name') (strict : Bool) :
    Lockstep (V k) (evaluateAbstract run base name strict)
      (evaluateAbstract run' base' name' strict) :=
  Triple.lockstep
    (safe_evaluateAbstract (h.safe hV) (fun _ => hbase.safe) (fun _ => hname.safe) strict)
    fun _ _ all t _ => (all t).2

end Lvalue
