import Lvalue.Proofs.Dispatch
import Lvalue.Proofs.Ownership
import Lvalue.Proofs.Watch

/-!
# Hiding

A world hides an object if nothing that is there holds it and it is not known by name
(`World.Hides`): then only running operations can hold it. Whoever is not given it cannot
get hold of it, so that it stays hidden as long as only other things are handled. That
makes a custody (`Custody.secrecy`).

An evaluation that works on a hidden object *conceals* it if it never gives it away
(`Eval.Conceals`). It does if it gives functions nothing but other values, whatever they
do (`World.Hides.conceals_call`).
-/

namespace Lvalue

open Bearer Eval

/-- What comes to be known by name was known before. -/
theorem ChangeAmong.named {known : Thing → Prop} {w w' : World} {t : Thing}
    (h : ChangeAmong known w w') (ht : t ∈ w'.named) : t ∈ w.named ∨ known t := by
  cases h with
  | handles _ held =>
    have := held t
    simp only [World.named, List.mem_append] at ht ⊢
    grind
  | registry targets =>
    have := targets t
    simp only [World.named, List.mem_append] at ht ⊢
    grind
  | _ => exact .inl ht

/-! ## Hidden objects -/

namespace World

variable {w w' : World} {o : ObjectId}

/-- The object is there or was there, and if anything holds it, it is a running operation. -/
structure Hides (o : ObjectId) (w : World) : Prop where
  past : w.Past (.object o)
  named : .object o ∉ w.named
  held : ∀ t, .object o ∉ w.holds t

namespace Hides

variable (h : w.Hides o)
include h

/-- Running operations alone keep a hidden object alive. -/
theorem not_live (operands : .object o ∉ things w.handles.operands) : ¬w.Live (.object o) := by
  intro live
  rcases held_of_live live with anchored | ⟨t, -, held⟩
  · exact (mem_anchors.1 anchored).elim h.named operands
  · exact h.held t held

theorem change (c : ChangeAmong (· ≠ .object o) w w') : w'.Hides o where
  past := c.evolves.past _ h.past
  named ht := (c.named ht).elim h.named fun ne => ne rfl
  held t ht := by
    rcases c.evolves.holds t with sub | ⟨-, new⟩
    · exact h.held t (sub ht)
    · exact (new _ ht).elim (h.held t) fun ne => ne rfl

/-- What is hidden stays hidden when the dead are cleared away. -/
theorem settle : w.settle.Hides o where
  past := h.past
  named := h.named
  held t ht := h.held t (holds_settle (w := w) (t := t) (present_of_mem_holds ht) ▸ ht)

theorem onOperands (f : List Reference → List Reference) : (w.onOperands f).Hides o :=
  ⟨h.past, h.named, h.held⟩

end Hides

end World

/-- All but one object may be handled, which is hidden and not among what the running operations
    work on. Those that ran before work on `outer`. -/
def Custody.secrecy (o : ObjectId) (outer : List Reference) : Custody where
  order l w := w.Hides o ∧ .object o ∉ things l.operands ∧ w.handles.operands = l.operands ++ outer
  known _ t := t ≠ .object o
  kept _ t := t ≠ .object o
  known_of_kept _ := id
  kept_of_name hw ht := by
    rintro rfl
    exact hw.1.named ht
  kept_of_operand hw ht := by
    rintro rfl
    exact hw.2.1 ht
  known_of_held hw _ held := by
    rintro rfl
    exact hw.1.held _ held
  known_congr _ _ := id
  kept_congr _ _ := id
  change {l w w'} hw h := by
    refine ⟨⟨hw.1.change h, hw.2.1, ?_⟩, fun _ => id⟩
    rw [← hw.2.2]
    cases h
    case handles operands _ _ _ => exact operands
    all_goals rfl
  known_alloc {l w new} hw _ := by
    -- A new object is not the hidden one, which has been made before.
    rintro ⟨⟩
    exact Nat.lt_irrefl w.heap.next hw.1.past
  known_allocScope _ _ := nofun
  settle hw := ⟨hw.1.settle, hw.2⟩
  hold {l w rs} hw hrs := by
    refine ⟨hw.1.onOperands _, ?_, ?_⟩
    · rw [things_append, List.mem_append]
      exact fun ht => ht.elim (fun ht => hrs _ ht rfl) hw.2.1
    · rw [World.onOperands, hw.2.2, List.append_assoc]
  release {l w rs} hw := by
    refine ⟨hw.1.onOperands _, fun ht => hw.2.1 ?_, ?_⟩
    · rw [things_append]
      exact List.mem_append_right _ ht
    · rw [World.onOperands, hw.2.2, List.append_assoc, List.drop_left]
  enter hw _ := ⟨⟨hw.1.past, hw.1.named, hw.1.held⟩, hw.2⟩
  leave hw := ⟨⟨hw.1.past, hw.1.named, hw.1.held⟩, hw.2⟩

/-! ## Evaluations that conceal an object -/

namespace Eval

variable {α β : Type} [Bearer α] [Bearer β] {o : ObjectId} {act : Caller → Eval α} {w u : World}
  {vs : List Value}

/-- On the world `w` the evaluation never gives away the object, whatever functions do. -/
structure Conceals (o : ObjectId) (act : Caller → Eval α) (w : World) : Prop where
  /-- No body and no step of one starts or ends in a world where the object is not hidden: it makes
      no difference if others are put in the place of such worlds. -/
  meanwhile : ∀ (B : Behaviour) budget strike,
    (act (B.watchedCaller (·.Hides o) strike budget)).on w = (act (B.caller budget)).on w
  hidden : ∀ (B : Behaviour) budget, ((act (B.caller budget)).on w).2.Hides o
  operands : ∀ (B : Behaviour) budget,
    ((act (B.caller budget)).on w).2.handles.operands = w.handles.operands
  result : ∀ (B : Behaviour) budget a,
    ((act (B.caller budget)).on w).1 = .ok a → .object o ∉ things a

namespace Conceals

/-- What runs no body conceals an object if it ends with it hidden and does not hand it out. -/
theorem silent {e : Except Halt α} (on : ∀ run, (act run).on w = (e, u)) (hidden : u.Hides o)
    (operands : u.handles.operands = w.handles.operands)
    (result : ∀ a, e = .ok a → .object o ∉ things a) : Conceals o act w where
  meanwhile B budget strike := (on _).trans (on _).symm
  hidden B budget := by rwa [on]
  operands B budget := by rwa [on]
  result B budget := by rwa [on]

/-- What comes before does not work on anything afterwards. -/
theorem of_eq {act' : Caller → Eval α} (h : Conceals o act u)
    (on : ∀ run, (act' run).on w = (act run).on u)
    (operands : u.handles.operands = w.handles.operands) : Conceals o act' w where
  meanwhile B budget strike := by rw [on, on, h.meanwhile]
  hidden B budget := by
    rw [on]
    exact h.hidden B budget
  operands B budget := by
    rw [on]
    exact (h.operands B budget).trans operands
  result B budget := by
    rw [on]
    exact h.result B budget

theorem map {f : α → β} (h : Conceals o act w) (hf : ∀ a, things (f a) ⊆ things a) :
    Conceals o (fun run => f <$> act run) w where
  meanwhile B budget strike := by rw [on_map, on_map, h.meanwhile]
  hidden B budget := by
    rw [on_map]
    exact h.hidden B budget
  operands B budget := by
    rw [on_map]
    exact h.operands B budget
  result B budget b hb ht := by
    rw [on_map] at hb
    rcases e : ((act (B.caller budget)).on w).1 with _ | a
    · rw [e] at hb
      cases hb
    · rw [e] at hb
      cases hb
      exact h.result B budget a e (hf a ht)

/-- What is held meanwhile may be the object itself. -/
theorem holding (h : Conceals o act (w.hold vs)) :
    Conceals o (fun run => Eval.holding vs (act run)) w where
  meanwhile B budget strike := by rw [on_holding, on_holding, h.meanwhile]
  hidden B budget := by
    rw [on_holding]
    exact (h.hidden B budget).onOperands (·.drop vs.length)
  operands B budget := by
    rw [on_holding]
    dsimp only
    rw [World.release, h.operands, World.hold, List.drop_left' (List.length_map _)]
  result B budget := by
    rw [on_holding]
    exact h.result B budget

end Conceals

end Eval

/-- A function that is given other values does not get hold of a hidden object, and nothing that it
    runs in turn does. -/
theorem World.Hides.conceals_call {w : World} {o : ObjectId} (h : w.Hides o) (f : ObjectId)
    {this : Value} {args : List Value} (hthis : .object o ∉ things this)
    (hargs : .object o ∉ things args) : Conceals o (fun run => call run f this args) w := by
  let secrecy := Custody.secrecy o w.handles.operands
  let C : Custodies := .only secrecy
  have order : secrecy.order ⟨0, []⟩ w := ⟨h, nofun, rfl⟩
  have unseen : Knows (things this ++ things args) secrecy w := by
    rintro t ht rfl
    exact (List.mem_append.1 ht).elim hthis hargs
  -- No watch for the early custody strikes, and there is no turn: the late custody is never met.
  have along (B : Behaviour) (budget : Nat) (strike : World → World) :
      (call (B.watchedCaller (·.Hides o) strike budget) f this args).on w =
          (call (B.caller budget) f this args).on w ∧
        Ends secrecy ⟨0, []⟩ (fun v => Knows (things v))
          ((call (B.caller budget) f this args).on w) := by
    have unstruck : C.Unstruck 0 (·.Hides o) := fun _ _ order => .inl order.1
    have admits : C.Admits fun _ => watched (·.Hides o) strike :=
      Custodies.admits_watched (S := fun _ => (·.Hides o)) fun _ _ order => .inl order.1
    have safe : Safe C ⟨0, []⟩ (Knows (things this ++ things args))
        (call (B.caller budget) f this args)
        (call (B.callerUnder (watched (·.Hides o) strike) (·.Hides o) strike budget) f this args) :=
      safe_call (B.safe_caller trivial admits strike unstruck budget) f this args
    rw [B.watchedCaller_eq]
    exact Triple.of_only safe order unseen
  refine ⟨fun B budget strike => (along B budget strike).1, fun B budget => ?_, fun B budget => ?_,
    fun B budget v hv ht => ?_⟩
  all_goals obtain ⟨-, ends⟩ := along B budget id
  · exact ends.order.1
  · exact ends.order.2.2
  · exact ends.result v hv _ ht rfl

end Lvalue
