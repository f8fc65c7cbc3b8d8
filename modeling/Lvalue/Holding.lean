import Lvalue.Serials

/-!
# Holding

Things that hold one another, each known by its serial number. What is held from
outside, a *root*, stays, and so does what a thing that stays holds. A thing
that nothing holds goes, and with it goes its hold on others, which may go in
turn.

`Holder.cascade` gives the things that are left in the end. Each of them is held
by a root or by one of them (`Holder.held_of_mem_cascade`), and nothing went
that could have stayed: every set of things that are held by the roots or by the
set is left as a whole (`Holder.mem_cascade`). A ring of things that hold one
another is such a set.
-/

namespace Lvalue

/-- A thing and what it holds. -/
structure Holder where
  serial : Nat
  holds : List Nat
  deriving DecidableEq, Repr

namespace Holder

/-- Each thing of a list, and whether `outer`, the thing itself or one before it holds it. -/
def mark (outer : Serials) : List Holder → List (Holder × Bool)
  | [] => []
  | h :: hs =>
    let outer := outer.insertAll h.holds
    let held := outer.contains h.serial
    (h, held) :: mark outer hs

/-- The things that stay, and what they hold, with one more thing before them: it stays if
    it is marked as held or if one of them holds it. -/
def retain : Holder × Bool → List Holder × Serials → List Holder × Serials
  | (h, held), (kept, inner) =>
    if held || inner.contains h.serial then (h :: kept, inner.insertAll h.holds)
    else (kept, inner)

/-- The things of a list that stay if `outer` is what the roots and the things before the
    list hold, and what they hold themselves. Whether a thing stays is decided after those
    that follow it: so one pass undoes a chain of things each of which holds one before it. -/
def sweep (outer : Serials) (hs : List Holder) : List Holder × Serials :=
  (mark outer hs).foldr retain ([], ∅)

/-- Sweeps the things, in alternating directions, until a pass changes nothing, at most
    `n` times. -/
def cascadeUpTo (roots : Serials) : Nat → List Holder → List Holder
  | 0, hs => hs
  | n + 1, hs =>
    let kept := (sweep roots hs).1
    if kept.length = hs.length then hs else cascadeUpTo roots n kept.reverse

/-- The things that are left when all that nothing holds has gone. Every pass that changes
    anything leaves fewer things. -/
def cascade (roots : Serials) (hs : List Holder) : List Holder :=
  cascadeUpTo roots hs.length hs

/-! ## One pass -/

variable {roots outer : Serials} {hs : List Holder}

@[simp]
theorem sweep_nil : sweep outer [] = ([], ∅) := rfl

@[simp]
theorem sweep_cons {h : Holder} :
    sweep outer (h :: hs) =
      retain (h, (outer.insertAll h.holds).contains h.serial)
        (sweep (outer.insertAll h.holds) hs) :=
  rfl

/-- A sweep takes holders away and leaves the others in their order. -/
theorem sweep_sublist : (sweep outer hs).1.Sublist hs := by
  induction hs generalizing outer with
  | nil => exact .slnil
  | cons h hs ih =>
    simp only [sweep_cons, retain]
    split
    · exact ih.cons_cons h
    · exact ih.cons h

/-- What is held after a sweep is held by those that are left. -/
theorem contains_sweep {n : Nat} :
    (sweep outer hs).2.contains n ↔ ∃ h ∈ (sweep outer hs).1, n ∈ h.holds := by
  induction hs generalizing outer with
  | nil => simp
  | cons h hs ih =>
    simp only [sweep_cons, retain]
    split
    · simp [ih, or_comm]
    · exact ih

/-- A pass keeps every set of things that are held from outside or by the set. -/
theorem mem_sweep {S : Holder → Prop}
    (hS : ∀ h ∈ hs, S h → outer.contains h.serial ∨ ∃ h' ∈ hs, S h' ∧ h.serial ∈ h'.holds)
    {h : Holder} (hh : h ∈ hs) (hSh : S h) : h ∈ (sweep outer hs).1 := by
  induction hs generalizing outer h with
  | nil => simp at hh
  | cons a hs ih =>
    have tail : ∀ b ∈ hs, S b → b ∈ (sweep (outer.insertAll a.holds) hs).1 := by
      intro b hb hSb
      refine ih (fun c hc hSc => ?_) hb hSb
      rcases hS c (List.mem_cons_of_mem _ hc) hSc with ho | ⟨c', hc', hSc', hold⟩
      · exact .inl (Serials.contains_insertAll.2 (.inl ho))
      · rcases List.mem_cons.1 hc' with rfl | hc'
        · exact .inl (Serials.contains_insertAll.2 (.inr hold))
        · exact .inr ⟨c', hc', hSc', hold⟩
    simp only [sweep_cons, retain]
    rcases List.mem_cons.1 hh with rfl | hh
    · rw [if_pos]
      · exact List.mem_cons_self
      · rw [Bool.or_eq_true, Serials.contains_insertAll, contains_sweep]
        rcases hS h List.mem_cons_self hSh with ho | ⟨c, hc, hSc, hold⟩
        · exact .inl (.inl ho)
        · rcases List.mem_cons.1 hc with rfl | hc
          · exact .inl (.inr hold)
          · exact .inr ⟨c, tail c hc hSc, hold⟩
    · split
      · exact List.mem_cons_of_mem _ (tail h hh hSh)
      · exact tail h hh hSh

/-- Where a pass changes nothing, everything is held. -/
theorem held_of_sweep (e : (sweep outer hs).1.length = hs.length) {h : Holder} (hh : h ∈ hs) :
    outer.contains h.serial ∨ ∃ h' ∈ hs, h.serial ∈ h'.holds := by
  induction hs generalizing outer h with
  | nil => simp at hh
  | cons a hs ih =>
    have le : (sweep (outer.insertAll a.holds) hs).1.length ≤ hs.length := sweep_sublist.length_le
    simp only [sweep_cons, retain] at e
    split at e
    · rename_i held
      rw [Bool.or_eq_true, Serials.contains_insertAll, contains_sweep] at held
      rcases List.mem_cons.1 hh with rfl | hh
      · rcases held with (ho | hold) | ⟨b, hb, hold⟩
        · exact .inl ho
        · exact .inr ⟨h, List.mem_cons_self, hold⟩
        · exact .inr ⟨b, List.mem_cons_of_mem _ (sweep_sublist.subset hb), hold⟩
      · rcases ih (by simpa using e) hh with ho | ⟨b, hb, hold⟩
        · rcases Serials.contains_insertAll.1 ho with ho | hold
          · exact .inl ho
          · exact .inr ⟨a, List.mem_cons_self, hold⟩
        · exact .inr ⟨b, List.mem_cons_of_mem _ hb, hold⟩
    · simp only [List.length_cons] at e
      omega

/-! ## All passes -/

theorem mem_of_mem_cascadeUpTo {n : Nat} {h : Holder} (hh : h ∈ cascadeUpTo roots n hs) :
    h ∈ hs := by
  induction n generalizing hs with
  | zero => exact hh
  | succ n ih =>
    rw [cascadeUpTo] at hh
    split at hh
    · exact hh
    · exact sweep_sublist.subset (List.mem_reverse.1 (ih hh))

/-- What is left of a cascade was there. -/
theorem mem_of_mem_cascade {h : Holder} (hh : h ∈ cascade roots hs) : h ∈ hs :=
  mem_of_mem_cascadeUpTo hh

/-- What is left is held by the roots or by what is left. -/
theorem held_of_mem_cascade {h : Holder} (hh : h ∈ cascade roots hs) :
    roots.contains h.serial ∨ ∃ h' ∈ cascade roots hs, h.serial ∈ h'.holds := by
  suffices ∀ n, hs.length ≤ n → ∀ h ∈ cascadeUpTo roots n hs,
      roots.contains h.serial ∨ ∃ h' ∈ cascadeUpTo roots n hs, h.serial ∈ h'.holds from
    this _ (Nat.le_refl _) h hh
  clear hh h
  intro n
  induction n generalizing hs with
  | zero =>
    intro hn h hh
    rw [cascadeUpTo, List.length_eq_zero_iff.1 (Nat.le_zero.1 hn)] at hh
    simp at hh
  | succ n ih =>
    intro hn h
    have le : (sweep roots hs).1.length ≤ hs.length := sweep_sublist.length_le
    rw [cascadeUpTo]
    split
    · exact held_of_sweep ‹_›
    · exact ih (by rw [List.length_reverse]; omega) h

/-- Every set of things that are held by the roots or by the set is left. -/
theorem mem_cascade {S : Holder → Prop}
    (hS : ∀ h ∈ hs, S h → roots.contains h.serial ∨ ∃ h' ∈ hs, S h' ∧ h.serial ∈ h'.holds)
    {h : Holder} (hh : h ∈ hs) (hSh : S h) : h ∈ cascade roots hs := by
  suffices ∀ n, h ∈ cascadeUpTo roots n hs from this _
  intro n
  induction n generalizing hs with
  | zero => exact hh
  | succ n ih =>
    rw [cascadeUpTo]
    split
    · exact hh
    · refine ih (fun a ha hSa => ?_) (List.mem_reverse.2 (mem_sweep hS hh hSh))
      have ha := sweep_sublist.subset (List.mem_reverse.1 ha)
      rcases hS a ha hSa with ho | ⟨b, hb, hSb, hold⟩
      · exact .inl ho
      · exact .inr ⟨b, List.mem_reverse.2 (mem_sweep hS hb hSb), hSb, hold⟩

end Holder

end Lvalue
