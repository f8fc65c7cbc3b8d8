import Lvalue.Proofs.Visibility

/-!
# Commutation

Two writes to different properties of objects come to the same end in either order, if there
is no function to be called for them. Each is decided by what is found along a chain and by the
receiver, and the one may well change what is found for the other: the first object may inherit
from the second, and the key may be the same. But what it is changed to is a value that may
change, and the write that changed it had found one, or nothing, from there on as well
(`World.Assigned.lookup_cases`). So neither write can make a difference to the fate of the other
(`World.Attempted.fate`).

The worlds that are left are the same but for the order in which objects have got their
properties (`World.Alike`).
-/

namespace Lvalue

open Bearer Eval

/-! ## What one write leaves of another -/

namespace Heap

variable {h : Heap} {o target : ObjectId} {k : Key}

/-- An object on a path is the start of the rest of it. -/
theorem Path.of_append {start : Option ObjectId} {before after : List ObjectId}
    (p : h.Path start (before ++ o :: after)) : h.Path (some o) (o :: after) := by
  induction before generalizing start with
  | nil =>
    cases p with
    | step rest => exact .step rest
  | cons o' before ih =>
    cases p with
    | step rest => exact ih rest

/-- From where a property of an object can be seen, the same is found as from the object. -/
theorem Grounded.lookup_of_uncovers (hh : h.Grounded) (alive : h.alive o)
    (uncovers : h.Uncovers k o target) : h.lookup o k = h.lookup target k := by
  obtain ⟨before, after, chain, hidden⟩ := uncovers
  have path : h.Path (some o) (before ++ target :: after) :=
    chain ▸ hh.path_chainFrom fun _ e => Option.some.inj e ▸ alive
  have mem : target ∈ h.chain o := chain ▸ List.mem_append_right _ List.mem_cons_self
  have alive' : h.alive target :=
    hh.alive_of_mem_chainFrom (fun _ e => Option.some.inj e ▸ alive) mem
  have rest : h.chain target = target :: after :=
    (hh.path_chainFrom fun _ e => Option.some.inj e ▸ alive').unique path.of_append
  rw [lookup, lookup, chain, rest, List.findSome?_append,
    List.findSome?_eq_none_iff.2 fun o' mem => by rw [hidden o' mem]; rfl, Option.none_or]

end Heap

namespace World

variable {w w' : World} {target o : ObjectId} {k k' : Key} {v : Value}

namespace Assigned

variable (h : w.Assigned target k v w')
include h

/-- After a write, either the same is found as before, or it is what was written, and before it was
    what the receiver itself had or inherited. -/
theorem lookup_cases (hh : w.heap.Grounded) (o : ObjectId) (k' : Key) :
    w'.heap.lookup o k' = w.heap.lookup o k' ∨
      w'.heap.lookup o k' = some (target, w.heap.successor target k v) ∧
        w.heap.lookup o k' = w.heap.lookup target k := by
  by_cases alive : w'.heap.alive o
  · by_cases seen : k' = k ∧ w.heap.Uncovers k o target
    · obtain ⟨rfl, uncovers⟩ := seen
      exact .inr ⟨h.lookup_of_uncovers hh alive uncovers,
        hh.lookup_of_uncovers ((h.alive o).symm.trans alive) uncovers⟩
    · exact .inl (h.lookup_of_covered hh alive seen)
  · have dead : ¬w.heap.alive o := by rwa [← h.alive o]
    rw [Heap.lookup_of_dead alive, Heap.lookup_of_dead dead]
    exact .inl rfl

theorem plain (hh : w.heap.Grounded) (plain : w.heap.Plain o k') : w'.heap.Plain o k' := by
  intro holder p getter setter found slot
  rcases h.lookup_cases hh o k' with same | ⟨written, -⟩
  · exact plain holder p getter setter (same.symm.trans found) slot
  · rw [written] at found
    cases found
    cases slot

/-- A write changes nothing about what stands against others. -/
theorem passes_iff (hh : w.heap.Grounded) (passes : w.heap.Passes target k) :
    w'.heap.Passes o k' ↔ w.heap.Passes o k' := by
  rcases h.lookup_cases hh o k' with same | ⟨written, before⟩
  · rw [Heap.Passes, same, Heap.Passes]
  · refine ⟨fun _ => ?_, fun _ holder p found => ?_⟩
    · rw [Heap.Passes, before]
      exact passes
    · rw [written] at found
      cases found
      exact ⟨v, rfl⟩

/-- What an object takes elsewhere does not depend on what it has got. -/
theorem takes_iff (other : o ≠ target ∨ k' ≠ k) : w'.heap.Takes k' o ↔ w.heap.Takes k' o := by
  have extensible : (∃ x, w'.heap.get? o = some x ∧ x.extensible = true) ↔
      ∃ x, w.heap.get? o = some x ∧ x.extensible = true := by
    have same := congrArg (·.map (·.extensible)) (h.objects o)
    simp only [Option.map_map] at same
    simpa [Option.map_eq_some_iff] using congrArg (· = some true) same
  rw [Heap.Takes, h.others o k' other, extensible, Heap.Takes]

theorem successor (other : o ≠ target ∨ k' ≠ k) (v' : Value) :
    w'.heap.successor o k' v' = w.heap.successor o k' v' := by
  rw [Heap.successor, h.others o k' other, Heap.successor]

end Assigned

/-! ## Attempts -/

namespace Attempted

variable {condition : Prop} {b : Bool} (h : w.Attempted k v (.object target) condition b w')
include h

/-- What an object has at a key after an attempt. -/
theorem own? (o : ObjectId) (k' : Key) :
    w'.heap.own? o k' =
      if b = true ∧ o = target ∧ k' = k then some (w.heap.successor target k v)
      else w.heap.own? o k' := by
  cases b with
  | false => rw [h.unchanged rfl, if_neg fun c => Bool.false_ne_true c.1]
  | true =>
    have assigned := h.assigned rfl target rfl
    by_cases e : o = target ∧ k' = k
    · obtain ⟨rfl, rfl⟩ := e
      rw [assigned.own, if_pos ⟨rfl, rfl, rfl⟩]
    · rw [if_neg fun c => e c.2, assigned.others o k' (Classical.not_and_iff_not_or_not.1 e)]

theorem objects (o : ObjectId) : (w'.heap.get? o).map ({ · with properties := ∅ }) =
    (w.heap.get? o).map ({ · with properties := ∅ }) := by
  cases b with
  | false => rw [h.unchanged rfl]
  | true => exact (h.assigned rfl target rfl).objects o

theorem frame : ∃ heap, w' = { w with heap } ∧ heap.next = w.heap.next := by
  cases b with
  | false => exact ⟨w.heap, h.unchanged rfl, rfl⟩
  | true => exact (h.assigned rfl target rfl).frame

theorem plain (hh : w.heap.Grounded) (plain : w.heap.Plain o k') : w'.heap.Plain o k' := by
  cases b with
  | false => rwa [h.unchanged rfl]
  | true => exact (h.assigned rfl target rfl).plain hh plain

/-- An attempt that needs what is found to let it pass decides nothing about another one. -/
theorem fate (hh : w.heap.Grounded) (passes : condition → w.heap.Passes target k)
    (other : o ≠ target ∨ k' ≠ k) :
    w'.heap.Passes o k' ∧ w'.heap.Takes k' o ↔ w.heap.Passes o k' ∧ w.heap.Takes k' o := by
  cases b with
  | false => rw [h.unchanged rfl]
  | true =>
    have assigned := h.assigned rfl target rfl
    rw [assigned.passes_iff hh (passes (h.succeeds.1 rfl)), assigned.takes_iff other]

theorem successor (other : o ≠ target ∨ k' ≠ k) (v' : Value) :
    w'.heap.successor o k' v' = w.heap.successor o k' v' := by
  cases b with
  | false => rw [h.unchanged rfl]
  | true => exact (h.assigned rfl target rfl).successor other v'

end Attempted

/-! ## Worlds that are alike -/

/-- The same objects, with the same properties, but that these may have come in another order; and
    everything else is the same. -/
structure Alike (w w' : World) : Prop where
  own : ∀ o k, w'.heap.own? o k = w.heap.own? o k
  /-- An object is of the same kind, with the same prototype, and extensible or not. -/
  objects : ∀ o, (w'.heap.get? o).map ({ · with properties := ∅ }) =
    (w.heap.get? o).map ({ · with properties := ∅ })
  frame : ∃ heap, w' = { w with heap } ∧ heap.next = w.heap.next

theorem Alike.symm (h : w.Alike w') : w'.Alike w where
  own o k := (h.own o k).symm
  objects o := (h.objects o).symm
  frame := by
    obtain ⟨heap, rfl, next⟩ := h.frame
    exact ⟨w.heap, rfl, next.symm⟩

/-- Things are held whatever the order of the properties that hold them. -/
theorem Alike.holds_subset (h : w.Alike w') (t : Thing) : w.holds t ⊆ w'.holds t := by
  cases t with
  | scope s =>
    obtain ⟨heap, rfl, -⟩ := h.frame
    exact List.Subset.refl _
  | object o =>
    intro t held
    rcases mem_holds.1 held with ⟨_, x, ⟨⟩, hx, mem⟩ | ⟨_, _, ⟨⟩, -, -⟩
    obtain ⟨x', hx', same⟩ : ∃ x', w'.heap.get? o = some x' ∧
        ({ x' with properties := ∅ } : Object) = { x with properties := ∅ } :=
      Option.map_eq_some_iff.1 ((h.objects o).trans (congrArg _ hx))
    injection same with kind prototype
    rw [things_properties, List.mem_append, List.mem_append] at mem
    rcases mem with (ofKind | ofPrototype) | ofProperties
    · exact mem_holds_of_kind (Option.map_eq_some_iff.2 ⟨x', hx', kind⟩) ofKind
    · rw [mem_holds_object hx', things_properties, prototype]
      exact List.mem_append_left _ (List.mem_append_right _ ofPrototype)
    · obtain ⟨p, mem, ht⟩ := mem_things.1 ofProperties
      obtain ⟨k, hk⟩ := Table.mem_values.1 mem
      have own : w.heap.own? o k = some p := by rw [Heap.own?, hx]; exact hk
      exact mem_holds_of_own ((h.own o k).trans own) ht

/-- What is live in a world is live in one that is like it. -/
theorem Alike.live {t : Thing} (h : w.Alike w') (live : w.Live t) : w'.Live t := by
  have anchors : w.anchors = w'.anchors := by
    obtain ⟨heap, rfl, -⟩ := h.frame
    rfl
  refine live.mono (fun t => (anchors ▸ ·)) fun t ht => ⟨?_, h.holds_subset t⟩
  have present := present_of_live ht
  cases t with
  | scope s =>
    obtain ⟨heap, rfl, -⟩ := h.frame
    exact present
  | object o =>
    have same := congrArg Option.isSome (h.objects o)
    simp only [Option.isSome_map] at same
    exact same.trans present

end World

/-! ## Two writes -/

section

variable {w w' : World} {o o' : ObjectId} {k k' : Key} {v v' : Value}

/-- Of two writes in either order, nothing is left to tell which was the first. -/
theorem World.alike_of_attempts {w₁ w₂ w₁₂ w₂₁ : World} {c c' d d' : Prop} {b b' : Bool}
    (apart : o ≠ o' ∨ k ≠ k')
    (first : w.Attempted k v (.object o) c b w₁) (then_ : w₁.Attempted k' v' (.object o') c' b' w₁₂)
    (other : w.Attempted k' v' (.object o') d' b' w₂)
    (last : w₂.Attempted k v (.object o) d b w₂₁) :
    w₁₂.Alike w₂₁ where
  own o₀ k₀ := by
    have apart' : o' ≠ o ∨ k' ≠ k := apart.imp Ne.symm Ne.symm
    -- Each write decides what it writes by a property that the other one does not touch.
    rw [last.own?, other.own?, then_.own?, first.own?, other.successor apart,
      first.successor apart']
    by_cases here : b = true ∧ o₀ = o ∧ k₀ = k
    · rw [if_pos here, if_neg, if_pos here]
      rintro ⟨-, e, e'⟩
      exact apart.elim (· (here.2.1.symm.trans e)) (· (here.2.2.symm.trans e'))
    · rw [if_neg here, if_neg here]
  objects o₀ := by
    rw [last.objects, other.objects, then_.objects, first.objects]
  frame := by
    obtain ⟨_, rfl, next₁⟩ := first.frame
    obtain ⟨_, rfl, next₁₂⟩ := then_.frame
    obtain ⟨_, rfl, next₂⟩ := other.frame
    obtain ⟨heap, rfl, next₂₁⟩ := last.frame
    exact ⟨heap, rfl, (next₂₁.trans next₂).trans (next₁₂.trans next₁).symm⟩

/-- How a write to a property ends that is accepted, or not. -/
def writeResult (k : Key) (strict accepted : Bool) : Except Halt Unit :=
  if !accepted && strict then .error (.raised (.readOnly (k.spell .full))) else .ok ()

theorem on_writeReference_of_answer {run : Runner} {base : Value} {this : Option Value}
    {accepted : Bool} (on : (writeMember run base k this v).on w = (.ok accepted, w'))
    (strict : Bool) :
    (writeReference run (.member base k this strict) v).on w =
      (writeResult k strict accepted, w') := by
  rw [writeReference_member, on_bind_of_ok on, reportRejection, writeResult]
  split <;> rfl

end

/-- Two writes to different properties of objects come to the same end in either order, in any heap
    whose prototypes lead to an end from everywhere, unless one of them meets a function that
    writes. The one object may inherit from the other, and the key may be the same.

    Each write has the same result in both orders, and runs no function: it is done, or the
    reference reports that it was rejected. The two worlds that are left have the same objects
    alive, of the same kinds, with the same properties and prototypes, extensible or not, and differ
    in nothing else. -/
theorem plain_writes_commute {w : World} (hh : w.heap.Grounded) {o o' : ObjectId} {k k' : Key}
    (apart : o ≠ o' ∨ k ≠ k') (plain : w.heap.Plain o k) (plain' : w.heap.Plain o' k')
    (v v' : Value) (strict strict' : Bool) :
    let r := Reference.member (.object o) k none strict
    let r' := Reference.member (.object o') k' none strict'
    ∃ (b b' : Bool) (w₁ w₁₂ w₂ w₂₁ : World),
      (∀ run, (writeReference run r v).on w = (writeResult k strict b, w₁) ∧
        (writeReference run r' v').on w₁ = (writeResult k' strict' b', w₁₂)) ∧
      (∀ run, (writeReference run r' v').on w = (writeResult k' strict' b', w₂) ∧
        (writeReference run r v).on w₂ = (writeResult k strict b, w₂₁)) ∧
      w₁₂.Alike w₂₁ ∧ ∀ t, w₁₂.Live t ↔ w₂₁.Live t := by
  intro r r'
  have apart' : o' ≠ o ∨ k' ≠ k := apart.imp Ne.symm Ne.symm
  obtain ⟨b, w₁, on₁, ends₁⟩ := attempted_writeMember plain none v
  obtain ⟨b', w₂, on₂, ends₂⟩ := attempted_writeMember plain' none v'
  obtain ⟨c', w₁₂, on₁₂, ends₁₂⟩ := attempted_writeMember (ends₁.plain hh plain') none v'
  obtain ⟨c, w₂₁, on₂₁, ends₂₁⟩ := attempted_writeMember (ends₂.plain hh plain) none v
  -- Neither write can change the fate of the other.
  obtain rfl : b' = c' := Bool.eq_iff_iff.2
    (ends₂.succeeds.trans ((ends₁.fate hh And.left apart').symm.trans ends₁₂.succeeds.symm))
  obtain rfl : b = c := Bool.eq_iff_iff.2
    (ends₁.succeeds.trans ((ends₂.fate hh And.left apart).symm.trans ends₂₁.succeeds.symm))
  have alike : w₁₂.Alike w₂₁ := World.alike_of_attempts apart ends₁ ends₁₂ ends₂ ends₂₁
  refine ⟨b, b', w₁, w₁₂, w₂, w₂₁, fun run => ⟨?_, ?_⟩, fun run => ⟨?_, ?_⟩, alike,
    fun t => ⟨alike.live, alike.symm.live⟩⟩
  · exact on_writeReference_of_answer (on₁ run) strict
  · exact on_writeReference_of_answer (on₁₂ run) strict'
  · exact on_writeReference_of_answer (on₂ run) strict'
  · exact on_writeReference_of_answer (on₂₁ run) strict

/-- An object and one that inherits the property from it: whichever is written first, the write to
    the other one comes to the same end. -/
theorem plain_writes_commute_of_child :
    let w := ((World.initial {}).performAll
      [.command (.new .ordinary .none (some "a")),
        .command (.define (.register "a") (.text "x") (.data .null true true true)),
        .command (.newChain (.register "a") 1 (some "b"))]).2
    let k : Key := .text (.text "x")
    let r := Reference.member (.object ⟨8⟩) k none true
    let r' := Reference.member (.object ⟨9⟩) k none true
    w.heap.Grounded ∧ w.heap.Plain ⟨8⟩ k ∧ w.heap.Plain ⟨9⟩ k ∧
      ∃ (b b' : Bool) (w₁ w₁₂ w₂ w₂₁ : World),
        (∀ run, (writeReference run r (.bool true)).on w = (writeResult k true b, w₁) ∧
          (writeReference run r' (.bool false)).on w₁ = (writeResult k true b', w₁₂)) ∧
        (∀ run, (writeReference run r' (.bool false)).on w = (writeResult k true b', w₂) ∧
          (writeReference run r (.bool true)).on w₂ = (writeResult k true b, w₂₁)) ∧
        w₁₂.Alike w₂₁ ∧ ∀ t, w₁₂.Live t ↔ w₂₁.Live t := by
  intro w k r r'
  have grounded : w.heap.Grounded := (World.ancestry_performAll {} _).2
  have found : w.heap.lookup ⟨8⟩ k = some (⟨8⟩, .plain .null) := by decide +kernel
  have inherited : w.heap.lookup ⟨9⟩ k = some (⟨8⟩, .plain .null) := by decide +kernel
  clear_value w
  -- What is found on both chains is a value and not a pair of functions.
  have plain {o : ObjectId} (h : w.heap.lookup o k = some (⟨8⟩, .plain .null)) :
      w.heap.Plain o k := by
    intro holder p getter setter e slot
    rw [h] at e
    cases e
    cases slot
  exact ⟨grounded, plain found, plain inherited, plain_writes_commute grounded (.inl (by decide))
    (plain found) (plain inherited) (.bool true) (.bool false) true true⟩

end Lvalue
