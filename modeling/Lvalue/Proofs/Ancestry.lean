import Lvalue.Proofs.Lifespan

/-!
# Ancestry

From every object that is alive, the prototypes lead to one that has none, and no object
comes twice on the way (`Heap.Grounded`). A change of prototype is refused if it would
lead back, and it is refused by a walk along just these objects: that the walk comes to
an end, and that there is always an end to come to, depend on one another, and hold
together.

So the bounded walk of the heap is never cut short (`Heap.Grounded.path_chainFrom`):
everything that follows a chain follows it to the end.
-/

namespace Lvalue

open Bearer Eval

/-! ## Looking along a chain -/

section

variable {α β : Type} {find find' : α → Option β} {x : α} {b : β} {xs before after : List α}

theorem findSome?_congr (same : ∀ y ∈ xs, find y = find' y) :
    xs.findSome? find = xs.findSome? find' := by
  induction xs with
  | nil => rfl
  | cons y xs ih =>
    rw [List.findSome?_cons, List.findSome?_cons, same y List.mem_cons_self,
      ih fun y mem => same y (List.mem_cons_of_mem _ mem)]

/-- What is to be found at `x` is found where nothing before it is. -/
theorem findSome?_of_hidden (found : find x = some b)
    (hidden : ∀ y ∈ before, y ≠ x → find y = none) :
    (before ++ x :: after).findSome? find = some b := by
  induction before with
  | nil => rw [List.nil_append, List.findSome?_cons, found]
  | cons y before ih =>
    rw [List.cons_append, List.findSome?_cons]
    by_cases e : y = x
    · rw [e, found]
    · rw [hidden y List.mem_cons_self e]
      exact ih fun y mem => hidden y (List.mem_cons_of_mem _ mem)

/-- What is to be found at `x` makes no difference where something before it is found. -/
theorem findSome?_congr_of_covered (same : ∀ y, y ≠ x → find' y = find y)
    (covered : ¬∃ before after, xs = before ++ x :: after ∧ ∀ y ∈ before, find y = none) :
    xs.findSome? find' = xs.findSome? find := by
  induction xs with
  | nil => rfl
  | cons y xs ih =>
    have ne : y ≠ x := by
      rintro rfl
      exact covered ⟨[], xs, rfl, fun _ => nofun⟩
    rw [List.findSome?_cons, List.findSome?_cons, same y ne]
    cases found : find y with
    | some b => rfl
    | none =>
      refine ih fun ⟨before, after, e, hidden⟩ => covered ⟨y :: before, after, by rw [e]; rfl, ?_⟩
      exact List.forall_mem_cons.2 ⟨found, hidden⟩

end

namespace Heap

/-! ## Paths -/

/-- The objects from `start` on, each the prototype of the one before it, up to one that has
    no prototype. -/
inductive Path (h : Heap) : Option ObjectId → List ObjectId → Prop
  | done : Path h none []
  | step {o : ObjectId} {os : List ObjectId} (rest : Path h (h.prototype? o) os) :
    Path h (some o) (o :: os)

variable {h h' : Heap} {start : Option ObjectId} {os os' : List ObjectId} {o : ObjectId}

namespace Path

/-- There is one path from a start. -/
theorem unique (p : h.Path start os) (p' : h.Path start os') : os = os' := by
  induction p generalizing os' with
  | done =>
    cases p'
    rfl
  | step _ ih =>
    cases p' with
    | step rest => rw [ih rest]

/-- Every object on a path starts one, and it is no longer. -/
theorem from_mem (p : h.Path start os) (mem : o ∈ os) :
    ∃ rest, h.Path (some o) rest ∧ rest.length ≤ os.length := by
  induction p with
  | done => contradiction
  | @step o' os rest ih =>
    rcases List.mem_cons.1 mem with rfl | mem
    · exact ⟨_, .step rest, Nat.le_refl _⟩
    · obtain ⟨os', p, le⟩ := ih mem
      exact ⟨os', p, Nat.le_succ_of_le le⟩

/-- No object comes twice on a path. -/
theorem nodup (p : h.Path start os) : os.Nodup := by
  induction p with
  | done => exact List.nodup_nil
  | @step o os rest ih =>
    -- If the object came again, its path would be as long as a part of itself.
    refine List.nodup_cons.2 ⟨fun mem => ?_, ih⟩
    obtain ⟨os', p, le⟩ := rest.from_mem mem
    rw [← unique (.step rest) p] at le
    exact Nat.not_succ_le_self _ le

/-- A walk that is long enough follows the path to its end. -/
theorem walk_eq (p : h.Path start os) {n : Nat} (le : os.length ≤ n) : h.walk n start = os := by
  induction p generalizing n with
  | done => cases n <;> rfl
  | step _ ih =>
    cases n with
    | zero => exact absurd le (Nat.not_succ_le_zero _)
    | succ n => rw [walk, ih (Nat.le_of_succ_le_succ le)]

/-- What leaves the prototypes on a path as they are leaves the path as it is. -/
theorem congr (p : h.Path start os) (same : ∀ o ∈ os, h'.prototype? o = h.prototype? o) :
    h'.Path start os := by
  induction p with
  | done => exact .done
  | @step o os rest ih =>
    refine .step ?_
    rw [same o List.mem_cons_self]
    exact ih fun o ho => same o (List.mem_cons_of_mem _ ho)

/-- If one object gets another prototype, from which there is a path that it is not on, there is
    still a path from everywhere. -/
theorem reroute {prototype : Option ObjectId} (onward : h.Path prototype os') (avoids : o ∉ os')
    (at_ : h'.prototype? o = prototype) (off : ∀ o', o' ≠ o → h'.prototype? o' = h.prototype? o')
    (p : h.Path start os) :
    ∃ rest, h'.Path start rest ∧ ∀ o' ∈ rest, o' ∈ os ∨ o' ∈ os' := by
  induction p with
  | done => exact ⟨[], .done, nofun⟩
  | @step o' os rest ih =>
    by_cases e : o' = o
    · subst e
      refine ⟨o' :: os', .step (at_ ▸ onward.congr fun o ho => off o fun e => avoids (e ▸ ho)), ?_⟩
      intro o mem
      rcases List.mem_cons.1 mem with rfl | mem
      · exact .inl List.mem_cons_self
      · exact .inr mem
    · obtain ⟨os₁, p₁, sub⟩ := ih
      refine ⟨o' :: os₁, .step (off o' e ▸ p₁), fun o mem => ?_⟩
      rcases List.mem_cons.1 mem with rfl | mem
      · exact .inl List.mem_cons_self
      · exact (sub o mem).imp_left (List.mem_cons_of_mem _)

end Path

/-- From every object that is alive there is a path, and only over objects that are alive. -/
def Grounded (h : Heap) : Prop :=
  ∀ o, h.alive o → ∃ os, h.Path (some o) os ∧ ∀ o' ∈ os, h.alive o'

/-- A path over objects that are alive is no longer than the heap. -/
theorem Path.length_le (p : h.Path start os) (alive : ∀ o ∈ os, h.alive o) :
    os.length ≤ h.objects.size := by
  rw [Table.size, ← List.length_map (f := Prod.fst)]
  exact p.nodup.length_le_of_subset fun o ho => Table.contains_iff_mem_keys.1 (alive o ho)

/-- The object is alive, if there is one. -/
def Starts (h : Heap) (start : Option ObjectId) : Prop := ∀ o ∈ start, h.alive o

namespace Grounded

variable (hh : h.Grounded)
include hh

theorem path (hs : h.Starts start) : ∃ os, h.Path start os ∧ ∀ o ∈ os, h.alive o := by
  cases start with
  | none => exact ⟨[], .done, nofun⟩
  | some o => exact hh o (hs o rfl)

/-- The walk of the heap comes to the end of every path. -/
theorem path_chainFrom (hs : h.Starts start) : h.Path start (h.chainFrom start) := by
  obtain ⟨os, p, alive⟩ := hh.path hs
  rwa [chainFrom, p.walk_eq (p.length_le alive)]

theorem alive_of_mem_chainFrom (hs : h.Starts start) (mem : o ∈ h.chainFrom start) : h.alive o := by
  obtain ⟨os, p, alive⟩ := hh.path hs
  exact alive o (p.unique (hh.path_chainFrom hs) ▸ mem)

/-- The chain of an object is the object and the chain of its prototype. -/
theorem chain_eq (ho : h.alive o) : h.chain o = o :: h.chainFrom (h.prototype? o) := by
  obtain ⟨os, p, alive⟩ := hh o ho
  cases p with
  | @step _ os rest =>
    have starts : h.Starts (h.prototype? o) := by
      intro o' e
      rw [Option.mem_def.1 e] at rest
      cases rest
      exact alive o' (List.mem_cons_of_mem _ List.mem_cons_self)
    exact (hh.path_chainFrom fun o' e => Option.some.inj e ▸ ho).unique
      (.step (hh.path_chainFrom starts))

/-- A prototype is refused exactly if the object cannot be extended or is on the path from it. -/
theorem mayInherit_iff {x : Object} (hx : h.get? o = some x) (hs : h.Starts start) :
    h.mayInherit o start ↔ x.extensible ∧ ∃ os, h.Path start os ∧ o ∉ os := by
  have p := hh.path_chainFrom hs
  rw [mayInherit, hx, Option.any_some, Bool.and_eq_true, Bool.not_eq_true', List.contains_eq_mem,
    decide_eq_false_iff_not]
  exact and_congr_right fun _ => ⟨fun avoids => ⟨_, p, avoids⟩, fun ⟨_, p', avoids⟩ =>
    p.unique p' ▸ avoids⟩

/-! ### Changes of the heap -/

/-- No object that was alive has another prototype, and those of new objects are alive. -/
theorem grow (alive : ∀ o, h.alive o → h'.alive o)
    (same : ∀ o, h.alive o → h'.prototype? o = h.prototype? o)
    (new : ∀ o, h'.alive o → h.alive o ∨ h.Starts (h'.prototype? o)) : h'.Grounded := by
  intro o ho
  rcases new o ho with old | fresh
  · obtain ⟨os, p, sub⟩ := hh o old
    exact ⟨os, p.congr fun o ho => same o (sub o ho), fun o ho => alive o (sub o ho)⟩
  · obtain ⟨os, p, sub⟩ := hh.path fresh
    refine ⟨o :: os, .step (p.congr fun o ho => same o (sub o ho)), fun o' mem => ?_⟩
    rcases List.mem_cons.1 mem with rfl | mem
    · exact ho
    · exact alive o' (sub o' mem)

/-- A new object leads to an end if its prototype does. -/
theorem alloc {new : Object} (hs : h.Starts new.prototype) : (h.alloc new).2.Grounded := by
  refine hh.grow (fun o ho => ?_) (fun o ho => ?_) fun o ho => ?_ <;>
    simp only [alive_iff, prototype?, get?_alloc] at ho ⊢
  · split
    · exact ⟨new, rfl⟩
    · exact ho
  · obtain ⟨x, hx⟩ := ho
    have old : ⟨h.next⟩ ≠ o := by
      rintro rfl
      exact Nat.lt_irrefl h.next (serial_lt_next hx)
    rw [if_neg old]
  · split at ho
    · next e => exact .inr (by rwa [if_pos e])
    · exact .inl ho

/-- What has nothing to do with prototypes does no harm. -/
theorem update (o : ObjectId) {f : Object → Object} (hf : ∀ x, (f x).prototype = x.prototype) :
    (h.update o f).Grounded := by
  have same (o' : ObjectId) : (h.update o f).prototype? o' = h.prototype? o' := by
    rw [prototype?, get?_update, prototype?]
    split
    · cases h.get? o' <;> simp [hf]
    · rfl
  exact hh.grow (fun o' => (h.alive_update o o' f).trans) (fun o' _ => same o')
    fun o' ho' => .inl ((h.alive_update o o' f).symm.trans ho')

/-- The refusal of some prototypes is what keeps the paths. -/
theorem setPrototype (o : ObjectId) {prototype : Option ObjectId} (hs : h.Starts prototype) :
    (h.setPrototype o prototype).Grounded := by
  rw [Heap.setPrototype]
  split
  · next may =>
    cases hx : h.get? o with
    | none => simp [mayInherit, hx] at may
    | some x =>
      -- From the new prototype there is a path that does not meet `o`. A path that met `o` turns
      -- off there and goes along it.
      obtain ⟨-, os', onward, avoids⟩ := (hh.mayInherit_iff hx hs).1 may
      let h' := h.update o fun x => { x with prototype }
      have get? (o' : ObjectId) : h'.get? o' =
          if o = o' then (h.get? o').map ({ · with prototype }) else h.get? o' := get?_update ..
      have alive (o' : ObjectId) : h'.alive o' = h.alive o' := h.alive_update ..
      have at_ : h'.prototype? o = prototype := by rw [prototype?, get?, if_pos rfl, hx]; rfl
      have off (o' : ObjectId) (ne : o' ≠ o) : h'.prototype? o' = h.prototype? o' := by
        rw [prototype?, get?, if_neg ne.symm, prototype?]
      intro o' ho'
      obtain ⟨os, p, sub⟩ := hh o' ((alive o').symm.trans ho')
      obtain ⟨rest, p', mem⟩ := Path.reroute onward avoids at_ off p
      refine ⟨rest, p', fun o₁ h₁ => (alive o₁).trans ?_⟩
      rcases mem o₁ h₁ with old | new
      · exact sub o₁ old
      · exact hh.alive_of_mem_chainFrom hs (onward.unique (hh.path_chainFrom hs) ▸ new)
  · exact hh

end Grounded

theorem grounded_initial : Heap.initial.Grounded := by
  intro o ho
  obtain ⟨i, rfl⟩ : ∃ i : Intrinsic, i.id = o := by
    have keys : Heap.initial.objects.keys = Intrinsic.all.map (·.id) := by decide
    obtain ⟨i, -, e⟩ := List.mem_map.1 (keys ▸ Table.contains_iff_mem_keys.1 ho)
    exact ⟨i, e⟩
  have top : Heap.initial.Path (some Intrinsic.object.id) [Intrinsic.object.id] := .step .done
  have alive : Heap.initial.alive Intrinsic.object.id := by decide
  cases i
  case object => exact ⟨_, top, by simpa using alive⟩
  all_goals exact ⟨_, .step top, by simp [alive, ho]⟩

end Heap

/-! ## Worlds -/

namespace World

variable {w w' : World}

/-- Every change among objects that are there keeps the paths. -/
theorem grounded_of_change (hh : w.heap.Grounded) (h : ChangeAmong w.Present w w') :
    w'.heap.Grounded := by
  cases h with
  | handles | journal | nextSymbol | registry | allocScope | rebind => exact hh
  | alloc held weak =>
    refine hh.alloc fun o ho => held (.object o) ?_
    rw [things_properties, Option.mem_def.1 ho]
    simp
  | setPrototype ho hp =>
    refine hh.setPrototype _ fun o ho => hp (.object o) ?_
    rw [Option.mem_def.1 ho]
    exact List.mem_singleton_self _
  | preventExtensions | entries | weakInsert | weakErase => exact hh.update _ fun _ => rfl
  | define k => exact hh.update _ fun x => by rw [Object.define]; split <;> rfl
  | delete k => exact hh.update _ fun x => by rw [Object.delete]; split <;> rfl

/-- Of a live object, all that it inherits from is live. -/
theorem live_of_path {start : Option ObjectId} {os : List ObjectId} (p : w.heap.Path start os)
    (alive : ∀ o ∈ os, w.heap.alive o) (live : ∀ o ∈ start, w.Live (.object o)) :
    ∀ o ∈ os, w.Live (.object o) := by
  induction p with
  | done => exact fun _ => nofun
  | @step o os rest ih =>
    have ho : w.Live (.object o) := live o rfl
    have next : ∀ o' ∈ w.heap.prototype? o, w.Live (.object o') := by
      intro o' ho'
      refine live_of_held (alive o' (List.mem_cons_of_mem _ ?_))
        (.inr ⟨_, ho, mem_holds_of_prototype ho'⟩)
      rw [Option.mem_def.1 ho'] at rest
      cases rest
      exact List.mem_cons_self
    intro o' mem
    rcases List.mem_cons.1 mem with rfl | mem
    · exact ho
    · exact ih (fun o ho => alive o (List.mem_cons_of_mem _ ho)) next o' mem

/-- To settle leaves the prototypes of live objects as they are. -/
theorem grounded_settle (hh : w.heap.Grounded) : w.settle.heap.Grounded := by
  intro o live
  obtain ⟨os, p, alive⟩ := hh o (present_of_live (t := .object o) live)
  have live := live_of_path p alive fun o' e => Option.some.inj e ▸ live
  refine ⟨os, p.congr fun o ho => ?_, live⟩
  rw [Heap.prototype?, get?_heap_settle, if_pos (live_object.1 (live o ho)).1, Heap.prototype?]

end World

/-- The custody of intact worlds with grounded heaps. -/
def Custody.ancestry : Custody :=
  (ownership fun _ => False).onHeap Heap.Grounded
    (fun _ hh h => World.grounded_of_change hh (h.mono fun _ ht => ht.1))
    (fun _ hh => World.grounded_settle hh)

/-! ## Runs -/

namespace World

variable {w : World}

/-- What follows prototypes comes to an end, and prototypes are given and refused as is due. -/
structure Ancestral (w : World) : Prop where
  /-- From an object, if there is one, a path leads to an object without a prototype, and no object
      comes twice. The walk of the heap follows it to its end, and would see no more if it were
      longer. So does all that goes by the walk: lookups of properties, of handlers and of
      inherited entries, and the look for a cycle. -/
  walks : ∀ start, w.heap.Starts start → ∃ os, w.heap.Path start os ∧ os.Nodup ∧
    (∀ o ∈ os, w.heap.alive o) ∧ w.heap.chainFrom start = os ∧
    ∀ n, w.heap.objects.size ≤ n → w.heap.walk n start = os
  /-- A command that sets a prototype answers whether the object is extensible and not on the path
      from its new prototype. If so, only its prototype changes, and if not, nothing does. -/
  setPrototype : ∀ (run : Caller) (obj : Expr) (proto : Option Expr) (o : ObjectId)
    (prototype : Option ObjectId),
    obj.object.on w = (.ok o, w) → (Expr.objectOption proto).on w = (.ok prototype, w) →
    ∃ (x : Object) (b : Bool), w.heap.get? o = some x ∧
      (b ↔ x.extensible ∧ ∃ os, w.heap.Path prototype os ∧ o ∉ os) ∧
      (runCommand run (.setPrototype obj proto)).on w = (.ok (.flag b),
        if b then { w with heap := w.heap.update o ({ · with prototype }) } else w)

theorem Sealed.ancestral (hw : w.Intact) (hh : w.heap.Grounded) : w.Ancestral where
  walks start hs := by
    have p := hh.path_chainFrom hs
    have alive (o : ObjectId) (mem : o ∈ w.heap.chainFrom start) : w.heap.alive o :=
      hh.alive_of_mem_chainFrom hs mem
    exact ⟨_, p, p.nodup, alive, rfl, fun n le => p.walk_eq (Nat.le_trans (p.length_le alive) le)⟩
  setPrototype run obj proto o prototype ho hp := by
    -- What a command names is anchored, and so it is there.
    have there {t : Thing} (h : t ∈ [] ∨ t ∈ w.named) : w.Present t :=
      (hw.anchors t (mem_anchors.2 (.inl (h.resolve_left List.not_mem_nil)))).1
    obtain ⟨x, hx⟩ := present_object.1
      (there ((fetches_object obj).result w o (congrArg Prod.fst ho) _ (List.mem_singleton_self _)))
    have starts : w.heap.Starts prototype := by
      rintro o' rfl
      exact there (t := .object o')
        ((fetches_objectOption proto).result w _ (congrArg Prod.fst hp) _ (by simp))
    refine ⟨x, w.heap.mayInherit o prototype, hx, hh.mayInherit_iff hx starts, ?_⟩
    rw [runCommand, on_bind, ho]
    dsimp only
    rw [on_bind, hp]
    change (Except.ok (Answer.flag (w.heap.mayInherit o prototype)),
      { w with heap := w.heap.setPrototype o prototype }) = _
    rw [Heap.setPrototype]
    split <;> rfl

theorem ancestry_initial (config : Config) : Custody.ancestry.order ⟨0, []⟩ (initial config) := by
  refine ⟨⟨intact_initial config, ?_⟩, ?_⟩
  · rw [initial]
    split <;> rfl
  · rw [heap_initial]
    exact Heap.grounded_initial

/-- Between the actions of a session, all paths of prototypes come to an end. -/
theorem ancestry_performAll (config : Config) (as : List Action) :
    Custody.ancestry.order ⟨0, []⟩ ((initial config).performAll as).2 :=
  performAll_in_custody as (ancestry_initial config)

end World

/-- Prototype chains are finite, without repetition, and stay so. Take any behaviour, and a body
    that runs a program from the world at the start of a session, or any other in which nothing is
    held that is not there and all paths of prototypes come to an end. Whenever a step starts or
    ends, in the body itself or in any function or handler inside it, everything that follows
    prototypes comes to an end, and prototypes are given and refused as is due, so that no watch
    for that strikes. -/
theorem ancestral_at_every_step (config : Config) (B : Behaviour) (strike : World → World)
    (budget n : Nat) (p : Program Action) {w : World} (hw : w.Intact) (hh : w.heap.Grounded) :
    let run := runAction (B.runner budget n)
    let watch := watchAction World.Ancestral strike
      (B.runnerUnder (fun _ act => act) (fun _ => World.Ancestral) strike budget 0 n)
    let w' := ((p.run run).on w).2
    ((World.initial config).Intact ∧ (World.initial config).heap.Grounded) ∧
    w.Ancestral ∧ (p.run watch).on w = (p.run run).on w ∧ w'.Ancestral ∧
    w'.Intact ∧ w'.heap.Grounded := by
  intro run watch w'
  have order : Custody.ancestry.order ⟨0, w.handles.operands⟩ w := ⟨⟨hw, rfl⟩, hh⟩
  obtain ⟨same, ends⟩ := B.run_in_custody strike budget n p .ancestry (S := World.Ancestral)
    (fun _ _ _ order => order.1.1.ancestral order.2) order
  have start := World.ancestry_initial config
  exact ⟨⟨start.1.1, start.2⟩, hw.ancestral hh, same, ends.1.1.ancestral ends.2, ends.1.1, ends.2⟩

/-- The end of a chain of three may not inherit from its start, and a step asks for just that. -/
theorem ancestral_at_every_step_of_cycle :
    let w := ((World.initial {}).performAll
      [.command (.new .ordinary .none (some "a")),
        .command (.newChain (.register "a") 2 (some "c"))]).2
    let p : Program Action :=
      .step (.command (.setPrototype (.register "a") (some (.register "c")))) fun _ => .finish none
    let w' := ((p.run (runAction (Behaviour.scripted.runner 1 1))).on w).2
    w.Intact ∧ w.heap.Grounded ∧ w.Ancestral ∧ w'.Ancestral ∧
      w'.heap.chain ⟨10⟩ = [⟨10⟩, ⟨9⟩, ⟨8⟩] := by
  intro w p w'
  have start := World.ancestry_performAll {}
    [.command (.new .ordinary .none (some "a")), .command (.newChain (.register "a") 2 (some "c"))]
  obtain ⟨-, before, -, after, -⟩ :=
    ancestral_at_every_step {} Behaviour.scripted id 1 1 p start.1.1 start.2
  exact ⟨start.1.1, start.2, before, after, by decide +kernel⟩

end Lvalue
