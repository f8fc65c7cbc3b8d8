import Lvalue.Proofs.Filing

/-!
# Primitive receivers

A primitive value has no private state. It gets a new wrapper in every operation through a
name, and what is written is filed for the wrapper. No other operation has to do with that
wrapper, so that nothing that is written is ever found again, and a read finds what the
prototype has that all primitive values of the type have in common.

A map holds the wrapper, and has one entry more after every write. A weak map does not hold
it: the wrapper is dead when the write is over, and the next write drops its entry. So there
is at most one such entry. What else dies in a write is held by the dead entries that the
weak map has dropped. They have primitive values, unless they were there before; so if no
weak map that is written to had dead entries to begin with, no write kills anything.

Every step of a run passes by all that was there (`World.Passes`), and so does the run
(`PrimitiveReceiver.Run`).
-/

namespace Lvalue

open Bearer Eval

namespace PrivateState

variable {names : ObjectId → Prop} {w w' : World} {m : ObjectId} {v base : Value} {i : Intrinsic}

theorem Ready.past (ready : Ready names w) (hm : names m) : w.Past (.object m) := by
  by_cases dead : w.Dead (.object m)
  · exact dead.1
  · exact World.past_of_present (World.present_of_live ((ready.isMap m hm dead).live dead))

theorem Ready.passes {written : List ObjectId} (ready : Ready names w)
    (h : w.Passes written w') : Ready names w' where
  intact := h.follows.intact
  grounded := h.grounded ready.grounded
  room := by
    obtain ⟨_, _, rfl⟩ := h.frame
    exact ready.room
  isMap m hm alive :=
    h.isMap ready.intact (ready.isMap m hm fun dead => alive (h.follows.outlives _ dead)) alive
  served m hm alive op := by
    have before : ¬w.Dead (.object m) := fun dead => alive (h.follows.outlives _ dead)
    have live := (h.isMap ready.intact (ready.isMap m hm before) alive).live alive
    rw [(h.chain ready.grounded (ready.past hm) live).1]
    obtain ⟨_, _, rfl⟩ := h.frame
    exact ready.served m hm before op

/-- A read with a primitive base finds what the prototype of its wrapper has. -/
theorem Ready.on_readPrimitive (ready : Ready names w) (hm : names m)
    (alive : w.Live (.object m)) (hi : Intrinsic.ofPrimitive base = some i) (run : Runner)
    (strict : Bool) : (readReference run (.abstractMember base m strict)).on w =
      (.ok (w.privateValue m i.id), w.coerced base) := by
  have passes := World.passes_coerced ready.intact hi
  have ready' := ready.passes passes
  have alive' := passes.stays alive
  have isMap := ready.isMap m hm fun dead => dead.2 alive
  have nullish : base.isNullish = false := isNullish_of_ofPrimitive hi
  have intrinsic : w.Live (.object i.id) := ready.intact.live_of_anchor (w.anchored_intrinsic i)
  have wrapped := World.get?_receiver (w := w) hi
  have new : (w.coerced base).entryOf m (w.receiver base) = none := by
    have past : w.Past (.object m) := ready.past hm
    rw [World.entryOf, World.valueAt?_object, Heap.kind?, World.get?_coerced_of_past past,
      ← Heap.kind?]
    rcases isMap with ⟨entries, is⟩ | ⟨entries, is⟩ <;> rw [is, Option.bind_some, Kind.slot?]
    · exact World.entries_of_new ready.intact is (World.fresh_receiver hi)
    · refine Option.eq_none_iff_forall_ne_some.2 fun x found => World.fresh_receiver (w := w) hi ?_
      exact ready.intact.past_of_weakEntry (by rw [World.weakEntries?, is]) found
  rw [Ready.on_readOf base nullish ready' hm alive' run strict,
    World.privateValue_of_no_entry ready'.grounded (Option.isSome_iff_exists.2 ⟨_, wrapped⟩) new,
    Heap.prototype?, wrapped]
  have same := passes.privateValue ready.intact ready.grounded isMap alive'
    (World.past_of_present (World.present_of_live intrinsic)) (passes.stays intrinsic)
  exact congrArg (Except.ok ·, w.coerced base) same

end PrivateState

/-! ## Runs -/

namespace PrimitiveReceiver

open PrivateState

/-- One step: a write of a primitive value with a primitive base, a read with any base, or what is
    dead goes. The names are alive. The maps that are written to are listed. -/
inductive Step (run : Runner) (names : ObjectId → Prop) : List ObjectId → World → World → Prop
  | write {w : World} {m : ObjectId} {base v : Value} {i : Intrinsic} (strict : Bool)
    (name : names m) (map : w.Live (.object m)) (primitive : Intrinsic.ofPrimitive base = some i)
    (value : v.object? = none) :
    Step run names [m] w ((writeReference run (.abstractMember base m strict) v).on w).2
  | read {w : World} {m : ObjectId} (base : Value) (strict : Bool) (name : names m)
    (map : w.Live (.object m)) :
    Step run names [] w ((readReference run (.abstractMember base m strict)).on w).2
  | settle {w : World} : Step run names [] w w.settle

/-- Steps one after the other, and the maps that they have written to, each as often as they
    have. -/
inductive Run (run : Runner) (names : ObjectId → Prop) (w₀ : World) : List ObjectId → World → Prop
  | start : Run run names w₀ [] w₀
  | step {written target : List ObjectId} {w w' : World} (before : Run run names w₀ written w)
    (step : Step run names target w w') : Run run names w₀ (target ++ written) w'

variable {run : Runner} {names : ObjectId → Prop} {w w' w₀ : World} {m : ObjectId} {v base : Value}
  {i : Intrinsic} {written : List ObjectId}

/-- A read passes by all that is there. -/
theorem passes_read (ready : Ready names w) (hm : names m) (alive : w.Live (.object m))
    (base : Value) (strict : Bool) :
    w.Passes [] ((readReference run (.abstractMember base m strict)).on w).2 := by
  cases hb : base.isNullish with
  | true =>
    rw [readReference, resolveAbstract, on_bind_of_ok (on_see ..), on_bind,
      on_coerceBase_of_nullish hb]
    exact .refl ready.intact
  | false =>
    cases hi : Intrinsic.ofPrimitive base with
    | some i =>
      rw [ready.on_readPrimitive hm alive hi]
      exact World.passes_coerced ready.intact hi
    | none =>
      have same : w.coerced base = w := by rw [World.coerced, hi]
      rw [Ready.on_readOf base hb (same.symm ▸ ready) hm (same.symm ▸ alive), same]
      exact .refl ready.intact

/-- A write passes by all but the map. -/
theorem passes_write (run : Runner) (ready : Ready names w) (hm : names m)
    (alive : w.Live (.object m))
    (hi : Intrinsic.ofPrimitive base = some i) (hv : v.object? = none) (strict : Bool) :
    ∃ w', (writeReference run (.abstractMember base m strict) v).on w = (.ok (), w') ∧
      w.Passes [m] w' := by
  have passes := World.passes_coerced ready.intact hi
  have nullish : base.isNullish = false := isNullish_of_ofPrimitive hi
  have nothing : things v = [] := by
    change v.object?.toList.map _ = _
    rw [hv]
    rfl
  obtain ⟨w', set, written⟩ := Ready.on_writeOf base nullish (ready.passes passes) hm
    (passes.stays alive) v run strict
  refine ⟨_, written, ?_⟩
  rcases ready.isMap m hm fun dead => dead.2 alive with ⟨entries, is⟩ | ⟨entries, is⟩
  · exact World.passes_fileMap ready.intact alive hi nothing is set
  · exact World.passes_fileWeak ready.intact alive hi nothing (by rw [World.weakEntries?, is]) set

theorem Step.passes {target : List ObjectId} (step : Step run names target w w')
    (ready : Ready names w) : w.Passes target w' ∧ ∀ m ∈ target, names m := by
  cases step with
  | write strict name map primitive value =>
    obtain ⟨w', written, passes⟩ := passes_write run ready name map primitive value strict
    rw [written]
    exact ⟨passes, fun m mem => List.mem_singleton.1 mem ▸ name⟩
  | read base strict name map => exact ⟨passes_read ready name map base strict, nofun⟩
  | settle => exact ⟨World.passes_settle ready.intact, nofun⟩

/-- A whole run passes by all that was there, too. -/
theorem Run.passes (steps : Run run names w₀ written w) (ready : Ready names w₀) :
    w₀.Passes written w := by
  induction steps with
  | start => exact .refl ready.intact
  | step _ step ih =>
    obtain ⟨passes, named⟩ := step.passes (ready.passes ih)
    exact ih.trans ready.intact passes fun m mem => ready.past (named m mem)

/-- What an operation through the name `m` returns in `w` after a run from `w₀` on: a read what it
    returns in `w₀`, a read with a primitive base what the prototype reads, and a write with one
    nothing but that it has succeeded. -/
structure Unseen (run : Runner) (m : ObjectId) (w₀ w : World) : Prop where
  read : ∀ base strict, (∀ o ∈ base.object?, w₀.Past (.object o) ∧ w.Live (.object o)) →
    ((readReference run (.abstractMember base m strict)).on w).1 =
      ((readReference run (.abstractMember base m strict)).on w₀).1
  inherited : ∀ base i strict, Intrinsic.ofPrimitive base = some i →
    ((readReference run (.abstractMember base m strict)).on w).1 =
      ((readReference run (.abstractMember (.object i.id) m strict)).on w).1
  written : ∀ base i v strict, Intrinsic.ofPrimitive base = some i → v.object? = none →
    ((writeReference run (.abstractMember base m strict) v).on w).1 = .ok ()

theorem unseen_of_passes (ready₀ : Ready names w₀) (h : w₀.Passes written w) (hm : names m)
    (alive : w.Live (.object m)) : Unseen run m w₀ w := by
  have ready := ready₀.passes h
  have alive₀ : w₀.Live (.object m) := h.follows.live (ready₀.past hm) alive
  have isMap : w₀.IsMap m := ready₀.isMap m hm fun dead => dead.2 alive₀
  have same {o : ObjectId} (past : w₀.Past (.object o)) (live : w.Live (.object o)) :
      w.privateValue m o = w₀.privateValue m o :=
    h.privateValue ready₀.intact ready₀.grounded isMap alive past live
  refine ⟨fun base strict known => ?_, fun base i strict hi => ?_, fun base i v strict hi hv => ?_⟩
  · cases hb : base.isNullish with
    | true =>
      have fails (w : World) : ((readReference run (.abstractMember base m strict)).on w).1 =
          .error (.raised (.nullishBase .read (w.describeObject m) (w.heap.typeName base))) := by
        rw [readReference, resolveAbstract, on_bind_of_ok (on_see ..), on_bind,
          on_coerceBase_of_nullish hb]
        rfl
      rw [fails, fails, h.describeObject ready₀.intact isMap alive]
      cases base <;> first | rfl | contradiction
    | false =>
      cases hi : Intrinsic.ofPrimitive base with
      | some i =>
        have live := ready₀.intact.live_of_anchor (w₀.anchored_intrinsic i)
        rw [ready.on_readPrimitive hm alive hi, ready₀.on_readPrimitive hm alive₀ hi,
          same (World.past_of_present (World.present_of_live live))
            (ready.intact.live_of_anchor (w.anchored_intrinsic i))]
      | none =>
        cases base with
        | object o =>
          obtain ⟨past, live⟩ := known o rfl
          rw [ready.on_read hm alive, ready₀.on_read hm alive₀, same past live]
        | _ => contradiction
  · rw [ready.on_readPrimitive hm alive hi, ready.on_read hm alive]
  · obtain ⟨_, written, -⟩ := passes_write run ready hm alive hi hv strict
    rw [written]

end PrimitiveReceiver

open PrivateState PrimitiveReceiver in
/-- Primitive receivers are not seen in maps. Take any collection of maps and weak maps that the
    handler of maps serves, in any world in which nothing is held that is not there, prototypes
    come to an end and there is room for one more handler, as between the actions of any session;
    and any run of writes of primitive values with primitive bases and of reads from there.

    A read through a name that is alive returns what it returned at first, for any base that was
    there and is alive; with a primitive base, it returns what the prototype of the base reads. The
    writes succeed, and a map has grown by the number of those that were to it. A weak map has kept
    the entries of all keys that live and has got at most one that is new, which is dead.

    So as many of its entries are alive as were at first, unless keys have died; and these were held
    by dead entries, which the weak maps that have been written to have dropped. If the dead entries
    that they had at first held nothing, then nothing has died, and a weak map that had no dead
    entries has at most one. -/
theorem primitiveReceivers_of_run (run : Runner) {names : ObjectId → Prop} {w₀ w : World}
    {written : List ObjectId} (ready : Ready names w₀) (steps : Run run names w₀ written w) :
    (∀ (config : Config) (as : List Action) (names : ObjectId → Prop), 0 < config.maxDepth →
      let w := ((World.initial config).performAll as).2
      (∀ m, names m → w.IsMap m ∧
        ∀ op, (w.registry.server? (w.heap.chain m) op).map (·.service) = some .entries) →
      Ready names w) ∧
    (∀ m, names m → w.Live (.object m) → Unseen run m w₀ w) ∧
    (∀ m entries₀, w₀.heap.kind? m = some (.map entries₀) → w.Live (.object m) →
      ∃ entries, w.heap.kind? m = some (.map entries) ∧
        entries.size = entries₀.size + written.count m) ∧
    (∀ m entries₀, w₀.weakEntries? m = some entries₀ → w.Live (.object m) →
      ∃ entries, w.weakEntries? m = some entries ∧
        entries.liveSize w.lives = entries₀.liveSize w.lives ∧
        (∃ r, ∀ k, entries.contains k → entries₀.contains k ∨ k = r ∧ ¬w.Live (.object k)) ∧
        ((∀ m ∈ written, w₀.Idle m) →
          entries.liveSize w.lives = entries₀.liveSize w₀.lives ∧
          ((∀ k, entries₀.contains k → w₀.Live (.object k)) →
            entries.size ≤ entries.liveSize w.lives + 1))) ∧
    ((∀ m ∈ written, w₀.Idle m) → ∀ t, w₀.Live t → w.Live t) := by
  have passes := steps.passes ready
  refine ⟨fun config as names limit => ready_performAll config limit as names,
    fun m hm alive => unseen_of_passes ready passes hm alive, fun m entries₀ is alive => ?_,
    fun m entries₀ is alive => ?_, passes.live⟩
  · obtain ⟨entries, is', grown⟩ := passes.grown is fun dead => dead.2 alive
    exact ⟨entries, is', grown.size⟩
  · obtain ⟨entries, is', thinned⟩ := passes.thinned ready.intact is fun dead => dead.2 alive
    obtain ⟨r, single⟩ := thinned.single
    refine ⟨entries, is', thinned.liveSize_eq is', ⟨r, fun k bound => ?_⟩, fun idle => ?_⟩
    -- A key that was there at first has its old entry; only a wrapper is newer.
    · obtain ⟨x, found⟩ := Option.isSome_iff_exists.1 bound
      by_cases past : w₀.Past (.object k)
      · exact .inl (Option.isSome_iff_exists.2 ⟨x, thinned.sub k x found past⟩)
      · exact .inr ⟨single k x found past, (thinned.dead k x found past).2⟩
    · have live := passes.live idle
      refine ⟨?_, fun all => thinned.size_le fun k bound => live _ (all k bound)⟩
      rw [thinned.liveSize_eq is']
      exact World.liveSize_of_live ready.intact passes.follows is live

/-- A map, and a weak map with an entry; two writes to the weak map and one to the map. -/
theorem primitiveReceivers_of_run_of_writes :
    let w₀ := ((World.initial {}).performAll (List.map Action.command
      [.new .map .standard (some "m"), .new .weakMap .standard (some "n"),
        .new .ordinary .standard (some "a"),
        .mapSet (.register "n") (.register "a") (.bool true)])).2
    let run := runnerAt (callerAt 1) 1
    let r (base : Value) (m : ObjectId) := Reference.abstractMember base m true
    let w₁ := ((writeReference run (r (.bool true) ⟨9⟩) .null).on w₀).2
    let w₂ := ((writeReference run (r (.bool true) ⟨8⟩) .null).on w₁).2
    let w := ((writeReference run (r (.bool false) ⟨9⟩) .null).on w₂).2
    let names (m : ObjectId) := m ∈ [(⟨8⟩ : ObjectId), ⟨9⟩]
    PrivateState.Ready names w₀ ∧
      ((readReference run (r (.bool true) ⟨8⟩)).on w).1 =
        ((readReference run (r (.bool true) ⟨8⟩)).on w₀).1 ∧
      (∃ entries, w.heap.kind? ⟨8⟩ = some (.map entries) ∧ entries.size = 1) ∧
      ∃ entries, w.weakEntries? ⟨9⟩ = some entries ∧ entries.liveSize w.lives = 1 ∧
        entries.size ≤ 2 := by
  intro w₀ run r w₁ w₂ w names
  have served (m : ObjectId) (hm : names m) (op : Operation) :
      (w₀.registry.server? (w₀.heap.chain m) op).any (·.service matches .entries) := by
    revert m
    cases op <;> decide +kernel
  have isMap : ∀ m ∈ [(⟨8⟩ : ObjectId), ⟨9⟩], (w₀.valueAt? m (.object m)).isSome := by
    decide +kernel
  have ready : PrivateState.Ready names w₀ :=
    PrivateState.ready_performAll {} (by decide) _ _ fun m hm => by
      refine ⟨World.isMap_iff.2 (Option.isSome_iff_exists.1 (isMap m hm)), fun op => ?_⟩
      obtain ⟨⟨label, service⟩, hs, entries⟩ := (Option.any_eq_true _ _).1 (served m hm op)
      cases service with
      | entries => rw [hs]; rfl
      | _ => exact absurd entries Bool.false_ne_true
  have lives : w₀.lives ⟨9⟩ ∧ w₁.lives ⟨8⟩ ∧ w₂.lives ⟨9⟩ ∧ w.lives ⟨8⟩ ∧ w.lives ⟨9⟩ := by
    decide +kernel
  have map : (w₀.heap.kind? ⟨8⟩).any fun
      | .map entries => entries.size == 0
      | _ => false := by decide +kernel
  have weak : (w₀.weakEntries? ⟨9⟩).any fun entries =>
      entries.liveSize w₀.lives == 1 && entries.table.keys.all w₀.lives := by decide +kernel
  have write₁ : PrimitiveReceiver.Step run names [⟨9⟩] w₀ w₁ :=
    .write true (by simp [names]) lives.1 rfl rfl
  have write₂ : PrimitiveReceiver.Step run names [⟨8⟩] w₁ w₂ :=
    .write true (by simp [names]) lives.2.1 rfl rfl
  have write₃ : PrimitiveReceiver.Step run names [⟨9⟩] w₂ w :=
    .write true (by simp [names]) lives.2.2.1 rfl rfl
  have steps : PrimitiveReceiver.Run run names w₀ [⟨9⟩, ⟨8⟩, ⟨9⟩] w :=
    ((PrimitiveReceiver.Run.start.step write₁).step write₂).step write₃
  have named : names ⟨8⟩ := by simp [names]
  have alive : w.Live (.object ⟨8⟩) ∧ w.Live (.object ⟨9⟩) := lives.2.2.2
  -- From here on, the worlds need not be computed any more.
  clear write₁ write₂ write₃ served isMap lives
  clear_value w w₂ w₁ w₀
  obtain ⟨-, unseen, maps, weakMaps, -⟩ := primitiveReceivers_of_run run ready steps
  obtain ⟨_ | _ | entries₀ | _ | _, is, empty⟩ := (Option.any_eq_true _ _).1 map <;>
    try contradiction
  obtain ⟨entries, is', size⟩ := maps ⟨8⟩ entries₀ is alive.1
  obtain ⟨left₀, isWeak, one⟩ := (Option.any_eq_true _ _).1 weak
  rw [Bool.and_eq_true, beq_iff_eq, List.all_eq_true] at one
  have living (k : ObjectId) (bound : left₀.contains k) : w₀.Live (.object k) :=
    one.2 k (Table.contains_iff_mem_keys.1 bound)
  have idle₈ : w₀.Idle ⟨8⟩ := fun _ isLeft => by
    cases is.symm.trans (World.kind?_of_weakEntries? isLeft)
  have idle₉ : w₀.Idle ⟨9⟩ := fun left isLeft k v found dead => by
    cases isWeak.symm.trans isLeft
    exact absurd (living k (Option.isSome_iff_exists.2 ⟨v, found⟩)) dead
  have idle : ∀ m ∈ [(⟨9⟩ : ObjectId), ⟨8⟩, ⟨9⟩], w₀.Idle m := by simp [idle₈, idle₉]
  obtain ⟨left, isLeft, -, -, whole⟩ := weakMaps ⟨9⟩ left₀ isWeak alive.2
  obtain ⟨liveSize, size'⟩ := whole idle
  refine ⟨ready, (unseen ⟨8⟩ named alive.1).read _ true nofun, ⟨entries, is', ?_⟩,
    left, isLeft, liveSize.trans one.1, ?_⟩
  · rw [size, beq_iff_eq.1 empty]
    rfl
  · have := size' living
    rwa [liveSize, one.1] at this

/-- A weak map has a dead entry, and its value holds the key of another weak map's entry; one write
    to the former. -/
theorem weakMaps_lose_live_entries :
    let w₀ := ((World.initial {}).performAll (List.map Action.command
      [.new .weakMap .standard (some "m"), .new .weakMap .standard (some "n"),
        .new .ordinary .standard (some "a"), .new .ordinary .standard (some "b"),
        .mapSet (.register "m") (.register "a") (.register "b"),
        .mapSet (.register "n") (.register "b") (.bool true), .dropRegisters ["a", "b"]])).2
    let run := runnerAt (callerAt 1) 1
    let w := ((writeReference run (.abstractMember (.bool true) ⟨8⟩ true) .null).on w₀).2
    let sizes (w : World) := (w.weakEntries? ⟨9⟩).map fun entries =>
      (entries.size, entries.liveSize w.lives)
    w₀.lives ⟨8⟩ ∧ w₀.lives ⟨9⟩ ∧ w.lives ⟨9⟩ ∧ sizes w₀ = some (1, 1) ∧ sizes w = some (1, 0) := by
  decide +kernel

end Lvalue
