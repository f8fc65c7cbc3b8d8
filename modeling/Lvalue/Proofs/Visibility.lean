import Lvalue.Proofs.Assignment
import Lvalue.Proofs.Strictness

/-!
# Visibility

A write gives one property of one object another value, and with that it changes what is
read from many: from the object itself and from all that inherit from it, up to those that
are hidden by a property of their own or of an object in between (`Heap.Uncovers`). From
everywhere else, and at every other key, the same property is found as before, in the same
place.

The receiver of the write is what counts here. The object whose chain decided whether the
write may go on need not have anything to do with it, and then nothing can be read of the
write from there.
-/

namespace Lvalue

open Eval

/-! ## Properties of a base -/

section

variable {w : World} {base : Value} (hb : base.isNullish = false) (run : Runner) (k : Key)
  (this : Option Value)
include hb

theorem on_readMember (strict : Bool) :
    (readReference run (.member base k this strict)).on w =
      (Eval.holding (.object (w.receiver base) :: base :: this.toList)
        (getProperty run.call (w.receiver base) k (this.getD base))).on (w.coerced base) :=
  on_bind_of_ok (on_coerceBase hb .read _) _

theorem on_writeMember (v : Value) :
    (writeMember run base k this v).on w =
      (Eval.holding (.object (w.receiver base) :: base :: v :: this.toList)
        (setProperty run.call (w.receiver base) k v (this.getD base))).on (w.coerced base) :=
  on_bind_of_ok (on_coerceBase hb .write _) _

end

/-! ## Plain writes -/

namespace Heap

/-- The property at `k` that `o` has or inherits, if there is one, has no function that writes. -/
def Plain (h : Heap) (o : ObjectId) (k : Key) : Prop :=
  ∀ holder p getter setter, h.lookup o k = some (holder, p) →
    p.slot ≠ .accessor getter (some setter)

/-- The property at `k` that `o` has or inherits, if there is one, is a value that may change. -/
def Passes (h : Heap) (o : ObjectId) (k : Key) : Prop :=
  ∀ holder p, h.lookup o k = some (holder, p) → ∃ old, p.slot = .data old true

/-- From `o`, a property of `target` at `k` can be seen: `target` is on the chain of `o`, and
    nothing before it has one. -/
def Uncovers (h : Heap) (k : Key) (o target : ObjectId) : Prop :=
  ∃ before after, h.chain o = before ++ target :: after ∧ ∀ o' ∈ before, h.own? o' k = none

end Heap

namespace World

variable {w w' : World} {target : ObjectId} {k : Key} {v receiver : Value} {vs : List Value}

/-- What is held during a write does not matter to it. -/
theorem Assigned.release (h : (w.hold vs).Assigned target k v w') :
    w.Assigned target k v (w'.release vs) where
  own := h.own
  others := h.others
  objects := h.objects
  frame := by
    obtain ⟨heap, rfl, next⟩ := h.frame
    exact ⟨heap, release_hold { w with heap } vs, next⟩

theorem Attempted.release {condition : Prop} {b : Bool}
    (h : (w.hold vs).Attempted k v receiver condition b w') :
    w.Attempted k v receiver condition b (w'.release vs) where
  succeeds := h.succeeds
  assigned accepted target e := (h.assigned accepted target e).release
  unchanged rejected := by rw [h.unchanged rejected, release_hold]

end World

section

variable {w : World} {o holder : ObjectId} {k : Key} {p : Property}

/-- Without a function that writes, the write comes to the same end whatever functions do. -/
theorem attempted_setProperty (plain : w.heap.Plain o k) (v receiver : Value) :
    ∃ b w', (∀ run, (setProperty run o k v receiver).on w = (.ok b, w')) ∧
      w.Attempted k v receiver
        (w.heap.Passes o k ∧ ∃ target, receiver = .object target ∧ w.heap.Takes k target) b w' := by
  obtain ⟨b, w', attempt, ends⟩ := attempted_assignOwn k v receiver w
  rcases found : w.heap.lookup o k with _ | ⟨holder, ⟨⟨old, _ | _⟩ | ⟨getter, _ | setter⟩, e, c⟩⟩
  case some.accessor.some => exact absurd rfl (plain _ _ getter setter found)
  case some.data.false | some.accessor.none =>
    refine ⟨false, w, fun run => ?_, .failure fun passes => ?_⟩
    · rw [setProperty, on_bind, on_see]
      dsimp only
      rw [found]
      rfl
    · obtain ⟨_, slot⟩ := passes.1 _ _ found
      cases slot
  all_goals
    refine ⟨b, w', fun run => ?_, ?_⟩
    · rw [setProperty, on_bind, on_see]
      dsimp only
      rw [found]
      exact attempt
    · simpa [Heap.Passes, found] using ends

/-- A write to a property of an object gives it to the receiver, if there is no function that writes
    and nothing stands against it. -/
theorem attempted_writeMember (plain : w.heap.Plain o k) (this : Option ObjectId) (v : Value) :
    ∃ accepted w',
      (∀ run, (writeMember run (.object o) k (this.map .object) v).on w = (.ok accepted, w')) ∧
      w.Attempted k v (.object (this.getD o))
        (w.heap.Passes o k ∧ w.heap.Takes k (this.getD o)) accepted w' := by
  let held : List Value := .object o :: .object o :: v :: (this.map .object).toList
  have receiver : (this.map .object).getD (.object o) = Value.object (this.getD o) := by
    cases this <;> rfl
  obtain ⟨accepted, w', on, ends⟩ :=
    attempted_setProperty (w := w.hold held) plain v (.object (this.getD o))
  refine ⟨accepted, w'.release held, fun run => ?_, ?_⟩
  · rw [on_writeMember rfl, on_holding, receiver]
    exact congrArg (fun e : Outcome Bool => (e.1, e.2.release held)) (on run.call)
  · simpa [World.hold] using ends.release

/-- If functions do not return, neither does a call. -/
theorem call_halting (halt : Halt) (f : ObjectId) (this : Value) (args : List Value) (w : World) :
    ∃ halt', ((call (Runner.halting halt).call f this args).on w).1 = .error halt' := by
  by_cases is : ∃ g, w.heap.kind? f = some (.function g)
  · obtain ⟨g, is⟩ := is
    rw [on_call_of_function is]
    exact ⟨halt, rfl⟩
  · rw [on_call_of_not_function fun g h => is ⟨g, h⟩]
    exact ⟨_, rfl⟩

/-- A write that runs no function and is accepted has met none that writes: one that cannot be
    called would have made it fail. -/
theorem plain_of_accepted {run : Runner} {this : Option Value} {v : Value}
    (silent : Silent (fun run => writeMember run (.object o) k this v) w)
    (accepted : ((writeMember run (.object o) k this v).on w).1 = .ok true) :
    w.heap.Plain o k := by
  rintro holder p getter setter found slot
  let held : List Value := .object o :: .object o :: v :: this.toList
  let receiver := this.getD (.object o)
  have calls := on_setProperty_of_setter (w := w.hold held) found slot
    (Runner.halting .stuck).call v receiver
  obtain ⟨halt, stops⟩ := call_halting .stuck setter receiver [v]
    ((w.hold held).hold (heldBySetter getter setter v receiver))
  have fails : ((writeMember (.halting .stuck) (.object o) k this v).on w).1 = .error halt := by
    rw [on_writeMember rfl, on_holding]
    refine (congrArg Prod.fst calls).trans ?_
    rw [stops]
    rfl
  have same : (writeMember run (.object o) k this v).on w =
      (writeMember (.halting .stuck) (.object o) k this v).on w := silent _ _
  rw [same, fails] at accepted
  cases accepted

end

/-! ## Reads -/

section

variable {w : World} {o holder : ObjectId} {k : Key} {p : Property} {v : Value} {writable : Bool}

theorem on_getProperty_of_data (found : w.heap.lookup o k = some (holder, p))
    (slot : p.slot = .data v writable) (run : Caller) (receiver : Value) :
    (getProperty run o k receiver).on w = (.ok v, w) := by
  obtain ⟨_, _, _⟩ := p
  cases slot
  rw [getProperty, on_bind, on_see]
  dsimp only
  rw [found]
  rfl

/-- A property of an object is read by looking for it. -/
theorem on_readMember_of_data (found : w.heap.lookup o k = some (holder, p))
    (slot : p.slot = .data v writable) (run : Runner) (this : Option Value) (strict : Bool) :
    (readReference run (.member (.object o) k this strict)).on w = (.ok v, w) := by
  let held : List Value := .object o :: .object o :: this.toList
  have read := on_getProperty_of_data (w := w.hold held) found slot run.call
    (this.getD (.object o))
  rw [on_readMember rfl, on_holding]
  refine (congrArg (fun e : Outcome Value => (e.1, e.2.release held)) read).trans ?_
  rw [release_hold]

end

/-! ## What is seen of a write -/

/-- Where the prototypes are the same, so are the chains. -/
theorem Heap.Grounded.chain_congr {h h' : Heap} (hh : h.Grounded) (hh' : h'.Grounded)
    (same : ∀ o, h'.prototype? o = h.prototype? o) {o : ObjectId} (alive : h.alive o)
    (alive' : h'.alive o) : h'.chain o = h.chain o :=
  (hh'.path_chainFrom fun _ e => Option.some.inj e ▸ alive').unique
    ((hh.path_chainFrom fun _ e => Option.some.inj e ▸ alive).congr fun o _ => same o)

/-- Only from where it can be seen does a change of one property change what is found. -/
theorem Heap.lookup_of_covered {h h' : Heap} {o target : ObjectId} {k k' : Key}
    (chain : h'.chain o = h.chain o)
    (others : ∀ o k', o ≠ target ∨ k' ≠ k → h'.own? o k' = h.own? o k')
    (covered : ¬(k' = k ∧ h.Uncovers k o target)) : h'.lookup o k' = h.lookup o k' := by
  rw [lookup, lookup, chain]
  by_cases e : k' = k
  · subst e
    refine findSome?_congr_of_covered (fun o' ne => by rw [others o' k' (.inl ne)]) ?_
    rintro ⟨before, after, chain, hidden⟩
    exact covered
      ⟨rfl, before, after, chain, fun o' mem => Option.map_eq_none_iff.1 (hidden o' mem)⟩
  · exact findSome?_congr fun o' _ => by rw [others o' k' (.inr e)]

namespace World.Assigned

variable {w w' : World} {target o : ObjectId} {k k' : Key} {v : Value}
  (h : w.Assigned target k v w')
include h

theorem prototype? (o : ObjectId) : w'.heap.prototype? o = w.heap.prototype? o := by
  have same := congrArg (·.bind (·.prototype)) (h.objects o)
  simp only [Option.bind_map] at same
  exact same

theorem alive (o : ObjectId) : w'.heap.alive o = w.heap.alive o := by
  have same := congrArg Option.isSome (h.objects o)
  simp only [Option.isSome_map] at same
  exact same

theorem grounded (hh : w.heap.Grounded) : w'.heap.Grounded :=
  hh.grow (fun o => (h.alive o).trans) (fun o _ => h.prototype? o) fun o ho =>
    .inl ((h.alive o).symm.trans ho)

theorem chain (hh : w.heap.Grounded) (alive : w'.heap.alive o) :
    w'.heap.chain o = w.heap.chain o :=
  hh.chain_congr (h.grounded hh) h.prototype? ((h.alive o).symm.trans alive) alive

/-- The same property is found as before from where the written one cannot be seen, and at every
    other key. -/
theorem lookup_of_covered (hh : w.heap.Grounded) (alive : w'.heap.alive o)
    (covered : ¬(k' = k ∧ w.heap.Uncovers k o target)) :
    w'.heap.lookup o k' = w.heap.lookup o k' :=
  Heap.lookup_of_covered (h.chain hh alive) h.others covered

/-- The written property is found from where it can be seen. -/
theorem lookup_of_uncovers (hh : w.heap.Grounded) (alive : w'.heap.alive o)
    (uncovers : w.heap.Uncovers k o target) :
    w'.heap.lookup o k = some (target, w.heap.successor target k v) := by
  obtain ⟨before, after, chain, hidden⟩ := uncovers
  rw [Heap.lookup, h.chain hh alive, chain]
  refine findSome?_of_hidden (by rw [h.own]; rfl) fun o' mem ne => ?_
  rw [h.others o' k (.inl ne), hidden o' mem]
  rfl

/-- A write covers and uncovers nothing: what it changes can be seen from the same objects after
    as before. -/
theorem uncovers_iff (hh : w.heap.Grounded) (alive : w'.heap.alive o) :
    w'.heap.Uncovers k o target ↔ w.heap.Uncovers k o target := by
  have nodup : (w.heap.chain o).Nodup :=
    (hh.path_chainFrom fun _ e => Option.some.inj e ▸ (h.alive o).symm.trans alive).nodup
  rw [Heap.Uncovers, h.chain hh alive]
  refine exists₂_congr fun before after => and_congr_right fun chain => ?_
  refine forall₂_congr fun o' mem => ?_
  have ne : o' ≠ target := by
    rintro rfl
    rw [chain] at nodup
    exact (List.nodup_append.1 nodup).2.2 o' mem o' List.mem_cons_self rfl
  rw [h.others o' k (.inl ne)]

end World.Assigned

namespace Heap.Grounded

variable {h : Heap} (hh : h.Grounded) {o a : ObjectId} (alive : h.alive o)
  (ancestor : a ∈ h.chainFrom (h.prototype? o))
include hh alive ancestor

theorem alive_of_ancestor : h.alive a := by
  have mem : a ∈ h.chain o := by
    rw [hh.chain_eq alive]
    exact List.mem_cons_of_mem _ ancestor
  exact hh.alive_of_mem_chainFrom (fun _ e => Option.some.inj e ▸ alive) mem

/-- An object cannot be seen from what it inherits from. -/
theorem not_uncovers_of_ancestor (k : Key) : ¬h.Uncovers k a o := by
  rintro ⟨before, after, chain, -⟩
  have path : h.Path (some o) (o :: h.chainFrom (h.prototype? o)) :=
    hh.chain_eq alive ▸ hh.path_chainFrom fun _ e => Option.some.inj e ▸ alive
  have onward : h.Path (some a) (h.chain a) :=
    hh.path_chainFrom fun _ e => Option.some.inj e ▸ hh.alive_of_ancestor alive ancestor
  -- The path of `o` would be a part of a path that is a part of its own rest.
  have shorter : (h.chain a).length ≤ (h.chainFrom (h.prototype? o)).length := by
    cases path with
    | step rest =>
      obtain ⟨os, p, le⟩ := rest.from_mem ancestor
      rwa [← onward.unique p] at le
  have longer : (h.chainFrom (h.prototype? o)).length < (h.chain a).length := by
    obtain ⟨os, p, le⟩ := onward.from_mem
      (chain ▸ List.mem_append_right _ List.mem_cons_self : o ∈ h.chain a)
    rwa [p.unique path] at le
  exact Nat.not_lt.2 shorter longer

end Heap.Grounded

theorem getD_of_not_overridesReceiver {o : ObjectId} {this : Option ObjectId}
    (h : Reference.overridesReceiver (.object o) (this.map .object) = false) : this.getD o = o := by
  cases this with
  | none => rfl
  | some t => simpa [Reference.overridesReceiver, Value.same] using h

/-- What can be seen of a write to a property of an object. The base and the receiver are any
    objects, in any heap whose prototypes lead to an end from everywhere, and the write runs no
    function and is accepted.

    From an object whose chain leads to the receiver, with no property at the key before it, the
    value is read, whoever asks for it. From all others, and at every other key, the same property
    is found as before.

    If the reference has no receiver of its own, the value is read back through it, and nothing that
    the base inherits from has come to find another property. -/
theorem write_seen_where_uncovered {w : World} (hh : w.heap.Grounded) {run : Runner} {b : ObjectId}
    {k : Key} {this : Option ObjectId} {v : Value}
    (silent : Silent (fun run => writeMember run (.object b) k (this.map .object) v) w)
    (accepted : ((writeMember run (.object b) k (this.map .object) v).on w).1 = .ok true)
    (strict : Bool) :
    let r := Reference.member (.object b) k (this.map .object) strict
    let target := this.getD b
    ∃ w', (∀ run, (writeReference run r v).on w = (.ok (), w')) ∧
      (∀ o, w'.heap.alive o →
        (w'.heap.Uncovers k o target ↔ w.heap.Uncovers k o target) ∧
        (∀ k', ¬(k' = k ∧ w.heap.Uncovers k o target) →
          w'.heap.lookup o k' = w.heap.lookup o k') ∧
        (w.heap.Uncovers k o target → ∀ run receiver,
          (getProperty run o k receiver).on w' = (.ok v, w'))) ∧
      (Reference.overridesReceiver (.object b) (this.map .object) = false →
        (∀ run, (readReference run r).on w' = (.ok v, w')) ∧
        ∀ a ∈ w.heap.chainFrom (w.heap.prototype? b), ∀ k',
          w'.heap.lookup a k' = w.heap.lookup a k') := by
  intro r target
  obtain ⟨answer, w', on, ends⟩ :=
    attempted_writeMember (plain_of_accepted silent accepted) this v
  obtain rfl : answer = true := by
    rw [on run] at accepted
    exact Except.ok.inj accepted
  have assigned := ends.assigned rfl target rfl
  have written : w'.heap.own? target k = some (w.heap.successor target k v) := assigned.own
  refine ⟨w', fun run => ?_, fun o alive => ⟨assigned.uncovers_iff hh alive, fun k' covered =>
    assigned.lookup_of_covered hh alive covered, fun uncovers run receiver =>
    on_getProperty_of_data (assigned.lookup_of_uncovers hh alive uncovers) rfl run receiver⟩,
    fun own => ?_⟩
  · rw [writeReference_member, on_bind_of_ok (on run)]
    rfl
  -- Without a receiver of its own, it is the base that is written to, and it sees itself.
  · have receiver : target = b := getD_of_not_overridesReceiver own
    have alive' : w'.heap.alive b := by
      rw [receiver] at written
      obtain ⟨x, hx, -⟩ := Option.bind_eq_some_iff.1 written
      exact Heap.alive_iff.2 ⟨x, hx⟩
    have alive : w.heap.alive b := (assigned.alive b).symm.trans alive'
    have uncovers : w.heap.Uncovers k b target :=
      ⟨[], _, by rw [receiver]; exact hh.chain_eq alive, fun _ => nofun⟩
    refine ⟨fun run => on_readMember_of_data (assigned.lookup_of_uncovers hh alive' uncovers) rfl
      run _ strict, fun a ancestor k' => ?_⟩
    have there : w.heap.alive a := hh.alive_of_ancestor alive ancestor
    refine assigned.lookup_of_covered hh ((assigned.alive a).trans there) fun seen => ?_
    exact hh.not_uncovers_of_ancestor alive ancestor k (receiver ▸ seen.2)

/-- An object gets a value that was accepted for one that inherits from it. This one reads it, and
    another one that has a property of its own does not. -/
theorem write_seen_where_uncovered_of_child :
    let w := ((World.initial {}).performAll
      [.command (.new .ordinary .none (some "a")),
        .command (.define (.register "a") (.text "x") (.data .null true true true)),
        .command (.newChain (.register "a") 1 (some "b")),
        .command (.newChain (.register "a") 1 (some "c")),
        .command (.define (.register "c") (.text "x") (.data .null true true true))]).2
    let k : Key := .text (.text "x")
    let r := Reference.member (.object ⟨9⟩) k (some (.object ⟨8⟩)) true
    w.heap.Grounded ∧
      Silent (fun run => writeMember run (.object ⟨9⟩) k (some (.object ⟨8⟩)) (.bool true)) w ∧
      ∃ w', (∀ run, (writeReference run r (.bool true)).on w = (.ok (), w')) ∧
        (∀ run receiver, (getProperty run ⟨9⟩ k receiver).on w' = (.ok (.bool true), w')) ∧
        w'.heap.lookup ⟨10⟩ k = some (⟨10⟩, .plain .null) := by
  intro w k r
  have grounded : w.heap.Grounded := (World.ancestry_performAll {} _).2
  have found : w.heap.lookup ⟨9⟩ k = some (⟨8⟩, .plain .null) := by decide +kernel
  have has : w.heap.own? ⟨8⟩ k = some (.plain .null) := by decide +kernel
  have lacks : w.heap.own? ⟨9⟩ k = none := by decide +kernel
  have covers : w.heap.own? ⟨10⟩ k = some (.plain .null) := by decide +kernel
  have hidden : w.heap.lookup ⟨10⟩ k = some (⟨10⟩, .plain .null) := by decide +kernel
  have chain : w.heap.chain ⟨9⟩ = [⟨9⟩] ++ ⟨8⟩ :: [] := by decide +kernel
  have chain' : w.heap.chain ⟨10⟩ = [⟨10⟩, ⟨8⟩] := by decide +kernel
  have alive : w.heap.alive ⟨9⟩ ∧ w.heap.alive ⟨10⟩ := by decide +kernel
  clear_value w
  have plain : w.heap.Plain ⟨9⟩ k := by
    intro holder p getter setter e slot
    rw [found] at e
    cases e
    cases slot
  have passes : w.heap.Passes ⟨9⟩ k := by
    intro holder p e
    rw [found] at e
    cases e
    exact ⟨_, rfl⟩
  let this : Option ObjectId := some ⟨8⟩
  obtain ⟨accepted, u, on, ends⟩ := attempted_writeMember plain this (.bool true)
  obtain rfl : accepted = true := ends.succeeds.2 ⟨passes, .inl ⟨_, _, has, rfl⟩⟩
  have silent : Silent (fun run =>
      writeMember run (.object ⟨9⟩) k (this.map .object) (.bool true)) w :=
    fun run run' => (on run).trans (on run').symm
  obtain ⟨w', writes, seen, -⟩ := write_seen_where_uncovered grounded silent
    (congrArg Prod.fst (on (.halting .stuck))) true
  obtain rfl : w' = u := by
    have same := writes (.halting .stuck)
    rw [writeReference_member, on_bind_of_ok (on _)] at same
    exact (congrArg Prod.snd same).symm
  have assigned := ends.assigned rfl ⟨8⟩ rfl
  obtain ⟨-, -, shown⟩ := seen ⟨9⟩ ((assigned.alive _).trans alive.1)
  obtain ⟨-, same, -⟩ := seen ⟨10⟩ ((assigned.alive _).trans alive.2)
  have hides : ¬(k = k ∧ w.heap.Uncovers k ⟨10⟩ ⟨8⟩) := by
    rintro ⟨-, _ | ⟨o, before⟩, after, e, nothing⟩ <;> rw [chain'] at e
    · exact absurd (List.cons.inj e).1 (by decide)
    · obtain rfl := (List.cons.inj e).1
      cases covers.symm.trans (nothing _ List.mem_cons_self)
  refine ⟨grounded, silent, w', writes, shown ⟨[⟨9⟩], [], chain, ?_⟩, (same k hides).trans hidden⟩
  exact List.forall_mem_singleton.2 lacks

end Lvalue
