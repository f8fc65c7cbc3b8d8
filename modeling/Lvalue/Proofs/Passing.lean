import Lvalue.Proofs.PrivateState
import Lvalue.Proofs.Pruning

/-!
# Passing operations

Some operations pass by all that was there before: they file entries for objects that are new,
in maps, and have to do with nothing else. What such operations do, and what settles in
between, is told as one relation (`World.Passes`), which lists the maps that have been written
to and composes. Nobody who was there can tell that they have passed, for all that is alive
has the entries and the prototypes that it had, and so reads what it read.

A map has one entry more for each time that it was written to. A weak map looks at its entries
before and drops those of dead keys, so that no more than one of the new ones is ever there.
What else dies is held by the entries that it drops; if they hold nothing, nothing does.
-/

namespace Lvalue

open Bearer Eval

namespace World

variable {w w' : World} {m o : ObjectId} {t : Thing}

/-- A map has got `n` entries more, and has for all keys that are there in `w` what it had. -/
structure Grown (w : World) (n : Nat) (entries entries' : Entries) : Prop where
  size : entries'.size = entries.size + n
  old : ∀ k : Value, (∀ o ∈ k.object?, w.Past (.object o)) → entries'.get? k = entries.get? k

/-- From `w` to `w'`, a weak map, to which may have been `written`, has dropped entries of dead
    keys, and has got at most one entry for a new object. -/
structure Thinned (w w' : World) (written : Prop) (entries entries' : WeakEntries) : Prop where
  same : ¬written → entries' = entries
  sub : ∀ k x, entries'.get? k = some x → w.Past (.object k) → entries.get? k = some x
  kept : ∀ k x, entries.get? k = some x → w'.Live (.object k) → entries'.get? k = some x
  dropped : written → ∀ k x, entries'.get? k = some x → w.Past (.object k) → w.Live (.object k)
  single : ∃ r, ∀ k x, entries'.get? k = some x → ¬w.Past (.object k) → k = r
  dead : ∀ k x, entries'.get? k = some x → ¬w.Past (.object k) →
    things x = [] ∧ ¬w'.Live (.object k)

/-- From `w` to `w'`, entries have been filed for new objects in maps, in those that have been
    `written` and as often as they are listed. All that was there is passed by, but that things
    may die. -/
structure Passes (written : List ObjectId) (w w' : World) : Prop where
  follows : w'.Follows w
  frame : ∃ heap scopes, w' = { w with heap, scopes }
  next : w.heap.next ≤ w'.heap.next
  grounded : w.heap.Grounded → w'.heap.Grounded
  prototype : ∀ o, w.Past (.object o) →
    w'.heap.prototype? o = w.heap.prototype? o ∨ w'.Dead (.object o)
  kind : ∀ o, w.Past (.object o) → o ∉ written →
    w'.heap.kind? o = w.heap.kind? o ∨ w'.Dead (.object o)
  named : ∀ m ∈ written, w.Live (.object m) ∧ w.IsMap m
  map : ∀ m ∈ written, ∀ entries, w.heap.kind? m = some (.map entries) →
    w'.Dead (.object m) ∨ ∃ entries', w'.heap.kind? m = some (.map entries') ∧
      Grown w (written.count m) entries entries'
  weak : ∀ m ∈ written, ∀ entries, w.weakEntries? m = some entries →
    w'.Dead (.object m) ∨ ∃ entries', w'.weakEntries? m = some entries' ∧
      Thinned w w' (m ∈ written) entries entries'
  /-- Nothing dies unless dead entries hold it that weak maps drop. -/
  live : (∀ m ∈ written, w.Idle m) → ∀ t, w.Live t → w'.Live t

/-- What settles passes by all that lives, and writes to no map. -/
theorem passes_settle (hw : w.Intact) : Passes [] w w.settle where
  follows := hw.follows_in_custody fun C => C.settle
  frame := ⟨_, _, rfl⟩
  next := Nat.le_refl _
  grounded := grounded_settle
  prototype o _ := (w.get?_settle_or_dead o).imp_left fun same => by
    rw [Heap.prototype?, same, Heap.prototype?]
  kind o _ _ := (w.get?_settle_or_dead o).imp_left fun same => by
    rw [Heap.kind?, same, Heap.kind?]
  named := nofun
  map := nofun
  weak := nofun
  live _ _ := live_settle

/-! ## One after the other -/

theorem Grown.refl (w : World) (entries : Entries) : Grown w 0 entries entries :=
  ⟨rfl, fun _ _ => rfl⟩

theorem Thinned.refl (hw : w.Intact) {entries : WeakEntries} (is : w.weakEntries? m = some entries)
    (w' : World) : Thinned w w' False entries entries where
  same _ := rfl
  sub _ _ found _ := found
  kept _ _ found _ := found
  dropped := nofun
  single := ⟨m, fun _ _ found new => absurd (hw.past_of_weakEntry is found) new⟩
  dead _ _ found new := absurd (hw.past_of_weakEntry is found) new

namespace Passes

variable {written written' : List ObjectId} {w'' : World}

theorem refl (hw : w.Intact) : Passes [] w w where
  follows := .refl hw
  frame := ⟨_, _, rfl⟩
  next := Nat.le_refl _
  grounded := id
  prototype _ _ := .inl rfl
  kind _ _ _ := .inl rfl
  named := nofun
  map := nofun
  weak := nofun
  live _ _ := id

theorem past (h : Passes written w w') (ho : w.Past (.object o)) : w'.Past (.object o) :=
  Nat.lt_of_lt_of_le ho h.next

/-- Where no map is written to, nothing dies. -/
theorem stays (h : Passes [] w w') (live : w.Live t) : w'.Live t :=
  h.live (List.forall_mem_nil _) t live

/-- What has become of any map, be it written to or not. -/
theorem grown (h : Passes written w w') {entries : Entries}
    (is : w.heap.kind? m = some (.map entries)) (alive : ¬w'.Dead (.object m)) :
    ∃ entries', w'.heap.kind? m = some (.map entries') ∧
      Grown w (written.count m) entries entries' := by
  by_cases mem : m ∈ written
  · exact (h.map m mem entries is).resolve_left alive
  · obtain ⟨x, hx, -⟩ := Option.map_eq_some_iff.1 is
    have same := (h.kind m (past_of_present (present_object.2 ⟨x, hx⟩)) mem).resolve_right alive
    rw [List.count_eq_zero.2 mem]
    exact ⟨entries, same.trans is, .refl w entries⟩

@[inherit_doc grown]
theorem thinned (h : Passes written w w') (hw : w.Intact) {entries : WeakEntries}
    (is : w.weakEntries? m = some entries) (alive : ¬w'.Dead (.object m)) :
    ∃ entries', w'.weakEntries? m = some entries' ∧
      Thinned w w' (m ∈ written) entries entries' := by
  by_cases mem : m ∈ written
  · exact (h.weak m mem entries is).resolve_left alive
  · obtain ⟨x, hx, -⟩ := object_of_weakEntries? is
    have same := (h.kind m (past_of_present (present_object.2 ⟨x, hx⟩)) mem).resolve_right alive
    rw [eq_false mem]
    exact ⟨entries, by rw [weakEntries?, same, ← weakEntries?, is], .refl hw is w'⟩

/-- A map stays one. -/
theorem isMap (h : Passes written w w') (hw : w.Intact) (hm : w.IsMap m)
    (alive : ¬w'.Dead (.object m)) : w'.IsMap m := by
  rcases hm with ⟨entries, is⟩ | ⟨entries, is⟩
  · obtain ⟨entries', is', -⟩ := h.grown is alive
    exact .inl ⟨entries', is'⟩
  · obtain ⟨entries', is', -⟩ := h.thinned hw (by rw [weakEntries?, is]) alive
    exact .inr ⟨entries', kind?_of_weakEntries? is'⟩

/-- What was there and is a map was one. -/
theorem isMap_of_isMap (h : Passes written w w') (past : w.Past (.object m))
    (live : w'.Live (.object m)) (hm : w'.IsMap m) : w.IsMap m := by
  by_cases mem : m ∈ written
  · exact (h.named m mem).2
  · have same := (h.kind m past mem).resolve_right fun dead => dead.2 live
    rwa [IsMap, ← same]

/-- A map that had no dead entries still has none where none of the maps written to had any. -/
theorem idle (h : Passes written w w') (hw : w.Intact) (idle : ∀ m ∈ written, w.Idle m)
    (hm : w.IsMap m) (live : w'.Live (.object m)) (before : w.Idle m) : w'.Idle m := by
  intro entries' is' k x found dead
  have alive : ¬w'.Dead (.object m) := fun dead => dead.2 live
  rcases hm with ⟨entries, is⟩ | ⟨entries, is⟩
  · obtain ⟨_, is, -⟩ := h.grown is alive
    cases is.symm.trans (kind?_of_weakEntries? is')
  · have is : w.weakEntries? m = some entries := by rw [weakEntries?, is]
    obtain ⟨_, is'', thinned⟩ := h.thinned hw is alive
    obtain rfl := Option.some.inj (is'.symm.trans is'')
    by_cases past : w.Past (.object k)
    · exact before entries is k x (thinned.sub k x found past) fun live =>
        dead (h.live idle _ live)
    · exact (thinned.dead k x found past).1

end Passes

/-- The entries of a map after two runs of writes. -/
theorem Grown.trans {n n' : Nat} {entries entries' entries'' : Entries}
    (h : Grown w n entries entries') (h' : Grown w' n' entries' entries'')
    (past : ∀ o, w.Past (.object o) → w'.Past (.object o)) :
    Grown w (n' + n) entries entries'' where
  size := by rw [h'.size, h.size, Nat.add_assoc, Nat.add_comm n]
  old k hk := (h'.old k fun o ho => past o (hk o ho)).trans (h.old k hk)

/-- The entries of a weak map after two runs of writes. -/
theorem Thinned.trans {w'' : World} {p p' : Prop} {entries entries' entries'' : WeakEntries}
    (h : Thinned w w' p entries entries') (h' : Thinned w' w'' p' entries' entries'')
    (known : ∀ k x, entries.get? k = some x → w.Past (.object k))
    (past : ∀ o, w.Past (.object o) → w'.Past (.object o))
    (follows : w'.Follows w) (follows' : w''.Follows w') :
    Thinned w w'' (p' ∨ p) entries entries'' where
  same no := (h'.same fun yes => no (.inl yes)).trans (h.same fun yes => no (.inr yes))
  sub k x found old := h.sub k x (h'.sub k x found (past k old)) old
  kept k x found live :=
    h'.kept k x (h.kept k x found (follows'.live (past k (known k x found)) live)) live
  dropped written k x found old := by
    rcases written with written | written
    · exact follows.live old (h'.dropped written k x found (past k old))
    · exact h.dropped written k x (h'.sub k x found (past k old)) old
  single := by
    by_cases written : p'
    · -- The new entry of the first part is dead after that, and the second part drops it.
      obtain ⟨r, one⟩ := h'.single
      refine ⟨r, fun k x found new => one k x found fun old => ?_⟩
      exact (h.dead k x (h'.sub k x found old) new).2 (h'.dropped written k x found old)
    · rw [h'.same written]
      exact h.single
  dead k x found new := by
    by_cases old : w'.Past (.object k)
    · obtain ⟨nothing, dead⟩ := h.dead k x (h'.sub k x found old) new
      exact ⟨nothing, fun live => dead (follows'.live old live)⟩
    · exact h'.dead k x found old

/-- What passes by all that was there, and then again, passes by all that was there at first. -/
theorem Passes.trans {written written' : List ObjectId} {w'' : World} (hw : w.Intact)
    (h : Passes written w w') (h' : Passes written' w' w'')
    (old : ∀ m ∈ written', w.Past (.object m)) : Passes (written' ++ written) w w'' where
  follows := h'.follows.trans h.follows
  frame := by
    obtain ⟨_, _, rfl⟩ := h.frame
    obtain ⟨heap, scopes, rfl⟩ := h'.frame
    exact ⟨heap, scopes, rfl⟩
  next := Nat.le_trans h.next h'.next
  grounded hh := h'.grounded (h.grounded hh)
  prototype o ho := by
    rcases h.prototype o ho with same | dead
    · exact same ▸ h'.prototype o (h.past ho)
    · exact .inr (h'.follows.outlives _ dead)
  kind o ho no := by
    rcases h.kind o ho fun mem => no (List.mem_append_right _ mem) with same | dead
    · exact same ▸ h'.kind o (h.past ho) fun mem => no (List.mem_append_left _ mem)
    · exact .inr (h'.follows.outlives _ dead)
  named m mem := by
    rcases List.mem_append.1 mem with mem | mem
    · obtain ⟨live, isMap⟩ := h'.named m mem
      exact ⟨h.follows.live (old m mem) live, h.isMap_of_isMap (old m mem) live isMap⟩
    · exact h.named m mem
  map m _ entries is := by
    refine (Classical.em _).imp_right fun alive => ?_
    obtain ⟨_, is', grown⟩ := h.grown is fun dead => alive (h'.follows.outlives _ dead)
    obtain ⟨entries'', is'', grown'⟩ := h'.grown is' alive
    rw [List.count_append]
    exact ⟨entries'', is'', grown.trans grown' fun _ => h.past⟩
  weak m _ entries is := by
    refine (Classical.em _).imp_right fun alive => ?_
    obtain ⟨_, is', thinned⟩ := h.thinned hw is fun dead => alive (h'.follows.outlives _ dead)
    obtain ⟨entries'', is'', thinned'⟩ := h'.thinned h.follows.intact is' alive
    rw [List.mem_append]
    exact ⟨entries'', is'', thinned.trans thinned' (fun _ _ => hw.past_of_weakEntry is)
      (fun _ => h.past) h.follows h'.follows⟩
  live idle t live := by
    have before : ∀ m ∈ written, w.Idle m := fun m mem => idle m (List.mem_append_right _ mem)
    refine h'.live (fun m mem => ?_) t (h.live before t live)
    obtain ⟨live, isMap⟩ := h'.named m mem
    exact h.idle hw before (h.isMap_of_isMap (old m mem) live isMap) live
      (idle m (List.mem_append_left _ mem))

/-! ## What is read -/

namespace Passes

variable {written : List ObjectId}

/-- The chain of an object that was there and is alive is as it was. -/
theorem chain (h : Passes written w w') (hh : w.heap.Grounded) (past : w.Past (.object o))
    (live : w'.Live (.object o)) :
    w'.heap.chain o = w.heap.chain o ∧ ∀ o' ∈ w'.heap.chain o, w'.Live (.object o') :=
  chain_of_prototypes h.follows.intact hh (h.grounded hh) h.prototype
    (present_of_live (h.follows.live past live)) live

/-- What was there and is alive has the entries that it had. -/
theorem entryOf (h : Passes written w w') (hw : w.Intact) (hm : w.IsMap m)
    (alive : w'.Live (.object m)) (past : w.Past (.object o)) (live : w'.Live (.object o)) :
    w'.entryOf m o = w.entryOf m o := by
  have alive : ¬w'.Dead (.object m) := fun dead => dead.2 alive
  rw [World.entryOf, World.entryOf, valueAt?_object, valueAt?_object]
  rcases hm with ⟨entries, is⟩ | ⟨entries, is⟩
  · obtain ⟨entries', is', grown⟩ := h.grown is alive
    rw [is, is', Option.bind_some, Option.bind_some, Kind.slot?, Kind.slot?]
    exact grown.old (.object o) fun o' e => Option.some.inj e ▸ past
  · obtain ⟨entries', is', thinned⟩ := h.thinned hw (by rw [weakEntries?, is]) alive
    rw [is, kind?_of_weakEntries? is', Option.bind_some, Option.bind_some, Kind.slot?, Kind.slot?]
    cases found : entries.get? o with
    | some x => exact thinned.kept o x found live
    | none =>
      refine Option.eq_none_iff_forall_ne_some.2 fun x found' => ?_
      cases found.symm.trans (thinned.sub o x found' past)

/-- So it reads what it read. -/
theorem privateValue (h : Passes written w w') (hw : w.Intact) (hh : w.heap.Grounded)
    (hm : w.IsMap m) (alive : w'.Live (.object m)) (past : w.Past (.object o))
    (live : w'.Live (.object o)) : w'.privateValue m o = w.privateValue m o := by
  obtain ⟨same, lives⟩ := h.chain hh past live
  have starts : w.heap.Starts (some o) := fun o' e =>
    Option.some.inj e ▸ present_of_live (t := .object o) (h.follows.live past live)
  rw [World.privateValue, World.privateValue, findSome?_congr fun o' mem => ?_, same]
  have present : w.heap.alive o' := hh.alive_of_mem_chainFrom starts (by rwa [same] at mem)
  exact h.entryOf hw hm alive (past_of_present (t := .object o') present) (lives o' mem)

theorem describeObject (h : Passes written w w') (hw : w.Intact) (hm : w.IsMap m)
    (alive : w'.Live (.object m)) : w'.describeObject m = w.describeObject m := by
  have alive : ¬w'.Dead (.object m) := fun dead => dead.2 alive
  rw [World.describeObject, World.describeObject, Heap.className, Heap.className]
  rcases hm with ⟨entries, is⟩ | ⟨entries, is⟩
  · obtain ⟨_, is', -⟩ := h.grown is alive
    rw [is, is']
    rfl
  · obtain ⟨_, is', -⟩ := h.thinned hw (by rw [weakEntries?, is]) alive
    rw [is, kind?_of_weakEntries? is']
    rfl

end Passes

/-! ## Sizes of weak maps -/

section

variable {written : Prop} {entries entries' : WeakEntries}
  (h : Thinned w w' written entries entries')
include h

/-- A weak map has for a living key what it had. -/
theorem Thinned.get? {k : ObjectId} (live : w'.Live (.object k)) :
    entries'.get? k = entries.get? k := by
  cases found : entries.get? k with
  | some x => exact h.kept k x found live
  | none =>
    refine Option.eq_none_iff_forall_ne_some.2 fun x found' => ?_
    by_cases past : w.Past (.object k)
    · cases found.symm.trans (h.sub k x found' past)
    · exact (h.dead k x found' past).2 live

theorem Thinned.liveSize_eq (is : w'.weakEntries? m = some entries') :
    entries'.liveSize w'.lives = entries.liveSize w'.lives := by
  have refines : WeakMap.Refines m w' (w'.living entries.table) :=
    { weak := by rw [is]; rfl
      keys := fun _ => live_of_mem_living
      get := fun k live => by
        rw [WeakMap.valueAt?_of_weakEntries? is, get?_living live, h.get? live]
        rfl }
  rw [refines.liveSize_eq is, WeakEntries.liveSize, living, Table.keys, List.countP_map,
    List.countP_eq_length_filter]
  rfl

/-- Where all old keys live, one entry at most is dead. -/
theorem Thinned.size_le (stays : ∀ k, entries.contains k → w'.Live (.object k)) :
    entries'.size ≤ entries'.liveSize w'.lives + 1 := by
  obtain ⟨r, single⟩ := h.single
  have dead : ∀ k ∈ entries'.table.keys, !w'.lives k → k == r := by
    intro k mem dead
    obtain ⟨x, found⟩ := Option.isSome_iff_exists.1 (Table.contains_iff_mem_keys.2 mem)
    refine beq_iff_eq.2 (single k x found fun past => ?_)
    have live := stays k (Option.isSome_iff_exists.2 ⟨x, h.sub k x found past⟩)
    simp [lives_iff.2 live] at dead
  have once : entries'.table.keys.countP (!w'.lives ·) ≤ 1 :=
    Nat.le_trans (List.countP_mono_left dead)
      (List.nodup_iff_count.1 entries'.table.nodup_keys r)
  rw [WeakEntries.size, ← Table.length_keys, WeakEntries.liveSize,
    List.length_eq_countP_add_countP w'.lives]
  simpa using once

end

/-- Where nothing has died, as many keys live as did. -/
theorem liveSize_of_live (hw : w.Intact) (follows : w'.Follows w) {entries : WeakEntries}
    (is : w.weakEntries? m = some entries) (live : ∀ t, w.Live t → w'.Live t) :
    entries.liveSize w'.lives = entries.liveSize w.lives := by
  refine List.countP_congr fun k mem => ?_
  obtain ⟨x, found⟩ := Option.isSome_iff_exists.1 (Table.contains_iff_mem_keys.2 mem)
  exact ⟨follows.live (hw.past_of_weakEntry is found), live (.object k)⟩

end World

end Lvalue
