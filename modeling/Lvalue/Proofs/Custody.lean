import Lvalue.Proofs.Change
import Lvalue.Proofs.Thing

/-!
# Custody

An evaluation works with things that it has got from the world, and what becomes of
them depends on what holds them meanwhile. A *custody* says which worlds are in order
and which things are *known* there, that is, may be handled; some of these are *kept*,
and stay known when the world settles. What is known comes from names and from what the
run works on, from what known things hold, and from new things. A change among known
things (`ChangeAmong`) keeps the order, and what was known is known afterwards.

So a custody is kept by every evaluation that handles what it knows. Whatever it has to
know after it has run a body, it has to hold meanwhile: then it knows it as an operand.
That makes a logic of evaluations with what they start from and what they end in
(`Eval.Triple`, `Eval.Safe`), which is followed through every access, command, action
and body once, for all that is to be said of them:

* As in a run there may be a turn, there are two custodies at a time (`Custodies`): up to
  the turn two evaluations do the same and the early one is kept, and then the late one
  is. Without a turn there is the early one alone (`Custodies.only`).
* An evaluation that runs out of budget may count as one that has ended like any other,
  or may be excused from all that is asked (`Custodies.Asks`). So to do the same as
  another one wherever that ends is a custody too (`Lvalue.Proofs.Completion`).
* A custody in which every thing may be handled is nothing but a property of worlds
  (`Custody.unrestricted`): one that all changes keep (`Lvalue.Proofs.Lockstep.Resolution`),
  or that the changes of what is known by name keep (`Lvalue.Proofs.Acquisition`).
-/

namespace Lvalue

open Bearer

/-! ## Changes among known things -/

/-- The objects that a weak map has entries for, alive or not. -/
def Kind.weakKeys : Kind → List ObjectId
  | .weakMap entries => entries.table.keys
  | _ => []

/-- A single change of a world in which only known things are handled. -/
inductive ChangeAmong (known : Thing → Prop) : World → World → Prop
  | handles {w : World} {h : Handles} (operands : h.operands = w.handles.operands)
    (held : ∀ t ∈ things { h with operands := [] }, known t)
    (weak : ∀ o ∈ h.weak.values, o ∈ w.handles.weak.values ∨ known (.object o))
    (references : w.Acquires { w with handles := h }) :
    ChangeAmong known w { w with handles := h }
  | journal (w : World) (journal : List Entry) : ChangeAmong known w { w with journal }
  | nextSymbol (w : World) (nextSymbol : Nat) : ChangeAmong known w { w with nextSymbol }
  | registry {w : World} {r : Registry} (targets : ∀ t ∈ things r.keys, known t) :
    ChangeAmong known w { w with registry := r }
  | allocScope {w : World} {parent : Option ScopeId} (hp : ∀ t ∈ things parent, known t) :
    ChangeAmong known w { w with scopes := (w.scopes.alloc parent).2 }
  | rebind {w : World} {s : ScopeId} {f : Table Atom Binding → Table Atom Binding}
    (hs : known (.scope s))
    (held : ∀ c, w.scopes.get? s = some c → ∀ t ∈ things (f c.bindings).values, known t) :
    ChangeAmong known w { w with scopes := w.scopes.rebind s f }
  | alloc {w : World} {new : Object} (held : ∀ t ∈ things new, known t)
    (weak : new.kind.weakKeys = []) :
    ChangeAmong known w { w with heap := (w.heap.alloc new).2 }
  | setPrototype {w : World} {o : ObjectId} {prototype : Option ObjectId}
    (ho : known (.object o)) (hp : ∀ t ∈ things prototype, known t) :
    ChangeAmong known w { w with heap := w.heap.setPrototype o prototype }
  | preventExtensions {w : World} {o : ObjectId} (ho : known (.object o)) :
    ChangeAmong known w { w with heap := w.heap.preventExtensions o }
  | define {w : World} {o : ObjectId} (k : Key) {p : Property} (ho : known (.object o))
    (hp : ∀ t ∈ things p, known t) :
    ChangeAmong known w { w with heap := w.heap.define o k p }
  | delete {w : World} {o : ObjectId} (k : Key) (ho : known (.object o)) :
    ChangeAmong known w { w with heap := w.heap.delete o k }
  | entries {w : World} {m : ObjectId} {old new : Entries} (hm : known (.object m))
    (is : w.heap.kind? m = some (.map old)) (held : ∀ t ∈ things (Kind.map new), known t) :
    ChangeAmong known w { w with heap := w.heap.setKind m (.map new) }
  | weakInsert {w : World} {m k : ObjectId} {v : Value} {entries : WeakEntries}
    (hm : known (.object m)) (is : w.weakEntries? m = some entries) (hk : known (.object k))
    (hv : ∀ t ∈ things v, known t) :
    ChangeAmong known w { w with heap := w.heap.setKind m (.weakMap (entries.insert k v)) }
  | weakErase {w : World} {m : ObjectId} {entries : WeakEntries} (k : ObjectId)
    (hm : known (.object m)) (is : w.weakEntries? m = some entries) :
    ChangeAmong known w { w with heap := w.heap.setKind m (.weakMap (entries.erase k)) }

namespace ChangeAmong

variable {known known' : Thing → Prop} {w w' : World}

/-- To change nothing is to handle nothing. -/
theorem refl (w : World) : ChangeAmong known w w := .journal w w.journal

/-- It is a change, whatever is known. -/
theorem change (h : ChangeAmong known w w') : Change w w' := by
  cases h with
  | handles => exact .handles w _
  | journal journal => exact .journal w journal
  | nextSymbol nextSymbol => exact .nextSymbol w nextSymbol
  | registry => exact .registry w _
  | allocScope | rebind => exact .scopes w _
  | alloc => exact .alloc w _
  | setPrototype => exact .setPrototype w _ _
  | preventExtensions => exact .preventExtensions w _
  | define k => exact .define w _ k _
  | delete k => exact .delete w _ k
  | entries _ is => exact .entries is _
  | weakInsert _ is => exact .weakEntries (World.kind?_of_weakEntries? is) _
  | weakErase k _ is => exact .weakEntries (World.kind?_of_weakEntries? is) _

/-- Where more is known, more changes are among known things. -/
theorem mono (h : ChangeAmong known w w') (le : ∀ t, known t → known' t) :
    ChangeAmong known' w w' := by
  cases h with
  | handles operands held weak references =>
    exact .handles operands (fun t ht => le t (held t ht))
      (fun o ho => (weak o ho).imp_right (le _)) references
  | journal journal => exact .journal w journal
  | nextSymbol nextSymbol => exact .nextSymbol w nextSymbol
  | registry targets => exact .registry fun t ht => le t (targets t ht)
  | allocScope hp => exact .allocScope fun t ht => le t (hp t ht)
  | rebind hs held => exact .rebind (le _ hs) fun c hc t ht => le t (held c hc t ht)
  | alloc held weak => exact .alloc (fun t ht => le t (held t ht)) weak
  | setPrototype ho hp => exact .setPrototype (le _ ho) fun t ht => le t (hp t ht)
  | preventExtensions ho => exact .preventExtensions (le _ ho)
  | define k ho hp => exact .define k (le _ ho) fun t ht => le t (hp t ht)
  | delete k ho => exact .delete k (le _ ho)
  | entries hm is held => exact .entries (le _ hm) is fun t ht => le t (held t ht)
  | weakInsert hm is hk hv => exact .weakInsert (le _ hm) is (le _ hk) fun t ht => le t (hv t ht)
  | weakErase k hm is => exact .weakErase k (le _ hm) is

end ChangeAmong

/-! ## Custodies -/

/-- The world with other operands. -/
def World.onOperands (w : World) (f : List Reference → List Reference) : World :=
  { w with handles := { w.handles with operands := f w.handles.operands } }

/-- Where a run stands: the number of handlers that run inside one another, and what the
    running operations work on. -/
structure Layer where
  depth : Nat
  operands : List Reference

/-- A discipline of handling things. -/
structure Custody where
  /-- The world is in order where a run stands so. -/
  order : Layer → World → Prop
  /-- The thing may be handled. -/
  known : World → Thing → Prop
  /-- The thing may be handled even after the world has settled. -/
  kept : World → Thing → Prop
  known_of_kept : ∀ {l w t}, order l w → kept w t → known w t
  kept_of_name : ∀ {l w t}, order l w → t ∈ w.named → kept w t
  kept_of_operand : ∀ {l w t}, order l w → t ∈ things l.operands → kept w t
  known_of_held : ∀ {l w t t'}, order l w → known w t → t' ∈ w.holds t → known w t'
  known_congr : ∀ {w w' t}, w'.heap = w.heap → w'.scopes = w.scopes → known w t → known w' t
  kept_congr : ∀ {w w' t}, w'.registry = w.registry → w'.handles = w.handles → kept w t →
    kept w' t
  change : ∀ {l w w'}, order l w → ChangeAmong (known w) w w' →
    order l w' ∧ ∀ t, known w t → known w' t
  known_alloc : ∀ {l w} {new : Object}, order l w → (∀ t ∈ things new, known w t) →
    known { w with heap := (w.heap.alloc new).2 } (.object ⟨w.heap.next⟩)
  known_allocScope : ∀ {l w} {parent : Option ScopeId}, order l w →
    (∀ t ∈ things parent, known w t) →
    known { w with scopes := (w.scopes.alloc parent).2 } (.scope ⟨w.scopes.next⟩)
  settle : ∀ {l w}, order l w → order l w.settle
  hold : ∀ {l w rs}, order l w → (∀ t ∈ things rs, known w t) →
    order { l with operands := rs ++ l.operands } (w.onOperands (rs ++ ·))
  release : ∀ {l w rs}, order { l with operands := rs ++ l.operands } w →
    order l (w.onOperands (·.drop rs.length))
  enter : ∀ {l w}, order l w → w.depth < w.config.maxDepth →
    order { l with depth := l.depth + 1 } { w with depth := w.depth + 1 }
  leave : ∀ {l w}, order { l with depth := l.depth + 1 } w →
    order l { w with depth := w.depth - 1 }

namespace Custody

variable {C : Custody} {l : Layer} {w : World}

/-- Whatever is known by name may be handled. -/
theorem known_of_name {t : Thing} (hw : C.order l w) (h : t ∈ w.named) : C.known w t :=
  C.known_of_kept hw (C.kept_of_name hw h)

theorem known_intrinsic (hw : C.order l w) (i : Intrinsic) : C.known w (.object i.id) :=
  known_of_name hw (w.named_intrinsic i)

/-- Where a run stands at all that is worked on, what is anchored is kept. -/
theorem kept_of_anchor {t : Thing} (hw : C.order l w) (operands : l.operands = w.handles.operands)
    (h : t ∈ w.anchors) : C.kept w t :=
  (World.mem_anchors.1 h).elim (C.kept_of_name hw) fun h => C.kept_of_operand hw (operands ▸ h)

theorem known_of_anchor {t : Thing} (hw : C.order l w) (operands : l.operands = w.handles.operands)
    (h : t ∈ w.anchors) : C.known w t :=
  C.known_of_kept hw (kept_of_anchor hw operands h)

/-- What the handles hold is known, so that only what comes in has to be looked at. -/
theorem amongHandles (hw : C.order l w) (h : Handles) (operands : h.operands = w.handles.operands)
    (held : ∀ t ∈ things { h with operands := [] },
      t ∈ things { w.handles with operands := [] } ∨ C.known w t)
    (weak : ∀ o ∈ h.weak.values, o ∈ w.handles.weak.values ∨ C.known w (.object o))
    (references : w.Acquires { w with handles := h }) :
    ChangeAmong (C.known w) w { w with handles := h } :=
  .handles operands
    (fun t ht => (held t ht).elim (fun ht => known_of_name hw (List.mem_append_right _ ht)) id)
    weak references

/-- A custody in which every thing may be handled. -/
def unrestricted (order : Layer → World → Prop)
    (change : ∀ {l w w'}, order l w → ChangeAmong (fun _ => True) w w' → order l w')
    (settle : ∀ {l w}, order l w → order l w.settle)
    (hold : ∀ {l w rs}, order l w →
      order { l with operands := rs ++ l.operands } (w.onOperands (rs ++ ·)))
    (release : ∀ {l : Layer} {w} {rs : List Reference},
      order { l with operands := rs ++ l.operands } w → order l (w.onOperands (·.drop rs.length)))
    (enter : ∀ {l w}, order l w → w.depth < w.config.maxDepth →
      order { l with depth := l.depth + 1 } { w with depth := w.depth + 1 })
    (leave : ∀ {l : Layer} {w : World},
      order { l with depth := l.depth + 1 } w → order l { w with depth := w.depth - 1 }) :
    Custody where
  order := order
  known _ _ := True
  kept _ _ := True
  known_of_kept _ _ := trivial
  kept_of_name _ _ := trivial
  kept_of_operand _ _ := trivial
  known_of_held _ _ _ := trivial
  known_congr _ _ _ := trivial
  kept_congr _ _ _ := trivial
  change hw h := ⟨change hw h, fun _ _ => trivial⟩
  known_alloc _ _ := trivial
  known_allocScope _ _ := trivial
  settle := settle
  hold hw _ := hold hw
  release := release
  enter := enter
  leave := leave

/-- The custody of the worlds whose heap has a property besides. -/
def onHeap (C : Custody) (I : Heap → Prop)
    (change : ∀ {l w w'}, C.order l w → I w.heap → ChangeAmong (C.known w) w w' → I w'.heap)
    (settle : ∀ {l w}, C.order l w → I w.heap → I w.settle.heap) : Custody where
  order l w := C.order l w ∧ I w.heap
  known := C.known
  kept := C.kept
  known_of_kept hw := C.known_of_kept hw.1
  kept_of_name hw := C.kept_of_name hw.1
  kept_of_operand hw := C.kept_of_operand hw.1
  known_of_held hw := C.known_of_held hw.1
  known_congr := C.known_congr
  kept_congr := C.kept_congr
  change hw h := ⟨⟨(C.change hw.1 h).1, change hw.1 hw.2 h⟩, (C.change hw.1 h).2⟩
  known_alloc hw := C.known_alloc hw.1
  known_allocScope hw := C.known_allocScope hw.1
  settle hw := ⟨C.settle hw.1, settle hw.1 hw.2⟩
  hold hw h := ⟨C.hold hw.1 h, hw.2⟩
  release hw := ⟨C.release hw.1, hw.2⟩
  enter hw lt := ⟨C.enter hw.1 lt, hw.2⟩
  leave hw := ⟨C.leave hw.1, hw.2⟩

/-- The custody that no world is in. -/
def nowhere (C : Custody) : Custody where
  order _ _ := False
  known := C.known
  kept := C.kept
  known_of_kept := False.elim
  kept_of_name := False.elim
  kept_of_operand := False.elim
  known_of_held := False.elim
  known_congr := C.known_congr
  kept_congr := C.kept_congr
  change := False.elim
  known_alloc := False.elim
  known_allocScope := False.elim
  settle := id
  hold hw := hw.elim
  release := id
  enter hw := hw.elim
  leave := id

end Custody

/-- The custodies of the time before the turn of a run and of the time from it on, and what is made
    of an evaluation that runs out of budget. -/
structure Custodies where
  early : Custody
  late : Custody
  /-- To run out of budget is an end like any other. -/
  counts : Prop
  /-- Nothing is asked of what runs out of budget. -/
  excused : Prop
  counts_of_late : ∀ {l w}, late.order l w → counts

namespace Custodies

/-- The custodies of a run with a turn, whose every end counts. -/
def turning (early late : Custody) : Custodies where
  early := early
  late := late
  counts := True
  excused := False
  counts_of_late _ := trivial

/-- The custody of a run without a turn. -/
def only (C : Custody) : Custodies := turning C C.nowhere

/-- If an end is asked for anything, it is asked for `q`. -/
def Asks {α : Type} (C : Custodies) (result : Except Halt α) (q : Prop) : Prop :=
  (result = .error .exhausted ∧ C.excused) ∨ ((result = .error .exhausted → C.counts) ∧ q)

section

variable {α : Type} {C : Custodies} {result : Except Halt α} {q q' : Prop}

/-- What is asked may be asked for less. -/
theorem Asks.imp (h : C.Asks result q) (hq : q → q') : C.Asks result q' :=
  Or.imp_right (And.imp_right hq) h

/-- Of what does not run out of budget, all is asked that is to be said of it. -/
theorem asks_of_lasts (lasts : result ≠ .error .exhausted) (hq : q) : C.Asks result q :=
  .inr ⟨fun out => absurd out lasts, hq⟩

theorem asks_of_counts (counts : C.counts) (hq : q) : C.Asks result q := .inr ⟨fun _ => counts, hq⟩

/-- In a run with a turn, everything is asked for what is to be said of it. -/
theorem Asks.of_turning {early late : Custody} (h : (turning early late).Asks result q) : q :=
  h.elim (fun out => out.2.elim) And.right

end

end Custodies

/-- What is said of a world in terms of a custody. -/
abbrev Assertion := Custody → World → Prop

/-- The things are known. -/
def Knows (ts : List Thing) : Assertion := fun C w => ∀ t ∈ ts, C.known w t

/-- The things are kept. -/
def Keeps (ts : List Thing) : Assertion := fun C w => ∀ t ∈ ts, C.kept w t

section

variable {C : Custody} {w : World} {t : Thing} {ts ts' : List Thing}

@[simp]
theorem knows_nil : Knows [] C w ↔ True := iff_true_intro fun _ => nofun

/-- A list of things is known if each of them is. -/
@[simp]
theorem knows_cons : Knows (t :: ts) C w ↔ C.known w t ∧ Knows ts C w := List.forall_mem_cons

@[simp]
theorem knows_append : Knows (ts ++ ts') C w ↔ Knows ts C w ∧ Knows ts' C w :=
  List.forall_mem_append

@[simp]
theorem keeps_nil : Keeps [] C w ↔ True := iff_true_intro fun _ => nofun

/-- A list of things is kept if each of them is. -/
@[simp]
theorem keeps_cons : Keeps (t :: ts) C w ↔ C.kept w t ∧ Keeps ts C w := List.forall_mem_cons

@[simp]
theorem keeps_append : Keeps (ts ++ ts') C w ↔ Keeps ts C w ∧ Keeps ts' C w :=
  List.forall_mem_append

end

section

variable {C : Custody} {l : Layer} {w : World} {ts ts' : List Thing}

/-- What is kept is known. -/
theorem Keeps.known (h : Keeps ts C w) (hw : C.order l w) {t : Thing} (ht : t ∈ ts) : C.known w t :=
  C.known_of_kept hw (h t ht)

@[inherit_doc Keeps.known]
theorem Keeps.knows (h : Keeps ts C w) (hw : C.order l w) (sub : ts' ⊆ ts) : Knows ts' C w :=
  fun _ ht => h.known hw (sub ht)

end

namespace Eval

variable {α β : Type}

/-- An evaluation ended in order and, if it ended in a result, so that `Q` holds of it. -/
structure Ends (C : Custody) (l : Layer) (Q : α → Assertion) (end_ : Except Halt α × World) :
    Prop where
  order : C.order l end_.2
  result : ∀ a, end_.1 = .ok a → Q a C end_.2

/-- Before the turn, both evaluations do the same from worlds that satisfy `P`, and keep the
    early custody and end so that `Q` holds, or else there is a turn; and after it, the first
    evaluation keeps the late custody in the same way. It may be that the first evaluation runs out
    of budget before the turn and is excused. -/
def Triple (C : Custodies) (l : Layer) (P : Assertion) (act act' : Eval α) (Q : α → Assertion) :
    Prop :=
  ∀ w, (C.early.order l w → P C.early w → C.Asks (act.on w).1
      ((act'.on w = act.on w ∧ Ends C.early l Q (act.on w)) ∨ Ends C.late l Q (act.on w))) ∧
    (C.late.order l w → P C.late w → Ends C.late l Q (act.on w))

/-- The evaluations are in custody, and what they yield is known. -/
def Safe [Bearer α] (C : Custodies) (l : Layer) (P : Assertion) (act act' : Eval α) : Prop :=
  Triple C l P act act' fun a => Knows (things a)

/-! ### What is fetched -/

/-- The evaluation leaves the world as it is, and what it yields is known by name or from `ts`. -/
structure Fetches [Bearer α] (ts : List Thing) (act : Eval α) : Prop where
  looks : Looks act
  lasts : Lasts act
  result : ∀ w a, (act.on w).1 = .ok a → ∀ t ∈ things a, t ∈ ts ∨ t ∈ w.named

namespace Fetches

variable [Bearer α] [Bearer β] {ts : List Thing} {act : Eval α}

/-- What is given is no other thing than those that are kept already. -/
theorem pure {a : α} (h : things a ⊆ ts) : Fetches ts (Pure.pure a : Eval α) where
  looks _ := rfl
  lasts _ := nofun
  result _ _ e _ ht := .inl (h (Except.ok.inj e ▸ ht))

theorem named {a : α} (h : ∀ w : World, things a ⊆ w.named) :
    Fetches ts (Pure.pure a : Eval α) where
  looks _ := rfl
  lasts _ := nofun
  result w _ e _ ht := .inr (h w (Except.ok.inj e ▸ ht))

theorem stuck : Fetches ts (stuck : Eval α) where
  looks _ := rfl
  lasts _ := nofun
  result _ _ := nofun

/-- What is fetched second may be found with what was fetched first. -/
theorem bind {f : α → Eval β} (h : Fetches ts act) (hf : ∀ a, Fetches (things a ++ ts) (f a)) :
    Fetches ts (act >>= f) where
  looks w := by
    have looks := h.looks w
    rw [on_bind]
    revert looks
    rcases act.on w with ⟨_ | a, w'⟩
    · exact id
    · rintro rfl
      exact (hf a).looks w'
  lasts w := by
    have lasts := h.lasts w
    rw [on_bind]
    revert lasts
    rcases act.on w with ⟨halt | a, w'⟩
    · exact fun lasts out => lasts (Except.error.inj out ▸ rfl)
    · exact fun _ => (hf a).lasts w'
  result w b hb t ht := by
    have looks := h.looks w
    have result := h.result w
    rw [on_bind] at hb
    -- The first part leaves the world as it is, and so the second one looks at the same names.
    rcases e : act.on w with ⟨_ | a, w'⟩ <;> rw [e] at looks result hb
    · cases hb
    · obtain rfl : w' = w := looks
      rcases (hf a).result w' b hb t ht with ht | ht
      · exact (List.mem_append.1 ht).elim (result a rfl t) .inl
      · exact .inr ht

/-- A look for something that is known by name if it is found. -/
theorem see {f : World → Option α} (h : ∀ w a, f w = some a → things a ⊆ w.named) :
    Fetches ts (do demand (← see f)) where
  looks w := by
    rw [on_bind, on_see]
    dsimp only
    cases f w <;> rfl
  lasts w := by
    rw [on_bind, on_see]
    dsimp only
    cases f w <;> nofun
  result w a := by
    rw [on_bind, on_see]
    dsimp only
    cases e : f w with
    | none => exact nofun
    | some a' => exact fun e' _ ht => .inr (h w a' e (Except.ok.inj e' ▸ ht))

theorem mono {ts' : List Thing} (h : Fetches ts act) (sub : ts ⊆ ts') : Fetches ts' act where
  looks := h.looks
  lasts := h.lasts
  result w a ha t ht := (h.result w a ha t ht).imp_left (@sub t)

/-- What is fetched one by one is all fetched. -/
theorem list_mapM {γ : Type} {f : γ → Eval β} (hf : ∀ c, Fetches [] (f c)) (cs : List γ) :
    Fetches [] (cs.mapM f) := by
  induction cs with
  | nil => exact pure (List.Subset.refl _)
  | cons c cs ih =>
    rw [List.mapM_cons]
    refine (hf c).bind fun b => (ih.mono (List.nil_subset _)).bind fun bs => pure ?_
    simp

theorem option_mapM {γ : Type} {f : γ → Eval β} (hf : ∀ c, Fetches [] (f c)) (c : Option γ) :
    Fetches [] (c.mapM f) := by
  rcases c with _ | c
  · exact pure (List.Subset.refl _)
  · exact (hf c).bind fun b => pure (by simp)

end Fetches

namespace Triple

variable {C : Custodies} {l : Layer} {P P' : Assertion} {Q Q' : α → Assertion} {R : β → Assertion}
  {act act' : Eval α} {ts : List Thing}

/-- What does not run out of budget may be looked at in one custody at a time. -/
theorem of_each (lasts : act.Lasts)
    (h : ∀ (C : Custody) w, C.order l w → P C w → Ends C l Q (act.on w)) :
    Triple C l P act act Q :=
  fun w => ⟨fun hw hP => C.asks_of_lasts (lasts w) (.inl ⟨rfl, h _ w hw hP⟩), h _ w⟩

/-- It may start from more and end in less. -/
theorem mono (h : Triple C l P act act' Q)
    (pre : ∀ (C : Custody) w, C.order l w → P' C w → P C w)
    (post : ∀ a (C : Custody) w, C.order l w → Q a C w → Q' a C w) :
    Triple C l P' act act' Q' := by
  have ends {C : Custody} {w : World} (e : Ends C l Q (act.on w)) : Ends C l Q' (act.on w) :=
    ⟨e.order, fun a ha => post a C _ e.order (e.result a ha)⟩
  refine fun w => ⟨fun hw hP => ?_, fun hw hP => ends ((h w).2 hw (pre _ w hw hP))⟩
  exact ((h w).1 hw (pre _ w hw hP)).imp (.imp (fun ⟨e, e'⟩ => ⟨e, ends e'⟩) ends)

theorem pre (h : Triple C l P act act' Q)
    (imp : ∀ (C : Custody) w, C.order l w → P' C w → P C w) : Triple C l P' act act' Q :=
  h.mono imp fun _ _ _ _ => id

theorem pure {a : α} (h : ∀ (C : Custody) w, C.order l w → P C w → Q a C w) :
    Triple C l P (Pure.pure a) (Pure.pure a) Q :=
  of_each (fun _ => nofun) fun C w hw hP => ⟨hw, fun _ e => Except.ok.inj e ▸ h C w hw hP⟩

/-- Both evaluations fail at once. -/
theorem fails {halt : Halt} (lasts : halt ≠ .exhausted) (on : ∀ w, act.on w = (.error halt, w))
    (on' : ∀ w, act'.on w = (.error halt, w)) : Triple C l P act act' Q := by
  have ends {C : Custody} {w : World} (hw : C.order l w) : Ends C l Q (act.on w) := by
    rw [on]
    exact ⟨hw, nofun⟩
  refine fun w => ⟨fun hw _ => C.asks_of_lasts ?_ (.inl ⟨(on' w).trans (on w).symm, ends hw⟩),
    fun hw _ => ends hw⟩
  rw [on]
  exact fun out => lasts (Except.error.inj out)

/-- A failure ends both evaluations at once, in the world as it is. -/
theorem raise (e : Error Value) : Triple C l P (raise e) (Eval.raise e) Q :=
  fails (by nofun) (fun _ => rfl) fun _ => rfl

theorem fault (f : Fault Value) : Triple C l P (fault f) (Eval.fault f) Q := raise _

theorem stuck : Triple C l P stuck Eval.stuck Q := fails (by nofun) (fun _ => rfl) fun _ => rfl

/-- Where every end counts, both evaluations may run out of budget. -/
theorem exhausted (counts : C.counts) : Triple C l P (throw .exhausted) (throw .exhausted) Q :=
  fun _ => ⟨fun hw _ => C.asks_of_counts counts (.inl ⟨rfl, hw, nofun⟩), fun hw _ => ⟨hw, nofun⟩⟩

/-- What comes next is only asked about for the results that there are. -/
theorem bind_ok {f f' : α → Eval β} (h : Triple C l P act act' Q)
    (hf : ∀ a w, (act.on w).1 = .ok a → Triple C l (Q a) (f a) (f' a) R) :
    Triple C l P (act >>= f) (act' >>= f') R := by
  intro w
  have next := fun a => hf a w
  -- Once the first evaluation has ended late, so does what comes after it.
  have late : Ends C.late l Q (act.on w) → Ends C.late l R ((act >>= f).on w) := by
    rw [on_bind]
    revert next
    rcases act.on w with ⟨_ | a, w'⟩
    · exact fun _ e => ⟨e.order, nofun⟩
    · exact fun next e => (next a rfl w').2 e.order (e.result a rfl)
  refine ⟨fun hw hP => ?_, fun hw hP => late ((h w).2 hw hP)⟩
  rcases (h w).1 hw hP with ⟨out, excused⟩ | ⟨counts, ⟨same, ends⟩ | ends⟩
  · refine .inl ⟨?_, excused⟩
    rw [on_bind]
    revert out
    rcases act.on w with ⟨_ | a, w'⟩
    · exact fun out => Except.error.inj out ▸ rfl
    · exact nofun
  · rw [on_bind, on_bind, same]
    revert next counts ends
    rcases act.on w with ⟨_ | a, w'⟩
    · exact fun _ counts e =>
        .inr ⟨fun out => counts (Except.error.inj out ▸ rfl), .inl ⟨rfl, e.order, nofun⟩⟩
    · exact fun next _ e => (next a rfl w').1 e.order (e.result a rfl)
  · exact C.asks_of_counts (C.counts_of_late ends.order) (.inr (late ends))

/-- What comes next starts from what the first part ends in, whatever it is. -/
theorem bind {f f' : α → Eval β} (h : Triple C l P act act' Q)
    (hf : ∀ a, Triple C l (Q a) (f a) (f' a) R) : Triple C l P (act >>= f) (act' >>= f') R :=
  h.bind_ok fun a _ _ => hf a

/-- To fetch something is to go on with what is kept. -/
theorem fetch_from [Bearer α] {f f' : α → Eval β} (h : Fetches ts act)
    (hf : ∀ a, Triple C l (Keeps (things a ++ ts)) (f a) (f' a) R) :
    Triple C l (Keeps ts) (act >>= f) (act >>= f') R := by
  refine bind (Q := fun a => Keeps (things a ++ ts)) (of_each h.lasts fun C w hw hP => ?_) hf
  refine ⟨(h.looks w).symm ▸ hw, fun a ha t ht => ?_⟩
  rw [h.looks w]
  rcases List.mem_append.1 ht with ht | ht
  · exact (h.result w a ha t ht).elim (hP t) (C.kept_of_name hw)
  · exact hP t ht

/-- What is fetched by name is kept beside all that is kept already. -/
theorem fetch [Bearer α] {f f' : α → Eval β} (h : Fetches [] act)
    (hf : ∀ a, Triple C l (Keeps (things a ++ ts)) (f a) (f' a) R) :
    Triple C l (Keeps ts) (act >>= f) (act >>= f') R :=
  fetch_from (h.mono (List.nil_subset _)) hf

/-- A result may be worked on without a look at the world. -/
theorem map {γ : Type} {f : α → γ} {R : γ → Assertion}
    (h : Triple C l P act act' fun a => R (f a)) : Triple C l P (f <$> act) (f <$> act') R := by
  rw [map_eq_pure_bind, map_eq_pure_bind]
  exact bind h fun a => pure fun _ _ _ => id

/-- What the running operations work on is known. -/
theorem operands
    (h : Triple C l (fun C w => P C w ∧ Knows (things l.operands) C w) act act' Q) :
    Triple C l P act act' Q :=
  h.pre fun C _ hw hP => ⟨hP, fun _ ht => C.known_of_kept hw (C.kept_of_operand hw ht)⟩

/-- What an assertion says beside the worlds may be made use of. -/
theorem assume {p : Prop} (h : p → Triple C l P act act' Q) :
    Triple C l (fun C w => P C w ∧ p) act act' Q :=
  fun w => ⟨fun hw hP => (h hP.2 w).1 hw hP.1, fun hw hP => (h hP.2 w).2 hw hP.1⟩

/-- What is demanded is there, or nothing happens. -/
theorem demand {a : Option α} {f f' : α → Eval β}
    (h : ∀ b, a = some b → Triple C l P (f b) (f' b) R) :
    Triple C l P (demand a >>= f) (Eval.demand a >>= f') R := by
  cases a with
  | none => exact fails (by nofun) (fun _ => rfl) fun _ => rfl
  | some b => exact h b rfl

/-- What is seen is so at the time. -/
theorem see {f : World → α} {g g' : α → Eval β}
    (h : ∀ a, Triple C l (fun C w => P C w ∧ f w = a) (g a) (g' a) R) :
    Triple C l P (see f >>= g) (Eval.see f >>= g') R :=
  bind (of_each (fun _ => nofun) fun _ _ hw hP => ⟨hw, fun _ e => ⟨hP, Except.ok.inj e⟩⟩) h

/-- Answers hold nothing. -/
theorem answer (a : Answer) : Triple C l P (Pure.pure a) (Pure.pure a) fun a => Knows (things a) :=
  pure fun _ _ _ _ => nofun

theorem see_answer (f : World → Answer) :
    Triple C l P (Eval.see f) (Eval.see f) fun a => Knows (things a) :=
  of_each (fun _ => nofun) fun _ _ hw _ => ⟨hw, fun _ _ => nofun⟩

/-- What is told changes nothing that is kept. -/
theorem tell (e : Entry) : Triple C l (Keeps ts) (tell e) (Eval.tell e) fun _ => Keeps ts :=
  of_each (fun _ => nofun) fun C w hw hP =>
    ⟨(C.change hw (.journal w _)).1, fun _ _ t ht => C.kept_congr (w := w) rfl rfl (hP t ht)⟩

/-- A change among known things keeps the order. What was known besides is not asked about. -/
theorem change {f : World → World}
    (h : ∀ (C : Custody) w, C.order l w → P C w → ChangeAmong (C.known w) w (f w)) :
    Triple C l P (modify f : Eval PUnit) (modify f) fun _ => Knows [] :=
  of_each (fun _ => nofun) fun C w hw hP =>
    ⟨(C.change hw (h C w hw hP)).1, fun _ _ => by simp [Knows]⟩

/-- The world may settle at any time, and what is only known may be gone then. -/
theorem settle : Triple C l P (modify World.settle : Eval PUnit) (modify World.settle)
    fun _ => Knows [] :=
  of_each (fun _ => nofun) fun C _ hw _ => ⟨C.settle hw, fun _ _ => nofun⟩

/-- A new object is known, and so is what was known before. -/
theorem alloc {new : Object}
    (h : ∀ (C : Custody) w, C.order l w → Knows ts C w → Knows (things new) C w)
    (weak : new.kind.weakKeys = []) :
    Triple C l (Knows ts) (alloc new) (Eval.alloc new) fun o => Knows (things o ++ ts) := by
  refine of_each (fun _ => nofun) fun C w hw hP => ?_
  have held : Knows (things new) C w := h C w hw hP
  obtain ⟨order, known⟩ := C.change hw (.alloc held weak)
  refine ⟨order, fun o e t ht => ?_⟩
  rcases List.mem_append.1 ht with ht | ht
  · obtain rfl : ⟨w.heap.next⟩ = o := Except.ok.inj e
    obtain rfl := List.mem_singleton.1 ht
    exact C.known_alloc hw held
  · exact known t (hP t ht)

/-- Two evaluations with the same between two changes of the world. -/
theorem around {l' : Layer} {enter leave : World → World} (h : Triple C l' P' act act' Q)
    (henter : ∀ (C : Custody) w, C.order l w → P C w → C.order l' (enter w) ∧ P' C (enter w))
    (hleave : ∀ (C : Custody) w, C.order l' w → C.order l (leave w))
    (hQ : ∀ a (C : Custody) w, C.order l' w → Q a C w → Q' a C (leave w)) :
    Triple C l P (between enter leave act) (between enter leave act') Q' := by
  -- In either custody, the end inside leads to an end outside.
  have ends {C : Custody} {w : World} (e : Ends C l' Q (act.on (enter w))) :
      Ends C l Q' ((between enter leave act).on w) :=
    ⟨hleave C _ e.order, fun a ha => hQ a C _ e.order (e.result a ha)⟩
  refine fun w => ⟨fun hw hP => ?_, fun hw hP => ?_⟩
  · obtain ⟨hw', hP'⟩ := henter C.early w hw hP
    refine ((h _).1 hw' hP').imp (.imp (fun ⟨same, e⟩ => ⟨?_, ends e⟩) ends)
    rw [on_between, on_between, same]
  · obtain ⟨hw', hP'⟩ := henter C.late w hw hP
    exact ends ((h _).2 hw' hP')

/-- To look at how an evaluation has ended, and to pass on that it has run out of budget. -/
theorem outcome {f f' : Except Halt α → Eval β} (h : Triple C l P act act' Q)
    (passes : f (.error .exhausted) = throw .exhausted)
    (passes' : f' (.error .exhausted) = throw .exhausted)
    (hf : ∀ r, r ≠ .error .exhausted →
      Triple C l (fun C w => ∀ a, r = .ok a → Q a C w) (f r) (f' r) R) :
    Triple C l P (outcome act >>= f) (Eval.outcome act' >>= f') R := by
  intro w
  have on : (Eval.outcome act >>= f).on w = (f (act.on w).1).on (act.on w).2 := on_bind ..
  -- In the late custody, the first evaluation goes on by itself.
  have late : Ends C.late l Q (act.on w) → Ends C.late l R ((Eval.outcome act >>= f).on w) := by
    intro e
    rw [on]
    by_cases out : (act.on w).1 = .error .exhausted
    · rw [out, passes]
      exact ⟨e.order, nofun⟩
    · exact (hf _ out _).2 e.order e.result
  refine ⟨fun hw hP => ?_, fun hw hP => late ((h w).2 hw hP)⟩
  rcases (h w).1 hw hP with ⟨out, excused⟩ | ⟨counts, ⟨same, ends⟩ | ends⟩
  · refine .inl ⟨?_, excused⟩
    rw [on, out, passes]
    rfl
  · have on' : (Eval.outcome act' >>= f').on w = (f' (act.on w).1).on (act.on w).2 := by
      rw [on_bind, on_outcome, same]
    rw [on, on']
    by_cases out : (act.on w).1 = .error .exhausted
    · rw [out, passes, passes']
      exact C.asks_of_counts (counts out) (.inl ⟨rfl, ends.order, nofun⟩)
    · exact (hf _ out _).1 ends.order ends.result
  · exact C.asks_of_counts (C.counts_of_late ends.order) (.inr (late ends))

/-- Without a turn, both evaluations do the same to the end. -/
theorem of_only {C : Custody} (h : Triple (.only C) l P act act' Q) {w : World}
    (hw : C.order l w) (hP : P C w) : act'.on w = act.on w ∧ Ends C l Q (act.on w) :=
  ((h w).1 hw hP).of_turning.resolve_right fun never => never.order

end Triple

namespace Safe

variable [Bearer α] [Bearer β] {C : Custodies} {l : Layer} {P P' : Assertion} {act act' : Eval α}
  {ts : List Thing}

theorem pre (h : Safe C l P act act')
    (imp : ∀ (C : Custody) w, C.order l w → P' C w → P C w) : Safe C l P' act act' :=
  Triple.pre h imp

/-- What is kept is known. -/
theorem kept {ts' : List Thing} (h : Safe C l (Knows ts') act act') (sub : ts' ⊆ ts) :
    Safe C l (Keeps ts) act act' :=
  h.pre fun _ _ hw hP => hP.knows hw sub

/-- What is fetched is known. -/
theorem of_fetches (h : Fetches ts act) : Safe C l (Keeps ts) act act :=
  .of_each h.lasts fun C w hw hP => by
    refine ⟨(h.looks w).symm ▸ hw, fun a ha t ht => ?_⟩
    rw [h.looks w]
    exact C.known_of_kept hw ((h.result w a ha t ht).elim (hP t) (C.kept_of_name hw))

/-- What is held is kept while the evaluation runs. -/
theorem holdingAll {rs : List Reference}
    (h : Safe C { l with operands := rs ++ l.operands } (Keeps (things rs)) act act')
    (hP : ∀ (C : Custody) w, C.order l w → P C w → Knows (things rs) C w) :
    Safe C l P (holdingAll rs act) (Eval.holdingAll rs act') := by
  refine .around h (fun C w hw hPw => ?_) (fun C w hw => C.release hw) fun a C w _ hQ t ht => ?_
  · have hw' := C.hold hw (hP C w hw hPw)
    exact ⟨hw', fun t ht => C.kept_of_operand hw' (by simp [ht])⟩
  · exact C.known_congr (w := w) rfl rfl (hQ t ht)

@[inherit_doc holdingAll]
theorem holding {vs : List Value}
    (h : Safe C { l with operands := vs.map .value ++ l.operands } (Keeps (things vs)) act act')
    (hP : ∀ (C : Custody) w, C.order l w → P C w → Knows (things vs) C w) :
    Safe C l P (holding vs act) (Eval.holding vs act') := by
  refine holdingAll (h.pre fun C w _ hP => ?_) fun C w hw hPw => ?_
  · rwa [things_map_value] at hP
  · rw [things_map_value]
    exact hP C w hw hPw

/-- The registers of a body hold what is in them. -/
theorem framed {frame : Table String Value} (h : Safe C l (Keeps []) act act')
    (hP : ∀ (C : Custody) w, C.order l w → P C w → Knows (things frame.values) C w) :
    Safe C l P (framed frame act) (Eval.framed frame act') := by
  refine .around h (fun C w hw hPw => ⟨?_, fun _ => nofun⟩) (fun C w hw => ?_)
    fun a C w _ hQ t ht => C.known_congr (w := w) rfl rfl (hQ t ht)
  -- The frame brings in what is known, and its registers go with it when the body ends.
  · refine (C.change hw (C.amongHandles hw
      { w.handles with frames := frame :: w.handles.frames } rfl (fun t ht => ?_) (fun o => .inl)
      (.of_eq rfl))).1
    rw [mem_things_handles] at ht ⊢
    have := hP C w hw hPw t
    grind
  · refine (C.change hw (C.amongHandles hw
      { w.handles with frames := w.handles.frames.tail } rfl (fun t ht => .inl ?_) (fun o => .inl)
      (.of_eq rfl))).1
    rw [mem_things_handles] at ht ⊢
    exact ht.imp_right (.imp_left fun ⟨frame, mem, ht⟩ => ⟨frame, List.mem_of_mem_tail mem, ht⟩)

end Safe

end Eval

end Lvalue
