/-!
# Finite tables

A table is a finite map kept as a list of entries, each key at most once, in
the order in which the keys came in. Overwriting a key keeps its place, and a
key that is erased and put back goes to the end.

A table is seen through `get?` alone: `get?_insert`, `get?_erase` and
`get?_filter` say what each operation does to that view. The order is seen
only by what visits the entries one after the other.
-/

namespace Lvalue

/-- A finite map from `κ` to `ν` that remembers the order of its keys. -/
structure Table (κ ν : Type) where
  /-- The entries, oldest first. -/
  entries : List (κ × ν) := []
  /-- Every key has one entry. -/
  nodup : (entries.map Prod.fst).Nodup := by simp

namespace Table

variable {κ ν : Type}

/-- A table is nothing but its entries. -/
@[ext]
theorem ext {s t : Table κ ν} (h : s.entries = t.entries) : s = t := by
  cases s; cases t; simp_all

/-- The table without entries. -/
def empty : Table κ ν := {}

instance : EmptyCollection (Table κ ν) := ⟨empty⟩
instance : Inhabited (Table κ ν) := ⟨empty⟩

/-- The keys, oldest first. -/
def keys (t : Table κ ν) : List κ := t.entries.map Prod.fst

/-- The values, in the order of their keys. -/
def values (t : Table κ ν) : List ν := t.entries.map Prod.snd

@[simp]
theorem values_empty : (∅ : Table κ ν).values = [] := rfl

/-- No key has two entries. -/
theorem nodup_keys (t : Table κ ν) : t.keys.Nodup := t.nodup

/-- The number of entries. -/
def size (t : Table κ ν) : Nat := t.entries.length

theorem length_keys (t : Table κ ν) : t.keys.length = t.size := List.length_map _

/-- The entries that satisfy `p`. -/
def filter (p : κ → ν → Bool) (t : Table κ ν) : Table κ ν where
  entries := t.entries.filter fun e => p e.1 e.2
  nodup := t.nodup.sublist (List.filter_sublist.map _)

variable [DecidableEq κ]

/-! ## Entry lists -/

/-- The value of the first entry with the key `k`. -/
def find (k : κ) : List (κ × ν) → Option ν
  | [] => none
  | (k', v) :: es => if k' = k then some v else find k es

/-- The list with `v` at `k`: in the place of the old entry if there is one,
    and else at the end. -/
def put (k : κ) (v : ν) : List (κ × ν) → List (κ × ν)
  | [] => [(k, v)]
  | (k', v') :: es => if k' = k then (k, v) :: es else (k', v') :: put k v es

theorem mem_keys_put {k k' : κ} {v : ν} {es : List (κ × ν)} :
    k' ∈ (put k v es).map Prod.fst ↔ k' = k ∨ k' ∈ es.map Prod.fst := by
  induction es with
  | nil => simp [put]
  | cons e es ih =>
    obtain ⟨k₀, v₀⟩ := e
    by_cases h : k₀ = k
    · subst h; simp [put]
    · simp only [put, if_neg h, List.map_cons, List.mem_cons, ih]
      grind

theorem nodup_put {k : κ} {v : ν} {es : List (κ × ν)} (h : (es.map Prod.fst).Nodup) :
    ((put k v es).map Prod.fst).Nodup := by
  induction es with
  | nil => simp [put]
  | cons e es ih =>
    obtain ⟨k₀, v₀⟩ := e
    rw [List.map_cons, List.nodup_cons] at h
    by_cases hk : k₀ = k
    · subst hk; simp [put, h]
    · rw [put, if_neg hk, List.map_cons, List.nodup_cons]
      exact ⟨fun hm => (mem_keys_put.1 hm).elim hk h.1, ih h.2⟩

/-- An entry is found under its own key and hides none under another. -/
theorem find_put {k k' : κ} {v : ν} {es : List (κ × ν)} :
    find k' (put k v es) = if k = k' then some v else find k' es := by
  induction es with
  | nil => simp [put, find]
  | cons e es ih => grind [put, find]

/-- To put in what is there already changes nothing. -/
theorem put_of_find {k : κ} {v : ν} {es : List (κ × ν)} (h : find k es = some v) :
    put k v es = es := by
  induction es with
  | nil => contradiction
  | cons e es ih => grind [find, put]

/-- The last entry counts. -/
theorem put_put {k : κ} {v v' : ν} {es : List (κ × ν)} : put k v' (put k v es) = put k v' es := by
  induction es with
  | nil => simp [put]
  | cons e es ih => grind [put]

theorem length_put_of_find {k : κ} {v : ν} {es : List (κ × ν)} (h : find k es = none) :
    (put k v es).length = es.length + 1 := by
  induction es with
  | nil => rfl
  | cons e es ih => grind [find, put]

theorem find_eq_none_iff {k : κ} {es : List (κ × ν)} :
    find k es = none ↔ k ∉ es.map Prod.fst := by
  induction es with
  | nil => simp [find]
  | cons e es ih => grind [find]

/-- As a key has one entry, it is found among those that are left if it is left itself. -/
theorem find_filter {p : κ → ν → Bool} {k : κ} {es : List (κ × ν)}
    (h : (es.map Prod.fst).Nodup) :
    find k (es.filter fun e => p e.1 e.2) = (find k es).filter (p k) := by
  induction es with
  | nil => simp [find]
  | cons e es ih =>
    obtain ⟨k₀, v₀⟩ := e
    rw [List.map_cons, List.nodup_cons] at h
    have ih := ih h.2
    by_cases hk : k₀ = k
    · subst hk
      have : find k₀ es = none := find_eq_none_iff.2 h.1
      cases hp : p k₀ v₀ <;> simp_all [find, Option.filter]
    · cases hp : p k₀ v₀ <;> simp_all [find]

/-- What is found is what is there. -/
theorem find_eq_some_iff {k : κ} {v : ν} {es : List (κ × ν)} (h : (es.map Prod.fst).Nodup) :
    find k es = some v ↔ (k, v) ∈ es := by
  induction es with
  | nil => simp [find]
  | cons e es ih =>
    obtain ⟨k₀, v₀⟩ := e
    rw [List.map_cons, List.nodup_cons] at h
    rw [find, List.mem_cons]
    split
    · next hk =>
      -- The rest has no entry for the key of the first.
      have absent : (k, v) ∉ es := fun mem => h.1 (List.mem_map.2 ⟨_, mem, hk.symm⟩)
      simp [absent, hk, eq_comm]
    · next hk =>
      rw [ih h.2]
      simp [Ne.symm hk]

/-! ## Tables -/

/-- The value at `k`. -/
def get? (t : Table κ ν) (k : κ) : Option ν := find k t.entries

/-- There is an entry for `k`. -/
def contains (t : Table κ ν) (k : κ) : Bool := (t.get? k).isSome

/-- The table with `v` at `k`. -/
def insert (t : Table κ ν) (k : κ) (v : ν) : Table κ ν where
  entries := put k v t.entries
  nodup := nodup_put t.nodup

/-- The table without an entry for `k`. -/
def erase (t : Table κ ν) (k : κ) : Table κ ν := t.filter fun k' _ => decide (k' ≠ k)

/-- The table with the value at `k`, if there is one, replaced by its image. -/
def modify (t : Table κ ν) (k : κ) (f : ν → ν) : Table κ ν :=
  match t.get? k with
  | some v => t.insert k (f v)
  | none => t

@[simp, grind =]
theorem get?_empty (k : κ) : (∅ : Table κ ν).get? k = none := rfl

/-- What was put in last is looked up. -/
@[simp, grind =]
theorem get?_insert (t : Table κ ν) (k k' : κ) (v : ν) :
    (t.insert k v).get? k' = if k = k' then some v else t.get? k' := find_put

/-- What is left over is looked up as before. -/
theorem get?_filter (t : Table κ ν) (p : κ → ν → Bool) (k : κ) :
    (t.filter p).get? k = (t.get? k).filter (p k) := find_filter t.nodup

@[simp, grind =]
theorem get?_erase (t : Table κ ν) (k k' : κ) :
    (t.erase k).get? k' = if k = k' then none else t.get? k' := by
  rw [erase, get?_filter]
  by_cases h : k = k'
  · subst h; cases t.get? k <;> simp
  · cases t.get? k' <;> simp_all [eq_comm, Option.filter]

@[simp, grind =]
theorem get?_modify (t : Table κ ν) (k k' : κ) (f : ν → ν) :
    (t.modify k f).get? k' = if k = k' then (t.get? k').map f else t.get? k' := by
  rw [modify]
  split <;> grind

/-- To replace a value by itself changes nothing. -/
theorem modify_of_fixed {t : Table κ ν} {k : κ} {f : ν → ν}
    (h : ∀ v, t.get? k = some v → f v = v) : t.modify k f = t := by
  rw [modify]
  split
  · next v hv =>
    rw [h v hv]
    exact Table.ext (put_of_find hv)
  · rfl

@[inherit_doc put_put]
theorem insert_insert (t : Table κ ν) (k : κ) (v v' : ν) :
    (t.insert k v).insert k v' = t.insert k v' :=
  ext put_put

/-- Two changes of one entry are one. -/
theorem modify_modify (t : Table κ ν) (k : κ) (f g : ν → ν) :
    (t.modify k f).modify k g = t.modify k fun v => g (f v) := by
  cases hk : t.get? k with
  | none => simp only [modify, hk]
  | some v =>
    have there : (t.insert k (f v)).get? k = some (f v) := by rw [get?_insert, if_pos rfl]
    simp only [modify, hk, there, insert_insert]

theorem get?_eq_none_iff {t : Table κ ν} {k : κ} : t.get? k = none ↔ k ∉ t.keys :=
  find_eq_none_iff

theorem get?_eq_some_iff {t : Table κ ν} {k : κ} {v : ν} :
    t.get? k = some v ↔ (k, v) ∈ t.entries :=
  find_eq_some_iff t.nodup

/-- The values are those that are found. -/
theorem mem_values {t : Table κ ν} {v : ν} : v ∈ t.values ↔ ∃ k, t.get? k = some v := by
  simp [values, get?_eq_some_iff]

/-- A new key makes the table one greater. -/
theorem size_insert_of_absent {t : Table κ ν} {k : κ} {v : ν} (h : t.get? k = none) :
    (t.insert k v).size = t.size + 1 :=
  length_put_of_find h

/-- A key is there if it has an entry. -/
theorem contains_iff_mem_keys {t : Table κ ν} {k : κ} : t.contains k ↔ k ∈ t.keys := by
  rw [contains, Option.isSome_iff_ne_none, ne_eq, get?_eq_none_iff, Decidable.not_not]

theorem mem_keys_insert {t : Table κ ν} {k k' : κ} {v : ν} :
    k' ∈ (t.insert k v).keys ↔ k' = k ∨ k' ∈ t.keys :=
  mem_keys_put

theorem mem_keys_modify {t : Table κ ν} {k k' : κ} {f : ν → ν} :
    k' ∈ (t.modify k f).keys ↔ k' ∈ t.keys := by
  rw [← contains_iff_mem_keys, ← contains_iff_mem_keys, contains, contains, get?_modify]
  split <;> simp

omit [DecidableEq κ] in
theorem mem_keys_of_filter {t : Table κ ν} {p : κ → ν → Bool} {k : κ}
    (h : k ∈ (t.filter p).keys) : k ∈ t.keys :=
  (List.filter_sublist.map _).subset h

/-- A new entry brings one value. -/
theorem mem_values_of_insert {t : Table κ ν} {k : κ} {v v' : ν} (h : v' ∈ (t.insert k v).values) :
    v' = v ∨ v' ∈ t.values := by
  obtain ⟨k', h⟩ := mem_values.1 h
  rw [get?_insert] at h
  split at h
  · exact .inl (Option.some.inj h).symm
  · exact .inr (mem_values.2 ⟨k', h⟩)

omit [DecidableEq κ] in
theorem mem_values_of_filter {t : Table κ ν} {p : κ → ν → Bool} {v : ν}
    (h : v ∈ (t.filter p).values) : v ∈ t.values :=
  (List.filter_sublist.map _).subset h

/-- To take away what is not there changes nothing. -/
theorem erase_of_absent {t : Table κ ν} {k : κ} (h : t.get? k = none) : t.erase k = t := by
  refine ext (List.filter_eq_self.2 fun e mem => decide_eq_true fun same => ?_)
  exact get?_eq_none_iff.1 h (List.mem_map.2 ⟨e, mem, same⟩)

/-- An erased key that was put in last leaves no trace. -/
theorem erase_insert {t : Table κ ν} {k : κ} (v : ν) (h : t.get? k = none) :
    (t.insert k v).erase k = t := by
  obtain ⟨es, hn⟩ := t
  replace h : find k es = none := h
  apply ext
  change (put k v es).filter (fun e => decide (e.1 ≠ k)) = es
  clear hn
  induction es with
  | nil => simp [put]
  | cons e es ih =>
    obtain ⟨k₀, v₀⟩ := e
    by_cases hk : k₀ = k
    · simp [find, hk] at h
    · simp only [find, if_neg hk] at h
      rw [put, if_neg hk, List.filter_cons_of_pos (by simpa using hk), ih h]

end Table

end Lvalue
