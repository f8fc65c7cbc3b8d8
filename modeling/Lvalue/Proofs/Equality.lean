import Mathlib.Algebra.Order.Field.Power
import Mathlib.Data.Rat.Cast.Order
import Mathlib.Tactic.Linarith
import Mathlib.Tactic.Ring
import Lvalue.Value

/-!
# Equality of values and of keys

Maps take two keys for the same if they have the same canonical form
(`Value.canonical`), which is a matter of words. Here it is compared to what the
keys stand for. A number stands for a rational number, for one of the two
infinities, or for nothing (`Number.quantity?`), and two words have the same
canonical form exactly if they stand for the same (`Number.canonical_eq_iff`).

The step from the rational numbers back to the words goes through a count: every
finite number is a whole multiple of the least one, and the multiplicity grows
with the magnitude (`Number.units_injective`).

The other two equalities are then the two ways to be stricter: `Value.equals`
leaves out what stands for nothing, and `Value.same` tells the zeros apart.
-/

namespace Lvalue

namespace Number

/-- The absolute value of a finite number. -/
def abs (x : Number) : ℚ := x.parts.1 * 2 ^ x.parts.2

/-! ## Multiples of the least number -/

/-- The least positive number. -/
def least : ℚ := 2 ^ (-1074 : ℤ)

/-- How many times the least number a finite number is, given its exponent and its fraction. -/
def units (exponent fraction : Nat) : Nat :=
  if exponent = 0 then fraction else (exponentBit + fraction) * 2 ^ (exponent - 1)

variable {e e' f f' : Nat}

theorem abs_eq (x : Number) :
    x.abs = units (x.magnitude / exponentBit) (x.magnitude % exponentBit) * least := by
  rw [abs, parts, units, least]
  generalize x.magnitude / exponentBit = e, x.magnitude % exponentBit = f
  by_cases h : e = 0
  · simp only [if_pos h]
  · have exponent : (e : ℤ) - 1075 = ((e - 1 : ℕ) : ℤ) + -1074 := by omega
    simp only [if_neg h, exponent]
    rw [zpow_add₀ two_ne_zero, zpow_natCast, ← mul_assoc, Nat.cast_mul, Nat.cast_pow,
      Nat.cast_ofNat]

/-- The fraction leaves no room for the next exponent. -/
theorem units_lt (hf : f < exponentBit) : units e f < exponentBit * 2 ^ e := by
  rw [units]
  cases e with
  | zero => simpa using hf
  | succ e =>
    rw [if_neg (Nat.succ_ne_zero e), Nat.add_sub_cancel, Nat.pow_succ', ← Nat.mul_assoc]
    exact Nat.mul_lt_mul_of_pos_right (by omega) (Nat.two_pow_pos e)

/-- A greater exponent outweighs any fraction. -/
theorem le_units (he : e < e') : exponentBit * 2 ^ e ≤ units e' f' := by
  rw [units, if_neg (Nat.ne_zero_of_lt he)]
  exact Nat.mul_le_mul (Nat.le_add_right _ _) (Nat.pow_le_pow_right Nat.two_pos (by omega))

/-- So a number of units is one of one exponent and one fraction only. -/
theorem units_injective (hf : f < exponentBit) (hf' : f' < exponentBit)
    (h : units e f = units e' f') : e = e' ∧ f = f' := by
  rcases Nat.lt_trichotomy e e' with lt | rfl | gt
  · exact absurd h (Nat.ne_of_lt (Nat.lt_of_lt_of_le (units_lt hf) (le_units lt)))
  · refine ⟨rfl, ?_⟩
    rw [units, units] at h
    split at h
    · exact h
    · exact Nat.add_left_cancel (Nat.eq_of_mul_eq_mul_right (Nat.two_pow_pos _) h)
  · exact absurd h (Nat.ne_of_gt (Nat.lt_of_lt_of_le (units_lt hf') (le_units gt)))

/-! ## From quantities back to words -/

variable {x y : Number}

theorem abs_nonneg (x : Number) : 0 ≤ x.abs :=
  mul_nonneg (Nat.cast_nonneg _) (zpow_nonneg zero_le_two _)

/-- The absolute value tells the magnitude. -/
theorem magnitude_eq_of_abs_eq (h : x.abs = y.abs) : x.magnitude = y.magnitude := by
  have positive : least ≠ 0 := zpow_ne_zero _ two_ne_zero
  have bound : 0 < exponentBit := by decide
  rw [abs_eq, abs_eq] at h
  obtain ⟨exponent, fraction⟩ := units_injective (Nat.mod_lt _ bound) (Nat.mod_lt _ bound)
    (Nat.cast_injective (mul_right_cancel₀ positive h))
  rw [← Nat.div_add_mod x.magnitude exponentBit, exponent, fraction, Nat.div_add_mod]

/-- Of two words only, those of the zeros, the size is nothing. -/
theorem abs_eq_zero_iff : x.abs = 0 ↔ x.isZero := by
  rw [isZero, decide_eq_true_iff]
  have zero : Number.zero.abs = 0 := by
    rw [abs]
    exact zero_mul _
  constructor
  · intro h
    exact magnitude_eq_of_abs_eq (h.trans zero.symm)
  · intro h
    rw [abs, parts, h]
    exact zero_mul _

/-- A word is its magnitude and its sign. -/
theorem eq_of_magnitude_eq (h : x.magnitude = y.magnitude) (sign : x.isNegative = y.isNegative) :
    x = y := by
  have hx := x.bits.toNat_lt
  have hy := y.bits.toNat_lt
  have side := decide_eq_decide.1 sign
  rw [magnitude, magnitude, signBit] at h
  rw [signBit] at side
  have bits : x.bits = y.bits := UInt64.toNat_inj.1 (by omega)
  cases x
  exact congrArg Number.mk bits

/-- The value of a finite number. -/
def signed (x : Number) : ℚ := if x.isNegative then -x.abs else x.abs

/-- Two finite numbers with the same value are the same word, or both zero. -/
theorem eq_or_zero_of_signed_eq (h : x.signed = y.signed) : x = y ∨ (x.isZero ∧ y.isZero) := by
  rw [signed, signed] at h
  by_cases sign : x.isNegative = y.isNegative
  · refine .inl (eq_of_magnitude_eq (magnitude_eq_of_abs_eq ?_) sign)
    rw [sign] at h
    split at h
    · exact neg_injective h
    · exact h
  · -- One of them is at most zero then, and the other at least zero.
    have opposite : x.abs = -y.abs := by
      cases hy : y.isNegative with
      | true => rwa [Bool.eq_not.2 sign, hy] at h
      | false =>
        rw [Bool.eq_not.2 sign, hy] at h
        exact neg_eq_iff_eq_neg.1 h
    have hx := x.abs_nonneg
    have hy := y.abs_nonneg
    exact .inr ⟨abs_eq_zero_iff.1 (by linarith), abs_eq_zero_iff.1 (by linarith)⟩

/-! ## What numbers stand for -/

/-- What a number can stand for. -/
inductive Quantity where
  | finite (q : ℚ)
  | infinite (negative : Bool)

/-- What the number stands for; nothing, if it is not a number. -/
def quantity? (x : Number) : Option Quantity :=
  if x.isNaN then none
  else if x.magnitude = infinite then some (.infinite x.isNegative)
  else some (.finite x.signed)

/-- What is not a number is the only one without a quantity. -/
theorem quantity?_eq_none_iff : x.quantity? = none ↔ x.isNaN := by
  rw [quantity?]
  split
  · next h => exact ⟨fun _ => h, fun _ => rfl⟩
  · next h => split <;> exact ⟨nofun, fun h' => absurd h' h⟩

theorem not_isNaN_of_isZero (h : x.isZero) : ¬x.isNaN := by
  rw [isNaN, show x.magnitude = 0 from of_decide_eq_true h]
  decide

/-- Both zeros have the quantity zero. -/
theorem quantity?_of_isZero (h : x.isZero) : x.quantity? = some (.finite 0) := by
  have finite : x.magnitude ≠ infinite := by
    rw [show x.magnitude = 0 from of_decide_eq_true h]
    decide
  rw [quantity?, if_neg (not_isNaN_of_isZero h), if_neg finite, signed, abs_eq_zero_iff.2 h,
    neg_zero, ite_self]

/-- Both zeros have one form as keys. -/
theorem canonical_of_isZero (h : x.isZero) : x.canonical = zero := by
  rw [canonical, if_neg (not_isNaN_of_isZero h), if_pos h]

/-- Two words for the same quantity are the same word, or both are zeros. -/
theorem eq_or_zero_of_quantity?_eq {q : Quantity} (hx : x.quantity? = some q)
    (hy : y.quantity? = some q) : x = y ∨ (x.isZero ∧ y.isZero) := by
  rw [quantity?] at hx hy
  split at hx
  · contradiction
  split at hy
  · contradiction
  have same := hx.trans hy.symm
  split at same <;> split at same
  · next hm hm' =>
    have sign := Quantity.infinite.inj (Option.some.inj same)
    exact .inl (eq_of_magnitude_eq (hm.trans hm'.symm) sign)
  · cases same
  · cases same
  · exact eq_or_zero_of_signed_eq (Quantity.finite.inj (Option.some.inj same))

/-- The form of a key has the same quantity. -/
theorem quantity?_canonical (x : Number) : x.canonical.quantity? = x.quantity? := by
  rw [canonical]
  split
  · next notNumber => rw [quantity?_eq_none_iff.2 notNumber, quantity?_eq_none_iff.2 (by decide)]
  · split
    · next zero => rw [quantity?_of_isZero zero, quantity?_of_isZero (by decide)]
    · rfl

/-- Two numbers have the same canonical form if both are none, or if they stand for the same. -/
theorem canonical_eq_iff :
    x.canonical = y.canonical ↔
      (x.isNaN ∧ y.isNaN) ∨ ∃ q, x.quantity? = some q ∧ y.quantity? = some q := by
  constructor
  · intro h
    have same : x.quantity? = y.quantity? := by rw [← x.quantity?_canonical, h, quantity?_canonical]
    cases hx : x.quantity? with
    | none => exact .inl ⟨quantity?_eq_none_iff.1 hx, quantity?_eq_none_iff.1 (same ▸ hx)⟩
    | some q => exact .inr ⟨q, rfl, same ▸ hx⟩
  · rintro (⟨hx, hy⟩ | ⟨q, hx, hy⟩)
    · rw [canonical, canonical, if_pos hx, if_pos hy]
    · rcases eq_or_zero_of_quantity?_eq hx hy with rfl | ⟨zero, zero'⟩
      · rfl
      · rw [canonical_of_isZero zero, canonical_of_isZero zero']

/-- What has the form of a key keeps it. -/
theorem canonical_canonical (x : Number) : x.canonical.canonical = x.canonical := by
  by_cases notNumber : x.isNaN
  · rw [show x.canonical = nan from if_pos notNumber]
    decide
  · by_cases zero : x.isZero
    · rw [canonical_of_isZero zero]
      decide
    · have same : x.canonical = x := by rw [canonical, if_neg notNumber, if_neg zero]
      rw [same, same]

/-! ## Equality and identity of numbers -/

/-- Two numbers are equal if they stand for the same. -/
theorem equals_iff : x.equals y ↔ ∃ q, x.quantity? = some q ∧ y.quantity? = some q := by
  simp only [equals, Bool.and_eq_true, Bool.or_eq_true, Bool.not_eq_true', decide_eq_true_iff,
    ← Bool.not_eq_true]
  constructor
  · rintro ⟨⟨number, -⟩, rfl | ⟨zero, zero'⟩⟩
    · obtain ⟨q, hq⟩ := Option.ne_none_iff_exists'.1 (mt quantity?_eq_none_iff.1 number)
      exact ⟨q, hq, hq⟩
    · exact ⟨_, quantity?_of_isZero zero, quantity?_of_isZero zero'⟩
  · rintro ⟨q, hx, hy⟩
    have number : ¬x.isNaN := fun h => by simp [quantity?_eq_none_iff.2 h] at hx
    have number' : ¬y.isNaN := fun h => by simp [quantity?_eq_none_iff.2 h] at hy
    exact ⟨⟨number, number'⟩, eq_or_zero_of_quantity?_eq hx hy⟩

theorem equals_symm (h : x.equals y) : y.equals x := by
  obtain ⟨q, hx, hy⟩ := equals_iff.1 h
  exact equals_iff.2 ⟨q, hy, hx⟩

/-- Equality of numbers is one of quantities, and so it is transitive. -/
theorem equals_trans {z : Number} (h : x.equals y) (h' : y.equals z) : x.equals z := by
  obtain ⟨q, hx, hy⟩ := equals_iff.1 h
  obtain ⟨q', hy', hz⟩ := equals_iff.1 h'
  exact equals_iff.2 ⟨q, hx, hz.trans (hy'.symm.trans hy)⟩

/-- Apart from what is not a number, only a word itself is the same as it. -/
theorem same_iff : x.same y ↔ x = y ∨ (x.isNaN ∧ y.isNaN) := by
  simp only [same, Bool.and_eq_true, Bool.or_eq_true, beq_iff_eq]
  constructor
  · rintro (notNumbers | ⟨equal, sign⟩)
    · exact .inr notNumbers
    · obtain ⟨q, hx, hy⟩ := equals_iff.1 equal
      rcases eq_or_zero_of_quantity?_eq hx hy with rfl | ⟨zero, zero'⟩
      · exact .inl rfl
      · have magnitudes : x.magnitude = y.magnitude :=
          (of_decide_eq_true zero).trans (of_decide_eq_true zero').symm
        exact .inl (eq_of_magnitude_eq magnitudes sign)
  · rintro (rfl | notNumbers)
    · cases hx : x.quantity? with
      | none =>
        have notNumber := quantity?_eq_none_iff.1 hx
        exact .inl ⟨notNumber, notNumber⟩
      | some q => exact .inr ⟨equals_iff.2 ⟨q, hx, hx⟩, rfl⟩
    · exact .inl notNumbers

/-- The same words that are not equal are those that are no numbers. -/
theorem same_and_not_equals_iff : (x.same y ∧ ¬x.equals y) ↔ x.isNaN ∧ y.isNaN := by
  constructor
  · rintro ⟨same, unequal⟩
    rcases same_iff.1 same with rfl | notNumbers
    · have notNumber : x.quantity? = none := Option.eq_none_iff_forall_ne_some.2 fun q hx =>
        unequal (equals_iff.2 ⟨q, hx, hx⟩)
      exact ⟨quantity?_eq_none_iff.1 notNumber, quantity?_eq_none_iff.1 notNumber⟩
    · exact notNumbers
  · intro notNumbers
    refine ⟨same_iff.2 (.inr notNumbers), fun equal => ?_⟩
    obtain ⟨q, hx, -⟩ := equals_iff.1 equal
    rw [quantity?_eq_none_iff.2 notNumbers.1] at hx
    contradiction

/-- The equal words that are not the same are the two zeros. -/
theorem equals_and_not_same_iff :
    (x.equals y ∧ ¬x.same y) ↔ x.isZero ∧ y.isZero ∧ x.isNegative ≠ y.isNegative := by
  constructor
  · rintro ⟨equal, other⟩
    obtain ⟨q, hx, hy⟩ := equals_iff.1 equal
    rcases eq_or_zero_of_quantity?_eq hx hy with rfl | ⟨zero, zero'⟩
    · exact absurd (same_iff.2 (.inl rfl)) other
    · refine ⟨zero, zero', fun sign => other ?_⟩
      rw [same, equal, sign]
      simp
  · rintro ⟨zero, zero', sign⟩
    refine ⟨equals_iff.2 ⟨_, quantity?_of_isZero zero, quantity?_of_isZero zero'⟩, fun same => ?_⟩
    rcases same_iff.1 same with rfl | ⟨notNumber, -⟩
    · exact sign rfl
    · exact not_isNaN_of_isZero zero notNumber

/-- Two numbers have the same canonical form if either of the other two equalities holds. -/
theorem canonical_eq_iff_same_or_equals :
    x.canonical = y.canonical ↔ x.same y ∨ x.equals y := by
  rw [canonical_eq_iff, ← equals_iff, same_iff]
  constructor
  · rintro (notNumbers | equal)
    · exact .inl (.inr notNumbers)
    · exact .inr equal
  · rintro ((rfl | notNumbers) | equal)
    · exact canonical_eq_iff.1 rfl |>.imp_right equals_iff.2
    · exact .inl notNumbers
    · exact .inr equal

end Number

/-! ## Keys of maps -/

namespace Value

/-- The values are keys of the same map entry. Numbers are if they stand for the same, or both are
    no number; other values are if they are one and the same. -/
inductive SameValueZero : Value → Value → Prop
  | undefined : SameValueZero .undefined .undefined
  | null : SameValueZero .null .null
  | bool (b : Bool) : SameValueZero (.bool b) (.bool b)
  | notNumber {x y : Number} (hx : x.isNaN) (hy : y.isNaN) : SameValueZero (.number x) (.number y)
  | number {x y : Number} {q : Number.Quantity} (hx : x.quantity? = some q)
    (hy : y.quantity? = some q) : SameValueZero (.number x) (.number y)
  | text (a : Atom) : SameValueZero (.text a) (.text a)
  | symbol (s : Symbol) : SameValueZero (.symbol s) (.symbol s)
  | object (o : ObjectId) : SameValueZero (.object o) (.object o)

variable {a b : Value}

/-- It is reflexive, even for what is not a number. -/
theorem SameValueZero.refl (a : Value) : SameValueZero a a := by
  cases a with
  | number x =>
    cases hx : x.quantity? with
    | none =>
      have notNumber := Number.quantity?_eq_none_iff.1 hx
      exact .notNumber notNumber notNumber
    | some q => exact .number hx hx
  | _ => constructor

theorem SameValueZero.of_eq (h : a = b) : SameValueZero a b := h ▸ .refl a

/-- Two values have the same canonical form exactly if they are keys of the same entry. -/
theorem canonical_eq_iff : a.canonical = b.canonical ↔ SameValueZero a b := by
  constructor
  · intro h
    cases a with
    | number x =>
      cases b with
      | number y =>
        rcases Number.canonical_eq_iff.1 (Value.number.inj h) with ⟨hx, hy⟩ | ⟨q, hx, hy⟩
        · exact .notNumber hx hy
        · exact .number hx hy
      | _ => cases h
    | _ =>
      -- Other values are their own canonical forms.
      cases b with
      | number y => cases h
      | _ => exact .of_eq h
  · rintro (_ | _ | _ | ⟨hx, hy⟩ | ⟨hx, hy⟩ | _ | _ | _)
    case notNumber => exact congrArg number (Number.canonical_eq_iff.2 (.inl ⟨hx, hy⟩))
    case number => exact congrArg number (Number.canonical_eq_iff.2 (.inr ⟨_, hx, hy⟩))
    all_goals rfl

instance : DecidableRel SameValueZero := fun _ _ => decidable_of_iff _ canonical_eq_iff

@[inherit_doc Number.canonical_canonical]
theorem canonical_canonical (a : Value) : a.canonical.canonical = a.canonical := by
  cases a with
  | number x => exact congrArg number x.canonical_canonical
  | _ => rfl

/-- The values, with keys of the same entry made equal. -/
def sameValueZero : Setoid Value where
  r := SameValueZero
  iseqv :=
    { refl := .refl
      symm := fun h => canonical_eq_iff.1 (canonical_eq_iff.2 h).symm
      trans := fun h h' =>
        canonical_eq_iff.1 ((canonical_eq_iff.2 h).trans (canonical_eq_iff.2 h')) }

/-! ## Three equalities -/

/-- Two values are both numbers, or all three equalities are the identity on them. -/
theorem numbers_or_plain (a b : Value) :
    (∃ x y, a = .number x ∧ b = .number y) ∨
      ((∀ x y, ¬(a = .number x ∧ b = .number y)) ∧ a.equals b = decide (a = b) ∧
        a.same b = decide (a = b) ∧ (a.canonical = b.canonical ↔ a = b)) := by
  cases a with
  | number x =>
    cases b with
    | number y => exact .inl ⟨x, y, rfl, rfl⟩
    | _ => exact .inr ⟨by simp, rfl, rfl, by simp [canonical]⟩
  | _ =>
    refine .inr ⟨by simp, rfl, rfl, ?_⟩
    cases b <;> simp [canonical]

/-- Numbers are equal by quantity, and all else is equal if it is the same. -/
theorem equals_iff :
    a.equals b ↔
      (∃ x y, a = .number x ∧ b = .number y ∧ x.equals y) ∨ (a = b ∧ ∀ x, a ≠ .number x) := by
  rcases numbers_or_plain a b with ⟨x, y, rfl, rfl⟩ | ⟨other, equal, -, -⟩
  · simp [equals]
  · rw [equal, decide_eq_true_iff]
    constructor
    · rintro rfl
      exact .inr ⟨rfl, fun x hx => other x x ⟨hx, hx⟩⟩
    · rintro (⟨x, y, hx, hy, -⟩ | ⟨h, -⟩)
      · exact absurd ⟨hx, hy⟩ (other x y)
      · exact h

/-- What is the same is one value, but that all words for what is not a number are taken for one. -/
theorem same_iff :
    a.same b ↔ a = b ∨ ∃ x y, a = .number x ∧ b = .number y ∧ x.isNaN ∧ y.isNaN := by
  rcases numbers_or_plain a b with ⟨x, y, rfl, rfl⟩ | ⟨other, -, same, -⟩
  · simp [Value.same, Number.same_iff]
  · rw [same, decide_eq_true_iff]
    constructor
    · exact .inl
    · rintro (h | ⟨x, y, hx, hy, -⟩)
      · exact h
      · exact absurd ⟨hx, hy⟩ (other x y)

theorem equals_symm (h : a.equals b) : b.equals a := by
  rcases equals_iff.1 h with ⟨x, y, rfl, rfl, equal⟩ | ⟨rfl, -⟩
  · exact equals_iff.2 (.inl ⟨y, x, rfl, rfl, Number.equals_symm equal⟩)
  · exact h

theorem equals_trans {c : Value} (h : a.equals b) (h' : b.equals c) : a.equals c := by
  rcases equals_iff.1 h with ⟨x, y, rfl, rfl, equal⟩ | ⟨rfl, -⟩
  · rcases equals_iff.1 h' with ⟨_, z, ⟨⟩, rfl, equal'⟩ | ⟨rfl, -⟩
    · exact equals_iff.2 (.inl ⟨x, z, rfl, rfl, Number.equals_trans equal equal'⟩)
    · exact h
  · exact h'

theorem same_equivalence : Equivalence fun a b : Value => a.same b = true where
  refl a := same_iff.2 (.inl rfl)
  symm h := by
    rcases same_iff.1 h with rfl | ⟨x, y, hx, hy, notNumber, notNumber'⟩
    · exact h
    · exact same_iff.2 (.inr ⟨y, x, hy, hx, notNumber', notNumber⟩)
  trans h h' := by
    rcases same_iff.1 h with rfl | ⟨x, y, rfl, rfl, notNumber, notNumber'⟩
    · exact h'
    · rcases same_iff.1 h' with rfl | ⟨_, z, -, rfl, -, notNumber''⟩
      · exact h
      · exact same_iff.2 (.inr ⟨x, z, rfl, rfl, notNumber, notNumber''⟩)

/-- Identity is an equivalence, and equality is symmetric and transitive. They part at two words
    that are no number, which are the same but not equal, and at the two zeros, which are equal but
    not the same. Two values name the same map entry if they are the same or equal. -/
theorem equalities_agree :
    (Equivalence fun a b : Value => a.same b = true) ∧
      (∀ a b : Value, a.equals b → b.equals a) ∧
      (∀ a b c : Value, a.equals b → b.equals c → a.equals c) ∧
      ∀ a b : Value,
        ((a.same b ∧ ¬a.equals b) ↔
            ∃ x y, a = .number x ∧ b = .number y ∧ x.isNaN ∧ y.isNaN) ∧
          ((a.equals b ∧ ¬a.same b) ↔
            ∃ x y, a = .number x ∧ b = .number y ∧
              x.isZero ∧ y.isZero ∧ x.isNegative ≠ y.isNegative) ∧
          (a.canonical = b.canonical ↔ a.same b ∨ a.equals b) := by
  refine ⟨same_equivalence, fun _ _ => equals_symm, fun _ _ _ => equals_trans, fun a b => ?_⟩
  rcases numbers_or_plain a b with ⟨x, y, rfl, rfl⟩ | ⟨other, equal, same, canonical⟩
  · have part := @Number.same_and_not_equals_iff x y
    have part' := @Number.equals_and_not_same_iff x y
    have whole := @Number.canonical_eq_iff_same_or_equals x y
    refine ⟨?_, ?_, ?_⟩
    · simpa [Value.same, equals] using part
    · simpa [Value.same, equals] using part'
    · simpa [Value.same, equals, Value.canonical] using whole
  · -- Nothing parts them, and what is said of two numbers does not hold either.
    have nowhere (P : Number → Number → Prop) : ¬∃ x y, a = .number x ∧ b = .number y ∧ P x y := by
      rintro ⟨x, y, hx, hy, -⟩
      exact other x y ⟨hx, hy⟩
    refine ⟨?_, ?_, ?_⟩
    · rw [same, equal]
      exact iff_of_false (fun h => h.2 h.1) (nowhere _)
    · rw [same, equal]
      exact iff_of_false (fun h => h.2 h.1) (nowhere _)
    · rw [same, equal, canonical, or_self, decide_eq_true_iff]

/-- The zeros name one map entry, and are told apart all the same. -/
example :
    let zero : Value := .number Number.zero
    let negative : Value := .number ⟨0x8000000000000000⟩
    zero.canonical = negative.canonical ∧ zero.equals negative ∧ ¬zero.same negative := by
  decide

end Value

end Lvalue
