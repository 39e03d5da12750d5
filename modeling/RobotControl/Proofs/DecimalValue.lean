import Mathlib.Data.Nat.Digits.Defs
import Mathlib.Tactic
import RobotControl.Proofs.RoundTrip

/-!
# The values of integer literals

What a literal denotes, said without reading it: a sign and some digits, of which each counts with
its power of ten.  A word is a literal when it is the spelling of such a number, and it denotes the
exact value whenever that is a 64-bit integer.

* `Decimal`: a sign and one or more digits, with their spelling and their value;
* `Decimal.numeral_iff`: the literals of the grammar are the spellings of the 64-bit numbers.
-/

namespace RobotControl

/-- A number in decimal: a sign and at least one digit, the most significant first.  Zeros may
lead. -/
structure Decimal where
  negative : Bool
  digits : List (Fin 10)
  digits_ne_nil : digits ≠ []

namespace Decimal

/-- The character of a digit. -/
def digitChar (i : Fin 10) : Char := Nat.digitChar i

/-- The digits as they are written, after a minus sign if there is one. -/
def spelling (d : Decimal) : String :=
  String.ofList ((if d.negative then ['-'] else []) ++ d.digits.map digitChar)

/-- The number that the digits stand for in base ten. -/
def magnitude (ds : List (Fin 10)) : Nat := Nat.ofDigits 10 (ds.map Fin.val).reverse

/-- The exact value. -/
def value (d : Decimal) : Int := if d.negative then -magnitude d.digits else magnitude d.digits

/-! ### Digits -/

theorem isDigit_iff {c : Char} : c.isDigit = true ↔ c ∈ Set.range digitChar := by
  constructor
  · intro h
    obtain ⟨hlow, hhigh⟩ : 48 ≤ c.toNat ∧ c.toNat ≤ 57 := by
      simpa [Char.isDigit, UInt32.le_iff_toNat_le] using h
    refine ⟨⟨c.toNat - 48, by omega⟩, Char.toNat_inj.1 ?_⟩
    rw [digitChar, Nat.toNat_digitChar_of_lt_ten (by simp only; omega)]
    simp only
    omega
  · rintro ⟨i, rfl⟩
    simp [digitChar, Nat.isDigit_digitChar, i.isLt]

theorem forall_isDigit_iff {cs : List Char} :
    (∀ c ∈ cs, c.isDigit = true) ↔ ∃ ds : List (Fin 10), ds.map digitChar = cs := by
  have hrange : cs ∈ Set.range (List.map digitChar) ↔ ∀ c ∈ cs, c ∈ Set.range digitChar := by
    rw [Set.range_list_map]
    rfl
  simp only [isDigit_iff]
  exact hrange.symm

/-- Reading digits from left to right adds up their multiples of powers of ten. -/
theorem ofDigitChars_map_digitChar (ds : List (Fin 10)) :
    Nat.ofDigitChars 10 (ds.map digitChar) 0 = magnitude ds := by
  induction ds with
  | nil => rfl
  | cons i ds ih =>
    rw [List.map_cons, digitChar, Nat.ofDigitChars_cons_digitChar_of_lt_ten i.isLt,
      Nat.ofDigitChars_eq_ofDigitChars_zero, ih, magnitude, magnitude, List.map_cons,
      Nat.ofDigits_reverse_cons]
    simp [Nat.add_comm]

/-! ### Literals -/

/-- The literals of the grammar are the spellings of the numbers that fit into 64 bits. -/
theorem numeral_iff {w : String} {v : Int64} :
    Numeral w v ↔ ∃ d : Decimal, w = d.spelling ∧ v.toInt = d.value := by
  constructor
  · intro h
    cases h with
    | unsigned hne hds hv =>
      obtain ⟨ds, rfl⟩ := forall_isDigit_iff.1 hds
      refine ⟨⟨false, ds, by simpa using hne⟩, rfl, ?_⟩
      rw [hv, ofDigitChars_map_digitChar]
      rfl
    | negative hne hds hv =>
      obtain ⟨ds, rfl⟩ := forall_isDigit_iff.1 hds
      refine ⟨⟨true, ds, by simpa using hne⟩, rfl, ?_⟩
      rw [hv, ofDigitChars_map_digitChar]
      rfl
  · rintro ⟨⟨negative, ds, hne⟩, rfl, hv⟩
    have hds : ∀ c ∈ ds.map digitChar, c.isDigit = true := forall_isDigit_iff.2 ⟨ds, rfl⟩
    rw [value, ← ofDigitChars_map_digitChar] at hv
    cases negative with
    | false => exact .unsigned (by simpa using hne) hds hv
    | true => exact .negative (by simpa using hne) hds hv

end Decimal

/-- **Integer literals denote their exact value.**

A word denotes the integer `v` exactly when it spells `v` in decimal, with an optional minus sign
and any number of leading zeros, and `v` fits into 64 bits.  Every 64-bit integer is denoted by its
printed form. -/
theorem Token.integer?_word_exact :
    (∀ (w : String) (v : Int), (Token.word w).integer?.map Int64.toInt = some v ↔
        ∃ d : Decimal, w = d.spelling ∧ v = d.value ∧ -2 ^ 63 ≤ v ∧ v ≤ 2 ^ 63 - 1) ∧
      ∀ v : Int64, (Token.word (renderInt v)).integer? = some v := by
  refine ⟨fun w v => ?_, fun v => Literal.read?_eq_some_iff.2 (numeral_renderInt v)⟩
  rw [Token.integer?, Option.map_eq_some_iff]
  constructor
  · rintro ⟨u, hu, rfl⟩
    obtain ⟨d, hw, hd⟩ := Decimal.numeral_iff.1 (Literal.read?_eq_some_iff.1 hu)
    exact ⟨d, hw, hd, u.minValue_le_toInt, u.toInt_le⟩
  · rintro ⟨d, rfl, rfl, hlow, hhigh⟩
    have hfit : (Int64.ofInt d.value).toInt = d.value :=
      Int64.toInt_ofInt_of_le hlow (Int.lt_add_one_of_le hhigh)
    exact ⟨Int64.ofInt d.value,
      Literal.read?_eq_some_iff.2 (Decimal.numeral_iff.2 ⟨d, rfl, hfit⟩), hfit⟩

-- The smallest integer has no counterpart of the other sign.
example : (Token.word "-9223372036854775808").integer? = some Int64.minValue := by decide

example : (Token.word "9223372036854775808").integer? = none := by decide

end RobotControl
