/-!
# Integer literals

The language computes with signed 64-bit integers. A literal is an optional minus sign and one or
more digits; it denotes its decimal value, provided that the value fits into 64 bits.

* `fit?`: an exact integer as a 64-bit integer;
* `Literal.isShaped`, `Literal.value`: the shape of a literal, and its exact value;
* `Literal.read?`: the 64-bit integer that a word denotes.
-/

namespace RobotControl

/-- The 64-bit integer equal to `n`, if `n` is in range. -/
def fit? (n : Int) : Option Int64 :=
  if Int64.minValue.toInt ≤ n ∧ n ≤ Int64.maxValue.toInt then some (Int64.ofInt n) else none

/-- A 64-bit integer in decimal. -/
def renderInt (n : Int64) : String := toString n.toInt

namespace Literal

/-- One or more digits. -/
def isDigits (cs : List Char) : Bool := !cs.isEmpty && cs.all Char.isDigit

/-- An optional minus sign, then one or more digits. -/
def isShaped (w : String) : Bool :=
  match w.toList with
  | '-' :: ds => isDigits ds
  | ds => isDigits ds

/-- The exact decimal value of a word that is shaped like a literal. -/
def value (w : String) : Int :=
  match w.toList with
  | '-' :: ds => -(Nat.ofDigitChars 10 ds 0 : Int)
  | ds => (Nat.ofDigitChars 10 ds 0 : Int)

/-- The 64-bit integer that `w` denotes as a literal. -/
def read? (w : String) : Option Int64 :=
  if isShaped w then fit? (value w) else none

end Literal

theorem toInt_of_fit? {n : Int} {v : Int64} (h : fit? n = some v) : v.toInt = n := by
  simp only [fit?, Option.ite_none_right_eq_some, Option.some.injEq] at h
  obtain ⟨hn, rfl⟩ := h
  exact Int64.toInt_ofInt_of_le hn.1 (Int.lt_add_one_of_le hn.2)

@[simp] theorem fit?_toInt (v : Int64) : fit? v.toInt = some v := by
  rw [fit?, if_pos ⟨v.minValue_le_toInt, v.toInt_le⟩, Int64.ofInt_toInt]

theorem fit?_eq_some_iff {n : Int} {v : Int64} : fit? n = some v ↔ v.toInt = n := by
  constructor
  · exact toInt_of_fit?
  · rintro rfl
    exact fit?_toInt v

end RobotControl
