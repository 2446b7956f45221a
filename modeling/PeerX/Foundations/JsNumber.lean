import Mathlib.Algebra.Order.Field.Rat
import Mathlib.Data.Int.Log
import Mathlib.Data.Rat.Floor
import Mathlib.Tactic.FieldSimp
import Mathlib.Tactic.Linarith

/-!
# Numbers with exact arithmetic and the exceptional values

JavaScript's `number`, with the rounding taken away: a finite value is a rational, and the
operations that leave the rationals give `NaN` or an infinity as IEEE 754 does. The two zeros are
one value here, so `x / 0` takes its sign from `x`. Postgres returns a decimal column as a text. At
the end are the numbers for which this is exact, and the rounding of the others.
-/

namespace Arithmetic

/-- A number: a rational, an infinity with its sign, or not a number. -/
inductive JsNumber : Type
  | num (q : ℚ)
  | inf (negative : Bool)
  | nan
deriving DecidableEq

namespace JsNumber

/-- Addition. -/
protected def add : JsNumber → JsNumber → JsNumber
  | .num a, .num b => .num (a + b)
  | .inf a, .inf b => if a = b then .inf a else .nan
  | .inf a, .num _ => .inf a
  | .num _, .inf b => .inf b
  | _, _ => .nan

/-- Multiplication. -/
protected def mul : JsNumber → JsNumber → JsNumber
  | .num a, .num b => .num (a * b)
  | .inf a, .inf b => .inf (a != b)
  | .inf a, .num b => if b = 0 then .nan else .inf (a != decide (b < 0))
  | .num a, .inf b => if a = 0 then .nan else .inf (decide (a < 0) != b)
  | _, _ => .nan

/-- Division. -/
protected def div : JsNumber → JsNumber → JsNumber
  | .num a, .num b =>
    if b = 0 then if a = 0 then .nan else .inf (decide (a < 0)) else .num (a / b)
  | .inf a, .num b => .inf (a != decide (b < 0))
  | .num _, .inf _ => .num 0
  | _, _ => .nan

/-- `<`. -/
def lt : JsNumber → JsNumber → Bool
  | .num a, .num b => a < b
  | .num _, .inf negative => !negative
  | .inf negative, .num _ => negative
  | .inf a, .inf b => a && !b
  | _, _ => false

/-- `<=`. -/
def le : JsNumber → JsNumber → Bool
  | .num a, .num b => a ≤ b
  | .inf a, .inf b => a || !b
  | a, b => lt a b

instance : Add JsNumber := ⟨JsNumber.add⟩
instance : Mul JsNumber := ⟨JsNumber.mul⟩
instance : Div JsNumber := ⟨JsNumber.div⟩

@[simp] theorem num_add_num (a b : ℚ) : num a + num b = num (a + b) := rfl

@[simp] theorem num_mul_num (a b : ℚ) : num a * num b = num (a * b) := rfl

theorem num_div_num (a : ℚ) {b : ℚ} (h : b ≠ 0) : num a / num b = num (a / b) := by
  show JsNumber.div (num a) (num b) = _
  simp [JsNumber.div, h]

/-- `Number(text)` of digits and points: a number has one point at most. -/
def ofDigits (text : List Char) : JsNumber :=
  let digits := text.filter (· ≠ '.')
  if text.count '.' ≤ 1 ∧ digits.all Char.isDigit then
    .num (digits.foldl (fun n c => 10 * n + (c.toNat - '0'.toNat)) 0 /
      10 ^ (text.dropWhile (· ≠ '.')).tail.length)
  else .nan

/-- The text of a nonnegative number in a decimal column with 8 digits after the point. -/
def decimalText (x : ℚ) : List Char :=
  let digits := (Nat.toDigits 10 (x * 10 ^ 8).floor.toNat).leftpad 9 '0'
  digits.take (digits.length - 8) ++ '.' :: digits.drop (digits.length - 8)

theorem point_mem_decimalText (x : ℚ) : '.' ∈ decimalText x := by
  simp [decimalText]

/-- The sum of two columns is no number: `+` puts one text behind the other. -/
theorem ofDigits_append {a b : List Char} (ha : '.' ∈ a) (hb : '.' ∈ b) : ofDigits (a ++ b) = .nan := by
  have hleft := List.count_pos_iff.mpr ha
  have hright := List.count_pos_iff.mpr hb
  have hpoints : ¬ (a ++ b).count '.' ≤ 1 := by
    rw [List.count_append]
    omega
  exact if_neg fun h => hpoints h.1

/-- A finite number, as `String` writes it: its digits, as few as tell it from the other
numbers, and how many of them stand before the point. -/
structure Shortest where
  negative : Bool
  digits : List Char
  point : ℤ
  length_digits : digits.length ≤ 17
  point_le : point.natAbs ≤ 400
deriving DecidableEq

/-- The text of the digits with the point, or with an exponent. -/
def Shortest.unsigned (x : Shortest) : List Char :=
  if x.digits.length ≤ x.point ∧ x.point ≤ 21 then
    x.digits ++ List.replicate (x.point.toNat - x.digits.length) '0'
  else if 0 < x.point ∧ x.point ≤ 21 then x.digits.take x.point.toNat ++ '.' :: x.digits.drop x.point.toNat
  else if -6 < x.point ∧ x.point ≤ 0 then '0' :: '.' :: (List.replicate x.point.natAbs '0' ++ x.digits)
  else x.digits.take 1 ++ (if x.digits.length = 1 then [] else '.' :: x.digits.drop 1) ++
    'e' :: (if x.point ≤ 0 then '-' else '+') :: Nat.toDigits 10 (x.point - 1).natAbs

def Shortest.text (x : Shortest) : List Char := (if x.negative then ['-'] else []) ++ x.unsigned

/-- The text of a number is short. -/
theorem Shortest.length_text_lt (x : Shortest) : x.text.length < 32 := by
  have hdigits := x.length_digits
  have hpoint := x.point_le
  have hsign : (if x.negative then ['-'] else []).length ≤ 1 := by split <;> simp
  have hunsigned : x.unsigned.length ≤ 30 := by
    have hexponent : (Nat.toDigits 10 (x.point - 1).natAbs).length ≤ 3 :=
      (Nat.length_toDigits_le_iff (by decide) (by decide)).mpr (by omega)
    rw [Shortest.unsigned]
    split_ifs
    all_goals
      simp only [List.length_append, List.length_replicate, List.length_take, List.length_cons, List.length_drop,
        List.length_nil]
      omega
  rw [Shortest.text, List.length_append]
  omega

example : ofDigits ('0' :: decimalText 100) = .num 100 := by decide +kernel

end JsNumber

/-- The number is held as it is, by a double, by the text that `String` gives of it, and by a
decimal column with 8 of its 18 digits after the point: a multiple of 1/32. Code that adds and
subtracts such numbers, within the 10 digits before the point, rounds nothing. -/
def Carried (x : ℚ) : Prop := ∃ n : ℤ, x = n / 32

theorem carried_intCast (n : ℤ) : Carried n := ⟨n * 32, by simp⟩

@[simp] theorem carried_natCast (n : ℕ) : Carried n := by simpa using carried_intCast n

@[simp] theorem carried_zero : Carried 0 := by simpa using carried_natCast 0

@[simp] theorem carried_ofNat (n : ℕ) [n.AtLeastTwo] : Carried (ofNat(n)) := by
  simpa using carried_natCast (OfNat.ofNat n)

section Carried

variable {x y : ℚ}

theorem Carried.add (h : Carried x) (h' : Carried y) : Carried (x + y) := by
  obtain ⟨n, rfl⟩ := h
  obtain ⟨m, rfl⟩ := h'
  exact ⟨n + m, by rw [Int.cast_add, add_div]⟩

theorem Carried.sub (h : Carried x) (h' : Carried y) : Carried (x - y) := by
  obtain ⟨n, rfl⟩ := h
  obtain ⟨m, rfl⟩ := h'
  exact ⟨n - m, by rw [Int.cast_sub, sub_div]⟩

theorem Carried.min (h : Carried x) (h' : Carried y) : Carried (min x y) := by
  rcases min_choice x y with e | e <;> rwa [e]

theorem Carried.max (h : Carried x) (h' : Carried y) : Carried (max x y) := by
  rcases max_choice x y with e | e <;> rwa [e]

theorem Carried.abs (h : Carried x) : Carried |x| := by
  rcases abs_choice x with e | e
  · rwa [e]
  · rw [e, ← zero_sub]
    exact carried_zero.sub h

end Carried

/-- A number as a decimal column with `digits` digits after the point keeps it. Halves are rounded
away from zero. -/
def toColumn (digits : ℕ) (x : ℚ) : ℚ :=
  if 0 ≤ x then (⌊x * 10 ^ digits + 1 / 2⌋ : ℚ) / 10 ^ digits else -((⌊-x * 10 ^ digits + 1 / 2⌋ : ℚ) / 10 ^ digits)

/-- A column with 8 digits keeps the number. -/
theorem Carried.toColumn {x : ℚ} (h : Carried x) : toColumn 8 x = x := by
  obtain ⟨n, rfl⟩ := h
  have hfloor : ∀ m : ℤ, (⌊(m : ℚ) + 1 / 2⌋ : ℚ) = m := fun m => by
    rw [Int.floor_intCast_add, show ⌊(1 / 2 : ℚ)⌋ = 0 by norm_num, add_zero]
  unfold Arithmetic.toColumn
  split
  · rw [show (n : ℚ) / 32 * 10 ^ 8 = ((n * 3125000 : ℤ) : ℚ) by push_cast; ring, hfloor]
    push_cast
    ring
  · rw [show -((n : ℚ) / 32) * 10 ^ 8 = ((-n * 3125000 : ℤ) : ℚ) by push_cast; ring, hfloor]
    push_cast
    ring

/-- The nearest whole number; of two, the even one. -/
def roundEven (x : ℚ) : ℤ :=
  if x - ⌊x⌋ < 1 / 2 ∨ x - ⌊x⌋ = 1 / 2 ∧ ⌊x⌋ % 2 = 0 then ⌊x⌋ else ⌊x⌋ + 1

/-- The double next to a number: one of 53 binary digits. The exponent is not bounded. -/
def double (x : ℚ) : ℚ :=
  let ulp : ℚ := 2 ^ (Int.log 2 |x| - 52)
  roundEven (x / ulp) * ulp

theorem abs_roundEven_sub_le (x : ℚ) : |roundEven x - x| ≤ 1 / 2 := by
  have hle := Int.floor_le x
  have hlt := Int.lt_floor_add_one x
  unfold roundEven
  rw [abs_le]
  split
  next h =>
    have hhalf : x - ⌊x⌋ ≤ 1 / 2 := h.elim le_of_lt fun h => h.1.le
    constructor <;> linarith
  next h =>
    have hhalf : 1 / 2 ≤ x - ⌊x⌋ := not_lt.mp (not_or.mp h).1
    push_cast
    constructor <;> linarith

/-- The error of the rounding is small, compared with the number. -/
theorem abs_double_sub_le (x : ℚ) : |double x - x| ≤ |x| / 2 ^ 53 := by
  rcases eq_or_ne x 0 with rfl | hx
  · simp [double, roundEven]
  have hlog : (2 : ℚ) ^ Int.log 2 |x| ≤ |x| := by
    exact_mod_cast Int.zpow_log_le_self (by norm_num) (abs_pos.mpr hx)
  obtain ⟨ulp, hulp⟩ : ∃ ulp : ℚ, ulp = 2 ^ (Int.log 2 |x| - 52) := ⟨_, rfl⟩
  have hpos : 0 < ulp := hulp ▸ zpow_pos two_pos _
  have hle : ulp ≤ |x| / 2 ^ 52 := by
    rw [hulp, zpow_sub₀ two_ne_zero]
    exact div_le_div_of_nonneg_right hlog (by norm_num)
  have herror : double x - x = (roundEven (x / ulp) - x / ulp) * ulp := by
    rw [sub_mul, div_mul_cancel₀ _ hpos.ne', hulp]
    rfl
  rw [herror, abs_mul, abs_of_pos hpos]
  calc |(roundEven (x / ulp) : ℚ) - x / ulp| * ulp ≤ 1 / 2 * (|x| / 2 ^ 52) :=
        mul_le_mul (abs_roundEven_sub_le _) hle hpos.le (by norm_num)
    _ = |x| / 2 ^ 53 := by ring

end Arithmetic
