import PeerX.Foundations.JsonText
import Mathlib.Data.Nat.Digits.Defs

/-!
# Texts of integers

JavaScript's `BigInt` reads a text as an integer: decimal digits with a sign, or `0x`, `0o` or `0b`
and digits of that base, with white space around. It throws for all other texts. The text of an
integer is read as that integer.
-/

namespace Serialization

/-- The value of a digit, if it is one of the base. -/
def digitValue (base : ℕ) (u : CodeUnit) : Option ℕ :=
  let value :=
    if 0x30 ≤ u.val ∧ u.val ≤ 0x39 then u.val - 0x30
    else if 0x41 ≤ u.val ∧ u.val ≤ 0x46 then u.val - 0x37
    else if 0x61 ≤ u.val ∧ u.val ≤ 0x66 then u.val - 0x57
    else base
  if value < base then some value else none

/-- The number of some digits. -/
def readDigits (base : ℕ) (s : JsString) : Option ℕ :=
  if s ≠ [] ∧ s.all fun u => (digitValue base u).isSome then
    some (Nat.ofDigits base (s.filterMap (digitValue base)).reverse)
  else none

/-- `StrWhiteSpaceChar`. -/
def isWhiteSpace (u : CodeUnit) : Bool :=
  [0x09, 0x0A, 0x0B, 0x0C, 0x0D, 0x20, 0xA0, 0x1680, 0x2028, 0x2029, 0x202F, 0x205F, 0x3000, 0xFEFF].contains u ||
    (0x2000 ≤ u && u ≤ 0x200A)

/-- The text without the white space around it. -/
def trim (s : JsString) : JsString := ((s.dropWhile isWhiteSpace).reverse.dropWhile isWhiteSpace).reverse

/-- The letters of the bases, behind a zero. -/
def baseLetters : List (CodeUnit × ℕ) := [(0x62, 2), (0x42, 2), (0x6F, 8), (0x4F, 8), (0x78, 16), (0x58, 16)]

/-- The base that a text names. -/
def namedBase : JsString → Option ℕ
  | zero :: letter :: _ => if zero = 0x30 then baseLetters.lookup letter else none
  | _ => none

/-- `BigInt` of a text. -/
def bigInt (s : JsString) : Option ℤ :=
  let t := trim s
  if t = [] then some 0
  else
    match namedBase t with
    | some base => (readDigits base (t.drop 2)).map Int.ofNat
    | none =>
      if t.head? = some 0x2D then (readDigits 10 t.tail).map fun n => -(n : ℤ)
      else if t.head? = some 0x2B then (readDigits 10 t.tail).map Int.ofNat
      else (readDigits 10 t).map Int.ofNat

def decimalDigit (d : ℕ) : CodeUnit := Fin.ofNat _ (0x30 + d)

/-- The decimal text of a number. -/
def naturalText (n : ℕ) : JsString := if n = 0 then [0x30] else (Nat.digits 10 n).reverse.map decimalDigit

/-- `toString` of an integer. -/
def bigIntText (z : ℤ) : JsString := if z < 0 then 0x2D :: naturalText z.natAbs else naturalText z.natAbs

variable {s : JsString} {n : ℕ}

theorem trim_eq_self (h : ∀ u ∈ s, isWhiteSpace u = false) : trim s = s := by
  have hdrop : ∀ t : JsString, (∀ u ∈ t, isWhiteSpace u = false) → t.dropWhile isWhiteSpace = t := by
    intro t ht
    cases t with
    | nil => rfl
    | cons u t => exact List.dropWhile_cons_of_neg (by simp [ht u List.mem_cons_self])
  rw [trim, hdrop s h, hdrop s.reverse fun u hu => h u (List.mem_reverse.mp hu), List.reverse_reverse]

theorem digitValue_decimalDigit : ∀ d < 10, digitValue 10 (decimalDigit d) = some d := by decide

theorem exists_digit_of_mem {u : CodeUnit} (hu : u ∈ naturalText n) : ∃ d < 10, u = decimalDigit d := by
  rw [naturalText] at hu
  split at hu
  · exact ⟨0, by omega, List.mem_singleton.mp hu⟩
  · obtain ⟨d, hd, rfl⟩ := List.mem_map.mp hu
    exact ⟨d, Nat.digits_lt_base (by omega) (List.mem_reverse.mp hd), rfl⟩

theorem readDigits_naturalText (n : ℕ) : readDigits 10 (naturalText n) = some n := by
  have hne : naturalText n ≠ [] := by
    rw [naturalText]
    split
    · exact List.cons_ne_nil _ _
    · next hn => simpa [Nat.digits_ne_nil_iff_ne_zero] using hn
  have hall : ∀ u ∈ naturalText n, (digitValue 10 u).isSome := by
    intro u hu
    obtain ⟨d, hd, rfl⟩ := exists_digit_of_mem hu
    rw [digitValue_decimalDigit d hd]
    rfl
  rw [readDigits, if_pos ⟨hne, List.all_eq_true.mpr hall⟩]
  by_cases hn : n = 0
  · subst hn
    rfl
  · have hdigits : (naturalText n).filterMap (digitValue 10) = (Nat.digits 10 n).reverse := by
      rw [naturalText, if_neg hn, List.filterMap_map]
      refine (List.filterMap_congr fun d hd => ?_).trans List.filterMap_some
      exact digitValue_decimalDigit d (Nat.digits_lt_base (by omega) (List.mem_reverse.mp hd))
    rw [hdigits, List.reverse_reverse, Nat.ofDigits_digits]

theorem namedBase_eq_none {u : CodeUnit} (h : ∀ v ∈ s, baseLetters.lookup v = none) : namedBase (u :: s) = none := by
  cases s with
  | nil => rfl
  | cons v s => rw [namedBase, h v List.mem_cons_self, ite_self]

/-- The text of an integer is read as that integer. -/
theorem bigInt_bigIntText (z : ℤ) : bigInt (bigIntText z) = some z := by
  have hplain : ∀ d < 10, isWhiteSpace (decimalDigit d) = false ∧ baseLetters.lookup (decimalDigit d) = none ∧
      decimalDigit d ≠ 0x2D ∧ decimalDigit d ≠ 0x2B := by decide
  have hdigits : ∀ u ∈ naturalText z.natAbs, isWhiteSpace u = false ∧ baseLetters.lookup u = none ∧
      u ≠ 0x2D ∧ u ≠ 0x2B := by
    intro u hu
    obtain ⟨d, hd, rfl⟩ := exists_digit_of_mem hu
    exact hplain d hd
  have hread := readDigits_naturalText z.natAbs
  rcases lt_or_ge z 0 with hz | hz
  · have htrim : trim (0x2D :: naturalText z.natAbs) = 0x2D :: naturalText z.natAbs :=
      trim_eq_self (List.forall_mem_cons.mpr ⟨by decide, fun u hu => (hdigits u hu).1⟩)
    rw [bigIntText, if_pos hz, bigInt, htrim]
    simp only [List.cons_ne_nil, if_false, namedBase_eq_none fun u hu => (hdigits u hu).2.1, List.head?_cons, if_true,
      List.tail_cons, hread, Option.map_some]
    exact congrArg some (show -(z.natAbs : ℤ) = z by omega)
  · rw [bigIntText, if_neg hz.not_gt, bigInt, trim_eq_self fun u hu => (hdigits u hu).1]
    cases htext : naturalText z.natAbs with
    | nil =>
      rw [htext] at hread
      cases hread
    | cons u rest =>
      rw [htext] at hdigits hread
      obtain ⟨-, -, hminus, hplus⟩ := hdigits u List.mem_cons_self
      have hnone : namedBase (u :: rest) = none :=
        namedBase_eq_none fun v hv => (hdigits v (List.mem_cons_of_mem _ hv)).2.1
      simp only [List.cons_ne_nil, if_false, hnone, List.head?_cons, Option.some.injEq, hminus, hplus, hread,
        Option.map_some]
      exact Int.natAbs_of_nonneg hz

theorem isSome_readDigits_iff {base : ℕ} :
    (readDigits base s).isSome ↔ s ≠ [] ∧ ∀ u ∈ s, (digitValue base u).isSome := by
  rw [readDigits]
  split <;> simp_all

section Hexadecimal

variable {u : CodeUnit}

/-- A small hexadecimal digit is neither white space nor a sign, and of the letters of the bases it
can be `b` only. -/
theorem plain_of_hex (h : ∃ digit, u = hexDigit digit) : isWhiteSpace u = false ∧ u ≠ 0x2D ∧ u ≠ 0x2B ∧
    baseLetters.lookup u = if u = 0x62 then some 2 else none := by
  have hplain : ∀ digit, isWhiteSpace (hexDigit digit) = false ∧ hexDigit digit ≠ 0x2D ∧ hexDigit digit ≠ 0x2B ∧
      baseLetters.lookup (hexDigit digit) = if hexDigit digit = 0x62 then some 2 else none := by decide
  obtain ⟨digit, rfl⟩ := h
  exact hplain digit

/-- The bases of which a small hexadecimal digit is one. -/
theorem isSome_digitValue_of_hex (h : ∃ digit, u = hexDigit digit) : (digitValue 16 u).isSome ∧
    ((digitValue 10 u).isSome ↔ u ∈ ascii "0123456789") ∧ ((digitValue 2 u).isSome ↔ u ∈ ascii "01") := by
  have hvalue : ∀ digit, (digitValue 16 (hexDigit digit)).isSome ∧
      ((digitValue 10 (hexDigit digit)).isSome ↔ hexDigit digit ∈ ascii "0123456789") ∧
      ((digitValue 2 (hexDigit digit)).isSome ↔ hexDigit digit ∈ ascii "01") := by decide
  obtain ⟨digit, rfl⟩ := h
  exact hvalue digit

/-- Hexadecimal digits behind `0x`. -/
theorem isSome_bigInt_of_hex (hne : s ≠ []) (hhex : ∀ u ∈ s, ∃ digit, u = hexDigit digit) :
    (bigInt (ascii "0x" ++ s)).isSome := by
  have htrim : trim (ascii "0x" ++ s) = ascii "0x" ++ s := by
    have hletters : isWhiteSpace 0x30 = false ∧ isWhiteSpace 0x78 = false := by decide
    exact trim_eq_self (List.forall_mem_cons.mpr ⟨hletters.1, List.forall_mem_cons.mpr ⟨hletters.2,
      fun u hu => (plain_of_hex (hhex u hu)).1⟩⟩)
  have hread : (readDigits 16 s).isSome :=
    isSome_readDigits_iff.mpr ⟨hne, fun u hu => (isSome_digitValue_of_hex (hhex u hu)).1⟩
  rw [bigInt, htrim]
  exact (Option.isSome_map ..).trans hread

/-- Small hexadecimal digits name the base 2, or none. -/
theorem namedBase_of_hex (hhex : ∀ u ∈ s, ∃ digit, u = hexDigit digit) (h : ¬ ∃ digits, s = ascii "0b" ++ digits) :
    namedBase s = none := by
  rcases s with _ | ⟨u, _ | ⟨v, s⟩⟩
  · rfl
  · rfl
  · rw [namedBase]
    split
    next hu =>
      have hv : v ≠ 0x62 := fun hv => h ⟨s, by rw [hu, hv]; rfl⟩
      rw [(plain_of_hex (hhex v (List.mem_cons_of_mem _ List.mem_cons_self))).2.2.2, if_neg hv]
    next => rfl

/-- The text of an integer, among those in small hexadecimal digits: it has decimal digits only,
or it names the base
2. The letters of the other bases are no hexadecimal digits. -/
theorem isSome_bigInt_iff (hne : s ≠ []) (hhex : ∀ u ∈ s, ∃ digit, u = hexDigit digit) :
    (bigInt s).isSome ↔ (∀ u ∈ s, u ∈ ascii "0123456789") ∨
      ∃ digits, digits ≠ [] ∧ s = ascii "0b" ++ digits ∧ ∀ u ∈ digits, u ∈ ascii "01" := by
  rw [bigInt, trim_eq_self fun u hu => (plain_of_hex (hhex u hu)).1]
  by_cases hbinary : ∃ digits, s = ascii "0b" ++ digits
  · obtain ⟨digits, rfl⟩ := hbinary
    have hb : ¬ ∀ u ∈ ascii "0b" ++ digits, u ∈ ascii "0123456789" := fun h =>
      absurd (h 0x62 (List.mem_append_left _ (by decide))) (by decide)
    have hbase : namedBase (ascii "0b" ++ digits) = some 2 := rfl
    have hrest : (ascii "0b" ++ digits).drop 2 = digits := rfl
    -- a `b` is no decimal digit, so that the digits behind it decide
    have hbits : (∀ u ∈ digits, (digitValue 2 u).isSome) ↔ ∀ u ∈ digits, u ∈ ascii "01" :=
      forall₂_congr fun u hu => (isSome_digitValue_of_hex (hhex u (List.mem_append_right _ hu))).2.2
    simp only [hne, if_false, hbase, hrest, Option.isSome_map, isSome_readDigits_iff, hb, false_or,
      List.append_cancel_left_eq, ne_eq]
    rw [hbits]
    constructor
    · exact fun h => ⟨digits, h.1, rfl, h.2⟩
    · rintro ⟨_, hdigits, rfl, h⟩
      exact ⟨hdigits, h⟩
  · -- without a base and without a sign, the digits are decimal ones
    have hdecimal : (readDigits 10 s).isSome ↔ ∀ u ∈ s, u ∈ ascii "0123456789" := by
      rw [isSome_readDigits_iff, and_iff_right hne]
      exact forall₂_congr fun u hu => (isSome_digitValue_of_hex (hhex u hu)).2.1
    have hhead : s.head? ≠ some 0x2D ∧ s.head? ≠ some 0x2B :=
      ⟨fun h => (plain_of_hex (hhex _ (List.mem_of_mem_head? h))).2.1 rfl,
        fun h => (plain_of_hex (hhex _ (List.mem_of_mem_head? h))).2.2.1 rfl⟩
    simp only [hne, if_false, namedBase_of_hex hhex hbinary, hhead.1, hhead.2, Option.isSome_map, hdecimal]
    refine (or_iff_left ?_).symm
    rintro ⟨digits, -, heq, -⟩
    exact hbinary ⟨digits, heq⟩

end Hexadecimal

end Serialization
