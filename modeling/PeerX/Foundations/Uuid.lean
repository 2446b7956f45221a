import Mathlib.Data.Nat.Notation
import Mathlib.Tactic.Ring

/-!
# Identifiers in a `uuid` column

A value of the type `uuid` is 128 bits. Postgres reads it from a text with 32 hexadecimal digits in
either case, perhaps in braces and with hyphens between them, and refuses any other text; it writes
it in one spelling.
-/

namespace Relational

/-- A value of a `uuid` column. -/
abbrev Uuid : Type := BitVec 128

def hexValue (c : Char) : Option ℕ :=
  if c.isDigit then some (c.toNat - '0'.toNat)
  else if 'a' ≤ c ∧ c ≤ 'f' then some (c.toNat - 'a'.toNat + 10)
  else if 'A' ≤ c ∧ c ≤ 'F' then some (c.toNat - 'A'.toNat + 10)
  else none

/-- The last `n` of the bytes, with what was read before them. A hyphen may follow each second
byte. -/
def readBytes : ℕ → Uuid → List Char → Option (Uuid × List Char)
  | 0, value, source => some (value, source)
  | n + 1, value, high :: low :: source =>
    match hexValue high, hexValue low with
    | some h, some l =>
      readBytes n (value * 256 + BitVec.ofNat 128 (16 * h + l))
        (if n % 2 = 0 ∧ n ≠ 0 ∧ source.head? = some '-' then source.tail else source)
    | _, _ => none
  | _ + 1, _, _ => none

/-- The value of a text, if it is the text of one. -/
def readUuid : List Char → Option Uuid
  | '{' :: source =>
    match readBytes 16 0 source with
    | some (value, ['}']) => some value
    | _ => none
  | source =>
    match readBytes 16 0 source with
    | some (value, []) => some value
    | _ => none

/-- The hexadecimal digits. -/
def Uuid.digits (value : Uuid) : List Char :=
  (List.range 32).reverse.map fun i => Nat.digitChar (value.toNat / 16 ^ i % 16)

/-- The text of a value. -/
def Uuid.text (value : Uuid) : List Char :=
  ['-'].intercalate
    [value.digits.take 8, (value.digits.drop 8).take 4, (value.digits.drop 12).take 4, (value.digits.drop 16).take 4,
      value.digits.drop 20]

/-- The spelling of an id in which the rows of a `uuid` column are read. -/
def storedSpelling (id : String) : Option String := (readUuid id.toList).map fun value => String.ofList value.text

theorem length_of_readBytes {n : ℕ} {value result : Uuid} {source rest : List Char}
    (h : readBytes n value source = some (result, rest)) : 2 * n + rest.length ≤ source.length := by
  induction n generalizing value source with
  | zero =>
    obtain ⟨-, rfl⟩ := Prod.mk.inj (Option.some.inj h)
    omega
  | succ n ih =>
    match source with
    | [] | [_] => cases h
    | high :: low :: source =>
      rw [readBytes] at h
      split at h
      · -- a hyphen is passed over, so the rest may be one shorter
        have hle := ih h
        split at hle <;> simp only [List.length_tail, List.length_cons] at hle ⊢ <;> omega
      · cases h

/-- A text that is read is long enough for the digits. -/
theorem length_of_readUuid {source : List Char} {value : Uuid} (h : readUuid source = some value) :
    32 ≤ source.length := by
  rw [readUuid.eq_def] at h
  split at h
  · -- in braces
    split at h
    next hread =>
      have hle := length_of_readBytes hread
      simp only [List.length_cons] at hle ⊢
      omega
    next => cases h
  · split at h
    next hread =>
      have hle := length_of_readBytes hread
      omega
    next => cases h

@[simp] theorem length_digits (value : Uuid) : value.digits.length = 32 := by
  simp [Uuid.digits]

theorem length_text (value : Uuid) : value.text.length = 36 := by
  simp [Uuid.text, List.intercalate, List.intersperse]

example : storedSpelling "{A0EEBC99-9C0B4EF8-BB6D6BB9-BD380A11}" = some "a0eebc99-9c0b-4ef8-bb6d-6bb9bd380a11" := by
  decide +kernel

end Relational
