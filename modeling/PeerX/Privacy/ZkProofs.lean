import PeerX.Foundations.JsBigInt
import PeerX.Foundations.JsNumber
import Mathlib.Data.Vector.Basic

/-!
# Privacy: proofs about balances

A balance proof is made for a challenge of the server, and checked with it. The prover reads the
challenge as an integer, while the server writes it in hexadecimal digits without `0x`. A range
proof can be made for a range of one value, or with a negative bound, that its verifier refuses. A
time-locked proof is accepted until it expires.
-/

namespace Privacy

open Arithmetic Serialization

/-! ## Texts and bytes -/

/-- Bytes, as many as are asked for. -/
abbrev Bytes (n : ℕ) : Type := List.Vector (Fin 256) n

/-- `toString('hex')`. -/
def hex {n : ℕ} (bytes : Bytes n) : JsString :=
  bytes.toList.flatMap fun b => [hexDigit ⟨b.val / 16, by omega⟩, hexDigit ⟨b.val % 16, by omega⟩]

inductive Exception where
  | badRequest (message : JsString)
  | internalServerError (message : JsString)
  | syntaxError (message : JsString)
deriving DecidableEq

/-- The message of an exception. -/
def Exception.message : Exception → JsString
  | .badRequest message => message
  | .internalServerError message => message
  | .syntaxError message => message

/-- `BigInt(s)`. -/
def toBigInt (s : JsString) : Except Exception ℤ :=
  match bigInt s with
  | some z => .ok z
  | none => .error (.syntaxError (ascii "Cannot convert " ++ s ++ ascii " to a BigInt"))

/-- `generateServerChallenge`, with the random bytes. -/
def generateServerChallenge (random : Bytes 32) : JsString := hex random

def generateNonce (random : Bytes 16) : JsString := hex random

/-- `generateRandomBigInt`, of 256 bits. -/
def generateRandomBigInt (random : Bytes 32) : Except Exception ℤ := toBigInt (ascii "0x" ++ hex random)

/-! ## The service -/

section Service

-- the hash, and the text of a number
variable (sha256 : JsString → Bytes 32) (numberText : JsNumber → JsString)

structure ZKProof where
  commitment : JsString
  proof : JsString
  minAmount : JsString
  timestamp : ℤ
  validity : ℕ

def generateBalanceProof (random : Bytes 32) (now : ℤ) (balance coefficient minAmount challenge : JsString) :
    Except Exception ZKProof :=
  tryCatch (do
    let balanceNum ← toBigInt balance
    let minNum ← toBigInt minAmount
    let coeffNum ← toBigInt coefficient
    let challengeNum ← toBigInt challenge
    if balanceNum < minNum then
      throw (.badRequest (ascii "Balance is insufficient to generate valid proof"))
    let witness ← generateRandomBigInt random
    let difference := balanceNum - minNum
    let response := witness + challengeNum * difference
    let commitment := hex (sha256 (bigIntText coeffNum ++ ascii ":" ++ bigIntText witness))
    return { commitment, proof := bigIntText response, minAmount, timestamp := now, validity := 3600 })
    fun error =>
      match error with
      | .badRequest message => throw (.badRequest message)
      | error => throw (.internalServerError (ascii "Proof generation failed: " ++ error.message))

/-- `verifyBalanceProof`. The commitment that it expects is not compared. -/
def verifyBalanceProof (commitment proof _minAmount challenge coefficient : JsString) : Bool :=
  let verified : Except Exception Bool := do
    let proofNum ← toBigInt proof
    let _challengeNum ← toBigInt challenge
    let coeffNum ← toBigInt coefficient
    let _expectedCommitment := hex (sha256 (bigIntText coeffNum ++ ascii ":" ++ bigIntText proofNum))
    return decide (commitment.length = 64)
  match verified with
  | .ok accepted => accepted
  | .error _ => false

/-- The result of `createRangeProof`. -/
structure RangeProof where
  proof : JsString
  minRange : JsString
  maxRange : JsString
  timestamp : ℤ

def createRangeProof (random : Bytes 16) (now : ℤ) (balance minRange maxRange : JsString) :
    Except Exception RangeProof := do
  let balanceNum ← toBigInt balance
  let minNum ← toBigInt minRange
  let maxNum ← toBigInt maxRange
  if balanceNum < minNum ∨ balanceNum > maxNum then
    throw (.badRequest (ascii "Balance is outside the specified range"))
  let commitment := hex (sha256 (balance ++ ascii ":" ++ generateNonce random ++ ascii ":range"))
  return { proof := commitment, minRange, maxRange, timestamp := now }

def verifyRangeProof (proof minRange maxRange : JsString) : Bool :=
  let verified : Except Exception Bool := do
    if ¬ (proof.length = 64 ∧ proof.all (ascii "abcdef0123456789").contains) then return false
    let min ← toBigInt minRange
    let max ← toBigInt maxRange
    return decide (min < max ∧ 0 ≤ min)
  match verified with
  | .ok accepted => accepted
  | .error _ => false

/-- The result of `createTimeLockedProof`. -/
structure TimeLockedProof where
  proof : JsString
  issuedAt : JsNumber
  expiresAt : JsNumber

def createTimeLockedProof (now : ℤ) (balance minAmount : JsString) (validitySeconds : Option JsNumber) :
    Except Exception TimeLockedProof := do
  let balanceNum ← toBigInt balance
  let minNum ← toBigInt minAmount
  if balanceNum < minNum then
    throw (.badRequest (ascii "Insufficient balance for proof"))
  let issuedAt := .num now
  let expiresAt := issuedAt + validitySeconds.getD (.num 3600) * .num 1000
  let proof := hex (sha256 (balance ++ ascii ":" ++ minAmount ++ ascii ":" ++ numberText issuedAt ++ ascii ":" ++
    numberText expiresAt))
  return { proof, issuedAt, expiresAt }

def verifyTimeLockedProof (now : JsNumber) (proof : JsString) (issuedAt expiresAt : JsNumber) : Bool :=
  proof.length = 64 && issuedAt.le now && now.lt expiresAt

end Service

/-! ## What the proofs are for -/

/-- The inputs of the three pairs of prover and verifier. -/
structure ProofInputs where
  balance : JsString
  coefficient : JsString
  minAmount : JsString
  minRange : JsString
  maxRange : JsString
  validitySeconds : Option JsNumber
  challenge : Bytes 32
  witness : Bytes 32
  nonce : Bytes 16
  now : ℤ

namespace ProofInputs

/-- `balance >= minAmount`. -/
def AtLeast (i : ProofInputs) : Prop :=
  ∃ balanceNum minNum, bigInt i.balance = some balanceNum ∧ bigInt i.minAmount = some minNum ∧ minNum ≤ balanceNum

/-- The balance is in the range. -/
def InRange (i : ProofInputs) : Prop :=
  ∃ balanceNum minNum maxNum, bigInt i.balance = some balanceNum ∧ bigInt i.minRange = some minNum ∧
    bigInt i.maxRange = some maxNum ∧ minNum ≤ balanceNum ∧ balanceNum ≤ maxNum

/-- The range has more than one value, and no negative one. -/
def ProperRange (i : ProofInputs) : Prop :=
  ∃ minNum maxNum, bigInt i.minRange = some minNum ∧ bigInt i.maxRange = some maxNum ∧ 0 ≤ minNum ∧ minNum < maxNum

end ProofInputs

/-- A challenge that can be read: it has decimal digits only, or `0b` and binary digits. -/
def IsReadable (challenge : JsString) : Prop :=
  (∀ u ∈ challenge, u ∈ ascii "0123456789") ∨
    ∃ digits, digits ≠ [] ∧ challenge = ascii "0b" ++ digits ∧ ∀ u ∈ digits, u ∈ ascii "01"

variable (sha256 : JsString → Bytes 32) (numberText : JsNumber → JsString)

/-- The provers and verifiers agree. -/
structure Agree (i : ProofInputs) : Prop where
  balance : i.AtLeast → ∃ proof, generateBalanceProof sha256 i.witness i.now i.balance i.coefficient i.minAmount
      (generateServerChallenge i.challenge) = .ok proof ∧
    verifyBalanceProof sha256 proof.commitment proof.proof i.minAmount (generateServerChallenge i.challenge) i.coefficient
  range : ∀ proof, createRangeProof sha256 i.nonce i.now i.balance i.minRange i.maxRange = .ok proof →
    verifyRangeProof proof.proof i.minRange i.maxRange
  timeLocked : ∀ proof,
    createTimeLockedProof sha256 numberText i.now i.balance i.minAmount i.validitySeconds = .ok proof →
      ∀ time : JsNumber, proof.issuedAt.le time → time.lt proof.expiresAt →
        verifyTimeLockedProof time proof.proof proof.issuedAt proof.expiresAt

variable {sha256 numberText}

/-! ## Bytes -/

@[simp] theorem length_hex {n : ℕ} (bytes : Bytes n) : (hex bytes).length = 2 * n := by
  simp [hex, List.length_flatMap, mul_comm]

theorem exists_hexDigit_of_mem {n : ℕ} {bytes : Bytes n} {u : CodeUnit} (hu : u ∈ hex bytes) :
    ∃ digit, u = hexDigit digit := by
  obtain ⟨b, -, hb⟩ := List.mem_flatMap.mp hu
  rcases List.mem_pair.mp hb with rfl | rfl
  · exact ⟨_, rfl⟩
  · exact ⟨_, rfl⟩

theorem hex_ne_nil {n : ℕ} (bytes : Bytes (n + 1)) : hex bytes ≠ [] :=
  List.ne_nil_of_length_pos (by rw [length_hex]; omega)

theorem hexDigit_mem_proof (digit : Fin 16) : hexDigit digit ∈ ascii "abcdef0123456789" := by
  revert digit
  decide

/-- The challenges that can be read. -/
theorem isSome_bigInt_challenge_iff (random : Bytes 32) :
    (bigInt (generateServerChallenge random)).isSome ↔ IsReadable (generateServerChallenge random) :=
  isSome_bigInt_iff (hex_ne_nil random) fun _ => exists_hexDigit_of_mem

theorem exists_randomBigInt (random : Bytes 32) : ∃ z, generateRandomBigInt random = .ok z := by
  obtain ⟨z, hz⟩ := Option.isSome_iff_exists.mp
    (isSome_bigInt_of_hex (hex_ne_nil random) fun _ => exists_hexDigit_of_mem)
  exact ⟨z, by rw [generateRandomBigInt, toBigInt, hz]⟩

/-! ## The pairs of prover and verifier -/

variable {i : ProofInputs}

theorem toBigInt_of_some {s : JsString} {z : ℤ} (h : bigInt s = some z) : toBigInt s = .ok z := by
  rw [toBigInt, h]

theorem exists_toBigInt_of_none {s : JsString} (h : bigInt s = none) :
    ∃ message, toBigInt s = .error (.syntaxError message) := by
  rw [toBigInt, h]
  exact ⟨_, rfl⟩

/-- **A balance proof is made and accepted** when the coefficient and the challenge can be read. -/
theorem balance_agrees_iff {challenge : JsString} (h : i.AtLeast) :
    (∃ proof, generateBalanceProof sha256 i.witness i.now i.balance i.coefficient i.minAmount challenge = .ok proof ∧
        verifyBalanceProof sha256 proof.commitment proof.proof i.minAmount challenge i.coefficient) ↔
      (bigInt i.coefficient).isSome ∧ (bigInt challenge).isSome := by
  obtain ⟨balanceNum, minNum, hbalance, hmin, hle⟩ := h
  obtain ⟨witness, hwitness⟩ := exists_randomBigInt i.witness
  rw [generateBalanceProof, toBigInt_of_some hbalance, toBigInt_of_some hmin]
  cases hcoefficient : bigInt i.coefficient with
  | none =>
    obtain ⟨message, hthrows⟩ := exists_toBigInt_of_none hcoefficient
    rw [hthrows]
    exact iff_of_false (fun ⟨_, hproof, _⟩ => by cases hproof) (by simp)
  | some coeffNum =>
    rw [toBigInt_of_some hcoefficient]
    cases hchallenge : bigInt challenge with
    | none =>
      obtain ⟨message, hthrows⟩ := exists_toBigInt_of_none hchallenge
      rw [hthrows]
      exact iff_of_false (fun ⟨_, hproof, _⟩ => by cases hproof) (by simp)
    | some challengeNum =>
      rw [toBigInt_of_some hchallenge, hwitness]
      simp only [bind, Except.bind, hle.not_gt, if_false]
      refine iff_of_true ⟨_, rfl, ?_⟩ (by simp)
      -- the response is the text of an integer, so that the verifier can read it
      rw [verifyBalanceProof, toBigInt_of_some (bigInt_bigIntText _), toBigInt_of_some hchallenge,
        toBigInt_of_some hcoefficient]
      exact decide_eq_true (length_hex _)

theorem toBigInt_bind_eq_ok {α : Type} {s : JsString} {f : ℤ → Except Exception α} {a : α} :
    toBigInt s >>= f = .ok a ↔ ∃ z, bigInt s = some z ∧ f z = .ok a := by
  cases h : bigInt s with
  | none =>
    obtain ⟨message, hthrows⟩ := exists_toBigInt_of_none h
    rw [hthrows]
    exact iff_of_false (fun hok => by cases hok) (by simp)
  | some z => simp [toBigInt_of_some h, bind, Except.bind]

/-- When a range proof is made: the balance is in the range. -/
theorem createRangeProof_eq_ok_iff {proof : RangeProof} :
    createRangeProof sha256 i.nonce i.now i.balance i.minRange i.maxRange = .ok proof ↔ i.InRange ∧
      proof = ⟨hex (sha256 (i.balance ++ ascii ":" ++ generateNonce i.nonce ++ ascii ":range")), i.minRange,
        i.maxRange, i.now⟩ := by
  rw [createRangeProof, toBigInt_bind_eq_ok]
  simp only [toBigInt_bind_eq_ok]
  constructor
  · rintro ⟨balanceNum, hbalance, minNum, hmin, maxNum, hmax, h⟩
    by_cases hout : balanceNum < minNum ∨ balanceNum > maxNum
    · rw [if_pos hout] at h
      cases h
    · rw [if_neg hout] at h
      rw [not_or, not_lt, not_lt] at hout
      exact ⟨⟨balanceNum, minNum, maxNum, hbalance, hmin, hmax, hout⟩, (Except.ok.inj h).symm⟩
  · rintro ⟨⟨balanceNum, minNum, maxNum, hbalance, hmin, hmax, hle, hle'⟩, rfl⟩
    refine ⟨balanceNum, hbalance, minNum, hmin, maxNum, hmax, ?_⟩
    rw [if_neg (by rw [not_or, not_lt, not_lt]; exact ⟨hle, hle'⟩)]
    rfl

/-- When a range proof is accepted: the range is a proper one. -/
theorem verifyRangeProof_hex_iff (digest : Bytes 32) :
    verifyRangeProof (hex digest) i.minRange i.maxRange ↔ i.ProperRange := by
  have hformat : (hex digest).length = 64 ∧ (hex digest).all (ascii "abcdef0123456789").contains := by
    refine ⟨length_hex digest, List.all_eq_true.mpr fun u hu => ?_⟩
    obtain ⟨digit, rfl⟩ := exists_hexDigit_of_mem hu
    exact List.contains_iff_mem.mpr (hexDigit_mem_proof digit)
  rw [verifyRangeProof, if_neg (not_not.mpr hformat), ProofInputs.ProperRange]
  cases hmin : bigInt i.minRange with
  | none =>
    obtain ⟨message, hthrows⟩ := exists_toBigInt_of_none hmin
    rw [hthrows]
    exact iff_of_false Bool.false_ne_true (by simp)
  | some minNum =>
    rw [toBigInt_of_some hmin]
    cases hmax : bigInt i.maxRange with
    | none =>
      obtain ⟨message, hthrows⟩ := exists_toBigInt_of_none hmax
      rw [hthrows]
      exact iff_of_false Bool.false_ne_true (by simp)
    | some maxNum =>
      rw [toBigInt_of_some hmax]
      simp [bind, Except.bind, pure, Except.pure, and_comm]

/-- **A range proof is accepted** when the range is a proper one. -/
theorem range_agrees_iff :
    (∀ proof, createRangeProof sha256 i.nonce i.now i.balance i.minRange i.maxRange = .ok proof →
        verifyRangeProof proof.proof i.minRange i.maxRange) ↔
      (i.InRange → i.ProperRange) := by
  simp only [createRangeProof_eq_ok_iff]
  constructor
  · exact fun h hin => (verifyRangeProof_hex_iff _).mp (h _ ⟨hin, rfl⟩)
  · rintro h proof ⟨hin, rfl⟩
    exact (verifyRangeProof_hex_iff _).mpr (h hin)

/-- **A time-locked proof is accepted until it expires.** -/
theorem timeLocked_agrees {proof : TimeLockedProof} {time : JsNumber}
    (h : createTimeLockedProof sha256 numberText i.now i.balance i.minAmount i.validitySeconds = .ok proof)
    (hissued : proof.issuedAt.le time) (hexpires : time.lt proof.expiresAt) :
    verifyTimeLockedProof time proof.proof proof.issuedAt proof.expiresAt := by
  -- whatever the texts are, what is returned is a hash
  have hlength : proof.proof.length = 64 := by
    rw [createTimeLockedProof, toBigInt_bind_eq_ok] at h
    obtain ⟨balanceNum, -, h⟩ := h
    rw [toBigInt_bind_eq_ok] at h
    obtain ⟨minNum, -, h⟩ := h
    split_ifs at h
    · cases h
    · obtain rfl := Except.ok.inj h
      exact length_hex _
  simp [verifyTimeLockedProof, hlength, hissued, hexpires]

/-- **The inputs for which provers and verifiers agree**: the coefficient and the challenge can be
read, unless the balance is too small, and the range is a proper one, unless the balance is
outside. -/
theorem agree_iff (sha256 : JsString → Bytes 32) (numberText : JsNumber → JsString) (i : ProofInputs) :
    Agree sha256 numberText i ↔
      (i.AtLeast → (bigInt i.coefficient).isSome ∧ IsReadable (generateServerChallenge i.challenge)) ∧
        (i.InRange → i.ProperRange) := by
  rw [← isSome_bigInt_challenge_iff]
  constructor
  · exact fun h => ⟨fun hleast => (balance_agrees_iff hleast).mp (h.balance hleast), range_agrees_iff.mp h.range⟩
  · rintro ⟨hreadable, hproper⟩
    exact ⟨fun hleast => (balance_agrees_iff hleast).mpr (hreadable hleast), range_agrees_iff.mpr hproper,
      fun _ h _ => timeLocked_agrees h⟩

/-- A balance of 1000 that is at least 500, in a range of one value, with random bytes that are all
the same. -/
def thousand (b : Fin 256) : ProofInputs where
  balance := ascii "1000"
  coefficient := ascii "2"
  minAmount := ascii "500"
  minRange := ascii "1000"
  maxRange := ascii "1000"
  validitySeconds := none
  challenge := List.Vector.replicate 32 b
  witness := List.Vector.replicate 32 1
  nonce := List.Vector.replicate 16 1
  now := 0

theorem bigInt_thousand : bigInt (ascii "1000") = some 1000 ∧ bigInt (ascii "500") = some 500 := by decide +kernel

/-- **A challenge with letters** cannot be read, and the range of one value is refused: for the
first inputs no balance proof is made, and for the others the range proof is not accepted. -/
theorem not_agree_thousand :
    ¬ Agree (fun _ => List.Vector.replicate 32 0) (fun _ => []) { thousand 0xAB with maxRange := ascii "2000" } ∧
      ¬ Agree (fun _ => List.Vector.replicate 32 0) (fun _ => []) (thousand 0) := by
  constructor
  · intro h
    -- the letters of the challenge name no base
    have hread := (balance_agrees_iff ⟨1000, 500, bigInt_thousand.1, bigInt_thousand.2, by decide⟩).mp
      (h.balance ⟨1000, 500, bigInt_thousand.1, bigInt_thousand.2, by decide⟩)
    revert hread
    decide +kernel
  · intro h
    obtain ⟨minNum, maxNum, hmin, hmax, -, hlt⟩ := range_agrees_iff.mp h.range
      ⟨1000, 1000, 1000, bigInt_thousand.1, bigInt_thousand.1, bigInt_thousand.1, le_rfl, le_rfl⟩
    exact hlt.ne (Option.some.inj (hmin.symm.trans hmax))

end Privacy
