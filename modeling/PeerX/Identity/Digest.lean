import PeerX.Identity.Service

/-!
# Identity: a digest of tokens

The service stores the hashes of its refresh tokens, and relies on different tokens having different
hashes. The digest spells a token out, field by field. It stands for the hash in runs that are
computed, which are Alice's.
-/

namespace Identity

/-- A text between the fields of a digest: each letter is marked, and the end of the text, too. -/
def spell : List Char → List Char
  | [] => ['.']
  | c :: cs => '+' :: c :: spell cs

theorem spell_append_inj {xs ys l l' : List Char} (h : spell xs ++ l = spell ys ++ l') : xs = ys ∧ l = l' := by
  induction xs generalizing ys with
  | nil =>
    cases ys with
    | nil => exact ⟨rfl, (List.cons.inj h).2⟩
    | cons y ys => exact absurd (List.cons.inj h).1 (by decide)
  | cons x xs ih =>
    cases ys with
    | nil => exact absurd (List.cons.inj h).1 (by decide)
    | cons y ys =>
      obtain ⟨rfl, hrest⟩ := List.cons.inj (List.cons.inj h).2
      obtain ⟨rfl, hl⟩ := ih hrest
      exact ⟨rfl, hl⟩

/-- A time, counted with strokes. -/
def strokes : ℤ → List Char
  | .ofNat n => '+' :: List.replicate n '1'
  | .negSucc n => '-' :: List.replicate n '1'

theorem strokes_injective : Function.Injective strokes := by
  intro m n h
  cases m with
  | ofNat m =>
    cases n with
    | ofNat n => rw [show m = n by simpa using congrArg List.length (List.cons.inj h).2]
    | negSucc n => exact absurd (List.cons.inj h).1 (by decide)
  | negSucc m =>
    cases n with
    | ofNat n => exact absurd (List.cons.inj h).1 (by decide)
    | negSucc n => rw [show m = n by simpa using congrArg List.length (List.cons.inj h).2]

def TokenType.letter : TokenType → Char
  | .access => 'a'
  | .refresh => 'r'

theorem letter_injective : Function.Injective TokenType.letter := by
  intro type type' h
  cases type <;> cases type'
  all_goals first | rfl | cases h

/-- The fields of a payload. -/
def JwtPayload.spelled (payload : JwtPayload) : List Char :=
  spell payload.sub.toList ++ (spell payload.userId.toList ++ (spell payload.email.toList ++
    (spell payload.sessionId.toList ++ payload.type.letter :: strokes payload.exp)))

theorem spelled_injective : Function.Injective JwtPayload.spelled := by
  rintro ⟨sub, userId, email, sessionId, type, exp⟩ ⟨sub', userId', email', sessionId', type', exp'⟩ h
  obtain ⟨hsub, h⟩ := spell_append_inj h
  obtain ⟨huserId, h⟩ := spell_append_inj h
  obtain ⟨hemail, h⟩ := spell_append_inj h
  obtain ⟨hsessionId, h⟩ := spell_append_inj h
  obtain ⟨htype, hexp⟩ := List.cons.inj h
  obtain rfl : sub = sub' := String.toList_injective hsub
  obtain rfl : userId = userId' := String.toList_injective huserId
  obtain rfl : email = email' := String.toList_injective hemail
  obtain rfl : sessionId = sessionId' := String.toList_injective hsessionId
  obtain rfl : type = type' := letter_injective htype
  obtain rfl : exp = exp' := strokes_injective hexp
  rfl

def TokenText.digest : TokenText → String
  | .signed payload => String.ofList ('s' :: payload.spelled)
  | .other text => String.ofList ('o' :: text.toList)

/-- Different tokens have different digests. -/
theorem digest_injective : Function.Injective TokenText.digest := by
  intro token token' h
  cases token with
  | signed payload =>
    cases token' with
    | signed payload' => rw [spelled_injective (List.cons.inj (String.ofList_injective h)).2]
    | other text => exact absurd (List.cons.inj (String.ofList_injective h)).1 (by decide)
  | other text =>
    cases token' with
    | signed payload => exact absurd (List.cons.inj (String.ofList_injective h)).1 (by decide)
    | other text' => rw [String.toList_injective (List.cons.inj (String.ofList_injective h)).2]

/-- The settings of a service whose tokens live for twenty seconds; the hash of a password is the
password. -/
def spelledOut : AuthConfig where
  expiresIn := 10
  refreshExpiresIn := 20
  compare := fun password passwordHash => password = passwordHash
  hash := id
  hashToken := TokenText.digest
  verifyTotp := fun _ _ _ => false

/-- Alice's account. -/
def aliceAuth : Auth where
  id := "a"
  staffId := some "alice@peerx.io"
  email := "alice@peerx.io"
  passwordHash := "secret"
  status := .active

/-- Alice's profile. -/
def aliceUser : User where
  id := "u"
  authId := some "a"
  email := "alice@peerx.io"
  username := "alice"
  status := .active

/-- The refresh token that a call has issued at time zero. -/
def aliceRefreshToken (sessionId : String) : JwtPayload := tokenPayload aliceAuth aliceUser sessionId .refresh 20

/-- The tokens that a call at time zero issues. -/
def alicePair (sessionId : String) : TokenPair where
  accessToken := tokenPayload aliceAuth aliceUser sessionId .access 10
  refreshToken := .signed (aliceRefreshToken sessionId)

/-- Alice's account, from which nobody has logged in. -/
def aliceStart : AuthDb where
  auths := Relational.Table.save .empty aliceAuth
  sessions := .empty
  users := Relational.Table.save .empty aliceUser
  clock := 0

theorem hashes_aliceStart (a : String) : aliceStart.hashes a = [] := by
  by_cases ha : a = "a" <;> simp [AuthDb.hashes, aliceStart, Relational.Table.find_save, aliceAuth, ha]

end Identity
