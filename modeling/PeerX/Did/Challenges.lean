import PeerX.Foundations.Runs
import Mathlib.Logic.Embedding.Basic
import Mathlib.Logic.Function.Basic

/-!
# DID: challenges and signatures

A verification reads the document, checks the signature of its nonce, and saves the document without
the nonce. Between the read and the save, other calls may save theirs. A nonce that has been used is
never stored again, so it leads to a second session only if another verification had read it before
it was used.

## Main results

* `Sound.step`: what each step keeps
* `singleUse_step_iff`: what each step does to the sessions
* `singleUse_throughout_iff`: the interleavings in which each nonce is used once
-/

namespace DidAuth

open Concurrency

/-! ## The calls -/

structure DidDocument where
  userId : String
  did : String
  publicKey : Option String
  nonce : Option String
  nonceExpiry : Option ℤ
deriving DecidableEq

/-- An exception: a conflict, a refusal, or a query that failed. -/
inductive DidError where
  | conflict (message : String)
  | unauthorized (message : String)
  | queryFailed
deriving DecidableEq

/-- A call of the service. -/
inductive DidCall where
  | registerDid (did publicKey : String)
  | generateChallenge (did : String)
  | verifySignature (did signature : String)
deriving DecidableEq

def DidCall.did : DidCall → String
  | .registerDid did _ => did
  | .generateChallenge did => did
  | .verifySignature did _ => did

/-- Where a call is: before its query, before it saves the document, or done. -/
inductive Phase where
  | called
  | registering (doc : DidDocument)
  | challenging (doc : DidDocument) (stored : Bool)
  | checked (doc : DidDocument)
  | registered (doc : DidDocument)
  | challenged (nonce : String)
  | authenticated (nonce userId : String)
  | rejected (error : DidError)
deriving DecidableEq

/-- What the calls rely on. The nonces of different calls are different, and a signature has the
address of its signer for one message only. -/
structure Environment (ι : Type) where
  nonce : ι ↪ String
  nonce_ne_empty : ∀ i, nonce i ≠ ""
  randomUUID : ι → String
  verifyMessage : String → String → Option String
  verifyMessage_unique : ∀ message message' signature address address',
    verifyMessage message signature = some address →
    verifyMessage message' signature = some address' → address.toLower = address'.toLower →
      message = message'

/-- `did.split(':').pop()`. -/
def addressOf (did : String) : String :=
  String.ofList (did.toList.reverse.takeWhile fun c => c ≠ ':').reverse

/-- Five minutes, in milliseconds. -/
def challengeTime : ℤ := 5 * 60 * 1000

variable {ι : Type} (env : Environment ι)

/-- The signature recovers the address of the DID. -/
def recovers (did signature nonce : String) : Bool :=
  addressOf did ≠ "" && (env.verifyMessage nonce signature).any fun recoveredAddress =>
    recoveredAddress.toLower = (addressOf did).toLower

/-- `verifySignature`, from the query to the save. -/
def checkSignature (did signature : String) (now : ℤ) :
    Option DidDocument → Except DidError DidDocument
  | none => .error (.unauthorized "Challenge not requested or expired")
  | some doc =>
    match doc.nonce.filter (fun nonce => nonce ≠ ""), doc.nonceExpiry with
    | some nonce, some nonceExpiry =>
      if nonceExpiry < now then .error (.unauthorized "Challenge expired")
      else if recovers env did signature nonce then .ok doc
      else .error (.unauthorized "Signature verification failed")
    | _, _ => .error (.unauthorized "Challenge not requested or expired")

/-- `generateChallenge`, from the query to the save. -/
def withChallenge (i : ι) (did : String) (now : ℤ) (doc : Option DidDocument) : DidDocument :=
  { doc.getD ⟨env.randomUUID i, did, none, none, none⟩ with
    nonce := some (env.nonce i), nonceExpiry := some (now + challengeTime) }

/-- What a call does with the document that it reads. -/
def afterFindOne (i : ι) (now : ℤ) (doc : Option DidDocument) : DidCall → Phase
  | .registerDid did publicKey =>
    match doc with
    | some _ => .rejected (.conflict ("DID '" ++ did ++ "' is already registered"))
    | none => .registering ⟨env.randomUUID i, did, some publicKey, none, none⟩
  | .generateChallenge did => .challenging (withChallenge env i did now doc) doc.isSome
  | .verifySignature did signature =>
    match checkSignature env did signature now doc with
    | .ok doc => .checked doc
    | .error e => .rejected e

/-- The table of the documents, by their unique DIDs, and the calls. -/
structure DidState (ι : Type) where
  docs : String → Option DidDocument
  phases : ι → Phase

/-- A step: the query of a call, and the clock after it, or the save, which the database may
fail. -/
inductive DidStep (ι : Type) where
  | findOne (i : ι) (now : ℤ)
  | save (i : ι) (ok : Bool)

variable [DecidableEq ι]

/-- A document is saved, and its call goes on. -/
def DidState.saved (s : DidState ι) (i : ι) (doc : DidDocument) (phase : Phase) : DidState ι where
  docs := Function.update s.docs doc.did (some doc)
  phases := Function.update s.phases i phase

/-- A call goes on. -/
def DidState.goes (s : DidState ι) (i : ι) (phase : Phase) : DidState ι :=
  { s with phases := Function.update s.phases i phase }

variable (calls : ι → DidCall)

/-- The steps of the calls. A new document is refused if there is one of the same DID. A failed
save of `verifySignature` is caught. -/
def didStep (s : DidState ι) : DidStep ι → DidState ι
  | .findOne i now =>
    match s.phases i with
    | .called => s.goes i (afterFindOne env i now (s.docs (calls i).did) (calls i))
    | _ => s
  | .save i ok =>
    match s.phases i with
    | .registering doc =>
      if ok ∧ s.docs doc.did = none then s.saved i doc (.registered doc)
        else s.goes i (.rejected .queryFailed)
    | .challenging doc stored =>
      if ok ∧ (stored ∨ s.docs doc.did = none) then s.saved i doc (.challenged (env.nonce i))
      else s.goes i (.rejected .queryFailed)
    | .checked doc =>
      if ok then s.saved i { doc with nonce := some "", nonceExpiry := none }
        (.authenticated (doc.nonce.getD "") doc.userId)
      else s.goes i (.rejected (.unauthorized "Signature verification failed"))
    | _ => s

/-! ## What is watched -/

/-- The calls, and what is watched: the challenge of each DID that was saved last, the one that
was when a call read, the clock of each call after its query, and the verifications whose nonce
another one has used since they read it. -/
structure Watched (ι : Type) where
  service : DidState ι
  latest : String → Option ι
  readLatest : ι → Option ι
  time : ι → ℤ
  overtaken : ι → Bool

/-- A call has read this nonce and is going to use it. -/
def Phase.holds (nonce : Option String) : Phase → Bool
  | .checked doc => doc.nonce = nonce
  | _ => false

/-- **One step.** -/
def step (w : Watched ι) (e : DidStep ι) : Watched ι :=
  let w' := { w with service := didStep env calls w.service e }
  match e with
  | .findOne i now =>
    if w.service.phases i = .called then
      { w' with
        readLatest := Function.update w.readLatest i (w.latest (calls i).did)
        time := Function.update w.time i now
        overtaken := Function.update w.overtaken i false }
    else w'
  | .save i ok =>
    match w.service.phases i with
    | .challenging doc stored =>
      if ok ∧ (stored ∨ w.service.docs doc.did = none) then
        { w' with latest := Function.update w.latest doc.did (some i) }
      else w'
    | .checked doc =>
      if ok then
        { w' with overtaken := fun j => w.overtaken j || (w.service.phases j).holds doc.nonce }
      else w'
    | _ => w'

/-- The calls, on an empty table. -/
def Watched.start : Watched ι where
  service := ⟨fun _ => none, fun _ => .called⟩
  latest := fun _ => none
  readLatest := fun _ => none
  time := fun _ => 0
  overtaken := fun _ => false

/-- A nonce is used once, in time. Different sessions have different nonces and, for one DID,
different signatures. The nonce of a session is that of the challenge that was saved last before the
document was read, and it had not expired when it was checked. -/
structure SingleUse (w : Watched ι) : Prop where
  once : ∀ i j nonce userId userId', w.service.phases i = .authenticated nonce userId →
    w.service.phases j = .authenticated nonce userId' → i = j
  signature : ∀ i j did signature nonce nonce' userId userId',
    calls i = .verifySignature did signature →
    calls j = .verifySignature did signature → w.service.phases i = .authenticated nonce userId →
      w.service.phases j = .authenticated nonce' userId' → i = j
  latest : ∀ i nonce userId, w.service.phases i = .authenticated nonce userId →
    ∃ c, w.readLatest i = some c ∧ calls c = .generateChallenge (calls i).did ∧
      nonce = env.nonce c ∧
      w.time i ≤ w.time c + challengeTime

/-- No other verification has used the nonce since it was read. -/
def Alone (w : Watched ι) : DidStep ι → Prop
  | .findOne _ _ => True
  | .save i ok => ok → ∀ doc, w.service.phases i = .checked doc → w.overtaken i = false

/-! ## What the steps keep -/

/-- A challenge of the DID that has been saved. -/
def Issued (w : Watched ι) (did : String) (c : ι) : Prop :=
  w.service.phases c = .challenged (env.nonce c) ∧ calls c = .generateChallenge did

/-- A nonce that has led to a session. -/
def Used (w : Watched ι) (nonce : String) : Prop :=
  ∃ j userId, w.service.phases j = .authenticated nonce userId

/-- A stored document has the nonce of the latest challenge, which has not been used, or
none. -/
structure CurrentDoc (w : Watched ι) (did : String) (doc : DidDocument) : Prop where
  did_eq : doc.did = did
  nonce : ∀ nonce, doc.nonce = some nonce → nonce ≠ "" → ∃ c, w.latest did = some c ∧
    nonce = env.nonce c ∧
    doc.nonceExpiry = some (w.time c + challengeTime) ∧ ¬ Used w nonce

/-- What a verification has read and checked. -/
structure Verified (w : Watched ι) (i : ι) (did nonce : String) (c : ι) : Prop where
  readLatest : w.readLatest i = some c
  issued : Issued env calls w did c
  nonce_eq : nonce = env.nonce c
  in_time : w.time i ≤ w.time c + challengeTime
  signed : ∃ signature, calls i = .verifySignature did signature ∧ recovers env did signature nonce

/-- What holds of a call in its phase. -/
def PhaseOk (w : Watched ι) (i : ι) : Phase → Prop
  | .registering doc => doc.nonce = none
  | .challenging doc _ => calls i = .generateChallenge doc.did ∧ doc.nonce = some (env.nonce i) ∧
      doc.nonceExpiry = some (w.time i + challengeTime)
  | .checked doc => ∃ nonce c, doc.nonce = some nonce ∧ Verified env calls w i doc.did nonce c ∧
      (w.overtaken i ↔ Used w nonce)
  | .authenticated nonce _ => ∃ did c, Verified env calls w i did nonce c
  | _ => True

/-- What the steps keep. -/
structure Sound (w : Watched ι) : Prop where
  docs : ∀ did doc, w.service.docs did = some doc → CurrentDoc env w did doc
  latest : ∀ did c, w.latest did = some c → Issued env calls w did c
  phases : ∀ i, PhaseOk env calls w i (w.service.phases i)

/-- A call that is going to change its phase. -/
def Phase.Pending : Phase → Prop
  | .challenged _ => False
  | .authenticated _ _ => False
  | _ => True

/-- A call that has not just led to a session. -/
def Phase.NoSession : Phase → Prop
  | .authenticated _ _ => False
  | _ => True

variable {env calls} {w w' : Watched ι} {i j c : ι} {did nonce : String} {p : Phase}

omit [DecidableEq ι] in
theorem Sound.start : Sound env calls (Watched.start : Watched ι) where
  docs := by simp [Watched.start]
  latest := by simp [Watched.start]
  phases := fun _ => trivial

/-! ### Steps without a session -/

/-- A call goes on without a session: what the other calls have is kept. -/
structure Advances (w w' : Watched ι) (i : ι) (p : Phase) : Prop where
  pending : (w.service.phases i).Pending
  noSession : p.NoSession
  phases_eq : w'.service.phases = Function.update w.service.phases i p
  readLatest_eq : ∀ j, j ≠ i → w'.readLatest j = w.readLatest j
  time_eq : ∀ j, j ≠ i → w'.time j = w.time j
  overtaken_eq : ∀ j, j ≠ i → w'.overtaken j = w.overtaken j

namespace Advances

theorem phase_of_ne (h : Advances w w' i p) (hj : j ≠ i) :
    w'.service.phases j = w.service.phases j := by
  rw [h.phases_eq, Function.update_of_ne hj]

theorem authenticated_iff (h : Advances w w' i p) (j : ι) (nonce userId : String) :
    w'.service.phases j = .authenticated nonce userId ↔
      w.service.phases j = .authenticated nonce userId := by
  by_cases hj : j = i
  · subst hj
    rw [h.phases_eq, Function.update_self]
    have hnoSession := h.noSession
    have hpending := h.pending
    constructor
    · intro hp
      rw [hp] at hnoSession
      exact hnoSession.elim
    · intro hphase
      rw [hphase] at hpending
      exact hpending.elim
  · rw [h.phase_of_ne hj]

theorem used_iff (h : Advances w w' i p) (nonce : String) : Used w' nonce ↔ Used w nonce := by
  simp only [Used, h.authenticated_iff]

theorem ne_of_issued (h : Advances w w' i p) (hc : Issued env calls w did c) : c ≠ i := by
  rintro rfl
  have hpending := h.pending
  rw [hc.1] at hpending
  exact hpending

theorem issued (h : Advances w w' i p) (hc : Issued env calls w did c) :
    Issued env calls w' did c := by
  refine ⟨?_, hc.2⟩
  rw [h.phase_of_ne (h.ne_of_issued hc)]
  exact hc.1

theorem verified (h : Advances w w' i p) (hj : j ≠ i) (hv : Verified env calls w j did nonce c) :
    Verified env calls w' j did nonce c where
  readLatest := by rw [h.readLatest_eq j hj, hv.readLatest]
  issued := h.issued hv.issued
  nonce_eq := hv.nonce_eq
  in_time := by
    rw [h.time_eq j hj, h.time_eq c (h.ne_of_issued hv.issued)]
    exact hv.in_time
  signed := hv.signed

theorem phaseOk (h : Advances w w' i p) (hj : j ≠ i) {q : Phase} (hq : PhaseOk env calls w j q) :
    PhaseOk env calls w' j q := by
  cases q with
  | challenging doc stored =>
    obtain ⟨hcall, hnonce, hexpiry⟩ := hq
    refine ⟨hcall, hnonce, ?_⟩
    rw [h.time_eq j hj]
    exact hexpiry
  | checked doc =>
    obtain ⟨nonce, c, hnonce, hv, hover⟩ := hq
    refine ⟨nonce, c, hnonce, h.verified hj hv, ?_⟩
    rw [h.overtaken_eq j hj, h.used_iff]
    exact hover
  | authenticated nonce userId =>
    obtain ⟨did, c, hv⟩ := hq
    exact ⟨did, c, h.verified hj hv⟩
  | _ => exact hq

theorem currentDoc (h : Advances w w' i p) (hs : Sound env calls w) {doc : DidDocument}
    (hlatest : w'.latest did = w.latest did) (hdoc : CurrentDoc env w did doc) :
    CurrentDoc env w' did doc where
  did_eq := hdoc.did_eq
  nonce := by
    intro nonce hnonce hne
    obtain ⟨c, hc, heq, hexpiry, hunused⟩ := hdoc.nonce nonce hnonce hne
    refine ⟨c, hlatest.trans hc, heq, ?_, mt (h.used_iff nonce).mp hunused⟩
    rw [h.time_eq c (h.ne_of_issued (hs.latest did c hc))]
    exact hexpiry

/-- A step without a session keeps what holds, if its own document, challenge and call are as
they should be. -/
theorem sound (h : Advances w w' i p) (hs : Sound env calls w)
    (hdocs : ∀ did doc, w'.service.docs did = some doc →
      w.service.docs did = some doc ∧ w'.latest did = w.latest did ∨ CurrentDoc env w' did doc)
    (hlatest : ∀ did c, w'.latest did = some c → w.latest did = some c ∨ Issued env calls w' did c)
    (hi : PhaseOk env calls w' i p) : Sound env calls w' where
  docs := by
    intro did doc hdoc
    rcases hdocs did doc hdoc with ⟨hbefore, hsame⟩ | hafter
    · -- a document that the step has not written
      exact h.currentDoc hs hsame (hs.docs did doc hbefore)
    · exact hafter
  latest := by
    intro did c hc
    rcases hlatest did c hc with hbefore | hafter
    · exact h.issued (hs.latest did c hbefore)
    · exact hafter
  phases := by
    intro j
    by_cases hj : j = i
    · rw [hj, h.phases_eq, Function.update_self]
      exact hi
    · rw [h.phase_of_ne hj]
      exact h.phaseOk hj (hs.phases j)

end Advances

omit [DecidableEq ι] in
theorem noSession_afterFindOne (i : ι) (now : ℤ) (doc : Option DidDocument) (call : DidCall) :
    (afterFindOne env i now doc call).NoSession := by
  cases call with
  | registerDid did publicKey => cases doc <;> exact trivial
  | generateChallenge did => exact trivial
  | verifySignature did signature =>
    rw [afterFindOne]
    split <;> exact trivial

omit [DecidableEq ι] in
/-- A signature that passes the check: it is one of the nonce of the document, which has not
expired. -/
theorem checkSignature_eq_ok {signature : String} {now : ℤ} {found : Option DidDocument}
    {doc : DidDocument} (h : checkSignature env did signature now found = .ok doc) :
    found = some doc ∧ ∃ nonce nonceExpiry, doc.nonce = some nonce ∧ nonce ≠ "" ∧
    doc.nonceExpiry = some nonceExpiry ∧
      now ≤ nonceExpiry ∧ recovers env did signature nonce := by
  cases found with
  | none => cases h
  | some found =>
    rw [checkSignature] at h
    split at h
    next nonce nonceExpiry hnonce hexpiry =>
      split at h
      · cases h
      next hnow =>
        split at h
        next hrecovers =>
          obtain rfl := Except.ok.inj h
          obtain ⟨hsome, hne⟩ := Option.filter_eq_some_iff.mp hnonce
          exact ⟨rfl, nonce, nonceExpiry, hsome, of_decide_eq_true hne, hexpiry,
            Int.not_lt.mp hnow, hrecovers⟩
        · cases h
    · cases h

theorem advances_findOne (hphase : w.service.phases i = .called) (now : ℤ) :
    Advances w (step env calls w (.findOne i now)) i
      (afterFindOne env i now (w.service.docs (calls i).did) (calls i)) where
  pending := by rw [hphase]; exact trivial
  noSession := noSession_afterFindOne _ _ _ _
  phases_eq := by simp [step, didStep, hphase, DidState.goes]
  readLatest_eq := fun j hj => by simp [step, hphase, hj]
  time_eq := fun j hj => by simp [step, hphase, hj]
  overtaken_eq := fun j hj => by simp [step, hphase, hj]

theorem sound_findOne (hs : Sound env calls w) (hphase : w.service.phases i = .called) (now : ℤ) :
    Sound env calls (step env calls w (.findOne i now)) := by
  have hadvances : Advances w (step env calls w (.findOne i now)) i _ := advances_findOne hphase now
  set w' := step env calls w (.findOne i now) with hw'
  have hdocs : w'.service.docs = w.service.docs := by
    simp [hw', step, didStep, hphase, DidState.goes]
  have hlatest : w'.latest = w.latest := by simp [hw', step, hphase]
  have hread : w'.readLatest i = w.latest (calls i).did := by simp [hw', step, hphase]
  have htime : w'.time i = now := by simp [hw', step, hphase]
  have hover : w'.overtaken i = false := by simp [hw', step, hphase]
  apply hadvances.sound hs
  · intro did doc hdoc
    exact .inl ⟨hdocs ▸ hdoc, by rw [hlatest]⟩
  · intro did c hc
    exact .inl (hlatest ▸ hc)
  cases hcall : calls i with
  | registerDid did publicKey =>
    cases w.service.docs (DidCall.registerDid did publicKey).did with
    | none => exact rfl
    | some doc => exact trivial
  | generateChallenge did =>
    have hdid : (withChallenge env i did now (w.service.docs did)).did = did := by
      cases hdoc : w.service.docs did with
      | none => rfl
      | some doc => exact (hs.docs did doc hdoc).did_eq
    refine ⟨?_, rfl, ?_⟩
    · rw [hcall]
      exact congrArg DidCall.generateChallenge hdid.symm
    · rw [htime]
      rfl
  | verifySignature did signature =>
    cases hcheck : checkSignature env did signature now (w.service.docs did) with
    | error e => simp only [afterFindOne, DidCall.did, hcheck]; exact trivial
    | ok doc =>
      simp only [afterFindOne, DidCall.did, hcheck]
      obtain ⟨hdoc, nonce, nonceExpiry, hnonce, hne, hexpiry, hnow, hrecovers⟩ :=
        checkSignature_eq_ok hcheck
      have hcurrent := hs.docs did doc hdoc
      obtain ⟨c, hc, heq, hexpiry', hunused⟩ := hcurrent.nonce nonce hnonce hne
      have hissued := hs.latest did c hc
      have hdid := hcurrent.did_eq
      refine ⟨nonce, c, hnonce, ⟨?_, ?_, heq, ?_, signature, ?_, ?_⟩, ?_⟩
      · rw [hread, hcall]
        exact hc
      · rw [hdid]
        exact hadvances.issued hissued
      · rw [htime, hadvances.time_eq c (hadvances.ne_of_issued hissued)]
        have hsame := Option.some.inj (hexpiry.symm.trans hexpiry')
        omega
      · rw [hcall, hdid]
      · rwa [hdid]
      · -- nobody has used the nonce yet, as it is still stored
        rw [hover, hadvances.used_iff]
        exact iff_of_false Bool.false_ne_true hunused

theorem advances_rejected {error : DidError} (hpending : (w.service.phases i).Pending)
    (hstep : w' = { w with service := w.service.goes i (.rejected error) }) :
    Advances w w' i (.rejected error) where
  pending := hpending
  noSession := trivial
  phases_eq := by rw [hstep]; rfl
  readLatest_eq := fun _ _ => by rw [hstep]
  time_eq := fun _ _ => by rw [hstep]
  overtaken_eq := fun _ _ => by rw [hstep]

theorem sound_rejected {error : DidError} (hs : Sound env calls w)
    (hpending : (w.service.phases i).Pending)
    (hstep : w' = { w with service := w.service.goes i (.rejected error) }) :
    Sound env calls w' := by
  apply (advances_rejected hpending hstep).sound hs
  · rintro did doc hdoc
    rw [hstep] at hdoc ⊢
    exact .inl ⟨hdoc, rfl⟩
  · rintro did c hc
    rw [hstep] at hc
    exact .inl hc
  · exact trivial

theorem sound_registered (hs : Sound env calls w) {doc : DidDocument}
    (hphase : w.service.phases i = .registering doc)
    (hstep : w' = { w with service := w.service.saved i doc (.registered doc) }) :
    Advances w w' i (.registered doc) ∧ Sound env calls w' := by
  have hadvances : Advances w w' i (.registered doc) := by
    refine ⟨by rw [hphase]; exact trivial, trivial, ?_, ?_, ?_, ?_⟩
    · rw [hstep]
      rfl
    all_goals exact fun _ _ => by rw [hstep]
  refine ⟨hadvances, hadvances.sound hs ?_ ?_ trivial⟩
  · intro did found hfound
    have hnonce := hs.phases i
    rw [hphase] at hnonce
    rw [hstep] at hfound ⊢
    by_cases hdid : did = doc.did
    · right
      subst hdid
      obtain rfl : doc = found := by simpa [DidState.saved] using hfound
      refine ⟨rfl, fun nonce hsome => ?_⟩
      rw [show doc.nonce = none from hnonce] at hsome
      contradiction
    · left
      exact ⟨by simpa [DidState.saved, hdid] using hfound, rfl⟩
  · intro did c hc
    rw [hstep] at hc
    exact .inl hc

/-- A challenge that is saved is the latest one, and its nonce has not been used. -/
theorem sound_challenged (hs : Sound env calls w) {doc : DidDocument} {stored : Bool}
    (hphase : w.service.phases i = .challenging doc stored)
    (hstep : w' = { w with
      service := w.service.saved i doc (.challenged (env.nonce i))
      latest := Function.update w.latest doc.did (some i) }) :
    Advances w w' i (.challenged (env.nonce i)) ∧ Sound env calls w' := by
  have hadvances : Advances w w' i (.challenged (env.nonce i)) := by
    refine ⟨by rw [hphase]; exact trivial, trivial, ?_, ?_, ?_, ?_⟩
    · rw [hstep]
      rfl
    all_goals exact fun _ _ => by rw [hstep]
  obtain ⟨hcall, hnonce, hexpiry⟩ : PhaseOk env calls w i (.challenging doc stored) :=
    hphase ▸ hs.phases i
  have hissued : Issued env calls w' doc.did i := by
    refine ⟨?_, hcall⟩
    rw [hadvances.phases_eq, Function.update_self]
  -- a nonce that has been used is that of a challenge that was saved before
  have hunused : ¬ Used w (env.nonce i) := by
    rintro ⟨j, userId, hj⟩
    obtain ⟨did, c, hv⟩ : PhaseOk env calls w j (.authenticated (env.nonce i) userId) :=
      hj ▸ hs.phases j
    obtain rfl := env.nonce.injective hv.nonce_eq
    have hsaved := hv.issued.1
    rw [hphase] at hsaved
    contradiction
  refine ⟨hadvances, hadvances.sound hs ?_ ?_ trivial⟩
  · intro did found hfound
    by_cases hdid : did = doc.did
    · right
      subst hdid
      obtain rfl : doc = found := by simpa [hstep, DidState.saved] using hfound
      refine ⟨rfl, fun nonce hsome _ => ⟨i, ?_, ?_, ?_, ?_⟩⟩
      · rw [hstep]
        exact Function.update_self _ _ _
      · exact Option.some.inj (hsome.symm.trans hnonce)
      · rw [hexpiry, hstep]
      · rw [hadvances.used_iff, Option.some.inj (hsome.symm.trans hnonce)]
        exact hunused
    · left
      rw [hstep] at hfound ⊢
      exact ⟨by simpa [DidState.saved, hdid] using hfound, Function.update_of_ne hdid _ _⟩
  · intro did c hc
    by_cases hdid : did = doc.did
    · subst hdid
      obtain rfl : i = c := by simpa [hstep] using hc
      exact .inr hissued
    · rw [hstep] at hc
      exact .inl ((Function.update_of_ne hdid _ _).symm.trans hc)

/-! ### Sessions -/

/-- The step of a verification that leads to a session. -/
structure Opens (w w' : Watched ι) (i : ι) (doc : DidDocument) (nonce : String) : Prop where
  checked : w.service.phases i = .checked doc
  nonce_eq : doc.nonce = some nonce
  eq : w' = { w with
    service := w.service.saved i { doc with nonce := some "", nonceExpiry := none }
      (.authenticated nonce doc.userId)
    overtaken := fun j => w.overtaken j || (w.service.phases j).holds doc.nonce }

namespace Opens

variable {doc : DidDocument}

theorem phase_self (h : Opens w w' i doc nonce) :
    w'.service.phases i = .authenticated nonce doc.userId := by
  rw [h.eq]
  exact Function.update_self _ _ _

theorem phase_of_ne (h : Opens w w' i doc nonce) (hj : j ≠ i) :
    w'.service.phases j = w.service.phases j := by
  rw [h.eq]
  exact Function.update_of_ne hj _ _

theorem used_iff (h : Opens w w' i doc nonce) (other : String) : Used w' other ↔
    Used w other ∨ other = nonce := by
  constructor
  · rintro ⟨j, userId, hj⟩
    by_cases hji : j = i
    · subst hji
      rw [h.phase_self] at hj
      exact .inr (Phase.authenticated.inj hj).1.symm
    · exact .inl ⟨j, userId, (h.phase_of_ne hji) ▸ hj⟩
  · rintro (⟨j, userId, hj⟩ | rfl)
    · have hji : j ≠ i := by
        rintro rfl
        rw [h.checked] at hj
        contradiction
      exact ⟨j, userId, by rw [h.phase_of_ne hji, hj]⟩
    · exact ⟨i, doc.userId, h.phase_self⟩

theorem issued (h : Opens w w' i doc nonce) (hc : Issued env calls w did c) :
    Issued env calls w' did c := by
  refine ⟨?_, hc.2⟩
  have hci : c ≠ i := by
    rintro rfl
    have hsaved := hc.1
    rw [h.checked] at hsaved
    contradiction
  rw [h.phase_of_ne hci]
  exact hc.1

theorem verified (h : Opens w w' i doc nonce) {other : String}
    (hv : Verified env calls w j did other c) :
    Verified env calls w' j did other c := by
  have hissued := h.issued hv.issued
  obtain ⟨hread, -, heq, htime, hsigned⟩ := hv
  refine ⟨?_, hissued, heq, ?_, hsigned⟩ <;> rw [h.eq]
  · exact hread
  · exact htime

theorem did_eq (h : Opens w w' i doc nonce) (hs : Sound env calls w) (hc : Issued env calls w did c)
    (heq : env.nonce c = nonce) : did = doc.did := by
  obtain ⟨other, c', hother, hv, -⟩ : PhaseOk env calls w i (.checked doc) :=
    h.checked ▸ hs.phases i
  obtain rfl : nonce = other := Option.some.inj (h.nonce_eq.symm.trans hother)
  obtain rfl : c = c' := env.nonce.injective (heq.trans hv.nonce_eq)
  exact DidCall.generateChallenge.inj (hc.2.symm.trans hv.issued.2)

/-- The nonce of a session is no longer stored, and those who hold it are overtaken. -/
theorem sound (h : Opens w w' i doc nonce) (hs : Sound env calls w) : Sound env calls w' where
  docs := by
    intro did found hfound
    have hlatest : w'.latest = w.latest := by rw [h.eq]
    have htime : w'.time = w.time := by rw [h.eq]
    by_cases hdid : did = doc.did
    · subst hdid
      have hemptied : { doc with nonce := some "", nonceExpiry := none } = found := by
        simpa [h.eq, DidState.saved] using hfound
      subst hemptied
      exact ⟨rfl, fun nonce hsome hne => absurd (Option.some.inj hsome).symm hne⟩
    · have hbefore : w.service.docs did = some found := by
        simpa [h.eq, DidState.saved, hdid] using hfound
      obtain ⟨hfounddid, hcurrent⟩ := hs.docs did found hbefore
      refine ⟨hfounddid, fun other hsome hne => ?_⟩
      obtain ⟨c, hc, heq, hexpiry, hunused⟩ := hcurrent other hsome hne
      refine ⟨c, by rw [hlatest, hc], heq, by rw [htime, hexpiry], ?_⟩
      rw [h.used_iff]
      rintro (hused | hsame)
      · exact hunused hused
      · exact hdid (h.did_eq hs (hs.latest did c hc) (heq.symm.trans hsame))
  latest := by
    intro did c hc
    refine h.issued (hs.latest did c ?_)
    rwa [h.eq] at hc
  phases := by
    intro j
    by_cases hji : j = i
    · subst hji
      obtain ⟨other, c, hother, hv, -⟩ : PhaseOk env calls w j (.checked doc) :=
        h.checked ▸ hs.phases j
      obtain rfl : nonce = other := Option.some.inj (h.nonce_eq.symm.trans hother)
      rw [h.phase_self]
      exact ⟨doc.did, c, h.verified hv⟩
    · have hbefore := hs.phases j
      rw [h.phase_of_ne hji]
      cases hphase : w.service.phases j with
      | challenging found stored =>
        rw [hphase] at hbefore
        rw [h.eq]
        exact hbefore
      | checked found =>
        rw [hphase] at hbefore
        obtain ⟨other, c, hother, hv, hover⟩ := hbefore
        refine ⟨other, c, hother, h.verified hv, ?_⟩
        rw [h.used_iff, ← hover, h.eq]
        simp [hphase, Phase.holds, hother, h.nonce_eq]
      | authenticated other userId =>
        rw [hphase] at hbefore
        obtain ⟨did, c, hv⟩ := hbefore
        exact ⟨did, c, h.verified hv⟩
      | _ =>
        rw [hphase] at hbefore
        exact hbefore

end Opens

/-! ## Every interleaving -/

omit [DecidableEq ι] in
theorem alone_save (hphase : ∀ doc, w.service.phases i ≠ .checked doc) (ok : Bool) :
    Alone w (.save i ok) := by
  intro _ doc hchecked
  exact absurd hchecked (hphase doc)

/-- The save of a registration goes on without a session: the document is saved, or the call is
rejected. -/
theorem save_registering (hs : Sound env calls w) {doc : DidDocument}
    (hphase : w.service.phases i = .registering doc)
    (ok : Bool) :
    (∃ p, Advances w (step env calls w (.save i ok)) i p) ∧
    Sound env calls (step env calls w (.save i ok)) := by
  have hpending : (w.service.phases i).Pending := by
    rw [hphase]
    exact trivial
  by_cases hnew : ok ∧ w.service.docs doc.did = none
  · have hstep : step env calls w (.save i ok) =
        { w with service := w.service.saved i doc (.registered doc) } := by
      simp only [step, didStep, hphase, if_pos hnew]
    obtain ⟨hadvances, hsound⟩ := sound_registered hs hphase hstep
    exact ⟨⟨_, hadvances⟩, hsound⟩
  · have hstep : step env calls w (.save i ok) =
        { w with service := w.service.goes i (.rejected .queryFailed) } := by
      simp only [step, didStep, hphase, if_neg hnew]
    exact ⟨⟨_, advances_rejected hpending hstep⟩, sound_rejected hs hpending hstep⟩

/-- The save of a challenge goes on without a session. It is the latest of its DID from then on. -/
theorem save_challenging (hs : Sound env calls w) {doc : DidDocument} {stored : Bool}
    (hphase : w.service.phases i = .challenging doc stored) (ok : Bool) :
    (∃ p, Advances w (step env calls w (.save i ok)) i p) ∧
    Sound env calls (step env calls w (.save i ok)) := by
  have hpending : (w.service.phases i).Pending := by
    rw [hphase]
    exact trivial
  by_cases hsaved : ok ∧ (stored ∨ w.service.docs doc.did = none)
  · have hstep : step env calls w (.save i ok) = { w with
        service := w.service.saved i doc (.challenged (env.nonce i))
        latest := Function.update w.latest doc.did (some i) } := by
      simp only [step, didStep, hphase, if_pos hsaved]
    obtain ⟨hadvances, hsound⟩ := sound_challenged hs hphase hstep
    exact ⟨⟨_, hadvances⟩, hsound⟩
  · have hstep : step env calls w (.save i ok) =
        { w with service := w.service.goes i (.rejected .queryFailed) } := by
      simp only [step, didStep, hphase, if_neg hsaved]
    exact ⟨⟨_, advances_rejected hpending hstep⟩, sound_rejected hs hpending hstep⟩

/-- The save of a verification that fails is caught: there is no session. -/
theorem save_checked_failed (hs : Sound env calls w) {doc : DidDocument}
    (hphase : w.service.phases i = .checked doc) :
    (∃ p, Advances w (step env calls w (.save i false)) i p) ∧
    Sound env calls (step env calls w (.save i false)) := by
  have hpending : (w.service.phases i).Pending := by
    rw [hphase]
    exact trivial
  have hstep : step env calls w (.save i false) = { w with
      service := w.service.goes i
        (.rejected (.unauthorized "Signature verification failed")) } := by
    simp only [step, didStep, hphase, Bool.false_eq_true, if_false]
  exact ⟨⟨_, advances_rejected hpending hstep⟩, sound_rejected hs hpending hstep⟩

/-- The save of a verification opens a session for the nonce that was read. -/
theorem opens_of_checked (hs : Sound env calls w) {doc : DidDocument}
    (hphase : w.service.phases i = .checked doc) :
    ∃ nonce, Opens w (step env calls w (.save i true)) i doc nonce := by
  obtain ⟨nonce, c, hnonce, -⟩ : PhaseOk env calls w i (.checked doc) := hphase ▸ hs.phases i
  refine ⟨nonce, hphase, hnonce, ?_⟩
  simp only [step, didStep, hphase, if_true, hnonce, Option.getD_some]

theorem step_findOne_of_not_called (hphase : w.service.phases i ≠ .called) (now : ℤ) :
    step env calls w (.findOne i now) = w := by
  have hservice : didStep env calls w.service (.findOne i now) = w.service := by
    rw [didStep]
    split
    next hcalled => exact absurd hcalled hphase
    next => rfl
  simp only [step, hphase, if_false, hservice]

/-- What a step does: nothing, something without a session, or a session. -/
theorem step_cases (hs : Sound env calls w) (e : DidStep ι) :
    step env calls w e = w ∧ Alone w e ∨
      (∃ i p, Advances w (step env calls w e) i p) ∧
      Sound env calls (step env calls w e) ∧ Alone w e ∨
        ∃ i doc nonce, e = .save i true ∧ Opens w (step env calls w e) i doc nonce := by
  cases e with
  | findOne i now =>
    by_cases hphase : w.service.phases i = .called
    · exact .inr (.inl ⟨⟨i, _, advances_findOne hphase now⟩, sound_findOne hs hphase now, trivial⟩)
    · exact .inl ⟨step_findOne_of_not_called hphase now, trivial⟩
  | save i ok =>
    cases hphase : w.service.phases i with
    | registering doc =>
      obtain ⟨hadvances, hsound⟩ := save_registering hs hphase ok
      exact .inr (.inl ⟨⟨i, hadvances⟩, hsound, alone_save (by simp [hphase]) ok⟩)
    | challenging doc stored =>
      obtain ⟨hadvances, hsound⟩ := save_challenging hs hphase ok
      exact .inr (.inl ⟨⟨i, hadvances⟩, hsound, alone_save (by simp [hphase]) ok⟩)
    | checked doc =>
      cases ok with
      | false =>
        obtain ⟨hadvances, hsound⟩ := save_checked_failed hs hphase
        exact .inr (.inl ⟨⟨i, hadvances⟩, hsound, fun hok => absurd hok Bool.false_ne_true⟩)
      | true =>
        obtain ⟨nonce, hopens⟩ := opens_of_checked hs hphase
        exact .inr (.inr ⟨i, doc, nonce, rfl, hopens⟩)
    | _ =>
      -- the call has not read yet, or it is done: there is nothing to save
      refine .inl ⟨?_, alone_save (by simp [hphase]) ok⟩
      simp only [step, didStep, hphase]

/-- **Each step keeps what is sound.** -/
theorem Sound.step (hs : Sound env calls w) (e : DidStep ι) :
    Sound env calls (step env calls w e) := by
  rcases step_cases hs e with ⟨hsame, -⟩ | ⟨-, hsound, -⟩ | ⟨i, doc, nonce, -, hopens⟩
  · rwa [hsame]
  · exact hsound
  · exact hopens.sound hs

omit [DecidableEq ι] in
/-- A captured signature is of no use, and a nonce is used in time, as long as nonces are used
once. -/
theorem singleUse_iff (hs : Sound env calls w) : SingleUse env calls w ↔
    ∀ i j nonce userId userId', w.service.phases i = .authenticated nonce userId →
      w.service.phases j = .authenticated nonce userId' → i = j := by
  refine ⟨fun h => h.once, fun honce => ⟨honce, ?_, ?_⟩⟩
  · intro i j did signature nonce nonce' userId userId' hi hj hphase hphase'
    obtain ⟨d, c, -, -, -, -, s, hcall, hrecovers⟩ : PhaseOk env calls w i
        (.authenticated nonce userId) :=
      hphase ▸ hs.phases i
    obtain ⟨d', c', -, -, -, -, s', hcall', hrecovers'⟩ : PhaseOk env calls w j
        (.authenticated nonce' userId') :=
      hphase' ▸ hs.phases j
    obtain ⟨rfl, rfl⟩ := DidCall.verifySignature.inj (hcall.symm.trans hi)
    obtain ⟨rfl, rfl⟩ := DidCall.verifySignature.inj (hcall'.symm.trans hj)
    simp only [recovers, Bool.and_eq_true, Option.any_eq_true, decide_eq_true_eq]
      at hrecovers hrecovers'
    obtain ⟨-, address, haddress, hlower⟩ := hrecovers
    obtain ⟨-, address', haddress', hlower'⟩ := hrecovers'
    obtain rfl := env.verifyMessage_unique _ _ _ _ _ haddress haddress' (hlower.trans hlower'.symm)
    exact honce i j nonce userId userId' hphase hphase'
  · intro i nonce userId hphase
    obtain ⟨d, c, hread, hissued, heq, htime, signature, hcall, -⟩ :
        PhaseOk env calls w i (.authenticated nonce userId) := hphase ▸ hs.phases i
    refine ⟨c, hread, ?_, heq, htime⟩
    rw [hcall]
    exact hissued.2

/-- **What a step does to the sessions**: a second one is opened exactly by a verification that has
been overtaken. -/
theorem singleUse_step_iff (hs : Sound env calls w) (h : SingleUse env calls w) (e : DidStep ι) :
    SingleUse env calls (step env calls w e) ↔ Alone w e := by
  rcases step_cases hs e with ⟨hsame, halone⟩ | ⟨⟨i, p, hadvances⟩, hsound, halone⟩ |
    ⟨i, doc, nonce, rfl, hopens⟩
  · rw [hsame]
    exact iff_of_true h halone
  · refine iff_of_true ((singleUse_iff hsound).mpr fun j k nonce userId userId' hj hk => ?_) halone
    rw [hadvances.authenticated_iff] at hj hk
    exact h.once j k nonce userId userId' hj hk
  · rw [singleUse_iff (hopens.sound hs)]
    obtain ⟨other, c, hother, hv, hover⟩ : PhaseOk env calls w i (.checked doc) :=
      hopens.checked ▸ hs.phases i
    obtain rfl : nonce = other := Option.some.inj (hopens.nonce_eq.symm.trans hother)
    have hbefore : ∀ {j userId}, w.service.phases j = .authenticated nonce userId → j ≠ i := by
      rintro j userId hj rfl
      rw [hopens.checked] at hj
      contradiction
    constructor
    · rintro honce - doc' -
      rw [← Bool.not_eq_true, hover]
      rintro ⟨j, userId, hj⟩
      have hji := hbefore hj
      exact hji (honce j i nonce userId doc.userId
        ((hopens.phase_of_ne hji).trans hj) hopens.phase_self)
    · intro halone
      have hunused : ¬ Used w nonce := by
        rw [← hover, halone rfl doc hopens.checked]
        exact Bool.false_ne_true
      -- the session that is opened is the only one of its nonce
      have hnew : ∀ {j other userId}, (step env calls w (.save i true)).service.phases j =
        .authenticated other userId →
          j = i ∧ other = nonce ∨ j ≠ i ∧ other ≠ nonce ∧
            w.service.phases j = .authenticated other userId := by
        intro j other userId hj
        by_cases hji : j = i
        · subst hji
          rw [hopens.phase_self] at hj
          exact .inl ⟨rfl, (Phase.authenticated.inj hj).1.symm⟩
        · rw [hopens.phase_of_ne hji] at hj
          refine .inr ⟨hji, ?_, hj⟩
          rintro rfl
          exact hunused ⟨j, userId, hj⟩
      intro j k other userId userId' hj hk
      rcases hnew hj with ⟨rfl, rfl⟩ | ⟨-, hne, hj⟩ <;> rcases hnew hk with
        ⟨rfl, hsame⟩ | ⟨-, hne', hk⟩
      · rfl
      · exact absurd rfl hne'
      · exact absurd hsame hne
      · exact h.once j k other userId userId' hj hk

variable (env calls)

/-- **Each nonce is used once, and in time, in every state of an interleaving** exactly if no
verification saves after another one has used the nonce that it read. -/
theorem singleUse_throughout_iff (steps : List (DidStep ι)) :
    Throughout (step env calls) (SingleUse env calls) .start steps ↔
      Along (step env calls) Alone .start steps := by
  apply throughout_iff_along (I := Sound env calls)
  · exact fun w e hs => hs.step e
  · exact fun w e hs h => singleUse_step_iff hs h e
  · exact Sound.start
  · exact (singleUse_iff Sound.start).mpr fun _ _ _ _ _ h => by cases h

/-- Signatures that name their message, all by one signer. -/
def naming : Environment (Fin 3) where
  nonce := ⟨fun i => ["f1", "f2", "f3"].get i, by unfold Function.Injective; decide⟩
  nonce_ne_empty := by decide
  randomUUID := fun _ => "user"
  verifyMessage := fun message signature =>
    if signature = "signed " ++ message then some "0xAb" else none
  verifyMessage_unique := by
    intro message message' signature address address' h h' _
    split at h
    next hsigned =>
      split at h'
      next hsigned' => exact (String.append_right_inj "signed ").mp (hsigned.symm.trans hsigned')
      next => cases h'
    next => cases h

/-- A challenge, and its signature twice. -/
def captured : Fin 3 → DidCall := fun i =>
  if i = 0 then .generateChallenge "did:ethr:0xAb" else .verifySignature "did:ethr:0xAb" "signed f1"

/-- **A captured signature opens a second session**, if both verifications read before one of them
saves. -/
theorem signature_used_twice :
    ¬ Throughout (step naming captured) (SingleUse naming captured) .start
      [.findOne 0 0, .save 0 true, .findOne 1 1000, .findOne 2 1000, .save 1 true,
        .save 2 true] := by
  rintro ⟨-, -, -, -, -, -, h⟩
  have heq := h.once 1 2 "f1" "user" "user" (by decide +kernel) (by decide +kernel)
  revert heq
  decide

end DidAuth
