import PeerX.Bridges.BridgeService
import PeerX.Common.Resilience

/-!
# Bridges: the Stellar service

A withdrawal runs in a bulkhead, and there through a circuit breaker. `onModuleInit` registers the
breaker with a function of its own, and the withdrawal passes another one to `execute`.

Each step that can fail is a command. Its outcome is given by the environment, so that every step
fails or succeeds independently; a submission can also be taken by the network without an answer.
The commands of a withdrawal carry it, since the two withdrawals of a bridge issue the same ones.
-/

namespace Bridges

open Concurrency Resilience

/-- The arguments of `withdraw`. -/
structure Withdrawal where
  userId : String
  toAddress : String
  amount : String
  memo : Option String
deriving DecidableEq

/-- The steps outside the program. -/
inductive Step : Type
  /-- `bridgeRepo.save(bridge)`. -/
  | saveBridge (bridge : CrossChainBridge)
  /-- `walletRepo.findOne`: whether the user has a wallet. -/
  | findWallet (w : Withdrawal)
  /-- `txRepo.save(txRecord)`. -/
  | saveTransaction (w : Withdrawal) (txRecord : BlockchainTransaction)
  /-- `server.loadAccount`. -/
  | loadAccount (w : Withdrawal)
  /-- The transaction with its payment is built and signed. -/
  | buildTransaction (w : Withdrawal)
  /-- `server.submitTransaction`: the hash. -/
  | submitTransaction (w : Withdrawal)
  /-- Whether the timer of the bulkhead ends before the function. -/
  | bulkheadTimer (w : Withdrawal)
  /-- The state of the circuit, and whether the timer of the breaker ends first. -/
  | circuit (w : Withdrawal)

/-- What a step resolves to. -/
abbrev Step.Value : Step → Type
  | .saveBridge _ => Unit
  | .findWallet _ => Bool
  | .saveTransaction _ _ => Unit
  | .loadAccount _ => Unit
  | .buildTransaction _ => Unit
  | .submitTransaction _ => String
  | .bulkheadTimer _ => Bool
  | .circuit _ => CircuitState × Bool

/-- A step resolves or throws. -/
abbrev Step.Reply (c : Step) : Type := Except BridgeError c.Value

/-- Programs of steps. -/
abbrev Client (α : Type) := Prog Step Step.Reply BridgeError α

/-- A step, with its exception thrown. -/
def await (c : Step) : Client c.Value := do
  match ← (Prog.perform c : Client c.Reply) with
  | .ok v => return v
  | .error e => throw e

section Withdrawals

variable (platformKey : String) (w : Withdrawal)

/-- The record of a withdrawal before its payment. -/
def txRecord : BlockchainTransaction where
  userId := w.userId
  network := .stellar
  type := .withdrawal
  status := .pending
  fromAddress := platformKey
  toAddress := w.toAddress
  amount := w.amount
  asset := "USDC"
  memo := w.memo

/-- The record after the payment. -/
def confirmedRecord (hash : String) : BlockchainTransaction :=
  { txRecord platformKey w with txHash := some hash, status := .confirmed, confirmations := 1 }

/-- `Memo.text(memo)`, if there is a memo. -/
def addMemo : Client Unit :=
  if w.memo.any fun memo => 28 < memo.utf8ByteSize then throw (.error "Expects string, array or buffer, max 28 bytes")
  else return ()

/-- The `try` of `withdrawInternal`: the payment. -/
def pay : Client BlockchainTransaction := do
  await (.loadAccount w)
  addMemo w
  await (.buildTransaction w)
  let hash ← await (.submitTransaction w)
  return confirmedRecord platformKey w hash

/-- The `catch` of `withdrawInternal`. -/
def failWithdrawal (err : BridgeError) : Client BlockchainTransaction := do
  await (.saveTransaction w
    { txRecord platformKey w with status := .failed, errorMessage := some err.message })
  throw (.transactionFailed { error := some err.message })

/-- `withdrawInternal`. The confirmed record is saved after the payment, outside the `try`. -/
def withdrawInternal : Client Withdrawn := do
  if ← await (.findWallet w) then
    await (.saveTransaction w (txRecord platformKey w))
    let confirmed ← tryCatch (pay platformKey w) (failWithdrawal platformKey w)
    -- a failure from here on is thrown although the payment is made
    await (.saveTransaction w confirmed)
    return .record confirmed
  else
    throw (.transactionFailed { reason := some "No Stellar wallet for user" })

end Withdrawals

/-- The breakers of the Stellar service. Its functions get no arguments. -/
abbrev StellarBreakers := Breakers Step.Reply BridgeError Unit Withdrawn

/-- The state of the two services it uses. -/
structure Services where
  breakers : StellarBreakers
  bulkheads : Bulkheads

/-- The services before any call. -/
def noServices : Services := ⟨fun _ => none, fun _ => none⟩

def circuitBreakerName : String := "stellar-horizon"

def bulkheadName : String := "stellar-bulkhead"

/-- The function that `onModuleInit` registers. -/
def registeredFunction : Unit → Client Withdrawn := fun _ => return .success

def onModuleInit (s : Services) : Services where
  breakers := (register s.breakers registeredFunction circuitBreakerName).2
  bulkheads := Bulkhead.createBulkhead s.bulkheads bulkheadName
    { maxConcurrent := 5, maxQueueSize := some 20, timeout := some 60000 }

/-- The error of a bulkhead whose timer has ended. -/
def bulkheadError (timeoutMs : ℕ) : BridgeError :=
  .error ("Bulkhead operation timed out after " ++ toString timeoutMs ++ "ms")

/-- What runs in the bulkhead: the circuit breaker. -/
def throughBreaker (opossum : Opossum Step.Reply BridgeError Unit Withdrawn) (breakers : StellarBreakers)
    (platformKey : String) (w : Withdrawal) : Client Withdrawn := do
  let (state, timedOut) ← await (.circuit w)
  -- the function is passed on without arguments
  execute opossum breakers state timedOut circuitBreakerName (fun _ => withdrawInternal platformKey w) ()

def withdraw (opossum : Opossum Step.Reply BridgeError Unit Withdrawn) (s : Services)
    (platformKey : String) (w : Withdrawal) : Client Withdrawn :=
  Bulkhead.execute s.bulkheads bulkheadName (throughBreaker opossum s.breakers platformKey w)
    (await (.bulkheadTimer w)) bulkheadError

/-- The Stellar service, as the bridge service uses it. -/
def stellarService (opossum : Opossum Step.Reply BridgeError Unit Withdrawn) (s : Services)
    (platformKey : String) : Stellar Client where
  withdraw userId toAddress amount memo :=
    Bridges.withdraw opossum s platformKey ⟨userId, toAddress, amount, some memo⟩

/-- The repository of the bridges. -/
def bridgeRepo : BridgeRepo Client where
  save bridge := do
    await (.saveBridge bridge)
    return bridge

/-- What becomes of a submission: the network takes the payment and answers, or refuses it, or
takes it without an answer. -/
inductive Submission : Type
  | accepted (hash : String)
  | rejected (err : BridgeError)
  | unanswered (err : BridgeError)

/-- The network has taken the payment. -/
def Submission.Taken : Submission → Prop
  | .rejected _ => False
  | _ => True

instance : (s : Submission) → Decidable s.Taken
  | .accepted _ => .isTrue trivial
  | .rejected _ => .isFalse id
  | .unanswered _ => .isTrue trivial

/-- The answer to `submitTransaction`. -/
def Submission.answer : Submission → Except BridgeError String
  | .accepted hash => .ok hash
  | .rejected err => .error err
  | .unanswered err => .error err

/-- The outcome of every step. A record and a bridge are saved once with each status. -/
structure Outcomes where
  saveBridge : BridgeStatus → Except BridgeError Unit := fun _ => .ok ()
  findWallet : Withdrawal → Except BridgeError Bool := fun _ => .ok true
  saveTransaction : Withdrawal → TransactionStatus → Except BridgeError Unit := fun _ _ => .ok ()
  loadAccount : Withdrawal → Except BridgeError Unit := fun _ => .ok ()
  buildTransaction : Withdrawal → Except BridgeError Unit := fun _ => .ok ()
  submitTransaction : Withdrawal → Submission := fun _ => .accepted "tx_hash"
  bulkheadTimer : Withdrawal → Bool := fun _ => false
  circuit : Withdrawal → CircuitState × Bool := fun _ => (.closed, false)

/-- The answer to a step. -/
def Outcomes.answer (o : Outcomes) : (c : Step) → c.Reply
  | .saveBridge bridge => o.saveBridge bridge.status
  | .findWallet w => o.findWallet w
  | .saveTransaction w txRecord => o.saveTransaction w txRecord.status
  | .loadAccount w => o.loadAccount w
  | .buildTransaction w => o.buildTransaction w
  | .submitTransaction w => (o.submitTransaction w).answer
  | .bulkheadTimer w => .ok (o.bulkheadTimer w)
  | .circuit w => .ok (o.circuit w)

/-- The network: the payments it has taken, after a step. -/
def Outcomes.handler (o : Outcomes) (c : Step) (paid : List Withdrawal) : c.Reply × List Withdrawal :=
  (o.answer c, match c with
    | .submitTransaction w => if (o.submitTransaction w).Taken then paid ++ [w] else paid
    | _ => paid)

/-- What the network has taken of a program, and how the program ends. -/
def Outcomes.run {α : Type} (o : Outcomes) (p : Client α) (paid : List Withdrawal) :
    Except BridgeError α × List Withdrawal := p.eval o.handler paid

end Bridges
