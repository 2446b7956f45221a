import PeerX.Foundations.Table
import PeerX.Foundations.Runs

/-!
# Privacy: encrypted orders

The service keeps orders whose details it cannot read. A match is two updates: the first order
becomes `MATCHED` and gets the link to the second one, and then the second order becomes `MATCHED`.
The second update sets no link, neither update looks at the status that an order has, and the first
one stays when the second one fails.

## Main results

* `unmatched_serve`: no order is matched by any other call
* `lawful_iff`: a call is lawful exactly when it is not such a match
* `lawful_run_iff`: so are the calls of a run
-/

namespace Privacy

open Concurrency Relational

/-! ## Orders -/

inductive EncryptedOrderStatus : Type
  | pending
  | matched
  | cancelled
  | executed
  | expired
deriving DecidableEq

structure OrderMetadata where
  symbol : Option String
  side : Option String
  orderType : Option String
  estimatedAmount : Option String
deriving DecidableEq

/-- A row of the orders; the type of its uuids is `κ`. -/
structure EncryptedOrder (κ : Type) where
  id : κ
  pseudonymousId : κ
  encryptedOrderDetails : String
  orderHash : String
  encryptionNonce : String
  orderMetadata : Option OrderMetadata
  status : EncryptedOrderStatus
  linkedOrderId : Option κ
  encryptedZKProof : Option String
  matchedAt : Option ℤ
  encryptedMatchDetails : Option String
deriving DecidableEq

structure CreateEncryptedOrderDto where
  encryptedOrderDetails : String
  orderHash : String
  encryptionNonce : String
  orderMetadata : Option OrderMetadata
  encryptedZKProof : Option String
deriving DecidableEq

structure UpdateEncryptedOrderDto where
  status : Option EncryptedOrderStatus
  linkedOrderId : Option String
  encryptedMatchDetails : Option String
deriving DecidableEq

/-- The exceptions of the service, and of its database. -/
inductive OrderError : Type
  | notFound (message : String)
  | badRequest (message : String)
  | queryFailed
deriving DecidableEq

variable {κ : Type} [DecidableEq κ]

/-- The table of the orders. -/
abbrev Orders (κ : Type) : Type := Table (EncryptedOrder.id : EncryptedOrder κ → κ)

/-- What an operation answers, and the orders after it. -/
abbrev Answer (κ : Type) : Type := Except OrderError (EncryptedOrder κ) × Orders κ

/-- The text, unless it is missing or empty. -/
def truthy (text : Option String) : Option String := text.filter fun t => t ≠ ""

/-! ## The operations -/

section Operations

-- the database reads the text of a uuid, or refuses the query
variable (uuid : String → Option κ)

/-- `save`: the row is inserted, or updated. -/
def saveOrder (orders : Orders κ) (order : EncryptedOrder κ) : Answer κ := (.ok order, orders.save order)

/-- `createOrder`, with the generated id. Columns that are undefined are not written. -/
def createOrder (orders : Orders κ) (id : κ) (pseudonymousId : String) (createDto : CreateEncryptedOrderDto) :
    Answer κ :=
  match uuid pseudonymousId with
  | none => (.error .queryFailed, orders)
  | some owner =>
    if createDto.orderHash.length > 64 ∨ createDto.encryptionNonce.length > 32 then (.error .queryFailed, orders)
    else
      let stored := orders.find id
      saveOrder orders
        { id
          pseudonymousId := owner
          encryptedOrderDetails := createDto.encryptedOrderDetails
          orderHash := createDto.orderHash
          encryptionNonce := createDto.encryptionNonce
          orderMetadata := createDto.orderMetadata <|> stored.bind EncryptedOrder.orderMetadata
          status := .pending
          linkedOrderId := stored.bind EncryptedOrder.linkedOrderId
          encryptedZKProof := createDto.encryptedZKProof <|> stored.bind EncryptedOrder.encryptedZKProof
          matchedAt := stored.bind EncryptedOrder.matchedAt
          encryptedMatchDetails := stored.bind EncryptedOrder.encryptedMatchDetails }

/-- `getOrderById`, and the exception of its callers when there is none. -/
def getOrder (orders : Orders κ) (orderId : String) : Except OrderError (EncryptedOrder κ) :=
  match uuid orderId with
  | none => .error .queryFailed
  | some id =>
    match orders.find id with
    | none => .error (.notFound s!"Order not found: {orderId}")
    | some order => .ok order

/-- The details of a match are set with its time. -/
def EncryptedOrder.withDetails (order : EncryptedOrder κ) (encryptedMatchDetails : Option String) (now : ℤ) :
    EncryptedOrder κ :=
  match truthy encryptedMatchDetails with
  | none => order
  | some details => { order with encryptedMatchDetails := some details, matchedAt := some now }

/-- `updateOrder` at a time. The database refuses a link that is not a uuid. -/
def updateOrder (orders : Orders κ) (orderId : String) (updateDto : UpdateEncryptedOrderDto) (now : ℤ) : Answer κ :=
  match getOrder uuid orders orderId with
  | .error e => (.error e, orders)
  | .ok order =>
    let order := { order with status := updateDto.status.getD order.status }
    let order := order.withDetails updateDto.encryptedMatchDetails now
    match truthy updateDto.linkedOrderId with
    | none => saveOrder orders order
    | some text =>
      match uuid text with
      | none => (.error .queryFailed, orders)
      | some link => saveOrder orders { order with linkedOrderId := some link }

/-- `updateOrderStatus` at a time. -/
def updateOrderStatus (orders : Orders κ) (orderId : String) (newStatus : EncryptedOrderStatus) (now : ℤ) :
    Answer κ :=
  match getOrder uuid orders orderId with
  | .error e => (.error e, orders)
  | .ok order =>
    saveOrder orders
      { order with
        status := newStatus
        matchedAt := if newStatus = .matched then some now else order.matchedAt }

def cancelOrder (orders : Orders κ) (orderId : String) : Answer κ :=
  match getOrder uuid orders orderId with
  | .error e => (.error e, orders)
  | .ok order =>
    if order.status = .executed then (.error (.badRequest "Cannot cancel executed order"), orders)
    else saveOrder orders { order with status := .cancelled }

/-- `matchOrder`: two updates, one after the other. -/
def matchOrder (orders : Orders κ) (orderId matchingOrderId matchedDetails : String) (now : ℤ) : Answer κ :=
  match updateOrder uuid orders orderId
      { status := some .matched
        linkedOrderId := some matchingOrderId
        encryptedMatchDetails := some matchedDetails } now with
  | (.error e, orders) => (.error e, orders)
  | (.ok order, orders) =>
    match updateOrderStatus uuid orders matchingOrderId .matched now with
    | (.error e, orders) => (.error e, orders)
    | (.ok _, orders) => (.ok order, orders)

end Operations

/-! ## Calls -/

inductive OrderCall (κ : Type) : Type
  | createOrder (id : κ) (pseudonymousId : String) (createDto : CreateEncryptedOrderDto)
  | cancelOrder (orderId : String)
  | matchOrder (orderId matchingOrderId matchedDetails : String) (now : ℤ)

variable {uuid : String → Option κ} {orders : Orders κ} {call : OrderCall κ} {order : EncryptedOrder κ}

/-- The answer to a call. -/
def serve (uuid : String → Option κ) (orders : Orders κ) : OrderCall κ → Answer κ
  | .createOrder id pseudonymousId createDto => createOrder uuid orders id pseudonymousId createDto
  | .cancelOrder orderId => cancelOrder uuid orders orderId
  | .matchOrder orderId matchingOrderId matchedDetails now =>
    matchOrder uuid orders orderId matchingOrderId matchedDetails now

/-- The orders after a call. -/
def after (uuid : String → Option κ) (orders : Orders κ) (call : OrderCall κ) : Orders κ := (serve uuid orders call).2

/-- Matched orders with links come in pairs. -/
def Paired (orders : Orders κ) : Prop :=
  ∀ order ∈ orders.rows, order.status = .matched → ∀ link, order.linkedOrderId = some link →
    ∃ other, orders.find link = some other ∧ link ≠ order.id ∧ other.status = .matched ∧
      other.linkedOrderId = some order.id

/-- What a call may do: it leaves the pairs, matches no cancelled order, and changes nothing
when it is rejected. -/
structure Lawful (uuid : String → Option κ) (orders : Orders κ) (call : OrderCall κ) : Prop where
  paired : Paired (after uuid orders call)
  final : ∀ order ∈ orders.rows, order.status = .cancelled →
    ∀ later, (after uuid orders call).find order.id = some later → later.status ≠ .matched
  atomic : ∀ e, (serve uuid orders call).1 = .error e → after uuid orders call = orders

/-- A match whose first update goes through: the first order exists, and the second id is a
uuid, or empty. -/
def Saves (uuid : String → Option κ) (orders : Orders κ) : OrderCall κ → Prop
  | .matchOrder orderId matchingOrderId _ _ =>
    (∃ id, uuid orderId = some id ∧ (orders.find id).isSome) ∧
      (matchingOrderId = "" ∨ (uuid matchingOrderId).isSome)
  | _ => False

/-! ## Runs without matches -/

/-- No order is matched, or has a link. -/
def Unmatched (orders : Orders κ) : Prop :=
  ∀ order ∈ orders.rows, (order.status = .pending ∨ order.status = .cancelled) ∧ order.linkedOrderId = none

omit [DecidableEq κ] in
theorem unmatched_empty : Unmatched (Table.empty : Orders κ) := by
  intro order h
  cases h

theorem unmatched_save (h : Unmatched orders) (hstatus : order.status = .pending ∨ order.status = .cancelled)
    (hlink : order.linkedOrderId = none) : Unmatched (orders.save order) := by
  intro other hother
  rcases Table.mem_save.mp hother with rfl | ⟨hother, -⟩
  · exact ⟨hstatus, hlink⟩
  · exact h other hother

theorem paired_of_unmatched (h : Unmatched orders) : Paired orders := by
  intro order horder hmatched
  obtain ⟨hstatus | hstatus, -⟩ := h order horder <;> rw [hstatus] at hmatched <;> cases hmatched

theorem find_of_getOrder {orderId : String} (h : getOrder uuid orders orderId = .ok order) :
    ∃ id, uuid orderId = some id ∧ orders.find id = some order := by
  unfold getOrder at h
  split at h
  · cases h
  · next id huuid =>
    split at h
    · cases h
    · next hfind =>
      obtain rfl := Except.ok.inj h
      exact ⟨id, huuid, hfind⟩

theorem getOrder_ok {orderId : String} {id : κ} (huuid : uuid orderId = some id) (hfind : orders.find id = some order) :
    getOrder uuid orders orderId = .ok order := by
  simp only [getOrder, huuid, hfind]

theorem link_of_getOrder {orderId : String} (h : Unmatched orders) (hget : getOrder uuid orders orderId = .ok order) :
    order.linkedOrderId = none := by
  obtain ⟨id, -, hfind⟩ := find_of_getOrder hget
  exact (h order (Table.mem_of_find hfind)).2

/-- The link of an order is missing in the database, or not read by it. -/
theorem link_of_create (h : Unmatched orders) (id : κ) :
    (orders.find id).bind EncryptedOrder.linkedOrderId = none := by
  cases hfind : orders.find id with
  | none => rfl
  | some stored => exact (h stored (Table.mem_of_find hfind)).2

omit [DecidableEq κ] in
theorem withDetails_id (order : EncryptedOrder κ) (details : Option String) (now : ℤ) :
    (order.withDetails details now).id = order.id := by
  unfold EncryptedOrder.withDetails
  split <;> rfl

omit [DecidableEq κ] in
theorem withDetails_status (order : EncryptedOrder κ) (details : Option String) (now : ℤ) :
    (order.withDetails details now).status = order.status := by
  unfold EncryptedOrder.withDetails
  split <;> rfl

/-- The first update of a match. -/
def firstUpdate (uuid : String → Option κ) (orders : Orders κ) (orderId matchingOrderId matchedDetails : String)
    (now : ℤ) : Answer κ :=
  updateOrder uuid orders orderId
    { status := some .matched, linkedOrderId := some matchingOrderId, encryptedMatchDetails := some matchedDetails } now

section Matches

variable {orderId matchingOrderId matchedDetails : String} {now : ℤ}

theorem matchOrder_of_error {e : OrderError}
    (h : firstUpdate uuid orders orderId matchingOrderId matchedDetails now = (.error e, orders)) :
    matchOrder uuid orders orderId matchingOrderId matchedDetails now = (.error e, orders) := by
  unfold firstUpdate at h
  unfold matchOrder
  rw [h]

theorem firstUpdate_of_not_saves
    (h : ¬ Saves uuid orders (.matchOrder orderId matchingOrderId matchedDetails now)) :
    ∃ e, firstUpdate uuid orders orderId matchingOrderId matchedDetails now = (.error e, orders) := by
  unfold firstUpdate updateOrder
  cases hget : getOrder uuid orders orderId with
  | error e => exact ⟨e, rfl⟩
  | ok order =>
    have hfirst : ∃ id, uuid orderId = some id ∧ (orders.find id).isSome := by
      unfold getOrder at hget
      split at hget
      · cases hget
      · next id huuid =>
        refine ⟨id, huuid, ?_⟩
        split at hget
        · cases hget
        · next hfind => rw [hfind, Option.isSome_some]
    have hsecond : ¬ (matchingOrderId = "" ∨ (uuid matchingOrderId).isSome) := fun hsecond => h ⟨hfirst, hsecond⟩
    obtain ⟨hne, hnone⟩ := not_or.mp hsecond
    have htruthy : truthy (some matchingOrderId) = some matchingOrderId := by simp [truthy, hne]
    have huuid : uuid matchingOrderId = none := by simpa using hnone
    refine ⟨.queryFailed, ?_⟩
    simp only [htruthy, huuid]

/-- The first update goes through: the order is matched, with the link. -/
theorem firstUpdate_of_saves (h : Saves uuid orders (.matchOrder orderId matchingOrderId matchedDetails now)) :
    ∃ order ∈ orders.rows, ∃ saved : EncryptedOrder κ, saved.id = order.id ∧ saved.status = .matched ∧
      (matchingOrderId ≠ "" → saved.linkedOrderId = uuid matchingOrderId) ∧
      firstUpdate uuid orders orderId matchingOrderId matchedDetails now = (.ok saved, orders.save saved) := by
  obtain ⟨⟨id, huuid, hsome⟩, hsecond⟩ := h
  obtain ⟨order, hfind⟩ := Option.isSome_iff_exists.mp hsome
  refine ⟨order, Table.mem_of_find hfind, ?_⟩
  unfold firstUpdate updateOrder
  rw [getOrder_ok huuid hfind]
  by_cases hne : matchingOrderId = ""
  · -- an empty text is falsy: the link keeps its value
    have htruthy : truthy (some matchingOrderId) = none := by simp [truthy, hne]
    refine ⟨{ order with status := .matched }.withDetails (some matchedDetails) now, ?_, ?_, fun h => absurd hne h, ?_⟩
    · rw [withDetails_id]
    · rw [withDetails_status]
    · simp only [htruthy, saveOrder, Option.getD_some]
  · have htruthy : truthy (some matchingOrderId) = some matchingOrderId := by simp [truthy, hne]
    obtain ⟨link, hlink⟩ := Option.isSome_iff_exists.mp (hsecond.resolve_left hne)
    refine ⟨{ { order with status := .matched }.withDetails (some matchedDetails) now with linkedOrderId := some link },
      ?_, ?_, fun _ => hlink.symm, ?_⟩
    · exact withDetails_id _ _ _
    · exact withDetails_status _ _ _
    · simp only [htruthy, hlink, saveOrder, Option.getD_some]

end Matches

/-- **Other calls match no order, and change nothing when they are rejected.** -/
theorem unmatched_serve (h : Unmatched orders) (hcall : ¬ Saves uuid orders call) :
    Unmatched (after uuid orders call) ∧
      ∀ e, (serve uuid orders call).1 = .error e → after uuid orders call = orders := by
  cases call with
  | createOrder id pseudonymousId createDto =>
    simp only [after, serve, createOrder]
    split
    · exact ⟨h, fun _ _ => rfl⟩
    · split
      · exact ⟨h, fun _ _ => rfl⟩
      · exact ⟨unmatched_save h (.inl rfl) (link_of_create h id), fun e herror => by cases herror⟩
  | cancelOrder orderId =>
    simp only [after, serve, cancelOrder]
    split
    · exact ⟨h, fun _ _ => rfl⟩
    · next order hget =>
      have hlink := link_of_getOrder h hget
      split
      · exact ⟨h, fun _ _ => rfl⟩
      · exact ⟨unmatched_save h (.inr rfl) hlink, fun e herror => by cases herror⟩
  | matchOrder orderId matchingOrderId matchedDetails now =>
    -- the first update throws, so that the second one is not reached
    obtain ⟨e, he⟩ := firstUpdate_of_not_saves hcall
    have hserve : serve uuid orders (.matchOrder orderId matchingOrderId matchedDetails now) = (.error e, orders) :=
      matchOrder_of_error he
    rw [after, hserve]
    exact ⟨h, fun _ _ => rfl⟩

/-! ## Matches -/

/-- A match whose first update goes through is not lawful. When the second update fails, the
first one stays; when the two orders are one, it is its own pair; otherwise the second order has no
link back. -/
theorem not_lawful_of_saves (hempty : uuid "" = none) (h : Unmatched orders) (hcall : Saves uuid orders call) :
    ¬ Lawful uuid orders call := by
  cases call with
  | createOrder id pseudonymousId createDto => exact hcall.elim
  | cancelOrder orderId => exact hcall.elim
  | matchOrder orderId matchingOrderId matchedDetails now =>
    obtain ⟨order, horder, saved, hid, hmatched, hlink, hfirst⟩ := firstUpdate_of_saves hcall
    unfold firstUpdate at hfirst
    intro hlawful
    cases hget : getOrder uuid (orders.save saved) matchingOrderId with
    | error e =>
      have hserve : serve uuid orders (.matchOrder orderId matchingOrderId matchedDetails now) =
          (.error e, orders.save saved) := by
        simp only [serve, matchOrder, hfirst, updateOrderStatus, hget]
      have hsame := hlawful.atomic e (by rw [hserve])
      rw [after, hserve] at hsame
      -- the order was not matched before
      have hmem : saved ∈ orders.rows := by
        rw [← hsame]
        exact Table.mem_save_self orders saved
      obtain ⟨hstatus | hstatus, -⟩ := h saved hmem <;> rw [hstatus] at hmatched <;> cases hmatched
    | ok other =>
      have hserve : after uuid orders (.matchOrder orderId matchingOrderId matchedDetails now) =
          (orders.save saved).save { other with status := .matched, matchedAt := some now } := by
        simp only [after, serve, matchOrder, hfirst, updateOrderStatus, hget, saveOrder, if_true]
      have hpaired := hlawful.paired
      rw [hserve] at hpaired
      obtain ⟨id, huuid, hother⟩ := find_of_getOrder hget
      obtain rfl : other.id = id := Table.key_of_find hother
      have hne : matchingOrderId ≠ "" := by
        rintro rfl
        rw [hempty] at huuid
        cases huuid
      have hlinked : saved.linkedOrderId = some other.id := (hlink hne).trans huuid
      by_cases hself : other.id = saved.id
      · -- an order that is matched with itself
        rw [hself, Table.find_save_self] at hother
        obtain rfl := Option.some.inj hother
        obtain ⟨-, -, hdiffers, -⟩ := hpaired _ (Table.mem_save_self _ _) rfl _ hlinked
        exact hdiffers rfl
      · -- the second order had no link, and has none now
        have hold : other ∈ orders.rows := by
          rw [Table.find_save_of_ne _ hself] at hother
          exact Table.mem_of_find hother
        have hmem : saved ∈ ((orders.save saved).save
            { other with status := .matched, matchedAt := some now }).rows :=
          Table.mem_save.mpr (.inr ⟨Table.mem_save_self _ _, fun heq => hself heq.symm⟩)
        obtain ⟨back, hfind, -, -, hback⟩ := hpaired saved hmem hmatched _ hlinked
        obtain rfl := Option.some.inj ((Table.find_save_self _ _).symm.trans hfind)
        rw [show other.linkedOrderId = none from (h other hold).2] at hback
        cases hback

/-- **A call is lawful exactly when it is not a match whose first update goes through.** -/
theorem lawful_iff (hempty : uuid "" = none) (h : Unmatched orders) :
    Lawful uuid orders call ↔ ¬ Saves uuid orders call := by
  constructor
  · exact fun hlawful hcall => not_lawful_of_saves hempty h hcall hlawful
  · intro hcall
    obtain ⟨hafter, hatomic⟩ := unmatched_serve h hcall
    refine ⟨paired_of_unmatched hafter, fun order _ _ later hlater hmatched => ?_, hatomic⟩
    obtain ⟨hstatus | hstatus, -⟩ := hafter later (Table.mem_of_find hlater) <;> rw [hstatus] at hmatched <;>
      cases hmatched

/-- **The runs in which every call is lawful** are those without a match whose first update goes
through. -/
theorem lawful_run_iff (uuid : String → Option κ) (hempty : uuid "" = none) (calls : List (OrderCall κ)) :
    Along (after uuid) (Lawful uuid) Table.empty calls ↔
      Along (after uuid) (fun orders call => ¬ Saves uuid orders call) Table.empty calls :=
  along_iff_along (fun _ _ h => lawful_iff hempty h) (fun _ _ h hcall => (unmatched_serve h hcall).1) unmatched_empty

/-! ## A match -/

/-- The database's reading of two uuids. -/
def twoUuids (text : String) : Option ℕ :=
  if text = "11111111-1111-4111-8111-111111111111" then some 1
  else if text = "22222222-2222-4222-8222-222222222222" then some 2
  else none

/-- A new order of the first user. -/
def newOrder (id : ℕ) : OrderCall ℕ :=
  .createOrder id "11111111-1111-4111-8111-111111111111" ⟨"details", "hash", "nonce", none, none⟩

/-- A match with an order that the database does not know fails before its first update, and the
order is cancelled. -/
theorem lawful_run_cancelled :
    Along (after twoUuids) (Lawful twoUuids) Table.empty
      [newOrder 1, newOrder 2, .matchOrder "11111111-1111-4111-8111-111111111111" "unknown" "details" 0,
        .cancelOrder "11111111-1111-4111-8111-111111111111"] := by
  refine (lawful_run_iff twoUuids rfl _).mpr ⟨id, id, ?_, id, trivial⟩
  rintro ⟨-, hempty | hsome⟩
  · exact absurd hempty (by decide)
  · exact absurd hsome (by decide)

/-- **Two orders are matched, and the second one has no link.** -/
theorem matched_without_link :
    ¬ Along (after twoUuids) (Lawful twoUuids) Table.empty
      [newOrder 1, newOrder 2,
        .matchOrder "11111111-1111-4111-8111-111111111111" "22222222-2222-4222-8222-222222222222" "details" 0] := by
  intro h
  have hunmatched : Unmatched (run (after twoUuids) Table.empty [newOrder 1, newOrder 2]) := by
    unfold Unmatched
    decide
  refine not_lawful_of_saves rfl hunmatched ?_ h.2.2.1
  exact ⟨⟨1, rfl, by decide⟩, .inr rfl⟩

end Privacy
