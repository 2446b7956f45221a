import PeerX.Foundations.JsMap
import PeerX.Foundations.Runs
import Mathlib.Logic.Embedding.Basic

/-!
# WebSocket: the messages to a user

The service sends the messages for a user to the clients that are listed under the user. A client is
listed when it subscribes to a channel, and when it authenticates as a user under whom others are
listed. It stays listed when it authenticates as somebody else, and the whole list of a user is
dropped when one client of the user disconnects.

## Main results

* `mem_sendToUser`: who receives the messages of a user
* `isListed_subscribeToAll`, `isListed_handleAuthenticate`, `isListed_handleDisconnect`: who is
  listed after each event
-/

namespace WebSockets

open Concurrency Relational

/-! ## Messages -/

/-- `WebSocketMessageType`, as far as it is sent here. -/
inductive WebSocketMessageType where
  | connect | error | authSuccess | authFailed
  | tradeExecuted | orderPlaced | balanceUpdate | portfolioUpdate | userTradeExecuted | userOrderUpdate
deriving DecidableEq

/-- `status` of an order update. -/
inductive OrderStatus where
  | pending | filled | cancelled | partiallyFilled
deriving DecidableEq

/-- `type` of a trade or an order. -/
inductive Side where
  | buy | sell
deriving DecidableEq

structure TradeExecuted where
  id : String
  asset : String
  amount : ℚ
  price : ℚ
  type : Side
  timestamp : String
  buyerId : String
  sellerId : String
  fee : ℚ
deriving DecidableEq

structure OrderUpdate where
  id : String
  userId : String
  asset : String
  type : Side
  amount : ℚ
  price : ℚ
  filled : ℚ
  remaining : ℚ
  status : OrderStatus
  timestamp : String
deriving DecidableEq

structure BalanceUpdate where
  userId : String
  asset : String
  balance : ℚ
  available : ℚ
  locked : ℚ
  timestamp : String
deriving DecidableEq

structure PortfolioAsset where
  asset : String
  balance : ℚ
  value : ℚ
  price : ℚ
  change24h : ℚ
deriving DecidableEq

structure PortfolioUpdate where
  userId : String
  totalValue : ℚ
  assets : List PortfolioAsset
  timestamp : String
deriving DecidableEq

/-- `data` of a message. -/
inductive MessageData where
  | session (clientId sessionId : String)
  | user (userId : Option String)
  | error (error : String)
  | channels (message : String) (channels : List String)
  | trade (trade : TradeExecuted)
  | order (order : OrderUpdate)
  | balance (update : BalanceUpdate)
  | portfolio (update : PortfolioUpdate)
deriving DecidableEq

structure WebSocketMessage where
  type : WebSocketMessageType
  data : MessageData
deriving DecidableEq

/-! ## The service -/

/-- A set of strings, in insertion order. -/
abbrev StringSet : Type := JsMap String Unit

/-- `WebSocketClient`. `connected` is that of its socket. -/
structure WebSocketClient where
  id : String
  sessionId : String
  connected : Bool
  subscriptions : StringSet
  authenticated : Bool
  userId : Option String
  userRole : Option String

/-- `WebSocketService`, and how many ids `uuidv4` has given. -/
structure WebSocketService where
  clients : JsMap String WebSocketClient
  subscriptions : JsMap String StringSet
  userSubscriptions : JsMap String StringSet
  issued : ℕ

def WebSocketService.new : WebSocketService where
  clients := JsMap.new
  subscriptions := JsMap.new
  userSubscriptions := JsMap.new
  issued := 0

/-- The payload of a token, as far as it is read. -/
structure JwtPayload where
  sub : Option String
  role : Option String

/-- What is emitted: to which client, and the message. -/
abbrev Emitted : Type := List (String × WebSocketMessage)

/-- A user id that counts as true. -/
def truthy (userId : Option String) : Option String := userId.filter fun u => u ≠ ""

namespace WebSocketService

def sendToClient (s : WebSocketService) (clientId : String) (message : WebSocketMessage) : Emitted :=
  match s.clients.get clientId with
  | some client => if client.connected then [(clientId, message)] else []
  | none => []

def sendToUser (s : WebSocketService) (userId : String) (message : WebSocketMessage) : Emitted :=
  match s.userSubscriptions.get userId with
  | some userSubscriptions => userSubscriptions.keys.flatMap fun clientId => s.sendToClient clientId message
  | none => []

def broadcastToChannel (s : WebSocketService) (channel : String) (message : WebSocketMessage) : Emitted :=
  match s.subscriptions.get channel with
  | some subscribers => subscribers.keys.flatMap fun clientId => s.sendToClient clientId message
  | none => []

def broadcastBalanceUpdate (s : WebSocketService) (update : BalanceUpdate) : Emitted :=
  s.sendToUser update.userId ⟨.balanceUpdate, .balance update⟩

def broadcastPortfolioUpdate (s : WebSocketService) (update : PortfolioUpdate) : Emitted :=
  s.sendToUser update.userId ⟨.portfolioUpdate, .portfolio update⟩

/-- `broadcastOrderUpdate`: to the user, and to the channel of the asset if the order is open. -/
def broadcastOrderUpdate (s : WebSocketService) (order : OrderUpdate) : Emitted :=
  s.sendToUser order.userId ⟨.userOrderUpdate, .order order⟩ ++
    if order.status = .pending ∨ order.status = .partiallyFilled then
      s.broadcastToChannel ("orders:" ++ order.asset) ⟨.orderPlaced, .order order⟩
    else []

/-- `broadcastTradeExecution`: to the channel, and to both users. -/
def broadcastTradeExecution (s : WebSocketService) (trade : TradeExecuted) : Emitted :=
  s.broadcastToChannel "trades" ⟨.tradeExecuted, .trade trade⟩ ++
    s.sendToUser trade.buyerId ⟨.userTradeExecuted, .trade trade⟩ ++
    s.sendToUser trade.sellerId ⟨.userTradeExecuted, .trade trade⟩

/-- The client is listed under the user, whose list is made if it is missing. -/
def listUser (userSubscriptions : JsMap String StringSet) (userId : Option String) (clientId : String) :
    JsMap String StringSet :=
  match truthy userId with
  | some u => userSubscriptions.set u (((userSubscriptions.get u).getD JsMap.new).set clientId ())
  | none => userSubscriptions

def subscribeToChannel (s : WebSocketService) (clientId channel : String) : WebSocketService :=
  match s.clients.get clientId with
  | none => s
  | some client =>
    { s with
      subscriptions := s.subscriptions.set channel (((s.subscriptions.get channel).getD JsMap.new).set clientId ())
      clients := s.clients.set clientId { client with subscriptions := client.subscriptions.set channel () }
      userSubscriptions := listUser s.userSubscriptions client.userId clientId }

/-- A channel without its client. The channel goes with its last client. -/
def leaveChannel (subscriptions : JsMap String StringSet) (clientId channel : String) : JsMap String StringSet :=
  match subscriptions.get channel with
  | none => subscriptions
  | some channelSubs =>
    if (channelSubs.delete clientId).size = 0 then subscriptions.delete channel
    else subscriptions.set channel (channelSubs.delete clientId)

def unsubscribeFromChannel (s : WebSocketService) (clientId channel : String) : WebSocketService :=
  match s.clients.get clientId with
  | none => s
  | some client =>
    { s with
      subscriptions := leaveChannel s.subscriptions clientId channel
      clients := s.clients.set clientId { client with subscriptions := client.subscriptions.delete channel } }

/-- `unsubscribeFromChannel`, for each of the channels. -/
def unsubscribeFromAll (s : WebSocketService) (clientId : String) (channels : List String) : WebSocketService :=
  channels.foldl (fun s channel => s.unsubscribeFromChannel clientId channel) s

def restoreUserSubscriptions (s : WebSocketService) (userId clientId : String) : WebSocketService :=
  match s.userSubscriptions.get userId with
  | some userChannels => { s with userSubscriptions := s.userSubscriptions.set userId (userChannels.set clientId ()) }
  | none => s

def validateSubscription (client : WebSocketClient) (channel : String) : Bool :=
  !("admin:".isPrefixOf channel && client.userRole ≠ some "admin")

/-- `handleConnection`, with the ids that `uuidv4` gives. -/
def handleConnection (uuidv4 : ℕ ↪ String) (s : WebSocketService) : Emitted × WebSocketService :=
  let clientId := uuidv4 s.issued
  let sessionId := uuidv4 (s.issued + 1)
  let s := { s with
    issued := s.issued + 2
    clients := s.clients.set clientId ⟨clientId, sessionId, true, JsMap.new, false, none, none⟩ }
  (s.sendToClient clientId ⟨.connect, .session clientId sessionId⟩, s)

def handleDisconnect (s : WebSocketService) (clientId : String) : WebSocketService :=
  match s.clients.get clientId with
  | none => s
  | some wsClient =>
    let s := s.unsubscribeFromAll clientId wsClient.subscriptions.keys
    { s with
      userSubscriptions := match truthy wsClient.userId with
        | some userId => s.userSubscriptions.delete userId
        | none => s.userSubscriptions
      clients := s.clients.delete clientId }

/-- `handleAuthenticate`. `verify` gives the payload of a token that is valid. -/
def handleAuthenticate (verify : String → Option JwtPayload) (s : WebSocketService) (clientId token : String) :
    Emitted × WebSocketService :=
  match s.clients.get clientId with
  | none => (s.sendToClient clientId ⟨.authFailed, .error "Client not found"⟩, s)
  | some wsClient =>
    match verify token with
    | none => (s.sendToClient clientId ⟨.authFailed, .error "Invalid token"⟩, s)
    | some payload =>
      let s := { s with
        clients := s.clients.set clientId
          { wsClient with userId := payload.sub, authenticated := true, userRole := payload.role } }
      let s := match truthy payload.sub with
        | some userId => s.restoreUserSubscriptions userId clientId
        | none => s
      (s.sendToClient clientId ⟨.authSuccess, .user payload.sub⟩, s)

/-- The channels that the client is subscribed to. -/
def channelsOf (s : WebSocketService) (clientId : String) : List String :=
  match s.clients.get clientId with
  | some client => client.subscriptions.keys
  | none => []

/-- The channels that pass are subscribed to, one after the other. -/
def subscribeToAll (s : WebSocketService) (client : WebSocketClient) (clientId : String) (channels : List String) :
    WebSocketService :=
  channels.foldl
    (fun s channel => if validateSubscription client channel then s.subscribeToChannel clientId channel else s) s

def handleSubscribe (s : WebSocketService) (clientId : String) (channels : List String) :
    Emitted × WebSocketService :=
  match s.clients.get clientId with
  | none => (s.sendToClient clientId ⟨.error, .error "Authentication required"⟩, s)
  | some wsClient =>
    if wsClient.authenticated then
      let s := s.subscribeToAll wsClient clientId channels
      (s.sendToClient clientId ⟨.connect, .channels "Subscribed to channels" (s.channelsOf clientId)⟩, s)
    else (s.sendToClient clientId ⟨.error, .error "Authentication required"⟩, s)

def handleUnsubscribe (s : WebSocketService) (clientId : String) (channels : List String) :
    Emitted × WebSocketService :=
  match s.clients.get clientId with
  | none => ([], s)
  | some _ =>
    let s := s.unsubscribeFromAll clientId channels
    (s.sendToClient clientId ⟨.connect, .channels "Unsubscribed from channels" (s.channelsOf clientId)⟩, s)

/-- The socket of a client is closed, before its handler runs. -/
def closeSocket (s : WebSocketService) (clientId : String) : WebSocketService :=
  match s.clients.get clientId with
  | none => s
  | some client => { s with clients := s.clients.set clientId { client with connected := false } }

end WebSocketService

/-! ## Runs -/

/-- An event. A socket is closed, and its handler runs then or later. -/
inductive WebSocketEvent where
  | connect
  | authenticate (clientId token : String)
  | subscribe (clientId : String) (channels : List String)
  | unsubscribe (clientId : String) (channels : List String)
  | close (clientId : String)
  | disconnect (clientId : String)

/-- One event: what is emitted, and the service after it. -/
def perform (uuidv4 : ℕ ↪ String) (verify : String → Option JwtPayload) (s : WebSocketService) :
    WebSocketEvent → Emitted × WebSocketService
  | .connect => s.handleConnection uuidv4
  | .authenticate clientId token => s.handleAuthenticate verify clientId token
  | .subscribe clientId channels => s.handleSubscribe clientId channels
  | .unsubscribe clientId channels => s.handleUnsubscribe clientId channels
  | .close clientId => ([], s.closeSocket clientId)
  | .disconnect clientId => ([], s.handleDisconnect clientId)

/-! ## Routes -/

namespace WebSocketService

/-- The current user of a client, and whether its socket is connected. -/
def identity (s : WebSocketService) (clientId : String) : Option (Option String × Bool) :=
  (s.clients.get clientId).map fun client => (client.userId, client.connected)

/-- Whether a client is listed under a user. -/
def isListed (s : WebSocketService) (userId clientId : String) : Bool :=
  match s.userSubscriptions.get userId with
  | some userSubscriptions => userSubscriptions.has clientId
  | none => false

variable {s : WebSocketService} {clientId id u : String} {message m : WebSocketMessage}

theorem mem_sendToClient : (id, m) ∈ s.sendToClient clientId message ↔
    (id = clientId ∧ m = message) ∧ ∃ v, s.identity clientId = some (v, true) := by
  rw [sendToClient, identity]
  cases s.clients.get clientId with
  | none => simp
  | some client => cases hconnected : client.connected <;> simp [hconnected]

/-- **Who receives the messages of a user**: the clients that are listed, if they are connected. -/
theorem mem_sendToUser : (id, m) ∈ s.sendToUser u message ↔
    m = message ∧ s.isListed u id ∧ ∃ v, s.identity id = some (v, true) := by
  rw [sendToUser, isListed]
  cases s.userSubscriptions.get u with
  | none => simp
  | some ids =>
    simp only [List.mem_flatMap, mem_sendToClient, JsMap.mem_keys]
    constructor
    · rintro ⟨_, hlisted, ⟨rfl, rfl⟩, hconnected⟩
      exact ⟨rfl, hlisted, hconnected⟩
    · rintro ⟨rfl, hlisted, hconnected⟩
      exact ⟨id, hlisted, ⟨rfl, rfl⟩, hconnected⟩

theorem truthy_eq_some {userId : Option String} : truthy userId = some u ↔ userId = some u ∧ u ≠ "" := by
  simp [truthy, Option.filter_eq_some_iff]

theorem identity_of_clients (s s' : WebSocketService) (client : WebSocketClient)
    (hclients : s'.clients = s.clients.set clientId client) (id : String) :
    s'.identity id = if id = clientId then some (client.userId, client.connected) else s.identity id := by
  rw [identity, hclients, JsMap.get_set]
  split <;> rfl

theorem identity_of_same {s' : WebSocketService} {client : WebSocketClient} (client' : WebSocketClient)
    (hget : s.clients.get clientId = some client) (hclients : s'.clients = s.clients.set clientId client')
    (huser : client'.userId = client.userId) (hconnected : client'.connected = client.connected) (id : String) :
    s'.identity id = s.identity id := by
  rw [identity_of_clients s s' client' hclients, huser, hconnected]
  split
  next h => rw [h, identity, hget]; rfl
  next => rfl

theorem isListed_congr {s' : WebSocketService} (h : s'.userSubscriptions = s.userSubscriptions) (u id : String) :
    s'.isListed u id = s.isListed u id := by
  rw [isListed, isListed, h]

theorem isListed_of_set {s' : WebSocketService} {userId : String}
    (h : s'.userSubscriptions = s.userSubscriptions.set userId
      (((s.userSubscriptions.get userId).getD JsMap.new).set clientId ())) :
    s'.isListed u id ↔ s.isListed u id ∨ id = clientId ∧ u = userId := by
  rw [isListed, isListed, h, JsMap.get_set]
  by_cases hu : u = userId
  · subst hu
    rw [if_pos rfl]
    cases s.userSubscriptions.get u <;> by_cases hid : id = clientId <;> simp [JsMap.has, JsMap.get_set, hid]
  · simp [hu]

/-! ### Unsubscribing -/

@[simp] theorem identity_unsubscribeFromChannel (s : WebSocketService) (clientId channel : String) :
    (s.unsubscribeFromChannel clientId channel).identity = s.identity := by
  ext1 id
  cases hget : s.clients.get clientId with
  | none => rw [unsubscribeFromChannel, hget]
  | some client =>
    apply identity_of_same { client with subscriptions := client.subscriptions.delete channel } hget _ rfl
    · rfl
    · rw [unsubscribeFromChannel, hget]

@[simp] theorem userSubscriptions_unsubscribeFromChannel (s : WebSocketService) (clientId channel : String) :
    (s.unsubscribeFromChannel clientId channel).userSubscriptions = s.userSubscriptions := by
  rw [unsubscribeFromChannel]
  split <;> rfl

@[simp] theorem issued_unsubscribeFromChannel (s : WebSocketService) (clientId channel : String) :
    (s.unsubscribeFromChannel clientId channel).issued = s.issued := by
  rw [unsubscribeFromChannel]
  split <;> rfl

/-- Unsubscribing changes no route. -/
theorem unsubscribeFromAll_spec (s : WebSocketService) (clientId : String) (channels : List String) :
    (s.unsubscribeFromAll clientId channels).identity = s.identity ∧
      (s.unsubscribeFromAll clientId channels).userSubscriptions = s.userSubscriptions ∧
        (s.unsubscribeFromAll clientId channels).issued = s.issued := by
  induction channels generalizing s with
  | nil => exact ⟨rfl, rfl, rfl⟩
  | cons channel channels ih =>
    have hrest := ih (s.unsubscribeFromChannel clientId channel)
    rwa [identity_unsubscribeFromChannel, userSubscriptions_unsubscribeFromChannel,
      issued_unsubscribeFromChannel] at hrest

/-! ### Subscribing -/

@[simp] theorem identity_subscribeToChannel (s : WebSocketService) (clientId channel : String) :
    (s.subscribeToChannel clientId channel).identity = s.identity := by
  ext1 id
  cases hget : s.clients.get clientId with
  | none => rw [subscribeToChannel, hget]
  | some client =>
    apply identity_of_same { client with subscriptions := client.subscriptions.set channel () } hget _ rfl
    · rfl
    · rw [subscribeToChannel, hget]

@[simp] theorem issued_subscribeToChannel (s : WebSocketService) (clientId channel : String) :
    (s.subscribeToChannel clientId channel).issued = s.issued := by
  rw [subscribeToChannel]
  split <;> rfl

/-- A client that subscribes is listed under its user. -/
theorem isListed_subscribeToChannel (s : WebSocketService) (clientId channel u id : String) :
    (s.subscribeToChannel clientId channel).isListed u id ↔
      s.isListed u id ∨ id = clientId ∧ u ≠ "" ∧ ∃ connected, s.identity clientId = some (some u, connected) := by
  cases hget : s.clients.get clientId with
  | none => simp [subscribeToChannel, identity, hget]
  | some client =>
    have hafter : (s.subscribeToChannel clientId channel).userSubscriptions =
        listUser s.userSubscriptions client.userId clientId := by
      rw [subscribeToChannel, hget]
    cases htruthy : truthy client.userId with
    | none =>
      -- an absent or empty user id is falsy: nobody is listed
      rw [listUser, htruthy] at hafter
      have hfalsy : client.userId = some u → u = "" := by
        intro huser
        by_contra hu
        rw [truthy_eq_some.mpr ⟨huser, hu⟩] at htruthy
        contradiction
      rw [isListed_congr hafter, identity, hget]
      simp only [Option.map_some, Option.some.injEq, Prod.mk.injEq]
      constructor
      · exact Or.inl
      · rintro (hlisted | ⟨-, hu, connected, huser, -⟩)
        · exact hlisted
        · exact absurd (hfalsy huser) hu
    | some userId =>
      rw [listUser, htruthy] at hafter
      obtain ⟨huser, hne⟩ := truthy_eq_some.mp htruthy
      rw [isListed_of_set hafter, identity, hget]
      simp only [Option.map_some, Option.some.injEq, Prod.mk.injEq, huser]
      constructor
      · rintro (hlisted | ⟨rfl, rfl⟩)
        · exact .inl hlisted
        · exact .inr ⟨rfl, hne, client.connected, rfl, rfl⟩
      · rintro (hlisted | ⟨rfl, -, connected, rfl, -⟩)
        · exact .inl hlisted
        · exact .inr ⟨rfl, rfl⟩

theorem subscribeToAll_same (s : WebSocketService) (client : WebSocketClient) (clientId : String)
    (channels : List String) : (s.subscribeToAll client clientId channels).identity = s.identity ∧
      (s.subscribeToAll client clientId channels).issued = s.issued := by
  induction channels generalizing s with
  | nil => exact ⟨rfl, rfl⟩
  | cons channel channels ih =>
    rw [subscribeToAll, List.foldl_cons]
    split
    · have hrest := ih (s.subscribeToChannel clientId channel)
      rwa [identity_subscribeToChannel, issued_subscribeToChannel] at hrest
    · exact ih s

/-- **A client that subscribes to a channel is listed under its user.** -/
theorem isListed_subscribeToAll (s : WebSocketService) (client : WebSocketClient) (clientId : String)
    (channels : List String) (u id : String) :
    (s.subscribeToAll client clientId channels).isListed u id ↔ s.isListed u id ∨
      channels.any (validateSubscription client) ∧ id = clientId ∧ u ≠ "" ∧
        ∃ connected, s.identity clientId = some (some u, connected) := by
  induction channels generalizing s with
  | nil => simp [subscribeToAll]
  | cons channel channels ih =>
    rw [subscribeToAll, List.foldl_cons, List.any_cons]
    split
    next hvalid =>
      have hrest := ih (s.subscribeToChannel clientId channel)
      rw [identity_subscribeToChannel, isListed_subscribeToChannel] at hrest
      refine hrest.trans ?_
      -- a channel that is subscribed to lists the connection, whatever the others do
      rw [hvalid, Bool.true_or, or_assoc, or_iff_left_of_imp And.right, eq_self, true_and]
    next hvalid =>
      have hinvalid := Bool.eq_false_iff.mpr hvalid
      rw [hinvalid, Bool.false_or]
      exact ih s

/-- Whether `handleSubscribe` subscribes to one of the channels. -/
def subscribes (s : WebSocketService) (clientId : String) (channels : List String) : Bool :=
  match s.clients.get clientId with
  | some client => client.authenticated && channels.any (validateSubscription client)
  | none => false

theorem handleSubscribe_same (s : WebSocketService) (clientId : String) (channels : List String) :
    (s.handleSubscribe clientId channels).2.identity = s.identity ∧
      (s.handleSubscribe clientId channels).2.issued = s.issued := by
  rw [handleSubscribe]
  split
  · exact ⟨rfl, rfl⟩
  split
  · exact subscribeToAll_same s _ clientId channels
  · exact ⟨rfl, rfl⟩

theorem isListed_handleSubscribe (s : WebSocketService) (clientId : String) (channels : List String) (u id : String) :
    (s.handleSubscribe clientId channels).2.isListed u id ↔ s.isListed u id ∨
      s.subscribes clientId channels ∧ id = clientId ∧ u ≠ "" ∧
        ∃ connected, s.identity clientId = some (some u, connected) := by
  cases hget : s.clients.get clientId with
  | none => simp [handleSubscribe, subscribes, hget]
  | some client =>
    rw [handleSubscribe, subscribes, hget]
    cases hauthenticated : client.authenticated with
    | false => simp [hauthenticated]
    | true => simpa [hauthenticated] using isListed_subscribeToAll s client clientId channels u id

theorem handleUnsubscribe_same (s : WebSocketService) (clientId : String) (channels : List String) :
    (s.handleUnsubscribe clientId channels).2.identity = s.identity ∧
      (s.handleUnsubscribe clientId channels).2.userSubscriptions = s.userSubscriptions ∧
        (s.handleUnsubscribe clientId channels).2.issued = s.issued := by
  rw [handleUnsubscribe]
  split
  · exact ⟨rfl, rfl, rfl⟩
  · exact unsubscribeFromAll_spec s clientId channels

/-! ### Authenticating and disconnecting -/

variable {client : WebSocketClient}

@[simp] theorem identity_restoreUserSubscriptions (s : WebSocketService) (userId clientId : String) :
    (s.restoreUserSubscriptions userId clientId).identity = s.identity := by
  rw [restoreUserSubscriptions]
  split <;> rfl

@[simp] theorem issued_restoreUserSubscriptions (s : WebSocketService) (userId clientId : String) :
    (s.restoreUserSubscriptions userId clientId).issued = s.issued := by
  rw [restoreUserSubscriptions]
  split <;> rfl

theorem isListed_restoreUserSubscriptions (s : WebSocketService) (userId clientId u id : String) :
    (s.restoreUserSubscriptions userId clientId).isListed u id ↔
      s.isListed u id ∨ id = clientId ∧ u = userId ∧ s.userSubscriptions.has u := by
  cases hget : s.userSubscriptions.get userId with
  | none =>
    have hnone : u = userId → s.userSubscriptions.has u = false := by
      rintro rfl
      rw [JsMap.has, hget]
      rfl
    rw [restoreUserSubscriptions, hget]
    constructor
    · exact Or.inl
    · rintro (hlisted | ⟨-, hu, hhas⟩)
      · exact hlisted
      · rw [hnone hu] at hhas
        contradiction
  | some ids =>
    have hhas : u = userId → s.userSubscriptions.has u := by
      rintro rfl
      rw [JsMap.has, hget]
      rfl
    have hafter : (s.restoreUserSubscriptions userId clientId).userSubscriptions =
        s.userSubscriptions.set userId (((s.userSubscriptions.get userId).getD JsMap.new).set clientId ()) := by
      rw [restoreUserSubscriptions, hget]
      rfl
    rw [isListed_of_set hafter]
    tauto

variable {verify : String → Option JwtPayload} {token : String} {payload : JwtPayload}

theorem handleAuthenticate_of_invalid (h : verify token = none) (clientId : String) :
    (s.handleAuthenticate verify clientId token).2 = s := by
  rw [handleAuthenticate, h]
  split <;> rfl

theorem handleAuthenticate_of_unknown (h : s.clients.get clientId = none) (token : String) :
    (s.handleAuthenticate verify clientId token).2 = s := by
  rw [handleAuthenticate, h]

/-- A client that authenticates has the user of the token, and keeps its socket. -/
theorem identity_handleAuthenticate (hget : s.clients.get clientId = some client) (hverify : verify token = some payload)
    (id : String) : (s.handleAuthenticate verify clientId token).2.identity id =
      if id = clientId then some (payload.sub, client.connected) else s.identity id := by
  let client' : WebSocketClient := { client with userId := payload.sub, authenticated := true, userRole := payload.role }
  rw [handleAuthenticate, hget, hverify]
  dsimp only
  split
  · rw [identity_restoreUserSubscriptions]
    exact identity_of_clients s _ client' rfl id
  · exact identity_of_clients s _ client' rfl id

theorem issued_handleAuthenticate (s : WebSocketService) (clientId token : String) :
    (s.handleAuthenticate verify clientId token).2.issued = s.issued := by
  rw [handleAuthenticate]
  split
  · rfl
  split
  · rfl
  dsimp only
  split
  · rw [issued_restoreUserSubscriptions]
  · rfl

/-- **A client that authenticates is listed under its new user if others are.** It stays listed
under its old user. -/
theorem isListed_handleAuthenticate (hget : s.clients.get clientId = some client) (hverify : verify token = some payload)
    (u id : String) : (s.handleAuthenticate verify clientId token).2.isListed u id ↔
      s.isListed u id ∨ id = clientId ∧ (payload.sub = some u ∧ u ≠ "") ∧ s.userSubscriptions.has u := by
  rw [handleAuthenticate, hget, hverify]
  dsimp only
  split
  next userId htruthy =>
    rw [isListed_restoreUserSubscriptions, ← truthy_eq_some, htruthy, Option.some.injEq, eq_comm (a := u)]
    exact Iff.rfl
  next htruthy =>
    rw [← truthy_eq_some, htruthy]
    simp only [reduceCtorEq, false_and, and_false, or_false]
    exact Iff.rfl

theorem handleDisconnect_of_unknown (h : s.clients.get clientId = none) : s.handleDisconnect clientId = s := by
  rw [handleDisconnect, h]

theorem issued_handleDisconnect (s : WebSocketService) (clientId : String) :
    (s.handleDisconnect clientId).issued = s.issued := by
  rw [handleDisconnect]
  split
  · rfl
  · exact (unsubscribeFromAll_spec s clientId _).2.2

theorem identity_handleDisconnect (s : WebSocketService) (clientId id : String) :
    (s.handleDisconnect clientId).identity id = if id = clientId then none else s.identity id := by
  cases hget : s.clients.get clientId with
  | none =>
    rw [handleDisconnect_of_unknown hget]
    split
    next h => rw [h, identity, hget]; rfl
    next => rfl
  | some client =>
    have hsame := congrFun (unsubscribeFromAll_spec s clientId client.subscriptions.keys).1 id
    rw [handleDisconnect, hget]
    simp only [identity, JsMap.get_delete] at hsame ⊢
    split
    · rfl
    · exact hsame

/-- **The list of a user is dropped when one of its clients disconnects.** -/
theorem isListed_handleDisconnect (s : WebSocketService) (clientId u id : String) :
    (s.handleDisconnect clientId).isListed u id ↔
      s.isListed u id ∧ ¬ (u ≠ "" ∧ ∃ connected, s.identity clientId = some (some u, connected)) := by
  cases hget : s.clients.get clientId with
  | none => simp [handleDisconnect_of_unknown hget, identity, hget]
  | some client =>
    have hlists := (unsubscribeFromAll_spec s clientId client.subscriptions.keys).2.1
    rw [handleDisconnect, hget, identity, hget]
    simp only [isListed, hlists, Option.map_some, Option.some.injEq, Prod.mk.injEq, exists_and_left, exists_eq',
      and_true]
    rw [and_comm (a := u ≠ ""), ← truthy_eq_some]
    cases htruthy : truthy client.userId with
    | none => simp
    | some userId =>
      simp only [JsMap.get_delete, Option.some.injEq, eq_comm (a := userId)]
      by_cases hu : u = userId <;> simp [hu]

/-! ### Sockets -/

theorem identity_handleConnection (uuidv4 : ℕ ↪ String) (s : WebSocketService) (id : String) :
    (s.handleConnection uuidv4).2.identity id =
      if id = uuidv4 s.issued then some (none, true) else s.identity id :=
  identity_of_clients s _ ⟨uuidv4 s.issued, uuidv4 (s.issued + 1), true, JsMap.new, false, none, none⟩ rfl id

theorem identity_closeSocket (s : WebSocketService) (clientId id : String) :
    (s.closeSocket clientId).identity id =
      if id = clientId then (s.identity id).map fun person => (person.1, false) else s.identity id := by
  cases hget : s.clients.get clientId with
  | none =>
    have hsame : s.closeSocket clientId = s := by rw [closeSocket, hget]
    rw [hsame]
    split
    next h => rw [h, identity, hget]; rfl
    next => rfl
  | some client =>
    have hclients : (s.closeSocket clientId).clients = s.clients.set clientId { client with connected := false } := by
      rw [closeSocket, hget]
    rw [identity_of_clients s _ _ hclients]
    split
    next h => rw [h, identity, hget]; rfl
    next => rfl

theorem closeSocket_same (s : WebSocketService) (clientId : String) :
    (s.closeSocket clientId).userSubscriptions = s.userSubscriptions ∧ (s.closeSocket clientId).issued = s.issued := by
  rw [closeSocket]
  split <;> exact ⟨rfl, rfl⟩

end WebSocketService

end WebSockets
