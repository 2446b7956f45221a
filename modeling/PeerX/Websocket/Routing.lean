import PeerX.Websocket.Service

/-!
# WebSocket: private messages

Which clients have subscribed since they authenticated as their user is watched beside the service.
A message for a user reaches the clients of that user, and nobody else, along exactly those runs in
which no listed client authenticates as somebody else, and no client disconnects while another one
of its user counts on its messages.

## Main results

* `Sound.step`: who can be listed
* `routed_step_iff`: what each event does to the routes
* `routed_throughout_iff`: the runs in whose states all messages are routed
-/

namespace WebSockets

open Concurrency Relational

/-- The service, and which clients have subscribed to a channel since they authenticated as
their current user. -/
structure Watched where
  service : WebSocketService
  subscribed : String → Bool

/-- A new service. -/
def Watched.new : Watched := ⟨.new, fun _ => false⟩

variable (uuidv4 : ℕ ↪ String) (verify : String → Option JwtPayload)

/-- The clients that have subscribed since they authenticated as their user, after an event. -/
def subscribedAfter (w : Watched) (e : WebSocketEvent) (id : String) : Bool :=
  match e with
  | .authenticate clientId _ => w.subscribed id &&
      (id ≠ clientId || (perform uuidv4 verify w.service e).2.identity id = w.service.identity id)
  | .subscribe clientId channels => w.subscribed id || id = clientId && w.service.subscribes clientId channels
  | _ => w.subscribed id

/-- One event. -/
def step (w : Watched) (e : WebSocketEvent) : Watched where
  service := (perform uuidv4 verify w.service e).2
  subscribed := subscribedAfter uuidv4 verify w e

/-- Each message reaches the clients of its user: nobody else among the connected clients, and
each connected client of the user that has subscribed since it authenticated. -/
structure Routed (w : Watched) : Prop where
  only : ∀ u message id m client, (id, m) ∈ w.service.sendToUser u message → w.service.clients.get id = some client →
    client.userId = some u
  all : ∀ u message id client, w.service.clients.get id = some client → client.connected → client.userId = some u →
    w.subscribed id → (id, message) ∈ w.service.sendToUser u message

/-- The events that do not mix up clients and users. A client that is listed under its user does
not authenticate as somebody else. A client whose user id is empty does not subscribe. No client
disconnects while another client of its user is connected and has subscribed. -/
def Separate (w : Watched) : WebSocketEvent → Prop
  | .authenticate clientId token => ∀ client payload, w.service.clients.get clientId = some client → client.connected →
      verify token = some payload → payload.sub ≠ client.userId →
        ∀ u, client.userId = some u → ¬ w.service.isListed u clientId
  | .subscribe clientId channels => ∀ client, w.service.clients.get clientId = some client → client.connected →
      client.userId = some "" → ¬ w.service.subscribes clientId channels
  | .disconnect clientId => ∀ client u, w.service.clients.get clientId = some client → client.userId = some u → u ≠ "" →
      ∀ id other, id ≠ clientId → w.service.clients.get id = some other → other.connected → other.userId = some u →
        ¬ w.subscribed id
  | _ => True

/-! ## Who can be listed -/

/-- Clients have issued ids, and so have those that are listed, and no list has an empty user
id. -/
structure Sound (s : WebSocketService) : Prop where
  issued : ∀ id person, s.identity id = some person → ∃ n < s.issued, id = uuidv4 n
  listed : ∀ u id, s.isListed u id → u ≠ "" ∧ ∃ n < s.issued, id = uuidv4 n

variable {uuidv4 verify} {s : WebSocketService} {w : Watched}

theorem Sound.new : Sound uuidv4 .new where
  issued := by simp [WebSocketService.new, WebSocketService.identity]
  listed := by simp [WebSocketService.new, WebSocketService.isListed]

/-- The id of a new client is not listed, and has no client. -/
theorem Sound.fresh (h : Sound uuidv4 s) (u : String) : ¬ s.isListed u (uuidv4 s.issued) := by
  intro hlisted
  obtain ⟨-, n, hn, hid⟩ := h.listed u _ hlisted
  have heq := uuidv4.injective hid
  omega

theorem Sound.of_listed {s' : WebSocketService} (h : Sound uuidv4 s) (hissued : s'.issued = s.issued)
    (hidentity : ∀ id person', s'.identity id = some person' → ∃ person, s.identity id = some person)
    (hlisted : ∀ u id, s'.isListed u id → s.isListed u id ∨ u ≠ "" ∧ ∃ person, s.identity id = some person) :
    Sound uuidv4 s' where
  issued := by
    intro id person' hperson'
    obtain ⟨person, hperson⟩ := hidentity id person' hperson'
    rw [hissued]
    exact h.issued id person hperson
  listed := by
    intro u id hid
    rw [hissued]
    rcases hlisted u id hid with hbefore | ⟨hu, person, hperson⟩
    · exact h.listed u id hbefore
    · exact ⟨hu, h.issued id person hperson⟩

/-- Connecting issues two ids: the client's is the first. -/
theorem Sound.handleConnection (h : Sound uuidv4 s) : Sound uuidv4 (s.handleConnection uuidv4).2 where
  issued := by
    intro id person hperson
    rw [WebSocketService.identity_handleConnection] at hperson
    split at hperson
    next hid => exact ⟨s.issued, by simp [WebSocketService.handleConnection], hid⟩
    next =>
      obtain ⟨n, hn, hid⟩ := h.issued id person hperson
      exact ⟨n, Nat.lt_add_right 2 hn, hid⟩
  listed := by
    intro u id hlisted
    obtain ⟨hu, n, hn, hid⟩ := h.listed u id hlisted
    exact ⟨hu, n, Nat.lt_add_right 2 hn, hid⟩

theorem Sound.handleAuthenticate (h : Sound uuidv4 s) (clientId token : String) :
    Sound uuidv4 (s.handleAuthenticate verify clientId token).2 := by
  cases hget : s.clients.get clientId with
  | none => rwa [WebSocketService.handleAuthenticate_of_unknown hget]
  | some client =>
  cases hverify : verify token with
  | none => rwa [WebSocketService.handleAuthenticate_of_invalid hverify]
  | some payload =>
    have hclient : s.identity clientId = some (client.userId, client.connected) := by
      rw [WebSocketService.identity, hget]
      rfl
    apply h.of_listed (s.issued_handleAuthenticate clientId token)
    · intro id person hperson
      rw [WebSocketService.identity_handleAuthenticate hget hverify] at hperson
      split at hperson
      next hid => exact ⟨_, hid ▸ hclient⟩
      next => exact ⟨person, hperson⟩
    · intro u id hlisted
      rw [WebSocketService.isListed_handleAuthenticate hget hverify] at hlisted
      rcases hlisted with hbefore | ⟨rfl, ⟨-, hu⟩, -⟩
      · exact .inl hbefore
      · exact .inr ⟨hu, _, hclient⟩

/-- Subscribing lists nobody but a client that is there. -/
theorem Sound.handleSubscribe (h : Sound uuidv4 s) (clientId : String) (channels : List String) :
    Sound uuidv4 (s.handleSubscribe clientId channels).2 := by
  obtain ⟨hidentity, hissued⟩ := s.handleSubscribe_same clientId channels
  apply h.of_listed hissued
  · intro id person hperson
    exact ⟨person, hidentity ▸ hperson⟩
  · intro u id hlisted
    rcases (s.isListed_handleSubscribe clientId channels u id).mp hlisted with hbefore | ⟨-, rfl, hu, _, hclient⟩
    · exact .inl hbefore
    · exact .inr ⟨hu, _, hclient⟩

theorem Sound.handleUnsubscribe (h : Sound uuidv4 s) (clientId : String) (channels : List String) :
    Sound uuidv4 (s.handleUnsubscribe clientId channels).2 := by
  obtain ⟨hidentity, hlists, hissued⟩ := s.handleUnsubscribe_same clientId channels
  apply h.of_listed hissued
  · intro id person hperson
    exact ⟨person, hidentity ▸ hperson⟩
  · intro u id hlisted
    exact .inl ((WebSocketService.isListed_congr hlists u id).symm.trans hlisted)

theorem Sound.closeSocket (h : Sound uuidv4 s) (clientId : String) : Sound uuidv4 (s.closeSocket clientId) := by
  obtain ⟨hlists, hissued⟩ := s.closeSocket_same clientId
  apply h.of_listed hissued
  · intro id person hperson
    rw [WebSocketService.identity_closeSocket] at hperson
    split at hperson
    · obtain ⟨before, hbefore, -⟩ := Option.map_eq_some_iff.mp hperson
      exact ⟨before, hbefore⟩
    · exact ⟨person, hperson⟩
  · intro u id hlisted
    exact .inl ((WebSocketService.isListed_congr hlists u id).symm.trans hlisted)

theorem Sound.handleDisconnect (h : Sound uuidv4 s) (clientId : String) : Sound uuidv4 (s.handleDisconnect clientId) := by
  apply h.of_listed (s.issued_handleDisconnect clientId)
  · intro id person hperson
    rw [WebSocketService.identity_handleDisconnect] at hperson
    split at hperson
    · contradiction
    · exact ⟨person, hperson⟩
  · intro u id hlisted
    exact .inl ((s.isListed_handleDisconnect clientId u id).mp hlisted).1

theorem Sound.step (h : Sound uuidv4 s) (e : WebSocketEvent) : Sound uuidv4 (perform uuidv4 verify s e).2 := by
  cases e with
  | connect => exact h.handleConnection
  | authenticate clientId token => exact h.handleAuthenticate clientId token
  | subscribe clientId channels => exact h.handleSubscribe clientId channels
  | unsubscribe clientId channels => exact h.handleUnsubscribe clientId channels
  | close clientId => exact h.closeSocket clientId
  | disconnect clientId => exact h.handleDisconnect clientId

/-! ## What each event does to the routes -/

theorem identity_eq_some (s : WebSocketService) (id : String) (v : Option String) (connected : Bool) :
    s.identity id = some (v, connected) ↔
      ∃ client, s.clients.get id = some client ∧ client.userId = v ∧ client.connected = connected := by
  simp [WebSocketService.identity, Option.map_eq_some_iff]

/-- The routes: who is listed under a user is a client of the user, and who counts on its
messages is listed. -/
theorem routed_iff : Routed w ↔
    (∀ u id v, w.service.isListed u id → w.service.identity id = some (v, true) → v = some u) ∧
      ∀ u id, w.service.identity id = some (some u, true) → w.subscribed id → w.service.isListed u id := by
  constructor
  · intro h
    constructor
    · intro u id v hlisted hidentity
      obtain ⟨client, hget, rfl, hconnected⟩ := (identity_eq_some _ _ _ _).mp hidentity
      let message : WebSocketMessage := ⟨.error, .error ""⟩
      exact h.only u message id message client
        (WebSocketService.mem_sendToUser.mpr ⟨rfl, hlisted, _, hidentity⟩) hget
    · intro u id hidentity hsubscribed
      obtain ⟨client, hget, huser, hconnected⟩ := (identity_eq_some _ _ _ _).mp hidentity
      have hmem := h.all u ⟨.error, .error ""⟩ id client hget hconnected huser hsubscribed
      exact (WebSocketService.mem_sendToUser.mp hmem).2.1
  · rintro ⟨honly, hall⟩
    constructor
    · intro u message id m client hmem hget
      obtain ⟨-, hlisted, v, hidentity⟩ := WebSocketService.mem_sendToUser.mp hmem
      obtain ⟨client', hget', rfl, -⟩ := (identity_eq_some _ _ _ _).mp hidentity
      obtain rfl : client' = client := Option.some.inj (hget'.symm.trans hget)
      exact honly u id _ hlisted hidentity
    · intro u message id client hget hconnected huser hsubscribed
      have hidentity : w.service.identity id = some (some u, true) :=
        (identity_eq_some _ _ _ _).mpr ⟨client, hget, huser, hconnected⟩
      exact WebSocketService.mem_sendToUser.mpr ⟨rfl, hall u id hidentity hsubscribed, _, hidentity⟩

/-- An event that lists nobody, and keeps the user of each client that stays connected. -/
theorem Routed.of_same {w' : Watched} (h : Routed w)
    (hidentity : ∀ id v, w'.service.identity id = some (v, true) → w.service.identity id = some (v, true))
    (hlists : w'.service.isListed = w.service.isListed) (hsubscribed : w'.subscribed = w.subscribed) : Routed w' := by
  rw [routed_iff] at h ⊢
  rw [hlists, hsubscribed]
  refine ⟨fun u id v hlisted hperson => ?_, fun u id hperson hcounts => ?_⟩
  · exact h.1 u id v hlisted (hidentity id v hperson)
  · exact h.2 u id (hidentity id _ hperson) hcounts

theorem routed_connect (hs : Sound uuidv4 w.service) (h : Routed w) : Routed (step uuidv4 verify w .connect) := by
  rw [routed_iff] at h ⊢
  have hidentity := w.service.identity_handleConnection uuidv4
  constructor
  · intro u id v hlisted hperson
    rw [step, perform, hidentity] at hperson
    split at hperson
    next hid => exact absurd (hid ▸ hlisted) (hs.fresh u)
    next => exact h.1 u id v hlisted hperson
  · intro u id hperson hcounts
    rw [step, perform, hidentity] at hperson
    split at hperson
    next => cases hperson
    next => exact h.2 u id hperson hcounts

theorem routed_authenticate_failed (h : Routed w) {clientId token : String}
    (hsame : (w.service.handleAuthenticate verify clientId token).2 = w.service) :
    Routed (step uuidv4 verify w (.authenticate clientId token)) := by
  have hservice : (perform uuidv4 verify w.service (.authenticate clientId token)).2 = w.service := hsame
  apply h.of_same
  · intro id v hperson
    rwa [step, hservice] at hperson
  · rw [step, hservice]
  · funext id
    simp [step, subscribedAfter, hservice]

/-- Authenticating leaves the client under its old user. -/
theorem routed_authenticate_iff (h : Routed w) (clientId token : String) :
    Routed (step uuidv4 verify w (.authenticate clientId token)) ↔ Separate verify w (.authenticate clientId token) := by
  cases hget : w.service.clients.get clientId with
  | none =>
    refine iff_of_true (routed_authenticate_failed h (WebSocketService.handleAuthenticate_of_unknown hget token)) ?_
    intro client payload hclient
    rw [hget] at hclient
    contradiction
  | some client =>
  cases hverify : verify token with
  | none =>
    refine iff_of_true (routed_authenticate_failed h (WebSocketService.handleAuthenticate_of_invalid hverify clientId)) ?_
    intro client payload _ _ hpayload
    rw [hverify] at hpayload
    contradiction
  | some payload =>
    have hidentity := WebSocketService.identity_handleAuthenticate hget hverify
    have hlists := WebSocketService.isListed_handleAuthenticate hget hverify
    rw [routed_iff] at h ⊢
    simp only [step, perform, subscribedAfter, hidentity, hlists, Bool.and_eq_true, Bool.or_eq_true, decide_eq_true_eq]
    constructor
    · rintro ⟨honly, -⟩ client' payload' hclient hconnected hpayload hne u huser hlisted
      obtain rfl : client = client' := Option.some.inj (hget.symm.trans hclient)
      obtain rfl : payload = payload' := Option.some.inj (hverify.symm.trans hpayload)
      have hsub := honly u clientId payload.sub (.inl hlisted) (by rw [if_pos rfl, hconnected])
      exact hne (hsub.trans huser.symm)
    · intro hseparate
      constructor
      · intro u id v hlisted hperson
        split at hperson
        next hid =>
          subst hid
          obtain ⟨rfl, hconnected⟩ := Prod.mk.inj (Option.some.inj hperson)
          rcases hlisted with hbefore | ⟨-, ⟨hsub, -⟩, -⟩
          · have huser := h.1 u id client.userId hbefore
              ((identity_eq_some _ _ _ _).mpr ⟨client, hget, rfl, hconnected⟩)
            by_contra hne
            have hchanged : payload.sub ≠ client.userId := fun hsub => hne (hsub.trans huser)
            exact hseparate client payload hget hconnected hverify hchanged u huser hbefore
          · exact hsub
        next hid =>
          rcases hlisted with hbefore | ⟨hid', -⟩
          · exact h.1 u id v hbefore hperson
          · exact absurd hid' hid
      · rintro u id hperson ⟨hcounts, hkept⟩
        left
        rcases hkept with hother | hkept
        · rw [if_neg hother] at hperson
          exact h.2 u id hperson hcounts
        · -- it has authenticated as the same user again
          exact h.2 u id (hkept.symm.trans hperson) hcounts

/-- Subscribing lists the client under its user, if its id is not empty. -/
theorem routed_subscribe_iff (hs : Sound uuidv4 w.service) (h : Routed w) (clientId : String) (channels : List String) :
    Routed (step uuidv4 verify w (.subscribe clientId channels)) ↔ Separate verify w (.subscribe clientId channels) := by
  have hidentity := (w.service.handleSubscribe_same clientId channels).1
  have hlists := w.service.isListed_handleSubscribe clientId channels
  rw [routed_iff] at h ⊢
  simp only [step, perform, subscribedAfter, hidentity, hlists, Bool.or_eq_true, Bool.and_eq_true, decide_eq_true_eq]
  constructor
  · rintro ⟨-, hall⟩ client hget hconnected huser hsubscribes
    have hperson : w.service.identity clientId = some (some "", true) :=
      (identity_eq_some _ _ _ _).mpr ⟨client, hget, huser, hconnected⟩
    rcases hall "" clientId hperson (.inr ⟨rfl, hsubscribes⟩) with hlisted | ⟨-, -, hne, -⟩
    · exact (hs.listed "" clientId hlisted).1 rfl
    · exact hne rfl
  · intro hseparate
    constructor
    · rintro u id v (hlisted | ⟨-, rfl, -, connected, hclient⟩) hperson
      · exact h.1 u id v hlisted hperson
      · rw [hclient] at hperson
        cases hperson
        rfl
    · rintro u id hperson (hcounts | ⟨rfl, hsubscribes⟩)
      · exact .inl (h.2 u id hperson hcounts)
      · obtain ⟨client, hget, huser, hconnected⟩ := (identity_eq_some _ _ _ _).mp hperson
        have hne : u ≠ "" := by
          rintro rfl
          exact hseparate client hget hconnected huser hsubscribes
        exact .inr ⟨hsubscribes, rfl, hne, true, hperson⟩

/-- Disconnecting drops the list of the user. -/
theorem routed_disconnect_iff (h : Routed w) (clientId : String) :
    Routed (step uuidv4 verify w (.disconnect clientId)) ↔ Separate verify w (.disconnect clientId) := by
  have hidentity := w.service.identity_handleDisconnect clientId
  have hlists := w.service.isListed_handleDisconnect clientId
  rw [routed_iff] at h ⊢
  simp only [step, perform, subscribedAfter, hidentity, hlists]
  constructor
  · rintro ⟨-, hall⟩ client u hget huser hne id other hid hother hconnected hsame hcounts
    have hperson : w.service.identity id = some (some u, true) :=
      (identity_eq_some _ _ _ _).mpr ⟨other, hother, hsame, hconnected⟩
    have hafter := hall u id (by rwa [if_neg hid]) hcounts
    exact hafter.2 ⟨hne, client.connected, (identity_eq_some _ _ _ _).mpr ⟨client, hget, huser, rfl⟩⟩
  · intro hseparate
    constructor
    · rintro u id v ⟨hlisted, -⟩ hperson
      split at hperson
      · contradiction
      · exact h.1 u id v hlisted hperson
    · intro u id hperson hcounts
      split at hperson
      · contradiction
      next hid =>
        refine ⟨h.2 u id hperson hcounts, ?_⟩
        rintro ⟨hne, connected, hclient⟩
        obtain ⟨client, hget, huser, -⟩ := (identity_eq_some _ _ _ _).mp hclient
        obtain ⟨other, hother, hsame, hconnected⟩ := (identity_eq_some _ _ _ _).mp hperson
        exact hseparate client u hget huser hne id other hid hother hconnected hsame hcounts

/-- **What an event does to the routes.** -/
theorem routed_step_iff (hs : Sound uuidv4 w.service) (h : Routed w) (e : WebSocketEvent) :
    Routed (step uuidv4 verify w e) ↔ Separate verify w e := by
  cases e with
  | connect => exact iff_of_true (routed_connect hs h) trivial
  | authenticate clientId token => exact routed_authenticate_iff h clientId token
  | subscribe clientId channels => exact routed_subscribe_iff hs h clientId channels
  | unsubscribe clientId channels =>
    obtain ⟨hidentity, hlists, -⟩ := w.service.handleUnsubscribe_same clientId channels
    refine iff_of_true (h.of_same ?_ ?_ rfl) trivial
    · intro id v hperson
      exact hidentity ▸ hperson
    · funext u id
      exact WebSocketService.isListed_congr hlists u id
  | close clientId =>
    obtain ⟨hlists, -⟩ := w.service.closeSocket_same clientId
    refine iff_of_true (h.of_same ?_ ?_ rfl) trivial
    · intro id v hperson
      rw [step, perform, WebSocketService.identity_closeSocket] at hperson
      split at hperson
      · simp at hperson
      · exact hperson
    · funext u id
      exact WebSocketService.isListed_congr hlists u id
  | disconnect clientId => exact routed_disconnect_iff h clientId

theorem Routed.new : Routed .new := by
  rw [routed_iff]
  simp [Watched.new, WebSocketService.new, WebSocketService.isListed, WebSocketService.identity]

variable (uuidv4 verify)

/-- **All messages are routed in every state of a run** exactly if its events do not mix up clients
and users. -/
theorem routed_throughout_iff (events : List WebSocketEvent) :
    Throughout (step uuidv4 verify) Routed .new events ↔ Along (step uuidv4 verify) (Separate verify) .new events := by
  apply throughout_iff_along (I := fun w : Watched => Sound uuidv4 w.service)
  · exact fun w e hs => hs.step e
  · exact fun w e hs h => routed_step_iff hs h e
  · exact Sound.new
  · exact Routed.new

/-- Ids that are numbers. -/
def numbered : ℕ ↪ String where
  toFun := Nat.repr
  inj' := by
    intro m n h
    rw [← Nat.ofDigitChars_ten_toDigits (n := m), ← Nat.toList_repr, h, Nat.toList_repr,
      Nat.ofDigitChars_ten_toDigits]

/-- Tokens that name their user. -/
def named (token : String) : Option JwtPayload := some ⟨some token, none⟩

/-- **A client that authenticates as somebody else still receives the messages of its first user**,
and a client that disconnects takes the messages from the other clients of its user. -/
theorem messages_misrouted :
    ¬ Throughout (step numbered named) Routed .new
        [.connect, .authenticate "0" "alice", .subscribe "0" ["trades"], .authenticate "0" "bob"] ∧
      ¬ Throughout (step numbered named) Routed .new
        [.connect, .connect, .authenticate "0" "alice", .authenticate "2" "alice", .subscribe "0" ["trades"],
          .subscribe "2" ["trades"], .disconnect "0"] := by
  constructor
  · rintro ⟨-, -, -, -, h⟩
    have hbob := (routed_iff.mp h).1 "alice" "0" (some "bob") (by decide +kernel) (by decide +kernel)
    revert hbob
    decide
  · rintro ⟨-, -, -, -, -, -, -, h⟩
    have hlisted := (routed_iff.mp h).2 "alice" "2" (by decide +kernel) (by decide +kernel)
    revert hlisted
    decide +kernel

end WebSockets
