import PeerX.Foundations.JsMap
import PeerX.Foundations.Runs
import Mathlib.Data.Int.Notation

/-!
# WebSocket: the pool of connections

The pool keeps the rooms of each connection, the clients of each room, and a counter of the rooms. A
connection that joins a room again is counted again; one that leaves a room of others is counted
down; and a connection that is added again forgets its rooms, whose clients it stays.

## Main results

* `Consistent.leaveRooms`: a connection leaves all its rooms
* `consistent_step_iff`: what each call does
* `connections_consistent_iff`: the runs in which connections, rooms and counters belong together
-/

namespace ConnectionPool

open Concurrency Relational

/-! ## The service -/

/-- A set of strings, in insertion order. -/
abbrev StringSet : Type := JsMap String Unit

/-- `ConnectionInfo`. `connected` is that of its socket. -/
structure ConnectionInfo where
  connected : Bool
  userId : Option String
  lastActivity : ℤ
  subscriptions : StringSet
  roomCount : ℤ

/-- `ConnectionPoolService`. A room is given by its clients. -/
structure ConnectionPoolService where
  connections : JsMap String ConnectionInfo
  rooms : JsMap String StringSet

def maxConnectionsPerUser : ℕ := 10

def maxRoomsPerConnection : ℤ := 50

/-- `CONNECTION_TIMEOUT`, in milliseconds. -/
def connectionTimeout : ℤ := 5 * 60 * 1000

def ConnectionPoolService.new : ConnectionPoolService := ⟨JsMap.new, JsMap.new⟩

namespace ConnectionPoolService

/-- The connection of the user is connected. -/
def isOf (userId : String) (connection : ConnectionInfo) : Bool :=
  connection.userId = some userId && connection.connected

def getUserConnectionCount (s : ConnectionPoolService) (userId : String) : ℕ :=
  s.connections.entries.countP fun entry => isOf userId entry.2

def addConnection (s : ConnectionPoolService) (socketId : String) (connected : Bool) (now : ℤ) : ConnectionPoolService :=
  { s with connections := s.connections.set socketId ⟨connected, none, now, JsMap.new, 0⟩ }

def leaveRoom (s : ConnectionPoolService) (socketId roomName : String) : ConnectionPoolService :=
  match s.connections.get socketId, s.rooms.get roomName with
  | some connection, some clients =>
    { connections := s.connections.set socketId { connection with
        subscriptions := connection.subscriptions.delete roomName
        roomCount := connection.roomCount - 1 }
      rooms := if (clients.delete socketId).size = 0 then s.rooms.delete roomName
        else s.rooms.set roomName (clients.delete socketId) }
  | _, _ => s

/-- The connection leaves all the rooms that it has joined. -/
def leaveRooms (s : ConnectionPoolService) (socketId : String) (connection : ConnectionInfo) : ConnectionPoolService :=
  connection.subscriptions.keys.foldl (fun s room => s.leaveRoom socketId room) s

/-- The connection leaves its rooms, and is deleted. -/
def drop (s : ConnectionPoolService) (socketId : String) (connection : ConnectionInfo) : ConnectionPoolService :=
  let left := s.leaveRooms socketId connection
  { left with connections := left.connections.delete socketId }

def removeConnection (s : ConnectionPoolService) (socketId : String) : ConnectionPoolService :=
  match s.connections.get socketId with
  | none => s
  | some connection => s.drop socketId connection

def associateUser (s : ConnectionPoolService) (socketId userId : String) : Bool × ConnectionPoolService :=
  match s.connections.get socketId with
  | none => (false, s)
  | some connection =>
    if maxConnectionsPerUser ≤ s.getUserConnectionCount userId then (false, s)
    else (true, { s with connections := s.connections.set socketId { connection with userId := some userId } })

def joinRoom (s : ConnectionPoolService) (socketId roomName : String) : Bool × ConnectionPoolService :=
  match s.connections.get socketId with
  | none => (false, s)
  | some connection =>
    if maxRoomsPerConnection ≤ connection.roomCount then (false, s)
    else (true, {
      connections := s.connections.set socketId { connection with
        subscriptions := connection.subscriptions.set roomName ()
        roomCount := connection.roomCount + 1 }
      rooms := s.rooms.set roomName (((s.rooms.get roomName).getD JsMap.new).set socketId ()) })

/-- The connection is to be cleaned up. -/
def isInactive (now : ℤ) (connection : ConnectionInfo) : Bool :=
  !connection.connected || connectionTimeout < now - connection.lastActivity

/-- `cleanupInactiveConnections`: the connections are visited in their order. -/
def cleanupInactiveConnections (s : ConnectionPoolService) (now : ℤ) : ConnectionPoolService :=
  s.connections.keys.foldl (fun s socketId =>
    match s.connections.get socketId with
    | none => s
    | some connection => if isInactive now connection then s.drop socketId connection else s) s

/-- The heartbeat of a connection: it reaches the connected ones. -/
def beat (now : ℤ) (connection : ConnectionInfo) : ConnectionInfo :=
  if connection.connected then { connection with lastActivity := now } else connection

def sendHeartbeat (s : ConnectionPoolService) (now : ℤ) : ConnectionPoolService :=
  { s with connections := s.connections.mapValues (beat now) }

/-- The socket of a connection is closed. -/
def closed (s : ConnectionPoolService) (socketId : String) : ConnectionPoolService :=
  match s.connections.get socketId with
  | none => s
  | some connection => { s with connections := s.connections.set socketId { connection with connected := false } }

end ConnectionPoolService

/-- A call, or a socket that is closed. -/
inductive PoolCall where
  | addConnection (socketId : String) (connected : Bool) (now : ℤ)
  | associateUser (socketId userId : String)
  | joinRoom (socketId roomName : String)
  | leaveRoom (socketId roomName : String)
  | removeConnection (socketId : String)
  | cleanupInactiveConnections (now : ℤ)
  | sendHeartbeat (now : ℤ)
  | closed (socketId : String)

/-- One call. -/
def step (s : ConnectionPoolService) : PoolCall → ConnectionPoolService
  | .addConnection socketId connected now => s.addConnection socketId connected now
  | .associateUser socketId userId => (s.associateUser socketId userId).2
  | .joinRoom socketId roomName => (s.joinRoom socketId roomName).2
  | .leaveRoom socketId roomName => s.leaveRoom socketId roomName
  | .removeConnection socketId => s.removeConnection socketId
  | .cleanupInactiveConnections now => s.cleanupInactiveConnections now
  | .sendHeartbeat now => s.sendHeartbeat now
  | .closed socketId => s.closed socketId

/-! ## What belongs together -/

/-- The socket is a client of the room. -/
def IsClient (s : ConnectionPoolService) (roomName socketId : String) : Prop :=
  ∃ clients, s.rooms.get roomName = some clients ∧ clients.has socketId

/-- The connection has subscribed to the room. -/
def IsSubscribed (s : ConnectionPoolService) (socketId roomName : String) : Prop :=
  ∃ connection, s.connections.get socketId = some connection ∧ connection.subscriptions.has roomName

/-- The connections, the rooms and the counters belong together. -/
structure Consistent (s : ConnectionPoolService) : Prop where
  member : ∀ socketId roomName, IsClient s roomName socketId ↔ IsSubscribed s socketId roomName
  current : ∀ roomName socketId, IsClient s roomName socketId → s.connections.has socketId
  nonempty : ∀ roomName clients, s.rooms.get roomName = some clients → clients.size ≠ 0
  count : ∀ socketId connection, s.connections.get socketId = some connection →
    connection.roomCount = connection.subscriptions.size
  bounded : ∀ socketId connection, s.connections.get socketId = some connection →
    0 ≤ connection.roomCount ∧ connection.roomCount ≤ maxRoomsPerConnection
  users : ∀ userId, s.getUserConnectionCount userId ≤ maxConnectionsPerUser

/-- A call that matches the rooms: a connection joins a room that it is not in, and leaves one
that it is in; and no connection with rooms is added again. -/
def Matched (s : ConnectionPoolService) : PoolCall → Prop
  | .addConnection socketId _ _ => ∀ connection, s.connections.get socketId = some connection →
      connection.subscriptions.size = 0
  | .joinRoom socketId roomName => ∀ connection, s.connections.get socketId = some connection →
      connection.roomCount < maxRoomsPerConnection → ¬ connection.subscriptions.has roomName
  | .leaveRoom socketId roomName => ∀ connection, s.connections.get socketId = some connection →
      s.rooms.has roomName → connection.subscriptions.has roomName
  | _ => True

/-! ## One connection at a time -/

variable {s : ConnectionPoolService} {socketId socketId' roomName roomName' : String}
  {connection connection' : ConnectionInfo} {clients : StringSet}

theorem Consistent.isClient_of_subscribed (h : Consistent s) (hc : s.connections.get socketId = some connection)
    (hroom : connection.subscriptions.has roomName) : IsClient s roomName socketId :=
  (h.member socketId roomName).mpr ⟨connection, hc, hroom⟩

theorem Consistent.subscribed_of_isClient (h : Consistent s) (hc : s.connections.get socketId = some connection)
    (hclient : IsClient s roomName socketId) : connection.subscriptions.has roomName := by
  obtain ⟨other, hother, hroom⟩ := (h.member socketId roomName).mp hclient
  obtain rfl := Option.some.inj (hc.symm.trans hother)
  exact hroom

/-- A connection with the same rooms takes the place of another one. -/
theorem Consistent.replaced (h : Consistent s) (hc : s.connections.get socketId = some connection)
    (hrooms : connection'.subscriptions = connection.subscriptions) (hcount : connection'.roomCount = connection.roomCount)
    (husers : ∀ userId, ({ s with connections := s.connections.set socketId connection' } :
      ConnectionPoolService).getUserConnectionCount userId ≤ maxConnectionsPerUser) :
    Consistent { s with connections := s.connections.set socketId connection' } := by
  -- every connection has the rooms and the count of one that was there
  have hget : ∀ id other, (s.connections.set socketId connection').get id = some other →
      ∃ before, s.connections.get id = some before ∧ other.subscriptions = before.subscriptions ∧
        other.roomCount = before.roomCount := by
    intro id other hother
    rw [JsMap.get_set] at hother
    split at hother
    next hid =>
      obtain rfl := Option.some.inj hother
      exact ⟨connection, hid ▸ hc, hrooms, hcount⟩
    next => exact ⟨other, hother, rfl, rfl⟩
  refine ⟨fun id room => (h.member id room).trans ?_, ?_, h.nonempty, ?_, ?_, husers⟩
  · constructor
    · rintro ⟨before, hbefore, hroom⟩
      by_cases hid : id = socketId
      · subst hid
        obtain rfl := Option.some.inj (hc.symm.trans hbefore)
        exact ⟨connection', JsMap.get_set_self .., hrooms.symm ▸ hroom⟩
      · exact ⟨before, (JsMap.get_set_of_ne _ hid _).trans hbefore, hroom⟩
    · rintro ⟨other, hother, hroom⟩
      obtain ⟨before, hbefore, hsame, -⟩ := hget id other hother
      exact ⟨before, hbefore, hsame ▸ hroom⟩
  · exact fun room id hclient => JsMap.has_set.mpr (.inl (h.current room id hclient))
  · intro id other hother
    obtain ⟨before, hbefore, hsame, hsameCount⟩ := hget id other hother
    rw [hsame, hsameCount]
    exact h.count id before hbefore
  · intro id other hother
    obtain ⟨before, hbefore, -, hsameCount⟩ := hget id other hother
    rw [hsameCount]
    exact h.bounded id before hbefore

/-! ### Leaving rooms -/

/-- What `leaveRoom` does to a connection and a room that are there. -/
theorem leaveRoom_eq (hc : s.connections.get socketId = some connection) (hr : s.rooms.get roomName = some clients) :
    s.leaveRoom socketId roomName =
      { connections := s.connections.set socketId { connection with
          subscriptions := connection.subscriptions.delete roomName
          roomCount := connection.roomCount - 1 }
        rooms := if (clients.delete socketId).size = 0 then s.rooms.delete roomName
          else s.rooms.set roomName (clients.delete socketId) } := by
  rw [ConnectionPoolService.leaveRoom, hc, hr]

theorem isClient_leaveRoom (hc : s.connections.get socketId = some connection)
    (hr : s.rooms.get roomName = some clients) :
    IsClient (s.leaveRoom socketId roomName) roomName' socketId' ↔
      IsClient s roomName' socketId' ∧ ¬ (roomName' = roomName ∧ socketId' = socketId) := by
  rw [leaveRoom_eq hc hr, IsClient, IsClient]
  by_cases hroom : roomName' = roomName
  · subst hroom
    -- the room is deleted when nobody is left in it
    have hrooms : (∃ left, (if (clients.delete socketId).size = 0 then s.rooms.delete roomName'
        else s.rooms.set roomName' (clients.delete socketId)).get roomName' = some left ∧ left.has socketId') ↔
          (clients.delete socketId).has socketId' := by
      split
      next hempty =>
        rw [JsMap.get_delete, if_pos rfl]
        refine iff_of_false (by rintro ⟨left, hleft, -⟩; cases hleft) fun hhas => ?_
        exact JsMap.size_ne_zero_iff.mpr ⟨socketId', hhas⟩ hempty
      next =>
        rw [JsMap.get_set_self]
        simp
    rw [hrooms, JsMap.has_delete, hr]
    simp
  · have hrooms : (if (clients.delete socketId).size = 0 then s.rooms.delete roomName
        else s.rooms.set roomName (clients.delete socketId)).get roomName' = s.rooms.get roomName' := by
      split
      · rw [JsMap.get_delete_of_ne _ hroom]
      · rw [JsMap.get_set_of_ne _ hroom]
    rw [hrooms]
    simp [hroom]

/-- A connection leaves a room that it is in. -/
theorem Consistent.leaveRoom (h : Consistent s) (hc : s.connections.get socketId = some connection)
    (hroom : connection.subscriptions.has roomName) : Consistent (s.leaveRoom socketId roomName) := by
  obtain ⟨clients, hr, hclient⟩ := h.isClient_of_subscribed hc hroom
  have hconnections : (s.leaveRoom socketId roomName).connections = s.connections.set socketId { connection with
      subscriptions := connection.subscriptions.delete roomName, roomCount := connection.roomCount - 1 } := by
    rw [leaveRoom_eq hc hr]
  have hsize := JsMap.size_delete_of_has hroom
  have hcount := h.count socketId connection hc
  have hbounded := h.bounded socketId connection hc
  refine ⟨fun id room => ?_, ?_, ?_, ?_, ?_, ?_⟩
  · -- the client leaves the room in both maps
    rw [isClient_leaveRoom hc hr, h.member, IsSubscribed, IsSubscribed, hconnections, JsMap.get_set]
    by_cases hid : id = socketId
    · subst hid
      simp [hc, JsMap.has_delete]
    · simp [hid]
  · intro room id hleft
    rw [hconnections]
    exact JsMap.has_set.mpr (.inl (h.current room id ((isClient_leaveRoom hc hr).mp hleft).1))
  · intro room left hleft
    rw [leaveRoom_eq hc hr] at hleft
    dsimp only at hleft
    split at hleft
    · rw [JsMap.get_delete] at hleft
      split at hleft
      · cases hleft
      · exact h.nonempty room left hleft
    next hnonempty => exact JsMap.forall_get_set h.nonempty hnonempty room left hleft
  · rw [hconnections]
    apply JsMap.forall_get_set h.count
    dsimp only
    omega
  · rw [hconnections]
    apply JsMap.forall_get_set h.bounded
    dsimp only
    omega
  · intro userId
    rw [ConnectionPoolService.getUserConnectionCount, hconnections]
    refine (JsMap.countP_set_le fun hof => ⟨connection, hc, ?_⟩).trans (h.users userId)
    exact hof

/-- A connection leaves rooms that it is in, one after the other. -/
theorem Consistent.leaveEach {rooms : List String} (hnodup : rooms.Nodup) (h : Consistent s)
    (hc : s.connections.get socketId = some connection) (hrooms : ∀ room ∈ rooms, connection.subscriptions.has room) :
    Consistent (rooms.foldl (fun s room => s.leaveRoom socketId room) s) ∧
      ∃ left, (rooms.foldl (fun s room => s.leaveRoom socketId room) s).connections.get socketId = some left ∧
        ∀ room, left.subscriptions.has room ↔ connection.subscriptions.has room ∧ room ∉ rooms := by
  induction rooms generalizing s connection with
  | nil => exact ⟨h, connection, hc, by simp⟩
  | cons room rooms ih =>
    obtain ⟨hfirst, hrest⟩ := List.nodup_cons.mp hnodup
    obtain ⟨hroom, hothers⟩ := List.forall_mem_cons.mp hrooms
    obtain ⟨clients, hr, -⟩ := h.isClient_of_subscribed hc hroom
    have hget : (s.leaveRoom socketId room).connections.get socketId = some { connection with
        subscriptions := connection.subscriptions.delete room, roomCount := connection.roomCount - 1 } := by
      rw [leaveRoom_eq hc hr]
      exact JsMap.get_set_self ..
    obtain ⟨hconsistent, left, hleft, hsubscribed⟩ := ih hrest (h.leaveRoom hc hroom) hget fun other hother =>
      JsMap.has_delete.mpr ⟨hothers other hother, fun heq => hfirst (heq ▸ hother)⟩
    refine ⟨hconsistent, left, hleft, fun other => (hsubscribed other).trans ?_⟩
    rw [JsMap.has_delete, List.mem_cons]
    tauto

/-- **A connection leaves all its rooms**, and has none left. -/
theorem Consistent.leaveRooms (h : Consistent s) (hc : s.connections.get socketId = some connection) :
    Consistent (s.leaveRooms socketId connection) ∧
      ∃ left, (s.leaveRooms socketId connection).connections.get socketId = some left ∧
        ∀ room, ¬ left.subscriptions.has room := by
  obtain ⟨hconsistent, left, hleft, hsubscribed⟩ := h.leaveEach connection.subscriptions.nodup_keys hc
    fun room hroom => JsMap.mem_keys.mp hroom
  refine ⟨hconsistent, left, hleft, fun room hroom => ?_⟩
  obtain ⟨hbefore, hnot⟩ := (hsubscribed room).mp hroom
  exact hnot (JsMap.mem_keys.mpr hbefore)

/-- A connection is dropped with its rooms. -/
theorem Consistent.drop (h : Consistent s) (hc : s.connections.get socketId = some connection) :
    Consistent (s.drop socketId connection) := by
  obtain ⟨hleft, left, hget, hnone⟩ := h.leaveRooms hc
  rw [ConnectionPoolService.drop]
  -- the connection is in no room any more
  have hnobody : ∀ room, ¬ IsClient (s.leaveRooms socketId connection) room socketId := fun room hclient =>
    hnone room (hleft.subscribed_of_isClient hget hclient)
  have hkept : ∀ id other, ((s.leaveRooms socketId connection).connections.delete socketId).get id = some other →
      (s.leaveRooms socketId connection).connections.get id = some other := by
    intro id other hother
    rw [JsMap.get_delete] at hother
    split at hother
    · cases hother
    · exact hother
  refine ⟨fun id room => ?_, ?_, hleft.nonempty, ?_, ?_, ?_⟩
  · by_cases hid : id = socketId
    · subst hid
      refine iff_of_false (hnobody room) ?_
      rintro ⟨other, hother, -⟩
      rw [JsMap.get_delete, if_pos rfl] at hother
      cases hother
    · refine (hleft.member id room).trans ?_
      rw [IsSubscribed, IsSubscribed, JsMap.get_delete_of_ne _ hid]
  · intro room id hclient
    have hid : id ≠ socketId := fun heq => hnobody room (heq ▸ hclient)
    rw [JsMap.has, JsMap.get_delete_of_ne _ hid]
    exact hleft.current room id hclient
  · exact fun id other hother => hleft.count id other (hkept id other hother)
  · exact fun id other hother => hleft.bounded id other (hkept id other hother)
  · exact fun userId => JsMap.countP_delete_le.trans (hleft.users userId)

/-- The inactive connections are dropped. -/
theorem Consistent.cleanup (h : Consistent s) (now : ℤ) : Consistent (s.cleanupInactiveConnections now) := by
  rw [ConnectionPoolService.cleanupInactiveConnections]
  generalize s.connections.keys = socketIds
  induction socketIds generalizing s with
  | nil => exact h
  | cons socketId socketIds ih =>
    rw [List.foldl_cons]
    refine ih ?_
    cases hc : s.connections.get socketId with
    | none => exact h
    | some connection =>
      dsimp only
      split
      · exact h.drop hc
      · exact h

@[simp] theorem subscriptions_beat (now : ℤ) (connection : ConnectionInfo) :
    (ConnectionPoolService.beat now connection).subscriptions = connection.subscriptions := by
  rw [ConnectionPoolService.beat]
  split <;> rfl

@[simp] theorem roomCount_beat (now : ℤ) (connection : ConnectionInfo) :
    (ConnectionPoolService.beat now connection).roomCount = connection.roomCount := by
  rw [ConnectionPoolService.beat]
  split <;> rfl

@[simp] theorem isOf_beat (userId : String) (now : ℤ) (connection : ConnectionInfo) :
    ConnectionPoolService.isOf userId (ConnectionPoolService.beat now connection) =
      ConnectionPoolService.isOf userId connection := by
  rw [ConnectionPoolService.beat]
  split <;> rfl

/-- The heartbeat only marks the connections. -/
theorem Consistent.sendHeartbeat (h : Consistent s) (now : ℤ) : Consistent (s.sendHeartbeat now) := by
  have hget : ∀ id, (s.sendHeartbeat now).connections.get id =
      (s.connections.get id).map (ConnectionPoolService.beat now) := JsMap.get_mapValues _ _
  have hbefore : ∀ id connection', (s.sendHeartbeat now).connections.get id = some connection' →
      ∃ connection, s.connections.get id = some connection ∧ ConnectionPoolService.beat now connection = connection' := by
    intro id connection' hc'
    rwa [hget, Option.map_eq_some_iff] at hc'
  refine ⟨fun id room => (h.member id room).trans ?_, ?_, h.nonempty, ?_, ?_, ?_⟩
  · rw [IsSubscribed, IsSubscribed, hget]
    cases s.connections.get id <;> simp
  · intro room id hclient
    rw [JsMap.has, hget, Option.isSome_map]
    exact h.current room id hclient
  · intro id connection' hc'
    obtain ⟨connection, hc, rfl⟩ := hbefore id connection' hc'
    rw [subscriptions_beat, roomCount_beat]
    exact h.count id connection hc
  · intro id connection' hc'
    obtain ⟨connection, hc, rfl⟩ := hbefore id connection' hc'
    rw [roomCount_beat]
    exact h.bounded id connection hc
  · intro userId
    have hsame : (s.sendHeartbeat now).getUserConnectionCount userId = s.getUserConnectionCount userId := by
      rw [ConnectionPoolService.getUserConnectionCount, ConnectionPoolService.sendHeartbeat, JsMap.entries_mapValues,
        List.countP_map]
      refine List.countP_congr fun entry _ => ?_
      rw [Function.comp_apply, isOf_beat]
    rw [hsame]
    exact h.users userId

/-! ## What each call does -/

theorem consistent_addConnection_iff (h : Consistent s) (connected : Bool) (now : ℤ) :
    Consistent (s.addConnection socketId connected now) ↔ Matched s (.addConnection socketId connected now) := by
  constructor
  · intro hadded connection hc
    -- a room of the connection keeps it as a client, but its new record has no rooms
    by_contra hrooms
    obtain ⟨room, hroom⟩ := JsMap.size_ne_zero_iff.mp hrooms
    have hclient : IsClient (s.addConnection socketId connected now) room socketId := h.isClient_of_subscribed hc hroom
    have hnew := hadded.subscribed_of_isClient (JsMap.get_set_self ..) hclient
    cases hnew
  · intro hmatched
    have hnobody : ∀ room, ¬ IsClient s room socketId := by
      intro room hclient
      obtain ⟨connection, hc, hroom⟩ := (h.member socketId room).mp hclient
      exact JsMap.size_ne_zero_iff.mpr ⟨room, hroom⟩ (hmatched connection hc)
    refine ⟨fun id room => ?_, ?_, h.nonempty, ?_, ?_, ?_⟩
    · by_cases hid : id = socketId
      · subst hid
        refine iff_of_false (hnobody room) ?_
        rintro ⟨connection, hc, hroom⟩
        obtain rfl := Option.some.inj ((JsMap.get_set_self ..).symm.trans hc)
        cases hroom
      · refine (h.member id room).trans ?_
        rw [IsSubscribed, IsSubscribed, ConnectionPoolService.addConnection, JsMap.get_set_of_ne _ hid]
    · exact fun room id hclient => JsMap.has_set.mpr (.inl (h.current room id hclient))
    · exact JsMap.forall_get_set h.count rfl
    · exact JsMap.forall_get_set h.bounded ⟨le_refl (0 : ℤ), show (0 : ℤ) ≤ maxRoomsPerConnection by decide⟩
    · intro userId
      refine (JsMap.countP_set_le fun hof => ?_).trans (h.users userId)
      simp [ConnectionPoolService.isOf] at hof

theorem isClient_joined {connections : JsMap String ConnectionInfo} :
    IsClient ⟨connections, s.rooms.set roomName (((s.rooms.get roomName).getD JsMap.new).set socketId ())⟩ roomName'
        socketId' ↔ IsClient s roomName' socketId' ∨ roomName' = roomName ∧ socketId' = socketId := by
  rw [IsClient, IsClient, JsMap.get_set]
  by_cases hroom : roomName' = roomName
  · subst hroom
    rw [if_pos rfl]
    -- a room that is not there yet has no clients
    have hbefore : ((s.rooms.get roomName').getD JsMap.new).has socketId' ↔
        ∃ clients, s.rooms.get roomName' = some clients ∧ clients.has socketId' := by
      cases s.rooms.get roomName' with
      | none => exact iff_of_false (by simp [JsMap.has]) (by simp)
      | some clients => simp
    simp [JsMap.has_set, hbefore]
  · simp [hroom]

/-- A connection joins a room that it is not in, below the limit. -/
theorem Consistent.joined (h : Consistent s) (hc : s.connections.get socketId = some connection)
    (hnew : ¬ connection.subscriptions.has roomName) (hfree : connection.roomCount < maxRoomsPerConnection) :
    Consistent ⟨s.connections.set socketId { connection with
        subscriptions := connection.subscriptions.set roomName ()
        roomCount := connection.roomCount + 1 },
      s.rooms.set roomName (((s.rooms.get roomName).getD JsMap.new).set socketId ())⟩ := by
  have hsize := JsMap.size_set_of_not_has (v := ()) hnew
  have hcount := h.count socketId connection hc
  have hbounded := h.bounded socketId connection hc
  refine ⟨fun id room => ?_, fun room id hclient => ?_, ?_, ?_, ?_, fun userId => ?_⟩
  · rw [isClient_joined, h.member, IsSubscribed, IsSubscribed, JsMap.get_set]
    by_cases hid : id = socketId
    · subst hid
      simp [hc, JsMap.has_set]
    · simp [hid]
  · rcases isClient_joined.mp hclient with hbefore | ⟨-, rfl⟩
    · exact JsMap.has_set.mpr (.inl (h.current room id hbefore))
    · exact JsMap.has_set.mpr (.inr rfl)
  · -- the room that is joined has a client
    apply JsMap.forall_get_set h.nonempty
    exact JsMap.size_ne_zero_iff.mpr ⟨socketId, JsMap.has_set.mpr (.inr rfl)⟩
  · apply JsMap.forall_get_set h.count
    dsimp only
    omega
  · apply JsMap.forall_get_set h.bounded
    dsimp only
    omega
  · refine (JsMap.countP_set_le fun hof => ?_).trans (h.users userId)
    exact ⟨connection, hc, hof⟩

/-- A connection that joins a room it is in is counted again. -/
theorem consistent_joinRoom_iff (h : Consistent s) :
    Consistent (s.joinRoom socketId roomName).2 ↔ Matched s (.joinRoom socketId roomName) := by
  rw [ConnectionPoolService.joinRoom, Matched]
  cases hc : s.connections.get socketId with
  | none => exact iff_of_true h fun connection hnone => by cases hnone
  | some connection =>
    dsimp only
    split
    next hfull =>
      refine iff_of_true h fun other hother hroom => ?_
      obtain rfl := Option.some.inj hother
      exact absurd hroom (not_lt.mpr hfull)
    next hfree =>
      constructor
      · intro hjoined other hother _ hroom
        obtain rfl := Option.some.inj hother
        -- the subscriptions are as many as before, and the counter is one more
        have hbefore := h.count socketId connection hc
        have hafter := hjoined.count socketId _ (JsMap.get_set_self ..)
        dsimp only at hafter
        rw [JsMap.size_set_of_has hroom] at hafter
        omega
      · intro hmatched
        exact h.joined hc (hmatched connection rfl (not_le.mp hfree)) (not_le.mp hfree)

/-- A connection that leaves a room it is not in is counted down. -/
theorem consistent_leaveRoom_iff (h : Consistent s) :
    Consistent (s.leaveRoom socketId roomName) ↔ Matched s (.leaveRoom socketId roomName) := by
  rw [Matched]
  cases hc : s.connections.get socketId with
  | none =>
    refine iff_of_true ?_ fun connection hnone => by cases hnone
    rwa [ConnectionPoolService.leaveRoom, hc]
  | some connection =>
    cases hr : s.rooms.get roomName with
    | none =>
      refine iff_of_true ?_ fun other _ hroom => ?_
      · rwa [ConnectionPoolService.leaveRoom, hc, hr]
      · rw [JsMap.has, hr] at hroom
        cases hroom
    | some clients =>
      constructor
      · intro hleft other hother _
        obtain rfl := Option.some.inj hother
        by_contra hroom
        -- the subscriptions are as many as before, and the counter is one less
        have hcount := h.count socketId connection hc
        rw [leaveRoom_eq hc hr] at hleft
        have hafter := hleft.count socketId _ (JsMap.get_set_self ..)
        dsimp only at hafter
        rw [JsMap.delete_of_not_has hroom] at hafter
        omega
      · intro hmatched
        exact h.leaveRoom hc (hmatched connection rfl (by rw [JsMap.has, hr]; rfl))

/-- **What each call does.** -/
theorem consistent_step_iff (h : Consistent s) (call : PoolCall) : Consistent (step s call) ↔ Matched s call := by
  cases call with
  | addConnection socketId connected now => exact consistent_addConnection_iff h connected now
  | joinRoom socketId roomName => exact consistent_joinRoom_iff h
  | leaveRoom socketId roomName => exact consistent_leaveRoom_iff h
  | associateUser socketId userId =>
    refine iff_of_true ?_ trivial
    rw [step, ConnectionPoolService.associateUser]
    cases hc : s.connections.get socketId with
    | none => exact h
    | some connection =>
      dsimp only
      split
      · exact h
      next hfree =>
        refine h.replaced hc rfl rfl fun other => ?_
        -- only the count of this user goes up, and it was below the limit
        by_cases hother : other = userId
        · subst hother
          exact JsMap.countP_set_le_succ.trans (not_le.mp hfree)
        · refine (JsMap.countP_set_le fun hof => ?_).trans (h.users other)
          simp [ConnectionPoolService.isOf, Ne.symm hother] at hof
  | removeConnection socketId =>
    refine iff_of_true ?_ trivial
    rw [step, ConnectionPoolService.removeConnection]
    cases hc : s.connections.get socketId with
    | none => exact h
    | some connection => exact h.drop hc
  | cleanupInactiveConnections now => exact iff_of_true (h.cleanup now) trivial
  | sendHeartbeat now =>
    exact iff_of_true (h.sendHeartbeat now) trivial
  | closed socketId =>
    refine iff_of_true ?_ trivial
    rw [step, ConnectionPoolService.closed]
    cases hc : s.connections.get socketId with
    | none => exact h
    | some connection =>
      refine h.replaced hc rfl rfl fun userId => (JsMap.countP_set_le fun hof => ?_).trans (h.users userId)
      simp [ConnectionPoolService.isOf] at hof

/-! ## Whole runs -/

theorem Consistent.new : Consistent .new where
  member socketId roomName := by
    refine iff_of_false ?_ ?_
    · rintro ⟨clients, hr, -⟩
      cases hr
    · rintro ⟨connection, hc, -⟩
      cases hc
  current roomName socketId hclient := by
    obtain ⟨clients, hr, -⟩ := hclient
    cases hr
  nonempty roomName clients hr := by cases hr
  count socketId connection hc := by cases hc
  bounded socketId connection hc := by cases hc
  users userId := Nat.zero_le _

/-- **Connections, rooms and counters belong together throughout a run** exactly when each of its
calls matches the rooms. -/
theorem connections_consistent_iff (calls : List PoolCall) :
    Throughout step Consistent .new calls ↔ Along step Matched .new calls :=
  throughout_iff_along (I := fun _ => True) (fun _ _ h => h) (fun _ call _ h => consistent_step_iff h call) trivial
    Consistent.new

/-- **A room is counted twice**: the connection joins one room two times, and has one subscription
and two rooms. -/
theorem room_counted_twice :
    ¬ Throughout step Consistent .new [.addConnection "s" true 0, .joinRoom "s" "r", .joinRoom "s" "r"] := by
  intro h
  have hcount := h.2.2.2.count "s" _ rfl
  exact absurd hcount (by decide)

end ConnectionPool
