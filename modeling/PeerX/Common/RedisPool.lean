import PeerX.Foundations.Runs
import Mathlib.Data.Finset.Card
import Mathlib.Data.Finset.SDiff
import Mathlib.Data.List.Nodup

/-!
# Common: the pool of Redis connections

An acquisition takes a pooled client, or makes a connection while the pool has room. The room is
measured before the connection is made, without those that are under way. The destruction of the
pool quits the clients that it sees, waits, and then forgets the clients in use: also one whose
connection was made meanwhile, which nobody quits any more. And a client that was released and
acquired again can be released by its former holder.

## Main results

* `Sound.step`: a careful step keeps the invariant
* `safe_of_careful`: a run of careful steps is safe
-/

namespace RedisPool

open Concurrency

/-! ## The pool -/

/-- The pool, with the acquisitions that wait for a connection. A client is open from its
connection until `quit` is called. The holders are the acquisitions that have a client, until they
release it. -/
structure Pool where
  pool : List ℕ
  inUse : Finset ℕ
  closed : Bool
  connecting : List ℕ
  destroying : ℕ
  destroyed : Bool
  holders : List (ℕ × ℕ)
  opened : Finset ℕ
  clients : ℕ
  calls : ℕ

/-- The pool after `onModuleInit`, with some connections. -/
def Pool.prefilled (connections : ℕ) : Pool where
  pool := List.range connections
  inUse := ∅
  closed := false
  connecting := []
  destroying := 0
  destroyed := false
  holders := []
  opened := Finset.range connections
  clients := connections
  calls := 0

/-- `acquire`, up to the connection: the client, the message of the exception, or nothing
yet. -/
def acquire (poolMax : ℕ) (s : Pool) : Option (Except String ℕ) × Pool :=
  if s.closed then (some (.error "Redis pool is closed"), s)
  else
    match s.pool.getLast? with
    | some client => (some (.ok client), { s with pool := s.pool.dropLast, inUse := insert client s.inUse })
    | none =>
      if s.pool.length + s.inUse.card ≥ poolMax then (some (.error s!"Redis pool exhausted (max {poolMax})"), s)
      else (none, s)

/-- `acquire`, when its connection is made: the client. -/
def connected (s : Pool) : ℕ × Pool :=
  (s.clients,
    { s with inUse := insert s.clients s.inUse, opened := insert s.clients s.opened, clients := s.clients + 1 })

def release (s : Pool) (client : ℕ) : Pool :=
  if client ∉ s.inUse then s
  else if s.closed then { s with inUse := s.inUse.erase client, opened := s.opened.erase client }
  else { s with inUse := s.inUse.erase client, pool := s.pool ++ [client] }

/-- `onModuleDestroy`, up to the end of the calls of `quit`. -/
def onModuleDestroy (s : Pool) : Pool :=
  { s with closed := true, opened := s.opened \ (s.pool.toFinset ∪ s.inUse), destroying := s.destroying + 1 }

/-- `onModuleDestroy`, from there on. -/
def quitsDone (s : Pool) : Pool :=
  { s with pool := [], inUse := ∅, destroying := s.destroying - 1, destroyed := true }

/-! ## Steps -/

/-- The steps of the calls. A call of `acquire` is numbered; it has a second step when it waits
for a connection. A call of `withClient` has the steps of an acquisition, and releases the client
when its function is done. -/
inductive PoolStep : Type
  | acquire
  | connected (call : ℕ)
  | connectFailed (call : ℕ)
  | release (call client : ℕ)
  | onModuleDestroy
  | quitsDone
deriving DecidableEq

def PoolStep.after (poolMax : ℕ) (s : Pool) : PoolStep → Pool
  | .acquire =>
    match RedisPool.acquire poolMax s with
    | (some (.ok client), t) => { t with holders := (s.calls, client) :: s.holders, calls := s.calls + 1 }
    | (some (.error _), t) => { t with calls := s.calls + 1 }
    | (none, t) => { t with connecting := s.connecting ++ [s.calls], calls := s.calls + 1 }
  | .connected call =>
    if call ∈ s.connecting then
      let (client, t) := RedisPool.connected s
      { t with holders := (call, client) :: s.holders, connecting := s.connecting.erase call }
    else s
  | .connectFailed call => { s with connecting := s.connecting.erase call }
  | .release call client => RedisPool.release { s with holders := s.holders.erase (call, client) } client
  | .onModuleDestroy => RedisPool.onModuleDestroy s
  | .quitsDone => if s.destroying = 0 then s else RedisPool.quitsDone s

/-- What is expected of the pool: a client is pooled or in use, no two callers hold it, not more
than `poolMax` are open, and after the destruction only clients that are still held. -/
structure Safe (poolMax : ℕ) (s : Pool) : Prop where
  disjoint : ∀ client ∈ s.pool, client ∉ s.inUse
  oneHolder : ∀ call call' client, (call, client) ∈ s.holders → (call', client) ∈ s.holders → call = call'
  bounded : s.opened.card ≤ poolMax
  closedDown : s.destroyed → ∀ client ∈ s.opened, ∃ call, (call, client) ∈ s.holders

/-- The careful steps: a connection is begun only while the pool has room for it and for those
under way; while the pool is not closed, a client in use is released by its holder; and when the
destruction ends, every client in use has been quit. -/
def Careful (poolMax : ℕ) (s : Pool) : PoolStep → Prop
  | .acquire => s.closed = false → s.pool = [] → s.inUse.card < poolMax →
      s.inUse.card + s.connecting.length < poolMax
  | .release call client => s.closed = false → client ∈ s.inUse → (call, client) ∈ s.holders
  | .quitsDone => s.destroying ≠ 0 → ∀ client ∈ s.inUse, client ∉ s.opened
  | _ => True

instance (poolMax : ℕ) (s : Pool) : ∀ step, Decidable (Careful poolMax s step)
  | .acquire => inferInstanceAs (Decidable (s.closed = false → s.pool = [] → s.inUse.card < poolMax →
      s.inUse.card + s.connecting.length < poolMax))
  | .release call client =>
    inferInstanceAs (Decidable (s.closed = false → client ∈ s.inUse → (call, client) ∈ s.holders))
  | .quitsDone => inferInstanceAs (Decidable (s.destroying ≠ 0 → ∀ client ∈ s.inUse, client ∉ s.opened))
  | .connected _ | .connectFailed _ | .onModuleDestroy => inferInstanceAs (Decidable True)

variable {poolMax : ℕ} {s : Pool}

/-! ## The invariant -/

/-- What the careful steps keep: a client in use is held, and a held one is in use or has been
quit; the open clients are those of the pool, while it is not closed, and those in use; and there is
room for the connections under way. -/
structure Sound (poolMax : ℕ) (s : Pool) : Prop where
  nodupPool : s.pool.Nodup
  disjoint : ∀ client ∈ s.pool, client ∉ s.inUse
  pooled : ∀ client ∈ s.pool, client < s.clients ∧ ∀ holder ∈ s.holders, holder.2 ≠ client
  nodupHolders : (s.holders.map Prod.snd).Nodup
  held : ∀ client ∈ s.inUse, ∃ call, (call, client) ∈ s.holders
  holding : ∀ holder ∈ s.holders, holder.1 < s.calls ∧ holder.2 < s.clients ∧
    (holder.2 ∈ s.inUse ∨ holder.2 ∉ s.opened)
  numbered : ∀ call ∈ s.connecting, call < s.calls
  opened : ∀ client ∈ s.opened, client ∈ s.pool ∨ client ∈ s.inUse
  live : s.closed = false → ∀ client, client ∈ s.pool ∨ client ∈ s.inUse → client ∈ s.opened
  quit : s.closed = true → ∀ client ∈ s.pool, client ∉ s.opened
  closing : s.closed = false → s.destroying = 0 ∧ s.destroyed = false
  bounded : s.opened.card + s.connecting.length ≤ poolMax

theorem Sound.prefilled {connections : ℕ} (h : connections ≤ poolMax) : Sound poolMax (.prefilled connections) where
  nodupPool := List.nodup_range
  disjoint := fun client _ => Finset.notMem_empty client
  pooled := fun client hclient => ⟨List.mem_range.mp hclient, fun _ hholder => absurd hholder List.not_mem_nil⟩
  nodupHolders := List.nodup_nil
  held := fun client hclient => absurd hclient (Finset.notMem_empty client)
  holding := fun _ hholder => absurd hholder List.not_mem_nil
  numbered := fun _ hcall => absurd hcall List.not_mem_nil
  opened := fun client hclient => .inl (List.mem_range.mpr (Finset.mem_range.mp hclient))
  live := by
    rintro - client (hclient | hclient)
    · exact Finset.mem_range.mpr (List.mem_range.mp hclient)
    · exact absurd hclient (Finset.notMem_empty client)
  quit := fun hclosed => absurd hclosed Bool.false_ne_true
  closing := fun _ => ⟨rfl, rfl⟩
  bounded := by
    have hcard : (Finset.range connections).card + 0 ≤ poolMax := by rwa [Finset.card_range]
    exact hcard

/-- The invariant implies what is expected. -/
theorem Sound.safe (h : Sound poolMax s) : Safe poolMax s := by
  refine ⟨h.disjoint, fun call call' client hcall hcall' => ?_, ?_, fun hdestroyed client hopened => ?_⟩
  · have heq := List.inj_on_of_nodup_map h.nodupHolders hcall hcall' rfl
    exact (Prod.mk.inj heq).1
  · exact Nat.le_trans (Nat.le_add_right _ _) h.bounded
  · have hclosed : s.closed = true := by
      by_contra hopen
      have hnot := (h.closing (Bool.eq_false_iff.mpr hopen)).2
      exact Bool.false_ne_true (hnot.symm.trans hdestroyed)
    rcases h.opened client hopened with hpool | hinUse
    · exact absurd hopened (h.quit hclosed client hpool)
    · exact h.held client hinUse

theorem Sound.opened_lt (h : Sound poolMax s) {client : ℕ} (hopened : client ∈ s.opened) : client < s.clients := by
  rcases h.opened client hopened with hmem | hmem
  · exact (h.pooled client hmem).1
  · obtain ⟨call, hholder⟩ := h.held client hmem
    exact (h.holding _ hholder).2.1

theorem Sound.new_client (h : Sound poolMax s) : s.clients ∉ s.pool ∧ s.clients ∉ s.inUse ∧ s.clients ∉ s.opened := by
  have hpool : s.clients ∉ s.pool := fun hmem => Nat.lt_irrefl _ (h.pooled _ hmem).1
  have hinUse : s.clients ∉ s.inUse := by
    intro hmem
    obtain ⟨call, hholder⟩ := h.held _ hmem
    exact Nat.lt_irrefl _ (h.holding _ hholder).2.1
  exact ⟨hpool, hinUse, fun hmem => Nat.lt_irrefl _ (h.opened_lt hmem)⟩

/-- While the pool is not closed and empty, the open clients are those in use. -/
theorem Sound.card_opened (h : Sound poolMax s) (hclosed : s.closed = false) (hpool : s.pool = []) :
    s.opened.card = s.inUse.card := by
  have heq : s.opened = s.inUse := by
    ext client
    refine ⟨fun hopened => ?_, fun hinUse => h.live hclosed client (.inr hinUse)⟩
    rcases h.opened client hopened with hmem | hmem
    · rw [hpool] at hmem
      cases hmem
    · exact hmem
  rw [heq]

/-! ## Acquisitions -/

/-- What an acquisition does: the pool is closed or has no room, and nothing happens; the last
client is taken; or a connection is begun. -/
theorem after_acquire (poolMax : ℕ) (s : Pool) :
    ((s.closed = true ∨ (s.pool = [] ∧ poolMax ≤ s.inUse.card)) ∧
        PoolStep.after poolMax s .acquire = { s with calls := s.calls + 1 }) ∨
      (s.closed = false ∧ ∃ rest client, s.pool = rest ++ [client] ∧ PoolStep.after poolMax s .acquire = { s with
        pool := rest, inUse := insert client s.inUse, holders := (s.calls, client) :: s.holders,
        calls := s.calls + 1 }) ∨
      ((s.closed = false ∧ s.pool = [] ∧ s.inUse.card < poolMax) ∧ PoolStep.after poolMax s .acquire = { s with
        connecting := s.connecting ++ [s.calls], calls := s.calls + 1 }) := by
  cases hclosed : s.closed with
  | true => exact .inl ⟨.inl rfl, by simp [PoolStep.after, acquire, hclosed]⟩
  | false =>
    rcases List.eq_nil_or_concat' s.pool with hpool | ⟨rest, client, hpool⟩
    · by_cases hroom : poolMax ≤ s.inUse.card
      · exact .inl ⟨.inr ⟨hpool, hroom⟩, by simp [PoolStep.after, acquire, hclosed, hpool, hroom]⟩
      · refine .inr (.inr ⟨⟨rfl, hpool, Nat.lt_of_not_le hroom⟩, ?_⟩)
        simp [PoolStep.after, acquire, hclosed, hpool, hroom]
    · exact .inr (.inl ⟨rfl, rest, client, hpool, by simp [PoolStep.after, acquire, hclosed, hpool]⟩)

theorem Sound.call (h : Sound poolMax s) {connecting : List ℕ} (hnumbered : ∀ call ∈ connecting, call < s.calls + 1)
    (hbounded : s.opened.card + connecting.length ≤ poolMax) :
    Sound poolMax { s with connecting := connecting, calls := s.calls + 1 } where
  nodupPool := h.nodupPool
  disjoint := h.disjoint
  pooled := h.pooled
  nodupHolders := h.nodupHolders
  held := h.held
  holding := fun holder hholder => (h.holding holder hholder).imp_left Nat.lt_succ_of_lt
  numbered := hnumbered
  opened := h.opened
  live := h.live
  quit := h.quit
  closing := h.closing
  bounded := hbounded

theorem Sound.nodup_holders_cons (h : Sound poolMax s) {call client : ℕ}
    (hfree : ∀ holder ∈ s.holders, holder.2 ≠ client) : (((call, client) :: s.holders).map Prod.snd).Nodup := by
  refine List.nodup_cons.mpr ⟨fun hmem => ?_, h.nodupHolders⟩
  obtain ⟨holder, hholder, heq⟩ := List.mem_map.mp hmem
  exact hfree holder hholder heq

theorem Sound.held_cons (h : Sound poolMax s) (call client : ℕ) :
    ∀ other ∈ insert client s.inUse, ∃ holder, (holder, other) ∈ (call, client) :: s.holders := by
  intro other hother
  rcases Finset.mem_insert.mp hother with rfl | hother
  · exact ⟨call, List.mem_cons_self⟩
  · obtain ⟨holder, hholder⟩ := h.held other hother
    exact ⟨holder, List.mem_cons_of_mem _ hholder⟩

theorem Sound.take (h : Sound poolMax s) (hclosed : s.closed = false) {rest : List ℕ} {client : ℕ}
    (hpool : s.pool = rest ++ [client]) :
    Sound poolMax { s with
      pool := rest, inUse := insert client s.inUse, holders := (s.calls, client) :: s.holders, calls := s.calls + 1 } := by
  have hnodup := h.nodupPool
  rw [hpool, List.nodup_append] at hnodup
  obtain ⟨hrest, -, hlast⟩ := hnodup
  have hclient : client ∈ s.pool := by
    rw [hpool]
    exact List.mem_append_right _ (List.mem_singleton_self client)
  have hin : ∀ other ∈ rest, other ∈ s.pool ∧ other ≠ client := by
    intro other hother
    refine ⟨?_, hlast other hother client (List.mem_singleton_self client)⟩
    rw [hpool]
    exact List.mem_append_left _ hother
  -- the client moves, so the clients of the pool and those in use are the same together
  have hout : ∀ other, other ∈ s.pool ∨ other ∈ s.inUse ↔ other ∈ rest ∨ other ∈ insert client s.inUse := by
    intro other
    rw [hpool, Finset.mem_insert, List.mem_append, List.mem_singleton, or_assoc]
  constructor
  · exact hrest
  · intro other hother hmem
    obtain ⟨hother, hne⟩ := hin other hother
    rcases Finset.mem_insert.mp hmem with heq | hmem
    · exact hne heq
    · exact h.disjoint other hother hmem
  · intro other hother
    obtain ⟨hother, hne⟩ := hin other hother
    refine ⟨(h.pooled other hother).1, fun holder hholder => ?_⟩
    rcases List.mem_cons.mp hholder with rfl | hholder
    · exact hne.symm
    · exact (h.pooled other hother).2 holder hholder
  · exact h.nodup_holders_cons (h.pooled client hclient).2
  · exact h.held_cons s.calls client
  · intro holder hholder
    rcases List.mem_cons.mp hholder with rfl | hholder
    · exact ⟨Nat.lt_succ_self _, (h.pooled client hclient).1, .inl (Finset.mem_insert_self _ _)⟩
    · obtain ⟨hcall, hlt, hstate⟩ := h.holding holder hholder
      exact ⟨Nat.lt_succ_of_lt hcall, hlt, hstate.imp_left Finset.mem_insert_of_mem⟩
  · exact fun call hcall => Nat.lt_succ_of_lt (h.numbered call hcall)
  · exact fun other hother => (hout other).mp (h.opened other hother)
  · exact fun _ other hother => h.live hclosed other ((hout other).mpr hother)
  · exact fun hclosed' => absurd (hclosed.symm.trans hclosed') Bool.false_ne_true
  · exact h.closing
  · exact h.bounded

theorem Sound.acquire (h : Sound poolMax s) (hcareful : Careful poolMax s .acquire) :
    Sound poolMax (PoolStep.after poolMax s .acquire) := by
  obtain ⟨-, heq⟩ | ⟨hclosed, rest, client, hpool, heq⟩ | ⟨⟨hclosed, hpool, hroom⟩, heq⟩ := after_acquire poolMax s
  · rw [heq]
    exact h.call (fun call hcall => Nat.lt_succ_of_lt (h.numbered call hcall)) h.bounded
  · rw [heq]
    exact h.take hclosed hpool
  · rw [heq]
    -- the room that the code measures leaves out the connections under way, which the condition counts
    have hunder := hcareful hclosed hpool hroom
    have hcard := h.card_opened hclosed hpool
    refine h.call (fun call hcall => ?_) ?_
    · rcases List.mem_append.mp hcall with hcall | hcall
      · exact Nat.lt_succ_of_lt (h.numbered call hcall)
      · rw [List.mem_singleton.mp hcall]
        exact Nat.lt_succ_self _
    · rw [List.length_append, List.length_singleton]
      omega

theorem Sound.connected (h : Sound poolMax s) (call : ℕ) :
    Sound poolMax (PoolStep.after poolMax s (.connected call)) := by
  rw [PoolStep.after]
  split
  · next hcall =>
    -- the client is new: it is neither idle nor held nor open
    obtain ⟨hpool, hinUse, hopened⟩ := h.new_client
    constructor
    · exact h.nodupPool
    · intro client hclient hmem
      rcases Finset.mem_insert.mp hmem with rfl | hmem
      · exact hpool hclient
      · exact h.disjoint client hclient hmem
    · intro client hclient
      obtain ⟨hlt, hnot⟩ := h.pooled client hclient
      refine ⟨Nat.lt_succ_of_lt hlt, fun holder hholder => ?_⟩
      rcases List.mem_cons.mp hholder with rfl | hholder
      · rintro rfl
        exact hpool hclient
      · exact hnot holder hholder
    · exact h.nodup_holders_cons fun holder hholder => Nat.ne_of_lt (h.holding holder hholder).2.1
    · exact h.held_cons call s.clients
    · intro holder hholder
      rcases List.mem_cons.mp hholder with rfl | hholder
      · exact ⟨h.numbered call hcall, Nat.lt_succ_self _, .inl (Finset.mem_insert_self _ _)⟩
      · obtain ⟨hnumber, hlt, hstate⟩ := h.holding holder hholder
        refine ⟨hnumber, Nat.lt_succ_of_lt hlt, hstate.imp Finset.mem_insert_of_mem fun hnot hmem => ?_⟩
        rcases Finset.mem_insert.mp hmem with heq | hmem
        · exact Nat.ne_of_lt hlt heq
        · exact hnot hmem
    · exact fun other hother => h.numbered other (List.mem_of_mem_erase hother)
    · intro client hclient
      rcases Finset.mem_insert.mp hclient with rfl | hclient
      · exact .inr (Finset.mem_insert_self _ _)
      · exact (h.opened client hclient).imp_right Finset.mem_insert_of_mem
    · rintro hclosed client (hclient | hclient)
      · exact Finset.mem_insert_of_mem (h.live hclosed client (.inl hclient))
      · rcases Finset.mem_insert.mp hclient with rfl | hclient
        · exact Finset.mem_insert_self _ _
        · exact Finset.mem_insert_of_mem (h.live hclosed client (.inr hclient))
    · intro hclosed client hclient hmem
      rcases Finset.mem_insert.mp hmem with rfl | hmem
      · exact hpool hclient
      · exact h.quit hclosed client hclient hmem
    · exact h.closing
    · -- the connection was under way, and the room was kept for it
      have hcard : (insert s.clients s.opened).card = s.opened.card + 1 := Finset.card_insert_of_notMem hopened
      have hlength := List.length_erase_of_mem hcall
      have hpos := List.length_pos_of_mem hcall
      have hbounded := h.bounded
      dsimp only [RedisPool.connected]
      omega
  · exact h

theorem Sound.connectFailed (h : Sound poolMax s) (call : ℕ) :
    Sound poolMax (PoolStep.after poolMax s (.connectFailed call)) where
  nodupPool := h.nodupPool
  disjoint := h.disjoint
  pooled := h.pooled
  nodupHolders := h.nodupHolders
  held := h.held
  holding := h.holding
  numbered := fun other hother => h.numbered other (List.mem_of_mem_erase hother)
  opened := h.opened
  live := h.live
  quit := h.quit
  closing := h.closing
  bounded := Nat.le_trans (Nat.add_le_add_left List.length_erase_le _) h.bounded

/-! ## Releases -/

theorem release_of_notMem {client : ℕ} (h : client ∉ s.inUse) : release s client = s := if_pos h

theorem mem_holders_erase {call client other : ℕ} (hne : other ≠ client) {holder : ℕ}
    (h : (holder, other) ∈ s.holders) : (holder, other) ∈ s.holders.erase (call, client) := by
  refine (List.mem_erase_of_ne fun heq => hne ?_).mpr h
  exact (Prod.mk.inj heq).2

theorem Sound.nobody_after (h : Sound poolMax s) {call client : ℕ} (hholder : (call, client) ∈ s.holders) :
    ∀ holder ∈ s.holders.erase (call, client), holder.2 ≠ client := by
  rintro ⟨other, _⟩ hother rfl
  have hnodup := List.Nodup.of_map _ h.nodupHolders
  obtain ⟨hne, hmem⟩ := (List.Nodup.mem_erase_iff hnodup).mp hother
  exact hne (List.inj_on_of_nodup_map h.nodupHolders hmem hholder rfl)

theorem Sound.dismiss (h : Sound poolMax s) {call client : ℕ} (hclient : client ∉ s.inUse) :
    Sound poolMax { s with holders := s.holders.erase (call, client) } where
  nodupPool := h.nodupPool
  disjoint := h.disjoint
  pooled := fun other hother =>
    (h.pooled other hother).imp_right fun hnot holder hholder => hnot holder (List.mem_of_mem_erase hholder)
  nodupHolders := h.nodupHolders.sublist (List.erase_sublist.map _)
  held := by
    intro other hother
    have hne : other ≠ client := fun heq => hclient (heq ▸ hother)
    exact (h.held other hother).imp fun _ hholder => mem_holders_erase hne hholder
  holding := fun holder hholder => h.holding holder (List.mem_of_mem_erase hholder)
  numbered := h.numbered
  opened := h.opened
  live := h.live
  quit := h.quit
  closing := h.closing
  bounded := h.bounded

theorem Sound.giveBack (h : Sound poolMax s) (hclosed : s.closed = false) {call client : ℕ} (hclient : client ∈ s.inUse)
    (hholder : (call, client) ∈ s.holders) :
    Sound poolMax { s with
      inUse := s.inUse.erase client, pool := s.pool ++ [client], holders := s.holders.erase (call, client) } := by
  have hnot : client ∉ s.pool := fun hmem => h.disjoint client hmem hclient
  have hnobody := h.nobody_after hholder
  -- as above, the client only moves
  have hwhere : ∀ other, other ∈ s.pool ++ [client] ∨ other ∈ s.inUse.erase client ↔
      other ∈ s.pool ∨ other ∈ s.inUse := by
    intro other
    rw [List.mem_append, List.mem_singleton, Finset.mem_erase]
    by_cases heq : other = client
    · subst heq
      simp [hclient]
    · simp [heq]
  constructor
  · exact List.nodup_append.mpr ⟨h.nodupPool, List.nodup_singleton _, fun other hother one hone heq =>
      hnot (List.mem_singleton.mp hone ▸ heq ▸ hother)⟩
  · intro other hother hmem
    obtain ⟨hne, hmem⟩ := Finset.mem_erase.mp hmem
    rcases List.mem_append.mp hother with hother | hother
    · exact h.disjoint other hother hmem
    · exact hne (List.mem_singleton.mp hother)
  · intro other hother
    rcases List.mem_append.mp hother with hother | hother
    · exact (h.pooled other hother).imp_right fun hfree holder hmem => hfree holder (List.mem_of_mem_erase hmem)
    · rw [List.mem_singleton.mp hother]
      exact ⟨(h.holding _ hholder).2.1, hnobody⟩
  · exact h.nodupHolders.sublist (List.erase_sublist.map _)
  · intro other hother
    obtain ⟨hne, hmem⟩ := Finset.mem_erase.mp hother
    exact (h.held other hmem).imp fun _ hheld => mem_holders_erase hne hheld
  · intro holder hmem
    obtain ⟨hnumber, hlt, hstate⟩ := h.holding holder (List.mem_of_mem_erase hmem)
    exact ⟨hnumber, hlt, hstate.imp_left fun hin => Finset.mem_erase.mpr ⟨hnobody holder hmem, hin⟩⟩
  · exact h.numbered
  · exact fun other hother => (hwhere other).mpr (h.opened other hother)
  · exact fun hopen other hother => h.live hopen other ((hwhere other).mp hother)
  · exact fun hclosed' => absurd (hclosed.symm.trans hclosed') Bool.false_ne_true
  · exact h.closing
  · exact h.bounded

/-- A client in use is quit, after the pool was closed. -/
theorem Sound.hangUp (h : Sound poolMax s) (hclosed : s.closed = true) {call client : ℕ} :
    Sound poolMax { s with
      inUse := s.inUse.erase client, opened := s.opened.erase client, holders := s.holders.erase (call, client) } := by
  constructor
  · exact h.nodupPool
  · exact fun other hother hmem => h.disjoint other hother (Finset.mem_of_mem_erase hmem)
  · exact fun other hother =>
      (h.pooled other hother).imp_right fun hfree holder hmem => hfree holder (List.mem_of_mem_erase hmem)
  · exact h.nodupHolders.sublist (List.erase_sublist.map _)
  · intro other hother
    obtain ⟨hne, hmem⟩ := Finset.mem_erase.mp hother
    exact (h.held other hmem).imp fun _ hheld => mem_holders_erase hne hheld
  · intro holder hmem
    obtain ⟨hnumber, hlt, hstate⟩ := h.holding holder (List.mem_of_mem_erase hmem)
    refine ⟨hnumber, hlt, ?_⟩
    by_cases heq : holder.2 = client
    · exact .inr fun hopened => Finset.ne_of_mem_erase hopened heq
    · exact hstate.imp (fun hin => Finset.mem_erase.mpr ⟨heq, hin⟩) fun hquit hopened =>
        hquit (Finset.mem_of_mem_erase hopened)
  · exact h.numbered
  · intro other hother
    obtain ⟨hne, hmem⟩ := Finset.mem_erase.mp hother
    exact (h.opened other hmem).imp_right fun hin => Finset.mem_erase.mpr ⟨hne, hin⟩
  · exact fun hopen => absurd (hopen.symm.trans hclosed) Bool.false_ne_true
  · exact fun _ other hother hmem => h.quit hclosed other hother (Finset.mem_of_mem_erase hmem)
  · exact h.closing
  · exact Nat.le_trans (Nat.add_le_add_right (Finset.card_le_card (Finset.erase_subset _ _)) _) h.bounded

theorem Sound.release (h : Sound poolMax s) {call client : ℕ} (hcareful : Careful poolMax s (.release call client)) :
    Sound poolMax (PoolStep.after poolMax s (.release call client)) := by
  rw [PoolStep.after]
  by_cases hclient : client ∈ s.inUse
  · rw [RedisPool.release, if_neg (not_not.mpr hclient)]
    cases hclosed : s.closed with
    | true =>
      rw [if_pos rfl, ← hclosed]
      exact h.hangUp hclosed
    | false =>
      rw [if_neg Bool.false_ne_true, ← hclosed]
      exact h.giveBack hclosed hclient (hcareful hclosed hclient)
  · rw [release_of_notMem]
    · exact h.dismiss hclient
    · exact hclient

/-! ## The destruction -/

theorem Sound.onModuleDestroy (h : Sound poolMax s) : Sound poolMax (PoolStep.after poolMax s .onModuleDestroy) where
  nodupPool := h.nodupPool
  disjoint := h.disjoint
  pooled := h.pooled
  nodupHolders := h.nodupHolders
  held := h.held
  holding := fun holder hholder => (h.holding holder hholder).imp_right fun hstate =>
    hstate.imp_right fun hstate => hstate.imp_right fun hquit hmem => hquit (Finset.mem_sdiff.mp hmem).1
  numbered := h.numbered
  opened := fun client hclient => h.opened client (Finset.mem_sdiff.mp hclient).1
  live := fun hclosed => absurd hclosed.symm Bool.false_ne_true
  quit := by
    intro _ client hclient hmem
    exact (Finset.mem_sdiff.mp hmem).2 (Finset.mem_union_left _ (List.mem_toFinset.mpr hclient))
  closing := fun hclosed => absurd hclosed.symm Bool.false_ne_true
  bounded := Nat.le_trans (Nat.add_le_add_right (Finset.card_le_card Finset.sdiff_subset) _) h.bounded

/-- The clients are forgotten, after all of them were quit. -/
theorem Sound.quitsDone (h : Sound poolMax s) (hcareful : Careful poolMax s .quitsDone) :
    Sound poolMax (PoolStep.after poolMax s .quitsDone) := by
  rw [PoolStep.after]
  split
  · exact h
  · next hdestroying =>
    have hclosed : s.closed = true := by
      by_contra hopen
      exact hdestroying (h.closing (Bool.eq_false_iff.mpr hopen)).1
    -- the destruction has quit the pooled clients, and the condition covers those in use
    have hnone : ∀ client, client ∉ s.opened := by
      intro client hclient
      rcases h.opened client hclient with hmem | hmem
      · exact h.quit hclosed client hmem hclient
      · exact hcareful hdestroying client hmem hclient
    constructor
    · exact List.nodup_nil
    · exact fun _ hclient => absurd hclient List.not_mem_nil
    · exact fun _ hclient => absurd hclient List.not_mem_nil
    · exact h.nodupHolders
    · exact fun client hclient => absurd hclient (Finset.notMem_empty client)
    · intro holder hholder
      obtain ⟨hnumber, hlt, -⟩ := h.holding holder hholder
      exact ⟨hnumber, hlt, .inr (hnone holder.2)⟩
    · exact h.numbered
    · exact fun client hclient => absurd hclient (hnone client)
    · exact fun hopen => absurd (hopen.symm.trans hclosed) Bool.false_ne_true
    · exact fun _ _ hclient => absurd hclient List.not_mem_nil
    · exact fun hopen => absurd (hopen.symm.trans hclosed) Bool.false_ne_true
    · exact h.bounded

/-! ## Runs -/

/-- **A careful step keeps the invariant.** -/
theorem Sound.step (h : Sound poolMax s) (step : PoolStep) (hcareful : Careful poolMax s step) :
    Sound poolMax (step.after poolMax s) := by
  cases step with
  | acquire => exact h.acquire hcareful
  | connected call => exact h.connected call
  | connectFailed call => exact h.connectFailed call
  | release call client => exact h.release hcareful
  | onModuleDestroy => exact h.onModuleDestroy
  | quitsDone => exact h.quitsDone hcareful

/-- **A run of careful steps is safe**, from a pool with at most `poolMax` connections. -/
theorem safe_of_careful {connections : ℕ} (hconnections : connections ≤ poolMax) {steps : List PoolStep}
    (hcareful : Along (PoolStep.after poolMax) (Careful poolMax) (.prefilled connections) steps) :
    Throughout (PoolStep.after poolMax) (Safe poolMax) (.prefilled connections) steps := by
  have hsound := throughout_of_invariant (I := Sound poolMax) (fun _ step h => h.step step)
    (Sound.prefilled hconnections) hcareful
  exact hsound.mono fun _ h => h.safe

/-- Connections one after the other, a release by a holder, and a destruction with a client in
use. -/
theorem safe_of_careful_shutdown :
    Throughout (PoolStep.after 2) (Safe 2) (.prefilled 1)
      [.acquire, .acquire, .connected 1, .release 0 0, .onModuleDestroy, .quitsDone, .release 1 1] :=
  safe_of_careful (by decide) (by decide)

/-- **Two acquisitions at once** on a pool with room for one client. -/
theorem two_clients_opened :
    ¬ Safe 1 (run (PoolStep.after 1) (.prefilled 0) [.acquire, .acquire, .connected 0, .connected 1]) := by
  intro h
  exact absurd h.bounded (by decide)

end RedisPool
