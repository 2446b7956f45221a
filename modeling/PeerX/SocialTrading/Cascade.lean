import PeerX.SocialTrading.Listener
import PeerX.Foundations.Runs

/-!
# Social trading: the cascade of a trade

Nothing marks a copied order, and nothing remembers which subscriptions a trade has reached. So the
listener copies an event at most once for each subscription to its taker, and only orders that it
copied enter the book; but followers who copy each other copy a trade back and forth.

## Main results

* `orderly_step`, `orderly_run`: every cascade is orderly
* `copies_follow_events`: a subscription copies an event at most once, and only an event of its
  master
* `copied_again`: a subscription copies one trade twice
-/

namespace SocialTrading

open Relational Concurrency
open Orders (Order OrdersDb FillResult sql)

/-! ## Orderly cascades -/

/-- The follower and the master of a subscription. -/
def SocialDb.pairOf (db : SocialDb) (id : String) : Option (String × String) :=
  (db.subscriptions.find id).map CopySubscription.pair

/-- The event and the subscription of a copied order. -/
def Copy.source (copy : Copy) : ℕ × String := (copy.event, copy.subscription)

/-- The subscription follows the event: its master is the taker of the fill. -/
def Cascade.Follows (c : Cascade) (social : SocialDb) (source : ℕ × String) (followerUserId : String) : Prop :=
  ∃ h, c.handlers[source.1]? = some h ∧ social.pairOf source.2 = some (followerUserId, h.event.masterUserId)

/-- The subscriptions that are still to copy an event: distinct ones to its taker, none of which
has copied it. -/
structure Pending (social : SocialDb) (copies : List Copy) (k : ℕ) (masterUserId : String)
    (subs : List CopySubscription) : Prop where
  nodup : (subs.map CopySubscription.id).Nodup
  stored : ∀ sub ∈ subs, social.pairOf sub.id = some sub.pair
  master : ∀ sub ∈ subs, sub.masterUserId = masterUserId
  fresh : ∀ sub ∈ subs, (k, sub.id) ∉ copies.map Copy.source

/-- What is still to be copied at a stage of the call `k`. -/
def Stage.Ready (social : SocialDb) (copies : List Copy) (k : ℕ) (masterUserId : String) : Stage → Prop
  | .waiting => ∀ copy ∈ copies, copy.event ≠ k
  | .copying _ subs _ _ => Pending social copies k masterUserId subs
  | .placing _ sub _ subs _ _ => Pending social copies k masterUserId (sub :: subs)
  | .finished => True

/-- An event with a cause is a fill of an order that was copied for the follower of a
subscription to the taker of an earlier event. -/
def Cascade.Caused (c : Cascade) (social : SocialDb) (k : ℕ) (h : Handler) : Prop :=
  ∀ source ∈ h.cause, source.1 < k ∧ ∃ followerUserId userId, c.Follows social source followerUserId ∧
    numericFollowerId followerUserId = some userId ∧ h.event.masterUserId = toString userId

/-- An orderly cascade of the tables `social` and `orders`. -/
structure Orderly (social : SocialDb) (orders : OrdersDb) (c : Cascade) : Prop where
  pairs : ∀ id, c.social.pairOf id = social.pairOf id
  placed : c.orders.orders.rows.map Order.id = orders.orders.rows.map Order.id ++ c.copies.map Copy.order
  nodup : (c.copies.map Copy.source).Nodup
  copied : ∀ copy ∈ c.copies, ∃ followerUserId, c.Follows social copy.source followerUserId
  ready : ∀ k (h : Handler), c.handlers[k]? = some h → h.stage.Ready social c.copies k h.event.masterUserId
  caused : ∀ k (h : Handler), c.handlers[k]? = some h → c.Caused social k h

section Orderly

variable {social social' : SocialDb} {orders orders' : OrdersDb} {c : Cascade} {copies : List Copy} {made : Copy}
  {k j : ℕ} {h call : Handler} {masterUserId : String} {sub : CopySubscription} {subs : List CopySubscription}
  {stage : Stage} {source : ℕ × String} {followerUserId : String} {userId : ℕ} {events : List TradeExecuted}

/-! ### Subscriptions -/

theorem Pending.tail (hpending : Pending social copies k masterUserId (sub :: subs)) :
    Pending social copies k masterUserId subs where
  nodup := (List.nodup_cons.mp hpending.nodup).2
  stored := fun x hx => hpending.stored x (List.mem_cons_of_mem _ hx)
  master := fun x hx => hpending.master x (List.mem_cons_of_mem _ hx)
  fresh := fun x hx => hpending.fresh x (List.mem_cons_of_mem _ hx)

theorem Pending.copy (hpending : Pending social copies k masterUserId subs)
    (hother : ∀ sub ∈ subs, made.source ≠ (k, sub.id)) : Pending social (copies ++ [made]) k masterUserId subs where
  nodup := hpending.nodup
  stored := hpending.stored
  master := hpending.master
  fresh := by
    intro x hx hmem
    rw [List.map_append, List.mem_append, List.map_singleton, List.mem_singleton] at hmem
    rcases hmem with hold | hnew
    · exact hpending.fresh x hx hold
    · exact hother x hx hnew.symm

theorem Pending.place (hpending : Pending social copies k masterUserId (sub :: subs)) {order : ℕ} :
    Pending social (copies ++ [⟨k, sub.id, order⟩]) k masterUserId subs := by
  refine hpending.tail.copy ?_
  intro x hx he
  have hid : sub.id = x.id := (Prod.mk.inj he).2
  exact (List.nodup_cons.mp hpending.nodup).1 (hid ▸ List.mem_map_of_mem hx)

theorem pending_copiers (hpairs : ∀ id, social'.pairOf id = social.pairOf id)
    (hfresh : ∀ copy ∈ copies, copy.event ≠ k) :
    Pending social copies k masterUserId (social'.copiers masterUserId) where
  nodup := social'.subscriptions.nodup.sublist (List.filter_sublist.map _)
  stored := by
    intro sub hsub
    rw [← hpairs, SocialDb.pairOf, Table.find_of_mem (List.mem_filter.mp hsub).1]
    rfl
  master := by
    intro sub hsub
    exact (of_decide_eq_true (List.mem_filter.mp hsub).2).1
  fresh := by
    intro sub hsub hmem
    obtain ⟨copy, hcopy, he⟩ := List.mem_map.mp hmem
    exact hfresh copy hcopy (Prod.mk.inj he).1

/-- A subscription that is saved keeps its follower and its master. -/
theorem pairOf_saveSubscription {saved : Option CopySubscription}
    (hsaved : ∀ sub ∈ saved, social.pairOf sub.id = some sub.pair) (id : String) :
    (Cascade.saveSubscription social saved).pairOf id = social.pairOf id := by
  cases saved with
  | none => rfl
  | some sub =>
    rw [Cascade.saveSubscription, Option.elim_some, SocialDb.pairOf, Table.find_save]
    split
    next hid => rw [hid, hsaved sub rfl, Option.map_some]
    · rfl

theorem pairOf_save (master : TraderProfile) (volumeDelta pnlDelta : ℚ) (id : String) :
    (c.save master volumeDelta pnlDelta).pairOf id = c.social.pairOf id := by
  unfold Cascade.save
  split <;> rfl

/-- A copied order of another event leaves a stage ready. -/
theorem Stage.Ready.copy (hready : stage.Ready social copies j masterUserId) (hother : made.event ≠ j) :
    stage.Ready social (copies ++ [made]) j masterUserId := by
  have hsource : ∀ id, made.source ≠ (j, id) := fun id he => hother (Prod.mk.inj he).1
  cases stage with
  | waiting =>
    intro x hx
    rcases List.mem_append.mp hx with hold | hnew
    · exact hready x hold
    · rw [List.mem_singleton.mp hnew]
      exact hother
  | copying => exact Pending.copy hready fun sub _ => hsource sub.id
  | placing => exact Pending.copy hready fun sub _ => hsource sub.id
  | finished => trivial

/-! ### The parts of a turn -/

/-- The calls of `c` are calls of `c'`, with the same events. -/
def Cascade.Extends (c c' : Cascade) : Prop :=
  ∀ (k : ℕ) (h : Handler), c.handlers[k]? = some h → ∃ h' : Handler, c'.handlers[k]? = some h' ∧ h'.event = h.event

theorem Cascade.Follows.mono {c' : Cascade} (hfollows : c.Follows social source followerUserId)
    (hextends : c.Extends c') : c'.Follows social source followerUserId := by
  obtain ⟨h, hh, hpair⟩ := hfollows
  obtain ⟨h', hh', hevent⟩ := hextends _ h hh
  exact ⟨h', hh', by rw [hevent]; exact hpair⟩

theorem Cascade.Caused.mono {c' : Cascade} (hcaused : c.Caused social k h)
    (hextends : c.Extends c') : c'.Caused social k h := by
  intro source hsource
  obtain ⟨hlt, followerUserId, userId, hfollows, hrest⟩ := hcaused source hsource
  exact ⟨hlt, followerUserId, userId, hfollows.mono hextends, hrest⟩

theorem getElem?_advance (hk : c.handlers[k]? = some call) (hh : (c.advance k call stage)[j]? = some h) :
    j = k ∧ h = { call with stage } ∨ j ≠ k ∧ c.handlers[j]? = some h := by
  have hlt : k < c.handlers.length := (List.getElem?_eq_some_iff.mp hk).1
  rw [Cascade.advance, List.getElem?_set, if_pos hlt] at hh
  split at hh
  next hj =>
    exact .inl ⟨hj.symm, (Option.some.inj hh).symm⟩
  next hj => exact .inr ⟨fun he => hj he.symm, hh⟩

theorem extends_advance (hk : c.handlers[k]? = some call) {c' : Cascade}
    (hhandlers : c'.handlers = c.advance k call stage) : c.Extends c' := by
  have hlt : k < c.handlers.length := (List.getElem?_eq_some_iff.mp hk).1
  intro j h hh
  rw [hhandlers, Cascade.advance, List.getElem?_set]
  by_cases hj : k = j
  · subst hj
    obtain rfl := Option.some.inj (hk.symm.trans hh)
    exact ⟨{ call with stage }, by rw [if_pos rfl, if_pos hlt], rfl⟩
  · exact ⟨h, by rw [if_neg hj, hh], rfl⟩

/-- A call advances. -/
theorem Orderly.advance (horderly : Orderly social orders c) (hk : c.handlers[k]? = some call)
    (hpairs : ∀ id, social'.pairOf id = c.social.pairOf id)
    (hready : stage.Ready social c.copies k call.event.masterUserId) :
    Orderly social orders { c with social := social', handlers := c.advance k call stage } := by
  have hextends : c.Extends { c with social := social', handlers := c.advance k call stage } := extends_advance hk rfl
  constructor
  · exact fun id => (hpairs id).trans (horderly.pairs id)
  · exact horderly.placed
  · exact horderly.nodup
  · intro copy hcopy
    obtain ⟨followerUserId, hfollows⟩ := horderly.copied copy hcopy
    exact ⟨followerUserId, hfollows.mono hextends⟩
  · intro j h hh
    rcases getElem?_advance hk hh with ⟨rfl, rfl⟩ | ⟨-, hold⟩
    · exact hready
    · exact horderly.ready j h hold
  · intro j h hh
    rcases getElem?_advance hk hh with ⟨rfl, rfl⟩ | ⟨-, hold⟩
    · exact (horderly.caused j call hk).mono hextends
    · exact (horderly.caused j h hold).mono hextends

/-- The fills of a copied order are emitted. -/
theorem Orderly.emit (horderly : Orderly social orders c) (hfollows : c.Follows social source followerUserId)
    (huser : numericFollowerId followerUserId = some userId)
    (hevents : ∀ event ∈ events, event.masterUserId = toString userId) :
    Orderly social orders { c with handlers := c.handlers ++ started (some source) events } := by
  have hlt : source.1 < c.handlers.length := by
    obtain ⟨h, hh, -⟩ := hfollows
    exact (List.getElem?_eq_some_iff.mp hh).1
  have hextends : c.Extends { c with handlers := c.handlers ++ started (some source) events } := by
    intro j h hh
    exact ⟨h, (List.getElem?_append_left (List.getElem?_eq_some_iff.mp hh).1).trans hh, rfl⟩
  -- a call is an old one, or starts with one of the events
  have hcases : ∀ j (h : Handler), (c.handlers ++ started (some source) events)[j]? = some h →
      c.handlers[j]? = some h ∨ c.handlers.length ≤ j ∧ ∃ event ∈ events, h = ⟨event, some source, .waiting⟩ := by
    intro j h hh
    rcases Nat.lt_or_ge j c.handlers.length with hj | hj
    · rw [List.getElem?_append_left hj] at hh
      exact .inl hh
    · rw [List.getElem?_append_right hj] at hh
      obtain ⟨event, hevent, he⟩ := List.mem_map.mp (List.mem_of_getElem? hh)
      exact .inr ⟨hj, event, hevent, he.symm⟩
  constructor
  · exact horderly.pairs
  · exact horderly.placed
  · exact horderly.nodup
  · intro copy hcopy
    obtain ⟨followerUserId, hfollows⟩ := horderly.copied copy hcopy
    exact ⟨followerUserId, hfollows.mono hextends⟩
  · intro j h hh
    rcases hcases j h hh with hh | ⟨hj, event, -, rfl⟩
    · exact horderly.ready j h hh
    · -- the copied orders are of earlier events
      intro copy hcopy he
      obtain ⟨_, h, hh, -⟩ := horderly.copied copy hcopy
      have hcopylt : copy.event < c.handlers.length := (List.getElem?_eq_some_iff.mp hh).1
      omega
  · intro j h hh
    rcases hcases j h hh with hh | ⟨hj, event, hevent, rfl⟩
    · exact (horderly.caused j h hh).mono hextends
    · rintro _ ⟨⟩
      exact ⟨hlt.trans_le hj, followerUserId, userId, hfollows.mono hextends, huser, hevents event hevent⟩

/-- A copied order is placed. -/
theorem Orderly.copy (horderly : Orderly social orders c) (hfollows : c.Follows social made.source followerUserId)
    (hfresh : made.source ∉ c.copies.map Copy.source)
    (hplaced : orders'.orders.rows.map Order.id = c.orders.orders.rows.map Order.id ++ [made.order])
    (hready : ∀ h, c.handlers[made.event]? = some h →
      h.stage.Ready social (c.copies ++ [made]) made.event h.event.masterUserId) :
    Orderly social orders { c with orders := orders', copies := c.copies ++ [made] } := by
  constructor
  · exact horderly.pairs
  · show orders'.orders.rows.map Order.id = _ ++ (c.copies ++ [made]).map Copy.order
    rw [hplaced, horderly.placed, List.map_append, List.map_singleton, List.append_assoc]
  · show ((c.copies ++ [made]).map Copy.source).Nodup
    rw [List.map_append, List.map_singleton, ← List.concat_eq_append]
    exact List.Nodup.concat hfresh horderly.nodup
  · intro x hx
    rcases List.mem_append.mp hx with hold | hnew
    · exact horderly.copied x hold
    · rw [List.mem_singleton.mp hnew]
      exact ⟨followerUserId, hfollows⟩
  · intro j h hh
    by_cases hj : made.event = j
    · subst hj
      exact hready h hh
    · exact (horderly.ready j h hh).copy hj
  · exact horderly.caused

/-! ### Turns -/

/-- The orders and the fills of a transaction that goes through. -/
theorem transact_fills {now : ℤ} {order : Order} {fills : List FillResult} (h : c.transact now order = (.ok fills, orders')) :
    orders'.orders.rows.map Order.id = c.orders.orders.rows.map Order.id ++ [order.id] ∧
      ∀ event ∈ fills.map executed, event.masterUserId = toString order.userId := by
  unfold Cascade.transact at h
  rcases Prog.atomically_cases sql.handler (mirror _ now order) c.orders with ⟨fills₁, d', heval, hatomic⟩ | ⟨e, -, hatomic⟩
  · obtain ⟨rfl, rfl⟩ : fills₁ = fills ∧ d' = orders' := by simpa using hatomic.symm.trans h
    obtain ⟨hplaced, huser⟩ := mirror_fills heval
    refine ⟨hplaced, fun event hevent => ?_⟩
    obtain ⟨fill, hfill, rfl⟩ := List.mem_map.mp hevent
    rw [executed, huser fill hfill]
  · cases hatomic.symm.trans h

theorem ready_afterReads (event : TradeExecuted) (hpairs : ∀ id, social'.pairOf id = social.pairOf id)
    (hfresh : ∀ copy ∈ copies, copy.event ≠ k) :
    (Cascade.afterReads social' event).Ready social copies k event.masterUserId := by
  unfold Cascade.afterReads
  split
  · trivial
  split
  · trivial
  split
  · trivial
  split
  · trivial
  · exact pending_copiers hpairs hfresh

/-- The subscription that a call copies follows its event. -/
theorem Pending.follows (hpending : Pending social copies k call.event.masterUserId (sub :: subs))
    (hk : c.handlers[k]? = some call) : c.Follows social (k, sub.id) sub.followerUserId := by
  refine ⟨call, hk, ?_⟩
  rw [← hpending.master sub List.mem_cons_self]
  exact hpending.stored sub List.mem_cons_self

/-- The transaction of a copied order. -/
theorem orderly_place (horderly : Orderly social orders c) (hk : c.handlers[k]? = some call) (turn : Turn)
    (master : TraderProfile) (decision : CopyDecision) (volumeDelta pnlDelta : ℚ)
    (hpending : Pending social c.copies k call.event.masterUserId (sub :: subs)) :
    Orderly social orders (c.place k call turn master sub decision subs volumeDelta pnlDelta) := by
  have hadvance : ∀ volumeDelta pnlDelta, Orderly social orders
      { c with handlers := c.advance k call (.copying master subs volumeDelta pnlDelta) } := fun _ _ =>
    horderly.advance hk (fun _ => rfl) hpending.tail
  have hfollows := hpending.follows hk
  unfold Cascade.place
  dsimp only
  split
  · exact hadvance volumeDelta pnlDelta
  next userId huser =>
    split
    · exact hadvance volumeDelta pnlDelta
    next fills orders' n htransact _ =>
      -- what was emitted stays, and the order does not
      obtain ⟨-, hevents⟩ := transact_fills htransact
      refine (hadvance volumeDelta pnlDelta).emit (hfollows.mono (extends_advance hk rfl)) huser ?_
      intro event hevent
      exact hevents event (List.map_subset _ (List.take_subset n fills) hevent)
    next fills orders' htransact _ =>
      obtain ⟨hplaced, hevents⟩ := transact_fills htransact
      have hcopy : ∀ volumeDelta pnlDelta, Orderly social orders
          { c with
            orders := orders'
            handlers := c.advance k call (.copying master subs volumeDelta pnlDelta)
            copies := c.copies ++ [⟨k, sub.id, turn.id⟩] } := by
        intro volumeDelta pnlDelta
        have hfresh : (k, sub.id) ∉ c.copies.map Copy.source := hpending.fresh sub List.mem_cons_self
        refine (hadvance volumeDelta pnlDelta).copy (hfollows.mono (extends_advance hk rfl)) hfresh hplaced ?_
        intro h hh
        rcases getElem?_advance hk hh with ⟨-, rfl⟩ | ⟨hne, -⟩
        · exact hpending.place
        · exact absurd rfl hne
      exact (hcopy _ _).emit (hfollows.mono (extends_advance hk rfl)) huser hevents

/-- **A turn keeps a cascade orderly.** -/
theorem orderly_step (horderly : Orderly social orders c) (turn : Turn) : Orderly social orders (c.step turn) := by
  unfold Cascade.step
  split
  · exact horderly
  next call hk =>
    have hready := horderly.ready _ call hk
    unfold Cascade.stepCall
    split
    next hstage _ =>
      rw [hstage] at hready
      exact horderly.advance hk (fun _ => rfl) (ready_afterReads call.event horderly.pairs hready)
    · exact horderly.advance hk (fun _ => rfl) trivial
    next => exact horderly.advance hk (pairOf_save _ _ _) trivial
    · exact horderly.advance hk (fun _ => rfl) trivial
    next master sub subs volumeDelta pnlDelta hstage _ =>
      rw [hstage] at hready
      have hpending : Pending social c.copies turn.handler call.event.masterUserId (sub :: subs) := hready
      refine horderly.advance hk (pairOf_saveSubscription ?_) ?_
      · -- the risk control saves the subscription that the call has read
        intro saved hsaved
        obtain ⟨hid, hpair, -⟩ := resolveCopyAmount_saved hsaved
        rw [hid, hpair, horderly.pairs]
        exact hpending.stored sub List.mem_cons_self
      · cases (c.resolve call.event master sub).2 with
        | none => exact hpending.tail
        | some decision => exact hpending
    next hstage _ =>
      rw [hstage] at hready
      exact horderly.advance hk (fun _ => rfl) (Pending.tail hready)
    next hstage =>
      rw [hstage] at hready
      exact orderly_place horderly hk turn _ _ _ _ hready
    · exact horderly

theorem orderly_start (social : SocialDb) (orders : OrdersDb) (events : List TradeExecuted) :
    Orderly social orders (.start social orders events) := by
  have hstarted : ∀ (k : ℕ) (h : Handler), (started none events)[k]? = some h → h.cause = none ∧ h.stage = .waiting := by
    intro k h hh
    obtain ⟨event, -, rfl⟩ := List.mem_map.mp (List.mem_of_getElem? hh)
    exact ⟨rfl, rfl⟩
  constructor
  · exact fun _ => rfl
  · exact (List.append_nil _).symm
  · exact List.nodup_nil
  · exact fun _ hcopy => absurd hcopy List.not_mem_nil
  · intro k h hh
    rw [(hstarted k h hh).2]
    exact fun _ hcopy => absurd hcopy List.not_mem_nil
  · intro k h hh source hsource
    rw [(hstarted k h hh).1] at hsource
    cases hsource

/-- **Every cascade is orderly.** -/
theorem orderly_run (social : SocialDb) (orders : OrdersDb) (events : List TradeExecuted) (turns : List Turn) :
    Orderly social orders (run Cascade.step (Cascade.start social orders events) turns) := by
  have hstep : ∀ c turn, Orderly social orders c → Orderly social orders (Cascade.step c turn) := by
    intro c turn horderly
    exact orderly_step horderly turn
  exact run_invariant' hstep (orderly_start social orders events) turns

end Orderly

/-! ## A trade copied back and forth -/

/-- **A subscription copies an event at most once, and only an event of its master.** The cascade
adds the copied orders to the book and no other, and each event after the first ones is a fill of a
copied order. -/
theorem copies_follow_events (social : SocialDb) (orders : OrdersDb) (events : List TradeExecuted)
    (turns : List Turn) :
    let c := run Cascade.step (Cascade.start social orders events) turns
    (c.copies.map Copy.source).Nodup ∧
      (∀ copy ∈ c.copies, ∃ followerUserId, c.Follows social copy.source followerUserId) ∧
      c.orders.orders.rows.map Order.id = orders.orders.rows.map Order.id ++ c.copies.map Copy.order ∧
      ∀ k h, c.handlers[k]? = some h → c.Caused social k h := by
  intro c
  have horderly : Orderly social orders c := orderly_run social orders events turns
  exact ⟨horderly.nodup, horderly.copied, horderly.placed, horderly.caused⟩

/-- The profile of a user who is copied by one other. -/
def copiedTrader (userId : String) : TraderProfile :=
  ⟨"profile-" ++ userId, userId, "Trader", none, .public, 0, true, 1, 0, 0⟩

/-- Two users who copy each other. -/
def copyEachOther : SocialDb where
  profiles := ⟨[copiedTrader "1", copiedTrader "2"], by decide⟩
  subscriptions :=
    ⟨[newSubscription "2" ⟨"1", none, none, none, none⟩ "2-copies-1",
      newSubscription "1" ⟨"2", none, none, none, none⟩ "1-copies-2"], by decide⟩

/-- A resting order to sell five at 100. -/
def restingAsk : Order where
  id := 0
  userId := 3
  assetId := 1
  side := .sell
  type := .limit
  status := .pending
  amount := 5
  filledAmount := 0
  averageFillPrice := none
  price := some 100
  stopPrice := none
  trailingDelta := none
  trailingReferencePrice := none
  triggeredAt := none
  filledAt := none
  cancelledAt := none
  expiresAt := none
  createdAt := 0

/-- User 1 buys one of them. -/
def buyOne : Cascade :=
  .ofOrder copyEachOther ⟨⟨[restingAsk], by decide⟩, ⟨[], by decide⟩, [], [], []⟩ 3 1 10 1
    ⟨1, .buy, .market, 1, none, none, none, none⟩

/-- The turns of the first three calls, one after the other. -/
def threeCalls : List Turn :=
  [⟨0, 0, 11, none⟩, ⟨0, 0, 11, none⟩, ⟨0, 2, 11, none⟩, ⟨1, 0, 12, none⟩, ⟨1, 0, 12, none⟩, ⟨1, 3, 12, none⟩,
    ⟨2, 0, 13, none⟩, ⟨2, 0, 13, none⟩, ⟨2, 4, 13, none⟩]

/-- **One fill, and the subscription of user 2 copies it twice**: user 1 has copied the copied
order. -/
theorem copied_again : buyOne.handlers.length = 1 ∧
    ¬ ((run Cascade.step buyOne threeCalls).copies.map Copy.subscription).Nodup := by
  decide +kernel

end SocialTrading
