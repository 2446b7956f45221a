import PeerX.Orders.Book
import PeerX.Orders.Sessions

/-!
# Orders: two orders placed at the same time

Two `placeOrder` transactions run statement by statement at READ COMMITTED. A maker query sees the
committed orders and the transaction's own, and locks the rows it returns; it neither sees nor locks
the order another transaction is inserting. When both transactions query before either commits,
neither order is matched against the other, and the book is crossed once both have committed. When
one of them still issues a maker query after the other has committed, the book is not crossed.

## Main results

* `uncrossed_of_ready`: what the rest of a transaction does when it queries after the other's commit
* `book_uncrossed_after_placements`: the book after both have committed
-/

namespace Orders

open Relational Concurrency Arithmetic

/-- A call of `placeOrder`, with the identifier and the time its order gets. -/
structure Placement where
  id : ℕ
  now : ℤ
  userId : ℕ
  dto : CreateOrderDto
  valid : dto.Valid

namespace Placement

/-- The order the call creates. -/
def order (p : Placement) : Order := newOrder p.id p.now p.userId p.dto

/-- The call as an event of its own. -/
def event (p : Placement) : Event := ⟨p.now, .place p.id p.userId p.dto p.valid⟩

/-- The transaction. -/
def tx (p : Placement) (fuel : ℕ) : Tx Order := placeOrder fuel p.id p.now p.userId p.dto

theorem order_fresh (p : Placement) : p.order.Fresh := newOrder_fresh p.id p.now p.userId p.valid

theorem eval_event {p : Placement} {fuel : ℕ} {d d' : OrdersDb} {a : Order}
    (h : (p.tx fuel).eval sql.handler d = (.ok a, d')) :
    (p.event.tx fuel).eval sql.handler d = (.ok (some a), d') := by
  show (some <$> p.tx fuel).eval sql.handler d = _
  rw [Prog.eval_map, h]
  rfl

end Placement

/-- The configurations of the two sessions. -/
abbrev Placing := Clients Stmt.Reply OrdersDb Write RowKey Unit OrderError Order Bool

/-- Two calls of `placeOrder` at the same time, before their first statement. -/
def placing (fuel : ℕ) (p : Bool → Placement) (d₀ : OrdersDb) : Placing :=
  clients (fun _ => ()) (fun i => (p i).tx fuel) d₀

/-- The next statement of the session is a maker query. -/
def atMakerQuery : OrdersSession Unit Order → Bool
  | .call (.stmt (.lockMaker _)) _ => true
  | _ => false

theorem exists_of_atMakerQuery {q : OrdersSession Unit Order} (h : atMakerQuery q) :
    ∃ t k, q = .call (.stmt (.lockMaker t)) k := by
  unfold atMakerQuery at h
  split at h
  · next t k => exact ⟨t, k, rfl⟩
  · cases h

/-- One transaction is about to query for a maker when the other has committed. -/
def AboutToSee (c : Placing) (i : Bool) : Prop :=
  (c.threads !i).returned ∧ atMakerQuery (c.threads i)

instance (c : Placing) (i : Bool) : Decidable (AboutToSee c i) :=
  inferInstanceAs (Decidable (_ ∧ _))

/-- One of the two still sees the other: at some point of the schedule, one transaction queries
for a maker when the other has committed. -/
def SeesOther (fuel : ℕ) (p : Bool → Placement) (d₀ : OrdersDb) (is : List Bool) : Prop :=
  ∃ is₁ is₂ c i, is = is₁ ++ is₂ ∧
    (placing fuel p d₀).run (sql.machine Unit Bool) is₁ = some c ∧ AboutToSee c i

/-! ## The policy -/

/-- What the maker query reads of an order, its status apart. -/
structure SameQuote (a b : Order) : Prop where
  id : b.id = a.id
  assetId : b.assetId = a.assetId
  side : b.side = a.side
  type : b.type = a.type
  price : b.price = a.price

theorem SameQuote.refl (a : Order) : SameQuote a a := ⟨rfl, rfl, rfl, rfl, rfl⟩

theorem SameQuote.trans {a b c : Order} (h : SameQuote a b) (h' : SameQuote b c) : SameQuote a c :=
  ⟨h'.id.trans h.id, h'.assetId.trans h.assetId, h'.side.trans h.side, h'.type.trans h.type,
    h'.price.trans h.price⟩

theorem SameQuote.symm {a b : Order} (h : SameQuote a b) : SameQuote b a :=
  ⟨h.id.symm, h.assetId.symm, h.side.symm, h.type.symm, h.price.symm⟩

theorem SameQuote.applyFill (now : ℤ) (o : Order) (a p : ℚ) : SameQuote o (applyFill now o a p) :=
  ⟨applyFill_id .., applyFill_assetId .., applyFill_side .., applyFill_type .., applyFill_price ..⟩

theorem Crossable.congr {x y x' y' : Order} (h : Crossable x y) (hx : SameQuote x x')
    (hy : SameQuote y y') (hopen : y'.Open) : Crossable x' y' := by
  obtain ⟨hasset, hside, htype, -, hprice⟩ := h
  refine ⟨?_, ?_, ?_, hopen, ?_⟩
  · rw [hy.assetId, hx.assetId, hasset]
  · rw [hy.side, hx.side, hside]
  · rw [hy.type, htype]
  · unfold acceptsPrice at hprice ⊢
    rw [hx.type, hx.price, hx.side, hy.price]
    exact hprice

/-- How a placement may rewrite a row: it keeps the quote, reopens nothing and cancels nothing. -/
structure Requotes (a b : Order) : Prop where
  quote : SameQuote a b
  isOpen : b.Open → a.Open
  cancelled : b.status = .cancelled → a.status = .cancelled
  sound : a.Sound → b.Sound
  exact : a.Exact → b.Exact

theorem Requotes.refl (a : Order) : Requotes a a := ⟨.refl a, id, id, id, id⟩

theorem Requotes.trans {a b c : Order} (h : Requotes a b) (h' : Requotes b c) : Requotes a c :=
  ⟨h.quote.trans h'.quote, fun hc => h.isOpen (h'.isOpen hc),
    fun hc => h.cancelled (h'.cancelled hc), fun ha => h'.sound (h.sound ha), fun ha => h'.exact (h.exact ha)⟩

theorem Requotes.applyFill {o : Order} {a : ℚ} (now : ℤ) (p : ℚ) (hopen : o.Open) (ha : 0 ≤ a)
    (hle : a ≤ o.remainingAmount) (hexact : Carried a) : Requotes o (applyFill now o a p) := by
  refine ⟨.applyFill now o a p, fun _ => hopen, fun hc => ?_, fun hs => hs.applyFill ha hle,
    fun h => h.applyFill hexact p⟩
  rw [applyFill_status] at hc
  split at hc <;> cases hc

/-- The row of the placement `p`: its order, possibly filled. -/
structure IsPlaced (p : Placement) (o : Order) : Prop where
  quote : SameQuote p.order o
  sound : o.Sound
  exact : o.Exact
  cancelled : o.status ≠ .cancelled

theorem Placement.isPlaced {p : Placement} (h : p.dto.Exact) : IsPlaced p p.order :=
  ⟨.refl _, p.order_fresh.sound, newOrder_exact p.id p.now p.userId h, by rw [p.order_fresh.status]; simp⟩

theorem IsPlaced.requotes {p : Placement} {a b : Order} (h : IsPlaced p a) (hr : Requotes a b) :
    IsPlaced p b :=
  ⟨h.quote.trans hr.quote, hr.sound h.sound, hr.exact h.exact, fun hc => h.cancelled (hr.cancelled hc)⟩

/-- The policy of two placements with identifiers of their own. -/
def placementPolicy (p : Bool → Placement) (hp : ∀ i j, (p i).id = (p j).id → i = j) :
    RowPolicy Bool where
  ok := fun o => o.Sound ∧ o.Exact ∧ ∀ j, o.id = (p j).id → IsPlaced (p j) o
  new := fun i o => IsPlaced (p i) o
  rel := fun _ a b => Requotes a b
  refl := fun _ o => .refl o
  trans := Requotes.trans
  new_trans := IsPlaced.requotes
  ok_new := fun {i _} h => ⟨h.sound, h.exact, fun j hj => hp i j (h.quote.id.symm.trans hj) ▸ h⟩
  ok_rel := fun hr h =>
    ⟨hr.sound h.1, hr.exact h.2.1, fun j hj => (h.2.2 j (hr.quote.id.symm.trans hj)).requotes hr⟩
  filled_le := fun h => h.1.filled_le
  fill := fun now p _ hopen ha hle ⟨_, _, ht, hm, e⟩ =>
    .applyFill now p hopen ha hle (e ▸ ht.2.1.remainingAmount.min hm.2.1.remainingAmount)

/-! ## The rest of a transaction -/

/-- What follows the matching loop of `placeOrder`. -/
def finishPlacing (taker : Order × List FillResult) : Tx Order :=
  .call (.saveOrder taker.1) fun _ => pure taker.1

/-- Every maker written so far was filled against the placed order. -/
def Logged (p : Placement) (ws : List Write) : Prop :=
  ∀ o, Write.order o ∈ ws → o.id = p.id ∨
    ∃ f, Write.fill f ∈ ws ∧ f.takerOrder.id = p.id ∧ f.makerOrder.id = o.id

/-- At a maker query, what is left of `placeOrder` is a matching loop of the order and its end. -/
def InLoop (p : Placement) (ws : List Write) (c : Stmt) (k : c.Reply → Tx Order) : Prop :=
  ∀ t, c = .lockMaker t → SameQuote p.order t ∧ Logged p ws ∧
    ∃ n fills, Prog.call c k = matchLoop p.now n t fills >>= finishPlacing

theorem inLoop_of_ne {p : Placement} {ws : List Write} {c : Stmt} (k : c.Reply → Tx Order)
    (hc : ∀ t, c ≠ .lockMaker t) : InLoop p ws c k := fun t ht => absurd ht (hc t)

theorem logged_nil (p : Placement) : Logged p [] := by
  intro o ho
  cases ho

theorem Logged.append {p : Placement} {ws ws' : List Write} (h : Logged p ws)
    (hw : ∀ o, Write.order o ∈ ws' → o.id = p.id) : Logged p (ws ++ ws') := by
  intro o ho
  rcases List.mem_append.mp ho with ho | ho
  · obtain hid | ⟨f, hf, hids⟩ := h o ho
    · exact .inl hid
    · exact .inr ⟨f, List.mem_append_left _ hf, hids⟩
  · exact .inl (hw o ho)

theorem Logged.fill {p : Placement} {ws : List Write} (h : Logged p ws) {t m : Order} {now : ℤ}
    (ht : t.id = p.id) (trade : Trade) :
    Logged p (ws ++ [] ++ [.order (makerAfter now t m)] ++ [.trade trade] ++
      [.fill (fillOf now t m)]) := by
  intro o ho
  have hcases : Write.order o ∈ ws ∨ o = makerAfter now t m := by simpa using ho
  rcases hcases with ho | rfl
  · obtain hid | ⟨f, hf, hids⟩ := h o ho
    · exact .inl hid
    · exact .inr ⟨f, by simp [hf], hids⟩
  · exact .inr ⟨fillOf now t m, by simp, (takerAfter_id ..).trans ht, rfl⟩

/-- One iteration of the matching loop, after the maker query. -/
def matchMaker (now : ℤ) (n : ℕ) (t : Order) (fills : List FillResult) :
    Option Order → Tx (Order × List FillResult)
  | none => pure (t, fills)
  | some m => do
    query (.saveOrder (makerAfter now t m))
    query (.insertTrade (fillTrade (takerAfter now t m) (fillAmount t m) (fillPrice m)))
    query (.pushFill (fillOf now t m))
    matchLoop now n (takerAfter now t m) (fills ++ [fillOf now t m])

theorem issues_matchLoop (p : Placement) (n : ℕ) {t : Order} (ht : SameQuote p.order t)
    {ws : List Write} (hws : Logged p ws) (fills : List FillResult) :
    sql.Issues (InLoop p) (fun _ _ => True) ws (matchLoop p.now n t fills >>= finishPlacing) := by
  have hfinish : ∀ ws x, sql.Issues (InLoop p) (fun _ _ => True) ws (finishPlacing x) :=
    fun ws x => ⟨inLoop_of_ne _ (by simp), fun _ => trivial⟩
  induction n generalizing t ws fills with
  | zero => trivial
  | succ n ih =>
    by_cases hpos : 0 < t.remainingAmount
    · -- the query for the next maker, with the rest of the loop behind it
      have hloop : matchLoop p.now (n + 1) t fills >>= finishPlacing =
          Prog.call (.lockMaker t) fun maker => matchMaker p.now n t fills maker >>=
            finishPlacing := by
        simp only [matchLoop, if_pos hpos, Prog.perform_bind, Prog.call_bind]
        congr 1
        funext maker
        cases maker <;> rfl
      rw [hloop]
      refine ⟨fun t' ht' => ?_, fun d => ?_⟩
      · cases ht'
        exact ⟨ht, hws, n + 1, fills, hloop.symm⟩
      · show sql.Issues _ _ (ws ++ []) _
        cases hbest : sql.reply (.lockMaker t) d with
        | none => exact hfinish _ _
        | some m =>
          refine ⟨inLoop_of_ne _ (by simp), fun _ => ⟨inLoop_of_ne _ (by simp), fun _ =>
            ⟨inLoop_of_ne _ (by simp), fun _ => ?_⟩⟩⟩
          exact ih (ht.trans (.applyFill ..)) (hws.fill ht.id _) _
    · have hloop : matchLoop p.now (n + 1) t fills = pure (t, fills) := by
        simp only [matchLoop, if_neg hpos]
      rw [hloop, pure_bind]
      exact hfinish _ _

/-- The statements before the matching loop query for no maker. -/
theorem issues_enterOrder (p : Placement) {N : List Write → (c : Stmt) → (c.Reply → Tx Order) → Prop}
    (hN : ∀ ws c k, (∀ t, c ≠ .lockMaker t) → N ws c k) :
    sql.Issues N (fun ws o => ∀ order, o = .ok order → order = p.order ∧ Logged p ws) []
      (enterOrder p.id p.now p.userId p.dto) := by
  -- both sides end in the INSERT of the order
  have hinsert : ∀ ws, Logged p ws → sql.Issues N
      (fun ws o => ∀ order, o = .ok order → order = p.order ∧ Logged p ws) ws
      (Prog.call (.insertOrder p.order) fun fresh =>
        if fresh then pure p.order else throw OrderError.duplicateKey) := by
    intro ws hws
    refine ⟨hN _ _ _ (by simp), fun d => ?_⟩
    cases sql.reply (.insertOrder p.order) d with
    | false => exact fun order ho => by cases ho
    | true =>
      intro order ho
      refine ⟨(Except.ok.inj ho).symm, hws.append fun o ho => ?_⟩
      obtain ⟨-, rfl⟩ : (d.orders.find p.order.id).isNone = true ∧ o = p.order := by
        simpa [sql, Stmt.writes] using ho
      rfl
  unfold enterOrder
  rw [Prog.perform_bind]
  refine ⟨hN _ _ _ (by simp), fun d => ?_⟩
  show sql.Issues N _ ([] ++ []) _
  cases hside : p.dto.side with
  | buy => exact hinsert _ (logged_nil p)
  | sell =>
    simp only [if_true]
    cases sql.reply (.lockBalance p.userId p.dto.assetId) d with
    | none => exact fun order ho => by cases ho
    | some balance =>
      by_cases hlt : balance.availableBalance < p.dto.amount
      · simp only [if_pos hlt]
        exact fun order ho => by cases ho
      · simp only [if_neg hlt]
        refine ⟨hN _ _ _ (by simp), fun _ => hinsert _ ?_⟩
        exact (logged_nil p).append fun o ho => by simp [sql, Stmt.writes] at ho

/-- At each of its maker queries, what is left of `placeOrder` is a matching loop. -/
theorem issues_placeOrder (p : Placement) (fuel : ℕ) :
    sql.Issues (InLoop p) (fun _ _ => True) [] (p.tx fuel) := by
  unfold Placement.tx placeOrder
  rcases validateOrderShape_cases p.dto with hshape | ⟨e, hshape⟩
  · rw [hshape, pure_bind]
    refine Dialect.issues_bind (Dialect.issues_mono (fun ws o ho => ?_)
      (issues_enterOrder p fun ws c k hc => inLoop_of_ne _ hc))
    cases o with
    | error e => trivial
    | ok order =>
      obtain ⟨rfl, hws⟩ := ho order rfl
      show sql.Issues _ _ _ (ite _ _ _)
      split
      · have hrest : (matchTakerOrder fuel p.now p.order >>= fun r => pure r.1 : Tx Order) =
            matchLoop p.now fuel p.order [] >>= finishPlacing := by
          simp only [matchTakerOrder, bind_assoc]
          rfl
        show sql.Issues _ _ _ (matchTakerOrder fuel p.now p.order >>= fun r => pure r.1)
        rw [hrest]
        exact issues_matchLoop p fuel (.refl _) hws []
      · trivial
  · rw [hshape]
    trivial

/-! ## A query after the other's commit -/

section Query

variable {p : Bool → Placement} {hp : ∀ i j, (p i).id = (p j).id → i = j}
  {s : OrdersServer Unit Bool} {i : Bool} {t : Order}

/-- The other rows a session sees are rewritings of committed rows. -/
theorem base_of_view (hinv : RowInv (placementPolicy p hp) s) {o : Order}
    (ho : o ∈ (s.view sql i).orders.rows) (hid : o.id ≠ (p i).id) :
    ∃ b ∈ s.committed.orders.rows, Requotes b o := by
  have hallows := hinv.allows_view (Table.find_of_mem ho)
  cases hb : s.committed.orders.find o.id with
  | none =>
    rw [hb] at hallows
    exact absurd (IsPlaced.quote hallows).id hid
  | some b =>
    rw [hb] at hallows
    exact ⟨b, Table.mem_of_find hb, hallows⟩

theorem Crossable.base {x y b : Order} (h : Crossable x y) (hr : Requotes b y) : Crossable x b :=
  h.congr (.refl x) hr.quote.symm (hr.isOpen h.2.2.2.1)

theorem soundRows_committed (hinv : RowInv (placementPolicy p hp) s) : SoundRows s.committed :=
  fun o ho => (hinv.committed o ho).1

theorem matchable_view (hinv : RowInv (placementPolicy p hp) s)
    (hunc : Uncrossed s.committed.orders) (ht : SameQuote (p i).order t)
    (hpos : 0 < t.remainingAmount) : Matchable ((s.view sql i).settle t) t := by
  rw [uncrossed_iff (soundRows_committed hinv)] at hunc
  refine ⟨fun x hx y hy hxid hyid hrest hxy => ?_, .inl hpos⟩
  have hsettled : ∀ o ∈ ((s.view sql i).settle t).orders.rows, o.id ≠ t.id →
      ∃ b ∈ s.committed.orders.rows, Requotes b o := by
    intro o ho hid
    rcases Table.mem_save.mp ho with rfl | ⟨ho, -⟩
    · exact absurd rfl hid
    · exact base_of_view hinv ho fun e => hid (e.trans ht.id.symm)
  obtain ⟨b, hb, hbx⟩ := hsettled x hx hxid
  obtain ⟨b', hb', hby⟩ := hsettled y hy hyid
  have hbrest : b.Resting := ⟨hbx.quote.type ▸ hrest.1, hbx.isOpen hrest.2⟩
  have hcross : Crossable b b' := (hxy.base hby).congr hbx.quote.symm (.refl b') (hxy.base hby).2.2.2.1
  exact hunc b hb hbrest b' hb' hcross

theorem TakerReady.storedAs (h : TakerReady (placementPolicy p hp) i s t) :
    StoredAs (s.view sql i) t := by
  obtain ⟨stored, hk, hside, -⟩ := h
  exact ⟨stored, hk.2, hside⟩

/-- **The rest of a transaction that is alone** leaves the book uncrossed, when the committed book
was. -/
theorem uncrossed_of_ready (hinv : RowInv (placementPolicy p hp) s)
    (hready : TakerReady (placementPolicy p hp) i s t) (ht : SameQuote (p i).order t)
    (hunc : Uncrossed s.committed.orders) {now : ℤ} {n : ℕ} {t' : Order}
    {fills fills' : List FillResult} {d₁ : OrdersDb}
    (he : (matchLoop now n t fills).eval sql.handler (s.view sql i) = (.ok (t', fills'), d₁)) :
    Uncrossed (d₁.settle t').orders := by
  have hstored := hready.storedAs
  obtain ⟨-, -, -, -, hok, hopen, hpos⟩ := hready
  obtain ⟨hm, hexit⟩ := matching_of_matchLoop he
  have hsound : SoundRows ((s.view sql i).settle t) := by
    intro o ho
    rcases Table.mem_save.mp ho with rfl | ⟨ho, -⟩
    · exact hok.1
    · exact (hinv.ok_view (Table.find_of_mem ho)).1
  exact (hm.fills hstored fun _ => hopen).uncrossed hsound (matchable_view hinv hunc ht hpos)
    (hexit.imp_right noCrossable_save_self)

end Query

/-! ## Reported fills -/

/-- A fill between the orders of the two calls was reported since the tables `d₀`. -/
def MatchedTogether (p : Bool → Placement) (d₀ d : OrdersDb) : Prop :=
  ∃ fs, d.fills = d₀.fills ++ fs ∧
    ∃ i, ∃ f ∈ fs, f.takerOrder.id = (p i).id ∧ f.makerOrder.id = (p !i).id

theorem fills_applyAll (ws : List Write) (d : OrdersDb) :
    ∃ fs, (sql.applyAll ws d).fills = d.fills ++ fs ∧ ∀ f, Write.fill f ∈ ws → f ∈ fs := by
  induction ws generalizing d with
  | nil => exact ⟨[], by simp⟩
  | cons w ws ih =>
    obtain ⟨fs, hfs, hmem⟩ := ih (sql.apply w d)
    rw [Dialect.applyAll_cons]
    cases w with
    | fill f =>
      refine ⟨f :: fs, by simpa [sql, Write.apply] using hfs, fun f' hf' => ?_⟩
      rcases List.mem_cons.mp hf' with h | h
      · cases h
        exact List.mem_cons_self
      · exact List.mem_cons_of_mem _ (hmem f' h)
    | order o => exact ⟨fs, hfs, fun f hf => hmem f (by simpa using hf)⟩
    | balance b => exact ⟨fs, hfs, fun f hf => hmem f (by simpa using hf)⟩
    | trade t => exact ⟨fs, hfs, fun f hf => hmem f (by simpa using hf)⟩

theorem Matching.fills_append {now : ℤ} {d d' : OrdersDb} {t t' : Order}
    (h : Matching now d t d' t') : ∃ fs, d'.fills = d.fills ++ fs := by
  induction h with
  | done d t => exact ⟨[], by simp⟩
  | @fill d d' t t' m hpos hbest rest ih =>
    obtain ⟨fs, hfs⟩ := ih
    exact ⟨fillOf now t m :: fs, by simpa [OrdersDb.afterFill] using hfs⟩

/-- A finished loop reported the fill with the best maker. -/
theorem Matching.reports {now : ℤ} {d d' : OrdersDb} {t t' m : Order} (h : Matching now d t d' t')
    (hexit : t'.remainingAmount ≤ 0 ∨ NoCrossable d'.orders t') (hpos : 0 < t.remainingAmount)
    (hbest : bestMaker d.orders t = some m) :
    ∃ fs, d'.fills = d.fills ++ fillOf now t m :: fs := by
  cases h with
  | done =>
    -- the loop does not stop while there is a maker
    obtain ⟨hm, hcross⟩ := bestMaker_mem hbest
    rcases hexit with hrem | hno
    · exact absurd hpos (not_lt.mpr hrem)
    · exact absurd hcross (hno m hm)
  | fill _ hbest' rest =>
    obtain rfl := Option.some.inj (hbest.symm.trans hbest')
    obtain ⟨fs, hfs⟩ := rest.fills_append
    exact ⟨fs, by simpa [OrdersDb.afterFill] using hfs⟩

/-! ## The two schedules -/

/-- The two orders cross: LIMIT orders of opposite sides, each at a price the other accepts. -/
structure Crossing (p : Bool → Placement) : Prop where
  limit : ∀ i, (p i).dto.type = .limit
  crossable : Crossable (p true).order (p false).order

theorem Placement.resting (p : Placement) (h : p.dto.type = .limit) : p.order.Resting :=
  ⟨h, .inl p.order_fresh.status⟩

theorem Crossing.both {p : Bool → Placement} (h : Crossing p) (i : Bool) :
    Crossable (p i).order (p !i).order := by
  have hprice : ∀ j, (p j).order.price.isSome := fun j => (p j).order_fresh.price (h.limit j)
  cases i with
  | true => exact h.crossable
  | false => exact h.crossable.symm ((p true).resting (h.limit true)) (hprice true) (hprice false)

/-- An order placed alone that crosses no resting order rests. -/
theorem orders_alone {p : Placement} (hlimit : p.dto.type = .limit) {d₀ d : OrdersDb} {fuel : ℕ}
    {a : Order} (hno : NoCrossable d₀.orders p.order)
    (he : (p.tx fuel).eval sql.handler d₀ = (.ok a, d)) : d.orders = d₀.orders.save p.order := by
  obtain ⟨s, t, hentry, hmatched⟩ := tx_entry (Placement.eval_event he)
  replace hentry : Entry p.now d₀ (.place p.id p.userId p.dto p.valid) s t := hentry
  cases hentry with
  | @enter _ _ _ _ order _ hnew hid hfresh hres =>
    obtain rfl : order = p.order := hnew
    have htaker : p.order.activeTaker = some p.order := if_pos (.inr hlimit)
    rw [htaker] at hmatched
    obtain ⟨taker', hfills, -⟩ := hmatched
    cases hfills with
    | done => rfl
    | fill ht hm hopen hpos hcross rest =>
      rcases Table.mem_save.mp hm with rfl | ⟨hm, -⟩
      · exact absurd rfl hcross.side_ne
      · exact absurd hcross (hno _ hm)

section Late

variable {p : Bool → Placement} {hp : ∀ i j, (p i).id = (p j).id → i = j} {fuel : ℕ}
  {d₀ : OrdersDb} {c c' : Placing} {i : Bool} {t a : Order} {is : List Bool}

/-- A query after the other's commit: the other's transaction is as if it had run alone. -/
structure Late (p : Bool → Placement) (hp : ∀ i j, (p i).id = (p j).id → i = j) (fuel : ℕ)
    (d₀ : OrdersDb) (s : OrdersServer Unit Bool) (i : Bool) (t : Order) : Prop where
  inv : RowInv (placementPolicy p hp) s
  ready : TakerReady (placementPolicy p hp) i s t
  quote : SameQuote (p i).order t
  logged : Logged (p i) (s.pending i)
  other : ∃ b, ((p !i).tx fuel).eval sql.handler d₀ = (.ok b, s.committed)
  replay : ∃ ws, s.committed = sql.applyAll ws d₀

theorem Late.uncrossed (h : Late p hp fuel d₀ c.shared i t) (hs : SoundRows d₀)
    (hd : Uncrossed d₀.orders) : Uncrossed c.shared.committed.orders := by
  obtain ⟨b, he⟩ := h.other
  obtain ⟨s, t', hentry, hmatched⟩ := tx_entry (Placement.eval_event he)
  refine uncrossed_tx hs hd ?_ hentry hmatched
  rintro userId dto hreq
  cases hreq

theorem allSafe_placing (hs : SoundRows d₀) (hexact : ∀ o ∈ d₀.orders.rows, o.Exact)
    (hdto : ∀ i, (p i).dto.Exact) (hnew : ∀ i, d₀.orders.find (p i).id = none) :
    Protocol.AllSafe (rowProtocol (placementPolicy p hp)) (sql.machine Unit Bool)
      (fun _ => Anyway) (placing fuel p d₀) := by
  refine ⟨rowInv_idle fun o ho => ⟨hs o ho, hexact o ho, fun j hj => ?_⟩,
    fun i => safe_session (safe_placeOrder (Placement.isPlaced (hdto i)))⟩
  exact absurd hj (Table.find_eq_none_iff.mp (hnew j) o ho)

theorem history_of_about (hP : Progress sql (fun _ => ()) (fun i => (p i).tx fuel) d₀
      (fun i => InLoop (p i)) c) (hother : ∃ a, c.threads (!i) = .ret a)
    (hi : ¬ ∃ a, c.threads i = .ret a) : ∃ r, c.shared.history = [r] ∧ r.thread = !i := by
  rw [← hP.returned] at hother hi
  have hthread : ∀ r ∈ c.shared.history, r.thread = !i := by
    intro r hr
    have hne : r.thread ≠ i := fun e => hi (List.mem_map.mpr ⟨r, hr, e⟩)
    revert hne
    cases r.thread <;> cases i <;> simp
  have hnodup := hP.nodup
  cases hhist : c.shared.history with
  | nil =>
    rw [hhist] at hother
    cases hother
  | cons r rs =>
    rw [hhist] at hthread hnodup
    refine ⟨r, ?_, hthread r List.mem_cons_self⟩
    cases rs with
    | nil => rfl
    | cons r' rs =>
      have hsame : r.thread = r'.thread := (hthread r List.mem_cons_self).trans
        (hthread r' (List.mem_cons_of_mem _ List.mem_cons_self)).symm
      simp [hsame] at hnodup

/-- The two transactions when one queries after the other's commit: the other's is as if it had
run alone, and what is left of this one is its matching loop. -/
theorem late_of_about (hp : ∀ i j, (p i).id = (p j).id → i = j) (hs : SoundRows d₀)
    (hexact : ∀ o ∈ d₀.orders.rows, o.Exact) (hdto : ∀ i, (p i).dto.Exact)
    (hnew : ∀ i, d₀.orders.find (p i).id = none)
    (hr : (placing fuel p d₀).run (sql.machine Unit Bool) is = some c) (h : AboutToSee c i) :
    ∃ t n fills, Late p hp fuel d₀ c.shared i t ∧
      c.threads i = transaction (fun _ => ()) (matchLoop (p i).now n t fills >>= finishPlacing) := by
  have hP : Progress sql (fun _ => ()) (fun i => (p i).tx fuel) d₀ (fun i => InLoop (p i)) c :=
    Progress.run (fun i => issues_placeOrder (p i) fuel) hr
  have hstart : Protocol.AllSafe (rowProtocol (placementPolicy p hp)) (sql.machine Unit Bool)
      (fun _ => Anyway) (placing fuel p d₀) :=
    allSafe_placing hs hexact hdto hnew
  have hsafe := Protocol.run_safe (fun _ _ _ _ _ _ => trivial) hstart hr
  obtain ⟨hother, hquery⟩ := h
  obtain ⟨t, k, hk⟩ := exists_of_atMakerQuery hquery
  rw [Prog.returned_iff] at hother
  have hready : TakerReady (placementPolicy p hp) i c.shared t := hsafe.pre hk t rfl
  have hnot : ¬ ∃ a, c.threads i = .ret a := by
    rintro ⟨a, ha⟩
    rw [hk] at ha
    cases ha
  -- the other transaction alone has committed: the database is what it leaves
  obtain ⟨r, hhist, hrt⟩ := history_of_about hP hother hnot
  have hcommitted : c.shared.committed = sql.applyAll r.writes d₀ := by
    rw [hP.replay, hhist]
    simp
  obtain ⟨b, hfirst⟩ := hP.first r (by rw [hhist]; rfl)
  rw [hrt, ← hcommitted] at hfirst
  rcases hP.running i with ⟨q, hq, hissues, -⟩ | hret | ⟨e, he⟩
  · -- the rest of the transaction is at its maker query
    cases q with
    | ret a => rw [hq] at hk; cases hk
    | fail e => rw [hq] at hk; cases hk
    | call cmd k₀ =>
      have hcmd : cmd = .lockMaker t := by
        rw [hq] at hk
        cases hk
        rfl
      subst hcmd
      -- what it still has to run, and what it has written so far
      obtain ⟨hquote, hlogged, n, fills, hrest⟩ := hissues.1 t rfl
      exact ⟨t, n, fills, ⟨hsafe.1, hready, hquote, hlogged, ⟨b, hfirst⟩, ⟨_, hcommitted⟩⟩,
        hrest ▸ hq⟩
  · exact absurd hret hnot
  · rw [hk] at he
    cases he

/-- A maker of the late query is the other's order, when no earlier order crosses. -/
theorem Late.maker_id (h : Late p hp fuel d₀ c.shared i t) (hcross : Crossing p)
    (hno : ∀ j, NoCrossable d₀.orders (p j).order) {m : Order}
    (hm : m ∈ (c.shared.view sql i).orders.rows) (htm : Crossable t m) : m.id = (p !i).id := by
  obtain ⟨b, he⟩ := h.other
  obtain ⟨stored, hk, hside, -⟩ := h.ready
  have hne : m.id ≠ (p i).id := by
    intro e
    have hfind := Table.find_of_mem hm
    rw [e.trans h.quote.id.symm, hk.2] at hfind
    obtain rfl := Option.some.inj hfind
    exact htm.side_ne hside
  obtain ⟨base, hbase, hr⟩ := base_of_view h.inv hm hne
  have hcrossed : Crossable (p i).order base :=
    (htm.base hr).congr h.quote.symm (.refl base) (htm.base hr).2.2.2.1
  rw [orders_alone (hcross.limit _) (hno _) he] at hbase
  rcases Table.mem_save.mp hbase with rfl | ⟨hbase, -⟩
  · exact hr.quote.id
  · exact absurd hcrossed (hno i base hbase)

/-- The late query matches the two orders, if they were not matched before. -/
theorem Late.matched (h : Late p hp fuel d₀ c.shared i t) (hcross : Crossing p)
    (hno : ∀ j, NoCrossable d₀.orders (p j).order) {now : ℤ} {n : ℕ} {t' : Order}
    {fills fills' : List FillResult} {d₁ : OrdersDb}
    (he : (matchLoop now n t fills).eval sql.handler (c.shared.view sql i) =
      (.ok (t', fills'), d₁)) : MatchedTogether p d₀ (d₁.settle t') := by
  obtain ⟨b, hother⟩ := h.other
  obtain ⟨ws, hws⟩ := h.replay
  obtain ⟨fs₀, hfs₀, -⟩ := fills_applyAll ws d₀
  obtain ⟨fs₁, hfs₁, hpending⟩ := fills_applyAll (c.shared.pending i) c.shared.committed
  obtain ⟨hm, hexit⟩ := matching_of_matchLoop he
  have hview : (c.shared.view sql i).fills = d₀.fills ++ (fs₀ ++ fs₁) := by
    rw [Server.view, hfs₁, hws, hfs₀, List.append_assoc]
  -- the other's row, as this session sees it
  have hfind : c.shared.committed.orders.find (p !i).id = some (p !i).order := by
    rw [orders_alone (hcross.limit _) (hno _) hother]
    exact Table.find_save_self _ _
  obtain ⟨r, hr⟩ := Option.isSome_iff_exists.mp
    (find_view_isSome (i := i) (Option.isSome_iff_exists.mpr ⟨_, hfind⟩))
  by_cases hopen : r.Open
  · have hallows := h.inv.allows_view hr
    rw [hfind] at hallows
    have htr : Crossable t r := (hcross.both i).congr h.quote (Requotes.quote hallows) hopen
    obtain ⟨-, -, -, -, -, -, hpos⟩ := h.ready
    cases hbest : bestMaker (c.shared.view sql i).orders t with
    | none => exact absurd htr (bestMaker_eq_none.mp hbest r (Table.mem_of_find hr))
    | some m =>
      obtain ⟨hmem, htm⟩ := bestMaker_mem hbest
      obtain ⟨fs₂, hfs₂⟩ := hm.reports hexit hpos hbest
      refine ⟨fs₀ ++ fs₁ ++ fillOf now t m :: fs₂, ?_, i, fillOf now t m, by simp, ?_, ?_⟩
      · show d₁.fills = _
        rw [hfs₂, hview, List.append_assoc]
      · exact (takerAfter_id ..).trans h.quote.id
      · exact (makerAfter_id ..).trans (h.maker_id hcross hno hmem htm)
  · -- it was filled before: by this session, as the other left it open
    have hwritten : Write.order r ∈ c.shared.pending i := by
      rcases find_view hr with ⟨hmem, -⟩ | ⟨-, hcommitted⟩
      · exact hmem
      · obtain rfl := Option.some.inj (hfind.symm.trans hcommitted)
        exact absurd ((p !i).resting (hcross.limit _)).2 hopen
    have hid : r.id = (p !i).id := Table.key_of_find hr
    rcases h.logged r hwritten with hown | ⟨f, hf, htaker, hmaker⟩
    · exact absurd (hp _ _ (hown.symm.trans hid)) (by simp)
    · obtain ⟨fs₂, hfs₂⟩ := hm.fills_append
      refine ⟨fs₀ ++ fs₁ ++ fs₂, ?_, i, f, by simp [hpending f hf], htaker, hmaker.trans hid⟩
      show d₁.fills = _
      rw [hfs₂, hview]
      simp

end Late

/-- **The book after two crossing placements**, of amounts and prices that are held exactly: when
one of them queries for a maker after the other's commit, the numbers are held exactly and the book
is not crossed once both have committed, and the two orders were matched against each other unless
an earlier order crosses one of them. -/
theorem book_uncrossed_after_placements {fuel : ℕ} {p : Bool → Placement} {d₀ : OrdersDb}
    {is : List Bool} {c : Placing} (hs : SoundRows d₀) (hexact : ∀ o ∈ d₀.orders.rows, o.Exact)
    (hdto : ∀ i, (p i).dto.Exact) (hd : Uncrossed d₀.orders)
    (hids : ∀ i j, (p i).id = (p j).id → i = j) (hnew : ∀ i, d₀.orders.find (p i).id = none)
    (hcross : Crossing p) (hr : (placing fuel p d₀).run (sql.machine Unit Bool) is = some c)
    (hend : ∀ i, (c.threads i).returned) (hsees : SeesOther fuel p d₀ is) :
    (∀ o ∈ c.shared.committed.orders.rows, o.Exact) ∧ Uncrossed c.shared.committed.orders ∧
      ((∀ i, NoCrossable d₀.orders (p i).order) → MatchedTogether p d₀ c.shared.committed) := by
  have hstart : Protocol.AllSafe (rowProtocol (placementPolicy p hids)) (sql.machine Unit Bool)
      (fun _ => Anyway) (placing fuel p d₀) := allSafe_placing hs hexact hdto hnew
  have hinv := (Protocol.run_safe (fun _ _ _ _ _ _ => trivial) hstart hr).1
  refine ⟨fun o ho => (hinv.committed o ho).2.1, ?_⟩
  obtain ⟨is₁, is₂, c₁, i, rfl, hr₁, habout⟩ := hsees
  rw [Config.run_append, hr₁] at hr
  obtain ⟨t, n, fills, hlate, hrest⟩ := late_of_about hids hs hexact hdto hnew hr₁ habout
  obtain ⟨a, ha⟩ := Prog.returned_iff.mp (hend i)
  have hothers : ∀ j, j ≠ i → ∃ a, c₁.threads j = .ret a := by
    intro j hj
    obtain rfl : j = !i := by
      revert hj
      cases i <;> cases j <;> simp
    exact Prog.returned_iff.mp habout.1
  obtain ⟨⟨t', fills'⟩, d₁, hloop, hfinish⟩ := Prog.eval_bind_ok _ (solo_run hrest hothers hr ha)
  have hcommitted : d₁.settle t' = c.shared.committed := (Prod.mk.inj hfinish).2
  rw [← hcommitted]
  exact ⟨uncrossed_of_ready hlate.inv hlate.ready hlate.quote (hlate.uncrossed hs hd) hloop,
    fun hno => hlate.matched hcross hno hloop⟩

/-- Ten units of asset 1 at 100: user 1 sells and user 2 buys. -/
def sellAndBuy : Bool → Placement
  | true => ⟨1, 0, 1, ⟨1, .sell, .limit, 10, some 100, none, none, none⟩, by
      constructor <;> simp⟩
  | false => ⟨2, 1, 2, ⟨1, .buy, .limit, 10, some 100, none, none, none⟩, by
      constructor <;> simp⟩

theorem sellAndBuy_crossing : Crossing sellAndBuy :=
  ⟨by decide, by decide +kernel⟩

theorem sellAndBuy_exact (i : Bool) : (sellAndBuy i).dto.Exact := by
  cases i <;> exact ⟨carried_ofNat 10, by rintro p ⟨⟩; exact carried_ofNat 100⟩

/-- The seller commits before the buyer queries. -/
def oneAfterTheOther : List Bool := List.replicate 6 true ++ List.replicate 8 false

theorem sellAndBuy_seen :
    ∃ c, (placing 3 sellAndBuy sellerDb).run (sql.machine Unit Bool) oneAfterTheOther = some c ∧
      (∀ o ∈ c.shared.committed.orders.rows, o.Exact) ∧ Uncrossed c.shared.committed.orders ∧
      ((∀ i, NoCrossable sellerDb.orders (sellAndBuy i).order) →
        MatchedTogether sellAndBuy sellerDb c.shared.committed) := by
  have hrun : ((placing 3 sellAndBuy sellerDb).run (sql.machine Unit Bool) oneAfterTheOther).any
      (fun c => ∀ i, (c.threads i).returned) := by
    decide +kernel
  have hsees : ((placing 3 sellAndBuy sellerDb).run (sql.machine Unit Bool)
      (oneAfterTheOther.take 8)).any (fun c => AboutToSee c false) := by
    decide +kernel
  obtain ⟨c, hc, hend⟩ := (Option.any_eq_true _ _).mp hrun
  obtain ⟨c₁, hc₁, habout⟩ := (Option.any_eq_true _ _).mp hsees
  refine ⟨c, hc, book_uncrossed_after_placements sellerDb_initial.sound
    (sellerDb_initial.exact sellerDb_exact).orders sellAndBuy_exact ?_ (by decide)
    (by decide +kernel) sellAndBuy_crossing hc (by simpa using hend)
    ⟨_, oneAfterTheOther.drop 8, c₁, false, (List.take_append_drop 8 _).symm, hc₁,
      by simpa using habout⟩⟩
  intro bid hbid
  rw [sellerDb_initial.orders] at hbid
  cases hbid

/-- Both transactions insert and query before either commits. -/
def bothBeforeCommit : List Bool :=
  List.replicate 4 true ++ List.replicate 5 false ++ List.replicate 2 true

/-- Neither order is matched, and both rest at the same price. -/
theorem sellAndBuy_unseen : Initial sellerDb ∧ Crossing sellAndBuy ∧
    ∃ c, (placing 3 sellAndBuy sellerDb).run (sql.machine Unit Bool) bothBeforeCommit = some c ∧
      (∀ i, (c.threads i).returned) ∧ ¬ Uncrossed c.shared.committed.orders ∧
      c.shared.committed.fills = [] := by
  have hrun : ((placing 3 sellAndBuy sellerDb).run (sql.machine Unit Bool) bothBeforeCommit).any
      (fun c => (∀ i, (c.threads i).returned) ∧ c.shared.committed.fills.isEmpty ∧
        ∃ bid ∈ c.shared.committed.orders.rows, ∃ ask ∈ c.shared.committed.orders.rows,
          bid.Resting ∧ ask.Resting ∧ bid.side = .buy ∧ ask.side = .sell ∧
          bid.assetId = ask.assetId ∧ ask.price.getD 0 ≤ bid.price.getD 0) := by
    decide +kernel
  obtain ⟨c, hc, hprop⟩ := (Option.any_eq_true _ _).mp hrun
  obtain ⟨hend, hfills, bid, hbid, ask, hask, hrest, hrest', hbuy, hsell, hasset, hge⟩ :=
    of_decide_eq_true hprop
  refine ⟨sellerDb_initial, sellAndBuy_crossing, c, hc, hend, fun h => ?_,
    List.isEmpty_iff.mp hfills⟩
  obtain ⟨p, q, hp, hq, hlt⟩ := h bid hbid ask hask hrest hrest' hbuy hsell hasset
  rw [hp, hq] at hge
  exact absurd hge (not_le.mpr hlt)

end Orders
