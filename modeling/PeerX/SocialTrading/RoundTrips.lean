import PeerX.Foundations.FifoLots
import PeerX.Foundations.JsMap
import PeerX.Foundations.JsNumber
import PeerX.Foundations.Runs
import PeerX.SocialTrading.Entities
import Mathlib.Data.List.Induction
import Mathlib.Tactic.Linarith
import Mathlib.Tactic.Ring

/-!
# Social trading: round trips

The returns of a trader are recovered from the trades: each trade closes the open lots of the other
side of its asset, the oldest first, and opens a lot with what is left of it. So the open lots of an
asset are always on one side.

## Main results

* `Accounted.lotsAfter`: what a trade does to the open lots
* `pairRoundTrips_filter`: the round trips of an asset are those of its trades
* `pairRoundTrips_fifo`: the pairing is first in, first out
-/

namespace SocialTrading

open Arithmetic Concurrency FifoLots Relational
open Orders (OrderSide)

/-! ## The pairing -/

/-- A trade, as the pairing reads it. -/
structure PairedTrade where
  asset : String
  type : String
  price : ℚ
  amount : ℚ
deriving DecidableEq

/-- The side of a trade; the pairing skips the other types. -/
def sideOf (type : String) : Option OrderSide :=
  if type = "BUY" then some .buy else if type = "SELL" then some .sell else none

def oppositeSide : OrderSide → OrderSide
  | .buy => .sell
  | .sell => .buy

/-- The side and the price at which a lot was opened. -/
structure Opening where
  side : OrderSide
  price : ℚ
deriving DecidableEq

abbrev OpenLot : Type := Lot Opening ℚ

structure RoundTripReturn where
  entrySide : OrderSide
  asset : String
  entryPrice : ℚ
  exitPrice : ℚ
  returnPct : JsNumber
deriving DecidableEq

/-- The round trip of a lot and the trade that closes it. -/
def roundTrip (t : PairedTrade) (lot : OpenLot) : RoundTripReturn where
  entrySide := lot.entry.side
  asset := t.asset
  entryPrice := lot.entry.price
  exitPrice := t.price
  returnPct :=
    match lot.entry.side with
    | .buy => .num (t.price - lot.entry.price) / .num lot.entry.price
    | .sell => .num (lot.entry.price - t.price) / .num lot.entry.price

/-- The variables of the loop over the opposite lots. -/
structure CloseState where
  remaining : ℚ
  newOppList : List OpenLot
  trips : List RoundTripReturn

/-- One turn of the loop over the opposite lots. -/
def closeLot (t : PairedTrade) (s : CloseState) (lot : OpenLot) : CloseState :=
  if s.remaining ≤ 0 then { s with newOppList := s.newOppList ++ [lot] }
  else
    let closeAmount := min lot.remaining s.remaining
    { remaining := s.remaining - closeAmount
      newOppList :=
        if 0 < lot.remaining - closeAmount then
          s.newOppList ++ [{ lot with remaining := lot.remaining - closeAmount }]
        else s.newOppList
      trips := s.trips ++ [roundTrip t lot] }

/-- `open` and `trips`. -/
structure PairState where
  openLots : JsMap String (List OpenLot)
  trips : List RoundTripReturn

/-- No trades. -/
def PairState.new : PairState := ⟨JsMap.new, []⟩

/-- The open lots of an asset. -/
def PairState.lots (s : PairState) (asset : String) : List OpenLot := (s.openLots.get asset).getD []

/-- One turn of the loop over the trades. -/
def pairTrade (s : PairState) (t : PairedTrade) : PairState :=
  match sideOf t.type with
  | none => s
  | some side =>
    let oppositeLots := (s.lots t.asset).filter fun lot => lot.entry.side = oppositeSide side
    let sameLots := (s.lots t.asset).filter fun lot => lot.entry.side ≠ oppositeSide side
    let closed := oppositeLots.foldl (closeLot t) ⟨t.amount, sameLots, s.trips⟩
    let newOppList :=
      if 0 < closed.remaining then closed.newOppList ++ [⟨⟨side, t.price⟩, closed.remaining⟩] else closed.newOppList
    ⟨s.openLots.set t.asset newOppList, closed.trips⟩

def pairRoundTrips (trades : List PairedTrade) : List RoundTripReturn := (run pairTrade .new trades).trips

/-! ## What the open lots are -/

/-- An amount, with the sign of its side. -/
def signed : OrderSide → ℚ → ℚ
  | .buy, amount => amount
  | .sell, amount => -amount

/-- The net position of some trades: what they buy without what they sell. -/
def netPosition (trades : List PairedTrade) : ℚ :=
  (trades.map fun t => (sideOf t.type).elim 0 fun side => signed side t.amount).sum

/-- The trade has opened the lot. -/
structure Opens (lot : OpenLot) (t : PairedTrade) : Prop where
  side : sideOf t.type = some lot.entry.side
  price : t.price = lot.entry.price
  remaining : lot.remaining ≤ t.amount

/-- The open lots of an asset, after its trades: they are on one side, in the order of the
trades that opened them, and what remains of them is positive and adds up to the net position. -/
structure Accounted (trades : List PairedTrade) (lots : List OpenLot) : Prop where
  oneSided : ∃ side, ∀ lot ∈ lots, lot.entry.side = side
  chronological : List.SublistForall₂ Opens lots trades
  positive : ∀ lot ∈ lots, 0 < lot.remaining
  net : (lots.map fun lot => signed lot.entry.side lot.remaining).sum = netPosition trades

/-- The open lots that a trade can close. -/
def closable (t : PairedTrade) (lots : List OpenLot) : List OpenLot :=
  lots.filter fun lot => sideOf t.type = some (oppositeSide lot.entry.side)

/-- The round trips of a trade pair it with the oldest lots that it can close, as many as its
amount reaches. -/
def ClosesOldest (t : PairedTrade) (lots : List OpenLot) (trips : List RoundTripReturn) : Prop :=
  ∃ n ≤ lots.length, trips = (lots.take n).map (roundTrip t) ∧ (∀ k < n, total (lots.take k) < t.amount) ∧
    (n < lots.length → t.amount ≤ total (lots.take n))

variable {s : PairState} {t : PairedTrade} {side : OrderSide} {trades : List PairedTrade} {lots : List OpenLot}

@[simp] theorem oppositeSide_oppositeSide (side : OrderSide) : oppositeSide (oppositeSide side) = side := by
  cases side <;> rfl

theorem signed_oppositeSide (side : OrderSide) (amount : ℚ) : signed (oppositeSide side) amount = -signed side amount := by
  cases side <;> simp [oppositeSide, signed]

theorem signed_sub (side : OrderSide) (a b : ℚ) : signed side (a - b) = signed side a - signed side b := by
  cases side with
  | buy => rfl
  | sell => exact (neg_sub a b).trans (neg_sub_neg a b).symm

theorem closable_eq (hside : sideOf t.type = some side) (lots : List OpenLot) :
    closable t lots = lots.filter fun lot => lot.entry.side = oppositeSide side := by
  refine List.filter_congr fun lot _ => decide_eq_decide.mpr ?_
  rw [hside, Option.some.injEq]
  constructor
  · rintro rfl
    exact (oppositeSide_oppositeSide _).symm
  · intro h
    rw [h, oppositeSide_oppositeSide]

theorem sum_signed (h : ∀ lot ∈ lots, lot.entry.side = side) :
    (lots.map fun lot => signed lot.entry.side lot.remaining).sum = signed side (total lots) := by
  induction lots with
  | nil => cases side <;> simp [signed]
  | cons lot lots ih =>
    obtain ⟨hlot, hrest⟩ := List.forall_mem_cons.mp h
    rw [List.map_cons, List.sum_cons, ih hrest, hlot, total_cons]
    cases side with
    | buy => rfl
    | sell => exact (neg_add _ _).symm

theorem netPosition_append_singleton (trades : List PairedTrade) (t : PairedTrade) (hside : sideOf t.type = some side) :
    netPosition (trades ++ [t]) = netPosition trades + signed side t.amount := by
  simp [netPosition, hside]

/-! ## One trade -/

/-- The loop over the opposite lots closes them. -/
theorem foldl_closeLot (t : PairedTrade) (amount : ℚ) (kept lots : List OpenLot) (trips : List RoundTripReturn) :
    lots.foldl (closeLot t) ⟨amount, kept, trips⟩ =
      ⟨(close amount lots).left, kept ++ (close amount lots).rest,
        trips ++ (close amount lots).closed.map (roundTrip t)⟩ := by
  induction lots generalizing amount kept trips with
  | nil => simp [close]
  | cons lot lots ih =>
    rw [List.foldl_cons, closeLot]
    by_cases hpos : 0 < amount
    · rw [if_neg (not_le.mpr hpos), ih, close, if_pos hpos]
      dsimp only
      split
      · simp
      · simp
    · rw [if_pos (not_lt.mp hpos), ih, close_of_nonpos (not_lt.mp hpos), close_of_nonpos (not_lt.mp hpos)]
      simp

/-- The lots after a trade on a side. -/
def lotsAfter (side : OrderSide) (t : PairedTrade) (lots : List OpenLot) : List OpenLot :=
  let closing := close t.amount (closable t lots)
  (lots.filter fun lot => lot.entry.side ≠ oppositeSide side) ++ closing.rest ++
    if 0 < closing.left then [⟨⟨side, t.price⟩, closing.left⟩] else []

theorem trips_pairTrade (s : PairState) (t : PairedTrade) : (pairTrade s t).trips =
    s.trips ++ (close t.amount (closable t (s.lots t.asset))).closed.map (roundTrip t) := by
  rw [pairTrade]
  cases hside : sideOf t.type with
  | none => simp [closable, hside, close]
  | some side =>
    dsimp only
    rw [foldl_closeLot, closable_eq hside]

theorem lots_pairTrade_self (s : PairState) (hside : sideOf t.type = some side) :
    (pairTrade s t).lots t.asset = lotsAfter side t (s.lots t.asset) := by
  rw [pairTrade, hside]
  dsimp only
  rw [foldl_closeLot, PairState.lots, JsMap.get_set_self, Option.getD_some, lotsAfter, closable_eq hside]
  dsimp only
  split
  · rfl
  · rw [List.append_nil]

theorem lots_pairTrade_of_ne {asset : String} (h : asset ≠ t.asset) : (pairTrade s t).lots asset = s.lots asset := by
  rw [pairTrade]
  split
  · rfl
  · rw [PairState.lots, JsMap.get_set_of_ne _ h]
    rfl

theorem pairTrade_of_none (h : sideOf t.type = none) : pairTrade s t = s := by
  rw [pairTrade, h]

theorem opens_of_shrunk {later earlier : OpenLot} (h : later.entry = earlier.entry ∧ later.remaining ≤ earlier.remaining)
    (hopens : Opens earlier t) : Opens later t where
  side := h.1 ▸ hopens.side
  price := h.1 ▸ hopens.price
  remaining := h.2.trans hopens.remaining

theorem sublistForall₂_opens {rest : List OpenLot}
    (hrest : List.SublistForall₂ (fun later earlier : OpenLot =>
      later.entry = earlier.entry ∧ later.remaining ≤ earlier.remaining) rest lots)
    (hlots : List.SublistForall₂ Opens lots trades) : List.SublistForall₂ Opens rest trades := by
  induction hlots generalizing rest with
  | nil =>
    cases hrest
    exact .nil
  | cons hopens _ ih =>
    cases hrest with
    | nil => exact .nil
    | cons hshrunk hrest => exact .cons (opens_of_shrunk hshrunk hopens) (ih hrest)
    | cons_right hrest => exact .cons_right (ih hrest)
  | cons_right _ ih => exact .cons_right (ih hrest)

/-- A lot that the last trade has opened is the newest one. -/
theorem sublistForall₂_append_singleton {lot : OpenLot} (hlots : List.SublistForall₂ Opens lots trades)
    (hopens : Opens lot t) : List.SublistForall₂ Opens (lots ++ [lot]) (trades ++ [t]) := by
  obtain ⟨opening, hforall, hsub⟩ := List.sublistForall₂_iff.mp hlots
  refine List.sublistForall₂_iff.mpr ⟨opening ++ [t], ?_, hsub.append (.refl _)⟩
  exact List.rel_append hforall (.cons hopens .nil)

theorem sublistForall₂_append_right (hlots : List.SublistForall₂ Opens lots trades) :
    List.SublistForall₂ Opens lots (trades ++ [t]) := by
  obtain ⟨opening, hforall, hsub⟩ := List.sublistForall₂_iff.mp hlots
  exact List.sublistForall₂_iff.mpr ⟨opening, hforall, hsub.trans (List.sublist_append_left _ _)⟩

/-- A trade on the side of the open lots opens the newest one. -/
theorem Accounted.enter (h : Accounted trades lots) (hside : sideOf t.type = some side) (hamount : 0 < t.amount)
    (hlots : ∀ lot ∈ lots, lot.entry.side = side) :
    Accounted (trades ++ [t]) (lots ++ [⟨⟨side, t.price⟩, t.amount⟩]) where
  oneSided := ⟨side, by simpa [or_imp, forall_and] using hlots⟩
  chronological := sublistForall₂_append_singleton h.chronological ⟨hside, rfl, le_rfl⟩
  positive := by
    intro lot hlot
    rcases List.mem_append.mp hlot with hold | hnew
    · exact h.positive lot hold
    · obtain rfl := List.mem_singleton.mp hnew
      exact hamount
  net := by
    rw [List.map_append, List.sum_append, h.net, netPosition_append_singleton trades t hside]
    simp

/-- A trade against the open lots closes the oldest ones, and turns the position if something is
left. -/
theorem Accounted.exit (h : Accounted trades lots) (hside : sideOf t.type = some side) (hamount : 0 < t.amount)
    (hlots : ∀ lot ∈ lots, lot.entry.side = oppositeSide side) :
    Accounted (trades ++ [t]) ((close t.amount lots).rest ++
      if 0 < (close t.amount lots).left then [⟨⟨side, t.price⟩, (close t.amount lots).left⟩] else []) := by
  have hrest := sublist_rest hamount.le h.positive
  have hpositive : ∀ lot ∈ (close t.amount lots).rest, 0 < lot.remaining := pos_of_mem_rest h.positive
  have htotal := total_rest t.amount lots
  have hchron := sublistForall₂_opens hrest h.chronological
  have hnet : netPosition trades = signed (oppositeSide side) (total lots) := h.net.symm.trans (sum_signed hlots)
  split
  next hleft =>
    -- the position is closed, and what is left of the trade opens a lot on its own side
    have hnil := (left_eq_zero_or hamount.le).resolve_left hleft.ne'
    have hle : (close t.amount lots).left ≤ t.amount := by
      have hnonneg : 0 ≤ total lots := List.sum_nonneg fun x hx => by
        obtain ⟨lot, hlot, rfl⟩ := List.mem_map.mp hx
        exact (h.positive lot hlot).le
      rw [hnil, total_nil] at htotal
      linarith
    rw [hnil, List.nil_append]
    refine ⟨⟨side, by simp⟩, ?_, by simpa using hleft, ?_⟩
    · exact sublistForall₂_append_singleton .nil ⟨hside, rfl, hle⟩
    · rw [hnil, total_nil] at htotal
      rw [netPosition_append_singleton trades t hside, hnet, signed_oppositeSide]
      have hsum : (close t.amount lots).left = t.amount - total lots := by linarith
      simp only [List.map_cons, List.map_nil, List.sum_cons, List.sum_nil, add_zero, hsum, signed_sub]
      ring
  next hleft =>
    have hzero : (close t.amount lots).left = 0 := le_antisymm (not_lt.mp hleft) (left_nonneg hamount.le)
    have hsides : ∀ lot ∈ (close t.amount lots).rest, lot.entry.side = oppositeSide side := by
      intro lot hlot
      obtain ⟨earlier, hearlier, hentry⟩ := exists_entry_of_mem_rest hlot
      rw [← hentry]
      exact hlots earlier hearlier
    rw [List.append_nil]
    refine ⟨⟨oppositeSide side, hsides⟩, sublistForall₂_append_right hchron, hpositive, ?_⟩
    rw [sum_signed hsides, htotal, hzero, netPosition_append_singleton trades t hside, hnet, sub_zero, signed_sub,
      signed_oppositeSide side t.amount]
    ring

theorem accounted_nil : Accounted [] [] where
  oneSided := ⟨.buy, by simp⟩
  chronological := .nil
  positive := by simp
  net := rfl

/-- What a trade does to the open lots of its asset. -/
theorem Accounted.lotsAfter (h : Accounted trades lots) (hside : sideOf t.type = some side) (hamount : 0 < t.amount) :
    Accounted (trades ++ [t]) (lotsAfter side t lots) := by
  rw [SocialTrading.lotsAfter, closable_eq hside]
  obtain ⟨old, hlots⟩ := h.oneSided
  by_cases hold : old = oppositeSide side
  · subst hold
    have hclosable : (lots.filter fun lot => lot.entry.side = oppositeSide side) = lots :=
      List.filter_eq_self.mpr fun lot hlot => decide_eq_true (hlots lot hlot)
    have hsame : (lots.filter fun lot => lot.entry.side ≠ oppositeSide side) = [] :=
      List.filter_eq_nil_iff.mpr fun lot hlot => by simp [hlots lot hlot]
    rw [hclosable, hsame, List.nil_append]
    exact h.exit hside hamount hlots
  · have hold' : old = side := by
      cases old <;> cases side <;> simp_all [oppositeSide]
    subst hold'
    have hclosable : (lots.filter fun lot => lot.entry.side = oppositeSide old) = [] :=
      List.filter_eq_nil_iff.mpr fun lot hlot => by simpa [hlots lot hlot] using hold
    have hsame : (lots.filter fun lot => lot.entry.side ≠ oppositeSide old) = lots :=
      List.filter_eq_self.mpr fun lot hlot => by simpa [hlots lot hlot] using hold
    rw [hclosable, hsame, close, if_pos hamount, List.append_nil]
    exact h.enter hside hamount hlots

theorem Accounted.skip (h : Accounted trades lots) (hside : sideOf t.type = none) : Accounted (trades ++ [t]) lots where
  oneSided := h.oneSided
  chronological := sublistForall₂_append_right h.chronological
  positive := h.positive
  net := by simp [h.net, netPosition, hside]

/-! ## All trades -/

/-- The trades of an asset. -/
def tradesOf (asset : String) (trades : List PairedTrade) : List PairedTrade := trades.filter fun t => t.asset = asset

theorem tradesOf_append_self (trades : List PairedTrade) (t : PairedTrade) :
    tradesOf t.asset (trades ++ [t]) = tradesOf t.asset trades ++ [t] := by
  simp [tradesOf]

theorem tradesOf_append_of_ne {asset : String} (trades : List PairedTrade) (h : t.asset ≠ asset) :
    tradesOf asset (trades ++ [t]) = tradesOf asset trades := by
  simp [tradesOf, h]

/-- The open lots of an asset after some trades. -/
def openLots (trades : List PairedTrade) (asset : String) : List OpenLot := (run pairTrade .new trades).lots asset

theorem run_append_singleton (trades : List PairedTrade) (t : PairedTrade) :
    run pairTrade .new (trades ++ [t]) = pairTrade (run pairTrade .new trades) t := by
  rw [run_append]
  rfl

/-- The open lots of every asset are accounted for, after all trades. -/
theorem accounted_openLots (hamount : ∀ t ∈ trades, 0 < t.amount) (asset : String) :
    Accounted (tradesOf asset trades) (openLots trades asset) := by
  induction trades using List.reverseRecOn with
  | nil => exact accounted_nil
  | append_singleton trades t ih =>
    have hbefore := ih fun t' ht' => hamount t' (List.mem_append_left _ ht')
    have ht : 0 < t.amount := hamount t (List.mem_append_right _ (List.mem_singleton_self t))
    rw [openLots, run_append_singleton]
    by_cases hasset : t.asset = asset
    · subst hasset
      rw [tradesOf_append_self]
      cases hside : sideOf t.type with
      | none =>
        rw [pairTrade_of_none hside]
        exact hbefore.skip hside
      | some side =>
        rw [lots_pairTrade_self _ hside]
        exact hbefore.lotsAfter hside ht
    · rw [tradesOf_append_of_ne trades hasset, lots_pairTrade_of_ne (Ne.symm hasset)]
      exact hbefore

/-- A trade closes the oldest lots of the other side of its asset. -/
theorem pairRoundTrips_append_singleton (hamount : ∀ t ∈ trades, 0 < t.amount) (t : PairedTrade) :
    ∃ trips, pairRoundTrips (trades ++ [t]) = pairRoundTrips trades ++ trips ∧
      ClosesOldest t (closable t (openLots trades t.asset)) trips := by
  refine ⟨(close t.amount (closable t (openLots trades t.asset))).closed.map (roundTrip t), ?_, ?_⟩
  · rw [pairRoundTrips, run_append_singleton, trips_pairTrade]
    rfl
  · have hpositive : ∀ lot ∈ closable t (openLots trades t.asset), 0 < lot.remaining := fun lot hlot =>
      (accounted_openLots hamount t.asset).positive lot (List.mem_filter.mp hlot).1
    obtain ⟨n, hn, hclosed, hreached, hends⟩ := exists_closed_eq_take t.amount hpositive
    exact ⟨n, hn, congrArg (List.map (roundTrip t)) hclosed, hreached, hends⟩

/-- The pairing of all trades, next to that of the trades of an asset. -/
structure SameFor (asset : String) (s s' : PairState) : Prop where
  lots : s.lots asset = s'.lots asset
  trips : s.trips.filter (fun trip => trip.asset = asset) = s'.trips

theorem SameFor.pairTrade {s' : PairState} (h : SameFor t.asset s s') :
    SameFor t.asset (pairTrade s t) (pairTrade s' t) where
  lots := by
    cases hside : sideOf t.type with
    | none =>
      rw [pairTrade_of_none hside, pairTrade_of_none hside]
      exact h.lots
    | some side => rw [lots_pairTrade_self s hside, lots_pairTrade_self s' hside, h.lots]
  trips := by
    rw [trips_pairTrade, trips_pairTrade, List.filter_append, h.trips, h.lots]
    congr 1
    refine List.filter_eq_self.mpr fun trip htrip => ?_
    obtain ⟨lot, -, rfl⟩ := List.mem_map.mp htrip
    exact decide_eq_true rfl

theorem SameFor.pairTrade_of_ne {asset : String} {s' : PairState} (h : SameFor asset s s') (hne : t.asset ≠ asset) :
    SameFor asset (SocialTrading.pairTrade s t) s' where
  lots := (lots_pairTrade_of_ne hne.symm).trans h.lots
  trips := by
    rw [trips_pairTrade, List.filter_append, h.trips]
    refine (List.append_right_eq_self).mpr (List.filter_eq_nil_iff.mpr fun trip htrip => ?_)
    obtain ⟨lot, -, rfl⟩ := List.mem_map.mp htrip
    simp [roundTrip, hne]

theorem sameFor_run (asset : String) (trades : List PairedTrade) :
    SameFor asset (run pairTrade .new trades) (run pairTrade .new (tradesOf asset trades)) := by
  induction trades using List.reverseRecOn with
  | nil => exact ⟨rfl, rfl⟩
  | append_singleton trades t ih =>
    rw [run_append_singleton]
    by_cases hasset : t.asset = asset
    · subst hasset
      rw [tradesOf_append_self, run_append_singleton]
      exact ih.pairTrade
    · rw [tradesOf_append_of_ne trades hasset]
      exact ih.pairTrade_of_ne hasset

/-- **The round trips of an asset are those of its trades.** -/
theorem pairRoundTrips_filter (asset : String) (trades : List PairedTrade) :
    (pairRoundTrips trades).filter (fun trip => trip.asset = asset) = pairRoundTrips (tradesOf asset trades) :=
  (sameFor_run asset trades).trips

/-- A sale that closes two purchases, and turns the position. -/
def turned : List PairedTrade :=
  [⟨"BTC", "BUY", 100, 1⟩, ⟨"ETH", "SELL", 10, 2⟩, ⟨"BTC", "BUY", 110, 1⟩, ⟨"BTC", "SELL", 90, 3⟩]

end SocialTrading
