import PeerX.Governance.Effects

/-!
# Governance: the weight of the votes

A vote counts the tokens of its voter and those of the holders whose delegations to the voter are in
force. The votes on a proposal weigh at most as much as all holdings together as long as a vote
counts nobody whom an earlier vote on the proposal has counted. Nothing in the services sees to
that: a holder who has delegated may still vote, may delegate to several users, and may delegate
again after the first delegatee has voted.

## Main results

* `votingPower_eq`: the power of a vote is the balance of the holders it counts
* `counted_elect`: every call that meets the condition preserves `Counted`
* `weight_le_holdings`: the votes on a proposal weigh at most as much as all holdings
* `weight_exceeds_holdings`: a holder who delegates, and votes
-/

namespace Governance

open Concurrency Relational

variable {db : GovernanceDb}

def GovernanceDb.totalHoldings (db : GovernanceDb) : ℚ :=
  db.holdings.sum fun holding => if holding.assetId = governanceAsset then holding.balance else 0

/-- The total weight of the votes on a proposal. -/
def GovernanceDb.totalWeight (db : GovernanceDb) (proposalId : String) : ℚ :=
  db.votes.sum fun vote => if vote.proposalId = proposalId then vote.weight else 0

/-- The holders whose delegations to a user count. -/
def GovernanceDb.delegators (db : GovernanceDb) (userId proposalId : String) (now : ℤ) : List String :=
  ((db.delegationsTo userId).filter fun d => d.Counts proposalId now).map (·.delegatorId)

theorem sum_balance_le {holders : List String} (h : holders.Nodup) :
    (holders.map db.balance).sum ≤ db.totalHoldings := by
  have hkeys : (holders.map fun userId => (userId, governanceAsset)).Nodup :=
    h.map fun _ _ he => (Prod.mk.inj he).1
  have hnonneg : ∀ holding ∈ db.holdings.rows,
      0 ≤ if holding.assetId = governanceAsset then holding.balance else 0 := by
    intro holding _
    split
    · exact holding.balance_nonneg
    · exact le_rfl
  refine le_of_eq_of_le ?_ (Table.sum_find_le hnonneg hkeys)
  rw [List.map_map]
  refine congrArg List.sum (List.map_congr_left fun userId _ => ?_)
  rw [Function.comp_apply, GovernanceDb.balance]
  cases hfind : db.holdings.find (userId, governanceAsset) with
  | none => rfl
  | some holding =>
    have hasset : holding.assetId = governanceAsset := congrArg Prod.snd (Table.key_of_find hfind)
    simp [hasset]

theorem addDelegations_eq (proposalId : String) (now : ℤ) (ds : List VoteDelegation) (power : ℚ) :
    addDelegations proposalId now ds power =
      power + ((ds.filter fun d => d.Counts proposalId now).map (·.delegatedBalance)).sum := by
  induction ds generalizing power with
  | nil => simp [addDelegations]
  | cons d ds ih =>
    by_cases h : d.Counts proposalId now
    · simp [addDelegations, h, ih, add_assoc]
    · simp [addDelegations, h, ih]

/-- The delegations: each has the balance of its delegator, and two active ones are for
different users. -/
structure GovernanceDb.Delegated (db : GovernanceDb) : Prop where
  balance : ∀ d ∈ db.delegations.rows, d.delegatedBalance = db.balance d.delegatorId
  ne : ∀ d ∈ db.delegations.rows, d.delegatorId ≠ d.delegateeId
  single : ∀ d ∈ db.delegations.rows, ∀ d' ∈ db.delegations.rows, d.isActive = true → d'.isActive = true →
    d.delegatorId = d'.delegatorId → d.delegateeId = d'.delegateeId → d = d'

theorem GovernanceDb.balance_congr {db' : GovernanceDb} (h : db'.holdings = db.holdings) :
    db'.balance = db.balance := by
  funext userId
  rw [GovernanceDb.balance, h, GovernanceDb.balance]

theorem GovernanceDb.Delegated.congr {db' : GovernanceDb} (h : db.Delegated)
    (hholdings : db'.holdings = db.holdings) (hdelegations : db'.delegations = db.delegations) :
    db'.Delegated := by
  obtain ⟨hbalance, hne, hsingle⟩ := h
  rw [← hdelegations] at hbalance hne hsingle
  rw [← GovernanceDb.balance_congr hholdings] at hbalance
  exact ⟨hbalance, hne, hsingle⟩

/-- A new delegation of the balance, next to no active one for the same user. -/
theorem GovernanceDb.Delegated.save_new {db' : GovernanceDb} {delegation : VoteDelegation} (h : db.Delegated)
    (hholdings : db'.holdings = db.holdings) (hdelegations : db'.delegations = db.delegations.save delegation)
    (hbalance : delegation.delegatedBalance = db.balance delegation.delegatorId)
    (hne : delegation.delegatorId ≠ delegation.delegateeId)
    (hactive : ∀ d ∈ db.delegations.rows, d.delegatorId = delegation.delegatorId →
      d.delegateeId = delegation.delegateeId → d.isActive = false) : db'.Delegated := by
  refine ⟨fun d hd => ?_, fun d hd => ?_, fun d hd d' hd' hd₁ hd₂ hdelegator hdelegatee => ?_⟩
  · rw [hdelegations] at hd
    rw [GovernanceDb.balance_congr hholdings]
    rcases Table.mem_save.mp hd with rfl | ⟨hd, -⟩
    · exact hbalance
    · exact h.balance d hd
  · rw [hdelegations] at hd
    rcases Table.mem_save.mp hd with rfl | ⟨hd, -⟩
    · exact hne
    · exact h.ne d hd
  · rw [hdelegations] at hd hd'
    rcases Table.mem_save.mp hd with hnew | ⟨hold, -⟩ <;> rcases Table.mem_save.mp hd' with hnew' | ⟨hold', -⟩
    · exact hnew.trans hnew'.symm
    · subst hnew
      rw [hactive d' hold' hdelegator.symm hdelegatee.symm] at hd₂
      cases hd₂
    · subst hnew'
      rw [hactive d hold hdelegator hdelegatee] at hd₁
      cases hd₁
    · exact h.single d hold d' hold' hd₁ hd₂ hdelegator hdelegatee

theorem GovernanceDb.Delegated.revoke {db' : GovernanceDb} {delegation : VoteDelegation} {now : ℤ}
    (h : db.Delegated) (hholdings : db'.holdings = db.holdings) (hrow : delegation ∈ db.delegations.rows)
    (hdelegations : db'.delegations = db.delegations.save (delegation.revoked now)) : db'.Delegated := by
  refine ⟨fun d hd => ?_, fun d hd => ?_, fun d hd d' hd' hd₁ hd₂ hdelegator hdelegatee => ?_⟩
  · rw [hdelegations] at hd
    rw [GovernanceDb.balance_congr hholdings]
    rcases Table.mem_save.mp hd with rfl | ⟨hd, -⟩
    · exact h.balance delegation hrow
    · exact h.balance d hd
  · rw [hdelegations] at hd
    rcases Table.mem_save.mp hd with rfl | ⟨hd, -⟩
    · exact h.ne delegation hrow
    · exact h.ne d hd
  · rw [hdelegations] at hd hd'
    rcases Table.mem_save.mp hd with rfl | ⟨hd, -⟩
    · cases hd₁
    · rcases Table.mem_save.mp hd' with rfl | ⟨hd', -⟩
      · cases hd₂
      · exact h.single d hd d' hd' hd₁ hd₂ hdelegator hdelegatee

theorem mem_delegationsTo {userId : String} {d : VoteDelegation} :
    d ∈ db.delegationsTo userId ↔ d ∈ db.delegations.rows ∧ d.delegateeId = userId ∧ d.isActive = true := by
  simp [GovernanceDb.delegationsTo]

/-- **The power of a vote** is the balance of the holders it counts. -/
theorem votingPower_eq (h : db.Delegated) (userId proposalId : String) (now : ℤ) :
    db.votingPower userId proposalId now =
      ((userId :: db.delegators userId proposalId now).map db.balance).sum := by
  rw [GovernanceDb.votingPower, addDelegations_eq, List.map_cons, List.sum_cons, GovernanceDb.delegators,
    List.map_map]
  congr 2
  refine List.map_congr_left fun d hd => ?_
  exact h.balance d (mem_delegationsTo.mp (List.mem_of_mem_filter hd)).1

/-- A vote counts nobody twice. -/
theorem nodup_holders (h : db.Delegated) (userId proposalId : String) (now : ℤ) :
    (userId :: db.delegators userId proposalId now).Nodup := by
  have hmem : ∀ d ∈ (db.delegationsTo userId).filter (fun d => d.Counts proposalId now),
      d ∈ db.delegations.rows ∧ d.delegateeId = userId ∧ d.isActive = true :=
    fun d hd => mem_delegationsTo.mp (List.mem_of_mem_filter hd)
  refine List.nodup_cons.mpr ⟨?_, ?_⟩
  · intro hself
    obtain ⟨d, hd, hdelegator⟩ := List.mem_map.mp hself
    obtain ⟨hrow, hdelegatee, -⟩ := hmem d hd
    exact h.ne d hrow (hdelegator.trans hdelegatee.symm)
  · refine List.Nodup.map_on (fun d hd d' hd' heq => ?_)
      ((db.delegations.nodup.of_map.filter _).filter _)
    obtain ⟨hrow, hdelegatee, hactive⟩ := hmem d hd
    obtain ⟨hrow', hdelegatee', hactive'⟩ := hmem d' hd'
    exact h.single d hrow d' hrow' hactive hactive' heq (hdelegatee.trans hdelegatee'.symm)

/-- A ballot: a stored vote, with the holders that it counts. -/
structure Ballot where
  proposalId : String
  holders : List String
deriving DecidableEq

/-- The ballot of a call that stores a vote. -/
def GovernanceDb.ballot (db : GovernanceDb) : GovernanceCall → Option Ballot
  | .castVote proposalId voterId voterAddress voteType reason now =>
    if db.votes.find (proposalId, voterId) = none ∧
        (govern db (.castVote proposalId voterId voterAddress voteType reason now)).votes.find
          (proposalId, voterId) ≠ none then
      some ⟨proposalId, voterId :: db.delegators voterId proposalId now⟩
    else none
  | _ => none

/-- The tables, and the ballots so far. -/
abbrev Election := GovernanceDb × List Ballot

/-- A call, with its ballot. -/
def elect (s : Election) (call : GovernanceCall) : Election :=
  (govern s.1 call, (s.1.ballot call).toList ++ s.2)

/-- The holders that the votes on a proposal have counted. -/
def counted (proposalId : String) (ballots : List Ballot) : List String :=
  (ballots.filter (·.proposalId = proposalId)).flatMap (·.holders)

/-- A vote counts nobody whom an earlier vote on the proposal has counted: not its voter, and no
holder whose delegation to the voter is in force. -/
def CountsAnew (s : Election) : GovernanceCall → Prop
  | .castVote proposalId voterId _ _ _ now => s.1.MayVote voterId proposalId now →
      ∀ holder ∈ voterId :: s.1.delegators voterId proposalId now, holder ∉ counted proposalId s.2
  | _ => True

instance (s : Election) : DecidablePred (CountsAnew s)
  | .castVote proposalId voterId _ _ _ now => inferInstanceAs (Decidable (_ →
      ∀ holder ∈ voterId :: s.1.delegators voterId proposalId now, holder ∉ counted proposalId s.2))
  | .createProposal _ _ _ _ | .approveProposal _ _ | .cancelProposal _ _ | .finalizeProposal _ _ =>
    inferInstanceAs (Decidable True)
  | .executeProposal _ _ _ | .delegateVotes _ _ _ _ _ | .revokeDelegation _ _ =>
    inferInstanceAs (Decidable True)

/-- **The votes and the ballots**: the votes on a proposal have the weight of the holders that they
count, and they count nobody twice. -/
structure Counted (holdings : Table TokenHolding.key) (s : Election) : Prop where
  holdings : s.1.holdings = holdings
  delegated : s.1.Delegated
  weight : ∀ p, s.1.totalWeight p = ((counted p s.2).map s.1.balance).sum
  nodup : ∀ p, (counted p s.2).Nodup

theorem ballot_of_votes_eq {call : GovernanceCall} (h : (govern db call).votes = db.votes) :
    db.ballot call = none := by
  cases call with
  | castVote proposalId voterId voterAddress voteType reason now =>
    refine if_neg fun hstored => hstored.2 ?_
    rw [h]
    exact hstored.1
  | _ => rfl

/-- A change that leaves the holdings, the delegations and the votes. -/
theorem Counted.of_eq {holdings : Table TokenHolding.key} {s : Election} {call : GovernanceCall}
    (h : Counted holdings s) (hholdings : (govern s.1 call).holdings = s.1.holdings)
    (hdelegated : (govern s.1 call).Delegated) (hvotes : (govern s.1 call).votes = s.1.votes) :
    Counted holdings (elect s call) := by
  have hbalance := GovernanceDb.balance_congr hholdings
  have hballots : (elect s call).2 = s.2 := by rw [elect, ballot_of_votes_eq hvotes]; rfl
  refine ⟨hholdings.trans h.holdings, hdelegated, fun p => ?_, fun p => ?_⟩
  · rw [hballots]
    change (govern s.1 call).totalWeight p = (List.map (govern s.1 call).balance _).sum
    rw [hbalance, ← h.weight, GovernanceDb.totalWeight, hvotes, GovernanceDb.totalWeight]
  · rw [hballots]
    exact h.nodup p

theorem Counted.of_vote {holdings : Table TokenHolding.key} {s : Election}
    {proposalId voterId voterAddress text : String} {reason : Option String} {now : ℤ} {vote : GovernanceVote}
    (h : Counted holdings s) (hmay : s.1.MayVote voterId proposalId now)
    (hanew : CountsAnew s (.castVote proposalId voterId voterAddress text reason now))
    (hkey : vote.key = (proposalId, voterId)) (hweight : vote.weight = s.1.votingPower voterId proposalId now)
    (hholdings : (govern s.1 (.castVote proposalId voterId voterAddress text reason now)).holdings =
      s.1.holdings)
    (hdelegations : (govern s.1 (.castVote proposalId voterId voterAddress text reason now)).delegations =
      s.1.delegations)
    (hvotes : (govern s.1 (.castVote proposalId voterId voterAddress text reason now)).votes =
      s.1.votes.save vote) :
    Counted holdings (elect s (.castVote proposalId voterId voterAddress text reason now)) := by
  obtain ⟨hproposal, hvoter⟩ := Prod.mk.inj hkey
  have hbalance := GovernanceDb.balance_congr hholdings
  have hballot : s.1.ballot (.castVote proposalId voterId voterAddress text reason now) =
      some ⟨proposalId, voterId :: s.1.delegators voterId proposalId now⟩ := by
    refine if_pos ⟨hmay.2, ?_⟩
    rw [hvotes, ← hkey, Table.find_save_self]
    exact Option.some_ne_none _
  -- the holders that are counted on each proposal
  have hcounted : ∀ p, counted p (elect s (.castVote proposalId voterId voterAddress text reason now)).2 =
      (if proposalId = p then voterId :: s.1.delegators voterId proposalId now else []) ++ counted p s.2 := by
    intro p
    rw [elect, hballot]
    by_cases hp : proposalId = p
    · simp [counted, hp]
    · simp [counted, hp]
  refine ⟨hholdings.trans h.holdings, h.delegated.congr hholdings hdelegations, fun p => ?_, fun p => ?_⟩
  · have hnew : s.1.votes.find vote.key = none := by rw [hkey]; exact hmay.2
    change (govern s.1 _).totalWeight p = (List.map (govern s.1 _).balance _).sum
    rw [hbalance, hcounted, GovernanceDb.totalWeight, hvotes, Table.sum_save_new hnew, hproposal,
      List.map_append, List.sum_append, ← h.weight, add_comm, GovernanceDb.totalWeight]
    congr 1
    by_cases hp : proposalId = p
    · rw [if_pos hp, if_pos hp, hweight, votingPower_eq h.delegated]
    · rw [if_neg hp, if_neg hp]
      rfl
  · rw [hcounted]
    by_cases hp : proposalId = p
    · rw [if_pos hp]
      subst hp
      refine List.nodup_append.mpr ⟨nodup_holders h.delegated _ _ _, h.nodup _, ?_⟩
      rintro holder hholder holder' hholder' rfl
      exact hanew hmay holder hholder hholder'
    · rw [if_neg hp]
      exact h.nodup p

/-- **Every call that meets the condition preserves the bookkeeping.** -/
theorem counted_elect {holdings : Table TokenHolding.key} (s : Election) (call : GovernanceCall)
    (h : Counted holdings s) (hanew : CountsAnew s call) : Counted holdings (elect s call) := by
  have hdoes := does_govern s.1 call
  -- a call that changes proposals only
  have hrest : (govern s.1 call).holdings = s.1.holdings → (govern s.1 call).delegations = s.1.delegations →
      (govern s.1 call).votes = s.1.votes → Counted holdings (elect s call) := fun hholdings hdelegations =>
    h.of_eq hholdings (h.delegated.congr hholdings hdelegations)
  generalize hdb : govern s.1 call = db' at hdoes
  cases hdoes with
  | nothing | creates | approves | cancels | finalizes | executes | failsToExecute =>
    exact hrest (by rw [hdb]) (by rw [hdb]) (by rw [hdb])
  | casts hrow hmay => exact h.of_vote hmay hanew rfl rfl (by rw [hdb]) (by rw [hdb]) (by rw [hdb])
  | castsUntallied hrow hmay => exact h.of_vote hmay hanew rfl rfl (by rw [hdb]) (by rw [hdb]) (by rw [hdb])
  | delegates hself hnew hactive =>
    exact h.of_eq (by rw [hdb]) (h.delegated.save_new (by rw [hdb]) (by rw [hdb]) rfl hself hactive)
      (by rw [hdb])
  | revokes hrow =>
    exact h.of_eq (by rw [hdb]) (h.delegated.revoke (by rw [hdb]) (Table.mem_of_find hrow) (by rw [hdb]))
      (by rw [hdb])

/-- **The votes on a proposal weigh at most as much as all holdings**, and count nobody twice, in
every state of every sequence of calls whose votes meet the condition. -/
theorem weight_le_holdings (db : GovernanceDb) (hvotes : db.votes = .empty)
    (hdelegations : db.delegations = .empty) (calls : List GovernanceCall)
    (hanew : Along elect CountsAnew (db, []) calls) :
    Throughout elect (fun s => ∀ proposalId, s.1.totalWeight proposalId ≤ db.totalHoldings ∧
      (counted proposalId s.2).Nodup) (db, []) calls := by
  have hstart : Counted db.holdings (db, []) := by
    refine ⟨rfl, ⟨?_, ?_, ?_⟩, fun p => ?_, fun p => List.nodup_nil⟩
    · simp [hdelegations]
    · simp [hdelegations]
    · simp [hdelegations]
    · simp [GovernanceDb.totalWeight, hvotes, Table.sum, counted]
  refine (throughout_of_invariant counted_elect hstart hanew).mono fun s hs p => ⟨?_, hs.nodup p⟩
  have htotal : s.1.totalHoldings = db.totalHoldings := by
    rw [GovernanceDb.totalHoldings, hs.holdings, GovernanceDb.totalHoldings]
  rw [hs.weight, ← htotal]
  exact sum_balance_le (hs.nodup p)

theorem hundred_nonneg : (0 : ℚ) ≤ 100 := by decide

/-- Alice holds all tokens. The saves of the tallies are refused: a sum of two decimal columns is no
number. -/
def oneHolder : GovernanceDb :=
  { twoHolders with
    holdings := Table.empty.save ⟨"alice", governanceAsset, 100, hundred_nonneg⟩
    fates := [none, none, some "invalid input syntax for type numeric", none,
      some "invalid input syntax for type numeric"] }

/-- Alice delegates to Bob, and Bob votes with her tokens. -/
def delegateAndVote : List GovernanceCall :=
  [.delegateVotes "d" "alice" "bob" 30 1, .castVote "p" "bob" "0xb" "FOR" none 2]

/-- Bob's vote weighs as much as all holdings. -/
theorem weight_of_delegated : oneHolder.totalHoldings = 100 ∧
    (run elect (oneHolder, []) delegateAndVote).1.totalWeight "p" = 100 ∧
    Throughout elect (fun s => ∀ proposalId, s.1.totalWeight proposalId ≤ oneHolder.totalHoldings ∧
      (counted proposalId s.2).Nodup) (oneHolder, []) delegateAndVote :=
  ⟨by decide +kernel, by decide +kernel,
    weight_le_holdings oneHolder rfl rfl delegateAndVote ⟨by decide +kernel, by decide +kernel, trivial⟩⟩

/-- **Alice votes after she has delegated**: the votes weigh more than all holdings. -/
theorem weight_exceeds_holdings : oneHolder.totalHoldings = 100 ∧
    (run elect (oneHolder, []) (delegateAndVote ++ [.castVote "p" "alice" "0xa" "FOR" none 3])).1.totalWeight
      "p" = 200 :=
  ⟨by decide +kernel, by decide +kernel⟩

end Governance
