import PeerX.Queue.SwapProcessor
import Mathlib

/-!
# Queue: the discipline of the swap workers

Whatever its steps reply, a worker claims a marker when it holds none, swaps under the marker of the
swap, and releases a marker that it holds or whose swap it has executed. It reaches a leg when every
leg before it is settled: executed, or refused; and it completes its job when every swap of the job
is.
-/

namespace Queue

open Concurrency

variable {ι : Type} {i : ι} {past past' : List (SwapEvent ι)}

/-- The swap was executed by the worker, or its marker was refused to it. -/
def Settled (swapId : String) (past : List (SwapEvent ι)) : Prop :=
  singleKey swapId ∈ (performed past).map SwapCall.key ∨ singleKey swapId ∈ refused past

/-- The swaps of a job, in order: each swap is one of the job, and a leg is executed when the
legs before it are settled. -/
def InOrder (job : SwapJob) : SwapCommand → List (SwapEvent ι) → Prop
  | .act call, past => ∀ data, job = .multiLeg data →
      ∃ n, call.swapId = legId data.swapId n ∧ ∀ m < n, Settled (legId data.swapId m) past
  | _, _ => True

/-- The rule of a worker. -/
def SwapRule (job : SwapJob) (c : SwapCommand) (past : List (SwapEvent ι)) : Prop :=
  Guarding SwapCall.key c past ∧ InOrder job c past

theorem singleKey_injective : Function.Injective singleKey := by
  intro a b h
  have htext : "swap:executed:" ++ a = "swap:executed:" ++ b := h
  exact (String.append_right_inj _).mp htext

theorem legId_injective (swapId : String) : Function.Injective (legId swapId) := by
  intro m n h
  have htext : swapId ++ ":leg:" ++ m.repr = swapId ++ ":leg:" ++ n.repr := h
  exact Nat.repr_injective ((String.append_right_inj _).mp htext)

theorem legKey_eq (swapId : String) (n : ℕ) : legKey swapId n = singleKey (legId swapId n) := by
  change "swap:executed:" ++ swapId ++ ":leg:" ++ n.repr = "swap:executed:" ++ (swapId ++ ":leg:" ++ n.repr)
  rw [String.append_assoc, String.append_assoc, String.append_assoc]

theorem Settled.mono {swapId : String} (h : Settled swapId past) (hpast : past <:+ past') :
    Settled swapId past' := by
  obtain ⟨new, rfl⟩ := hpast
  rcases h with h | h
  · left
    unfold performed at h ⊢
    rw [List.filterMap_append, List.map_append]
    exact List.mem_append_right _ h
  · right
    unfold refused at h ⊢
    rw [List.filterMap_append]
    exact List.mem_append_right _ h

section Body

variable {job : SwapJob} {α : Type} {Q : α → List (SwapEvent ι) → Prop} {key : String}

/-- A worker may release a marker that it holds, or whose swap it has executed. -/
theorem swapRule_release (h : held past = some key ∨ key ∈ (performed past).map SwapCall.key) :
    SwapRule job (.release key) past := ⟨h, trivial⟩

/-- The body under a marker: when it has swapped, the worker holds no marker, and the swap is
settled. -/
theorem keeps_body {poolId : Option ℕ} {call : ℕ → SwapCall} {rest : SwapWorker α} {swapId : String}
    (hheld : held past = some (singleKey swapId)) (hid : ∀ p, (call p).swapId = swapId)
    (horder : ∀ p, InOrder job (.act (call p)) past)
    (hrest : ∀ past', past <:+ past' → held past' = none → Settled swapId past' →
      singleKey swapId ∈ (performed past').map SwapCall.key →
      rest.Keeps serve (SwapRule job) i Q (fun _ p => SwapRule job (.release (singleKey swapId)) p) past') :
    (do
      let poolId ← requirePoolId poolId
      executeSwap (call poolId)
      rest : SwapWorker α).Keeps serve (SwapRule job) i Q
        (fun _ p => SwapRule job (.release (singleKey swapId)) p) past := by
  cases poolId with
  | none => exact keeps_throw (swapRule_release (.inl hheld))
  | some p =>
    have hkey : singleKey swapId = (call p).key := by rw [SwapCall.key, hid]
    refine keeps_issue_bind ⟨by rw [Guarding, ← hkey]; exact hheld, horder p⟩ (fun s u => ?_)
      fun s e => swapRule_release (.inl (by rw [held_act_error]; exact hheld))
    have hdone : singleKey swapId ∈
        (performed (⟨i, s, .act (call p), .ok u⟩ :: past)).map SwapCall.key := by
      rw [performed_act, List.map_cons, ← hkey]
      exact List.mem_cons_self
    exact hrest _ (List.suffix_cons _ _) (held_act u) (.inl hdone) hdone

/-- `job.progress`, as the last step under a marker. -/
theorem keeps_progress {E : SwapError → List (SwapEvent ι) → Prop} {percent : ℚ}
    {Q : Unit → List (SwapEvent ι) → Prop}
    (hQ : ∀ s u, Q u (⟨i, s, .note percent, .ok u⟩ :: past))
    (hE : ∀ s e, E e (⟨i, s, .note percent, .error e⟩ :: past)) :
    (progress percent).Keeps serve (SwapRule job) i Q E past :=
  keeps_issue ⟨trivial, trivial⟩ hQ hE

end Body

section Handlers

variable {E : SwapError → List (SwapEvent ι) → Prop}

/-- The claim of a marker: a worker that holds none gets it, and runs the body; or the swap is
settled. -/
theorem keeps_claim {job : SwapJob} {α : Type} {Q : α → List (SwapEvent ι) → Prop} {swapId : String}
    {body rest : SwapWorker α} (hheld : held past = none) (hE : ∀ e past, E e past)
    (hbody : ∀ past', past <:+ past' → held past' = some (singleKey swapId) →
      performed past' = performed past → body.Keeps serve (SwapRule job) i Q E past')
    (hrest : ∀ past', past <:+ past' → held past' = none → Settled swapId past' →
      rest.Keeps serve (SwapRule job) i Q E past') :
    (do
      let claimed ← claim (singleKey swapId)
      if claimed then body else rest : SwapWorker α).Keeps serve (SwapRule job) i Q E past := by
  refine keeps_issue_bind ⟨hheld, trivial⟩ (fun s claimed => ?_) fun s e => hE e _
  cases claimed with
  | true => exact hbody _ (List.suffix_cons _ _) held_claimed rfl
  | false =>
    refine hrest _ (List.suffix_cons _ _) (by rw [held_refused]; exact hheld) (.inr ?_)
    exact mem_refused.mpr ⟨_, List.mem_cons_self, i, s, rfl⟩

/-- `processSingle`. -/
theorem keeps_processSingle {data : SingleSwapJobData} (hheld : held past = none) :
    (processSingle data).Keeps serve (SwapRule (.single data)) i
      (fun _ past => Settled data.swapId past) (fun _ _ => True) past := by
  refine keeps_issue_bind ⟨trivial, trivial⟩ (fun s u => ?_) fun s e => trivial
  refine keeps_claim hheld (fun _ _ => trivial) (fun past₁ _ hheld _ => ?_)
    fun past₁ _ _ hsettled => ?_
  · refine keeps_guarded ?_ (fun e s v past => keeps_throw trivial) fun _ _ => trivial
    refine keeps_body hheld (fun _ => rfl) (fun p _ hjob => by cases hjob)
      fun past₂ _ hnone hsettled hdone => ?_
    refine keeps_progress (fun s u => hsettled.mono (List.suffix_cons _ _)) fun s e => ?_
    exact swapRule_release (.inr hdone)
  · exact keeps_progress (fun s u => hsettled.mono (List.suffix_cons _ _)) fun _ _ => trivial

/-- `processMultiLeg`, from the leg `n` on: the legs before it are settled. -/
theorem keeps_processLegs {data : MultiLegSwapJobData} {count n : ℕ} {legs : List SwapLeg}
    (hheld : held past = none) (hsettled : ∀ m < n, Settled (legId data.swapId m) past) :
    (processLegs data.swapId data.userId count n legs).Keeps serve (SwapRule (.multiLeg data)) i
      (fun _ past => ∀ m < n + legs.length, Settled (legId data.swapId m) past)
      (fun _ _ => True) past := by
  induction legs generalizing n past with
  | nil => exact keeps_ret hsettled
  | cons leg legs ih =>
    have hlength : n + (leg :: legs).length = n + 1 + legs.length := by
      rw [List.length_cons]
      omega
    -- the rest of the legs, once this one is settled
    have hnext : ∀ past', past <:+ past' → held past' = none → Settled (legId data.swapId n) past' →
        (processLegs data.swapId data.userId count (n + 1) legs).Keeps serve (SwapRule (.multiLeg data)) i
          (fun _ past => ∀ m < n + (leg :: legs).length, Settled (legId data.swapId m) past)
          (fun _ _ => True) past' := fun past' hpast hnone hleg => by
      rw [hlength]
      refine ih hnone fun m hm => ?_
      rcases Nat.lt_succ_iff_lt_or_eq.mp hm with hm | rfl
      · exact (hsettled m hm).mono hpast
      · exact hleg
    unfold processLegs
    rw [legKey_eq]
    refine keeps_claim hheld (fun _ _ => trivial) (fun past₁ hpast hheld _ => ?_) hnext
    refine keeps_bind (keeps_guarded ?_ (fun e s v past => keeps_throw trivial) fun _ _ => trivial)
    refine keeps_body hheld (fun _ => rfl) (fun p data' hjob => ?_)
      fun past₂ hpast₂ hnone hleg hdone => ?_
    · obtain rfl : data = data' := by injection hjob
      exact ⟨n, rfl, fun m hm => (hsettled m hm).mono hpast⟩
    · refine keeps_progress (fun s u => ?_) fun s e => swapRule_release (.inr hdone)
      exact hnext _ ((hpast.trans hpast₂).trans (List.suffix_cons _ _)) hnone
        (hleg.mono (List.suffix_cons _ _))

theorem keeps_processMultiLeg {data : MultiLegSwapJobData} (hheld : held past = none) :
    (processMultiLeg data).Keeps serve (SwapRule (.multiLeg data)) i
      (fun _ past => ∀ m < data.legs.length, Settled (legId data.swapId m) past)
      (fun _ _ => True) past := by
  refine keeps_issue_bind ⟨trivial, trivial⟩ (fun s u => ?_) fun s e => trivial
  have hstart : ∀ m < 0, Settled (legId data.swapId m) (⟨i, s, .note 5, .ok u⟩ :: past) :=
    fun m hm => by omega
  have hnone : held (⟨i, s, .note 5, .ok u⟩ :: past : List (SwapEvent ι)) = none := hheld
  refine keeps_bind ((keeps_processLegs hnone hstart).mono fun _ past hlegs => ?_)
  rw [Nat.zero_add] at hlegs
  exact keeps_progress (fun s u m hm => (hlegs m hm).mono (List.suffix_cons _ _)) fun _ _ => trivial

/-- `processBatch`, for the rest of the swaps: without a failure all of them are settled. -/
theorem keeps_processSwaps {data : BatchSwapJobData} {count attempted : ℕ} {failures : List String}
    {swaps : List SingleSwapJobData} (hheld : held past = none) :
    (processSwaps count attempted failures swaps).Keeps serve (SwapRule (.batch data)) i
      (fun result past => result = [] → failures = [] ∧ ∀ swap ∈ swaps, Settled swap.swapId past)
      (fun _ _ => True) past := by
  induction swaps generalizing attempted failures past with
  | nil => exact keeps_ret fun h => ⟨h, fun swap hswap => by cases hswap⟩
  | cons swap swaps ih =>
    -- the rest of the swaps, once this one is settled
    have hnext : ∀ attempted past', held past' = none → Settled swap.swapId past' →
        (processSwaps count attempted failures swaps).Keeps serve (SwapRule (.batch data)) i
          (fun result past => result = [] → failures = [] ∧
            ∀ s ∈ swap :: swaps, Settled s.swapId past) (fun _ _ => True) past' := by
      intro attempted past' hnone hswap
      refine (ih hnone).suffix.mono fun result past₁ h hnil => ?_
      obtain ⟨hfailures, hswaps⟩ := h.1 hnil
      exact ⟨hfailures, List.forall_mem_cons.mpr ⟨hswap.mono h.2, hswaps⟩⟩
    unfold processSwaps
    refine keeps_claim hheld (fun _ _ => trivial) (fun past₁ _ hheld _ => ?_)
      fun past₁ _ hnone hsettled => hnext _ _ hnone hsettled
    refine keeps_bind (keeps_guarded ?_ (fun e s v past => ?_) fun _ _ => trivial)
    · refine keeps_body hheld (fun _ => rfl) (fun p _ hjob => by cases hjob)
        fun past₂ _ hnone hsettled hdone => ?_
      refine keeps_bind (keeps_progress (fun s u => ?_) fun s e => swapRule_release (.inr hdone))
      exact keeps_ret (hnext _ _ hnone (hsettled.mono (List.suffix_cons _ _)))
    · -- the failure is in the list for good
      have hnone : held (⟨i, s, .release _, .ok v⟩ :: past : List (SwapEvent ι)) = none :=
        held_release _
      refine keeps_ret ((ih hnone).mono fun result past hresult hnil => ?_)
      exact absurd (hresult hnil).1 (by simp)

theorem keeps_processBatch {data : BatchSwapJobData} (hheld : held past = none) :
    (processBatch data).Keeps serve (SwapRule (.batch data)) i
      (fun _ past => ∀ swap ∈ data.swaps, Settled swap.swapId past) (fun _ _ => True) past := by
  refine keeps_issue_bind ⟨trivial, trivial⟩ (fun s u => ?_) fun s e => trivial
  have hnone : held (⟨i, s, .note 5, .ok u⟩ :: past : List (SwapEvent ι)) = none := hheld
  refine keeps_bind ((keeps_processSwaps hnone).mono fun failures past hswaps => ?_)
  by_cases hfailures : failures = []
  · rw [if_neg (not_not.mpr hfailures)]
    exact keeps_progress (fun s u swap hswap =>
      ((hswaps hfailures).2 swap hswap).mono (List.suffix_cons _ _)) fun _ _ => trivial
  · rw [if_pos hfailures]
    exact keeps_throw trivial

/-- The handlers keep the rule, and every swap of a job that is completed is settled. -/
theorem process_keeps (job : SwapJob) (i : ι) :
    job.process.Keeps serve (SwapRule job) i (fun _ past => ∀ swapId ∈ job.swapIds, Settled swapId past)
      (fun _ _ => True) [] := by
  cases job with
  | single data =>
    refine (keeps_processSingle rfl).mono fun _ past h swapId hid => ?_
    obtain rfl := List.mem_singleton.mp hid
    exact h
  | multiLeg data =>
    refine (keeps_processMultiLeg rfl).mono fun _ past h swapId hid => ?_
    obtain ⟨m, hm, rfl⟩ := List.mem_map.mp hid
    exact h m (List.mem_range.mp hm)
  | batch data =>
    refine (keeps_processBatch rfl).mono fun _ past h swapId hid => ?_
    obtain ⟨swap, hswap, rfl⟩ := List.mem_map.mp hid
    exact h swap hswap

end Handlers

end Queue
