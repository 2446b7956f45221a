import PeerX.Queue.SwapDiscipline

/-!
# Queue: how often and in which order swaps are executed

A swap is executed at most once as long as no release takes the marker of an executed swap away. The
release of a failed job does so when `job.progress` throws after the swap. A job that completes has
executed all of its swaps, and its legs in order, as long as a claim is refused only for an executed
swap. A claim is refused for another reason when an attempt crashed or is still busy between its
claim and its swap, and when the release of a failed attempt failed too.

## Main results

* `executed_at_most_once`: no swap is executed twice when no release takes its marker away
* `executed_twice`: `job.progress` throws after the swap
* `completed_executed`: a completed job has executed its swaps, its legs in order, when claims are
  refused for executed swaps
* `completed_unexecuted`: an attempt crashes between its claim and its swap
-/

namespace Queue

open Concurrency

variable {ι : Type} [DecidableEq ι] {jobs : ι → SwapJob} {d₀ : Markers String SwapError} {is : List ι}
  {c : Config SwapCommand (GuardCommand.Reply SwapError) SwapError Unit ι
    (Markers String SwapError × List (SwapEvent ι))}

/-- The executed steps of the attempts: each keeps the rule, and a completed job is settled. -/
theorem chronicle_processing {P : ι → SwapCommand → Markers String SwapError × List (SwapEvent ι) → Prop}
    (hr : (processing jobs d₀).run (swapMachine ι) is = some c)
    (ha : (processing jobs d₀).Admitted (swapMachine ι) P is) :
    Chronicle serve (fun e es => SwapRule (jobs e.thread) e.command (own e.thread es) ∧
        P e.thread e.command (e.before, es)) d₀ c.shared.1 c.shared.2 ∧
      ∀ i, Completed c i → ∀ swapId ∈ (jobs i).swapIds, Settled swapId (own i c.shared.2) := by
  obtain ⟨hc, hdone⟩ := chronicle_of_keeps (fun i => process_keeps (jobs i) i) hr ha
  refine ⟨hc, fun i hi => ?_⟩
  obtain ⟨u, hu⟩ := Prog.returned_iff.mp hi
  exact hdone i u hu

omit [DecidableEq ι] in
/-- The markers of the executed swaps are those of their ids. -/
theorem keys_executedIds (es : List (SwapEvent ι)) :
    (performed es).map SwapCall.key = (executedIds es).map singleKey := by
  rw [executedIds, List.map_map]
  rfl

/-- **No swap is executed twice** when no release takes the marker of an executed swap away: in
every state of every run of any number of attempts of any jobs, whatever throws and wherever an
attempt stops. -/
theorem executed_at_most_once (hr : (processing jobs d₀).run (swapMachine ι) is = some c)
    (ha : (processing jobs d₀).Admitted (swapMachine ι)
      (fun _ cmd s => KeepsPerformed SwapCall.key s cmd) is) : (executedIds c.shared.2).Nodup := by
  have hc : Chronicle serve (fun e es => Guarding SwapCall.key e.command (own e.thread es) ∧
      KeepsPerformed SwapCall.key (e.before, es) e.command) d₀ c.shared.1 c.shared.2 :=
    (chronicle_processing hr ha).1.mono fun e es h => ⟨h.1.1, h.2⟩
  have hnodup := (performed_once hc).nodup
  rw [keys_executedIds] at hnodup
  exact hnodup.of_map _

/-- A swap job. -/
def oneSwap : SwapJob := .single ⟨"swap-1", 7, "XLM", 10, some 3, none⟩

/-- The markers at the start, and how the steps go. -/
def unmarked (fates : List (Fate SwapError)) : Markers String SwapError := ⟨fun _ => false, fates⟩

/-- The swap throws, the marker is released, and the second attempt executes the swap. -/
theorem executed_at_most_once_retried : ∃ c,
    (processing (fun _ => oneSwap) (unmarked [.succeeds, .succeeds, .throws (.error "slippage")])).run
      (swapMachine (Fin 2)) [0, 0, 0, 0, 1, 1, 1, 1] = some c ∧
    (executedIds c.shared.2).Nodup := by
  have hrun : ((processing (fun _ => oneSwap)
      (unmarked [.succeeds, .succeeds, .throws (.error "slippage")])).run
        (swapMachine (Fin 2)) [0, 0, 0, 0, 1, 1, 1, 1]).isSome := by
    decide +kernel
  obtain ⟨c, hc⟩ := Option.isSome_iff_exists.mp hrun
  exact ⟨c, hc, executed_at_most_once hc (by decide +kernel)⟩

/-- **A swap is executed twice.** The first attempt executes it, `job.progress(100)` throws, and the
release of the marker lets the second attempt execute it again. -/
theorem executed_twice : ∃ c,
    (processing (fun _ => oneSwap)
      (unmarked [.succeeds, .succeeds, .succeeds, .throws (.error "Connection is closed.")])).run
        (swapMachine (Fin 2)) [0, 0, 0, 0, 0, 1, 1, 1] = some c ∧
    executedIds c.shared.2 = ["swap-1", "swap-1"] := by
  have hrun : ((processing (fun _ => oneSwap)
      (unmarked [.succeeds, .succeeds, .succeeds, .throws (.error "Connection is closed.")])).run
        (swapMachine (Fin 2)) [0, 0, 0, 0, 0, 1, 1, 1]).any fun c =>
      executedIds c.shared.2 = ["swap-1", "swap-1"] := by
    decide +kernel
  obtain ⟨c, hc, htwice⟩ := (Option.any_eq_true _ _).mp hrun
  exact ⟨c, hc, of_decide_eq_true htwice⟩

section Completed

variable {R : SwapEvent ι → List (SwapEvent ι) → Prop} {s : Markers String SwapError}
  {es : List (SwapEvent ι)} {swapId : String} {i : ι}

/-- A settled swap was executed, when claims are refused for executed swaps only. -/
theorem executed_of_settled (hc : Chronicle serve (fun e es => R e es ∧
    RefusesPerformed SwapCall.key (e.before, es) e.command) d₀ s es)
    (h : Settled swapId (own i es)) : swapId ∈ executedIds es := by
  have hkey : singleKey swapId ∈ (performed es).map SwapCall.key := by
    rcases h with h | h
    · obtain ⟨call, hcall, hkey⟩ := List.mem_map.mp h
      obtain ⟨e, he, hacted⟩ := List.mem_filterMap.mp hcall
      rw [← hkey]
      exact List.mem_map_of_mem (List.mem_filterMap.mpr ⟨e, (mem_own.mp he).1, hacted⟩)
    · obtain ⟨e, he, hdown⟩ := List.mem_filterMap.mp h
      exact performed_of_refused hc (List.mem_filterMap.mpr ⟨e, (mem_own.mp he).1, hdown⟩)
  rw [keys_executedIds] at hkey
  exact (List.mem_map_of_injective singleKey_injective).mp hkey

end Completed

/-- **A completed job has executed its swaps, and the executed legs are the first ones**, when a
claim is refused only for an executed swap: in every state of every run of any number of attempts of
the job, whatever throws and wherever an attempt stops. -/
theorem completed_executed {job : SwapJob}
    (hr : (processing (fun _ => job) d₀).run (swapMachine ι) is = some c)
    (ha : (processing (fun _ => job) d₀).Admitted (swapMachine ι)
      (fun _ cmd s => RefusesPerformed SwapCall.key s cmd) is) :
    (∀ i, Completed c i → ∀ swapId ∈ job.swapIds, swapId ∈ executedIds c.shared.2) ∧
      ∀ data, job = .multiLeg data → ∀ m n, m < n →
        legId data.swapId n ∈ executedIds c.shared.2 →
        legId data.swapId m ∈ executedIds c.shared.2 := by
  obtain ⟨hc, hdone⟩ := chronicle_processing hr ha
  refine ⟨fun i hi swapId hid => executed_of_settled hc (hdone i hi swapId hid), ?_⟩
  rintro data rfl m n hmn hn
  -- the step that executed the leg `n`
  obtain ⟨call, hcall, hid⟩ := List.mem_map.mp hn
  obtain ⟨e, he, j, t, u, rfl⟩ := mem_performed.mp hcall
  obtain ⟨new, old, hes⟩ := List.append_of_mem he
  rw [hes] at hc
  obtain ⟨hold, ⟨⟨-, horder⟩, -⟩, -⟩ := hc.before
  obtain ⟨n', hn', hbefore⟩ := horder data rfl
  obtain rfl : n' = n := legId_injective _ (hn'.symm.trans hid)
  have hm := executed_of_settled hold (hbefore m hmn)
  rw [hes]
  unfold executedIds performed at hm ⊢
  rw [List.filterMap_append, List.map_append, List.filterMap_cons]
  exact List.mem_append_right _ (List.mem_cons_of_mem _ hm)

/-- A job with two legs. -/
def twoLegs : SwapJob :=
  .multiLeg ⟨"swap-2", 7, [⟨"XLM", 10, some 3, none⟩, ⟨"USDC", 4, some 5, none⟩]⟩

/-- The second leg throws, and the second attempt resumes at it and completes the job. -/
theorem completed_executed_resumed : ∃ c,
    (processing (fun _ => twoLegs) (unmarked [.succeeds, .succeeds, .succeeds, .succeeds, .succeeds,
      .throws (.error "slippage")])).run (swapMachine (Fin 2))
        ([0, 0, 0, 0, 0, 0, 0] ++ [1, 1, 1, 1, 1, 1]) = some c ∧ Completed c 1 ∧
    (∀ i, Completed c i → ∀ swapId ∈ twoLegs.swapIds, swapId ∈ executedIds c.shared.2) := by
  have hrun : ((processing (fun _ => twoLegs) (unmarked [.succeeds, .succeeds, .succeeds, .succeeds,
      .succeeds, .throws (.error "slippage")])).run (swapMachine (Fin 2))
        ([0, 0, 0, 0, 0, 0, 0] ++ [1, 1, 1, 1, 1, 1])).any
          fun c => (c.threads 1).returned := by
    decide +kernel
  obtain ⟨c, hc, hcompleted⟩ := (Option.any_eq_true _ _).mp hrun
  exact ⟨c, hc, hcompleted, (completed_executed hc (by decide +kernel)).1⟩

/-- **A completed job has not executed its swap.** The first attempt crashes between its claim and
its swap, and the claim of the second one is refused. -/
theorem completed_unexecuted : ∃ c,
    (processing (fun _ => oneSwap) (unmarked [])).run (swapMachine (Fin 2)) [0, 0, 1, 1, 1] = some c ∧
    Completed c 1 ∧ executedIds c.shared.2 = [] := by
  have hrun : ((processing (fun _ => oneSwap) (unmarked [])).run (swapMachine (Fin 2))
      [0, 0, 1, 1, 1]).any fun c => (c.threads 1).returned ∧ executedIds c.shared.2 = [] := by
    decide +kernel
  obtain ⟨c, hc, hcompleted⟩ := (Option.any_eq_true _ _).mp hrun
  exact ⟨c, hc, of_decide_eq_true hcompleted⟩

end Queue
