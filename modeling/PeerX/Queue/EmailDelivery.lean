import PeerX.Queue.EmailProcessor

/-!
# Queue: the delivery of emails

An email is sent once, and every job that completes had its email sent, as long as no release takes
the marker of a sent email away, and a claim is refused only when the email of the job was sent. The
first fails when `job.progress(80)` throws after the email was sent. The second fails when the id of
another email is the same, as it is for emails that differ in their context, or when the marker was
left behind by an attempt that failed or is not done.

## Main results

* `processEmail_keeps`: the handler keeps the rule
* `delivered_once`: no email is sent twice, and a completed job had its email sent
* `delivered_twice_and_suppressed`: an email that is sent twice, and one that is never sent
-/

namespace Queue

open Concurrency

variable {ι : Type} {i : ι} {past : List (EmailEvent ι)}

/-- The worker has sent the email of the job, or its marker was refused to it. -/
def EmailSettled (data : EmailJobData) (past : List (EmailEvent ι)) : Prop :=
  (∃ sending ∈ performed past, sending.data = data) ∨ sentKey (generateEmailId data) ∈ refused past

/-- The rule of a worker: it sends the email of its job. -/
def EmailRule (data : EmailJobData) (c : EmailCommand) (past : List (EmailEvent ι)) : Prop :=
  Guarding Sending.key c past ∧ ∀ sending, c = .act sending → sending.data = data

theorem emailRule_note {data : EmailJobData} (step : EmailStep) :
    EmailRule data (.note step) past := ⟨trivial, fun _ h => by cases h⟩

theorem emailRule_release {data : EmailJobData} {key : String}
    (h : held past = some key ∨ key ∈ (performed past).map Sending.key) :
    EmailRule data (.release key) past := ⟨h, fun _ h => by cases h⟩

theorem EmailSettled.cons {data : EmailJobData} {e : EmailEvent ι} (h : EmailSettled data past) :
    EmailSettled data (e :: past) := by
  rcases h with ⟨sending, hsending, hdata⟩ | h
  · obtain ⟨e', he', hacted⟩ := List.mem_filterMap.mp hsending
    exact .inl ⟨sending, List.mem_filterMap.mpr ⟨e', List.mem_cons_of_mem _ he', hacted⟩, hdata⟩
  · obtain ⟨e', he', hdown⟩ := List.mem_filterMap.mp h
    exact .inr (List.mem_filterMap.mpr ⟨e', List.mem_cons_of_mem _ he', hdown⟩)

theorem emailSettled_act {data : EmailJobData} {html : String} {s : Markers String String} {u : Unit} :
    EmailSettled data (⟨i, s, .act ⟨data, html⟩, .ok u⟩ :: past) :=
  .inl ⟨⟨data, html⟩, List.mem_cons_self, rfl⟩

/-- **The handler keeps the rule**, and the email of a job that is completed is settled. -/
theorem processEmail_keeps (data : EmailJobData) (i : ι) :
    (processEmail data).Keeps serve (EmailRule data) i (fun _ past => EmailSettled data past)
      (fun _ _ => True) [] := by
  refine keeps_issue_bind (emailRule_note _) (fun s u => ?_) fun s e => trivial
  by_cases hvalid : data.Invalid
  · rw [if_pos hvalid]
    exact keeps_throw trivial
  · rw [if_neg hvalid]
    refine keeps_issue_bind ⟨rfl, fun _ h => by cases h⟩ (fun s claimed => ?_) fun s e => trivial
    cases claimed with
    | false =>
      refine keeps_issue (emailRule_note _) (fun s u => EmailSettled.cons (.inr ?_)) fun s e => trivial
      exact mem_refused.mpr ⟨_, List.mem_cons_self, i, _, rfl⟩
    | true =>
      refine keeps_bind (keeps_guarded ?_ (fun e s v past => keeps_throw trivial) fun _ _ => trivial)
      -- until the email is sent, the worker holds the marker
      refine keeps_issue_bind (emailRule_note _) (fun s u => ?_) fun s e =>
        emailRule_release (.inl rfl)
      refine keeps_bind (keeps_issue_bind (emailRule_note _) (fun s u => ?_) fun s e =>
        emailRule_release (.inl rfl))
      refine keeps_ret (keeps_issue_bind (emailRule_note _) (fun s u => ?_) fun s e =>
        emailRule_release (.inl rfl))
      refine keeps_issue_bind ⟨rfl, fun sending h => ?_⟩ (fun s u => ?_) fun s e =>
        emailRule_release (.inl rfl)
      · injection h with h
        rw [← h]
      · -- from then on, its job is settled
        refine keeps_issue (emailRule_note _) (fun s u => ?_) fun s e =>
          emailRule_release (.inr List.mem_cons_self)
        exact keeps_issue (emailRule_note _) (fun s u => emailSettled_act.cons.cons) fun s e => trivial

/-- No release takes the marker of a sent email away, and a claim is refused only when the email
of the job was sent. -/
def SendsOnce (jobs : ι → EmailJobData) (i : ι) (s : Markers String String × List (EmailEvent ι)) :
    EmailCommand → Prop
  | .release key => key ∈ (performed s.2).map Sending.key → s.1.fate.carriedOut = false
  | .claim key => s.1.marked key = true → s.1.fate.succeeded = true →
      ∃ sending ∈ performed s.2, SameEmail sending.data (jobs i)
  | _ => True

instance (jobs : ι → EmailJobData) (i : ι) (s : Markers String String × List (EmailEvent ι)) :
    DecidablePred (SendsOnce jobs i s)
  | .release key => inferInstanceAs (Decidable (key ∈ (performed s.2).map Sending.key → _))
  | .claim _ => inferInstanceAs
      (Decidable (_ → _ → ∃ sending ∈ performed s.2, SameEmail sending.data (jobs i)))
  | .note _ | .act _ => inferInstanceAs (Decidable True)

section Runs

variable [DecidableEq ι] {jobs : ι → EmailJobData} {d₀ s : Markers String String} {is : List ι}
  {es : List (EmailEvent ι)} {c : Config EmailCommand (GuardCommand.Reply String) String Unit ι
    (Markers String String × List (EmailEvent ι))}

theorem sent_of_refused {R : EmailEvent ι → List (EmailEvent ι) → Prop} {key : String}
    (hc : Chronicle serve (fun e es => R e es ∧ SendsOnce jobs e.thread (e.before, es) e.command) d₀ s es)
    (h : key ∈ refused (own i es)) : ∃ sending ∈ performed es, SameEmail sending.data (jobs i) := by
  obtain ⟨e, he, j, t, rfl⟩ := mem_refused.mp h
  obtain ⟨hmem, hthread⟩ := mem_own.mp he
  obtain rfl : j = i := hthread
  obtain ⟨new, old, rfl⟩ := List.append_of_mem hmem
  have hreply := hc.reply hmem
  obtain ⟨-, ⟨-, hrefuse⟩, -⟩ := hc.before
  dsimp only at hreply hrefuse
  cases hf : t.fate with
  | succeeds =>
    have hmarked : t.marked key = true := by
      simpa [serve, hf, Fate.reply] using hreply.symm
    obtain ⟨sending, hsending, hsame⟩ := hrefuse hmarked (by rw [hf]; rfl)
    refine ⟨sending, ?_, hsame⟩
    unfold performed
    rw [List.filterMap_append]
    exact List.mem_append_right _ hsending
  | throws e => simp [serve, hf, Fate.reply] at hreply
  | throwsLate e => simp [serve, hf, Fate.reply] at hreply

/-- **No email is sent twice, and a job that is completed had its email sent**, in every run whose
steps meet the condition: any number of attempts of any jobs, whatever throws and wherever an
attempt stops. -/
theorem delivered_once (hr : (emailing jobs d₀).run (emailMachine ι) is = some c)
    (ha : (emailing jobs d₀).Admitted (emailMachine ι) (fun i cmd s => SendsOnce jobs i s cmd) is) :
    ((performed c.shared.2).map fun sending => generateEmailId sending.data).Nodup ∧
      ∀ i, (c.threads i).returned = true →
        ∃ sending ∈ performed c.shared.2, SameEmail sending.data (jobs i) := by
  obtain ⟨hc, hdone⟩ := chronicle_of_keeps (fun i => processEmail_keeps (jobs i) i) hr ha
  constructor
  · have honce : Chronicle serve (fun e es => Guarding Sending.key e.command (own e.thread es) ∧
        KeepsPerformed Sending.key (e.before, es) e.command) d₀ c.shared.1 c.shared.2 := by
      refine hc.mono ?_
      rintro ⟨j, t, cmd, r⟩ es ⟨⟨hguard, -⟩, hsends⟩
      refine ⟨hguard, ?_⟩
      cases cmd with
      | release key => exact hsends
      | note | claim | act => trivial
    -- a key is a function of the id, so equal ids have equal keys
    have hkeys : (performed c.shared.2).map Sending.key =
        ((performed c.shared.2).map fun sending => generateEmailId sending.data).map sentKey := by
      rw [List.map_map]
      rfl
    have hnodup := (performed_once honce).nodup
    rw [hkeys] at hnodup
    exact hnodup.of_map _
  · intro i hi
    obtain ⟨u, hu⟩ := Prog.returned_iff.mp hi
    rcases hdone i u hu with ⟨sending, hsending, hdata⟩ | hrefused
    · obtain ⟨e, he, hacted⟩ := List.mem_filterMap.mp hsending
      refine ⟨sending, List.mem_filterMap.mpr ⟨e, (mem_own.mp he).1, hacted⟩, ?_⟩
      rw [hdata]
      exact SameEmail.refl _
    · exact sent_of_refused hc hrefused

end Runs

/-- An email to Alice, and one to the same address that differs in its context. -/
def welcome (name : String) : EmailJobData :=
  { recipients := .one "alice@example.com", subject := "Welcome to PeerX!", template := "welcome",
    context := some [("name", some name)] }

/-- The markers at the start, and how the steps go. -/
def unsent (fates : List (Fate String)) : Markers String String := ⟨fun _ => false, fates⟩

/-- The transport refuses the email, and the second attempt sends it. -/
theorem delivered_once_retried : ∃ c,
    (emailing (fun _ => welcome "Alice") (unsent [.succeeds, .succeeds, .succeeds, .succeeds, .succeeds,
      .throws "ECONNREFUSED"])).run (emailMachine (Fin 2))
        ([0, 0, 0, 0, 0, 0, 0] ++ [1, 1, 1, 1, 1, 1, 1, 1]) = some c ∧ (c.threads 1).returned = true ∧
    ((performed c.shared.2).map fun sending => generateEmailId sending.data).Nodup := by
  have hrun : ((emailing (fun _ => welcome "Alice") (unsent [.succeeds, .succeeds, .succeeds, .succeeds,
      .succeeds, .throws "ECONNREFUSED"])).run (emailMachine (Fin 2))
        ([0, 0, 0, 0, 0, 0, 0] ++ [1, 1, 1, 1, 1, 1, 1, 1])).any fun c => (c.threads 1).returned := by
    decide +kernel
  obtain ⟨c, hc, hreturned⟩ := (Option.any_eq_true _ _).mp hrun
  exact ⟨c, hc, hreturned, (delivered_once hc (by decide +kernel)).1⟩

/-- Two attempts of one job, and a job that differs in its context. -/
def welcomes : Fin 3 → EmailJobData
  | 0 => welcome "Alice"
  | 1 => welcome "Alice"
  | 2 => welcome "Alicia"

/-- **An email is sent twice, and another one is never sent.** The first attempt sends the email,
`job.progress(80)` throws, and its retry sends the email again. The job that differs in its context
completes without having sent anything. -/
theorem delivered_twice_and_suppressed : ∃ c,
    (emailing welcomes (unsent [.succeeds, .succeeds, .succeeds, .succeeds, .succeeds, .succeeds,
      .throws "Connection is closed."])).run (emailMachine (Fin 3))
        ([0, 0, 0, 0, 0, 0, 0, 0] ++ [1, 1, 1, 1, 1, 1, 1, 1] ++ [2, 2, 2]) = some c ∧
    (performed c.shared.2).map (·.data) = [welcome "Alice", welcome "Alice"] ∧
    (c.threads 1).returned = true ∧ (c.threads 2).returned = true ∧
    ¬ SameEmail (welcomes 1) (welcomes 2) := by
  have hrun : ((emailing welcomes (unsent [.succeeds, .succeeds, .succeeds, .succeeds, .succeeds,
      .succeeds, .throws "Connection is closed."])).run (emailMachine (Fin 3))
        ([0, 0, 0, 0, 0, 0, 0, 0] ++ [1, 1, 1, 1, 1, 1, 1, 1] ++ [2, 2, 2])).any fun c =>
      (performed c.shared.2).map (·.data) = [welcome "Alice", welcome "Alice"] ∧
        (c.threads 1).returned = true ∧ (c.threads 2).returned = true ∧
        ¬ SameEmail (welcomes 1) (welcomes 2) := by
    decide +kernel
  obtain ⟨c, hc, htwice⟩ := (Option.any_eq_true _ _).mp hrun
  exact ⟨c, hc, of_decide_eq_true htwice⟩

end Queue
