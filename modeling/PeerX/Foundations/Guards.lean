import PeerX.Foundations.Fallible
import Mathlib.Data.List.Nodup
import Mathlib.Data.List.Perm.Subperm

/-!
# Actions guarded by markers

Workers share a store of markers. Before a worker acts it claims the marker of the action, which
only one of them can do; when the action fails it releases the marker, so that the action can be
tried again. Every step may go through, throw, or throw although it was carried out.

A marker that is set says that its action was performed, or that a worker is about to perform it, or
that such a worker is gone. The results separate these cases: an action is performed once when no
release takes the marker of a performed action away, and a refused claim is the sign of a performed
action when no marker is left behind.

## Main results

* `keeps_guarded`: the rule for the body under a marker
* `performed_once`: no action is performed twice when releases keep the markers of performed actions
* `performed_of_refused`: a refused claim is the sign of a performed action when no marker is left
  behind
-/

namespace Concurrency

variable {N K A ε α β ι : Type}

/-! ## Steps -/

/-- A step of a worker: one that touches no marker, the claim or the release of a marker, or an
action. -/
inductive GuardCommand (N K A : Type) : Type
  | note (n : N)
  | claim (k : K)
  | release (k : K)
  | act (a : A)

/-- The value of a step that goes through: a claim says whether the marker was free. -/
abbrev GuardCommand.Value : GuardCommand N K A → Type
  | .claim _ => Bool
  | _ => Unit

/-- The reply to a step is its value, or an exception. -/
abbrev GuardCommand.Reply (ε : Type) (c : GuardCommand N K A) : Type := Except ε c.Value

/-- The store of the markers, and how the next steps go. When the list is used up every step
goes through. -/
structure Markers (K ε : Type) where
  marked : K → Bool
  fates : List (Fate ε)

namespace Markers

/-- How the next step goes. -/
def fate (s : Markers K ε) : Fate ε := s.fates.headD .succeeds

/-- The store with the marker set or removed, if the next step is carried out. -/
def put [DecidableEq K] (s : Markers K ε) (k : K) (b : Bool) : Markers K ε where
  marked := if s.fate.carriedOut then Function.update s.marked k b else s.marked
  fates := s.fates.tail

/-- The store after a step that touches no marker. -/
def next (s : Markers K ε) : Markers K ε := { s with fates := s.fates.tail }

section Put

variable [DecidableEq K] {s : Markers K ε} {k k' : K} {b : Bool}

omit [DecidableEq K] in
@[simp] theorem next_marked (s : Markers K ε) : s.next.marked = s.marked := rfl

theorem put_of_ne (h : k' ≠ k) : (s.put k b).marked k' = s.marked k' := by
  unfold put
  dsimp only
  split
  · exact Function.update_of_ne h b s.marked
  · rfl

theorem put_self (h : s.fate.carriedOut = true) : (s.put k b).marked k = b := by
  simp [put, h]

theorem put_not_carriedOut (h : s.fate.carriedOut = false) : (s.put k b).marked = s.marked := by
  simp [put, h]

theorem put_true (h : s.marked k' = true) : (s.put k true).marked k' = true := by
  by_cases hk : k' = k
  · subst hk
    cases hc : s.fate.carriedOut
    · rw [put_not_carriedOut hc, h]
    · exact put_self hc
  · rw [put_of_ne hk, h]

end Put

end Markers

/-- The store: the reply to a step, and the markers after it. A marker is claimed when it was
free. -/
def serve [DecidableEq K] : (c : GuardCommand N K A) → Markers K ε → c.Reply ε × Markers K ε
  | .note _, s => (s.fate.reply (), s.next)
  | .claim k, s => (s.fate.reply (!s.marked k), s.put k true)
  | .release k, s => (s.fate.reply (), s.put k false)
  | .act _, s => (s.fate.reply (), s.next)

/-- The programs of the workers. -/
abbrev Worker (N K A ε α : Type) := Prog (GuardCommand N K A) (GuardCommand.Reply ε) ε α

/-- A step of a worker. -/
abbrev work (c : GuardCommand N K A) : Worker N K A ε c.Value := issue c

/-- The body of a worker under a marker: an exception releases the marker first. -/
def guarded (k : K) (body : Worker N K A ε α) (onError : ε → Worker N K A ε α) : Worker N K A ε α :=
  tryCatch body fun e => do
    work (.release k)
    onError e

/-- An executed step. -/
abbrev GuardEvent (N K A ε ι : Type) :=
  Executed (GuardCommand N K A) (GuardCommand.Reply ε) ι (Markers K ε)

/-! ## What the past amounts to -/

/-- The marker that a worker holds: it has claimed it, and has neither performed the action nor
released it since. -/
def held : List (GuardEvent N K A ε ι) → Option K
  | [] => none
  | ⟨_, _, .claim k, .ok true⟩ :: _ => some k
  | ⟨_, _, .release _, _⟩ :: _ => none
  | ⟨_, _, .act _, .ok _⟩ :: _ => none
  | _ :: past => held past

/-- The action that a step performed. -/
def acted : GuardEvent N K A ε ι → Option A
  | ⟨_, _, .act a, .ok _⟩ => some a
  | _ => none

/-- The performed actions, the newest first. -/
def performed (es : List (GuardEvent N K A ε ι)) : List A := es.filterMap acted

/-- The marker of a refused claim. -/
def turnedDown : GuardEvent N K A ε ι → Option K
  | ⟨_, _, .claim k, .ok false⟩ => some k
  | _ => none

/-- The markers of the refused claims, the newest first. -/
def refused (es : List (GuardEvent N K A ε ι)) : List K := es.filterMap turnedDown

section Past

variable {s : Markers K ε} {i : ι} {es past : List (GuardEvent N K A ε ι)} {k : K} {a : A}

@[simp] theorem held_note (n : N) (r : Except ε Unit) :
    held (⟨i, s, .note n, r⟩ :: past : List (GuardEvent N K A ε ι)) = held past := rfl

@[simp] theorem held_claimed :
    held (⟨i, s, .claim k, .ok true⟩ :: past : List (GuardEvent N K A ε ι)) = some k := rfl

@[simp] theorem held_refused :
    held (⟨i, s, .claim k, .ok false⟩ :: past : List (GuardEvent N K A ε ι)) = held past := rfl

@[simp] theorem held_claim_error (e : ε) :
    held (⟨i, s, .claim k, .error e⟩ :: past : List (GuardEvent N K A ε ι)) = held past := rfl

@[simp] theorem held_release (r : Except ε Unit) :
    held (⟨i, s, .release k, r⟩ :: past : List (GuardEvent N K A ε ι)) = none := by
  cases r <;> rfl

@[simp] theorem held_act (u : Unit) :
    held (⟨i, s, .act a, .ok u⟩ :: past : List (GuardEvent N K A ε ι)) = none := rfl

@[simp] theorem held_act_error (e : ε) :
    held (⟨i, s, .act a, .error e⟩ :: past : List (GuardEvent N K A ε ι)) = held past := rfl

@[simp] theorem performed_note (n : N) (r : Except ε Unit) :
    performed (⟨i, s, .note n, r⟩ :: es : List (GuardEvent N K A ε ι)) = performed es := rfl

@[simp] theorem performed_claim (r : Except ε Bool) :
    performed (⟨i, s, .claim k, r⟩ :: es : List (GuardEvent N K A ε ι)) = performed es := rfl

@[simp] theorem performed_release (r : Except ε Unit) :
    performed (⟨i, s, .release k, r⟩ :: es : List (GuardEvent N K A ε ι)) = performed es := rfl

@[simp] theorem performed_act (u : Unit) :
    performed (⟨i, s, .act a, .ok u⟩ :: es : List (GuardEvent N K A ε ι)) = a :: performed es := rfl

@[simp] theorem performed_act_error (e : ε) :
    performed (⟨i, s, .act a, .error e⟩ :: es : List (GuardEvent N K A ε ι)) = performed es := rfl

/-- A performed action is the action of an executed step. -/
theorem mem_performed :
    a ∈ performed es ↔ ∃ e ∈ es, ∃ i s u, e = ⟨i, s, .act a, .ok u⟩ := by
  simp only [performed, List.mem_filterMap]
  constructor
  · rintro ⟨⟨i, s, c, r⟩, he, ha⟩
    cases c with
    | act a' =>
      cases r with
      | ok u =>
        obtain rfl : a' = a := Option.some.inj ha
        exact ⟨_, he, i, s, u, rfl⟩
      | error e => cases ha
    | note | claim | release => cases ha
  · rintro ⟨e, he, i, s, u, rfl⟩
    exact ⟨_, he, rfl⟩

/-- A refused marker is the marker of an executed claim. -/
theorem mem_refused :
    k ∈ refused es ↔ ∃ e ∈ es, ∃ i s, e = ⟨i, s, .claim k, .ok false⟩ := by
  simp only [refused, List.mem_filterMap]
  constructor
  · rintro ⟨⟨i, s, c, r⟩, he, hk⟩
    cases c with
    | claim k' =>
      cases r with
      | ok b =>
        cases b with
        | true => cases hk
        | false =>
          obtain rfl : k' = k := Option.some.inj hk
          exact ⟨_, he, i, s, rfl⟩
      | error e => cases hk
    | note | release | act => cases hk
  · rintro ⟨e, he, i, s, rfl⟩
    exact ⟨_, he, rfl⟩

end Past

/-- **The body under a marker** may fail where the worker may release the marker. -/
theorem keeps_guarded [DecidableEq K]
    {rule : GuardCommand N K A → List (GuardEvent N K A ε ι) → Prop} {i : ι}
    {Q : α → List (GuardEvent N K A ε ι) → Prop} {E : ε → List (GuardEvent N K A ε ι) → Prop}
    {past : List (GuardEvent N K A ε ι)} {k : K} {body : Worker N K A ε α}
    {onError : ε → Worker N K A ε α}
    (hbody : body.Keeps serve rule i Q (fun _ past => rule (.release k) past) past)
    (honError : ∀ e s v past, (onError e).Keeps serve rule i Q E (⟨i, s, .release k, .ok v⟩ :: past))
    (herror : ∀ e past, E e past) : (guarded k body onError).Keeps serve rule i Q E past := by
  refine keeps_tryCatch (Prog.ObeysExcept.mono hbody (fun _ _ h => h) fun e past hrule => ?_)
  exact keeps_issue_bind hrule (fun s v => honError e s v past) fun s e => herror e _

/-! ## The discipline -/

section Discipline

variable [DecidableEq ι] [DecidableEq K] (key : A → K)

/-- The discipline of a worker, next to its own steps: it claims a marker when it holds none,
acts under the marker of the action, and releases a marker that it holds or whose action it has
performed. -/
def Guarding : GuardCommand N K A → List (GuardEvent N K A ε ι) → Prop
  | .note _, _ => True
  | .claim _, past => held past = none
  | .release k, past => held past = some k ∨ k ∈ (performed past).map key
  | .act a, past => held past = some (key a)

/-- No release takes the marker of a performed action away. -/
def KeepsPerformed (s : Markers K ε × List (GuardEvent N K A ε ι)) : GuardCommand N K A → Prop
  | .release k => k ∈ (performed s.2).map key → s.1.fate.carriedOut = false
  | _ => True

/-- A claim is refused only when the action was performed. -/
def RefusesPerformed (s : Markers K ε × List (GuardEvent N K A ε ι)) : GuardCommand N K A → Prop
  | .claim k => s.1.marked k = true → s.1.fate.succeeded = true → k ∈ (performed s.2).map key
  | _ => True

omit [DecidableEq ι] in
instance (s : Markers K ε × List (GuardEvent N K A ε ι)) : DecidablePred (KeepsPerformed key s)
  | .release k => inferInstanceAs (Decidable (k ∈ (performed s.2).map key → _))
  | .note _ | .claim _ | .act _ => inferInstanceAs (Decidable True)

omit [DecidableEq ι] in
instance (s : Markers K ε × List (GuardEvent N K A ε ι)) : DecidablePred (RefusesPerformed key s)
  | .claim k => inferInstanceAs (Decidable (_ → _ → k ∈ (performed s.2).map key))
  | .note _ | .release _ | .act _ => inferInstanceAs (Decidable True)

/-! ## Performed once -/

/-- The invariant of the markers. A worker that holds a marker holds it alone, and its action
was not performed; the marker of a performed action is set. -/
structure GuardInv (s : Markers K ε) (es : List (GuardEvent N K A ε ι)) : Prop where
  nodup : ((performed es).map key).Nodup
  kept : ∀ k ∈ (performed es).map key, s.marked k = true
  marked : ∀ i k, held (own i es) = some k → s.marked k = true
  fresh : ∀ i k, held (own i es) = some k → k ∉ (performed es).map key
  alone : ∀ i j k, held (own i es) = some k → held (own j es) = some k → i = j

section Steps

variable {key} {s s' : Markers K ε} {es : List (GuardEvent N K A ε ι)} {i : ι} {k : K} {a : A}

omit [DecidableEq K] in
/-- A step after which nobody holds or has performed anything else, and no marker is gone. -/
theorem GuardInv.of_same {e : GuardEvent N K A ε ι} (h : GuardInv key s es)
    (hheld : held (e :: own e.thread es) = held (own e.thread es))
    (hperformed : performed (e :: es) = performed es)
    (hmarked : ∀ k, s.marked k = true → s'.marked k = true) : GuardInv key s' (e :: es) := by
  have hown : ∀ j, held (own j (e :: es)) = held (own j es) := fun j => by
    by_cases hj : e.thread = j
    · subst hj
      rw [← hheld]
      simp [own]
    · rw [own_cons_of_ne hj]
  constructor
  · rw [hperformed]
    exact h.nodup
  · rw [hperformed]
    exact fun k hk => hmarked k (h.kept k hk)
  · intro j k hj
    exact hmarked k (h.marked j k ((hown j).symm.trans hj))
  · intro j k hj
    rw [hperformed]
    exact h.fresh j k ((hown j).symm.trans hj)
  · intro j j' k hj hj'
    exact h.alone j j' k ((hown j).symm.trans hj) ((hown j').symm.trans hj')

theorem GuardInv.claimed (h : GuardInv key s es) (hfree : s.marked k = false)
    (hmark : ∀ k', s'.marked k' = if k' = k then true else s.marked k') :
    GuardInv key s' (⟨i, s, .claim k, .ok true⟩ :: es) := by
  have hother : ∀ {j}, j ≠ i → own j (⟨i, s, .claim k, .ok true⟩ :: es) = own j es :=
    fun hj => own_cons_of_ne (Ne.symm hj)
  -- nobody held the marker before
  have hnone : ∀ j, held (own j es) ≠ some k := fun j hj => by
    rw [h.marked j k hj] at hfree
    cases hfree
  have hmono : ∀ k', s.marked k' = true → s'.marked k' = true := fun k' hk' => by
    rw [hmark, hk']
    exact ite_self _
  constructor
  · exact h.nodup
  · exact fun k' hk' => hmono k' (h.kept k' hk')
  · intro j k' hj
    by_cases hji : j = i
    · subst hji
      rw [own_cons_self, held_claimed, Option.some.injEq] at hj
      rw [hmark, if_pos hj.symm]
    · exact hmono k' (h.marked j k' (hother hji ▸ hj))
  · intro j k' hj hk'
    by_cases hji : j = i
    · subst hji
      rw [own_cons_self, held_claimed, Option.some.injEq] at hj
      subst hj
      rw [h.kept k hk'] at hfree
      cases hfree
    · exact h.fresh j k' (hother hji ▸ hj) hk'
  · intro j j' k' hj hj'
    by_cases hji : j = i <;> by_cases hji' : j' = i
    · rw [hji, hji']
    · subst hji
      rw [own_cons_self, held_claimed, Option.some.injEq] at hj
      subst hj
      exact absurd (hother hji' ▸ hj') (hnone j')
    · subst hji'
      rw [own_cons_self, held_claimed, Option.some.injEq] at hj'
      subst hj'
      exact absurd (hother hji ▸ hj) (hnone j)
    · exact h.alone j j' k' (hother hji ▸ hj) (hother hji' ▸ hj')

theorem GuardInv.released {r : Except ε Unit} (h : GuardInv key s es)
    (hrule : held (own i es) = some k ∨ k ∈ (performed (own i es)).map key)
    (hkeep : k ∈ (performed es).map key → s.fate.carriedOut = false) :
    GuardInv key (s.put k false) (⟨i, s, .release k, r⟩ :: es) := by
  have hother : ∀ {j}, j ≠ i → own j (⟨i, s, .release k, r⟩ :: es) = own j es :=
    fun hj => own_cons_of_ne (Ne.symm hj)
  have hself : ∀ {k'}, held (own i (⟨i, s, .release k, r⟩ :: es)) ≠ some k' := fun hk' => by
    rw [own_cons_self, held_release] at hk'
    cases hk'
  -- the marker goes only when nobody else needs it
  have hmark : ∀ k', s.marked k' = true → (k' = k → k ∈ (performed es).map key) →
      (s.put k false).marked k' = true := fun k' hk' hneed => by
    by_cases hkk : k' = k
    · rw [Markers.put_not_carriedOut (hkeep (hneed hkk)), hk']
    · rw [Markers.put_of_ne hkk, hk']
  have hperformed : k ∈ (performed (own i es)).map key → k ∈ (performed es).map key := fun hk => by
    obtain ⟨a, ha, rfl⟩ := List.mem_map.mp hk
    obtain ⟨e, he, hacted⟩ := List.mem_filterMap.mp ha
    exact List.mem_map_of_mem (List.mem_filterMap.mpr ⟨e, (mem_own.mp he).1, hacted⟩)
  constructor
  · exact h.nodup
  · exact fun k' hk' => hmark k' (h.kept k' hk') fun hkk => hkk ▸ hk'
  · intro j k' hj
    by_cases hji : j = i
    · exact absurd (hji ▸ hj) hself
    · rw [hother hji] at hj
      refine hmark k' (h.marked j k' hj) fun hkk => ?_
      subst hkk
      rcases hrule with hheld | hdone
      · exact absurd (h.alone j i k' hj hheld) hji
      · exact hperformed hdone
  · intro j k' hj
    by_cases hji : j = i
    · exact absurd (hji ▸ hj) hself
    · exact h.fresh j k' (hother hji ▸ hj)
  · intro j j' k' hj hj'
    by_cases hji : j = i
    · exact absurd (hji ▸ hj) hself
    · by_cases hji' : j' = i
      · exact absurd (hji' ▸ hj') hself
      · exact h.alone j j' k' (hother hji ▸ hj) (hother hji' ▸ hj')

omit [DecidableEq K] in
/-- A worker performs the action of the marker that it holds. -/
theorem GuardInv.acted {u : Unit} (h : GuardInv key s es) (hheld : held (own i es) = some (key a))
    (hmark : s'.marked = s.marked) : GuardInv key s' (⟨i, s, .act a, .ok u⟩ :: es) := by
  have hother : ∀ {j}, j ≠ i → own j (⟨i, s, .act a, .ok u⟩ :: es) = own j es :=
    fun hj => own_cons_of_ne (Ne.symm hj)
  have hself : ∀ {k'}, held (own i (⟨i, s, .act a, .ok u⟩ :: es)) ≠ some k' := fun hk' => by
    rw [own_cons_self, held_act] at hk'
    cases hk'
  -- after the action the thread holds nothing, so only its own key is new among the done ones
  constructor
  · exact List.nodup_cons.mpr ⟨h.fresh i _ hheld, h.nodup⟩
  · intro k' hk'
    rw [hmark]
    rcases List.mem_cons.mp hk' with rfl | hk'
    · exact h.marked i _ hheld
    · exact h.kept k' hk'
  · intro j k' hj
    by_cases hji : j = i
    · exact absurd (hji ▸ hj) hself
    · rw [hmark]
      exact h.marked j k' (hother hji ▸ hj)
  · intro j k' hj hk'
    by_cases hji : j = i
    · exact absurd (hji ▸ hj) hself
    · rw [hother hji] at hj
      rcases List.mem_cons.mp hk' with rfl | hk'
      · exact hji (h.alone j i _ hj hheld)
      · exact h.fresh j k' hj hk'
  · intro j j' k' hj hj'
    by_cases hji : j = i
    · exact absurd (hji ▸ hj) hself
    · by_cases hji' : j' = i
      · exact absurd (hji' ▸ hj') hself
      · exact h.alone j j' k' (hother hji ▸ hj) (hother hji' ▸ hj')

end Steps

section Runs

variable {key} {d₀ s : Markers K ε} {es : List (GuardEvent N K A ε ι)} {k : K}
  {R : GuardEvent N K A ε ι → List (GuardEvent N K A ε ι) → Prop}

/-- **No action is performed twice**, and the marker of a performed action stays set, when no
release takes the marker of a performed action away. -/
theorem performed_once (hc : Chronicle serve (fun e es => Guarding key e.command (own e.thread es) ∧
    KeepsPerformed key (e.before, es) e.command) d₀ s es) : GuardInv key s es := by
  refine hc.invariant (I := fun s es => GuardInv key s es)
    ⟨List.nodup_nil, by simp [performed], by simp [own, held], by simp [own, held],
      by simp [own, held]⟩ ?_
  rintro ⟨i, s, c, r⟩ es - h ⟨hrule, hkeep⟩ hr
  dsimp only at h hrule hkeep hr ⊢
  cases c with
  | note n => exact h.of_same rfl rfl fun k hk => hk
  | claim k =>
    have hmono : ∀ k', s.marked k' = true → (s.put k true).marked k' = true :=
      fun k' => Markers.put_true
    cases r with
    | error e => exact h.of_same rfl rfl hmono
    | ok b =>
      cases b with
      | false => exact h.of_same rfl rfl hmono
      | true =>
        -- the claim went through, and the marker was free
        cases hf : s.fate with
        | succeeds =>
          have hfree : s.marked k = false := by
            simpa [serve, hf, Fate.reply] using hr.symm
          refine h.claimed hfree fun k' => ?_
          by_cases hk : k' = k
          · rw [if_pos hk, hk]
            exact Markers.put_self (by rw [hf]; rfl)
          · rw [if_neg hk]
            exact Markers.put_of_ne hk
        | throws e => simp [serve, hf, Fate.reply] at hr
        | throwsLate e => simp [serve, hf, Fate.reply] at hr
  | release k => exact h.released hrule hkeep
  | act a =>
    cases r with
    | error e => exact h.of_same rfl rfl fun k hk => hk
    | ok u => exact h.acted hrule rfl

omit [DecidableEq ι] in
/-- **A refused claim is the sign of a performed action**, when every claim of the run is refused
only then. -/
theorem performed_of_refused (hc : Chronicle serve (fun e es => R e es ∧
    RefusesPerformed key (e.before, es) e.command) d₀ s es) (hk : k ∈ refused es) :
    k ∈ (performed es).map key := by
  obtain ⟨e, he, i, t, rfl⟩ := mem_refused.mp hk
  obtain ⟨new, old, rfl⟩ := List.append_of_mem he
  have hreply := hc.reply (List.mem_append_right new List.mem_cons_self)
  obtain ⟨-, ⟨-, hrefuse⟩, -⟩ := hc.before
  dsimp only at hreply hrefuse
  have hold : k ∈ (performed old).map key := by
    cases hf : t.fate with
    | succeeds =>
      refine hrefuse ?_ (by rw [hf]; rfl)
      simpa [serve, hf, Fate.reply] using hreply.symm
    | throws e => simp [serve, hf, Fate.reply] at hreply
    | throwsLate e => simp [serve, hf, Fate.reply] at hreply
  -- what was performed stays performed
  unfold performed
  rw [List.filterMap_append, List.map_append]
  refine List.mem_append_right _ ?_
  exact hold

end Runs

end Discipline

end Concurrency
