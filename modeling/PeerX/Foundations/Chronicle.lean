import PeerX.Foundations.Observed
import PeerX.Foundations.Interleaving

/-!
# Chronicles of runs

What a thread does next is determined by the replies it has had so far. A program obeys a rule when
each of its commands meets the rule next to the commands that its thread has executed before. A run
of programs that obey the rule leaves a chronicle: every executed command, with the state before it,
next to the older ones. Properties of runs are then proved by induction on the chronicle, without
the programs.

## Main results

* `Prog.obeys_perform`, `Prog.obeys_bind`, `Prog.obeys_mono`: the rules for programs
* `Prog.obeysExcept_bind`, `Prog.obeysExcept_tryCatch`: the rules for programs with exceptions
* `chronicle_of_run`: a run of programs that obey a rule is a chronicle
* `Prog.Obeys.chronicle`: a program alone leaves a chronicle too
* `Chronicle.invariant`, `Chronicle.strong_invariant`: the invariant rules
* `Chronicle.obs_eq`: what no executed command changes
-/

namespace Concurrency

variable {C : Type} {R : C → Type} {ε α β ι σ : Type}

/-- The program obeys a rule: after the commands `past` of its thread, the newest first, every
command meets `ok` in whatever state it is executed, and the program ends in `Q`. -/
def Prog.Obeys (h : (c : C) → σ → R c × σ)
    (ok : Executed C R ι σ → List (Executed C R ι σ) → Prop) (i : ι)
    (Q : α → List (Executed C R ι σ) → Prop) : Prog C R ε α → List (Executed C R ι σ) → Prop
  | .ret a, past => Q a past
  | .fail _, _ => True
  | .call c k, past => ∀ s, ok ⟨i, s, c, (h c s).1⟩ past ∧
      (k (h c s).1).Obeys h ok i Q (⟨i, s, c, (h c s).1⟩ :: past)

section Rules

variable {h : (c : C) → σ → R c × σ} {ok : Executed C R ι σ → List (Executed C R ι σ) → Prop} {i : ι}
  {past : List (Executed C R ι σ)}

theorem Prog.obeys_mono {Q Q' : α → List (Executed C R ι σ) → Prop} {p : Prog C R ε α}
    (hQ : ∀ a past, Q a past → Q' a past) (hp : p.Obeys h ok i Q past) : p.Obeys h ok i Q' past := by
  induction p generalizing past with
  | ret a => exact hQ a past hp
  | fail e => trivial
  | call c k ih => exact fun s => ⟨(hp s).1, ih _ (hp s).2⟩

theorem Prog.obeys_bind {Q : β → List (Executed C R ι σ) → Prop} {p : Prog C R ε α}
    {f : α → Prog C R ε β}
    (hp : p.Obeys h ok i (fun a past => (f a).Obeys h ok i Q past) past) :
    (p >>= f).Obeys h ok i Q past := by
  induction p generalizing past with
  | ret a => exact hp
  | fail e => trivial
  | call c k ih => exact fun s => ⟨(hp s).1, ih _ (hp s).2⟩

theorem Prog.obeys_perform {Q : β → List (Executed C R ι σ) → Prop} {c : C}
    {f : R c → Prog C R ε β} (hp : ∀ s, ok ⟨i, s, c, (h c s).1⟩ past ∧
      (f (h c s).1).Obeys h ok i Q (⟨i, s, c, (h c s).1⟩ :: past)) :
    (Prog.perform c >>= f).Obeys h ok i Q past := hp

theorem Prog.obeys_map {Q : β → List (Executed C R ι σ) → Prop} {p : Prog C R ε α} {f : α → β}
    (hp : p.Obeys h ok i (fun a past => Q (f a) past) past) : (f <$> p).Obeys h ok i Q past := by
  rw [map_eq_pure_bind]
  exact Prog.obeys_bind hp

end Rules

/-- The program obeys a rule, and it ends in `Q` with its result, or in `E` with its
exception. -/
def Prog.ObeysExcept (h : (c : C) → σ → R c × σ)
    (ok : Executed C R ι σ → List (Executed C R ι σ) → Prop) (i : ι)
    (Q : α → List (Executed C R ι σ) → Prop) (E : ε → List (Executed C R ι σ) → Prop) :
    Prog C R ε α → List (Executed C R ι σ) → Prop
  | .ret a, past => Q a past
  | .fail e, past => E e past
  | .call c k, past => ∀ s, ok ⟨i, s, c, (h c s).1⟩ past ∧
      (k (h c s).1).ObeysExcept h ok i Q E (⟨i, s, c, (h c s).1⟩ :: past)

section Exceptions

variable {h : (c : C) → σ → R c × σ} {ok : Executed C R ι σ → List (Executed C R ι σ) → Prop} {i : ι}
  {past : List (Executed C R ι σ)} {E E' : ε → List (Executed C R ι σ) → Prop}

theorem Prog.ObeysExcept.mono {Q Q' : α → List (Executed C R ι σ) → Prop} {p : Prog C R ε α}
    (hp : p.ObeysExcept h ok i Q E past) (hQ : ∀ a past, Q a past → Q' a past)
    (hE : ∀ e past, E e past → E' e past) : p.ObeysExcept h ok i Q' E' past := by
  induction p generalizing past with
  | ret a => exact hQ a past hp
  | fail e => exact hE e past hp
  | call c k ih => exact fun s => ⟨(hp s).1, ih _ (hp s).2⟩

/-- The commands before the program stay where they are. -/
theorem Prog.ObeysExcept.suffix {Q : α → List (Executed C R ι σ) → Prop} {p : Prog C R ε α}
    (hp : p.ObeysExcept h ok i Q E past) :
    p.ObeysExcept h ok i (fun a past' => Q a past' ∧ past <:+ past') E past := by
  induction p generalizing past with
  | ret a => exact ⟨hp, List.suffix_refl _⟩
  | fail e => exact hp
  | call c k ih =>
    refine fun s => ⟨(hp s).1, (ih _ (hp s).2).mono (fun a past' h => ?_) fun _ _ h => h⟩
    exact ⟨h.1, (List.suffix_cons _ _).trans h.2⟩

theorem Prog.obeysExcept_bind {Q : β → List (Executed C R ι σ) → Prop} {p : Prog C R ε α}
    {f : α → Prog C R ε β}
    (hp : p.ObeysExcept h ok i (fun a past => (f a).ObeysExcept h ok i Q E past) E past) :
    (p >>= f).ObeysExcept h ok i Q E past := by
  induction p generalizing past with
  | ret a => exact hp
  | fail e => exact hp
  | call c k ih => exact fun s => ⟨(hp s).1, ih _ (hp s).2⟩

theorem Prog.obeysExcept_tryCatch {Q : α → List (Executed C R ι σ) → Prop} {p : Prog C R ε α}
    {f : ε → Prog C R ε α}
    (hp : p.ObeysExcept h ok i Q (fun e past => (f e).ObeysExcept h ok i Q E past) past) :
    (tryCatch p f).ObeysExcept h ok i Q E past := by
  induction p generalizing past with
  | ret a => exact hp
  | fail e => exact hp
  | call c k ih => exact fun s => ⟨(hp s).1, ih _ (hp s).2⟩

end Exceptions

/-- A chronicle: the executed commands, the newest first, lead from `d₀` to `s`, and each of
them meets `ok` next to the older ones. -/
def Chronicle (h : (c : C) → σ → R c × σ)
    (ok : Executed C R ι σ → List (Executed C R ι σ) → Prop) (d₀ : σ) :
    σ → List (Executed C R ι σ) → Prop
  | s, [] => s = d₀
  | s, e :: es => h e.command e.before = (e.reply, s) ∧ ok e es ∧ Chronicle h ok d₀ e.before es

section Chronicles

variable {h : (c : C) → σ → R c × σ} {ok ok' : Executed C R ι σ → List (Executed C R ι σ) → Prop}
  {d₀ s : σ} {es new : List (Executed C R ι σ)}

theorem Chronicle.mono (hok : ∀ e es, ok e es → ok' e es) (hc : Chronicle h ok d₀ s es) :
    Chronicle h ok' d₀ s es := by
  induction es generalizing s with
  | nil => exact hc
  | cons e es ih => exact ⟨hc.1, hok e es hc.2.1, ih hc.2.2⟩

theorem Chronicle.split (hc : Chronicle h ok d₀ s (new ++ es)) :
    ∃ s₁, Chronicle h ok d₀ s₁ es ∧ Chronicle h (fun e older => ok e (older ++ es)) s₁ s new := by
  induction new generalizing s with
  | nil => exact ⟨s, hc, rfl⟩
  | cons e new ih =>
    obtain ⟨s₁, h₁, h₂⟩ := ih hc.2.2
    exact ⟨s₁, h₁, hc.1, hc.2.1, h₂⟩

theorem Chronicle.before {e : Executed C R ι σ} (hc : Chronicle h ok d₀ s (new ++ e :: es)) :
    Chronicle h ok d₀ e.before es ∧ ok e es ∧
      Chronicle h (fun e' older => ok e' (older ++ e :: es)) (h e.command e.before).2 s new := by
  obtain ⟨s₁, h₁, h₂⟩ := hc.split
  refine ⟨h₁.2.2, h₁.2.1, ?_⟩
  rw [h₁.1]
  exact h₂

/-- Every executed command meets `ok` next to some older ones. -/
theorem Chronicle.ok_of_mem {e : Executed C R ι σ} (hc : Chronicle h ok d₀ s es) (he : e ∈ es) :
    ∃ older, ok e older := by
  obtain ⟨new, old, rfl⟩ := List.append_of_mem he
  exact ⟨old, hc.before.2.1⟩

/-- The reply of an executed command is the one of the handler. -/
theorem Chronicle.reply {e : Executed C R ι σ} (hc : Chronicle h ok d₀ s es) (he : e ∈ es) :
    e.reply = (h e.command e.before).1 := by
  obtain ⟨new, old, rfl⟩ := List.append_of_mem he
  obtain ⟨s₁, hold, -⟩ := hc.split
  exact (congrArg Prod.fst hold.1).symm

/-- **What no executed command changes** is as it was. -/
theorem Chronicle.obs_eq {γ : Type} {obs : σ → γ} (hc : Chronicle h ok d₀ s es)
    (hobs : ∀ e ∈ es, obs (h e.command e.before).2 = obs e.before) : obs s = obs d₀ := by
  induction es generalizing s with
  | nil => rw [show s = d₀ from hc]
  | cons e es ih =>
    obtain ⟨he, hrest⟩ := List.forall_mem_cons.mp hobs
    rw [← ih hc.2.2 hrest, ← he, hc.1]

/-- **The invariant rule for chronicles.** -/
theorem Chronicle.invariant {I : σ → List (Executed C R ι σ) → Prop} (hc : Chronicle h ok d₀ s es)
    (hnil : I d₀ [])
    (hcons : ∀ e es, Chronicle h ok d₀ e.before es → I e.before es → ok e es →
      e.reply = (h e.command e.before).1 → I (h e.command e.before).2 (e :: es)) : I s es := by
  induction es generalizing s with
  | nil => rwa [show s = d₀ from hc]
  | cons e es ih =>
    have hstep := hcons e es hc.2.2 (ih hc.2.2) hc.2.1 (by rw [hc.1])
    rwa [hc.1] at hstep

/-- **The invariant rule for chronicles**, with the invariant at every executed command. -/
theorem Chronicle.strong_invariant {I : σ → List (Executed C R ι σ) → Prop} (hc : Chronicle h ok d₀ s es)
    (hnil : I d₀ [])
    (hcons : ∀ e es, Chronicle h ok d₀ e.before es → I e.before es →
      (∀ new r old, es = new ++ r :: old → I r.before old) → ok e es →
      I (h e.command e.before).2 (e :: es)) : I s es := by
  refine (hc.invariant (I := fun s es => I s es ∧ ∀ new r old, es = new ++ r :: old → I r.before old)
    ⟨hnil, fun new r old hsplit => ?_⟩ fun e es hc ih hok _ => ⟨hcons e es hc ih.1 ih.2 hok, ?_⟩).1
  · exact absurd hsplit (by simp)
  · intro new r old hsplit
    cases new with
    | nil =>
      obtain ⟨rfl, rfl⟩ := List.cons.inj hsplit
      exact ih.1
    | cons x new => exact ih.2 new r old (List.cons.inj hsplit).2

end Chronicles

/-- **A program that runs alone** continues a chronicle of its own commands. -/
theorem Prog.Obeys.chronicle {h : (c : C) → σ → R c × σ}
    {ok : Executed C R ι σ → List (Executed C R ι σ) → Prop} {i : ι}
    {Q : α → List (Executed C R ι σ) → Prop} {p : Prog C R ε α} {past : List (Executed C R ι σ)}
    {d₀ s : σ} (hp : p.Obeys h ok i Q past)
    (hc : Chronicle h (fun e es => e.thread = i ∧ ok e es) d₀ s past) :
    ∃ es, Chronicle h (fun e es => e.thread = i ∧ ok e es) d₀ (p.eval h s).2 es := by
  induction p generalizing past s with
  | ret a => exact ⟨past, hc⟩
  | fail e => exact ⟨past, hc⟩
  | call c k ih => exact ih _ (hp s).2 ⟨rfl, ⟨rfl, (hp s).1⟩, hc⟩

section Own

variable [DecidableEq ι] {i : ι} {es xs ys : List (Executed C R ι σ)} {e : Executed C R ι σ}

@[simp] theorem own_nil : own i ([] : List (Executed C R ι σ)) = [] := rfl

theorem own_cons_of_ne (hne : e.thread ≠ i) : own i (e :: es) = own i es := by
  simp [own, hne]

/-- An event of a thread splits all events into newer and older ones. -/
theorem split_of_own (h : own i es = xs ++ e :: ys) :
    ∃ new old, es = new ++ e :: old ∧ own i new = xs ∧ own i old = ys := by
  obtain ⟨new, rest, rfl, hnew, hrest⟩ := List.filter_eq_append_iff.mp h
  obtain ⟨new', old, rfl, hnone, -, hold⟩ := List.filter_eq_cons_iff.mp hrest
  refine ⟨new ++ new', old, by simp, ?_, hold⟩
  rw [own, List.filter_append, hnew, List.filter_eq_nil_iff.mpr hnone, List.append_nil]

theorem split_of_own_cons (h : own i es = e :: ys) :
    ∃ new old, es = new ++ e :: old ∧ own i new = [] ∧ own i old = ys :=
  split_of_own (show own i es = [] ++ e :: ys from h)

end Own

/-- **A run of programs that obey a rule is a chronicle**, and every thread still obeys it. -/
theorem chronicle_of_run [DecidableEq ι] {h : (c : C) → σ → R c × σ}
    {ok : Executed C R ι σ → List (Executed C R ι σ) → Prop}
    {Q : ι → α → List (Executed C R ι σ) → Prop} {P : ι → C → σ × List (Executed C R ι σ) → Prop}
    {p : ι → Prog C R ε α} {d₀ : σ} {is : List ι} {c : Config C R ε α ι (σ × List (Executed C R ι σ))}
    (hp : ∀ i, (p i).Obeys h ok i (Q i) [])
    (hr : (⟨(d₀, []), p⟩ : Config C R ε α ι _).run (Machine.ofHandler h).observed is = some c)
    (ha : (⟨(d₀, []), p⟩ : Config C R ε α ι _).Admitted (Machine.ofHandler h).observed P is) :
    Chronicle h (fun e es => ok e (own e.thread es) ∧ P e.thread e.command (e.before, es)) d₀
        c.shared.1 c.shared.2 ∧
      ∀ i, (c.threads i).Obeys h ok i (Q i) (own i c.shared.2) := by
  have hstart : Chronicle h
      (fun e es => ok e (own e.thread es) ∧ P e.thread e.command (e.before, es)) d₀ d₀ [] := rfl
  refine Config.run_invariant (M := (Machine.ofHandler h).observed.restrict P)
    (I := fun c => Chronicle h
      (fun e es => ok e (own e.thread es) ∧ P e.thread e.command (e.before, es)) d₀ c.shared.1
        c.shared.2 ∧ ∀ i, (c.threads i).Obeys h ok i (Q i) (own i c.shared.2))
    ?_ (c := ⟨(d₀, []), p⟩) ⟨hstart, hp⟩ (Config.run_restrict hr ha)
  rintro i c c' ⟨hc, hall⟩ hs
  obtain ⟨cmd, k, r, t, hk, he, rfl⟩ := Config.step_eq_some.mp hs
  obtain ⟨hP, he⟩ := Machine.restrict_exec he
  obtain ⟨he, hes⟩ := Machine.observed_exec he
  obtain ⟨t, es⟩ := t
  obtain rfl : es = _ := hes
  have hexec : h cmd c.shared.1 = (r, t) := Option.some.inj he
  have hi := hall i
  rw [hk] at hi
  obtain ⟨hok, hrest⟩ := hi c.shared.1
  rw [hexec] at hok hrest
  refine ⟨⟨hexec, ⟨hok, hP⟩, hc⟩, fun j => ?_⟩
  -- the thread that moved goes on from its reply, and the others have seen nothing
  by_cases hj : j = i
  · subst hj
    simpa using hrest
  · show (Function.update c.threads i (k r) j).Obeys h ok j (Q j) (own j (_ :: c.shared.2))
    rw [Function.update_of_ne hj, own_cons_of_ne (Ne.symm hj)]
    exact hall j

end Concurrency
