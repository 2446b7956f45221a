import PeerX.Foundations.JsMap
import PeerX.Foundations.JsNumber
import PeerX.Foundations.Runs

/-!
# Common: the replay guard

A request carries a nonce and the time at which the client made it. The guard admits it when this
time is near the clock and the nonce is not remembered. The nonces are forgotten when there are many
of them and their times are past, so a nonce is forgotten only when its time is refused from then
on. This holds of a time that was in the future as well.

## Main results

* `canActivate_eq_ok_iff`: the requests that are admitted
* `Remembered.serve`: each request keeps the invariant
* `admitted_at_most_once`: of the requests with the same nonce and the same time, at most one is
  admitted
-/

namespace Replay

open Arithmetic Concurrency Relational

def nonceTtlMs : ℚ := 5 * 60 * 1000

def maxCacheSize : ℕ := 10000

/-- How results of arithmetic are rounded: to the numbers that there are, in their order. -/
structure Rounding where
  round : ℚ → ℚ
  monotone : ∀ a b, a ≤ b → round a ≤ round b

/-- No rounding. -/
def Rounding.exact : Rounding where
  round := id
  monotone := fun _ _ h => h

/-- `now - timestamp`. -/
def elapsed (rounding : Rounding) (now : ℤ) : JsNumber → JsNumber
  | .num timestamp => .num (rounding.round (now - timestamp))
  | .inf negative => .inf !negative
  | .nan => .nan

def abs : JsNumber → JsNumber
  | .num a => .num |a|
  | .inf _ => .inf false
  | .nan => .nan

/-- `> NONCE_TTL_MS`. -/
def exceedsTtl : JsNumber → Bool
  | .num a => nonceTtlMs < a
  | .inf negative => !negative
  | .nan => false

/-- A request: its headers, and the clock when the guard handles it. -/
structure Request where
  nonce : Option String
  timestampHeader : Option String
  now : ℤ
deriving DecidableEq

/-- The nonces that the guard remembers, with their times. -/
abbrev Seen : Type := JsMap String JsNumber

def evictExpired (rounding : Rounding) (seen : Seen) (now : ℤ) : Seen :=
  if seen.size < maxCacheSize then seen
  else seen.deleteAll ((seen.entries.filter fun entry => exceedsTtl (elapsed rounding now entry.2)).map Prod.fst)

/-- `canActivate`: the nonces that are remembered when the request is admitted, or the message
of the exception. `number` is the conversion of a text to a number. -/
def canActivate (rounding : Rounding) (number : String → JsNumber) (seen : Seen) (request : Request) :
    Except String Seen :=
  match request.nonce.filter (· ≠ ""), request.timestampHeader.filter (· ≠ "") with
  | some nonce, some timestampHeader =>
    let timestamp := number timestampHeader
    if timestamp = .nan then .error "x-request-timestamp must be a Unix epoch in milliseconds."
    else if exceedsTtl (abs (elapsed rounding request.now timestamp)) then
      .error "Request timestamp is outside the acceptable window."
    else if seen.has nonce then .error "Duplicate nonce detected — possible replay attack."
    else .ok ((evictExpired rounding seen request.now).set nonce timestamp)
  | _, _ => .error "Missing replay-protection headers (x-request-nonce, x-request-timestamp)."

/-- The guard, and the requests that it admitted, the last one first. -/
structure GuardState where
  seen : Seen
  admitted : List Request

def GuardState.new : GuardState where
  seen := JsMap.new
  admitted := []

/-- **A request at the guard.** A refused request changes nothing. -/
def GuardState.serve (rounding : Rounding) (number : String → JsNumber) (s : GuardState) (request : Request) :
    GuardState :=
  match canActivate rounding number s.seen request with
  | .ok seen => { seen := seen, admitted := request :: s.admitted }
  | .error _ => s

/-- The request carries the nonce and the time. -/
def Carries (number : String → JsNumber) (nonce : String) (timestamp : JsNumber) (request : Request) : Prop :=
  request.nonce = some nonce ∧ request.timestampHeader.map number = some timestamp

instance (number : String → JsNumber) (nonce : String) (timestamp : JsNumber) :
    DecidablePred (Carries number nonce timestamp) :=
  fun _ => inferInstanceAs (Decidable (_ ∧ _))

variable {rounding : Rounding} {number : String → JsNumber}

theorem exceedsTtl_elapsed_mono {now now' : ℤ} (hle : now ≤ now') {timestamp : JsNumber}
    (h : exceedsTtl (elapsed rounding now timestamp)) : exceedsTtl (elapsed rounding now' timestamp) := by
  cases timestamp with
  | num timestamp =>
    have hcast : (now : ℚ) ≤ (now' : ℚ) := Int.cast_le.mpr hle
    have hround := rounding.monotone _ _ (sub_le_sub_right hcast timestamp)
    exact decide_eq_true ((of_decide_eq_true h).trans_le hround)
  | inf negative => exact h
  | nan => exact h

theorem exceedsTtl_abs {a : JsNumber} (h : exceedsTtl a) : exceedsTtl (abs a) := by
  cases a with
  | num a => exact decide_eq_true ((of_decide_eq_true h).trans_le (le_abs_self a))
  | inf negative => rfl
  | nan => exact h

theorem get_evictExpired {seen : Seen} {now : ℤ} {nonce : String} {timestamp : JsNumber}
    (h : seen.get nonce = some timestamp) :
    (evictExpired rounding seen now).get nonce = some timestamp ∨ exceedsTtl (elapsed rounding now timestamp) := by
  rw [evictExpired]
  split
  · exact .inl h
  · rw [JsMap.get_deleteAll]
    split
    · next hmem =>
      -- the entry that goes is the one of the nonce, as keys are distinct
      obtain ⟨entry, hentry, rfl⟩ := List.mem_map.mp hmem
      obtain ⟨hin, hpast⟩ := List.mem_filter.mp hentry
      have hget := JsMap.mem_entries.mp hin
      obtain rfl : entry.2 = timestamp := Option.some.inj (hget.symm.trans h)
      exact .inr hpast
    · exact .inl h

/-- **The requests that are admitted.** -/
theorem canActivate_eq_ok_iff {seen seen' : Seen} {request : Request} :
    canActivate rounding number seen request = .ok seen' ↔
      ∃ nonce timestamp, Carries number nonce timestamp request ∧
        (nonce ≠ "" ∧ request.timestampHeader ≠ some "" ∧ timestamp ≠ .nan) ∧
        exceedsTtl (abs (elapsed rounding request.now timestamp)) = false ∧ seen.has nonce = false ∧
        (evictExpired rounding seen request.now).set nonce timestamp = seen' := by
  obtain ⟨nonce, timestampHeader, now⟩ := request
  cases nonce with
  | none => simp [canActivate, Carries]
  | some nonce =>
    cases timestampHeader with
    | none =>
      by_cases hnonce : nonce = "" <;> simp [canActivate, Carries, Option.filter, hnonce]
    | some timestampHeader =>
      by_cases hnonce : nonce = ""
      · simp [canActivate, Carries, Option.filter, hnonce]
      by_cases hheader : timestampHeader = ""
      · simp [canActivate, Carries, Option.filter, hnonce, hheader]
      by_cases hnan : number timestampHeader = .nan
      · simp [canActivate, Carries, Option.filter, hnonce, hheader, hnan]
      cases hwindow : exceedsTtl (abs (elapsed rounding now (number timestampHeader)))
      · cases hseen : seen.has nonce <;>
          simp [canActivate, Carries, Option.filter, hnonce, hheader, hnan, hwindow, hseen]
      · simp [canActivate, Carries, Option.filter, hnonce, hheader, hnan, hwindow]

theorem Carries.unique {nonce nonce' : String} {timestamp timestamp' : JsNumber} {request : Request}
    (h : Carries number nonce timestamp request) (h' : Carries number nonce' timestamp' request) :
    nonce' = nonce ∧ timestamp' = timestamp :=
  ⟨Option.some.inj (h'.1.symm.trans h.1), Option.some.inj (h'.2.symm.trans h.2)⟩

/-- What the guard remembers at a time of the clock: the time of an admitted request is past, or
stands under its nonce; and no two admitted requests carry the same. -/
structure Remembered (rounding : Rounding) (number : String → JsNumber) (now : ℤ) (s : GuardState) : Prop where
  kept : ∀ request ∈ s.admitted, ∀ nonce timestamp, Carries number nonce timestamp request →
    s.seen.get nonce = some timestamp ∨ exceedsTtl (elapsed rounding now timestamp)
  once : s.admitted.Pairwise fun request earlier =>
    ∀ nonce timestamp, Carries number nonce timestamp request → ¬ Carries number nonce timestamp earlier

theorem Remembered.new (now : ℤ) : Remembered rounding number now .new :=
  ⟨fun _ h => absurd h List.not_mem_nil, List.Pairwise.nil⟩

theorem Remembered.later {now now' : ℤ} {s : GuardState} (h : Remembered rounding number now s) (hle : now ≤ now') :
    Remembered rounding number now' s := by
  refine ⟨fun request hrequest nonce timestamp hcarries => ?_, h.once⟩
  exact (h.kept request hrequest nonce timestamp hcarries).imp_right (exceedsTtl_elapsed_mono hle)

/-- **A request keeps the invariant.** -/
theorem Remembered.serve {s : GuardState} {request : Request} (h : Remembered rounding number request.now s) :
    Remembered rounding number request.now (s.serve rounding number request) := by
  rw [GuardState.serve]
  cases hanswer : canActivate rounding number s.seen request with
  | error message => exact h
  | ok seen =>
    obtain ⟨nonce, timestamp, hcarries, -, hwindow, hnew, rfl⟩ := canActivate_eq_ok_iff.mp hanswer
    have hget : s.seen.get nonce = none := by
      rw [JsMap.has, Option.isSome_eq_false_iff, Option.isNone_iff_eq_none] at hnew
      exact hnew
    constructor
    · intro other hother nonce' timestamp' hcarries'
      rcases List.mem_cons.mp hother with rfl | hother
      · obtain ⟨rfl, rfl⟩ := hcarries.unique hcarries'
        exact .inl (JsMap.get_set_self _ _ _)
      · rcases h.kept other hother nonce' timestamp' hcarries' with hkept | hpast
        · -- the nonce is another one, as the nonce of the request was not remembered
          have hne : nonce' ≠ nonce := by
            rintro rfl
            exact absurd (hkept.symm.trans hget) (Option.some_ne_none _)
          rw [JsMap.get_set_of_ne _ hne]
          exact get_evictExpired hkept
        · exact .inr hpast
    · refine List.pairwise_cons.mpr ⟨fun earlier hearlier nonce' timestamp' hcarries' hsame => ?_, h.once⟩
      obtain ⟨rfl, rfl⟩ := hcarries.unique hcarries'
      rcases h.kept earlier hearlier _ _ hsame with hkept | hpast
      · exact absurd (hkept.symm.trans hget) (Option.some_ne_none _)
      · exact absurd (hwindow.symm.trans (exceedsTtl_abs hpast)) Bool.false_ne_true

theorem Remembered.run {requests : List Request} {now : ℤ} {s : GuardState}
    (hclock : (requests.map Request.now).Pairwise (· ≤ ·)) (hnow : ∀ request ∈ requests, now ≤ request.now)
    (h : Remembered rounding number now s) :
    ∃ now', Remembered rounding number now' (run (GuardState.serve rounding number) s requests) := by
  induction requests generalizing now s with
  | nil => exact ⟨now, h⟩
  | cons request requests ih =>
    obtain ⟨hfirst, hclock⟩ := List.pairwise_cons.mp hclock
    have hserve := (h.later (hnow request List.mem_cons_self)).serve
    exact ih hclock (fun other hother => hfirst _ (List.mem_map_of_mem hother)) hserve

/-- Those of a list that carry the same are not more than one. -/
theorem length_filter_le_one {requests : List Request} {nonce : String} {timestamp : JsNumber}
    (h : requests.Pairwise fun request earlier =>
      ∀ nonce timestamp, Carries number nonce timestamp request → ¬ Carries number nonce timestamp earlier) :
    (requests.filter fun request => Carries number nonce timestamp request).length ≤ 1 := by
  have hpair := h.filter fun request => Carries number nonce timestamp request
  cases hfilter : requests.filter fun request => Carries number nonce timestamp request with
  | nil => exact Nat.zero_le 1
  | cons first rest =>
    cases rest with
    | nil => exact Nat.le_refl 1
    | cons second rest =>
      have hcarries : ∀ request ∈ first :: second :: rest, Carries number nonce timestamp request := by
        intro request hrequest
        rw [← hfilter] at hrequest
        exact of_decide_eq_true (List.mem_filter.mp hrequest).2
      rw [hfilter] at hpair
      have hnot := (List.pairwise_cons.mp hpair).1 second List.mem_cons_self
      exact absurd (hcarries second (by simp)) (hnot nonce timestamp (hcarries first List.mem_cons_self))

/-- **Of the requests with the same nonce and the same time, at most one is admitted**, while the
clock does not go back. -/
theorem admitted_at_most_once (rounding : Rounding) (number : String → JsNumber) (requests : List Request)
    (hclock : (requests.map Request.now).Pairwise (· ≤ ·)) (nonce : String) (timestamp : JsNumber) :
    ((run (GuardState.serve rounding number) .new requests).admitted.filter fun request =>
      Carries number nonce timestamp request).length ≤ 1 := by
  cases requests with
  | nil => exact Nat.zero_le 1
  | cons request requests =>
    have hnow : ∀ other ∈ request :: requests, request.now ≤ other.now := by
      intro other hother
      rcases List.mem_cons.mp hother with rfl | hother
      · exact Int.le_refl _
      · exact (List.pairwise_cons.mp hclock).1 _ (List.mem_map_of_mem hother)
    have hnew : Remembered rounding number request.now .new := Remembered.new request.now
    obtain ⟨now, hremembered⟩ := Remembered.run hclock hnow hnew
    exact length_filter_le_one hremembered.once

/-- A request from the future that comes again. -/
theorem admitted_at_most_once_again :
    ((run (GuardState.serve .exact fun _ => .num 200000) .new
      [⟨some "nonce", some "200000", 0⟩, ⟨some "nonce", some "200000", 400000⟩]).admitted.filter fun request =>
      Carries (fun _ => .num 200000) "nonce" (.num 200000) request).length ≤ 1 :=
  admitted_at_most_once .exact (fun _ => .num 200000)
    [⟨some "nonce", some "200000", 0⟩, ⟨some "nonce", some "200000", 400000⟩] (by simp) "nonce" (.num 200000)

end Replay
