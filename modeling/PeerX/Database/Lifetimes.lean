import PeerX.Database.MultiLevelCache
import PeerX.Foundations.Runs
import Mathlib.Tactic.Linarith

/-!
# Multi-level cache: lifetimes

The calls are made one at a time. What a read returns is always the value of the latest `set`, as
long as that one lives. It can still return it later: a value that is written back to a level gets a
fixed time there, whatever is left of its own. It never does exactly when every read that writes a
value back does so early enough.

## Main results

* `Kept.step`: what the levels keep of the latest `set`
* `expires_step_iff`: what each call does to the lifetimes
* `fresh_throughout_iff`: the runs in which no value outlives its time
-/

namespace LevelCache

open Concurrency

variable {V : Type}

/-- A call, some time after the one before it. -/
structure TimedCall (V : Type) where
  wait : ℚ
  wait_nonneg : 0 ≤ wait
  call : CacheCall V

/-- A value that was stored, when, and for how long. -/
structure Stored (V : Type) where
  value : V
  time : ℚ
  lifetime : ℤ

/-- When the value ends. -/
def Stored.deadline (stored : Stored V) : ℚ := stored.time + stored.lifetime

/-- The cache, the time, and the latest `set` of each key that was not deleted. -/
structure CacheRun (V : Type) where
  now : ℚ
  levels : Levels
  latest : String → Option (Stored V)

/-- The latest `set` of each key, after a call. -/
def latestAfter (now : ℚ) (latest : String → Option (Stored V)) : CacheCall V → String → Option (Stored V)
  | .get _ => latest
  | .set key value ttl => Function.update latest key (some ⟨value, now, finalTTL ttl⟩)
  | .del key => Function.update latest key none

variable (J : JsonCodec V)

/-- **One call.** -/
def step (s : CacheRun V) (e : TimedCall V) : CacheRun V where
  now := s.now + e.wait
  levels := (perform J (s.now + e.wait) e.call s.levels).2
  latest := latestAfter (s.now + e.wait) s.latest e.call

/-- The empty cache. -/
def CacheRun.start (now : ℚ) : CacheRun V := ⟨now, fun _ _ => none, fun _ => none⟩

/-- What a read returns at a time. -/
def returns (now : ℚ) (s : CacheRun V) (key : String) : Option V := (perform J now (.get key) s.levels).1

/-- A read returns the value of the latest `set`, and only while that one lives, at any time
from now on. -/
structure Fresh (s : CacheRun V) : Prop where
  living : ∀ key now value, s.now ≤ now → returns J now s key = some value → ∃ stored, s.latest key = some stored ∧
    J.readBack stored.value = some value ∧ (0 < stored.lifetime → now < stored.deadline)
  returned : ∀ key now stored, s.now ≤ now → s.latest key = some stored → now < stored.deadline →
    returns J now s key = J.readBack stored.value

/-- A value that is written back lives long enough: sixty seconds when it is found on the second
level, and three hundred when it is found on the third one. -/
def Timely (s : CacheRun V) (e : TimedCall V) : Prop :=
  match e.call with
  | .get key => ∀ stored, s.latest key = some stored → 0 < stored.lifetime →
      valueAt J (s.now + e.wait) s.levels .l1 key = none →
        ((valueAt J (s.now + e.wait) s.levels .l2 key).isSome → s.now + e.wait + 60 ≤ stored.deadline) ∧
        (valueAt J (s.now + e.wait) s.levels .l2 key = none → (valueAt J (s.now + e.wait) s.levels .l3 key).isSome →
          s.now + e.wait + 300 ≤ stored.deadline)
  | _ => True

/-! ## What the levels keep -/

/-- What the levels keep of the latest `set` of a key: its value only, and the third level for
as long as it lives. -/
structure Kept (s : CacheRun V) (key : String) : Prop where
  value : ∀ level entry, s.levels level key = some entry →
    ∃ stored, s.latest key = some stored ∧ J.read entry.text = J.readBack stored.value
  third : ∀ stored, s.latest key = some stored →
    s.levels .l3 key = some (entryOf J stored.time stored.value stored.lifetime)

/-- No level has the key after its deadline. -/
def Expires (s : CacheRun V) (key : String) : Prop :=
  ∀ stored now level, s.latest key = some stored → 0 < stored.lifetime → s.now ≤ now → stored.deadline ≤ now →
    valueAt J now s.levels level key = none

variable {J} {s s' : CacheRun V} {e : TimedCall V} {now : ℚ} {key : String} {value : V} {stored : Stored V}
  {levels : Levels} {level : CacheLevel}

theorem valueAt_of_some {entry : Entry} (h : levels level key = some entry) :
    valueAt J now levels level key = if entry.live now then J.read entry.text else none := by
  rw [valueAt, Levels.lookup, h]
  cases hlive : entry.live now <;> simp [Option.filter, hlive]

theorem live_entryOf {time : ℚ} {ttl : ℤ} :
    (entryOf J time value ttl).live now = true ↔ (0 < ttl → now < time + ttl) := by
  rw [entryOf, Entry.live]
  split
  next httl => simp [httl]
  next httl => simp [httl]

/-- A read returns a value exactly when some level has one. -/
theorem returns_isSome_iff : (returns J now s key).isSome ↔ ∃ level, (valueAt J now s.levels level key).isSome := by
  rw [returns, perform_get]
  cases h₁ : valueAt J now s.levels .l1 key with
  | some value => exact iff_of_true rfl ⟨.l1, by rw [h₁]; rfl⟩
  | none =>
    cases h₂ : valueAt J now s.levels .l2 key with
    | some value => exact iff_of_true rfl ⟨.l2, by rw [h₂]; rfl⟩
    | none =>
      cases h₃ : valueAt J now s.levels .l3 key with
      | some value => exact iff_of_true rfl ⟨.l3, by rw [h₃]; rfl⟩
      | none =>
        refine iff_of_false Bool.false_ne_true ?_
        rintro ⟨_ | _ | _, hsome⟩
        · rw [h₁] at hsome
          cases hsome
        · rw [h₂] at hsome
          cases hsome
        · rw [h₃] at hsome
          cases hsome

theorem exists_valueAt_of_returns (h : returns J now s key = some value) :
    ∃ level, valueAt J now s.levels level key = some value := by
  rw [returns, perform_get] at h
  split at h
  next found h₁ => exact ⟨.l1, h₁.trans h⟩
  next found h₁ h₂ => exact ⟨.l2, h₂.trans h⟩
  next found h₁ h₂ h₃ => exact ⟨.l3, h₃.trans h⟩
  next => cases h

/-- What a level has is the value of the latest `set`. -/
theorem Kept.valueAt_eq (hkept : Kept J s key) (h : valueAt J now s.levels level key = some value) :
    ∃ stored, s.latest key = some stored ∧ J.readBack stored.value = some value := by
  cases hentry : s.levels level key with
  | none =>
    rw [valueAt, Levels.lookup, hentry] at h
    cases h
  | some entry =>
    obtain ⟨stored, hlatest, htext⟩ := hkept.value level entry hentry
    rw [valueAt_of_some hentry] at h
    split at h
    · exact ⟨stored, hlatest, htext.symm.trans h⟩
    · cases h

/-- What a read returns is the value of the latest `set`. -/
theorem Kept.returns_eq (hkept : Kept J s key) (h : returns J now s key = some value) :
    ∃ stored, s.latest key = some stored ∧ J.readBack stored.value = some value := by
  obtain ⟨level, hvalue⟩ := exists_valueAt_of_returns h
  exact hkept.valueAt_eq hvalue

/-- The value of the latest `set` is returned as long as it lives. -/
theorem Kept.returns_of_living (hkept : Kept J s key) (hlatest : s.latest key = some stored)
    (hliving : now < stored.deadline) : returns J now s key = J.readBack stored.value := by
  cases hreturns : returns J now s key with
  | some value =>
    obtain ⟨stored', hlatest', hread⟩ := hkept.returns_eq hreturns
    obtain rfl := Option.some.inj (hlatest.symm.trans hlatest')
    exact hread.symm
  | none =>
    -- the third level still has its text, so nothing can be read from that
    have hvalue : valueAt J now s.levels .l3 key = J.readBack stored.value := by
      rw [valueAt_of_some (hkept.third stored hlatest), if_pos (live_entryOf.mpr fun _ => hliving)]
      rfl
    cases hread : J.readBack stored.value with
    | none => rfl
    | some value =>
      have hsome := returns_isSome_iff.mpr ⟨CacheLevel.l3, by rw [hvalue, hread]; rfl⟩
      rw [hreturns] at hsome
      cases hsome

/-- What reads return is fresh exactly when the levels drop every value in time. -/
theorem fresh_iff (hkept : ∀ key, Kept J s key) : Fresh J s ↔ ∀ key, Expires J s key := by
  constructor
  · intro hfresh key stored now level hlatest hlifetime hnow hdeadline
    by_contra hvalue
    obtain ⟨value, hreturns⟩ := Option.isSome_iff_exists.mp
      (returns_isSome_iff.mpr ⟨level, Option.isSome_iff_ne_none.mpr hvalue⟩)
    obtain ⟨stored', hlatest', -, hliving⟩ := hfresh.living key now value hnow hreturns
    obtain rfl := Option.some.inj (hlatest.symm.trans hlatest')
    exact absurd (hliving hlifetime) (not_lt.mpr hdeadline)
  · intro hexpires
    refine ⟨?_, fun key now stored _ hlatest hliving => (hkept key).returns_of_living hlatest hliving⟩
    intro key now value hnow hreturns
    obtain ⟨level, hvalue⟩ := exists_valueAt_of_returns hreturns
    obtain ⟨stored, hlatest, hread⟩ := (hkept key).valueAt_eq hvalue
    refine ⟨stored, hlatest, hread, fun hlifetime => ?_⟩
    by_contra hdeadline
    rw [hexpires key stored now level hlatest hlifetime hnow (not_lt.mp hdeadline)] at hvalue
    cases hvalue

/-! ## What a call does -/

/-- Some time passes. -/
def CacheRun.waited (s : CacheRun V) (wait : ℚ) : CacheRun V := { s with now := s.now + wait }

/-- A value is stored on one level. -/
def CacheRun.put (J : JsonCodec V) (s : CacheRun V) (level : CacheLevel) (key : String) (value : V) (ttl : ℤ) :
    CacheRun V :=
  { s with levels := s.levels.put level key (some (entryOf J s.now value ttl)) }

theorem CacheRun.levels_put_self (ttl : ℤ) :
    (s.put J level key value ttl).levels level key = some (entryOf J s.now value ttl) :=
  put_self _

theorem CacheRun.levels_put_of_ne {level' : CacheLevel} (ttl : ℤ) (h : level' ≠ level) :
    (s.put J level key value ttl).levels level' = s.levels level' :=
  put_of_ne_level _ h

/-- What a read does. -/
theorem step_get (h : e.call = .get key) : step J s e =
    match valueAt J (s.now + e.wait) s.levels .l1 key, valueAt J (s.now + e.wait) s.levels .l2 key,
      valueAt J (s.now + e.wait) s.levels .l3 key with
    | some _, _, _ => s.waited e.wait
    | none, some value, _ => (s.waited e.wait).put J .l1 key value 60
    | none, none, some value => ((s.waited e.wait).put J .l2 key value 300).put J .l1 key value 60
    | none, none, none => s.waited e.wait := by
  rw [step, h, perform_get]
  cases valueAt J (s.now + e.wait) s.levels .l1 key with
  | some value => rfl
  | none =>
    cases valueAt J (s.now + e.wait) s.levels .l2 key with
    | some value => rfl
    | none => cases valueAt J (s.now + e.wait) s.levels .l3 key <;> rfl

/-- What `set` does to its key. -/
theorem step_set {ttl : Option ℤ} (h : e.call = .set key value ttl) :
    (step J s e).latest key = some ⟨value, s.now + e.wait, finalTTL ttl⟩ ∧
      ∀ level, (step J s e).levels level key = some (entryOf J (s.now + e.wait) value (levelTTL ttl level)) := by
  refine ⟨?_, fun level => ?_⟩
  · simp [step, h, latestAfter]
  · simp [step, h, perform_set]

/-- What `del` does to its key. -/
theorem step_del (h : e.call = .del key) :
    (step J s e).latest key = none ∧ ∀ level, (step J s e).levels level key = none := by
  refine ⟨?_, fun level => ?_⟩
  · simp [step, h, latestAfter]
  · simp [step, h, perform_del]

/-- The other keys stay as they are. -/
theorem step_of_ne (h : key ≠ e.call.key) :
    (step J s e).latest key = s.latest key ∧ ∀ level, (step J s e).levels level key = s.levels level key := by
  cases hcall : e.call with
  | get key' =>
    rw [hcall] at h
    rw [step_get hcall]
    split <;> refine ⟨rfl, fun level => ?_⟩
    · rfl
    · exact put_of_ne_key _ h
    · exact (put_of_ne_key _ h).trans (put_of_ne_key _ h)
    · rfl
  | set key' value ttl =>
    rw [hcall] at h
    refine ⟨?_, fun level => ?_⟩
    · rw [step, hcall]
      exact Function.update_of_ne h ..
    · rw [step, hcall]
      exact (perform_set ..).trans (if_neg h)
  | del key' =>
    rw [hcall] at h
    refine ⟨?_, fun level => ?_⟩
    · rw [step, hcall]
      exact Function.update_of_ne h ..
    · rw [step, hcall]
      exact (perform_del (J := J) s.levels level key).trans (if_neg h)

/-! ### The values -/

theorem Kept.of_eq (hkept : Kept J s key) (hlatest : s'.latest key = s.latest key)
    (hlevels : ∀ level, s'.levels level key = s.levels level key) : Kept J s' key where
  value := by
    intro level entry hentry
    rw [hlatest]
    exact hkept.value level entry (hlevels level ▸ hentry)
  third := by
    intro stored hstored
    rw [hlevels]
    exact hkept.third stored (hlatest ▸ hstored)

/-- The value of the latest `set` is written back to one of the first two levels. -/
theorem Kept.put (hkept : Kept J s key) (hlevel : level ≠ .l3)
    (hvalue : ∃ stored, s.latest key = some stored ∧ J.readBack stored.value = some value) (ttl : ℤ) :
    Kept J (s.put J level key value ttl) key where
  value := by
    intro level' entry hentry
    by_cases hput : level' = level
    · subst hput
      rw [CacheRun.levels_put_self] at hentry
      obtain rfl := Option.some.inj hentry
      obtain ⟨stored, hlatest, hread⟩ := hvalue
      exact ⟨stored, hlatest, (JsonCodec.readBack_of_read hread).trans hread.symm⟩
    · rw [CacheRun.levels_put_of_ne ttl hput] at hentry
      exact hkept.value level' entry hentry
  third := by
    intro stored hlatest
    rw [CacheRun.levels_put_of_ne ttl (Ne.symm hlevel)]
    exact hkept.third stored hlatest

/-- **Every call keeps it.** -/
theorem Kept.step (hkept : Kept J s key) (e : TimedCall V) : Kept J (step J s e) key := by
  by_cases hkey : key = e.call.key
  · cases hcall : e.call with
    | get key' =>
      obtain rfl : key = key' := by rw [hkey, hcall]; rfl
      -- a read writes back what the levels below had, and that was the latest value
      have hwaited : Kept J (s.waited e.wait) key := hkept.of_eq rfl fun _ => rfl
      rw [step_get hcall]
      split
      · exact hwaited
      next value _ h₂ => exact hwaited.put (by decide) (hkept.valueAt_eq h₂) 60
      next value _ _ h₃ =>
        have hvalue := hkept.valueAt_eq h₃
        exact (hwaited.put (by decide) hvalue 300).put (by decide) hvalue 60
      · exact hwaited
    | set key' value ttl =>
      obtain rfl : key = key' := by rw [hkey, hcall]; rfl
      obtain ⟨hlatest, hlevels⟩ := step_set (J := J) (s := s) hcall
      refine ⟨?_, ?_⟩
      · intro level entry hentry
        rw [hlevels] at hentry
        obtain rfl := Option.some.inj hentry
        exact ⟨_, hlatest, rfl⟩
      · intro stored hstored
        obtain rfl := Option.some.inj (hlatest.symm.trans hstored)
        exact hlevels .l3
    | del key' =>
      obtain rfl : key = key' := by rw [hkey, hcall]; rfl
      obtain ⟨hlatest, hlevels⟩ := step_del (J := J) (s := s) hcall
      refine ⟨?_, ?_⟩
      · intro level entry hentry
        rw [hlevels] at hentry
        cases hentry
      · intro stored hstored
        rw [hlatest] at hstored
        cases hstored
  · obtain ⟨hlatest, hlevels⟩ := step_of_ne (J := J) (s := s) hkey
    exact hkept.of_eq hlatest hlevels

/-! ### The lifetimes -/

theorem Expires.of_eq (hexpires : Expires J s key) (hlatest : s'.latest key = s.latest key)
    (hlevels : ∀ level, s'.levels level key = s.levels level key) (hnow : s.now ≤ s'.now) : Expires J s' key := by
  intro stored now level hstored hlifetime hafter hdeadline
  rw [valueAt, Levels.lookup, hlevels]
  exact hexpires stored now level (hlatest ▸ hstored) hlifetime (hnow.trans hafter) hdeadline

/-- A value that is stored for a time that ends by its deadline. -/
theorem Expires.put (hexpires : Expires J s key) {ttl : ℤ} (httl : 0 < ttl)
    (hdeadline : ∀ stored, s.latest key = some stored → 0 < stored.lifetime → s.now + ttl ≤ stored.deadline) :
    Expires J (s.put J level key value ttl) key := by
  intro stored now level' hlatest hlifetime hnow hpassed
  by_cases hput : level' = level
  · subst hput
    rw [valueAt_of_some (CacheRun.levels_put_self ttl), if_neg]
    rw [live_entryOf]
    intro hlive
    exact absurd (hlive httl) (not_lt.mpr ((hdeadline stored hlatest hlifetime).trans hpassed))
  · rw [valueAt, Levels.lookup, CacheRun.levels_put_of_ne ttl hput]
    exact hexpires stored now level' hlatest hlifetime hnow hpassed

/-- A value that has just been stored has to be dropped by the deadline. -/
theorem Expires.le_deadline (hexpires : Expires J s key) {ttl : ℤ} (httl : 0 < ttl)
    (hentry : s.levels level key = some (entryOf J s.now value ttl)) (hread : J.readBack value = some value)
    (hlatest : s.latest key = some stored) (hlifetime : 0 < stored.lifetime) : s.now + ttl ≤ stored.deadline := by
  by_contra hlate
  -- a read at the deadline, or now if that is later, still finds it
  have hstored : s.now < s.now + ttl := lt_add_of_pos_right _ (Int.cast_pos.mpr httl)
  have hfound := hexpires stored (max s.now stored.deadline) level hlatest hlifetime (le_max_left ..) (le_max_right ..)
  rw [valueAt_of_some hentry, if_pos (live_entryOf.mpr fun _ => max_lt hstored (not_le.mp hlate))] at hfound
  rw [show J.read (entryOf J s.now value ttl).text = J.readBack value from rfl, hread] at hfound
  cases hfound

/-- What a read of the key does to its lifetimes. -/
theorem expires_get_iff (hcall : e.call = .get key) (hkept : Kept J s key) (hexpires : Expires J s key) :
    Expires J (step J s e) key ↔ Timely J s e := by
  have hwaited : Expires J (s.waited e.wait) key :=
    hexpires.of_eq rfl (fun _ => rfl) (le_add_of_nonneg_right e.wait_nonneg)
  have hread : ∀ {level value}, valueAt J (s.now + e.wait) s.levels level key = some value →
      J.readBack value = some value := by
    intro level value hvalue
    obtain ⟨stored, -, hread⟩ := hkept.valueAt_eq hvalue
    exact JsonCodec.readBack_of_read hread
  rw [step_get hcall, Timely, hcall]
  cases h₁ : valueAt J (s.now + e.wait) s.levels .l1 key with
  | some value =>
    refine iff_of_true hwaited fun stored _ _ hnone => ?_
    rw [h₁] at hnone
    cases hnone
  | none =>
    cases h₂ : valueAt J (s.now + e.wait) s.levels .l2 key with
    | some value =>
      constructor
      · intro hput stored hlatest hlifetime _
        refine ⟨fun _ => ?_, fun hnone => ?_⟩
        · exact hput.le_deadline (by decide) (CacheRun.levels_put_self 60) (hread h₂) hlatest hlifetime
        · rw [h₂] at hnone
          cases hnone
      · intro htimely
        refine hwaited.put (by decide) fun stored hlatest hlifetime => ?_
        exact (htimely stored hlatest hlifetime h₁).1 (by rw [h₂]; rfl)
    | none =>
      cases h₃ : valueAt J (s.now + e.wait) s.levels .l3 key with
      | some value =>
        constructor
        · intro hput stored hlatest hlifetime _
          refine ⟨fun hsome => ?_, fun _ _ => ?_⟩
          · rw [h₂] at hsome
            cases hsome
          · -- what is stored on the first level does not change the second one
            have hsecond : (((s.waited e.wait).put J .l2 key value 300).put J .l1 key value 60).levels .l2 key =
                some (entryOf J (s.now + e.wait) value 300) := by
              rw [CacheRun.levels_put_of_ne 60 (by decide)]
              exact CacheRun.levels_put_self 300
            exact hput.le_deadline (by decide) hsecond (hread h₃) hlatest hlifetime
        · intro htimely
          have hthird : ∀ stored, s.latest key = some stored → 0 < stored.lifetime →
              s.now + e.wait + 300 ≤ stored.deadline := fun stored hlatest hlifetime =>
            (htimely stored hlatest hlifetime h₁).2 h₂ (by rw [h₃]; rfl)
          refine (hwaited.put (by decide) hthird).put (by decide) fun stored hlatest hlifetime => ?_
          have hdeadline := hthird stored hlatest hlifetime
          change s.now + e.wait + 60 ≤ stored.deadline
          linarith
      | none =>
        refine iff_of_true hwaited fun stored _ _ _ => ⟨fun hsome => ?_, fun _ hsome => ?_⟩
        · rw [h₂] at hsome
          cases hsome
        · rw [h₃] at hsome
          cases hsome

theorem expires_set {ttl : Option ℤ} (hcall : e.call = .set key value ttl) : Expires J (step J s e) key := by
  obtain ⟨hlatest, hlevels⟩ := step_set (J := J) (s := s) hcall
  intro stored now level hstored hlifetime _ hdeadline
  obtain rfl := Option.some.inj (hlatest.symm.trans hstored)
  have hlevel : 0 < levelTTL ttl level ∧ levelTTL ttl level ≤ finalTTL ttl := by
    cases level with
    | l1 => exact ⟨lt_min hlifetime (by decide), min_le_left ..⟩
    | l2 => exact ⟨lt_min hlifetime (by decide), min_le_left ..⟩
    | l3 => exact ⟨hlifetime, le_refl _⟩
  rw [valueAt_of_some (hlevels level), if_neg]
  rw [live_entryOf]
  intro hlive
  have hpassed : s.now + e.wait + (levelTTL ttl level : ℚ) ≤ now :=
    (add_le_add_right (Int.cast_le.mpr hlevel.2) _).trans hdeadline
  exact absurd (hlive hlevel.1) (not_lt.mpr hpassed)

/-- **What each call does to the lifetimes.** -/
theorem expires_step_iff (hkept : ∀ key, Kept J s key) (hexpires : ∀ key, Expires J s key) (e : TimedCall V) :
    (∀ key, Expires J (step J s e) key) ↔ Timely J s e := by
  have hothers : ∀ key, key ≠ e.call.key → Expires J (step J s e) key := by
    intro key hkey
    obtain ⟨hlatest, hlevels⟩ := step_of_ne (J := J) (s := s) hkey
    exact (hexpires key).of_eq hlatest hlevels (le_add_of_nonneg_right e.wait_nonneg)
  have hone : (∀ key, Expires J (step J s e) key) ↔ Expires J (step J s e) e.call.key := by
    refine ⟨fun h => h _, fun h key => ?_⟩
    by_cases hkey : key = e.call.key
    · exact hkey ▸ h
    · exact hothers key hkey
  rw [hone]
  cases hcall : e.call with
  | get key => exact expires_get_iff hcall (hkept key) (hexpires key)
  | set key value ttl =>
    refine iff_of_true (expires_set hcall) ?_
    rw [Timely, hcall]
    trivial
  | del key =>
    refine iff_of_true (fun stored now level hlatest => ?_) ?_
    · cases (step_del hcall).1.symm.trans hlatest
    · rw [Timely, hcall]
      trivial

/-- **No value outlives its time exactly when every value that is written back lives long enough.**
That the value of the latest `set` is returned as long as it lives, holds in every run. -/
theorem fresh_throughout_iff (start : ℚ) (calls : List (TimedCall V)) :
    Throughout (step J) (Fresh J) (CacheRun.start start) calls ↔ Along (step J) (Timely J) (CacheRun.start start) calls := by
  have hkept : ∀ key, Kept J (CacheRun.start start) key := by
    intro key
    refine ⟨?_, ?_⟩
    · intro level entry hentry
      cases hentry
    · intro stored hstored
      cases hstored
  have hexpires : ∀ key, Expires J (CacheRun.start start) key := by
    intro key stored now level hlatest
    cases hlatest
  refine throughout_iff_along (I := fun s => ∀ key, Kept J s key) (fun s e h key => (h key).step e) ?_ hkept
    ((fresh_iff hkept).mpr hexpires)
  intro s e hkept hfresh
  rw [fresh_iff fun key => (hkept key).step e]
  exact expires_step_iff hkept ((fresh_iff hkept).mp hfresh) e

/-! ### A value that outlives its time -/

/-- A value is stored for 100 seconds, and read after 70 of them. -/
def storedAndRead : List (TimedCall Bool) :=
  [⟨0, le_refl _, .set "market_price:BTC" true (some 100)⟩, ⟨70, by decide, .get "market_price:BTC"⟩]

/-- **After 120 seconds the value is still returned**, because the read has stored it on the first
level for another sixty. -/
theorem value_outlives :
    returns booleans 120 (run (step booleans) (CacheRun.start 0) storedAndRead) "market_price:BTC" = some true ∧
      ¬ Throughout (step booleans) (Fresh booleans) (CacheRun.start 0) storedAndRead := by
  have hreturns : returns booleans 120 (run (step booleans) (CacheRun.start 0) storedAndRead) "market_price:BTC" =
      some true := by decide +kernel
  refine ⟨hreturns, fun hthroughout => ?_⟩
  obtain ⟨stored, hlatest, -, hliving⟩ := hthroughout.2.2.living "market_price:BTC" 120 true (by decide +kernel) hreturns
  obtain rfl : (⟨true, 0, 100⟩ : Stored Bool) = stored := by
    simpa [step, latestAfter, storedAndRead, CacheRun.start, finalTTL] using hlatest
  exact absurd (hliving (by decide)) (by decide +kernel)

end LevelCache
