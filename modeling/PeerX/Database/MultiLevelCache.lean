import PeerX.Foundations.Program
import Mathlib.Data.Rat.Cast.Order
import Mathlib.Logic.Function.Basic

/-!
# Multi-level cache: the service

A value is kept on three Redis levels, each for its own time. A read asks them in turn, and writes a
value that it finds on a lower level back to the levels above it, for a fixed time. A value is
stored as its JSON text.
-/

namespace LevelCache

open Concurrency

/-- Values and their JSON texts. The empty text stands for a value that has none. A value that
was read from the text of another one is itself read from its text. -/
structure JsonCodec (V : Type) where
  stringify : V → String
  parse : String → Option V
  reread : ∀ value value', stringify value ≠ "" → parse (stringify value) = some value' →
    stringify value' ≠ "" ∧ parse (stringify value') = some value'

namespace JsonCodec

variable {V : Type} (J : JsonCodec V)

/-- `value ? JSON.parse(value) : undefined`, and `undefined` when the text is not one of JSON. -/
def read (text : String) : Option V := if text = "" then none else J.parse text

/-- The value that is read from the text of a value. -/
def readBack (value : V) : Option V := J.read (J.stringify value)

variable {J}

theorem readBack_of_read {value value' : V} (h : J.readBack value = some value') : J.readBack value' = some value' := by
  rw [readBack, read] at h
  split at h
  · cases h
  next hne =>
    obtain ⟨hne', hparse⟩ := J.reread value value' hne h
    rw [readBack, read, if_neg hne', hparse]

end JsonCodec

/-- The booleans and their texts. -/
def booleans : JsonCodec Bool where
  stringify value := if value then "true" else "false"
  parse text := if text = "true" then some true else if text = "false" then some false else none
  reread := by decide

/-- The three levels. -/
inductive CacheLevel where
  | l1 | l2 | l3
deriving DecidableEq

/-- A command failed. -/
structure RedisError where
  message : String

inductive RedisCommand where
  | get (level : CacheLevel) (key : String)
  | setex (level : CacheLevel) (key : String) (ttl : ℤ) (text : String)
  | set (level : CacheLevel) (key text : String)
  | del (level : CacheLevel) (key : String)

abbrev RedisCommand.Reply : RedisCommand → Type
  | .get _ _ => Except RedisError (Option String)
  | .setex _ _ _ _ => Except RedisError Unit
  | .set _ _ _ => Except RedisError Unit
  | .del _ _ => Except RedisError Unit

/-- The reply to a command that failed. -/
def RedisCommand.failed (error : RedisError) : (c : RedisCommand) → c.Reply
  | .get _ _ => .error error
  | .setex _ _ _ _ => .error error
  | .set _ _ _ => .error error
  | .del _ _ => .error error

/-- A text with the time at which it is dropped, if there is one. -/
structure Entry where
  text : String
  expires : Option ℚ
deriving DecidableEq

/-- The entry has not been dropped. -/
def Entry.live (now : ℚ) (entry : Entry) : Bool := entry.expires.all fun expires => now < expires

/-- The entries of the levels. -/
abbrev Levels : Type := CacheLevel → String → Option Entry

/-- The levels with another entry. -/
def Levels.put (s : Levels) (level : CacheLevel) (key : String) (entry : Option Entry) : Levels :=
  Function.update s level (Function.update (s level) key entry)

/-- The text of a key at a time. -/
def Levels.lookup (now : ℚ) (s : Levels) (level : CacheLevel) (key : String) : Option String :=
  ((s level key).filter (Entry.live now)).map Entry.text

/-- What a command does at a time. -/
def RedisCommand.exec (now : ℚ) : (c : RedisCommand) → Levels → c.Reply × Levels
  | .get level key, s => (.ok (s.lookup now level key), s)
  | .setex level key ttl text, s => (.ok (), s.put level key (some ⟨text, some (now + ttl)⟩))
  | .set level key text, s => (.ok (), s.put level key (some ⟨text, none⟩))
  | .del level key, s => (.ok (), s.put level key none)

/-- A program of the service, in which every exception is caught. -/
abbrev CacheProg (α : Type) : Type := Prog RedisCommand RedisCommand.Reply Empty α

variable {V : Type} (J : JsonCodec V)

/-- `getFromLevel`. A command that fails is answered by `undefined`. -/
def getFromLevel (level : CacheLevel) (key : String) : CacheProg (Option V) :=
  .call (.get level key) fun reply =>
    match reply with
    | .ok value => .ret (value.bind J.read)
    | .error _ => .ret none

def setToLevel (level : CacheLevel) (key : String) (value : V) (ttl : ℤ) : CacheProg Unit :=
  if 0 < ttl then .call (.setex level key ttl (J.stringify value)) fun _ => .ret ()
  else .call (.set level key (J.stringify value)) fun _ => .ret ()

def get (key : String) : CacheProg (Option V) := do
  match ← getFromLevel J .l1 key with
  | some l1Result => return some l1Result
  | none =>
    match ← getFromLevel J .l2 key with
    | some l2Result =>
      setToLevel J .l1 key l2Result 60
      return some l2Result
    | none =>
      match ← getFromLevel J .l3 key with
      | some l3Result =>
        setToLevel J .l2 key l3Result 300
        setToLevel J .l1 key l3Result 60
        return some l3Result
      | none => return none

/-- `ttl || defaultTTLs.L3`. -/
def finalTTL : Option ℤ → ℤ
  | none => 3600
  | some ttl => if ttl = 0 then 3600 else ttl

/-- The time for which a level keeps a value. -/
def levelTTL (ttl : Option ℤ) : CacheLevel → ℤ
  | .l1 => min (finalTTL ttl) 60
  | .l2 => min (finalTTL ttl) 300
  | .l3 => finalTTL ttl

/-- `set`, on each level. -/
def set (key : String) (value : V) (ttl : Option ℤ) (level : CacheLevel) : CacheProg Unit :=
  setToLevel J level key value (levelTTL ttl level)

/-- `del`, on each level. -/
def del (key : String) (level : CacheLevel) : CacheProg Unit := .call (.del level key) fun _ => .ret ()

/-- A call of the service. -/
inductive CacheCall (V : Type) where
  | get (key : String)
  | set (key : String) (value : V) (ttl : Option ℤ)
  | del (key : String)

def CacheCall.key : CacheCall V → String
  | .get key => key
  | .set key _ _ => key
  | .del key => key

/-- The result of a program that cannot fail. -/
def settled {α : Type} : Except Empty α → α
  | .ok a => a
  | .error e => e.elim

/-- `Promise.allSettled`, for one program on each level. -/
def allSettled (now : ℚ) (programs : CacheLevel → CacheProg Unit) (s : Levels) : Levels :=
  [CacheLevel.l1, .l2, .l3].foldl (fun s level => ((programs level).eval (RedisCommand.exec now) s).2) s

/-- A call whose commands are executed at one time: its result, and the levels after it. -/
def perform (now : ℚ) : CacheCall V → Levels → Option V × Levels
  | .get key, s =>
    let r := (get J key).eval (RedisCommand.exec now) s
    (settled r.1, r.2)
  | .set key value ttl, s => (none, allSettled now (set J key value ttl) s)
  | .del key, s => (none, allSettled now (del key) s)

/-- The value that a level has for a key at a time. -/
def valueAt (now : ℚ) (s : Levels) (level : CacheLevel) (key : String) : Option V :=
  (s.lookup now level key).bind J.read

/-- The entry of a value that is stored at a time. -/
def entryOf (now : ℚ) (value : V) (ttl : ℤ) : Entry :=
  ⟨J.stringify value, if 0 < ttl then some (now + ttl) else none⟩

variable {J} {now : ℚ} {s : Levels} {level level' : CacheLevel} {key key' : String}

theorem put_self (entry : Option Entry) : s.put level key entry level key = entry := by
  simp [Levels.put]

theorem put_of_ne_level (entry : Option Entry) (h : level' ≠ level) : s.put level key entry level' = s level' := by
  simp [Levels.put, Function.update_of_ne h]

theorem put_of_ne_key (entry : Option Entry) (h : key' ≠ key) : s.put level key entry level' key' = s level' key' := by
  by_cases hlevel : level' = level
  · subst hlevel
    simp [Levels.put, Function.update_of_ne h]
  · rw [put_of_ne_level entry hlevel]

/-- What `setToLevel` does at a time. -/
theorem eval_setToLevel (value : V) (ttl : ℤ) (s : Levels) :
    (setToLevel J level key value ttl).eval (RedisCommand.exec now) s =
      (.ok (), s.put level key (some (entryOf J now value ttl))) := by
  rw [setToLevel, entryOf]
  split
  · rfl
  · rfl

/-- What `get` does at a time. -/
theorem perform_get (s : Levels) (key : String) :
    perform J now (.get key) s =
      match valueAt J now s .l1 key, valueAt J now s .l2 key, valueAt J now s .l3 key with
      | some value, _, _ => (some value, s)
      | none, some value, _ => (some value, s.put .l1 key (some (entryOf J now value 60)))
      | none, none, some value => (some value, (s.put .l2 key (some (entryOf J now value 300))).put .l1 key
          (some (entryOf J now value 60)))
      | none, none, none => (none, s) := by
  have hlevel : ∀ level, (getFromLevel J level key).eval (RedisCommand.exec now) s =
      (.ok (valueAt J now s level key), s) := fun level => rfl
  rw [perform, get]
  cases h₁ : valueAt J now s .l1 key with
  | some value => simp [Prog.eval_bind, hlevel, h₁, settled]
  | none =>
    cases h₂ : valueAt J now s .l2 key with
    | some value => simp [Prog.eval_bind, hlevel, h₁, h₂, eval_setToLevel, settled, Except.map]
    | none =>
      cases h₃ : valueAt J now s .l3 key with
      | some value => simp [Prog.eval_bind, hlevel, h₁, h₂, h₃, eval_setToLevel, settled, Except.map]
      | none => simp [Prog.eval_bind, hlevel, h₁, h₂, h₃, settled]

/-- Programs that put one entry for the key on each level. -/
theorem allSettled_put {programs : CacheLevel → CacheProg Unit} (entry : CacheLevel → Option Entry)
    (h : ∀ level s, ((programs level).eval (RedisCommand.exec now) s).2 = s.put level key (entry level)) (s : Levels)
    (level : CacheLevel) (key' : String) :
    allSettled now programs s level key' = if key' = key then entry level else s level key' := by
  simp only [allSettled, List.foldl_cons, List.foldl_nil, h]
  split
  next hkey =>
    subst hkey
    cases level <;> simp [Levels.put]
  next hkey => rw [put_of_ne_key _ hkey, put_of_ne_key _ hkey, put_of_ne_key _ hkey]

/-- What `set` does at a time. -/
theorem perform_set (value : V) (ttl : Option ℤ) (s : Levels) (level : CacheLevel) (key' : String) :
    (perform J now (.set key value ttl) s).2 level key' =
      if key' = key then some (entryOf J now value (levelTTL ttl level)) else s level key' := by
  refine allSettled_put (fun level => some (entryOf J now value (levelTTL ttl level))) (fun level s => ?_) s level key'
  rw [set, eval_setToLevel]

/-- What `del` does at a time. -/
theorem perform_del (s : Levels) (level : CacheLevel) (key' : String) :
    (perform J now (.del key) s).2 level key' = if key' = key then none else s level key' := by
  have hdel : ∀ level s, ((del key level).eval (RedisCommand.exec now) s).2 = s.put level key none := fun _ _ => rfl
  exact allSettled_put (fun _ => none) hdel s level key'

end LevelCache
