import PeerX.Identity.Effects

/-!
# Identity: calls at the same time

Any number of calls take turns, one statement after the other, and the executed statements are kept.
A call acts on the row that it has read last.
-/

namespace Identity

open Concurrency Relational

/-- An executed statement. -/
abbrev AuthEvent (ι : Type) := Executed AuthCommand AuthCommand.Reply ι AuthDb

/-- The machine of the calls, with the executed statements kept. -/
def authMachine (ι : Type) : Machine AuthCommand AuthCommand.Reply ι (AuthDb × List (AuthEvent ι)) :=
  (Machine.ofHandler serve).observed

/-- The statement reads an account by its id. -/
def AuthCommand.readsById : AuthCommand → Bool
  | .findAuthById _ => true
  | _ => false

/-- The statement reads an account by its email. -/
def AuthCommand.readsByEmail : AuthCommand → Bool
  | .findAuthByEmail _ => true
  | _ => false

variable {ι : Type}

/-- The account that a statement has found. -/
def accountFound : AuthEvent ι → Option Auth
  | ⟨_, _, .findAuthById _, .ok auth⟩ => auth
  | ⟨_, _, .findAuthByEmail _, .ok auth⟩ => auth
  | _ => none

/-- The account that a call has read last, by a statement that meets `q`. -/
inductive HasRead (q : AuthCommand → Bool) (i : ι) (c : AuthCommand) (auth : Auth) : List (AuthEvent ι) → Prop
  | read {e older} (hthread : e.thread = i) (hcommand : e.command = c) (hq : q c = true)
    (hfound : accountFound e = some auth) : HasRead q i c auth (e :: older)
  | cons {e past} (h : HasRead q i c auth past) (hq : q e.command = false) : HasRead q i c auth (e :: past)

section Reads

variable [DecidableEq ι] (q : AuthCommand → Bool)

/-- The statement is a read of the call. -/
def isRead (i : ι) (e : AuthEvent ι) : Bool := e.thread = i ∧ q e.command

/-- The account that a call has read last. -/
def lastRead (i : ι) (es : List (AuthEvent ι)) : Option Auth := (es.find? (isRead q i)).bind accountFound

variable {q} {i : ι} {c : AuthCommand} {auth : Auth} {es : List (AuthEvent ι)}

/-- Where a call has read its account. -/
theorem split_of_hasRead (h : HasRead q i c auth (own i es)) :
    ∃ new r old, es = new ++ r :: old ∧ isRead q i r = true ∧ r.command = c ∧ accountFound r = some auth ∧
      ∀ e ∈ new, isRead q i e = false := by
  generalize hown : own i es = past at h
  induction h generalizing es with
  | @read e older hthread hcommand hq hfound =>
    obtain ⟨new, old, rfl, hnew, -⟩ := split_of_own_cons hown
    refine ⟨new, e, old, rfl, ?_, hcommand, hfound, fun x hx => ?_⟩
    · simp [isRead, hthread, hcommand, hq]
    · simp [isRead, thread_ne_of_own_nil hnew hx]
  | @cons e past _ hq ih =>
    obtain ⟨new, old, rfl, hnew, hold⟩ := split_of_own_cons hown
    obtain ⟨new', r, old', rfl, hr, hcommand, hfound, hnone⟩ := ih hold
    refine ⟨new ++ e :: new', r, old', by simp, hr, hcommand, hfound, fun x hx => ?_⟩
    rcases List.mem_append.mp hx with hx | hx
    · simp [isRead, thread_ne_of_own_nil hnew hx]
    · rcases List.mem_cons.mp hx with rfl | hx
      · simp [isRead, hq]
      · exact hnone x hx

theorem lastRead_eq {new old : List (AuthEvent ι)} {r : AuthEvent ι} (hr : isRead q i r = true)
    (hnone : ∀ e ∈ new, isRead q i e = false) : lastRead q i (new ++ r :: old) = accountFound r := by
  have hfirst : (new ++ r :: old).find? (isRead q i) = some r := by
    rw [List.find?_append, List.find?_eq_none.mpr fun e he => by simp [hnone e he]]
    simp [hr]
  rw [lastRead, hfirst]
  rfl

end Reads

end Identity
