import PeerX.Foundations.Guards
import Mathlib.Data.List.Sort
import Mathlib.Data.String.Basic

/-!
# Queue: the email processor

A worker of the `emails` queue sends the email of a job under a marker: it claims the marker of the
email id, renders the template, hands the email to the SMTP transport, and releases the marker when
one of these steps or a report of the progress between them throws. The email id is made from the
recipients, the subject and the template.
-/

namespace Queue

open Concurrency

/-- The field `to`: an address, or several. -/
inductive Recipients : Type
  | one (address : String)
  | many (addresses : List String)
deriving DecidableEq

def Recipients.addresses : Recipients → List String
  | .one address => [address]
  | .many addresses => addresses

/-- The recipients are the same set. -/
def Recipients.Same (a b : Recipients) : Prop :=
  (∀ x ∈ a.addresses, x ∈ b.addresses) ∧ ∀ x ∈ b.addresses, x ∈ a.addresses

instance (a b : Recipients) : Decidable (a.Same b) := inferInstanceAs (Decidable (_ ∧ _))

structure Attachment where
  filename : String
  content : String
  contentType : Option String := none
deriving DecidableEq

/-- The context of a template: the texts of its values; a value that is null or undefined is
`none`. -/
abbrev TemplateContext := List (String × Option String)

/-- The data of an email job. -/
structure EmailJobData where
  /-- `to`. -/
  recipients : Recipients
  subject : String
  template : String
  context : Option TemplateContext := none
  attachments : Option (List Attachment) := none
deriving DecidableEq

/-- The jobs are about the same email: recipients, subject, template and context agree. -/
def SameEmail (a b : EmailJobData) : Prop :=
  a.recipients.Same b.recipients ∧ a.subject = b.subject ∧ a.template = b.template ∧ a.context = b.context

instance (a b : EmailJobData) : Decidable (SameEmail a b) := inferInstanceAs (Decidable (_ ∧ _))

theorem SameEmail.refl (a : EmailJobData) : SameEmail a a :=
  ⟨⟨fun _ h => h, fun _ h => h⟩, rfl, rfl, rfl⟩

/-- `escapeHtml`, of a character. -/
def escapeChar : Char → List Char
  | '&' => "&amp;".toList
  | '<' => "&lt;".toList
  | '>' => "&gt;".toList
  | '"' => "&quot;".toList
  | c => if c.toNat = 39 then "&#39;".toList else [c]

/-- The white space of a regular expression. -/
def isSpace (c : Char) : Bool :=
  c.toNat ∈ [9, 10, 11, 12, 13, 32, 160, 5760, 8232, 8233, 8239, 8287, 12288, 65279] ||
    (8192 ≤ c.toNat && c.toNat ≤ 8202)

def isKeyChar (c : Char) : Bool := c.isAlphanum || c = '_' || c = '.'

/-- The key of a placeholder whose opening braces were read, and what follows it. -/
def placeholder (source : List Char) : Option (List Char × List Char) :=
  let start := source.dropWhile isSpace
  match start.takeWhile isKeyChar, (start.dropWhile isKeyChar).dropWhile isSpace with
  | [], _ => none
  | key, '}' :: '}' :: rest => some (key, rest)
  | _, _ => none

def placeholderText (context : Option TemplateContext) (key : List Char) : List Char :=
  match (context.getD []).lookup (String.ofList key) with
  | some (some value) => value.toList.flatMap escapeChar
  | _ => []

/-- `interpolateTemplate`, on the characters that are left; the number bounds them. -/
def interpolate (context : Option TemplateContext) : ℕ → List Char → List Char
  | 0, source => source
  | _ + 1, [] => []
  | n + 1, '{' :: '{' :: source =>
    match placeholder source with
    | some (key, rest) => placeholderText context key ++ interpolate context n rest
    | none => '{' :: interpolate context n ('{' :: source)
  | n + 1, c :: source => c :: interpolate context n source

def interpolateTemplate (source : String) (context : Option TemplateContext) : String :=
  String.ofList (interpolate context source.length source.toList)

def genericTemplate : String := "\n".intercalate
  ["<!DOCTYPE html>", "<html>", "  <body>", "    <h1>PeerX Notification</h1>",
    "    <p>You have a new message from PeerX.</p>", "  </body>", "</html>"]

def emailTemplates : List (String × String) :=
  [("welcome", "\n".intercalate
    ["<!DOCTYPE html>", "<html>", "  <body>", "    <h1>Welcome to PeerX, \x7b\x7bname\x7d\x7d!</h1>",
      "    <p>Your account is ready. Start trading instantly with insured, peer-to-peer swaps.</p>",
      "    <p>If you have any questions, just reply to this email.</p>",
      "    <p>— The PeerX Team</p>", "  </body>", "</html>"]),
  ("trade-completed", "\n".intercalate
    ["<!DOCTYPE html>", "<html>", "  <body>", "    <h1>Trade Completed</h1>",
      "    <p>Your trade has been executed successfully.</p>", "    <ul>",
      "      <li>Trade ID: \x7b\x7btradeId\x7d\x7d</li>", "      <li>Amount: \x7b\x7bamount\x7d\x7d</li>",
      "      <li>Asset: \x7b\x7basset\x7d\x7d</li>", "      <li>Price: \x7b\x7bprice\x7d\x7d</li>",
      "    </ul>", "    <p>— The PeerX Team</p>", "  </body>", "</html>"]),
  ("test", "\n".intercalate
    ["<!DOCTYPE html>", "<html>", "  <body>", "    <h1>Test Email</h1>",
      "    <p>This is a test email sent by PeerX.</p>", "  </body>", "</html>"])]

def renderEmailTemplate (template : String) (context : Option TemplateContext) : String :=
  interpolateTemplate ((emailTemplates.lookup template).getD genericTemplate) context

/-- `sort`, of the recipients when they are several. -/
def Recipients.sorted : Recipients → Recipients
  | .one address => .one address
  | .many addresses => .many (addresses.insertionSort (· ≤ ·))

/-- `generateEmailId`. The recipients are sorted in place. -/
def generateEmailId (data : EmailJobData) : String :=
  let recipients := ",".intercalate data.recipients.sorted.addresses
  s!"{recipients}-{data.subject}-{data.template}"

def sentKey (emailId : String) : String := s!"email:sent:{emailId}"

/-- The call of `sendEmail` for a job, with the rendered template. -/
structure Sending where
  data : EmailJobData
  html : String
deriving DecidableEq

/-- The marker under which an email is sent. -/
def Sending.key (sending : Sending) : String := sentKey (generateEmailId sending.data)

/-- A step that touches no marker: `job.progress`, or the rendering of the template. -/
inductive EmailStep : Type
  | progress (percent : ℕ)
  | render (template : String) (context : Option TemplateContext)
deriving DecidableEq

/-- The steps of a worker. An exception is its message. -/
abbrev EmailCommand := GuardCommand EmailStep String Sending

/-- The programs of the workers. -/
abbrev EmailWorker (α : Type) := Worker EmailStep String Sending String α

/-- An executed step. -/
abbrev EmailEvent (ι : Type) := GuardEvent EmailStep String Sending String ι

/-- `job.progress`. -/
def emailProgress (percent : ℕ) : EmailWorker Unit := work (.note (.progress percent))

/-- `renderTemplate`. It may throw. -/
def renderTemplate (template : String) (context : Option TemplateContext) : EmailWorker String := do
  work (.note (.render template context))
  return renderEmailTemplate template context

def claimSend (emailId : String) : EmailWorker Bool := work (.claim (sentKey emailId))

def sendEmail (sending : Sending) : EmailWorker Unit := work (.act sending)

/-- `!to || !subject || !template`. -/
def EmailJobData.Invalid (data : EmailJobData) : Prop :=
  data.recipients = .one "" ∨ data.subject = "" ∨ data.template = ""

instance (data : EmailJobData) : Decidable data.Invalid := inferInstanceAs (Decidable (_ ∨ _))

def processEmail (data : EmailJobData) : EmailWorker Unit := do
  emailProgress 10
  if data.Invalid then
    throw "Invalid email data"
  else
    let emailId := generateEmailId data
    let claimed ← claimSend emailId
    if claimed then
      guarded (sentKey emailId)
        (do
          emailProgress 30
          let html ← renderTemplate data.template data.context
          emailProgress 50
          sendEmail ⟨data, html⟩
          emailProgress 80)
        throw
      emailProgress 100
    else
      emailProgress 100

/-- The machine of the workers, with the executed steps kept. -/
def emailMachine (ι : Type) : Machine EmailCommand (GuardCommand.Reply String) ι
    (Markers String String × List (EmailEvent ι)) :=
  (Machine.ofHandler serve).observed

/-- Attempts of jobs at the same time. Attempt `i` works on the job `jobs i`. -/
def emailing {ι : Type} (jobs : ι → EmailJobData) (d₀ : Markers String String) :
    Config EmailCommand (GuardCommand.Reply String) String Unit ι
      (Markers String String × List (EmailEvent ι)) :=
  ⟨(d₀, []), fun i => processEmail (jobs i)⟩

end Queue
