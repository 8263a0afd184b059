import T560.Foundation.Program
import T560.Js.Ascii

/-!
# Commands of the mail tool on the wire

The texts of a call go into the commands of a session: the mailbox and the credential into IMAP
commands, the sender and the recipients into SMTP commands. A command is written as a line. The
texts are trimmed, and quoted for IMAP, but a line break inside of one stays, and the server
reads what follows it as a command of its own.
-/

namespace T560.Mail

open Program (Prog perform Issues Returns issues_seq)
open Js (Value Runtime JsError)
open Js.Value (trimmedText)

/-- The response to an IMAP command, as far as the commands behind it depend on it. -/
structure ImapStatus where
  status : String
  statusLine : String
  deriving DecidableEq, Repr

structure SmtpReply where
  code : Nat
  lines : List String
  deriving DecidableEq, Repr

/-- A line written to a server. -/
inductive MailCall where
  | imap (line : String)
  | smtp (line : String)
  deriving DecidableEq, Repr

def MailCall.Answer : MailCall → Type
  | .imap _ => ImapStatus
  | .smtp _ => SmtpReply

/-- `writeLine` -/
def MailCall.wire : MailCall → List Char
  | .imap line => line.toList ++ ['\r', '\n']
  | .smtp line => line.toList ++ ['\r', '\n']

abbrev Session := Prog MailCall MailCall.Answer String

def writeImap (line : String) : Session ImapStatus := perform (MailCall.imap line)

def writeSmtp (line : String) : Session SmtpReply := perform (MailCall.smtp line)

section Imap

def nextTag (tagCounter : Nat) : String :=
  "A" ++ String.ofList (List.replicate (4 - (toString tagCounter).length) '0') ++ toString tagCounter

/-- `value.replace(/\\/g, "\\\\").replace(/"/g, '\\"')` between quotes. -/
def quoteImapString (value : String) : String :=
  let backslashes := value.toList.flatMap fun c => if c = '\\' then ['\\', '\\'] else [c]
  let escaped := backslashes.flatMap fun c => if c = '"' then ['\\', '"'] else [c]
  String.ofList ('"' :: (escaped ++ ['"']))

/-- A command with the tag of its number, and the check of its status. -/
def imapCommand (tagCounter : Nat) (command context : String) : Session Unit := do
  let response ← writeImap (nextTag tagCounter ++ " " ++ command)
  if response.status = "OK" then return ()
  else .throws ("IMAP " ++ context ++ " failed: " ++ response.statusLine)

def loginCommand (identifier secret : String) : String :=
  "LOGIN " ++ quoteImapString identifier ++ " " ++ quoteImapString secret

def login (tagCounter : Nat) (identifier secret : String) : Session Unit :=
  imapCommand tagCounter (loginCommand identifier secret) "LOGIN"

def selectCommand (mailbox : String) : String := "SELECT " ++ quoteImapString mailbox

def select (tagCounter : Nat) (mailbox : String) : Session Unit :=
  imapCommand tagCounter (selectCommand mailbox) "SELECT"

def search (tagCounter : Nat) (criteria : String) : Session Unit :=
  imapCommand tagCounter ("SEARCH " ++ criteria) "SEARCH"

end Imap

section Smtp

def smtpCommand (command : String) (expectedCodes : List Nat) : Session Unit := do
  let response ← writeSmtp command
  if response.code ∈ expectedCodes then return ()
  else
    .throws ("SMTP command failed (" ++ toString response.code ++ "): " ++
      " | ".intercalate response.lines)

def mailCommand (sender : String) : String := "MAIL FROM:<" ++ sender ++ ">"

def rcptCommand (recipient : String) : String := "RCPT TO:<" ++ recipient ++ ">"

def sendRecipients : List String → Session Unit
  | [] => return ()
  | recipient :: rest => do
    smtpCommand (rcptCommand recipient) [250, 251]
    sendRecipients rest

/-- The commands of `sendMail`; the message that is written behind them is no command. -/
def sendMail (sender : String) (recipients : List String) : Session Unit := do
  if recipients = [] then .throws "At least one recipient is required."
  else
    smtpCommand (mailCommand sender) [250]
    sendRecipients recipients
    smtpCommand "DATA" [354]

end Smtp

section Tool
variable (rt : Runtime)

def parseAddresses (value : Option Value) : Except JsError (List String) :=
  match value with
  | some (.arr entries) => do
    let texts ← entries.mapM fun entry => trimmedText rt [some entry]
    return texts.filter (· ≠ "")
  | _ => do
    let raw ← trimmedText rt [value]
    if raw = "" then return []
    let texts := (raw.toList.splitOnP fun c => c = ';' || c = ',').map fun entry =>
      Js.trim (String.ofList entry)
    return texts.filter (· ≠ "")

inductive EmailAction where
  | list_unread
  | read_unread
  | read_recent
  | send
  deriving DecidableEq, Repr

/-- The parameters of a call that commands are made of, and those that are checked before. -/
structure EmailParams where
  mailbox : Option Value := none
  «from» : Option Value := none
  «to» : Option Value := none
  cc : Option Value := none
  bcc : Option Value := none
  subject : Option Value := none
  text : Option Value := none
  html : Option Value := none
  inReplyTo : Option Value := none
  references : Option Value := none

structure Credential where
  identifier : String
  secret : String
  deriving DecidableEq, Repr

/-- What a call has settled when it connects. -/
inductive Plan where
  | read (credential : Credential) (mailbox criteria : String)
  | send (sender : String) (recipients : List String)
  deriving DecidableEq, Repr

/-- The error a call ends with before it connects. -/
inductive PlanError where
  | typeError
  | rejected (message : String)
  deriving DecidableEq, Repr

def PlanError.ofJs : JsError → PlanError
  | .typeError => .typeError

def orTypeError {α : Type} (x : Except JsError α) : Except PlanError α := x.mapError PlanError.ofJs

/-- The texts of the references. -/
def referenceTexts (value : Option Value) : Except JsError (List String) :=
  match value with
  | some (.arr entries) => entries.mapM fun entry => trimmedText rt [some entry]
  | _ => return [← trimmedText rt [value]]

def planRead (action : EmailAction) (params : EmailParams) (credential : Credential) :
    Except PlanError Plan := do
  let mailbox ← orTypeError (trimmedText rt [params.mailbox, some (.str "INBOX")])
  let criteria := if action = .read_recent then "ALL" else "UNSEEN"
  return .read credential (if mailbox = "" then "INBOX" else mailbox) criteria

def planSend (params : EmailParams) (credential : Credential) : Except PlanError Plan := do
  let «to» ← orTypeError (parseAddresses rt params.to)
  let cc ← orTypeError (parseAddresses rt params.cc)
  let bcc ← orTypeError (parseAddresses rt params.bcc)
  let recipients := «to» ++ cc ++ bcc
  if recipients = [] then
    throw (.rejected "Send requires at least one recipient in to/cc/bcc.")
  let sender ← orTypeError (trimmedText rt [params.from, some (.str credential.identifier)])
  if sender = "" ∨ '@' ∉ sender.toList then
    throw (.rejected "A valid from email address is required.")
  let _ ← orTypeError (trimmedText rt [params.subject])
  let text ← orTypeError (trimmedText rt [params.text])
  let html ← orTypeError (trimmedText rt [params.html])
  if text = "" ∧ html = "" then
    throw (.rejected "Send requires text and/or html content.")
  let _ ← orTypeError (trimmedText rt [params.inReplyTo])
  let _ ← orTypeError (referenceTexts rt params.references)
  return .send sender recipients

def planOf (action : EmailAction) (params : EmailParams) (credential : Credential) :
    Except PlanError Plan :=
  match action with
  | .send => planSend rt params credential
  | _ => planRead rt action params credential

/-- The session up to the commands that no text of the call goes into. -/
def Plan.session : Plan → Session Unit
  | .read credential mailbox criteria => do
    login 1 credential.identifier credential.secret
    select 2 mailbox
    search 3 criteria
  | .send sender recipients => sendMail sender recipients

/-- The commands that a call can put on the wire. -/
def Issued (action : EmailAction) (params : EmailParams) (credential : Credential) (c : MailCall) :
    Prop :=
  ∃ plan, planOf rt action params credential = .ok plan ∧ Issues plan.session c

end Tool

/-- One line: a text without line breaks, and the end of the line. -/
def OneLine (wire : List Char) : Prop :=
  ∃ text, wire = text ++ ['\r', '\n'] ∧ '\r' ∉ text ∧ '\n' ∉ text

def Unbroken (s : String) : Prop := '\r' ∉ s.toList ∧ '\n' ∉ s.toList

instance (s : String) : Decidable (Unbroken s) := inferInstanceAs (Decidable (_ ∧ _))

/-- No text of the plan that goes into a command has a line break. -/
def Plan.Clean : Plan → Prop
  | .read credential mailbox _ =>
    Unbroken credential.identifier ∧ Unbroken credential.secret ∧ Unbroken mailbox
  | .send sender recipients => Unbroken sender ∧ ∀ recipient ∈ recipients, Unbroken recipient

section Lines

theorem oneLine_iff {text : List Char} :
    OneLine (text ++ ['\r', '\n']) ↔ '\r' ∉ text ∧ '\n' ∉ text := by
  constructor
  · rintro ⟨text', heq, h⟩
    obtain rfl := List.append_cancel_right heq
    exact h
  · exact fun h => ⟨text, rfl, h⟩

theorem oneLine_imap (line : String) : OneLine (MailCall.imap line).wire ↔ Unbroken line :=
  oneLine_iff

theorem oneLine_smtp (line : String) : OneLine (MailCall.smtp line).wire ↔ Unbroken line :=
  oneLine_iff

theorem unbroken_append (s t : String) : Unbroken (s ++ t) ↔ Unbroken s ∧ Unbroken t := by
  simp only [Unbroken, String.toList_append, List.mem_append]
  tauto

/-- Quoting keeps line breaks. -/
theorem unbroken_quoteImapString (value : String) : Unbroken (quoteImapString value) ↔ Unbroken value := by
  have keep {c x : Char} {s : List Char} (hc : c ≠ x) (hs : c ∉ s) (l : List Char) :
      (c ∈ l.flatMap fun d => if d = x then s else [d]) ↔ c ∈ l := by
    rw [List.mem_flatMap]
    constructor
    · rintro ⟨d, hd, hmem⟩
      split_ifs at hmem
      · exact absurd hmem hs
      · obtain rfl : c = d := by simpa using hmem
        exact hd
    · exact fun h => ⟨c, h, by simp [hc]⟩
  have hmem {c : Char} (hq : c ≠ '"') (hb : c ≠ '\\') :
      c ∈ (quoteImapString value).toList ↔ c ∈ value.toList := by
    simp only [quoteImapString, String.toList_ofList, List.mem_cons, List.mem_append, List.not_mem_nil,
      hq, or_false, false_or]
    rw [keep hq (by simp [hq, hb]), keep hb (by simp [hb])]
  rw [Unbroken, Unbroken, hmem (by decide) (by decide), hmem (by decide) (by decide)]

theorem unbroken_nextTag : Unbroken (nextTag 1) ∧ Unbroken (nextTag 2) ∧ Unbroken (nextTag 3) := by
  decide

end Lines

section Sessions
variable {c : MailCall}

theorem issues_writeImap {line : String} : Issues (writeImap line) c ↔ c = .imap line :=
  Program.issues_perform

theorem returns_writeImap (line : String) (response : ImapStatus) : Returns (writeImap line) response :=
  .later (.ok response) .done

theorem issues_writeSmtp {line : String} : Issues (writeSmtp line) c ↔ c = .smtp line :=
  Program.issues_perform

theorem returns_writeSmtp (line : String) (response : SmtpReply) : Returns (writeSmtp line) response :=
  .later (.ok response) .done

theorem issues_imapCommand {tagCounter : Nat} {command context : String} :
    Issues (imapCommand tagCounter command context) c ↔
      c = .imap (nextTag tagCounter ++ " " ++ command) := by
  rw [imapCommand, Program.issues_bind, issues_writeImap]
  constructor
  · rintro (h | ⟨response, -, h⟩)
    · exact h
    · split_ifs at h <;> cases h
  · exact Or.inl

theorem returns_imapCommand (tagCounter : Nat) (command context : String) :
    Returns (imapCommand tagCounter command context) () := by
  rw [imapCommand]
  apply Program.returns_bind (returns_writeImap _ ⟨"OK", ""⟩)
  exact .done

theorem issues_smtpCommand {command : String} {expectedCodes : List Nat} :
    Issues (smtpCommand command expectedCodes) c ↔ c = .smtp command := by
  rw [smtpCommand, Program.issues_bind, issues_writeSmtp]
  constructor
  · rintro (h | ⟨response, -, h⟩)
    · exact h
    · split_ifs at h <;> cases h
  · exact Or.inl

theorem returns_smtpCommand (command : String) (expectedCodes : List Nat) (code : Nat)
    (hcode : code ∈ expectedCodes) : Returns (smtpCommand command expectedCodes) () := by
  rw [smtpCommand]
  apply Program.returns_bind (returns_writeSmtp _ ⟨code, []⟩)
  rw [if_pos hcode]
  exact .done

theorem issues_sendRecipients {recipients : List String} :
    Issues (sendRecipients recipients) c ↔ ∃ r ∈ recipients, c = .smtp (rcptCommand r) := by
  induction recipients with
  | nil =>
    simp only [List.not_mem_nil, false_and, exists_false, iff_false]
    exact Program.not_issues_done ()
  | cons recipient rest ih =>
    have hreturns := returns_smtpCommand (rcptCommand recipient) [250, 251] 250 (by decide)
    rw [sendRecipients, Program.issues_bind, issues_smtpCommand]
    simp only [List.mem_cons, exists_eq_or_imp, ← ih]
    constructor
    · rintro (h | ⟨-, -, h⟩)
      · exact Or.inl h
      · exact Or.inr h
    · rintro (h | h)
      · exact Or.inl h
      · exact Or.inr ⟨(), hreturns, h⟩

theorem returns_sendRecipients (recipients : List String) : Returns (sendRecipients recipients) () := by
  induction recipients with
  | nil => exact .done
  | cons recipient rest ih =>
    have hreturns := returns_smtpCommand (rcptCommand recipient) [250, 251] 250 (by decide)
    exact Program.returns_bind hreturns ih

theorem issues_read {credential : Credential} {mailbox criteria : String} :
    Issues (Plan.read credential mailbox criteria).session c ↔
      c = .imap (nextTag 1 ++ " " ++ loginCommand credential.identifier credential.secret) ∨
      c = .imap (nextTag 2 ++ " " ++ selectCommand mailbox) ∨
      c = .imap (nextTag 3 ++ " " ++ ("SEARCH " ++ criteria)) := by
  simp only [Plan.session, login, select, search]
  rw [issues_seq (returns_imapCommand _ _ _), issues_seq (returns_imapCommand _ _ _),
    issues_imapCommand, issues_imapCommand, issues_imapCommand]

theorem issues_send {sender : String} {recipients : List String} (hne : recipients ≠ []) :
    Issues (Plan.send sender recipients).session c ↔
      c = .smtp (mailCommand sender) ∨ (∃ r ∈ recipients, c = .smtp (rcptCommand r)) ∨
      c = .smtp "DATA" := by
  rw [Plan.session, sendMail, if_neg hne,
    issues_seq (returns_smtpCommand _ _ 250 (by decide)), issues_seq (returns_sendRecipients _),
    issues_smtpCommand, issues_sendRecipients, issues_smtpCommand]

end Sessions

section Plans
variable {rt : Runtime} {action : EmailAction} {params : EmailParams} {credential : Credential}

theorem unbroken_imap_line {tag command : String} (htag : Unbroken tag) :
    Unbroken (tag ++ " " ++ command) ↔ Unbroken command := by
  rw [unbroken_append, unbroken_append, and_iff_right htag, and_iff_right (by decide)]

theorem unbroken_loginCommand {identifier secret : String} :
    Unbroken (loginCommand identifier secret) ↔ Unbroken identifier ∧ Unbroken secret := by
  have hspace : Unbroken " " := by decide
  have hlogin : Unbroken "LOGIN " := by decide
  simp only [loginCommand, unbroken_append, unbroken_quoteImapString, hspace, hlogin, true_and, and_true]

theorem unbroken_selectCommand {mailbox : String} :
    Unbroken (selectCommand mailbox) ↔ Unbroken mailbox := by
  rw [selectCommand, unbroken_append, and_iff_right (by decide), unbroken_quoteImapString]

theorem unbroken_mailCommand {sender : String} : Unbroken (mailCommand sender) ↔ Unbroken sender := by
  rw [mailCommand, unbroken_append, unbroken_append, and_iff_left (by decide),
    and_iff_right (by decide)]

theorem unbroken_rcptCommand {recipient : String} :
    Unbroken (rcptCommand recipient) ↔ Unbroken recipient := by
  rw [rcptCommand, unbroken_append, unbroken_append, and_iff_left (by decide),
    and_iff_right (by decide)]

theorem read_oneLine_iff {mailbox criteria : String} (hcriteria : Unbroken criteria) :
    (∀ c, Issues (Plan.read credential mailbox criteria).session c → OneLine c.wire) ↔
      (Plan.read credential mailbox criteria).Clean := by
  obtain ⟨h1, h2, h3⟩ := unbroken_nextTag
  have hsearch : Unbroken ("SEARCH " ++ criteria) := by
    rw [unbroken_append]
    exact ⟨by decide, hcriteria⟩
  simp only [issues_read, forall_eq_or_imp, forall_eq, oneLine_imap, unbroken_imap_line h1,
    unbroken_imap_line h2, unbroken_imap_line h3, unbroken_loginCommand, unbroken_selectCommand,
    hsearch, and_true, Plan.Clean, and_assoc]

theorem send_oneLine_iff {sender : String} {recipients : List String} (hne : recipients ≠ []) :
    (∀ c, Issues (Plan.send sender recipients).session c → OneLine c.wire) ↔
      (Plan.send sender recipients).Clean := by
  have hdata : Unbroken "DATA" := by decide
  simp only [issues_send hne, Plan.Clean]
  constructor
  · intro h
    constructor
    · exact unbroken_mailCommand.mp ((oneLine_smtp _).mp (h _ (Or.inl rfl)))
    · intro r hr
      exact unbroken_rcptCommand.mp ((oneLine_smtp _).mp (h _ (Or.inr (Or.inl ⟨r, hr, rfl⟩))))
  · rintro ⟨hsender, hrecipients⟩ c (rfl | ⟨r, hr, rfl⟩ | rfl)
    · exact (oneLine_smtp _).mpr (unbroken_mailCommand.mpr hsender)
    · exact (oneLine_smtp _).mpr (unbroken_rcptCommand.mpr (hrecipients r hr))
    · exact (oneLine_smtp _).mpr hdata

/-- The criteria of a search are built by the tool. -/
theorem planRead_read {plan : Plan} (h : planRead rt action params credential = .ok plan) :
    ∃ mailbox criteria, plan = .read credential mailbox criteria ∧ Unbroken criteria := by
  obtain ⟨mailbox, -, h⟩ := Js.exists_of_bind_ok h
  refine ⟨_, _, (Except.ok.inj h).symm, ?_⟩
  split_ifs <;> decide

/-- A call without recipients ends before it connects. -/
theorem planSend_send {plan : Plan} (h : planSend rt params credential = .ok plan) :
    ∃ sender recipients, plan = .send sender recipients ∧ recipients ≠ [] := by
  obtain ⟨«to», -, h⟩ := Js.exists_of_bind_ok h
  obtain ⟨cc, -, h⟩ := Js.exists_of_bind_ok h
  obtain ⟨bcc, -, h⟩ := Js.exists_of_bind_ok h
  by_cases hne : «to» ++ cc ++ bcc = []
  · rw [if_pos hne] at h
    cases h
  rw [if_neg hne] at h
  obtain ⟨-, -, h⟩ := Js.exists_of_bind_ok h
  obtain ⟨sender, -, h⟩ := Js.exists_of_bind_ok h
  by_cases hsender : sender = "" ∨ '@' ∉ sender.toList
  · rw [if_pos hsender] at h
    cases h
  rw [if_neg hsender] at h
  obtain ⟨-, -, h⟩ := Js.exists_of_bind_ok h
  obtain ⟨-, -, h⟩ := Js.exists_of_bind_ok h
  obtain ⟨text, -, h⟩ := Js.exists_of_bind_ok h
  obtain ⟨html, -, h⟩ := Js.exists_of_bind_ok h
  by_cases hcontent : text = "" ∧ html = ""
  · rw [if_pos hcontent] at h
    cases h
  rw [if_neg hcontent] at h
  obtain ⟨-, -, h⟩ := Js.exists_of_bind_ok h
  obtain ⟨-, -, h⟩ := Js.exists_of_bind_ok h
  exact ⟨sender, «to» ++ cc ++ bcc, (Except.ok.inj h).symm, hne⟩

theorem session_oneLine_iff {plan : Plan} (h : planOf rt action params credential = .ok plan) :
    (∀ c, Issues plan.session c → OneLine c.wire) ↔ plan.Clean := by
  have hread (h : planRead rt action params credential = .ok plan) :
      (∀ c, Issues plan.session c → OneLine c.wire) ↔ plan.Clean := by
    obtain ⟨mailbox, criteria, rfl, hcriteria⟩ := planRead_read h
    exact read_oneLine_iff hcriteria
  cases action with
  | send =>
    obtain ⟨sender, recipients, rfl, hne⟩ := planSend_send h
    exact send_oneLine_iff hne
  | list_unread => exact hread h
  | read_unread => exact hread h
  | read_recent => exact hread h

end Plans

section Results

/-- Every command of a call is one line on the wire exactly if none of the texts that go into its
commands has a line break. -/
theorem commands_oneLine_iff (rt : Runtime) (action : EmailAction) (params : EmailParams)
    (credential : Credential) :
    (∀ c, Issued rt action params credential c → OneLine c.wire) ↔
      ∀ plan, planOf rt action params credential = .ok plan → plan.Clean := by
  constructor
  · intro h plan hplan
    rw [← session_oneLine_iff hplan]
    exact fun c hc => h c ⟨plan, hplan, hc⟩
  · rintro h c ⟨plan, hplan, hc⟩
    exact (session_oneLine_iff hplan).mpr (h plan hplan) c hc

/-- A recipient brings a command of its own. -/
theorem recipient_injects_command :
    ∃ c, Issued Js.asciiRuntime .send
        { «to» := some (.arr [.str "a@b.c>\r\nRCPT TO:<x@y.z"]), text := some (.str "hi") }
        ⟨"me@b.c", "secret"⟩ c ∧
      c.wire = "RCPT TO:<a@b.c>\r\nRCPT TO:<x@y.z>\r\n".toList ∧ ¬ OneLine c.wire := by
  refine ⟨.smtp "RCPT TO:<a@b.c>\r\nRCPT TO:<x@y.z>",
    ⟨.send "me@b.c" ["a@b.c>\r\nRCPT TO:<x@y.z"], by decide, ?_⟩, by decide, ?_⟩
  · rw [issues_send (by decide)]
    exact Or.inr (Or.inl ⟨_, List.mem_singleton_self _, by decide⟩)
  · rw [oneLine_smtp]
    decide

end Results

end T560.Mail
