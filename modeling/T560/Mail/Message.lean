import T560.Foundation.Occurrence
import T560.Mail.HeaderText

/-!
# The message on the wire

`sendMail` writes the message behind the reply to `DATA`, with a dot in front of every line that
starts with one, and closes it with a line of a single dot. A receiver takes the lines up to that
line and removes the dots.
-/

namespace T560.Mail

open Js (utf8 Runtime isDigit trimChars)
open Occurrence
open Program (Prog perform Issues Returns issues_bind issues_perform issues_seq not_issues_done returns_bind)

def crlf : List Char := ['\r', '\n']

/-- `text.replace(/\r?\n/g, "\r\n")` -/
def crlfBreaks : List Char → List Char
  | '\r' :: '\n' :: rest => '\r' :: '\n' :: crlfBreaks rest
  | c :: rest => (if c = '\n' then ['\r', '\n'] else [c]) ++ crlfBreaks rest
  | [] => []

def stuffLine (line : List Char) : List Char := if line.head? = some '.' then '.' :: line else line

def dotStuffSmtpBody (body : List Char) : List Char :=
  List.intercalate crlf ((split crlf 0 (crlfBreaks body)).map stuffLine)

/-- What is written behind the reply to `DATA`. -/
def messageData (body : List Char) : List Char := dotStuffSmtpBody body ++ crlf ++ ['.'] ++ crlf

section Session

structure OutgoingMail where
  «from» : List Char
  «to» : List (List Char)
  cc : List (List Char)
  bcc : List (List Char)
  subject : List Char
  text : List Char
  html : List Char
  inReplyTo : List Char
  references : List (List Char)

/-- What the clock and the random numbers bring. -/
structure Stamp where
  date : List Char
  messageUuid : List Char
  boundaryUuid : List Char

variable (rt : Runtime) (codec : MimeCodec) (mail : OutgoingMail) (stamp : Stamp)

def parseDomainFromEmailAddress (value : List Char) : List Char :=
  let source := (rt.toLowerCase (String.ofList (trimChars value))).toList
  let domain := source.rtakeWhile (· ≠ '@')
  if domain.length = source.length then []
  else domain.filter fun c => ('a' ≤ c ∧ c ≤ 'z') ∨ isDigit c = true ∨ c = '.' ∨ c = '-'

def messageId : List Char :=
  let domain := parseDomainFromEmailAddress rt mail.from
  ['<'] ++ stamp.messageUuid ++ ['@'] ++ (if domain = [] then "t560.local".toList else domain) ++ ['>']

def messageHeaders : List (List Char) :=
  ["Date: ".toList ++ stamp.date,
    "From: ".toList ++ sanitizeHeaderValue mail.from,
    "To: ".toList ++ List.intercalate ", ".toList (mail.to.map sanitizeHeaderValue),
    "Subject: ".toList ++
      encodeHeaderValue codec (if mail.subject = [] then "(no subject)".toList else mail.subject),
    "Message-ID: ".toList ++ sanitizeHeaderValue (messageId rt mail stamp),
    "MIME-Version: 1.0".toList] ++
  (if mail.cc = [] then []
    else ["Cc: ".toList ++ List.intercalate ", ".toList (mail.cc.map sanitizeHeaderValue)]) ++
  (if trimChars mail.inReplyTo = [] then []
    else ["In-Reply-To: ".toList ++ sanitizeHeaderValue mail.inReplyTo]) ++
  (if mail.references = [] then []
    else ["References: ".toList ++ List.intercalate [' '] (mail.references.map sanitizeHeaderValue)])

def contentHeaders (subtype : String) : List (List Char) :=
  [("Content-Type: text/" ++ subtype ++ "; charset=utf-8").toList, "Content-Transfer-Encoding: 8bit".toList, []]

def buildMimeMessage : List Char :=
  let headers := messageHeaders rt codec mail stamp
  let textBody := crlfBreaks mail.text
  let htmlBody := crlfBreaks mail.html
  let plain := if textBody = [] then "(no content)".toList else textBody
  if htmlBody ≠ [] ∧ textBody ≠ [] then
    let boundary := "t560-".toList ++ stamp.boundaryUuid
    List.intercalate crlf (headers ++
      ["Content-Type: multipart/alternative; boundary=\"".toList ++ boundary ++ ['"'], [],
        "--".toList ++ boundary] ++ contentHeaders "plain" ++ [plain, [], "--".toList ++ boundary] ++
      contentHeaders "html" ++ [htmlBody, [], "--".toList ++ boundary ++ "--".toList, []])
  else if htmlBody ≠ [] then
    List.intercalate crlf (headers ++ contentHeaders "html" ++ [htmlBody, []])
  else List.intercalate crlf (headers ++ contentHeaders "plain" ++ [plain, []])

/-- A write of the session; a response is read behind each. -/
inductive SmtpWrite where
  | line (text : String)
  | raw (text : List Char)
  deriving DecidableEq

abbrev Delivery := Prog SmtpWrite (fun _ => SmtpReply) String

namespace SmtpSession

def command (text : String) (expectedCodes : List Nat) : Delivery Unit := do
  let response ← perform (SmtpWrite.line text)
  if response.code ∈ expectedCodes then return ()
  else
    .throws ("SMTP command failed (" ++ toString response.code ++ "): " ++
      " | ".intercalate response.lines)

def rcptAll : List (List Char) → Delivery Unit
  | [] => return ()
  | recipient :: rest => do
    command (rcptCommand (String.ofList recipient)) [250, 251]
    rcptAll rest

def sendMail : Delivery (List Char × List (List Char)) := do
  let recipients := mail.to ++ mail.cc ++ mail.bcc
  if recipients = [] then .throws "At least one recipient is required."
  else
    command (mailCommand (String.ofList mail.from)) [250]
    rcptAll recipients
    command "DATA" [354]
    let response ← perform (SmtpWrite.raw (messageData (buildMimeMessage rt codec mail stamp)))
    if response.code = 250 then return (messageId rt mail stamp, recipients)
    else
      .throws ("SMTP DATA failed (" ++ toString response.code ++ "): " ++
        " | ".intercalate response.lines)

end SmtpSession

end Session

/-! ## The receiver -/

def crlfBytes : Bytes := [13, 10]

def unstuffLine (line : Bytes) : Bytes := if line.head? = some 46 then line.tail else line

/-- The lines up to the one of a single dot, and what stands behind it. The last part of the stream
is no line yet. -/
def takeMessage : List Bytes → Option (List Bytes × List Bytes)
  | line :: next :: rest =>
    if line = [46] then some ([], next :: rest)
    else (takeMessage (next :: rest)).map fun found => (unstuffLine line :: found.1, found.2)
  | _ => none

/-- The message that the stream brings, and the bytes behind it. -/
def receive (stream : Bytes) : Option (Bytes × Bytes) :=
  (takeMessage (split crlfBytes 0 stream)).map fun found =>
    (List.intercalate crlfBytes found.1, List.intercalate crlfBytes found.2)

/-- The text with a carriage return in front of every line feed that has none; `previous` stands
before the text. -/
def bareFeedsClosed (previous : Option Char) : List Char → List Char
  | [] => []
  | c :: rest =>
    (if c = '\n' ∧ previous ≠ some '\r' then ['\r', '\n'] else [c]) ++ bareFeedsClosed (some c) rest

section Received

variable {text line rest : List Char} {bytes : Bytes}

theorem crlfBreaks_eq (text : List Char) (previous : Option Char)
    (h : previous = some '\r' → text.head? ≠ some '\n') : crlfBreaks text = bareFeedsClosed previous text := by
  induction text using crlfBreaks.induct generalizing previous with
  | case1 rest ih =>
    simp [crlfBreaks, bareFeedsClosed, ih (some '\n') (by simp)]
  | case2 c rest hnot ih =>
    have hnext : some c = some '\r' → rest.head? ≠ some '\n' := by
      intro hc hrest
      obtain ⟨more, hmore⟩ := List.head?_eq_some_iff.mp hrest
      exact hnot more (Option.some.inj hc) hmore
    rw [crlfBreaks, bareFeedsClosed, ih (some c) hnext]
    · by_cases hc : c = '\n'
      · have hprevious : previous ≠ some '\r' := by
          intro hprev
          exact h hprev (by rw [hc]; rfl)
        rw [if_pos hc, if_pos ⟨hc, hprevious⟩]
      · rw [if_neg hc, if_neg fun hboth => hc hboth.1]
    · exact hnot
  | case3 => rfl

/-- A byte of ASCII at the start of a text is its first character. -/
theorem head_of_utf8 {b : UInt8} (h : (utf8 text).head? = some b) (hb : b.toNat < 0x80) :
    ∃ c rest, text = c :: rest ∧ c.toNat = b.toNat ∧ utf8 text = b :: utf8 rest := by
  cases text with
  | nil => cases h
  | cons c rest =>
    obtain ⟨d, tail, hbytes⟩ := List.exists_cons_of_ne_nil (Js.encodeChar_ne_nil c)
    rw [Js.utf8_cons, hbytes, List.cons_append, List.head?_cons, Option.some.injEq] at h
    subst h
    obtain ⟨hcode, hone⟩ := Js.encodeChar_of_byte (hbytes ▸ List.mem_cons_self ..) hb
    exact ⟨c, rest, rfl, hcode, by rw [Js.utf8_cons, hone]; rfl⟩

/-- The bytes of a text have a line break only where the text has one. -/
theorem not_crlf_utf8 (h : ¬ crlf <:+: text) : ¬ crlfBytes <:+: utf8 text := by
  rintro ⟨u, v, huv⟩
  apply h
  clear h
  induction text generalizing u with
  | nil =>
    have hlength := congrArg List.length huv
    simp [crlfBytes, utf8] at hlength
  | cons c rest ih =>
    have hrest : ∀ u, u ++ crlfBytes ++ v = utf8 rest → crlf <:+: c :: rest := by
      intro u hu
      exact (ih u hu).trans (List.suffix_cons c rest).isInfix
    rw [Js.utf8_cons, List.append_assoc] at huv
    obtain ⟨t, henc, ht⟩ | ⟨t, -, ht⟩ := List.append_eq_append_iff.mp huv
    · cases t with
      | nil => exact hrest [] ht
      | cons b t =>
        -- the carriage return is the character, and the line feed starts the rest
        obtain ⟨rfl, hbehind⟩ := List.cons.inj ht
        obtain ⟨hcode, hone⟩ := Js.encodeChar_of_byte (henc ▸ List.mem_append_right u (List.mem_cons_self ..))
          (by decide)
        have hlength := congrArg List.length (hone ▸ henc)
        obtain rfl : t = [] := by
          apply List.eq_nil_of_length_eq_zero
          simp only [List.length_append, List.length_cons, List.length_nil] at hlength
          omega
        have hhead : (utf8 rest).head? = some 10 := (congrArg List.head? hbehind).symm
        obtain ⟨d, more, rfl, hfeed, -⟩ := head_of_utf8 hhead (by decide)
        obtain rfl : c = '\r' := Char.toNat_inj.mp hcode
        obtain rfl : d = '\n' := Char.toNat_inj.mp hfeed
        exact ⟨[], more, rfl⟩
    · exact hrest t (by rw [ht, List.append_assoc])

theorem utf8_intercalate (parts : List (List Char)) :
    utf8 (List.intercalate crlf parts) = List.intercalate crlfBytes (parts.map utf8) := by
  induction parts with
  | nil => rfl
  | cons part parts ih =>
    cases parts with
    | nil => simp [List.intercalate]
    | cons next more =>
      have hmap : (next :: more).map utf8 ≠ [] := List.cons_ne_nil _ _
      rw [List.map_cons, intercalate_cons (List.cons_ne_nil next more), intercalate_cons hmap, ← ih,
        Js.utf8_append, Js.utf8_append]
      rfl

theorem not_crlf_stuffLine (h : ¬ crlf <:+: line) : ¬ crlf <:+: stuffLine line := by
  unfold stuffLine
  split_ifs with hdot
  · intro hinside
    rcases List.infix_cons_iff.mp hinside with hprefix | hinside
    · have := (List.cons_prefix_cons.mp hprefix).1
      exact absurd this (by decide)
    · exact h hinside
  · exact h

/-- A stuffed line is never the one that ends the message, and the receiver takes off what was put
in front. -/
theorem unstuffLine_stuffLine (line : List Char) :
    utf8 (stuffLine line) ≠ [46] ∧ unstuffLine (utf8 (stuffLine line)) = utf8 line := by
  unfold stuffLine
  split_ifs with hdot
  · obtain ⟨rest, rfl⟩ := List.head?_eq_some_iff.mp hdot
    have hbytes : utf8 ('.' :: '.' :: rest) = 46 :: utf8 ('.' :: rest) := rfl
    rw [hbytes]
    refine ⟨?_, if_pos rfl⟩
    intro hone
    exact absurd (List.cons.inj hone).2 (List.cons_ne_nil _ _)
  · have hhead : (utf8 line).head? ≠ some 46 := by
      intro hbyte
      obtain ⟨c, rest, rfl, hcode, -⟩ := head_of_utf8 hbyte (by decide)
      obtain rfl : c = '.' := Char.toNat_inj.mp hcode
      exact hdot rfl
    refine ⟨?_, if_neg hhead⟩
    intro hone
    exact hhead (by rw [hone]; rfl)

/-- The receiver takes the lines of the body and nothing of what stands behind them. -/
theorem takeMessage_stuffed (lines : List (List Char)) :
    takeMessage (lines.map (fun line => utf8 (stuffLine line)) ++ [[46], []]) =
      some (lines.map utf8, [[]]) := by
  induction lines with
  | nil => rfl
  | cons line lines ih =>
    obtain ⟨hnot, hline⟩ := unstuffLine_stuffLine line
    obtain ⟨next, more, hmore⟩ := List.exists_cons_of_ne_nil
      (show lines.map (fun line => utf8 (stuffLine line)) ++ [[46], []] ≠ [] by simp)
    rw [List.map_cons, List.cons_append, hmore, takeMessage, if_neg hnot, ← hmore, ih, Option.map_some, hline]
    rfl

/-- The stream as one list of lines. -/
theorem messageData_eq (body : List Char) :
    messageData body =
      List.intercalate crlf ((split crlf 0 (crlfBreaks body)).map stuffLine ++ [['.'], []]) := by
  have hjoin : ∀ parts : List (List Char), parts ≠ [] →
      List.intercalate crlf (parts ++ [['.'], []]) = List.intercalate crlf parts ++ crlf ++ ['.'] ++ crlf := by
    intro parts
    induction parts with
    | nil => exact fun h => absurd rfl h
    | cons part parts ih =>
      intro _
      rw [List.cons_append, intercalate_cons (by simp)]
      cases parts with
      | nil => simp [List.intercalate]
      | cons next more =>
        rw [ih (List.cons_ne_nil next more), intercalate_cons (List.cons_ne_nil next more)]
        simp only [List.append_assoc]
  rw [hjoin]
  · rfl
  · simpa using split_ne_nil (crlfBreaks body)

/-- The receiver gets the body with its bare line feeds closed, and the stream ends with it. -/
theorem message_received (body : List Char) :
    receive (utf8 (messageData body)) = some (utf8 (bareFeedsClosed none body), []) := by
  have hne : crlf ≠ [] := List.cons_ne_nil _ _
  have hbytes : crlfBytes ≠ [] := List.cons_ne_nil _ _
  have hparts : ∀ part ∈ ((split crlf 0 (crlfBreaks body)).map stuffLine ++ [['.'], []]).map utf8,
      ¬ crlfBytes <:+: part := by
    intro part hpart
    obtain ⟨line, hline, rfl⟩ := List.mem_map.mp hpart
    apply not_crlf_utf8
    rcases List.mem_append.mp hline with hline | hline
    · obtain ⟨raw, hraw, rfl⟩ := List.mem_map.mp hline
      exact not_crlf_stuffLine (not_infix_of_mem_split hne hraw)
    · have hlast : ∀ line ∈ [['.'], []], ¬ crlf <:+: line := by decide
      exact hlast line hline
  have hlines : split crlfBytes 0 (utf8 (messageData body)) =
      (split crlf 0 (crlfBreaks body)).map (fun line => utf8 (stuffLine line)) ++ [[46], []] := by
    rw [messageData_eq, utf8_intercalate,
      split_intercalate hbytes (by decide) (by simp) hparts, List.map_append, List.map_map]
    rfl
  unfold receive
  rw [hlines, takeMessage_stuffed, Option.map_some, ← utf8_intercalate, intercalate_split hne,
    crlfBreaks_eq body none (by simp)]
  rfl

end Received

section Sent

variable {rt : Runtime} {codec : MimeCodec} {mail : OutgoingMail} {stamp : Stamp} {text : List Char} {w : SmtpWrite}

theorem issues_command {line : String} {codes : List Nat} :
    Issues (SmtpSession.command line codes) w ↔ w = .line line := by
  rw [SmtpSession.command, issues_bind, issues_perform]
  constructor
  · rintro (h | ⟨response, -, h⟩)
    · exact h
    · split_ifs at h <;> cases h
  · exact Or.inl

theorem returns_command (line : String) {codes : List Nat} {code : Nat} (hcode : code ∈ codes) :
    Returns (SmtpSession.command line codes) () := by
  have hreply : Returns (perform (SmtpWrite.line line) : Delivery SmtpReply) ⟨code, []⟩ :=
    .later (.ok ⟨code, []⟩) .done
  rw [SmtpSession.command]
  apply returns_bind hreply
  rw [if_pos hcode]
  exact .done

theorem issues_rcptAll {recipients : List (List Char)} :
    Issues (SmtpSession.rcptAll recipients) w ↔
      ∃ r ∈ recipients, w = .line (rcptCommand (String.ofList r)) := by
  induction recipients with
  | nil =>
    simp only [List.not_mem_nil, false_and, exists_false, iff_false]
    exact not_issues_done ()
  | cons recipient rest ih =>
    have hreturns := returns_command (rcptCommand (String.ofList recipient)) (by decide : 250 ∈ [250, 251])
    rw [SmtpSession.rcptAll, issues_seq hreturns, issues_command, ih]
    simp only [List.mem_cons, exists_eq_or_imp]

theorem returns_rcptAll (recipients : List (List Char)) : Returns (SmtpSession.rcptAll recipients) () := by
  induction recipients with
  | nil => exact .done
  | cons recipient rest ih => exact returns_bind (returns_command _ (by decide : 250 ∈ [250, 251])) ih

/-- The writes of a delivery: a line for each command, and the message behind them. -/
theorem issues_sendMail (hne : mail.to ++ mail.cc ++ mail.bcc ≠ []) :
    Issues (SmtpSession.sendMail rt codec mail stamp) w ↔
      w = .line (mailCommand (String.ofList mail.from)) ∨
      (∃ r ∈ mail.to ++ mail.cc ++ mail.bcc, w = .line (rcptCommand (String.ofList r))) ∨
      w = .line "DATA" ∨ w = .raw (messageData (buildMimeMessage rt codec mail stamp)) := by
  unfold SmtpSession.sendMail
  dsimp only
  rw [if_neg hne, issues_seq (returns_command _ (List.mem_singleton.mpr rfl)), issues_seq (returns_rcptAll _),
    issues_seq (returns_command _ (List.mem_singleton.mpr rfl)), issues_command, issues_rcptAll, issues_command]
  refine or_congr_right (or_congr_right (or_congr_right ?_))
  rw [issues_bind, issues_perform]
  constructor
  · rintro (h | ⟨response, -, h⟩)
    · exact h
    · split_ifs at h <;> cases h
  · exact Or.inl

theorem not_issues_sendMail (hnone : mail.to ++ mail.cc ++ mail.bcc = []) :
    ¬ Issues (SmtpSession.sendMail rt codec mail stamp) w := by
  unfold SmtpSession.sendMail
  dsimp only
  rw [if_pos hnone]
  intro h
  cases h

/-- The lines of a delivery are the commands of the tool's plan for it. -/
theorem issues_sendMail_line (hne : mail.to ++ mail.cc ++ mail.bcc ≠ []) (line : String) :
    Issues (SmtpSession.sendMail rt codec mail stamp) (.line line) ↔
      Issues (Plan.send (String.ofList mail.from)
        ((mail.to ++ mail.cc ++ mail.bcc).map String.ofList)).session (.smtp line) := by
  rw [issues_sendMail hne, issues_send (by simpa using hne)]
  simp only [SmtpWrite.line.injEq, MailCall.smtp.injEq, reduceCtorEq, or_false, List.mem_map,
    exists_exists_and_eq_and]

/-- The one raw write of a session is the message. -/
theorem sendMail_raw (h : Issues (SmtpSession.sendMail rt codec mail stamp) (.raw text)) :
    text = messageData (buildMimeMessage rt codec mail stamp) := by
  by_cases hne : mail.to ++ mail.cc ++ mail.bcc = []
  · exact absurd h (not_issues_sendMail hne)
  · rcases (issues_sendMail hne).mp h with h | ⟨r, -, h⟩ | h | h
    · cases h
    · cases h
    · cases h
    · exact SmtpWrite.raw.inj h

end Sent

end T560.Mail
