import T560.Mail.Fetch
import T560.Mail.Headers

/-!
# Sent mail in a listing

A listing asks for a few header fields of each message. What `sendMail` has written is what it
shows, whatever the texts of the mail are, and a conversation falls apart behind its second mail.
-/

namespace T560.Mail

open Channels (OBJECT_NAMES)
open Js (Runtime Units isSpace trimChars utf8)
open Occurrence
open Program (Issues)

/-- The fields that a listing asks for. -/
def FETCHED_FIELDS : List String := ["subject", "from", "to", "date", "message-id", "in-reply-to", "references"]

/-- The line is of a field that is asked for. -/
def isFetched (line : List Char) : Bool :=
  String.ofList ((line.takeWhile (· ≠ ':')).map Char.toLower) ∈ FETCHED_FIELDS

/-- A line of a header that does not go on with the line before it. -/
def HeaderLine (line : List Char) : Prop := OneLiner line ∧ ∃ c ∈ line.head?, isSpace c = false

instance (line : List Char) : Decidable (HeaderLine line) :=
  have : Decidable (∃ c ∈ line.head?, isSpace c = false) := Option.decidableExistsMem _
  inferInstanceAs (Decidable (_ ∧ _))

/-- What a mail server answers to `BODY.PEEK[HEADER.FIELDS (…)]` for a message: of its header, up to
the first empty line, the fields that are asked for in their order, and an empty line. -/
structure AnswersFields (server : List Char → List Char) : Prop where
  answer : ∀ lines more, (∀ line ∈ lines, HeaderLine line) → more ≠ [] →
    server (List.intercalate crlf (lines ++ [] :: more)) =
      List.intercalate crlf (lines.filter isFetched ++ [[], []])

/-- The lines in front of the first empty one. -/
def headerLines (message : List Char) : List (List Char) := (split crlf 0 message).takeWhile (· ≠ [])

/-- A server that takes the lines one by one. -/
def fetchedHeader (message : List Char) : List Char :=
  List.intercalate crlf ((headerLines message).filter isFetched ++ [[], []])

/-- The clock and the random numbers bring texts of one line. -/
structure Stamp.Plain (stamp : Stamp) : Prop where
  date : OneLiner stamp.date
  messageUuid : OneLiner stamp.messageUuid
  boundaryUuid : OneLiner stamp.boundaryUuid

/-- Several values in one field. -/
def joinedValues (sep : List Char) (values : List (List Char)) : List Char :=
  List.intercalate sep (values.map sanitizeHeaderValue)

theorem oneLiner_joinedValues {sep : List Char} (hsep : OneLiner sep) (values : List (List Char)) :
    OneLiner (joinedValues sep values) := by
  apply oneLiner_intercalate hsep
  intro part hpart
  obtain ⟨value, -, rfl⟩ := List.mem_map.mp hpart
  exact oneLiner_sanitize value

section Written

variable (rt : Runtime) (mail : OutgoingMail) (stamp : Stamp)

def OutgoingMail.subjectText : List Char :=
  encodeHeaderValue bufferCodec (if mail.subject = [] then "(no subject)".toList else mail.subject)

theorem OutgoingMail.oneLiner_subjectText : OneLiner mail.subjectText := oneLiner_encodeHeaderValue _

/-- The fields of the mail, told by their lines. -/
def writtenFields (h : stamp.Plain) : List WrittenField :=
  [⟨"Date", "date", stamp.date, h.date, by decide, by decide, by decide⟩,
    ⟨"From", "from", sanitizeHeaderValue mail.from, oneLiner_sanitize _, by decide, by decide, by decide⟩,
    ⟨"To", "to", joinedValues [',', ' '] mail.to, oneLiner_joinedValues (by decide) _, by decide, by decide,
      by decide⟩,
    ⟨"Subject", "subject", mail.subjectText, mail.oneLiner_subjectText, by decide, by decide, by decide⟩,
    ⟨"Message-ID", "message-id", sanitizeHeaderValue (messageId rt mail stamp), oneLiner_sanitize _, by decide,
      by decide, by decide⟩,
    ⟨"MIME-Version", "mime-version", "1.0".toList, by decide, by decide, by decide, by decide⟩] ++
  (if mail.cc = [] then []
    else [⟨"Cc", "cc", joinedValues [',', ' '] mail.cc, oneLiner_joinedValues (by decide) _, by decide, by decide,
      by decide⟩]) ++
  (if trimChars mail.inReplyTo = [] then []
    else [⟨"In-Reply-To", "in-reply-to", sanitizeHeaderValue mail.inReplyTo, oneLiner_sanitize _, by decide,
      by decide, by decide⟩]) ++
  (if mail.references = [] then []
    else [⟨"References", "references", joinedValues [' '] mail.references, oneLiner_joinedValues (by decide) _,
      by decide, by decide, by decide⟩])

end Written

section Built

variable {rt : Runtime} {mail : OutgoingMail} {stamp : Stamp} {text line rest : List Char}
  {lines more : List (List Char)}

theorem messageHeaders_eq (h : stamp.Plain) :
    messageHeaders rt bufferCodec mail stamp = (writtenFields rt mail stamp h).map WrittenField.line := by
  have hline : ∀ name label : String, label.toList = name.toList ++ [':', ' '] →
      ∀ key text htext hkey hne hchars,
        WrittenField.line ⟨name, key, text, htext, hkey, hne, hchars⟩ = label.toList ++ text := by
    intro name label hlabel key text htext hkey hne hchars
    rw [hlabel, List.append_assoc]
    rfl
  unfold messageHeaders writtenFields
  simp only [List.map_append, apply_ite (List.map WrittenField.line), List.map_cons, List.map_nil]
  rw [hline "Date" "Date: " (by decide), hline "From" "From: " (by decide), hline "To" "To: " (by decide),
    hline "Subject" "Subject: " (by decide), hline "Message-ID" "Message-ID: " (by decide),
    hline "MIME-Version" "MIME-Version: " (by decide), hline "Cc" "Cc: " (by decide),
    hline "In-Reply-To" "In-Reply-To: " (by decide), hline "References" "References: " (by decide)]
  have hcomma : ", ".toList = [',', ' '] := by decide
  have hversion : "MIME-Version: 1.0".toList = "MIME-Version: ".toList ++ "1.0".toList := by decide
  rw [hcomma, hversion]
  rfl

theorem split_line (h : OneLiner line) : split crlf 0 (line ++ crlf ++ rest) = line :: split crlf 0 rest := by
  induction line with
  | nil =>
    have hhit : crlf.isPrefixOf ('\r' :: '\n' :: rest) = true := by simp [crlf, List.isPrefixOf]
    show split crlf 0 ('\r' :: '\n' :: rest) = _
    rw [split, if_pos hhit]
    rfl
  | cons c line ih =>
    have hc : '\r' ≠ c := fun hc => h.1 (hc ▸ List.mem_cons_self ..)
    have hmiss : ¬ crlf.isPrefixOf (c :: (line ++ crlf ++ rest)) = true := by
      simp [crlf, List.isPrefixOf, hc]
    rw [List.cons_append, List.cons_append, split, if_neg hmiss, ih (h.of_subset (List.subset_cons_self c line))]
    rfl

/-- The lines in front of the first empty line of a message. -/
theorem headerLines_joined (hlines : ∀ line ∈ lines, HeaderLine line) (hmore : more ≠ []) :
    headerLines (List.intercalate crlf (lines ++ [] :: more)) = lines := by
  unfold headerLines
  induction lines with
  | nil =>
    rw [List.nil_append, intercalate_cons hmore, split_line ⟨List.not_mem_nil, List.not_mem_nil⟩,
      List.takeWhile_cons_of_neg (by simp)]
  | cons line lines ih =>
    obtain ⟨hline, c, hc, -⟩ := hlines line (List.mem_cons_self ..)
    have hne : line ≠ [] := List.ne_nil_of_mem (List.mem_of_head? hc)
    rw [List.cons_append, intercalate_cons (by simp), split_line hline,
      List.takeWhile_cons_of_pos (by simpa using hne), ih fun l hl => hlines l (List.mem_cons_of_mem _ hl)]

theorem crlfBreaks_append (front back : List Char) :
    crlfBreaks (front ++ crlf ++ back) = crlfBreaks front ++ crlf ++ crlfBreaks back := by
  induction front using crlfBreaks.induct with
  | case1 rest ih =>
    show crlfBreaks ('\r' :: '\n' :: (rest ++ crlf ++ back)) = _
    rw [crlfBreaks, ih]
    simp [crlfBreaks]
  | case2 c rest hnot ih =>
    have hnot' : ∀ more, c = '\r' → rest ++ crlf ++ back = '\n' :: more → False := by
      intro more hc hrest
      cases rest with
      | nil => simp [crlf] at hrest
      | cons d rest =>
        rw [List.cons_append, List.cons_append, List.cons.injEq] at hrest
        exact hnot rest hc (by rw [hrest.1])
    rw [List.cons_append, List.cons_append, crlfBreaks, ih, crlfBreaks]
    · simp
    · exact hnot
    · exact hnot'
  | case3 => simp [crlf, crlfBreaks]

theorem crlfBreaks_oneLiner (h : OneLiner text) : crlfBreaks text = text := by
  induction text with
  | nil => rfl
  | cons c text ih =>
    have hc : c ≠ '\n' := fun hc => h.2 (hc ▸ List.mem_cons_self ..)
    rw [crlfBreaks, if_neg hc, ih (h.of_subset (List.subset_cons_self c text))]
    · rfl
    · rintro rest rfl -
      exact h.1 (List.mem_cons_self ..)

theorem bareFeedsClosed_twice {before previous : Option Char} (text : List Char)
    (h : previous = some '\r' → before = some '\r') :
    bareFeedsClosed before (bareFeedsClosed previous text) = bareFeedsClosed previous text := by
  induction text generalizing before previous with
  | nil => rfl
  | cons c text ih =>
    rw [bareFeedsClosed]
    split_ifs with hc
    · obtain ⟨rfl, -⟩ := hc
      simp [bareFeedsClosed, ih fun h => h]
    · have hc' : ¬ (c = '\n' ∧ before ≠ some '\r') :=
        fun hboth => hc ⟨hboth.1, fun hprevious => hboth.2 (h hprevious)⟩
      rw [List.singleton_append, bareFeedsClosed, if_neg hc', ih fun h => h]
      rfl

theorem crlfBreaks_crlfBreaks (text : List Char) : crlfBreaks (crlfBreaks text) = crlfBreaks text := by
  rw [crlfBreaks_eq (crlfBreaks text) none nofun, crlfBreaks_eq text none nofun]
  exact bareFeedsClosed_twice text fun h => h

theorem crlfBreaks_joined {parts : List (List Char)} (h : ∀ part ∈ parts, crlfBreaks part = part) :
    crlfBreaks (List.intercalate crlf parts) = List.intercalate crlf parts := by
  induction parts with
  | nil => rfl
  | cons part parts ih =>
    have hpart := h part (List.mem_cons_self ..)
    by_cases hnil : parts = []
    · subst hnil
      simpa [List.intercalate] using hpart
    · rw [intercalate_cons hnil, crlfBreaks_append, hpart, ih fun p hp => h p (List.mem_cons_of_mem _ hp)]

theorem isFetched_named {name : List Char} (hname : ':' ∉ name) (rest : List Char) :
    isFetched (name ++ ':' :: rest) = decide (String.ofList (name.map Char.toLower) ∈ FETCHED_FIELDS) := by
  have htake : (name ++ ':' :: rest).takeWhile (· ≠ ':') = name := by
    rw [List.takeWhile_append_of_pos, List.takeWhile_cons_of_neg (by simp), List.append_nil]
    intro c hc
    simp only [decide_eq_true_eq]
    exact fun he => hname (he ▸ hc)
  rw [isFetched, htake]

theorem WrittenField.isFetched_line (f : WrittenField) : isFetched f.line = decide (f.key ∈ FETCHED_FIELDS) := by
  rw [WrittenField.line, isFetched_named fun h => (f.name_chars ':' h).2.1 rfl, f.key_eq]

/-- A line about the content, which a listing does not ask for. -/
def ContentLine (line : List Char) : Prop := HeaderLine line ∧ isFetched line = false

instance (line : List Char) : Decidable (ContentLine line) := inferInstanceAs (Decidable (_ ∧ _))

theorem contentLine_closed {lines : List (List Char)} (h : ∀ line ∈ lines, ContentLine line) :
    ∀ line ∈ lines, crlfBreaks line = line := fun line hline => crlfBreaks_oneLiner (h line hline).1.1

theorem contentHeaders_lines {subtype : String} (h : subtype ∈ ["plain", "html"]) :
    ∃ first second, contentHeaders subtype = [first, second, []] ∧
      ∀ line ∈ [first, second], ContentLine line := by
  refine ⟨_, _, rfl, ?_⟩
  revert subtype
  decide

/-- The line that names the boundary. -/
theorem contentLine_boundary (h : stamp.Plain) :
    ContentLine ("Content-Type: multipart/alternative; boundary=\"".toList ++
      ("t560-".toList ++ stamp.boundaryUuid) ++ ['"']) := by
  obtain ⟨rest, htype, hrest⟩ : ∃ rest, "Content-Type: multipart/alternative; boundary=\"".toList ++
      ("t560-".toList ++ stamp.boundaryUuid) ++ ['"'] = "Content-Type".toList ++ ':' :: rest ∧ OneLiner rest := by
    refine ⟨" multipart/alternative; boundary=\"".toList ++ ("t560-".toList ++ stamp.boundaryUuid) ++ ['"'],
      by simp, ?_⟩
    simp only [oneLiner_append]
    exact ⟨⟨by decide, by decide, h.boundaryUuid⟩, by decide⟩
  rw [htype]
  refine ⟨⟨?_, 'C', by simp, by decide⟩, ?_⟩
  · rw [oneLiner_append]
    exact ⟨by decide, by simpa [OneLiner] using hrest⟩
  · rw [isFetched_named (by decide)]
    decide

theorem crlfBreaks_boundary (h : stamp.Plain) :
    crlfBreaks ("--".toList ++ ("t560-".toList ++ stamp.boundaryUuid)) =
        "--".toList ++ ("t560-".toList ++ stamp.boundaryUuid) ∧
      crlfBreaks ("--".toList ++ ("t560-".toList ++ stamp.boundaryUuid) ++ "--".toList) =
        "--".toList ++ ("t560-".toList ++ stamp.boundaryUuid) ++ "--".toList := by
  constructor <;> apply crlfBreaks_oneLiner <;> simp only [oneLiner_append]
  · exact ⟨by decide, by decide, h.boundaryUuid⟩
  · exact ⟨⟨by decide, by decide, h.boundaryUuid⟩, by decide⟩

/-- The message begins with the lines of its fields and those about its content, which a listing does
not ask for, and its other parts have no bare line feed. -/
theorem built_lines (h : stamp.Plain) :
    ∃ content more : List (List Char),
      buildMimeMessage rt bufferCodec mail stamp =
        List.intercalate crlf ((writtenFields rt mail stamp h).map WrittenField.line ++ content ++ [] :: more) ∧
      more ≠ [] ∧ (∀ line ∈ content, ContentLine line) ∧ ∀ part ∈ more, crlfBreaks part = part := by
  obtain ⟨first, second, hcontent, hlines⟩ := contentHeaders_lines (show "plain" ∈ _ by simp)
  obtain ⟨first', second', hcontent', hlines'⟩ := contentHeaders_lines (show "html" ∈ _ by simp)
  obtain ⟨plain, hplain, hbody⟩ : ∃ plain, (if crlfBreaks mail.text = [] then "(no content)".toList
      else crlfBreaks mail.text) = plain ∧ crlfBreaks plain = plain := by
    refine ⟨_, rfl, ?_⟩
    split_ifs
    · decide
    · exact crlfBreaks_crlfBreaks _
  have hhtml := crlfBreaks_crlfBreaks mail.html
  unfold buildMimeMessage
  dsimp only
  rw [messageHeaders_eq h, hcontent, hcontent', hplain]
  by_cases hboth : crlfBreaks mail.html ≠ [] ∧ crlfBreaks mail.text ≠ []
  · rw [if_pos hboth]
    have htype := contentLine_boundary h
    have hboundary := crlfBreaks_boundary h
    generalize "Content-Type: multipart/alternative; boundary=\"".toList ++
      ("t560-".toList ++ stamp.boundaryUuid) ++ ['"'] = type at htype ⊢
    generalize "--".toList ++ ("t560-".toList ++ stamp.boundaryUuid) = opening at hboundary ⊢
    generalize opening ++ "--".toList = closing at hboundary ⊢
    refine ⟨[type], [opening, first, second, [], plain, [], opening, first', second', [],
      crlfBreaks mail.html, [], closing, []], ?_, List.cons_ne_nil _ _, ?_, ?_⟩
    · simp only [List.append_assoc, List.cons_append, List.nil_append]
    · intro line hline
      obtain rfl := List.mem_singleton.mp hline
      exact htype
    · simp [hboundary.1, hboundary.2, hbody, hhtml, contentLine_closed hlines, contentLine_closed hlines',
        crlfBreaks]
  · rw [if_neg hboth]
    by_cases hsome : crlfBreaks mail.html ≠ []
    · rw [if_pos hsome]
      exact ⟨[first', second'], [crlfBreaks mail.html, []], by simp, by simp, hlines', by simp [hhtml, crlfBreaks]⟩
    · rw [if_neg hsome]
      exact ⟨[first, second], [plain, []], by simp, by simp, hlines, by simp [hbody, crlfBreaks]⟩

theorem writtenLines_spec (h : stamp.Plain) :
    ∀ line ∈ (writtenFields rt mail stamp h).map WrittenField.line, HeaderLine line := by
  intro line hline
  obtain ⟨f, -, rfl⟩ := List.mem_map.mp hline
  obtain ⟨c, name, hname⟩ := List.exists_cons_of_ne_nil f.name_ne
  refine ⟨f.oneLiner_line, c, ?_, (f.name_chars c (by rw [hname]; exact List.mem_cons_self ..)).1⟩
  rw [WrittenField.line, hname]
  rfl

/-- No line feed of a built message stands alone. -/
theorem built_closed (h : stamp.Plain) :
    crlfBreaks (buildMimeMessage rt bufferCodec mail stamp) = buildMimeMessage rt bufferCodec mail stamp := by
  obtain ⟨content, more, hbuilt, -, hcontent, hmore⟩ := @built_lines rt mail stamp h
  rw [hbuilt]
  apply crlfBreaks_joined
  intro part hpart
  rcases List.mem_append.mp hpart with hpart | hpart
  · rcases List.mem_append.mp hpart with hpart | hpart
    · exact crlfBreaks_oneLiner (writtenLines_spec h part hpart).1
    · exact crlfBreaks_oneLiner (hcontent part hpart).1.1
  · rcases List.mem_cons.mp hpart with rfl | hpart
    · rfl
    · exact hmore part hpart

/-- Of the header of a built message a listing gets the lines of the fields that it asks for. -/
theorem answer_built (h : stamp.Plain) {server : List Char → List Char} (hserver : AnswersFields server) :
    server (buildMimeMessage rt bufferCodec mail stamp) =
      List.intercalate crlf (((writtenFields rt mail stamp h).filter fun f => f.key ∈ FETCHED_FIELDS).map
        WrittenField.line ++ [[], []]) := by
  obtain ⟨content, more, hbuilt, hmore, hcontent, -⟩ := @built_lines rt mail stamp h
  have hlines : ∀ line ∈ (writtenFields rt mail stamp h).map WrittenField.line ++ content, HeaderLine line := by
    intro line hline
    rcases List.mem_append.mp hline with hline | hline
    · exact writtenLines_spec h line hline
    · exact (hcontent line hline).1
  have hnone : content.filter isFetched = [] :=
    List.filter_eq_nil_iff.mpr fun line hline => by simp [(hcontent line hline).2]
  have hfilter : ((writtenFields rt mail stamp h).map WrittenField.line).filter isFetched =
      ((writtenFields rt mail stamp h).filter fun f => f.key ∈ FETCHED_FIELDS).map WrittenField.line := by
    rw [List.filter_map]
    refine congrArg _ (List.filter_congr ?_)
    intro f _
    rw [Function.comp_apply, f.isFetched_line]
  rw [hbuilt, hserver.answer _ _ hlines hmore, List.filter_append, hnone, List.append_nil, hfilter]

theorem answersFields_fetchedHeader : AnswersFields fetchedHeader where
  answer := by
    intro lines more hlines hmore
    rw [fetchedHeader, headerLines_joined hlines hmore]

theorem shown_nil : shown bufferCodec [] = [] := rfl

theorem sanitizeHeaderValue_blank (h : trimChars text = []) : sanitizeHeaderValue text = [] := by
  apply Js.trimChars_nil_of_isSpace
  intro c hc
  rcases mem_replaceRuns hc with rfl | ⟨hc, -⟩
  · decide
  · exact Js.isSpace_of_trimChars_nil h c hc

/-- The mail as the row of a listing shows it. -/
def OutgoingMail.listed (rt : Runtime) (mail : OutgoingMail) (stamp : Stamp) (entry : ParsedMessage)
    (snippet : Units) : ShapedMessage :=
  let messageId := shown bufferCodec (sanitizeHeaderValue (messageId rt mail stamp))
  let inReplyTo := shown bufferCodec (sanitizeHeaderValue mail.inReplyTo)
  let references := shown bufferCodec (joinedValues [' '] mail.references)
  { sequence := entry.sequence
    uid := entry.uid
    flags := entry.flags
    size := entry.size
    date := shown bufferCodec stamp.date
    «from» := shown bufferCodec (sanitizeHeaderValue mail.from)
    «to» := shown bufferCodec (joinedValues [',', ' '] mail.to)
    subject := shown bufferCodec mail.subjectText
    messageId
    inReplyTo
    references := parseReferences references
    threadKey := threadKeyOf inReplyTo references messageId
    snippet }

/-- Each field that is asked for is found with its text, or is not there. -/
theorem find_written (h : stamp.Plain) {name : String} (hname : name ∈ FETCHED_FIELDS) {headers : Headers}
    (hentries : headers.entries = ((writtenFields rt mail stamp h).filter fun f => f.key ∈ FETCHED_FIELDS).map
      fun f => (f.key, [shown bufferCodec f.text])) :
    firstHeader headers name =
      ((writtenFields rt mail stamp h).find? fun f => f.key = name).map fun f => shown bufferCodec f.text := by
  rw [firstHeader_eq name hentries, List.find?_filter]
  refine congrArg _ (congrArg (List.find? · _) ?_)
  funext f
  by_cases hf : f.key = name <;> simp [hf, hname]

theorem shapeMessage_built (h : stamp.Plain) {server : List Char → List Char} (hserver : AnswersFields server)
    (includeBody : Bool) (maxSnippet : Nat) (entry : ParsedMessage)
    (hraw : entry.headersRaw.toList = server (buildMimeMessage rt bufferCodec mail stamp)) :
    shapeMessage rt bufferCodec includeBody maxSnippet entry =
      .ok (mail.listed rt stamp entry (if includeBody then compactText entry.bodyRaw maxSnippet else [])) := by
  have hkeys : ((writtenFields rt mail stamp h).map WrittenField.key).Nodup := by
    unfold writtenFields
    split_ifs <;> simp
  have hnames : ∀ name ∈ FETCHED_FIELDS, name ∉ OBJECT_NAMES := by decide
  obtain ⟨headers, hparse, hentries⟩ := @parseRfc822Headers_lines rt bufferCodec
    ((writtenFields rt mail stamp h).filter fun f => f.key ∈ FETCHED_FIELDS)
    (hkeys.sublist (List.filter_sublist.map _)) fun f hf => hnames f.key (by simpa using List.of_mem_filter hf)
  have hfind {name : String} (hname : name ∈ FETCHED_FIELDS) := find_written h hname hentries
  have hdate : firstHeader headers "date" = some (shown bufferCodec stamp.date) := by
    rw [hfind (by decide)]
    simp [writtenFields]
  have hfrom : firstHeader headers "from" = some (shown bufferCodec (sanitizeHeaderValue mail.from)) := by
    rw [hfind (by decide)]
    simp [writtenFields]
  have hto : firstHeader headers "to" = some (shown bufferCodec (joinedValues [',', ' '] mail.to)) := by
    rw [hfind (by decide)]
    simp [writtenFields]
  have hsubject : firstHeader headers "subject" = some (shown bufferCodec mail.subjectText) := by
    rw [hfind (by decide)]
    simp [writtenFields]
  have hid : firstHeader headers "message-id" =
      some (shown bufferCodec (sanitizeHeaderValue (messageId rt mail stamp))) := by
    rw [hfind (by decide)]
    simp [writtenFields]
  have hreply : (firstHeader headers "in-reply-to").getD [] =
      shown bufferCodec (sanitizeHeaderValue mail.inReplyTo) := by
    rw [hfind (by decide)]
    unfold writtenFields
    split_ifs with _ hblank <;> simp [*, sanitizeHeaderValue_blank, shown_nil]
  have hrefs : (firstHeader headers "references").getD [] =
      shown bufferCodec (joinedValues [' '] mail.references) := by
    rw [hfind (by decide)]
    unfold writtenFields
    split_ifs with _ _ hnone <;> simp [*, joinedValues, shown_nil]
  rw [shapeMessage, hraw, answer_built h hserver, hparse, Js.ok_bind]
  simp only [messageThreadKey, hdate, hfrom, hto, hsubject, hid, hreply, hrefs, Option.getD_some]
  rfl

end Built

section Sent

variable {rt : Runtime} {codec : MimeCodec} {mail : OutgoingMail} {stamp : Stamp} {text : List Char}

/-- The receiver cuts a message of closed lines where the sender has joined it. -/
theorem receive_messageData {body : List Char} (h : crlfBreaks body = body) :
    receive (utf8 (messageData body)) = some (utf8 body, []) := by
  have hfree : ∀ part ∈ ((split crlf 0 body).map stuffLine ++ [['.'], []]).map utf8, ¬ crlfBytes <:+: part := by
    intro part hpart
    obtain ⟨line, hline, rfl⟩ := List.mem_map.mp hpart
    apply not_crlf_utf8
    rcases List.mem_append.mp hline with hline | hline
    · obtain ⟨raw, hraw, rfl⟩ := List.mem_map.mp hline
      exact not_crlf_stuffLine (not_infix_of_mem_split (by decide) hraw)
    · have hend : ∀ line ∈ [['.'], []], ¬ crlf <:+: line := by decide
      exact hend line hline
  have hsplit := split_intercalate (by decide) (by decide) (by simp) hfree
  rw [← utf8_intercalate, List.map_append, List.map_map] at hsplit
  have hlines := takeMessage_stuffed (split crlf 0 body)
  unfold receive
  rw [messageData_eq, h, hsplit]
  rw [show [['.'], []].map utf8 = [[46], []] by decide, Function.comp_def, hlines, Option.map_some,
    ← utf8_intercalate, intercalate_split (by decide)]
  rfl

/-- What is sent is what a listing shows: the receiver gets the built message, and whatever the texts
of the mail are, each field of the row has the mail's own text for it and none gets into another. -/
theorem sent_mail_listed (hstamp : stamp.Plain) (server : List Char → List Char) (hserver : AnswersFields server)
    (h : Issues (SmtpSession.sendMail rt bufferCodec mail stamp) (.raw text)) :
    receive (utf8 text) = some (utf8 (buildMimeMessage rt bufferCodec mail stamp), []) ∧
      ∀ (includeBody : Bool) (maxSnippet : Nat) (entry : ParsedMessage),
        entry.headersRaw.toList = server (buildMimeMessage rt bufferCodec mail stamp) →
          shapeMessage rt bufferCodec includeBody maxSnippet entry =
            .ok (mail.listed rt stamp entry (if includeBody then compactText entry.bodyRaw maxSnippet else [])) := by
  constructor
  · rw [sendMail_raw h, receive_messageData (built_closed hstamp)]
  · exact fun includeBody maxSnippet entry hraw =>
      shapeMessage_built hstamp hserver includeBody maxSnippet entry hraw

/-- A subject that would add a recipient. -/
def injectingMail : OutgoingMail where
  «from» := "a@example.com".toList
  «to» := ["b@example.com".toList]
  cc := []
  bcc := []
  subject := "Hi\r\nTo: c@example.com".toList
  text := "hello".toList
  html := []
  inReplyTo := []
  references := []

def epoch : List Char := "Thu, 01 Jan 1970 00:00:00 GMT".toList

theorem oneLiner_epoch : OneLiner epoch := by decide

def sampleStamp : Stamp := ⟨epoch, ['1'], ['2']⟩

theorem sent_mail_listed_injecting :
    ∃ (text : List Char) (row : ShapedMessage),
      Issues (SmtpSession.sendMail Js.asciiRuntime bufferCodec injectingMail sampleStamp) (.raw text) ∧
      receive (utf8 text) = some (utf8 (buildMimeMessage Js.asciiRuntime bufferCodec injectingMail sampleStamp), []) ∧
      shapeMessage Js.asciiRuntime bufferCodec false 0
        { sequence := 1
          headersRaw := String.ofList
            (fetchedHeader (buildMimeMessage Js.asciiRuntime bufferCodec injectingMail sampleStamp)) } = .ok row ∧
      row.subject = "Hi To: c@example.com".toList ∧ row.to = "b@example.com".toList := by
  have hplain : sampleStamp.Plain := ⟨oneLiner_epoch, by decide, by decide⟩
  have hne : injectingMail.to ++ injectingMail.cc ++ injectingMail.bcc ≠ [] := by decide
  have hissues := (@issues_sendMail Js.asciiRuntime bufferCodec injectingMail sampleStamp _ hne).mpr
    (Or.inr (Or.inr (Or.inr rfl)))
  obtain ⟨hreceived, hlisted⟩ := sent_mail_listed hplain fetchedHeader answersFields_fetchedHeader hissues
  have hsubject : shown bufferCodec injectingMail.subjectText = "Hi To: c@example.com".toList := by decide
  have hto : shown bufferCodec (joinedValues [',', ' '] injectingMail.to) = "b@example.com".toList := by decide
  exact ⟨_, _, hissues, hreceived, hlisted false 0 _ String.toList_ofList, hsubject, hto⟩

end Sent

/-! ## Conversations -/

/-- A mail that was sent, with what the clock and the random numbers brought. -/
structure SentMail where
  mail : OutgoingMail
  stamp : Stamp
  plain : stamp.Plain
  /-- The digits of a random id. -/
  uuid : ∀ c ∈ stamp.messageUuid, ('0' ≤ c ∧ c ≤ '9') ∨ ('a' ≤ c ∧ c ≤ 'f') ∨ c = '-'

section Conversation

variable (rt : Runtime)

/-- The id that `sendMail` returns. -/
def SentMail.id (m : SentMail) : List Char := messageId rt m.mail m.stamp

def SentMail.message (m : SentMail) : List Char := buildMimeMessage rt bufferCodec m.mail m.stamp

/-- The second mail is sent as a reply to the first. -/
def RepliesTo (original reply : SentMail) : Prop := reply.mail.inReplyTo = original.id rt

def SentMail.AnswersNothing (m : SentMail) : Prop := trimChars m.mail.inReplyTo = [] ∧ m.mail.references = []

/-- The key under which a listing puts the mail. -/
def SentMail.threadKey (m : SentMail) : List Char :=
  threadKeyOf (shown bufferCodec (sanitizeHeaderValue m.mail.inReplyTo))
    (shown bufferCodec (joinedValues [' '] m.mail.references)) (shown bufferCodec (sanitizeHeaderValue (m.id rt)))

variable {rt} {m original reply : SentMail} {mails : List SentMail} {text : List Char}

/-- A character of an id. -/
def IdChar (c : Char) : Prop := Printable c ∧ c ≠ ' ' ∧ c ≠ '?'

theorem replaceRuns_self {p : Char → Bool} {x : Char} {inRun : Bool} (h : ∀ c ∈ text, p c = false) :
    Js.replaceRuns p x inRun text = text := by
  induction text generalizing inRun with
  | nil => rfl
  | cons c text ih =>
    rw [Js.replaceRuns, if_neg (by simp [h c]), ih fun d hd => h d (List.mem_cons_of_mem _ hd)]

theorem idChar_of_code {c : Char} (h : 33 ≤ c.toNat ∧ c.toNat < 127 ∧ c.toNat ≠ 63) : IdChar c := by
  refine ⟨⟨by omega, h.2.1⟩, ?_, ?_⟩ <;> rintro rfl <;> revert h <;> decide

theorem idChar_domain (value : List Char) : ∀ c ∈ parseDomainFromEmailAddress rt value, IdChar c := by
  intro c hc
  have hmem : ('a' ≤ c ∧ c ≤ 'z') ∨ Js.isDigit c = true ∨ c = '.' ∨ c = '-' := by
    unfold parseDomainFromEmailAddress at hc
    dsimp only at hc
    split_ifs at hc
    · cases hc
    · simpa using List.of_mem_filter hc
  apply idChar_of_code
  rcases hmem with ⟨hlow, hhigh⟩ | hdigit | rfl | rfl
  · have : 97 ≤ c.toNat ∧ c.toNat ≤ 122 := ⟨hlow, hhigh⟩
    omega
  · simp only [Js.isDigit, Bool.and_eq_true, decide_eq_true_eq] at hdigit
    omega
  · decide
  · decide

theorem idChar_uuid (m : SentMail) : ∀ c ∈ m.stamp.messageUuid, IdChar c ∧ c ≠ '@' := by
  intro c hc
  rcases m.uuid c hc with ⟨hlow, hhigh⟩ | ⟨hlow, hhigh⟩ | rfl
  · have : 48 ≤ c.toNat ∧ c.toNat ≤ 57 := ⟨hlow, hhigh⟩
    refine ⟨idChar_of_code (by omega), ?_⟩
    rintro rfl
    revert this
    decide
  · have : 97 ≤ c.toNat ∧ c.toNat ≤ 102 := ⟨hlow, hhigh⟩
    refine ⟨idChar_of_code (by omega), ?_⟩
    rintro rfl
    revert this
    decide
  · exact ⟨idChar_of_code (by decide), by decide⟩

theorem idChar_id (m : SentMail) : ∀ c ∈ m.id rt, IdChar c := by
  intro c hc
  have hdomain : ∀ c ∈ (if parseDomainFromEmailAddress rt m.mail.from = [] then "t560.local".toList
      else parseDomainFromEmailAddress rt m.mail.from), IdChar c := by
    split_ifs
    · intro c hc
      have hlocal : ∀ c ∈ "t560.local".toList, 33 ≤ c.toNat ∧ c.toNat < 127 ∧ c.toNat ≠ 63 := by decide
      exact idChar_of_code (hlocal c hc)
    · exact idChar_domain _
  have hmark : ∀ c ∈ ['<', '@', '>'], 33 ≤ c.toNat ∧ c.toNat < 127 ∧ c.toNat ≠ 63 := by decide
  simp only [SentMail.id, messageId, List.mem_append, List.mem_singleton] at hc
  rcases hc with (((rfl | hc) | rfl) | hc) | rfl
  · exact idChar_of_code (hmark _ (by simp))
  · exact (idChar_uuid m c hc).1
  · exact idChar_of_code (hmark _ (by simp))
  · exact hdomain c hc
  · exact idChar_of_code (hmark _ (by simp))

/-- A text of such characters is shown as it was written. -/
theorem shown_id (h : ∀ c ∈ text, IdChar c) : sanitizeHeaderValue text = text ∧ shown bufferCodec text = text := by
  have hspace : ∀ c ∈ text, isSpace c = false := fun c hc => isSpace_of_printable (h c hc).1 (h c hc).2.1
  have htrim : trimChars text = text := by
    apply Js.trimChars_eq_self
    · exact fun c hc => hspace c (List.mem_of_head? hc)
    · exact fun c hc => hspace c (List.mem_of_getLast? hc)
  have hruns : Js.replaceRuns (fun c => c = '\r' ∨ c = '\n') ' ' false text = text := by
    apply replaceRuns_self
    intro c hc
    have hprintable := (h c hc).1
    simp only [decide_eq_false_iff_not]
    rintro (rfl | rfl) <;> revert hprintable <;> decide
  have hword : ¬ HasEncodedWord text := by
    rintro ⟨w, -, hinside⟩
    exact (h '?' (hinside.subset (by simp [EncodedWord.text]))).2.2 rfl
  refine ⟨by rw [sanitizeHeaderValue, hruns, htrim], ?_⟩
  rw [shown, htrim]
  exact (decode_printable_iff bufferCodec fun c hc => (h c hc).1).mpr hword

theorem id_eq (m : SentMail) : ∃ rest, m.id rt = '<' :: (m.stamp.messageUuid ++ '@' :: rest) := by
  rw [SentMail.id, messageId]
  generalize (if parseDomainFromEmailAddress rt m.mail.from = [] then "t560.local".toList
    else parseDomainFromEmailAddress rt m.mail.from) = domain
  exact ⟨domain ++ ['>'], by simp⟩

/-- A reply is filed under the mail that it answers. -/
theorem threadKey_of_reply (h : RepliesTo rt original reply) : reply.threadKey rt = original.id rt := by
  obtain ⟨hsafe, hshown⟩ := shown_id (@idChar_id rt original)
  have htrim : trimChars (original.id rt) = original.id rt := by
    rw [← hsafe, sanitizeHeaderValue, Js.trimChars_trimChars]
  have hne : original.id rt ≠ [] := by
    obtain ⟨rest, hid⟩ := @id_eq rt original
    rw [hid]
    exact List.cons_ne_nil _ _
  rw [SentMail.threadKey, h, hsafe, hshown, threadKeyOf, htrim, if_pos hne]

theorem threadKey_of_first (h : m.AnswersNothing) : m.threadKey rt = m.id rt := by
  obtain ⟨hsafe, hshown⟩ := shown_id (@idChar_id rt m)
  rw [SentMail.threadKey, sanitizeHeaderValue_blank h.1, h.2, hsafe, hshown]
  rfl

/-- Ids of different random numbers differ. -/
theorem id_injective {a b : SentMail} (h : a.id rt = b.id rt) : a.stamp.messageUuid = b.stamp.messageUuid := by
  obtain ⟨rest, ha⟩ := @id_eq rt a
  obtain ⟨rest', hb⟩ := @id_eq rt b
  have hat : ∀ (m : SentMail) (rest : List Char),
      (m.stamp.messageUuid ++ '@' :: rest).takeWhile (· ≠ '@') = m.stamp.messageUuid := by
    intro m rest
    rw [List.takeWhile_append_of_pos, List.takeWhile_cons_of_neg (by simp), List.append_nil]
    exact fun c hc => by simpa using (idChar_uuid m c hc).2
  rw [ha, hb, List.cons.injEq] at h
  rw [← hat a rest, h.2, hat b rest']

theorem listed_threadKey (m : SentMail) (entry : ParsedMessage) (snippet : Units) :
    (m.mail.listed rt m.stamp entry snippet).threadKey = m.threadKey rt := by
  rw [OutgoingMail.listed, SentMail.threadKey, SentMail.id]

/-- The keys that a listing shows for sent mails. -/
theorem threadKeys_listed {server : List Char → List Char} (hserver : AnswersFields server)
    (includeBody : Bool) (maxSnippet : Nat) {entries : List ParsedMessage}
    (hentries : entries.map (fun e => e.headersRaw.toList) = mails.map fun m => server (m.message rt)) :
    ∃ rows : List ShapedMessage, shapeMessages rt bufferCodec entries includeBody maxSnippet = .ok rows ∧
      rows.map (fun row => row.threadKey) = mails.map fun m => m.threadKey rt := by
  induction entries generalizing mails with
  | nil =>
    cases mails with
    | nil => exact ⟨[], rfl, rfl⟩
    | cons m mails => cases hentries
  | cons entry entries ih =>
    cases mails with
    | nil => cases hentries
    | cons m mails =>
      simp only [List.map_cons, List.cons.injEq] at hentries
      obtain ⟨rows, hrows, hkeys⟩ := ih hentries.2
      have hrow := shapeMessage_built m.plain hserver includeBody maxSnippet entry hentries.1
      generalize (if includeBody then compactText entry.bodyRaw maxSnippet else []) = snippet at hrow
      refine ⟨m.mail.listed rt m.stamp entry snippet :: rows, ?_, ?_⟩
      · rw [shapeMessages, List.mapM_cons, hrow, Js.ok_bind]
        rw [shapeMessages] at hrows
        rw [hrows]
        rfl
      · rw [List.map_cons, List.map_cons, hkeys, listed_threadKey]

/-- In a chain of replies each mail but the first is filed under the one that it answers, so only the
first two mails of a conversation have the same key. -/
theorem conversation_thread_keys (server : List Char → List Char) (hserver : AnswersFields server)
    (includeBody : Bool) (maxSnippet : Nat) {entries : List ParsedMessage}
    (hentries : entries.map (fun e => e.headersRaw.toList) = mails.map fun m => server (m.message rt))
    (hchain : mails.IsChain (RepliesTo rt)) (hfirst : ∀ m ∈ mails.head?, m.AnswersNothing)
    (hids : (mails.map fun m => m.stamp.messageUuid).Nodup) :
    ∃ rows : List ShapedMessage, shapeMessages rt bufferCodec entries includeBody maxSnippet = .ok rows ∧
      rows.length = mails.length ∧
      ∀ (i j : Nat) (_ : i < j) (_ : j < rows.length), rows[i].threadKey = rows[j].threadKey ↔ i = 0 ∧ j = 1 := by
  obtain ⟨rows, hrows, hkeys⟩ := threadKeys_listed hserver includeBody maxSnippet hentries
  have hlength : rows.length = mails.length := by simpa using congrArg List.length hkeys
  refine ⟨rows, hrows, hlength, ?_⟩
  intro i j hij hj
  have hkey : ∀ (k : Nat) (hk : k < rows.length) (hk' : k < mails.length),
      rows[k].threadKey = mails[k].threadKey rt := by
    intro k hk hk'
    have := congrArg (fun l : List (List Char) => l[k]?) hkeys
    simpa [hk, hk'] using this
  have hreply : ∀ (k : Nat) (hk : k + 1 < mails.length), mails[k + 1].threadKey rt = mails[k].id rt := by
    intro k hk
    exact threadKey_of_reply (List.isChain_iff_getElem.mp hchain k hk)
  have hsame : ∀ (k l : Nat) (hk : k < mails.length) (hl : l < mails.length),
      mails[k].id rt = mails[l].id rt → k = l := by
    intro k l hk hl he
    have huuid := id_injective he
    have hmap : (mails.map fun m => m.stamp.messageUuid)[k]? = (mails.map fun m => m.stamp.messageUuid)[l]? := by
      simp [hk, hl, huuid]
    exact (List.getElem?_inj (by simpa using hk) hids).mp hmap
  obtain ⟨j, rfl⟩ : ∃ n, j = n + 1 := ⟨j - 1, by omega⟩
  rw [hkey i (by omega) (by omega), hkey (j + 1) hj (by omega), hreply j (by omega)]
  cases i with
  | zero =>
    have hzero : mails[0].threadKey rt = mails[0].id rt :=
      threadKey_of_first (hfirst _ (by rw [List.head?_eq_getElem?]; simp))
    rw [hzero]
    constructor
    · intro he
      have := hsame 0 j (by omega) (by omega) he
      omega
    · rintro ⟨-, hj⟩
      obtain rfl : j = 0 := by omega
      rfl
  | succ i =>
    rw [hreply i (by omega)]
    constructor
    · intro he
      have := hsame i j (by omega) (by omega) he
      omega
    · rintro ⟨hi, -⟩
      omega

def threeMails : List SentMail :=
  let first : OutgoingMail := { injectingMail with subject := "Hi".toList }
  let send (mail : OutgoingMail) (uuid : List Char) (h : OneLiner uuid)
      (h' : ∀ c ∈ uuid, ('0' ≤ c ∧ c ≤ '9') ∨ ('a' ≤ c ∧ c ≤ 'f') ∨ c = '-') : SentMail :=
    ⟨mail, ⟨epoch, uuid, ['0']⟩, ⟨oneLiner_epoch, h, ⟨by simp, by simp⟩⟩, h'⟩
  let one := send first ['a'] (by decide) (by decide)
  let two := send { first with inReplyTo := one.id Js.asciiRuntime } ['b'] (by decide) (by decide)
  [one, two, send { first with inReplyTo := two.id Js.asciiRuntime } ['c'] (by decide) (by decide)]

theorem conversation_thread_keys_three :
    ∃ (entries : List ParsedMessage) (rows : List ShapedMessage),
      shapeMessages Js.asciiRuntime bufferCodec entries false 0 = .ok rows ∧
      ∃ one two three, rows = [one, two, three] ∧ one.threadKey = two.threadKey ∧ two.threadKey ≠ three.threadKey := by
  obtain ⟨rows, hrows, hlength, hkeys⟩ := @conversation_thread_keys Js.asciiRuntime threeMails fetchedHeader
    answersFields_fetchedHeader false 0
    (threeMails.map fun m => { sequence := 1, headersRaw := String.ofList (fetchedHeader (m.message Js.asciiRuntime)) })
    (by rw [List.map_map]; exact List.map_congr_left fun m _ => String.toList_ofList)
    (.cons_cons rfl (.cons_cons rfl (.singleton _))) (by rintro m ⟨⟩; exact ⟨rfl, rfl⟩) (by decide)
  obtain ⟨one, two, three, rfl⟩ := List.length_eq_three.mp hlength
  refine ⟨_, _, hrows, one, two, three, rfl, (hkeys 0 1 (by decide) (by simp)).mpr ⟨rfl, rfl⟩, ?_⟩
  intro he
  exact absurd ((hkeys 1 2 (by decide) (by simp)).mp he).1 (by decide)

end Conversation

end T560.Mail
