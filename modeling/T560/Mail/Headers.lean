import T560.Channels.Pairing
import T560.Foundation.InsertionMap
import T560.Js.Lines
import T560.Mail.Message

/-!
# Headers of a listed message

The reader takes the header of a message apart line by line. A field whose name and text stay in one
line is filed under its name, and no other field is.
-/

namespace T560.Mail

open Channels (OBJECT_NAMES)
open Js (JsError Runtime Units charUnits isSpace replaceCrlf splitLines trim trimChars)
open Occurrence

section Parse

variable (rt : Runtime) (codec : MimeCodec)

/-- `/^[ \t]/` -/
def isFolded (line : List Char) : Bool := line.head? = some ' ' || line.head? = some '\t'

/-- A folded line goes on with the line in front of it. -/
def unfoldLine (unfolded : List (List Char)) (line : List Char) : List (List Char) :=
  match unfolded.getLast? with
  | some last =>
    if isFolded line then unfolded.dropLast ++ [last ++ ' ' :: trimChars line] else unfolded ++ [line]
  | none => unfolded ++ [line]

def unfoldedLines (raw : List Char) : List (List Char) :=
  (splitLines (replaceCrlf raw)).foldl unfoldLine []

/-- The name and the value of a line that has both. -/
def headerField (line : List Char) : Option (String × List Char) :=
  let trimmed := trimChars line
  match indexOf [':'] trimmed with
  | some (idx + 1) =>
    some (rt.toLowerCase (trim (String.ofList (trimmed.take (idx + 1)))),
      decodeMimeEncodedWords codec (trimChars (trimmed.drop (idx + 2))))
  | _ => none

abbrev Headers := InsertionMap String (List (List Char))

/-- A name that every object answers to finds something that nothing can be pushed to. -/
def addHeader (headers : Headers) (key : String) (value : List Char) : Except JsError Headers :=
  match headers.get key with
  | some values => .ok (headers.set key (values ++ [value]))
  | none => if key ∈ OBJECT_NAMES then .error .typeError else .ok (headers.set key [value])

def addLine (headers : Headers) (line : List Char) : Except JsError Headers :=
  match headerField rt codec line with
  | some (key, value) => addHeader headers key value
  | none => .ok headers

def parseRfc822Headers (raw : List Char) : Except JsError Headers :=
  (unfoldedLines raw).foldlM (addLine rt codec) InsertionMap.empty

end Parse

section Shape

variable (rt : Runtime) (codec : MimeCodec)

/-- `headers[name]?.[0]` -/
def firstHeader (headers : Headers) (name : String) : Option (List Char) := (headers.get name).bind List.head?

def parseReferences (value : List Char) : List (List Char) :=
  let raw := trimChars value
  if raw = [] then [] else ((raw.splitOnP isSpace).map trimChars).filter (· ≠ [])

/-- The key of a message that answers another one is that one's id. -/
def threadKeyOf (inReplyTo references messageId : List Char) : List Char :=
  if trimChars inReplyTo ≠ [] then trimChars inReplyTo
  else ((parseReferences references).getLast?).getD messageId

def messageThreadKey (headers : Headers) : List Char :=
  threadKeyOf ((firstHeader headers "in-reply-to").getD []) ((firstHeader headers "references").getD [])
    ((firstHeader headers "message-id").getD [])

/-- `text.trim()`, for the units of a text. -/
def trimUnits (text : Units) : Units :=
  let blank : UInt16 → Bool := fun u => isSpace (Char.ofNat u.toNat)
  (text.dropWhile blank).rdropWhile blank

def compactText (value : String) (maxChars : Nat) : Units :=
  let text := Js.units (trim (Js.collapse value))
  if text.length ≤ maxChars then text else trimUnits (text.take (maxChars - 3)) ++ Js.units "..."

structure ShapedMessage where
  sequence : Nat
  uid : Option Nat
  flags : List String
  size : Nat
  date : List Char
  «from» : List Char
  «to» : List Char
  subject : List Char
  messageId : List Char
  inReplyTo : List Char
  references : List (List Char)
  threadKey : List Char
  snippet : Units
  deriving DecidableEq

def shapeMessage (includeBody : Bool) (maxSnippet : Nat) (entry : ParsedMessage) :
    Except JsError ShapedMessage := do
  let headers ← parseRfc822Headers rt codec entry.headersRaw.toList
  return {
    sequence := entry.sequence
    uid := entry.uid
    flags := entry.flags
    size := entry.size
    date := (firstHeader headers "date").getD entry.internalDate.toList
    «from» := (firstHeader headers "from").getD []
    «to» := (firstHeader headers "to").getD []
    subject := (firstHeader headers "subject").getD "(no subject)".toList
    messageId := (firstHeader headers "message-id").getD []
    inReplyTo := (firstHeader headers "in-reply-to").getD []
    references := parseReferences ((firstHeader headers "references").getD [])
    threadKey := messageThreadKey headers
    snippet := if includeBody then compactText entry.bodyRaw maxSnippet else [] }

def shapeMessages (messages : List ParsedMessage) (includeBody : Bool) (maxSnippet : Nat) :
    Except JsError (List ShapedMessage) :=
  messages.mapM (shapeMessage rt codec includeBody maxSnippet)

end Shape

/-! ## Lines without breaks -/

/-- A text of one line. -/
def OneLiner (text : List Char) : Prop := '\r' ∉ text ∧ '\n' ∉ text

instance (text : List Char) : Decidable (OneLiner text) := inferInstanceAs (Decidable (_ ∧ _))

section Lines

variable {line rest text : List Char} {parts : List (List Char)}

theorem oneLiner_append {a b : List Char} : OneLiner (a ++ b) ↔ OneLiner a ∧ OneLiner b := by
  simp only [OneLiner, List.mem_append, not_or]
  tauto

theorem OneLiner.of_subset (h : OneLiner text) (hsub : line ⊆ text) : OneLiner line :=
  ⟨fun hr => h.1 (hsub hr), fun hn => h.2 (hsub hn)⟩

theorem trimChars_subset (text : List Char) : trimChars text ⊆ text := by
  intro c hc
  exact (List.dropWhile_suffix _).subset ((List.rdropWhile_prefix _ _).subset hc)

theorem mem_replaceRuns {p : Char → Bool} {x c : Char} {inRun : Bool} (h : c ∈ Js.replaceRuns p x inRun text) :
    c = x ∨ c ∈ text ∧ p c = false := by
  induction text generalizing inRun with
  | nil => cases h
  | cons d text ih =>
    rw [Js.replaceRuns] at h
    have hlater : (c = x ∨ c ∈ text ∧ p c = false) → c = x ∨ c ∈ d :: text ∧ p c = false :=
      fun h => h.imp_right fun h => ⟨List.mem_cons_of_mem _ h.1, h.2⟩
    split_ifs at h with hd hrun
    · exact hlater (ih h)
    · rcases List.mem_cons.mp h with h | h
      · exact Or.inl h
      · exact hlater (ih h)
    · rcases List.mem_cons.mp h with rfl | h
      · exact Or.inr ⟨List.mem_cons_self .., Bool.eq_false_iff.mpr hd⟩
      · exact hlater (ih h)

theorem oneLiner_sanitize (value : List Char) : OneLiner (sanitizeHeaderValue value) := by
  have hruns : OneLiner (Js.replaceRuns (fun c => c = '\r' ∨ c = '\n') ' ' false value) := by
    constructor <;> intro h <;> rcases mem_replaceRuns h with h | ⟨-, h⟩ <;> simp at h
  exact hruns.of_subset (trimChars_subset _)

theorem oneLiner_intercalate {sep : List Char} (hsep : OneLiner sep) (h : ∀ part ∈ parts, OneLiner part) :
    OneLiner (List.intercalate sep parts) := by
  induction parts with
  | nil => exact ⟨List.not_mem_nil, List.not_mem_nil⟩
  | cons part parts ih =>
    have hpart := h part (List.mem_cons_self ..)
    by_cases hnil : parts = []
    · subst hnil
      simpa [List.intercalate] using hpart
    · rw [intercalate_cons hnil, oneLiner_append, oneLiner_append]
      exact ⟨⟨hpart, hsep⟩, ih fun p hp => h p (List.mem_cons_of_mem _ hp)⟩

theorem base64Digit_visible (n : Nat) : Js.base64Digit n ≠ '\r' ∧ Js.base64Digit n ≠ '\n' := by
  by_cases h : n < 64
  · have hall : ∀ n < 64, Js.base64Digit n ≠ '\r' ∧ Js.base64Digit n ≠ '\n' := by decide
    exact hall n h
  · unfold Js.base64Digit
    rw [if_neg (by omega), if_neg (by omega), if_neg (by omega), if_neg (by omega)]
    decide

theorem oneLiner_toBase64 (bytes : Bytes) : OneLiner (Js.toBase64 bytes) := by
  have hdigit := fun n => (base64Digit_visible n).1.symm
  have hdigit' := fun n => (base64Digit_visible n).2.symm
  unfold OneLiner
  induction bytes using Js.toBase64.induct with
  | case1 a b c rest ih => simp [Js.toBase64, hdigit, hdigit', ih]
  | case2 a b => simp [Js.toBase64, hdigit, hdigit']
  | case3 a => simp [Js.toBase64, hdigit, hdigit']
  | case4 => simp [Js.toBase64]

theorem oneLiner_encodeHeaderValue (value : List Char) : OneLiner (encodeHeaderValue bufferCodec value) := by
  unfold encodeHeaderValue
  dsimp only
  split_ifs
  · exact ⟨List.not_mem_nil, List.not_mem_nil⟩
  · exact oneLiner_sanitize value
  · rw [oneLiner_append, oneLiner_append]
    exact ⟨⟨by decide, oneLiner_toBase64 _⟩, by decide⟩

theorem replaceCrlf_line (h : OneLiner line) :
    replaceCrlf (line ++ (crlf ++ rest)) = line ++ '\n' :: replaceCrlf rest := by
  induction line with
  | nil => simp [crlf, replaceCrlf]
  | cons c line ih =>
    have hc : c ≠ '\r' := fun hc => h.1 (hc ▸ List.mem_cons_self ..)
    have hline : OneLiner line := h.of_subset (List.subset_cons_self c line)
    obtain ⟨d, more, hmore⟩ : ∃ d more, line ++ (crlf ++ rest) = d :: more := by
      cases line <;> simp [crlf]
    rw [List.cons_append, List.cons_append, hmore, replaceCrlf, if_neg fun hboth => hc hboth.1, ← hmore,
      ih hline]

/-- The lines of a text that is joined of lines, and ends with an empty one. -/
theorem splitLines_joined (h : ∀ part ∈ parts, OneLiner part) :
    splitLines (replaceCrlf (List.intercalate crlf (parts ++ [[], []]))) = parts ++ [[], []] := by
  induction parts with
  | nil => decide
  | cons part parts ih =>
    have hpart := h part (List.mem_cons_self ..)
    rw [List.cons_append, intercalate_cons (by simp), List.append_assoc, replaceCrlf_line hpart,
      Js.splitLines_append, ih fun p hp => h p (List.mem_cons_of_mem _ hp),
      Js.splitLines_single fun c hc hn => hpart.2 (hn ▸ hc)]
    rfl

theorem foldl_unfoldLine {unfolded : List (List Char)} (h : ∀ part ∈ parts, isFolded part = false) :
    parts.foldl unfoldLine unfolded = unfolded ++ parts := by
  induction parts generalizing unfolded with
  | nil => simp
  | cons part parts ih =>
    have hstep : unfoldLine unfolded part = unfolded ++ [part] := by
      unfold unfoldLine
      split
      · rw [if_neg (by simp [h part])]
      · rfl
    rw [List.foldl_cons, hstep, ih fun p hp => h p (List.mem_cons_of_mem _ hp), List.append_assoc]
    rfl

end Lines

/-! ## Written fields -/

/-- A field as a line of a header: neither its name nor its text can end the line. -/
structure WrittenField where
  name : String
  /-- The name under which the reader files the field. -/
  key : String
  text : List Char
  text_line : OneLiner text
  key_eq : String.ofList (name.toList.map Char.toLower) = key
  name_ne : name.toList ≠ []
  name_chars : ∀ c ∈ name.toList, isSpace c = false ∧ c ≠ ':' ∧ Js.isAscii c = true

def WrittenField.line (f : WrittenField) : List Char := f.name.toList ++ ':' :: ' ' :: f.text

section Fields

variable {rt : Runtime} {codec : MimeCodec} {f : WrittenField} {fields : List WrittenField}

/-- A text of a header as the reader shows it. -/
def shown (codec : MimeCodec) (text : List Char) : List Char :=
  decodeMimeEncodedWords codec (trimChars text)

theorem WrittenField.oneLiner_line (f : WrittenField) : OneLiner f.line := by
  have hname : OneLiner f.name.toList := by
    constructor <;> intro h <;> have := (f.name_chars _ h).1 <;> revert this <;> decide
  have htext : OneLiner (':' :: ' ' :: f.text) := by
    have := f.text_line
    simpa [OneLiner] using this
  exact oneLiner_append.mpr ⟨hname, htext⟩

theorem WrittenField.isFolded_line (f : WrittenField) : isFolded f.line = false := by
  obtain ⟨c, rest, hname⟩ := List.exists_cons_of_ne_nil f.name_ne
  have hspace : isSpace c = false := (f.name_chars c (by rw [hname]; exact List.mem_cons_self ..)).1
  have hblank : c ≠ ' ' ∧ c ≠ '\t' := by
    constructor <;> rintro rfl <;> revert hspace <;> decide
  simp [isFolded, WrittenField.line, hname, hblank.1, hblank.2]

theorem trimChars_append_spaces {text blanks : List Char} (h : ∀ c ∈ blanks, isSpace c = true) :
    trimChars (text ++ blanks) = trimChars text := by
  induction blanks using List.reverseRecOn with
  | nil => rw [List.append_nil]
  | append_singleton blanks c ih =>
    rw [← List.append_assoc, Js.trimChars_append_space (h c (by simp)),
      ih fun d hd => h d (List.mem_append_left _ hd)]

/-- The end of a text is trimmed alone. -/
theorem trimChars_rdropWhile (text : List Char) : trimChars (text.rdropWhile isSpace) = trimChars text := by
  have hblanks : ∀ c ∈ text.rtakeWhile isSpace, isSpace c = true := fun c hc => List.mem_rtakeWhile_imp hc
  have hwhole : text.rdropWhile isSpace ++ text.rtakeWhile isSpace = text := List.rdropWhile_append_rtakeWhile
  rw [← trimChars_append_spaces hblanks, hwhole]

theorem rdropWhile_behind {p : Char → Bool} {c : Char} (hc : p c = false) (front back : List Char) :
    (front ++ c :: back).rdropWhile p = front ++ c :: back.rdropWhile p := by
  induction back using List.reverseRecOn with
  | nil =>
    rw [List.rdropWhile_concat_neg _ _ _ (by simp [hc])]
    simp
  | append_singleton back d ih =>
    rw [← List.cons_append, ← List.append_assoc]
    by_cases hd : p d = true
    · rw [List.rdropWhile_concat_pos _ _ _ hd, List.rdropWhile_concat_pos _ _ _ hd, ih]
    · rw [List.rdropWhile_concat_neg _ _ _ hd, List.rdropWhile_concat_neg _ _ _ hd, List.append_assoc,
        List.cons_append]

/-- A line is trimmed behind its colon. -/
theorem WrittenField.trimChars_line (f : WrittenField) :
    trimChars f.line = f.name.toList ++ ':' :: (' ' :: f.text).rdropWhile isSpace := by
  have hfront : f.line.dropWhile isSpace = f.line := by
    apply Js.dropWhile_eq_self
    intro c hc
    obtain ⟨d, rest, hname⟩ := List.exists_cons_of_ne_nil f.name_ne
    rw [WrittenField.line, hname, List.cons_append, List.head?_cons, Option.some.injEq] at hc
    exact (f.name_chars c (by rw [hname, hc]; exact List.mem_cons_self ..)).1
  rw [trimChars, hfront, WrittenField.line]
  exact rdropWhile_behind (by decide) _ _

/-- The reader finds the name and the text of a field. -/
theorem headerField_line (f : WrittenField) :
    headerField rt codec f.line = some (f.key, shown codec f.text) := by
  have hcolon : ¬ [':'] <:+: f.name.toList := by
    intro h
    exact (f.name_chars ':' (h.subset (List.mem_cons_self ..))).2.1 rfl
  have hplace : indexOf [':'] (trimChars f.line) = some f.name.toList.length := by
    rw [f.trimChars_line]
    exact indexOf_append (by decide) hcolon
  obtain ⟨n, hn⟩ : ∃ n, f.name.toList.length = n + 1 :=
    Nat.exists_eq_succ_of_ne_zero fun h => f.name_ne (List.eq_nil_of_length_eq_zero h)
  have hspace : ∀ c ∈ f.name.toList, isSpace c = false := fun c hc => (f.name_chars c hc).1
  have hascii : f.name.toList.all Js.isAscii = true :=
    List.all_eq_true.mpr fun c hc => (f.name_chars c hc).2.2
  have hkey : rt.toLowerCase (trim (String.ofList ((trimChars f.line).take (n + 1)))) = f.key := by
    rw [f.trimChars_line, ← hn, List.take_left, String.ofList_toList, Js.trim_eq_self_of_noSpace hspace,
      rt.lower_ascii _ hascii, f.key_eq]
  have htext : trimChars ((trimChars f.line).drop (n + 2)) = trimChars f.text := by
    have hdrop : (trimChars f.line).drop (n + 2) = (' ' :: f.text).rdropWhile isSpace := by
      rw [f.trimChars_line, show n + 2 = f.name.toList.length + 1 by omega, List.drop_append]
      simp
    rw [hdrop, trimChars_rdropWhile]
    rfl
  unfold headerField
  dsimp only
  rw [hplace, hn]
  dsimp only
  rw [hkey, htext, shown]

/-- Each field is filed under its name, in the order of the lines. -/
theorem addLines (hkeys : (fields.map WrittenField.key).Nodup)
    (hnames : ∀ f ∈ fields, f.key ∉ OBJECT_NAMES) (headers : Headers)
    (hnew : ∀ f ∈ fields, headers.get f.key = none) :
    ∃ behind : Headers, (fields.map WrittenField.line).foldlM (addLine rt codec) headers = .ok behind ∧
      behind.entries = headers.entries ++ fields.map fun f => (f.key, [shown codec f.text]) := by
  induction fields generalizing headers with
  | nil => exact ⟨headers, rfl, by simp⟩
  | cons f fields ih =>
    have hfirst := hnew f (List.mem_cons_self ..)
    have hadd : addLine rt codec headers f.line = .ok (headers.set f.key [shown codec f.text]) := by
      rw [addLine, headerField_line]
      dsimp only
      rw [addHeader, hfirst]
      exact if_neg (hnames f (List.mem_cons_self ..))
    rw [List.map_cons, List.nodup_cons] at hkeys
    obtain ⟨behind, hfold, hentries⟩ := ih hkeys.2 (fun g hg => hnames g (List.mem_cons_of_mem _ hg))
      (headers.set f.key [shown codec f.text]) (by
        intro g hg
        have hne : g.key ≠ f.key := fun he => hkeys.1 (he ▸ List.mem_map_of_mem hg)
        rw [InsertionMap.get_set_ne hne]
        exact hnew g (List.mem_cons_of_mem _ hg))
    refine ⟨behind, ?_, ?_⟩
    · rw [List.map_cons, List.foldlM_cons, hadd]
      exact hfold
    · rw [hentries, InsertionMap.entries_set_new hfirst, List.append_assoc]
      rfl

/-- The reader files exactly the fields whose lines it gets. -/
theorem parseRfc822Headers_lines (hkeys : (fields.map WrittenField.key).Nodup)
    (hnames : ∀ f ∈ fields, f.key ∉ OBJECT_NAMES) :
    ∃ headers : Headers,
      parseRfc822Headers rt codec (List.intercalate crlf (fields.map WrittenField.line ++ [[], []])) =
        .ok headers ∧
      headers.entries = fields.map fun f => (f.key, [shown codec f.text]) := by
  have hlines : ∀ line ∈ fields.map WrittenField.line, OneLiner line := by
    intro line hline
    obtain ⟨f, -, rfl⟩ := List.mem_map.mp hline
    exact f.oneLiner_line
  have hplain : ∀ line ∈ fields.map WrittenField.line ++ [[], []], isFolded line = false := by
    intro line hline
    rcases List.mem_append.mp hline with hline | hline
    · obtain ⟨f, -, rfl⟩ := List.mem_map.mp hline
      exact f.isFolded_line
    · have hempty : ∀ line ∈ [[], []], isFolded line = false := by decide
      exact hempty line hline
  obtain ⟨headers, hfold, hentries⟩ :=
    @addLines rt codec fields hkeys hnames InsertionMap.empty fun _ _ => rfl
  refine ⟨headers, ?_, hentries⟩
  rw [parseRfc822Headers, unfoldedLines, splitLines_joined hlines, foldl_unfoldLine hplain, List.nil_append,
    List.foldlM_append, hfold]
  rfl

/-- What the reader finds under a name. -/
theorem firstHeader_eq {headers : Headers} (name : String)
    (h : headers.entries = fields.map fun f => (f.key, [shown codec f.text])) :
    firstHeader headers name = (fields.find? fun f => f.key = name).map fun f => shown codec f.text := by
  rw [firstHeader, InsertionMap.get, h, List.find?_map, Option.map_map]
  cases hfind : fields.find? ((fun g : String × List (List Char) => decide (g.1 = name)) ∘
      fun f => (f.key, [shown codec f.text])) with
  | none =>
    have hsame : (fields.find? fun f => f.key = name) = none := hfind
    rw [hsame]
    rfl
  | some f =>
    have hsame : (fields.find? fun f => f.key = name) = some f := hfind
    rw [hsame]
    rfl

end Fields

end T560.Mail
