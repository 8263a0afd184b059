import T560.Mail.ImapReading

/-!
# Replies of an SMTP server

A reply is a run of lines. The lines before the last have a dash behind the code, the last one has a
blank there, or is the code alone. The reader stops at the blank.
-/

namespace T560.Mail

open Js (isSpace isDigit)

section Response

def MAX_SMTP_RESPONSE_LINES : Nat := 500

def isLineTerminator (c : Char) : Bool :=
  c ∈ ['\n', '\r', Char.ofNat 0x2028, Char.ofNat 0x2029]

/-- `/^(\d{3})([\s-])(.*)$/`: the digits and the mark behind them. -/
def replyMark (line : String) : Option (String × Char) :=
  match line.toList with
  | a :: b :: c :: mark :: text =>
    if [a, b, c].all isDigit ∧ (isSpace mark = true ∨ mark = '-') ∧ text.all (!isLineTerminator ·) then
      some (String.ofList [a, b, c], mark)
    else none
  | _ => none

variable (env : ImapEnv) (ending : Ending)

/-- The loop of `readResponse` with the lines that it may still read. -/
def responseLoop : Nat → Nat → List String → Reader → Except String (SmtpReply × Reader)
  | 0, _, _, _ =>
    .error ("SMTP response exceeded " ++ toString MAX_SMTP_RESPONSE_LINES ++ " lines.")
  | left + 1, code, lines, reader => do
    let (line, reader) ← readLine env ending reader
    let lines := lines ++ [line]
    match replyMark line with
    | none => responseLoop left code lines reader
    | some (digits, mark) =>
      let code := (env.number digits).getD 0
      if mark = ' ' then .ok (⟨code, lines⟩, reader) else responseLoop left code lines reader

def readResponse (reader : Reader) : Except String (SmtpReply × Reader) :=
  responseLoop env ending MAX_SMTP_RESPONSE_LINES 0 [] reader

end Response

/-! ## The grammar of replies -/

/-- A reply code: the first digit is 2 to 5, the second 0 to 5. -/
structure ReplyCode where
  first : Fin 4
  second : Fin 6
  third : Fin 10

def ReplyCode.value (code : ReplyCode) : Nat := 100 * (code.first + 2) + 10 * code.second + code.third

def ReplyCode.text (code : ReplyCode) : List Char :=
  [Nat.digitChar (code.first + 2), Nat.digitChar code.second, Nat.digitChar code.third]

def TextChar (c : Char) : Prop := c = '\t' ∨ Printable c

instance (c : Char) : Decidable (TextChar c) := inferInstanceAs (Decidable (_ ∨ _))

/-- The text behind a code. -/
structure ReplyText where
  text : List Char
  plain : ∀ c ∈ text, TextChar c

/-- The lines before the last with their codes, and the last line; its text may be missing. -/
structure Reply where
  before : List (ReplyCode × ReplyText)
  code : ReplyCode
  final : Option ReplyText

def continued (line : ReplyCode × ReplyText) : List Char := line.1.text ++ '-' :: line.2.text

def Reply.lastLine (reply : Reply) : List Char :=
  reply.code.text ++ reply.final.elim [] fun text => ' ' :: text.text

def Reply.lines (reply : Reply) : List (List Char) := reply.before.map continued ++ [reply.lastLine]

def lineBytes (line : List Char) : Bytes := encodeAscii line ++ [13, 10]

def Reply.bytes (reply : Reply) : Bytes := reply.lines.flatMap lineBytes

section Codes

variable {code : ReplyCode} {c : Char}

theorem ReplyCode.text_spec (code : ReplyCode) :
    (∀ c ∈ code.text, Printable c ∧ isDigit c = true) ∧ String.ofList code.text = toString code.value ∧
      code.value < 2 ^ 53 := by
  obtain ⟨first, second, third⟩ := code
  revert first second third
  have hall : ∀ (first : Fin 4) (second : Fin 6) (third : Fin 10),
      (∀ c ∈ ReplyCode.text ⟨first, second, third⟩, Printable c ∧ isDigit c = true) ∧
        String.ofList (ReplyCode.text ⟨first, second, third⟩) =
          toString (ReplyCode.value ⟨first, second, third⟩) ∧
        ReplyCode.value ⟨first, second, third⟩ < 2 ^ 53 := by decide +kernel
  exact hall

theorem number_code (env : ImapEnv) (code : ReplyCode) :
    env.number (String.ofList code.text) = some code.value := by
  obtain ⟨-, htext, hbound⟩ := code.text_spec
  rw [htext]
  exact env.number_decimal code.value hbound

/-- A character of a text ends no line. -/
theorem TextChar.spec (h : TextChar c) : UInt8.ofNat c.toNat ≠ 10 ∧ c.toNat < 128 ∧ isLineTerminator c = false := by
  rcases h with rfl | h
  · decide
  · refine ⟨(byte_of_printable h).1, by have := h.2; omega, ?_⟩
    rw [← Bool.not_eq_true]
    intro hmem
    have hmarks : ∀ c ∈ ['\n', '\r', Char.ofNat 0x2028, Char.ofNat 0x2029], ¬ Printable c := by decide
    exact hmarks c (of_decide_eq_true hmem) h

/-- The line as the reader gets it. -/
theorem readLine_reply {env : ImapEnv} {ending : Ending} {reader : Reader} {line : List Char} {rest : Bytes}
    (h : reader.bytes = lineBytes line ++ rest) (hline : ∀ c ∈ line, TextChar c) :
    ∃ behind, readLine env ending reader = .ok (String.ofList line, behind) ∧ behind.bytes = rest := by
  have hbytes : reader.bytes = encodeAscii line ++ 13 :: 10 :: rest := by
    rw [h, lineBytes, List.append_assoc]
    rfl
  have hbreak : 10 ∉ encodeAscii line := by
    intro hmem
    obtain ⟨c, hc, hbyte⟩ := List.mem_map.mp hmem
    exact (hline c hc).spec.1 hbyte
  rw [← env.decode_ascii line fun c hc => (hline c hc).spec.2.1]
  exact readLine_bytes hbytes hbreak

theorem replyMark_text (code : ReplyCode) {mark : Char} {text : List Char}
    (hmark : isSpace mark = true ∨ mark = '-') (htext : ∀ c ∈ text, TextChar c) :
    replyMark (String.ofList (code.text ++ mark :: text)) = some (String.ofList code.text, mark) := by
  have hdigits : code.text.all isDigit = true := by
    rw [List.all_eq_true]
    exact fun c hc => (code.text_spec.1 c hc).2
  have hplain : text.all (!isLineTerminator ·) = true := by
    rw [List.all_eq_true]
    intro c hc
    rw [(htext c hc).spec.2.2]
    rfl
  unfold replyMark
  rw [String.toList_ofList]
  exact if_pos ⟨hdigits, hmark, hplain⟩

/-- The code alone does not match. -/
theorem replyMark_code (code : ReplyCode) : replyMark (String.ofList code.text) = none := by
  unfold replyMark
  rw [String.toList_ofList]
  rfl

end Codes

section Reading

variable {env : ImapEnv} {ending : Ending} {reader behind : Reader} {line : String} {rest : Bytes}
  {left code : Nat} {lines : List String}

theorem takeLine_length {bytes front back : Bytes} (h : takeLine bytes = some (front, back)) :
    back.length < bytes.length := by
  induction bytes using takeLine.induct generalizing front with
  | case1 rest =>
    simp only [takeLine, Option.some.injEq, Prod.mk.injEq] at h
    obtain ⟨-, rfl⟩ := h
    simp only [List.length_cons]
    omega
  | case2 b rest hnot ih =>
    have hstep : takeLine (b :: rest) = (takeLine rest).map fun found => (b :: found.1, found.2) := by
      rw [takeLine]
      exact hnot
    rw [hstep] at h
    obtain ⟨⟨start, back'⟩, hstart, hpair⟩ := Option.map_eq_some_iff.mp h
    obtain ⟨rfl, rfl⟩ := Prod.mk.inj hpair
    have : back'.length < rest.length := ih hstart
    dsimp only [List.length_cons]
    omega
  | case3 => cases h

/-- A line takes bytes from the stream. -/
theorem readLine_length (h : readLine env ending reader = .ok (line, behind)) :
    behind.bytes.length < reader.bytes.length := by
  obtain ⟨buffer, chunks⟩ := reader
  unfold readLine at h
  unfold Reader.bytes
  dsimp only at h ⊢
  have hfound : ∀ {buffer front back : Bytes} {chunks : List Bytes}, takeLine buffer = some (front, back) →
      (back ++ chunks.flatten).length < (buffer ++ chunks.flatten).length := by
    intro buffer front back chunks htake
    have := takeLine_length htake
    simp only [List.length_append]
    omega
  induction chunks generalizing buffer with
  | nil =>
    rw [readLineFrom] at h
    cases htake : takeLine buffer with
    | some found =>
      rw [htake] at h
      obtain ⟨-, rfl⟩ := Prod.mk.inj (Except.ok.inj h)
      exact hfound htake
    | none =>
      rw [htake] at h
      unfold lastLine at h
      cases ending with
      | closed =>
        dsimp only at h
        split_ifs at h with hempty
        obtain ⟨-, rfl⟩ := Prod.mk.inj (Except.ok.inj h)
        have := List.length_pos_iff.mpr hempty
        simpa using this
      | silent => cases h
      | failed message => cases h
  | cons chunk chunks ih =>
    rw [readLineFrom] at h
    cases htake : takeLine buffer with
    | some found =>
      rw [htake] at h
      obtain ⟨-, rfl⟩ := Prod.mk.inj (Except.ok.inj h)
      exact hfound htake
    | none =>
      rw [htake] at h
      have := ih _ h
      rw [List.append_assoc, ← List.flatten_cons] at this
      exact this

/-- A response takes bytes from the stream. -/
theorem responseLoop_length {response : SmtpReply}
    (h : responseLoop env ending left code lines reader = .ok (response, behind)) :
    behind.bytes.length < reader.bytes.length := by
  induction left generalizing code lines reader with
  | zero => cases h
  | succ left ih =>
    rw [responseLoop] at h
    cases hread : readLine env ending reader with
    | error message =>
      rw [hread] at h
      cases h
    | ok found =>
      obtain ⟨line, after⟩ := found
      have hshort := readLine_length hread
      rw [hread] at h
      simp only [bind, Except.bind] at h
      split at h
      · exact Nat.lt_trans (ih h) hshort
      · split_ifs at h
        · obtain ⟨-, rfl⟩ := Prod.mk.inj (Except.ok.inj h)
          exact hshort
        · exact Nat.lt_trans (ih h) hshort

/-- The lines before the last are read one after the other. -/
theorem responseLoop_before {before : List (ReplyCode × ReplyText)}
    (h : reader.bytes = (before.map continued).flatMap lineBytes ++ rest) :
    ∃ behind code', behind.bytes = rest ∧
      responseLoop env ending (before.length + left) code lines reader =
        responseLoop env ending left code' (lines ++ before.map fun line => String.ofList (continued line))
          behind := by
  induction before generalizing reader code lines with
  | nil =>
    refine ⟨reader, code, h, ?_⟩
    simp
  | cons line before ih =>
    have hplain : ∀ c ∈ continued line, TextChar c := by
      intro c hc
      rcases List.mem_append.mp hc with hc | hc
      · exact Or.inr (line.1.text_spec.1 c hc).1
      · rcases List.mem_cons.mp hc with rfl | hc
        · exact Or.inr (by decide)
        · exact line.2.plain c hc
    have hbytes : reader.bytes =
        lineBytes (continued line) ++ ((before.map continued).flatMap lineBytes ++ rest) := by
      rw [h, List.map_cons, List.flatMap_cons, List.append_assoc]
    obtain ⟨between, hread, hbetween⟩ := @readLine_reply env ending _ _ _ hbytes hplain
    obtain ⟨behind, code', hbehind, hmore⟩ :=
      @ih between line.1.value (lines ++ [String.ofList (continued line)]) hbetween
    refine ⟨behind, code', hbehind, ?_⟩
    have hmark : replyMark (String.ofList (continued line)) = some (String.ofList line.1.text, '-') :=
      replyMark_text line.1 (Or.inr rfl) line.2.plain
    rw [List.length_cons, Nat.add_right_comm, responseLoop, hread]
    simp only [bind, Except.bind, hmark]
    rw [number_code, Option.getD_some, if_neg (by decide), hmore]
    simp

/-- A reply is read exactly, with any bytes behind it and in any chunks, unless its last line is the
code alone. -/
theorem readResponse_reply_iff (env : ImapEnv) (ending : Ending) (reply : Reply) (reader : Reader)
    (rest : Bytes) (hlimit : reply.lines.length ≤ MAX_SMTP_RESPONSE_LINES)
    (hbytes : reader.bytes = reply.bytes ++ rest) :
    (∃ lines behind, readResponse env ending reader = .ok (⟨reply.code.value, lines⟩, behind) ∧
        behind.bytes = rest) ↔ reply.final.isSome = true := by
  have hlines : reply.lines.length = reply.before.length + 1 := by simp [Reply.lines]
  obtain ⟨left, hleft⟩ := Nat.exists_eq_add_of_le hlimit
  have hsplit : reader.bytes =
      (reply.before.map continued).flatMap lineBytes ++ (lineBytes reply.lastLine ++ rest) := by
    rw [hbytes, Reply.bytes, Reply.lines, List.flatMap_append, List.flatMap_singleton, List.append_assoc]
  obtain ⟨middle, code, hmiddle, hbefore⟩ :=
    @responseLoop_before env ending reader _ (left + 1) 0 [] reply.before hsplit
  have hrun : readResponse env ending reader = responseLoop env ending (left + 1) code
      ([] ++ reply.before.map fun line => String.ofList (continued line)) middle := by
    rw [← hbefore, readResponse]
    congr 1
    omega
  have hplain : ∀ c ∈ reply.lastLine, TextChar c := by
    intro c hc
    rcases List.mem_append.mp hc with hc | hc
    · exact Or.inr (reply.code.text_spec.1 c hc).1
    · cases hfinal : reply.final with
      | none =>
        rw [hfinal] at hc
        cases hc
      | some text =>
        rw [hfinal] at hc
        rcases List.mem_cons.mp hc with rfl | hc
        · exact Or.inr (by decide)
        · exact text.plain c hc
  obtain ⟨behind, hread, hbehind⟩ := @readLine_reply env ending middle _ _ hmiddle hplain
  rw [hrun, responseLoop, hread]
  simp only [bind, Except.bind]
  cases hfinal : reply.final with
  | some text =>
    have hmark : replyMark (String.ofList reply.lastLine) = some (String.ofList reply.code.text, ' ') := by
      unfold Reply.lastLine
      rw [hfinal]
      exact replyMark_text reply.code (Or.inl (by decide)) text.plain
    simp only [hmark, number_code, Option.getD_some, if_true, Option.isSome_some, iff_true]
    exact ⟨_, behind, rfl, hbehind⟩
  | none =>
    have hmark : replyMark (String.ofList reply.lastLine) = none := by
      unfold Reply.lastLine
      rw [hfinal, Option.elim_none, List.append_nil]
      exact replyMark_code reply.code
    simp only [hmark, Option.isSome_none, Bool.false_eq_true, iff_false]
    -- what is read after the reply is not left behind it
    rintro ⟨lines, after, hloop, hafter⟩
    have hshort := responseLoop_length hloop
    rw [hafter, hbehind] at hshort
    exact Nat.lt_irrefl _ hshort

def okCode : ReplyCode := ⟨0, 5, 0⟩

/-- The last line `250` is passed over, and the next reply is taken in its place. -/
theorem bare_code_swallows_reply :
    let reply : Reply := ⟨[], okCode, none⟩
    let next := encodeAscii "354 go\r\n".toList
    let reader : Reader := ⟨[], [reply.bytes, next]⟩
    readResponse asciiEnv .silent reader = .ok (⟨354, ["250", "354 go"]⟩, ⟨[], []⟩) ∧
      ¬ ∃ lines behind, readResponse asciiEnv .silent reader = .ok (⟨reply.code.value, lines⟩, behind) ∧
        behind.bytes = next := by
  intro reply next reader
  have hrun : readResponse asciiEnv .silent reader = .ok (⟨354, ["250", "354 go"]⟩, ⟨[], []⟩) := by
    decide +kernel
  refine ⟨hrun, ?_⟩
  rintro ⟨lines, behind, hread, -⟩
  rw [hrun, Except.ok.injEq, Prod.mk.injEq, SmtpReply.mk.injEq] at hread
  exact absurd hread.1.1 (by decide)

theorem readResponse_reply_iff_ok :
    let text : ReplyText := ⟨"done".toList, by decide +kernel⟩
    let reader : Reader :=
      ⟨encodeAscii "250-do".toList, [encodeAscii "ne\r\n250 do".toList, encodeAscii "ne\r\n221".toList]⟩
    ∃ lines behind, readResponse asciiEnv .silent reader = .ok (⟨250, lines⟩, behind) ∧
      behind.bytes = encodeAscii "221".toList := by
  intro text reader
  exact (readResponse_reply_iff asciiEnv .silent ⟨[(okCode, text)], okCode, some text⟩ reader
    (encodeAscii "221".toList) (by decide) (by decide +kernel)).mpr rfl

end Reading

end T560.Mail
