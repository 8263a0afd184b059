import T560.Format.Regular

/-!
# Inert output

What a reply puts into the output of a formatter stays text, or the value of an attribute, as
long as no quote gets into a value: escaping leaves quotes as they are. The values are the
addresses of links and, for Telegram, the language of a code block.
-/

namespace T560.Format

open Js (splitLines)

/-- Read as these tags if the condition holds, and broken if not. -/
structure Reads (forms : List TagForm) (xs : List Char) (ok : Prop) (tags : List TagForm) : Prop where
  whole : ok → Whole forms xs tags
  broken : ¬ ok → Broken forms xs

section Reads
variable {forms : List TagForm} {xs ys : List Char} {ok ok' : Prop} {s t : List TagForm}

theorem Whole.reads (h : Whole forms xs s) : Reads forms xs True s :=
  ⟨fun _ => h, fun hn => absurd trivial hn⟩

theorem Reads.congr (h : Reads forms xs ok s) (hok : ok ↔ ok') : Reads forms xs ok' s :=
  ⟨fun h' => h.whole (hok.mpr h'), fun h' => h.broken fun hk => h' (hok.mp hk)⟩

theorem Reads.append (hx : Reads forms xs ok s) (hy : Reads forms ys ok' t) :
    Reads forms (xs ++ ys) (ok ∧ ok') (s ++ t) := by
  constructor
  · rintro ⟨h, h'⟩
    exact (hx.whole h).append (hy.whole h')
  · intro hn
    by_cases h : ok
    · exact (hx.whole h).broken (hy.broken fun h' => hn ⟨h, h'⟩)
    · exact (hx.broken h).append ys

/-- Text that is read as a whole in front of a part and behind it. -/
theorem Reads.between {before behind : List Char} {u v : List TagForm} (hx : Reads forms xs ok s)
    (hb : Whole forms before u) (ha : Whole forms behind v) :
    Reads forms (before ++ xs ++ behind) ok (u ++ s ++ v) :=
  ((hb.reads.append hx).append ha.reads).congr (by simp)

theorem readTags_nil : readTags forms [] = some [] := by
  simp [readTags, Rewrite.pieces]

theorem Reads.readTags_eq (h : Reads forms xs ok s) (hok : ok) : readTags forms xs = some s := by
  have := h.whole hok []
  simpa [readTags_nil] using this

theorem Reads.inert_iff (h : Reads forms xs ok s) : Inert forms xs ↔ ok := by
  constructor
  · intro hi
    by_contra hn
    have hbroken := h.broken hn []
    rw [List.append_nil] at hbroken
    rw [Inert, hbroken] at hi
    cases hi
  · intro hok
    rw [Inert, h.readTags_eq hok]
    rfl

theorem Reads.joinLines (hf : Legible forms) {β : Type} {write : β → List Char} {fine : β → Prop}
    {tags : β → List TagForm} (bs : List β) (h : ∀ b ∈ bs, Reads forms (write b) (fine b) (tags b)) :
    Reads forms (joinLines (bs.map write)) (∀ b ∈ bs, fine b) (bs.flatMap tags) := by
  have hfeed : Whole forms ['\n'] [] := whole_text hf (by simp)
  induction bs with
  | nil => exact Whole.nil.reads.congr (by simp)
  | cons b bs ih =>
    have hb := h b (by simp)
    have ih := ih fun c hc => h c (by simp [hc])
    cases bs with
    | nil => simpa [Format.joinLines] using hb
    | cons c bs =>
      have hjoin := (hb.append hfeed.reads).append ih
      simp only [Format.joinLines, List.map_cons, List.intercalate_cons_cons, List.flatMap_cons] at hjoin ⊢
      rw [List.append_nil] at hjoin
      exact hjoin.congr (by simp)

end Reads

section Inline
variable {tag : Mark → String} {name : Kind → String} {forms : List TagForm}

theorem Speaks.reads_inline (h : Speaks tag name forms) (ht : PlainTags tag) (text : List Char) :
    Reads forms (inlineFormat some (fun m => (tag m).toList) (escapeHtml text))
      (AddressesUnquoted text) ((visible false (markedLine text)).map (markForm tag name)) := by
  have hread := h.read_regular (regular_markedLine text)
  rw [inlineFormat_text ht]
  constructor
  · intro hok
    exact hread.2 ((quoted_markedLine text).mpr hok)
  · intro hn
    apply hread.1
    cases hq : quoted false ((markedLine text).filterMap Item.turn) with
    | true => rfl
    | false => exact absurd ((quoted_markedLine text).mp hq) hn

theorem whole_escaped (h : Legible forms) (text : List Char) : Whole forms (escapeHtml text) [] :=
  whole_text h fun _ hc => (escaped_of_mem hc).1

end Inline

/-- The texts of a block that are formatted inline for Telegram. -/
def telegramTexts : Block → List (List Char)
  | .line line =>
    if (headingMatch line).isSome then [] else if isQuote line then [quoteText line] else [line]
  | _ => []

/-- The texts of a block that are formatted inline for the web page. -/
def webTexts : Block → List (List Char)
  | .line line =>
    match headingMatch line with
    | some (_, text) => [text]
    | none =>
      if isQuote line then [quoteText line]
      else if isRule (Js.trimChars line) then []
      else
        match listMatch line with
        | some text => [text]
        | none => if Js.trimChars line = [] then [] else [line]
  | _ => []

def languages : Block → List (List Char)
  | .fence codeLang _ => [codeLang]
  | _ => []

theorem whole_tag {forms : List TagForm} (h : Legible forms) (name : String) (closing : Bool)
    (text : String) (hmem : fixedForm name closing text ∈ forms) :
    Whole forms text.toList [fixedForm name closing text] := by
  have hwhole := whole_fixed h hmem rfl
  exact hwhole

section Telegram

def codeTags (opening : TagForm) : List TagForm :=
  [fixedForm "pre" false "<pre>", opening, fixedForm "code" true "</code>",
    fixedForm "pre" true "</pre>"]

/-- The tags that a text is read as when it is formatted inline for Telegram. -/
def telegramMarks (text : List Char) : List TagForm :=
  (visible false (markedLine text)).map (markForm telegramTag telegramName)

/-- The tags that a block is read as. -/
def telegramTags : Block → List TagForm
  | .fence codeLang _ =>
    codeTags (if codeLang = [] then fixedForm "code" false "<code>" else languageForm)
  | .unclosed _ => codeTags (fixedForm "code" false "<code>")
  | .line line =>
    if (headingMatch line).isSome then [fixedForm "b" false "<b>", fixedForm "b" true "</b>"]
    else if isQuote line then
      [fixedForm "blockquote" false "<blockquote>"] ++ telegramMarks (quoteText line) ++
        [fixedForm "blockquote" true "</blockquote>"]
    else telegramMarks line

theorem reads_telegramInline (text : List Char) :
    Reads telegramForms (telegramInlineFormat text) (AddressesUnquoted text) (telegramMarks text) :=
  speaks_telegram.reads_inline plainTags_telegram text

theorem quote_mem_escapeHtml {text : List Char} : '"' ∈ escapeHtml text ↔ '"' ∈ text := by
  have keep {c : Char} {s : String} (hc : '"' ≠ c) (hs : '"' ∉ s.toList) (l : List Char) :
      '"' ∈ replaceChar c s l ↔ '"' ∈ l := by
    simp only [replaceChar, List.mem_flatMap]
    constructor
    · rintro ⟨d, hd, hmem⟩
      split_ifs at hmem
      · exact absurd hmem hs
      · obtain rfl : '"' = d := by simpa using hmem
        exact hd
    · intro h
      exact ⟨'"', h, by simp [hc]⟩
  rw [escapeHtml, keep (by decide) (by decide), keep (by decide) (by decide),
    keep (by decide) (by decide)]

/-- The opening tag of a code block with a language. -/
theorem reads_language (codeLang : List Char) :
    Reads telegramForms ("<code class=\"language-".toList ++ escapeHtml codeLang ++ "\">".toList)
      ('"' ∉ codeLang) [languageForm] := by
  have hmem : languageForm ∈ telegramForms := by decide
  have hbehind : languageForm.behind = some "\">" := rfl
  have hend : "\">".toList = ['"', '>'] := by decide
  constructor
  · intro hq
    exact whole_valued legible_telegramForms hmem hbehind hend
      fun h => hq (quote_mem_escapeHtml.mp h)
  · intro hq
    have hq : '"' ∈ escapeHtml codeLang := quote_mem_escapeHtml.mpr (not_not.mp hq)
    have hclose : ∀ c ∈ escapeHtml codeLang, c ≠ '>' := fun c hc => (escaped_of_mem hc).2
    obtain ⟨before, after, hsplit, hbefore⟩ := List.eq_append_cons_of_mem hq
    rw [hsplit] at hclose ⊢
    have hnone : ¬ ['"', '>'] <:+: '"' :: after := by
      intro hinside
      have hgt : '>' ∈ '"' :: after := hinside.subset (by simp)
      exact hclose '>' (List.mem_append_right _ hgt) rfl
    have hrest (more : List Char) : ¬ "\">".toList <+: '"' :: (after ++ ['"', '>'] ++ more) := by
      rw [hend, List.append_assoc]
      exact not_prefix_telegramEnd after more hnone
    have hbroken := broken_valued legible_telegramForms hmem hbehind hbefore hrest
    simpa [languageForm, hend] using hbroken

theorem telegramCode_eq (langAttr : List Char) (code : List (List Char)) :
    telegramCode langAttr code = "<pre>".toList ++ ("<code".toList ++ langAttr ++ ">".toList) ++
      (escapeHtml (joinLines code) ++ ("</code>".toList ++ "</pre>".toList)) := by
  have hopen : "<pre><code".toList = "<pre>".toList ++ "<code".toList := by decide
  have hclose : "</code></pre>".toList = "</code>".toList ++ "</pre>".toList := by decide
  unfold telegramCode
  rw [hopen, hclose]
  simp only [List.append_assoc]

theorem reads_telegramCode {langAttr : List Char} {ok : Prop} {opening : TagForm}
    (h : Reads telegramForms ("<code".toList ++ langAttr ++ ">".toList) ok [opening])
    (code : List (List Char)) :
    Reads telegramForms (telegramCode langAttr code) ok (codeTags opening) := by
  have hpre := whole_tag legible_telegramForms "pre" false "<pre>" (by decide)
  have hcode := whole_tag legible_telegramForms "code" true "</code>" (by decide)
  have hpost := whole_tag legible_telegramForms "pre" true "</pre>" (by decide)
  have htext := whole_escaped legible_telegramForms (joinLines code)
  rw [telegramCode_eq]
  exact h.between hpre (htext.append (hcode.append hpost))

/-- The condition under which a block is read. -/
def TelegramFine (b : Block) : Prop :=
  (∀ text ∈ telegramTexts b, AddressesUnquoted text) ∧ ∀ lang ∈ languages b, '"' ∉ lang

instance (b : Block) : Decidable (TelegramFine b) := inferInstanceAs (Decidable (_ ∧ _))

theorem reads_plainCode (code : List (List Char)) :
    Reads telegramForms (telegramCode [] code) True (codeTags (fixedForm "code" false "<code>")) := by
  have hcode := whole_tag legible_telegramForms "code" false "<code>" (by decide)
  have htext : "<code".toList ++ [] ++ ">".toList = "<code>".toList := by decide
  apply reads_telegramCode
  rw [htext]
  exact hcode.reads

theorem reads_telegramLine (line : List Char) :
    Reads telegramForms (markdownLineToTelegramHtml line)
      (∀ text ∈ telegramTexts (.line line), AddressesUnquoted text) (telegramTags (.line line)) := by
  cases hheading : headingMatch line with
  | some heading =>
    have hopen := whole_tag legible_telegramForms "b" false "<b>" (by decide)
    have hclose := whole_tag legible_telegramForms "b" true "</b>" (by decide)
    have htext := whole_escaped legible_telegramForms heading.2
    simp only [markdownLineToTelegramHtml, telegramTexts, telegramTags, hheading, Option.isSome_some,
      if_true]
    exact htext.reads.between hopen hclose |>.congr (by simp)
  | none =>
    simp only [markdownLineToTelegramHtml, telegramTexts, telegramTags, hheading, Option.isSome_none,
      Bool.false_eq_true, if_false]
    by_cases hquote : isQuote line = true
    · have hopen := whole_tag legible_telegramForms "blockquote" false "<blockquote>" (by decide)
      have hclose := whole_tag legible_telegramForms "blockquote" true "</blockquote>" (by decide)
      rw [if_pos hquote, if_pos hquote, if_pos hquote]
      exact ((reads_telegramInline (quoteText line)).between hopen hclose).congr (by simp)
    · rw [if_neg hquote, if_neg hquote, if_neg hquote]
      exact (reads_telegramInline line).congr (by simp)

theorem languageAttr_eq (codeLang : List Char) :
    "<code".toList ++ (" class=\"language-".toList ++ escapeHtml codeLang ++ "\"".toList) ++
        ">".toList =
      "<code class=\"language-".toList ++ escapeHtml codeLang ++ "\">".toList := by
  have hopen : "<code class=\"language-".toList = "<code".toList ++ " class=\"language-".toList := by
    decide
  have hclose : "\">".toList = "\"".toList ++ ">".toList := by decide
  rw [hopen, hclose]
  simp only [List.append_assoc]

theorem reads_telegramBlock (b : Block) :
    Reads telegramForms (telegramBlock b) (TelegramFine b) (telegramTags b) := by
  cases b with
  | fence codeLang code =>
    by_cases hlang : codeLang = []
    · simp only [telegramBlock, telegramTags, if_pos hlang]
      exact (reads_plainCode code).congr (by simp [TelegramFine, telegramTexts, languages, hlang])
    · simp only [telegramBlock, telegramTags, if_neg hlang]
      have hfine : ('"' ∉ codeLang) ↔ TelegramFine (.fence codeLang code) := by
        simp [TelegramFine, telegramTexts, languages]
      apply Reads.congr _ hfine
      apply reads_telegramCode
      rw [languageAttr_eq]
      exact reads_language codeLang
  | unclosed code =>
    exact (reads_plainCode code).congr (by simp [TelegramFine, telegramTexts, languages])
  | line text => exact (reads_telegramLine text).congr (by simp [TelegramFine, languages])

/-- The message as the loop takes it apart. -/
def messageBlocks (message : List Char) : List Block := blocks none (splitLines message)

theorem reads_telegram (message : List Char) :
    Reads telegramForms (markdownToTelegramHtml message)
      (∀ b ∈ messageBlocks message, TelegramFine b) ((messageBlocks message).flatMap telegramTags) :=
  Reads.joinLines legible_telegramForms _ fun b _ => reads_telegramBlock b

end Telegram

section Web

def WebFine (b : Block) : Prop := ∀ text ∈ webTexts b, AddressesUnquoted text

instance (b : Block) : Decidable (WebFine b) := inferInstanceAs (Decidable (∀ _ ∈ _, _))

/-- A text formatted inline between two tags. -/
theorem reads_webElement (name opening closing : String)
    (hopen : fixedForm name false opening ∈ webForms) (hclose : fixedForm name true closing ∈ webForms)
    (text : List Char) :
    ∃ tags, Reads webForms (opening.toList ++ webInlineFormat text ++ closing.toList)
      (AddressesUnquoted text) tags :=
  ⟨_, (speaks_web.reads_inline plainTags_web text).between
    (whole_tag legible_webForms name false opening hopen)
    (whole_tag legible_webForms name true closing hclose)⟩

theorem headingMatch_level {line text : List Char} {level : Nat}
    (h : headingMatch line = some (level, text)) : 1 ≤ level ∧ level ≤ 3 := by
  simp only [headingMatch] at h
  split_ifs at h with hlevel
  simp only [Option.map_eq_some_iff, Prod.mk.injEq] at h
  obtain ⟨-, -, rfl, -⟩ := h
  exact hlevel

theorem webHeading_eq (opening closing : String) {level : Nat}
    (hopen : opening.toList = "<h".toList ++ (toString (level + 1)).toList ++ ">".toList)
    (hclose : closing.toList = "</h".toList ++ (toString (level + 1)).toList ++ ">".toList)
    (text : List Char) :
    webHeading level text = opening.toList ++ webInlineFormat text ++ closing.toList := by
  unfold webHeading
  rw [hopen, hclose]
  simp only [List.append_assoc]

theorem reads_webHeading {level : Nat} (hlevel : 1 ≤ level ∧ level ≤ 3) (text : List Char) :
    ∃ tags, Reads webForms (webHeading level text) (AddressesUnquoted text) tags := by
  obtain ⟨hone, hthree⟩ := hlevel
  have hcases : level = 1 ∨ level = 2 ∨ level = 3 := by omega
  rcases hcases with rfl | rfl | rfl
  · rw [webHeading_eq "<h2>" "</h2>" (by decide) (by decide)]
    exact reads_webElement "h2" _ _ (by decide) (by decide) text
  · rw [webHeading_eq "<h3>" "</h3>" (by decide) (by decide)]
    exact reads_webElement "h3" _ _ (by decide) (by decide) text
  · rw [webHeading_eq "<h4>" "</h4>" (by decide) (by decide)]
    exact reads_webElement "h4" _ _ (by decide) (by decide) text

theorem reads_webLine (line : List Char) :
    ∃ tags, Reads webForms (webLine line) (WebFine (.line line)) tags := by
  cases hheading : headingMatch line with
  | some heading =>
    obtain ⟨level, text⟩ := heading
    obtain ⟨tags, htags⟩ := reads_webHeading (headingMatch_level hheading) text
    simp only [webLine, WebFine, webTexts, hheading]
    exact ⟨tags, htags.congr (by simp)⟩
  | none =>
    simp only [webLine, WebFine, webTexts, hheading]
    by_cases hquote : isQuote line = true
    · obtain ⟨tags, htags⟩ := reads_webElement "blockquote" "<blockquote>" "</blockquote>"
        (by decide) (by decide) (quoteText line)
      rw [if_pos hquote, if_pos hquote]
      exact ⟨tags, htags.congr (by simp)⟩
    · rw [if_neg hquote, if_neg hquote]
      by_cases hrule : isRule (Js.trimChars line) = true
      · have htag := whole_tag legible_webForms "hr" false "<hr />" (by decide)
        rw [if_pos hrule, if_pos hrule]
        exact ⟨_, htag.reads.congr (by simp)⟩
      · rw [if_neg hrule, if_neg hrule]
        cases listMatch line with
        | some text =>
          obtain ⟨tags, htags⟩ := reads_webElement "div" "<div class=\"list-item\">" "</div>"
            (by decide) (by decide) text
          exact ⟨tags, htags.congr (by simp)⟩
        | none =>
          by_cases hblank : Js.trimChars line = []
          · have htag := whole_tag legible_webForms "br" false "<br />" (by decide)
            simp only [if_pos hblank]
            exact ⟨_, htag.reads.congr (by simp)⟩
          · obtain ⟨tags, htags⟩ := reads_webElement "p" "<p>" "</p>" (by decide) (by decide) line
            simp only [if_neg hblank]
            exact ⟨tags, htags.congr (by simp)⟩

theorem webCode_eq (langLabel : List Char) (code : List (List Char)) :
    webCode langLabel code = "<div class=\"code-block\">".toList ++ langLabel ++
      ("<pre>".toList ++ "<code>".toList ++ escapeHtml (joinLines code) ++
        ("</code>".toList ++ "</pre>".toList ++ "</div>".toList)) := by
  have hopen : "<pre><code>".toList = "<pre>".toList ++ "<code>".toList := by decide
  have hclose : "</code></pre></div>".toList =
      "</code>".toList ++ "</pre>".toList ++ "</div>".toList := by decide
  unfold webCode
  rw [hopen, hclose]
  simp only [List.append_assoc]

theorem reads_webCode {langLabel : List Char} {labelTags : List TagForm}
    (h : Whole webForms langLabel labelTags) (code : List (List Char)) :
    ∃ tags, Reads webForms (webCode langLabel code) True tags := by
  have hf := legible_webForms
  have hdiv := whole_tag hf "div" false "<div class=\"code-block\">" (by decide)
  have hpre := whole_tag hf "pre" false "<pre>" (by decide)
  have hcode := whole_tag hf "code" false "<code>" (by decide)
  have hcode' := whole_tag hf "code" true "</code>" (by decide)
  have hpre' := whole_tag hf "pre" true "</pre>" (by decide)
  have hdiv' := whole_tag hf "div" true "</div>" (by decide)
  have htext := whole_escaped hf (joinLines code)
  rw [webCode_eq]
  exact ⟨_, ((hdiv.append h).append (((hpre.append hcode).append htext).append
    ((hcode'.append hpre').append hdiv'))).reads⟩

theorem reads_webBlock (b : Block) : ∃ tags, Reads webForms (webBlock b) (WebFine b) tags := by
  cases b with
  | fence codeLang code =>
    have hfine : True ↔ WebFine (.fence codeLang code) := by simp [WebFine, webTexts]
    by_cases hlang : codeLang = []
    · obtain ⟨tags, htags⟩ := reads_webCode Whole.nil code
      simp only [webBlock, if_pos hlang]
      exact ⟨tags, htags.congr hfine⟩
    · have hspan := whole_tag legible_webForms "span" false "<span class=\"code-lang\">" (by decide)
      have hspan' := whole_tag legible_webForms "span" true "</span>" (by decide)
      have hlabel := (hspan.append (whole_escaped legible_webForms codeLang)).append hspan'
      obtain ⟨tags, htags⟩ := reads_webCode hlabel code
      simp only [webBlock, if_neg hlang]
      exact ⟨tags, htags.congr hfine⟩
  | unclosed code =>
    obtain ⟨tags, htags⟩ := reads_webCode Whole.nil code
    exact ⟨tags, htags.congr (by simp [WebFine, webTexts])⟩
  | line text => exact reads_webLine text

theorem reads_web (message : List Char) :
    ∃ tags, Reads webForms (markdownToWebHtml message) (∀ b ∈ messageBlocks message, WebFine b) tags := by
  choose tags htags using reads_webBlock
  exact ⟨_, Reads.joinLines legible_webForms _ fun b _ => htags b⟩

end Web

/-- The output of both formatters is inert just when no quote gets into an address of a link,
nor into the language of a closed code block of a Telegram message. -/
theorem formatted_inert_iff (reply : ChatResponse) :
    (Inert webForms (formatWebchatMessage reply).html.toList ∧
        Inert telegramForms (markdownToTelegramHtml reply.message.toList)) ↔
      ∀ b ∈ messageBlocks reply.message.toList,
        (∀ text ∈ webTexts b ++ telegramTexts b, AddressesUnquoted text) ∧
          ∀ lang ∈ languages b, '"' ∉ lang := by
  obtain ⟨tags, hweb⟩ := reads_web reply.message.toList
  have htelegram := reads_telegram reply.message.toList
  rw [formatWebchatMessage, String.toList_ofList, hweb.inert_iff, htelegram.inert_iff]
  simp only [WebFine, TelegramFine, List.mem_append]
  constructor
  · rintro ⟨hw, ht⟩ b hb
    refine ⟨?_, (ht b hb).2⟩
    rintro text (htext | htext)
    · exact hw b hb text htext
    · exact (ht b hb).1 text htext
  · intro h
    exact ⟨fun b hb text htext => (h b hb).1 text (Or.inl htext),
      fun b hb => ⟨fun text htext => (h b hb).1 text (Or.inr htext), (h b hb).2⟩⟩

/-- The address of this link closes its value and adds an attribute. -/
theorem quoted_address_adds_attribute :
    (formatWebchatMessage ⟨"[x](y\" onclick=\"z)", none⟩).html =
        "<p><a href=\"y\" onclick=\"z\" target=\"_blank\">x</a></p>" ∧
      ¬ (Inert webForms (formatWebchatMessage ⟨"[x](y\" onclick=\"z)", none⟩).html.toList ∧
        Inert telegramForms (markdownToTelegramHtml "[x](y\" onclick=\"z)".toList)) := by
  decide

end T560.Format
