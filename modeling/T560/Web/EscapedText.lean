import T560.Web.Search

/-!
# Escaped text in the two decoders

The page reader and the search module have a copy of the decoder each. Both take `&amp;` before
other entities, so what an escaped ampersand leaves behind can be decoded again.
-/

namespace T560.Web

open Browser (entityOf escapedChars written lateEntities decodeLate replaceText inert_plain)
open Occurrence

/-- The two ways in which pages escape a single quote. -/
inductive Apostrophe where
  | numbered
  | named
  deriving DecidableEq, Repr

def Apostrophe.entity : Apostrophe → List Char
  | .numbered => "&#39;".toList
  | .named => "&apos;".toList

/-- How a page writes a character of a text. -/
def escapeChar (apostrophe : Apostrophe) (c : Char) : List Char :=
  if c = '\'' then apostrophe.entity else entityOf c

def escapeHtml (apostrophe : Apostrophe) (text : List Char) : List Char :=
  text.flatMap (escapeChar apostrophe)

theorem entityOf_plain {c : Char} (h : c ∉ escapedChars) : entityOf c = [c] := by
  unfold entityOf
  split <;> simp [escapedChars] at h ⊢

/-- Decoding one entity of a text in which every character is written on its own. -/
theorem replaced_chars {f g : Char → List Char} {w replacement : List Char}
    (hplain : ∀ c, c ∉ escapedChars → f c = [c] ∧ g c = [c])
    (h : ∀ c ∈ escapedChars, (f c = '&' :: w ∧ g c = replacement) ∨ (f c = g c ∧ Inert ('&' :: w) (f c)))
    (text : List Char) : replaced ('&' :: w) replacement 0 (text.flatMap f) = text.flatMap g := by
  apply replaced_tokens (List.cons_ne_nil _ _)
  intro c
  by_cases hc : c ∈ escapedChars
  · exact h c hc
  · right
    obtain ⟨hf, hg⟩ := hplain c hc
    rw [hf, hg]
    refine ⟨rfl, inert_plain ?_ w⟩
    rintro rfl
    exact hc (by decide)

/-- Whichever way the quotes are written, they are decoded first. -/
theorem decode_quotes (apostrophe : Apostrophe) (text : List Char) :
    replaceText "&apos;" "'" (replaceText "&#39;" "'" (replaceText "&quot;" "\"" (escapeHtml apostrophe text))) =
      written ['&', '<', '>'] text := by
  have hplain : ∀ c, c ∉ escapedChars → ∀ a, escapeChar a c = [c] := by
    intro c hc a
    have hquote : c ≠ '\'' := by
      rintro rfl
      exact hc (by decide)
    rw [escapeChar, if_neg hquote, entityOf_plain hc]
  have hwritten : ∀ c, c ∉ escapedChars →
      (if c ∈ ['&', '<', '>'] then entityOf c else [c]) = [c] := by
    intro c hc
    rw [entityOf_plain hc, ite_self]
  have hdouble : ∀ c, c ∉ escapedChars → ∀ a,
      (if c = '"' then ['"'] else escapeChar a c) = [c] := by
    intro c hc a
    have hquote : c ≠ '"' := by
      rintro rfl
      exact hc (by decide)
    rw [if_neg hquote, hplain c hc]
  have hquot : replaceText "&quot;" "\"" (escapeHtml apostrophe text) =
      text.flatMap fun c => if c = '"' then ['"'] else escapeChar apostrophe c := by
    refine @replaced_chars _ _ "quot;".toList "\"".toList
      (fun c hc => ⟨hplain c hc _, hdouble c hc _⟩) ?_ text
    cases apostrophe <;> decide
  rw [hquot]
  cases apostrophe with
  | numbered =>
    have hnumber : replaceText "&#39;" "'"
        (text.flatMap fun c => if c = '"' then ['"'] else escapeChar .numbered c) =
          written ['&', '<', '>'] text :=
      @replaced_chars _ _ "#39;".toList "'".toList
        (fun c hc => ⟨hdouble c hc _, hwritten c hc⟩) (by decide) text
    rw [hnumber]
    exact @replaced_chars _ _ "apos;".toList "'".toList
      (fun c hc => ⟨hwritten c hc, hwritten c hc⟩) (by decide) text
  | named =>
    have hnumber : replaceText "&#39;" "'"
        (text.flatMap fun c => if c = '"' then ['"'] else escapeChar .named c) =
          text.flatMap fun c => if c = '"' then ['"'] else escapeChar .named c :=
      @replaced_chars _ _ "#39;".toList "'".toList
        (fun c hc => ⟨hdouble c hc _, hdouble c hc _⟩) (by decide) text
    rw [hnumber]
    exact @replaced_chars _ _ "apos;".toList "'".toList
      (fun c hc => ⟨hdouble c hc _, hwritten c hc⟩) (by decide) text

/-- Both decoders give an escaped text back exactly when the text has no entity that they decode behind
the ampersand. -/
theorem escaped_text_recovered_iff (apostrophe : Apostrophe) (text : List Char) :
    (Browser.decodeHtmlEntities (escapeHtml apostrophe text) = text ↔
        ∀ entity ∈ lateEntities, ¬ entity.1.toList <:+: text) ∧
      (Search.decodeHtmlEntities (escapeHtml apostrophe text) = text ↔
        ∀ entity ∈ lateEntities, ¬ entity.1.toList <:+: text) := by
  have hdecoded := Browser.decode_brackets text
  rw [← decode_quotes apostrophe text] at hdecoded
  rw [← Browser.decodeLate_eq_iff]
  constructor
  · rw [← hdecoded]
    rfl
  · rw [← hdecoded]
    rfl

/-- A text that names an entity is decoded to what the entity stands for. -/
theorem escaped_entity_lost :
    Browser.decodeHtmlEntities (escapeHtml .numbered "&lt;".toList) = "<".toList ∧
      Search.decodeHtmlEntities (escapeHtml .numbered "&lt;".toList) = "<".toList ∧
      "<".toList ≠ "&lt;".toList := by
  decide

end T560.Web
