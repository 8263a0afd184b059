import T560.Browser.Markup

/-!
# Escaped text

The decoder replaces one entity after the other, and `&amp;` before others: what an escaped
ampersand leaves behind can be an entity again.
-/

namespace T560.Browser

open Occurrence

/-- How a page writes a character of a text or of a quoted value. -/
def entityOf : Char → List Char
  | '&' => "&amp;".toList
  | '<' => "&lt;".toList
  | '>' => "&gt;".toList
  | '"' => "&quot;".toList
  | '\'' => "&#39;".toList
  | c => [c]

/-- The text with some of its characters written as entities. -/
def written (chars : List Char) (text : List Char) : List Char :=
  text.flatMap fun c => if c ∈ chars then entityOf c else [c]

def escapedChars : List Char := ['&', '<', '>', '"', '\'']

def escaped (text : List Char) : List Char := written escapedChars text

variable {text w : List Char} {needle : List Char} {x : Char}

theorem inert_plain {c : Char} (hc : c ≠ '&') (w : List Char) : Inert ('&' :: w) [c] := by
  intro k hk
  obtain rfl : k = 0 := by simpa using hk
  simp [List.isPrefixOf, Ne.symm hc]

/-- Decoding one entity while the ampersands of the text are still written as entities. -/
theorem replaced_written {chars rest : List Char} {w : List Char} (replacement : List Char)
    (hamp : '&' ∈ chars) (hchars : ∀ c ∈ chars, c ∈ rest ∧ Inert ('&' :: w) (entityOf c) ∨
      c ∉ rest ∧ entityOf c = '&' :: w ∧ replacement = [c])
    (hrest : ∀ c ∈ rest, c ∈ chars) (text : List Char) :
    replaced ('&' :: w) replacement 0 (written chars text) = written rest text := by
  apply replaced_tokens (by simp)
  intro c
  by_cases hc : c ∈ chars
  · rcases hchars c hc with ⟨hin, hinert⟩ | ⟨hout, hentity, hreplacement⟩
    · right
      rw [if_pos hc, if_pos hin]
      exact ⟨rfl, hinert⟩
    · left
      rw [if_pos hc, if_neg hout]
      exact ⟨hentity, hreplacement.symm⟩
  · right
    have hout : c ∉ rest := fun hmem => hc (hrest c hmem)
    rw [if_neg hc, if_neg hout]
    refine ⟨rfl, inert_plain ?_ w⟩
    rintro rfl
    exact hc hamp

theorem prefix_of_written {chars : List Char} (hamp : '&' ∉ w) (hchars : ∀ c ∈ chars, c ∈ escapedChars)
    (hplain : ∀ c ∈ w, c ∉ chars) (h : w <+: written chars text) : w <+: text := by
  induction w generalizing text with
  | nil => exact List.nil_prefix
  | cons d w ih =>
    cases text with
    | nil => simp [written] at h
    | cons c text =>
      rw [written, List.flatMap_cons] at h
      by_cases hc : c ∈ chars
      · -- an entity starts with an ampersand
        rw [if_pos hc] at h
        have hhead : ∀ e ∈ escapedChars, (entityOf e).head? = some '&' := by decide
        obtain ⟨more, hmore⟩ := List.head?_eq_some_iff.mp (hhead c (hchars c hc))
        rw [hmore, List.cons_append, List.cons_prefix_cons] at h
        exact absurd (h.1 ▸ List.mem_cons_self ..) hamp
      · rw [if_neg hc, List.singleton_append, List.cons_prefix_cons] at h
        rw [List.cons_prefix_cons]
        exact ⟨h.1, ih (fun hmem => hamp (List.mem_cons_of_mem _ hmem))
          (fun e he => hplain e (List.mem_cons_of_mem _ he)) h.2⟩

/-- Decoding one entity when the ampersands of the text are its own. -/
theorem replaced_written_raw {chars rest : List Char} {w : List Char} (hx : entityOf x = '&' :: w)
    (hchars : ∀ c ∈ chars, c ∈ escapedChars) (hmem : x ∈ chars)
    (hplain : ∀ c ∈ '&' :: w, c ∉ chars)
    (hinert : ∀ c ∈ rest, Inert ('&' :: w) (entityOf c)) (hrest : ∀ c, c ∈ chars ↔ c = x ∨ c ∈ rest)
    (hnot : x ∉ rest) (hw : '&' ∉ w) (text : List Char) :
    replaced ('&' :: w) [x] 0 (written chars text) = written rest (replaced ('&' :: w) [x] 0 text) := by
  induction hlen : text.length using Nat.strongRecOn generalizing text with
  | ind k ih =>
    cases text with
    | nil => simp [written]
    | cons c text =>
      have hstep : written chars (c :: text) =
          (if c ∈ chars then entityOf c else [c]) ++ written chars text := rfl
      by_cases hhere : '&' :: w <+: c :: text
      · obtain ⟨back, hback⟩ := hhere
        have hlength := congrArg List.length hback
        rw [List.length_append, hlen] at hlength
        have hneedle : written chars ('&' :: w) = '&' :: w := by
          unfold written
          rw [List.flatMap_congr fun c hc => if_neg (hplain c hc)]
          simp
        have happend : written chars ('&' :: w ++ back) = '&' :: w ++ written chars back := by
          conv_rhs => rw [← hneedle]
          simp [written]
        rw [← hback, happend, replaced_needle (by simp), replaced_needle (by simp),
          ih back.length (by simp only [List.length_cons] at hlength; omega) back rfl]
        simp [written, hnot]
      · have hih := ih text.length (by simp only [List.length_cons] at hlen; omega) text rfl
        have hright : written rest (replaced ('&' :: w) [x] 0 (c :: text)) =
            (if c ∈ rest then entityOf c else [c]) ++ written rest (replaced ('&' :: w) [x] 0 text) := by
          rw [replaced_miss hhere]
          rfl
        rw [hstep, hright]
        by_cases hcx : c = x
        · subst hcx
          rw [if_pos hmem, if_neg hnot, hx, replaced_needle (by simp), hih]
        · by_cases hc : c ∈ chars
          · have hcr : c ∈ rest := ((hrest c).mp hc).resolve_left hcx
            rw [if_pos hc, if_pos hcr, replaced_inert (hinert c hcr), hih]
          · have hcr : c ∉ rest := fun h => hc ((hrest c).mpr (Or.inr h))
            rw [if_neg hc, if_neg hcr, ← hih, List.singleton_append, List.singleton_append]
            apply replaced_miss
            intro hlong
            rw [List.cons_prefix_cons] at hlong
            apply hhere
            rw [List.cons_prefix_cons]
            exact ⟨hlong.1, prefix_of_written hw hchars
              (fun d hd => hplain d (List.mem_cons_of_mem _ hd)) hlong.2⟩

/-- What the decoder makes of the entities that are left once the ampersands are decoded. -/
def lateEntities : List (String × String) :=
  [("&lt;", "<"), ("&gt;", ">"), ("&#x2F;", "/"), ("&#47;", "/"), ("&nbsp;", " ")]

def decodeLate (text : List Char) : List Char :=
  lateEntities.foldl (fun text entity => replaceText entity.1 entity.2 text) text

/-- Once the quotes are decoded, what is left decodes the text once more, as far as the late entities
go. -/
theorem decode_brackets (text : List Char) :
    replaceText "&nbsp;" " " (replaceText "&#47;" "/" (replaceText "&#x2F;" "/" (replaceText "&gt;" ">"
      (replaceText "&lt;" "<" (replaceText "&amp;" "&" (written ['&', '<', '>'] text)))))) =
      decodeLate text := by
  have hamp : replaceText "&amp;" "&" (written ['&', '<', '>'] text) = written ['<', '>'] text :=
    @replaced_written ['&', '<', '>'] ['<', '>'] "amp;".toList "&".toList (by decide)
      (by decide) (by decide) text
  have hlt : ∀ text, replaceText "&lt;" "<" (written ['<', '>'] text) =
      written ['>'] (replaceText "&lt;" "<" text) :=
    @replaced_written_raw '<' ['<', '>'] ['>'] "lt;".toList (by decide)
      (by decide) (by decide) (by decide) (by decide) (by simp) (by decide) (by decide)
  have hgt : ∀ text, replaceText "&gt;" ">" (written ['>'] text) =
      written [] (replaceText "&gt;" ">" text) :=
    @replaced_written_raw '>' ['>'] [] "gt;".toList (by decide)
      (by decide) (by decide) (by decide) (by decide) (by simp) (by decide) (by decide)
  have hplain : ∀ text, written [] text = text := by
    intro text
    simp [written]
  unfold decodeLate lateEntities
  simp only [List.foldl_cons, List.foldl_nil]
  rw [hamp, hlt, hgt, hplain]

/-- Decoding an escaped text decodes the text once more, as far as the late entities go. -/
theorem decode_escaped (text : List Char) : decodeHtmlEntities (escaped text) = decodeLate text := by
  have hquot : replaceText "&quot;" "\"" (escaped text) = written ['&', '<', '>', '\''] text :=
    @replaced_written escapedChars ['&', '<', '>', '\''] "quot;".toList "\"".toList (by decide)
      (by decide) (by decide) text
  have hapos : replaceText "&#39;" "'" (written ['&', '<', '>', '\''] text) =
      written ['&', '<', '>'] text :=
    @replaced_written ['&', '<', '>', '\''] ['&', '<', '>'] "#39;".toList "'".toList (by decide)
      (by decide) (by decide) text
  have hnone : replaceText "&apos;" "'" (written ['&', '<', '>'] text) = written ['&', '<', '>'] text :=
    @replaced_written ['&', '<', '>'] ['&', '<', '>'] "apos;".toList "'".toList (by decide)
      (by decide) (by decide) text
  unfold decodeHtmlEntities
  rw [hquot, hapos, hnone, decode_brackets]

/-- Decoding the late entities leaves a text alone exactly when it has none of them. -/
theorem decodeLate_eq_iff (text : List Char) :
    decodeLate text = text ↔ ∀ entity ∈ lateEntities, ¬ entity.1.toList <:+: text := by
  have hrun : ∀ (entities : List (String × String)),
      (∀ entity ∈ entities, entity.2.toList.length < entity.1.toList.length) → ∀ text : List Char,
      (entities.foldl (fun text entity => replaceText entity.1 entity.2 text) text).length ≤ text.length ∧
      (entities.foldl (fun text entity => replaceText entity.1 entity.2 text) text = text ↔
        ∀ entity ∈ entities, ¬ entity.1.toList <:+: text) := by
    intro entities
    induction entities with
    | nil => simp
    | cons entity entities ih =>
      intro hshort text
      have hfirst := length_replaced (hshort entity (List.mem_cons_self ..)) text
      obtain ⟨hle, hiff⟩ := ih (fun e he => hshort e (List.mem_cons_of_mem _ he))
        (replaceText entity.1 entity.2 text)
      rw [List.foldl_cons, List.forall_mem_cons]
      rcases hfirst with ⟨hsame, hnone⟩ | ⟨hlt, hinside⟩
      · rw [replaceText, hsame] at hle hiff ⊢
        exact ⟨hle, by rw [hiff]; simp [hnone]⟩
      · rw [replaceText] at hle hiff ⊢
        refine ⟨by omega, ?_⟩
        constructor
        · intro heq
          rw [heq] at hle
          omega
        · exact fun h => absurd hinside h.1
  exact (hrun lateEntities (by decide) text).2

/-- The escaped text is decoded to itself exactly when it has none of the late entities. -/
theorem decode_escaped_eq_iff (text : List Char) :
    decodeHtmlEntities (escaped text) = text ↔ ∀ entity ∈ lateEntities, ¬ entity.1.toList <:+: text := by
  rw [decode_escaped, decodeLate_eq_iff]

theorem escaped_cons (c : Char) (text : List Char) :
    escaped (c :: text) = (if c ∈ escapedChars then entityOf c else [c]) ++ escaped text := rfl

theorem escaped_length (text : List Char) : text.length ≤ (escaped text).length := by
  induction text with
  | nil => simp
  | cons c text ih =>
    have hentity : 1 ≤ (if c ∈ escapedChars then entityOf c else [c]).length := by
      split_ifs with hc
      · revert c
        decide
      · simp
    rw [escaped_cons, List.length_append, List.length_cons]
    omega

/-- Escaping changes a text with one of the characters that it writes as entities. -/
theorem escaped_eq_iff (text : List Char) : escaped text = text ↔ ∀ c ∈ escapedChars, c ∉ text := by
  induction text with
  | nil => simp [escaped, written]
  | cons c text ih =>
    rw [escaped_cons]
    by_cases hc : c ∈ escapedChars
    · have hentity : ∀ c ∈ escapedChars, 2 ≤ (entityOf c).length := by decide
      constructor
      · intro heq
        have hlength := congrArg List.length heq
        rw [if_pos hc, List.length_append, List.length_cons] at hlength
        have := escaped_length text
        have := hentity c hc
        omega
      · exact fun h => absurd (List.mem_cons_self ..) (h c hc)
    · rw [if_neg hc, List.singleton_append, List.cons.injEq]
      constructor
      · rintro ⟨-, hsame⟩ d hd hmem
        rcases List.mem_cons.mp hmem with rfl | hmem
        · exact hc hd
        · exact ih.mp hsame d hd hmem
      · exact fun h => ⟨rfl, ih.mpr fun d hd hmem => h d hd (List.mem_cons_of_mem _ hmem)⟩

end T560.Browser
