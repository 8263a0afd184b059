import Mathlib.Data.List.Infix
import T560.Format.Markdown

/-!
# Tags of a formatted text

A formatter writes tags of a few forms: a fixed text, or a text with one quoted value in it.
`readTags` reads a text back as its tags; it gives up at a `<` that begins none of them.
A part of the output is either read as a whole, whatever follows it, or it breaks the reading.
-/

namespace T560.Format

open Rewrite (pieces)

/-- A tag: all of its text, or the text up to its quoted value with the text from the closing
quote on. -/
structure TagForm where
  name : String
  closing : Bool
  text : String
  behind : Option String
  deriving DecidableEq, Repr

def fixedForm (name : String) (closing : Bool) (text : String) : TagForm :=
  ⟨name, closing, text, none⟩

/-- The number of characters of the tag of this form that the text starts with. -/
def TagForm.covers (form : TagForm) (l : List Char) : Option Nat :=
  if form.text.toList <+: l then
    match form.behind with
    | none => some form.text.toList.length
    | some behind =>
      let value := (l.drop form.text.toList.length).takeWhile (· ≠ '"')
      let before := form.text.toList.length + value.length
      if behind.toList <+: l.drop before then some (before + behind.toList.length) else none
  else none

def tagAt (forms : List TagForm) (l : List Char) : Option (TagForm × Nat) :=
  forms.findSome? fun form => (form.covers l).map fun n => (form, n)

def readTags (forms : List TagForm) (l : List Char) : Option (List TagForm) :=
  let ps := pieces (fun _ => tagAt forms) 0 none l
  if '<' ∈ ps.filterMap Sum.getLeft? then none else some (ps.filterMap Sum.getRight?)

/-- Every `<` of the text begins a tag of one of the forms, with its own attributes only. -/
def Inert (forms : List TagForm) (l : List Char) : Prop := (readTags forms l).isSome = true

instance (forms : List TagForm) (l : List Char) : Decidable (Inert forms l) :=
  inferInstanceAs (Decidable (_ = true))

/-- The forms can be told apart, and each begins with `<`. -/
structure Legible (forms : List TagForm) : Prop where
  distinct : forms.Pairwise fun f g =>
    ¬ f.text.toList <+: g.text.toList ∧ ¬ g.text.toList <+: f.text.toList
  opening : ∀ f ∈ forms, f.text.toList.head? = some '<'

section Forms

def Kind.all : List Kind := [.bold, .italic, .code, .link, .strike]

def openForm (tag : Mark → String) (name : Kind → String) (kind : Kind) : TagForm :=
  ⟨name kind, false, tag (.opens kind), if kind = .link then some (tag .addressEnd) else none⟩

def closeForm (tag : Mark → String) (name : Kind → String) (kind : Kind) : TagForm :=
  fixedForm (name kind) true (tag (.closes kind))

def lineForms (tag : Mark → String) (name : Kind → String) : List TagForm :=
  Kind.all.map (openForm tag name) ++ Kind.all.map (closeForm tag name)

def telegramName : Kind → String
  | .bold => "b"
  | .italic => "i"
  | .code => "code"
  | .link => "a"
  | .strike => "s"

def webName : Kind → String
  | .bold => "strong"
  | .italic => "em"
  | .code => "code"
  | .link => "a"
  | .strike => "s"

/-- The tag of a code block with its language. -/
def languageForm : TagForm := ⟨"code", false, "<code class=\"language-", some "\">"⟩

def telegramForms : List TagForm :=
  lineForms telegramTag telegramName ++
    [languageForm, fixedForm "pre" false "<pre>", fixedForm "pre" true "</pre>",
      fixedForm "blockquote" false "<blockquote>",
      fixedForm "blockquote" false "<blockquote expandable>",
      fixedForm "blockquote" true "</blockquote>"]

def webForms : List TagForm :=
  lineForms webTag webName ++
    [fixedForm "div" false "<div class=\"code-block\">",
      fixedForm "div" false "<div class=\"list-item\">", fixedForm "div" true "</div>",
      fixedForm "span" false "<span class=\"code-lang\">", fixedForm "span" true "</span>",
      fixedForm "pre" false "<pre>", fixedForm "pre" true "</pre>",
      fixedForm "h2" false "<h2>", fixedForm "h2" true "</h2>",
      fixedForm "h3" false "<h3>", fixedForm "h3" true "</h3>",
      fixedForm "h4" false "<h4>", fixedForm "h4" true "</h4>",
      fixedForm "blockquote" false "<blockquote>", fixedForm "blockquote" true "</blockquote>",
      fixedForm "p" false "<p>", fixedForm "p" true "</p>",
      fixedForm "hr" false "<hr />", fixedForm "br" false "<br />"]

theorem legible_telegramForms : Legible telegramForms := ⟨by decide, by decide⟩

theorem legible_webForms : Legible webForms := ⟨by decide, by decide⟩

end Forms

section Reading
variable {forms : List TagForm}

/-- Read as these tags, whatever follows. -/
def Whole (forms : List TagForm) (xs : List Char) (tags : List TagForm) : Prop :=
  ∀ rest, readTags forms (xs ++ rest) = (readTags forms rest).map (tags ++ ·)

/-- The reading fails here, whatever follows. -/
def Broken (forms : List TagForm) (xs : List Char) : Prop :=
  ∀ rest, readTags forms (xs ++ rest) = none

theorem forward_tagAt : Rewrite.Forward fun _ : Option Char => tagAt forms := fun _ _ _ => rfl

theorem tagAt_form (h : Legible forms) {form : TagForm} (hmem : form ∈ forms) (l : List Char) :
    tagAt forms (form.text.toList ++ l) =
      (form.covers (form.text.toList ++ l)).map fun n => (form, n) := by
  have hother {g : TagForm} (hg : ¬ g.text.toList <+: form.text.toList ∧
      ¬ form.text.toList <+: g.text.toList) : g.covers (form.text.toList ++ l) = none := by
    rw [TagForm.covers, if_neg]
    intro hpre
    rcases List.prefix_or_prefix_of_prefix hpre (List.prefix_append _ _) with hle | hle
    · exact hg.1 hle
    · exact hg.2 hle
  have hdistinct := h.distinct
  clear h
  induction forms with
  | nil => cases hmem
  | cons g forms ih =>
    rw [tagAt, List.findSome?_cons]
    rw [List.pairwise_cons] at hdistinct
    by_cases hgf : g = form
    · subst hgf
      cases hcov : g.covers (g.text.toList ++ l) with
      | some n => rfl
      | none =>
        simp only [Option.map_none]
        rw [List.findSome?_eq_none_iff]
        intro f hf
        have hne := hdistinct.1 f hf
        rw [hother ⟨hne.2, hne.1⟩]
        rfl
    · have hmem' : form ∈ forms := by
        rcases List.mem_cons.mp hmem with heq | hmem'
        · exact absurd heq.symm hgf
        · exact hmem'
      rw [hother (hdistinct.1 form hmem')]
      exact ih hmem' hdistinct.2

theorem tagAt_text (h : Legible forms) {c : Char} (hc : c ≠ '<') (l : List Char) :
    tagAt forms (c :: l) = none := by
  rw [tagAt, List.findSome?_eq_none_iff]
  intro form hform
  have hopen := h.opening form hform
  rw [TagForm.covers, if_neg, Option.map_none]
  intro hpre
  obtain ⟨rest, hrest⟩ := hpre
  obtain ⟨d, ds, hd⟩ : ∃ d ds, form.text.toList = d :: ds := by
    cases htext : form.text.toList with
    | nil => simp [htext] at hopen
    | cons d ds => exact ⟨d, ds, rfl⟩
  rw [hd] at hopen hrest
  simp_all

theorem readTags_text (h : Legible forms) {c : Char} (hc : c ≠ '<') (l : List Char) :
    readTags forms (c :: l) = readTags forms l := by
  have hp := Rewrite.pieces_item forward_tagAt none (tagAt_text h hc l)
  rw [readTags, readTags, hp]
  by_cases hlt : '<' ∈ (pieces (fun _ => tagAt forms) 0 none l).filterMap Sum.getLeft?
  · rw [if_pos hlt, if_pos (by simp [hlt])]
  · rw [if_neg hlt, if_neg (by simp [hlt, Ne.symm hc]), List.filterMap_cons, Sum.getRight?_inl]

theorem readTags_tag {xs l : List Char} {form : TagForm} (hne : xs ≠ [])
    (h : tagAt forms (xs ++ l) = some (form, xs.length)) :
    readTags forms (xs ++ l) = (readTags forms l).map (form :: ·) := by
  obtain ⟨c, cs, rfl⟩ := List.exists_cons_of_ne_nil hne
  rw [List.cons_append] at h
  have hp := Rewrite.pieces_match (n := cs.length) forward_tagAt none h
  rw [List.drop_left] at hp
  rw [readTags, readTags, List.cons_append, hp]
  by_cases hlt : '<' ∈ (pieces (fun _ => tagAt forms) 0 none l).filterMap Sum.getLeft?
  · rw [if_pos hlt, if_pos (by simpa using hlt), Option.map_none]
  · rw [if_neg hlt, if_neg (by simpa using hlt), Option.map_some, List.filterMap_cons,
      Sum.getRight?_inr]

theorem readTags_broken {l : List Char} (h : tagAt forms ('<' :: l) = none) :
    readTags forms ('<' :: l) = none := by
  have hp := Rewrite.pieces_item forward_tagAt none h
  rw [readTags, hp, if_pos (by simp)]

theorem Whole.nil : Whole forms [] [] := by
  intro rest
  simp

theorem Whole.append {xs ys : List Char} {s t : List TagForm} (hx : Whole forms xs s)
    (hy : Whole forms ys t) : Whole forms (xs ++ ys) (s ++ t) := by
  intro rest
  rw [List.append_assoc, hx, hy, Option.map_map]
  congr 1
  funext tags
  simp

theorem Whole.broken {xs ys : List Char} {s : List TagForm} (hx : Whole forms xs s)
    (hy : Broken forms ys) : Broken forms (xs ++ ys) := by
  intro rest
  rw [List.append_assoc, hx, hy, Option.map_none]

theorem Broken.append {xs : List Char} (hx : Broken forms xs) (ys : List Char) :
    Broken forms (xs ++ ys) := by
  intro rest
  rw [List.append_assoc, hx]

theorem whole_text (h : Legible forms) {xs : List Char} (hxs : ∀ c ∈ xs, c ≠ '<') :
    Whole forms xs [] := by
  intro rest
  induction xs with
  | nil => simp
  | cons c xs ih =>
    rw [List.cons_append, readTags_text h (hxs c (by simp)), ih fun d hd => hxs d (by simp [hd])]

theorem Legible.text_ne_nil (h : Legible forms) {form : TagForm} (hmem : form ∈ forms) :
    form.text.toList ≠ [] := by
  intro hnil
  have := h.opening form hmem
  simp [hnil] at this

theorem whole_fixed (h : Legible forms) {form : TagForm} (hmem : form ∈ forms)
    (hfixed : form.behind = none) : Whole forms form.text.toList [form] := by
  intro rest
  apply readTags_tag (h.text_ne_nil hmem)
  rw [tagAt_form h hmem, TagForm.covers, if_pos (List.prefix_append _ _), hfixed]
  rfl

theorem takeWhile_append_quote {value : List Char} (hvalue : '"' ∉ value) (rest : List Char) :
    (value ++ '"' :: rest).takeWhile (· ≠ '"') = value := by
  rw [List.takeWhile_append_of_pos (by
    intro c hc
    simpa using fun heq : c = '"' => hvalue (heq ▸ hc))]
  simp

theorem whole_valued (h : Legible forms) {form : TagForm} (hmem : form ∈ forms) {behind : String}
    {more : List Char} (hbehind : form.behind = some behind) (hquote : behind.toList = '"' :: more)
    {value : List Char} (hvalue : '"' ∉ value) :
    Whole forms (form.text.toList ++ value ++ behind.toList) [form] := by
  intro rest
  apply readTags_tag (by simp [h.text_ne_nil hmem])
  rw [List.append_assoc, List.append_assoc, tagAt_form h hmem, TagForm.covers,
    if_pos (List.prefix_append _ _), hbehind]
  dsimp only
  rw [List.drop_left, hquote, List.cons_append, takeWhile_append_quote hvalue, ← List.append_assoc,
    ← List.length_append, List.drop_left, ← List.cons_append, if_pos (List.prefix_append _ _)]
  simp only [Option.map_some, List.length_append]

/-- A quote inside of the value breaks the tag when the rest of the tag does not follow it. -/
theorem broken_valued (h : Legible forms) {form : TagForm} (hmem : form ∈ forms) {behind : String}
    (hbehind : form.behind = some behind) {value rest : List Char} (hvalue : '"' ∉ value)
    (hrest : ∀ more, ¬ behind.toList <+: '"' :: (rest ++ more)) :
    Broken forms (form.text.toList ++ value ++ '"' :: rest) := by
  intro more
  have hnone : tagAt forms (form.text.toList ++ value ++ '"' :: rest ++ more) = none := by
    rw [List.append_assoc, List.append_assoc, tagAt_form h hmem, TagForm.covers,
      if_pos (List.prefix_append _ _), hbehind]
    dsimp only
    rw [List.drop_left, List.cons_append, takeWhile_append_quote hvalue, ← List.append_assoc,
      ← List.length_append, List.drop_left, if_neg (hrest more)]
    rfl
  obtain ⟨c, cs, hcs⟩ := List.exists_cons_of_ne_nil (h.text_ne_nil hmem)
  have hopen := h.opening form hmem
  obtain rfl : c = '<' := by simpa [hcs] using hopen
  rw [hcs] at hnone ⊢
  exact readTags_broken hnone

end Reading

end T560.Format
