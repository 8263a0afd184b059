import T560.Files.Editable
import Mathlib.Data.List.Count

/-!
# The replacement text of an edit

Replacing all occurrences joins the parts of the content with the replacement text. Replacing one
occurrence reads the replacement text as a pattern, in which some dollar sequences stand for parts
of the content.
-/

namespace T560.Files

open Js Occurrence

variable {content findText replaceText found before after : Units} {n : Nat}

/-- One of `$$`, `$&`, the dollar sign with a backtick and the one with an apostrophe. -/
def hasDollarSequence : Units → Bool
  | [] => false
  | [_] => false
  | c :: d :: rest => (c == 36 && (d == 36 || d == 38 || d == 96 || d == 39)) || hasDollarSequence (d :: rest)

theorem getSubstitution_plain (h : hasDollarSequence replaceText = false) :
    getSubstitution found before after replaceText = replaceText := by
  induction replaceText using getSubstitution.induct with
  | case1 => rfl
  | case2 c => rfl
  | case3 rest ih => simp [hasDollarSequence] at h
  | case4 rest _ ih => simp [hasDollarSequence] at h
  | case5 rest _ _ ih => simp [hasDollarSequence] at h
  | case6 rest _ _ _ ih => simp [hasDollarSequence] at h
  | case7 d rest h1 h2 h3 h4 ih =>
    rw [hasDollarSequence, Bool.or_eq_false_iff] at h
    simp [getSubstitution, h1, h2, h3, h4, ih h.2]
  | case8 c d rest hc ih =>
    rw [hasDollarSequence, Bool.or_eq_false_iff] at h
    simp [getSubstitution, hc, ih h.2]

/-- Where the content has no dollar sign, a sequence takes one away. -/
theorem count_getSubstitution (hfound : 36 ∉ found) (hbefore : 36 ∉ before) (hafter : 36 ∉ after) :
    (getSubstitution found before after replaceText).count 36 +
      (hasDollarSequence replaceText).toNat ≤ replaceText.count 36 := by
  have hnofound := List.count_eq_zero_of_not_mem hfound
  have hnobefore := List.count_eq_zero_of_not_mem hbefore
  have hnoafter := List.count_eq_zero_of_not_mem hafter
  induction replaceText using getSubstitution.induct with
  | case1 => simp [getSubstitution, hasDollarSequence]
  | case2 c => simp [getSubstitution, hasDollarSequence]
  | case3 rest ih =>
    simp [getSubstitution, hasDollarSequence]
    omega
  | case4 rest _ ih =>
    simp [getSubstitution, hasDollarSequence, hnofound]
    omega
  | case5 rest _ _ ih =>
    simp [getSubstitution, hasDollarSequence, hnobefore]
    omega
  | case6 rest _ _ _ ih =>
    simp [getSubstitution, hasDollarSequence, hnoafter]
    omega
  | case7 d rest h1 h2 h3 h4 ih =>
    have hseq : hasDollarSequence (36 :: d :: rest) = hasDollarSequence (d :: rest) := by
      simp [hasDollarSequence, h1, h2, h3, h4]
    rw [hseq, getSubstitution]
    simp only [if_true, if_neg h1, if_neg h2, if_neg h3, if_neg h4, List.count_cons_self]
    omega
  | case8 c d rest hc ih =>
    have hseq : hasDollarSequence (c :: d :: rest) = hasDollarSequence (d :: rest) := by
      simp [hasDollarSequence, hc]
    rw [hseq, getSubstitution, if_neg hc, List.count_cons_of_ne hc,
      List.count_cons_of_ne hc]
    exact ih

/-- The edit tool puts the replacement text itself, and both of its ways agree on a find text that
occurs once. -/
def ReplacesLiterally (content findText replaceText : Units) (n : Nat) : Prop :=
  editedContent content findText replaceText false =
      content.take n ++ (replaceText ++ content.drop (n + findText.length)) ∧
    ((∀ m, findText <+: content.drop m → m = n) →
      editedContent content findText replaceText true = editedContent content findText replaceText false)

theorem edited_once (hfind : findText ≠ []) (hn : indexOf findText content = some n)
    (honce : ∀ m, findText <+: content.drop m → m = n) :
    editedContent content findText replaceText true =
      content.take n ++ (replaceText ++ content.drop (n + findText.length)) := by
  have hpos : 0 < findText.length := List.length_pos_iff.mpr hfind
  have hrest : indexOf findText (content.drop (n + findText.length)) = none := by
    cases hm : indexOf findText (content.drop (n + findText.length)) with
    | none => rfl
    | some m =>
      have hat := (indexOf_eq_some_iff.mp hm).1
      rw [List.drop_drop] at hat
      have := honce _ hat
      omega
  rw [editedContent, if_pos rfl, replaced_eq hfind, hn]
  simp only
  rw [replaced_eq hfind, hrest]

/-- Dollar sequences apart, the edit tool replaces literally. -/
theorem edit_literal_iff (hfind : findText ≠ []) (hn : indexOf findText content = some n) :
    (ReplacesLiterally content findText replaceText n ↔
      getSubstitution findText (content.take n) (content.drop (n + findText.length)) replaceText =
        replaceText) ∧
    (36 ∉ content → (ReplacesLiterally content findText replaceText n ↔
      hasDollarSequence replaceText = false)) := by
  have hsingle : editedContent content findText replaceText false =
      content.take n ++
        (getSubstitution findText (content.take n) (content.drop (n + findText.length)) replaceText ++
          content.drop (n + findText.length)) := by
    simp only [editedContent, replaceFirst, hn, Bool.false_eq_true, if_false, List.append_assoc]
  have hiff : ReplacesLiterally content findText replaceText n ↔
      getSubstitution findText (content.take n) (content.drop (n + findText.length)) replaceText =
        replaceText := by
    rw [ReplacesLiterally, hsingle, List.append_cancel_left_eq, List.append_cancel_right_eq]
    constructor
    · exact fun hboth => hboth.1
    · intro hself
      exact ⟨hself, fun honce => by rw [edited_once hfind hn honce, hself]⟩
  refine ⟨hiff, fun hdollar => ?_⟩
  rw [hiff]
  constructor
  · intro hself
    have hsplit := (indexOf_split hn).1
    have hfound : 36 ∉ findText := by
      intro hmem
      apply hdollar
      rw [hsplit]
      simp [hmem]
    have hcount := @count_getSubstitution replaceText _ (content.take n)
      (content.drop (n + findText.length)) hfound (fun hmem => hdollar (List.mem_of_mem_take hmem))
      (fun hmem => hdollar (List.mem_of_mem_drop hmem))
    rw [hself] at hcount
    cases hseq : hasDollarSequence replaceText with
    | false => rfl
    | true =>
      rw [hseq, Bool.toNat_true] at hcount
      omega
  · exact getSubstitution_plain

/-- The two dollar signs of a replacement text become one. -/
theorem edit_drops_dollar :
    ¬ ReplacesLiterally (units "run $x") (units "$x") (units "$$x") 4 ∧
      editedContent (units "run $x") (units "$x") (units "$$x") false = units "run $x" ∧
      editedContent (units "run $x") (units "$x") (units "$$x") true = units "run $$x" := by
  refine ⟨?_, by decide, by decide⟩
  rintro ⟨hsingle, -⟩
  revert hsingle
  decide

/-- A replacement text without dollar signs. -/
theorem edit_literal_iff_plain : ReplacesLiterally (units "let a = 1") (units "a") (units "b") 4 :=
  (edit_literal_iff (by decide) (by decide)).1.mpr (by decide)

end T560.Files
