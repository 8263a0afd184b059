import Mathlib.Data.List.Infix
import Mathlib.Data.List.Basic

/-!
# Occurrences of a text in a text

The first place where a needle occurs, and its occurrences from the left that do not overlap,
over any alphabet. A needle without a border cannot overlap itself, so it is found where it
was put.
-/

namespace Occurrence

variable {α : Type} [DecidableEq α]

def indexOf (needle : List α) : List α → Option Nat
  | [] => if needle = [] then some 0 else none
  | a :: rest => if needle.isPrefixOf (a :: rest) then some 0 else (indexOf needle rest).map (· + 1)

/-- The parts between the occurrences. The number says how many items the last one still covers. -/
def split (needle : List α) : Nat → List α → List (List α)
  | _, [] => [[]]
  | skip + 1, _ :: rest => split needle skip rest
  | 0, a :: rest =>
    if needle.isPrefixOf (a :: rest) then [] :: split needle (needle.length - 1) rest
    else (split needle 0 rest).modifyHead (a :: ·)

/-- The parts with another text between them. -/
def replaced (needle replacement : List α) (skip : Nat) (text : List α) : List α :=
  List.intercalate replacement (split needle skip text)

/-- Where the occurrences start, when the text itself starts at place `i`. -/
def places (needle : List α) : Nat → Nat → List α → List Nat
  | _, _, [] => []
  | skip + 1, i, _ :: rest => places needle skip (i + 1) rest
  | 0, i, a :: rest =>
    if needle.isPrefixOf (a :: rest) then i :: places needle (needle.length - 1) (i + 1) rest
    else places needle 0 (i + 1) rest

/-- No proper end of the needle starts the needle. -/
def Unbordered (needle : List α) : Prop :=
  ∀ k < needle.length, 0 < k → (needle.drop k).isPrefixOf needle = false

/-- The needle does not start inside of the token, whatever comes behind. -/
def Inert (needle token : List α) : Prop :=
  ∀ k < token.length, (needle.take (token.length - k)).isPrefixOf (token.drop k) = false

instance (needle token : List α) : Decidable (Inert needle token) :=
  inferInstanceAs (Decidable (∀ k < token.length, _ = false))

instance : DecidablePred (Unbordered (α := α)) := fun needle =>
  inferInstanceAs (Decidable (∀ k < needle.length, 0 < k → (needle.drop k).isPrefixOf needle = false))

variable {needle text rest replacement a b : List α} {n skip i : Nat}

theorem indexOf_eq_some_iff :
    indexOf needle text = some n ↔ needle <+: text.drop n ∧ ∀ m < n, ¬ needle <+: text.drop m := by
  induction text generalizing n with
  | nil =>
    rw [indexOf]
    by_cases hnil : needle = []
    · subst hnil
      simp only [if_true, Option.some.injEq, List.nil_prefix, true_and, not_true_eq_false]
      constructor
      · rintro rfl m hm
        omega
      · intro h
        by_contra hne
        exact h 0 (by omega)
    · simp [hnil]
  | cons c text ih =>
    rw [indexOf]
    by_cases hhere : needle <+: c :: text
    · rw [if_pos (List.isPrefixOf_iff_prefix.mpr hhere), Option.some.injEq]
      constructor
      · rintro rfl
        exact ⟨hhere, fun m hm => by omega⟩
      · rintro ⟨_, hfirst⟩
        by_contra hne
        exact hfirst 0 (by omega) hhere
    · rw [if_neg (by rwa [List.isPrefixOf_iff_prefix]), Option.map_eq_some_iff]
      constructor
      · rintro ⟨m, hm, rfl⟩
        obtain ⟨hat, hfirst⟩ := ih.mp hm
        refine ⟨hat, ?_⟩
        rintro (_ | k) hk
        · exact hhere
        · exact hfirst k (by omega)
      · rintro ⟨hat, hfirst⟩
        cases n with
        | zero => exact absurd hat hhere
        | succ m => exact ⟨m, ih.mpr ⟨hat, fun k hk => hfirst (k + 1) (by omega)⟩, rfl⟩

theorem indexOf_eq_none_iff : indexOf needle text = none ↔ ¬ needle <:+: text := by
  induction text with
  | nil => simp [indexOf]
  | cons c text ih =>
    rw [indexOf, List.infix_cons_iff]
    by_cases hhere : needle <+: c :: text
    · simp [hhere]
    · rw [if_neg (by rwa [List.isPrefixOf_iff_prefix]), Option.map_eq_none_iff, ih]
      simp [hhere]

theorem indexOf_split (h : indexOf needle text = some n) :
    text = text.take n ++ (needle ++ text.drop (n + needle.length)) ∧ n + needle.length ≤ text.length := by
  obtain ⟨⟨back, hback⟩, hfirst⟩ := indexOf_eq_some_iff.mp h
  have hlength : needle.length + back.length = text.length - n := by
    rw [← List.length_drop, ← hback, List.length_append]
  have hn : n ≤ text.length := by
    by_contra hlt
    have hnil : needle = [] := List.eq_nil_of_length_eq_zero (by omega)
    exact hfirst text.length (by omega) (by simp [hnil])
  refine ⟨?_, by omega⟩
  have hdrop : text.drop (n + needle.length) = back := by
    rw [← List.drop_drop, ← hback, List.drop_left]
  rw [hdrop, hback, List.take_append_drop]

/-- What comes behind an occurrence does not move it. -/
theorem indexOf_append_left (h : indexOf needle text = some n) :
    indexOf needle (text ++ rest) = some n := by
  obtain ⟨hat, hfirst⟩ := indexOf_eq_some_iff.mp h
  have hlength := (indexOf_split h).2
  refine indexOf_eq_some_iff.mpr ⟨?_, ?_⟩
  · rw [List.drop_append_of_le_length (by omega)]
    exact hat.trans (List.prefix_append _ _)
  · intro m hm hearly
    apply hfirst m hm
    rw [List.drop_append_of_le_length (by omega)] at hearly
    exact List.prefix_of_prefix_length_le hearly (List.prefix_append _ _)
      (by rw [List.length_drop]; omega)

theorem indexOf_take {k : Nat} (h : indexOf needle text = some n) (hk : n + needle.length ≤ k) :
    indexOf needle (text.take k) = some n := by
  obtain ⟨hat, hfirst⟩ := indexOf_eq_some_iff.mp h
  have hlength := (indexOf_split h).2
  refine indexOf_eq_some_iff.mpr ⟨?_, ?_⟩
  · rw [List.drop_take]
    exact List.prefix_take_iff.mpr ⟨hat, by omega⟩
  · intro m hm hearly
    rw [List.drop_take] at hearly
    exact hfirst m hm (hearly.trans (List.take_prefix _ _))

/-- Behind a text without it, an unbordered needle is found where it was put. -/
theorem indexOf_append (hneedle : Unbordered needle) (h : ¬ needle <:+: text) :
    indexOf needle (text ++ (needle ++ rest)) = some text.length := by
  refine indexOf_eq_some_iff.mpr ⟨by simp, ?_⟩
  intro m hm hearly
  rw [List.drop_append_of_le_length (by omega)] at hearly
  by_cases hinside : m + needle.length ≤ text.length
  · apply h
    have hprefix : needle <+: text.drop m :=
      List.prefix_of_prefix_length_le hearly (List.prefix_append _ _) (by rw [List.length_drop]; omega)
    exact hprefix.isInfix.trans (List.drop_suffix m text).isInfix
  · -- the needle would start inside of the text and end inside of itself
    have hrest : needle.drop (text.length - m) <+: needle ++ rest := by
      obtain ⟨back, hback⟩ := hearly
      refine ⟨back, ?_⟩
      have := congrArg (List.drop (text.length - m)) hback
      rw [List.drop_append_of_le_length (by omega),
        List.drop_append_of_le_length (by rw [List.length_drop])] at this
      rw [this, List.drop_drop, List.drop_eq_nil_of_le (by omega), List.nil_append]
    have hborder : needle.drop (text.length - m) <+: needle :=
      List.prefix_of_prefix_length_le hrest (List.prefix_append _ _) (by rw [List.length_drop]; omega)
    have := hneedle (text.length - m) (by omega) (by omega)
    rw [List.isPrefixOf_iff_prefix.mpr hborder] at this
    cases this

/-- A text that ends in an unbordered needle, behind another one, ends in it on its own. -/
theorem ends_with_needle (hneedle : Unbordered needle) {front w q : List α}
    (h : front ++ (needle ++ w) = q ++ needle) : w = [] ∨ ∃ b, w = b ++ needle := by
  rw [← List.append_assoc] at h
  obtain ⟨b, -, hw⟩ | ⟨u, hfront, hu⟩ := List.append_eq_append_iff.mp h
  · exact Or.inr ⟨b, hw⟩
  · rcases Nat.eq_zero_or_pos u.length with hnil | hpos
    · obtain rfl := List.eq_nil_of_length_eq_zero hnil
      exact Or.inr ⟨[], hu.symm⟩
    · rcases Nat.eq_zero_or_pos w.length with hnil | hw
      · exact Or.inl (List.eq_nil_of_length_eq_zero hnil)
      · -- the part that both needles share is a border
        have hlength := congrArg List.length hu
        rw [List.length_append] at hlength
        have hsuffix : u <:+ needle := by
          apply List.suffix_of_suffix_length_le ⟨q, hfront.symm⟩ (List.suffix_append front needle)
          omega
        obtain ⟨v, hv⟩ := hsuffix
        have hlong := congrArg List.length hv
        rw [List.length_append] at hlong
        have hdrop : needle.drop w.length = u := by
          rw [show w.length = v.length by omega, ← hv, List.drop_left]
        have hborder : (needle.drop w.length).isPrefixOf needle = true := by
          rw [hdrop, List.isPrefixOf_iff_prefix]
          exact ⟨w, hu.symm⟩
        have := hneedle w.length (by omega) hw
        rw [hborder] at this
        cases this

theorem split_skip (text : List α) : split needle skip text = split needle 0 (text.drop skip) := by
  induction text generalizing skip with
  | nil => cases skip <;> simp [split]
  | cons c text ih =>
    cases skip with
    | zero => rfl
    | succ k => rw [split, ih, List.drop_succ_cons]

theorem places_skip (text : List α) :
    places needle skip i text = places needle 0 (i + skip) (text.drop skip) := by
  induction text generalizing skip i with
  | nil => cases skip <;> simp [places]
  | cons c text ih =>
    cases skip with
    | zero => rfl
    | succ k =>
      rw [places, ih, List.drop_succ_cons]
      congr 1
      omega

theorem split_ne_nil (text : List α) : split needle skip text ≠ [] := by
  induction text generalizing skip with
  | nil => cases skip <;> simp [split]
  | cons c text ih =>
    cases skip with
    | succ k => exact ih
    | zero =>
      rw [split]
      split_ifs
      · simp
      · simpa [List.modifyHead_eq_nil_iff] using ih

omit [DecidableEq α] in
theorem intercalate_cons {sep : List α} {part : List α} {parts : List (List α)} (h : parts ≠ []) :
    List.intercalate sep (part :: parts) = part ++ sep ++ List.intercalate sep parts := by
  cases parts with
  | nil => exact absurd rfl h
  | cons next more => simp [List.intercalate, List.intersperse]

@[simp]
theorem replaced_nil : replaced needle replacement skip [] = [] := by
  cases skip <;> simp [replaced, split, List.intercalate]

theorem replaced_skip (text : List α) :
    replaced needle replacement skip text = replaced needle replacement 0 (text.drop skip) := by
  rw [replaced, split_skip, replaced]

theorem replaced_hit {c : α} (h : needle <+: c :: text) :
    replaced needle replacement 0 (c :: text) =
      replacement ++ replaced needle replacement (needle.length - 1) text := by
  rw [replaced, split, if_pos (List.isPrefixOf_iff_prefix.mpr h), intercalate_cons (split_ne_nil text)]
  rfl

theorem replaced_miss {c : α} (h : ¬ needle <+: c :: text) :
    replaced needle replacement 0 (c :: text) = c :: replaced needle replacement 0 text := by
  rw [replaced, split, if_neg (by rwa [List.isPrefixOf_iff_prefix]), replaced]
  cases hparts : split needle 0 text with
  | nil => exact absurd hparts (split_ne_nil text)
  | cons part parts =>
    cases parts with
    | nil => simp [List.intercalate]
    | cons next more =>
      rw [List.modifyHead_cons, intercalate_cons (List.cons_ne_nil next more),
        intercalate_cons (List.cons_ne_nil next more)]
      simp

/-- The part before the first occurrence, and the parts of the text behind it. -/
theorem split_eq (hne : needle ≠ []) (text : List α) :
    split needle 0 text = (indexOf needle text).elim [text] fun n =>
      text.take n :: split needle 0 (text.drop (n + needle.length)) := by
  induction text with
  | nil => simp [split, indexOf, hne]
  | cons c text ih =>
    by_cases hhere : needle <+: c :: text
    · have hpos : 0 < needle.length := List.length_pos_iff.mpr hne
      rw [split, indexOf, if_pos (List.isPrefixOf_iff_prefix.mpr hhere),
        if_pos (List.isPrefixOf_iff_prefix.mpr hhere), split_skip]
      simp only [Option.elim_some, List.take_zero, Nat.zero_add]
      rw [show needle.length = needle.length - 1 + 1 by omega, List.drop_succ_cons, Nat.add_sub_cancel]
    · rw [split, indexOf, if_neg (by rwa [List.isPrefixOf_iff_prefix]),
        if_neg (by rwa [List.isPrefixOf_iff_prefix]), ih]
      cases indexOf needle text with
      | none => rfl
      | some n =>
        simp only [Option.map_some, Option.elim_some, List.modifyHead_cons]
        rw [show n + 1 + needle.length = n + needle.length + 1 by omega, List.drop_succ_cons,
          List.take_succ_cons]

/-- No part has the needle in it. -/
theorem not_infix_of_mem_split (hne : needle ≠ []) {part : List α} (h : part ∈ split needle 0 text) :
    ¬ needle <:+: part := by
  induction hlen : text.length using Nat.strongRecOn generalizing text with
  | ind k ih =>
    rw [split_eq hne] at h
    cases hn : indexOf needle text with
    | none =>
      rw [hn, Option.elim_none, List.mem_singleton] at h
      rw [h]
      exact indexOf_eq_none_iff.mp hn
    | some n =>
      rw [hn, Option.elim_some] at h
      obtain ⟨hsplit, hle⟩ := indexOf_split hn
      rcases List.mem_cons.mp h with rfl | h
      · rintro ⟨u, v, huv⟩
        have hlength := congrArg List.length huv
        simp only [List.length_append, List.length_take] at hlength
        have hpos : 0 < needle.length := List.length_pos_iff.mpr hne
        apply (indexOf_eq_some_iff.mp hn).2 u.length (by omega)
        have htext : text = u ++ needle ++ v ++ text.drop n := by
          rw [huv, List.take_append_drop]
        rw [htext, List.append_assoc, List.append_assoc, List.drop_left]
        exact List.prefix_append _ _
      · have hpos : 0 < needle.length := List.length_pos_iff.mpr hne
        exact ih _ (by rw [List.length_drop]; omega) h rfl

/-- Splitting takes a joined text apart again. -/
theorem split_intercalate (hne : needle ≠ []) (hneedle : Unbordered needle) {parts : List (List α)}
    (hparts : parts ≠ []) (h : ∀ part ∈ parts, ¬ needle <:+: part) :
    split needle 0 (List.intercalate needle parts) = parts := by
  induction parts with
  | nil => exact absurd rfl hparts
  | cons part parts ih =>
    have hpart := h part (List.mem_cons_self ..)
    cases parts with
    | nil =>
      rw [show List.intercalate needle [part] = part by simp [List.intercalate], split_eq hne,
        indexOf_eq_none_iff.mpr hpart]
      rfl
    | cons next more =>
      rw [intercalate_cons (List.cons_ne_nil next more), List.append_assoc, split_eq hne,
        indexOf_append hneedle hpart]
      simp only [Option.elim_some, List.take_left]
      rw [← List.append_assoc, ← List.length_append, List.drop_left,
        ih (List.cons_ne_nil next more) fun p hp => h p (List.mem_cons_of_mem _ hp)]

/-- Joining the parts gives the text back. -/
theorem intercalate_split (hne : needle ≠ []) (text : List α) :
    List.intercalate needle (split needle 0 text) = text := by
  induction hlen : text.length using Nat.strongRecOn generalizing text with
  | ind k ih =>
    rw [split_eq hne]
    cases hn : indexOf needle text with
    | none => simp [List.intercalate]
    | some n =>
      obtain ⟨hsplit, hle⟩ := indexOf_split hn
      have hpos : 0 < needle.length := List.length_pos_iff.mpr hne
      rw [Option.elim_some, intercalate_cons (split_ne_nil _), ih _ (by rw [List.length_drop]; omega) _ rfl,
        List.append_assoc]
      exact hsplit.symm

theorem places_hit {c : α} (h : needle <+: c :: text) :
    places needle 0 i (c :: text) = i :: places needle (needle.length - 1) (i + 1) text := by
  rw [places, if_pos (List.isPrefixOf_iff_prefix.mpr h)]

theorem places_miss {c : α} (h : ¬ needle <+: c :: text) :
    places needle 0 i (c :: text) = places needle 0 (i + 1) text := by
  rw [places, if_neg (by rwa [List.isPrefixOf_iff_prefix])]

/-- Looking for the next occurrence behind the last one visits all of them. -/
theorem places_eq (hne : needle ≠ []) (i : Nat) (text : List α) :
    places needle 0 i text =
      match indexOf needle text with
      | none => []
      | some n =>
        (i + n) :: places needle 0 (i + n + needle.length) (text.drop (n + needle.length)) := by
  induction text generalizing i with
  | nil => simp [places, indexOf, hne]
  | cons c text ih =>
    by_cases hhere : needle <+: c :: text
    · have hpos : 0 < needle.length := List.length_pos_iff.mpr hne
      rw [indexOf, if_pos (List.isPrefixOf_iff_prefix.mpr hhere), places_hit hhere, places_skip]
      simp only [Nat.add_zero, Nat.zero_add]
      rw [show i + 1 + (needle.length - 1) = i + needle.length by omega,
        show needle.length = needle.length - 1 + 1 by omega, List.drop_succ_cons, Nat.add_sub_cancel]
    · rw [indexOf, if_neg (by rwa [List.isPrefixOf_iff_prefix]), places_miss hhere, ih]
      cases indexOf needle text with
      | none => rfl
      | some n =>
        simp only [Option.map_some]
        rw [show i + 1 + n = i + (n + 1) by omega, show n + 1 + needle.length = n + needle.length + 1 by omega,
          List.drop_succ_cons]

/-- The first occurrence is replaced, and the text behind it on its own. -/
theorem replaced_eq (hne : needle ≠ []) (text : List α) :
    replaced needle replacement 0 text =
      match indexOf needle text with
      | none => text
      | some n =>
        text.take n ++ (replacement ++ replaced needle replacement 0 (text.drop (n + needle.length))) := by
  induction text with
  | nil => simp [indexOf, hne]
  | cons c text ih =>
    by_cases hhere : needle <+: c :: text
    · have hpos : 0 < needle.length := List.length_pos_iff.mpr hne
      rw [indexOf, if_pos (List.isPrefixOf_iff_prefix.mpr hhere), replaced_hit hhere, replaced_skip]
      simp only [Nat.zero_add, List.take_zero, List.nil_append]
      rw [show needle.length = needle.length - 1 + 1 by omega, List.drop_succ_cons, Nat.add_sub_cancel]
    · rw [indexOf, if_neg (by rwa [List.isPrefixOf_iff_prefix]), replaced_miss hhere, ih]
      cases indexOf needle text with
      | none => rfl
      | some n =>
        simp only [Option.map_some]
        rw [show n + 1 + needle.length = n + needle.length + 1 by omega, List.drop_succ_cons,
          List.take_succ_cons, List.cons_append]

omit [DecidableEq α] in
theorem take_prefix_of_append {u v w : List α} (h : u <+: v ++ w) : u.take v.length <+: v := by
  obtain ⟨more, hmore⟩ := h
  have := congrArg (List.take v.length) hmore
  rw [List.take_left, List.take_append] at this
  exact ⟨_, this⟩

theorem replaced_needle (hne : needle ≠ []) (rest : List α) :
    replaced needle replacement 0 (needle ++ rest) =
      replacement ++ replaced needle replacement 0 rest := by
  obtain ⟨c, more, rfl⟩ := List.exists_cons_of_ne_nil hne
  rw [List.cons_append, replaced_hit ⟨rest, by simp⟩, replaced_skip]
  simp

theorem replaced_inert {token : List α} (h : Inert needle token) (rest : List α) :
    replaced needle replacement 0 (token ++ rest) = token ++ replaced needle replacement 0 rest := by
  induction token with
  | nil => rfl
  | cons c token ih =>
    have hmiss : ¬ needle <+: c :: (token ++ rest) := by
      intro hhere
      have hshort := take_prefix_of_append (v := c :: token) hhere
      have hnot := h 0 (by simp)
      rw [Nat.sub_zero, List.drop_zero, ← Bool.not_eq_true, List.isPrefixOf_iff_prefix] at hnot
      exact hnot hshort
    rw [List.cons_append, replaced_miss hmiss, ih, List.cons_append]
    intro k hk
    have := h (k + 1) (by simpa using hk)
    rwa [List.length_cons, Nat.add_sub_add_right, List.drop_succ_cons] at this

/-- A text of tokens, of which some are the needle and the others do not touch it. -/
theorem replaced_tokens {β : Type} {f g : β → List α} (hne : needle ≠ [])
    (h : ∀ b, (f b = needle ∧ g b = replacement) ∨ (f b = g b ∧ Inert needle (f b))) (l : List β) :
    replaced needle replacement 0 (l.flatMap f) = l.flatMap g := by
  induction l with
  | nil => simp
  | cons b l ih =>
    rw [List.flatMap_cons, List.flatMap_cons, ← ih]
    rcases h b with ⟨hf, hg⟩ | ⟨hfg, hinert⟩
    · rw [hf, hg, replaced_needle hne]
    · rw [replaced_inert hinert, hfg]

/-- A needle that shrinks when it is replaced is seen by the length of the text. -/
theorem length_replaced (hlt : replacement.length < needle.length) (text : List α) :
    (replaced needle replacement 0 text = text ∧ ¬ needle <:+: text) ∨
      ((replaced needle replacement 0 text).length < text.length ∧ needle <:+: text) := by
  have hne : needle ≠ [] := List.ne_nil_of_length_pos (by omega)
  induction hlen : text.length using Nat.strongRecOn generalizing text with
  | ind k ih =>
    rw [replaced_eq hne]
    cases hn : indexOf needle text with
    | none => exact Or.inl ⟨rfl, indexOf_eq_none_iff.mp hn⟩
    | some n =>
      right
      obtain ⟨hsplit, hle⟩ := indexOf_split hn
      have hinside : needle <:+: text := by
        by_contra hnone
        rw [indexOf_eq_none_iff.mpr hnone] at hn
        cases hn
      refine ⟨?_, hinside⟩
      have hrest : (replaced needle replacement 0 (text.drop (n + needle.length))).length ≤
          (text.drop (n + needle.length)).length := by
        rcases ih _ (by rw [List.length_drop]; omega) (text.drop (n + needle.length)) rfl with h | h
        · rw [h.1]
        · omega
      simp only [List.length_append, List.length_take]
      rw [List.length_drop] at hrest
      omega

theorem le_of_mem_places {p : Nat} (h : p ∈ places needle skip i text) : i + skip ≤ p := by
  induction text generalizing skip i with
  | nil => cases skip <;> simp [places] at h
  | cons c text ih =>
    cases skip with
    | succ k =>
      have := ih h
      omega
    | zero =>
      rw [places] at h
      split_ifs at h
      · rcases List.mem_cons.mp h with rfl | h
        · omega
        · have := ih h
          omega
      · have := ih h
        omega

theorem lt_of_mem_places {p : Nat} (h : p ∈ places needle skip i text) : p < i + text.length := by
  induction text generalizing skip i with
  | nil => cases skip <;> simp [places] at h
  | cons c text ih =>
    rw [List.length_cons]
    cases skip with
    | succ k =>
      have := ih h
      omega
    | zero =>
      rw [places] at h
      split_ifs at h
      · rcases List.mem_cons.mp h with rfl | h
        · omega
        · have := ih h
          omega
      · have := ih h
        omega

/-- When no occurrence crosses the end of the first part, the two parts are searched alone. -/
theorem parts_append (hskip : skip ≤ a.length)
    (h : ∀ p ∈ places needle skip i (a ++ b), p < i + a.length → p + needle.length ≤ i + a.length) :
    places needle skip i (a ++ b) = places needle skip i a ++ places needle 0 (i + a.length) b ∧
      replaced needle replacement skip (a ++ b) =
        replaced needle replacement skip a ++ replaced needle replacement 0 b := by
  induction a generalizing skip i with
  | nil =>
    obtain rfl : skip = 0 := by simpa using hskip
    simp [places]
  | cons c a ih =>
    have hindex : i + (c :: a).length = i + 1 + a.length := by
      rw [List.length_cons]
      omega
    rw [hindex] at h ⊢
    rw [List.cons_append] at h ⊢
    cases skip with
    | succ k => exact ih (by simpa using hskip) h
    | zero =>
      by_cases hhere : needle <+: c :: (a ++ b)
      · rw [places_hit hhere] at h
        have hinside := h i (by simp) (by omega)
        have hfirst : needle <+: c :: a :=
          List.prefix_of_prefix_length_le hhere ⟨b, rfl⟩ (by rw [List.length_cons]; omega)
        have hcovered : needle.length - 1 ≤ a.length := by omega
        obtain ⟨hplaces, hreplaced⟩ := ih hcovered fun p hp => h p (List.mem_cons_of_mem _ hp)
        rw [places_hit hhere, places_hit hfirst, replaced_hit hhere, replaced_hit hfirst, hplaces, hreplaced]
        simp
      · have hfirst : ¬ needle <+: c :: a := fun hp => hhere (hp.trans ⟨b, rfl⟩)
        rw [places_miss hhere] at h
        obtain ⟨hplaces, hreplaced⟩ := ih (Nat.zero_le _) h
        rw [places_miss hhere, places_miss hfirst, replaced_miss hhere, replaced_miss hfirst, hplaces,
          hreplaced]
        simp

theorem replaced_of_places_nil (h : places needle 0 i text = []) :
    replaced needle replacement 0 text = text := by
  induction text generalizing i with
  | nil => simp
  | cons c text ih =>
    by_cases hhere : needle <+: c :: text
    · rw [places_hit hhere] at h
      cases h
    · rw [places_miss hhere] at h
      rw [replaced_miss hhere, ih h]

end Occurrence
