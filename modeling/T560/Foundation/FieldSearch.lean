import Mathlib.Data.List.Infix
import T560.Foundation.Pattern

/-!
# Named fields in a text

A search for a name at a word boundary with a field behind it, as in `/\bNAME\s+(\d+)/i`. Where the
field starts with a blank, the name ends where a word of the text ends; so the search goes from word
to word. A search for a name alone goes from piece to piece between characters that the name does
not have.
-/

namespace T560.Foundation

/-- What is behind the name, in whatever case it is written. -/
def stripName : List Char → List Char → Option (List Char)
  | [], text => some text
  | n :: name, c :: text => if c.toLower = n.toLower then stripName name text else none
  | _ :: _, [] => none

/-- The field behind the first place where the name stands at a word boundary with a field behind
it. The flag says whether the character in front of the text is a word character. -/
def searchField {α : Type} (name : List Char) (field : List Char → Option α) :
    Bool → List Char → Option α
  | _, [] => none
  | inWord, c :: text =>
    (if inWord != isWordChar c then (stripName name (c :: text)).bind field else none).or
      (searchField name field (isWordChar c) text)

/-- The word ends with the name at a word boundary. -/
def endsWithName (name : List Char) : Bool → List Char → Bool
  | _, [] => false
  | inWord, c :: word =>
    (inWord != isWordChar c && stripName name (c :: word) = some []) ||
      endsWithName name (isWordChar c) word

def containsName (name text : List Char) : Bool :=
  text.tails.any fun rest => (stripName name rest).isSome

section Strip

variable {name text word : List Char}

theorem stripName_eq_nil_iff :
    stripName name word = some [] ↔ word.map Char.toLower = name.map Char.toLower := by
  induction name generalizing word with
  | nil => cases word <;> simp [stripName]
  | cons n name ih =>
    cases word with
    | nil => simp [stripName]
    | cons c word =>
      unfold stripName
      by_cases hc : c.toLower = n.toLower
      · simp [hc, ih]
      · simp [hc]

theorem stripName_self (name rest : List Char) : stripName name (name ++ rest) = some rest := by
  induction name with
  | nil => rfl
  | cons n name ih => rw [List.cons_append, stripName, if_pos rfl, ih]

/-- A word that ends with the name ends with its last letter. -/
theorem getLast?_of_endsWithName {inWord : Bool}
    (h : endsWithName name inWord word = true) :
    word.getLast?.map Char.toLower = name.getLast?.map Char.toLower := by
  induction word generalizing inWord with
  | nil => cases h
  | cons c word ih =>
    unfold endsWithName at h
    rcases Bool.or_eq_true_iff.mp h with h | h
    · have hlower := stripName_eq_nil_iff.mp (of_decide_eq_true (Bool.and_eq_true_iff.mp h).2)
      rw [← List.getLast?_map, ← List.getLast?_map, hlower]
    · have hne : word ≠ [] := by
        rintro rfl
        cases h
      rw [List.getLast?_cons_of_ne_nil hne]
      exact ih h

end Strip

section Search

variable {α : Type} {name text word close : List Char} {field next : List Char → Option α}
  {blank : Char → Bool} {words : List (List Char)}

/-- A field that starts with a blank, behind a name without one. -/
structure Apart (blank : Char → Bool) (name : List Char) (field : List Char → Option α) : Prop where
  letters : ∀ n ∈ name, n.toLower ≠ ' '
  ne_nil : name ≠ []
  missing : field [] = none
  starts : ∀ c text, blank c = false → field (c :: text) = none

/-- Behind a name that stops in a word there is no field. -/
theorem bind_stripName (hname : ∀ n ∈ name, n.toLower ≠ ' ') (hword : ∀ c ∈ word, blank c = false)
    (hfield : ∀ c text, blank c = false → field (c :: text) = none) :
    (stripName name (word ++ ' ' :: text)).bind field =
      if stripName name word = some [] then field (' ' :: text) else none := by
  induction name generalizing word with
  | nil =>
    cases word with
    | nil => rfl
    | cons c word => simp [stripName, hfield c _ (hword c (List.mem_cons_self ..))]
  | cons n name ih =>
    cases word with
    | nil =>
      have hn : ¬ ' ' = n.toLower := fun h => hname n (List.mem_cons_self ..) h.symm
      simp [stripName, hn]
    | cons c word =>
      rw [List.cons_append, stripName, stripName]
      by_cases hc : c.toLower = n.toLower
      · rw [if_pos hc, if_pos hc]
        exact ih (fun m hm => hname m (List.mem_cons_of_mem _ hm))
          fun d hd => hword d (List.mem_cons_of_mem _ hd)
      · rw [if_neg hc, if_neg hc]
        rfl

/-- The search in a text that starts with a word and a blank. -/
theorem searchField_word (h : Apart blank name field) (inWord : Bool) (hword : ∀ c ∈ word, blank c = false)
    (text : List Char) :
    searchField name field inWord (word ++ ' ' :: text) =
      (if endsWithName name inWord word then field (' ' :: text) else none).or
        (searchField name field false text) := by
  induction word generalizing inWord with
  | nil =>
    obtain ⟨n, name, rfl⟩ := List.exists_cons_of_ne_nil h.ne_nil
    have hn : ¬ ' ' = n.toLower := fun heq => h.letters n (List.mem_cons_self ..) heq.symm
    have hblank : isWordChar ' ' = false := by decide
    rw [List.nil_append, searchField, hblank]
    simp [stripName, hn, endsWithName]
  | cons c word ih =>
    have hrest : ∀ d ∈ word, blank d = false := fun d hd => hword d (List.mem_cons_of_mem _ hd)
    have hstrip := @bind_stripName α name text (c :: word) field blank h.letters hword h.starts
    rw [List.cons_append] at hstrip ⊢
    rw [searchField, hstrip, ih (isWordChar c) hrest, endsWithName]
    by_cases hends : (inWord != isWordChar c && decide (stripName name (c :: word) = some [])) = true
    · obtain ⟨hbound, hstripped⟩ := Bool.and_eq_true_iff.mp hends
      rw [if_pos hbound, if_pos (of_decide_eq_true hstripped), hends, Bool.true_or, if_pos rfl]
      cases field (' ' :: text) with
      | none => simp
      | some value => simp
    · have hnone : (if (inWord != isWordChar c) = true then
          if stripName name (c :: word) = some [] then field (' ' :: text) else none
          else none) = none := by
        by_cases hbound : (inWord != isWordChar c) = true
        · have hstripped : stripName name (c :: word) ≠ some [] := by simpa [hbound] using hends
          rw [if_pos hbound, if_neg hstripped]
        · rw [if_neg hbound]
      rw [hnone, Bool.eq_false_iff.mpr hends, Bool.false_or, Option.none_or]

theorem stripName_suffix {rest : List Char} (h : stripName name text = some rest) : rest <:+ text := by
  induction name generalizing text with
  | nil =>
    cases text <;>
    · obtain rfl := Option.some.inj h
      exact List.suffix_rfl
  | cons n name ih =>
    cases text with
    | nil => cases h
    | cons c text =>
      rw [stripName] at h
      by_cases hc : c.toLower = n.toLower
      · rw [if_pos hc] at h
        exact (ih h).trans (List.suffix_cons c text)
      · rw [if_neg hc] at h
        cases h

/-- In a last word there is no field. -/
theorem searchField_last (h : Apart blank name field) (inWord : Bool)
    (hword : ∀ c ∈ word, blank c = false) : searchField name field inWord word = none := by
  induction word generalizing inWord with
  | nil => rfl
  | cons c word ih =>
    have hstrip : (stripName name (c :: word)).bind field = none := by
      cases hrest : stripName name (c :: word) with
      | none => rfl
      | some rest =>
        have hsuffix := stripName_suffix hrest
        cases rest with
        | nil => exact h.missing
        | cons d rest => exact h.starts d rest (hword d (hsuffix.subset (List.mem_cons_self ..)))
    rw [searchField, hstrip, ite_self, Option.none_or]
    exact ih _ fun d hd => hword d (List.mem_cons_of_mem _ hd)

/-- No name starts at a character that belongs to no word. -/
theorem searchField_mark {c : Char} (hc : isWordChar c = false) (text : List Char) :
    searchField name field false (c :: text) = searchField name field false text := by
  rw [searchField, hc]
  simp

/-- The words with one blank between each two. -/
def joined : List (List Char) → List Char
  | [] => []
  | [word] => word
  | word :: next :: words => word ++ ' ' :: joined (next :: words)

theorem mem_joined {c : Char} (h : c ∈ joined words) : c = ' ' ∨ ∃ word ∈ words, c ∈ word := by
  induction words using joined.induct with
  | case1 => cases h
  | case2 word => exact Or.inr ⟨word, List.mem_singleton_self _, h⟩
  | case3 word follower words ih =>
    rcases List.mem_append.mp h with h | h
    · exact Or.inr ⟨word, List.mem_cons_self .., h⟩
    · rcases List.mem_cons.mp h with h | h
      · exact Or.inl h
      · rcases ih h with h | ⟨w, hw, hc⟩
        · exact Or.inl h
        · exact Or.inr ⟨w, List.mem_cons_of_mem _ hw, hc⟩

/-- The field of the first word that ends with the name, where the next word has one. -/
def searchWords (name : List Char) (next : List Char → Option α) : List (List Char) → Option α
  | [] => none
  | [_] => none
  | word :: follower :: words =>
    (if endsWithName name false word then next follower else none).or
      (searchWords name next (follower :: words))

theorem searchWords_none (hnext : ∀ word ∈ words.tail, next word = none) :
    searchWords name next words = none := by
  induction words using searchWords.induct with
  | case1 => rfl
  | case2 => rfl
  | case3 word follower words ih =>
    have hrest := ih fun w hw => hnext w (List.mem_of_mem_tail hw)
    rw [searchWords, hnext follower (List.mem_cons_self ..), ite_self, hrest, Option.none_or]

/-- The search in words that a mark closes. -/
theorem searchField_joined (h : Apart blank name field) (hclose : ∀ c ∈ close, blank c = false)
    (hends : ∀ word, word = [] ∨ word ∈ words → endsWithName name false (word ++ close) = false)
    (hwords : ∀ word ∈ words, ∀ c ∈ word, blank c = false)
    (hnext : ∀ word ∈ words.tail, ∀ c rest, c = ' ' ∨ close.head? = some c →
      field (' ' :: (word ++ c :: rest)) = next word) (text : List Char) :
    searchField name field false (joined words ++ (close ++ ' ' :: text)) =
      (searchWords name next words).or (searchField name field false text) := by
  induction words using joined.induct with
  | case1 =>
    rw [joined, List.nil_append, searchField_word h false hclose]
    have := hends [] (Or.inl rfl)
    rw [List.nil_append] at this
    rw [this]
    rfl
  | case2 word =>
    have hword : ∀ c ∈ word ++ close, blank c = false := by
      intro c hc
      rcases List.mem_append.mp hc with hc | hc
      · exact hwords word (List.mem_singleton_self _) c hc
      · exact hclose c hc
    rw [joined, ← List.append_assoc, searchField_word h false hword,
      hends word (Or.inr (List.mem_singleton_self _))]
    rfl
  | case3 word follower words ih =>
    obtain ⟨hword, hrest⟩ := List.forall_mem_cons.mp hwords
    have hfield : field (' ' :: (joined (follower :: words) ++ (close ++ ' ' :: text))) = next follower := by
      have hfollower := hnext follower (List.mem_cons_self ..)
      cases words with
      | nil =>
        cases close with
        | nil => exact hfollower ' ' text (Or.inl rfl)
        | cons c close => exact hfollower c (close ++ ' ' :: text) (Or.inr rfl)
      | cons third words =>
        rw [joined, List.append_assoc, List.cons_append]
        exact hfollower ' ' _ (Or.inl rfl)
    have hmore := ih
      (fun w hw => hends w (hw.imp id (List.mem_cons_of_mem _))) hrest
      (fun w hw => hnext w (List.mem_of_mem_tail hw))
    rw [joined, List.append_assoc, List.cons_append, searchField_word h false hword, hfield, hmore,
      searchWords, Option.or_assoc]

end Search

section Contains

variable {name text : List Char}

theorem isSome_stripName :
    (stripName name text).isSome = true ↔ name.map Char.toLower <+: text.map Char.toLower := by
  induction name generalizing text with
  | nil => simp [stripName]
  | cons n name ih =>
    cases text with
    | nil => simp [stripName]
    | cons c text =>
      unfold stripName
      by_cases hc : c.toLower = n.toLower
      · simp [hc, ih, List.cons_prefix_cons]
      · simp [hc, Ne.symm hc, List.cons_prefix_cons]

theorem containsName_iff :
    containsName name text = true ↔ name.map Char.toLower <:+: text.map Char.toLower := by
  unfold containsName
  rw [List.any_eq_true]
  constructor
  · rintro ⟨rest, hrest, hstrip⟩
    obtain ⟨front, hfront⟩ := (List.mem_tails ..).mp hrest
    obtain ⟨back, hback⟩ := isSome_stripName.mp hstrip
    refine ⟨front.map Char.toLower, back, ?_⟩
    rw [← hfront, List.map_append, ← hback, List.append_assoc]
  · rintro ⟨front, back, htext⟩
    have hlength : front.length ≤ text.length := by
      have := congrArg List.length htext
      simp only [List.length_append, List.length_map] at this
      omega
    refine ⟨text.drop front.length, (List.mem_tails ..).mpr (List.drop_suffix _ _),
      isSome_stripName.mpr ⟨back, ?_⟩⟩
    rw [List.map_drop, ← htext, List.append_assoc, List.drop_left]

/-- A text without one of the letters of the name does not contain it. -/
theorem containsName_missing {c : Char} (hc : c ∈ name.map Char.toLower)
    (htext : c ∉ text.map Char.toLower) : containsName name text = false := by
  rw [← Bool.not_eq_true, containsName_iff]
  intro hinside
  exact htext ( hinside.subset hc)

/-- A name does not reach over a character that it does not have. -/
theorem isSome_stripName_append {c : Char} (hc : c.toLower ∉ name.map Char.toLower)
    (front back : List Char) :
    (stripName name (front ++ c :: back)).isSome = (stripName name front).isSome := by
  induction name generalizing front with
  | nil => rfl
  | cons n name ih =>
    rw [List.map_cons, List.mem_cons, not_or] at hc
    cases front with
    | nil => simp [stripName, hc.1]
    | cons d front =>
      rw [List.cons_append, stripName, stripName]
      by_cases hd : d.toLower = n.toLower
      · rw [if_pos hd, if_pos hd]
        exact ih hc.2 front
      · rw [if_neg hd, if_neg hd]

/-- A character that the name does not have separates the places where it can be. -/
theorem containsName_separator {c : Char} (hc : c.toLower ∉ name.map Char.toLower)
    (front back : List Char) :
    containsName name (front ++ c :: back) = (containsName name front || containsName name back) := by
  have hcons : ∀ (d : Char) (text : List Char), containsName name (d :: text) =
      ((stripName name (d :: text)).isSome || containsName name text) := by
    intro d text
    unfold containsName
    rw [List.tails_cons, List.any_cons]
  induction front with
  | nil =>
    have hempty : containsName name [] = (stripName name []).isSome := by
      simp [containsName]
    rw [List.nil_append, hcons, hempty]
    exact congrArg (· || _) (isSome_stripName_append hc [] back)
  | cons d front ih =>
    rw [List.cons_append, hcons, hcons, ih, ← List.cons_append,
      isSome_stripName_append hc (d :: front) back, Bool.or_assoc]

end Contains

end T560.Foundation
