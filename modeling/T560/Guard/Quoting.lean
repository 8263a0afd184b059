import T560.Guard.ShellWords

/-!
# Quoted words

Every text can be handed to the shell as one word: between single quotes, with each quote in it
written as a closing quote, an escaped quote and an opening quote.
-/

namespace T560.Guard

open Js (isSpace trimChars trimChars_eq_self)

/-- A character between single quotes. -/
def quotedChar (ch : Char) : List Char := if ch = '\'' then ['\'', '\\', '\'', '\''] else [ch]

def singleQuoted (word : String) : List Char :=
  '\'' :: (word.toList.flatMap quotedChar ++ ['\''])

/-- The quoted words with blanks between them. -/
def quotedCommand (words : List String) : List Char :=
  List.intercalate [' '] (words.map singleQuoted)

section Parts

/-- The parts of the quoted text: the run that is open, and what follows it. -/
def quotedParts (run : List Char) : List Char → List Part
  | [] => [.single run]
  | ch :: rest =>
    if ch = '\'' then .single run :: .letter (.escaped '\'') :: quotedParts [] rest
    else quotedParts (run ++ [ch]) rest

theorem quotedParts_wellFormed {run : List Char} (hrun : '\'' ∉ run) (chars : List Char) :
    ∀ part ∈ quotedParts run chars, part.WellFormed := by
  induction chars generalizing run with
  | nil =>
    intro part hpart
    obtain rfl := List.mem_singleton.mp hpart
    exact hrun
  | cons ch rest ih =>
    unfold quotedParts
    by_cases hch : ch = '\''
    · rw [if_pos hch]
      intro part hpart
      rcases List.mem_cons.mp hpart with rfl | hpart
      · exact hrun
      · rcases List.mem_cons.mp hpart with rfl | hpart
        · trivial
        · exact ih List.not_mem_nil part hpart
    · rw [if_neg hch]
      apply ih
      intro hin
      rcases List.mem_append.mp hin with hin | hin
      · exact hrun hin
      · exact hch (List.mem_singleton.mp hin).symm

theorem quotedParts_text (run chars : List Char) :
    (quotedParts run chars).flatMap Part.text =
      '\'' :: (run ++ (chars.flatMap quotedChar ++ ['\''])) := by
  induction chars generalizing run with
  | nil => simp [quotedParts, Part.text]
  | cons ch rest ih =>
    unfold quotedParts
    by_cases hch : ch = '\''
    · rw [if_pos hch, List.flatMap_cons, List.flatMap_cons, ih, List.flatMap_cons, quotedChar,
        if_pos hch]
      simp [Part.text, Letter.text]
    · rw [if_neg hch, ih, List.flatMap_cons, quotedChar, if_neg hch]
      simp

theorem quotedParts_value (run chars : List Char) :
    (quotedParts run chars).flatMap Part.value = run ++ chars := by
  induction chars generalizing run with
  | nil => simp [quotedParts, Part.value]
  | cons ch rest ih =>
    unfold quotedParts
    by_cases hch : ch = '\''
    · rw [if_pos hch, List.flatMap_cons, List.flatMap_cons, ih, hch]
      rfl
    · rw [if_neg hch, ih, List.append_assoc]
      rfl

end Parts

def Word.quoted (word : String) : Word where
  parts := quotedParts [] word.toList
  wellFormed := quotedParts_wellFormed List.not_mem_nil word.toList

theorem Word.text_quoted (word : String) : (Word.quoted word).text = singleQuoted word :=
  quotedParts_text [] word.toList

theorem Word.value_quoted (word : String) : (Word.quoted word).value = word := by
  unfold Word.value Word.quoted
  rw [quotedParts_value, List.nil_append, String.ofList_toList]

section Command

/-- All the words but the last one have a blank behind them. -/
theorem quotedCommand_concat (front : List String) (last : String) :
    quotedCommand (front ++ [last]) = wordsText (front.map Word.quoted) ++ singleQuoted last := by
  unfold quotedCommand
  induction front with
  | nil => simp [wordsText]
  | cons word front ih =>
    obtain ⟨next, words, hwords⟩ := List.exists_cons_of_ne_nil
      (List.append_ne_nil_of_right_ne_nil front (List.cons_ne_nil last []))
    rw [List.cons_append, List.map_cons, hwords, List.map_cons, List.intercalate_cons_cons,
      ← List.map_cons, ← hwords, ih]
    simp [wordsText, Word.text_quoted]

theorem wordsValues_quoted {words : List String} (h : ∀ word ∈ words, word ≠ "") :
    wordsValues (words.map Word.quoted) = words := by
  have hvalues : (words.map Word.quoted).map Word.value = words := by
    rw [List.map_map]
    conv_rhs => rw [← List.map_id words]
    exact List.map_congr_left fun word _ => Word.value_quoted word
  rw [wordsValues, hvalues]
  exact List.filter_eq_self.mpr fun word hword => by simpa using h word hword

theorem tokenizeShell_quotedCommand {words : List String} (h : ∀ word ∈ words, word ≠ "") :
    tokenizeShell (quotedCommand words) = words := by
  have hvalues := wordsValues_quoted h
  rcases List.eq_nil_or_concat words with rfl | ⟨front, last, rfl⟩
  · rfl
  · rw [List.concat_eq_append, List.map_append, wordsValues_append] at hvalues
    rw [List.concat_eq_append, quotedCommand_concat, tokenizeShell_words, ← Word.text_quoted,
      tokenizeShell_text]
    exact hvalues

/-- A command of quoted words starts and ends with a quote. -/
theorem trimChars_quotedCommand {words : List String} (hne : words ≠ []) :
    trimChars (quotedCommand words) = quotedCommand words := by
  have hquote : isSpace '\'' = false := by decide
  apply trimChars_eq_self
  · intro ch hhead
    obtain ⟨word, rest, rfl⟩ := List.exists_cons_of_ne_nil hne
    have hfront : (quotedCommand (word :: rest)).head? = some '\'' := by
      cases rest with
      | nil => simp [quotedCommand, singleQuoted]
      | cons next rest => simp [quotedCommand, singleQuoted, List.intercalate_cons_cons]
    rw [hfront, Option.some.injEq] at hhead
    exact hhead ▸ hquote
  · intro ch hlast
    rcases List.eq_nil_or_concat words with rfl | ⟨front, last, rfl⟩
    · exact absurd rfl hne
    rw [List.concat_eq_append, quotedCommand_concat, singleQuoted, ← List.cons_append,
      ← List.append_assoc, List.getLast?_concat, Option.some.injEq] at hlast
    exact hlast ▸ hquote

theorem splitShellSegments_quotedCommand {words : List String} (hne : words ≠ []) :
    splitShellSegments (quotedCommand words) = [quotedCommand words] := by
  have hrun : splitRun (quotedCommand words) = { current := quotedCommand words } := by
    rcases List.eq_nil_or_concat words with rfl | ⟨front, last, rfl⟩
    · exact absurd rfl hne
    rw [List.concat_eq_append, quotedCommand_concat, ← Word.text_quoted, splitRun,
      List.foldl_append, foldl_splitStep_words, Word.foldl_splitStep]
    rfl
  have hfilled : quotedCommand words ≠ [] := by
    rcases List.eq_nil_or_concat words with rfl | ⟨front, last, rfl⟩
    · exact absurd rfl hne
    rw [List.concat_eq_append, quotedCommand_concat]
    exact List.append_ne_nil_of_right_ne_nil _ (List.cons_ne_nil _ _)
  rw [splitShellSegments, hrun, SplitState.segments, List.nil_append]
  unfold cleaned
  dsimp only
  rw [trimChars_quotedCommand hne, if_neg hfilled]

theorem quoted_words_round_trip (words : List String) (hne : words ≠ [])
    (hwords : ∀ word ∈ words, word ≠ "") :
    splitShellSegments (quotedCommand words) = [quotedCommand words] ∧
      tokenizeShell (quotedCommand words) = words :=
  ⟨splitShellSegments_quotedCommand hne, tokenizeShell_quotedCommand hwords⟩

theorem quoted_three_words :
    splitShellSegments (quotedCommand ["it's", "a; b", "\\"]) =
        [quotedCommand ["it's", "a; b", "\\"]] ∧
      tokenizeShell (quotedCommand ["it's", "a; b", "\\"]) = ["it's", "a; b", "\\"] :=
  quoted_words_round_trip ["it's", "a; b", "\\"] (by decide) (by decide)

end Command

end T560.Guard
