import T560.Guard.Composition

/-!
# Words of a command

A word is written with letters, behind backslashes or not, and with quoted texts. The splitter
keeps such a text in its piece, and the tokenizer puts the value of the word behind what it has
read. So a command that starts with words starts with their values.
-/

namespace T560.Guard

open Js (isSpace trimChars)

/-- One character, behind a backslash or not. -/
inductive Letter where
  | bare (ch : Char)
  | escaped (ch : Char)
  deriving DecidableEq, Repr

inductive Part where
  | letter (l : Letter)
  | single (body : List Char)
  | double (body : List Letter)
  deriving DecidableEq, Repr

def Letter.text : Letter → List Char
  | .bare ch => [ch]
  | .escaped ch => ['\\', ch]

def Letter.value : Letter → Char
  | .bare ch => ch
  | .escaped ch => ch

def Part.text : Part → List Char
  | .letter l => l.text
  | .single body => '\'' :: (body ++ ['\''])
  | .double body => '"' :: (body.flatMap Letter.text ++ ['"'])

def Part.value : Part → List Char
  | .letter l => [l.value]
  | .single body => body
  | .double body => body.map Letter.value

/-- The character stands for itself outside quotes. -/
def IsPlain (ch : Char) : Prop :=
  isSpace ch = false ∧ isBreak ch = false ∧ ch ≠ '\\' ∧ ch ≠ '\'' ∧ ch ≠ '"'

instance (ch : Char) : Decidable (IsPlain ch) := inferInstanceAs (Decidable (_ ∧ _))

def Part.WellFormed : Part → Prop
  | .letter (.bare ch) => IsPlain ch
  | .letter (.escaped _) => True
  | .single body => '\'' ∉ body
  | .double body => ∀ ch, Letter.bare ch ∈ body → ch ≠ '"' ∧ ch ≠ '\\'

instance : (part : Part) → Decidable part.WellFormed
  | .letter (.bare ch) => inferInstanceAs (Decidable (IsPlain ch))
  | .letter (.escaped _) => .isTrue trivial
  | .single body => inferInstanceAs (Decidable ('\'' ∉ body))
  | .double body => decidable_of_iff (Letter.bare '"' ∉ body ∧ Letter.bare '\\' ∉ body)
      ⟨fun h _ hch => ⟨fun heq => h.1 (heq ▸ hch), fun heq => h.2 (heq ▸ hch)⟩,
        fun h => ⟨fun hmem => (h _ hmem).1 rfl, fun hmem => (h _ hmem).2 rfl⟩⟩

structure Word where
  parts : List Part
  wellFormed : ∀ part ∈ parts, part.WellFormed

def Word.text (word : Word) : List Char := word.parts.flatMap Part.text

def Word.value (word : Word) : String := String.ofList (word.parts.flatMap Part.value)

/-- The word that is written as it is. -/
def Word.plain (text : String) (h : ∀ ch ∈ text.toList, IsPlain ch) : Word where
  parts := text.toList.map (.letter <| .bare ·)
  wellFormed := by
    intro part hpart
    obtain ⟨ch, hch, rfl⟩ := List.mem_map.mp hpart
    exact h ch hch

theorem Word.text_plain {text : String} (h : ∀ ch ∈ text.toList, IsPlain ch) :
    (Word.plain text h).text = text.toList := by
  simp [Word.plain, Word.text, List.flatMap_map, Part.text, Letter.text]

theorem Word.value_plain {text : String} (h : ∀ ch ∈ text.toList, IsPlain ch) :
    (Word.plain text h).value = text := by
  simp [Word.plain, Word.value, List.flatMap_map, Part.value, Letter.value]

/-! ## The splitter -/

section Split

variable {out : List (List Char)} {current : List Char}

/-- No character of the kind is one that the automata treat specially. -/
theorem ne_special {kind : Char → Bool}
    (hkind : ∀ ch ∈ [';', '|', '&', '\\', '\'', '"'], kind ch = false) {ch : Char}
    (h : kind ch = true) :
    ch ≠ ';' ∧ ch ≠ '|' ∧ ch ≠ '&' ∧ ch ≠ '\\' ∧ ch ≠ '\'' ∧ ch ≠ '"' := by
  have hne : ∀ special ∈ [';', '|', '&', '\\', '\'', '"'], ch ≠ special := by
    rintro special hspecial rfl
    rw [hkind ch hspecial] at h
    cases h
  simpa using hne

theorem splitStep_plain {ch : Char} (h : IsPlain ch) :
    splitStep { out := out, current := current } ch =
      { out := out, current := current ++ [ch] } := by
  obtain ⟨-, hbreak, hback, hsingle, hdouble⟩ := h
  simp [splitStep, hbreak, hback, hsingle, hdouble]

theorem splitStep_space {ch : Char} (h : isSpace ch = true) :
    splitStep { out := out, current := current } ch =
      { out := out, current := current ++ [ch] } := by
  have hother := ne_special (by decide) h
  simp [splitStep, isBreak, hother]

/-- Within quotes the splitter keeps every character, and sees only the closing quote. -/
theorem foldl_splitStep_single {body : List Char} (h : '\'' ∉ body) :
    body.foldl splitStep { out := out, current := current, quote := some '\'' } =
      { out := out, current := current ++ body, quote := some '\'' } := by
  induction body generalizing current with
  | nil => simp
  | cons ch body ih =>
    rw [List.mem_cons, not_or] at h
    have hstep : splitStep { out := out, current := current, quote := some '\'' } ch =
        { out := out, current := current ++ [ch], quote := some '\'' } := by
      simp [splitStep, Ne.symm h.1]
    rw [List.foldl_cons, hstep, ih h.2, List.append_assoc]
    rfl

theorem foldl_splitStep_double {body : List Letter}
    (h : ∀ ch, Letter.bare ch ∈ body → ch ≠ '"' ∧ ch ≠ '\\') :
    (body.flatMap Letter.text).foldl splitStep { out := out, current := current, quote := some '"' } =
      { out := out, current := current ++ body.flatMap Letter.text, quote := some '"' } := by
  induction body generalizing current with
  | nil => simp
  | cons letter body ih =>
    have hstep : letter.text.foldl splitStep { out := out, current := current, quote := some '"' } =
        { out := out, current := current ++ letter.text, quote := some '"' } := by
      cases letter with
      | bare ch =>
        obtain ⟨hdouble, hback⟩ := h ch (List.mem_cons_self ..)
        simp [splitStep, Letter.text, hdouble, hback]
      | escaped ch => simp [splitStep, Letter.text]
    rw [List.flatMap_cons, List.foldl_append, hstep,
      ih fun ch hch => h ch (List.mem_cons_of_mem _ hch), List.append_assoc]

theorem foldl_splitStep_part {part : Part} (h : part.WellFormed) :
    part.text.foldl splitStep { out := out, current := current } =
      { out := out, current := current ++ part.text } := by
  cases part with
  | letter l =>
    cases l with
    | bare ch => exact splitStep_plain h
    | escaped ch => simp [splitStep, Part.text, Letter.text]
  | single body =>
    have hopen : splitStep { out := out, current := current } '\'' =
        { out := out, current := current ++ ['\''], quote := some '\'' } := by
      simp [splitStep]
    rw [Part.text, List.foldl_cons, hopen, List.foldl_append, foldl_splitStep_single h]
    simp [splitStep]
  | double body =>
    have hopen : splitStep { out := out, current := current } '"' =
        { out := out, current := current ++ ['"'], quote := some '"' } := by
      simp [splitStep]
    rw [Part.text, List.foldl_cons, hopen, List.foldl_append, foldl_splitStep_double h]
    simp [splitStep]

theorem Word.foldl_splitStep (word : Word) :
    word.text.foldl splitStep { out := out, current := current } =
      { out := out, current := current ++ word.text } := by
  obtain ⟨parts, h⟩ := word
  unfold Word.text
  dsimp only
  induction parts generalizing current with
  | nil => simp
  | cons part parts ih =>
    rw [List.flatMap_cons, List.foldl_append, foldl_splitStep_part (h part (List.mem_cons_self ..)),
      ih fun p hp => h p (List.mem_cons_of_mem _ hp), List.append_assoc]

end Split

/-! ## The tokenizer -/

section Tokens

variable {tokens : List (List Char)} {current : List Char}

theorem tokenStep_plain {ch : Char} (h : IsPlain ch) :
    tokenStep { tokens := tokens, current := current } ch =
      { tokens := tokens, current := current ++ [ch] } := by
  obtain ⟨hspace, -, hback, hsingle, hdouble⟩ := h
  simp [tokenStep, hspace, hback, hsingle, hdouble]

theorem tokenStep_space {ch : Char} (h : isSpace ch = true) :
    tokenStep { tokens := tokens, current := current } ch =
      TokenState.flush { tokens := tokens, current := current } := by
  have hother := ne_special (by decide) h
  simp [tokenStep, hother, h]

theorem foldl_tokenStep_single {body : List Char} (h : '\'' ∉ body) :
    body.foldl tokenStep { tokens := tokens, current := current, quote := some '\'' } =
      { tokens := tokens, current := current ++ body, quote := some '\'' } := by
  induction body generalizing current with
  | nil => simp
  | cons ch body ih =>
    rw [List.mem_cons, not_or] at h
    have hstep : tokenStep { tokens := tokens, current := current, quote := some '\'' } ch =
        { tokens := tokens, current := current ++ [ch], quote := some '\'' } := by
      simp [tokenStep, Ne.symm h.1]
    rw [List.foldl_cons, hstep, ih h.2, List.append_assoc]
    rfl

theorem foldl_tokenStep_double {body : List Letter}
    (h : ∀ ch, Letter.bare ch ∈ body → ch ≠ '"' ∧ ch ≠ '\\') :
    (body.flatMap Letter.text).foldl tokenStep
        { tokens := tokens, current := current, quote := some '"' } =
      { tokens := tokens, current := current ++ body.map Letter.value, quote := some '"' } := by
  induction body generalizing current with
  | nil => simp
  | cons letter body ih =>
    have hstep : letter.text.foldl tokenStep
          { tokens := tokens, current := current, quote := some '"' } =
        { tokens := tokens, current := current ++ [letter.value], quote := some '"' } := by
      cases letter with
      | bare ch =>
        obtain ⟨hdouble, hback⟩ := h ch (List.mem_cons_self ..)
        simp [tokenStep, Letter.text, Letter.value, hdouble, hback]
      | escaped ch => simp [tokenStep, Letter.text, Letter.value]
    rw [List.flatMap_cons, List.foldl_append, hstep,
      ih fun ch hch => h ch (List.mem_cons_of_mem _ hch), List.append_assoc]
    rfl

theorem foldl_tokenStep_part {part : Part} (h : part.WellFormed) :
    part.text.foldl tokenStep { tokens := tokens, current := current } =
      { tokens := tokens, current := current ++ part.value } := by
  cases part with
  | letter l =>
    cases l with
    | bare ch => exact tokenStep_plain h
    | escaped ch => simp [tokenStep, Part.text, Part.value, Letter.text, Letter.value]
  | single body =>
    have hopen : tokenStep { tokens := tokens, current := current } '\'' =
        { tokens := tokens, current := current, quote := some '\'' } := by
      simp [tokenStep]
    rw [Part.text, List.foldl_cons, hopen, List.foldl_append, foldl_tokenStep_single h]
    simp [tokenStep, Part.value]
  | double body =>
    have hopen : tokenStep { tokens := tokens, current := current } '"' =
        { tokens := tokens, current := current, quote := some '"' } := by
      simp [tokenStep]
    rw [Part.text, List.foldl_cons, hopen, List.foldl_append, foldl_tokenStep_double h]
    simp [tokenStep, Part.value]

theorem Word.foldl_tokenStep (word : Word) :
    word.text.foldl tokenStep { tokens := tokens, current := current } =
      { tokens := tokens, current := current ++ word.value.toList } := by
  obtain ⟨parts, h⟩ := word
  unfold Word.text Word.value
  rw [String.toList_ofList]
  dsimp only
  induction parts generalizing current with
  | nil => simp
  | cons part parts ih =>
    rw [List.flatMap_cons, List.foldl_append, foldl_tokenStep_part (h part (List.mem_cons_self ..)),
      ih fun p hp => h p (List.mem_cons_of_mem _ hp), List.flatMap_cons, List.append_assoc]

/-- What is in front of the words stays in front. -/
theorem tokenStep_tokens (front : List (List Char)) (s : TokenState) (ch : Char) :
    tokenStep { s with tokens := front ++ s.tokens } ch =
      { tokenStep s ch with tokens := front ++ (tokenStep s ch).tokens } := by
  unfold tokenStep TokenState.flush
  dsimp only
  split
  · rfl
  · split
    · rfl
    · split
      · split <;> rfl
      · split
        · rfl
        · split
          · split
            · rfl
            · rw [List.append_assoc]
          · rfl

theorem foldl_tokenStep_tokens (front : List (List Char)) (s : TokenState) (rest : List Char) :
    rest.foldl tokenStep { s with tokens := front ++ s.tokens } =
      { rest.foldl tokenStep s with tokens := front ++ (rest.foldl tokenStep s).tokens } := by
  induction rest generalizing s with
  | nil => rfl
  | cons ch rest ih =>
    rw [List.foldl_cons, List.foldl_cons, tokenStep_tokens]
    exact ih (tokenStep s ch)

theorem flush_tokens (front : List (List Char)) (s : TokenState) :
    (TokenState.flush { s with tokens := front ++ s.tokens }).tokens = front ++ s.flush.tokens := by
  unfold TokenState.flush
  split
  · rfl
  · exact List.append_assoc _ _ _

/-- From a new word on, the tokenizer reads the rest as if it stood alone. -/
theorem flush_foldl_tokenStep (rest : List Char) :
    (rest.foldl tokenStep { tokens := tokens }).flush.tokens.map String.ofList =
      tokens.map String.ofList ++ tokenizeShell rest := by
  have h := foldl_tokenStep_tokens tokens {} rest
  rw [List.append_nil] at h
  rw [h, flush_tokens, List.map_append]
  rfl

end Tokens

/-! ## Words in front -/

/-- The words with a blank behind each. -/
def wordsText (words : List Word) : List Char := words.flatMap fun word => word.text ++ [' ']

/-- The tokenizer drops an empty word. -/
def wordsValues (words : List Word) : List String := (words.map Word.value).filter (· ≠ "")

section Front

variable {words : List Word} {rest : List Char}

theorem flush_value (word : Word) :
    TokenState.flush { tokens := [], current := word.value.toList } =
      { tokens := (wordsValues [word]).map String.toList } := by
  unfold TokenState.flush wordsValues
  by_cases hempty : word.value = ""
  · simp [hempty]
  · simp [hempty]

theorem tokenizeShell_text (word : Word) : tokenizeShell word.text = wordsValues [word] := by
  have hread := @Word.foldl_tokenStep [] [] word
  unfold tokenizeShell
  rw [hread, List.nil_append, flush_value, List.map_map]
  simp

theorem tokenizeShell_word (word : Word) (rest : List Char) :
    tokenizeShell (word.text ++ ' ' :: rest) = wordsValues [word] ++ tokenizeShell rest := by
  have hread := @Word.foldl_tokenStep [] [] word
  have hrest := @flush_foldl_tokenStep ((wordsValues [word]).map String.toList) rest
  conv_lhs => unfold tokenizeShell
  rw [List.foldl_append, hread, List.nil_append, List.foldl_cons, tokenStep_space (by decide),
    flush_value, hrest, List.map_map]
  simp

theorem wordsValues_append (words more : List Word) :
    wordsValues (words ++ more) = wordsValues words ++ wordsValues more := by
  rw [wordsValues, List.map_append, List.filter_append, wordsValues, wordsValues]

/-- A command that starts with words starts with their values. -/
theorem tokenizeShell_words (words : List Word) (rest : List Char) :
    tokenizeShell (wordsText words ++ rest) = wordsValues words ++ tokenizeShell rest := by
  induction words with
  | nil => rfl
  | cons word words ih =>
    have htext : wordsText (word :: words) ++ rest =
        word.text ++ ' ' :: (wordsText words ++ rest) := by
      simp [wordsText]
    have hvalues := wordsValues_append [word] words
    rw [List.singleton_append] at hvalues
    rw [htext, tokenizeShell_word, ih, hvalues, List.append_assoc]

theorem foldl_splitStep_words (words : List Word) {out : List (List Char)} {current : List Char} :
    (wordsText words).foldl splitStep { out := out, current := current } =
      { out := out, current := current ++ wordsText words } := by
  induction words generalizing current with
  | nil => simp [wordsText]
  | cons word words ih =>
    have htext : wordsText (word :: words) = word.text ++ ([' '] ++ wordsText words) := by
      simp [wordsText]
    rw [htext, List.foldl_append, word.foldl_splitStep, List.foldl_append, List.foldl_cons,
      List.foldl_nil, splitStep_space (by decide), ih, List.append_assoc, List.append_assoc]

end Front

end T560.Guard
