import T560.Guard.Inside
import T560.Guard.ShellWords
import T560.Guard.Verdict

/-!
# Wrappers in front of a command

Assignments, `env` and `sudo` may stand in front of a command in any order, and run it all the
same. The guard looks for the command with skip loops in a fixed order, so it finds the command
behind some of these prefixes only; and the flags that `git` and `find` are asked for are looked up
among the words of the prefix too.
-/

namespace T560.Guard

open Js (isSpace trimChars trim startsWith Path.resolve Path.basename)

/-! ## Prefixes -/

/-- An option of `sudo`; it may take the word behind it as its argument. -/
structure SudoOption where
  flag : Word
  argument : Option Word
  dash : startsWith "-" flag.value = true

inductive Wrapper where
  | assignment (word : Word) (h : isEnvAssignmentToken word.value = true)
  | env (arguments : List Word)
      (h : ∀ word ∈ arguments, startsWith "-" word.value = true ∨
        isEnvAssignmentToken word.value = true)
  | sudo (options : List SudoOption)

def SudoOption.words (option : SudoOption) : List Word := option.flag :: option.argument.toList

def Wrapper.words : Wrapper → List Word
  | .assignment word _ => [word]
  | .env arguments _ => .plain "env" (by decide) :: arguments
  | .sudo options => .plain "sudo" (by decide) :: options.flatMap SudoOption.words

def prefixWords (wrappers : List Wrapper) : List Word := wrappers.flatMap Wrapper.words

/-- The command behind the wrappers. -/
def wrap (wrappers : List Wrapper) (command : String) : String :=
  String.ofList (wordsText (prefixWords wrappers) ++ command.toList)

/-- The words of a prefix as the guard reads them. -/
def prefixValues (wrappers : List Wrapper) : List String := wordsValues (prefixWords wrappers)

/-- The first word of the command as the guard reads it. -/
def firstWord (command : String) : Option String :=
  (tokenizeShell (trimChars (firstPiece command))).head?

/-- The word is none of the wrappers. Behind `env` and `sudo` it does not start with a dash either,
or it would be one more of their options. -/
def StartsCommand (values : List String) (word : String) : Prop :=
  isEnvAssignmentToken word = false ∧ word ≠ "env" ∧ word ≠ "sudo" ∧
    (startsWith "-" word = true → ∀ value ∈ values, isEnvAssignmentToken value = true)

instance (values : List String) (word : String) : Decidable (StartsCommand values word) :=
  inferInstanceAs (Decidable (_ ∧ _))

/-- The wrappers stand in front of a command. -/
def Wraps (wrappers : List Wrapper) (command : String) : Prop :=
  ∃ word, firstWord command = some word ∧ StartsCommand (prefixValues wrappers) word

/-- Names in lower case, with no slash and nothing of a wrapper in them. -/
def plainNames : List String := ["systemctl", "systemctl halt", "git", "find", "rm"]

theorem plainNames_plain : ∀ name ∈ plainNames,
    (Path.basename name = name ∧ name.toList.all Js.isAscii = true ∧
      String.ofList (name.toList.map Char.toLower) = name) ∧
    isEnvAssignmentToken name = false ∧ name ≠ "env" ∧ name ≠ "sudo" ∧
      startsWith "-" name = false := by
  decide

theorem commandNameOf_plain {env : GuardEnv} {name : String} (h : name ∈ plainNames) :
    commandNameOf env name = name := by
  obtain ⟨⟨hbase, hascii, hlower⟩, -⟩ := plainNames_plain name h
  exact commandNameOf_eq hbase hascii hlower

theorem startsCommand_plain {name : String} (h : name ∈ plainNames) (values : List String) :
    StartsCommand values name := by
  obtain ⟨-, hassignment, henv, hsudo, hdash⟩ := plainNames_plain name h
  refine ⟨hassignment, henv, hsudo, fun hstarts => ?_⟩
  rw [hdash] at hstarts
  cases hstarts

/-! ## The skip loops -/

section Skip

variable {tokens rest : List String} {word : String}

/-- What the loops leave of the words: the command and what is behind it. -/
def behindAssignments (tokens : List String) : List String := tokens.dropWhile isEnvAssignmentToken

def behindEnv (tokens : List String) : List String :=
  if tokens.head? = some "env" then
    tokens.tail.dropWhile fun t => startsWith "-" t || isEnvAssignmentToken t
  else tokens

def behindSudo (tokens : List String) : List String :=
  if tokens.head? = some "sudo" then behindAssignments (tokens.tail.dropWhile (startsWith "-"))
  else tokens

def commandWords (tokens : List String) : List String :=
  behindSudo (behindEnv (behindAssignments tokens))

/-- The words from the index on. -/
structure WordsAt (tokens : List String) (idx : Nat) (words : List String) : Prop where
  drop : tokens.drop idx = words
  le : idx ≤ tokens.length

theorem WordsAt.skipWhile {idx : Nat} {words : List String} (h : WordsAt tokens idx words)
    (test : String → Bool) : WordsAt tokens (skipWhile test tokens idx) (words.dropWhile test) := by
  obtain ⟨rfl, hle⟩ := h
  have hlength := (List.takeWhile_prefix test (l := tokens.drop idx)).length_le
  rw [List.length_drop] at hlength
  unfold Guard.skipWhile
  constructor
  · rw [← List.drop_drop]
    generalize tokens.drop idx = words
    have hsplit := @List.takeWhile_append_dropWhile _ test words
    calc words.drop (words.takeWhile test).length
        = (words.takeWhile test ++ words.dropWhile test).drop (words.takeWhile test).length := by
          rw [hsplit]
      _ = words.dropWhile test := List.drop_left
  · omega

theorem WordsAt.next {idx : Nat} {words : List String} (h : WordsAt tokens idx (word :: words)) :
    tokens[idx]? = some word ∧ WordsAt tokens (idx + 1) words := by
  obtain ⟨hdrop, hle⟩ := h
  have hlength := congrArg List.length hdrop
  rw [List.length_drop, List.length_cons] at hlength
  refine ⟨?_, ?_, by omega⟩
  · rw [← List.head?_drop, hdrop]
    rfl
  · rw [← List.drop_drop, hdrop]
    rfl

theorem WordsAt.last {idx : Nat} (h : WordsAt tokens idx []) : idx = tokens.length := by
  have hlength := congrArg List.length h.drop
  rw [List.length_drop, List.length_nil] at hlength
  have := h.le
  omega

/-- The index of the command is where the words that the loops leave start. -/
theorem findCommandTokenIndex_eq (tokens : List String) :
    findCommandTokenIndex tokens =
      if commandWords tokens = [] then none
      else some (tokens.length - (commandWords tokens).length) := by
  have hstart : WordsAt tokens 0 tokens := ⟨rfl, Nat.zero_le _⟩
  have hfirst := hstart.skipWhile isEnvAssignmentToken
  unfold findCommandTokenIndex commandWords behindAssignments
  dsimp only
  generalize Guard.skipWhile isEnvAssignmentToken tokens 0 = idx at hfirst ⊢
  generalize tokens.dropWhile isEnvAssignmentToken = words at hfirst ⊢
  cases words with
  | nil =>
    rw [hfirst.last, List.getElem?_eq_none (Nat.le_refl _)]
    rfl
  | cons first words =>
    rw [hfirst.next.1]
    dsimp only
    have hsecond : WordsAt tokens
        (if first = "env" then
          Guard.skipWhile (fun t => startsWith "-" t || isEnvAssignmentToken t) tokens (idx + 1)
        else idx) (behindEnv (first :: words)) := by
      unfold behindEnv
      by_cases henv : first = "env"
      · simpa [henv] using hfirst.next.2.skipWhile _
      · simpa [henv] using hfirst
    generalize (if first = "env" then
      Guard.skipWhile (fun t => startsWith "-" t || isEnvAssignmentToken t) tokens (idx + 1)
      else idx) = idx at hsecond ⊢
    generalize behindEnv (first :: words) = words at hsecond ⊢
    cases words with
    | nil =>
      rw [hsecond.last, List.getElem?_eq_none (Nat.le_refl _)]
      rfl
    | cons second words =>
      rw [hsecond.next.1]
      dsimp only
      have hthird : WordsAt tokens
          (if second = "sudo" then
            Guard.skipWhile isEnvAssignmentToken tokens
              (Guard.skipWhile (startsWith "-") tokens (idx + 1))
          else idx) (behindSudo (second :: words)) := by
        unfold behindSudo behindAssignments
        by_cases hsudo : second = "sudo"
        · simpa [hsudo] using (hsecond.next.2.skipWhile _).skipWhile _
        · simpa [hsudo] using hsecond
      generalize (if second = "sudo" then
        Guard.skipWhile isEnvAssignmentToken tokens
          (Guard.skipWhile (startsWith "-") tokens (idx + 1)) else idx) = idx at hthird ⊢
      generalize behindSudo (second :: words) = words at hthird ⊢
      have hlength := congrArg List.length hthird.drop
      have hle := hthird.le
      rw [List.length_drop] at hlength
      cases words with
      | nil =>
        rw [List.length_nil] at hlength
        rw [if_neg (by omega), if_pos rfl]
      | cons word words =>
        rw [List.length_cons] at hlength
        rw [if_pos (by omega), if_neg (List.cons_ne_nil _ _), List.length_cons]
        congr 1
        omega

theorem behindAssignments_append (h : behindAssignments tokens ≠ []) :
    behindAssignments (tokens ++ rest) = behindAssignments tokens ++ rest := by
  unfold behindAssignments at h ⊢
  rw [List.dropWhile_append, if_neg (by simpa using h)]

theorem behindEnv_append (h : behindEnv tokens ≠ []) :
    behindEnv (tokens ++ rest) = behindEnv tokens ++ rest := by
  unfold behindEnv at h ⊢
  cases tokens with
  | nil => exact (h rfl).elim
  | cons first tokens =>
    by_cases henv : first = "env"
    · simp only [henv, List.head?_cons, if_true, List.tail_cons, List.cons_append] at h ⊢
      rw [List.dropWhile_append, if_neg (by simpa using h)]
    · simp [henv]

theorem behindSudo_append (h : behindSudo tokens ≠ []) :
    behindSudo (tokens ++ rest) = behindSudo tokens ++ rest := by
  unfold behindSudo at h ⊢
  cases tokens with
  | nil => exact (h rfl).elim
  | cons first tokens =>
    by_cases hsudo : first = "sudo"
    · simp only [hsudo, List.head?_cons, if_true, List.tail_cons, List.cons_append] at h ⊢
      have hflags : tokens.dropWhile (startsWith "-") ≠ [] := by
        intro hnil
        rw [hnil] at h
        exact h rfl
      rw [List.dropWhile_append, if_neg (by simpa using hflags), behindAssignments_append h]
    · simp [hsudo]

/-- Once the loops have stopped, what follows makes no difference to them. -/
theorem commandWords_append (h : commandWords tokens ≠ []) :
    commandWords (tokens ++ rest) = commandWords tokens ++ rest := by
  unfold commandWords at h ⊢
  have henv : behindEnv (behindAssignments tokens) ≠ [] := by
    intro hnil
    rw [hnil] at h
    exact h rfl
  have hassignments : behindAssignments tokens ≠ [] := by
    intro hnil
    rw [hnil] at henv
    exact henv rfl
  rw [behindAssignments_append hassignments, behindEnv_append henv, behindSudo_append h]

/-- At most one `env` with its flags and assignments. -/
def EnvPart (values : List String) : Prop :=
  values = [] ∨ ∃ arguments, values = "env" :: arguments ∧
    ∀ value ∈ arguments, (startsWith "-" value || isEnvAssignmentToken value) = true

/-- At most one `sudo` with words that start with a dash, and assignments behind them. -/
def SudoPart (values : List String) : Prop :=
  values = [] ∨ ∃ flags assignments, values = "sudo" :: (flags ++ assignments) ∧
    (∀ value ∈ flags, startsWith "-" value = true) ∧
    ∀ value ∈ assignments, isEnvAssignmentToken value = true

/-- Words that the loops step over: assignments, at most one `env`, at most one `sudo`. -/
def Skipped (values : List String) : Prop :=
  ∃ assignments envPart sudoPart, values = assignments ++ (envPart ++ sudoPart) ∧
    (∀ value ∈ assignments, isEnvAssignmentToken value = true) ∧
    EnvPart envPart ∧ SudoPart sudoPart

theorem not_dash_of_assignment (h : isEnvAssignmentToken word = true) :
    startsWith "-" word = false := by
  unfold isEnvAssignmentToken at h
  unfold startsWith
  have hdash : "-".toList = ['-'] := by decide
  rw [hdash]
  cases hword : word.toList with
  | nil => rfl
  | cons first more =>
    rw [hword] at h
    have hne : first ≠ '-' := by
      rintro rfl
      exact absurd (Bool.and_eq_true_iff.mp h).1 (by decide)
    simp [List.isPrefixOf, Ne.symm hne]

theorem dropWhile_stop {test : String → Bool}
    (h : ∀ word, rest.head? = some word → test word = false) : rest.dropWhile test = rest := by
  cases rest with
  | nil => rfl
  | cons word rest => simp [h word rfl]

/-- The words behind `sudo`, if it is there. -/
theorem behindSudo_skipped {values : List String} (h : SudoPart values)
    (hstop : ∀ word, rest.head? = some word → word ≠ "sudo" ∧
      (values ≠ [] → isEnvAssignmentToken word = false ∧ startsWith "-" word = false)) :
    behindSudo (values ++ rest) = rest := by
  rcases h with rfl | ⟨flags, assignments, rfl, hflags, hassignments⟩
  · unfold behindSudo
    rw [List.nil_append, if_neg]
    intro hsudo
    exact (hstop "sudo" hsudo).1 rfl
  · have hplain : ∀ word, rest.head? = some word →
        isEnvAssignmentToken word = false ∧ startsWith "-" word = false :=
      fun word hword => (hstop word hword).2 (List.cons_ne_nil _ _)
    have hdashes : (assignments ++ rest).dropWhile (startsWith "-") = assignments ++ rest := by
      apply dropWhile_stop
      intro word hword
      cases assignments with
      | nil => exact (hplain word hword).2
      | cons first assignments =>
        obtain rfl := Option.some.inj hword
        exact not_dash_of_assignment (hassignments first (List.mem_cons_self ..))
    unfold behindSudo behindAssignments
    rw [List.cons_append, List.head?_cons, if_pos rfl, List.tail_cons, List.append_assoc,
      List.dropWhile_append_of_pos hflags, hdashes, List.dropWhile_append_of_pos hassignments]
    exact dropWhile_stop fun word hword => (hplain word hword).1

/-- The loops step over such words to the command. -/
theorem commandWords_skipped {values : List String} (h : Skipped values)
    (hstop : ∀ word, rest.head? = some word → StartsCommand values word) :
    commandWords (values ++ rest) = rest := by
  obtain ⟨assignments, envPart, sudoPart, rfl, hassignments, henvPart, hsudoPart⟩ := h
  have hwrapper : isEnvAssignmentToken "env" = false ∧ isEnvAssignmentToken "sudo" = false ∧
      startsWith "-" "sudo" = false := by
    decide
  -- a command behind `env` or `sudo` does not start with a dash
  have hdash : ∀ word, rest.head? = some word → envPart ≠ [] ∨ sudoPart ≠ [] →
      startsWith "-" word = false := by
    intro word hword hpart
    by_contra hdash
    have hall := (hstop word hword).2.2.2 (by simpa using hdash)
    rcases hpart with hne | hne
    · rcases henvPart with rfl | ⟨arguments, rfl, -⟩
      · exact hne rfl
      · have henv := hall "env" (by simp)
        rw [hwrapper.1] at henv
        cases henv
    · rcases hsudoPart with rfl | ⟨flags, more, rfl, -⟩
      · exact hne rfl
      · have hsudo := hall "sudo" (by simp)
        rw [hwrapper.2.1] at hsudo
        cases hsudo
  have hsudo : behindSudo (sudoPart ++ rest) = rest :=
    behindSudo_skipped hsudoPart fun word hword => ⟨(hstop word hword).2.2.1,
      fun hne => ⟨(hstop word hword).1, hdash word hword (Or.inr hne)⟩⟩
  have hhead : ∀ word, (sudoPart ++ rest).head? = some word →
      isEnvAssignmentToken word = false ∧ word ≠ "env" ∧
        (envPart ≠ [] → startsWith "-" word = false) := by
    intro word hword
    rcases hsudoPart with rfl | ⟨flags, more, rfl, -⟩
    · exact ⟨(hstop word hword).1, (hstop word hword).2.1, fun hne => hdash word hword (Or.inl hne)⟩
    · obtain rfl := Option.some.inj hword
      exact ⟨hwrapper.2.1, by decide, fun _ => hwrapper.2.2⟩
  unfold commandWords
  rcases henvPart with rfl | ⟨arguments, rfl, harguments⟩
  · have henv : behindEnv (sudoPart ++ rest) = sudoPart ++ rest := by
      unfold behindEnv
      rw [if_neg]
      intro henv
      exact (hhead "env" henv).2.1 rfl
    rw [List.nil_append, List.append_assoc, behindAssignments,
      List.dropWhile_append_of_pos hassignments, dropWhile_stop fun word hword => (hhead word hword).1,
      henv, hsudo]
  · have hbehind : (arguments ++ (sudoPart ++ rest)).dropWhile
        (fun t => startsWith "-" t || isEnvAssignmentToken t) = sudoPart ++ rest := by
      rw [List.dropWhile_append_of_pos harguments]
      apply dropWhile_stop
      intro word hword
      obtain ⟨hassignment, -, hplain⟩ := hhead word hword
      rw [hassignment, hplain (List.cons_ne_nil _ _)]
      rfl
    have henv : behindEnv ("env" :: (arguments ++ (sudoPart ++ rest))) = sudoPart ++ rest := by
      unfold behindEnv
      rw [List.head?_cons, if_pos rfl, List.tail_cons, hbehind]
    rw [List.append_assoc, behindAssignments, List.dropWhile_append_of_pos hassignments,
      List.cons_append, List.cons_append, List.append_assoc,
      List.dropWhile_cons_of_neg (by rw [hwrapper.1]; exact Bool.false_ne_true), henv, hsudo]

/-- Words that the loops leave nothing of are such words. -/
theorem skipped_of_commandWords {values : List String} (h : commandWords values = []) :
    Skipped values := by
  have htake : ∀ (test : String → Bool) (words : List String), ∀ word ∈ words.takeWhile test,
      test word = true := fun test words word hword => List.mem_takeWhile_imp hword
  have hsudoPart : ∀ words, behindSudo words = [] → SudoPart words := by
    intro words hwords
    unfold behindSudo at hwords
    cases words with
    | nil => exact Or.inl rfl
    | cons first words =>
      by_cases hsudo : first = "sudo"
      · simp only [hsudo, List.head?_cons, if_true, List.tail_cons] at hwords
        refine Or.inr ⟨words.takeWhile (startsWith "-"), words.dropWhile (startsWith "-"), ?_,
          htake _ _, List.dropWhile_eq_nil_iff.mp hwords⟩
        rw [List.takeWhile_append_dropWhile, hsudo]
      · simp [hsudo] at hwords
  have henvPart : ∀ words, ∃ part, words = part ++ behindEnv words ∧ EnvPart part := by
    intro words
    unfold behindEnv
    cases words with
    | nil => exact ⟨[], rfl, Or.inl rfl⟩
    | cons first words =>
      by_cases henv : first = "env"
      · refine ⟨"env" :: words.takeWhile fun t => startsWith "-" t || isEnvAssignmentToken t, ?_,
          Or.inr ⟨_, rfl, htake _ _⟩⟩
        rw [henv, List.head?_cons, if_pos rfl, List.tail_cons, List.cons_append,
          List.takeWhile_append_dropWhile]
      · exact ⟨[], by simp [henv], Or.inl rfl⟩
  obtain ⟨part, hpart, henv⟩ := henvPart (behindAssignments values)
  refine ⟨values.takeWhile isEnvAssignmentToken, part, behindEnv (behindAssignments values), ?_,
    htake _ _, henv, hsudoPart _ h⟩
  rw [← hpart, behindAssignments, List.takeWhile_append_dropWhile]

end Skip

/-! ## The verdict behind a prefix -/

section Verdict

variable {env : GuardEnv} {cwd : String} {policy : SelfProtectionPolicy} {values arguments : List String}
  {name : String}

theorem findCommandTokenIndex_behind (h : commandWords (values ++ name :: arguments) = name :: arguments) :
    findCommandTokenIndex (values ++ name :: arguments) = some values.length := by
  rw [findCommandTokenIndex_eq, h, if_neg (List.cons_ne_nil _ _), List.length_append,
    Nat.add_sub_cancel]

/-- No word of the prefix reads like a flag that `git` or `find` is asked for. -/
def Quiet (env : GuardEnv) (values : List String) : Prop :=
  hasFlag values "--hard" none = false ∧ hasFlag values "--force" (some "-f") = false ∧
    values.any (fun t => env.rt.toLowerCase t = "-delete") = false

theorem getD_behind (values : List String) :
    (values ++ name :: arguments).getD (values.length + 1) "" = arguments.getD 0 "" := by
  simp [List.getD_eq_getElem?_getD, List.getElem?_append_right]

theorem drop_behind (values : List String) :
    (values ++ name :: arguments).drop (values.length + 1) = arguments := by
  rw [← List.drop_drop, List.drop_left]
  rfl

theorem hasFlag_append (values more : List String) (longFlag : String) (shortFlag : Option String) :
    hasFlag (values ++ more) longFlag shortFlag =
      (hasFlag values longFlag shortFlag || hasFlag more longFlag shortFlag) := by
  unfold hasFlag
  exact List.any_append

theorem gitDestroys_quiet (h : Quiet env values) :
    gitDestroys env (values ++ name :: arguments) values.length ↔
      gitDestroys env (name :: arguments) 0 := by
  have hnext := @getD_behind arguments name []
  unfold gitDestroys
  rw [getD_behind, hasFlag_append, hasFlag_append, h.1, h.2.1]
  exact Iff.rfl

theorem pathTargets_quiet (h : Quiet env values) (commandName : String) :
    pathTargets env cwd commandName (values ++ name :: arguments) values.length =
      pathTargets env cwd commandName (name :: arguments) 0 := by
  unfold pathTargets parseMoveSources parseDeleteTargets
  rw [getD_behind, drop_behind, List.any_append, h.2.2, Bool.false_or]
  rfl

/-- Behind a quiet prefix the command gets the verdict that it gets alone. -/
theorem refusesWords_quiet (h : Quiet env values) :
    RefusesWords env cwd policy values name arguments ↔
      RefusesWords env cwd policy [] name arguments := by
  unfold RefusesWords
  rw [gitDestroys_quiet h, pathTargets_quiet h]
  rfl

end Verdict

/-! ## The first segment -/

section Text

variable {env : GuardEnv} {cwd : String} {policy : SelfProtectionPolicy} {piece : List Char}
  {wrappers : List Wrapper} {command : String}

theorem tokenizeShell_blank {lead : List Char} (h : ∀ ch ∈ lead, isSpace ch = true)
    (rest : List Char) : tokenizeShell (lead ++ rest) = tokenizeShell rest := by
  induction lead with
  | nil => rfl
  | cons ch lead ih =>
    rw [← ih fun c hc => h c (List.mem_cons_of_mem _ hc)]
    unfold tokenizeShell
    rw [List.cons_append, List.foldl_cons, tokenStep_space (h ch (List.mem_cons_self ..))]
    rfl

/-- What `trim` cuts off in front is not part of a word. -/
theorem tokenizeShell_trim (h : ∀ ch, piece.getLast? = some ch → isSpace ch = false) :
    tokenizeShell (trimChars piece) = tokenizeShell piece := by
  have hlead : ∀ ch ∈ piece.takeWhile isSpace, isSpace ch = true :=
    fun ch hch => List.mem_takeWhile_imp hch
  have hsplit := @List.takeWhile_append_dropWhile _ isSpace piece
  have hrest : trimChars (piece.dropWhile isSpace) = piece.dropWhile isSpace := by
    apply Js.trimChars_eq_self
    · exact fun ch hch => Js.head?_dropWhile_false hch
    · intro ch hch
      apply h ch
      rw [← hsplit, List.getLast?_append_of_ne_nil _ (by rintro hnil; rw [hnil] at hch; cases hch),
        hch]
  calc tokenizeShell (trimChars piece)
      = tokenizeShell (trimChars (piece.takeWhile isSpace ++ piece.dropWhile isSpace)) := by
        rw [hsplit]
    _ = tokenizeShell (piece.dropWhile isSpace) := by rw [trimChars_blank_append hlead, hrest]
    _ = tokenizeShell (piece.takeWhile isSpace ++ piece.dropWhile isSpace) :=
        (tokenizeShell_blank hlead _).symm
    _ = tokenizeShell piece := by rw [hsplit]

theorem exists_trim (piece : List Char) :
    ∃ lead trail, piece = lead ++ (trimChars piece ++ trail) ∧
      (∀ ch ∈ lead, isSpace ch = true) ∧ ∀ ch ∈ trail, isSpace ch = true := by
  refine ⟨piece.takeWhile isSpace, (piece.dropWhile isSpace).rtakeWhile isSpace, ?_,
    fun ch hch => List.mem_takeWhile_imp hch, fun ch hch => List.mem_rtakeWhile_imp hch⟩
  have hback : trimChars piece ++ (piece.dropWhile isSpace).rtakeWhile isSpace =
      piece.dropWhile isSpace := by
    rw [trimChars, List.rdropWhile, List.rtakeWhile, ← List.reverse_append,
      List.takeWhile_append_dropWhile, List.reverse_reverse]
  rw [hback, List.takeWhile_append_dropWhile]

/-- The words of the prefix stand in front of the words of the piece. -/
theorem tokens_behind (words : List Word) (h : trimChars piece ≠ []) :
    tokenizeShell (trimChars (wordsText words ++ piece)) =
      wordsValues words ++ tokenizeShell (trimChars piece) := by
  obtain ⟨lead, trail, hpiece, hlead, htrail⟩ := exists_trim piece
  have hlast : ∀ ch, (wordsText words ++ (lead ++ trimChars piece)).getLast? = some ch →
      isSpace ch = false := by
    intro ch hch
    rw [← List.append_assoc, List.getLast?_append_of_ne_nil _ h] at hch
    exact Js.getLast?_trimChars hch
  have htrim : trimChars (wordsText words ++ piece) =
      trimChars (wordsText words ++ (lead ++ trimChars piece)) := by
    conv_lhs => rw [hpiece, ← List.append_assoc lead, ← List.append_assoc,
      trimChars_append_blank htrail]
  rw [htrim, tokenizeShell_trim hlast, tokenizeShell_words, tokenizeShell_blank hlead]

/-- The prefix goes in front of the first piece of the command. -/
theorem refuses_wrap (h : policy.enabled = true) (hpiece : trimChars (firstPiece command) ≠ []) :
    Refuses env cwd policy (wrap wrappers command) ↔
      RefusesSegment env cwd policy
          (trimChars (wordsText (prefixWords wrappers) ++ firstPiece command)) ∨
        ∃ segment ∈ splitShellSegments (cutFirst {} command.toList).2,
          RefusesSegment env cwd policy segment := by
  have hfront := @foldl_splitStep_words (prefixWords wrappers) [] []
  have hsegments : splitShellSegments (wrap wrappers command).toList =
      cleaned (wordsText (prefixWords wrappers) ++ firstPiece command) ++
        splitShellSegments (cutFirst {} command.toList).2 := by
    have hcut := @cutFirst_congr { current := wordsText (prefixWords wrappers) } {} rfl rfl rfl rfl
      command.toList
    rw [wrap, String.toList_ofList, splitShellSegments, splitRun, List.foldl_append, hfront,
      List.nil_append, segments_cutFirst rfl, hcut]
    rfl
  have hfilled : trimChars (wordsText (prefixWords wrappers) ++ firstPiece command) ≠ [] := by
    intro hnil
    have hspace := Js.isSpace_of_trimChars_nil hnil
    exact hpiece (Js.trimChars_nil_of_isSpace fun ch hch => hspace ch (List.mem_append_right _ hch))
  rw [refuses_iff h, hsegments]
  simp only [List.mem_append, or_and_right, exists_or, exists_cleaned, hfilled, ne_eq, not_false_iff,
    true_and]

theorem refuses_first (h : policy.enabled = true) (hpiece : trimChars (firstPiece command) ≠ []) :
    Refuses env cwd policy command ↔
      RefusesSegment env cwd policy (trimChars (firstPiece command)) ∨
        ∃ segment ∈ splitShellSegments (cutFirst {} command.toList).2,
          RefusesSegment env cwd policy segment := by
  rw [refuses_iff h, segments_second]
  simp only [List.mem_append, or_and_right, exists_or, exists_cleaned, hpiece, ne_eq, not_false_iff,
    true_and]

end Text

/-! ## Transparent prefixes -/

section Law

variable {env : GuardEnv} {cwd : String} {policy : SelfProtectionPolicy} {wrappers : List Wrapper}
  {command name word : String} {front tail arguments : List String}

/-- Behind a prefix that is skipped and quiet the command gets its own verdict. -/
theorem refuses_wrap_iff (hskipped : Skipped (prefixValues wrappers))
    (hquiet : Quiet env (prefixValues wrappers)) (hwraps : Wraps wrappers command) :
    Refuses env cwd policy (wrap wrappers command) ↔ Refuses env cwd policy command := by
  obtain ⟨word, hword, hstarts⟩ := hwraps
  by_cases henabled : policy.enabled = true
  · obtain ⟨arguments, htokens⟩ := List.head?_eq_some_iff.mp hword
    have hpiece : trimChars (firstPiece command) ≠ [] := by
      intro hnil
      rw [hnil] at htokens
      cases htokens
    have hbehind : commandWords (prefixValues wrappers ++ word :: arguments) = word :: arguments :=
      commandWords_skipped hskipped fun w hw => by
        obtain rfl := Option.some.inj hw
        exact hstarts
    have halone : commandWords ([] ++ word :: arguments) = word :: arguments :=
      commandWords_skipped ⟨[], [], [], rfl, by simp, Or.inl rfl, Or.inl rfl⟩ fun w hw => by
        obtain rfl := Option.some.inj hw
        exact ⟨hstarts.1, hstarts.2.1, hstarts.2.2.1, by simp⟩
    have hfirst := tokens_behind (prefixWords wrappers) hpiece
    rw [htokens] at hfirst
    rw [refuses_wrap henabled hpiece, refuses_first henabled hpiece,
      refusesSegment_iff hfirst (findCommandTokenIndex_behind hbehind),
      @refusesSegment_iff env cwd policy _ [] _ _ htokens (findCommandTokenIndex_behind halone)]
    rw [show wordsValues (prefixWords wrappers) = prefixValues wrappers from rfl,
      refusesWords_quiet hquiet]
  · have hdisabled : policy.enabled = false := by simpa using henabled
    exact iff_of_false (not_refuses_of_disabled hdisabled _) (not_refuses_of_disabled hdisabled _)

/-- A command of one segment with the given words. -/
structure OneSegment (command : String) (words : List String) : Prop where
  cut : cutFirst {} command.toList = (command.toList, [])
  tokens : tokenizeShell (trimChars command.toList) = words
  ne_nil : trimChars command.toList ≠ []

instance (command : String) (words : List String) : Decidable (OneSegment command words) :=
  decidable_of_iff (cutFirst {} command.toList = (command.toList, []) ∧
      tokenizeShell (trimChars command.toList) = words ∧ trimChars command.toList ≠ [])
    ⟨fun ⟨hcut, htokens, hne⟩ => ⟨hcut, htokens, hne⟩,
      fun ⟨hcut, htokens, hne⟩ => ⟨hcut, htokens, hne⟩⟩

/-- The verdict on a prefix with one segment behind it. -/
theorem OneSegment.refuses_wrap {words : List String} (h : OneSegment command words)
    (henabled : policy.enabled = true)
    (hsplit : prefixValues wrappers ++ words = front ++ name :: arguments)
    (hwords : commandWords (prefixValues wrappers ++ words) = name :: arguments) :
    Refuses env cwd policy (wrap wrappers command) ↔
      RefusesWords env cwd policy front name arguments := by
  obtain ⟨hcut, rfl, hne⟩ := h
  have hfirst : firstPiece command = command.toList := congrArg Prod.fst hcut
  have hrest : (cutFirst {} command.toList).2 = [] := congrArg Prod.snd hcut
  have hpiece : trimChars (firstPiece command) ≠ [] := by rwa [hfirst]
  have htokens := tokens_behind (prefixWords wrappers) hpiece
  rw [hfirst, show wordsValues (prefixWords wrappers) = prefixValues wrappers from rfl, hsplit]
    at htokens
  have hnone : splitShellSegments [] = [] := rfl
  rw [hsplit] at hwords
  rw [Guard.refuses_wrap henabled hpiece, hrest, hnone, hfirst,
    refusesSegment_iff htokens (findCommandTokenIndex_behind hwords)]
  simp

theorem wrap_nil (command : String) : wrap [] command = command := by
  simp [wrap, prefixWords, wordsText]

/-- The verdict on one segment. -/
theorem OneSegment.refuses (h : OneSegment command (word :: arguments))
    (henabled : policy.enabled = true) (hword : StartsCommand [] word) :
    Refuses env cwd policy command ↔ RefusesWords env cwd policy [] word arguments := by
  have hwords : commandWords ([] ++ word :: arguments) = word :: arguments :=
    commandWords_skipped ⟨[], [], [], rfl, by simp, Or.inl rfl, Or.inl rfl⟩ fun w hw => by
      obtain rfl := Option.some.inj hw
      exact hword
  have hverdict := @OneSegment.refuses_wrap env cwd policy [] command word [] arguments _ h henabled
    rfl hwords
  rwa [wrap_nil] at hverdict

/-! ### Prefixes that stop the loops

A word of the prefix is taken for the command. It gets the same verdict on `systemctl halt` and on
the one word `'systemctl halt'`, but only the former is refused. -/

section Stuck

def unprotected : SelfProtectionPolicy where
  enabled := true
  installRoot := "/"
  protectedPaths := []

theorem refusesWords_unprotected :
    RefusesWords env cwd unprotected front name arguments ↔
      isPowerControl (commandNameOf env name) (env.rt.toLowerCase (arguments.headD ""))
          (env.rt.toLowerCase (" ".intercalate arguments)) = true ∨
        (commandNameOf env name ∈ ["bash", "sh", "zsh"] ∧
          ∃ script ∈ inlineScripts arguments, Refuses env cwd unprotected script) := by
  simp [RefusesWords, unprotected]

/-- The commands as the guard reads them. -/
theorem halt_words :
    (OneSegment "systemctl halt" ["systemctl", "halt"] ∧ OneSegment "systemctl" ["systemctl"] ∧
      OneSegment "'systemctl halt'" ["systemctl halt"]) ∧
    (firstWord "systemctl halt" = some "systemctl" ∧
      firstWord "'systemctl halt'" = some "systemctl halt") ∧
    " ".intercalate ["systemctl", "halt"] = " ".intercalate ["systemctl halt"] ∧
    inlineScripts ["systemctl", "halt"] = [] := by
  decide

theorem halt_refused : Refuses env cwd unprotected "systemctl halt" := by
  have hname : commandNameOf env "systemctl" = "systemctl" := commandNameOf_plain (by decide)
  have hnext : env.rt.toLowerCase "halt" = "halt" := env.rt.lower_ascii "halt" (by decide)
  rw [halt_words.1.1.refuses rfl (startsCommand_plain (by decide) _), refusesWords_unprotected, hname]
  left
  simp [isPowerControl, hnext]

theorem systemctl_allowed : ¬ Refuses env cwd unprotected "systemctl" := by
  have hname : commandNameOf env "systemctl" = "systemctl" := commandNameOf_plain (by decide)
  rw [halt_words.1.2.1.refuses rfl (startsCommand_plain (by decide) _), refusesWords_unprotected,
    hname]
  simp [isPowerControl, env.rt.toLowerCase_empty]

theorem quotedHalt_allowed : ¬ Refuses env cwd unprotected "'systemctl halt'" := by
  have hname : commandNameOf env "systemctl halt" = "systemctl halt" :=
    commandNameOf_plain (by decide)
  rw [halt_words.1.2.2.refuses rfl (startsCommand_plain (by decide) _), refusesWords_unprotected,
    hname]
  simp [isPowerControl]

theorem intercalate_halt (tail : List String) :
    " ".intercalate (tail ++ ["systemctl", "halt"]) = " ".intercalate (tail ++ ["systemctl halt"]) := by
  induction tail with
  | nil => exact halt_words.2.2.1
  | cons first tail ih =>
    cases tail with
    | nil =>
      simp only [List.cons_append, List.nil_append, String.intercalate_cons_cons] at ih ⊢
      rw [ih]
    | cons second tail =>
      simp only [List.cons_append, String.intercalate_cons_cons] at ih ⊢
      rw [ih]

theorem inlineScripts_cons_cons (token next : String) (rest : List String) :
    inlineScripts (token :: next :: rest) =
      (if (token = "-c" || token = "-lc") && trim next ≠ "" then [next] else []) ++
        inlineScripts (next :: rest) := by
  unfold inlineScripts
  rw [List.tail_cons, List.zip_cons_cons, List.filterMap_cons]
  dsimp only
  split <;> rename_i h <;> split at h <;> simp_all

theorem inlineScripts_halt {script : String}
    (h : script ∈ inlineScripts (tail ++ ["systemctl", "halt"])) :
    script = "systemctl" ∨ script ∈ inlineScripts (tail ++ ["systemctl halt"]) := by
  have hnone := halt_words.2.2.2
  induction tail with
  | nil =>
    rw [List.nil_append, hnone] at h
    cases h
  | cons first tail ih =>
    cases tail with
    | nil =>
      rw [List.cons_append, List.nil_append, inlineScripts_cons_cons, hnone, List.append_nil] at h
      split at h
      · exact Or.inl (List.mem_singleton.mp h)
      · cases h
    | cons second tail =>
      simp only [List.cons_append] at h ih ⊢
      rw [inlineScripts_cons_cons] at h
      rw [inlineScripts_cons_cons]
      rcases List.mem_append.mp h with hfirst | hrest
      · exact Or.inr (List.mem_append_left _ hfirst)
      · exact (ih hrest).imp id (List.mem_append_right _)

/-- The word `systemctl` behind a command is no operand of power control. -/
theorem isPowerControl_systemctl {next joined : String}
    (h : isPowerControl name "systemctl" joined = true) : isPowerControl name next joined = true := by
  unfold isPowerControl at h ⊢
  simp only [Bool.or_eq_true, Bool.and_eq_true, decide_eq_true_eq] at h ⊢
  rcases h with (((h | ⟨-, h⟩) | ⟨-, h⟩) | h) | h
  · exact Or.inl (Or.inl (Or.inl (Or.inl h)))
  · exact absurd h (by decide)
  · exact absurd h (by decide)
  · exact Or.inl (Or.inr h)
  · exact Or.inr h

theorem stuck_verdict
    (h : RefusesWords env cwd unprotected front name (tail ++ ["systemctl", "halt"])) :
    RefusesWords env cwd unprotected front name (tail ++ ["systemctl halt"]) := by
  rw [refusesWords_unprotected] at h ⊢
  rw [intercalate_halt] at h
  rcases h with hpower | ⟨hshell, script, hscript, hrefused⟩
  · left
    cases tail with
    | nil =>
      have hlower : env.rt.toLowerCase "systemctl" = "systemctl" :=
        env.rt.lower_ascii "systemctl" (by decide)
      rw [List.nil_append, List.headD_cons, hlower] at hpower
      exact isPowerControl_systemctl hpower
    | cons first tail => exact hpower
  · rcases inlineScripts_halt hscript with rfl | hmem
    · exact (systemctl_allowed hrefused).elim
    · exact Or.inr ⟨hshell, script, hmem, hrefused⟩

theorem commandWords_suffix (tokens : List String) : commandWords tokens <:+ tokens := by
  have hsudo : ∀ tokens, behindSudo tokens <:+ tokens := by
    intro tokens
    unfold behindSudo behindAssignments
    split
    · exact ((List.dropWhile_suffix _).trans (List.dropWhile_suffix _)).trans (List.tail_suffix _)
    · exact List.suffix_rfl
  have henv : ∀ tokens, behindEnv tokens <:+ tokens := by
    intro tokens
    unfold behindEnv
    split
    · exact (List.dropWhile_suffix _).trans (List.tail_suffix _)
    · exact List.suffix_rfl
  exact ((hsudo _).trans (henv _)).trans (List.dropWhile_suffix _)

theorem skipped_of_transparent
    (h : ∀ cwd policy command, Wraps wrappers command →
      (Refuses env cwd policy (wrap wrappers command) ↔ Refuses env cwd policy command)) :
    Skipped (prefixValues wrappers) := by
  apply skipped_of_commandWords
  by_contra hstuck
  obtain ⟨name, tail, hwords⟩ := List.exists_cons_of_ne_nil hstuck
  obtain ⟨front, hfront⟩ := commandWords_suffix (prefixValues wrappers)
  rw [hwords] at hfront
  -- the verdict on a command behind the prefix is the one on the word `name`
  have hverdict : ∀ {command : String} {words : List String}, OneSegment command words →
      (Refuses env "/" unprotected (wrap wrappers command) ↔
        RefusesWords env "/" unprotected front name (tail ++ words)) := by
    intro command words hone
    refine hone.refuses_wrap rfl ?_ ?_
    · rw [← hfront, List.append_assoc]
      rfl
    · rw [commandWords_append hstuck, hwords]
      rfl
  have hwraps : Wraps wrappers "systemctl halt" :=
    ⟨"systemctl", halt_words.2.1.1, startsCommand_plain (by decide) _⟩
  have hwrapsQuoted : Wraps wrappers "'systemctl halt'" :=
    ⟨"systemctl halt", halt_words.2.1.2, startsCommand_plain (by decide) _⟩
  have hrefused := (h "/" unprotected _ hwraps).mpr halt_refused
  rw [hverdict halt_words.1.1] at hrefused
  have hboth := (hverdict halt_words.1.2.2).mpr (stuck_verdict hrefused)
  exact quotedHalt_allowed ((h "/" unprotected _ hwrapsQuoted).mp hboth)

end Stuck

/-! ### Prefixes with flags of the command

Above a protected path, `git reset`, `git clean` and `find` destroy nothing without their flags. -/

section Loud

def rootProtected : SelfProtectionPolicy where
  enabled := true
  installRoot := "/"
  protectedPaths := [⟨".", "/"⟩]

theorem canonical_nil : Js.Path.Canonical [] := fun part hpart => by cases hpart

theorem isPathInside_root : isPathInside env "/" "/" = true :=
  (isPathInside_iff canonical_nil canonical_nil).mpr ⟨[], rfl, by rintro ⟨part, more, hnil, -⟩; cases hnil⟩

theorem resolve_root : Path.resolve env.processCwd ["/"] = "/" :=
  Js.Path.resolve_absolute canonical_nil

/-- The commands as the guard reads them. -/
theorem destructive_words :
    (OneSegment "git reset" ["git", "reset"] ∧ OneSegment "git clean" ["git", "clean"] ∧
      OneSegment "find /" ["find", "/"]) ∧
    (firstWord "git reset" = some "git" ∧ firstWord "git clean" = some "git" ∧
      firstWord "find /" = some "find") ∧
    (hasFlag ["git", "reset"] "--hard" none = false ∧
      hasFlag ["git", "clean"] "--force" (some "-f") = false) ∧
    trim "/" = "/" ∧ startsWith "~/" "/" = false ∧ Js.Path.isAbsolute "/" = true ∧
    (if "/" ≠ "" && !startsWith "-" "/" then "/" else ".") = "/" := by
  decide

theorem refusesWords_git (sub : String) :
    RefusesWords env "/" rootProtected front "git" [sub] ↔
      gitDestroys env (front ++ ["git", sub]) front.length := by
  have hname : commandNameOf env "git" = "git" := commandNameOf_plain (by decide)
  have hinside : ∃ entry ∈ rootProtected.protectedPaths,
      isPathInside env (Path.resolve env.processCwd ["/"]) entry.absolute = true := by
    rw [resolve_root]
    exact ⟨_, List.mem_singleton_self _, isPathInside_root⟩
  have hpower : ∀ next joined, isPowerControl "git" next joined = false := by
    intro next joined
    simp [isPowerControl]
  have htargets : ∀ tokens index, pathTargets env "/" "git" tokens index = [] := by
    intro tokens index
    simp [pathTargets, deleteCommands]
  rw [RefusesWords, hname, hpower, htargets, and_iff_left hinside]
  simp

theorem refusesWords_reset :
    RefusesWords env "/" rootProtected front "git" ["reset"] ↔ hasFlag front "--hard" none = true := by
  have hsub : env.rt.toLowerCase "reset" = "reset" := env.rt.lower_ascii "reset" (by decide)
  have hown := destructive_words.2.2.1.1
  rw [refusesWords_git, gitDestroys, getD_behind, List.getD_cons_zero, hsub, hasFlag_append, hown]
  simp

theorem refusesWords_clean :
    RefusesWords env "/" rootProtected front "git" ["clean"] ↔
      hasFlag front "--force" (some "-f") = true := by
  have hsub : env.rt.toLowerCase "clean" = "clean" := env.rt.lower_ascii "clean" (by decide)
  have hown := destructive_words.2.2.1.2
  rw [refusesWords_git, gitDestroys, getD_behind, List.getD_cons_zero, hsub, hasFlag_append,
    hasFlag_append, hown]
  simp

theorem refusesWords_find :
    RefusesWords env "/" rootProtected front "find" ["/"] ↔
      front.any (fun t => env.rt.toLowerCase t = "-delete") = true := by
  have hname : commandNameOf env "find" = "find" := commandNameOf_plain (by decide)
  have hpower : ∀ next joined, isPowerControl "find" next joined = false := by
    intro next joined
    simp [isPowerControl]
  have hfind : env.rt.toLowerCase "find" = "find" := env.rt.lower_ascii "find" (by decide)
  have hslash : env.rt.toLowerCase "/" = "/" := env.rt.lower_ascii "/" (by decide)
  have hany : (front ++ ["find", "/"]).any (fun t => env.rt.toLowerCase t = "-delete") =
      front.any fun t => env.rt.toLowerCase t = "-delete" := by
    rw [List.any_append]
    simp [hfind, hslash]
  have htarget : resolveTokenPath env "/" "/" = some ⟨"/", "/", false⟩ := by
    obtain ⟨htrim, htilde, habsolute, -⟩ := destructive_words.2.2.2
    have hexpand : expandHome env "/" = "/" := by
      unfold expandHome
      dsimp only
      rw [htrim, if_neg (by decide), htilde]
      rfl
    have hpath : resolvePathFromBase env "/" "/" = "/" := by
      unfold resolvePathFromBase
      dsimp only
      rw [hexpand, if_pos habsolute]
      exact resolve_root
    simp only [resolveTokenPath, htrim, hpath]
    rfl
  have hcovers : covers env ⟨"/", "/", false⟩ ⟨".", "/"⟩ = true := by
    unfold covers
    rw [isPathInside_root]
    rfl
  have hroot := destructive_words.2.2.2.2.2.2
  have htargets : pathTargets env "/" "find" (front ++ ["find", "/"]) front.length =
      if front.any (fun t => env.rt.toLowerCase t = "-delete") then [⟨"/", "/", false⟩] else [] := by
    unfold pathTargets
    rw [if_pos rfl, hany, getD_behind, List.getD_cons_zero]
    dsimp only
    rw [hroot, htarget]
    rfl
  rw [RefusesWords, hname, hpower, htargets]
  split
  · next hdelete => simp [hdelete, rootProtected, hcovers]
  · next hdelete => simp [hdelete]

theorem quiet_of_transparent (hskipped : Skipped (prefixValues wrappers))
    (h : ∀ cwd policy command, Wraps wrappers command →
      (Refuses env cwd policy (wrap wrappers command) ↔ Refuses env cwd policy command)) :
    Quiet env (prefixValues wrappers) := by
  -- the verdicts on one of the commands behind the prefix and alone agree
  have hsame : ∀ {command word : String} {arguments : List String},
      OneSegment command (word :: arguments) → StartsCommand (prefixValues wrappers) word →
        StartsCommand [] word → firstWord command = some word →
          (RefusesWords env "/" rootProtected (prefixValues wrappers) word arguments ↔
            RefusesWords env "/" rootProtected [] word arguments) := by
    intro command word arguments hone hstarts halone hfirst
    have hwords : commandWords (prefixValues wrappers ++ word :: arguments) = word :: arguments :=
      commandWords_skipped hskipped fun w hw => by
        obtain rfl := Option.some.inj hw
        exact hstarts
    rw [← hone.refuses_wrap rfl rfl hwords, ← hone.refuses rfl halone]
    exact h "/" rootProtected command ⟨word, hfirst, hstarts⟩
  obtain ⟨⟨hresetWords, hcleanWords, hfindWords⟩, ⟨hresetFirst, hcleanFirst, hfindFirst⟩, -⟩ :=
    destructive_words
  have hstarts : ∀ name ∈ plainNames, ∀ values, StartsCommand values name :=
    fun name hname values => startsCommand_plain hname values
  have hreset := hsame hresetWords (hstarts "git" (by decide) _) (hstarts "git" (by decide) _)
    hresetFirst
  have hclean := hsame hcleanWords (hstarts "git" (by decide) _) (hstarts "git" (by decide) _)
    hcleanFirst
  have hdelete := hsame hfindWords (hstarts "find" (by decide) _) (hstarts "find" (by decide) _)
    hfindFirst
  rw [refusesWords_reset, refusesWords_reset] at hreset
  rw [refusesWords_clean, refusesWords_clean] at hclean
  rw [refusesWords_find, refusesWords_find] at hdelete
  have hnone : ∀ longFlag shortFlag, hasFlag [] longFlag shortFlag = false := fun _ _ => rfl
  rw [hnone] at hreset hclean
  exact ⟨by simpa using hreset, by simpa using hclean, by simpa using hdelete⟩

end Loud

/-- A prefix is transparent exactly when the loops step over its words and none of them reads like
a flag of the command. -/
theorem wrapper_transparent_iff (env : GuardEnv) (wrappers : List Wrapper) :
    (∀ cwd policy command, Wraps wrappers command →
      (Refuses env cwd policy (wrap wrappers command) ↔ Refuses env cwd policy command)) ↔
      Skipped (prefixValues wrappers) ∧ Quiet env (prefixValues wrappers) := by
  constructor
  · intro h
    have hskipped := skipped_of_transparent h
    exact ⟨hskipped, quiet_of_transparent hskipped h⟩
  · rintro ⟨hskipped, hquiet⟩ cwd policy command hwraps
    exact refuses_wrap_iff hskipped hquiet hwraps

/-- `sudo -u root`. -/
def sudoRoot : Wrapper :=
  .sudo [⟨.plain "-u" (by decide), some (.plain "root" (by decide)), by decide⟩]

/-- The guard takes the user for the command. -/
theorem sudo_user_hides_deletion :
    wrap [sudoRoot] "rm -rf /srv/t560" = "sudo -u root rm -rf /srv/t560" ∧
      Wraps [sudoRoot] "rm -rf /srv/t560" ∧
      Refuses hostEnv "/srv" hostPolicy "rm -rf /srv/t560" ∧
      ¬ Refuses hostEnv "/srv" hostPolicy (wrap [sudoRoot] "rm -rf /srv/t560") := by
  refine ⟨by decide, ⟨"rm", by decide, by decide⟩, by decide,
    by decide⟩

end Law

end T560.Guard
