import T560.Guard.ShellWords
import T560.Guard.Verdict

/-!
# Inline scripts

`bash -c 'script'` runs the script. On the way in the quoted script is one word of one segment,
whatever it holds; then it is read again as a command of its own. So the guard refuses the one
exactly when it refuses the other.
-/

namespace T560.Guard

open Js (isSpace trimChars trim Path.basename)

inductive Shell where
  | bash
  | sh
  | zsh
  deriving DecidableEq, Repr

def Shell.name : Shell → String
  | .bash => "bash"
  | .sh => "sh"
  | .zsh => "zsh"

inductive ScriptFlag where
  | c
  | lc
  deriving DecidableEq, Repr

def ScriptFlag.text : ScriptFlag → String
  | .c => "-c"
  | .lc => "-lc"

/-- A word of a command that names a shell, with a directory in front or not, and written with
quotes and backslashes or not. For the shell that reads the command, `A=b/bash` is no such word: it
sets a variable. -/
structure ShellWord where
  shell : Shell
  word : Word
  names : Path.basename word.value = shell.name
  not_assignment : isEnvAssignmentToken word.value = false

/-- `<shell> <flag> '<script>'`. -/
def inlineCommand (word : ShellWord) (flag : ScriptFlag) (script : String) : String :=
  String.ofList word.word.text ++ " " ++ flag.text ++ " '" ++ script ++ "'"

section Words

variable (word : ShellWord) (flag : ScriptFlag) {script : String}

theorem ScriptFlag.text_plain : ∀ ch ∈ flag.text.toList, IsPlain ch := by
  cases flag <;> decide

/-- The script as a word of the command. -/
def quotedWord (script : String) (h : '\'' ∉ script.toList) : Word where
  parts := [.single script.toList]
  wellFormed := by
    intro part hpart
    rw [List.mem_singleton.mp hpart]
    exact h

theorem quotedWord_value (h : '\'' ∉ script.toList) : (quotedWord script h).value = script := by
  simp [quotedWord, Word.value, Part.value]

/-- The words in front of the script. -/
def ShellWord.words : List Word :=
  [word.word, .plain flag.text flag.text_plain]

theorem inlineCommand_text (h : '\'' ∉ script.toList) :
    (inlineCommand word flag script).toList =
      wordsText (word.words flag) ++ (quotedWord script h).text := by
  have hquote : " '".toList = [' ', '\''] := by decide
  have hend : "'".toList = ['\''] := by decide
  have hblank : " ".toList = [' '] := by decide
  have hscript : (quotedWord script h).text = '\'' :: (script.toList ++ ['\'']) := by
    simp [quotedWord, Word.text, Part.text]
  rw [hscript, wordsText, ShellWord.words, List.flatMap_cons, List.flatMap_singleton, Word.text_plain]
  simp [inlineCommand, hquote, hend, hblank]

theorem ShellWord.value_ne : word.word.value ≠ "" := by
  intro hempty
  have hnames := word.names
  have hall : ∀ shell : Shell, Path.basename "" ≠ shell.name := by
    intro shell
    cases shell <;> decide
  rw [hempty] at hnames
  exact hall word.shell hnames

theorem Word.exists_head {word : Word} (h : word.value ≠ "") :
    ∃ ch rest, word.text = ch :: rest ∧ isSpace ch = false := by
  obtain ⟨parts, hparts⟩ := word
  cases parts with
  | nil => exact absurd rfl h
  | cons part parts =>
    have hpart := hparts part (List.mem_cons_self ..)
    unfold Word.text
    rw [List.flatMap_cons]
    cases part with
    | letter l =>
      cases l with
      | bare ch => exact ⟨ch, _, rfl, hpart.1⟩
      | escaped ch => exact ⟨'\\', _, rfl, by decide⟩
    | single body => exact ⟨'\'', _, rfl, by decide⟩
    | double body => exact ⟨'"', _, rfl, by decide⟩

/-- The command is one segment. -/
theorem segments_inlineCommand (h : '\'' ∉ script.toList) :
    splitShellSegments (inlineCommand word flag script).toList =
      [(inlineCommand word flag script).toList] := by
  have htrim : trimChars (inlineCommand word flag script).toList =
      (inlineCommand word flag script).toList := by
    apply Js.trimChars_eq_self
    · intro ch hch
      obtain ⟨first, rest, htext, hfirst⟩ := Word.exists_head word.value_ne
      simp only [inlineCommand, String.toList_append, String.toList_ofList, htext, List.cons_append, List.head?_cons,
        Option.some.injEq] at hch
      exact hch ▸ hfirst
    · intro ch hch
      have hend : "'".toList = ['\''] := by decide
      rw [inlineCommand, String.toList_append, hend, List.getLast?_concat] at hch
      obtain rfl := Option.some.inj hch
      decide
  have hrun : splitRun (inlineCommand word flag script).toList =
      { current := (inlineCommand word flag script).toList } := by
    have hwords := @foldl_splitStep_words (word.words flag) [] []
    have hquoted := @Word.foldl_splitStep [] (wordsText (word.words flag)) (quotedWord script h)
    rw [splitRun, inlineCommand_text word flag h, List.foldl_append, hwords, List.nil_append,
      hquoted]
  rw [splitShellSegments, hrun, SplitState.segments, cleaned, htrim]
  dsimp only
  rw [if_neg]
  · rfl
  · intro hnil
    obtain ⟨first, rest, htext, -⟩ := Word.exists_head word.value_ne
    simp [inlineCommand, htext] at hnil

theorem tokens_inlineCommand (h : '\'' ∉ script.toList) :
    tokenizeShell (inlineCommand word flag script).toList =
      word.word.value :: flag.text :: if script = "" then [] else [script] := by
  have hword := word.value_ne
  have hflag : flag.text ≠ "" := by
    cases flag <;> decide
  rw [inlineCommand_text word flag h, tokenizeShell_words, tokenizeShell_text]
  by_cases hscript : script = ""
  · simp [wordsValues, ShellWord.words, Word.value_plain, quotedWord_value, hword, hflag, hscript]
  · simp [wordsValues, ShellWord.words, Word.value_plain, quotedWord_value, hword, hflag, hscript]

theorem findCommandTokenIndex_shell (rest : List String) :
    findCommandTokenIndex (word.word.value :: rest) = some 0 := by
  have hname : ∀ shell : Shell, shell.name ≠ "env" ∧ shell.name ≠ "sudo" := by
    intro shell
    cases shell <;> decide
  have henv : word.word.value ≠ "env" := by
    intro h
    have hbase := word.names
    rw [h, show Path.basename "env" = "env" by decide] at hbase
    exact (hname word.shell).1 hbase.symm
  have hsudo : word.word.value ≠ "sudo" := by
    intro h
    have hbase := word.names
    rw [h, show Path.basename "sudo" = "sudo" by decide] at hbase
    exact (hname word.shell).2 hbase.symm
  have hassign : isEnvAssignmentToken word.word.value = false := word.not_assignment
  simp [findCommandTokenIndex, skipWhile, hassign, henv, hsudo]

end Words

section Law

variable {env : GuardEnv} {cwd : String} {policy : SelfProtectionPolicy}

theorem shell_allowed (shell : Shell) (next joined : String) :
    isPowerControl shell.name next joined = false := by
  cases shell <;> simp [isPowerControl, Shell.name]

theorem lower_shell (shell : Shell) : env.rt.toLowerCase shell.name = shell.name := by
  cases shell with
  | bash => exact env.rt.lower_ascii "bash" (by decide)
  | sh => exact env.rt.lower_ascii "sh" (by decide)
  | zsh => exact env.rt.lower_ascii "zsh" (by decide)

/-- A shell is asked for its scripts only. -/
theorem refusesSegment_inlineCommand (word : ShellWord) (flag : ScriptFlag) {script : String}
    (h : '\'' ∉ script.toList) :
    RefusesSegment env cwd policy (inlineCommand word flag script).toList ↔
      trim script ≠ "" ∧ Refuses env cwd policy script := by
  have hname : commandNameOf env word.word.value = word.shell.name := by
    rw [commandNameOf, word.names, lower_shell]
  have hshell : ∀ shell : Shell, shell.name ∈ ["bash", "sh", "zsh"] ∧ shell.name ≠ "git" ∧
      shell.name ≠ "find" ∧ shell.name ≠ "mv" ∧ shell.name ∉ deleteCommands := by
    intro shell
    cases shell <;> decide
  obtain ⟨hmem, hgit, hfind, hmv, hdelete⟩ := hshell word.shell
  have hflag : flag.text = "-c" ∨ flag.text = "-lc" := by
    cases flag <;> simp [ScriptFlag.text]
  have hscripts : inlineScripts (flag.text :: if script = "" then [] else [script]) =
      if trim script ≠ "" then [script] else [] := by
    by_cases hscript : script = ""
    · subst hscript
      rfl
    · by_cases hblank : trim script = "" <;> simp [inlineScripts, hscript, hflag, hblank]
  have hverdict := @refusesSegment_iff env cwd policy _ [] _ _ (tokens_inlineCommand word flag h)
    (findCommandTokenIndex_shell word _)
  rw [hverdict, RefusesWords, hname, shell_allowed, hscripts]
  by_cases hblank : trim script = ""
  · simp [hblank, pathTargets, hgit, hfind, hmv, hdelete]
  · simp [hblank, hmem, pathTargets, hgit, hfind, hmv, hdelete]

/-- A blank command has no segment. -/
theorem not_refuses_of_blank {script : String} (h : trim script = "") :
    ¬ Refuses env cwd policy script := by
  have htrim : trimChars script.toList = [] := by
    rw [← Js.toList_trim, h]
    rfl
  have hspace := Js.isSpace_of_trimChars_nil htrim
  have hrun : ∀ (text : List Char) (current : List Char), (∀ ch ∈ text, isSpace ch = true) →
      text.foldl splitStep { current := current } = { current := current ++ text } := by
    intro text
    induction text with
    | nil => simp
    | cons ch text ih =>
      intro current hall
      rw [List.foldl_cons, splitStep_space (hall ch (List.mem_cons_self ..)),
        ih _ fun c hc => hall c (List.mem_cons_of_mem _ hc), List.append_assoc]
      rfl
  have hsegments : splitShellSegments script.toList = [] := by
    rw [splitShellSegments, splitRun, hrun _ [] hspace]
    simp [SplitState.segments, cleaned, htrim]
  by_cases henabled : policy.enabled = true
  · rw [refuses_iff henabled, hsegments]
    rintro ⟨segment, hmem, -⟩
    cases hmem
  · exact not_refuses_of_disabled (by simpa using henabled) script

/-- `"/bin"/bash` -/
def binBash : ShellWord where
  shell := .bash
  word := ⟨.double ("/bin".toList.map .bare) :: "/bash".toList.map (.letter <| .bare ·), by decide⟩
  names := by decide
  not_assignment := by decide

end Law

end T560.Guard
