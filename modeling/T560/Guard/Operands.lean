import T560.Guard.Wrappers

/-!
# What a command is refused for

Power control is told by the name of the command, by the word behind it or by a word anywhere among
its arguments; the other commands by a script, by flags, or by operands that cover a protected path.
For each kind of command this is all that the verdict on its words depends on: a command is refused
exactly for one of these reasons.
-/

namespace T560.Guard

open Foundation (Pattern)
open Foundation.Pattern (Separates none_of_all)
open Js (startsWith Path.resolve)

section Kinds

variable {env : GuardEnv} {cwd : String} {policy : SelfProtectionPolicy}
  {front arguments : List String} {name : String}

/-- Power control by name. -/
def powerCommands : List String := ["shutdown", "reboot", "poweroff", "halt"]

/-- Power control by the word behind the command. -/
def initCommands : List String := ["init", "telinit", "systemctl", "loginctl"]

/-- Power control by a word among the arguments. -/
def consoleCommands : List String := ["cmd", "cmd.exe", "powershell", "pwsh"]

def shellCommands : List String := ["bash", "sh", "zsh"]

/-- The words behind `init` and its like that stand for power control. -/
def powerWords (commandName : String) : List String :=
  if commandName ∈ ["init", "telinit"] then ["0", "6"]
  else ["poweroff", "reboot", "halt", "suspend", "hibernate", "kexec"]

/-- The words among the arguments of a console that stand for power control. -/
def consoleWords (commandName : String) : List String :=
  if commandName ∈ ["cmd", "cmd.exe"] then ["shutdown"]
  else ["stop-computer", "restart-computer", "shutdown"]

/-- The place that `find` searches. -/
def findRoot (next : String) : String := if next ≠ "" && !startsWith "-" next then next else "."

section Predicates

variable (env : GuardEnv) (cwd : String) (policy : SelfProtectionPolicy) (tokens arguments : List String)

/-- The operand is a path that covers a protected one. -/
def OperandCovers (operand : String) : Prop :=
  ∃ target ∈ resolveTokenPath env operand cwd, ∃ entry ∈ policy.protectedPaths,
    covers env target entry = true

/-- The working directory covers a protected path. -/
def DirectoryCovers : Prop :=
  ∃ entry ∈ policy.protectedPaths,
    isPathInside env (Path.resolve env.processCwd [cwd]) entry.absolute = true

/-- The word next to `init` and its like stands for power control. -/
def NextTells (commandName : String) : Prop :=
  env.rt.toLowerCase (arguments.headD "") ∈ powerWords commandName

/-- A word for power control is among the arguments of a console. -/
def Mentions (commandName : String) : Prop :=
  ∃ word ∈ consoleWords commandName,
    (Pattern.word [word]).test (env.rt.toLowerCase (" ".intercalate arguments)) = true

/-- A shell is given a script that is refused. -/
def Scripted : Prop := ∃ script ∈ inlineScripts arguments, Refuses env cwd policy script

/-- `git reset --hard` or `git clean --force` above a protected path; the flag may stand among any
of the words. -/
def GitHarms : Prop :=
  (env.rt.toLowerCase (arguments.headD "") = "reset" ∧ hasFlag tokens "--hard" none = true ∨
    env.rt.toLowerCase (arguments.headD "") = "clean" ∧ hasFlag tokens "--force" (some "-f") = true) ∧
    DirectoryCovers env cwd policy

/-- `find` with `-delete`, from a place that covers a protected path. -/
def FindDeletes : Prop :=
  (∃ token ∈ tokens, env.rt.toLowerCase token = "-delete") ∧
    OperandCovers env cwd policy (findRoot (arguments.headD ""))

/-- `mv` takes its operands away, up to the last one. -/
def MovesAway : Prop := ∃ operand ∈ (operands false arguments).dropLast, OperandCovers env cwd policy operand

/-- A deletion takes its operands away; without one that is a path, the working directory. -/
def Deletes : Prop :=
  (∃ operand ∈ operands false arguments, OperandCovers env cwd policy operand) ∨
    (∀ operand ∈ operands false arguments, resolveTokenPath env operand cwd = none) ∧
      DirectoryCovers env cwd policy

/-- Why a command is refused, by the kind of command. -/
inductive Reason (front : List String) (name : String) (arguments : List String) : Prop where
  | power (kind : commandNameOf env name ∈ powerCommands)
  | next (kind : commandNameOf env name ∈ initCommands)
      (tells : NextTells env arguments (commandNameOf env name))
  | mention (kind : commandNameOf env name ∈ consoleCommands)
      (mentions : Mentions env arguments (commandNameOf env name))
  | script (kind : commandNameOf env name ∈ shellCommands) (scripted : Scripted env cwd policy arguments)
  | git (kind : commandNameOf env name = "git")
      (harms : GitHarms env cwd policy (front ++ name :: arguments) arguments)
  | find (kind : commandNameOf env name = "find")
      (deletes : FindDeletes env cwd policy (front ++ name :: arguments) arguments)
  | move (kind : commandNameOf env name = "mv") (moves : MovesAway env cwd policy arguments)
  | delete (kind : commandNameOf env name ∈ deleteCommands) (deletes : Deletes env cwd policy arguments)

end Predicates

theorem refusesWords_power (h : commandNameOf env name ∈ powerCommands) :
    RefusesWords env cwd policy front name arguments := by
  unfold powerCommands at h
  exact Or.inl (by simp only [isPowerControl, h, decide_true, Bool.true_or])

theorem refusesWords_init (h : commandNameOf env name ∈ initCommands) :
    RefusesWords env cwd policy front name arguments ↔
      NextTells env arguments (commandNameOf env name) := by
  unfold RefusesWords NextTells
  generalize commandNameOf env name = commandName at h ⊢
  simp only [initCommands, List.mem_cons, List.not_mem_nil, or_false] at h
  rcases h with rfl | rfl | rfl | rfl <;>
    simp [isPowerControl, powerWords, pathTargets, deleteCommands]

theorem refusesWords_console (h : commandNameOf env name ∈ consoleCommands) :
    RefusesWords env cwd policy front name arguments ↔
      Mentions env arguments (commandNameOf env name) := by
  unfold RefusesWords Mentions
  generalize commandNameOf env name = commandName at h ⊢
  simp only [consoleCommands, List.mem_cons, List.not_mem_nil, or_false] at h
  rcases h with rfl | rfl | rfl | rfl <;>
    simp [isPowerControl, consoleWords, pathTargets, deleteCommands, or_assoc]

theorem refusesWords_shell (h : commandNameOf env name ∈ shellCommands) :
    RefusesWords env cwd policy front name arguments ↔ Scripted env cwd policy arguments := by
  unfold RefusesWords Scripted
  generalize commandNameOf env name = commandName at h ⊢
  simp only [shellCommands, List.mem_cons, List.not_mem_nil, or_false] at h
  rcases h with rfl | rfl | rfl <;> simp [isPowerControl, pathTargets, deleteCommands]

theorem next_behind : (front ++ name :: arguments).getD (front.length + 1) "" = arguments.headD "" := by
  rw [getD_behind]
  cases arguments <;> rfl

theorem refusesWords_git_iff (h : commandNameOf env name = "git") :
    RefusesWords env cwd policy front name arguments ↔
      GitHarms env cwd policy (front ++ name :: arguments) arguments := by
  unfold RefusesWords GitHarms DirectoryCovers gitDestroys
  rw [h, next_behind]
  simp [isPowerControl, pathTargets, deleteCommands]

theorem refusesWords_find_iff (h : commandNameOf env name = "find") :
    RefusesWords env cwd policy front name arguments ↔
      FindDeletes env cwd policy (front ++ name :: arguments) arguments := by
  have hany : (∃ token ∈ front ++ name :: arguments, env.rt.toLowerCase token = "-delete") ↔
      (front ++ name :: arguments).any (fun t => env.rt.toLowerCase t = "-delete") = true := by
    simp only [List.any_eq_true, decide_eq_true_eq]
  unfold RefusesWords pathTargets FindDeletes OperandCovers findRoot
  rw [h, next_behind, hany]
  dsimp only
  by_cases hdelete : (front ++ name :: arguments).any (fun t => env.rt.toLowerCase t = "-delete") = true
  · simp [isPowerControl, hdelete]
  · simp [isPowerControl, hdelete]

theorem exists_target {tokens : List String} :
    (∃ target ∈ tokens.filterMap (resolveTokenPath env · cwd), ∃ entry ∈ policy.protectedPaths,
        covers env target entry = true) ↔
      ∃ operand ∈ tokens, OperandCovers env cwd policy operand := by
  constructor
  · rintro ⟨target, htarget, hcovers⟩
    obtain ⟨operand, hoperand, hresolve⟩ := List.mem_filterMap.mp htarget
    exact ⟨operand, hoperand, target, hresolve, hcovers⟩
  · rintro ⟨operand, hoperand, target, htarget, hcovers⟩
    exact ⟨target, List.mem_filterMap.mpr ⟨operand, hoperand, htarget⟩, hcovers⟩

theorem refusesWords_move (h : commandNameOf env name = "mv") :
    RefusesWords env cwd policy front name arguments ↔ MovesAway env cwd policy arguments := by
  have hsources : parseMoveSources env (front ++ name :: arguments) front.length cwd =
      (operands false arguments).dropLast.filterMap (resolveTokenPath env · cwd) := by
    unfold parseMoveSources
    rw [drop_behind]
    dsimp only
    split
    · next hlength =>
      have hnone : (operands false arguments).dropLast = [] := by
        rw [← List.length_eq_zero_iff, List.length_dropLast]
        omega
      rw [hnone]
      rfl
    · rfl
  unfold RefusesWords pathTargets MovesAway
  rw [h, ← exists_target, ← hsources]
  simp [isPowerControl]

theorem refusesWords_delete (h : commandNameOf env name ∈ deleteCommands) :
    RefusesWords env cwd policy front name arguments ↔ Deletes env cwd policy arguments := by
  have htargets : (∃ target ∈ parseDeleteTargets env (front ++ name :: arguments) front.length cwd,
        ∃ entry ∈ policy.protectedPaths, covers env target entry = true) ↔
      Deletes env cwd policy arguments := by
    unfold parseDeleteTargets Deletes DirectoryCovers
    rw [drop_behind, ← exists_target, ← List.filterMap_eq_nil_iff]
    generalize (operands false arguments).filterMap (resolveTokenPath env · cwd) = targets
    cases targets with
    | nil => simp [covers]
    | cons target targets => simp
  unfold RefusesWords pathTargets
  generalize commandNameOf env name = commandName at h ⊢
  rw [← htargets]
  simp only [deleteCommands, List.mem_cons, List.not_mem_nil, or_false] at h
  rcases h with rfl | rfl | rfl | rfl | rfl | rfl <;> simp [isPowerControl, deleteCommands]

/-- A refused command is of one of these kinds. -/
theorem kind_of_refusesWords (h : RefusesWords env cwd policy front name arguments) :
    commandNameOf env name ∈ powerCommands ∨ commandNameOf env name ∈ initCommands ∨
      commandNameOf env name ∈ consoleCommands ∨ commandNameOf env name ∈ shellCommands ∨
      commandNameOf env name = "git" ∨ commandNameOf env name = "find" ∨
      commandNameOf env name = "mv" ∨ commandNameOf env name ∈ deleteCommands := by
  unfold RefusesWords at h
  generalize commandNameOf env name = commandName at h ⊢
  rcases h with hpower | ⟨hshell, -⟩ | ⟨hgit, -⟩ | ⟨target, htarget, -⟩
  · unfold isPowerControl at hpower
    simp only [Bool.or_eq_true, Bool.and_eq_true, decide_eq_true_eq] at hpower
    rcases hpower with (((hpower | ⟨hinit, -⟩) | ⟨hinit, -⟩) | ⟨hconsole, -⟩) | ⟨hconsole, -⟩
    · exact Or.inl hpower
    · exact Or.inr (Or.inl (List.mem_append_left ["systemctl", "loginctl"] hinit))
    · exact Or.inr (Or.inl (List.mem_append_right ["init", "telinit"] hinit))
    · exact Or.inr (Or.inr (Or.inl (List.mem_append_left ["powershell", "pwsh"] hconsole)))
    · exact Or.inr (Or.inr (Or.inl (List.mem_append_right ["cmd", "cmd.exe"] hconsole)))
  · exact Or.inr (Or.inr (Or.inr (Or.inl hshell)))
  · exact Or.inr (Or.inr (Or.inr (Or.inr (Or.inl hgit))))
  · unfold pathTargets at htarget
    by_cases hfind : commandName = "find"
    · simp [hfind]
    · by_cases hmove : commandName = "mv"
      · simp [hmove]
      · by_cases hdelete : commandName ∈ deleteCommands
        · simp [hdelete]
        · simp [hfind, hmove, hdelete] at htarget

theorem refusesWords_iff :
    RefusesWords env cwd policy front name arguments ↔ Reason env cwd policy front name arguments := by
  constructor
  · intro h
    rcases kind_of_refusesWords h with hname | hname | hname | hname | hname | hname | hname | hname
    · exact .power hname
    · exact .next hname ((refusesWords_init hname).mp h)
    · exact .mention hname ((refusesWords_console hname).mp h)
    · exact .script hname ((refusesWords_shell hname).mp h)
    · exact .git hname ((refusesWords_git_iff hname).mp h)
    · exact .find hname ((refusesWords_find_iff hname).mp h)
    · exact .move hname ((refusesWords_move hname).mp h)
    · exact .delete hname ((refusesWords_delete hname).mp h)
  · intro h
    cases h with
    | power hname => exact refusesWords_power hname
    | next hname htells => exact (refusesWords_init hname).mpr htells
    | mention hname hmentions => exact (refusesWords_console hname).mpr hmentions
    | script hname hscripted => exact (refusesWords_shell hname).mpr hscripted
    | git hname hharms => exact (refusesWords_git_iff hname).mpr hharms
    | find hname hdeletes => exact (refusesWords_find_iff hname).mpr hdeletes
    | move hname hmoves => exact (refusesWords_move hname).mpr hmoves
    | delete hname hdeletes => exact (refusesWords_delete hname).mpr hdeletes

end Kinds

/-! ## More words

Words that are put among the others take none of the flags, words and operands away. -/

section More

variable {env : GuardEnv} {words more arguments behind : List String}

theorem hasFlag_mono (h : words ⊆ more) {longFlag : String} {shortFlag : Option String}
    (hflag : hasFlag words longFlag shortFlag = true) : hasFlag more longFlag shortFlag = true := by
  unfold hasFlag at hflag ⊢
  obtain ⟨word, hword, htest⟩ := List.any_eq_true.mp hflag
  exact List.any_eq_true.mpr ⟨word, h hword, htest⟩

theorem operands_cons (passthrough : Bool) (word : String) (words : List String) :
    operands passthrough (word :: words) =
      if !passthrough && word = "--" then operands true words
      else if !passthrough && startsWith "-" word then operands passthrough words
      else word :: operands passthrough words := rfl

theorem operands_true (words : List String) : operands true words = words := by
  induction words with
  | nil => rfl
  | cons word words ih => simp [operands, ih]

theorem operands_sublist (passthrough : Bool) (words : List String) :
    List.Sublist (operands passthrough words) words := by
  induction words generalizing passthrough with
  | nil => exact List.Sublist.slnil
  | cons word words ih =>
    unfold operands
    split
    · exact (ih true).cons word
    · split
      · exact (ih passthrough).cons word
      · exact (ih passthrough).cons_cons word

/-- What is in front tells only whether `--` was among it. -/
theorem operands_append (passthrough : Bool) (words : List String) :
    ∃ passed : Bool, (passthrough = true → passed = true) ∧
      ∀ more, operands passthrough (words ++ more) = operands passthrough words ++ operands passed more := by
  induction words generalizing passthrough with
  | nil => exact ⟨passthrough, id, fun more => rfl⟩
  | cons word words ih =>
    by_cases hmark : (!passthrough && decide (word = "--")) = true
    · obtain ⟨passed, hpassed, hmore⟩ := ih true
      refine ⟨passed, fun _ => hpassed rfl, fun more => ?_⟩
      rw [List.cons_append, operands_cons, operands_cons, if_pos hmark, if_pos hmark, hmore]
    · obtain ⟨passed, hpassed, hmore⟩ := ih passthrough
      refine ⟨passed, hpassed, fun more => ?_⟩
      rw [List.cons_append, operands_cons, operands_cons, if_neg hmark, if_neg hmark]
      split
      · exact hmore more
      · rw [hmore, List.cons_append]

theorem operands_insert (h : behind <:+ words) (arguments : List String) :
    List.Sublist (operands false (arguments ++ behind)) (operands false (arguments ++ words)) := by
  obtain ⟨inserted, rfl⟩ := h
  obtain ⟨passed, -, hmore⟩ := operands_append false arguments
  obtain ⟨further, hfurther, hrest⟩ := operands_append passed inserted
  have hlast : List.Sublist (operands passed behind) (operands further behind) := by
    cases passed with
    | true => rw [hfurther rfl]
    | false =>
      cases further with
      | true =>
        rw [operands_true]
        exact operands_sublist false behind
      | false => exact List.Sublist.refl _
  rw [hmore, hmore, hrest]
  exact (List.Sublist.refl _).append (hlast.trans (List.sublist_append_right _ _))

theorem dropLast_sublist_dropLast (h : List.Sublist words more) :
    List.Sublist words.dropLast more.dropLast := by
  have htail := h.reverse.tail
  rw [List.tail_reverse, List.tail_reverse] at htail
  exact List.reverse_sublist.mp htail

/-- Lower-casing treats the texts on both sides of a blank or an angle bracket on their own. -/
def LowersApart (rt : Js.Runtime) : Prop :=
  ∀ mark ∈ [' ', '<', '>'], ∀ before after : String,
    rt.toLowerCase (before ++ String.ofList [mark] ++ after) =
      rt.toLowerCase before ++ String.ofList [mark] ++ rt.toLowerCase after

theorem lowersApart_ascii : LowersApart Js.asciiRuntime := by
  intro mark hmark before after
  have hlower : ∀ ch ∈ [' ', '<', '>'], ch.toLower = ch := by decide
  change Js.asciiLower _ = Js.asciiLower _ ++ _ ++ Js.asciiLower _
  apply String.toList_inj.mp
  simp [Js.asciiLower, hlower mark hmark]

theorem lower_intercalate (h : LowersApart env.rt) (words : List String) :
    env.rt.toLowerCase (" ".intercalate words) = " ".intercalate (words.map env.rt.toLowerCase) := by
  have hblank : " " = String.ofList [' '] := by decide
  induction words with
  | nil => exact env.rt.toLowerCase_empty
  | cons word words ih =>
    cases words with
    | nil => simp
    | cons next words =>
      rw [List.map_cons, String.intercalate_cons_cons, hblank, h ' ' (by decide), ← hblank, ih]
      simp [String.intercalate_cons_cons]

theorem separates_word {word : String} (h : word ∈ ["shutdown", "stop-computer", "restart-computer"]) :
    Separates " ".toList (Pattern.word [word]) := by
  simp only [List.mem_cons, List.not_mem_nil, or_false] at h
  rcases h with rfl | rfl | rfl <;>
    exact ⟨by decide, none_of_all (by decide), none_of_all (by decide),
      none_of_all (by decide), ⟨' ', by decide, by decide⟩⟩

/-- A word of power control that is among the arguments is among more of them. -/
theorem test_mono (hlower : LowersApart env.rt) (h : words ⊆ more) {word : String}
    (hword : word ∈ ["shutdown", "stop-computer", "restart-computer"])
    (htest : (Pattern.word [word]).test (env.rt.toLowerCase (" ".intercalate words)) = true) :
    (Pattern.word [word]).test (env.rt.toLowerCase (" ".intercalate more)) = true := by
  rw [lower_intercalate hlower, (separates_word hword).test_join] at htest ⊢
  obtain ⟨part, hpart, hfound⟩ := htest
  exact ⟨part, List.map_subset _ h hpart, hfound⟩

theorem mentions_mono (hlower : LowersApart env.rt) (h : words ⊆ more) {commandName : String}
    (hmentions : Mentions env words commandName) : Mentions env more commandName := by
  have hconsole : consoleWords commandName ⊆ ["shutdown", "stop-computer", "restart-computer"] := by
    unfold consoleWords
    split <;> decide
  obtain ⟨word, hword, htest⟩ := hmentions
  exact ⟨word, hword, test_mono hlower h (hconsole hword) htest⟩

end More

end T560.Guard
