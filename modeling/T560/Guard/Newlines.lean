import T560.Guard.Pieces

/-!
# Commands on lines of their own

The segments of two commands with an operator between them are those of the one and of the other,
so the guard refuses the two exactly when it refuses one of them. It does not see a newline, which
ends a command for the shell: there the words of the second command become arguments of the first
one, and whether that changes the verdict depends on the kind of command that takes them.
-/

namespace T560.Guard

open Js (trimChars isSpace)

/-! ## Separators -/

section Separators

/-- What ends a command for the shell. -/
inductive Separator where
  | semicolon
  | pipe
  | or
  | background
  | and
  | newline
  deriving DecidableEq, Repr

def Separator.text : Separator → String
  | .semicolon => ";"
  | .pipe => "|"
  | .or => "||"
  | .background => "&"
  | .and => "&&"
  | .newline => "\n"

theorem segments_operator {separator : Separator} (hsep : separator ≠ .newline)
    {first : String} (h : EndsOutside first) (second : String) :
    splitShellSegments (first ++ separator.text ++ second).toList =
      splitShellSegments first.toList ++ splitShellSegments second.toList := by
  have hone : ∀ ch, isBreak ch = true →
      splitShellSegments (first.toList ++ ch :: second.toList) =
        splitShellSegments first.toList ++ splitShellSegments second.toList := by
    intro ch hch
    rw [splitShellSegments_append]
    exact segments_break h (splitRun_fresh _) hch second.toList
  have htwo : ∀ ch, isBreak ch = true →
      splitShellSegments (first.toList ++ ch :: ch :: second.toList) =
        splitShellSegments first.toList ++ splitShellSegments second.toList := by
    intro ch hch
    rw [splitShellSegments_append, segments_break h (splitRun_fresh _) hch,
      splitShellSegments_break hch]
    rfl
  have htext : (first ++ separator.text ++ second).toList =
      first.toList ++ (separator.text.toList ++ second.toList) := by
    simp
  rw [htext]
  cases separator with
  | semicolon => exact hone ';' rfl
  | pipe => exact hone '|' rfl
  | or => exact htwo '|' rfl
  | background => exact hone '&' rfl
  | and => exact htwo '&' rfl
  | newline => exact absurd rfl hsep

/-- A newline joins the last piece of the first command and the first piece of the second. -/
theorem segments_newline {first : String} (h : EndsOutside first) (second : String) :
    splitShellSegments (first ++ Separator.newline.text ++ second).toList =
      (splitRun first.toList).out ++ cleaned (lastPiece first ++ '\n' :: firstPiece second) ++
        splitShellSegments (cutFirst {} second.toList).2 := by
  have htext : (first ++ Separator.newline.text ++ second).toList =
      first.toList ++ '\n' :: second.toList := by
    simp [Separator.text]
  have hnot : ¬ ((splitRun first.toList).Outside ∧ isBreak '\n' = true) :=
    fun hbreak => absurd hbreak.2 (by decide)
  have hother := splitStep_other (splitRun_fresh first.toList) hnot
  have hmode : (splitStep (splitRun first.toList) '\n').Outside := by
    unfold splitStep SplitState.Outside
    by_cases hskip : (splitRun first.toList).skip = some '\n'
    · rw [if_pos hskip]
      exact h
    · simp [hskip, h.1, h.2, isBreak]
  have hcut : cutFirst (splitStep (splitRun first.toList) '\n') second.toList =
      cutFirst {} second.toList :=
    cutFirst_congr hother.2.2 rfl hmode.1 hmode.2 second.toList
  rw [htext, splitShellSegments_append, List.foldl_cons, segments_cutFirst hother.2.2, hother.1,
    hother.2.1, hcut, List.append_assoc (splitRun first.toList).current]
  rfl

end Separators

/-! ## What takes the words behind a newline -/

section Conditions

variable (env : GuardEnv) (cwd : String) (policy : SelfProtectionPolicy)

/-- The guard refuses the two commands together exactly when it refuses one of them. -/
def Compositional (separator : Separator) (first second : String) : Prop :=
  Refuses env cwd policy (first ++ separator.text ++ second) ↔
    Refuses env cwd policy first ∨ Refuses env cwd policy second

/-- The words of the first command that a newline behind it leaves open. -/
def wordsBefore (first : String) : List String := tokenizeShell (lastPiece first)

/-- The words of the second command up to its first operator. -/
def wordsBehind (second : String) : List String := pieceWords (firstPiece second)

/-- With more words among its arguments a command is refused exactly when it was. The word next to `init`
and the script behind `-c` may be among the new words; a deletion without an operand gets one. -/
structure KeepsVerdict (front : List String) (name : String) (arguments words : List String) : Prop where
  next : commandNameOf env name ∈ initCommands →
    arguments ≠ [] ∨ ¬ NextTells env words (commandNameOf env name)
  mention : commandNameOf env name ∈ consoleCommands →
    (Mentions env (arguments ++ words) (commandNameOf env name) ↔
      Mentions env arguments (commandNameOf env name))
  script : commandNameOf env name ∈ shellCommands →
    Scripted env cwd policy arguments ∨
      ¬ Scripted env cwd policy (arguments.getLast?.toList ++ words)
  flag : commandNameOf env name = "git" →
    GitHarms env cwd policy (front ++ name :: arguments) arguments ∨
      ¬ GitHarms env cwd policy (front ++ name :: (arguments ++ words)) (arguments ++ words)
  root : commandNameOf env name = "find" →
    (FindDeletes env cwd policy (front ++ name :: (arguments ++ words)) (arguments ++ words) ↔
      FindDeletes env cwd policy (front ++ name :: arguments) arguments)
  source : commandNameOf env name = "mv" →
    MovesAway env cwd policy arguments ∨ ¬ MovesAway env cwd policy (arguments ++ words)
  operand : commandNameOf env name ∈ deleteCommands →
    (Deletes env cwd policy (arguments ++ words) ↔ Deletes env cwd policy arguments)

/-- A command takes the words of the second one as arguments: a refused one must be a reason to
refuse it there, and one that is not must leave it its verdict. -/
structure TakesWords (front : List String) (name : String) (arguments words : List String) : Prop where
  refused : RefusedCommand env cwd policy words → Reason env cwd policy front name (arguments ++ words)
  allowed : ¬ RefusedCommand env cwd policy words → KeepsVerdict env cwd policy front name arguments words

/-- Words that are all assignments and wrappers leave the second command its place, and add no flag
to it that it is refused for. -/
structure LeavesCommand (before words : List String) : Prop where
  same : commandWords (before ++ words) = commandWords words
  flag : ∀ name arguments, commandWords words = name :: arguments → commandNameOf env name = "git" →
    GitHarms env cwd policy (before ++ words) arguments → GitHarms env cwd policy words arguments
  root : ∀ name arguments, commandWords words = name :: arguments → commandNameOf env name = "find" →
    FindDeletes env cwd policy (before ++ words) arguments → FindDeletes env cwd policy words arguments

/-- The words of the last piece are those that it has with more behind it; it may end in a blank
behind a backslash, which the guard trims off at the end alone. -/
def Unbroken (first : String) : Prop := pieceWords (lastPiece first) = wordsBefore first

instance (first : String) : Decidable (Unbroken first) := inferInstanceAs (Decidable (_ = _))

/-- Behind the newline is the command that the first one has, or else the one of the second. -/
def Follows (first second : String) : Prop :=
  Unbroken first ∧ (commandWords (wordsBefore first) ≠ [] ∨
    commandWords (wordsBefore first ++ wordsBehind second) = commandWords (wordsBehind second))

/-- The newline stands at a blank end, or another segment is refused, or the words behind it change
nothing where they stand. -/
def Harmless (first second : String) : Prop :=
  trimChars (lastPiece first) = [] ∨ trimChars (firstPiece second) = [] ∨
    (∃ segment ∈ otherSegments first second, RefusesSegment env cwd policy segment) ∨
    Unbroken first ∧
      ((∃ front name arguments, wordsBefore first = front ++ name :: arguments ∧
          commandWords (wordsBefore first) = name :: arguments ∧
          TakesWords env cwd policy front name arguments (wordsBehind second)) ∨
        commandWords (wordsBefore first) = [] ∧
          LeavesCommand env cwd policy (wordsBefore first) (wordsBehind second))

end Conditions

/-! ## More words for a command -/

section Words

variable {env : GuardEnv} {cwd : String} {policy : SelfProtectionPolicy}
  {front arguments words before : List String} {name : String}

theorem inlineScripts_append (arguments words : List String) :
    inlineScripts (arguments ++ words) =
      inlineScripts arguments ++ inlineScripts (arguments.getLast?.toList ++ words) := by
  induction arguments with
  | nil => rfl
  | cons token arguments ih =>
    cases arguments with
    | nil => rfl
    | cons script arguments =>
      have hcons : ∀ rest, inlineScripts (token :: script :: rest) =
          inlineScripts [token, script] ++ inlineScripts (script :: rest) := by
        intro rest
        unfold inlineScripts
        simp only [List.tail_cons, List.zip_cons_cons, List.zip_nil_right, List.filterMap_cons]
        split <;> rfl
      rw [List.cons_append, List.cons_append, hcons, ← List.cons_append, ih, hcons arguments,
        List.append_assoc, List.getLast?_cons_cons]

theorem scripted_append :
    Scripted env cwd policy (arguments ++ words) ↔
      Scripted env cwd policy arguments ∨
        Scripted env cwd policy (arguments.getLast?.toList ++ words) := by
  unfold Scripted
  rw [inlineScripts_append]
  simp only [List.mem_append, or_and_right, exists_or]

theorem movesAway_append (h : MovesAway env cwd policy arguments) :
    MovesAway env cwd policy (arguments ++ words) := by
  obtain ⟨operand, hoperand, hcovers⟩ := h
  have hsublist : List.Sublist (operands false arguments) (operands false (arguments ++ words)) := by
    obtain ⟨passed, -, hmore⟩ := operands_append false arguments
    rw [hmore]
    exact List.sublist_append_left _ _
  exact ⟨operand, (dropLast_sublist_dropLast hsublist).subset hoperand, hcovers⟩

theorem gitHarms_mono {tokens more : List String} (htokens : tokens ⊆ more)
    (h : GitHarms env cwd policy tokens arguments) : GitHarms env cwd policy more arguments :=
  ⟨h.1.imp (And.imp id (hasFlag_mono htokens)) (And.imp id (hasFlag_mono htokens)), h.2⟩

theorem findDeletes_mono {tokens more : List String} (htokens : tokens ⊆ more)
    (h : FindDeletes env cwd policy tokens arguments) : FindDeletes env cwd policy more arguments := by
  obtain ⟨⟨token, htoken, hdelete⟩, hcovers⟩ := h
  exact ⟨⟨token, htokens htoken, hdelete⟩, hcovers⟩

theorem nextTells_append (h : arguments ≠ []) {commandName : String} :
    NextTells env (arguments ++ words) commandName ↔ NextTells env arguments commandName := by
  obtain ⟨next, arguments, rfl⟩ := List.exists_cons_of_ne_nil h
  exact Iff.rfl

theorem not_nextTells_nil (commandName : String) : ¬ NextTells env [] commandName := by
  unfold NextTells powerWords
  rw [List.headD_nil, env.rt.toLowerCase_empty]
  split <;> decide

/-- The subcommand is in front already. -/
theorem gitHarms_append
    (h : GitHarms env cwd policy (front ++ name :: arguments) arguments) :
    GitHarms env cwd policy (front ++ name :: (arguments ++ words)) (arguments ++ words) := by
  cases arguments with
  | nil =>
    obtain ⟨⟨hnext, -⟩ | ⟨hnext, -⟩, -⟩ := h <;>
      rw [List.headD_nil, env.rt.toLowerCase_empty] at hnext <;> exact absurd hnext (by decide)
  | cons next arguments =>
    have hmore : front ++ name :: next :: arguments ⊆ front ++ name :: (next :: arguments ++ words) := by
      rw [← List.cons_append, ← List.append_assoc]
      exact List.subset_append_left _ _
    exact gitHarms_mono hmore h

/-- What refuses the longer command refuses the shorter one. -/
theorem KeepsVerdict.front_reason (hkeeps : KeepsVerdict env cwd policy front name arguments words)
    (hreason : Reason env cwd policy front name (arguments ++ words)) :
    Reason env cwd policy front name arguments := by
  cases hreason with
  | power kind => exact .power kind
  | next kind tells =>
    by_cases hnil : arguments = []
    · subst hnil
      exact absurd tells ((hkeeps.next kind).resolve_left (· rfl))
    · exact .next kind ((nextTells_append hnil).mp tells)
  | mention kind mentions => exact .mention kind ((hkeeps.mention kind).mp mentions)
  | script kind scripted =>
    exact .script kind ((hkeeps.script kind).elim id
      fun hnone => (scripted_append.mp scripted).resolve_right hnone)
  | git kind harms => exact .git kind ((hkeeps.flag kind).resolve_right (not_not_intro harms))
  | find kind deletes => exact .find kind ((hkeeps.root kind).mp deletes)
  | move kind moves => exact .move kind ((hkeeps.source kind).resolve_right (not_not_intro moves))
  | delete kind deletes => exact .delete kind ((hkeeps.operand kind).mp deletes)

/-- What refuses the shorter command refuses the longer one. -/
theorem KeepsVerdict.joined_reason (hkeeps : KeepsVerdict env cwd policy front name arguments words)
    (hreason : Reason env cwd policy front name arguments) :
    Reason env cwd policy front name (arguments ++ words) := by
  cases hreason with
  | power kind => exact .power kind
  | next kind tells =>
    have hne : arguments ≠ [] := by
      rintro rfl
      exact not_nextTells_nil _ tells
    exact .next kind ((nextTells_append hne).mpr tells)
  | mention kind mentions => exact .mention kind ((hkeeps.mention kind).mpr mentions)
  | script kind scripted => exact .script kind (scripted_append.mpr (Or.inl scripted))
  | git kind harms => exact .git kind (gitHarms_append harms)
  | find kind deletes => exact .find kind ((hkeeps.root kind).mpr deletes)
  | move kind moves => exact .move kind (movesAway_append moves)
  | delete kind deletes => exact .delete kind ((hkeeps.operand kind).mpr deletes)

theorem keepsVerdict_iff :
    (Reason env cwd policy front name (arguments ++ words) ↔ Reason env cwd policy front name arguments) ↔
      KeepsVerdict env cwd policy front name arguments words := by
  have reason_iff : ∀ {args : List String} {P : Prop}, (RefusesWords env cwd policy front name args ↔ P) →
      (Reason env cwd policy front name args ↔ P) := fun h => refusesWords_iff.symm.trans h
  constructor
  · intro hsame
    refine ⟨fun kind => ?_, fun kind => ?_, fun kind => ?_, fun kind => ?_, fun kind => ?_,
      fun kind => ?_, fun kind => ?_⟩
    · by_cases hnil : arguments = []
      · subst hnil
        rw [reason_iff (refusesWords_init kind), reason_iff (refusesWords_init kind)] at hsame
        exact Or.inr fun htells => not_nextTells_nil _ (hsame.mp htells)
      · exact Or.inl hnil
    · rwa [reason_iff (refusesWords_console kind), reason_iff (refusesWords_console kind)] at hsame
    · rw [reason_iff (refusesWords_shell kind), reason_iff (refusesWords_shell kind)] at hsame
      exact or_iff_not_imp_left.mpr fun hnone hnew => hnone (hsame.mp (scripted_append.mpr (Or.inr hnew)))
    · rw [reason_iff (refusesWords_git_iff kind), reason_iff (refusesWords_git_iff kind)] at hsame
      exact or_iff_not_imp_left.mpr (mt hsame.mp)
    · rwa [reason_iff (refusesWords_find_iff kind), reason_iff (refusesWords_find_iff kind)] at hsame
    · rw [reason_iff (refusesWords_move kind), reason_iff (refusesWords_move kind)] at hsame
      exact or_iff_not_imp_left.mpr (mt hsame.mp)
    · rwa [reason_iff (refusesWords_delete kind), reason_iff (refusesWords_delete kind)] at hsame
  · exact fun hkeeps => ⟨hkeeps.front_reason, hkeeps.joined_reason⟩

/-- Where a command takes the words, the newline is harmless exactly for these. -/
theorem takesWords_iff :
    (Reason env cwd policy front name (arguments ++ words) ↔
        Reason env cwd policy front name arguments ∨ RefusedCommand env cwd policy words) ↔
      TakesWords env cwd policy front name arguments words := by
  by_cases hrefused : RefusedCommand env cwd policy words
  · refine ⟨fun hlaw => ⟨fun _ => hlaw.mpr (Or.inr hrefused), fun hnot => absurd hrefused hnot⟩,
      fun htakes => iff_of_true (htakes.refused hrefused) (Or.inr hrefused)⟩
  · rw [or_iff_left hrefused, keepsVerdict_iff]
    exact ⟨fun hkeeps => ⟨fun h => absurd h hrefused, fun _ => hkeeps⟩,
      fun htakes => htakes.allowed hrefused⟩

/-- Behind words that leave it its place, the command is refused as it is alone. -/
theorem refusedCommand_behind_wrappers (h : LeavesCommand env cwd policy before words) :
    RefusedCommand env cwd policy (before ++ words) ↔ RefusedCommand env cwd policy words := by
  cases hwords : commandWords words with
  | nil => exact iff_of_false (not_refusedCommand (h.same.trans hwords)) (not_refusedCommand hwords)
  | cons name arguments =>
    obtain ⟨front, hfront⟩ := commandWords_suffix words
    have hsame := h.same.trans hwords
    rw [hwords] at hfront
    have hgit := h.flag name arguments hwords
    have hfind := h.root name arguments hwords
    rw [← hfront] at hwords hgit hfind hsame ⊢
    rw [← List.append_assoc] at hgit hfind hsame ⊢
    rw [refusedCommand_behind hsame, refusedCommand_behind hwords]
    have hmore : front ++ name :: arguments ⊆ before ++ front ++ name :: arguments := by
      rw [List.append_assoc]
      exact List.subset_append_right _ _
    constructor
    · intro hreason
      cases hreason with
      | power kind => exact .power kind
      | next kind tells => exact .next kind tells
      | mention kind mentions => exact .mention kind mentions
      | script kind scripted => exact .script kind scripted
      | git kind harms => exact .git kind (hgit kind harms)
      | find kind deletes => exact .find kind (hfind kind deletes)
      | move kind moves => exact .move kind moves
      | delete kind deletes => exact .delete kind deletes
    · intro hreason
      cases hreason with
      | power kind => exact .power kind
      | next kind tells => exact .next kind tells
      | mention kind mentions => exact .mention kind mentions
      | script kind scripted => exact .script kind scripted
      | git kind harms => exact .git kind (gitHarms_mono hmore harms)
      | find kind deletes => exact .find kind (findDeletes_mono hmore deletes)
      | move kind moves => exact .move kind moves
      | delete kind deletes => exact .delete kind deletes

/-- Conversely a command that is found at the same place gets no new flag. -/
theorem leavesCommand_iff (hsame : commandWords (before ++ words) = commandWords words) :
    (RefusedCommand env cwd policy (before ++ words) ↔ RefusedCommand env cwd policy words) ↔
      LeavesCommand env cwd policy before words := by
  refine ⟨fun hlaw => ?_, refusedCommand_behind_wrappers⟩
  have hverdict : ∀ name arguments, commandWords words = name :: arguments →
      ∃ front, words = front ++ name :: arguments ∧
        (Reason env cwd policy (before ++ front) name arguments ↔
          Reason env cwd policy front name arguments) := by
    intro name arguments hwords
    obtain ⟨front, hfront⟩ := commandWords_suffix words
    have hbehind := hsame.trans hwords
    rw [hwords] at hfront
    refine ⟨front, hfront.symm, ?_⟩
    rw [← hfront] at hwords hbehind hlaw
    rw [← List.append_assoc] at hbehind hlaw
    rwa [refusedCommand_behind hbehind, refusedCommand_behind hwords] at hlaw
  refine ⟨hsame, fun name arguments hwords kind hharms => ?_, fun name arguments hwords kind hdeletes => ?_⟩
  · obtain ⟨front, hfront, hreason⟩ := hverdict name arguments hwords
    rw [← refusesWords_iff, ← refusesWords_iff, refusesWords_git_iff kind, refusesWords_git_iff kind,
      List.append_assoc, ← hfront] at hreason
    exact hreason.mp hharms
  · obtain ⟨front, hfront, hreason⟩ := hverdict name arguments hwords
    rw [← refusesWords_iff, ← refusesWords_iff, refusesWords_find_iff kind, refusesWords_find_iff kind,
      List.append_assoc, ← hfront] at hreason
    exact hreason.mp hdeletes

/-- What the joined words come to, where the command among them is the one of the first words or
else the one of the others. -/
theorem joined_iff (hfollows : commandWords before ≠ [] ∨
      commandWords (before ++ words) = commandWords words) :
    (RefusedCommand env cwd policy (before ++ words) ↔
        RefusedCommand env cwd policy before ∨ RefusedCommand env cwd policy words) ↔
      (∃ front name arguments, before = front ++ name :: arguments ∧
          commandWords before = name :: arguments ∧
          TakesWords env cwd policy front name arguments words) ∨
        commandWords before = [] ∧ LeavesCommand env cwd policy before words := by
  cases hcommand : commandWords before with
  | nil =>
    have hsame := hfollows.resolve_left (not_not_intro hcommand)
    rw [or_iff_right (not_refusedCommand hcommand), leavesCommand_iff hsame]
    refine ⟨fun hleaves => Or.inr ⟨rfl, hleaves⟩, fun hwords => hwords.elim ?_ And.right⟩
    rintro ⟨front, name, arguments, -, hnil, -⟩
    cases hnil
  | cons name arguments =>
    obtain ⟨front, hfront⟩ := commandWords_suffix before
    have hmore : commandWords (before ++ words) = name :: (arguments ++ words) := by
      rw [commandWords_append (by simp [hcommand]), hcommand]
      rfl
    rw [hcommand] at hfront
    rw [← hfront, List.append_assoc, List.cons_append] at hmore
    rw [← hfront] at hcommand
    have htakes : (RefusedCommand env cwd policy (before ++ words) ↔
          RefusedCommand env cwd policy before ∨ RefusedCommand env cwd policy words) ↔
        TakesWords env cwd policy front name arguments words := by
      rw [← hfront, List.append_assoc, List.cons_append, refusedCommand_behind hmore,
        refusedCommand_behind hcommand, takesWords_iff]
    rw [htakes]
    constructor
    · exact fun htaken => Or.inl ⟨front, name, arguments, hfront.symm, rfl, htaken⟩
    · rintro (⟨front', name', arguments', hbefore, hnames, htaken⟩ | ⟨hnil, -⟩)
      · obtain ⟨rfl, rfl⟩ := List.cons.inj hnames
        obtain rfl := List.append_cancel_right (hfront.trans hbefore)
        exact htaken
      · cases hnil

end Words

/-! ## The law -/

section Law

variable {env : GuardEnv} {cwd : String} {policy : SelfProtectionPolicy}

theorem compositional_operator (h : policy.enabled = true) {separator : Separator}
    (hsep : separator ≠ .newline) {first : String} (hfirst : EndsOutside first) (second : String) :
    Compositional env cwd policy separator first second := by
  unfold Compositional
  rw [refuses_iff h, refuses_iff h, refuses_iff h, segments_operator hsep hfirst]
  constructor
  · rintro ⟨segment, hmem, hrefused⟩
    exact (List.mem_append.mp hmem).imp (⟨segment, ·, hrefused⟩) (⟨segment, ·, hrefused⟩)
  · rintro (⟨segment, hmem, hrefused⟩ | ⟨segment, hmem, hrefused⟩)
    · exact ⟨segment, List.mem_append_left _ hmem, hrefused⟩
    · exact ⟨segment, List.mem_append_right _ hmem, hrefused⟩

/-- A newline in front of a blank end, or behind one, adds no word. -/
theorem pieceWords_newline {piece rest : List Char} (hout : (tokenRun piece).Outside) :
    (trimChars piece = [] → pieceWords (piece ++ '\n' :: rest) = pieceWords rest) ∧
      (trimChars rest = [] → pieceWords (piece ++ '\n' :: rest) = pieceWords piece) ∧
      (trimChars rest ≠ [] →
        pieceWords (piece ++ '\n' :: rest) = tokenizeShell piece ++ pieceWords rest) := by
  have hspace : isSpace '\n' = true := by decide
  refine ⟨fun hblank => ?_, fun hblank => ?_, pieceWords_append_blank hspace hout⟩
  · unfold pieceWords
    rw [trimChars_blank_append (Js.isSpace_of_trimChars_nil hblank), trimChars_cons_blank hspace]
  · unfold pieceWords
    rw [trimChars_append_blank (List.forall_mem_cons.mpr ⟨hspace, Js.isSpace_of_trimChars_nil hblank⟩)]

/-- At a newline the law is about the words that it joins, unless another segment is refused. -/
theorem compositional_newline (h : policy.enabled = true) {first : String}
    (hfirst : EndsOutside first) (second : String) :
    Compositional env cwd policy .newline first second ↔
      (∃ segment ∈ otherSegments first second, RefusesSegment env cwd policy segment) ∨
        (RefusedCommand env cwd policy (pieceWords (lastPiece first ++ '\n' :: firstPiece second)) ↔
          RefusedCommand env cwd policy (pieceWords (lastPiece first)) ∨
            RefusedCommand env cwd policy (wordsBehind second)) := by
  have hparts : Refuses env cwd policy first ∨ Refuses env cwd policy second ↔
      (∃ segment ∈ otherSegments first second, RefusesSegment env cwd policy segment) ∨
        RefusedCommand env cwd policy (pieceWords (lastPiece first)) ∨
          RefusedCommand env cwd policy (wordsBehind second) := by
    rw [refuses_iff h, refuses_iff h, segments_first, segments_second, wordsBehind,
      ← refuses_cleaned, ← refuses_cleaned]
    simp only [otherSegments, List.mem_append, or_and_right, exists_or]
    exact ⟨fun hor => hor.elim (Or.imp Or.inl Or.inl) (Or.elim · (Or.inr ∘ Or.inr) (Or.inl ∘ Or.inr)),
      fun hor => hor.elim (Or.imp Or.inl Or.inr) (Or.imp Or.inr Or.inl)⟩
  have hiff : ∀ p q r : Prop, (p ∨ q ↔ p ∨ r) ↔ p ∨ (q ↔ r) := by
    intro p q r
    by_cases hp : p <;> simp [hp]
  unfold Compositional
  rw [hparts, refuses_iff h, segments_newline hfirst, exists_segment, refuses_cleaned]
  exact hiff _ _ _

/-- At a blank end the newline joins nothing. -/
theorem compositional_blank (h : policy.enabled = true) {first second : String}
    (hfirst : EndsOutside first)
    (hblank : trimChars (lastPiece first) = [] ∨ trimChars (firstPiece second) = []) :
    Compositional env cwd policy .newline first second := by
  obtain ⟨hblankBefore, hblankBehind, -⟩ :=
    @pieceWords_newline (lastPiece first) (firstPiece second) (outside_lastPiece hfirst)
  have hnone : ∀ piece, trimChars piece = [] → ¬ RefusedCommand env cwd policy (pieceWords piece) := by
    intro piece hblank
    unfold pieceWords
    rw [hblank]
    exact not_refusedCommand rfl
  rw [compositional_newline h hfirst]
  rcases hblank with hblank | hblank
  · rw [hblankBefore hblank, or_iff_right (hnone _ hblank)]
    exact Or.inr Iff.rfl
  · rw [hblankBehind hblank, wordsBehind, or_iff_left (hnone _ hblank)]
    exact Or.inr Iff.rfl

theorem compositional_iff_harmless (h : policy.enabled = true) {first second : String}
    (hfirst : EndsOutside first) (hfollows : Follows first second) :
    Compositional env cwd policy .newline first second ↔ Harmless env cwd policy first second := by
  unfold Harmless
  by_cases hbefore : trimChars (lastPiece first) = []
  · exact iff_of_true (compositional_blank h hfirst (Or.inl hbefore)) (Or.inl hbefore)
  · by_cases hbehind : trimChars (firstPiece second) = []
    · exact iff_of_true (compositional_blank h hfirst (Or.inr hbehind)) (Or.inr (Or.inl hbehind))
    · obtain ⟨hunbroken, hcommand⟩ := hfollows
      have hjoined := (pieceWords_newline (outside_lastPiece hfirst)).2.2 hbehind
      rw [compositional_newline h hfirst, hjoined, hunbroken, or_iff_right hbefore, or_iff_right hbehind,
        and_iff_right hunbroken]
      exact or_congr_right (joined_iff hcommand)

theorem compositional_of_harmless (h : policy.enabled = true) {first second : String}
    (hfirst : EndsOutside first) (hharmless : Harmless env cwd policy first second) :
    Compositional env cwd policy .newline first second := by
  rcases hharmless with hblank | hblank | hother | ⟨hunbroken, hwords⟩
  · exact compositional_blank h hfirst (Or.inl hblank)
  · exact compositional_blank h hfirst (Or.inr hblank)
  · exact (compositional_newline h hfirst second).mpr (Or.inl hother)
  · have hfollows : Follows first second := by
      refine ⟨hunbroken, ?_⟩
      rcases hwords with ⟨front, name, arguments, -, hcommand, -⟩ | ⟨-, hleaves⟩
      · exact Or.inl (by simp [hcommand])
      · exact Or.inr hleaves.same
    exact (compositional_iff_harmless h hfirst hfollows).mpr
      (Or.inr (Or.inr (Or.inr ⟨hunbroken, hwords⟩)))

variable (env cwd policy) in
theorem shutdown_blocked (inline : String → Except String Unit) :
    assertSegmentAllowed env cwd policy inline "shutdown".toList = .error powerControlBlocked := by
  have htokens : tokenizeShell "shutdown".toList = ["shutdown"] := by decide
  have hindex : findCommandTokenIndex ["shutdown"] = some 0 := by decide
  have hbase : Js.Path.basename "shutdown" = "shutdown" := by decide
  have hname : env.rt.toLowerCase "shutdown" = "shutdown" := env.rt.lower_ascii _ (by decide)
  unfold assertSegmentAllowed
  rw [htokens]
  dsimp only
  rw [hindex]
  simp [hbase, hname, isPowerControl]
  rfl

variable (env cwd policy) in
/-- With `shutdown` behind a newline the word `echo` counts as the command. -/
theorem echo_shutdown_allowed (inline : String → Except String Unit) :
    assertSegmentAllowed env cwd policy inline "echo\nshutdown".toList = .ok () := by
  have htokens : tokenizeShell "echo\nshutdown".toList = ["echo", "shutdown"] := by decide
  have hindex : findCommandTokenIndex ["echo", "shutdown"] = some 0 := by decide
  have hbase : Js.Path.basename "echo" = "echo" := by decide
  have hname : env.rt.toLowerCase "echo" = "echo" := env.rt.lower_ascii _ (by decide)
  unfold assertSegmentAllowed
  rw [htokens]
  dsimp only
  rw [hindex]
  simp [hbase, hname, isPowerControl, assertPathsAllowed, deleteCommands]

theorem not_compositional_shutdown (h : policy.enabled = true) :
    ¬ Compositional env cwd policy .newline "echo" "shutdown" := by
  have hsecond : Refuses env cwd policy "shutdown" := by
    rw [refuses_iff h]
    exact ⟨"shutdown".toList, by decide, powerControlBlocked, shutdown_blocked env cwd policy _⟩
  have hsegments : splitShellSegments ("echo" ++ Separator.newline.text ++ "shutdown").toList =
      ["echo\nshutdown".toList] := by
    decide
  intro hlaw
  have hboth := hlaw.mpr (Or.inr hsecond)
  rw [refuses_iff h, hsegments] at hboth
  obtain ⟨segment, hmem, message, hthrown⟩ := hboth
  rw [List.mem_singleton.mp hmem, echo_shutdown_allowed] at hthrown
  cases hthrown

/-- The guard is compositional for every separator but the newline. There it is compositional
where the newline is harmless, and only there as far as a command follows it. -/
theorem guard_compositional_iff (env : GuardEnv) (cwd : String) (policy : SelfProtectionPolicy)
    (h : policy.enabled = true) :
    (∀ separator, (∀ first second, EndsOutside first → EndsOutside second →
        Compositional env cwd policy separator first second) ↔ separator ≠ .newline) ∧
      ∀ separator first second, EndsOutside first → EndsOutside second →
        (separator ≠ .newline ∨ Harmless env cwd policy first second →
          Compositional env cwd policy separator first second) ∧
        (Follows first second → Compositional env cwd policy separator first second →
          separator ≠ .newline ∨ Harmless env cwd policy first second) := by
  refine ⟨fun separator => ⟨?_, ?_⟩, fun separator first second hfirst _ => ⟨?_, ?_⟩⟩
  · rintro hall rfl
    exact not_compositional_shutdown h
      (hall "echo" "shutdown" ⟨by decide, by decide⟩ ⟨by decide, by decide⟩)
  · exact fun hsep first second hfirst _ => compositional_operator h hsep hfirst second
  · intro hcondition
    by_cases hsep : separator = .newline
    · subst hsep
      exact compositional_of_harmless h hfirst (hcondition.resolve_left (· rfl))
    · exact compositional_operator h hsep hfirst second
  · intro hfollows hlaw
    by_cases hsep : separator = .newline
    · subst hsep
      exact Or.inr ((compositional_iff_harmless h hfirst hfollows).mp hlaw)
    · exact Or.inl hsep

theorem guard_compositional_iff_semicolon :
    hostPolicy.enabled = true ∧
      Compositional hostEnv "/srv" hostPolicy .semicolon "echo hi" "rm -rf /srv/t560" ∧
      Refuses hostEnv "/srv" hostPolicy ("echo hi" ++ Separator.semicolon.text ++ "rm -rf /srv/t560") := by
  have hlaw := ((guard_compositional_iff hostEnv "/srv" hostPolicy rfl).2 .semicolon "echo hi"
    "rm -rf /srv/t560" ⟨by decide, by decide⟩ ⟨by decide, by decide⟩).1 (Or.inl (by decide))
  exact ⟨rfl, hlaw, hlaw.mpr (Or.inr (by decide))⟩

/-- The deletion of the program is let through behind a newline. -/
theorem newline_hides_deletion :
    EndsOutside "echo hi" ∧ EndsOutside "rm -rf /srv/t560" ∧
      Refuses hostEnv "/srv" hostPolicy "rm -rf /srv/t560" ∧
      ¬ Refuses hostEnv "/srv" hostPolicy
        ("echo hi" ++ Separator.newline.text ++ "rm -rf /srv/t560") := by
  refine ⟨⟨by decide, by decide⟩, ⟨by decide, by decide⟩, by decide, by decide⟩

end Law

end T560.Guard
