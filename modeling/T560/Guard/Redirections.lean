import T560.Guard.Pieces

/-!
# Redirections

The shell takes a redirection out of a command before it runs it, wherever it stands. For the guard
it is a word among the others, which may stand where the guard looks for a word of the command; and
an operator with `&` or `|` in it cuts the command in two.
-/

namespace T560.Guard

open Js (isSpace trimChars startsWith)

/-! ## Redirections between two words -/

/-- The operators in front of a file name or a descriptor. -/
inductive Operator where
  | input
  | output
  | append
  | readWrite
  | hereString
  | clobber
  | duplicateInput
  | duplicateOutput
  | both
  | appendBoth
  deriving DecidableEq, Repr

def Operator.text : Operator → String
  | .input => "<"
  | .output => ">"
  | .append => ">>"
  | .readWrite => "<>"
  | .hereString => "<<<"
  | .clobber => ">|"
  | .duplicateInput => "<&"
  | .duplicateOutput => ">&"
  | .both => "&>"
  | .appendBoth => "&>>"

/-- What the splitter leaves of the operator in front of its break. -/
def Operator.front (operator : Operator) : List Char :=
  operator.text.toList.takeWhile (!isBreak ·)

/-- The break and what is behind it. -/
def Operator.rest (operator : Operator) : List Char :=
  operator.text.toList.dropWhile (!isBreak ·)

/-- A redirection as it is written, such as `>file`, `2>> file`, `2>&1` or `&>file`. -/
structure Redirection where
  descriptor : List Char
  operator : Operator
  gap : List Char
  target : Word
  digits : ∀ ch ∈ descriptor, Js.isDigit ch = true
  blanks : ∀ ch ∈ gap, ch ∈ [' ', '\t']
  /-- In front of `&>` a number is a word of its own. -/
  leading : operator = .both ∨ operator = .appendBoth → descriptor = []

def Redirection.text (r : Redirection) : String :=
  String.ofList (r.descriptor ++ r.operator.text.toList ++ r.gap ++ r.target.text)

/-- The number and the operator up to its break. -/
def Redirection.front (r : Redirection) : List Char := r.descriptor ++ r.operator.front

/-- The target, with the blanks in front of it. -/
def Redirection.back (r : Redirection) : List Char := r.gap ++ r.target.text

/-- A place in a command between two of its words. -/
structure Position where
  first : String
  second : String
  outside : EndsOutside first
  between : BetweenWords (lastPiece first) (firstPiece second)

def Position.command (p : Position) : String := p.first ++ p.second

def Position.insert (p : Position) (r : Redirection) : String :=
  p.first ++ " " ++ r.text ++ " " ++ p.second

/-- The words of the segment in front of the position. -/
def Position.wordsBefore (p : Position) : List String := tokenizeShell (lastPiece p.first)

/-- The words of the segment from the redirection on. -/
def Position.wordsFrom (p : Position) (r : Redirection) : List String :=
  pieceWords (r.text.toList ++ ' ' :: firstPiece p.second)

/-- The words of the segment are those on both sides. Behind the last word it may end in a blank
behind a backslash; the guard trims it off, but not with a redirection behind it. -/
def Position.Whole (p : Position) : Prop :=
  pieceWords (lastPiece p.first ++ firstPiece p.second) =
    p.wordsBefore ++ pieceWords (firstPiece p.second)

instance (p : Position) : Decidable p.Whole := inferInstanceAs (Decidable (_ = _))

section Keeps

variable (env : GuardEnv) (cwd : String) (policy : SelfProtectionPolicy)

/-- What a refused command must keep with a redirection among its arguments: the word next to it
for commands that are told by that word, the scripts of a shell, the place to search of `find`, and
the operands of a deletion. The words are those from the redirection on. -/
structure KeepsArguments (commandName : String) (arguments words : List String) : Prop where
  next : commandName ∈ initCommands ++ ["git"] → arguments ≠ []
  script : commandName ∈ shellCommands → Scripted env cwd policy (arguments ++ words)
  root : commandName = "find" → arguments ≠ [] ∨ OperandCovers env cwd policy (words.headD "")
  operand : commandName ∈ deleteCommands →
    (∃ operand ∈ operands false (arguments ++ words), OperandCovers env cwd policy operand) ∨
      ∀ operand ∈ operands false (arguments ++ words), resolveTokenPath env operand cwd = none

/-- What stays of a refused segment. With a break in the operator its parts are segments of their
own. Without a command in front of the position the redirection is taken for it. -/
def Position.KeepsSegment (p : Position) (r : Redirection) : Prop :=
  if r.operator.rest ≠ [] then
    RefusedCommand env cwd policy (pieceWords (lastPiece p.first ++ ' ' :: r.front)) ∨
      RefusedCommand env cwd policy
        (pieceWords (r.operator.rest.tail ++ r.back ++ ' ' :: firstPiece p.second))
  else if commandWords p.wordsBefore = [] then
    Reason env cwd policy p.wordsBefore ((p.wordsFrom r).headD "") (p.wordsFrom r).tail
  else if p.Whole then
    KeepsArguments env cwd policy (commandNameOf env ((commandWords p.wordsBefore).headD ""))
      (commandWords p.wordsBefore).tail (p.wordsFrom r)
  else RefusedCommand env cwd policy (p.wordsBefore ++ p.wordsFrom r)

/-- Another segment is refused, or the redirection keeps what the one at the position is refused
for. -/
def Position.Keeps (p : Position) (r : Redirection) : Prop :=
  (∃ segment ∈ otherSegments p.first p.second, RefusesSegment env cwd policy segment) ∨
    p.KeepsSegment env cwd policy r

end Keeps

/-! ## The words of a redirection -/

section Words

theorem isPlain_of_isDigit {ch : Char} (h : Js.isDigit ch = true) : IsPlain ch := by
  obtain ⟨hsemicolon, hpipe, hand, hback, hsingle, hdouble⟩ := ne_special (by decide) h
  refine ⟨Js.isSpace_of_isDigit h, ?_, hback, hsingle, hdouble⟩
  simp [isBreak, hsemicolon, hpipe, hand]

theorem Operator.text_eq (operator : Operator) :
    operator.text.toList = operator.front ++ operator.rest :=
  List.takeWhile_append_dropWhile.symm

/-- A break of an operator has plain characters on both sides; an operator without a break starts
with an angle bracket. -/
theorem Operator.parts (operator : Operator) :
    ((∀ ch ∈ operator.front, IsPlain ch) ∧ ∀ ch ∈ operator.rest.tail, IsPlain ch) ∧
      (operator.rest = [] ∧ (operator.front.head? = some '<' ∨ operator.front.head? = some '>') ∨
        operator.rest.head? = some '|' ∨ operator.rest.head? = some '&') := by
  cases operator <;> decide

/-- Behind its break an operator has no further one. -/
theorem Operator.rest_cases (operator : Operator) :
    operator.rest = [] ∨
      ∃ ch, operator.rest = ch :: operator.rest.tail ∧ isBreak ch = true ∧
        ∀ c ∈ operator.rest.tail, IsPlain c := by
  obtain ⟨⟨-, htail⟩, ⟨hnone, -⟩ | hpipe | hand⟩ := operator.parts
  · exact Or.inl hnone
  · exact Or.inr ⟨'|', (List.cons_head?_tail hpipe).symm, by decide, htail⟩
  · exact Or.inr ⟨'&', (List.cons_head?_tail hand).symm, by decide, htail⟩

theorem Operator.front_of_whole {operator : Operator} (h : operator.rest = []) :
    ∃ mark more, operator.front = mark :: more ∧ (mark = '<' ∨ mark = '>') := by
  obtain ⟨-, ⟨-, hless | hgreater⟩ | hpipe | hand⟩ := operator.parts
  · exact ⟨'<', operator.front.tail, (List.cons_head?_tail hless).symm, Or.inl rfl⟩
  · exact ⟨'>', operator.front.tail, (List.cons_head?_tail hgreater).symm, Or.inr rfl⟩
  · rw [h] at hpipe
    cases hpipe
  · rw [h] at hand
    cases hand

variable (r : Redirection)

theorem Redirection.plain_front : ∀ ch ∈ r.front, IsPlain ch := by
  intro ch hch
  rcases List.mem_append.mp hch with hdigit | hoperator
  · exact isPlain_of_isDigit (r.digits ch hdigit)
  · exact r.operator.parts.1.1 ch hoperator

theorem Redirection.staysInPiece_front : StaysInPiece r.front :=
  StaysInPiece.of_chars fun ch hch => Or.inl (r.plain_front ch hch)

theorem Redirection.staysInPiece_back : StaysInPiece r.back := by
  refine (StaysInPiece.of_chars fun ch hch => Or.inr ?_).append r.target.staysInPiece
  have hblanks : ∀ c ∈ [' ', '\t'], isSpace c = true := by decide
  exact hblanks ch (r.blanks ch hch)

theorem Redirection.text_eq : r.text = String.ofList (r.front ++ r.operator.rest ++ r.back) := by
  rw [text, Operator.text_eq, front, back]
  simp

/-- Without a break the redirection stays in its piece. -/
theorem Redirection.text_of_whole (h : r.operator.rest = []) :
    r.text = String.ofList (r.front ++ r.back) := by
  rw [text_eq, h, List.append_nil]

/-- The first word of such a redirection has its operator in it, behind the number. -/
def IsMarked (word : String) : Prop :=
  ∃ digits mark more, word = String.ofList (digits ++ mark :: more) ∧
    (∀ ch ∈ digits, Js.isDigit ch = true) ∧ (mark = '<' ∨ mark = '>')

variable {r}

theorem Position.wordsFrom_marked (p : Position) (h : r.operator.rest = []) :
    ∃ word words, p.wordsFrom r = word :: words ∧ IsMarked word := by
  obtain ⟨mark, more, hfront, hmark⟩ := Operator.front_of_whole h
  have hne : r.front ≠ [] := by simp [Redirection.front, hfront]
  obtain ⟨tail, words, hwords⟩ :=
    pieceWords_lead hne r.plain_front (r.back ++ ' ' :: firstPiece p.second)
  refine ⟨String.ofList (r.front ++ tail), words, ?_, r.descriptor, mark, more ++ tail, ?_, r.digits,
    hmark⟩
  · rw [wordsFrom, r.text_of_whole h, String.toList_ofList, List.append_assoc]
    exact hwords
  · simp [Redirection.front, hfront]

/-- The words behind the position are the last ones. -/
theorem Position.behind_suffix (p : Position) (h : r.operator.rest = []) :
    pieceWords (firstPiece p.second) <:+ p.wordsFrom r := by
  by_cases hblank : trimChars (firstPiece p.second) = []
  · have hnone : pieceWords (firstPiece p.second) = [] := by
      rw [pieceWords, hblank]
      rfl
    rw [hnone]
    exact List.nil_suffix
  · have hout := (r.staysInPiece_front.append r.staysInPiece_back).outside
    refine ⟨tokenizeShell (r.front ++ r.back), ?_⟩
    rw [wordsFrom, r.text_of_whole h, String.toList_ofList, pieceWords_append_blank (by decide) hout hblank]

/-- The segment at the position has the words in front and those from the redirection on. -/
theorem Position.words_insert (p : Position) (h : r.operator.rest = []) :
    pieceWords (lastPiece p.first ++ ' ' :: (r.text.toList ++ ' ' :: firstPiece p.second)) =
      p.wordsBefore ++ p.wordsFrom r := by
  obtain ⟨word, words, hwords, -⟩ := p.wordsFrom_marked h
  have hfilled : trimChars (r.text.toList ++ ' ' :: firstPiece p.second) ≠ [] := by
    intro hnil
    rw [wordsFrom, pieceWords, hnil] at hwords
    cases hwords
  exact pieceWords_append_blank (by decide) (outside_lastPiece p.outside) hfilled

end Words

/-! ## A redirection among the arguments -/

section Arguments

variable {env : GuardEnv} {cwd : String} {policy : SelfProtectionPolicy}
  {front arguments behind words : List String} {name word : String}

/-- Words that the guard looks for, with no angle bracket in them. -/
def soughtWords : List String :=
  ["", "env", "sudo", "0", "6", "poweroff", "reboot", "halt", "suspend", "hibernate", "kexec", "reset",
    "clean"]

theorem soughtWords_unmarked : ∀ other ∈ soughtWords, '<' ∉ other.toList ∧ '>' ∉ other.toList := by
  decide

theorem IsMarked.mem (h : IsMarked word) : '<' ∈ word.toList ∨ '>' ∈ word.toList := by
  obtain ⟨digits, mark, more, rfl, -, rfl | rfl⟩ := h <;> simp

/-- In lower case the word still has its angle bracket. -/
theorem IsMarked.lower (h : IsMarked word) (hlower : LowersApart env.rt) :
    '<' ∈ (env.rt.toLowerCase word).toList ∨ '>' ∈ (env.rt.toLowerCase word).toList := by
  obtain ⟨digits, mark, more, rfl, -, hmark⟩ := h
  have hmem : mark ∈ [' ', '<', '>'] := by
    rcases hmark with rfl | rfl <;> decide
  have hsplit : String.ofList (digits ++ mark :: more) =
      String.ofList digits ++ String.ofList [mark] ++ String.ofList more := by
    apply String.toList_inj.mp
    simp
  rw [hsplit, hlower mark hmem]
  rcases hmark with rfl | rfl <;> simp

theorem IsMarked.lower_ne (h : IsMarked word) (hlower : LowersApart env.rt) {other : String}
    (hother : other ∈ soughtWords) : env.rt.toLowerCase word ≠ other := by
  intro heq
  have hmem := h.lower hlower
  rw [heq] at hmem
  exact hmem.elim (soughtWords_unmarked other hother).1 (soughtWords_unmarked other hother).2

theorem IsMarked.ne (h : IsMarked word) {other : String} (hother : other ∈ soughtWords) :
    word ≠ other := by
  rintro rfl
  exact h.mem.elim (soughtWords_unmarked word hother).1 (soughtWords_unmarked word hother).2

/-- Such a word starts with a digit or with its angle bracket. -/
theorem IsMarked.head (h : IsMarked word) :
    ∃ ch more, word.toList = ch :: more ∧ (Js.isDigit ch = true ∨ ch = '<' ∨ ch = '>') := by
  obtain ⟨digits, mark, more, rfl, hdigits, hmark⟩ := h
  rw [String.toList_ofList]
  cases digits with
  | nil => exact ⟨mark, more, rfl, Or.inr hmark⟩
  | cons digit digits => exact ⟨digit, _, rfl, Or.inl (hdigits digit (List.mem_cons_self ..))⟩

/-- It is no wrapper of a command and no flag. -/
theorem IsMarked.startsCommand (h : IsMarked word) (values : List String) :
    StartsCommand values word ∧ startsWith "-" word = false := by
  obtain ⟨ch, more, hword, hch⟩ := h.head
  have hdash : startsWith "-" word = false := by
    have hne : ch ≠ '-' := by
      rintro rfl
      exact absurd hch (by decide)
    have htext : "-".toList = ['-'] := by decide
    unfold startsWith
    rw [htext, hword]
    simp [List.isPrefixOf, Ne.symm hne]
  refine ⟨⟨?_, ?_, ?_, ?_⟩, hdash⟩
  · have hstart : isNameStart ch = false := by
      rcases hch with hdigit | rfl | rfl
      · unfold isNameStart
        have hisDigit : ch.isDigit = true := by
          unfold Js.isDigit at hdigit
          unfold Char.isDigit
          simpa [UInt32.le_iff_toNat_le] using hdigit
        rw [hisDigit]
        simp
      · decide
      · decide
    unfold isEnvAssignmentToken
    rw [hword]
    dsimp only
    rw [hstart]
    rfl
  · exact h.ne (by decide)
  · exact h.ne (by decide)
  · intro hstarts
    rw [hdash] at hstarts
    cases hstarts

theorem tokens_insert (h : behind <:+ words) (front arguments : List String) (name : String) :
    front ++ name :: (arguments ++ behind) ⊆ front ++ name :: (arguments ++ words) := by
  have harguments : List.Sublist (arguments ++ behind) (arguments ++ words) :=
    (List.Sublist.refl arguments).append h.sublist
  exact ((List.Sublist.refl front).append (harguments.cons_cons name)).subset

/-- The word next to `init` and its like is the redirection, or the one that it was. -/
theorem refuses_init_insert (hlower : LowersApart env.rt) (hmark : IsMarked word)
    (hname : commandNameOf env name ∈ initCommands)
    (h : RefusesWords env cwd policy front name (arguments ++ behind)) :
    RefusesWords env cwd policy front name (arguments ++ word :: words) ↔ arguments ≠ [] := by
  rw [refusesWords_init hname] at h ⊢
  cases arguments with
  | cons next arguments => exact iff_of_true h (List.cons_ne_nil next arguments)
  | nil =>
    have hnext : ∀ other ∈ soughtWords, env.rt.toLowerCase word ≠ other :=
      fun other hother => hmark.lower_ne hlower hother
    simp only [soughtWords, List.forall_mem_cons] at hnext
    generalize commandNameOf env name = commandName at hname
    simp only [initCommands, List.mem_cons, List.not_mem_nil, or_false] at hname
    unfold NextTells
    rcases hname with rfl | rfl | rfl | rfl <;> simp [powerWords, hnext]

theorem refuses_git_insert (hlower : LowersApart env.rt) (hmark : IsMarked word)
    (hsuffix : behind <:+ word :: words) (hname : commandNameOf env name = "git")
    (h : RefusesWords env cwd policy front name (arguments ++ behind)) :
    RefusesWords env cwd policy front name (arguments ++ word :: words) ↔ arguments ≠ [] := by
  rw [refusesWords_git_iff hname] at h ⊢
  obtain ⟨hdestroys, hinside⟩ := h
  unfold GitHarms
  rw [and_iff_left hinside]
  cases arguments with
  | cons next arguments =>
    have hmore := tokens_insert hsuffix front (next :: arguments) name
    refine iff_of_true ?_ (List.cons_ne_nil next arguments)
    exact hdestroys.imp (And.imp id (hasFlag_mono hmore)) (And.imp id (hasFlag_mono hmore))
  | nil =>
    have hreset : env.rt.toLowerCase word ≠ "reset" := hmark.lower_ne hlower (by decide)
    have hclean : env.rt.toLowerCase word ≠ "clean" := hmark.lower_ne hlower (by decide)
    simp [hreset, hclean]

/-- `find` searches the place next to it, which is now the redirection or the one that it was. -/
theorem refuses_find_insert (hmark : IsMarked word) (hsuffix : behind <:+ word :: words)
    (hname : commandNameOf env name = "find")
    (h : RefusesWords env cwd policy front name (arguments ++ behind)) :
    RefusesWords env cwd policy front name (arguments ++ word :: words) ↔
      arguments ≠ [] ∨ OperandCovers env cwd policy word := by
  rw [refusesWords_find_iff hname] at h ⊢
  obtain ⟨hdelete, hcovers⟩ := h
  have hmore := tokens_insert hsuffix front arguments name
  have hany : ∃ token ∈ front ++ name :: (arguments ++ word :: words),
      env.rt.toLowerCase token = "-delete" := by
    obtain ⟨flag, hflag, htest⟩ := hdelete
    exact ⟨flag, hmore hflag, htest⟩
  unfold FindDeletes
  rw [and_iff_right hany]
  cases arguments with
  | cons next arguments => exact iff_of_true hcovers (Or.inl (List.cons_ne_nil next arguments))
  | nil =>
    have hroot : findRoot word = word := by
      have hne : word ≠ "" := hmark.ne (by decide)
      unfold findRoot
      rw [(hmark.startsCommand []).2, decide_eq_true hne]
      rfl
    simp [hroot]

/-- `mv` has the same operands, with at least as many behind them. -/
theorem refuses_move_insert (hsuffix : behind <:+ words) (hname : commandNameOf env name = "mv")
    (h : RefusesWords env cwd policy front name (arguments ++ behind)) :
    RefusesWords env cwd policy front name (arguments ++ words) := by
  rw [refusesWords_move hname] at h ⊢
  obtain ⟨operand, hoperand, hcovers⟩ := h
  have hsublist := dropLast_sublist_dropLast (operands_insert hsuffix arguments)
  exact ⟨operand, hsublist.subset hoperand, hcovers⟩

theorem refuses_delete_insert (hsuffix : behind <:+ words)
    (hname : commandNameOf env name ∈ deleteCommands)
    (h : RefusesWords env cwd policy front name (arguments ++ behind)) :
    RefusesWords env cwd policy front name (arguments ++ words) ↔
      (∃ operand ∈ operands false (arguments ++ words), OperandCovers env cwd policy operand) ∨
        ∀ operand ∈ operands false (arguments ++ words), resolveTokenPath env operand cwd = none := by
  rw [refusesWords_delete hname] at h ⊢
  unfold Deletes at h ⊢
  have hsublist := operands_insert hsuffix arguments
  constructor
  · exact Or.imp id And.left
  · rintro (hcovers | hnone)
    · exact Or.inl hcovers
    · rcases h with ⟨operand, hoperand, target, htarget, -⟩ | ⟨-, hdirectory⟩
      · rw [hnone operand (hsublist.subset hoperand)] at htarget
        cases htarget
      · exact Or.inr ⟨hnone, hdirectory⟩

/-- Commands that are refused wherever a redirection is put among their arguments. -/
theorem refuses_always_insert (hlower : LowersApart env.rt) (hsuffix : behind <:+ words)
    (hname : commandNameOf env name ∈ powerCommands ++ consoleCommands ++ ["mv"])
    (h : RefusesWords env cwd policy front name (arguments ++ behind)) :
    RefusesWords env cwd policy front name (arguments ++ words) := by
  rcases List.mem_append.mp hname with hname | hname
  · rcases List.mem_append.mp hname with hname | hname
    · exact refusesWords_power hname
    · rw [refusesWords_console hname] at h ⊢
      have hmore : arguments ++ behind ⊆ arguments ++ words :=
        ((List.Sublist.refl arguments).append hsuffix.sublist).subset
      exact mentions_mono hlower hmore h
  · exact refuses_move_insert hsuffix (List.mem_singleton.mp hname) h

/-- What a redirection among the arguments of a refused command leaves of the verdict. -/
theorem refusesWords_insert (hlower : LowersApart env.rt) (hmark : IsMarked word)
    (hsuffix : behind <:+ word :: words)
    (h : RefusesWords env cwd policy front name (arguments ++ behind)) :
    RefusesWords env cwd policy front name (arguments ++ word :: words) ↔
      KeepsArguments env cwd policy (commandNameOf env name) arguments (word :: words) := by
  -- a name is of one kind only
  have halways : ∀ c ∈ powerCommands ++ consoleCommands ++ ["mv"], c ∉ initCommands ++ ["git"] ∧
      c ∉ shellCommands ∧ c ≠ "find" ∧ c ∉ deleteCommands := by
    decide
  have hnext : ∀ c ∈ initCommands ++ ["git"], c ∉ shellCommands ∧ c ≠ "find" ∧
      c ∉ deleteCommands := by
    decide
  have hothers : ∀ c ∈ shellCommands ++ deleteCommands, c ∉ initCommands ++ ["git"] ∧ c ≠ "find" := by
    decide
  have hscript : ∀ c ∈ shellCommands, c ∉ deleteCommands := by decide
  have hfind : "find" ∉ initCommands ++ ["git"] ∧ "find" ∉ shellCommands ∧
      "find" ∉ deleteCommands := by
    decide
  have always (hname : commandNameOf env name ∈ powerCommands ++ consoleCommands ++ ["mv"]) :
      RefusesWords env cwd policy front name (arguments ++ word :: words) ↔
        KeepsArguments env cwd policy (commandNameOf env name) arguments (word :: words) := by
    obtain ⟨hinit, hshell, hroot, hdelete⟩ := halways _ hname
    exact iff_of_true (refuses_always_insert hlower hsuffix hname h)
      ⟨fun hin => (hinit hin).elim, fun hin => (hshell hin).elim, fun hin => (hroot hin).elim,
        fun hin => (hdelete hin).elim⟩
  have told (hname : commandNameOf env name ∈ initCommands ++ ["git"])
      (hrefused : RefusesWords env cwd policy front name (arguments ++ word :: words) ↔
        arguments ≠ []) :
      RefusesWords env cwd policy front name (arguments ++ word :: words) ↔
        KeepsArguments env cwd policy (commandNameOf env name) arguments (word :: words) := by
    obtain ⟨hshell, hroot, hdelete⟩ := hnext _ hname
    rw [hrefused]
    exact ⟨fun hne => ⟨fun _ => hne, fun hin => (hshell hin).elim, fun hin => (hroot hin).elim,
      fun hin => (hdelete hin).elim⟩, fun hkeeps => hkeeps.next hname⟩
  rcases kind_of_refusesWords h with hname | hname | hname | hname | hname | hname | hname | hname
  · exact always (List.mem_append_left _ (List.mem_append_left _ hname))
  · exact told (List.mem_append_left _ hname) (refuses_init_insert hlower hmark hname h)
  · exact always (List.mem_append_left _ (List.mem_append_right _ hname))
  · obtain ⟨hinit, hroot⟩ := hothers _ (List.mem_append_left _ hname)
    rw [refusesWords_shell hname]
    exact ⟨fun hrefused => ⟨fun hin => (hinit hin).elim, fun _ => hrefused,
      fun hin => (hroot hin).elim, fun hin => (hscript _ hname hin).elim⟩,
      fun hkeeps => hkeeps.script hname⟩
  · exact told (List.mem_append_right _ (List.mem_singleton.mpr hname))
      (refuses_git_insert hlower hmark hsuffix hname h)
  · rw [refuses_find_insert hmark hsuffix hname h]
    refine ⟨fun hroot => ⟨fun hin => ?_, fun hin => ?_, fun _ => hroot, fun hin => ?_⟩,
      fun hkeeps => hkeeps.root hname⟩
    · exact (hfind.1 (hname ▸ hin)).elim
    · exact (hfind.2.1 (hname ▸ hin)).elim
    · exact (hfind.2.2 (hname ▸ hin)).elim
  · exact always (List.mem_append_right _ (List.mem_singleton.mpr hname))
  · obtain ⟨hinit, hroot⟩ := hothers _ (List.mem_append_right _ hname)
    rw [refuses_delete_insert hsuffix hname h]
    exact ⟨fun hoperand => ⟨fun hin => (hinit hin).elim, fun hin => (hscript _ hin hname).elim,
      fun hin => (hroot hin).elim, fun _ => hoperand⟩, fun hkeeps => hkeeps.operand hname⟩

end Arguments

/-! ## The law -/

section Law

variable {env : GuardEnv} {cwd : String} {policy : SelfProtectionPolicy} {p : Position}
  {r : Redirection}

theorem refuses_insert_whole (henabled : policy.enabled = true) (h : r.operator.rest = []) :
    Refuses env cwd policy (p.insert r) ↔
      (∃ segment ∈ otherSegments p.first p.second, RefusesSegment env cwd policy segment) ∨
        RefusedCommand env cwd policy (p.wordsBefore ++ p.wordsFrom r) := by
  have hstays := r.staysInPiece_front.append r.staysInPiece_back
  have hwords := p.words_insert h
  rw [r.text_of_whole h, String.toList_ofList] at hwords
  rw [Position.insert, r.text_of_whole h, refuses_joined henabled p.outside hstays, hwords]

theorem refuses_insert_parted (henabled : policy.enabled = true) (h : r.operator.rest ≠ []) :
    Refuses env cwd policy (p.insert r) ↔
      (∃ segment ∈ otherSegments p.first p.second, RefusesSegment env cwd policy segment) ∨
        RefusedCommand env cwd policy (pieceWords (lastPiece p.first ++ ' ' :: r.front)) ∨
          RefusedCommand env cwd policy
            (pieceWords (r.operator.rest.tail ++ r.back ++ ' ' :: firstPiece p.second)) := by
  obtain ⟨ch, hrest, hbreak, hplain⟩ := r.operator.rest_cases.resolve_left h
  have hmore : StaysInPiece (r.operator.rest.tail ++ r.back) :=
    (StaysInPiece.of_chars fun c hc => Or.inl (hplain c hc)).append r.staysInPiece_back
  have htext : r.text = String.ofList (r.front ++ ch :: (r.operator.rest.tail ++ r.back)) := by
    conv_lhs => rw [r.text_eq, hrest]
    simp
  rw [Position.insert, htext, refuses_parted henabled p.outside r.staysInPiece_front hbreak hmore]

/-- Without a command in front of it, the redirection is taken for the command. -/
theorem refusedCommand_redirection (h : r.operator.rest = []) (hnone : commandWords p.wordsBefore = []) :
    RefusedCommand env cwd policy (p.wordsBefore ++ p.wordsFrom r) ↔
      Reason env cwd policy p.wordsBefore ((p.wordsFrom r).headD "") (p.wordsFrom r).tail := by
  obtain ⟨word, words, hwords, hmark⟩ := p.wordsFrom_marked h
  have hcommand : commandWords (p.wordsBefore ++ word :: words) = word :: words := by
    apply commandWords_skipped (skipped_of_commandWords hnone)
    intro first hfirst
    obtain rfl := Option.some.inj hfirst
    exact (hmark.startsCommand p.wordsBefore).1
  rw [hwords, refusedCommand_behind hcommand]
  rfl

/-- With a command in front of it, the redirection is one of the arguments. -/
theorem refusedCommand_arguments (hlower : LowersApart env.rt) (h : r.operator.rest = [])
    (hsome : commandWords p.wordsBefore ≠ []) {behind : List String} (hbehind : behind <:+ p.wordsFrom r)
    (hrefused : RefusedCommand env cwd policy (p.wordsBefore ++ behind)) :
    RefusedCommand env cwd policy (p.wordsBefore ++ p.wordsFrom r) ↔
      KeepsArguments env cwd policy (commandNameOf env ((commandWords p.wordsBefore).headD ""))
        (commandWords p.wordsBefore).tail (p.wordsFrom r) := by
  obtain ⟨word, words, hwords, hmark⟩ := p.wordsFrom_marked h
  obtain ⟨front, hfront⟩ := commandWords_suffix p.wordsBefore
  have hmore : ∀ more, commandWords (p.wordsBefore ++ more) = commandWords p.wordsBefore ++ more :=
    fun more => commandWords_append hsome
  cases hcommand : commandWords p.wordsBefore with
  | nil => exact (hsome hcommand).elim
  | cons name arguments =>
    have hverdict : ∀ more, RefusedCommand env cwd policy (p.wordsBefore ++ more) ↔
        RefusesWords env cwd policy front name (arguments ++ more) := by
      intro more
      have hinsert := hmore more
      have hsplit : p.wordsBefore ++ more = front ++ name :: (arguments ++ more) := by
        rw [← hfront, hcommand]
        simp
      rw [hcommand, hsplit] at hinsert
      rw [hsplit, refusesWords_iff]
      exact refusedCommand_behind hinsert
    rw [hverdict] at hrefused
    rw [hwords] at hbehind
    rw [hverdict, hwords]
    exact refusesWords_insert hlower hmark hbehind hrefused

/-- A refused command stays refused with a redirection in it exactly where another segment is
refused or the redirection keeps what the segment at the position is refused for. -/
theorem redirection_refused_iff (env : GuardEnv) (hlower : LowersApart env.rt) (cwd : String)
    (policy : SelfProtectionPolicy) (p : Position) (r : Redirection)
    (h : Refuses env cwd policy p.command) :
    Refuses env cwd policy (p.insert r) ↔ p.Keeps env cwd policy r := by
  have henabled : policy.enabled = true := by
    by_contra hdisabled
    exact not_refuses_of_disabled (by simpa using hdisabled) _ h
  unfold Position.Keeps Position.KeepsSegment
  by_cases hrest : r.operator.rest = []
  · rw [if_neg (not_not_intro hrest), refuses_insert_whole henabled hrest]
    by_cases hnone : commandWords p.wordsBefore = []
    · rw [if_pos hnone, refusedCommand_redirection hrest hnone]
    · rw [if_neg hnone]
      by_cases hwhole : p.Whole
      · rw [if_pos hwhole]
        -- if no other segment is refused, the one at the position is
        rw [Position.command, refuses_parts henabled p.outside] at h
        rcases h with hother | hsegment
        · exact iff_of_true (Or.inl hother) (Or.inl hother)
        · unfold Position.Whole at hwhole
          rw [hwhole] at hsegment
          rw [refusedCommand_arguments hlower hrest hnone (p.behind_suffix hrest) hsegment]
      · rw [if_neg hwhole]
  · rw [if_pos hrest, refuses_insert_parted henabled hrest]

/-- A position with a blank behind it. -/
def Position.atBlank (first second : String) (outside : EndsOutside first)
    (blank : (firstPiece second).head? = some ' ') : Position where
  first := first
  second := second
  outside := outside
  between := Or.inr fun ch hch => by
    obtain rfl := Option.some.inj (blank.symm.trans hch)
    decide

/-- `2>&1`. -/
def errorsToOutput : Redirection where
  descriptor := ['2']
  operator := .duplicateOutput
  gap := []
  target := .plain "1" (by decide)
  digits := by decide
  blanks := by decide
  leading := by decide

/-- `>log`. -/
def outputToLog : Redirection where
  descriptor := []
  operator := .output
  gap := []
  target := .plain "log" (by decide)
  digits := by decide
  blanks := by decide
  leading := by decide

def behindRm : Position :=
  .atBlank "rm" " -rf /srv/t560" ⟨by decide, by decide⟩ (by decide)

def behindGit : Position :=
  .atBlank "git" " reset --hard" ⟨by decide, by decide⟩ (by decide)

theorem redirection_refused_iff_delete :
    LowersApart hostEnv.rt ∧ behindRm.insert outputToLog = "rm >log  -rf /srv/t560" ∧
      Refuses hostEnv "/srv" hostPolicy behindRm.command ∧
      Refuses hostEnv "/srv" hostPolicy (behindRm.insert outputToLog) := by
  have hrefused : Refuses hostEnv "/srv" hostPolicy behindRm.command := by decide
  have hname : commandNameOf hostEnv "rm" = "rm" := commandNameOf_plain (by decide)
  have hcovers : OperandCovers hostEnv "/srv" hostPolicy "/srv/t560" :=
    ⟨⟨"/srv/t560", "/srv/t560", false⟩, by decide, _, List.mem_singleton_self _,
      by decide⟩
  have hbefore : commandWords behindRm.wordsBefore = ["rm"] := by decide
  have hfrom : behindRm.wordsFrom outputToLog = [">log", "-rf", "/srv/t560"] := by decide
  refine ⟨lowersApart_ascii, by decide, hrefused,
    (redirection_refused_iff hostEnv lowersApart_ascii "/srv" hostPolicy behindRm outputToLog
      hrefused).mpr (Or.inr ?_)⟩
  unfold Position.KeepsSegment
  rw [if_neg (by decide), hbefore, hfrom, if_neg (List.cons_ne_nil _ _),
    if_pos (by decide), List.headD_cons, hname]
  refine ⟨fun h => absurd h (by decide), fun h => absurd h (by decide),
    fun h => absurd h (by decide), fun _ => Or.inl ⟨"/srv/t560", by decide, hcovers⟩⟩

/-- The `&` of `2>&1` ends the deletion in front of its operands; the file name `log` is taken for
the subcommand of `git`. -/
theorem redirection_hides_command :
    behindRm.insert errorsToOutput = "rm 2>&1  -rf /srv/t560" ∧
      Refuses hostEnv "/srv" hostPolicy behindRm.command ∧
      ¬ Refuses hostEnv "/srv" hostPolicy (behindRm.insert errorsToOutput) ∧
      behindGit.insert outputToLog = "git >log  reset --hard" ∧
      Refuses hostEnv "/srv/t560" hostPolicy behindGit.command ∧
      ¬ Refuses hostEnv "/srv/t560" hostPolicy (behindGit.insert outputToLog) := by
  refine ⟨by decide, by decide, by decide, by decide,
    by decide, by decide⟩

end Law

end T560.Guard
