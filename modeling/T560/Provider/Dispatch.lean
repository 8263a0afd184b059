import T560.Browser.Params
import T560.Foundation.Pattern
import T560.Js.Ascii
import T560.Provider.Ledger

/-!
# Which command a call runs, and what the run takes it for

The tool adapter resolves alias names and repairs the arguments of a call before the `exec`
tool runs its command; the completion signals read the name and the arguments as the provider
sent them.
-/

namespace T560.Provider

open Browser (normalizeToolName normalizeToolArgs)
open Foundation (Pattern isWordChar codeUnits)
open Js (Value Runtime JsError trim isSpace ok_bind)
open Js.Value (coalesce trimmedText textOrEmpty)

section Patterns

/-- One or more white space characters. -/
def spaces : Pattern := .seq (.char isSpace) (.run isSpace none)

/-- One word of each list, with white space between them. -/
def twoWords (first second : List String) : Pattern :=
  .concat [.boundary, .oneOf (first.map .literal), spaces, .oneOf (second.map .literal), .boundary]

def mutationPatterns : List Pattern :=
  [.word ["rm", "rmdir", "mv", "cp", "mkdir", "touch", "chmod", "chown", "ln"],
    .word ["sed", "awk", "perl"],
    twoWords ["npm", "pnpm", "yarn"]
      ["install", "remove", "add", "uninstall", "update", "upgrade", "run"],
    twoWords ["git"] ["add", "commit", "push", "checkout", "switch", "merge", "rebase", "reset"],
    .word ["docker", "kubectl", "systemctl"],
    .seq (.literal ">") (.opt (.literal ">"))]

/-- In the second pattern the class that excludes nothing takes any code unit, and the bracket
behind it may repeat. -/
def verificationPatterns : List Pattern :=
  [.word ["test", "stat", "ls", "find", "rg", "grep", "cat", "head", "tail", "wc", "du", "md5sum",
      "sha256sum"],
    .concat [.literal "[", .run isSpace none, .literal "!", .char (codeUnits · == 1),
      .run (· == ']') none, .literal "-e"],
    .concat [.literal "[", .run isSpace none, .literal "-e"]]

variable (rt : Runtime)

def looksLikeCommand (patterns : List Pattern) (command : String) : Bool :=
  let text := rt.toLowerCase command
  trim text ≠ "" && patterns.any (·.test text)

def looksLikeStateMutationCommand (command : String) : Bool :=
  looksLikeCommand rt mutationPatterns command

def looksLikeStateVerificationCommand (command : String) : Bool :=
  looksLikeCommand rt verificationPatterns command

/-- The surroundings of a run with the command patterns of the source. -/
def sourceEnv (parse : String → Option Value) (execution : Nat → Execution) : ToolEnv where
  rt := rt
  parse := parse
  execution := execution
  looksLikeStateMutationCommand := looksLikeStateMutationCommand rt
  looksLikeStateVerificationCommand := looksLikeStateVerificationCommand rt

theorem sourceEnv_mutation (parse : String → Option Value) (execution : Nat → Execution) :
    (sourceEnv rt parse execution).looksLikeStateMutationCommand =
      looksLikeStateMutationCommand rt := by simp only [sourceEnv]

end Patterns

section Dispatch
variable (rt : Runtime)

/-- The tool a call resolves to, by the names of the tools. -/
def resolveTool (tools : List String) (name : String) : Option String :=
  (tools.find? fun candidate => normalizeToolName rt candidate = normalizeToolName rt name).or
    (tools.find? (· = name))

/-- The command the `exec` tool runs for a call; it refuses an empty one. -/
def dispatchedCommand (tools : List String) (name : String) (args : Value) :
    Except JsError (Option String) := do
  if resolveTool rt tools name = some "exec" then
    let params ← normalizeToolArgs rt "exec" args
    let command ← trimmedText rt [params.get? "command"]
    return if command = "" then none else some command
  else return none

/-- The keys a command is looked for under when there is no `command`. -/
def commandKeys : List String := ["cmd", "bash", "shell", "script", "run", "input"]

/-- What the arguments of a call give as its command. -/
inductive GivenCommand (rt : Runtime) : Value → String → Prop where
  | plain (command : String) : GivenCommand rt (.str command) command
  | own {args v : Value} {command : String} (h : args.get? "command" = some v) (hv : v ≠ .null)
    (ht : v.text rt = .ok command) : GivenCommand rt args command
  | elsewhere {args : Value} {command : String} (h : args.get? "command" = none)
    (hk : coalesce (commandKeys.map args.get?) = some (.str command)) : GivenCommand rt args command

/-- The run reads a command from the arguments: `command` or `cmd` is there and not null. -/
def SeenByRun (args : Value) : Prop :=
  (coalesce [args.get? "command", args.get? "cmd"]).isSome = true

end Dispatch

section Trim
variable (rt : Runtime)

/-- The code points of white space. -/
def spaceCodes : List Nat :=
  [9, 10, 11, 12, 13, 0x20, 0xA0, 0x1680, 0x2000, 0x2001, 0x2002, 0x2003, 0x2004, 0x2005, 0x2006,
    0x2007, 0x2008, 0x2009, 0x200A, 0x2028, 0x2029, 0x202F, 0x205F, 0x3000, 0xFEFF]

theorem mem_spaceCodes {c : Char} (h : isSpace c = true) : c.toNat ∈ spaceCodes := by
  simp only [isSpace, Bool.or_eq_true, Bool.and_eq_true, decide_eq_true_eq, beq_iff_eq] at h
  simp only [spaceCodes, List.mem_cons, List.not_mem_nil, or_false]
  omega

/-- What holds of the characters of the codes holds of white space. -/
theorem forall_space {p : Char → Bool} (h : (spaceCodes.all fun n => p (Char.ofNat n)) = true)
    {c : Char} (hc : isSpace c = true) : p c = true := by
  have := List.all_eq_true.mp h c.toNat (mem_spaceCodes hc)
  rwa [Char.ofNat_toNat] at this

/-- A pattern that no white space begins or ends. -/
def ignoresMargins (r : Pattern) : Bool :=
  !r.nullable && spaceCodes.all fun n =>
    !isWordChar (Char.ofNat n) && !r.mayStart (Char.ofNat n) && !r.mayEnd (Char.ofNat n)

theorem exists_margins (cs : List Char) : ∃ front back,
    cs = front ++ (Js.trimChars cs ++ back) ∧ (∀ c ∈ front, isSpace c = true) ∧
      ∀ c ∈ back, isSpace c = true := by
  refine ⟨cs.takeWhile isSpace, (cs.dropWhile isSpace).rtakeWhile isSpace, ?_, ?_, ?_⟩
  · rw [Js.trimChars, List.rdropWhile_append_rtakeWhile, List.takeWhile_append_dropWhile]
  · exact fun c hc => List.mem_takeWhile_imp hc
  · exact fun c hc => List.mem_rtakeWhile_imp hc

theorem test_trim {r : Pattern} (h : ignoresMargins r = true) (s : String) :
    r.test (trim s) = r.test s := by
  obtain ⟨hr, hall⟩ := Bool.and_eq_true_iff.mp h
  have hspace : ∀ c, isSpace c = true →
      isWordChar c = false ∧ r.mayStart c = false ∧ r.mayEnd c = false := by
    intro c hc
    have := forall_space (p := fun c => !isWordChar c && !r.mayStart c && !r.mayEnd c) hall hc
    simpa [and_assoc] using this
  obtain ⟨front, back, hs, hfront, hback⟩ := exists_margins s.toList
  rw [Pattern.test, Pattern.test, Js.toList_trim]
  conv_rhs => rw [hs]
  exact (Pattern.search_surround (by simpa using hr) _ (fun c hc => (hspace c (hfront c hc)).1)
    (fun c hc => (hspace c (hback c hc)).1) (fun c hc => (hspace c (hfront c hc)).2.1)
    (fun c hc => (hspace c (hback c hc)).2.2)).symm

theorem mutationPatterns_ignoreMargins : mutationPatterns.all ignoresMargins = true := by
  decide

theorem any_test_trim {patterns : List Pattern} (h : patterns.all ignoresMargins = true)
    (s : String) : patterns.any (·.test (trim s)) = patterns.any (·.test s) := by
  induction patterns with
  | nil => rw [List.any_nil, List.any_nil]
  | cons r patterns ih =>
    obtain ⟨hr, hrest⟩ := Bool.and_eq_true_iff.mp (by simpa only [List.all_cons] using h)
    rw [List.any_cons, List.any_cons, test_trim hr, ih hrest]

/-- White space around a command does not change what it looks like. -/
theorem looksLikeStateMutationCommand_trim (command : String) :
    looksLikeStateMutationCommand rt (trim command) = looksLikeStateMutationCommand rt command := by
  unfold looksLikeStateMutationCommand looksLikeCommand
  dsimp only
  rw [← rt.trim_lower, Js.trim_trim, any_test_trim mutationPatterns_ignoreMargins]

theorem looksLikeStateMutationCommand_empty : looksLikeStateMutationCommand rt "" = false := by
  have hblank : trim "" = "" := by decide
  simp only [looksLikeStateMutationCommand, looksLikeCommand, rt.toLowerCase_empty, hblank, ne_eq,
    not_true_eq_false, decide_false, Bool.false_and]

end Trim

section Args
variable {rt : Runtime}

theorem get?_erase (v : Value) {key other : String} (h : other ≠ key) :
    (v.erase key).get? other = v.get? other := by
  cases v with
  | obj fields =>
    change (fields.filter fun f => f.1 != key).lookup other = fields.lookup other
    induction fields with
    | nil => rfl
    | cons f fields ih =>
      obtain ⟨k, x⟩ := f
      rw [List.filter_cons, Value.lookup_cons_if]
      by_cases hk : k = key
      · subst hk
        simpa [h] using ih
      · rw [if_pos (by simpa using hk), Value.lookup_cons_if, ih]
  | _ => rfl

theorem get?_set_ne (v : Value) {key other : String} (x : Value) (h : other ≠ key) :
    (v.set key x).get? other = v.get? other := by
  by_cases hr : v.isRecord = true
  · rw [Value.get?_set hr, if_neg h]
  · cases v with
    | obj fields => exact absurd rfl hr
    | _ => rfl

theorem renameField_get? {old new key : String} (record : Value) (ho : key ≠ old) (hn : key ≠ new) :
    (Browser.renameField old new record).get? key = record.get? key := by
  unfold Browser.renameField
  split
  · rw [get?_erase _ ho, get?_set_ne _ _ hn]
  · rfl

theorem fillText_get? {key other : String} (fallback : List (Option Value)) (record : Value)
    (h : other ≠ key) : (Browser.fillText key fallback record).get? other = record.get? other := by
  unfold Browser.fillText
  split
  · exact get?_set_ne _ _ h
  · rfl

/-- The value the repaired arguments hold under `command`. -/
def repairedCommand (args : Value) : Option Value :=
  match args.get? "command" with
  | some v => some v
  | none => (Value.str? (coalesce (commandKeys.map args.get?))).map .str

theorem isRecord_renameField {old new : String} {record : Value} (h : record.isRecord = true) :
    (Browser.renameField old new record).isRecord = true := by
  unfold Browser.renameField
  split
  · cases record with
    | obj fields =>
      unfold Value.set
      dsimp only
      split
      · rfl
      · rfl
    | _ => cases h
  · exact h

theorem normalizeExecArgs_command {record : Value} (h : record.isRecord = true) :
    (Browser.normalizeExecArgs record).get? "command" = repairedCommand record := by
  have hfill : (Browser.fillText "command" (commandKeys.map record.get?) record).get? "command" =
      repairedCommand record := by
    unfold Browser.fillText repairedCommand
    cases hc : record.get? "command" with
    | some v => exact hc
    | none =>
      cases hk : Value.str? (coalesce (commandKeys.map record.get?)) with
      | none => exact hc
      | some s =>
        rw [Value.get?_set h, if_pos rfl]
        rfl
  rw [← hfill]
  unfold Browser.normalizeExecArgs
  dsimp only
  split
  · rw [fillText_get? _ _ (by decide)]
    rfl
  · rfl

/-- The elements of an array have no key that a command is looked for under. -/
theorem lookup_indexedFields {key : String} (hkey : ∃ c ∈ key.toList, c.isDigit = false)
    (xs : List Value) : (Browser.indexedFields xs).lookup key = none := by
  rw [List.lookup_eq_none_iff]
  rintro ⟨k, x⟩ hx
  obtain ⟨y, -, heq⟩ := List.mem_map.mp hx
  obtain ⟨c, hc, hdigit⟩ := hkey
  rw [bne_iff_ne]
  rintro rfl
  obtain ⟨rfl, -⟩ := Prod.mk.inj heq
  have hmem : c ∈ Nat.toDigits 10 y.2 := by
    simpa [Nat.toString_eq_repr, Nat.repr] using hc
  rw [Nat.isDigit_of_mem_toDigits (by decide) (by decide) hmem] at hdigit
  cases hdigit

theorem normalizeToolName_exec (rt : Runtime) : normalizeToolName rt "exec" = "exec" := by
  have hlower : rt.toLowerCase (trim "exec") = "exec" := by
    rw [rt.lower_ascii _ (by decide)]
    decide
  rw [normalizeToolName, hlower]
  rfl

/-- Only the keys of a command matter. -/
theorem repairedCommand_congr {a b : Value}
    (h : ∀ key ∈ "command" :: commandKeys, a.get? key = b.get? key) :
    repairedCommand a = repairedCommand b := by
  have hkeys : commandKeys.map a.get? = commandKeys.map b.get? :=
    List.map_congr_left fun key hkey => h key (by simp [hkey])
  rw [repairedCommand, repairedCommand, h "command" (by simp), hkeys]

theorem normalizeRecord_exec {record : Value} (h : record.isRecord = true) :
    ∃ params, normalizeToolArgs.normalizeRecord rt "exec" record = .ok params ∧
      params.get? "command" = repairedCommand record := by
  refine ⟨_, rfl, ?_⟩
  rw [normalizeExecArgs_command (isRecord_renameField (isRecord_renameField (isRecord_renameField h)))]
  have hother : ∀ key ∈ "command" :: commandKeys, key ∉ ["file_path", "path", "old_string",
      "oldText", "new_string", "newText"] := by decide
  refine repairedCommand_congr fun key hkey => ?_
  have hne := hother key hkey
  simp only [List.mem_cons, not_or] at hne
  obtain ⟨h1, h2, h3, h4, h5, h6, -⟩ := hne
  rw [renameField_get? _ h5 h6, renameField_get? _ h3 h4, renameField_get? _ h1 h2]

/-- What the adapter makes of the arguments of an `exec` call. -/
theorem normalizeToolArgs_exec (rt : Runtime) (args : Value) :
    ∃ params, normalizeToolArgs rt "exec" args = .ok params ∧
      params.get? "command" = match args with
        | .str s => some (.str s)
        | args => repairedCommand args := by
  unfold normalizeToolArgs
  rw [normalizeToolName_exec]
  cases args with
  | null => exact ⟨_, rfl, rfl⟩
  | bool b => exact ⟨_, rfl, rfl⟩
  | num n => exact ⟨_, rfl, rfl⟩
  | str s => exact ⟨_, rfl, rfl⟩
  | arr xs =>
    obtain ⟨params, hparams, hcommand⟩ :=
      @normalizeRecord_exec rt (.obj (Browser.indexedFields xs)) rfl
    refine ⟨params, hparams, hcommand.trans (repairedCommand_congr fun key hkey => ?_)⟩
    have hletter : ("command" :: commandKeys).all (fun key => key.toList.any (!·.isDigit)) = true := by
      decide
    obtain ⟨c, hc, hdigit⟩ := List.any_eq_true.mp (List.all_eq_true.mp hletter key hkey)
    exact lookup_indexedFields ⟨c, hc, by simpa using hdigit⟩ xs
  | obj fields => exact normalizeRecord_exec rfl

theorem text_str (s : String) : (Value.str s).text rt = .ok s := by simp [Value.text]

/-- The repaired command, when it is not null, is the one the arguments give. -/
theorem repairedCommand_given {args : Value} (hargs : ∀ s, args ≠ .str s) (command : String) :
    (∃ v, repairedCommand args = some v ∧ v ≠ .null ∧ v.text rt = .ok command) ↔
      GivenCommand rt args command := by
  constructor
  · rintro ⟨v, hv, hne, ht⟩
    unfold repairedCommand at hv
    split at hv
    · rename_i w hw
      cases hv
      exact .own hw hne ht
    · rename_i hw
      obtain ⟨s, hs, rfl⟩ := Option.map_eq_some_iff.mp hv
      rw [text_str] at ht
      cases ht
      refine .elsewhere hw ?_
      unfold Value.str? at hs
      split at hs
      · rename_i hc
        cases hs
        exact hc
      · cases hs
  · intro h
    cases h with
    | plain => exact absurd rfl (hargs command)
    | own hv hne ht => exact ⟨_, by rw [repairedCommand, hv], hne, ht⟩
    | elsewhere hv hk =>
      refine ⟨.str command, ?_, by rintro ⟨⟩, text_str command⟩
      rw [repairedCommand, hv, hk]
      rfl

end Args

section Agreement
variable {rt : Runtime} {tools : List String} {name : String} {args : Value} {command : String}

theorem textOrEmpty_some {v : Value} (h : v ≠ .null) : textOrEmpty rt (some v) = v.text rt := by
  cases v with
  | null => exact absurd rfl h
  | _ => rfl

/-- A text that is not blank comes from a value that is there and not null. -/
theorem textOrEmpty_nonblank {v : Option Value} {text : String} (hne : trim text ≠ "") :
    textOrEmpty rt v = .ok text ↔ ∃ w, v = some w ∧ w ≠ .null ∧ w.text rt = .ok text := by
  constructor
  · intro h
    cases v with
    | none =>
      cases h
      exact absurd (by decide) hne
    | some w =>
      by_cases hnull : w = .null
      · subst hnull
        cases h
        exact absurd (by decide) hne
      · exact ⟨w, rfl, hnull, (textOrEmpty_some hnull).symm.trans h⟩
  · rintro ⟨w, rfl, hnull, ht⟩
    exact (textOrEmpty_some hnull).trans ht

/-- The repaired arguments of an `exec` call hold the command that was given. -/
theorem exists_params_given (rt : Runtime) (args : Value) :
    ∃ params, normalizeToolArgs rt "exec" args = .ok params ∧ ∀ text,
      (∃ v, params.get? "command" = some v ∧ v ≠ .null ∧ v.text rt = .ok text) ↔
        GivenCommand rt args text := by
  obtain ⟨params, hparams, hcommand⟩ := normalizeToolArgs_exec rt args
  refine ⟨params, hparams, fun text => ?_⟩
  rw [hcommand]
  cases args with
  | str s =>
    constructor
    · rintro ⟨v, hv, -, ht⟩
      cases hv
      rw [text_str] at ht
      cases ht
      exact .plain _
    · intro h
      cases h with
      | plain => exact ⟨_, rfl, by rintro ⟨⟩, text_str _⟩
      | own h => cases h
      | elsewhere _ hk => cases hk
  | _ => exact repairedCommand_given (by rintro s ⟨⟩) text

/-- The command a call runs is the trimmed one its arguments give. -/
theorem dispatchedCommand_iff {c : String} :
    dispatchedCommand rt tools name args = .ok (some c) ↔
      resolveTool rt tools name = some "exec" ∧ c ≠ "" ∧
        ∃ command, GivenCommand rt args command ∧ trim command = c := by
  by_cases hres : resolveTool rt tools name = some "exec"
  · obtain ⟨params, hparams, hgiven⟩ := exists_params_given rt args
    have hrun : dispatchedCommand rt tools name args =
        (textOrEmpty rt (params.get? "command")).map fun text =>
          if trim text = "" then none else some (trim text) := by
      rw [dispatchedCommand, if_pos hres, hparams, ok_bind, Value.trimmedText_single]
      cases textOrEmpty rt (params.get? "command") with
      | error e => rfl
      | ok text => rfl
    rw [hrun]
    constructor
    · intro h
      cases ht : textOrEmpty rt (params.get? "command") with
      | error e =>
        rw [ht] at h
        cases h
      | ok text =>
        rw [ht] at h
        have h' : (if trim text = "" then none else some (trim text)) = some c := Except.ok.inj h
        split at h'
        · cases h'
        · rename_i hne
          cases h'
          exact ⟨hres, hne, text, (hgiven text).mp ((textOrEmpty_nonblank hne).mp ht), rfl⟩
    · rintro ⟨-, hne, text, htext, rfl⟩
      rw [(textOrEmpty_nonblank hne).mpr ((hgiven text).mpr htext)]
      change Except.ok (if trim text = "" then none else some (trim text)) = _
      rw [if_neg hne]
  · constructor
    · intro h
      rw [dispatchedCommand, if_neg hres] at h
      cases h
    · exact fun h => absurd h.1 hres

theorem normalizeName_of_exec (h : resolveTool rt tools name = some "exec") :
    normalizeName rt name = "exec" ∨ normalizeName rt name = "bash" := by
  have hname : normalizeToolName rt name = "exec" := by
    rcases Option.or_eq_some_iff.mp h with h | ⟨-, h⟩
    · have := List.find?_some h
      rw [decide_eq_true_iff, normalizeToolName_exec] at this
      exact this.symm
    · have := List.find?_some h
      rw [← of_decide_eq_true this, normalizeToolName_exec]
  unfold normalizeToolName at hname
  dsimp only at hname
  change (Browser.toolNameAliases.lookup (normalizeName rt name)).getD (normalizeName rt name) =
    "exec" at hname
  by_cases hbash : normalizeName rt name = "bash"
  · exact .inr hbash
  · refine .inl ?_
    by_cases hpatch : normalizeName rt name = "apply-patch"
    · rw [hpatch] at hname
      exact absurd hname (by decide)
    · have hnone : Browser.toolNameAliases.lookup (normalizeName rt name) = none := by
        rw [List.lookup_eq_none_iff]
        simp [Browser.toolNameAliases, hbash, hpatch]
      rw [hnone] at hname
      exact hname

/-- What the run reads as the command. -/
theorem commandOf_given (env : ToolEnv) (h : GivenCommand env.rt args command) :
    (SeenByRun args ∧ commandOf env (toToolArgsRecord args) = .ok command) ∨
      ¬ SeenByRun args ∧ commandOf env (toToolArgsRecord args) = .ok "" := by
  have hrecord : ∀ {v : Value}, args.get? "command" = some v ∨
      coalesce (commandKeys.map args.get?) = some v → toToolArgsRecord args = args := by
    intro v hv
    cases args with
    | obj fields => rfl
    | _ => rcases hv with hv | hv <;> cases hv
  cases h with
  | plain => exact .inr ⟨by rintro ⟨⟩, rfl⟩
  | @own _ v _ hv hne ht =>
    have hread : coalesce [args.get? "command", args.get? "cmd"] = some v := by
      rw [hv]
      cases v with
      | null => exact absurd rfl hne
      | _ => rfl
    refine .inl ⟨by rw [SeenByRun, hread]; rfl, ?_⟩
    rw [hrecord (.inl hv), commandOf, hread, textOrEmpty_some hne, ht]
  | elsewhere hv hk =>
    rw [commandOf, hrecord (.inr hk), SeenByRun, hv]
    -- `cmd` is the first of the other keys, and the only one the run looks at.
    rw [commandKeys, List.map_cons] at hk
    cases hc : args.get? "cmd" with
    | none => exact .inr ⟨by rintro ⟨⟩, rfl⟩
    | some v =>
      rw [hc] at hk
      cases v with
      | null => exact .inr ⟨by rintro ⟨⟩, rfl⟩
      | str s =>
        cases hk
        exact .inl ⟨rfl, @text_str env.rt command⟩
      | _ => cases hk

theorem trim_of_mutation (h : looksLikeStateMutationCommand rt command = true) :
    trim command ≠ "" := by
  intro hblank
  have htrim := looksLikeStateMutationCommand_trim rt command
  rw [hblank, looksLikeStateMutationCommand_empty, h] at htrim
  cases htrim

theorem mutates_exec (env : ToolEnv) (record : Value) :
    toolCallMutatesState env "exec" record =
      (commandOf env record).map env.looksLikeStateMutationCommand := by
  cases h : commandOf env record with
  | error e => simp [toolCallMutatesState, h]; rfl
  | ok c => simp [toolCallMutatesState, h]; rfl

/-- The run takes a call for a change exactly when its name is no alias and its arguments hold
the command where the run reads it. -/
theorem classification_agrees_iff (rt : Runtime) (parse : String → Option Value)
    (execution : Nat → Execution) (tools : List String) (name : String) (args : Value) :
    (∀ c, dispatchedCommand rt tools name args = .ok (some c) →
      looksLikeStateMutationCommand rt c = true →
      toolCallMutatesState (sourceEnv rt parse execution) (normalizeName rt name)
        (toToolArgsRecord args) = .ok true) ↔
    (resolveTool rt tools name = some "exec" → ∀ command, GivenCommand rt args command →
      looksLikeStateMutationCommand rt command = true →
      normalizeName rt name ≠ "bash" ∧ SeenByRun args) := by
  constructor
  · intro h hres command hgiven hmutates
    have hrun : dispatchedCommand rt tools name args = .ok (some (trim command)) :=
      dispatchedCommand_iff.mpr ⟨hres, trim_of_mutation hmutates, command, hgiven, rfl⟩
    have hclass := h _ hrun (by rw [looksLikeStateMutationCommand_trim]; exact hmutates)
    rcases normalizeName_of_exec hres with hname | hname
    · refine ⟨by rw [hname]; decide, ?_⟩
      rw [hname] at hclass
      rcases commandOf_given (sourceEnv rt parse execution) hgiven with ⟨hseen, -⟩ | ⟨-, hread⟩
      · exact hseen
      · rw [mutates_exec, hread, sourceEnv_mutation, Except.map,
          looksLikeStateMutationCommand_empty] at hclass
        cases hclass
    · rw [hname] at hclass
      cases hclass
  · intro h c hrun hmutates
    obtain ⟨hres, -, command, hgiven, rfl⟩ := dispatchedCommand_iff.mp hrun
    rw [looksLikeStateMutationCommand_trim] at hmutates
    obtain ⟨halias, hseen⟩ := h hres command hgiven hmutates
    rcases normalizeName_of_exec hres with hname | hname
    · rw [hname, mutates_exec]
      rcases commandOf_given (sourceEnv rt parse execution) hgiven with ⟨-, hread⟩ | ⟨hunseen, -⟩
      · rw [hread, sourceEnv_mutation, Except.map, hmutates]
      · exact absurd hseen hunseen
    · exact absurd hname halias

/-- A deletion under the alias of `exec` runs, and the run takes it for no change. -/
theorem bash_deletion_not_classified :
    dispatchedCommand Js.asciiRuntime ["exec"] "bash" (.obj [("command", .str "rm -rf build")]) =
        .ok (some "rm -rf build") ∧
      looksLikeStateMutationCommand Js.asciiRuntime "rm -rf build" = true ∧
      toolCallMutatesState (sourceEnv Js.asciiRuntime (fun _ => none) fun _ => ⟨none, .ok ⟨false, ""⟩, []⟩)
        (normalizeName Js.asciiRuntime "bash")
        (toToolArgsRecord (.obj [("command", .str "rm -rf build")])) = .ok false := by
  refine ⟨by rfl, by decide, by rfl⟩

end Agreement

end T560.Provider
