import T560.Guard.Composition

/-!
# The verdict on one segment

What the guard looks at in a segment: the word of the command, the words behind it, and for `git`
and `find` the flags among all words. Whether it refuses the segment is told by these alone.
-/

namespace T560.Guard

open Js (startsWith Path.resolve Path.basename)

section Throws

variable {x y : Except String Unit} {c : Prop} [Decidable c]

theorem throws_error (message : String) : Throws (.error message) := ⟨message, rfl⟩

theorem not_throws_ok : ¬ Throws (.ok ()) := by
  rintro ⟨message, h⟩
  cases h

theorem throws_bind : Throws (x >>= fun _ => y) ↔ Throws x ∨ Throws y := by
  cases x with
  | error message => exact ⟨fun _ => Or.inl (throws_error message), fun _ => throws_error message⟩
  | ok done =>
    exact ⟨Or.inr, fun h => h.elim (fun herror => (not_throws_ok herror).elim) id⟩

theorem throws_if : Throws (if c then x else .ok ()) ↔ c ∧ Throws x := by
  by_cases hc : c <;> simp [hc, not_throws_ok]

/-- A check that is made under a condition, with more checks behind it. -/
theorem throws_if_bind :
    Throws (if c then x >>= fun _ => y else y) ↔ (c ∧ Throws x) ∨ Throws y := by
  by_cases hc : c <;> simp [hc, throws_bind]

end Throws

variable {env : GuardEnv} {cwd : String} {policy : SelfProtectionPolicy}

section Paths

theorem throws_blockIfTargetCoversProtected {command : String} {targets : List TokenPath} :
    Throws (blockIfTargetCoversProtected env policy command targets) ↔
      ∃ target ∈ targets, ∃ entry ∈ policy.protectedPaths, covers env target entry = true := by
  unfold blockIfTargetCoversProtected
  rw [throws_forM]
  simp only [throws_forM, throws_if, throws_error, and_true]

theorem throws_blockIfCwdCoversProtected {operation : String} :
    Throws (blockIfCwdCoversProtected env cwd policy operation) ↔
      ∃ entry ∈ policy.protectedPaths,
        isPathInside env (Path.resolve env.processCwd [cwd]) entry.absolute = true := by
  unfold blockIfCwdCoversProtected
  simp only [throws_forM, throws_if, throws_error, and_true]

/-- The destructive git commands. -/
def gitDestroys (env : GuardEnv) (tokens : List String) (commandIndex : Nat) : Prop :=
  env.rt.toLowerCase (tokens.getD (commandIndex + 1) "") = "reset" ∧
      hasFlag tokens "--hard" none = true ∨
    env.rt.toLowerCase (tokens.getD (commandIndex + 1) "") = "clean" ∧
      hasFlag tokens "--force" (some "-f") = true

theorem throws_assertGitCommandAllowed {tokens : List String} {commandIndex : Nat} :
    Throws (assertGitCommandAllowed env cwd policy tokens commandIndex) ↔
      gitDestroys env tokens commandIndex ∧ ∃ entry ∈ policy.protectedPaths,
        isPathInside env (Path.resolve env.processCwd [cwd]) entry.absolute = true := by
  unfold assertGitCommandAllowed gitDestroys
  dsimp only
  rw [throws_if_bind]
  change _ ∨ Throws (if _ then _ else .ok ()) ↔ _
  rw [throws_if, throws_blockIfCwdCoversProtected, throws_blockIfCwdCoversProtected, or_and_right]

/-- The paths that a command deletes or moves away. -/
def pathTargets (env : GuardEnv) (cwd commandName : String) (tokens : List String)
    (commandIndex : Nat) : List TokenPath :=
  if commandName = "find" then
    if tokens.any (fun t => env.rt.toLowerCase t = "-delete") then
      let next := tokens.getD (commandIndex + 1) ""
      (resolveTokenPath env (if next ≠ "" && !startsWith "-" next then next else ".") cwd).toList
    else []
  else if commandName = "mv" then parseMoveSources env tokens commandIndex cwd
  else if commandName ∈ deleteCommands then parseDeleteTargets env tokens commandIndex cwd
  else []

theorem throws_assertPathsAllowed {segment commandName : String} {tokens : List String}
    {commandIndex : Nat} :
    Throws (assertPathsAllowed env cwd policy segment commandName tokens commandIndex) ↔
      (commandName = "git" ∧ gitDestroys env tokens commandIndex ∧
        ∃ entry ∈ policy.protectedPaths,
          isPathInside env (Path.resolve env.processCwd [cwd]) entry.absolute = true) ∨
      ∃ target ∈ pathTargets env cwd commandName tokens commandIndex,
        ∃ entry ∈ policy.protectedPaths, covers env target entry = true := by
  unfold assertPathsAllowed pathTargets
  by_cases hgit : commandName = "git"
  · subst hgit
    rw [if_pos rfl, throws_assertGitCommandAllowed]
    simp [deleteCommands]
  · rw [if_neg hgit]
    by_cases hfind : commandName = "find"
    · subst hfind
      by_cases hdelete : tokens.any (fun t => env.rt.toLowerCase t = "-delete") = true
      · simp only [hdelete, decide_true, Bool.and_self, if_true]
        rw [throws_blockIfTargetCoversProtected]
        simp
      · simp [hdelete, deleteCommands, not_throws_ok]
    · simp only [hfind, hgit, decide_false, Bool.false_and, if_false, Bool.false_eq_true, false_and,
        false_or]
      split
      · rw [throws_blockIfTargetCoversProtected]
      · split
        · rw [throws_blockIfTargetCoversProtected]
        · simp [not_throws_ok]

end Paths

section Segment

theorem not_refuses_of_disabled (h : policy.enabled = false) (command : String) :
    ¬ Refuses env cwd policy command := by
  unfold Refuses assertExecCommandAllowed assertExecFuel
  rw [h]
  exact not_throws_ok

variable (env) in
def commandNameOf (name : String) : String := env.rt.toLowerCase (Path.basename name)

/-- A name in lower case without slashes is the name of its command. -/
theorem commandNameOf_eq {name : String} (hbase : Path.basename name = name)
    (hascii : name.toList.all Js.isAscii = true)
    (hlower : String.ofList (name.toList.map Char.toLower) = name) : commandNameOf env name = name := by
  rw [commandNameOf, hbase, env.rt.lower_ascii name hascii, hlower]

/-- The verdict on the words of a segment, with the command behind the given ones. -/
def RefusesWords (env : GuardEnv) (cwd : String) (policy : SelfProtectionPolicy)
    (front : List String) (name : String) (arguments : List String) : Prop :=
  isPowerControl (commandNameOf env name) (env.rt.toLowerCase (arguments.headD ""))
      (env.rt.toLowerCase (" ".intercalate arguments)) = true ∨
    (commandNameOf env name ∈ ["bash", "sh", "zsh"] ∧
      ∃ script ∈ inlineScripts arguments, Refuses env cwd policy script) ∨
    (commandNameOf env name = "git" ∧ gitDestroys env (front ++ name :: arguments) front.length ∧
      ∃ entry ∈ policy.protectedPaths,
        isPathInside env (Path.resolve env.processCwd [cwd]) entry.absolute = true) ∨
    ∃ target ∈ pathTargets env cwd (commandNameOf env name) (front ++ name :: arguments) front.length,
      ∃ entry ∈ policy.protectedPaths, covers env target entry = true

theorem refusesSegment_iff {segment : List Char} {front arguments : List String} {name : String}
    (htokens : tokenizeShell segment = front ++ name :: arguments)
    (hindex : findCommandTokenIndex (front ++ name :: arguments) = some front.length) :
    RefusesSegment env cwd policy segment ↔ RefusesWords env cwd policy front name arguments := by
  have hname : (front ++ name :: arguments).getD front.length "" = name := by simp
  have harguments : (front ++ name :: arguments).drop (front.length + 1) = arguments := by
    rw [← List.drop_drop, List.drop_left]
    rfl
  unfold RefusesSegment assertSegmentAllowed RefusesWords
  rw [htokens]
  dsimp only
  rw [hindex]
  dsimp only
  rw [hname, harguments, throws_if_bind, throws_if_bind, throws_forM, throws_assertPathsAllowed]
  simp only [throws_error, and_true]
  rfl

end Segment

end T560.Guard
