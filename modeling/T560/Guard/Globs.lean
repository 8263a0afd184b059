import Mathlib.Data.List.Infix
import T560.Foundation.Glob
import T560.Guard.Inside
import T560.Guard.Verdict

/-!
# Patterns among the operands

The shell replaces a pattern by the paths that match it before it runs the command; the guard sees
the pattern only, and compares it with the protected paths as if it were a path. A pattern may
therefore reach a protected path that no operand, taken as a path, contains or lies in.
-/

namespace T560.Guard

open Foundation (Glob.isMatch)
open Js (Path.resolve Path.components Path.isAbsolute)
open Js.Path (Canonical Component absolute)

section Parts

variable {env : GuardEnv}

/-- The components of a path from the root on. -/
def pathParts (env : GuardEnv) (path : String) : List (List Char) :=
  Path.components (Path.resolve env.processCwd [path])

theorem resolve_pathParts (hcwd : Path.isAbsolute env.processCwd = true) (path : String) :
    Canonical (pathParts env path) ∧
      Path.resolve env.processCwd [path] = absolute (pathParts env path) := by
  obtain ⟨parts, hparts, hresolve⟩ := Js.Path.resolve_canonical hcwd [path]
  rw [pathParts, hresolve, Js.Path.components_absolute hparts]
  exact ⟨hparts, rfl⟩

/-- The second path continues the first; a component that starts with two dots is taken for a step
up. -/
def Continues (root target : List (List Char)) : Prop :=
  ∃ rest, target = root ++ rest ∧ ¬ StartsWithDots rest

theorem isPathInside_parts (hcwd : Path.isAbsolute env.processCwd = true) (root target : String) :
    isPathInside env root target = true ↔ Continues (pathParts env root) (pathParts env target) := by
  obtain ⟨hroot, hrootPath⟩ := resolve_pathParts hcwd root
  obtain ⟨htarget, htargetPath⟩ := resolve_pathParts hcwd target
  have hsame : isPathInside env root target =
      isPathInside env (absolute (pathParts env root)) (absolute (pathParts env target)) := by
    unfold isPathInside
    rw [hrootPath, htargetPath, Js.Path.resolve_absolute hroot, Js.Path.resolve_absolute htarget]
  rw [hsame, isPathInside_iff hroot htarget]
  rfl

/-- The operand, taken as a path, contains the protected path; or it holds a wildcard and lies in
the protected path. -/
def Overlaps (env : GuardEnv) (target : TokenPath) (entry : ProtectedPathEntry) : Prop :=
  Continues (pathParts env target.absolute) (pathParts env entry.absolute) ∨
    target.wildcard = true ∧ Continues (pathParts env entry.absolute) (pathParts env target.absolute)

theorem covers_iff (hcwd : Path.isAbsolute env.processCwd = true) (target : TokenPath)
    (entry : ProtectedPathEntry) : covers env target entry = true ↔ Overlaps env target entry := by
  unfold covers Overlaps
  rw [Bool.or_eq_true, Bool.and_eq_true, Bool.or_eq_true, isPathInside_parts hcwd,
    isPathInside_parts hcwd]
  constructor
  · rintro (h | ⟨hwild, h | h⟩)
    · exact Or.inl h
    · exact Or.inl h
    · exact Or.inr ⟨hwild, h⟩
  · rintro (h | ⟨hwild, h⟩)
    · exact Or.inl h
    · exact Or.inr ⟨hwild, Or.inr h⟩

end Parts

/-- The operands that the command removes. -/
def removedOperands (commandName : String) (arguments : List String) : List String :=
  if commandName = "mv" then (operands false arguments).dropLast else operands false arguments

def globChars : List Char := ['*', '?', '[', ']']

/-- A command of one segment that deletes or moves a pattern: a directory and a last component with
pattern characters in it. -/
structure GlobCommand (env : GuardEnv) where
  text : String
  segment : List Char
  segments : splitShellSegments text.toList = [segment]
  front : List String
  name : String
  arguments : List String
  tokens : tokenizeShell segment = front ++ name :: arguments
  index : findCommandTokenIndex (front ++ name :: arguments) = some front.length
  command : commandNameOf env name ∈ ["rm", "rmdir", "unlink", "shred", "mv"]
  directory : List Char
  pattern : List Char
  slashes : Nat
  operand : String.ofList (directory ++ pattern ++ List.replicate slashes '/') ∈
    removedOperands (commandNameOf env name) arguments
  closed : directory = [] ∨ directory.getLast? = some '/'
  no_slash : '/' ∉ pattern
  glob : ∃ ch ∈ pattern, ch ∈ globChars
  plain : ∀ ch ∈ directory, ch ∉ globChars

section Reach

variable {env : GuardEnv} (c : GlobCommand env) (cwd : String) (policy : SelfProtectionPolicy)

/-- A path that the pattern matches is a protected path or lies above one. -/
def GlobCommand.Reaches : Prop :=
  ∃ entry ∈ policy.protectedPaths, ∃ file, Component file ∧ Glob.isMatch c.pattern file = true ∧
    pathParts env (resolvePathFromBase env (String.ofList c.directory) cwd) ++ [file] <+:
      pathParts env entry.absolute

/-- The paths that the guard checks for the command. -/
def GlobCommand.targets : List TokenPath :=
  pathTargets env cwd (commandNameOf env c.name) (c.front ++ c.name :: c.arguments) c.front.length

/-- Some operand overlaps a protected path. -/
def GlobCommand.Covered : Prop :=
  policy.enabled = true ∧
    ∃ target ∈ c.targets cwd, ∃ entry ∈ policy.protectedPaths, Overlaps env target entry

theorem GlobCommand.refuses_iff (hcwd : Path.isAbsolute env.processCwd = true) :
    Refuses env cwd policy c.text ↔ c.Covered cwd policy := by
  by_cases henabled : policy.enabled = true
  · have hpower : ∀ commandName ∈ ["rm", "rmdir", "unlink", "shred", "mv"], ∀ next joined,
        isPowerControl commandName next joined = false := by
      intro commandName hname next joined
      simp only [List.mem_cons, List.not_mem_nil, or_false] at hname
      rcases hname with rfl | rfl | rfl | rfl | rfl <;> simp [isPowerControl]
    have hother : ∀ commandName ∈ ["rm", "rmdir", "unlink", "shred", "mv"],
        commandName ∉ ["bash", "sh", "zsh"] ∧ commandName ≠ "git" := by
      decide
    obtain ⟨hshell, hgit⟩ := hother _ c.command
    rw [Guard.refuses_iff henabled, c.segments]
    simp only [List.mem_singleton, exists_eq_left]
    rw [refusesSegment_iff c.tokens c.index, RefusesWords, hpower _ c.command,
      GlobCommand.Covered, and_iff_right henabled]
    simp only [hshell, hgit, false_and, false_or, Bool.false_eq_true, covers_iff hcwd]
    rfl
  · have hdisabled : policy.enabled = false := by simpa using henabled
    exact iff_of_false (not_refuses_of_disabled hdisabled _) fun h => henabled h.1

/-- A pattern that reaches a protected path is refused exactly where an operand of the command,
taken as a path, overlaps a protected path. -/
theorem glob_operand_refused_iff (env : GuardEnv) (hcwd : Path.isAbsolute env.processCwd = true)
    (cwd : String) (policy : SelfProtectionPolicy) (c : GlobCommand env) :
    (c.Reaches cwd policy → Refuses env cwd policy c.text) ↔
      (c.Reaches cwd policy → c.Covered cwd policy) := by
  rw [c.refuses_iff cwd policy hcwd]

/-- Deletes every entry of `/srv` whose name starts with `t5`. -/
def deleteT5 : GlobCommand hostEnv where
  text := "rm -rf /srv/t5*"
  segment := "rm -rf /srv/t5*".toList
  segments := by decide
  front := []
  name := "rm"
  arguments := ["-rf", "/srv/t5*"]
  tokens := by decide
  index := by decide
  command := by decide
  directory := "/srv/".toList
  pattern := "t5*".toList
  slashes := 0
  operand := by decide
  closed := by decide
  no_slash := by decide
  glob := by decide
  plain := by decide

theorem glob_hides_deletion :
    deleteT5.Reaches "/" hostPolicy ∧ ¬ Refuses hostEnv "/" hostPolicy deleteT5.text := by
  refine ⟨⟨_, List.mem_singleton_self _, "t560".toList, ?_, by decide, by decide⟩,
    by decide⟩
  exact ⟨by decide, by decide, by decide, by decide⟩

/-- The program and its command line are protected. -/
def cliPolicy : SelfProtectionPolicy where
  enabled := true
  installRoot := "/srv/t560"
  protectedPaths := [⟨".", "/srv/t560"⟩, ⟨"cli", "/srv/t560/cli"⟩]

/-- Moves the entries of the program away. -/
def moveAll : GlobCommand hostEnv where
  text := "sudo mv -f * /tmp"
  segment := "sudo mv -f * /tmp".toList
  segments := by decide
  front := ["sudo"]
  name := "mv"
  arguments := ["-f", "*", "/tmp"]
  tokens := by decide
  index := by decide
  command := by decide
  directory := []
  pattern := "*".toList
  slashes := 0
  operand := by decide
  closed := by decide
  no_slash := by decide
  glob := by decide
  plain := by decide

theorem glob_operand_refused_iff_move :
    Path.isAbsolute hostEnv.processCwd = true ∧ moveAll.Reaches "/srv/t560" cliPolicy ∧
      Refuses hostEnv "/srv/t560" cliPolicy moveAll.text := by
  have hcwd : Path.isAbsolute hostEnv.processCwd = true := by decide
  have hreaches : moveAll.Reaches "/srv/t560" cliPolicy := by
    refine ⟨⟨"cli", "/srv/t560/cli"⟩, by decide, "cli".toList, ?_, by decide,
      by decide⟩
    exact ⟨by decide, by decide, by decide, by decide⟩
  refine ⟨hcwd, hreaches, (glob_operand_refused_iff hostEnv hcwd "/srv/t560" cliPolicy moveAll).mpr
    (fun _ => ⟨rfl, ⟨"*", "/srv/t560/*", true⟩, by decide, ⟨".", "/srv/t560"⟩, by decide, ?_⟩)
    hreaches⟩
  refine Or.inr ⟨rfl, [['*']], by decide, ?_⟩
  rintro ⟨part, more, hrest, hdots⟩
  obtain ⟨rfl, -⟩ := List.cons.inj hrest
  exact absurd hdots (by decide)

end Reach

end T560.Guard
