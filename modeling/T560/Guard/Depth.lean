import Mathlib.Data.List.Chain
import Mathlib.Data.List.Flatten
import T560.Guard.Policy
import T560.Js.Ascii
import T560.Js.Text

/-!
# Scripts inside scripts

What the splitter and the tokenizer keep of a text stands in it in the same order. A script that a
shell is given inline stands behind a flag, so it is shorter than the command, and a command
within a command within a command comes to an end. The depth that `assertExecCommandAllowed`
starts with is never used up, and any greater one gives the same verdict.
-/

namespace T560.Guard

open Js (trimChars isSpace units charUnits)

section Kept

theorem trimChars_sublist (l : List Char) : (trimChars l).Sublist l :=
  (List.rdropWhile_prefix _ _).sublist.trans (List.dropWhile_suffix _).sublist

theorem flatten_cleaned (piece : List Char) : (cleaned piece).flatten.Sublist piece := by
  unfold cleaned
  dsimp only
  split
  · exact List.nil_sublist piece
  · rw [List.flatten_singleton]
    exact trimChars_sublist piece

/-- What the splitter holds of what it has read. -/
def SplitState.kept (s : SplitState) : List Char := s.out.flatten ++ s.current

theorem SplitState.flatten_segments (s : SplitState) : s.segments.flatten.Sublist s.kept := by
  rw [SplitState.segments, List.flatten_append]
  exact (flatten_cleaned s.current).append_left _

theorem splitStep_kept (s : SplitState) (ch : Char) :
    (splitStep s ch).kept.Sublist (s.kept ++ [ch]) := by
  have hsame : s.kept.Sublist (s.kept ++ [ch]) := List.sublist_append_left _ _
  have hmore : (s.out.flatten ++ (s.current ++ [ch])).Sublist (s.kept ++ [ch]) := by
    rw [← List.append_assoc]
    exact List.Sublist.refl _
  have hcut : ((s.out ++ cleaned s.current).flatten ++ []).Sublist (s.kept ++ [ch]) := by
    rw [List.append_nil]
    exact s.flatten_segments.trans hsame
  unfold splitStep
  dsimp only
  split
  · exact hsame
  · split
    · exact hmore
    · split
      · exact hmore
      · split
        · exact hmore
        · split
          · exact hmore
          · split
            · exact hcut
            · exact hmore

theorem foldl_splitStep_kept (s : SplitState) (command : List Char) :
    (command.foldl splitStep s).kept.Sublist (s.kept ++ command) := by
  induction command generalizing s with
  | nil => rw [List.append_nil, List.foldl_nil]
  | cons ch command ih =>
    have hstep := (splitStep_kept s ch).append_right command
    rw [List.append_assoc] at hstep
    exact (ih (splitStep s ch)).trans hstep

theorem segment_sublist {command segment : List Char} (h : segment ∈ splitShellSegments command) :
    segment.Sublist command := by
  have hheld : (splitRun command).kept.Sublist command := foldl_splitStep_kept {} command
  have hsegments := (splitRun command).flatten_segments.trans hheld
  exact (List.sublist_flatten_of_mem h).trans hsegments

/-- The words with the one that is being read. -/
def TokenState.kept (s : TokenState) : List Char := s.tokens.flatten ++ s.current

theorem TokenState.kept_flush (s : TokenState) : s.flush.kept = s.kept := by
  unfold TokenState.flush
  split
  · rfl
  · simp [TokenState.kept]

theorem tokenStep_kept (s : TokenState) (ch : Char) :
    (tokenStep s ch).kept.Sublist (s.kept ++ [ch]) := by
  have hsame : s.kept.Sublist (s.kept ++ [ch]) := List.sublist_append_left _ _
  have hmore : (s.tokens.flatten ++ (s.current ++ [ch])).Sublist (s.kept ++ [ch]) := by
    rw [← List.append_assoc]
    exact List.Sublist.refl _
  unfold tokenStep
  split
  · exact hmore
  · split
    · exact hsame
    · split
      · split
        · exact hsame
        · exact hmore
      · split
        · exact hsame
        · split
          · exact s.kept_flush ▸ hsame
          · exact hmore

theorem foldl_tokenStep_kept (s : TokenState) (segment : List Char) :
    (segment.foldl tokenStep s).kept.Sublist (s.kept ++ segment) := by
  induction segment generalizing s with
  | nil => rw [List.append_nil, List.foldl_nil]
  | cons ch segment ih =>
    have hstep := (tokenStep_kept s ch).append_right segment
    rw [List.append_assoc] at hstep
    exact (ih (tokenStep s ch)).trans hstep

theorem tokens_sublist (segment : List Char) :
    ((tokenizeShell segment).flatMap String.toList).Sublist segment := by
  have hread : (segment.foldl tokenStep {}).flush.kept.Sublist segment := by
    rw [TokenState.kept_flush]
    exact foldl_tokenStep_kept {} segment
  have hwords : (tokenizeShell segment).flatMap String.toList =
      (segment.foldl tokenStep {}).flush.tokens.flatten := by
    simp [tokenizeShell, List.flatMap_map, List.flatMap_id']
  rw [hwords]
  exact (List.sublist_append_left _ _).trans hread

end Kept

section Scripts

theorem sublist_of_mem_zip_tail {α : Type} {l : List α} {a b : α} (h : (a, b) ∈ l.zip l.tail) :
    [a, b].Sublist l := by
  induction l with
  | nil => cases h
  | cons x l ih =>
    cases l with
    | nil => cases h
    | cons y l =>
      rcases List.mem_cons.mp h with heq | hin
      · obtain ⟨rfl, rfl⟩ := Prod.mk.inj heq
        exact ((List.nil_sublist l).cons_cons b).cons_cons a
      · exact (ih hin).cons x

theorem exists_flag {arguments : List String} {script : String}
    (h : script ∈ inlineScripts arguments) :
    ∃ flag ∈ ["-c", "-lc"], [flag, script].Sublist arguments := by
  obtain ⟨⟨token, word⟩, hpair, hsome⟩ := List.mem_filterMap.mp h
  dsimp only at hsome
  split at hsome
  · rename_i hflag
    obtain rfl := Option.some.inj hsome
    rw [Bool.and_eq_true, decide_eq_true_eq] at hflag
    exact ⟨token, by simpa using hflag.1, sublist_of_mem_zip_tail hpair⟩
  · cases hsome

/-- The guard, asked about the command, asks itself about the script. -/
def HandsOver (env : GuardEnv) (command script : String) : Prop :=
  ∃ segment ∈ splitShellSegments command.toList, ∃ commandIndex,
    findCommandTokenIndex (tokenizeShell segment) = some commandIndex ∧
      env.rt.toLowerCase (Js.Path.basename ((tokenizeShell segment).getD commandIndex "")) ∈
          ["bash", "sh", "zsh"] ∧
        script ∈ inlineScripts ((tokenizeShell segment).drop (commandIndex + 1))

variable {env : GuardEnv} {command script : String}

/-- The flag and the script stand in the command, one behind the other. -/
theorem HandsOver.sublist (h : HandsOver env command script) :
    ∃ flag ∈ ["-c", "-lc"], (flag.toList ++ script.toList).Sublist command.toList := by
  obtain ⟨segment, hsegment, commandIndex, -, -, hscript⟩ := h
  obtain ⟨flag, hflag, hpair⟩ := exists_flag hscript
  have hwords := (hpair.trans (List.drop_sublist _ _)).flatMap String.toList
  have hall := (hwords.trans (tokens_sublist segment)).trans (segment_sublist hsegment)
  exact ⟨flag, hflag, by simpa using hall⟩

theorem HandsOver.length_lt (h : HandsOver env command script) :
    script.toList.length + 2 ≤ command.toList.length := by
  obtain ⟨flag, hflag, hsub⟩ := h.sublist
  have hall : ∀ flag ∈ ["-c", "-lc"], 2 ≤ flag.toList.length := by decide
  have hlen := hsub.length_le
  have htwo := hall flag hflag
  rw [List.length_append] at hlen
  omega

theorem HandsOver.units_lt (h : HandsOver env command script) :
    (units script).length + 2 ≤ (units command).length := by
  obtain ⟨flag, hflag, hsub⟩ := h.sublist
  have hall : ∀ flag ∈ ["-c", "-lc"], 2 ≤ (flag.toList.flatMap charUnits).length := by decide
  have hlen := (hsub.flatMap charUnits).length_le
  have htwo := hall flag hflag
  rw [List.flatMap_append, List.length_append] at hlen
  rw [units, units]
  omega

example : HandsOver ⟨Js.asciiRuntime, "/root", "/"⟩ "cd /; sudo bash -c 'ls -l'" "ls -l" :=
  ⟨"sudo bash -c 'ls -l'".toList, by decide, 1, by decide, by decide, by decide⟩

theorem handsOver_wellFounded (env : GuardEnv) :
    WellFounded fun script command => HandsOver env command script := by
  have hmeasure := (measure fun command : String => command.toList.length).wf
  refine Subrelation.wf (fun {script command} h => ?_) hmeasure
  have hlt := HandsOver.length_lt h
  show script.toList.length < command.toList.length
  omega

/-- Commands within commands: each level takes two characters at least. -/
theorem length_nesting_le {scripts : List String}
    (h : (command :: scripts).IsChain (HandsOver env)) :
    2 * scripts.length ≤ command.toList.length := by
  induction scripts generalizing command with
  | nil => exact Nat.zero_le _
  | cons script scripts ih =>
    obtain ⟨hover, hrest⟩ := List.isChain_cons_cons.mp h
    have hlt := hover.length_lt
    have hle := ih hrest
    rw [List.length_cons]
    omega

end Scripts

section Depth

theorem forM_congr {α : Type} {xs : List α} {f g : α → Except String Unit} (h : ∀ x ∈ xs, f x = g x) :
    xs.forM f = xs.forM g := by
  induction xs with
  | nil => rfl
  | cons x xs ih =>
    obtain ⟨hx, hxs⟩ := List.forall_mem_cons.mp h
    change (f x >>= fun _ => xs.forM f) = (g x >>= fun _ => xs.forM g)
    rw [hx, ih hxs]

variable {env : GuardEnv} {cwd : String} {policy : SelfProtectionPolicy} {command : String}

/-- The verdict on a command asks for verdicts on the scripts that it hands over only. -/
theorem segments_congr {f g : String → Except String Unit}
    (h : ∀ script, HandsOver env command script → f script = g script) :
    (splitShellSegments command.toList).forM (assertSegmentAllowed env cwd policy f) =
      (splitShellSegments command.toList).forM (assertSegmentAllowed env cwd policy g) := by
  apply forM_congr
  intro segment hsegment
  unfold assertSegmentAllowed
  dsimp only
  cases hidx : findCommandTokenIndex (tokenizeShell segment) with
  | none => rfl
  | some commandIndex =>
    dsimp only
    by_cases hshell : env.rt.toLowerCase
        (Js.Path.basename ((tokenizeShell segment).getD commandIndex "")) ∈ ["bash", "sh", "zsh"]
    · have hinline : (inlineScripts ((tokenizeShell segment).drop (commandIndex + 1))).forM f =
          (inlineScripts ((tokenizeShell segment).drop (commandIndex + 1))).forM g :=
        forM_congr fun script hscript =>
          h script ⟨segment, hsegment, commandIndex, hidx, hshell, hscript⟩
      simp only [hinline]
    · simp only [hshell, if_false]

/-- Every depth greater than the length of the command gives the same verdict. -/
theorem assertExecFuel_eq {fuel : Nat} (h : command.toList.length < fuel) :
    assertExecFuel env cwd policy fuel command = assertExecCommandAllowed env cwd policy command := by
  suffices haux : ∀ fuel fuel' (command : String), command.toList.length < fuel →
      command.toList.length < fuel' →
      assertExecFuel env cwd policy fuel command = assertExecFuel env cwd policy fuel' command from
    haux fuel _ command h (Nat.lt_succ_self _)
  intro fuel
  induction fuel with
  | zero => exact fun _ _ hlt => absurd hlt (Nat.not_lt_zero _)
  | succ fuel ih =>
    intro fuel' command hlt hlt'
    cases fuel' with
    | zero => exact absurd hlt' (Nat.not_lt_zero _)
    | succ fuel' =>
      unfold assertExecFuel
      split
      · apply segments_congr
        intro script hover
        have hshort := hover.length_lt
        exact ih fuel' script (by omega) (by omega)
      · rfl

/-- The guard follows the recursion of the source, all the way down. -/
theorem assertExecCommandAllowed_eq (command : String) :
    assertExecCommandAllowed env cwd policy command =
      if policy.enabled then
        (splitShellSegments command.toList).forM
          (assertSegmentAllowed env cwd policy (assertExecCommandAllowed env cwd policy))
      else .ok () := by
  rw [assertExecCommandAllowed, assertExecFuel]
  split
  · apply segments_congr
    intro script hover
    have hshort := hover.length_lt
    exact assertExecFuel_eq (by omega)
  · rfl

/-- Whatever follows the recursion gives the same verdicts. -/
theorem verdict_unique {verdict : String → Except String Unit}
    (h : ∀ command, verdict command =
      if policy.enabled then
        (splitShellSegments command.toList).forM (assertSegmentAllowed env cwd policy verdict)
      else .ok ()) (command : String) :
    verdict command = assertExecCommandAllowed env cwd policy command := by
  induction command using (handsOver_wellFounded env).induction with
  | _ command ih =>
    rw [h, assertExecCommandAllowed_eq, segments_congr ih]

theorem guard_terminates (env : GuardEnv) (cwd : String) (policy : SelfProtectionPolicy) :
    (∀ command script, HandsOver env command script →
        script.toList.length < command.toList.length ∧
          (units script).length < (units command).length) ∧
      (WellFounded fun script command => HandsOver env command script) ∧
      (∀ command scripts, (command :: scripts).IsChain (HandsOver env) →
        2 * scripts.length ≤ command.toList.length) ∧
      (∀ command (f g : String → Except String Unit),
        (∀ script, HandsOver env command script → f script = g script) →
        (splitShellSegments command.toList).forM (assertSegmentAllowed env cwd policy f) =
          (splitShellSegments command.toList).forM (assertSegmentAllowed env cwd policy g)) ∧
      ∀ verdict : String → Except String Unit,
        (∀ command, verdict command =
          if policy.enabled then
            (splitShellSegments command.toList).forM (assertSegmentAllowed env cwd policy verdict)
          else .ok ()) ↔
        verdict = assertExecCommandAllowed env cwd policy := by
  refine ⟨?_, handsOver_wellFounded env, fun _ _ => length_nesting_le,
    fun _ _ _ => segments_congr, ?_⟩
  · intro command script hover
    have hlength := hover.length_lt
    have hunits := hover.units_lt
    omega
  · intro verdict
    constructor
    · exact fun h => funext (verdict_unique h)
    · rintro rfl
      exact assertExecCommandAllowed_eq

end Depth

end T560.Guard
