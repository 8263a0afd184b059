import T560.Guard.Depth
import T560.Js.Ascii
import T560.Js.Lines

/-!
# Segments at a boundary

The guard refuses a command for one of its segments. The splitter starts anew behind each operator,
so a command that ends outside quotes has its last piece open there, and what follows it has its
first piece up to its first operator; all other segments are those of the one and of the other.
-/

namespace T560.Guard

open Js (trimChars isSpace)

/-! ## Verdicts -/

section Verdicts

def Throws (verdict : Except String Unit) : Prop := ∃ message, verdict = .error message

instance (verdict : Except String Unit) : Decidable (Throws verdict) :=
  match verdict with
  | .error message => isTrue ⟨message, rfl⟩
  | .ok () => isFalse (by rintro ⟨message, h⟩; cases h)

theorem throws_forM {α : Type} {xs : List α} {f : α → Except String Unit} :
    Throws (xs.forM f) ↔ ∃ x ∈ xs, Throws (f x) := by
  induction xs with
  | nil =>
    constructor
    · rintro ⟨message, h⟩
      cases h
    · rintro ⟨x, hx, -⟩
      cases hx
  | cons x xs ih =>
    have hcons : (x :: xs).forM f = (f x >>= fun _ => xs.forM f) := rfl
    rw [hcons]
    cases hx : f x with
    | error message =>
      refine ⟨fun _ => ⟨x, by simp, message, hx⟩, fun _ => ⟨message, rfl⟩⟩
    | ok done =>
      have hnot : ¬ Throws (f x) := by
        rintro ⟨message, herror⟩
        rw [hx] at herror
        cases herror
      change Throws (xs.forM f) ↔ _
      rw [ih]
      simp [hnot]

variable (env : GuardEnv) (cwd : String) (policy : SelfProtectionPolicy)

def Refuses (command : String) : Prop := Throws (assertExecCommandAllowed env cwd policy command)

def RefusesSegment (segment : List Char) : Prop :=
  Throws (assertSegmentAllowed env cwd policy (assertExecCommandAllowed env cwd policy) segment)

instance (segment : List Char) : Decidable (RefusesSegment env cwd policy segment) :=
  inferInstanceAs (Decidable (Throws _))

instance (command : String) : Decidable (Refuses env cwd policy command) :=
  inferInstanceAs (Decidable (Throws _))

variable {env cwd policy}

/-- An enabled guard refuses a command exactly when it refuses one of its segments. -/
theorem refuses_iff (h : policy.enabled = true) (command : String) :
    Refuses env cwd policy command ↔
      ∃ segment ∈ splitShellSegments command.toList, RefusesSegment env cwd policy segment := by
  have hverdict : assertExecCommandAllowed env cwd policy command =
      (splitShellSegments command.toList).forM
        (assertSegmentAllowed env cwd policy (assertExecCommandAllowed env cwd policy)) := by
    rw [assertExecCommandAllowed_eq, if_pos h]
  rw [Refuses, hverdict, throws_forM]
  rfl

end Verdicts

/-! ## The splitter across a boundary -/

section Split

variable {s t : SplitState} {ch : Char}

/-- Outside quotes, and not behind a backslash. -/
def SplitState.Outside (s : SplitState) : Prop := s.quote = none ∧ s.escaped = false

/-- The loop is about to step over a character only behind an operator. -/
def SplitState.Fresh (s : SplitState) : Prop :=
  ∀ c, s.skip = some c → isBreak c = true ∧ s.current = [] ∧ s.Outside

theorem not_special_of_isBreak (h : isBreak ch = true) :
    ch ≠ '\\' ∧ ch ≠ '\'' ∧ ch ≠ '"' := by
  refine ⟨?_, ?_, ?_⟩ <;> rintro rfl <;> exact absurd h (by decide)

theorem cleaned_nil : cleaned [] = [] := rfl

/-- What is in front of the segments stays in front. -/
theorem splitStep_out (front : List (List Char)) (s : SplitState) (ch : Char) :
    splitStep { s with out := front ++ s.out } ch =
      { splitStep s ch with out := front ++ (splitStep s ch).out } := by
  unfold splitStep
  dsimp only
  split
  · rfl
  · split
    · rfl
    · split
      · rfl
      · split
        · rfl
        · split
          · rfl
          · split
            · rw [List.append_assoc]
            · rfl

theorem segments_out (front : List (List Char)) (s : SplitState) (rest : List Char) :
    (rest.foldl splitStep { s with out := front ++ s.out }).segments =
      front ++ (rest.foldl splitStep s).segments := by
  induction rest generalizing s with
  | nil => exact List.append_assoc _ _ _
  | cons ch rest ih =>
    rw [List.foldl_cons, List.foldl_cons, splitStep_out]
    exact ih (splitStep s ch)

/-- An operator outside quotes ends the piece. -/
theorem splitStep_break (hout : s.Outside) (hfresh : s.Fresh) (hch : isBreak ch = true) :
    (splitStep s ch).out = s.segments ∧ (splitStep s ch).current = [] ∧
      (splitStep s ch).Outside ∧ (splitStep s ch).Fresh := by
  obtain ⟨hback, hsingle, hdouble⟩ := not_special_of_isBreak hch
  by_cases hskip : s.skip = some ch
  · obtain ⟨-, hcurrent, -⟩ := hfresh ch hskip
    have hstep : splitStep s ch = { s with skip := none } := by
      unfold splitStep
      rw [if_pos hskip]
    rw [hstep]
    refine ⟨?_, hcurrent, hout, by intro c hc; cases hc⟩
    simp [SplitState.segments, hcurrent, cleaned_nil]
  · have hstep : splitStep s ch =
        { s with
          out := s.out ++ cleaned s.current
          current := []
          skip := if ch = '|' ∨ ch = '&' then some ch else none } := by
      unfold splitStep
      simp [hskip, hout.1, hout.2, hback, hsingle, hdouble, hch]
    rw [hstep]
    refine ⟨rfl, rfl, hout, ?_⟩
    intro c hc
    dsimp only at hc
    split at hc
    · exact Option.some.inj hc ▸ ⟨hch, rfl, hout⟩
    · cases hc

/-- Any other character joins the piece. -/
theorem splitStep_other (hfresh : s.Fresh) (hch : ¬ (s.Outside ∧ isBreak ch = true)) :
    (splitStep s ch).out = s.out ∧ (splitStep s ch).current = s.current ++ [ch] ∧
      (splitStep s ch).skip = none := by
  have hskip : s.skip ≠ some ch := by
    intro hskip
    obtain ⟨hbreak, -, hout⟩ := hfresh ch hskip
    exact hch ⟨hout, hbreak⟩
  unfold splitStep
  rw [if_neg hskip]
  dsimp only
  split
  · exact ⟨rfl, rfl, rfl⟩
  · next hescaped =>
    split
    · exact ⟨rfl, rfl, rfl⟩
    · split
      · exact ⟨rfl, rfl, rfl⟩
      · next hquote =>
        split
        · exact ⟨rfl, rfl, rfl⟩
        · rw [if_neg fun hbreak => hch ⟨⟨hquote, by simpa using hescaped⟩, hbreak⟩]
          exact ⟨rfl, rfl, rfl⟩

theorem fresh_of_skip_none (h : s.skip = none) : s.Fresh := by
  intro c hc
  rw [h] at hc
  cases hc

theorem splitStep_fresh (h : s.Fresh) (ch : Char) : (splitStep s ch).Fresh := by
  by_cases hch : s.Outside ∧ isBreak ch = true
  · exact (splitStep_break hch.1 h hch.2).2.2.2
  · exact fresh_of_skip_none (splitStep_other h hch).2.2

theorem splitRun_fresh (command : List Char) : (splitRun command).Fresh := by
  suffices h : ∀ s : SplitState, s.Fresh → (command.foldl splitStep s).Fresh from
    h {} (fresh_of_skip_none rfl)
  intro s hs
  induction command generalizing s with
  | nil => exact hs
  | cons ch command ih => exact ih (splitStep s ch) (splitStep_fresh hs ch)

/-- At the start of a piece it makes no difference what the loop would step over. -/
theorem segments_idle (hs : s.Outside) (ht : t.Outside) (hsf : s.Fresh) (htf : t.Fresh)
    (hsc : s.current = []) (htc : t.current = []) (hout : s.out = t.out) (rest : List Char) :
    (rest.foldl splitStep s).segments = (rest.foldl splitStep t).segments := by
  induction rest generalizing s t with
  | nil => simp [SplitState.segments, hsc, htc, hout]
  | cons ch rest ih =>
    rw [List.foldl_cons, List.foldl_cons]
    by_cases hch : isBreak ch = true
    · obtain ⟨hso, hsc', hs', hsf'⟩ := splitStep_break hs hsf hch
      obtain ⟨hto, htc', ht', htf'⟩ := splitStep_break ht htf hch
      refine ih hs' ht' hsf' htf' hsc' htc' ?_
      rw [hso, hto, SplitState.segments, SplitState.segments, hsc, htc, hout]
    · have hne : ∀ u : SplitState, u.Fresh → u.skip ≠ some ch := by
        intro u hu hskip
        exact hch (hu ch hskip).1
      have hsame : splitStep s ch = splitStep t ch := by
        unfold splitStep
        rw [if_neg (hne s hsf), if_neg (hne t htf)]
        obtain ⟨sout, scurrent, squote, sescaped, sskip⟩ := s
        obtain ⟨tout, tcurrent, tquote, tescaped, tskip⟩ := t
        obtain ⟨rfl, rfl⟩ := hs
        obtain ⟨rfl, rfl⟩ := ht
        subst hsc htc hout
        rfl
      rw [hsame]

/-- Behind an operator the splitter starts anew. -/
theorem segments_break (hout : s.Outside) (hfresh : s.Fresh) (hch : isBreak ch = true)
    (rest : List Char) :
    ((ch :: rest).foldl splitStep s).segments = s.segments ++ splitShellSegments rest := by
  obtain ⟨ho, hcurrent, hout', hfresh'⟩ := splitStep_break hout hfresh hch
  have hidle := @segments_idle (splitStep s ch) { out := s.segments ++ [] } hout' ⟨rfl, rfl⟩ hfresh'
    (fresh_of_skip_none rfl) hcurrent rfl (ho.trans (List.append_nil _).symm) rest
  rw [List.foldl_cons, hidle]
  exact segments_out s.segments {} rest

theorem splitShellSegments_break (hch : isBreak ch = true) (rest : List Char) :
    splitShellSegments (ch :: rest) = splitShellSegments rest :=
  segments_break ⟨rfl, rfl⟩ (fresh_of_skip_none rfl) hch rest

/-- The piece up to the first operator, and the command from there on. -/
def cutFirst (s : SplitState) : List Char → List Char × List Char
  | [] => ([], [])
  | ch :: rest =>
    if s.quote = none ∧ s.escaped = false ∧ isBreak ch = true then ([], ch :: rest)
    else (ch :: (cutFirst (splitStep s ch) rest).1, (cutFirst (splitStep s ch) rest).2)

theorem splitStep_mode (hs : s.skip = none) (ht : t.skip = none) (hquote : s.quote = t.quote)
    (hescaped : s.escaped = t.escaped) :
    (splitStep s ch).quote = (splitStep t ch).quote ∧
      (splitStep s ch).escaped = (splitStep t ch).escaped := by
  obtain ⟨sout, scurrent, squote, sescaped, sskip⟩ := s
  obtain ⟨tout, tcurrent, tquote, tescaped, tskip⟩ := t
  dsimp only at hs ht hquote hescaped
  subst hs ht hquote hescaped
  unfold splitStep
  simp only [reduceCtorEq, if_false]
  split
  · exact ⟨rfl, rfl⟩
  · split
    · exact ⟨rfl, rfl⟩
    · split
      · exact ⟨rfl, rfl⟩
      · split
        · exact ⟨rfl, rfl⟩
        · split <;> exact ⟨rfl, rfl⟩

theorem cutFirst_congr (hs : s.skip = none) (ht : t.skip = none) (hquote : s.quote = t.quote)
    (hescaped : s.escaped = t.escaped) (rest : List Char) : cutFirst s rest = cutFirst t rest := by
  induction rest generalizing s t with
  | nil => rfl
  | cons ch rest ih =>
    unfold cutFirst
    rw [hquote, hescaped]
    by_cases hcut : t.quote = none ∧ t.escaped = false ∧ isBreak ch = true
    · rw [if_pos hcut, if_pos hcut]
    · have hother : ∀ u : SplitState, u.quote = t.quote → u.escaped = t.escaped →
          ¬ (u.Outside ∧ isBreak ch = true) := by
        rintro u hq he ⟨⟨hq', he'⟩, hbreak⟩
        exact hcut ⟨hq ▸ hq', he ▸ he', hbreak⟩
      obtain ⟨hq, he⟩ := @splitStep_mode s t ch hs ht hquote hescaped
      rw [if_neg hcut, if_neg hcut,
        ih (splitStep_other (fresh_of_skip_none hs) (hother s hquote hescaped)).2.2
          (splitStep_other (fresh_of_skip_none ht) (hother t rfl rfl)).2.2 hq he]

/-- What the splitter has of a piece goes in front of the first piece that follows. -/
theorem segments_cutFirst (hs : s.skip = none) (rest : List Char) :
    (rest.foldl splitStep s).segments =
      s.out ++ cleaned (s.current ++ (cutFirst s rest).1) ++
        splitShellSegments (cutFirst s rest).2 := by
  induction rest generalizing s with
  | nil =>
    have hnil : splitShellSegments [] = [] := rfl
    simp [cutFirst, SplitState.segments, hnil]
  | cons ch rest ih =>
    unfold cutFirst
    by_cases hcut : s.quote = none ∧ s.escaped = false ∧ isBreak ch = true
    · obtain ⟨hquote, hescaped, hbreak⟩ := hcut
      rw [if_pos ⟨hquote, hescaped, hbreak⟩,
        segments_break ⟨hquote, hescaped⟩ (fresh_of_skip_none hs) hbreak, List.append_nil,
        splitShellSegments_break hbreak]
      rfl
    · have hother := splitStep_other (fresh_of_skip_none hs)
        (fun h => hcut ⟨h.1.1, h.1.2, h.2⟩ : ¬ (s.Outside ∧ isBreak ch = true))
      rw [if_neg hcut, List.foldl_cons, ih hother.2.2, hother.1, hother.2.1]
      simp

end Split

/-! ## Two commands -/

section Boundary

/-- The command ends outside quotes and without a pending backslash. -/
def EndsOutside (command : String) : Prop := (splitRun command.toList).Outside

/-- The last piece of a command, which no operator has ended. -/
def lastPiece (command : String) : List Char := (splitRun command.toList).current

/-- The first piece of a command, up to its first operator. -/
def firstPiece (command : String) : List Char := (cutFirst {} command.toList).1

/-- The segments of the two commands that a newline between them does not touch. -/
def otherSegments (first second : String) : List (List Char) :=
  (splitRun first.toList).out ++ splitShellSegments (cutFirst {} second.toList).2

theorem splitShellSegments_append (first second : List Char) :
    splitShellSegments (first ++ second) = (second.foldl splitStep (splitRun first)).segments := by
  unfold splitShellSegments splitRun
  rw [List.foldl_append]

theorem segments_first (first : String) :
    splitShellSegments first.toList = (splitRun first.toList).out ++ cleaned (lastPiece first) :=
  rfl

theorem segments_second (second : String) :
    splitShellSegments second.toList =
      cleaned (firstPiece second) ++ splitShellSegments (cutFirst {} second.toList).2 :=
  segments_cutFirst rfl second.toList

theorem trimChars_append_blank {piece rest : List Char} (h : ∀ c ∈ rest, isSpace c = true) :
    trimChars (piece ++ rest) = trimChars piece := by
  induction rest using List.reverseRecOn with
  | nil => rw [List.append_nil]
  | append_singleton rest c ih =>
    rw [← List.append_assoc, Js.trimChars_append_space (h c (by simp))]
    exact ih fun d hd => h d (by simp [hd])

theorem trimChars_blank_append {piece rest : List Char} (h : ∀ c ∈ piece, isSpace c = true) :
    trimChars (piece ++ rest) = trimChars rest := by
  unfold trimChars
  rw [List.dropWhile_append, List.dropWhile_eq_nil_iff.mpr h]
  rfl

/-- A kept piece is refused when it is not blank and its text is refused. -/
theorem exists_cleaned {piece : List Char} {P : List Char → Prop} :
    (∃ segment ∈ cleaned piece, P segment) ↔ trimChars piece ≠ [] ∧ P (trimChars piece) := by
  unfold cleaned
  by_cases hblank : trimChars piece = [] <;> simp [hblank]

/-- A segment is one in the middle or one of the others. -/
theorem exists_segment {xs ys zs : List (List Char)} {P : List Char → Prop} :
    (∃ segment ∈ xs ++ ys ++ zs, P segment) ↔
      (∃ segment ∈ xs ++ zs, P segment) ∨ ∃ segment ∈ ys, P segment := by
  simp only [List.mem_append, or_and_right, exists_or]
  exact or_right_comm

/-- A Linux host with the program in `/srv/t560`. -/
def hostEnv : GuardEnv where
  rt := Js.asciiRuntime
  homedir := "/root"
  processCwd := "/srv"

def hostPolicy : SelfProtectionPolicy where
  enabled := true
  installRoot := "/srv/t560"
  protectedPaths := [⟨".", "/srv/t560"⟩]

end Boundary

end T560.Guard
