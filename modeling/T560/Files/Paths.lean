import T560.Guard.Inside
import T560.Memory.References

/-!
# The paths of the file tools

The file tools keep to the workspace and away from credential files. Both checks look at the
relative path as a text: one that starts with two dots leads out of the workspace for them, also
when it starts with a name like `..data`.
-/

namespace T560.Files

open Js (Runtime trim isAscii Path.relative Path.resolve Path.isAbsolute Path.basename)
open Js.Path (Canonical Component absolute joinParts)
open Guard (StartsWithDots)
open Memory (DocumentEnv isSensitivePath)

def isPathInside (processCwd root target : String) : Bool :=
  let relative := Path.relative processCwd root target
  relative = "" || (!Js.startsWith ".." relative && !Path.isAbsolute relative)

def resolveToolPath (env : DocumentEnv) (rawPath workspaceDir : String) (workspaceOnly : Bool) :
    Except String String :=
  let input := trim rawPath
  if input = "" then .error "Path is required."
  else
    let resolved := Path.resolve env.processCwd [workspaceDir, input]
    if workspaceOnly && !isPathInside env.processCwd workspaceDir resolved then
      .error ("Path '" ++ input ++ "' is outside workspace root.")
    else if isSensitivePath env resolved workspaceDir then
      .error "Access to sensitive credential files is blocked."
    else .ok resolved

/-- Lower-casing a text starts with its ASCII front in lower case. -/
def LowersFront (rt : Runtime) : Prop :=
  ∀ front back : List Char, front.all isAscii = true →
    front.map Char.toLower <+: (rt.toLowerCase (String.ofList (front ++ back))).toList

/-- A credential file, by its components. -/
def Sensitive (target : List (List Char)) : Prop :=
  ".t560-secure".toList ∈ target ∨ ∃ base, target.getLast? = some base ∧
    (base = ".env".toList ∨ ".env.".toList <+: base ∨ base = "credentials.v1.enc".toList)

/-- Below the root, the target goes on with a name that starts with two dots. -/
def DotsBelow (root target : List (List Char)) : Prop :=
  ∃ rest, target = root ++ rest ∧ StartsWithDots rest

variable {root target rest parts : List (List Char)} {base : List Char}

theorem isPathInside_eq (env : Guard.GuardEnv) (hroot : Canonical root) (htarget : Canonical target) :
    isPathInside env.processCwd (absolute root) (absolute target) =
      Guard.isPathInside env (absolute root) (absolute target) := by
  unfold Guard.isPathInside
  dsimp only
  rw [Js.Path.resolve_absolute hroot, Js.Path.resolve_absolute htarget]
  rfl

/-- Either check is right on a pair of paths exactly when no dots come below the root. -/
theorem inside_prefix_iff {inside : Bool}
    (h : inside = true ↔ ∃ rest, target = root ++ rest ∧ ¬ StartsWithDots rest) :
    (inside = true ↔ root <+: target) ↔ ¬ DotsBelow root target := by
  rw [h]
  constructor
  · rintro hsame ⟨rest, rfl, hdots⟩
    obtain ⟨other, hother, hplain⟩ := hsame.mpr (List.prefix_append root rest)
    rw [List.append_cancel_left_eq] at hother
    exact hplain (hother ▸ hdots)
  · intro hnone
    constructor
    · rintro ⟨rest, rfl, -⟩
      exact List.prefix_append root rest
    · rintro ⟨rest, rfl⟩
      exact ⟨rest, rfl, fun hdots => hnone ⟨rest, rfl, hdots⟩⟩

theorem slash_joinParts (hne : parts ≠ []) :
    '/' :: joinParts parts = parts.flatMap fun part => '/' :: part := by
  induction parts with
  | nil => exact absurd rfl hne
  | cons part parts ih =>
    cases parts with
    | nil => simp [joinParts]
    | cons next parts =>
      rw [List.flatMap_cons, ← ih (List.cons_ne_nil _ _), joinParts, List.intercalate_cons_cons]
      simp [joinParts]

theorem basename_absolute (h : Component base) :
    Path.basename (absolute (parts ++ [base])) = String.ofList base := by
  have hfront : absolute (parts ++ [base]) =
      String.ofList (parts.flatMap (fun part => '/' :: part) ++ ['/']) ++ String.ofList base := by
    rw [absolute, slash_joinParts (by simp), ← String.ofList_append]
    simp
  rw [hfront, Js.Path.basename_append]
  · exact Or.inr (by simp)
  · simpa using h.ne_nil
  · simpa using h.no_slash

theorem secure_in_text (hne : target ≠ []) (h : ".t560-secure".toList ∈ target) :
    Js.includes (absolute target) "/.t560-secure/" = true ∨
      Js.endsWith "/.t560-secure" (absolute target) = true := by
  obtain ⟨front, back, rfl⟩ := List.append_of_mem h
  have htext : (absolute (front ++ ".t560-secure".toList :: back)).toList =
      front.flatMap (fun part => '/' :: part) ++
        ("/.t560-secure".toList ++ back.flatMap fun part => '/' :: part) := by
    rw [absolute, String.toList_ofList, slash_joinParts hne]
    simp
  cases back with
  | nil =>
    right
    rw [Js.endsWith, htext, List.isSuffixOf_iff_suffix]
    simp
  | cons next back =>
    left
    rw [Js.includes, htext, List.any_eq_true]
    refine ⟨"/.t560-secure".toList ++ (next :: back).flatMap (fun part => '/' :: part), ?_, ?_⟩
    · exact (List.mem_tails _ _).mpr (List.suffix_append _ _)
    · rw [List.isPrefixOf_iff_prefix]
      exact ⟨next ++ back.flatMap (fun part => '/' :: part), by simp⟩

/-- A target below the root is sensitive for the check unless dots come below the root. -/
theorem isSensitivePath_below (env : DocumentEnv) (hlower : LowersFront env.rt) (hroot : Canonical root)
    (hrest : Canonical rest) (hsensitive : Sensitive (root ++ rest)) :
    isSensitivePath env (absolute (root ++ rest)) (absolute root) = true ↔ ¬ StartsWithDots rest := by
  have htarget := hroot.append hrest
  have hdots : Js.startsWith ".." (String.ofList (joinParts rest)) = true ↔ StartsWithDots rest := by
    unfold Js.startsWith
    rw [List.isPrefixOf_iff_prefix, ← Guard.dots_joinParts hrest, @String.toList_ofList (joinParts rest)]
    rfl
  unfold isSensitivePath
  dsimp only
  rw [Js.Path.resolve_absolute htarget, Js.Path.resolve_absolute hroot, Js.Path.relative_append hroot hrest]
  by_cases hup : StartsWithDots rest
  · have hne : String.ofList (joinParts rest) ≠ "" := by
      intro hempty
      have := hdots.mpr hup
      rw [hempty] at this
      exact absurd this (by decide)
    simp [hne, hdots.mpr hup, hup]
  · have hplain : Js.startsWith ".." (String.ofList (joinParts rest)) = false := by
      rwa [← Bool.not_eq_true, hdots]
    rw [hplain, Bool.and_false]
    simp only [Bool.false_eq_true, if_false, hup, not_false_eq_true, iff_true]
    rcases hsensitive with hsecure | ⟨base, hlast, hbase⟩
    · have hne : root ++ rest ≠ [] := by
        intro hnil
        rw [hnil] at hsecure
        cases hsecure
      have hincludes := secure_in_text hne hsecure
      rw [if_pos (by simpa using hincludes)]
    · split_ifs with hsecure
      · rfl
      · obtain ⟨init, hinit⟩ := List.getLast?_eq_some_iff.mp hlast
        have hcomponent : Component base := htarget base (by rw [hinit]; simp)
        rw [hinit, basename_absolute hcomponent]
        rcases hbase with rfl | ⟨more, rfl⟩ | rfl
        · rw [env.rt.lower_ascii _ (by decide)]
          decide
        · have hfront := hlower ".env.".toList more (by decide)
          have hstarts : Js.startsWith ".env."
              (env.rt.toLowerCase (String.ofList (".env.".toList ++ more))) = true := by
            unfold Js.startsWith
            rw [List.isPrefixOf_iff_prefix]
            exact hfront
          rw [hstarts]
          simp
        · rw [env.rt.lower_ascii _ (by decide)]
          decide

/-- Both checks of containment go by components, and every credential file inside of the workspace
is sensitive. -/
structure ContainsByComponents (guard : Guard.GuardEnv) (env : DocumentEnv)
    (root target : List (List Char)) : Prop where
  guard : Guard.isPathInside guard (absolute root) (absolute target) = true ↔ root <+: target
  tools : isPathInside env.processCwd (absolute root) (absolute target) = true ↔ root <+: target
  sensitive : root <+: target → Sensitive target →
    isSensitivePath env (absolute target) (absolute root) = true

theorem containment_iff (guard : Guard.GuardEnv) (env : DocumentEnv) (hlower : LowersFront env.rt)
    (hroot : Canonical root) (htarget : Canonical target) :
    ContainsByComponents guard env root target ↔ ¬ DotsBelow root target := by
  have hguard := inside_prefix_iff (@Guard.isPathInside_iff guard _ _ hroot htarget)
  have htools : (isPathInside env.processCwd (absolute root) (absolute target) = true ↔ root <+: target) ↔
      ¬ DotsBelow root target := by
    rw [isPathInside_eq ⟨env.rt, "", env.processCwd⟩ hroot htarget]
    exact inside_prefix_iff (Guard.isPathInside_iff hroot htarget)
  constructor
  · exact fun h => hguard.mp h.guard
  · intro hnone
    refine ⟨hguard.mpr hnone, htools.mpr hnone, ?_⟩
    rintro ⟨rest, rfl⟩ hsensitive
    have hrest : Canonical rest := htarget.sublist (List.sublist_append_right _ _)
    exact (isSensitivePath_below env hlower hroot hrest hsensitive).mpr fun hdots =>
      hnone ⟨rest, rfl, hdots⟩

section Example

def workGuard : Guard.GuardEnv := ⟨Js.asciiRuntime, "/root", "/"⟩

/-- The credentials in a directory `..data` of the workspace can be read. -/
theorem dots_expose_credentials : ∃ json,
    ¬ ContainsByComponents workGuard (Memory.notesEnv json) ["w".toList]
        ["w".toList, "..data".toList, ".env".toList] ∧
      resolveToolPath (Memory.notesEnv json) "..data/.env" "/w" false = .ok "/w/..data/.env" := by
  refine ⟨Classical.choice Js.json_nonempty, ?_, by decide⟩
  intro h
  have hexposed : isSensitivePath (Memory.notesEnv (Classical.choice Js.json_nonempty))
      (absolute ["w".toList, "..data".toList, ".env".toList]) (absolute ["w".toList]) = false := by
    decide
  rw [h.sensitive (by decide) (Or.inr ⟨".env".toList, rfl, Or.inl rfl⟩)] at hexposed
  cases hexposed

theorem lowersFront_ascii : LowersFront Js.asciiRuntime := by
  intro front back _
  refine ⟨back.map Char.toLower, ?_⟩
  simp [Js.asciiRuntime, Js.asciiLower]

theorem containment_iff_work : ∃ json,
    ContainsByComponents workGuard (Memory.notesEnv json) ["w".toList] ["w".toList, ".env".toList] := by
  obtain ⟨json⟩ := Js.json_nonempty
  have hw : Component "w".toList := ⟨by decide, by decide, by decide, by decide⟩
  have henv : Component ".env".toList := ⟨by decide, by decide, by decide, by decide⟩
  have hroot : Canonical ["w".toList] := by simpa [Canonical] using hw
  have htarget : Canonical ["w".toList, ".env".toList] := by simpa [Canonical] using ⟨hw, henv⟩
  refine ⟨json, (containment_iff workGuard (Memory.notesEnv json) lowersFront_ascii hroot htarget).mpr ?_⟩
  rintro ⟨rest, hrest, part, more, rfl, hdots⟩
  obtain ⟨rfl, -⟩ : ".env".toList = part ∧ [] = more := by simpa using hrest
  revert hdots
  decide

end Example

end T560.Files
