import Mathlib.Data.List.Forall2
import T560.Js.Text

/-!
# Lines of a text file

`text.replace(/\r\n/g, "\n").split("\n")`. A reader that trims every line does not see the
first replacement, so a file can be taken apart at its line feeds alone.
-/

namespace T560.Js

def replaceCrlf : List Char → List Char
  | [] => []
  | [c] => [c]
  | c :: d :: cs => if c = '\r' ∧ d = '\n' then '\n' :: replaceCrlf cs else c :: replaceCrlf (d :: cs)

/-- Puts a character in front of the first line. -/
def consLine (c : Char) : List (List Char) → List (List Char)
  | [] => [[c]]
  | line :: lines => (c :: line) :: lines

def splitLines : List Char → List (List Char)
  | [] => [[]]
  | c :: cs => if c = '\n' then [] :: splitLines cs else consLine c (splitLines cs)

def normalizeLineBreaks (text : String) : List String :=
  (splitLines (replaceCrlf text.toList)).map String.ofList

/-- The characters that `.` does not match. -/
def isLineTerminator (c : Char) : Bool :=
  c == '\n' || c == '\r' || c.toNat == 0x2028 || c.toNat == 0x2029

theorem splitLines_ne_nil (cs : List Char) : splitLines cs ≠ [] := by
  cases cs with
  | nil => simp [splitLines]
  | cons c cs =>
    rw [splitLines]
    split_ifs
    · simp
    · cases splitLines cs <;> simp [consLine]

/-- A line feed separates two files. -/
theorem splitLines_append (xs ys : List Char) :
    splitLines (xs ++ '\n' :: ys) = splitLines xs ++ splitLines ys := by
  induction xs with
  | nil => simp [splitLines]
  | cons c xs ih =>
    rw [List.cons_append, splitLines, splitLines, ih]
    split_ifs
    · rfl
    · obtain ⟨line, lines, h⟩ := List.exists_cons_of_ne_nil (splitLines_ne_nil xs)
      rw [h]
      rfl

theorem splitLines_single {xs : List Char} (h : ∀ c ∈ xs, c ≠ '\n') : splitLines xs = [xs] := by
  induction xs with
  | nil => rfl
  | cons c xs ih =>
    rw [splitLines, if_neg (h c (by simp)), ih fun d hd => h d (by simp [hd])]
    rfl

theorem trimChars_append_space {l : List Char} {c : Char} (h : isSpace c = true) :
    trimChars (l ++ [c]) = trimChars l := by
  unfold trimChars
  rw [List.dropWhile_append]
  split_ifs with he
  · rw [List.isEmpty_iff.mp he]
    simp [h]
  · rw [List.rdropWhile_concat_pos _ _ _ h]

/-- The second line is the first, perhaps with a carriage return behind it. -/
def SameLine (line line' : List Char) : Prop := line' = line ∨ line' = line ++ ['\r']

theorem SameLine.trimChars {line line' : List Char} (h : SameLine line line') :
    trimChars line = trimChars line' := by
  rcases h with rfl | rfl
  · rfl
  · exact (trimChars_append_space (by decide)).symm

theorem SameLine.cons {line line' : List Char} (c : Char) (h : SameLine line line') :
    SameLine (c :: line) (c :: line') := by
  rcases h with rfl | rfl
  · exact Or.inl rfl
  · exact Or.inr rfl

theorem forall₂_consLine {lines lines' : List (List Char)} (c : Char)
    (h : List.Forall₂ SameLine lines lines') :
    List.Forall₂ SameLine (consLine c lines) (consLine c lines') := by
  cases h with
  | nil => exact .cons (Or.inl rfl) .nil
  | cons h hs => exact .cons (h.cons c) hs

theorem splitLines_replaceCrlf (cs : List Char) :
    List.Forall₂ SameLine (splitLines (replaceCrlf cs)) (splitLines cs) := by
  induction cs using replaceCrlf.induct with
  | case1 => exact .cons (Or.inl rfl) .nil
  | case2 c =>
    rw [replaceCrlf]
    exact List.forall₂_same.mpr fun _ _ => Or.inl rfl
  | case3 c d cs h ih =>
    obtain ⟨rfl, rfl⟩ := h
    exact .cons (Or.inr rfl) ih
  | case4 c d cs h ih =>
    rw [replaceCrlf, if_neg h, splitLines, splitLines]
    by_cases hc : c = '\n'
    · rw [if_pos hc, if_pos hc]
      exact .cons (Or.inl rfl) ih
    · rw [if_neg hc, if_neg hc]
      exact forall₂_consLine c ih

/-- To a reader that trims its lines, only line feeds separate them. -/
theorem map_trim_normalizeLineBreaks (text : String) :
    (normalizeLineBreaks text).map trim =
      (splitLines text.toList).map fun line => String.ofList (trimChars line) := by
  rw [normalizeLineBreaks, List.map_map]
  have h := splitLines_replaceCrlf text.toList
  generalize splitLines (replaceCrlf text.toList) = lines at h ⊢
  generalize splitLines text.toList = lines' at h ⊢
  induction h with
  | nil => rfl
  | cons h _ ih =>
    rw [List.map_cons, List.map_cons, ih, ← h.trimChars]
    simp [trim]

end T560.Js
