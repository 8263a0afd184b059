import Mathlib.Data.List.DropRight
import Mathlib.Data.List.Infix

/-!
# Text of the ECMAScript runtime

Strings are handled through their list of characters. White space is the union of
the WhiteSpace and LineTerminator productions, which `trim` and `\s` share.
-/

/-! What holds of the characters of a list or an option is decided along it, not over all characters. -/
namespace T560.Foundation

variable (P : Char → Prop) [DecidablePred P]

instance decidableForallMemList (text : List Char) : Decidable (∀ c ∈ text, P c) :=
  List.decidableBAll P text

instance decidableExistsMemList (text : List Char) : Decidable (∃ c ∈ text, P c) :=
  List.decidableBEx P text

instance decidableForallMemOption (next : Option Char) : Decidable (∀ c ∈ next, P c) :=
  Option.decidableForallMem next

end T560.Foundation

namespace T560.Js

def isSpace (c : Char) : Bool :=
  let n := c.toNat
  (9 ≤ n && n ≤ 13) || n == 0x20 || n == 0xA0 || n == 0x1680 || (0x2000 ≤ n && n ≤ 0x200A) ||
    n == 0x2028 || n == 0x2029 || n == 0x202F || n == 0x205F || n == 0x3000 || n == 0xFEFF

def trimChars (cs : List Char) : List Char := (cs.dropWhile isSpace).rdropWhile isSpace

/-- `String.prototype.trim`. -/
def trim (s : String) : String := String.ofList (trimChars s.toList)

/-- `s.startsWith(front)`. -/
def startsWith (front s : String) : Bool := front.toList.isPrefixOf s.toList

/-- `s.endsWith(back)`. -/
def endsWith (back s : String) : Bool := back.toList.isSuffixOf s.toList

/-- `s.includes(t)`. -/
def includes (s t : String) : Bool := s.toList.tails.any t.toList.isPrefixOf

/-- One blank for every maximal run of white space: `replace(/\s+/g, " ")`. -/
def collapseChars : List Char → List Char
  | [] => []
  | c :: cs =>
    if isSpace c then
      match collapseChars cs with
      | ' ' :: rest => ' ' :: rest
      | rest => ' ' :: rest
    else c :: collapseChars cs

def collapse (s : String) : String := String.ofList (collapseChars s.toList)

/-- One character `x` for every maximal run of characters that satisfy `p`; the flag says that a
run is open. -/
def replaceRuns (p : Char → Bool) (x : Char) : Bool → List Char → List Char
  | _, [] => []
  | inRun, c :: cs =>
    if p c then
      if inRun then replaceRuns p x true cs else x :: replaceRuns p x true cs
    else c :: replaceRuns p x false cs

theorem includes_iff {s t : String} : includes s t = true ↔ t.toList <:+: s.toList := by
  unfold includes
  rw [List.any_eq_true]
  constructor
  · rintro ⟨tail, htail, hfront⟩
    exact List.IsInfix.trans (List.isPrefixOf_iff_prefix.mp hfront).isInfix
      ((List.mem_tails _ _).mp htail).isInfix
  · rintro ⟨front, back, hsplit⟩
    refine ⟨t.toList ++ back, (List.mem_tails _ _).mpr ⟨front, ?_⟩,
      List.isPrefixOf_iff_prefix.mpr ⟨back, rfl⟩⟩
    rw [← hsplit, List.append_assoc]

theorem dropWhile_eq_self {p : Char → Bool} {l : List Char}
    (h : ∀ c, l.head? = some c → p c = false) : l.dropWhile p = l := by
  cases l with
  | nil => rfl
  | cons c l => simp [h c rfl]

theorem head?_dropWhile_false {p : Char → Bool} {l : List Char} {c : Char}
    (h : (l.dropWhile p).head? = some c) : p c = false := by
  have := List.head?_dropWhile_not p l
  simpa [h] using this

theorem head?_rdropWhile {p : Char → Bool} {l : List Char}
    (h : ∀ c, l.head? = some c → p c = false) : (l.rdropWhile p).head? = l.head? := by
  cases l with
  | nil => rfl
  | cons a l =>
    have ha := h a rfl
    obtain ⟨t, ht⟩ := List.rdropWhile_prefix p (l := a :: l)
    cases hr : (a :: l).rdropWhile p with
    | nil =>
      have := List.rdropWhile_eq_nil_iff.mp hr a (by simp)
      simp [ha] at this
    | cons b r =>
      rw [hr] at ht
      simp only [List.cons_append, List.cons.injEq] at ht
      simp [ht.1]

theorem trimChars_eq_self {l : List Char} (hh : ∀ c, l.head? = some c → isSpace c = false)
    (hl : ∀ c, l.getLast? = some c → isSpace c = false) : trimChars l = l := by
  unfold trimChars
  rw [dropWhile_eq_self hh, List.rdropWhile, dropWhile_eq_self, List.reverse_reverse]
  simpa [List.head?_reverse] using hl

theorem head?_trimChars {l : List Char} {c : Char} (h : (trimChars l).head? = some c) :
    isSpace c = false := by
  unfold trimChars at h
  rw [head?_rdropWhile (fun c hc => head?_dropWhile_false hc)] at h
  exact head?_dropWhile_false h

theorem getLast?_trimChars {l : List Char} {c : Char} (h : (trimChars l).getLast? = some c) :
    isSpace c = false := by
  unfold trimChars List.rdropWhile at h
  rw [List.getLast?_reverse] at h
  exact head?_dropWhile_false h

@[simp]
theorem trimChars_trimChars (l : List Char) : trimChars (trimChars l) = trimChars l :=
  trimChars_eq_self (fun _ h => head?_trimChars h) (fun _ h => getLast?_trimChars h)

@[simp]
theorem toList_trim (s : String) : (trim s).toList = trimChars s.toList := by
  simp [trim]

@[simp]
theorem trim_trim (s : String) : trim (trim s) = trim s := by
  rw [trim, toList_trim, trimChars_trimChars, trim]

theorem trim_eq_self_of_noSpace {s : String} (h : ∀ c ∈ s.toList, isSpace c = false) :
    trim s = s := by
  rw [trim, trimChars_eq_self, String.ofList_toList]
  · exact fun c hc => h c (List.mem_of_head? hc)
  · exact fun c hc => h c (List.mem_of_getLast? hc)

theorem isSpace_of_trimChars_nil {l : List Char} (h : trimChars l = []) : ∀ c ∈ l, isSpace c = true := by
  rw [trimChars, List.rdropWhile_eq_nil_iff] at h
  have hnil : l.dropWhile isSpace = [] := by
    cases hl : l.dropWhile isSpace with
    | nil => rfl
    | cons c rest =>
      have hc := head?_dropWhile_false (l := l) (p := isSpace) (c := c) (by rw [hl]; rfl)
      rw [h c (by simp [hl])] at hc
      cases hc
  exact List.dropWhile_eq_nil_iff.mp hnil

/-- A text with a character that is no white space is not blank. -/
theorem trim_ne_empty {s : String} {c : Char} (hc : c ∈ s.toList) (h : isSpace c = false) :
    trim s ≠ "" := by
  intro hblank
  have hnil : trimChars s.toList = [] := by
    rw [← toList_trim, hblank]
    rfl
  have hspace := isSpace_of_trimChars_nil hnil c hc
  rw [h] at hspace
  cases hspace

theorem trimChars_nil_of_isSpace {l : List Char} (h : ∀ c ∈ l, isSpace c = true) : trimChars l = [] := by
  rw [trimChars, List.dropWhile_eq_nil_iff.mpr h]
  rfl

theorem isSpace_collapseChars {l : List Char} (h : ∀ c ∈ l, isSpace c = true) :
    ∀ c ∈ collapseChars l, isSpace c = true := by
  induction l with
  | nil => simp [collapseChars]
  | cons d l ih =>
    have ih := ih fun c hc => h c (by simp [hc])
    rw [collapseChars, if_pos (h d (by simp))]
    split
    · next rest heq =>
      rw [heq] at ih
      exact ih
    · intro c hc
      rcases List.mem_cons.mp hc with rfl | hc
      · decide
      · exact ih c hc

/-- Text that is blank stays blank when its runs are collapsed first. -/
theorem trim_collapse_blank {s : String} (h : trim s = "") : trim (collapse s) = "" := by
  have hl : trimChars s.toList = [] := by rw [← toList_trim, h]; rfl
  have hc := isSpace_collapseChars (isSpace_of_trimChars_nil hl)
  rw [trim, collapse, String.toList_ofList, trimChars_nil_of_isSpace hc, String.ofList_nil]

/-! `length`, `slice` and `indexOf` of the runtime count UTF-16 units, and may cut a character in two. -/

section Units

abbrev Units := List UInt16

def charUnits (c : Char) : Units :=
  let n := c.toNat
  if n < 0x10000 then [n.toUInt16]
  else [(0xD800 + (n - 0x10000) / 0x400).toUInt16, (0xDC00 + (n - 0x10000) % 0x400).toUInt16]

def units (s : String) : Units := s.toList.flatMap charUnits

/-- A text of characters of the first plane has as many units as characters. -/
theorem length_flatMap_charUnits {cs : List Char} (h : ∀ c ∈ cs, c.toNat < 0x10000) :
    (cs.flatMap charUnits).length = cs.length := by
  induction cs with
  | nil => rfl
  | cons c cs ih =>
    have hc : (charUnits c).length = 1 := by
      simp only [charUnits, h c (List.mem_cons_self ..), if_true, List.length_singleton]
    rw [List.flatMap_cons, List.length_append, hc, ih fun d hd => h d (List.mem_cons_of_mem c hd),
      List.length_cons]
    omega

theorem length_units {s : String} (h : ∀ c ∈ s.toList, c.toNat < 0x10000) :
    (units s).length = s.length := by
  rw [units, length_flatMap_charUnits h, String.length_toList]

end Units

end T560.Js
