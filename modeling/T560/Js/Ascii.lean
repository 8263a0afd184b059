import T560.Js.Value

/-! A runtime for ASCII text, to run the model on concrete inputs. -/
namespace T560.Js

theorem toLower_of_not_upper {c : Char} (h : ¬ (65 ≤ c.toNat ∧ c.toNat ≤ 90)) : c.toLower = c := by
  have h' : ¬ (c.val ≥ 'A'.val ∧ c.val ≤ 'Z'.val) := h
  unfold Char.toLower
  rw [dif_neg h']

theorem toNat_toLower_of_upper {c : Char} (h : 65 ≤ c.toNat ∧ c.toNat ≤ 90) :
    c.toLower.toNat = c.toNat + 32 := by
  have h' : c.val ≥ 'A'.val ∧ c.val ≤ 'Z'.val := h
  unfold Char.toLower
  rw [dif_pos h']
  have h2 : c.val.toNat ≤ 90 := h.2
  show (c.val + ('a'.val - 'A'.val)).toNat = c.val.toNat + 32
  rw [UInt32.toNat_add]
  have : ('a'.val - 'A'.val).toNat = 32 := by decide
  omega

/-- Only small letters have another character as a capital. -/
theorem mem_of_mem_map_toLower {mark : Char} {text : List Char}
    (h : mark ∈ text.map Char.toLower) (hmark : ¬ (97 ≤ mark.toNat ∧ mark.toNat ≤ 122)) :
    mark ∈ text := by
  obtain ⟨c, hc, hlower⟩ := List.mem_map.mp h
  by_cases hupper : 65 ≤ c.toNat ∧ c.toNat ≤ 90
  · have hcode := toNat_toLower_of_upper hupper
    rw [hlower] at hcode
    omega
  · rw [toLower_of_not_upper hupper] at hlower
    exact hlower ▸ hc

theorem toLower_toLower (c : Char) : c.toLower.toLower = c.toLower := by
  by_cases h : 65 ≤ c.toNat ∧ c.toNat ≤ 90
  · apply toLower_of_not_upper
    have := toNat_toLower_of_upper h
    omega
  · rw [toLower_of_not_upper h, toLower_of_not_upper h]

theorem isSpace_toLower (c : Char) : isSpace c.toLower = isSpace c := by
  by_cases h : 65 ≤ c.toNat ∧ c.toNat ≤ 90
  · have hl := toNat_toLower_of_upper h
    have hf : ∀ n, 65 ≤ n → n ≤ 122 → isSpace (Char.ofNat n) = false := by decide
    have hc : isSpace c = false := by
      rw [← Char.ofNat_toNat c]
      exact hf _ h.1 (by omega)
    have hd : isSpace c.toLower = false := by
      rw [← Char.ofNat_toNat c.toLower]
      exact hf _ (by omega) (by omega)
    rw [hc, hd]
  · rw [toLower_of_not_upper h]

/-- Lower-casing and trimming leave a text alone that has neither white space nor capitals. -/
theorem lower_trim_of_codes (rt : Runtime) {s : String} (h : ∀ c ∈ s.toList,
    45 ≤ c.toNat ∧ c.toNat ≤ 122 ∧ ¬ (65 ≤ c.toNat ∧ c.toNat ≤ 90)) :
    rt.toLowerCase (trim s) = s := by
  have hspace : ∀ c ∈ s.toList, isSpace c = false := by
    intro c hc
    have hn : ∀ n, 45 ≤ n → n ≤ 122 → isSpace (Char.ofNat n) = false := by decide
    rw [← Char.ofNat_toNat c]
    exact hn _ (h c hc).1 (h c hc).2.1
  have hascii : s.toList.all isAscii = true := by
    rw [List.all_eq_true]
    intro c hc
    have := h c hc
    simp only [isAscii, decide_eq_true_eq]
    omega
  have hlower : s.toList.map Char.toLower = s.toList := by
    refine (List.map_congr_left fun c hc => ?_).trans (List.map_id _)
    exact toLower_of_not_upper (h c hc).2.2
  rw [trim_eq_self_of_noSpace hspace, rt.lower_ascii s hascii, hlower, String.ofList_toList]

def asciiLower (s : String) : String := String.ofList (s.toList.map Char.toLower)

theorem trimChars_map_toLower (l : List Char) :
    trimChars (l.map Char.toLower) = (trimChars l).map Char.toLower := by
  have hp : (isSpace ∘ Char.toLower) = isSpace := funext isSpace_toLower
  simp only [trimChars, List.rdropWhile, List.dropWhile_map, hp, ← List.map_reverse]

def isDigit (c : Char) : Bool := 48 ≤ c.toNat && c.toNat ≤ 57

/-- Different numbers are written differently. -/
theorem toString_nat_injective {m n : Nat} (h : toString m = toString n) : m = n := by
  have hdigits := congrArg String.toList h
  rw [Nat.toString_eq_repr, Nat.toString_eq_repr, Nat.toList_repr, Nat.toList_repr] at hdigits
  rw [← @Nat.ofDigitChars_ten_toDigits m, hdigits, Nat.ofDigitChars_ten_toDigits]

theorem isDigit_of_mem_toString {n : Nat} {c : Char} (h : c ∈ (toString n).toList) :
    isDigit c = true := by
  rw [Nat.toString_eq_repr, Nat.toList_repr] at h
  have hd := Nat.isDigit_of_mem_toDigits (by decide) (by decide) h
  simp only [Char.isDigit, Bool.and_eq_true, decide_eq_true_eq, UInt32.le_iff_toNat_le] at hd
  simp only [isDigit, Bool.and_eq_true, decide_eq_true_eq]
  exact hd

def decimalValue (digits : List Char) : Nat :=
  digits.foldl (fun n c => 10 * n + (c.toNat - 48)) 0

/-- The number a text of decimal digits denotes; blank text is zero. -/
def decimalNumber (s : String) : Num :=
  if (trim s).toList.all isDigit then .fin (decimalValue (trim s).toList) else .nan

theorem decimalNumber_digits {s : String} {n : Nat} (h : (trim s).toList.all isDigit = true)
    (hn : decimalValue (trim s).toList = n) : decimalNumber s = .fin n := by
  rw [decimalNumber, if_pos h, hn]

theorem digits_toString (n : Nat) :
    (toString n).toList ≠ [] ∧ (toString n).toList.all isDigit = true := by
  refine ⟨fun hnil => ?_, List.all_eq_true.mpr fun c hc => isDigit_of_mem_toString hc⟩
  rw [Nat.toString_eq_repr, Nat.toList_repr] at hnil
  exact Nat.toDigits_ne_nil hnil

theorem isSpace_of_isDigit {c : Char} (h : isDigit c = true) : isSpace c = false := by
  have hcode : ∀ n, 48 ≤ n → n ≤ 57 → isSpace (Char.ofNat n) = false := by decide
  simp only [isDigit, Bool.and_eq_true, decide_eq_true_eq] at h
  rw [← Char.ofNat_toNat c]
  exact hcode _ h.1 h.2

theorem decimalValue_toString (n : Nat) : decimalValue (toString n).toList = n := by
  rw [Nat.toString_eq_repr, Nat.toList_repr]
  have hdecimal := @Nat.ofDigitChars_ten_toDigits n
  rw [Nat.ofDigitChars_eq_foldl] at hdecimal
  exact hdecimal

/-- The decimal text of a number denotes it. -/
theorem decimalNumber_toString (n : Nat) : decimalNumber (toString n) = .fin n := by
  obtain ⟨-, hdigits⟩ := digits_toString n
  have htrim : trim (toString n) = toString n := trim_eq_self_of_noSpace fun c hc =>
    isSpace_of_isDigit (List.all_eq_true.mp hdigits c hc)
  refine decimalNumber_digits ?_ ?_
  · rw [htrim]
    exact hdigits
  · rw [htrim]
    exact decimalValue_toString n

theorem toLower_of_isSpace {c : Char} (h : isSpace c = true) : c.toLower = c := by
  apply toLower_of_not_upper
  intro hupper
  have hcode : ∀ n, 65 ≤ n → n ≤ 90 → isSpace (Char.ofNat n) = false := by decide
  rw [← Char.ofNat_toNat c, hcode _ hupper.1 hupper.2] at h
  cases h

/-- White space at the ends of a text stays. -/
theorem head?_asciiLower (c : Char) (text : List Char) (h : isSpace c = true) :
    (asciiLower (String.ofList (c :: text))).toList.head? = some c := by
  simp [asciiLower, toLower_of_isSpace h]

theorem getLast?_asciiLower (text : List Char) (c : Char) (h : isSpace c = true) :
    (asciiLower (String.ofList (text ++ [c]))).toList.getLast? = some c := by
  simp [asciiLower, toLower_of_isSpace h]

def asciiRuntime : Runtime where
  toLowerCase := asciiLower
  numberText
    | .fin q => if q.den = 1 then toString q.num else ""
    | .posInf => "Infinity"
    | .negInf => "-Infinity"
    | .nan => "NaN"
  textNumber := decimalNumber
  lower_lower s := by
    have : Char.toLower ∘ Char.toLower = Char.toLower := funext toLower_toLower
    simp only [asciiLower, String.toList_ofList, List.map_map, this]
  lower_ascii s _ := rfl
  trim_lower s := by simp [trim, asciiLower, trimChars_map_toLower]

end T560.Js
