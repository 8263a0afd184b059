import Mathlib.Algebra.Order.Floor.Ring
import Mathlib.Data.Rat.Floor
import Mathlib.Tactic.Linarith
import Mathlib.Tactic.NormNum
import T560.Checkout.Price
import T560.Js.Text

/-!
# Written prices

A price that was written for an amount is read back whole when its currency stands as a sign and
its digits fit the patterns: there are at most three in front of the point, or commas separate
them. Else only the first three digits are read, or nothing.
-/

namespace T560.Checkout

open Js (isDigit isSpace decimalValue trimChars)
open Preference

/-- The currencies of the quotes that `parsePrice` returns. -/
def Produced (currency : String) : Prop :=
  ∃ text quote, parsePrice text = some quote ∧ quote.currency = currency

section Writing

/-- Three digits. -/
def pad3 (n : Nat) : List Char :=
  [Nat.digitChar (n / 100), Nat.digitChar (n / 10 % 10), Nat.digitChar (n % 10)]

def digits (n : Nat) : List Char := (toString n).toList

/-- The decimal digits of a number with a comma in front of every three of them. -/
def separated (n : Nat) : List Char :=
  if n < 1000 then digits n else separated (n / 1000) ++ ',' :: pad3 (n % 1000)

/-- The text of so many hundredths, as `toDisplayPrice` writes it or with separators. -/
def priceText (currency : String) (hundredths : Nat) (separators : Bool) : String :=
  if separators then
    currency ++ String.ofList (separated (hundredths / 100)) ++ "." ++
      String.ofList (pad2 (hundredths % 100))
  else toDisplayPrice currency (.fin (hundredths / 100))

end Writing

section Digits

theorem isDigit_digitChar {d : Nat} (h : d < 10) : isDigit (Nat.digitChar d) = true := by
  have hall : ∀ d < 10, isDigit (Nat.digitChar d) = true := by decide
  exact hall d h

theorem digitChar_value {d : Nat} (h : d < 10) : (Nat.digitChar d).toNat - 48 = d := by
  have hall : ∀ d < 10, (Nat.digitChar d).toNat - 48 = d := by decide
  exact hall d h

theorem isDigit_pad3 {n : Nat} (h : n < 1000) : ∀ c ∈ pad3 n, isDigit c = true := by
  intro c hc
  simp only [pad3, List.mem_cons, List.not_mem_nil, or_false] at hc
  rcases hc with rfl | rfl | rfl
  · exact isDigit_digitChar (by omega)
  · exact isDigit_digitChar (by omega)
  · exact isDigit_digitChar (by omega)

theorem isDigit_pad2 {n : Nat} (h : n < 100) : ∀ c ∈ pad2 n, isDigit c = true := by
  intro c hc
  simp only [pad2, List.mem_cons, List.not_mem_nil, or_false] at hc
  rcases hc with rfl | rfl
  · exact isDigit_digitChar (by omega)
  · exact isDigit_digitChar (by omega)

theorem decimalValue_snoc (l : List Char) (c : Char) :
    decimalValue (l ++ [c]) = 10 * decimalValue l + (c.toNat - 48) := by
  simp [decimalValue]

theorem decimalValue_pad3 (l : List Char) {n : Nat} (h : n < 1000) :
    decimalValue (l ++ pad3 n) = 1000 * decimalValue l + n := by
  have hsplit : l ++ pad3 n = l ++ [Nat.digitChar (n / 100)] ++ [Nat.digitChar (n / 10 % 10)] ++
      [Nat.digitChar (n % 10)] := by simp [pad3]
  rw [hsplit, decimalValue_snoc, decimalValue_snoc, decimalValue_snoc, digitChar_value (by omega),
    digitChar_value (by omega), digitChar_value (by omega)]
  omega

theorem decimalValue_pad2 {n : Nat} (h : n < 100) : decimalValue (pad2 n) = n := by
  have hsplit : pad2 n = [] ++ [Nat.digitChar (n / 10)] ++ [Nat.digitChar (n % 10)] := rfl
  rw [hsplit, decimalValue_snoc, decimalValue_snoc, digitChar_value (by omega),
    digitChar_value (by omega)]
  simp only [decimalValue, List.foldl_nil]
  omega

theorem decimalValue_lt {l : List Char} (h : ∀ c ∈ l, isDigit c = true) :
    decimalValue l < 10 ^ l.length := by
  induction l using List.reverseRecOn with
  | nil => exact Nat.one_pos
  | append_singleton l c ih =>
    have hl := ih fun d hd => h d (by simp [hd])
    have hc := h c (by simp)
    simp only [isDigit, Bool.and_eq_true, decide_eq_true_eq] at hc
    rw [decimalValue_snoc, List.length_append, List.length_singleton, pow_succ]
    omega

theorem isDigit_digits (n : Nat) : ∀ c ∈ digits n, isDigit c = true :=
  List.all_eq_true.mp (Js.digits_toString n).2

theorem length_digits_le_iff {n : Nat} : (digits n).length ≤ 3 ↔ n < 1000 := by
  rw [digits, Nat.toString_eq_repr, Nat.toList_repr]
  exact Nat.length_toDigits_le_iff (by omega) (by omega)

/-- One to three digits, and groups of three behind commas. -/
def Grouped (text : List Char) : Prop :=
  ∃ lead groups, text = lead ++ List.flatten groups ∧ lead ≠ [] ∧ lead.length ≤ 3 ∧
    (∀ c ∈ lead, isDigit c = true) ∧
      ∀ g ∈ groups, ∃ a b c, g = [',', a, b, c] ∧ isDigit a = true ∧ isDigit b = true ∧
        isDigit c = true

theorem grouped_separated (n : Nat) :
    Grouped (separated n) ∧ decimalValue ((separated n).filter isDigit) = n := by
  induction n using Nat.strong_induction_on with
  | _ n ih =>
    rw [separated]
    split
    · next hn =>
      refine ⟨⟨digits n, [], by simp, (Js.digits_toString n).1, length_digits_le_iff.mpr hn,
        isDigit_digits n, by simp⟩, ?_⟩
      rw [List.filter_eq_self.mpr (isDigit_digits n)]
      exact Js.decimalValue_toString n
    · next hn =>
      obtain ⟨⟨lead, groups, htext, hne, hlen, hlead, hgroups⟩, hvalue⟩ := ih (n / 1000) (by omega)
      have hlast := isDigit_pad3 (n := n % 1000) (by omega)
      refine ⟨⟨lead, groups ++ [',' :: pad3 (n % 1000)], by simp [htext], hne, hlen, hlead, ?_⟩, ?_⟩
      · intro g hg
        rcases List.mem_append.mp hg with hg | hg
        · exact hgroups g hg
        · obtain rfl := List.mem_singleton.mp hg
          exact ⟨_, _, _, rfl, hlast _ (by simp [pad3]), hlast _ (by simp [pad3]),
            hlast _ (by simp [pad3])⟩
      · have hcomma : isDigit ',' = false := by decide
        rw [List.filter_append, List.filter_cons_of_neg (by simp [hcomma]),
          List.filter_eq_self.mpr hlast, decimalValue_pad3 _ (by omega), hvalue]
        omega

end Digits

section Reading

theorem takes_leadingDigits {lead rest : List Char} (hne : lead ≠ []) (hlen : lead.length ≤ 3)
    (hdigits : ∀ c ∈ lead, isDigit c = true)
    (hstop : lead.length = 3 ∨ ∀ c, rest.head? = some c → isDigit c = false) :
    Takes leadingDigits lead rest := by
  obtain ⟨a, more, rfl⟩ := List.exists_cons_of_ne_nil hne
  refine takes_seq (u := [a]) (takes_item (hdigits a (by simp))) ?_
  match more, hlen, hdigits, hstop with
  | [], _, _, hstop =>
    refine takes_upTo_nil (fails_item (hstop.resolve_left (by simp)))
  | [b], _, hdigits, hstop =>
    refine takes_upTo (u := [b]) (v := []) (takes_item (hdigits b (by simp))) ?_
    exact takes_upTo_nil (fails_item (hstop.resolve_left (by simp)))
  | [b, c], _, hdigits, _ =>
    refine takes_upTo (u := [b]) (v := [c]) (takes_item (hdigits b (by simp))) ?_
    exact takes_upTo (u := [c]) (v := []) (takes_item (hdigits c (by simp))) takes_upTo_zero

theorem fails_digitGroup {l : List Char} (h : l.head? ≠ some ',') : Fails digitGroup l := by
  refine fails_seq (fails_item fun c hc => ?_)
  rw [beq_eq_false_iff_ne]
  rintro rfl
  exact h hc

theorem fails_cents {l : List Char} (h : l.head? ≠ some '.') : Fails cents l := by
  refine fails_seq (fails_item fun c hc => ?_)
  rw [beq_eq_false_iff_ne]
  rintro rfl
  exact h hc

/-- Digits in groups are read whole, and two more behind the point. -/
theorem takes_priceDigits {text : List Char} (h : Grouped text) {n : Nat} (hn : n < 100)
    (rest : List Char) : Takes priceDigits (text ++ '.' :: pad2 n) rest := by
  obtain ⟨lead, groups, rfl, hne, hlen, hlead, hgroups⟩ := h
  rw [List.append_assoc]
  refine takes_seq (takes_leadingDigits hne hlen hlead (Or.inr ?_)) ?_
  · cases groups with
    | nil =>
      rintro c hc
      obtain rfl : '.' = c := by simpa using hc
      decide
    | cons g groups =>
      obtain ⟨a, b, d, rfl, -⟩ := hgroups g (by simp)
      rintro c hc
      obtain rfl : ',' = c := by simpa using hc
      decide
  refine takes_seq (takes_many_flatten groups ?_ ?_ ?_) ?_
  · intro g hg
    obtain ⟨a, b, d, rfl, -⟩ := hgroups g hg
    exact List.cons_ne_nil _ _
  · intro g hg t
    obtain ⟨a, b, d, rfl, ha, hb, hd⟩ := hgroups g hg
    exact takes_items (.cons (by simp) (.cons ha (.cons hb (.cons hd .nil))))
  · exact fails_digitGroup (by simp)
  · have hpad := isDigit_pad2 hn
    have hcents : Takes cents ('.' :: pad2 n) rest :=
      takes_items (.cons (by simp) (.cons (hpad _ (by simp [pad2])) (.cons (hpad _ (by simp [pad2]))
        .nil)))
    have hopt := takes_upTo (n := 0) (v := []) hcents takes_upTo_zero
    rwa [List.append_nil] at hopt

/-- Of a run of digits the first three are read. -/
theorem takes_priceDigits_three {a b c d : Char} {rest : List Char}
    (h : ∀ x ∈ [a, b, c, d], isDigit x = true) : Takes priceDigits [a, b, c] (d :: rest) := by
  have hd := h d (by simp)
  have hlead : Takes leadingDigits [a, b, c] ([] ++ d :: rest) :=
    takes_leadingDigits (by simp) (by simp) (fun x hx => h x (by
      simp only [List.mem_cons, List.not_mem_nil, or_false] at hx ⊢
      tauto)) (Or.inl rfl)
  refine takes_seq (v := []) hlead (takes_seq (u := []) (v := []) (takes_many_nil ?_) ?_)
  · refine fails_digitGroup ?_
    rintro hcomma
    obtain rfl : d = ',' := by simpa using hcomma
    cases hd
  · refine takes_upTo_nil (fails_cents ?_)
    rintro hpoint
    obtain rfl : d = '.' := by simpa using hpoint
    cases hd

end Reading

section Signs

/-- The signs that stand for themselves. -/
def OWN_SIGNS : List String := ["$", "C$", "US$", "€", "£"]

theorem takes_word {s : String} (h : ∀ x ∈ s.toList, x.toUpper = x) (rest : List Char) :
    Takes (word s) s.toList rest := by
  refine takes_items ?_
  rw [List.forall₂_map_left_iff, List.forall₂_same]
  intro x hx
  simp [letter, h x hx]

theorem fails_word {w : String} {x : Char} {l : List Char} (hw : w.toList.head? = some x)
    (h : ∀ c, l.head? = some c → c.toUpper ≠ x) : Fails (word w) l := by
  obtain ⟨xs, hxs⟩ : ∃ xs, w.toList = x :: xs := ⟨_, List.eq_cons_of_mem_head? hw⟩
  rw [word, hxs, List.map_cons]
  exact fails_seq (fails_item fun c hc => beq_eq_false_iff_ne.mpr (h c hc))

theorem takes_either_word (before : List String) {after : List String} {s : String} (x : Char)
    (hs : ∀ x ∈ s.toList, x.toUpper = x) (hx : s.toList.head? = some x)
    (hbefore : ∀ w ∈ before, ∃ y, w.toList.head? = some y ∧ x ≠ y) (rest : List Char) :
    Takes (either ((before ++ s :: after).map word)) s.toList rest := by
  induction before with
  | nil => exact takes_either_head (takes_word hs rest)
  | cons w before ih =>
    obtain ⟨y, hy, hne⟩ := hbefore w (by simp)
    refine takes_either_tail (fails_word hy fun c hc => ?_) (ih fun v hv => hbefore v (by simp [hv]))
    rw [List.head?_append, hx] at hc
    obtain rfl : x = c := by simpa using hc
    rwa [hs x (List.mem_of_mem_head? hx)]

theorem takes_currencySign {c : String} (hc : c ∈ OWN_SIGNS) (rest : List Char) :
    Takes currencySign c.toList rest := by
  simp only [OWN_SIGNS, List.mem_cons, List.not_mem_nil, or_false] at hc
  rcases hc with rfl | rfl | rfl | rfl | rfl
  · exact takes_either_word ["C$", "CA$", "CAD$", "US$", "USD$"] '$' (by decide)
      (by decide) (by simp) rest
  · exact takes_either_word [] 'C' (by decide) (by decide) (by simp) rest
  · exact takes_either_word ["C$", "CA$", "CAD$"] 'U' (by decide) (by decide)
      (by simp) rest
  · exact takes_either_word ["C$", "CA$", "CAD$", "US$", "USD$", "$"] '€'
      (by decide) (by decide) (by simp) rest
  · exact takes_either_word ["C$", "CA$", "CAD$", "US$", "USD$", "$", "€"] '£'
      (by decide) (by decide) (by simp) rest

theorem ownSign_chars {c : String} (hc : c ∈ OWN_SIGNS) :
    (∀ x ∈ c.toList, isSpace x = false) ∧ c.toList.filter (fun x => isDigit x || x == '.') = [] ∧
      upper c.toList = c ∧ currencyOfSign c = c := by
  simp only [OWN_SIGNS, List.mem_cons, List.not_mem_nil, or_false] at hc
  rcases hc with rfl | rfl | rfl | rfl | rfl <;> decide

/-- What the first attempt makes of a sign and an amount. -/
theorem parsePrefixed_written {c : String} (hc : c ∈ OWN_SIGNS) {body rest : List Char}
    (hbody : Takes priceDigits body rest)
    (hplain : ∀ x ∈ body, isDigit x = true ∨ x = ',' ∨ x = '.')
    (hstart : ∀ x, (body ++ rest).head? = some x → isDigit x = true) :
    parsePrefixed (c.toList ++ body ++ rest) =
      quote (numberOf (body.filter fun x => isDigit x || x == '.')) c := by
  obtain ⟨hspace, hfilter, hupper, hsign⟩ := ownSign_chars hc
  have hspaces : Takes (many (item isSpace)) [] (body ++ rest) :=
    takes_many_nil (fails_item fun x hx => Js.isSpace_of_isDigit (hstart x hx))
  have hplainSpace : ∀ x ∈ body, isSpace x = false := by
    intro x hx
    rcases hplain x hx with h | rfl | rfl
    · exact Js.isSpace_of_isDigit h
    · decide
    · decide
  have htoken : Takes PRICE_TOKEN (c.toList ++ ([] ++ body)) rest :=
    takes_seq (takes_currencySign hc _) (takes_seq hspaces hbody)
  have hexec := exec_takes htoken none
  rw [List.nil_append] at hexec
  have hself : trimChars (c.toList ++ body) = c.toList ++ body := by
    refine Js.trimChars_eq_self (fun x hx => ?_) fun x hx => ?_
    · rcases List.mem_append.mp (List.mem_of_mem_head? hx) with h | h
      · exact hspace x h
      · exact hplainSpace x h
    · rcases List.mem_append.mp (List.mem_of_mem_getLast? hx) with h | h
      · exact hspace x h
      · exact hplainSpace x h
  have hsignOf : signOf (c.toList ++ body) = c := by
    have htaken : between (none, c.toList ++ body) (c.toList.getLast?.or none, body) = c.toList :=
      between_append rfl
    rw [signOf, exec_takes (takes_currencySign hc body) none]
    simp only [htaken, hupper]
  have htaken : between (none, c.toList ++ body ++ rest) ((c.toList ++ body).getLast?.or none, rest) =
      c.toList ++ body := between_append rfl
  rw [parsePrefixed, hexec, Option.bind_some]
  simp only [htaken, hself, hsignOf, hsign, List.filter_append, hfilter, List.nil_append]

end Signs

section Amounts

theorem numberOf_digits {l : List Char} (h : ∀ c ∈ l, isDigit c = true) :
    numberOf l = decimalValue l := by
  have hpoint : ∀ c ∈ l, decide (c ≠ '.') = true := by
    intro c hc
    rw [decide_eq_true_eq]
    rintro rfl
    cases h _ hc
  have htake : l.takeWhile (· ≠ '.') = l := List.takeWhile_eq_self_iff.mpr hpoint
  have hdrop : l.dropWhile (· ≠ '.') = [] := List.dropWhile_eq_nil_iff.mpr hpoint
  simp only [numberOf, htake, hdrop]
  simp [decimalValue]

theorem numberOf_point {l fraction : List Char} (h : ∀ c ∈ l, isDigit c = true) :
    numberOf (l ++ '.' :: fraction) =
      decimalValue l + (decimalValue fraction : ℚ) / 10 ^ fraction.length := by
  have hpoint : ∀ c ∈ l, decide (c ≠ '.') = true := by
    intro c hc
    rw [decide_eq_true_eq]
    rintro rfl
    cases h _ hc
  have htake : (l ++ '.' :: fraction).takeWhile (· ≠ '.') = l := by
    rw [List.takeWhile_append_of_pos hpoint]
    simp
  have hdrop : (l ++ '.' :: fraction).dropWhile (· ≠ '.') = '.' :: fraction := by
    rw [List.dropWhile_append_of_pos hpoint]
    simp
  simp only [numberOf, htake, hdrop, List.drop_one, List.tail_cons]

/-- The number of hundredths that an amount is written with is the one it was given. -/
theorem toFixed2_hundredths (n : Nat) :
    toFixed2 ((n : ℚ) / 100) = toString (n / 100) ++ "." ++ String.ofList (pad2 (n % 100)) := by
  have hnonneg : (0 : ℚ) ≤ (n : ℚ) / 100 := by positivity
  have hexact : |(n : ℚ) / 100| * 100 + 1 / 2 = ((n : Int) : ℚ) + 1 / 2 := by
    rw [abs_of_nonneg hnonneg]
    push_cast
    ring
  have hfloor : (|(n : ℚ) / 100| * 100 + 1 / 2).floor.toNat = n := by
    have hwhole : ⌊((n : Int) : ℚ) + 1 / 2⌋ = n :=
      Int.floor_eq_iff.mpr ⟨by linarith, by linarith⟩
    rw [hexact]
    exact congrArg Int.toNat hwhole
  rw [toFixed2]
  simp only [hfloor, if_neg (not_lt.mpr hnonneg), String.empty_append]

theorem toList_priceText_plain {c : String} (n : Nat) : (priceText c n false).toList =
    c.toList ++ (digits (n / 100) ++ '.' :: pad2 (n % 100)) := by
  have hdisplay : priceText c n false = c ++ toFixed2 ((n : ℚ) / 100) := by
    rw [priceText, if_neg Bool.false_ne_true]
    simp only [toDisplayPrice]
    split
    · next hc => rw [hc]
    · rfl
  rw [hdisplay, toFixed2_hundredths]
  simp [digits]

theorem toList_priceText_separated {c : String} (n : Nat) : (priceText c n true).toList =
    c.toList ++ (separated (n / 100) ++ '.' :: pad2 (n % 100)) := by
  rw [priceText, if_pos rfl]
  simp

/-- The digits are in groups of three, or there are not more than three. -/
def InGroups (n : Nat) (separators : Bool) : Prop := n < 100000 ∨ separators = true

theorem toList_priceText_inGroups {c : String} {n : Nat} {separators : Bool}
    (h : InGroups n separators) : (priceText c n separators).toList =
      c.toList ++ (separated (n / 100) ++ '.' :: pad2 (n % 100)) := by
  cases separators with
  | true => exact toList_priceText_separated n
  | false =>
    have hn : n / 100 < 1000 := by
      rcases h with h | h
      · omega
      · cases h
    rw [toList_priceText_plain, separated, if_pos hn]

theorem quote_amount {n : Nat} (h0 : 0 < n) (hn : n < 100000000) (c : String) :
    quote ((n : ℚ) / 100) c = some ⟨(n : ℚ) / 100, c, toDisplayPrice c (.fin ((n : ℚ) / 100))⟩ := by
  rw [quote, if_pos]
  have hpos : (0 : ℚ) < n := by exact_mod_cast h0
  have hlt : (n : ℚ) < 100000000 := by exact_mod_cast hn
  constructor
  · positivity
  · linarith

end Amounts

section Codes

/-- Whether one of the currency codes begins with the character. -/
def startsCode (c : Char) : Bool := CURRENCY_CODES.any fun w => w.toList.head? == some c.toUpper

theorem fails_trailingCode {l : List Char} (h : ∀ c ∈ l, startsCode c = false) :
    Fails trailingCode l := by
  refine fails_seq_behind (advances_many advances_item) fun t ht => fails_seq (fails_either ?_)
  intro m hm
  obtain ⟨w, hw, rfl⟩ := List.mem_map.mp hm
  have hfirst : ∃ x, w.toList.head? = some x := by
    have hall : ∀ w ∈ CURRENCY_CODES, ∃ x, w.toList.head? = some x := by
      intro w hw
      simp only [CURRENCY_CODES, List.mem_cons, List.not_mem_nil, or_false] at hw
      rcases hw with rfl | rfl | rfl | rfl <;> exact ⟨_, rfl⟩
    exact hall w hw
  obtain ⟨x, hx⟩ := hfirst
  refine fails_word hx ?_
  rintro c hc rfl
  have hno := h c (ht.subset (List.mem_of_mem_head? hc))
  rw [startsCode, List.any_eq_false] at hno
  exact hno w hw (by rw [hx, beq_self_eq_true])

theorem advances_priceDigits : Advances priceDigits :=
  advances_seq (advances_seq advances_item (advances_upTo advances_item 2))
    (advances_seq (advances_many (advances_items _)) (advances_upTo (advances_items _) 1))

/-- No code stands behind an amount when no digit stands in front of one. -/
theorem parseTrailing_none {front back : List Char} (hfront : ∀ c ∈ front, isDigit c = false)
    (hback : ∀ c ∈ back, startsCode c = false) : parseTrailing (front ++ back) = none := by
  have hexec : exec PRICE_TRAILING none (front ++ back) = none := by
    rw [exec_append]
    · exact exec_none (fun t ht => fails_seq_behind advances_priceDigits fun u hu =>
        fails_trailingCode fun c hc => hback c (ht.subset (hu.subset hc))) _
    · intro x hx t
      refine fails_seq (fails_seq (fails_seq (fails_item fun c hc => ?_)))
      obtain rfl : x = c := by simpa using hc
      exact hfront x hx
  rw [parseTrailing, trailingGroups, hexec]
  rfl

end Codes

section Produced

/-- The currencies of the first attempt and those of the second. -/
def CURRENCIES : List String := OWN_SIGNS ++ ["EUR ", "GBP "]

theorem upper_of_word {w : String} {p q : Place Char} (h : q ∈ word w p) : upper (between p q) = w := by
  obtain ⟨u, hu, hall⟩ := mem_items h
  have hsame : List.Forall₂ (· = ·) w.toList (u.map Char.toUpper) := by
    rw [List.forall₂_map_left_iff] at hall
    rw [List.forall₂_map_right_iff]
    exact hall.imp fun x c hc => (beq_iff_eq.mp hc).symm
  rw [List.forall₂_eq_eq_eq] at hsame
  rw [between_append hu, upper, ← hsame, String.ofList_toList]

theorem upper_of_either {ws : List String} {p q : Place Char} (h : q ∈ either (ws.map word) p) :
    upper (between p q) ∈ ws := by
  obtain ⟨m, hm, hq⟩ := List.mem_flatMap.mp h
  obtain ⟨w, hw, rfl⟩ := List.mem_map.mp hm
  rw [upper_of_word hq]
  exact hw

theorem currencyOfSign_mem (token : List Char) : currencyOfSign (signOf token) ∈ CURRENCIES := by
  have hsign : signOf token ∈ CURRENCY_SIGNS := by
    rw [signOf]
    split
    · next hexec => exact upper_of_either (mem_of_exec hexec)
    · decide
  have hall : ∀ sign ∈ CURRENCY_SIGNS, currencyOfSign sign ∈ CURRENCIES := by decide
  exact hall _ hsign

theorem currency_of_quote {amount : ℚ} {currency : String} {q : PriceQuote}
    (h : quote amount currency = some q) : q.currency = currency := by
  rw [quote] at h
  split at h
  · rw [← Option.some.inj h]
  · cases h

/-- A quote has one of seven currencies. -/
theorem mem_currencies_of_produced {currency : String} (h : Produced currency) :
    currency ∈ CURRENCIES := by
  obtain ⟨text, q, hparse, rfl⟩ := h
  rw [parsePrice, Option.or_eq_some_iff] at hparse
  rcases hparse with hprefixed | ⟨-, htrailing⟩
  · obtain ⟨⟨s, e⟩, -, hquote⟩ := Option.bind_eq_some_iff.mp hprefixed
    rw [currency_of_quote hquote]
    exact currencyOfSign_mem _
  · obtain ⟨⟨shown, code⟩, hgroups, hquote⟩ := Option.bind_eq_some_iff.mp htrailing
    have hcode : upper code ∈ CURRENCY_CODES := by
      obtain ⟨⟨s, e⟩, -, hfind⟩ := Option.bind_eq_some_iff.mp hgroups
      obtain ⟨mid, -, hfind⟩ := List.exists_of_findSome?_eq_some hfind
      obtain ⟨front, -, hfind⟩ := List.exists_of_findSome?_eq_some hfind
      obtain ⟨last, hlast, hpair⟩ := Option.map_eq_some_iff.mp hfind
      obtain ⟨-, rfl⟩ := Prod.mk.inj hpair
      obtain ⟨r, hr, hside⟩ := List.mem_flatMap.mp (List.mem_of_mem_head? hlast)
      obtain rfl : last = r := by
        rw [wordBoundary, side] at hside
        split at hside
        · exact List.mem_singleton.mp hside
        · cases hside
      exact upper_of_either hr
    have hall : ∀ code ∈ CURRENCY_CODES, currencyOfCode code ∈ CURRENCIES := by decide
    rw [currency_of_quote hquote]
    exact hall _ hcode

end Produced

section ReadBack

theorem plain_of_grouped {text : List Char} (h : Grouped text) :
    ∀ c ∈ text, isDigit c = true ∨ c = ',' := by
  obtain ⟨lead, groups, rfl, -, -, hlead, hgroups⟩ := h
  intro c hc
  rcases List.mem_append.mp hc with hc | hc
  · exact Or.inl (hlead c hc)
  · obtain ⟨g, hg, hc⟩ := List.mem_flatten.mp hc
    obtain ⟨x, y, z, rfl, hx, hy, hz⟩ := hgroups g hg
    simp only [List.mem_cons, List.not_mem_nil, or_false] at hc
    rcases hc with rfl | rfl | rfl | rfl
    · exact Or.inr rfl
    · exact Or.inl hx
    · exact Or.inl hy
    · exact Or.inl hz

theorem head_of_grouped {text : List Char} (h : Grouped text) (rest : List Char) :
    ∀ c, (text ++ rest).head? = some c → isDigit c = true := by
  obtain ⟨lead, groups, rfl, hne, -, hlead, -⟩ := h
  obtain ⟨x, more, rfl⟩ := List.exists_cons_of_ne_nil hne
  intro c hc
  obtain rfl : x = c := by simpa using hc
  exact hlead x (by simp)

/-- A character of a written amount. -/
def IsPlain (c : Char) : Prop := isDigit c = true ∨ c = ',' ∨ c = '.'

def SIGN_MARKS : List Char := ['$', '€', '£']

/-- The characters of amounts begin no code and end no sign. -/
theorem IsPlain.marks {c : Char} (h : IsPlain c) :
    startsCode c = false ∧ c.toUpper ∉ SIGN_MARKS := by
  have hcodes : ∀ n < 58, 44 ≤ n → startsCode (Char.ofNat n) = false ∧
      (Char.ofNat n).toUpper ∉ SIGN_MARKS := by decide
  have hrange : 44 ≤ c.toNat ∧ c.toNat < 58 := by
    rcases h with h | rfl | rfl
    · simp only [isDigit, Bool.and_eq_true, decide_eq_true_eq] at h
      omega
    · decide
    · decide
  have hcode := hcodes c.toNat hrange.2 hrange.1
  rwa [Char.ofNat_toNat] at hcode

theorem isPlain_cents {n : Nat} (hn : n < 100) : ∀ c ∈ '.' :: pad2 n, IsPlain c := by
  intro c hc
  rcases List.mem_cons.mp hc with rfl | hc
  · exact Or.inr (Or.inr rfl)
  · exact Or.inl (isDigit_pad2 hn c hc)

theorem isPlain_digits (m : Nat) {n : Nat} (hn : n < 100) :
    ∀ c ∈ digits m ++ '.' :: pad2 n, IsPlain c := by
  intro c hc
  rcases List.mem_append.mp hc with hc | hc
  · exact Or.inl (isDigit_digits m c hc)
  · exact isPlain_cents hn c hc

theorem isPlain_separated (m : Nat) {n : Nat} (hn : n < 100) :
    ∀ c ∈ separated m ++ '.' :: pad2 n, IsPlain c := by
  intro c hc
  rcases List.mem_append.mp hc with hc | hc
  · exact (plain_of_grouped (grouped_separated m).1 c hc).imp id Or.inl
  · exact isPlain_cents hn c hc

/-- A filter that keeps digits and the point, and drops the commas. -/
theorem filter_written (n : Nat) {keep : Char → Bool} (hdigit : ∀ c, isDigit c = true → keep c = true)
    (hmarks : keep ',' = false ∧ keep '.' = true) :
    (separated (n / 100) ++ '.' :: pad2 (n % 100)).filter keep =
      (separated (n / 100)).filter isDigit ++ '.' :: pad2 (n % 100) := by
  have hsame : ∀ c ∈ separated (n / 100), keep c = isDigit c := by
    intro c hc
    rcases plain_of_grouped (grouped_separated _).1 c hc with h | rfl
    · rw [hdigit c h, h]
    · rw [hmarks.1]
      decide
  have hpad : (pad2 (n % 100)).filter keep = pad2 (n % 100) :=
    List.filter_eq_self.mpr fun c hc => hdigit c (isDigit_pad2 (Nat.mod_lt n (by omega)) c hc)
  rw [List.filter_append, List.filter_congr hsame, List.filter_cons_of_pos hmarks.2, hpad]

theorem numberOf_written (n : Nat) :
    numberOf ((separated (n / 100)).filter isDigit ++ '.' :: pad2 (n % 100)) = (n : ℚ) / 100 := by
  rw [numberOf_point fun c hc => List.of_mem_filter hc, (grouped_separated _).2,
    decimalValue_pad2 (Nat.mod_lt n (by omega))]
  have hdiv : ((n / 100 : Nat) : ℚ) * 100 + ((n % 100 : Nat) : ℚ) = n := by
    exact_mod_cast Nat.div_add_mod' n 100
  simp only [pad2, List.length_cons, List.length_nil]
  linarith

/-- Signs, and digits that fit the pattern, are read whole. -/
theorem parsePrice_grouped {c : String} (hc : c ∈ OWN_SIGNS) {n : Nat} (h0 : 0 < n)
    (hn : n < 100000000) {separators : Bool} (h : InGroups n separators) :
    parsePrice (priceText c n separators) =
      some ⟨(n : ℚ) / 100, c, toDisplayPrice c (.fin ((n : ℚ) / 100))⟩ := by
  obtain ⟨hgrouped, hvalue⟩ := grouped_separated (n / 100)
  have hcents : n % 100 < 100 := Nat.mod_lt n (by omega)
  have htext := toList_priceText_inGroups (c := c) h
  have hkept : (separated (n / 100) ++ '.' :: pad2 (n % 100)).filter
      (fun x => isDigit x || x == '.') =
        (separated (n / 100)).filter isDigit ++ '.' :: pad2 (n % 100) := by
    refine filter_written n (fun x hx => ?_) (by decide)
    rw [hx, Bool.true_or]
  have hprefixed := parsePrefixed_written hc (takes_priceDigits hgrouped hcents [])
    (isPlain_separated _ hcents) (by
      rw [List.append_assoc]
      exact head_of_grouped hgrouped _)
  rw [List.append_nil, hkept, numberOf_written, quote_amount h0 hn] at hprefixed
  rw [parsePrice, htext, hprefixed]
  rfl

/-- Of more than three digits without separators only three are read. -/
theorem parsePrice_short {c : String} (hc : c ∈ OWN_SIGNS) {n : Nat} (hn : 100000 ≤ n)
    {q : PriceQuote} (h : parsePrice (priceText c n false) = some q) : q.amount < 1000 := by
  have hcents : n % 100 < 100 := Nat.mod_lt n (by omega)
  have hlong : 3 < (digits (n / 100)).length := by
    rw [← not_le, length_digits_le_iff]
    omega
  obtain ⟨x, y, z, w, more, hdigits⟩ : ∃ x y z w more, digits (n / 100) = x :: y :: z :: w :: more := by
    match digits (n / 100), hlong with
    | x :: y :: z :: w :: more, _ => exact ⟨x, y, z, w, more, rfl⟩
  have hall := isDigit_digits (n / 100)
  rw [hdigits] at hall
  have hthree : ∀ d ∈ [x, y, z], isDigit d = true := fun d hd => hall d (by
    simp only [List.mem_cons, List.not_mem_nil, or_false] at hd ⊢
    tauto)
  have htext : (priceText c n false).toList =
      c.toList ++ [x, y, z] ++ (w :: (more ++ '.' :: pad2 (n % 100))) := by
    rw [toList_priceText_plain, hdigits]
    simp
  have htrailing : parseTrailing (priceText c n false).toList = none := by
    rw [toList_priceText_plain]
    refine parseTrailing_none (fun d hd => ?_) fun d hd => (isPlain_digits _ hcents d hd).marks.1
    obtain ⟨-, hfilter, -, -⟩ := ownSign_chars hc
    have hno := List.filter_eq_nil_iff.mp hfilter d hd
    simp only [Bool.or_eq_true, not_or, Bool.not_eq_true] at hno
    exact hno.1
  have htakes : Takes priceDigits [x, y, z] (w :: (more ++ '.' :: pad2 (n % 100))) :=
    takes_priceDigits_three fun d hd => hall d (by
      simp only [List.mem_cons, List.not_mem_nil, or_false] at hd ⊢
      tauto)
  have hprefixed := parsePrefixed_written hc htakes
    (fun d hd => Or.inl (hthree d hd)) (fun d hd => by
      obtain rfl : x = d := by simpa using hd
      exact hall x (by simp))
  have hkept : [x, y, z].filter (fun d => isDigit d || d == '.') = [x, y, z] :=
    List.filter_eq_self.mpr fun d hd => by rw [hthree d hd, Bool.true_or]
  rw [parsePrice, htrailing, Option.or_none, htext, hprefixed, hkept, numberOf_digits hthree,
    quote] at h
  split at h
  · rw [← Option.some.inj h]
    have hlt : decimalValue [x, y, z] < 1000 := (decimalValue_lt hthree).trans_le (by norm_num)
    have hquoted : ((decimalValue [x, y, z] : Nat) : ℚ) < 1000 := by exact_mod_cast hlt
    exact hquoted
  · cases h

theorem fails_currencySign {l : List Char} (h : ∀ x ∈ l, x.toUpper ∉ SIGN_MARKS) :
    Fails currencySign l := by
  intro prev
  rw [List.eq_nil_iff_forall_not_mem]
  intro q hq
  have hsign := upper_of_either hq
  obtain ⟨m, hm, hqm⟩ := List.mem_flatMap.mp hq
  obtain ⟨w, -, rfl⟩ := List.mem_map.mp hm
  obtain ⟨u, hu, -⟩ := mem_items hqm
  rw [between_append hu] at hsign
  have hall : ∀ w ∈ CURRENCY_SIGNS, ∃ y ∈ w.toList, y ∈ SIGN_MARKS := by decide
  obtain ⟨y, hy, hmark⟩ := hall _ hsign
  rw [upper, String.toList_ofList] at hy
  obtain ⟨x, hx, rfl⟩ := List.mem_map.mp hy
  simp only at hu
  exact h x (by rw [hu]; exact List.mem_append_left _ hx) hmark

theorem findSome?_of_head? {β γ : Type} {l : List β} {x : β} {f : β → Option γ} {y : γ}
    (hl : l.head? = some x) (hf : f x = some y) : l.findSome? f = some y := by
  cases l with
  | nil => cases hl
  | cons z l =>
    obtain rfl : z = x := by simpa using hl
    rw [List.findSome?_cons, hf]

theorem takes_currencyCode {code : String} (hc : code ∈ CURRENCY_CODES) (prev : Option Char) :
    (currencyCode (prev, code.toList)).head? = some (code.toList.getLast?.or prev, []) := by
  have htakes : Takes (either (CURRENCY_CODES.map word)) code.toList [] := by
    simp only [CURRENCY_CODES, List.mem_cons, List.not_mem_nil, or_false] at hc
    rcases hc with rfl | rfl | rfl | rfl
    · exact takes_either_word [] 'C' (by decide) (by decide) (by simp) []
    · exact takes_either_word ["CAD"] 'U' (by decide) (by decide) (by simp) []
    · exact takes_either_word ["CAD", "USD"] 'E' (by decide) (by decide)
        (by simp) []
    · exact takes_either_word ["CAD", "USD", "EUR"] 'G' (by decide) (by decide)
        (by simp) []
  have hhead := htakes prev
  rw [List.append_nil] at hhead
  refine head?_flatMap hhead ?_
  simp only [CURRENCY_CODES, List.mem_cons, List.not_mem_nil, or_false] at hc
  rcases hc with rfl | rfl | rfl | rfl <;> rfl

/-- An amount in groups in front of its code is read whole. -/
theorem parsePrice_trailing {code : String} (hc : code ∈ CURRENCY_CODES) {n : Nat} (h0 : 0 < n)
    (hn : n < 100000000) :
    parsePrice (String.ofList (separated (n / 100) ++ '.' :: pad2 (n % 100)) ++ " " ++ code) =
      some ⟨(n : ℚ) / 100, currencyOfCode code,
        toDisplayPrice (currencyOfCode code) (.fin ((n : ℚ) / 100))⟩ := by
  have hcents : n % 100 < 100 := Nat.mod_lt n (by omega)
  have hgrouped := (grouped_separated (n / 100)).1
  have hbody := takes_priceDigits hgrouped hcents (' ' :: code.toList)
  have hplain := isPlain_separated (n / 100) hcents
  have hnumber : numberOf ((separated (n / 100) ++ '.' :: pad2 (n % 100)).filter (· ≠ ',')) =
      (n : ℚ) / 100 := by
    rw [filter_written n (fun x hx => ?_) (by decide), numberOf_written]
    rw [decide_eq_true_eq]
    rintro rfl
    cases hx
  generalize hamount : separated (n / 100) ++ '.' :: pad2 (n % 100) = amount at hbody hplain hnumber ⊢
  have hmarks : ∀ code ∈ CURRENCY_CODES, (∀ x ∈ code.toList, x.toUpper ∉ SIGN_MARKS) ∧
      upper code.toList = code := by decide
  have hspace : Takes (many (item isSpace)) [' '] code.toList := by
    refine takes_many_flatten [[' ']] (by simp) ?_ (fails_item fun x hx => ?_)
    · intro u hu t
      obtain rfl := List.mem_singleton.mp hu
      exact takes_item (by decide)
    · have hfirst : ∀ code ∈ CURRENCY_CODES, ∀ x ∈ code.toList, isSpace x = false := by decide
      exact hfirst code hc x (List.mem_of_mem_head? hx)
  have htext : (String.ofList amount ++ " " ++ code).toList = amount ++ ' ' :: code.toList := by simp
  have htoken : exec PRICE_TOKEN none (amount ++ ' ' :: code.toList) = none := by
    refine exec_none (fun t ht => fails_seq (fails_currencySign fun x hx => ?_)) none
    rcases List.mem_append.mp (ht.subset hx) with hx | hx
    · exact (hplain x hx).marks.2
    rcases List.mem_cons.mp hx with rfl | hx
    · decide
    · exact (hmarks code hc).1 x hx
  have hgroups : trailingGroups (amount ++ ' ' :: code.toList) = some (amount, code.toList) := by
    have hcode (prev : Option Char) : (trailingCode (prev, ' ' :: code.toList)).head? =
        some (code.toList.getLast?.or (some ' '), []) :=
      head?_flatMap (hspace prev) (takes_currencyCode hc _)
    have hmatch : (PRICE_TRAILING (none, amount ++ ' ' :: code.toList)).head? =
        some (code.toList.getLast?.or (some ' '), []) := head?_flatMap (hbody none) (hcode _)
    rw [trailingGroups, exec_head hmatch, Option.bind_some]
    refine findSome?_of_head? (hbody none) (findSome?_of_head? (hspace _) ?_)
    rw [takes_currencyCode hc, Option.map_some, between_append rfl, between_append (List.append_nil _).symm]
  rw [parsePrice, parsePrefixed, htext, htoken, parseTrailing, hgroups]
  simp only [Option.bind_none, Option.none_or, Option.bind_some, hnumber, (hmarks code hc).2]
  exact quote_amount h0 hn _

/-- A code in front of its amount is not read. -/
theorem parsePrice_code {c : String} (hc : c = "EUR " ∨ c = "GBP ") (n : Nat) (separators : Bool) :
    parsePrice (priceText c n separators) = none := by
  have hcents : n % 100 < 100 := Nat.mod_lt n (by omega)
  obtain ⟨body, htext, hbody⟩ : ∃ body, (priceText c n separators).toList = c.toList ++ body ∧
      ∀ x ∈ body, IsPlain x := by
    cases separators with
    | false => exact ⟨_, toList_priceText_plain n, isPlain_digits _ hcents⟩
    | true => exact ⟨_, toList_priceText_separated n, isPlain_separated _ hcents⟩
  have hfront : (∀ x ∈ c.toList, isDigit x = false) ∧ ∀ x ∈ c.toList, x.toUpper ∉ SIGN_MARKS := by
    rcases hc with rfl | rfl <;> decide
  have hprefixed : exec PRICE_TOKEN none (priceText c n separators).toList = none := by
    refine exec_none (fun t ht => fails_seq (fails_currencySign fun x hx => ?_)) none
    rw [htext] at ht
    rcases List.mem_append.mp (ht.subset hx) with h | h
    · exact hfront.2 x h
    · exact (hbody x h).marks.2
  rw [parsePrice, parsePrefixed, hprefixed, htext, parseTrailing_none hfront.1 fun x hx =>
    (hbody x hx).marks.1]
  rfl

end ReadBack

/-- A written price is read back exactly when its currency is a sign and its digits stand in
groups of three. -/
theorem price_read_back_iff {n : Nat} (h0 : 0 < n) (hn : n < 100000000) {currency : String}
    (hc : Produced currency) (separators : Bool) :
    (∃ quote, parsePrice (priceText currency n separators) = some quote ∧
        quote.amount = (n : ℚ) / 100 ∧ quote.currency = currency) ↔
      (currency ≠ "EUR " ∧ currency ≠ "GBP ") ∧ InGroups n separators := by
  have hmem := mem_currencies_of_produced hc
  constructor
  · rintro ⟨q, hq, hamount, -⟩
    have hcode : ¬ (currency = "EUR " ∨ currency = "GBP ") := by
      intro h
      rw [parsePrice_code h] at hq
      cases hq
    refine ⟨not_or.mp hcode, ?_⟩
    by_contra hlong
    rw [InGroups, not_or, not_lt, Bool.not_eq_true] at hlong
    obtain ⟨hbig, rfl⟩ := hlong
    have hsign : currency ∈ OWN_SIGNS := by
      rcases List.mem_append.mp hmem with h | h
      · exact h
      · exact absurd (by simpa using h) hcode
    have hlt := parsePrice_short hsign hbig hq
    rw [hamount] at hlt
    have hbig' : (100000 : ℚ) ≤ n := by exact_mod_cast hbig
    linarith
  · rintro ⟨⟨hne, hne'⟩, hgroups⟩
    have hsign : currency ∈ OWN_SIGNS := by
      rcases List.mem_append.mp hmem with h | h
      · exact h
      · rcases (by simpa using h : currency = "EUR " ∨ currency = "GBP ") with h | h
        · exact absurd h hne
        · exact absurd h hne'
    exact ⟨_, parsePrice_grouped hsign h0 hn hgroups, rfl, rfl⟩

theorem produced_of_ownSign {c : String} (hc : c ∈ OWN_SIGNS) : Produced c :=
  ⟨priceText c 14995 true, _, parsePrice_grouped hc (by omega) (by omega) (Or.inr rfl), rfl⟩

theorem produced_of_code {code : String} (hc : code ∈ CURRENCY_CODES) :
    Produced (currencyOfCode code) :=
  ⟨_, _, parsePrice_trailing (n := 14995) hc (by omega) (by omega), rfl⟩

theorem produced_iff (currency : String) : Produced currency ↔ currency ∈ CURRENCIES := by
  refine ⟨mem_currencies_of_produced, fun h => ?_⟩
  rcases List.mem_append.mp h with h | h
  · exact produced_of_ownSign h
  · simp only [List.mem_cons, List.not_mem_nil, or_false] at h
    rcases h with rfl | rfl
    · exact @produced_of_code "EUR" (by decide)
    · exact @produced_of_code "GBP" (by decide)

theorem price_read_back_iff_listing :
    ∃ quote, parsePrice (priceText "C$" 14995 false) = some quote ∧
      quote.amount = ((14995 : Nat) : ℚ) / 100 ∧ quote.currency = "C$" :=
  (price_read_back_iff (by decide) (by decide) ((produced_iff _).mpr (by decide)) false).mpr
    ⟨⟨by decide, by decide⟩, Or.inl (by decide)⟩

/-- A price above 999.99 that was written without separators loses its last digits. -/
theorem price_loses_digits :
    ¬ ∀ (n : Nat), 0 < n → n < 100000000 → ∀ currency, Produced currency → ∀ separators,
      ∃ quote, parsePrice (priceText currency n separators) = some quote ∧
        quote.amount = (n : ℚ) / 100 ∧ quote.currency = currency := by
  intro h
  obtain ⟨q, hq, hamount, -⟩ := h 123456 (by decide) (by decide) "$"
    ((produced_iff _).mpr (by decide)) false
  have hlt := parsePrice_short (by decide) (by decide) hq
  rw [hamount] at hlt
  norm_num at hlt

end T560.Checkout
