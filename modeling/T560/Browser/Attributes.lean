import Mathlib.Tactic.SplitIfs
import T560.Browser.Entities
import T560.Js.Ascii

/-!
# Escaped attribute values

A tag with its attributes is found where it stands, with the text of every value between the
quotes as it is written. The readers of links and of form fields take that text as the value: an
escaped value comes back as the page has it, not as the page means it.
-/

namespace T560.Browser

open Foundation (isWordChar stripName stripName_self containsName)
open Js (Runtime PropertyMap trim isSpace units)
open Rewrite (Finder Forward)

section Finders

variable {γ : Type} {find : Finder Char γ} {front element rest : List Char} {g : γ}

/-- No match starts in the text in front of the rest. -/
def Silent (find : Finder Char γ) (front rest : List Char) : Prop :=
  ∀ n < front.length, find none (front.drop n ++ rest) = none

theorem captures_silent (hf : Forward find) (h : Silent find front rest) :
    captures find (front ++ rest) = captures find rest := by
  induction front with
  | nil => rfl
  | cons c front ih =>
    have hhere : find none (c :: (front ++ rest)) = none := h 0 (by simp)
    have hrest : captures find (front ++ rest) = captures find rest := by
      apply ih
      intro n hn
      exact h (n + 1) (by simp only [List.length_cons]; omega)
    rw [← hrest, List.cons_append]
    unfold captures
    rw [Rewrite.pieces_item hf none hhere, List.filterMap_cons_none rfl]

theorem captures_match (hf : Forward find) (hne : element ≠ [])
    (h : find none (element ++ rest) = some (g, element.length)) :
    captures find (element ++ rest) = g :: captures find rest := by
  obtain ⟨c, element, rfl⟩ := List.exists_cons_of_ne_nil hne
  rw [List.cons_append, List.length_cons] at h
  rw [List.cons_append]
  unfold captures
  rw [Rewrite.pieces_match hf none h, List.drop_left]
  rfl

/-- The only match of a page. -/
theorem captures_lone (hf : Forward find) (hne : element ≠ [])
    (hfront : Silent find front (element ++ rest)) (hrest : captures find rest = [])
    (h : find none (element ++ rest) = some (g, element.length)) :
    captures find (front ++ (element ++ rest)) = [g] := by
  rw [captures_silent hf hfront, captures_match hf hne h, hrest]

theorem pairedTag_forward (name : List Char) : Forward (pairedTag name) := fun _ _ _ => rfl

theorem inputTag_forward : Forward inputTag := fun _ _ _ => rfl

theorem linkTag_forward : Forward linkTag := fun _ _ _ => rfl

theorem attributePair_forward : Forward attributePair := fun _ _ _ => rfl

end Finders

section Scanning

variable {c : Char} {name front body rest : List Char}

theorem untilChar_append (h : c ∉ front) (rest : List Char) :
    untilChar c (front ++ c :: rest) = some (front, rest) := by
  have hfront : ∀ d ∈ front, decide (d ≠ c) = true := by
    intro d hd
    apply decide_eq_true
    rintro rfl
    exact h hd
  have hstop : decide (c ≠ c) = false := by simp
  unfold untilChar
  rw [List.dropWhile_append_of_pos hfront, List.takeWhile_append_of_pos hfront,
    List.dropWhile_cons, List.takeWhile_cons, hstop]
  simp

theorem tagHead_append (h : rest.head?.any isWordChar = false) :
    tagHead name ('<' :: (name ++ rest)) = some rest := by
  rw [tagHead, stripName_self, Option.bind_some, h]
  simp

theorem tagHead_of_ne (hc : c ≠ '<') : tagHead name (c :: rest) = none := by
  unfold tagHead
  split
  · rename_i heq
    exact absurd (List.cons.inj heq).1 hc
  · rfl

def closingTag (name : List Char) : List Char := ['<', '/'] ++ name ++ ['>']

theorem untilClosing_append (hname : '<' ∉ name.map Char.toLower)
    (hbody : containsName (closingTag name) body = false) (rest : List Char) :
    untilClosing name (body ++ (closingTag name ++ rest)) = some (body, rest) := by
  induction body with
  | nil =>
    have hself := stripName_self (closingTag name) rest
    have hcons : closingTag name ++ rest = '<' :: ('/' :: (name ++ ['>']) ++ rest) := by
      simp [closingTag]
    rw [List.nil_append, hcons, untilClosing, ← hcons]
    rw [closingTag] at hself ⊢
    rw [hself]
  | cons d body ih =>
    have htails : containsName (closingTag name) (d :: body) =
        ((stripName (closingTag name) (d :: body)).isSome || containsName (closingTag name) body) := by
      unfold containsName
      rw [List.tails_cons, List.any_cons]
    rw [htails, Bool.or_eq_false_iff] at hbody
    -- the closing tag of the element is not the end of one that starts in the body
    have hhere : stripName (closingTag name) (d :: (body ++ (closingTag name ++ rest))) = none := by
      have hmark : Char.toLower '<' ∉ ('/' :: (name ++ ['>'])).map Char.toLower := by
        have hslash : Char.toLower '<' ∉ [Char.toLower '/', Char.toLower '>'] := by decide
        intro hmem
        rw [List.map_cons, List.map_append, List.mem_cons, List.mem_append] at hmem
        rcases hmem with hmem | hmem | hmem
        · exact hslash (hmem ▸ List.mem_cons_self ..)
        · exact hname hmem
        · exact hslash (List.mem_cons_of_mem _ hmem)
      have hover := Foundation.isSome_stripName_append hmark body ('/' :: (name ++ ['>']) ++ rest)
      have hlocal := hbody.1
      have hcons : closingTag name ++ rest = '<' :: ('/' :: (name ++ ['>']) ++ rest) := by
        simp [closingTag]
      have hclosing : closingTag name = '<' :: '/' :: (name ++ ['>']) := by
        simp [closingTag]
      rw [hcons, ← Option.isNone_iff_eq_none, ← Option.not_isSome, hclosing, stripName]
      rw [hclosing, stripName] at hlocal
      by_cases hd : d.toLower = Char.toLower '<'
      · rw [if_pos hd] at hlocal ⊢
        rw [hover, hlocal]
        rfl
      · rw [if_neg hd]
        rfl
    rw [List.cons_append, untilClosing]
    rw [closingTag] at hhere ih ⊢
    rw [hhere, ih hbody.2]
    rfl

end Scanning

section Elements

variable {name attrs body rest : List Char}

/-- An element: its opening tag, what is inside, its closing tag. -/
def element (name attrs body : List Char) : List Char :=
  '<' :: (name ++ (attrs ++ '>' :: (body ++ closingTag name)))

theorem length_sub (element rest : List Char) : (element ++ rest).length - rest.length = element.length := by
  rw [List.length_append, Nat.add_sub_cancel]

theorem pairedTag_element (hname : '<' ∉ name.map Char.toLower)
    (hword : (attrs ++ ['>']).head?.any isWordChar = false) (hattrs : '>' ∉ attrs)
    (hbody : containsName (closingTag name) body = false) (rest : List Char) :
    pairedTag name none (element name attrs body ++ rest) =
      some ((attrs, body), (element name attrs body).length) := by
  have htext : element name attrs body ++ rest =
      '<' :: (name ++ (attrs ++ '>' :: (body ++ (closingTag name ++ rest)))) := by
    simp [element]
  have hhead : (attrs ++ '>' :: (body ++ (closingTag name ++ rest))).head?.any isWordChar = false := by
    cases attrs <;> exact hword
  unfold pairedTag
  rw [← length_sub (element name attrs body) rest, htext, tagHead_append hhead, Option.bind_some,
    untilChar_append hattrs, Option.bind_some]
  dsimp only
  rw [untilClosing_append hname hbody]
  rfl

def inputElement (attrs : List Char) : List Char := '<' :: ("input".toList ++ (attrs ++ ['>']))

theorem inputTag_element (hword : (attrs ++ ['>']).head?.any isWordChar = false) (hattrs : '>' ∉ attrs)
    (rest : List Char) :
    inputTag none (inputElement attrs ++ rest) = some (attrs, (inputElement attrs).length) := by
  have htext : inputElement attrs ++ rest = '<' :: ("input".toList ++ (attrs ++ '>' :: rest)) := by
    simp [inputElement]
  have hhead : (attrs ++ '>' :: rest).head?.any isWordChar = false := by
    cases attrs <;> exact hword
  unfold inputTag
  rw [← length_sub (inputElement attrs) rest, htext, tagHead_append hhead, Option.bind_some,
    untilChar_append hattrs]
  rfl

end Elements

section Attributes

/-- An attribute of a tag: a name and, between double quotes, the text of the value. -/
structure Attribute where
  name : List Char
  value : Option (List Char)
  named : name ≠ []
  plain : ∀ c ∈ name, isAttributeChar c = true
  quoted : ∀ text ∈ value, ∀ c ∈ text, c ∉ ['"', '<', '>']

def Attribute.markup (a : Attribute) : List Char :=
  ' ' :: (a.name ++ a.value.elim [] fun text => '=' :: '"' :: (text ++ ['"']))

def markup (attrs : List Attribute) : List Char := attrs.flatMap Attribute.markup

variable {a : Attribute} {attrs before after : List Attribute} {c : Char}

theorem markup_cons (a : Attribute) (attrs : List Attribute) :
    markup (a :: attrs) = a.markup ++ markup attrs := rfl

theorem markup_append (before after : List Attribute) :
    markup (before ++ after) = markup before ++ markup after := by
  unfold markup
  rw [List.flatMap_append]

theorem isAttributeChar_ne (hc : isAttributeChar c = true) :
    isSpace c = false ∧ c ∉ ['"', '\'', '=', '<', '>'] := by
  unfold isAttributeChar at hc
  obtain ⟨hspace, hmark⟩ := Bool.and_eq_true_iff.mp hc
  refine ⟨by simpa using hspace, ?_⟩
  intro hmem
  apply of_decide_eq_true hmark
  exact List.mem_append_left [Char.ofNat 96] hmem

theorem not_mem_markup (attrs : List Attribute) : '<' ∉ markup attrs ∧ '>' ∉ markup attrs := by
  have hattribute : ∀ a : Attribute, ∀ c ∈ ['<', '>'], c ∉ a.markup := by
    intro a c hc hmem
    rcases List.mem_cons.mp hmem with rfl | hmem
    · exact absurd hc (by decide)
    · rcases List.mem_append.mp hmem with hmem | hmem
      · have hmarks := (isAttributeChar_ne (a.plain c hmem)).2
        exact hmarks (List.mem_append_right ['"', '\'', '='] hc)
      · cases hvalue : a.value with
        | none =>
          rw [hvalue] at hmem
          cases hmem
        | some text =>
          rw [hvalue] at hmem
          have hchars := a.quoted text hvalue
          simp only [Option.elim_some, List.mem_cons, List.mem_append, List.not_mem_nil, or_false] at hmem hc
          rcases hmem with rfl | rfl | hmem | rfl
          · exact absurd hc (by decide)
          · exact absurd hc (by decide)
          · apply hchars c hmem
            simp [hc]
          · exact absurd hc (by decide)
  constructor
  · intro hmem
    obtain ⟨a, -, ha⟩ := List.mem_flatMap.mp hmem
    exact hattribute a '<' (by decide) ha
  · intro hmem
    obtain ⟨a, -, ha⟩ := List.mem_flatMap.mp hmem
    exact hattribute a '>' (by decide) ha

/-- Behind the attributes of a tag the name of the tag is over. -/
theorem head_markup (attrs : List Attribute) : (markup attrs ++ ['>']).head?.any isWordChar = false := by
  cases attrs with
  | nil => decide
  | cons a attrs => exact (by decide : isWordChar ' ' = false)

/-- A value in double quotes that follows. -/
theorem assignment_quoted {text : List Char} (h : '"' ∉ text) (rest : List Char) :
    assignment ('=' :: '"' :: (text ++ '"' :: rest)) = some (text, rest) := by
  unfold assignment
  exact untilChar_append h rest

/-- The next attribute is not a value. -/
theorem assignment_markup (attrs : List Attribute) : assignment (markup attrs) = none := by
  cases attrs with
  | nil => rfl
  | cons a attrs =>
    obtain ⟨c, name, hname⟩ := List.exists_cons_of_ne_nil a.named
    have hc : isAttributeChar c = true := a.plain c (hname ▸ List.mem_cons_self ..)
    obtain ⟨hspace, hmarks⟩ := isAttributeChar_ne hc
    have heq : c ≠ '=' := by
      rintro rfl
      exact hmarks (by decide)
    rw [markup_cons, Attribute.markup, hname, assignment]
    have hblank : isSpace ' ' = true := by decide
    simp only [List.cons_append, List.dropWhile_cons, hblank, hspace, if_true]
    split
    · rename_i hcons
      exact absurd (List.cons.inj hcons).1 heq
    · rfl

/-- The pattern finds an attribute behind the blank. -/
theorem attributePair_markup (a : Attribute) (attrs : List Attribute) :
    attributePair none (a.markup.tail ++ markup attrs) = some ((a.name, a.value), a.markup.tail.length) := by
  have hplain : ∀ c ∈ a.name, isAttributeChar c = true := a.plain
  have hhead : ∀ rest : List Char, rest.head?.all (fun c => !isAttributeChar c) = true →
      (a.name ++ rest).takeWhile isAttributeChar = a.name ∧
      (a.name ++ rest).dropWhile isAttributeChar = rest := by
    intro rest hrest
    rw [List.takeWhile_append_of_pos hplain, List.dropWhile_append_of_pos hplain]
    cases rest with
    | nil => simp
    | cons c rest =>
      have hc : isAttributeChar c = false := by simpa using hrest
      rw [List.takeWhile_cons, List.dropWhile_cons, hc]
      simp
  have hlength := length_sub a.markup.tail (markup attrs)
  cases hvalue : a.value with
  | none =>
    have htail : a.markup.tail = a.name := by simp [Attribute.markup, hvalue]
    have hblank : (markup attrs).head?.all (fun c => !isAttributeChar c) = true := by
      cases attrs with
      | nil => rfl
      | cons b attrs => exact (by decide : (!isAttributeChar ' ') = true)
    obtain ⟨htake, hdrop⟩ := hhead (markup attrs) hblank
    rw [htail]
    simp only [attributePair, htake, hdrop, assignment_markup]
    rw [if_neg a.named]
  | some text =>
    have htail : a.markup.tail ++ markup attrs = a.name ++ '=' :: '"' :: (text ++ '"' :: markup attrs) := by
      simp [Attribute.markup, hvalue]
    have hquote : '"' ∉ text := fun hmem => a.quoted text hvalue '"' hmem (by decide)
    obtain ⟨htake, hdrop⟩ := hhead ('=' :: '"' :: (text ++ '"' :: markup attrs))
      (by decide : (!isAttributeChar '=') = true)
    rw [htail] at hlength ⊢
    simp only [attributePair, htake, hdrop, assignment_quoted hquote]
    rw [if_neg a.named, hlength]

theorem captures_markup (attrs : List Attribute) :
    captures attributePair (markup attrs) = attrs.map fun a => (a.name, a.value) := by
  induction attrs with
  | nil => rfl
  | cons a attrs ih =>
    have hblank : ∀ rest, attributePair none (' ' :: rest) = none := by
      intro rest
      have : isAttributeChar ' ' = false := by decide
      simp [attributePair, this]
    have hne : a.markup.tail ≠ [] := by
      intro hnil
      exact a.named (List.append_eq_nil_iff.mp hnil).1
    have hsilent : Silent attributePair [' '] (a.markup.tail ++ markup attrs) := by
      intro n hn
      obtain rfl : n = 0 := by simpa using hn
      exact hblank _
    have hmarkup : markup (a :: attrs) = [' '] ++ (a.markup.tail ++ markup attrs) := rfl
    rw [hmarkup, captures_silent attributePair_forward hsilent,
      captures_match attributePair_forward hne (attributePair_markup a attrs), ih, List.map_cons]

variable (rt : Runtime)

def Attribute.key (a : Attribute) : String := rt.toLowerCase (trim (String.ofList a.name))

/-- The text of the last attribute with the key. -/
def attributeOf (attrs : List Attribute) (key : String) : Option String :=
  (attrs.reverse.find? fun a => a.key rt = key).map fun a => String.ofList (a.value.getD [])

theorem lookup_parseHtmlAttributes {key : String} (hkey : key ≠ "") (hproto : key ≠ "__proto__")
    (attrs : List Attribute) :
    (parseHtmlAttributes rt (markup attrs)).lookup key = attributeOf rt attrs key := by
  unfold parseHtmlAttributes attributeOf
  rw [captures_markup, List.foldl_map]
  induction attrs using List.reverseRecOn with
  | nil => rfl
  | append_singleton attrs a ih =>
    rw [List.foldl_append, List.foldl_cons, List.foldl_nil, List.reverse_append, List.reverse_singleton,
      List.singleton_append, List.find?_cons]
    generalize hrow : attrs.foldl _ _ = row at ih ⊢
    have hname : rt.toLowerCase (trim (String.ofList a.name)) = a.key rt := rfl
    dsimp only
    rw [hname]
    by_cases hsame : a.key rt = key
    · rw [if_neg (hsame ▸ hkey), hsame, PropertyMap.lookup_put hproto]
      simp
    · rw [decide_eq_false hsame, ← ih]
      by_cases hempty : a.key rt = ""
      · rw [if_pos hempty]
      · rw [if_neg hempty]
        by_cases hput : a.key rt = "__proto__"
        · rw [PropertyMap.put, if_pos hput]
        · rw [PropertyMap.lookup_put hput, if_neg (Ne.symm hsame)]

theorem attributeOf_mid {key : String} (hkey : a.key rt = key) (hafter : ∀ b ∈ after, b.key rt ≠ key)
    (before : List Attribute) :
    attributeOf rt (before ++ a :: after) key = some (String.ofList (a.value.getD [])) := by
  have hnone : after.reverse.find? (fun b => b.key rt = key) = none := by
    rw [List.find?_eq_none]
    intro b hb
    simpa using hafter b (List.mem_reverse.mp hb)
  unfold attributeOf
  rw [List.reverse_append, List.reverse_cons, List.append_assoc, List.find?_append, hnone]
  simp [hkey]

end Attributes

end T560.Browser
