import T560.Browser.Attributes

/-!
# What a page says and what is read of it

One element of a page has a text in it, escaped: as the address of a link, as the action of a form,
as the value of an input, or between the tags of a textarea.
-/

namespace T560.Browser

open Foundation (isWordChar stripName stripName_self containsName)
open Js (Runtime trim units)

section Pages

/-- The names of the attributes that are read as they are written. -/
def readNames : List (List Char) := ["href".toList, "action".toList, "value".toList]

theorem readNames_plain :
    ∀ name ∈ readNames, name ≠ [] ∧ ∀ c ∈ name, isAttributeChar c = true := by decide

theorem escaped_quoted (v : List Char) : ∀ c ∈ escaped v, c ∉ ['"', '<', '>'] := by
  intro c hc
  obtain ⟨d, -, hd⟩ := List.mem_flatMap.mp hc
  by_cases hmem : d ∈ escapedChars
  · rw [if_pos hmem] at hd
    have hentity : ∀ d ∈ escapedChars, ∀ c ∈ entityOf d, c ∉ ['"', '<', '>'] := by decide
    exact hentity d hmem c hd
  · rw [if_neg hmem, List.mem_singleton] at hd
    subst hd
    intro hquoted
    apply hmem
    have hsubset : ∀ c ∈ ['"', '<', '>'], c ∈ escapedChars := by decide
    exact hsubset c hquoted

/-- The attribute whose value is the text. -/
def escapedAttribute (name : List Char) (hname : name ∈ readNames) (v : List Char) : Attribute where
  name := name
  value := some (escaped v)
  named := (readNames_plain name hname).1
  plain := (readNames_plain name hname).2
  quoted := by
    intro text htext
    obtain rfl := Option.some.inj htext
    exact escaped_quoted v

/-- Where an attribute stands: in front of the tag, before and after the attribute, behind the
element. -/
structure Slot where
  front : List Char
  before : List Attribute
  after : List Attribute
  back : List Char

def Slot.attrs (slot : Slot) (a : Attribute) : List Attribute := slot.before ++ a :: slot.after

variable (slot : Slot) (label body v : List Char)

def hrefOf : Attribute := escapedAttribute "href".toList (by decide) v
def actionOf : Attribute := escapedAttribute "action".toList (by decide) v
def valueOf : Attribute := escapedAttribute "value".toList (by decide) v

def anchorElement : List Char := element ['a'] (markup (slot.attrs (hrefOf v))) label
def formElement : List Char := element "form".toList (markup (slot.attrs (actionOf v))) body
def filledInput : List Char := inputElement (markup (slot.attrs (valueOf v)))
def filledArea (attrs : List Attribute) : List Char :=
  element "textarea".toList (markup attrs) (escaped v)

/-- The page around an element. -/
def page (front element back : List Char) : List Char := front ++ (element ++ back)

end Pages

section Links

variable {name front after label rest v : List Char} {c : Char}

theorem stripName_drop (h : containsName name front = false) (hc : c.toLower ∉ name.map Char.toLower)
    (n : Nat) (rest : List Char) : stripName name (front.drop n ++ c :: rest) = none := by
  rw [← Option.isNone_iff_eq_none, ← Option.not_isSome, Foundation.isSome_stripName_append hc]
  have htail : front.drop n ∈ front.tails := (List.mem_tails _ _).mpr (List.drop_suffix n front)
  have := List.any_eq_false.mp h _ htail
  simpa using this

theorem linkBody_skip (hmark : '>' ∉ front)
    (h : ∀ n < front.length, stripName "href".toList (front.drop n ++ rest) = none) :
    linkBody (front ++ rest) = linkBody rest := by
  induction front with
  | nil => rfl
  | cons c front ih =>
    have hhere : stripName "href".toList (c :: (front ++ rest)) = none := h 0 (by simp)
    have hc : c ≠ '>' := by
      rintro rfl
      exact hmark (List.mem_cons_self ..)
    rw [List.cons_append, linkBody, hhere]
    simp only [Option.bind_none, if_neg hc]
    apply ih
    · exact fun hmem => hmark (List.mem_cons_of_mem _ hmem)
    · intro n hn
      exact h (n + 1) (by simp only [List.length_cons]; omega)

/-- The tag from the address on. -/
def hrefTail (text after inner : List Char) : List Char :=
  'h' :: 'r' :: 'e' :: 'f' :: '=' :: '"' :: (text ++ '"' :: (after ++ '>' :: inner))

theorem stripName_href (text after inner : List Char) :
    stripName "href".toList (hrefTail text after inner) =
      some ('=' :: '"' :: (text ++ '"' :: (after ++ '>' :: inner))) := stripName_self ..

/-- An address in double quotes and the rest of the link. -/
theorem linkBody_href {text : List Char} (hne : text ≠ []) (hquote : '"' ∉ text) (hmark : '>' ∉ after)
    (hlabel : containsName (closingTag ['a']) label = false) (rest : List Char) :
    linkBody (hrefTail text after (label ++ (closingTag ['a'] ++ rest))) = some ((text, label), rest) := by
  have hend : linkEnd (after ++ '>' :: (label ++ (closingTag ['a'] ++ rest))) = some (label, rest) := by
    rw [linkEnd, untilChar_append hmark]
    exact untilClosing_append (by decide) hlabel rest
  have hread : hrefValue ('"' :: (text ++ '"' :: (after ++ '>' :: (label ++ (closingTag ['a'] ++ rest))))) =
      some (text, after ++ '>' :: (label ++ (closingTag ['a'] ++ rest))) := by
    rw [hrefValue, untilChar_append hquote]
    simp [hne]
  have hhere := stripName_href text after (label ++ (closingTag ['a'] ++ rest))
  have hequals : Js.isSpace '=' = false := by decide
  have hopens : Js.isSpace '"' = false := by decide
  rw [hrefTail] at hhere ⊢
  rw [linkBody, hhere]
  simp only [Option.bind_some, List.dropWhile_cons, hequals, hopens, Bool.false_eq_true, if_false, hread,
    hend, Option.map_some]

/-- An empty address is none, and the tag has no other. -/
theorem linkBody_empty (hmark : '>' ∉ after) (hafter : containsName "href".toList after = false)
    (inner : List Char) : linkBody (hrefTail [] after inner) = none := by
  have hread : hrefValue ('"' :: '"' :: (after ++ '>' :: inner)) = none := by
    rw [hrefValue]
    have := @untilChar_append '"' [] (by simp) (after ++ '>' :: inner)
    rw [List.nil_append] at this
    rw [this]
    rfl
  have hhere := stripName_href [] after inner
  have hequals : Js.isSpace '=' = false := by decide
  have hopens : Js.isSpace '"' = false := by decide
  have hrest : linkBody ("ref=\"\"".toList ++ after ++ '>' :: inner) = none := by
    have hfront : containsName "href".toList ("ref=\"\"".toList ++ after) = false := by
      have hsplit : "ref=\"\"".toList ++ after = "ref=\"".toList ++ '"' :: after := rfl
      have hquote : Char.toLower '"' ∉ "href".toList.map Char.toLower := by decide
      rw [hsplit, Foundation.containsName_separator hquote, hafter]
      decide
    have hclosing : Char.toLower '>' ∉ "href".toList.map Char.toLower := by decide
    rw [linkBody_skip]
    · have hclose : stripName "href".toList ('>' :: inner) = none := @stripName_drop _ [] _ rfl hclosing 0 inner
      rw [linkBody, hclose]
      rfl
    · intro hmem
      rcases List.mem_append.mp hmem with hmem | hmem
      · exact absurd hmem (by decide)
      · exact hmark hmem
    · intro n _
      exact stripName_drop hfront hclosing n inner
  rw [hrefTail, List.nil_append] at hhere ⊢
  rw [linkBody, hhere]
  simp only [Option.bind_some, List.dropWhile_cons, hequals, hopens, Bool.false_eq_true, if_false, hread,
    Option.bind_none]
  rw [if_neg (by decide)]
  exact hrest

/-- The tag of a link up to its address. -/
theorem linkBody_attrs {before : List Char} (hmark : '>' ∉ before)
    (hbefore : containsName "href".toList before = false) (text after inner : List Char) :
    linkBody (before ++ ' ' :: hrefTail text after inner) = linkBody (hrefTail text after inner) := by
  have hsplit : before ++ ' ' :: hrefTail text after inner =
      (before ++ [' ']) ++ hrefTail text after inner := by simp
  rw [hsplit, linkBody_skip]
  · intro hmem
    rcases List.mem_append.mp hmem with hmem | hmem
    · exact hmark hmem
    · exact absurd hmem (by decide)
  · intro n hn
    rw [List.length_append, List.length_singleton] at hn
    rw [List.drop_append_of_le_length (by omega), List.append_assoc, List.singleton_append]
    exact stripName_drop hbefore (by decide) n _

variable {slot : Slot}

theorem markup_attrs (slot : Slot) (a : Attribute) :
    markup (slot.attrs a) = markup slot.before ++ (a.markup ++ markup slot.after) := by
  rw [Slot.attrs, markup_append, markup_cons]

theorem anchorElement_append (slot : Slot) (label v rest : List Char) :
    anchorElement slot label v ++ rest = '<' :: (['a'] ++ (markup slot.before ++ ' ' ::
      hrefTail (escaped v) (markup slot.after) (label ++ (closingTag ['a'] ++ rest)))) := by
  have hname : (hrefOf v).markup = ' ' :: 'h' :: 'r' :: 'e' :: 'f' :: '=' :: '"' :: (escaped v ++ ['"']) := rfl
  rw [anchorElement, element, markup_attrs, hname, hrefTail]
  simp

theorem linkTag_anchor (hbefore : containsName "href".toList (markup slot.before) = false) (label v rest) :
    linkTag none (anchorElement slot label v ++ rest) =
      (linkBody (hrefTail (escaped v) (markup slot.after) (label ++ (closingTag ['a'] ++ rest)))).map
        fun found => (found.1, (anchorElement slot label v ++ rest).length - found.2.length) := by
  have hhead : (markup slot.before ++ ' ' :: hrefTail (escaped v) (markup slot.after)
      (label ++ (closingTag ['a'] ++ rest))).head?.any isWordChar = false := by
    cases slot.before <;> exact (by decide : isWordChar ' ' = false)
  unfold linkTag
  rw [anchorElement_append, tagHead_append hhead, Option.bind_some,
    linkBody_attrs (not_mem_markup slot.before).2 hbefore]

/-- The only link of a page: its tag has one address, and its text is long enough to be shown. -/
structure OnlyLink (slot : Slot) (label v : List Char) : Prop where
  front : Silent linkTag slot.front (anchorElement slot label v ++ slot.back)
  back : captures linkTag slot.back = []
  before : containsName "href".toList (markup slot.before) = false
  after : containsName "href".toList (markup slot.after) = false
  inner : Silent linkTag label (closingTag ['a'] ++ slot.back)
  shown : 2 ≤ (units (elementText label)).length
  label : containsName (closingTag ['a']) label = false

theorem linkTag_of_ne {c : Char} (hc : c ≠ '<') (rest : List Char) : linkTag none (c :: rest) = none := by
  rw [linkTag, tagHead_of_ne hc]
  rfl

theorem silent_of_not_mem {front : List Char} (h : '<' ∉ front) (rest : List Char) :
    Silent linkTag front rest := by
  intro n hn
  rw [List.drop_eq_getElem_cons hn, List.cons_append]
  apply linkTag_of_ne
  rintro heq
  exact h (heq ▸ List.getElem_mem hn)

/-- A tag that starts no link. -/
theorem silent_tag {front rest : List Char} (h : linkTag none ('<' :: (front ++ rest)) = none)
    (hfront : '<' ∉ front) : Silent linkTag ('<' :: front) rest := by
  intro n hn
  cases n with
  | zero => exact h
  | succ n => exact silent_of_not_mem hfront rest n (by simpa using hn)

theorem escaped_eq_nil {v : List Char} (h : escaped v = []) : v = [] := by
  have hlong := escaped_length v
  rw [h] at hlong
  exact List.length_eq_zero_iff.mp (Nat.le_zero.mp hlong)

theorem captures_link (h : OnlyLink slot label v) :
    captures linkTag (page slot.front (anchorElement slot label v) slot.back) =
      if v = [] then [] else [(escaped v, label)] := by
  have hmark := not_mem_markup slot.after
  have hfound := linkTag_anchor h.before label v slot.back
  split_ifs with hv
  · -- the empty address is passed over, and the rest of the element starts no link
    subst hv
    have hempty : escaped [] = [] := rfl
    rw [hempty, linkBody_empty hmark.2 h.after, Option.map_none] at hfound
    let opening := 'a' :: (markup (slot.attrs (hrefOf [])) ++ ['>'])
    have helement : anchorElement slot label [] ++ slot.back =
        ('<' :: opening) ++ (label ++ (closingTag ['a'] ++ slot.back)) := by
      simp [anchorElement, element, closingTag, opening]
    have hopening : '<' ∉ opening := by
      intro hmem
      rcases List.mem_cons.mp hmem with hmem | hmem
      · exact absurd hmem (by decide)
      · rcases List.mem_append.mp hmem with hmem | hmem
        · exact (not_mem_markup _).1 hmem
        · exact absurd hmem (by decide)
    have hclosing : Silent linkTag (closingTag ['a']) slot.back :=
      @silent_tag ['/', 'a', '>'] slot.back rfl (by decide)
    rw [page, captures_silent linkTag_forward h.front, helement, captures_silent linkTag_forward,
      captures_silent linkTag_forward h.inner, captures_silent linkTag_forward hclosing, h.back]
    apply silent_tag _ hopening
    rw [← List.cons_append, ← helement]
    exact hfound
  · have hescaped : escaped v ≠ [] := fun hnil => hv (escaped_eq_nil hnil)
    have hquote : '"' ∉ escaped v := fun hmem => escaped_quoted v '"' hmem (by decide)
    rw [linkBody_href hescaped hquote hmark.2 h.label, Option.map_some, length_sub] at hfound
    exact captures_lone linkTag_forward (List.cons_ne_nil _ _) h.front h.back hfound

variable (urls : UrlReader)

/-- The address that a text names on a page. -/
def addressOf (pageUrl : String) (text : List Char) : Option String :=
  (History.normalizeHttpUrl (urls.parse · pageUrl) (String.ofList text)).toOption

theorem addressOf_trim (pageUrl : String) (text : List Char) :
    (History.normalizeHttpUrl (urls.parse · pageUrl) (trim (String.ofList text))).toOption = addressOf urls pageUrl text := by
  unfold addressOf History.normalizeHttpUrl
  rw [Js.trim_trim]

theorem addressOf_blank (pageUrl : String) {text : List Char} (h : trim (String.ofList text) = "") :
    addressOf urls pageUrl text = none := by
  unfold addressOf History.normalizeHttpUrl
  rw [h]
  rfl

/-- The first link of a page is shown with its address, when it has one. -/
theorem readLink_first (pageUrl : String) (text : List Char) (h : 2 ≤ (units (elementText label)).length) :
    (readLink urls pageUrl {} (text, label)).out.map BrowserLink.url =
      (addressOf urls pageUrl text).toList := by
  have hshown : ¬ (elementText label = "" ∨ (units (elementText label)).length < 2) := by
    rintro (hempty | hshort)
    · rw [hempty] at h
      exact absurd h (by decide)
    · omega
  unfold readLink
  dsimp only
  split_ifs with hblank
  · rw [addressOf_blank urls pageUrl hblank]
    rfl
  · rw [← addressOf_trim]
    cases History.normalizeHttpUrl (urls.parse · pageUrl) (trim (String.ofList text)) with
    | error e => rfl
    | ok resolved =>
      dsimp only
      rw [if_neg (List.not_mem_nil)]
      rfl

theorem extractLinks_page (h : OnlyLink slot label v) (pageUrl : String) {maxLinks : Nat}
    (hmax : 0 < maxLinks) :
    (extractLinks urls (String.ofList (page slot.front (anchorElement slot label v) slot.back)) pageUrl
      maxLinks).map BrowserLink.url = (addressOf urls pageUrl (escaped v)).toList := by
  unfold extractLinks
  rw [String.toList_ofList, captures_link h]
  split_ifs with hv
  · have hblank : trim (String.ofList (escaped v)) = "" := by
      subst hv
      decide
    rw [addressOf_blank urls pageUrl hblank]
    rfl
  · rw [List.foldl_cons, List.foldl_nil, if_pos (by simpa using hmax)]
    exact readLink_first urls pageUrl (escaped v) h.shown

end Links

section Fields

variable {v body front back : List Char} {slot : Slot} {attrs : List Attribute}
variable (rt : Runtime) (urls : UrlReader)

/-- The only form of a page. -/
structure OnlyForm (slot : Slot) (body v : List Char) : Prop where
  front : Silent (pairedTag "form".toList) slot.front (formElement slot body v ++ slot.back)
  back : captures (pairedTag "form".toList) slot.back = []
  body : containsName (closingTag "form".toList) body = false
  last : ∀ a ∈ slot.after, a.key rt ≠ "action"

/-- Where a form is sent that names the text as its action. -/
def actionAddress (pageUrl : String) (text : List Char) : String :=
  (addressOf urls pageUrl (if text = [] then pageUrl.toList else text)).getD pageUrl

theorem escapedAttribute_key {name : List Char} (hname : name ∈ readNames) (v : List Char) :
    (escapedAttribute name hname v).key rt = String.ofList name := by
  have hnames : ∀ name ∈ readNames, trim (String.ofList name) = String.ofList name ∧
      name.all Js.isAscii = true ∧ name.map Char.toLower = name := by decide
  obtain ⟨htrim, hascii, hlower⟩ := hnames name hname
  have hkey : (escapedAttribute name hname v).key rt = rt.toLowerCase (trim (String.ofList name)) := rfl
  have hlist : (String.ofList name).toList.all Js.isAscii = true := by
    rw [String.toList_ofList]
    exact hascii
  rw [hkey, htrim, rt.lower_ascii _ hlist, String.toList_ofList, hlower]

/-- The reader takes the value as it is written. -/
theorem lookup_escaped {name : List Char} (hname : name ∈ readNames)
    (hlast : ∀ a ∈ slot.after, a.key rt ≠ String.ofList name) (v : List Char) :
    (parseHtmlAttributes rt (markup (slot.attrs (escapedAttribute name hname v)))).lookup
      (String.ofList name) = some (String.ofList (escaped v)) := by
  have hplain : ∀ name ∈ readNames, String.ofList name ≠ "" ∧ String.ofList name ≠ "__proto__" := by
    decide
  rw [lookup_parseHtmlAttributes rt (hplain name hname).1 (hplain name hname).2]
  exact attributeOf_mid rt (escapedAttribute_key rt hname v) hlast slot.before

theorem ofList_eq_empty {text : List Char} : String.ofList text = "" ↔ text = [] := by
  rw [← String.toList_inj, String.toList_ofList]
  rfl

theorem readForm_action (pageUrl : String) (index : Nat) (raw inner : List Char) (text : List Char)
    (h : (parseHtmlAttributes rt raw).lookup "action" = some (String.ofList text)) :
    (readForm rt urls pageUrl index (raw, inner)).action = actionAddress urls pageUrl text := by
  have hchosen : (if String.ofList text = "" then pageUrl else String.ofList text) =
      String.ofList (if text = [] then pageUrl.toList else text) := by
    by_cases hempty : text = []
    · rw [if_pos hempty, if_pos (ofList_eq_empty.mpr hempty), String.ofList_toList]
    · rw [if_neg hempty, if_neg fun h => hempty (ofList_eq_empty.mp h)]
  unfold readForm actionAddress addressOf
  dsimp only
  rw [h, Option.getD_some, hchosen]
  cases History.normalizeHttpUrl (urls.parse · pageUrl)
    (String.ofList (if text = [] then pageUrl.toList else text)) <;> rfl

theorem parseForms_page (h : OnlyForm rt slot body v) (pageUrl : String) :
    (parseForms rt urls (String.ofList (page slot.front (formElement slot body v) slot.back)) pageUrl).map
      BrowserForm.action = [actionAddress urls pageUrl (escaped v)] := by
  have hmark := not_mem_markup (slot.attrs (actionOf v))
  have hfound := pairedTag_element (by decide) (head_markup _) hmark.2 h.body slot.back
  have hpage : (String.ofList (page slot.front (formElement slot body v) slot.back)).toList =
      slot.front ++ (formElement slot body v ++ slot.back) := String.toList_ofList
  have hcaptures : captures (pairedTag "form".toList) (slot.front ++ (formElement slot body v ++ slot.back)) =
      [(markup (slot.attrs (actionOf v)), body)] :=
    captures_lone (pairedTag_forward _) (List.cons_ne_nil _ _) h.front h.back hfound
  have hlookup := @lookup_escaped slot rt _ (by decide) h.last v
  unfold parseForms
  rw [hpage, hcaptures]
  exact congrArg (fun action => [action]) (readForm_action rt urls pageUrl 1 _ body (escaped v) hlookup)

/-- The only field of a form, an input that can be filled. -/
structure OnlyInput (slot : Slot) (v : List Char) : Prop where
  front : Silent inputTag slot.front (filledInput slot v ++ slot.back)
  back : captures inputTag slot.back = []
  last : ∀ a ∈ slot.after, a.key rt ≠ "value"
  given : (readInput rt (markup (slot.attrs (valueOf v)))).isSome = true
  textareas : captures (pairedTag "textarea".toList) (page slot.front (filledInput slot v) slot.back) = []
  selects : captures (pairedTag "select".toList) (page slot.front (filledInput slot v) slot.back) = []

theorem readInput_value {raw : List Char} {field : BrowserFormField} (h : readInput rt raw = some field) :
    field.value = ((parseHtmlAttributes rt raw).lookup "value").getD "" := by
  unfold readInput at h
  dsimp only at h
  split_ifs at h <;>
  · obtain rfl := Option.some.inj h
    rfl

theorem parseFormFields_input (h : OnlyInput rt slot v) :
    (parseFormFields rt (page slot.front (filledInput slot v) slot.back)).map BrowserFormField.value =
      [String.ofList (escaped v)] := by
  have hmark := not_mem_markup (slot.attrs (valueOf v))
  have hfound := inputTag_element (head_markup _) hmark.2 slot.back
  have hcaptures : captures inputTag (page slot.front (filledInput slot v) slot.back) =
      [markup (slot.attrs (valueOf v))] :=
    captures_lone inputTag_forward (List.cons_ne_nil _ _) h.front h.back hfound
  obtain ⟨field, hfield⟩ := Option.isSome_iff_exists.mp h.given
  have hvalue := readInput_value rt hfield
  have hlookup : (parseHtmlAttributes rt (markup (slot.attrs (valueOf v)))).lookup "value" = _ :=
    @lookup_escaped slot rt _ (by decide) h.last v
  rw [hlookup, Option.getD_some] at hvalue
  unfold parseFormFields
  rw [hcaptures, h.textareas, h.selects, List.filterMap_cons_some hfield, ← hvalue]
  rfl

/-- The only field of a form, a textarea. -/
structure OnlyArea (front : List Char) (attrs : List Attribute) (back v : List Char) : Prop where
  silent : Silent (pairedTag "textarea".toList) front (filledArea v attrs ++ back)
  last : captures (pairedTag "textarea".toList) back = []
  given : trim ((attributeOf rt attrs "name").getD "") ≠ ""
  inputs : captures inputTag (page front (filledArea v attrs) back) = []
  selects : captures (pairedTag "select".toList) (page front (filledArea v attrs) back) = []

theorem parseFormFields_area (h : OnlyArea rt front attrs back v) :
    (parseFormFields rt (page front (filledArea v attrs) back)).map BrowserFormField.value =
      [String.ofList (decodeHtmlEntities (escaped v))] := by
  have hmark := not_mem_markup attrs
  have hplain : containsName (closingTag "textarea".toList) (escaped v) = false := by
    apply @Foundation.containsName_missing _ _ '<' (by decide)
    intro hmem
    exact escaped_quoted v _ (Js.mem_of_mem_map_toLower hmem (by decide)) (by decide)
  have hfound := pairedTag_element (by decide) (head_markup _) hmark.2 hplain back
  have hcaptures : captures (pairedTag "textarea".toList) (page front (filledArea v attrs) back) =
      [(markup attrs, escaped v)] :=
    captures_lone (pairedTag_forward _) (List.cons_ne_nil _ _) h.silent h.last hfound
  have hname := lookup_parseHtmlAttributes rt (by decide : "name" ≠ "") (by decide) attrs
  have hgiven := h.given
  unfold parseFormFields
  rw [hcaptures, h.inputs, h.selects]
  rw [← hname] at hgiven
  simp only [List.filterMap_nil, List.filterMap_cons, List.nil_append, readPaired, if_neg hgiven,
    List.append_nil, List.map_cons, List.map_nil]

/-- An escaped text comes back from a page: as an address when the escaped text names the same one,
as a value of an input when nothing had to be escaped, and from a textarea when the decoder does not
find an entity in what it has decoded. -/
theorem escaped_recovered_iff (v : List Char) :
    (∀ (slot : Slot) (label : List Char) (pageUrl : String) (maxLinks : Nat), OnlyLink slot label v →
      0 < maxLinks →
      ((extractLinks urls (String.ofList (page slot.front (anchorElement slot label v) slot.back)) pageUrl
          maxLinks).map BrowserLink.url = (addressOf urls pageUrl v).toList ↔
        addressOf urls pageUrl (escaped v) = addressOf urls pageUrl v)) ∧
    (∀ (slot : Slot) (body : List Char) (pageUrl : String), OnlyForm rt slot body v →
      ((parseForms rt urls (String.ofList (page slot.front (formElement slot body v) slot.back)) pageUrl).map
          BrowserForm.action = [actionAddress urls pageUrl v] ↔
        actionAddress urls pageUrl (escaped v) = actionAddress urls pageUrl v)) ∧
    (∀ slot : Slot, OnlyInput rt slot v →
      ((parseFormFields rt (page slot.front (filledInput slot v) slot.back)).map BrowserFormField.value =
          [String.ofList v] ↔ ∀ c ∈ escapedChars, c ∉ v)) ∧
    (∀ (front : List Char) (attrs : List Attribute) (back : List Char), OnlyArea rt front attrs back v →
      ((parseFormFields rt (page front (filledArea v attrs) back)).map BrowserFormField.value =
          [String.ofList v] ↔ ∀ entity ∈ lateEntities, ¬ entity.1.toList <:+: v)) := by
  refine ⟨?_, ?_, ?_, ?_⟩
  · intro slot label pageUrl maxLinks honly hmax
    rw [extractLinks_page urls honly pageUrl hmax]
    constructor
    · intro heq
      rw [← Option.head?_toList (o := addressOf urls pageUrl (escaped v)), heq, Option.head?_toList]
    · exact fun heq => by rw [heq]
  · intro slot body pageUrl honly
    rw [parseForms_page rt urls honly, List.cons.injEq, and_iff_left rfl]
  · intro slot honly
    rw [parseFormFields_input rt honly, List.cons.injEq, and_iff_left rfl, String.ofList_inj,
      escaped_eq_iff]
  · intro front attrs back honly
    rw [parseFormFields_area rt honly, List.cons.injEq, and_iff_left rfl, String.ofList_inj,
      decode_escaped_eq_iff]

/-- A reader that puts a path behind the address of the site. -/
def siteReader : UrlReader := ⟨fun raw base => some ⟨"http:", base ++ raw⟩⟩

/-- The attribute stands behind a name, in a paragraph. -/
def namedSlot : Slot where
  front := "<p>".toList
  before := [{
    name := "name".toList
    value := some "q".toList
    named := by decide
    plain := by decide
    quoted := by decide }]
  after := []
  back := "</p>".toList

theorem escaped_ampersand_lost :
    let v := "/find?a=1&b=2"
    (extractLinks siteReader "<p><a name=\"q\" href=\"/find?a=1&amp;b=2\">next</a></p>" "http://t560" 5).map
        BrowserLink.url ≠ (addressOf siteReader "http://t560" v.toList).toList ∧
      (parseForms Js.asciiRuntime siteReader "<form action=\"/find?a=1&amp;b=2\"></form>" "http://t560").map
        BrowserForm.action ≠ [actionAddress siteReader "http://t560" v.toList] ∧
      (parseFormFields Js.asciiRuntime "<input name=\"q\" value=\"/find?a=1&amp;b=2\">".toList).map
        BrowserFormField.value ≠ [v] ∧
      (parseFormFields Js.asciiRuntime
        "<textarea name=\"q\">/find?a=1&amp;b=2</textarea>".toList).map BrowserFormField.value = [v] := by
  decide +kernel

theorem escaped_recovered_iff_ampersand :
    (extractLinks siteReader (String.ofList (page namedSlot.front
        (anchorElement namedSlot "next".toList "/a&b".toList) namedSlot.back)) "http://t560" 5).map
          BrowserLink.url ≠ (addressOf siteReader "http://t560" "/a&b".toList).toList ∧
      (parseForms Js.asciiRuntime siteReader (String.ofList (page namedSlot.front
        (formElement namedSlot [] "/a&b".toList) namedSlot.back)) "http://t560").map
          BrowserForm.action ≠ [actionAddress siteReader "http://t560" "/a&b".toList] ∧
      (parseFormFields Js.asciiRuntime (page namedSlot.front (filledInput namedSlot "/a&b".toList)
        namedSlot.back)).map BrowserFormField.value ≠ ["/a&b"] ∧
      (parseFormFields Js.asciiRuntime (page [] (filledArea "/a&b".toList namedSlot.before) [])).map
        BrowserFormField.value = ["/a&b"] := by
  obtain ⟨hlink, hform, hinput, harea⟩ :=
    escaped_recovered_iff Js.asciiRuntime siteReader "/a&b".toList
  refine ⟨?_, ?_, ?_, ?_⟩
  · have honly : OnlyLink namedSlot "next".toList "/a&b".toList := by
      constructor <;> first | decide | (unfold Silent; decide)
    intro heq
    exact absurd ((hlink namedSlot "next".toList "http://t560" 5 honly (by decide)).mp heq) (by decide +kernel)
  · have honly : OnlyForm Js.asciiRuntime namedSlot [] "/a&b".toList := by
      constructor <;> first | decide | (unfold Silent; decide)
    intro heq
    exact absurd ((hform namedSlot [] "http://t560" honly).mp heq) (by decide +kernel)
  · have honly : OnlyInput Js.asciiRuntime namedSlot "/a&b".toList := by
      constructor <;> first | decide | (unfold Silent; decide)
    intro heq
    exact absurd ((hinput namedSlot honly).mp heq) (by decide)
  · have honly : OnlyArea Js.asciiRuntime [] namedSlot.before [] "/a&b".toList := by
      constructor <;> first | decide | (unfold Silent; decide)
    exact (harea [] namedSlot.before [] honly).mpr (by decide)

end Fields

end T560.Browser
