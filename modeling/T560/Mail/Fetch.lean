import Mathlib.Data.List.Perm.Basic
import T560.Mail.ImapReading

/-!
# Messages on the wire

A fetched message is a line up to its literal, the literal, and a line with the data items that
stand behind it. A search of the first line for a data item goes from item to item.
-/

namespace T560.Mail

open Foundation (isWordChar wordAt stripName searchField containsName endsWithName Apart joined
  searchWords)
open Js (isSpace isDigit)

section Encoding

def digits (n : Nat) : List Char := (toString n).toList

/-- A character of a flag, of a header name or of a date. -/
def ItemChar (c : Char) : Prop := Printable c ∧ c ∉ [' ', '(', ')', '"']

instance (c : Char) : Decidable (ItemChar c) := inferInstanceAs (Decidable (_ ∧ _))

structure ItemWord where
  text : List Char
  ne_nil : text ≠ []
  plain : ∀ c ∈ text, ItemChar c

structure HeaderName extends ItemWord where
  starts : ∀ c ∈ text.head?, isDigit c = false

/-- A date, word by word; a blank in it is behind a digit or at its start. -/
structure InternalDate where
  words : List (List Char)
  given : joined words ≠ []
  inner : ∀ word ∈ words.tail, word ≠ []
  plain : ∀ word ∈ words, ∀ c ∈ word, ItemChar c ∧ c ≠ '['
  ends : ∀ word ∈ words, ∀ c ∈ word.getLast?, isDigit c = true

/-- What the literal of a message is. -/
inductive FetchSection where
  | header (names : List HeaderName)
  | body (origin : Option Nat)

def FetchSection.isHeader : FetchSection → Bool
  | .header _ => true
  | .body _ => false

structure FetchMessage where
  sequence : Nat
  uid : Nat
  flags : List ItemWord
  date : InternalDate
  size : Nat
  part : FetchSection
  data : Bytes
  sequence_pos : 0 < sequence
  uid_pos : 0 < uid
  exact : sequence < 2 ^ 53 ∧ uid < 2 ^ 53 ∧ size < 2 ^ 53

inductive FetchItem where
  | uid
  | flags
  | internalDate
  | size
  deriving DecidableEq, Repr

def FetchItem.all : List FetchItem := [.uid, .flags, .internalDate, .size]

def FetchItem.label : FetchItem → List Char
  | .uid => "UID".toList
  | .flags => "FLAGS".toList
  | .internalDate => "INTERNALDATE".toList
  | .size => "RFC822.SIZE".toList

/-- The marks around the value of an item. -/
def FetchItem.opening : FetchItem → List Char
  | .flags => ['(']
  | .internalDate => ['"']
  | _ => []

def FetchItem.closing : FetchItem → List Char
  | .flags => [')']
  | .internalDate => ['"']
  | _ => []

def FetchMessage.body (m : FetchMessage) : FetchItem → List (List Char)
  | .uid => [digits m.uid]
  | .flags => m.flags.map ItemWord.text
  | .internalDate => m.date.words
  | .size => [digits m.size]

def FetchMessage.itemText (m : FetchMessage) (item : FetchItem) : List Char :=
  item.label ++ ' ' :: (item.opening ++ (joined (m.body item) ++ item.closing))

def FetchSection.written : FetchSection → List Char
  | .header [] => "BODY[HEADER]".toList
  | .header names => "BODY[HEADER.FIELDS".toList ++ ' ' :: '(' ::
      (joined (names.map fun name => name.text) ++ [')', ']'])
  | .body origin => "BODY[TEXT]".toList ++ origin.elim [] fun n => '<' :: (digits n ++ ['>'])

/-- The line up to the literal, with the items in front of it. -/
def FetchMessage.firstLine (m : FetchMessage) (before : List FetchItem) : List Char :=
  '*' :: ' ' :: (digits m.sequence ++ ' ' :: ("FETCH".toList ++ ' ' :: '(' ::
    (before.flatMap (fun item => m.itemText item ++ [' ']) ++
      (m.part.written ++ ' ' :: '\x7b' :: (digits m.data.length ++ ['\x7d'])))))

/-- The line behind the literal, with the other items. -/
def FetchMessage.lastLine (m : FetchMessage) (after : List FetchItem) : List Char :=
  after.flatMap (fun item => ' ' :: m.itemText item) ++ [')']

/-- An order of the data items around the literal. -/
structure FetchOrder where
  before : List FetchItem
  after : List FetchItem
  perm : (before ++ after).Perm FetchItem.all

def FetchMessage.items (m : FetchMessage) (order : FetchOrder) : List ResponseItem :=
  [⟨m.firstLine order.before, some m.data⟩, ⟨m.lastLine order.after, none⟩]

/-- The message as it should be given. -/
def FetchMessage.described (env : ImapEnv) (m : FetchMessage) : ParsedMessage where
  sequence := m.sequence
  uid := some m.uid
  flags := m.flags.map fun flag => String.ofList flag.text
  internalDate := String.ofList (joined m.date.words)
  size := m.size
  headersRaw := if m.part.isHeader then env.decode m.data else ""
  bodyRaw := if m.part.isHeader then "" else env.decode m.data

end Encoding

section Fields

variable {c : Char} {word rest : List Char}

theorem digits_spec (n : Nat) : digits n ≠ [] ∧ ∀ c ∈ digits n, isDigit c = true := by
  obtain ⟨hne, hall⟩ := Js.digits_toString n
  exact ⟨hne, fun c hc => List.all_eq_true.mp hall c hc⟩

theorem isDigit_spec (h : isDigit c = true) : ItemChar c ∧ c ≠ '[' ∧ isSpace c = false := by
  have hcode : ∀ n, 48 ≤ n → n ≤ 57 → ItemChar (Char.ofNat n) ∧ Char.ofNat n ≠ '[' := by decide
  have hspace := Js.isSpace_of_isDigit h
  simp only [isDigit, Bool.and_eq_true, decide_eq_true_eq] at h
  have := hcode c.toNat h.1 h.2
  rw [Char.ofNat_toNat] at this
  exact ⟨this.1, this.2, hspace⟩

theorem isSpace_of_printable (h : Printable c) (hc : c ≠ ' ') : isSpace c = false := by
  have hcode : ∀ n, 33 ≤ n → n < 127 → isSpace (Char.ofNat n) = false := by decide
  have hlow : 33 ≤ c.toNat := by
    rcases Nat.lt_or_ge 32 c.toNat with hlt | hle
    · exact hlt
    · have heq : c.toNat = 32 := Nat.le_antisymm hle h.1
      exact absurd (Char.toNat_inj.mp heq) hc
  rw [← Char.ofNat_toNat c]
  exact hcode _ hlow h.2

theorem ItemChar.spec (h : ItemChar c) :
    isSpace c = false ∧ c ≠ '(' ∧ c ≠ ')' ∧ c ≠ '"' := by
  obtain ⟨hprintable, hmarks⟩ := h
  simp only [List.mem_cons, not_or, List.not_mem_nil, not_false_eq_true, and_true] at hmarks
  exact ⟨isSpace_of_printable hprintable hmarks.1, hmarks.2.1, hmarks.2.2.1, hmarks.2.2.2⟩

/-- The number that a word starts with, up to its end or a mark. -/
def leadingNumber (word : List Char) : Option (List Char) :=
  let digits := word.takeWhile isDigit
  if digits ≠ [] ∧ wordAt (word.dropWhile isDigit).head? = false then some digits else none

def FetchItem.field : FetchItem → List Char → Option (List Char)
  | .uid => numberField
  | .flags => flagsField
  | .internalDate => dateField
  | .size => numberField

/-- What the search for an item takes from a word behind its name. -/
def FetchItem.next : FetchItem → List Char → Option (List Char)
  | .uid => leadingNumber
  | .flags => fun _ => none
  | .internalDate => fun _ => none
  | .size => leadingNumber

theorem blanks_word (h : isSpace c = false) (rest : List Char) : blanks (' ' :: c :: rest) = some (c :: rest) := by
  have hblank : isSpace ' ' = true := by decide
  simp [blanks, hblank, h]

theorem FetchItem.apart (sought : FetchItem) : Apart isSpace sought.label sought.field where
  letters := by cases sought <;> decide
  ne_nil := by cases sought <;> decide
  missing := by cases sought <;> rfl
  starts := by
    intro c text hc
    have hblanks : blanks (c :: text) = none := by simp [blanks, hc]
    cases sought <;> simp [FetchItem.field, numberField, flagsField, dateField, hblanks]

/-- A word behind a name, with a mark or a blank behind it. -/
theorem FetchItem.field_word (sought : FetchItem) (hne : word ≠ []) (hword : ∀ c ∈ word, ItemChar c)
    (hc : isDigit c = false ∧ isWordChar c = false) (rest : List Char) :
    sought.field (' ' :: (word ++ c :: rest)) = sought.next word := by
  obtain ⟨d, word, rfl⟩ := List.exists_cons_of_ne_nil hne
  obtain ⟨hspace, hround, -, hquote⟩ := (hword d (List.mem_cons_self ..)).spec
  have hblanks := blanks_word hspace (word ++ c :: rest)
  have hnumber : numberField (' ' :: (d :: word ++ c :: rest)) = leadingNumber (d :: word) := by
    have htake : ∀ word : List Char, (word ++ c :: rest).takeWhile isDigit = word.takeWhile isDigit ∧
        wordAt ((word ++ c :: rest).dropWhile isDigit).head? = wordAt (word.dropWhile isDigit).head? := by
      intro word
      induction word with
      | nil => simp [hc.1, hc.2, wordAt]
      | cons e word ih =>
        rw [List.cons_append, List.takeWhile_cons, List.dropWhile_cons, List.takeWhile_cons,
          List.dropWhile_cons]
        by_cases he : isDigit e = true
        · rw [if_pos he, if_pos he, if_pos he, if_pos he, ih.1, ih.2]
          exact ⟨rfl, rfl⟩
        · rw [if_neg he, if_neg he, if_neg he, if_neg he]
          exact ⟨rfl, rfl⟩
    obtain ⟨hdigits, hbehind⟩ := htake (d :: word)
    unfold numberField leadingNumber
    rw [List.cons_append, hblanks, Option.bind_some, ← List.cons_append]
    simp only [hdigits, hbehind]
  cases sought with
  | uid => exact hnumber
  | size => exact hnumber
  | flags =>
    rw [FetchItem.field, flagsField, List.cons_append, hblanks, Option.bind_some, between,
      if_neg fun h => hround h.1]
    rfl
  | internalDate =>
    rw [FetchItem.field, dateField, List.cons_append, hblanks, Option.bind_some, between,
      if_neg fun h => hquote h.1]
    rfl

end Fields

section Search

variable {m : FetchMessage} {sought item : FetchItem} {word rest : List Char}

/-- What an item gives to the search for one: its value when it is the item, else what its words
look like. -/
def FetchMessage.found (m : FetchMessage) (sought item : FetchItem) : Option (List Char) :=
  if item = sought then some (joined (m.body item)) else searchWords sought.label sought.next (m.body item)

theorem body_words (m : FetchMessage) (item : FetchItem) :
    (∀ word ∈ m.body item, ∀ c ∈ word, ItemChar c) ∧ ∀ word ∈ (m.body item).tail, word ≠ [] := by
  have hdigits : ∀ n, ∀ word ∈ [digits n], ∀ c ∈ word, ItemChar c := by
    intro n word hword c hc
    obtain rfl := List.mem_singleton.mp hword
    exact (isDigit_spec ((digits_spec n).2 c hc)).1
  cases item with
  | uid => exact ⟨hdigits m.uid, by simp [FetchMessage.body]⟩
  | size => exact ⟨hdigits m.size, by simp [FetchMessage.body]⟩
  | flags =>
    constructor
    · intro word hword
      obtain ⟨flag, -, rfl⟩ := List.mem_map.mp hword
      exact flag.plain
    · intro word hword
      obtain ⟨flag, -, rfl⟩ := List.mem_map.mp (List.mem_of_mem_tail hword)
      exact flag.ne_nil
  | internalDate =>
    exact ⟨fun word hword c hc => (m.date.plain word hword c hc).1, m.date.inner⟩

/-- The names of the items end with a letter. -/
theorem label_last {inWord : Bool} (h : endsWithName sought.label inWord word = true) :
    ∃ c ∈ word.getLast?, c.toLower ∈ ['d', 's', 'e'] := by
  have hlast := Foundation.getLast?_of_endsWithName h
  have hletter : ∃ e ∈ sought.label.getLast?, e.toLower ∈ ['d', 's', 'e'] := by
    cases sought <;> exact ⟨_, rfl, by decide⟩
  obtain ⟨e, he, hmem⟩ := hletter
  rw [Option.mem_def.mp he, Option.map_some] at hlast
  obtain ⟨c, hc, hlower⟩ := Option.map_eq_some_iff.mp hlast
  exact ⟨c, hc, hlower ▸ hmem⟩

theorem endsWithName_mark {c : Char} (hc : c.toLower ∉ ['d', 's', 'e']) (word : List Char) :
    endsWithName sought.label false (word ++ [c]) = false := by
  rw [← Bool.not_eq_true]
  intro hends
  obtain ⟨d, hd, hmem⟩ := label_last hends
  rw [List.getLast?_concat, Option.mem_some_iff] at hd
  exact hc (hd ▸ hmem)

theorem endsWithName_digit (h : ∀ c ∈ word.getLast?, isDigit c = true) :
    endsWithName sought.label false word = false := by
  rw [← Bool.not_eq_true]
  intro hends
  obtain ⟨c, hc, hmem⟩ := label_last hends
  have hcode : ∀ n, 48 ≤ n → n ≤ 57 → (Char.ofNat n).toLower ∉ ['d', 's', 'e'] := by decide
  have hdigit := h c hc
  simp only [isDigit, Bool.and_eq_true, decide_eq_true_eq] at hdigit
  have := hcode c.toNat hdigit.1 hdigit.2
  rw [Char.ofNat_toNat] at this
  exact this hmem

/-- The value of an item stands behind its name. -/
theorem own_field (m : FetchMessage) (item : FetchItem) (rest : List Char) :
    item.field (' ' :: (item.opening ++ (joined (m.body item) ++ (item.closing ++ ' ' :: rest)))) =
      some (joined (m.body item)) := by
  have hwords := (body_words m item).1
  have hmark : ∀ mark : Char, mark ≠ ' ' → (∀ c, ItemChar c → c ≠ mark) →
      (joined (m.body item) ++ mark :: ' ' :: rest).takeWhile (· != mark) = joined (m.body item) := by
    intro mark hblank hplain
    rw [List.takeWhile_append_of_pos]
    · simp
    · intro c hc
      have hne : c ≠ mark := by
        rcases Foundation.mem_joined hc with rfl | ⟨word, hword, hmem⟩
        · exact hblank.symm
        · exact hplain c (hwords word hword c hmem)
      simpa using hne
  have hnumber : ∀ n : Nat, leadingNumber (digits n) = some (digits n) := by
    intro n
    obtain ⟨hne, hall⟩ := digits_spec n
    unfold leadingNumber
    rw [List.takeWhile_eq_self_iff.mpr hall, List.dropWhile_eq_nil_iff.mpr hall]
    exact if_pos ⟨hne, rfl⟩
  cases item with
  | uid =>
    exact ((FetchItem.field_word .uid (digits_spec m.uid).1 (hwords _ (List.mem_singleton_self _))
      (by decide) rest).trans (hnumber m.uid))
  | size =>
    exact ((FetchItem.field_word .size (digits_spec m.size).1 (hwords _ (List.mem_singleton_self _))
      (by decide) rest).trans (hnumber m.size))
  | flags =>
    have htake := hmark ')' (by decide) fun c hc => hc.spec.2.2.1
    have hblanks := @blanks_word '(' (by decide) (joined (m.body .flags) ++ ')' :: ' ' :: rest)
    have hmem : ')' ∈ joined (m.body .flags) ++ ')' :: ' ' :: rest := by simp
    show flagsField (' ' :: '(' :: (joined (m.body .flags) ++ ')' :: ' ' :: rest)) = _
    rw [flagsField, hblanks, Option.bind_some, between, if_pos ⟨rfl, hmem⟩, htake]
  | internalDate =>
    have htake := hmark '"' (by decide) fun c hc => hc.spec.2.2.2
    have hblanks := @blanks_word '"' (by decide) (joined (m.body .internalDate) ++ '"' :: ' ' :: rest)
    have hmem : '"' ∈ joined (m.body .internalDate) ++ '"' :: ' ' :: rest := by simp
    have hgiven : joined (m.body .internalDate) ≠ [] := m.date.given
    show dateField (' ' :: '"' :: (joined (m.body .internalDate) ++ '"' :: ' ' :: rest)) = _
    rw [dateField, hblanks, Option.bind_some, between, if_pos ⟨rfl, hmem⟩, htake,
      Option.filter_some, if_pos (decide_eq_true hgiven)]

/-- The search for an item goes through another. -/
theorem search_item (m : FetchMessage) (sought item : FetchItem) (rest : List Char) :
    searchField sought.label sought.field false (m.itemText item ++ ' ' :: rest) =
      (m.found sought item).or (searchField sought.label sought.field false rest) := by
  obtain ⟨hwords, htail⟩ := body_words m item
  have htext : m.itemText item ++ ' ' :: rest = item.label ++ ' ' ::
      (item.opening ++ (joined (m.body item) ++ (item.closing ++ ' ' :: rest))) := by
    simp [FetchMessage.itemText]
  have hlabel : ∀ c ∈ item.label, isSpace c = false := by
    cases item <;> decide
  have hname : endsWithName sought.label false item.label = decide (item = sought) := by
    cases sought <;> cases item <;> decide
  have hopening : ∀ text, searchField sought.label sought.field false (item.opening ++ text) =
      searchField sought.label sought.field false text := by
    intro text
    cases item with
    | uid => rfl
    | size => rfl
    | flags => exact Foundation.searchField_mark (by decide) text
    | internalDate => exact Foundation.searchField_mark (by decide) text
  have hjoined : searchField sought.label sought.field false
      (joined (m.body item) ++ (item.closing ++ ' ' :: rest)) =
      (searchWords sought.label sought.next (m.body item)).or
        (searchField sought.label sought.field false rest) := by
    apply Foundation.searchField_joined sought.apart
    · cases item <;> decide
    · intro word hword
      have hdigits : ∀ n, word = [] ∨ word ∈ [digits n] →
          endsWithName sought.label false (word ++ []) = false := by
        intro n hword
        rw [List.append_nil]
        apply endsWithName_digit
        rcases hword with rfl | hword
        · simp
        · obtain rfl := List.mem_singleton.mp hword
          exact fun c hc => (digits_spec n).2 c (List.mem_of_getLast? hc)
      cases item with
      | uid => exact hdigits m.uid hword
      | size => exact hdigits m.size hword
      | flags => exact endsWithName_mark (by decide) word
      | internalDate => exact endsWithName_mark (by decide) word
    · exact fun word hword c hc => (hwords word hword c hc).spec.1
    · intro word hword c rest hc
      apply sought.field_word (htail word hword) (hwords word (List.mem_of_mem_tail hword))
      rcases hc with rfl | hc
      · decide
      · cases item <;> simp [FetchItem.closing] at hc <;> subst hc <;> decide
  rw [htext, Foundation.searchField_word sought.apart false hlabel, hname, hopening, hjoined]
  unfold FetchMessage.found
  by_cases hsame : item = sought
  · subst hsame
    rw [decide_eq_true rfl, if_pos rfl, if_pos rfl, own_field]
    rfl
  · rw [decide_eq_false hsame, if_neg hsame, if_neg Bool.false_ne_true, Option.none_or]

theorem search_items (m : FetchMessage) (sought : FetchItem) (items : List FetchItem) (rest : List Char) :
    searchField sought.label sought.field false
      (items.flatMap (fun item => m.itemText item ++ [' ']) ++ rest) =
      (items.findSome? (m.found sought)).or (searchField sought.label sought.field false rest) := by
  induction items with
  | nil => rfl
  | cons item items ih =>
    rw [List.flatMap_cons, List.append_assoc, List.append_assoc, List.singleton_append, search_item, ih,
      List.findSome?_cons, ← Option.or_assoc]
    cases m.found sought item <;> rfl

/-- The name of the literal is none of the items. -/
theorem search_section (part : FetchSection) (sought : FetchItem) {last : List Char}
    (hlast : ∀ c ∈ last, isSpace c = false) :
    searchField sought.label sought.field false (part.written ++ ' ' :: last) = none := by
  have hend := Foundation.searchField_last sought.apart false hlast
  have hword : ∀ word : List Char, (∀ c ∈ word, isSpace c = false) →
      endsWithName sought.label false word = false →
      searchField sought.label sought.field false (word ++ ' ' :: last) = none := by
    intro word hplain hends
    rw [Foundation.searchField_word sought.apart false hplain, hends, hend]
    rfl
  have hclosed : ∀ (word : List Char) (c : Char), (∀ d ∈ word ++ [c], isSpace d = false) →
      c.toLower ∉ ['d', 's', 'e'] →
      searchField sought.label sought.field false (word ++ [c] ++ ' ' :: last) = none :=
    fun word c hplain hc => hword (word ++ [c]) hplain (endsWithName_mark hc word)
  cases part with
  | header names =>
    cases names with
    | nil => exact hclosed "BODY[HEADER".toList ']' (by decide) (by decide)
    | cons name names =>
      have hnames : ∀ word ∈ (name :: names).map fun name => name.text,
          word ≠ [] ∧ (∀ c ∈ word, ItemChar c) ∧ leadingNumber word = none := by
        intro word hmem
        obtain ⟨name, -, rfl⟩ := List.mem_map.mp hmem
        refine ⟨name.ne_nil, name.plain, ?_⟩
        obtain ⟨c, text, htext⟩ := List.exists_cons_of_ne_nil name.ne_nil
        have hc : isDigit c = false := name.starts c (by rw [htext]; rfl)
        simp [leadingNumber, htext, hc]
      have hlabel : ∀ c ∈ "BODY[HEADER.FIELDS".toList, isSpace c = false := by decide
      have hends : endsWithName sought.label false "BODY[HEADER.FIELDS".toList = false := by
        cases sought <;> decide
      have hwritten : FetchSection.written (.header (name :: names)) ++ ' ' :: last =
          "BODY[HEADER.FIELDS".toList ++ ' ' :: '(' ::
            (joined ((name :: names).map fun name => name.text) ++ ([')', ']'] ++ ' ' :: last)) := by
        have hassoc : ∀ label list : List Char, (label ++ ' ' :: '(' :: (list ++ [')', ']'])) ++ ' ' :: last =
            label ++ ' ' :: '(' :: (list ++ ([')', ']'] ++ ' ' :: last)) := by
          intro label list
          simp
        exact hassoc _ _
      have hnext : ∀ word ∈ ((name :: names).map fun name => name.text).tail, sought.next word = none := by
        intro word hmem
        have := (hnames word (List.mem_of_mem_tail hmem)).2.2
        cases sought <;> first | exact this | rfl
      rw [hwritten, Foundation.searchField_word sought.apart false hlabel, hends,
        if_neg Bool.false_ne_true, Option.none_or, Foundation.searchField_mark (by decide),
        Foundation.searchField_joined sought.apart, hend, Foundation.searchWords_none hnext]
      · rfl
      · decide
      · intro word _
        have hsplit : word ++ [')', ']'] = word ++ [')'] ++ [']'] := by simp
        rw [hsplit]
        exact endsWithName_mark (by decide) _
      · exact fun word hmem c hc => ((hnames word hmem).2.1 c hc).spec.1
      · intro word hmem c rest hc
        have hspec := hnames word (List.mem_of_mem_tail hmem)
        apply sought.field_word hspec.1 hspec.2.1
        rcases hc with rfl | hc
        · decide
        · obtain rfl := Option.some.inj hc
          decide
  | body origin =>
    cases origin with
    | none => exact hclosed "BODY[TEXT".toList ']' (by decide) (by decide)
    | some n =>
      have hplain : ∀ c ∈ "BODY[TEXT]<".toList ++ digits n ++ ['>'], isSpace c = false := by
        intro c hc
        rcases List.mem_append.mp hc with hc | hc
        · rcases List.mem_append.mp hc with hc | hc
          · have hlabel : ∀ c ∈ "BODY[TEXT]<".toList, isSpace c = false := by decide
            exact hlabel c hc
          · exact (isDigit_spec ((digits_spec n).2 c hc)).2.2
        · obtain rfl := List.mem_singleton.mp hc
          decide
      have := hclosed ("BODY[TEXT]<".toList ++ digits n) '>' hplain (by decide)
      exact this

/-- What the search for an item takes from the first line is what the items in front of the literal
give. -/
theorem search_firstLine (m : FetchMessage) (sought : FetchItem) (before : List FetchItem) :
    searchField sought.label sought.field false (m.firstLine before) =
      before.findSome? (m.found sought) := by
  have hspace : ∀ n, ∀ c ∈ digits n, isSpace c = false :=
    fun n c hc => (isDigit_spec ((digits_spec n).2 c hc)).2.2
  have hlast : ∀ c ∈ '\x7b' :: (digits m.data.length ++ ['\x7d']), isSpace c = false := by
    intro c hc
    rcases List.mem_cons.mp hc with rfl | hc
    · decide
    · rcases List.mem_append.mp hc with hc | hc
      · exact hspace _ c hc
      · obtain rfl := List.mem_singleton.mp hc
        decide
  have hstar : endsWithName sought.label false ['*'] = false := endsWithName_mark (by decide) []
  have hnumber : endsWithName sought.label false (digits m.sequence) = false :=
    endsWithName_digit fun c hc => (digits_spec _).2 c (List.mem_of_getLast? hc)
  have hfetch : endsWithName sought.label false "FETCH".toList = false := by
    cases sought <;> decide
  have hline : m.firstLine before = ['*'] ++ ' ' :: (digits m.sequence ++ ' ' :: ("FETCH".toList ++ ' ' ::
      ('(' :: (before.flatMap (fun item => m.itemText item ++ [' ']) ++
        (m.part.written ++ ' ' :: '\x7b' :: (digits m.data.length ++ ['\x7d'])))))) := rfl
  rw [hline, Foundation.searchField_word sought.apart false (by decide), hstar,
    Foundation.searchField_word sought.apart false (hspace m.sequence), hnumber,
    Foundation.searchField_word sought.apart false (by decide), hfetch,
    Foundation.searchField_mark (by decide), search_items, search_section m.part sought hlast]
  simp

end Search

end T560.Mail
