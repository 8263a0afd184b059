import Mathlib.Tactic.Common
import T560.Js.Text
import T560.Foundation.Rewrite

/-!
# Inline markers of a line

The five patterns of the message formatter, one replacement after the other over the text the
replacements before it have left: bold, italic, code, links and strikethrough. The patterns are
written over lists of any items, an item being a character or nothing a pattern asks for, so
that a line can be formatted with its tags as characters and with its tags as marks. The two
agree, since no tag has a character that a pattern asks for.
-/

namespace T560.Format

open Rewrite (Finder shortest replaceAll Coarse Simulates)

inductive Kind where
  | bold
  | italic
  | code
  | link
  | strike
  deriving DecidableEq, Repr

/-- The tags of a line. A link opens with the tag up to its address; `addressEnd` is the rest. -/
inductive Mark where
  | opens (kind : Kind)
  | closes (kind : Kind)
  | addressEnd
  deriving DecidableEq, Repr

/-- The characters that `.` matches. -/
def dot (c : Char) : Bool :=
  c != '\n' && c != '\r' && c.toNat != 0x2028 && c.toNat != 0x2029

section Patterns
variable {α : Type} (char : α → Option Char)

def starts : List Char → List α → Bool
  | [], _ => true
  | _ :: _, [] => false
  | c :: s, a :: l => char a == some c && starts s l

def isDot (a : α) : Bool := (char a).all dot

def isNot (x : Char) (a : α) : Bool := char a != some x

/-- An opening text, the shortest run of admitted items before `close`, and the closing text of
the given length. -/
def enclosed (opening : List Char) (ok : α → Bool) (close : List α → Bool) (closing : Nat)
    (l : List α) : Option (List α × Nat) :=
  if starts char opening l then
    (shortest ok close (l.drop opening.length)).map fun n =>
      ((l.drop opening.length).take n, opening.length + n + closing)
  else none

/-- A doubled marker, the shortest run of characters of one line, and the doubled marker. -/
def doubledSpan (x : Char) : Finder α (List α) := fun _ l =>
  enclosed char [x, x] (isDot char) (starts char [x, x]) 2 l

/-- `/\*\*(.+?)\*\*/` -/
def boldSpan : Finder α (List α) := doubledSpan char '*'

/-- `/(?<!\*)\*([^*]+?)\*(?!\*)/` -/
def italicSpan : Finder α (List α) := fun prev l =>
  if prev.any fun a => char a == some '*' then none
  else
    enclosed char ['*'] (isNot char '*')
      (fun r => starts char ['*'] r && !starts char ['*', '*'] r) 1 l

/-- The pattern of a backtick, no backticks and a backtick. -/
def codeSpan : Finder α (List α) := fun _ l =>
  enclosed char ['`'] (isNot char '`') (starts char ['`']) 1 l

/-- `/\[([^\]]+)\]\(([^)]+)\)/`: the label and the address. -/
def linkSpan : Finder α (List α × List α) := fun _ l =>
  (enclosed char ['['] (isNot char ']') (starts char [']', '(']) 2 l).bind fun label =>
    (shortest (isNot char ')') (starts char [')']) (l.drop label.2)).map fun m =>
      ((label.1, (l.drop label.2).take m), label.2 + m + 1)

/-- `/~~(.+?)~~/` -/
def strikeSpan : Finder α (List α) := doubledSpan char '~'

variable (write : Mark → List α)

def wrap (kind : Kind) (inner : List α) : List α :=
  write (.opens kind) ++ inner ++ write (.closes kind)

def wrapLink (link : List α × List α) : List α :=
  write (.opens .link) ++ link.2 ++ write .addressEnd ++ link.1 ++ write (.closes .link)

/-- The line as the link pattern meets it. -/
def beforeLinks (l : List α) : List α :=
  replaceAll (codeSpan char) (wrap write .code)
    (replaceAll (italicSpan char) (wrap write .italic)
      (replaceAll (boldSpan char) (wrap write .bold) l))

def inlineFormat (l : List α) : List α :=
  replaceAll (strikeSpan char) (wrap write .strike)
    (replaceAll (linkSpan char) (wrapLink write) (beforeLinks char write l))

end Patterns

/-- `text.replace(/c/g, s)` -/
def replaceChar (c : Char) (s : String) (text : List Char) : List Char :=
  text.flatMap fun d => if d = c then s.toList else [d]

def escapeHtml (text : List Char) : List Char :=
  replaceChar '>' "&gt;" (replaceChar '<' "&lt;" (replaceChar '&' "&amp;" text))

def telegramTag : Mark → String
  | .opens .bold => "<b>"
  | .closes .bold => "</b>"
  | .opens .italic => "<i>"
  | .closes .italic => "</i>"
  | .opens .code => "<code>"
  | .closes .code => "</code>"
  | .opens .link => "<a href=\""
  | .addressEnd => "\">"
  | .closes .link => "</a>"
  | .opens .strike => "<s>"
  | .closes .strike => "</s>"

def webTag : Mark → String
  | .opens .bold => "<strong>"
  | .closes .bold => "</strong>"
  | .opens .italic => "<em>"
  | .closes .italic => "</em>"
  | .opens .code => "<code>"
  | .closes .code => "</code>"
  | .opens .link => "<a href=\""
  | .addressEnd => "\" target=\"_blank\">"
  | .closes .link => "</a>"
  | .opens .strike => "<s>"
  | .closes .strike => "</s>"

def telegramInlineFormat (text : List Char) : List Char :=
  inlineFormat some (fun m => (telegramTag m).toList) (escapeHtml text)

def webInlineFormat (text : List Char) : List Char :=
  inlineFormat some (fun m => (webTag m).toList) (escapeHtml text)

/-- A character of a line, or one of its tags. -/
inductive Item where
  | text (c : Char)
  | mark (m : Mark)
  deriving DecidableEq, Repr

def Item.char : Item → Option Char
  | .text c => some c
  | .mark _ => none

def Item.render (tag : Mark → String) : Item → List Char
  | .text c => [c]
  | .mark m => (tag m).toList

def writeMark (m : Mark) : List Item := [.mark m]

/-- The line with its tags as marks. -/
def markedLine (text : List Char) : List Item :=
  inlineFormat Item.char writeMark ((escapeHtml text).map .text)

/-- The addresses of the links of a line, with the tags that stand in them. -/
def linkAddresses (text : List Char) : List (List Item) :=
  (Rewrite.pieces (linkSpan Item.char) 0 none
      (beforeLinks Item.char writeMark ((escapeHtml text).map .text))).filterMap
    fun p => p.getRight?.map Prod.snd

section Simulation

/-- The characters that the patterns ask for. -/
def MARKERS : List Char := ['*', '`', '[', ']', '(', ')', '~']

/-- No character, or one that is not asked for and that `.` matches. -/
def Unasked (markers : List Char) (o : Option Char) : Prop :=
  ∀ c, o = some c → c ∉ markers ∧ dot c = true

instance (markers : List Char) : (o : Option Char) → Decidable (Unasked markers o)
  | none => .isTrue (by simp [Unasked])
  | some c => decidable_of_iff (c ∉ markers ∧ dot c = true) (by simp [Unasked])

/-- The tags have no character that a pattern asks for. -/
def PlainTags (tag : Mark → String) : Prop :=
  ∀ m, (tag m).toList ≠ [] ∧ ∀ c ∈ (tag m).toList, Unasked MARKERS (some c)

theorem plainTags_of_marks {tag : Mark → String}
    (h : ∀ k, ((tag (.opens k)).toList ≠ [] ∧ ∀ c ∈ (tag (.opens k)).toList, Unasked MARKERS (some c)) ∧
      (tag (.closes k)).toList ≠ [] ∧ ∀ c ∈ (tag (.closes k)).toList, Unasked MARKERS (some c))
    (hend : (tag .addressEnd).toList ≠ [] ∧ ∀ c ∈ (tag .addressEnd).toList, Unasked MARKERS (some c)) :
    PlainTags tag := by
  intro m
  cases m with
  | opens k => exact (h k).1
  | closes k => exact (h k).2
  | addressEnd => exact hend

theorem plainTags_telegram : PlainTags telegramTag := by
  apply plainTags_of_marks
  · intro k
    cases k <;> decide
  · decide

theorem plainTags_web : PlainTags webTag := by
  apply plainTags_of_marks
  · intro k
    cases k <;> decide
  · decide

/-- Items that stand for several others: one that a pattern may ask for stands for one with its
character, any other for some that no pattern asks for. -/
structure Renders {α β : Type} (markers : List Char) (char : α → Option Char) (char' : β → Option Char)
    (f : α → List β) : Prop where
  ne_nil : ∀ a, f a ≠ []
  marker_or_unasked : ∀ a, (∃ b, f a = [b] ∧ char' b = char a) ∨
    (∀ b ∈ f a, Unasked markers (char' b)) ∧ Unasked markers (char a)

theorem renders_item {tag : Mark → String} (ht : PlainTags tag) :
    Renders MARKERS Item.char some (Item.render tag) where
  ne_nil := by
    intro a
    cases a with
    | text c => simp [Item.render]
    | mark m => exact (ht m).1
  marker_or_unasked := by
    intro a
    cases a with
    | text c => exact Or.inl ⟨c, rfl, rfl⟩
    | mark m => exact Or.inr ⟨(ht m).2, by simp [Item.char, Unasked]⟩

variable {α β : Type} {markers : List Char} {char : α → Option Char} {char' : β → Option Char}
  {f : α → List β}

theorem Unasked.ne {o : Option Char} (h : Unasked markers o) {x : Char} (hx : x ∈ markers) : o ≠ some x :=
  fun ho => (h x ho).1 hx

theorem Unasked.isDot {b : β} (h : Unasked markers (char' b)) : isDot char' b = true := by
  unfold Format.isDot
  cases hb : char' b with
  | none => rfl
  | some c => exact (h c hb).2

theorem Unasked.isNot {b : β} (h : Unasked markers (char' b)) {x : Char} (hx : x ∈ markers) :
    isNot char' x b = true := by
  simpa [Format.isNot] using h.ne hx

theorem starts_unasked {x : Char} (hx : x ∈ markers) (s : List Char) {b : β} (hb : Unasked markers (char' b))
    (l : List β) : starts char' (x :: s) (b :: l) = false := by
  have := hb.ne hx
  simp [starts, this]

theorem enclosed_unasked {x : Char} (hx : x ∈ markers) (s : List Char) (ok : β → Bool)
    (close : List β → Bool) (closing : Nat) {b : β} (hb : Unasked markers (char' b)) (l : List β) :
    enclosed char' (x :: s) ok close closing (b :: l) = none := by
  rw [enclosed, starts_unasked hx s hb, if_neg (by simp)]

theorem enclosed_pos {opening : List Char} {ok : α → Bool} {close : List α → Bool} {closing : Nat}
    {l : List α} {m : List α × Nat} (h : enclosed char opening ok close closing l = some m) : 0 < m.2 := by
  rw [enclosed] at h
  split_ifs at h
  simp only [Option.map_eq_some_iff] at h
  obtain ⟨n, hn, rfl⟩ := h
  have := Rewrite.shortest_pos hn
  dsimp only
  omega

variable (hr : Renders markers char char' f)
include hr

theorem coarse_render : Coarse f fun b => Unasked markers (char' b) where
  ne_nil := hr.ne_nil
  single_or_plain := by
    intro a
    rcases hr.marker_or_unasked a with ⟨b, hb, -⟩ | ⟨hunasked, -⟩
    · exact Or.inl ⟨b, hb⟩
    · exact Or.inr hunasked

theorem isDot_render (a : α) : ∀ b ∈ f a, isDot char' b = isDot char a := by
  intro b hb
  rcases hr.marker_or_unasked a with ⟨d, hd, hchar⟩ | ⟨hunasked, hchar⟩
  · rw [hd, List.mem_singleton] at hb
    rw [hb, isDot, isDot, hchar]
  · rw [(hunasked b hb).isDot, hchar.isDot]

theorem isNot_render {x : Char} (hx : x ∈ markers) (a : α) : ∀ b ∈ f a, isNot char' x b = isNot char x a := by
  intro b hb
  rcases hr.marker_or_unasked a with ⟨d, hd, hchar⟩ | ⟨hunasked, hchar⟩
  · rw [hd, List.mem_singleton] at hb
    rw [hb, isNot, isNot, hchar]
  · rw [(hunasked b hb).isNot hx, hchar.isNot hx]

theorem starts_render {s : List Char} (hs : s ⊆ markers) (l : List α) :
    starts char' s (l.flatMap f) = starts char s l := by
  induction s generalizing l with
  | nil => simp [starts]
  | cons x s ih =>
    have hx : x ∈ markers := hs (by simp)
    cases l with
    | nil => rfl
    | cons a l =>
      rcases hr.marker_or_unasked a with ⟨b, hb, hchar⟩ | ⟨hunasked, hchar⟩
      · rw [List.flatMap_cons, hb, List.singleton_append, starts, starts, hchar,
          ih fun y hy => hs (by simp [hy])]
      · obtain ⟨b, bs, hbs⟩ := List.exists_cons_of_ne_nil (hr.ne_nil a)
        rw [List.flatMap_cons, hbs, List.cons_append, starts_unasked hx s (hunasked b (by simp [hbs])),
          starts_unasked hx s hchar]

theorem length_starts {s : List Char} (hs : s ⊆ markers) {l : List α} (h : starts char s l = true) :
    ((l.take s.length).flatMap f).length = s.length := by
  induction s generalizing l with
  | nil => simp
  | cons x s ih =>
    cases l with
    | nil => simp [starts] at h
    | cons a l =>
      rw [starts, Bool.and_eq_true, beq_iff_eq] at h
      rcases hr.marker_or_unasked a with ⟨b, hb, -⟩ | ⟨-, hchar⟩
      · rw [List.length_cons, List.take_succ_cons, List.flatMap_cons, hb, List.singleton_append,
          List.length_cons, ih (fun y hy => hs (by simp [hy])) h.2]
      · exact absurd h.1 (hchar.ne (hs (by simp)))

theorem drop_starts {s : List Char} (hs : s ⊆ markers) {l : List α} (h : starts char s l = true) :
    (l.flatMap f).drop s.length = (l.drop s.length).flatMap f := by
  conv_lhs => rw [← length_starts hr hs h]
  exact Rewrite.drop_flatMap_take _ _ _

/-- What a pattern of one pair of delimiters finds in the items and in what they stand for. -/
theorem enclosed_render {opening : List Char} (hs : opening ⊆ markers) {ok : α → Bool} {ok' : β → Bool}
    {close : List α → Bool} {close' : List β → Bool} {closing : Nat} (hok : ∀ a, ∀ b ∈ f a, ok' b = ok a)
    (hok' : ∀ b, Unasked markers (char' b) → ok' b = true)
    (hclose' : ∀ b l, Unasked markers (char' b) → close' (b :: l) = false)
    (hclose : ∀ l : List α, close' (l.flatMap f) = close l)
    (hclosing : ∀ l, close l = true → ((l.take closing).flatMap f).length = closing)
    (l : List α) :
    enclosed char' opening ok' close' closing (l.flatMap f) =
      (enclosed char opening ok close closing l).map fun m =>
        (m.1.flatMap f, ((l.take m.2).flatMap f).length) := by
  rw [enclosed, enclosed, starts_render hr hs]
  by_cases h : starts char opening l = true
  · rw [if_pos h, if_pos h, drop_starts hr hs h,
      Rewrite.shortest_flatMap (coarse_render hr) hok' hclose' hok hclose]
    cases hn : shortest ok close (l.drop opening.length) with
    | none => rfl
    | some n =>
      simp only [Option.map_some, Rewrite.take_flatMap_take, Option.some.injEq, Prod.mk.injEq,
        true_and]
      have hend := hclosing _ (Rewrite.shortest_close hn)
      rw [List.drop_drop] at hend
      rw [List.take_add, List.flatMap_append, List.length_append, hend, List.take_add,
        List.flatMap_append, List.length_append, length_starts hr hs h]
  · rw [if_neg h, if_neg h]
    rfl

theorem simulates_doubled {x : Char} (hx : x ∈ markers) :
    Simulates f (fun b => Unasked markers (char' b)) (doubledSpan char x) (doubledSpan char' x)
      (List.flatMap f) where
  inside := fun _ _ l hb => enclosed_unasked hx _ _ _ _ hb l
  border := by
    intro prev l
    have hs : [x, x] ⊆ markers := by simpa using hx
    exact enclosed_render hr hs (isDot_render hr) (fun _ hb => hb.isDot)
      (fun _ l hb => starts_unasked hx _ hb l) (starts_render hr hs) (fun l hl => length_starts hr hs hl) l
  covers := fun _ _ _ h => enclosed_pos h

theorem simulates_code (hx : '`' ∈ markers) :
    Simulates f (fun b => Unasked markers (char' b)) (codeSpan char) (codeSpan char') (List.flatMap f) where
  inside := fun _ _ l hb => enclosed_unasked hx _ _ _ _ hb l
  border := by
    intro prev l
    have hs : ['`'] ⊆ markers := by simpa using hx
    exact enclosed_render hr hs (isNot_render hr hx) (fun _ hb => hb.isNot hx)
      (fun _ l hb => starts_unasked hx _ hb l) (starts_render hr hs) (fun l hl => length_starts hr hs hl) l
  covers := fun _ _ _ h => enclosed_pos h

theorem any_star_render (hx : '*' ∈ markers) (prev : Option α) :
    ((prev.bind fun a => (f a).getLast?).any fun b => char' b == some '*') =
      prev.any fun a => char a == some '*' := by
  cases prev with
  | none => rfl
  | some a =>
    rw [Option.bind_some, Option.any_some]
    rcases hr.marker_or_unasked a with ⟨b, hb, hchar⟩ | ⟨hunasked, hchar⟩
    · simp [hb, hchar]
    · have hlast := List.getLast?_eq_some_getLast (hr.ne_nil a)
      have hne := (hunasked _ (List.getLast_mem (hr.ne_nil a))).ne hx
      have hnot := hchar.ne hx
      simp [hlast, hne, hnot]

theorem simulates_italic (hx : '*' ∈ markers) :
    Simulates f (fun b => Unasked markers (char' b)) (italicSpan char) (italicSpan char')
      (List.flatMap f) where
  inside := by
    intro prev b l hb
    rw [italicSpan, enclosed_unasked hx _ _ _ _ hb, ite_self]
  border := by
    intro prev l
    have hs : ['*', '*'] ⊆ markers := by simpa using hx
    have hone : ['*'] ⊆ markers := by simpa using hx
    rw [italicSpan, italicSpan, any_star_render hr hx]
    split_ifs
    · rfl
    · apply enclosed_render hr hone (isNot_render hr hx) (fun _ hb => hb.isNot hx)
      · intro b l hb
        rw [starts_unasked hx _ hb, Bool.false_and]
      · intro l
        rw [starts_render hr hone, starts_render hr hs]
      · intro l hl
        rw [Bool.and_eq_true] at hl
        exact length_starts hr hone hl.1
  covers := by
    intro prev l m h
    rw [italicSpan] at h
    split_ifs at h
    exact enclosed_pos h

theorem simulates_link (hx : ['[', ']', '(', ')'] ⊆ markers) :
    Simulates f (fun b => Unasked markers (char' b)) (linkSpan char) (linkSpan char')
      (fun p => (p.1.flatMap f, p.2.flatMap f)) where
  inside := by
    intro prev b l hb
    rw [linkSpan, enclosed_unasked (hx (by simp)) _ _ _ _ hb, Option.bind_none]
  border := by
    intro prev l
    have hopen : ['['] ⊆ markers := fun y hy => hx (by simp_all)
    have hmid : [']', '('] ⊆ markers := fun y hy => hx (by simp_all; tauto)
    have hend : [')'] ⊆ markers := fun y hy => hx (by simp_all)
    have hbracket : ']' ∈ markers := hmid (by simp)
    have hparenthesis : ')' ∈ markers := hend (by simp)
    have hclosing (l : List α) (hl : starts char [']', '('] l = true) :
        ((l.take 2).flatMap f).length = 2 := length_starts hr hmid hl
    have hlabel := enclosed_render hr hopen (isNot_render hr hbracket) (fun _ hb => hb.isNot hbracket)
      (fun _ l hb => starts_unasked hbracket _ hb l) (starts_render hr hmid) hclosing l
    rw [linkSpan, linkSpan, hlabel]
    cases enclosed char ['['] (isNot char ']') (starts char [']', '(']) 2 l with
    | none => rfl
    | some label =>
      simp only [Option.map_some, Option.bind_some, Rewrite.drop_flatMap_take]
      rw [Rewrite.shortest_flatMap (coarse_render hr) (fun _ hb => hb.isNot hparenthesis)
        (fun _ l hb => starts_unasked hparenthesis _ hb l)
        (isNot_render hr hparenthesis) (starts_render hr hend)]
      cases hm : shortest (isNot char ')') (starts char [')']) (l.drop label.2) with
      | none => rfl
      | some m =>
        have hclose := length_starts hr hend (Rewrite.shortest_close hm)
        simp only [List.length_cons, List.length_nil, Nat.zero_add] at hclose
        simp only [Option.map_some, Rewrite.take_flatMap_take, Option.some.injEq, Prod.mk.injEq,
          true_and]
        rw [List.drop_drop] at hclose
        rw [List.take_add, List.flatMap_append, List.length_append, hclose, List.take_add,
          List.flatMap_append, List.length_append]
  covers := by
    intro prev l m h
    rw [linkSpan, Option.bind_eq_some_iff] at h
    obtain ⟨label, -, h⟩ := h
    simp only [Option.map_eq_some_iff] at h
    obtain ⟨n, -, rfl⟩ := h
    exact Nat.succ_pos _

end Simulation

section Escaped

def escapeChar (c : Char) : List Char :=
  if c = '&' then "&amp;".toList
  else if c = '<' then "&lt;".toList
  else if c = '>' then "&gt;".toList
  else [c]

theorem escapeHtml_eq (text : List Char) : escapeHtml text = text.flatMap escapeChar := by
  unfold escapeHtml replaceChar
  rw [List.flatMap_assoc, List.flatMap_assoc]
  apply List.flatMap_congr
  intro c _
  by_cases hand : c = '&'
  · subst hand
    decide
  · by_cases hless : c = '<'
    · subst hless
      decide
    · by_cases hmore : c = '>'
      · subst hmore
        decide
      · simp [escapeChar, hand, hless, hmore]

theorem escapeChar_cases (ch : Char) :
    escapeChar ch ≠ [] ∧ (escapeChar ch = [ch] ∨ (∀ c ∈ escapeChar ch, Unasked MARKERS (some c)) ∧ Unasked MARKERS (some ch)) := by
  unfold escapeChar
  split_ifs with hand hless hmore
  · subst hand
    exact ⟨by decide, Or.inr (by decide)⟩
  · subst hless
    exact ⟨by decide, Or.inr (by decide)⟩
  · subst hmore
    exact ⟨by decide, Or.inr (by decide)⟩
  · exact ⟨List.cons_ne_nil _ _, Or.inl rfl⟩

end Escaped

section Runs

theorem starts_chars {α : Type} {char : α → Option Char} {s : List Char} {l : List α}
    (h : starts char s l = true) : (l.take s.length).map char = s.map some := by
  induction s generalizing l with
  | nil => rfl
  | cons x s ih =>
    cases l with
    | nil => simp [starts] at h
    | cons a l =>
      rw [starts, Bool.and_eq_true, beq_iff_eq] at h
      simp [h.1, ih h.2]

/-- The opening characters, the inner items and the closing characters. -/
theorem enclosed_run {α : Type} {char : α → Option Char} {opening closing : List Char} {ok : α → Bool}
    {close : List α → Bool} {l inner : List α} {m n : Nat}
    (h : enclosed char opening ok close m l = some (inner, n))
    (hclose : ∀ r, close r = true → starts char closing r = true) (hlength : closing.length = m) :
    ∃ o c, l.take n = o ++ (inner ++ c) ∧ o.map char = opening.map some ∧
      c.map char = closing.map some := by
  subst hlength
  rw [enclosed] at h
  split_ifs at h with hopen
  obtain ⟨m, hm, heq⟩ := Option.map_eq_some_iff.mp h
  obtain ⟨rfl, rfl⟩ := Prod.mk.inj heq
  refine ⟨l.take opening.length, ((l.drop opening.length).drop m).take closing.length, ?_,
    starts_chars hopen, starts_chars (hclose _ (Rewrite.shortest_close hm))⟩
  rw [List.take_add, List.take_add, List.append_assoc, List.drop_drop]

end Runs

section Marked

variable {tag : Mark → String}

theorem wrap_render (kind : Kind) (inner : List Item) :
    wrap (fun m => (tag m).toList) kind (inner.flatMap (Item.render tag)) =
      (wrap writeMark kind inner).flatMap (Item.render tag) := by
  simp [wrap, writeMark, Item.render]

theorem wrapLink_render (link : List Item × List Item) :
    wrapLink (fun m => (tag m).toList)
        (link.1.flatMap (Item.render tag), link.2.flatMap (Item.render tag)) =
      (wrapLink writeMark link).flatMap (Item.render tag) := by
  simp [wrapLink, writeMark, Item.render]

/-- Formatting the text of a line writes the marked line out. -/
theorem inlineFormat_render (ht : PlainTags tag) (l : List Item) :
    inlineFormat some (fun m => (tag m).toList) (l.flatMap (Item.render tag)) =
      (inlineFormat Item.char writeMark l).flatMap (Item.render tag) := by
  have hr := renders_item ht
  have hc := coarse_render hr
  have hbold := simulates_doubled hr (x := '*') (by decide)
  have hstrike := simulates_doubled hr (x := '~') (by decide)
  have hitalic := simulates_italic hr (by decide)
  have hcode := simulates_code hr (by decide)
  have hlinks : beforeLinks some (fun m => (tag m).toList) (l.flatMap (Item.render tag)) =
      (beforeLinks Item.char writeMark l).flatMap (Item.render tag) := by
    rw [beforeLinks, beforeLinks, boldSpan, boldSpan,
      Rewrite.replaceAll_flatMap hc hbold (wrap_render .bold),
      Rewrite.replaceAll_flatMap hc hitalic (wrap_render .italic),
      Rewrite.replaceAll_flatMap hc hcode (wrap_render .code)]
  rw [inlineFormat, inlineFormat, hlinks,
    Rewrite.replaceAll_flatMap hc (simulates_link hr (by decide)) wrapLink_render]
  exact Rewrite.replaceAll_flatMap hc hstrike (wrap_render .strike) _

theorem inlineFormat_text (ht : PlainTags tag) (text : List Char) :
    inlineFormat some (fun m => (tag m).toList) (escapeHtml text) =
      (markedLine text).flatMap (Item.render tag) := by
  have h := inlineFormat_render ht ((escapeHtml text).map .text)
  rw [List.flatMap_map] at h
  simpa [Item.render, markedLine] using h

end Marked

end T560.Format
