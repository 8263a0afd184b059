import T560.Format.Tags

/-!
# Marked lines

In a marked line every link opens with an address, which holds no other link. A line of this
shape is read back as the marks that stand outside of the addresses, unless a quote stands
inside of one: that quote ends the value early.
-/

namespace T560.Format

open Rewrite (replaceAll pieces)

/-- What the reading of a link depends on. -/
inductive Turn where
  | opened
  | ended
  | closed
  | quote
  deriving DecidableEq, Repr

def Item.turn : Item → Option Turn
  | .text c => if c = '"' then some .quote else none
  | .mark (.opens .link) => some .opened
  | .mark .addressEnd => some .ended
  | .mark (.closes .link) => some .closed
  | .mark _ => none

/-- Addresses open and end in turn; the flag says that one is open. -/
def inTurn : Bool → List Turn → Bool
  | inside, [] => !inside
  | inside, .quote :: ts => inTurn inside ts
  | inside, .opened :: ts => !inside && inTurn true ts
  | inside, .ended :: ts => inside && inTurn false ts
  | inside, .closed :: ts => !inside && inTurn false ts

/-- A quote stands inside of an address. -/
def quoted : Bool → List Turn → Bool
  | _, [] => false
  | inside, .quote :: ts => inside || quoted inside ts
  | _, .opened :: ts => quoted true ts
  | _, .ended :: ts => quoted false ts
  | inside, .closed :: ts => quoted inside ts

/-- The marks outside of the addresses. -/
def visible : Bool → List Item → List Mark
  | _, [] => []
  | inside, .text _ :: l => visible inside l
  | _, .mark (.opens .link) :: l => .opens .link :: visible true l
  | _, .mark .addressEnd :: l => visible false l
  | inside, .mark m :: l => if inside then visible inside l else m :: visible inside l

/-- A character of an escaped text. -/
def Escaped (c : Char) : Prop := c ≠ '<' ∧ c ≠ '>'

/-- What may stand inside of an address. -/
def Inside : Item → Prop
  | .text c => Escaped c
  | .mark (.opens k) => k ≠ .link
  | .mark (.closes k) => k ≠ .link
  | .mark .addressEnd => False

theorem turn_of_inside {m : Mark} (hm : Inside (.mark m)) : Item.turn (.mark m) = none := by
  cases m with
  | opens k => cases k <;> simp_all [Inside, Item.turn]
  | closes k => cases k <;> simp_all [Inside, Item.turn]
  | addressEnd => exact absurd hm id

inductive Regular : List Item → Prop where
  | nil : Regular []
  | text {c : Char} {l : List Item} (hc : Escaped c) (hl : Regular l) : Regular (.text c :: l)
  | mark {m : Mark} {l : List Item} (hm : m ≠ .opens .link ∧ m ≠ .addressEnd) (hl : Regular l) :
      Regular (.mark m :: l)
  | link {address l : List Item} (ha : ∀ a ∈ address, Inside a) (hl : Regular l) :
      Regular (.mark (.opens .link) :: (address ++ .mark .addressEnd :: l))

/-- What the proof about the state outside of an address and the one inside have in common. -/
theorem regular_or_inside {l : List Item} (htext : ∀ c, .text c ∈ l → Escaped c) :
    (inTurn false (l.filterMap Item.turn) = true → Regular l) ∧
      (inTurn true (l.filterMap Item.turn) = true →
        ∃ address rest, l = address ++ .mark .addressEnd :: rest ∧
          (∀ a ∈ address, Inside a) ∧ Regular rest) := by
  induction l with
  | nil => exact ⟨fun _ => .nil, by simp [inTurn]⟩
  | cons a l ih =>
    have htext' : ∀ c, .text c ∈ l → Escaped c := fun c hc => htext c (by simp [hc])
    obtain ⟨hout, hin⟩ := ih htext'
    -- an item that may stand inside of an address is passed in either state
    have hpass (ha : Inside a) (hregular : Regular l → Regular (a :: l))
        (hturn : ∀ b, inTurn b ((a :: l).filterMap Item.turn) = inTurn b (l.filterMap Item.turn)) :
        (inTurn false ((a :: l).filterMap Item.turn) = true → Regular (a :: l)) ∧
          (inTurn true ((a :: l).filterMap Item.turn) = true →
            ∃ address rest, a :: l = address ++ .mark .addressEnd :: rest ∧
              (∀ a ∈ address, Inside a) ∧ Regular rest) := by
      rw [hturn, hturn]
      refine ⟨fun h => hregular (hout h), fun h => ?_⟩
      obtain ⟨address, rest, rfl, haddress, hrest⟩ := hin h
      refine ⟨a :: address, rest, rfl, ?_, hrest⟩
      intro b hb
      rcases List.mem_cons.mp hb with rfl | hb
      · exact ha
      · exact haddress b hb
    cases a with
    | text c =>
      have hc := htext c (by simp)
      apply hpass hc (.text hc)
      intro b
      by_cases hq : c = '"'
      · simp [Item.turn, hq, inTurn]
      · simp [Item.turn, hq]
    | mark m =>
      cases m with
      | opens k =>
        by_cases hk : k = .link
        · subst hk
          simp only [List.filterMap_cons, Item.turn, inTurn, Bool.not_false, Bool.true_and,
            Bool.not_true, Bool.false_and, Bool.false_eq_true, false_implies, and_true]
          intro h
          obtain ⟨address, rest, rfl, haddress, hrest⟩ := hin h
          exact .link haddress hrest
        · have hin : Inside (.mark (.opens k)) := hk
          apply hpass hin (.mark ⟨by simpa using hk, by simp⟩)
          exact fun b => by rw [List.filterMap_cons_none (turn_of_inside hin)]
      | closes k =>
        by_cases hk : k = .link
        · subst hk
          simp only [List.filterMap_cons, Item.turn, inTurn, Bool.not_false, Bool.true_and,
            Bool.not_true, Bool.false_and, Bool.false_eq_true, false_implies, and_true]
          exact fun h => .mark ⟨by simp, by simp⟩ (hout h)
        · have hin : Inside (.mark (.closes k)) := hk
          apply hpass hin (.mark ⟨by simp, by simp⟩)
          exact fun b => by rw [List.filterMap_cons_none (turn_of_inside hin)]
      | addressEnd =>
        simp only [List.filterMap_cons, Item.turn, inTurn, Bool.false_and, Bool.true_and,
          Bool.false_eq_true, false_implies, true_and]
        exact fun h => ⟨[], l, rfl, by simp, hout h⟩

section Passes

theorem starts_take {s : List Char} {l : List Item} (h : starts Item.char s l = true) :
    l.take s.length = s.map .text := by
  induction s generalizing l with
  | nil => simp
  | cons x s ih =>
    cases l with
    | nil => simp [starts] at h
    | cons a l =>
      rw [starts, Bool.and_eq_true] at h
      cases a with
      | text c =>
        obtain rfl : c = x := by simpa [Item.char] using h.1
        rw [List.length_cons, List.take_succ_cons, ih h.2, List.map_cons]
      | mark m => simp [Item.char] at h

section Captures
variable {α : Type} {char : α → Option Char}

theorem enclosed_subset {opening : List Char} {ok : α → Bool} {close : List α → Bool}
    {closing : Nat} {l : List α} {m : List α × Nat}
    (h : enclosed char opening ok close closing l = some m) : m.1 ⊆ l := by
  rw [enclosed] at h
  split_ifs at h
  simp only [Option.map_eq_some_iff] at h
  obtain ⟨n, -, rfl⟩ := h
  exact fun a ha => List.mem_of_mem_drop (List.mem_of_mem_take ha)

theorem italic_subset {prev : Option α} {l : List α} {m : List α × Nat}
    (h : italicSpan char prev l = some m) : m.1 ⊆ l := by
  rw [italicSpan] at h
  split_ifs at h
  exact enclosed_subset h

theorem link_subset {prev : Option α} {l : List α} {m : (List α × List α) × Nat}
    (h : linkSpan char prev l = some m) : m.1.1 ⊆ l ∧ m.1.2 ⊆ l := by
  rw [linkSpan, Option.bind_eq_some_iff] at h
  obtain ⟨label, hlabel, h⟩ := h
  simp only [Option.map_eq_some_iff] at h
  obtain ⟨n, -, rfl⟩ := h
  exact ⟨enclosed_subset hlabel, fun a ha => List.mem_of_mem_drop (List.mem_of_mem_take ha)⟩

end Captures

/-- A pass adds its own two marks and nothing else. -/
theorem mem_wrapped {find : Rewrite.Finder Item (List Item)}
    (hfind : ∀ prev l m, find prev l = some m → m.1 ⊆ l) {kind : Kind} {l : List Item} {a : Item}
    (h : a ∈ replaceAll find (wrap writeMark kind) l) :
    a ∈ l ∨ a = .mark (.opens kind) ∨ a = .mark (.closes kind) := by
  rw [replaceAll, List.mem_flatMap] at h
  obtain ⟨b | g, hp, ha⟩ := h
  · obtain rfl : a = b := by simpa using ha
    exact Or.inl (Rewrite.mem_of_inl hp)
  · obtain ⟨prev, l', n, hsuffix, hg⟩ := Rewrite.found_of_inr hp
    simp only [Sum.elim_inr, wrap, writeMark, List.mem_append, List.mem_singleton] at ha
    rcases ha with (rfl | ha) | rfl
    · exact Or.inr (Or.inl rfl)
    · exact Or.inl (hsuffix.subset (hfind prev l' (g, n) hg ha))
    · exact Or.inr (Or.inr rfl)

theorem inside_wrapped {find : Rewrite.Finder Item (List Item)}
    (hfind : ∀ prev l m, find prev l = some m → m.1 ⊆ l) {kind : Kind} (hkind : kind ≠ .link)
    {l : List Item} (hl : ∀ a ∈ l, Inside a) :
    ∀ a ∈ replaceAll find (wrap writeMark kind) l, Inside a := by
  intro a ha
  rcases mem_wrapped hfind ha with hmem | rfl | rfl
  · exact hl a hmem
  · exact hkind
  · exact hkind

theorem escaped_of_mem {text : List Char} {c : Char} (h : c ∈ escapeHtml text) : Escaped c := by
  simp only [escapeHtml, replaceChar, List.mem_flatMap] at h
  obtain ⟨d, ⟨e, ⟨f, -, he⟩, hd⟩, hc⟩ := h
  split_ifs at hc hd he <;> simp_all [Escaped] <;> aesop

theorem inside_beforeLinks (text : List Char) :
    ∀ a ∈ beforeLinks Item.char writeMark ((escapeHtml text).map .text), Inside a := by
  rw [beforeLinks]
  apply inside_wrapped (fun _ _ _ h => enclosed_subset h) (by simp)
  apply inside_wrapped (fun _ _ _ h => italic_subset h) (by simp)
  apply inside_wrapped (fun _ _ _ h => enclosed_subset h) (by simp)
  intro a ha
  rw [List.mem_map] at ha
  obtain ⟨c, hc, rfl⟩ := ha
  exact escaped_of_mem hc

theorem quoted_inside {address : List Item} (ha : ∀ a ∈ address, Inside a) (l : List Item) :
    quoted true ((address ++ .mark .addressEnd :: l).filterMap Item.turn) =
      (decide (.text '"' ∈ address) || quoted false (l.filterMap Item.turn)) := by
  induction address with
  | nil => simp [Item.turn, quoted]
  | cons a address ih =>
    have hin := ha a (by simp)
    have ih := ih fun b hb => ha b (by simp [hb])
    cases a with
    | text c =>
      by_cases hc : c = '"'
      · simp [Item.turn, hc, quoted]
      · have hne : ¬ Item.text '"' = .text c := by
          intro heq
          exact hc (Item.text.inj heq).symm
        simp only [List.cons_append, List.filterMap_cons, Item.turn, if_neg hc, ih, List.mem_cons,
          hne, false_or]
    | mark m =>
      simp only [List.cons_append, List.filterMap_cons, turn_of_inside hin, ih, List.mem_cons,
        reduceCtorEq, false_or]

theorem quoted_outside {xs : List Item} (hxs : ∀ a ∈ xs, Inside a) (l : List Item) :
    quoted false ((xs ++ l).filterMap Item.turn) = quoted false (l.filterMap Item.turn) := by
  induction xs with
  | nil => rfl
  | cons a xs ih =>
    have ih := ih fun b hb => hxs b (by simp [hb])
    rw [List.cons_append]
    cases a with
    | text c =>
      by_cases hc : c = '"'
      · simpa [Item.turn, hc, quoted] using ih
      · simpa [Item.turn, hc] using ih
    | mark m =>
      rw [List.filterMap_cons_none (turn_of_inside (hxs _ (by simp)))]
      exact ih

theorem inTurn_inside {xs : List Item} (hxs : ∀ a ∈ xs, Inside a) (inside : Bool) (l : List Item) :
    inTurn inside ((xs ++ l).filterMap Item.turn) = inTurn inside (l.filterMap Item.turn) := by
  induction xs with
  | nil => rfl
  | cons a xs ih =>
    have ih := ih fun b hb => hxs b (by simp [hb])
    rw [List.cons_append]
    cases a with
    | text c =>
      by_cases hc : c = '"'
      · simpa [Item.turn, hc, inTurn] using ih
      · simpa [Item.turn, hc] using ih
    | mark m =>
      rw [List.filterMap_cons_none (turn_of_inside (hxs _ (by simp)))]
      exact ih

/-- Whether a piece is a link with a quote in its address. -/
def quotedPiece : Item ⊕ (List Item × List Item) → Bool
  | .inl _ => false
  | .inr link => decide (.text '"' ∈ link.2)

/-- Nothing of the piece belongs to a link of its own. -/
def PieceInside : Item ⊕ (List Item × List Item) → Prop
  | .inl a => Inside a
  | .inr link => (∀ a ∈ link.1, Inside a) ∧ ∀ a ∈ link.2, Inside a

theorem wrapLink_append (link : List Item × List Item) (l : List Item) :
    wrapLink writeMark link ++ l = .mark (.opens .link) ::
      (link.2 ++ .mark .addressEnd :: (link.1 ++ .mark (.closes .link) :: l)) := by
  simp [wrapLink, writeMark]

theorem turns_of_pieces {ps : List (Item ⊕ (List Item × List Item))} (hps : ∀ p ∈ ps, PieceInside p) :
    inTurn false ((ps.flatMap (Sum.elim (fun a => [a]) (wrapLink writeMark))).filterMap Item.turn) =
        true ∧
      quoted false ((ps.flatMap (Sum.elim (fun a => [a]) (wrapLink writeMark))).filterMap Item.turn) =
        ps.any quotedPiece := by
  induction ps with
  | nil => exact ⟨rfl, rfl⟩
  | cons p ps ih =>
    obtain ⟨hturn, hquoted⟩ := ih fun q hq => hps q (by simp [hq])
    have hp := hps p (by simp)
    rw [List.flatMap_cons, List.any_cons]
    cases p with
    | inl a =>
      have ha : ∀ b ∈ [a], Inside b := by
        intro b hb
        obtain rfl : b = a := by simpa using hb
        exact hp
      rw [Sum.elim_inl, inTurn_inside ha, quoted_outside ha, hquoted]
      exact ⟨hturn, by simp [quotedPiece]⟩
    | inr link =>
      have hopened : Item.turn (.mark (.opens .link)) = some .opened := rfl
      have hended : Item.turn (.mark .addressEnd) = some .ended := rfl
      have hclosed : Item.turn (.mark (.closes .link)) = some .closed := rfl
      rw [Sum.elim_inr, wrapLink_append]
      constructor
      · rw [List.filterMap_cons_some hopened, inTurn, inTurn_inside hp.2,
          List.filterMap_cons_some hended, inTurn, inTurn_inside hp.1,
          List.filterMap_cons_some hclosed, inTurn, hturn]
        rfl
      · rw [List.filterMap_cons_some hopened, quoted, quoted_inside hp.2,
          quoted_outside hp.1, List.filterMap_cons_some hclosed, quoted, hquoted]
        rfl

/-- Striking out changes nothing about the links. -/
theorem turns_strike (l : List Item) :
    (replaceAll (strikeSpan Item.char) (wrap writeMark .strike) l).filterMap Item.turn =
      l.filterMap Item.turn := by
  apply Rewrite.filterMap_replaceAll
  intro prev l g n h
  rw [strikeSpan, doubledSpan] at h
  refine ⟨enclosed_pos h, ?_⟩
  rw [enclosed] at h
  split_ifs at h with hopen
  simp only [Option.map_eq_some_iff, Prod.mk.injEq] at h
  obtain ⟨m, hm, rfl, rfl⟩ := h
  have hclose := starts_take (Rewrite.shortest_close hm)
  have hopen := starts_take hopen
  simp only [List.length_cons, List.length_nil, Nat.zero_add, Nat.reduceAdd, List.map_cons,
    List.map_nil, List.drop_drop] at hopen hclose ⊢
  have htilde : Item.turn (.text '~') = none := rfl
  have hstrike : Item.turn (.mark (.opens .strike)) = none := rfl
  have hstruck : Item.turn (.mark (.closes .strike)) = none := rfl
  rw [List.take_add, List.take_add, hopen, hclose]
  simp only [wrap, writeMark, List.filterMap_append, List.filterMap_cons, List.filterMap_nil, htilde,
    hstrike, hstruck, List.nil_append, List.append_nil]

/-- An item as it stands in the line: a mark gives way to its marker. -/
def Item.unmarked : Item → List Item
  | .mark (.opens .bold) | .mark (.closes .bold) => [.text '*', .text '*']
  | .mark (.opens .italic) | .mark (.closes .italic) => [.text '*']
  | .mark (.opens .code) | .mark (.closes .code) => [.text '`']
  | a => [a]

theorem renders_unmarked : Renders ['[', ']', '(', ')'] Item.char Item.char Item.unmarked where
  ne_nil := by
    rintro (c | m)
    · exact List.cons_ne_nil _ _
    · rcases m with k | k | _
      · cases k <;> exact List.cons_ne_nil _ _
      · cases k <;> exact List.cons_ne_nil _ _
      · exact List.cons_ne_nil _ _
  marker_or_unasked := by
    rintro (c | m)
    · exact Or.inl ⟨_, rfl, rfl⟩
    · rcases m with k | k | _
      · cases k <;> exact Or.inr (by decide)
      · cases k <;> exact Or.inr (by decide)
      · exact Or.inr (by decide)

/-- Behind a pass the items stand for the same line. -/
theorem unmarked_pass {find : Rewrite.Finder Item (List Item)} {kind : Kind} {s : List Char}
    (h : ∀ prev back inner n, find prev back = some (inner, n) → 0 < n ∧ ∃ o c,
      back.take n = o ++ (inner ++ c) ∧ o.map Item.char = s.map some ∧ c.map Item.char = s.map some)
    (hopen : (Item.mark (.opens kind)).unmarked = s.map .text)
    (hclose : (Item.mark (.closes kind)).unmarked = s.map .text) (l : List Item) :
    (replaceAll find (wrap writeMark kind) l).flatMap Item.unmarked = l.flatMap Item.unmarked := by
  have htexts : ∀ {s : List Char} {o : List Item}, o.map Item.char = s.map some →
      o.flatMap Item.unmarked = s.map .text := by
    intro s o ho
    induction s generalizing o with
    | nil =>
      obtain rfl := List.map_eq_nil_iff.mp ho
      rfl
    | cons x s ih =>
      obtain ⟨a, o', rfl, ha, hrest⟩ := List.map_eq_cons_iff.mp ho
      cases a with
      | text c =>
        obtain rfl := Option.some.inj ha
        rw [List.flatMap_cons, ih hrest]
        rfl
      | mark m => cases ha
  refine Rewrite.flatMap_replaceAll _ l fun prev back inner n _ hfound => ?_
  obtain ⟨hpos, o, c, hrun, ho, hc⟩ := h prev back inner n hfound
  refine ⟨hpos, ?_⟩
  rw [hrun, List.flatMap_append, List.flatMap_append, htexts ho, htexts hc, wrap, List.flatMap_append,
    List.flatMap_append, writeMark, writeMark, List.flatMap_singleton, List.flatMap_singleton, hopen, hclose,
    List.append_assoc]

theorem unmarked_beforeLinks (l : List Item) :
    (beforeLinks Item.char writeMark l).flatMap Item.unmarked = l.flatMap Item.unmarked := by
  have hcode := @unmarked_pass (codeSpan Item.char) .code ['`'] (fun _ _ _ _ h =>
    ⟨enclosed_pos h, enclosed_run h (fun _ hclose => hclose) rfl⟩) rfl rfl
  have hbold := @unmarked_pass (boldSpan Item.char) .bold ['*', '*'] (fun _ _ _ _ h =>
    ⟨enclosed_pos h, enclosed_run h (fun _ hclose => hclose) rfl⟩) rfl rfl
  have hitalic := @unmarked_pass (italicSpan Item.char) .italic ['*'] (fun prev back inner n h => by
    unfold italicSpan at h
    split_ifs at h
    exact ⟨enclosed_pos h, enclosed_run h (fun _ hclose => (Bool.and_eq_true_iff.mp hclose).1) rfl⟩) rfl rfl
  rw [beforeLinks, hcode, hitalic, hbold]

/-- A character of the line as it stands in the escaped line. -/
def escapedItems (c : Char) : List Item := (escapeChar c).map .text

theorem renders_escapedItems : Renders ['[', ']', '(', ')'] some Item.char escapedItems where
  ne_nil := fun c => by simpa [escapedItems] using (escapeChar_cases c).1
  marker_or_unasked := by
    intro c
    unfold escapedItems
    rcases (escapeChar_cases c).2 with hsame | ⟨hescaped, hc⟩
    · exact Or.inl ⟨.text c, by rw [hsame]; rfl, rfl⟩
    · have hfewer : ∀ o, Unasked MARKERS o → Unasked ['[', ']', '(', ')'] o := by
        intro o ho d hd
        obtain ⟨hmem, hdot⟩ := ho d hd
        exact ⟨fun hin => hmem (by revert hin; simp [MARKERS]; tauto), hdot⟩
      refine Or.inr ⟨?_, hfewer _ hc⟩
      intro b hb
      obtain ⟨d, hd, rfl⟩ := List.mem_map.mp hb
      exact hfewer _ (hescaped d hd)

section Line
variable (text : List Char)

/-- The matches of the link pattern in the line. -/
def linkPieces : List (Item ⊕ (List Item × List Item)) :=
  pieces (linkSpan Item.char) 0 none
    (beforeLinks Item.char writeMark ((escapeHtml text).map .text))

theorem pieceInside_linkPieces : ∀ p ∈ linkPieces text, PieceInside p := by
  have hline := inside_beforeLinks text
  rintro (a | link) hp
  · exact hline a (Rewrite.mem_of_inl hp)
  · obtain ⟨prev, l, n, hsuffix, hlink⟩ := Rewrite.found_of_inr hp
    obtain ⟨hlabel, haddress⟩ := link_subset hlink
    exact ⟨fun a ha => hline a (hsuffix.subset (hlabel ha)),
      fun a ha => hline a (hsuffix.subset (haddress ha))⟩

theorem turns_markedLine : (markedLine text).filterMap Item.turn =
    ((linkPieces text).flatMap (Sum.elim (fun a => [a]) (wrapLink writeMark))).filterMap
      Item.turn := by
  rw [markedLine, inlineFormat, turns_strike]
  rfl

theorem escaped_markedLine {c : Char} (h : .text c ∈ markedLine text) : Escaped c := by
  rcases mem_wrapped (fun _ _ _ h => enclosed_subset h) h with h | h | h
  · have hp := pieceInside_linkPieces text
    rw [replaceAll, List.mem_flatMap] at h
    obtain ⟨a | link, hmem, hc⟩ := h
    · obtain rfl : .text c = a := by simpa using hc
      exact hp _ hmem
    · obtain ⟨hlabel, haddress⟩ := hp _ hmem
      simp only [Sum.elim_inr, wrapLink, writeMark, List.mem_append, List.mem_singleton,
        reduceCtorEq, false_or, or_false] at hc
      rcases hc with hc | hc
      · exact haddress _ hc
      · exact hlabel _ hc
  · cases h
  · cases h

theorem regular_markedLine : Regular (markedLine text) := by
  apply (regular_or_inside fun c hc => escaped_markedLine text hc).1
  rw [turns_markedLine]
  exact (turns_of_pieces (pieceInside_linkPieces text)).1

theorem mem_linkAddresses {address : List Item} :
    address ∈ linkAddresses text ↔ ∃ label, .inr (label, address) ∈ linkPieces text := by
  rw [linkAddresses, List.mem_filterMap]
  constructor
  · rintro ⟨a | link, hp, hlink⟩
    · cases hlink
    · obtain rfl : link.2 = address := Option.some.inj hlink
      exact ⟨link.1, hp⟩
  · rintro ⟨label, hp⟩
    exact ⟨_, hp, rfl⟩

/-- The addresses of the links of the line. -/
def lineAddresses : List (List Char) :=
  (pieces (linkSpan some) 0 none text).filterMap fun p => p.getRight?.map Prod.snd

/-- No address of a link of the line has a quote. -/
def AddressesUnquoted : Prop := ∀ address ∈ lineAddresses text, '"' ∉ address

instance : Decidable (AddressesUnquoted text) := inferInstanceAs (Decidable (∀ _ ∈ _, _))

/-- The captures of a pattern in what the items stand for. -/
theorem mem_pieces_flatMap {α β γ δ : Type} {f : α → List β} {plain : β → Prop}
    {find : Rewrite.Finder α γ} {find' : Rewrite.Finder β δ} {capture : γ → δ}
    (hc : Rewrite.Coarse f plain) (h : Rewrite.Simulates f plain find find' capture) (l : List α) {d : δ} :
    .inr d ∈ pieces find' 0 none (l.flatMap f) ↔ ∃ g, .inr g ∈ pieces find 0 none l ∧ capture g = d := by
  rw [Rewrite.pieces_flatMap_none hc h, List.mem_flatMap]
  constructor
  · rintro ⟨a | g, hp, hd⟩
    · obtain ⟨b, -, hb⟩ := List.mem_map.mp hd
      cases hb
    · exact ⟨g, hp, (Sum.inr.inj (List.mem_singleton.mp hd)).symm⟩
  · rintro ⟨g, hp, rfl⟩
    exact ⟨.inr g, hp, List.mem_singleton_self _⟩

theorem quote_mem_unmarked (l : List Item) : .text '"' ∈ l.flatMap Item.unmarked ↔ .text '"' ∈ l := by
  have hitem : ∀ a : Item, .text '"' ∈ a.unmarked ↔ a = .text '"' := by
    rintro (c | m)
    · simp [Item.unmarked, eq_comm]
    · rcases m with k | k | _
      · cases k <;> simp [Item.unmarked]
      · cases k <;> simp [Item.unmarked]
      · simp [Item.unmarked]
  simp [List.mem_flatMap, hitem]

theorem quote_mem_escapedItems (t : List Char) : .text '"' ∈ t.flatMap escapedItems ↔ '"' ∈ t := by
  have hchar : ∀ c : Char, .text '"' ∈ escapedItems c ↔ c = '"' := by
    intro c
    unfold escapedItems escapeChar
    split_ifs with hand hless hmore
    · subst hand
      decide
    · subst hless
      decide
    · subst hmore
      decide
    · simp [eq_comm]
  simp [List.mem_flatMap, hchar]

/-- The addresses with the tags in them have the quotes of the addresses of the line. -/
theorem quote_mem_addresses : (∃ address ∈ linkAddresses text, .text '"' ∈ address) ↔
    ∃ address ∈ lineAddresses text, '"' ∈ address := by
  have hmarks : Renders ['[', ']', '(', ')'] Item.char Item.char Item.unmarked := renders_unmarked
  have hchars : Renders ['[', ']', '(', ')'] some Item.char escapedItems := renders_escapedItems
  have hline : (beforeLinks Item.char writeMark ((escapeHtml text).map .text)).flatMap Item.unmarked =
      text.flatMap escapedItems := by
    have hsame : ((escapeHtml text).map Item.text).flatMap Item.unmarked = (escapeHtml text).map .text := by
      rw [List.flatMap_map, List.map_eq_flatMap]
      rfl
    rw [unmarked_beforeLinks, hsame, escapeHtml_eq, List.map_flatMap]
    rfl
  have hfound : ∀ g : List Item × List Item,
      (∃ link, .inr link ∈ linkPieces text ∧ (link.1.flatMap Item.unmarked, link.2.flatMap Item.unmarked) = g) ↔
        ∃ link, .inr link ∈ pieces (linkSpan some) 0 none text ∧
          (link.1.flatMap escapedItems, link.2.flatMap escapedItems) = g := by
    intro g
    rw [linkPieces, ← mem_pieces_flatMap (coarse_render hmarks) (simulates_link hmarks (List.Subset.refl _)),
      hline, mem_pieces_flatMap (coarse_render hchars) (simulates_link hchars (List.Subset.refl _))]
  constructor
  · rintro ⟨address, haddress, hquote⟩
    obtain ⟨label, hp⟩ := (mem_linkAddresses text).mp haddress
    obtain ⟨link, hlink, hsame⟩ := (hfound _).mp ⟨_, hp, rfl⟩
    refine ⟨link.2, List.mem_filterMap.mpr ⟨_, hlink, rfl⟩, ?_⟩
    rwa [← quote_mem_escapedItems, (Prod.mk.inj hsame).2, quote_mem_unmarked]
  · rintro ⟨address, haddress, hquote⟩
    obtain ⟨c | link, hlink, hof⟩ := List.mem_filterMap.mp haddress
    · cases hof
    · obtain rfl : link.2 = address := Option.some.inj hof
      obtain ⟨g, hp, hsame⟩ := (hfound _).mpr ⟨link, hlink, rfl⟩
      refine ⟨g.2, (mem_linkAddresses text).mpr ⟨g.1, hp⟩, ?_⟩
      rwa [← quote_mem_unmarked, (Prod.mk.inj hsame).2, quote_mem_escapedItems]

theorem quoted_markedLine :
    quoted false ((markedLine text).filterMap Item.turn) = false ↔ AddressesUnquoted text := by
  have hquotes := not_congr (quote_mem_addresses text)
  push Not at hquotes
  rw [turns_markedLine, (turns_of_pieces (pieceInside_linkPieces text)).2, List.any_eq_false, AddressesUnquoted,
    ← hquotes]
  constructor
  · intro h address haddress hmem
    obtain ⟨label, hp⟩ := (mem_linkAddresses text).mp haddress
    exact h _ hp (by simpa [quotedPiece] using hmem)
  · rintro h (a | link) hp
    · simp [quotedPiece]
    · simpa [quotedPiece] using h link.2 ((mem_linkAddresses text).mpr ⟨link.1, hp⟩)

end Line

end Passes

section Reading

/-- The forms of a formatter and the texts it writes for the marks. -/
structure Speaks (tag : Mark → String) (name : Kind → String) (forms : List TagForm) : Prop where
  legible : Legible forms
  open_mem : ∀ k, openForm tag name k ∈ forms
  close_mem : ∀ k, closeForm tag name k ∈ forms
  open_inside : ∀ k, k ≠ .link → '"' ∉ (tag (.opens k)).toList ∧
    (tag (.opens k)).toList.head? = some '<'
  close_inside : ∀ k, '"' ∉ (tag (.closes k)).toList ∧ (tag (.closes k)).toList.head? = some '<'
  end_quote : (tag .addressEnd).toList.head? = some '"'
  end_once : ∀ value rest, ¬ ['"', '>'] <:+: '"' :: value →
    ¬ (tag .addressEnd).toList <+: '"' :: (value ++ ((tag .addressEnd).toList ++ rest))

variable {tag : Mark → String} {name : Kind → String} {forms : List TagForm}

def markForm (tag : Mark → String) (name : Kind → String) : Mark → TagForm
  | .closes k => closeForm tag name k
  | .opens k => openForm tag name k
  | .addressEnd => openForm tag name .link

theorem Speaks.inside_mark (h : Speaks tag name forms) {m : Mark} (hm : Inside (.mark m)) :
    '"' ∉ (tag m).toList ∧ (tag m).toList.head? = some '<' := by
  cases m with
  | opens k => exact h.open_inside k hm
  | closes k => exact h.close_inside k
  | addressEnd => exact absurd hm id

theorem Speaks.quote_of_render (h : Speaks tag name forms) {address : List Item}
    (ha : ∀ a ∈ address, Inside a) (hq : '"' ∈ address.flatMap (Item.render tag)) :
    .text '"' ∈ address := by
  rw [List.mem_flatMap] at hq
  obtain ⟨a, hmem, hq⟩ := hq
  cases a with
  | text c =>
    obtain rfl : '"' = c := by simpa [Item.render] using hq
    exact hmem
  | mark m => exact absurd hq (h.inside_mark (ha _ hmem)).1

/-- The value of an address has no `>` right behind a quote. -/
theorem Speaks.render_no_end (h : Speaks tag name forms) {address : List Item}
    (ha : ∀ a ∈ address, Inside a) :
    ¬ ['"', '>'] <:+: address.flatMap (Item.render tag) ∧
      (address.flatMap (Item.render tag)).head? ≠ some '>' := by
  induction address with
  | nil => simp
  | cons a address ih =>
    obtain ⟨hinside, hhead⟩ := ih fun b hb => ha b (by simp [hb])
    have hin := ha a (by simp)
    rw [List.flatMap_cons]
    cases a with
    | text c =>
      have hc : Escaped c := hin
      refine ⟨?_, by simpa [Item.render] using hc.2⟩
      rw [Item.render, List.singleton_append, List.infix_cons_iff]
      rintro (hpre | hinf)
      · obtain ⟨-, hpre⟩ := List.cons_prefix_cons.mp hpre
        cases hv : address.flatMap (Item.render tag) with
        | nil => simp [hv] at hpre
        | cons d ds =>
          rw [hv] at hpre hhead
          obtain ⟨rfl, -⟩ := List.cons_prefix_cons.mp hpre
          exact hhead rfl
      · exact hinside hinf
    | mark m =>
      obtain ⟨hquote, hopen⟩ := h.inside_mark hin
      rw [Item.render]
      constructor
      · generalize (tag m).toList = ds at hquote
        induction ds with
        | nil => exact hinside
        | cons d ds ihd =>
          rw [List.cons_append, List.infix_cons_iff]
          rintro (hpre | hinf)
          · rw [← (List.cons_prefix_cons.mp hpre).1] at hquote
            simp at hquote
          · exact ihd (fun hmem => hquote (by simp [hmem])) hinf
      · cases htag : (tag m).toList with
        | nil => simp [htag] at hopen
        | cons d ds =>
          rw [htag] at hopen
          obtain rfl : d = '<' := by simpa using hopen
          simp

theorem visible_inside {address : List Item} (ha : ∀ a ∈ address, Inside a) (l : List Item) :
    visible true (address ++ .mark .addressEnd :: l) = visible false l := by
  induction address with
  | nil => simp [visible]
  | cons a address ih =>
    have hin := ha a (by simp)
    have ih := ih fun b hb => ha b (by simp [hb])
    cases a with
    | text c => simpa [visible] using ih
    | mark m =>
      cases m with
      | opens k => cases k <;> simp_all [Inside, visible]
      | closes k => cases k <;> simp_all [Inside, visible]
      | addressEnd => exact absurd hin id

theorem Speaks.whole_link (h : Speaks tag name forms) {address : List Item}
    (ha : ∀ a ∈ address, Inside a) (hq : .text '"' ∉ address) :
    Whole forms ((tag (.opens .link)).toList ++ address.flatMap (Item.render tag) ++
      (tag .addressEnd).toList) [openForm tag name .link] := by
  obtain ⟨more, hmore⟩ : ∃ more, (tag .addressEnd).toList = '"' :: more := by
    have hend := h.end_quote
    cases htag : (tag .addressEnd).toList with
    | nil => simp [htag] at hend
    | cons d ds =>
      rw [htag] at hend
      exact ⟨ds, by simpa using hend⟩
  have hbehind : (openForm tag name .link).behind = some (tag .addressEnd) := rfl
  have hlink := whole_valued h.legible (h.open_mem .link) hbehind hmore
    fun hmem => hq (h.quote_of_render ha hmem)
  exact hlink

theorem Speaks.broken_link (h : Speaks tag name forms) {address : List Item}
    (ha : ∀ a ∈ address, Inside a) (hq : .text '"' ∈ address) :
    Broken forms ((tag (.opens .link)).toList ++ address.flatMap (Item.render tag) ++
      (tag .addressEnd).toList) := by
  obtain ⟨before, behind, rfl, hbefore⟩ := List.eq_append_cons_of_mem hq
  have hvalue : '"' ∉ before.flatMap (Item.render tag) := by
    intro hmem
    exact hbefore (h.quote_of_render (fun a hmem' => ha a (by simp [hmem'])) hmem)
  have hinside : ∀ a ∈ Item.text '"' :: behind, Inside a := fun a hmem => ha a (by simp_all)
  have hclose := (h.render_no_end hinside).1
  rw [List.flatMap_cons, Item.render, List.singleton_append] at hclose
  have hrest (more : List Char) : ¬ (tag .addressEnd).toList <+:
      '"' :: (behind.flatMap (Item.render tag) ++ (tag .addressEnd).toList ++ more) := by
    rw [List.append_assoc]
    exact h.end_once _ more hclose
  have hbroken := broken_valued h.legible (h.open_mem .link) rfl hvalue hrest
  simpa [openForm, Item.render] using hbroken

/-- A quote in an address breaks the line; without one it is read as its visible marks. -/
theorem Speaks.read_regular (h : Speaks tag name forms) {l : List Item} (hl : Regular l) :
    (quoted false (l.filterMap Item.turn) = true → Broken forms (l.flatMap (Item.render tag))) ∧
      (quoted false (l.filterMap Item.turn) = false →
        Whole forms (l.flatMap (Item.render tag)) ((visible false l).map (markForm tag name))) := by
  induction hl with
  | nil => exact ⟨by simp [quoted], fun _ => Whole.nil⟩
  | @text c l hc hl ih =>
    have hc' : Whole forms [c] [] := whole_text h.legible (by simpa using hc.1)
    have hquoted : quoted false ((Item.text c :: l).filterMap Item.turn) =
        quoted false (l.filterMap Item.turn) := by
      by_cases hq : c = '"'
      · simp [Item.turn, hq, quoted]
      · simp [Item.turn, hq]
    rw [hquoted]
    exact ⟨fun hq => hc'.broken (ih.1 hq), fun hq => hc'.append (ih.2 hq)⟩
  | @mark m l hm hl ih =>
    have hwhole : Whole forms (tag m).toList [markForm tag name m] := by
      cases m with
      | opens k =>
        have hk : k ≠ .link := fun heq => hm.1 (by rw [heq])
        have hfixed : (openForm tag name k).behind = none := by simp [openForm, hk]
        have hopen := whole_fixed h.legible (h.open_mem k) hfixed
        exact hopen
      | closes k =>
        have hclose := whole_fixed h.legible (h.close_mem k) rfl
        exact hclose
      | addressEnd => exact absurd rfl hm.2
    have hquoted : quoted false ((Item.mark m :: l).filterMap Item.turn) =
        quoted false (l.filterMap Item.turn) := by
      cases m with
      | opens k =>
        have hin : Inside (.mark (.opens k)) := fun heq => hm.1 (by rw [heq])
        rw [List.filterMap_cons_none (turn_of_inside hin)]
      | closes k => cases k <;> rfl
      | addressEnd => exact absurd rfl hm.2
    have hvisible : visible false (.mark m :: l) = m :: visible false l := by
      cases m with
      | opens k => cases k <;> simp_all [visible]
      | closes k => simp [visible]
      | addressEnd => exact absurd rfl hm.2
    rw [hquoted, hvisible]
    exact ⟨fun hq => hwhole.broken (ih.1 hq), fun hq => hwhole.append (ih.2 hq)⟩
  | @link address l ha hl ih =>
    have hquoted : quoted false ((Item.mark (.opens .link) ::
        (address ++ .mark .addressEnd :: l)).filterMap Item.turn) =
        (decide (.text '"' ∈ address) || quoted false (l.filterMap Item.turn)) := by
      rw [← quoted_inside ha l]
      simp [Item.turn, quoted]
    have hrender : (Item.mark (.opens .link) :: (address ++ .mark .addressEnd :: l)).flatMap
        (Item.render tag) = ((tag (.opens .link)).toList ++ address.flatMap (Item.render tag) ++
          (tag .addressEnd).toList) ++ l.flatMap (Item.render tag) := by
      simp [Item.render]
    have hvisible : visible false (.mark (.opens .link) :: (address ++ .mark .addressEnd :: l)) =
        .opens .link :: visible false l := by
      rw [visible, visible_inside ha]
    rw [hquoted, hrender, hvisible]
    by_cases hq : .text '"' ∈ address
    · exact ⟨fun _ => (h.broken_link ha hq).append _, by simp [hq]⟩
    · have hwhole := h.whole_link ha hq
      simp only [hq, decide_false, Bool.false_or]
      exact ⟨fun hq => hwhole.broken (ih.1 hq), fun hq => hwhole.append (ih.2 hq)⟩

/-- A quote of the address in front of the closing text of a link is no closing text. -/
theorem not_prefix_telegramEnd (value rest : List Char) (h : ¬ ['"', '>'] <:+: '"' :: value) :
    ¬ ['"', '>'] <+: '"' :: (value ++ (['"', '>'] ++ rest)) := by
  intro hpre
  have hpre := (List.cons_prefix_cons.mp hpre).2
  cases value with
  | nil => simp at hpre
  | cons c value =>
    obtain ⟨rfl, -⟩ := List.cons_prefix_cons.mp hpre
    exact h ⟨[], value, rfl⟩

/-- The closing text of a link of the web page, behind its first quote. -/
def webEnd : List Char := " target=\"_blank\">".toList

theorem webEnd_closes : ['"', '>'] <:+: webEnd := by decide

theorem not_prefix_webEnd (value rest : List Char) (h : ¬ ['"', '>'] <:+: '"' :: value) :
    ¬ '"' :: webEnd <+: '"' :: (value ++ ('"' :: webEnd ++ rest)) := by
  intro hpre
  have hpre := (List.cons_prefix_cons.mp hpre).2
  rcases List.prefix_or_prefix_of_prefix hpre (List.prefix_append _ _) with hle | hvalue
  · have hinside : ['"', '>'] <:+: value := webEnd_closes.trans hle.isInfix
    exact h (hinside.trans (List.suffix_cons _ _).isInfix)
  · -- the value is a part of the closing text, which the closing text itself has to go on with
    obtain ⟨tail, htail⟩ := hvalue
    have hdrop : tail = webEnd.drop value.length := by
      rw [← htail, List.drop_left]
    rw [← htail, List.prefix_append_right_inj, htail, hdrop] at hpre
    have hlength := congrArg List.length htail
    rw [List.length_append] at hlength
    have htail' : webEnd.drop value.length <+: '"' :: webEnd := by
      apply List.prefix_of_prefix_length_le hpre (List.prefix_append _ _)
      rw [← hdrop, List.length_cons]
      omega
    have hnot : ∀ n < webEnd.length, ¬ webEnd.drop n <+: '"' :: webEnd := by decide
    rcases Nat.lt_or_ge value.length webEnd.length with hlt | hge
    · exact hnot _ hlt htail'
    · obtain rfl : tail = [] := List.eq_nil_of_length_eq_zero (by omega)
      rw [List.append_nil] at htail
      apply h
      rw [htail]
      exact webEnd_closes.trans (List.suffix_cons _ _).isInfix

theorem speaks_telegram : Speaks telegramTag telegramName telegramForms where
  legible := legible_telegramForms
  open_mem := by
    intro k
    cases k <;> decide
  close_mem := by
    intro k
    cases k <;> decide
  open_inside := by
    intro k hk
    cases k <;> first | exact absurd rfl hk | decide
  close_inside := by
    intro k
    cases k <;> decide
  end_quote := by decide
  end_once := by
    have hend : (telegramTag .addressEnd).toList = ['"', '>'] := by decide
    rw [hend]
    exact not_prefix_telegramEnd

theorem speaks_web : Speaks webTag webName webForms where
  legible := legible_webForms
  open_mem := by
    intro k
    cases k <;> decide
  close_mem := by
    intro k
    cases k <;> decide
  open_inside := by
    intro k hk
    cases k <;> first | exact absurd rfl hk | decide
  close_inside := by
    intro k
    cases k <;> decide
  end_quote := by decide
  end_once := by
    have hend : (webTag .addressEnd).toList = '"' :: webEnd := by decide
    rw [hend]
    exact not_prefix_webEnd

end Reading

end T560.Format
