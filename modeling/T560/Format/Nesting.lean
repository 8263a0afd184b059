import Mathlib.Data.List.Chain
import Mathlib.Data.List.Flatten
import T560.Foundation.Markup
import T560.Format.Inert

/-!
# Nesting of the tags of a Telegram reply

Telegram takes a text in its HTML mode when its tags close in order. Each of the five patterns is
replaced over the text that the others have left, so the spans of two markers may cross, and then
their tags do. Here the patterns are followed over the characters of a line at their places: the
markers of a span give way to two marks that stand where they stood, and what stands in the address
of a link is hidden.
-/

namespace T560.Format

open Markup (Span Attributes nests Neutral Stuck named place)
open Rewrite (Finder pieces replaceAll covered)

/-- The tags of the text are closed in order. -/
def Sendable (text : List Char) : Prop := (Markup.readTags text).any (nests []) = true

instance (text : List Char) : Decidable (Sendable text) := inferInstanceAs (Decidable (_ = true))

/-! ## The spans of a line -/

/-- A character of a line and its place; of a marker that is used up the place alone. -/
abbrev Placed := Option Char × Nat

def placed (text : List Char) : List Placed := text.zipIdx.map fun p => (some p.1, p.2)

/-- From the first character of what a pattern covers to the last one. -/
def spanOf (kind : Kind) (run : List Placed) : Span Kind :=
  ⟨kind, (run.headD default).2, (run.getLastD default).2⟩

def spansOf {γ : Type} (find : Finder Placed γ) (kind : Kind) (l : List Placed) : List (Span Kind) :=
  (pieces (covered find) 0 none l).filterMap fun p => p.getRight?.map fun g => spanOf kind g.2

/-- The line with the asterisks that the bold spans leave. -/
def behindBold (text : List Char) : List Placed :=
  replaceAll (covered (boldSpan Prod.fst))
    (fun g => (none, (g.2.headD default).2) :: (g.1 ++ [(none, (g.2.getLastD default).2)]))
    (placed text)

def linkPlaces (text : List Char) : List (Placed ⊕ ((List Placed × List Placed) × List Placed)) :=
  pieces (covered (linkSpan Prod.fst)) 0 none (placed text)

/-- The line with the address of each link in front of its label, where a link has it. -/
def addressFirst (text : List Char) : List Placed :=
  (linkPlaces text).flatMap (Sum.elim (fun c => [c]) fun g =>
    g.2.headD default :: (g.1.2 ++ (g.2.getLastD default :: g.1.1) ++ [g.2.getLastD default]))

/-- The spans of a line. The asterisks of bold are none of italic, and the tildes are looked for
where the links have put their addresses; else each pattern meets the line as it stands. -/
def lineSpans (text : List Char) : List (Span Kind) :=
  spansOf (boldSpan Prod.fst) .bold (placed text) ++ spansOf (italicSpan Prod.fst) .italic (behindBold text) ++
    spansOf (codeSpan Prod.fst) .code (placed text) ++ spansOf (linkSpan Prod.fst) .link (placed text) ++
    spansOf (strikeSpan Prod.fst) .strike (addressFirst text)

/-- An address of the line, from its opening parenthesis to its closing one. -/
structure Address where
  first : Nat
  last : Nat
  text : List Placed
  deriving DecidableEq, Repr

def addressOf (g : (List Placed × List Placed) × List Placed) : Address :=
  ⟨((g.2.drop (g.1.1.length + 2)).headD default).2, (g.2.getLastD default).2, g.1.2⟩

def addresses (text : List Char) : List Address :=
  (linkPlaces text).filterMap fun p => p.getRight?.map addressOf

/-- The place is between the parentheses of an address. -/
def InAddress (text : List Char) (p : Nat) : Prop := ∃ a ∈ addresses text, a.first < p ∧ p < a.last

instance (text : List Char) (p : Nat) : Decidable (InAddress text p) :=
  inferInstanceAs (Decidable (∃ a ∈ _, _))

/-! ## Conditions on a reply -/

/-- A span begins or ends at the place. -/
def EndsAt (text : List Char) (p : Nat) : Prop := ∃ s ∈ lineSpans text, s.first = p ∨ s.last = p

instance (text : List Char) (p : Nat) : Decidable (EndsAt text p) := inferInstanceAs (Decidable (∃ s ∈ _, _))

/-- A character of an address is read on in the attributes of the tag; where a span begins or ends
in quotes only, since its tag has a `>`. -/
def takes (text : List Char) (state : Attributes) (c : Placed) : Option Attributes :=
  if EndsAt text c.2 ∧ state.inValue = false then none else c.1.map state.step

/-- Between double quotes the address leaves the tag in which it stands, at the `>` behind it. -/
def Contained (text : List Char) (address : List Placed) : Prop :=
  ((address.foldlM (takes text) (.quoted true)).map (·.step '"')).any (!·.inValue) = true

instance (text : List Char) (address : List Placed) : Decidable (Contained text address) :=
  inferInstanceAs (Decidable (_ = true))

/-- Every address is the value of one attribute or of several, and no span has one of its ends in
an address. -/
structure Settled (text : List Char) : Prop where
  contained : ∀ a ∈ addresses text, Contained text a.text
  inside : ∀ s ∈ lineSpans text, InAddress text s.first ↔ InAddress text s.last

instance (text : List Char) : Decidable (Settled text) :=
  decidable_of_iff ((∀ a ∈ addresses text, Contained text a.text) ∧
      ∀ s ∈ lineSpans text, InAddress text s.first ↔ InAddress text s.last)
    ⟨fun h => ⟨h.1, h.2⟩, fun h => ⟨h.contained, h.inside⟩⟩

/-- No span begins inside of another one and ends behind it. Spans in an address do not count. -/
def Uncrossed (text : List Char) : Prop :=
  ∀ s ∈ lineSpans text, ∀ t ∈ lineSpans text, ¬ InAddress text s.first → ¬ InAddress text t.first →
    ¬ s.Crosses t

instance (text : List Char) : Decidable (Uncrossed text) :=
  inferInstanceAs (Decidable (∀ s ∈ _, ∀ t ∈ _, _ → _ → ¬ (_ ∧ _ ∧ _)))

/-! ## The cells of a line -/

/-- A character, or a mark in the place of markers. -/
inductive Glyph where
  | text (c : Char)
  | opens (span : Span Kind)
  | closes (span : Span Kind)
  | addressEnd
  deriving DecidableEq, Repr

/-- A glyph at a place of the line, hidden when it stands in the address of a link. -/
structure Cell where
  place : Nat
  hidden : Bool
  glyph : Glyph
  deriving DecidableEq, Repr

instance : Inhabited Cell := ⟨⟨0, false, .addressEnd⟩⟩

def Cell.char (c : Cell) : Option Char :=
  match c.glyph with
  | .text ch => some ch
  | _ => none

/-- The glyph takes the place of the cell. -/
def Cell.put (glyph : Glyph) (c : Cell) : Cell := { c with glyph }

def Cell.hide (c : Cell) : Cell := { c with hidden := true }

def cells (text : List Char) : List Cell := text.zipIdx.map fun p => ⟨p.2, false, .text p.1⟩

def cellSpan (kind : Kind) (run : List Cell) : Span Kind :=
  ⟨kind, (run.headD default).place, (run.getLastD default).place⟩

/-- The covered run with marks for its markers. -/
def placeSpan (kind : Kind) (g : List Cell × List Cell) : List Cell :=
  (g.2.headD default).put (.opens (cellSpan kind g.2)) ::
    (g.1 ++ [(g.2.getLastD default).put (.closes (cellSpan kind g.2))])

/-- A link with marks; its address goes in front of its label. -/
def placeLink (g : (List Cell × List Cell) × List Cell) : List Cell :=
  (g.2.headD default).put (.opens (cellSpan .link g.2)) ::
    (g.1.2.map Cell.hide ++ (((g.2.getLastD default).put .addressEnd).hide :: g.1.1) ++
      [(g.2.getLastD default).put (.closes (cellSpan .link g.2))])

def spanPass (find : Finder Cell (List Cell)) (kind : Kind) (l : List Cell) : List Cell :=
  replaceAll (covered find) (placeSpan kind) l

/-- The line as the link pattern meets it. -/
def placedBeforeLinks (text : List Char) : List Cell :=
  spanPass (codeSpan Cell.char) .code
    (spanPass (italicSpan Cell.char) .italic (spanPass (boldSpan Cell.char) .bold (cells text)))

def placedPieces (text : List Char) : List (Cell ⊕ ((List Cell × List Cell) × List Cell)) :=
  pieces (covered (linkSpan Cell.char)) 0 none (placedBeforeLinks text)

def placedLinks (text : List Char) : List Cell :=
  (placedPieces text).flatMap (Sum.elim (fun c => [c]) placeLink)

def placedLine (text : List Char) : List Cell :=
  spanPass (strikeSpan Cell.char) .strike (placedLinks text)

def Cell.end? (c : Cell) : Option (Span Kind × Bool) :=
  match c.glyph with
  | .opens span => some (span, false)
  | .closes span => some (span, true)
  | _ => none

/-- The ends of spans. -/
def ends (l : List Cell) : List (Span Kind × Bool) := l.filterMap Cell.end?

/-! ## What the cells stand for -/

section Render

def Cell.render (c : Cell) : List Char :=
  match c.glyph with
  | .text ch => escapeChar ch
  | .opens span => (telegramTag (.opens span.kind)).toList
  | .closes span => (telegramTag (.closes span.kind)).toList
  | .addressEnd => (telegramTag .addressEnd).toList

theorem renders_cell : Renders MARKERS Cell.char some Cell.render where
  ne_nil := by
    rintro ⟨place, hidden, glyph⟩
    cases glyph with
    | text ch => exact (escapeChar_cases ch).1
    | opens span => exact (plainTags_telegram _).1
    | closes span => exact (plainTags_telegram _).1
    | addressEnd => exact (plainTags_telegram _).1
  marker_or_unasked := by
    rintro ⟨place, hidden, glyph⟩
    have hnone : Unasked MARKERS none := by decide
    cases glyph with
    | text ch => exact (escapeChar_cases ch).2.imp (fun hsame => ⟨ch, hsame, rfl⟩) id
    | opens span => exact Or.inr ⟨(plainTags_telegram _).2, hnone⟩
    | closes span => exact Or.inr ⟨(plainTags_telegram _).2, hnone⟩
    | addressEnd => exact Or.inr ⟨(plainTags_telegram _).2, hnone⟩

theorem render_hide (l : List Cell) : (l.map Cell.hide).flatMap Cell.render = l.flatMap Cell.render := by
  rw [List.flatMap_map]
  rfl

theorem render_spanPass {find : Finder Cell (List Cell)} {find' : Finder Char (List Char)} {kind : Kind}
    (h : Rewrite.Simulates Cell.render (fun c => Unasked MARKERS (some c)) find find' (List.flatMap Cell.render))
    (l : List Cell) :
    replaceAll find' (wrap (fun m => (telegramTag m).toList) kind) (l.flatMap Cell.render) =
      (spanPass find kind l).flatMap Cell.render := by
  refine Rewrite.replaceAll_flatMap (coarse_render renders_cell) h.covered (fun g => ?_) l
  simp only [wrap, placeSpan, List.flatMap_cons, List.flatMap_append, List.flatMap_nil,
    List.append_nil, List.append_assoc]
  rfl

/-- The line that is sent is what its cells stand for. -/
theorem render_placedLine (text : List Char) :
    telegramInlineFormat text = (placedLine text).flatMap Cell.render := by
  have hr := renders_cell
  have hcells : escapeHtml text = (cells text).flatMap Cell.render := by
    rw [escapeHtml_eq, cells, List.flatMap_map]
    conv_lhs => rw [← List.zipIdx_map_fst 0 text, List.flatMap_map]
    rfl
  have hlinks (l : List Cell) :
      replaceAll (linkSpan some) (wrapLink fun m => (telegramTag m).toList) (l.flatMap Cell.render) =
        (replaceAll (covered (linkSpan Cell.char)) placeLink l).flatMap Cell.render := by
    refine Rewrite.replaceAll_flatMap (coarse_render hr) (simulates_link hr (by decide)).covered (fun g => ?_) l
    simp only [wrapLink, placeLink, List.flatMap_cons, List.flatMap_append, List.flatMap_nil,
      List.append_nil, List.append_assoc, render_hide]
    rfl
  rw [telegramInlineFormat, hcells, inlineFormat, beforeLinks, boldSpan, strikeSpan,
    render_spanPass (simulates_doubled hr (by decide)), render_spanPass (simulates_italic hr (by decide)),
    render_spanPass (simulates_code hr (by decide)), hlinks, render_spanPass (simulates_doubled hr (by decide))]
  rfl

end Render

/-! ## What a pattern covers -/

section Runs

theorem glyph_of_char {c : Cell} {ch : Char} (h : c.char = some ch) : c.glyph = .text ch := by
  unfold Cell.char at h
  split at h
  · next hglyph => rw [hglyph, Option.some.inj h]
  · cases h

theorem char_singleton {t : List Cell} {x : Char} (h : t.map Cell.char = [x].map some) :
    ∃ d, t = [d] ∧ d.glyph = .text x := by
  obtain ⟨d, rfl, hd⟩ := List.map_eq_singleton_iff.mp h
  exact ⟨d, rfl, glyph_of_char hd⟩

theorem char_pair {t : List Cell} {x y : Char} (h : t.map Cell.char = [x, y].map some) :
    ∃ d e, t = [d, e] ∧ d.glyph = .text x ∧ e.glyph = .text y := by
  obtain ⟨d, t, rfl, hd, ht⟩ := List.map_eq_cons_iff.mp h
  obtain ⟨e, rfl, he⟩ := char_singleton ht
  exact ⟨d, e, rfl, glyph_of_char hd, he⟩

/-- What the pattern finds stands between single markers. -/
def Single (x : Char) (find : Finder Cell (List Cell)) : Prop :=
  ∀ prev l inner n, find prev l = some (inner, n) →
    0 < n ∧ ∃ a b, l.take n = a :: (inner ++ [b]) ∧ a.glyph = .text x ∧ b.glyph = .text x

theorem single_enclosed {x : Char} {ok : Cell → Bool} {close : List Cell → Bool} {l inner : List Cell} {n : Nat}
    (h : enclosed Cell.char [x] ok close 1 l = some (inner, n))
    (hclose : ∀ r, close r = true → starts Cell.char [x] r = true) :
    0 < n ∧ ∃ a b, l.take n = a :: (inner ++ [b]) ∧ a.glyph = .text x ∧ b.glyph = .text x := by
  obtain ⟨o, c, hrun, ho, hc⟩ := enclosed_run h hclose rfl
  obtain ⟨a, rfl, ha⟩ := char_singleton ho
  obtain ⟨b, rfl, hb⟩ := char_singleton hc
  exact ⟨enclosed_pos h, a, b, hrun, ha, hb⟩

theorem single_italic : Single '*' (italicSpan Cell.char) := by
  intro prev l inner n h
  unfold italicSpan at h
  split_ifs at h
  exact single_enclosed h fun _ hclose => (Bool.and_eq_true_iff.mp hclose).1

theorem single_code : Single '`' (codeSpan Cell.char) :=
  fun _ _ _ _ h => single_enclosed h fun _ hclose => hclose

theorem doubled_run {x : Char} {prev : Option Cell} {l inner : List Cell} {n : Nat}
    (h : doubledSpan Cell.char x prev l = some (inner, n)) :
    0 < n ∧ ∃ a o c b, l.take n = a :: o :: (inner ++ [c, b]) ∧
      ∀ d ∈ [a, o, c, b], d.glyph = .text x := by
  obtain ⟨o, c, hrun, ho, hc⟩ := enclosed_run h (fun _ hclose => hclose) rfl
  obtain ⟨a, o, rfl, ha, ho⟩ := char_pair ho
  obtain ⟨c, b, rfl, hc, hb⟩ := char_pair hc
  refine ⟨enclosed_pos h, a, o, c, b, hrun, ?_⟩
  simp [ha, ho, hc, hb]

/-- A run between markers, which are the one character over. -/
def Framed (x : Char) (run inner : List Cell) : Prop :=
  ∃ a o c b, run = a :: (o ++ (inner ++ (c ++ [b]))) ∧ ∀ d ∈ a :: o ++ (c ++ [b]), d.glyph = .text x

/-- What the pattern finds is framed by its markers. -/
def Frames (x : Char) (find : Finder Cell (List Cell)) : Prop :=
  ∀ prev l inner n, find prev l = some (inner, n) → 0 < n ∧ Framed x (l.take n) inner

theorem frames_doubled (x : Char) : Frames x (doubledSpan Cell.char x) := by
  intro prev l inner n h
  obtain ⟨hpos, a, o, c, b, hrun, htext⟩ := doubled_run h
  exact ⟨hpos, a, [o], [c], b, hrun, htext⟩

theorem Single.frames {x : Char} {find : Finder Cell (List Cell)} (h : Single x find) : Frames x find := by
  intro prev l inner n hfound
  obtain ⟨hpos, a, b, hrun, ha, hb⟩ := h prev l inner n hfound
  refine ⟨hpos, a, [], [], b, hrun, ?_⟩
  simp [ha, hb]

/-- A link with its brackets and parentheses. -/
structure LinkRun (label address run : List Cell) (a r p b : Cell) : Prop where
  run_eq : run = a :: (label ++ r :: p :: (address ++ [b]))
  opens : a.glyph = .text '['
  label_end : r.glyph = .text ']'
  address_start : p.glyph = .text '('
  closes : b.glyph = .text ')'

theorem LinkRun.texts {label address run : List Cell} {a r p b : Cell} (h : LinkRun label address run a r p b) :
    ∀ d ∈ [a, r, p, b], ∃ ch, d.glyph = .text ch := by
  simp [h.opens, h.label_end, h.address_start, h.closes]

theorem linkRun {prev : Option Cell} {l label address : List Cell} {n : Nat}
    (h : linkSpan Cell.char prev l = some ((label, address), n)) :
    0 < n ∧ ∃ a r p b, LinkRun label address (l.take n) a r p b := by
  obtain ⟨⟨label', k⟩, hlabel, haddress⟩ := Option.bind_eq_some_iff.mp h
  obtain ⟨m, hm, heq⟩ := Option.map_eq_some_iff.mp haddress
  obtain ⟨hpair, rfl⟩ := Prod.mk.inj heq
  obtain ⟨rfl, rfl⟩ := Prod.mk.inj hpair
  obtain ⟨o, c, hrun, ho, hc⟩ := enclosed_run hlabel (fun _ hclose => hclose) rfl
  have hend := starts_chars (Rewrite.shortest_close hm)
  dsimp only at hend
  obtain ⟨a, rfl, hopen⟩ := char_singleton ho
  obtain ⟨r, p, rfl, hr, hp⟩ := char_pair hc
  obtain ⟨b, hb, hclose⟩ := char_singleton hend
  refine ⟨Nat.succ_pos _, a, r, p, b, ?_, hopen, hr, hp, hclose⟩
  have hlength : [')'].length = 1 := rfl
  rw [hlength] at hb
  rw [List.take_add, List.take_add, hrun, List.drop_drop.symm, hb]
  simp

end Runs

/-! ## Spans at their places -/

section Layout

variable {inside inside' : Nat → Prop} {kind : Kind} {kinds : List Kind} {l run out : List Cell}
  {ι : Type} {ps : List ι} {runs outs : ι → List Cell}

def visiblePlaces (l : List Cell) : List Nat :=
  l.filterMap fun c => if c.hidden then none else some c.place

/-- The cells of a line: those in an address are hidden, the others stand in order, and so do the
spans among them that have both ends outside of an address; those of one kind are apart. -/
structure Laid (inside : Nat → Prop) (kinds : List Kind) (l : List Cell) : Prop where
  sorted : (visiblePlaces l).Pairwise (· < ·)
  flag : ∀ c ∈ l, c.glyph ≠ .addressEnd → (c.hidden = true ↔ inside c.place)
  placed : ∀ c ∈ l, ∀ e, c.end? = some e → c.place = place e
  paired : ∀ s, (s, false) ∈ ends l ↔ (s, true) ∈ ends l
  known : ∀ e ∈ ends l, e.1.kind ∈ kinds
  forward : ∀ s, (s, true) ∈ ends l → ¬ inside s.first → ¬ inside s.last → s.first < s.last
  apart : ∀ s t, (s, true) ∈ ends l → (t, true) ∈ ends l → ¬ inside s.first → ¬ inside s.last →
    ¬ inside t.first → ¬ inside t.last → s.kind = t.kind → s = t ∨ s.Apart t

/-- A run gives way to a new span with its cells between the ends. -/
structure Replaced (kind : Kind) (run out : List Cell) (span : Span Kind) (a : Cell) (mid : List Cell)
    (b : Cell) : Prop where
  out_eq : out = a :: (mid ++ [b])
  kind_eq : span.kind = kind
  opens : a.end? = some (span, false)
  closes : b.end? = some (span, true)
  first : a.place = span.first
  last : b.place = span.last
  old : ∀ c ∈ mid, ∀ e, c.end? = some e → ∃ d ∈ run, d.end? = some e ∧ d.place = c.place
  kept : ∀ e ∈ ends run, e ∈ ends mid
  places : List.Sublist (visiblePlaces out) (visiblePlaces run)

theorem mem_ends {e : Span Kind × Bool} : e ∈ ends l ↔ ∃ c ∈ l, c.end? = some e := List.mem_filterMap

theorem ends_append (l m : List Cell) : ends (l ++ m) = ends l ++ ends m := List.filterMap_append

theorem visiblePlaces_append (l m : List Cell) :
    visiblePlaces (l ++ m) = visiblePlaces l ++ visiblePlaces m := List.filterMap_append

theorem not_addressEnd_of_end {c : Cell} {e : Span Kind × Bool} (h : c.end? = some e) :
    c.glyph ≠ .addressEnd := by
  intro hglyph
  unfold Cell.end? at h
  rw [hglyph] at h
  cases h

variable {span : Span Kind} {a b : Cell} {mid : List Cell}

theorem Replaced.mem_ends (h : Replaced kind run out span a mid b) (e : Span Kind × Bool) :
    e ∈ ends out ↔ e ∈ ends run ∨ e.1 = span := by
  have hout : e ∈ ends out ↔ e = (span, false) ∨ e ∈ ends mid ∨ e = (span, true) := by
    rw [h.out_eq, ← List.singleton_append, ends_append, ends_append, List.mem_append, List.mem_append]
    simp [ends, h.opens, h.closes]
  have hmid : e ∈ ends mid ↔ e ∈ ends run := by
    refine ⟨fun hmem => ?_, h.kept e⟩
    obtain ⟨c, hc, hend⟩ := Format.mem_ends.mp hmem
    obtain ⟨d, hd, hsame, -⟩ := h.old c hc e hend
    exact Format.mem_ends.mpr ⟨d, hd, hsame⟩
  obtain ⟨s, closing⟩ := e
  rw [hout, hmid, Prod.mk.injEq, Prod.mk.injEq]
  cases closing <;> simp [or_comm]

/-- Both ends of the new span are visible, and then in order. -/
theorem Replaced.forward (h : Replaced kind run out span a mid b)
    (hsorted : (visiblePlaces run).Pairwise (· < ·)) (ha : a.hidden = false) (hb : b.hidden = false) :
    span.first < span.last ∧ span.first ∈ visiblePlaces run ∧ span.last ∈ visiblePlaces run := by
  have hout : visiblePlaces out = span.first :: (visiblePlaces mid ++ [span.last]) := by
    rw [h.out_eq, ← List.singleton_append, visiblePlaces_append, visiblePlaces_append]
    simp [visiblePlaces, ha, hb, h.first, h.last]
  have hplaces := h.places
  rw [hout] at hplaces
  have hpair := hsorted.sublist hplaces
  exact ⟨List.rel_of_pairwise_cons hpair (by simp), hplaces.subset (by simp), hplaces.subset (by simp)⟩

/-- Members of a list in order are the same or in order one way. -/
theorem pairwise_or {α : Type} {R : α → α → Prop} {l : List α} (h : l.Pairwise R) {x y : α} (hx : x ∈ l)
    (hy : y ∈ l) : x = y ∨ R x y ∨ R y x := by
  by_cases hxy : x = y
  · exact Or.inl hxy
  · have hsymm : Std.Symm fun x y => R x y ∨ R y x := ⟨fun _ _ => Or.symm⟩
    exact Or.inr ((h.imp fun hR => Or.inl hR : l.Pairwise fun x y => R x y ∨ R y x).forall hx hy hxy)

theorem Replaced.span_eq (h : Replaced kind run out span a mid b) {span' : Span Kind} {a' b' : Cell}
    {mid' : List Cell} (h' : Replaced kind run out span' a' mid' b') : span' = span := by
  have hhead := h.out_eq.symm.trans h'.out_eq
  have hopens := h.opens
  rw [(List.cons.inj hhead).1, h'.opens] at hopens
  exact congrArg Prod.fst (Option.some.inj hopens)

/-- A pass puts a new span in the place of each run that its pattern covers. -/
def Passes (kind : Kind) (ps : List ι) (runs outs : ι → List Cell) : Prop :=
  ∀ p ∈ ps, outs p = runs p ∨ ∃ span a mid b, Replaced kind (runs p) (outs p) span a mid b

/-- The span is new: it stands for one of the runs. -/
def New (kind : Kind) (ps : List ι) (runs outs : ι → List Cell) (s : Span Kind) : Prop :=
  ∃ p ∈ ps, ∃ a mid b, Replaced kind (runs p) (outs p) s a mid b

theorem Passes.mem_ends (h : Passes kind ps runs outs) (e : Span Kind × Bool) :
    e ∈ ends (ps.flatMap outs) ↔ e ∈ ends (ps.flatMap runs) ∨ New kind ps runs outs e.1 := by
  simp only [ends, List.filterMap_flatMap, List.mem_flatMap]
  constructor
  · rintro ⟨p, hp, he⟩
    rcases h p hp with hsame | ⟨span, a, mid, b, hreplaced⟩
    · rw [hsame] at he
      exact Or.inl ⟨p, hp, he⟩
    · rcases (hreplaced.mem_ends e).mp he with hold | rfl
      · exact Or.inl ⟨p, hp, hold⟩
      · exact Or.inr ⟨p, hp, a, mid, b, hreplaced⟩
  · rintro (⟨p, hp, he⟩ | ⟨p, hp, a, mid, b, hreplaced⟩)
    · refine ⟨p, hp, ?_⟩
      rcases h p hp with hsame | ⟨span, a, mid, b, hreplaced⟩
      · rw [hsame]
        exact he
      · exact (hreplaced.mem_ends e).mpr (Or.inl he)
    · exact ⟨p, hp, (hreplaced.mem_ends e).mpr (Or.inr rfl)⟩

theorem visiblePlaces_flatMap (f : ι → List Cell) :
    visiblePlaces (ps.flatMap f) = ps.flatMap (visiblePlaces ∘ f) := by
  unfold visiblePlaces
  rw [List.filterMap_flatMap]
  rfl

theorem Passes.visiblePlaces (h : Passes kind ps runs outs) :
    List.Sublist (visiblePlaces (ps.flatMap outs)) (visiblePlaces (ps.flatMap runs)) := by
  rw [visiblePlaces_flatMap, visiblePlaces_flatMap]
  refine List.Sublist.flatMap_right ps fun p hp => ?_
  rcases h p hp with hsame | ⟨span, a, mid, b, hreplaced⟩
  · rw [Function.comp_apply, Function.comp_apply, hsame]
  · exact hreplaced.places

theorem Passes.placed (h : Passes kind ps runs outs)
    (hplaced : ∀ c ∈ ps.flatMap runs, ∀ e, c.end? = some e → c.place = place e) :
    ∀ c ∈ ps.flatMap outs, ∀ e, c.end? = some e → c.place = place e := by
  intro c hc e he
  obtain ⟨p, hp, hcp⟩ := List.mem_flatMap.mp hc
  rcases h p hp with hsame | ⟨span, a, mid, b, hreplaced⟩
  · rw [hsame] at hcp
    exact hplaced c (List.mem_flatMap.mpr ⟨p, hp, hcp⟩) e he
  · rw [hreplaced.out_eq, List.mem_cons, List.mem_append, List.mem_singleton] at hcp
    rcases hcp with rfl | hmid | rfl
    · rw [hreplaced.opens] at he
      obtain rfl := Option.some.inj he
      exact hreplaced.first
    · obtain ⟨d, hd, hsame, hplace⟩ := hreplaced.old c hmid e he
      rw [← hplace]
      exact hplaced d (List.mem_flatMap.mpr ⟨p, hp, hd⟩) e hsame
    · rw [hreplaced.closes] at he
      obtain rfl := Option.some.inj he
      exact hreplaced.last

theorem Laid.replace (outs : ι → List Cell) (h : Laid inside kinds (ps.flatMap runs)) (hkind : kind ∉ kinds)
    (hmono : ∀ p, inside p → inside' p)
    (hflag : ∀ c ∈ ps.flatMap outs, c.glyph ≠ .addressEnd → (c.hidden = true ↔ inside' c.place))
    (hps : Passes kind ps runs outs) : Laid inside' (kind :: kinds) (ps.flatMap outs) := by
  have hsorted := h.sorted
  rw [visiblePlaces_flatMap] at hsorted
  obtain ⟨hrun, horder⟩ := List.pairwise_flatMap.mp hsorted
  have hnew : ∀ s, New kind ps runs outs s → s.kind = kind := fun s ⟨_, _, _, _, _, hreplaced⟩ => hreplaced.kind_eq
  have hold : ∀ s, (s, true) ∈ ends (ps.flatMap runs) → s.kind ≠ kind := by
    rintro s hs rfl
    exact hkind (h.known _ hs)
  have hshown : ∀ p ∈ ps, ∀ s a mid b, Replaced kind (runs p) (outs p) s a mid b →
      ¬ inside' s.first → ¬ inside' s.last →
        s.first < s.last ∧ s.first ∈ visiblePlaces (runs p) ∧ s.last ∈ visiblePlaces (runs p) := by
    intro p hp s a mid b hreplaced hfirst hlast
    have hmem : ∀ c ∈ outs p, c ∈ ps.flatMap outs := fun c hc => List.mem_flatMap.mpr ⟨p, hp, hc⟩
    have ha := hflag a (hmem a (by simp [hreplaced.out_eq])) (not_addressEnd_of_end hreplaced.opens)
    have hb := hflag b (hmem b (by simp [hreplaced.out_eq])) (not_addressEnd_of_end hreplaced.closes)
    rw [hreplaced.first] at ha
    rw [hreplaced.last] at hb
    exact hreplaced.forward (hrun p hp) (by simpa using mt ha.mp hfirst) (by simpa using mt hb.mp hlast)
  refine ⟨h.sorted.sublist hps.visiblePlaces, hflag, hps.placed h.placed, ?_, ?_, ?_, ?_⟩
  · intro s
    rw [hps.mem_ends, hps.mem_ends, h.paired]
  · intro e he
    rcases (hps.mem_ends e).mp he with hold | hnews
    · exact List.mem_cons_of_mem _ (h.known e hold)
    · rw [hnew _ hnews]
      exact List.mem_cons_self ..
  · intro s hs hfirst hlast
    rcases (hps.mem_ends _).mp hs with hs | ⟨p, hp, a, mid, b, hreplaced⟩
    · exact h.forward s hs (mt (hmono _) hfirst) (mt (hmono _) hlast)
    · exact (hshown p hp s a mid b hreplaced hfirst hlast).1
  · intro s t hs ht hsf hsl htf htl hkinds
    rcases (hps.mem_ends _).mp hs with hs | hs
    · rcases (hps.mem_ends _).mp ht with ht | ht
      · exact h.apart s t hs ht (mt (hmono _) hsf) (mt (hmono _) hsl) (mt (hmono _) htf)
          (mt (hmono _) htl) hkinds
      · exact absurd (hkinds.trans (hnew t ht)) (hold s hs)
    · rcases (hps.mem_ends _).mp ht with ht | ht
      · exact absurd (hkinds.symm.trans (hnew s hs)) (hold t ht)
      · obtain ⟨p, hp, a, mid, b, hreplaced⟩ := hs
        obtain ⟨q, hq, a', mid', b', hreplaced'⟩ := ht
        obtain ⟨-, hsfirst, hslast⟩ := hshown p hp s a mid b hreplaced hsf hsl
        obtain ⟨-, htfirst, htlast⟩ := hshown q hq t a' mid' b' hreplaced' htf htl
        rcases pairwise_or horder hp hq with rfl | hbefore | hbehind
        · exact Or.inl (hreplaced'.span_eq hreplaced)
        · exact Or.inr (Or.inl (hbefore _ hslast _ htfirst))
        · exact Or.inr (Or.inr (hbehind _ htlast _ hsfirst))

end Layout

/-! ## The passes -/

section Passes

variable {inside : Nat → Prop} {kind : Kind} {kinds : List Kind} {l run inner : List Cell} {x : Char}
  {find : Finder Cell (List Cell)}

def runOf {γ : Type} : Cell ⊕ (γ × List Cell) → List Cell := Sum.elim (fun c => [c]) Prod.snd

theorem getLastD_append {α : Type} [Inhabited α] (l : List α) (b : α) : (l ++ [b]).getLastD default = b := by
  rw [List.getLastD_eq_getLast?, List.getLast?_append]
  rfl

theorem end?_of_text {c : Cell} {ch : Char} (h : c.glyph = .text ch) : c.end? = none := by
  unfold Cell.end?
  rw [h]

/-- The cells of a run that its markers frame, with the marks of a span for the markers. -/
theorem placeSpan_frame (kind : Kind) {a b : Cell} {o c : List Cell} (h : run = a :: (o ++ (inner ++ (c ++ [b])))) :
    placeSpan kind (inner, run) = a.put (.opens ⟨kind, a.place, b.place⟩) ::
      (inner ++ [b.put (.closes ⟨kind, a.place, b.place⟩)]) := by
  have hlast : run.getLastD default = b := by
    rw [h, ← List.append_assoc, ← List.append_assoc, ← List.cons_append]
    exact getLastD_append _ b
  have hhead : run.headD default = a := by rw [h]; rfl
  rw [placeSpan, cellSpan, hlast, hhead]

theorem replaced_placeSpan (kind : Kind) (h : Framed x run inner) :
    ∃ span a mid b, Replaced kind run (placeSpan kind (inner, run)) span a mid b := by
  obtain ⟨a, o, c, b, hrun, htext⟩ := h
  have hout := placeSpan_frame kind hrun
  refine ⟨_, _, _, _, hout, rfl, rfl, rfl, rfl, rfl, ?_, ?_, ?_⟩
  · intro d hd e he
    exact ⟨d, by simp [hrun, hd], he, rfl⟩
  · intro e he
    obtain ⟨d, hd, hend⟩ := mem_ends.mp he
    have hinner : d ∈ inner := by
      by_contra hnot
      have hmarker : d ∈ a :: o ++ (c ++ [b]) := by
        rw [hrun] at hd
        simp only [List.mem_cons, List.mem_append, List.cons_append] at hd ⊢
        tauto
      rw [end?_of_text (htext d hmarker)] at hend
      cases hend
    exact mem_ends.mpr ⟨d, hinner, hend⟩
  · have hput : ∀ glyph (d : Cell), visiblePlaces [d.put glyph] = visiblePlaces [d] := fun _ _ => rfl
    rw [hout, hrun, ← List.singleton_append, ← List.singleton_append (x := a), visiblePlaces_append,
      visiblePlaces_append, visiblePlaces_append, visiblePlaces_append, visiblePlaces_append,
      visiblePlaces_append, hput, hput]
    refine (List.Sublist.refl _).append ?_
    refine List.Sublist.trans ?_ (List.sublist_append_right _ _)
    exact (List.Sublist.refl _).append (List.sublist_append_right _ _)

theorem passes_of_replaced {γ : Type} {ps : List (Cell ⊕ (γ × List Cell))} {write : γ × List Cell → List Cell}
    (h : ∀ g, .inr g ∈ ps → ∃ span a mid b, Replaced kind g.2 (write g) span a mid b) :
    Passes kind ps runOf (Sum.elim (fun c => [c]) write) := by
  rintro (c | g) hp
  · exact Or.inl rfl
  · exact Or.inr (h g hp)

theorem spanPass_eq (find : Finder Cell (List Cell)) (kind : Kind) (l : List Cell) :
    spanPass find kind l =
      (pieces (covered find) 0 none l).flatMap (Sum.elim (fun c => [c]) (placeSpan kind)) := rfl

theorem Frames.runs (h : Frames x find) (l : List Cell) :
    (pieces (covered find) 0 none l).flatMap runOf = l :=
  Rewrite.flatMap_covered (fun prev l m hm => (h prev l m.1 m.2 hm).1) l

theorem Frames.framed (h : Frames x find) {g : List Cell × List Cell}
    (hg : .inr g ∈ pieces (covered find) 0 none l) : Framed x g.2 g.1 := by
  obtain ⟨prev, back, n, hfound, hrun⟩ := Rewrite.found_covered hg
  rw [hrun]
  exact (h prev back g.1 n hfound).2

/-- A cell behind the pass is one of the line, or a mark of the new kind in the place of a marker. -/
theorem mem_spanPass (h : Frames x find) {c : Cell} (hc : c ∈ spanPass find kind l) :
    c ∈ l ∨ ∃ d ∈ l, d.glyph = .text x ∧ d.place = c.place ∧ d.hidden = c.hidden ∧
      ∃ e, c.end? = some e ∧ e.1.kind = kind := by
  rw [spanPass_eq] at hc
  obtain ⟨p, hp, hcp⟩ := List.mem_flatMap.mp hc
  have hmem : ∀ d ∈ runOf p, d ∈ l := by
    intro d hd
    rw [← h.runs l]
    exact List.mem_flatMap.mpr ⟨p, hp, hd⟩
  cases p with
  | inl d => exact Or.inl (hmem c hcp)
  | inr g =>
    obtain ⟨a, o, c', b, hrun, htext⟩ := h.framed hp
    have hout := placeSpan_frame kind hrun
    have hrunOf : runOf (.inr g : Cell ⊕ (List Cell × List Cell)) = g.2 := rfl
    rw [hrunOf, hrun] at hmem
    rw [Sum.elim_inr, hout, List.mem_cons, List.mem_append, List.mem_singleton] at hcp
    rcases hcp with rfl | hinner | rfl
    · exact Or.inr ⟨a, hmem a (by simp), htext a (by simp), rfl, rfl, _, rfl, rfl⟩
    · exact Or.inl (hmem c (by simp [hinner]))
    · exact Or.inr ⟨b, hmem b (by simp), htext b (by simp), rfl, rfl, _, rfl, rfl⟩

theorem Laid.spanPass (h : Laid inside kinds l) (hkind : kind ∉ kinds) (hf : Frames x find) :
    Laid inside (kind :: kinds) (spanPass find kind l) := by
  rw [← hf.runs l] at h
  refine Laid.replace (Sum.elim (fun c => [c]) (placeSpan kind)) h hkind (fun _ => id) ?_ ?_
  · intro c hc hglyph
    rw [hf.runs l] at h
    rcases mem_spanPass hf hc with hmem | ⟨d, hd, htext, hplace, hhidden, -⟩
    · exact h.flag c hmem hglyph
    · rw [← hplace, ← hhidden]
      exact h.flag d hd (by simp [htext])
  · exact passes_of_replaced fun g hg => replaced_placeSpan kind (hf.framed hg)

theorem laid_cells (text : List Char) : Laid (fun _ => False) [] (cells text) := by
  have hnone : ends (cells text) = [] := by
    rw [ends, List.filterMap_eq_nil_iff]
    intro c hc
    obtain ⟨p, -, rfl⟩ := List.mem_map.mp hc
    rfl
  have hplaces : visiblePlaces (cells text) = List.range' 0 text.length := by
    rw [visiblePlaces, cells, List.filterMap_map, ← List.zipIdx_map_snd 0 text, ← List.filterMap_eq_map]
    rfl
  refine ⟨?_, ?_, ?_, ?_, ?_, ?_, ?_⟩
  · rw [hplaces]
    exact List.pairwise_lt_range'
  · intro c hc _
    obtain ⟨p, -, rfl⟩ := List.mem_map.mp hc
    simp
  · intro c hc e he
    have hmem : e ∈ ends (cells text) := mem_ends.mpr ⟨c, hc, he⟩
    rw [hnone] at hmem
    cases hmem
  · simp [hnone]
  · simp [hnone]
  · simp [hnone]
  · simp [hnone]

theorem laid_beforeLinks (text : List Char) :
    Laid (fun _ => False) [.code, .italic, .bold] (placedBeforeLinks text) :=
  (((laid_cells text).spanPass (by simp) (frames_doubled '*')).spanPass (by decide) single_italic.frames).spanPass
    (by decide) single_code.frames

theorem addressEnd_not_mem (text : List Char) : ∀ c ∈ placedBeforeLinks text, c.glyph ≠ .addressEnd := by
  have hpass : ∀ {l : List Cell} {x : Char} {find : Finder Cell (List Cell)} {kind : Kind},
      Frames x find → (∀ c ∈ l, c.glyph ≠ .addressEnd) →
        ∀ c ∈ spanPass find kind l, c.glyph ≠ .addressEnd := by
    intro l x find kind hf hl c hc
    rcases mem_spanPass hf hc with hmem | ⟨-, -, -, -, -, e, he, -⟩
    · exact hl c hmem
    · exact not_addressEnd_of_end he
  refine hpass single_code.frames (hpass single_italic.frames (hpass (frames_doubled '*') ?_))
  intro c hc
  obtain ⟨p, -, rfl⟩ := List.mem_map.mp hc
  simp

end Passes

/-! ## Links -/

section Links

variable {text : List Char} {g : (List Cell × List Cell) × List Cell}

theorem visible_beforeLinks {c : Cell} (hc : c ∈ placedBeforeLinks text) :
    c.hidden = false ∧ c.glyph ≠ .addressEnd := by
  have hglyph := addressEnd_not_mem text c hc
  have hflag := (laid_beforeLinks text).flag c hc hglyph
  exact ⟨by simpa using mt hflag.mp id, hglyph⟩

theorem placedPieces_runs (text : List Char) : (placedPieces text).flatMap runOf = placedBeforeLinks text :=
  Rewrite.flatMap_covered (fun _ _ _ hm => (linkRun hm).1) _

theorem mem_of_piece {p : Cell ⊕ ((List Cell × List Cell) × List Cell)} (hp : p ∈ placedPieces text)
    {c : Cell} (hc : c ∈ runOf p) : c ∈ placedBeforeLinks text := by
  rw [← placedPieces_runs]
  exact List.mem_flatMap.mpr ⟨p, hp, hc⟩

theorem linkRun_of_piece (hg : .inr g ∈ placedPieces text) :
    ∃ a r p b, LinkRun g.1.1 g.1.2 g.2 a r p b := by
  obtain ⟨prev, back, n, hfound, hrun⟩ := Rewrite.found_covered hg
  rw [hrun]
  exact (linkRun hfound).2

/-- The cells of a link as they are written. -/
theorem LinkRun.placeLink_eq {a r p b : Cell} (h : LinkRun g.1.1 g.1.2 g.2 a r p b) :
    placeLink g = a.put (.opens ⟨.link, a.place, b.place⟩) ::
      ((g.1.2.map Cell.hide ++ (b.put .addressEnd).hide :: g.1.1) ++
        [b.put (.closes ⟨.link, a.place, b.place⟩)]) := by
  have hlast : g.2.getLastD default = b := by
    have hend : g.2 = (a :: (g.1.1 ++ r :: p :: g.1.2)) ++ [b] := by
      conv_lhs => rw [h.run_eq]
      simp
    rw [hend]
    exact getLastD_append _ b
  have hhead : g.2.headD default = a := by rw [h.run_eq]; rfl
  rw [placeLink, cellSpan, hlast, hhead]

theorem replaced_placeLink (hg : .inr g ∈ placedPieces text) :
    ∃ span a mid b, Replaced .link g.2 (placeLink g) span a mid b := by
  obtain ⟨a, r, p, b, hrun⟩ := linkRun_of_piece hg
  have hend : ∀ d ∈ [a, r, p, b], d.end? = none := fun d hd =>
    (hrun.texts d hd).elim fun _ htext => end?_of_text htext
  refine ⟨_, _, _, _, hrun.placeLink_eq, rfl, rfl, rfl, rfl, rfl, ?_, ?_, ?_⟩
  · intro d hd e he
    simp only [List.mem_append, List.mem_map, List.mem_cons] at hd
    rcases hd with ⟨d, hd, rfl⟩ | rfl | hd
    · exact ⟨d, by rw [hrun.run_eq]; simp [hd], he, rfl⟩
    · cases he
    · exact ⟨d, by rw [hrun.run_eq]; simp [hd], he, rfl⟩
  · intro e he
    obtain ⟨d, hd, hde⟩ := mem_ends.mp he
    rw [hrun.run_eq] at hd
    simp only [List.mem_cons, List.mem_append, List.not_mem_nil, or_false] at hd
    have hmarker : d ∉ [a, r, p, b] := by
      intro hmem
      rw [hend d hmem] at hde
      cases hde
    simp only [List.mem_cons, List.not_mem_nil, or_false, not_or] at hmarker
    rcases hd with heq | hlabel | heq | heq | haddress | heq
    · exact absurd heq hmarker.1
    · exact mem_ends.mpr ⟨d, by simp [hlabel], hde⟩
    · exact absurd heq hmarker.2.1
    · exact absurd heq hmarker.2.2.1
    · exact mem_ends.mpr ⟨d.hide, by simp [haddress, List.mem_map_of_mem], hde⟩
    · exact absurd heq hmarker.2.2.2
  · have hhidden : visiblePlaces (g.1.2.map Cell.hide ++ [(b.put .addressEnd).hide]) = [] := by
      rw [visiblePlaces, List.filterMap_eq_nil_iff]
      intro c hc
      simp only [List.mem_append, List.mem_map, List.mem_singleton] at hc
      rcases hc with ⟨d, -, rfl⟩ | rfl <;> rfl
    have hput : ∀ glyph (d : Cell), visiblePlaces [d.put glyph] = visiblePlaces [d] := fun _ _ => rfl
    have hout : placeLink g = [a.put (.opens ⟨.link, a.place, b.place⟩)] ++
        ((g.1.2.map Cell.hide ++ [(b.put .addressEnd).hide]) ++
          (g.1.1 ++ [b.put (.closes ⟨.link, a.place, b.place⟩)])) := by
      rw [hrun.placeLink_eq]
      simp
    have hin : g.2 = [a] ++ (g.1.1 ++ ((r :: p :: g.1.2) ++ [b])) := by
      conv_lhs => rw [hrun.run_eq]
      simp
    rw [hout]
    conv_rhs => rw [hin]
    simp only [visiblePlaces_append, hput]
    rw [← visiblePlaces_append, hhidden, List.nil_append]
    refine (List.Sublist.refl _).append ((List.Sublist.refl _).append ?_)
    exact List.sublist_append_right _ _

end Links

/-! ## The line under its cells -/

section Letters

variable {text : List Char} {seen : List Kind} {kind : Kind} {l : List Cell} {x : Char}
  {find : Finder Cell (List Cell)}

/-- The marker for a mark at a place. -/
def markerAt (kind : Kind) (closing : Bool) (p : Nat) : List Placed :=
  match kind with
  | .bold => if closing then [(some '*', p - 1), (some '*', p)] else [(some '*', p), (some '*', p + 1)]
  | .italic => [(some '*', p)]
  | .code => [(some '`', p)]
  | .link => [(some (if closing then ')' else '['), p)]
  | .strike => [(some '~', p)]

/-- The characters a cell stands for, when the marks of the kinds that are seen stand for markers. -/
def Cell.letters (seen : List Kind) (c : Cell) : List Placed :=
  let mark (kind : Kind) (closing : Bool) :=
    if kind ∈ seen then markerAt kind closing c.place else [(none, c.place)]
  match c.glyph with
  | .text ch => [(some ch, c.place)]
  | .opens span => mark span.kind false
  | .closes span => mark span.kind true
  | .addressEnd => mark .link true

theorem letters_text {c : Cell} {ch : Char} (h : c.glyph = .text ch) : c.letters seen = [(some ch, c.place)] := by
  unfold Cell.letters
  rw [h]

theorem markerAt_fst (kind : Kind) (closing : Bool) (p : Nat) :
    (markerAt kind closing p).map Prod.fst = (markerAt kind closing 0).map Prod.fst := by
  cases kind <;> cases closing <;> rfl

/-- A pattern meets the characters of the cells, when it asks for none of the markers that are seen. -/
theorem renders_letters {markers : List Char}
    (h : ∀ kind ∈ seen, ∀ closing, ∀ o ∈ (markerAt kind closing 0).map Prod.fst, Unasked markers o) :
    Renders markers Cell.char Prod.fst (Cell.letters seen) := by
  have hmark : ∀ (p : Nat) (kind : Kind) (closing : Bool) (shown : List Placed),
      shown = (if kind ∈ seen then markerAt kind closing p else [(none, p)]) →
        shown ≠ [] ∧ ∀ b ∈ shown, Unasked markers b.1 := by
    rintro p kind closing shown rfl
    split_ifs with hseen
    · refine ⟨?_, fun b hb => h kind hseen closing b.1 ?_⟩
      · cases kind <;> cases closing <;> simp [markerAt]
      · rw [← markerAt_fst kind closing p]
        exact List.mem_map_of_mem hb
    · simp [Unasked]
  have hnone : Unasked markers none := by simp [Unasked]
  constructor
  · rintro ⟨place, hidden, glyph⟩
    cases glyph with
    | text ch => exact List.cons_ne_nil _ _
    | opens span => exact (hmark place span.kind false _ rfl).1
    | closes span => exact (hmark place span.kind true _ rfl).1
    | addressEnd => exact (hmark place .link true _ rfl).1
  · rintro ⟨place, hidden, glyph⟩
    cases glyph with
    | text ch => exact Or.inl ⟨(some ch, place), rfl, rfl⟩
    | opens span => exact Or.inr ⟨(hmark place span.kind false _ rfl).2, hnone⟩
    | closes span => exact Or.inr ⟨(hmark place span.kind true _ rfl).2, hnone⟩
    | addressEnd => exact Or.inr ⟨(hmark place .link true _ rfl).2, hnone⟩

theorem letters_cells (seen : List Kind) (text : List Char) :
    (cells text).flatMap (Cell.letters seen) = placed text := by
  rw [cells, placed, List.flatMap_map, List.map_eq_flatMap]
  rfl

theorem letters_bare : Cell.letters [] = fun c => [(c.char, c.place)] := by
  funext ⟨place, hidden, glyph⟩
  cases glyph <;> simp [Cell.letters, Cell.char]

theorem letters_behindBold (text : List Char) :
    (spanPass (boldSpan Cell.char) .bold (cells text)).flatMap (Cell.letters []) = behindBold text := by
  have hr : Renders ['*'] Cell.char Prod.fst (Cell.letters []) := renders_letters (by simp)
  have hmap : ∀ run : List Cell, run.flatMap (Cell.letters []) = run.map fun c => (c.char, c.place) := by
    intro run
    rw [letters_bare, List.map_eq_flatMap]
  have hplaces : ∀ run : List Cell, ((run.flatMap (Cell.letters [])).headD default).2 = (run.headD default).place ∧
      ((run.flatMap (Cell.letters [])).getLastD default).2 = (run.getLastD default).place := by
    intro run
    rw [hmap]
    refine ⟨?_, ?_⟩
    · cases run <;> rfl
    · rw [List.getLastD_eq_getLast?, List.getLast?_map, List.getLastD_eq_getLast?]
      cases run.getLast? <;> rfl
  rw [behindBold, ← letters_cells []]
  refine (Rewrite.replaceAll_flatMap (coarse_render hr) (simulates_doubled hr (by simp)).covered_both
    (fun g => ?_) (cells text)).symm
  dsimp only
  rw [(hplaces g.2).1, (hplaces g.2).2, placeSpan, letters_bare]
  simp [Cell.put, Cell.char]

/-- Behind a pass of single markers the cells stand for the same characters. -/
theorem letters_single (h : Single x find) (hmark : ∀ closing p, markerAt kind closing p = [(some x, p)])
    (hseen : kind ∈ seen) (l : List Cell) :
    (spanPass find kind l).flatMap (Cell.letters seen) = l.flatMap (Cell.letters seen) := by
  refine Rewrite.flatMap_replaceAll _ l fun prev back g n _ hfound => ?_
  obtain ⟨m, hm, heq⟩ := Option.map_eq_some_iff.mp hfound
  obtain ⟨rfl, rfl⟩ := Prod.mk.inj heq
  obtain ⟨hpos, a, b, hrun, ha, hb⟩ := h prev back m.1 m.2 hm
  have hframe : back.take m.2 = a :: ([] ++ (m.1 ++ ([] ++ [b]))) := hrun
  rw [placeSpan_frame kind hframe]
  conv_rhs => rw [hrun]
  refine ⟨hpos, ?_⟩
  simp only [List.flatMap_cons, List.flatMap_append, List.flatMap_nil, List.append_nil, letters_text ha,
    letters_text hb]
  simp [Cell.letters, Cell.put, hseen, hmark]

theorem consecutive_cells (text : List Char) :
    (cells text).IsChain fun c d => d.place = c.place + 1 := by
  have hplaces : (cells text).map Cell.place = List.range' 0 text.length := by
    rw [cells, List.map_map, ← List.zipIdx_map_snd 0 text]
    rfl
  have hchain := List.isChain_range' 0 text.length 1
  rw [← hplaces] at hchain
  exact (List.isChain_map Cell.place).mp hchain

theorem letters_bold (hseen : .bold ∈ seen) (text : List Char) :
    (spanPass (boldSpan Cell.char) .bold (cells text)).flatMap (Cell.letters seen) = placed text := by
  rw [← letters_cells seen]
  refine Rewrite.flatMap_replaceAll _ _ fun prev back g n hback hfound => ?_
  obtain ⟨m, hm, heq⟩ := Option.map_eq_some_iff.mp hfound
  obtain ⟨rfl, rfl⟩ := Prod.mk.inj heq
  obtain ⟨hpos, a, o, c, b, hrun, htext⟩ := doubled_run hm
  have hframe : back.take m.2 = a :: ([o] ++ (m.1 ++ ([c] ++ [b]))) := hrun
  have hchain := ((consecutive_cells text).suffix hback).take m.2
  rw [hrun, List.isChain_cons_cons, ← List.cons_append, List.isChain_append_cons_cons] at hchain
  obtain ⟨ho, -, hb, -⟩ := hchain
  rw [placeSpan_frame .bold hframe]
  conv_rhs => rw [hrun]
  refine ⟨hpos, ?_⟩
  simp only [List.flatMap_cons, List.flatMap_append, List.flatMap_nil, List.append_nil,
    letters_text (htext a (by simp)), letters_text (htext o (by simp)), letters_text (htext c (by simp)),
    letters_text (htext b (by simp))]
  simp [Cell.letters, Cell.put, hseen, markerAt, ho, hb]

/-- A run with a character at both of its ends. -/
def Bounded (run : List Cell) : Prop :=
  ∃ a mid b ch ch', run = a :: (mid ++ [b]) ∧ a.glyph = .text ch ∧ b.glyph = .text ch'

theorem Framed.bounded {run inner : List Cell} (h : Framed x run inner) : Bounded run := by
  obtain ⟨a, o, c, b, hrun, htext⟩ := h
  refine ⟨a, o ++ (inner ++ c), b, x, x, ?_, htext a (by simp), htext b (by simp)⟩
  rw [hrun]
  simp

theorem LinkRun.bounded {label address run : List Cell} {a r p b : Cell} (h : LinkRun label address run a r p b) :
    Bounded run := by
  refine ⟨a, label ++ r :: p :: address, b, _, _, ?_, h.opens, h.closes⟩
  rw [h.run_eq]
  simp

theorem spanOf_letters {run : List Cell} (h : Bounded run) :
    spanOf kind (run.flatMap (Cell.letters seen)) = cellSpan kind run := by
  obtain ⟨a, mid, b, ch, ch', rfl, ha, hb⟩ := h
  rw [List.flatMap_cons, List.flatMap_append, List.flatMap_singleton, letters_text ha, letters_text hb,
    List.singleton_append, spanOf, cellSpan, ← List.cons_append, ← List.cons_append, getLastD_append,
    getLastD_append]
  rfl

theorem mem_spansOf {γ δ : Type} {find : Finder Cell γ} {find' : Finder Placed δ} {capture : γ → δ}
    {markers : List Char} (hr : Renders markers Cell.char Prod.fst (Cell.letters seen))
    (h : Rewrite.Simulates (Cell.letters seen) (fun b => Unasked markers b.1) find find' capture)
    (hruns : ∀ g, .inr g ∈ pieces (covered find) 0 none l → Bounded g.2) (s : Span Kind) :
    s ∈ spansOf find' kind (l.flatMap (Cell.letters seen)) ↔
      ∃ g, .inr g ∈ pieces (covered find) 0 none l ∧ cellSpan kind g.2 = s := by
  rw [spansOf, Rewrite.pieces_flatMap_none (coarse_render hr) h.covered_both, List.mem_filterMap]
  constructor
  · rintro ⟨p, hp, hs⟩
    obtain ⟨q, hq, hp⟩ := List.mem_flatMap.mp hp
    cases q with
    | inl c =>
      obtain ⟨b, -, rfl⟩ := List.mem_map.mp hp
      cases hs
    | inr g =>
      obtain rfl := List.mem_singleton.mp hp
      rw [Sum.getRight?_inr, Option.map_some, Option.some.injEq, spanOf_letters (hruns g hq)] at hs
      exact ⟨g, hq, hs⟩
  · rintro ⟨g, hg, rfl⟩
    refine ⟨.inr (capture g.1, g.2.flatMap (Cell.letters seen)), List.mem_flatMap.mpr ⟨.inr g, hg, ?_⟩, ?_⟩
    · exact List.mem_singleton_self _
    · rw [Sum.getRight?_inr, Option.map_some, spanOf_letters (hruns g hg)]

theorem mem_ends_pass {γ : Type} {ps : List (Cell ⊕ (γ × List Cell))} {write : γ × List Cell → List Cell}
    (h : ∀ g, .inr g ∈ ps → ∃ span a mid b, Replaced kind g.2 (write g) span a mid b)
    (hwrite : ∀ g, ∃ (d : Cell) (rest : List Cell), write g = d.put (.opens (cellSpan kind g.2)) :: rest)
    (s : Span Kind) :
    (s, false) ∈ ends (ps.flatMap (Sum.elim (fun c => [c]) write)) ↔
      (s, false) ∈ ends (ps.flatMap runOf) ∨ ∃ g, .inr g ∈ ps ∧ cellSpan kind g.2 = s := by
  have hspan : ∀ g t a mid b, Replaced kind g.2 (write g) t a mid b → cellSpan kind g.2 = t := by
    intro g t a mid b hreplaced
    obtain ⟨d, rest, hd⟩ := hwrite g
    have hopens := hreplaced.opens
    rw [← (List.cons.inj (hd.symm.trans hreplaced.out_eq)).1] at hopens
    exact congrArg Prod.fst (Option.some.inj hopens)
  have hlonely : ∀ c t a mid b, ¬ Replaced kind (runOf (.inl c : Cell ⊕ (γ × List Cell))) [c] t a mid b := by
    intro c t a mid b hreplaced
    have hlength := congrArg List.length hreplaced.out_eq
    simp at hlength
  rw [(passes_of_replaced h).mem_ends]
  refine or_congr_right ⟨?_, ?_⟩
  · rintro ⟨c | g, hp, a, mid, b, hreplaced⟩
    · exact absurd hreplaced (hlonely c _ a mid b)
    · exact ⟨g, hp, hspan g _ a mid b hreplaced⟩
  · rintro ⟨g, hg, rfl⟩
    obtain ⟨t, a, mid, b, hreplaced⟩ := h g hg
    obtain rfl := hspan g t a mid b hreplaced
    exact ⟨.inr g, hg, a, mid, b, hreplaced⟩

/-- Before the links a mark is one of bold, italic or code. -/
theorem letters_beforeLinks {c : Cell} (hc : c ∈ placedBeforeLinks text) :
    c.letters [.bold, .italic, .code, .link] = c.letters [.bold, .italic, .code] := by
  have hglyph := (visible_beforeLinks hc).2
  have hknown : ∀ e, c.end? = some e → e.1.kind ∈ [.code, .italic, .bold] :=
    fun e he => (laid_beforeLinks text).known e (mem_ends.mpr ⟨c, hc, he⟩)
  have hseen : ∀ kind : Kind, kind ∈ [.code, .italic, .bold] →
      kind ∈ [.bold, .italic, .code, .link] ∧ kind ∈ [.bold, .italic, .code] := by
    decide
  obtain ⟨place, hidden, glyph⟩ := c
  cases glyph with
  | text ch => rfl
  | opens span =>
    obtain ⟨hfour, hthree⟩ := hseen span.kind (hknown (span, false) rfl)
    simp only [Cell.letters, if_pos hfour, if_pos hthree]
  | closes span =>
    obtain ⟨hfour, hthree⟩ := hseen span.kind (hknown (span, true) rfl)
    simp only [Cell.letters, if_pos hfour, if_pos hthree]
  | addressEnd => exact absurd rfl hglyph

theorem letters_italic (h : [.bold, .italic] ⊆ seen) (text : List Char) :
    (spanPass (italicSpan Cell.char) .italic (spanPass (boldSpan Cell.char) .bold (cells text))).flatMap
      (Cell.letters seen) = placed text := by
  rw [letters_single single_italic (fun _ _ => rfl) (h (by simp)), letters_bold (h (by simp))]

theorem letters_code (h : [.bold, .italic, .code] ⊆ seen) (text : List Char) :
    (placedBeforeLinks text).flatMap (Cell.letters seen) = placed text := by
  rw [placedBeforeLinks, letters_single single_code (fun _ _ => rfl) (h (by simp)),
    letters_italic fun kind hkind => h (by simp_all; tauto)]

def readLink (g : (List Cell × List Cell) × List Cell) : (List Placed × List Placed) × List Placed :=
  let f := Cell.letters [.bold, .italic, .code]
  ((g.1.1.flatMap f, g.1.2.flatMap f), g.2.flatMap f)

theorem linkPlaces_eq (text : List Char) :
    linkPlaces text = (placedPieces text).flatMap
      (Sum.elim (fun c => (c.letters [.bold, .italic, .code]).map .inl) fun g => [.inr (readLink g)]) := by
  have hr : Renders ['[', ']', '(', ')'] Cell.char Prod.fst (Cell.letters [.bold, .italic, .code]) :=
    renders_letters (by decide)
  have h := Rewrite.pieces_flatMap_none (coarse_render hr) (simulates_link hr (List.Subset.refl _)).covered_both
    (placedBeforeLinks text)
  rw [letters_code (List.Subset.refl _)] at h
  exact h

/-- A link with its brackets and parentheses, as it is read. -/
theorem readLink_run {a r p b : Cell} {g : (List Cell × List Cell) × List Cell}
    (h : LinkRun g.1.1 g.1.2 g.2 a r p b) :
    (readLink g).2 = ((some '[', a.place) :: ((readLink g).1.1 ++ [(some ']', r.place)])) ++
      (some '(', p.place) :: ((readLink g).1.2 ++ [(some ')', b.place)]) := by
  rw [readLink]
  conv_lhs => rw [h.run_eq]
  simp [letters_text h.opens, letters_text h.label_end, letters_text h.address_start, letters_text h.closes]

theorem readLink_ends {a r p b : Cell} {g : (List Cell × List Cell) × List Cell}
    (h : LinkRun g.1.1 g.1.2 g.2 a r p b) :
    (readLink g).2.headD default = (some '[', a.place) ∧ (readLink g).2.getLastD default = (some ')', b.place) := by
  rw [readLink_run h]
  refine ⟨rfl, ?_⟩
  rw [← List.cons_append (a := (some '(', p.place)), ← List.append_assoc, getLastD_append]

/-- An address stands between the parentheses of its link. -/
theorem addressOf_readLink {a r p b : Cell} {g : (List Cell × List Cell) × List Cell}
    (h : LinkRun g.1.1 g.1.2 g.2 a r p b) : addressOf (readLink g) = ⟨p.place, b.place, (readLink g).1.2⟩ := by
  have hlength : (readLink g).1.1.length + 2 =
      ((some '[', a.place) :: ((readLink g).1.1 ++ [(some ']', r.place)])).length := by
    simp
  have hfirst : ((readLink g).2.drop ((readLink g).1.1.length + 2)).headD default = (some '(', p.place) := by
    rw [readLink_run h, hlength, List.drop_left]
    rfl
  rw [addressOf, (readLink_ends h).2, hfirst]

/-- The tildes are looked for among the same characters. -/
theorem letters_links (text : List Char) :
    (placedLinks text).flatMap (Cell.letters [.bold, .italic, .code, .link]) = addressFirst text := by
  have hsame : ∀ c ∈ placedBeforeLinks text,
      c.letters [.bold, .italic, .code, .link] = c.letters [.bold, .italic, .code] :=
    fun c hc => letters_beforeLinks hc
  rw [placedLinks, addressFirst, linkPlaces_eq, List.flatMap_assoc, List.flatMap_assoc]
  refine List.flatMap_congr fun q hq => ?_
  cases q with
  | inl c =>
    rw [Sum.elim_inl, Sum.elim_inl, List.flatMap_singleton, hsame c (mem_of_piece hq (List.mem_singleton_self c)),
      List.flatMap_map]
    simp
  | inr g =>
    obtain ⟨a, r, p, b, hrun⟩ := linkRun_of_piece hq
    have hmem : ∀ c ∈ g.2, c ∈ placedBeforeLinks text := fun c hc => mem_of_piece hq hc
    rw [hrun.run_eq] at hmem
    have haddress : g.1.2.flatMap (Cell.letters [.bold, .italic, .code, .link]) = (readLink g).1.2 :=
      List.flatMap_congr fun c hc => hsame c (hmem c (by simp [hc]))
    have hlabel : g.1.1.flatMap (Cell.letters [.bold, .italic, .code, .link]) = (readLink g).1.1 :=
      List.flatMap_congr fun c hc => hsame c (hmem c (by simp [hc]))
    obtain ⟨hhead, hlast⟩ := readLink_ends hrun
    rw [Sum.elim_inr, Sum.elim_inr, List.flatMap_singleton, Sum.elim_inr, hhead, hlast, hrun.placeLink_eq]
    have hhide : (g.1.2.map Cell.hide).flatMap (Cell.letters [.bold, .italic, .code, .link]) =
        g.1.2.flatMap (Cell.letters [.bold, .italic, .code, .link]) := by
      rw [List.flatMap_map]
      rfl
    simp only [List.flatMap_cons, List.flatMap_append, List.flatMap_nil, hhide, haddress, hlabel]
    simp [Cell.letters, Cell.put, Cell.hide, markerAt]

end Letters

section Links

variable {text : List Char} {g : (List Cell × List Cell) × List Cell}

theorem mem_addresses {address : Address} :
    address ∈ addresses text ↔ ∃ g, .inr g ∈ placedPieces text ∧ addressOf (readLink g) = address := by
  rw [addresses, linkPlaces_eq, List.mem_filterMap]
  constructor
  · rintro ⟨p, hp, haddress⟩
    obtain ⟨q, hq, hp⟩ := List.mem_flatMap.mp hp
    cases q with
    | inl c =>
      obtain ⟨b, -, rfl⟩ := List.mem_map.mp hp
      cases haddress
    | inr g =>
      obtain rfl := List.mem_singleton.mp hp
      exact ⟨g, hq, Option.some.inj haddress⟩
  · rintro ⟨g, hg, rfl⟩
    exact ⟨.inr (readLink g), List.mem_flatMap.mpr ⟨.inr g, hg, List.mem_singleton_self _⟩, rfl⟩

theorem visiblePlaces_of_visible {l : List Cell} (h : ∀ c ∈ l, c.hidden = false) :
    visiblePlaces l = l.map Cell.place := by
  rw [visiblePlaces, ← List.filterMap_eq_map]
  exact List.filterMap_congr fun c hc => by simp [h c hc]

theorem pieces_sorted (text : List Char) :
    (∀ p ∈ placedPieces text, ((runOf p).map Cell.place).Pairwise (· < ·)) ∧
      (placedPieces text).Pairwise fun p q => ∀ x ∈ (runOf p).map Cell.place,
        ∀ y ∈ (runOf q).map Cell.place, x < y := by
  have hsorted := (laid_beforeLinks text).sorted
  rw [visiblePlaces_of_visible fun c hc => (visible_beforeLinks hc).1, ← placedPieces_runs,
    List.map_flatMap] at hsorted
  exact List.pairwise_flatMap.mp hsorted

/-- The places in an address are those between the parentheses of its link. -/
theorem inAddress_iff {p : Cell ⊕ ((List Cell × List Cell) × List Cell)} (hp : p ∈ placedPieces text)
    {x : Nat} (hx : x ∈ (runOf p).map Cell.place) :
    InAddress text x ↔
      ∃ g, p = .inr g ∧ (addressOf (readLink g)).first < x ∧ x < (addressOf (readLink g)).last := by
  constructor
  · rintro ⟨address, haddress, hfirst, hlast⟩
    obtain ⟨g, hq, rfl⟩ := mem_addresses.mp haddress
    obtain ⟨a, r, p', b, hrun⟩ := linkRun_of_piece hq
    have haddress := addressOf_readLink hrun
    have hmem : ∀ c ∈ [p', b], c.place ∈ (runOf (.inr g)).map Cell.place := by
      intro c hc
      refine List.mem_map_of_mem ?_
      have hgoal : c ∈ g.2 := by
        rw [hrun.run_eq]
        simp only [List.mem_cons, List.not_mem_nil, or_false] at hc
        rcases hc with rfl | rfl <;> simp
      exact hgoal
    rcases pairwise_or (pieces_sorted text).2 hp hq with rfl | hbefore | hbehind
    · exact ⟨g, rfl, hfirst, hlast⟩
    · rw [haddress] at hfirst
      exact absurd (hbefore x hx _ (hmem p' (by simp))) (Nat.lt_asymm hfirst)
    · rw [haddress] at hlast
      exact absurd (hbehind _ (hmem b (by simp)) x hx) (Nat.lt_asymm hlast)
  · rintro ⟨g, rfl, hfirst, hlast⟩
    exact ⟨addressOf (readLink g), mem_addresses.mpr ⟨g, hp, rfl⟩, hfirst, hlast⟩

/-- A visible cell at or outside the parentheses of its link. -/
theorem flag_of_outside {hidden : Bool} {place first last : Nat} (hhidden : hidden = false)
    (hin : InAddress text place ↔ first < place ∧ place < last) (hout : place ≤ first ∨ last ≤ place) :
    hidden = true ↔ InAddress text place := by
  subst hhidden
  rw [hin]
  exact iff_of_false Bool.false_ne_true (by omega)

/-- Behind the links the hidden cells are those in an address. -/
theorem placedLinks_flag (text : List Char) : ∀ c ∈ placedLinks text, c.glyph ≠ .addressEnd →
    (c.hidden = true ↔ InAddress text c.place) := by
  intro c hc hglyph
  obtain ⟨q, hq, hcq⟩ := List.mem_flatMap.mp hc
  have hvisible : ∀ d ∈ runOf q, d.hidden = false := fun d hd => (visible_beforeLinks (mem_of_piece hq hd)).1
  have hiff : ∀ d ∈ runOf q, (InAddress text d.place ↔
      ∃ g, q = .inr g ∧ (addressOf (readLink g)).first < d.place ∧
        d.place < (addressOf (readLink g)).last) :=
    fun d hd => inAddress_iff hq (List.mem_map_of_mem hd)
  cases q with
  | inl d =>
    obtain rfl : c = d := List.mem_singleton.mp hcq
    have hmem : c ∈ runOf (.inl c : Cell ⊕ ((List Cell × List Cell) × List Cell)) := List.mem_singleton_self c
    rw [hvisible c hmem, hiff c hmem]
    simp
  | inr g =>
    obtain ⟨a, r, p, b, hrun⟩ := linkRun_of_piece hq
    have hout := hrun.placeLink_eq
    have haddressOf := addressOf_readLink hrun
    have hsorted : (g.2.map Cell.place).Pairwise (· < ·) := (pieces_sorted text).1 _ hq
    have hrunOf : runOf (.inr g) = g.2 := rfl
    rw [hrunOf, hrun.run_eq] at hvisible hiff
    rw [hrun.run_eq] at hsorted
    simp only [Sum.inr.injEq, exists_eq_left', haddressOf] at hiff
    simp only [List.map_cons, List.map_append, List.pairwise_cons, List.pairwise_append, List.mem_cons,
      List.mem_append, List.mem_map, List.map_nil, List.not_mem_nil, or_false] at hsorted
    obtain ⟨hbeforeAll, -, ⟨-, hparenthesis, -, -, haddress⟩, hlabel⟩ := hsorted
    rw [Sum.elim_inr, hout, List.mem_cons, List.mem_append, List.mem_append, List.mem_map, List.mem_cons,
      List.mem_singleton] at hcq
    rcases hcq with rfl | (⟨d, hd, rfl⟩ | rfl | hd) | rfl
    · have hless : a.place < p.place := hbeforeAll _ (by simp)
      exact flag_of_outside (hvisible a (by simp)) (hiff a (by simp)) (Or.inl (Nat.le_of_lt hless))
    · have hplace := hiff d (by simp [hd])
      change true = true ↔ InAddress text d.place
      rw [hplace]
      have hbehind : p.place < d.place := hparenthesis _ (Or.inl ⟨d, hd, rfl⟩)
      have hbefore : d.place < b.place := haddress _ ⟨d, hd, rfl⟩ _ rfl
      exact iff_of_true rfl ⟨hbehind, hbefore⟩
    · exact absurd rfl hglyph
    · have hless : c.place < p.place := hlabel _ ⟨c, hd, rfl⟩ _ (by simp)
      exact flag_of_outside (hvisible c (by simp [hd])) (hiff c (by simp [hd])) (Or.inl (Nat.le_of_lt hless))
    · exact flag_of_outside (hvisible b (by simp)) (hiff b (by simp)) (Or.inr (Nat.le_refl _))

theorem laid_links (text : List Char) :
    Laid (InAddress text) [.link, .code, .italic, .bold] (placedLinks text) := by
  have h := laid_beforeLinks text
  rw [← placedPieces_runs] at h
  exact Laid.replace (Sum.elim (fun c => [c]) placeLink) h (by decide) (fun _ => False.elim)
    (placedLinks_flag text) (passes_of_replaced fun _ hg => replaced_placeLink hg)

theorem laid_line (text : List Char) :
    Laid (InAddress text) [.strike, .link, .code, .italic, .bold] (placedLine text) :=
  (laid_links text).spanPass (by decide) (frames_doubled '~')

theorem mem_ends_spanPass {x : Char} {find : Finder Cell (List Cell)} {kind : Kind} {l : List Cell}
    (h : Frames x find) (s : Span Kind) :
    (s, false) ∈ ends (spanPass find kind l) ↔
      (s, false) ∈ ends l ∨ ∃ g, .inr g ∈ pieces (covered find) 0 none l ∧ cellSpan kind g.2 = s := by
  rw [spanPass_eq, mem_ends_pass (fun g hg => replaced_placeSpan kind (h.framed hg)) (fun g => ⟨_, _, rfl⟩),
    h.runs]

/-- A pass adds the spans of its pattern, as they are found among the characters. -/
theorem mem_ends_letters (kind : Kind) {x : Char} {find : Finder Cell (List Cell)}
    {find' : Finder Placed (List Placed)} {seen : List Kind} {markers : List Char} {l : List Cell} {m : List Placed}
    {capture : List Cell → List Placed} (h : Frames x find)
    (hr : Renders markers Cell.char Prod.fst (Cell.letters seen))
    (hsim : Rewrite.Simulates (Cell.letters seen) (fun b => Unasked markers b.1) find find' capture)
    (hletters : l.flatMap (Cell.letters seen) = m) (s : Span Kind) :
    (s, false) ∈ ends (spanPass find kind l) ↔ (s, false) ∈ ends l ∨ s ∈ spansOf find' kind m := by
  rw [← hletters, mem_ends_spanPass h, mem_spansOf hr hsim fun g hg => (h.framed hg).bounded]

/-- The spans whose marks stand in the line that is sent are those of the line. -/
theorem mem_lineSpans {s : Span Kind} : s ∈ lineSpans text ↔ (s, false) ∈ ends (placedLine text) := by
  have hbare : Renders ['*'] Cell.char Prod.fst (Cell.letters []) := renders_letters (by simp)
  have hcode : Renders ['`'] Cell.char Prod.fst (Cell.letters [.bold, .italic]) := renders_letters (by decide)
  have hlink : Renders ['[', ']', '(', ')'] Cell.char Prod.fst (Cell.letters [.bold, .italic, .code]) :=
    renders_letters (by decide)
  have hstrike : Renders ['~'] Cell.char Prod.fst (Cell.letters [.bold, .italic, .code, .link]) :=
    renders_letters (by decide)
  have hnone : (s, false) ∉ ends (cells text) := by
    intro hs
    have hknown := (laid_cells text).known _ hs
    cases hknown
  have hbolds := mem_ends_letters .bold (frames_doubled '*') hbare (simulates_doubled hbare (by simp))
    (letters_cells [] text) s
  have hitalics := mem_ends_letters .italic single_italic.frames hbare
    (simulates_italic hbare (by simp)) (letters_behindBold text) s
  have hcodes := mem_ends_letters .code single_code.frames hcode (simulates_code hcode (by simp))
    (letters_italic (List.Subset.refl _) text) s
  have hlinks : (s, false) ∈ ends (placedLinks text) ↔ (s, false) ∈ ends (placedBeforeLinks text) ∨
      s ∈ spansOf (linkSpan Prod.fst) .link (placed text) := by
    have hbounded : ∀ g, .inr g ∈ placedPieces text → Bounded g.2 := by
      intro g hg
      obtain ⟨a, r, p, b, hrun⟩ := linkRun_of_piece hg
      exact hrun.bounded
    rw [← letters_code (List.Subset.refl _) text,
      mem_spansOf hlink (simulates_link hlink (List.Subset.refl _)) hbounded, placedLinks,
      mem_ends_pass (fun g hg => replaced_placeLink hg) fun g => ⟨_, _, rfl⟩, placedPieces_runs]
    rfl
  have hstrikes := mem_ends_letters .strike (frames_doubled '~') hstrike
    (simulates_doubled hstrike (by simp)) (letters_links text) s
  have hline : (s, false) ∈ ends (placedLine text) ↔ ((((s, false) ∈ ends (cells text) ∨
      s ∈ spansOf (boldSpan Prod.fst) .bold (placed text)) ∨
        s ∈ spansOf (italicSpan Prod.fst) .italic (behindBold text)) ∨
          s ∈ spansOf (codeSpan Prod.fst) .code (placed text)) ∨
            s ∈ spansOf (linkSpan Prod.fst) .link (placed text) ∨
              s ∈ spansOf (strikeSpan Prod.fst) .strike (addressFirst text) := by
    rw [← or_assoc]
    exact hstrikes.trans (or_congr_left (hlinks.trans (or_congr_left (hcodes.trans (or_congr_left
      (hitalics.trans (or_congr_left hbolds)))))))
  rw [hline, lineSpans]
  simp only [List.mem_append, hnone, false_or, or_assoc]

theorem endsAt_of_line {s : Span Kind} (h : (s, false) ∈ ends (placedLine text)) :
    EndsAt text s.first ∧ EndsAt text s.last :=
  ⟨⟨s, mem_lineSpans.mpr h, Or.inl rfl⟩, ⟨s, mem_lineSpans.mpr h, Or.inr rfl⟩⟩

theorem endsAt_beforeLinks {c : Cell} (hc : c ∈ placedBeforeLinks text) {e : Span Kind × Bool}
    (he : c.end? = some e) : EndsAt text c.place := by
  have hlaid := laid_beforeLinks text
  have hmem : e ∈ ends (placedBeforeLinks text) := mem_ends.mpr ⟨c, hc, he⟩
  obtain ⟨s, closing⟩ := e
  have hopens : (s, false) ∈ ends (placedBeforeLinks text) := by
    cases closing with
    | false => exact hmem
    | true => exact (hlaid.paired s).mpr hmem
  have hlinks : (s, false) ∈ ends (placedLinks text) := by
    rw [placedLinks, mem_ends_pass (fun g hg => replaced_placeLink hg) fun g => ⟨_, _, rfl⟩, placedPieces_runs]
    exact Or.inl hopens
  have hline : (s, false) ∈ ends (placedLine text) :=
    (mem_ends_spanPass (frames_doubled '~') s).mpr (Or.inl hlinks)
  rw [hlaid.placed c hc _ he]
  cases closing with
  | false => exact (endsAt_of_line hline).1
  | true => exact (endsAt_of_line hline).2

theorem endsAt_strike {g : List Cell × List Cell}
    (hg : .inr g ∈ pieces (covered (strikeSpan Cell.char)) 0 none (placedLinks text)) :
    EndsAt text (cellSpan .strike g.2).first ∧ EndsAt text (cellSpan .strike g.2).last :=
  endsAt_of_line ((mem_ends_spanPass (frames_doubled '~') _).mpr (Or.inr ⟨g, hg, rfl⟩))

end Links

/-! ## Reading the cells -/

section Reading

variable {text : List Char} {state state' : Attributes}

/-- How a cell is read: `none` is outside of a tag, a state is in the address of a link. -/
def Cell.flow (text : List Char) : Option Attributes → Cell → Option (Option Attributes)
  | none, c =>
    if c.hidden then none
    else match c.glyph with
      | .opens span => if span.kind = .link then some (some (.quoted true)) else some none
      | .addressEnd => none
      | _ => some none
  | some state, c =>
    if c.hidden then
      match c.glyph with
      | .text ch => (takes text state (some ch, c.place)).map some
      | .addressEnd => if (state.step '"').inValue then none else some none
      | .opens span => if state.inValue ∧ span.kind ≠ .link then some (some state) else none
      | .closes _ => if state.inValue then some (some state) else none
    else none

/-- The ends of spans that the tags of a line are read from. -/
def visibleEnds (l : List Cell) : List (Span Kind × Bool) := ends (l.filter fun c => !c.hidden)

/-- The reader at a cell. -/
def readerAt (before : List (String × Bool)) : Option Attributes → Markup.Reader
  | none => ⟨.text, before⟩
  | some state => ⟨.attributes false ['a'] state, before⟩

/-- The tag of a link counts when its address ends. -/
def pendingTag : Option Attributes → List (String × Bool)
  | none => []
  | some _ => [("a", false)]

theorem escapeChar_ne (ch : Char) : ∀ c ∈ escapeChar ch, c ≠ '<' ∧ c ≠ '>' := by
  unfold escapeChar
  split_ifs with hand hless hmore
  · decide
  · decide
  · decide
  · simp [hless, hmore]

/-- A character reads like its entity. -/
theorem foldl_escapeChar (state : Attributes) (ch : Char) :
    (escapeChar ch).foldl Attributes.step state = state.step ch := by
  unfold escapeChar
  split_ifs with hand hless hmore
  · subst hand
    cases state with
    | quoted double => cases double <;> decide
    | _ => decide
  · subst hless
    cases state with
    | quoted double => cases double <;> decide
    | _ => decide
  · subst hmore
    cases state with
    | quoted double => cases double <;> decide
    | _ => decide
  · rfl

theorem reads_tag (span : Span Kind) :
    Markup.Reads (telegramTag (.closes span.kind)).toList [(telegramName span.kind, true)] ∧
      (span.kind ≠ .link →
        Markup.Reads (telegramTag (.opens span.kind)).toList [(telegramName span.kind, false)]) := by
  have hname : ∀ kind, Markup.IsName (telegramName kind).toList ∧
      (telegramTag (.closes kind)).toList = '<' :: '/' :: ((telegramName kind).toList ++ ['>']) ∧
      (kind ≠ .link → (telegramTag (.opens kind)).toList = '<' :: ((telegramName kind).toList ++ ['>'])) := by
    intro kind
    cases kind <;> decide
  obtain ⟨hletters, hcloses, hopens⟩ := hname span.kind
  constructor
  · rw [hcloses]
    simpa using Markup.reads_close hletters
  · intro hlink
    rw [hopens hlink]
    simpa using Markup.reads_open hletters

theorem telegramTag_unquoted (m : Mark) (h : m ≠ .opens .link) (h' : m ≠ .addressEnd) :
    ∀ c ∈ (telegramTag m).toList, c ≠ '"' ∧ c ≠ '\'' := by
  cases m with
  | opens kind => cases kind <;> first | exact absurd rfl h | decide
  | closes kind => cases kind <;> decide
  | addressEnd => exact absurd rfl h'

theorem visibleEnds_cons (c : Cell) (l : List Cell) : visibleEnds (c :: l) = visibleEnds [c] ++ visibleEnds l := by
  unfold visibleEnds
  rw [← ends_append, ← List.filter_append]
  rfl

/-- Outside of a tag a visible cell is read as its tag, but the tag of a link is still to end. -/
theorem read_visible {c : Cell} {next : Option Attributes} (h : Cell.flow text none c = some next)
    (before : List (String × Bool)) :
    ∃ between, (readerAt before none).run c.render = readerAt between next ∧
      between ++ pendingTag next = before ++ (visibleEnds [c]).map (named telegramName) := by
  obtain ⟨place, hidden, glyph⟩ := c
  obtain rfl : hidden = false := by
    cases hidden with
    | false => rfl
    | true => cases h
  have htag : ∀ tags, Markup.Reads (Cell.render ⟨place, false, glyph⟩) tags → next = none →
      tags = (visibleEnds [⟨place, false, glyph⟩]).map (named telegramName) →
        ∃ between, (readerAt before none).run (Cell.render ⟨place, false, glyph⟩) = readerAt between next ∧
          between ++ pendingTag next =
            before ++ (visibleEnds [⟨place, false, glyph⟩]).map (named telegramName) := by
    rintro tags hreads rfl rfl
    exact ⟨_, hreads before, List.append_nil _⟩
  cases glyph with
  | text ch =>
    exact htag [] (Markup.reads_text fun c hc => (escapeChar_ne ch c hc).1) (Option.some.inj h).symm rfl
  | opens span =>
    by_cases hlink : span.kind = .link
    · obtain rfl : some (.quoted true) = next := by simpa [Cell.flow, hlink] using h
      have hname : Markup.IsName ['a'] := by decide
      have hplain : ∀ c ∈ "href=\"".toList, c ≠ '>' := by decide
      have hrender : Cell.render ⟨place, false, .opens span⟩ =
          '<' :: (['a'] ++ ' ' :: "href=\"".toList) := by
        unfold Cell.render
        dsimp only
        rw [hlink]
        decide
      refine ⟨before, ?_, ?_⟩
      · rw [hrender, readerAt, Markup.run_opened hname before hplain]
        rfl
      · simp [pendingTag, visibleEnds, ends, Cell.end?, named, hlink, telegramName]
    · obtain rfl : none = next := by simpa [Cell.flow, hlink] using h
      exact htag _ ((reads_tag span).2 hlink) rfl rfl
  | closes span => exact htag _ (reads_tag span).1 (Option.some.inj h).symm rfl
  | addressEnd => cases h

/-- In the address of a link a hidden cell is part of a value, or the address ends. -/
theorem read_hidden {c : Cell} {next : Option Attributes} (h : Cell.flow text (some state) c = some next)
    (before : List (String × Bool)) :
    visibleEnds [c] = [] ∧ ∃ between, (readerAt before (some state)).run c.render = readerAt between next ∧
      between ++ pendingTag next = before ++ pendingTag (some state) := by
  obtain ⟨place, hidden, glyph⟩ := c
  obtain rfl : hidden = true := by
    cases hidden with
    | false => cases h
    | true => rfl
  refine ⟨rfl, ?_⟩
  cases glyph with
  | text ch =>
    obtain ⟨state', htakes, rfl⟩ := Option.map_eq_some_iff.mp h
    have hrun := Markup.run_attributes false ['a'] state before fun c hc => (escapeChar_ne ch c hc).2
    rw [foldl_escapeChar] at hrun
    unfold takes at htakes
    split_ifs at htakes
    obtain rfl : state.step ch = state' := Option.some.inj htakes
    exact ⟨before, hrun, rfl⟩
  | opens span =>
    dsimp only [Cell.flow] at h
    split_ifs at h with _ hvalue
    obtain rfl := Option.some.inj h
    have hunquoted := telegramTag_unquoted (.opens span.kind) (fun heq => hvalue.2 (by injection heq)) (by simp)
    exact ⟨before, Markup.run_quoted false ['a'] hvalue.1 before hunquoted, rfl⟩
  | closes span =>
    dsimp only [Cell.flow] at h
    split_ifs at h with _ hvalue
    obtain rfl := Option.some.inj h
    have hunquoted := telegramTag_unquoted (.closes span.kind) (by simp) (by simp)
    exact ⟨before, Markup.run_quoted false ['a'] hvalue before hunquoted, rfl⟩
  | addressEnd =>
    dsimp only [Cell.flow] at h
    split_ifs at h with _ hvalue
    obtain rfl := Option.some.inj h
    have hclosed := Markup.run_closed ['a'] (by simpa using hvalue) before
    have hquote := @Markup.run_attributes ['"'] false ['a'] state before (by decide)
    have hrender : Cell.render ⟨place, true, .addressEnd⟩ = ['"'] ++ ['>'] := rfl
    refine ⟨before ++ [("a", false)], ?_, List.append_nil _⟩
    rw [hrender, Markup.Reader.run_append]
    change (Markup.Reader.run ⟨.attributes false ['a'] state, before⟩ ['"']).run ['>'] = _
    rw [hquote]
    exact hclosed

/-- Cells that flow to the outside are read as the tags of their visible ends. -/
theorem read_cells {l : List Cell} {mode : Option Attributes} (h : l.foldlM (Cell.flow text) mode = some none)
    (before : List (String × Bool)) :
    (readerAt before mode).run (l.flatMap Cell.render) =
      ⟨.text, before ++ pendingTag mode ++ (visibleEnds l).map (named telegramName)⟩ := by
  induction l generalizing mode before with
  | nil =>
    obtain rfl : mode = none := Option.some.inj h
    simp [readerAt, pendingTag, visibleEnds, ends, Markup.Reader.run]
  | cons c l ih =>
    rw [List.foldlM_cons] at h
    obtain ⟨next, hnext, hrest⟩ := Option.bind_eq_some_iff.mp h
    have hcell : ∃ between, (readerAt before mode).run c.render = readerAt between next ∧
        between ++ pendingTag next =
          before ++ pendingTag mode ++ (visibleEnds [c]).map (named telegramName) := by
      cases mode with
      | none =>
        rw [pendingTag, List.append_nil]
        exact read_visible hnext before
      | some state =>
        obtain ⟨hends, hread⟩ := read_hidden hnext before
        rw [hends, List.map_nil, List.append_nil]
        exact hread
    obtain ⟨between, hread, hpending⟩ := hcell
    rw [List.flatMap_cons, Markup.Reader.run_append, hread, ih hrest, hpending, visibleEnds_cons c l,
      List.map_append, ← List.append_assoc]

end Reading

/-! ## The addresses of a line -/

section Flow

variable {text : List Char} {state state' : Attributes} {mode mode' : Option Attributes}

theorem foldlM_fixed {α β : Type} {f : β → α → Option β} {b : β} {l : List α}
    (h : ∀ a ∈ l, f b a = some b) : l.foldlM f b = some b := by
  induction l with
  | nil => rfl
  | cons a l ih =>
    rw [List.foldlM_cons, h a (by simp)]
    exact ih fun c hc => h c (by simp [hc])

theorem foldlM_append_eq {α β : Type} {f : β → α → Option β} {b c : β} {l m : List α} :
    (l ++ m).foldlM f b = some c ↔ ∃ d, l.foldlM f b = some d ∧ m.foldlM f d = some c := by
  rw [List.foldlM_append]
  exact Option.bind_eq_some_iff

/-- What a replacement keeps of the reading of each part, it keeps of the whole. -/
theorem foldlM_flatMap_mono {α β ι : Type} {f : β → α → Option β} {ps : List ι} {g g' : ι → List α}
    (h : ∀ p ∈ ps, ∀ b c, (g p).foldlM f b = some c → (g' p).foldlM f b = some c) {b c : β}
    (hfold : (ps.flatMap g).foldlM f b = some c) : (ps.flatMap g').foldlM f b = some c := by
  induction ps generalizing b with
  | nil => exact hfold
  | cons p ps ih =>
    rw [List.flatMap_cons] at hfold ⊢
    obtain ⟨d, hd, hrest⟩ := foldlM_append_eq.mp hfold
    exact foldlM_append_eq.mpr ⟨d, h p (by simp) b d hd, ih (fun q hq => h q (by simp [hq])) hrest⟩

/-- A marker in quotes changes nothing, and out of quotes no marker leads into quotes. -/
theorem step_marker {c : Char} (hc : c ∈ ['*', '`', '~']) :
    (state.inValue = true → state.step c = state) ∧
      ((state.step c).inValue = true → state.inValue = true) := by
  have hplain : Markup.isBlank c = false ∧ c ≠ '/' ∧ c ≠ '=' ∧ c ≠ '"' ∧ c ≠ '\'' := by
    simp only [List.mem_cons, List.not_mem_nil, or_false] at hc
    rcases hc with rfl | rfl | rfl <;> decide
  obtain ⟨hblank, hslash, hequals, hdouble, hsingle⟩ := hplain
  cases state with
  | quoted double =>
    have hne : c ≠ Markup.quoteOf double := by
      cases double
      · exact hsingle
      · exact hdouble
    simp [Attributes.inValue, Attributes.step, hne]
  | _ => simp [Attributes.inValue, Attributes.step, hblank, hslash, hequals, hdouble, hsingle]

theorem takes_end {c : Placed} (hends : EndsAt text c.2) (h : takes text state c = some state') :
    state.inValue = true ∧ c.1.map state.step = some state' := by
  unfold takes at h
  split_ifs at h with hout
  refine ⟨?_, h⟩
  simpa using fun hfalse => hout ⟨hends, hfalse⟩

theorem step_of_takes {ch : Char} {p : Nat} (h : takes text state (some ch, p) = some state') :
    state.step ch = state' := by
  unfold takes at h
  split_ifs at h
  exact Option.some.inj h

/-- The markers in the place of a mark are read in quotes, and leave them as they are. -/
theorem takes_markers {kind : Kind} {closing : Bool} {p : Nat} (hkind : kind ∈ [.code, .italic, .bold])
    (hends : EndsAt text p) (h : (markerAt kind closing p).foldlM (takes text) state = some state') :
    state.inValue = true ∧ state' = state := by
  have hone : ∀ {c : Char} {st st' : Attributes}, c ∈ ['*', '`', '~'] →
      takes text st (some c, p) = some st' → st.inValue = true ∧ st' = st := by
    intro c st st' hc htakes
    obtain ⟨hvalue, hstep⟩ := takes_end hends htakes
    exact ⟨hvalue, (Option.some.inj hstep).symm.trans ((step_marker hc).1 hvalue)⟩
  simp only [List.mem_cons, List.not_mem_nil, or_false] at hkind
  rcases hkind with rfl | rfl | rfl
  · exact hone (c := '`') (by decide) (by simpa [markerAt] using h)
  · exact hone (c := '*') (by decide) (by simpa [markerAt] using h)
  · have hstar : '*' ∈ ['*', '`', '~'] := by decide
    cases closing with
    | false =>
      change ([(some '*', p)] ++ [(some '*', p + 1)]).foldlM (takes text) state = some state' at h
      obtain ⟨next, hfirst, hsecond⟩ := foldlM_append_eq.mp h
      obtain ⟨hvalue, rfl⟩ := hone hstar (by simpa using hfirst)
      have hstep := step_of_takes (by simpa using hsecond)
      exact ⟨hvalue, hstep.symm.trans ((step_marker hstar).1 hvalue)⟩
    | true =>
      change ([(some '*', p - 1)] ++ [(some '*', p)]).foldlM (takes text) state = some state' at h
      obtain ⟨next, hfirst, hsecond⟩ := foldlM_append_eq.mp h
      obtain ⟨hvalue, rfl⟩ := hone hstar (by simpa using hsecond)
      have hstep := step_of_takes (by simpa using hfirst)
      rw [← hstep] at hvalue ⊢
      have hbefore := (step_marker hstar).2 hvalue
      exact ⟨hbefore, (step_marker hstar).1 hbefore⟩

/-- A cell of an address is read like its characters. -/
theorem flow_letters {c : Cell} (hc : c ∈ placedBeforeLinks text)
    (h : (c.letters [.bold, .italic, .code]).foldlM (takes text) state = some state') :
    Cell.flow text (some state) c.hide = some (some state') := by
  have hglyph := (visible_beforeLinks hc).2
  have hends : ∀ e, c.end? = some e → EndsAt text c.place := fun e he => endsAt_beforeLinks hc he
  have hknown : ∀ e, c.end? = some e → e.1.kind ∈ [.code, .italic, .bold] :=
    fun e he => (laid_beforeLinks text).known e (mem_ends.mpr ⟨c, hc, he⟩)
  have hseen : ∀ kind : Kind, kind ∈ [.code, .italic, .bold] →
      kind ∈ [.bold, .italic, .code] ∧ kind ≠ .link := by
    decide
  obtain ⟨place, hidden, glyph⟩ := c
  cases glyph with
  | text ch =>
    have htakes : takes text state (some ch, place) = some state' := by simpa [Cell.letters] using h
    simp [Cell.flow, Cell.hide, htakes]
  | opens span =>
    have hkind := hknown (span, false) rfl
    simp only [Cell.letters, if_pos (hseen _ hkind).1] at h
    obtain ⟨hvalue, rfl⟩ := takes_markers hkind (hends (span, false) rfl) h
    simp [Cell.flow, Cell.hide, hvalue, (hseen _ hkind).2]
  | closes span =>
    have hkind := hknown (span, true) rfl
    simp only [Cell.letters, if_pos (hseen _ hkind).1] at h
    obtain ⟨hvalue, rfl⟩ := takes_markers hkind (hends (span, true) rfl) h
    simp [Cell.flow, Cell.hide, hvalue]
  | addressEnd => exact absurd rfl hglyph

theorem flow_address {l : List Cell} (hl : ∀ c ∈ l, c ∈ placedBeforeLinks text)
    (h : (l.flatMap (Cell.letters [.bold, .italic, .code])).foldlM (takes text) state = some state') :
    (l.map Cell.hide).foldlM (Cell.flow text) (some state) = some (some state') := by
  induction l generalizing state with
  | nil => exact congrArg some h
  | cons c l ih =>
    rw [List.flatMap_cons] at h
    obtain ⟨next, hcell, hrest⟩ := foldlM_append_eq.mp h
    rw [List.map_cons, List.foldlM_cons, flow_letters (hl c (by simp)) hcell]
    exact ih (fun d hd => hl d (by simp [hd])) hrest

theorem flow_visible {c : Cell} (hc : c ∈ placedBeforeLinks text) : Cell.flow text none c = some none := by
  obtain ⟨hhidden, hglyph⟩ := visible_beforeLinks hc
  have hknown : ∀ e, c.end? = some e → e.1.kind ∈ [.code, .italic, .bold] :=
    fun e he => (laid_beforeLinks text).known e (mem_ends.mpr ⟨c, hc, he⟩)
  obtain ⟨place, hidden, glyph⟩ := c
  obtain rfl : hidden = false := hhidden
  cases glyph with
  | text ch => rfl
  | opens span =>
    have hlink : span.kind ≠ .link := fun heq => absurd (heq ▸ hknown (span, false) rfl) (by decide)
    simp [Cell.flow, hlink]
  | closes span => rfl
  | addressEnd => exact absurd rfl hglyph

theorem flow_link {g : (List Cell × List Cell) × List Cell} (hg : .inr g ∈ placedPieces text)
    (hcontained : Contained text (addressOf (readLink g)).text) :
    (placeLink g).foldlM (Cell.flow text) none = some none := by
  obtain ⟨a, r, p, b, hrun⟩ := linkRun_of_piece hg
  have hmem : ∀ c ∈ g.2, c ∈ placedBeforeLinks text := fun c hc => mem_of_piece hg hc
  have hvisible : ∀ c ∈ g.2, c.hidden = false := fun c hc => (visible_beforeLinks (hmem c hc)).1
  rw [hrun.run_eq] at hmem hvisible
  rw [addressOf_readLink hrun] at hcontained
  obtain ⟨state, hstate, hend⟩ : ∃ state, (readLink g).1.2.foldlM (takes text) (.quoted true) = some state ∧
      (state.step '"').inValue = false := by
    unfold Contained at hcontained
    dsimp only at hcontained
    cases hfold : (readLink g).1.2.foldlM (takes text) (.quoted true) with
    | none =>
      rw [hfold] at hcontained
      cases hcontained
    | some state =>
      rw [hfold] at hcontained
      exact ⟨state, rfl, by simpa using hcontained⟩
  have hopen : Cell.flow text none (a.put (.opens ⟨.link, a.place, b.place⟩)) = some (some (.quoted true)) := by
    have := hvisible a (by simp)
    simp [Cell.flow, Cell.put, this]
  have haddress : (g.1.2.map Cell.hide).foldlM (Cell.flow text) (some (.quoted true)) = some (some state) :=
    flow_address (fun c hc => hmem c (by simp [hc])) hstate
  have hclose : Cell.flow text (some state) (b.put .addressEnd).hide = some none := by
    simp [Cell.flow, Cell.put, Cell.hide, hend]
  have hlabel : g.1.1.foldlM (Cell.flow text) none = some none :=
    foldlM_fixed fun c hc => flow_visible (hmem c (by simp [hc]))
  have hcloses : Cell.flow text none (b.put (.closes ⟨.link, a.place, b.place⟩)) = some none := by
    have := hvisible b (by simp)
    simp [Cell.flow, Cell.put, this]
  rw [hrun.placeLink_eq, List.foldlM_cons, hopen]
  refine foldlM_append_eq.mpr ⟨none, foldlM_append_eq.mpr ⟨some state, haddress, ?_⟩, ?_⟩
  · rw [List.foldlM_cons, hclose]
    exact hlabel
  · rw [List.foldlM_cons, hcloses]
    rfl

theorem flow_tilde {d : Cell} (h : d.glyph = .text '~') (hflow : Cell.flow text mode d = some mode') :
    (mode = none ∧ mode' = none) ∨ ∃ state, mode = some state ∧ mode' = some (state.step '~') := by
  obtain ⟨place, hidden, glyph⟩ := d
  obtain rfl : glyph = .text '~' := h
  cases mode with
  | none =>
    cases hidden with
    | true => cases hflow
    | false => exact Or.inl ⟨rfl, (Option.some.inj hflow).symm⟩
  | some state =>
    cases hidden with
    | false => cases hflow
    | true =>
      obtain ⟨state', htakes, rfl⟩ := Option.map_eq_some_iff.mp hflow
      exact Or.inr ⟨state, rfl, congrArg some (step_of_takes htakes).symm⟩

/-- A mark takes the place of a marker without a change to the reading. -/
theorem flow_marker {d : Cell} (h : d.glyph = .text '~') (hends : EndsAt text d.place)
    (hflow : Cell.flow text mode d = some mode') (i j : Nat) :
    mode' = mode ∧ (∀ state, mode = some state → state.inValue = true) ∧
      Cell.flow text mode (d.put (.opens ⟨.strike, i, j⟩)) = some mode ∧
        Cell.flow text mode (d.put (.closes ⟨.strike, i, j⟩)) = some mode := by
  obtain ⟨place, hidden, glyph⟩ := d
  obtain rfl : glyph = .text '~' := h
  cases mode with
  | none =>
    cases hidden with
    | true => cases hflow
    | false => exact ⟨(Option.some.inj hflow).symm, by simp, rfl, rfl⟩
  | some state =>
    cases hidden with
    | false => cases hflow
    | true =>
      obtain ⟨state', htakes, rfl⟩ := Option.map_eq_some_iff.mp hflow
      obtain ⟨hvalue, hstep⟩ := takes_end hends htakes
      have htilde : '~' ∈ ['*', '`', '~'] := by decide
      obtain rfl : state = state' := ((step_marker htilde).1 hvalue).symm.trans (Option.some.inj hstep)
      refine ⟨rfl, by simp [hvalue], ?_, ?_⟩ <;> simp [Cell.flow, Cell.put, hvalue]

theorem flow_span {g : List Cell × List Cell}
    (hg : .inr g ∈ pieces (covered (strikeSpan Cell.char)) 0 none (placedLinks text))
    (hflow : g.2.foldlM (Cell.flow text) mode = some mode') :
    (placeSpan .strike g).foldlM (Cell.flow text) mode = some mode' := by
  obtain ⟨prev, back, n, hfound, hrunOf⟩ := Rewrite.found_covered hg
  obtain ⟨-, a, o, c, b, hrun, htext⟩ := doubled_run hfound
  have hframe : g.2 = a :: ([o] ++ (g.1 ++ ([c] ++ [b]))) := hrunOf.trans hrun
  have hout := placeSpan_frame .strike hframe
  obtain ⟨hfirst, hlast⟩ := endsAt_strike hg
  have hspan : cellSpan .strike g.2 = ⟨.strike, a.place, b.place⟩ := by
    have hsplit : g.2 = (a :: ([o] ++ (g.1 ++ [c]))) ++ [b] := by
      rw [hframe]
      simp
    rw [cellSpan, hsplit, getLastD_append]
    rfl
  rw [hspan] at hfirst hlast
  rw [hframe, List.foldlM_cons] at hflow
  obtain ⟨first, ha, hflow⟩ := Option.bind_eq_some_iff.mp hflow
  obtain ⟨second, ho, hflow⟩ := foldlM_append_eq.mp hflow
  obtain ⟨third, hinner, hflow⟩ := foldlM_append_eq.mp hflow
  obtain ⟨fourth, hc, hb⟩ := foldlM_append_eq.mp hflow
  obtain ⟨rfl, hquoted, hopen, -⟩ := flow_marker (htext a (by simp)) hfirst ha a.place b.place
  obtain ⟨rfl, hquoted', -, hclose⟩ := flow_marker (htext b (by simp)) hlast (by simpa using hb) a.place b.place
  have hsecond : second = first := by
    rcases flow_tilde (htext o (by simp)) (by simpa using ho) with ⟨rfl, rfl⟩ | ⟨state, rfl, rfl⟩
    · rfl
    · rw [(step_marker (by decide)).1 (hquoted state rfl)]
  have hthird : third = mode' := by
    rcases flow_tilde (htext c (by simp)) (by simpa using hc) with ⟨rfl, rfl⟩ | ⟨state, rfl, rfl⟩
    · rfl
    · rw [(step_marker (by decide)).1 ((step_marker (by decide)).2 (hquoted' _ rfl))]
  subst hsecond hthird
  rw [hout, List.foldlM_cons, hopen]
  refine foldlM_append_eq.mpr ⟨_, hinner, ?_⟩
  rw [List.foldlM_cons, hclose]
  rfl

/-- With contained addresses every address is read up to its end. -/
theorem flow_line (hcontained : ∀ a ∈ addresses text, Contained text a.text) :
    (placedLine text).foldlM (Cell.flow text) none = some none := by
  have hlinks : (placedLinks text).foldlM (Cell.flow text) none = some none := by
    have hpiece : ∀ p ∈ placedPieces text,
        (Sum.elim (fun c => [c]) placeLink p).foldlM (Cell.flow text) none = some none := by
      rintro (c | g) hp
      · have hflow := flow_visible (mem_of_piece hp (List.mem_singleton_self c))
        simp [hflow]
      · exact flow_link hp (hcontained _ (mem_addresses.mpr ⟨g, hp, rfl⟩))
    unfold placedLinks
    generalize placedPieces text = ps at hpiece
    induction ps with
    | nil => rfl
    | cons p ps ih =>
      exact foldlM_append_eq.mpr ⟨none, hpiece p (by simp), ih fun q hq => hpiece q (by simp [hq])⟩
  have hf := frames_doubled '~'
  have hruns := hf.runs (placedLinks text)
  rw [← hruns] at hlinks
  rw [placedLine, spanPass_eq]
  refine foldlM_flatMap_mono ?_ hlinks
  rintro (c | g) hp mode mode' hflow
  · exact hflow
  · exact flow_span hp hflow

end Flow

/-! ## The tags of a reply -/

section Reply

variable {text : List Char}

theorem telegramName_injective : Function.Injective telegramName := by
  intro j k h
  cases j <;> cases k <;> first | rfl | exact absurd h (by decide)

theorem mem_visibleEnds {e : Span Kind × Bool} :
    e ∈ visibleEnds (placedLine text) ↔ e ∈ ends (placedLine text) ∧ ¬ InAddress text (place e) := by
  have hlaid := laid_line text
  unfold visibleEnds
  rw [mem_ends, mem_ends]
  constructor
  · rintro ⟨c, hc, hend⟩
    obtain ⟨hmem, hvisible⟩ := List.mem_filter.mp hc
    have hflag := hlaid.flag c hmem (not_addressEnd_of_end hend)
    rw [hlaid.placed c hmem e hend] at hflag
    exact ⟨⟨c, hmem, hend⟩, fun hin => by simp [hflag.mpr hin] at hvisible⟩
  · rintro ⟨⟨c, hmem, hend⟩, hout⟩
    have hflag := hlaid.flag c hmem (not_addressEnd_of_end hend)
    rw [hlaid.placed c hmem e hend] at hflag
    exact ⟨c, List.mem_filter.mpr ⟨hmem, by simpa using mt hflag.mp hout⟩, hend⟩

/-- The visible ends of a line are those of spans in order. -/
theorem pending_line (h : Settled text) : Markup.Pending [] (visibleEnds (placedLine text)) where
  sorted := by
    have hlaid := laid_line text
    have hplaces : visiblePlaces (placedLine text) =
        ((placedLine text).filter fun c => !c.hidden).map Cell.place := by
      rw [visiblePlaces, ← List.filterMap_eq_map, ← List.filterMap_eq_filter, List.filterMap_filterMap]
      refine List.filterMap_congr fun c _ => ?_
      cases hc : c.hidden <;> simp [hc, Option.guard]
    have hsorted := hlaid.sorted
    rw [hplaces, List.pairwise_map] at hsorted
    unfold visibleEnds ends
    rw [List.pairwise_filterMap]
    refine hsorted.imp_of_mem ?_
    intro c d hc hd hless e he e' he'
    rw [← hlaid.placed c (List.mem_of_mem_filter hc) e he,
      ← hlaid.placed d (List.mem_of_mem_filter hd) e' he']
    exact hless
  begun := by simp
  inner := List.Pairwise.nil
  closed := by
    intro s
    have hpaired := (laid_line text).paired s
    rw [mem_visibleEnds, mem_visibleEnds, Markup.place_first, Markup.place_last, ← hpaired]
    constructor
    · rintro (hnil | ⟨hmem, hout⟩)
      · cases hnil
      · exact ⟨hmem, fun hin => hout ((h.inside s (mem_lineSpans.mpr hmem)).mpr hin)⟩
    · rintro ⟨hmem, hout⟩
      exact Or.inr ⟨hmem, fun hin => hout ((h.inside s (mem_lineSpans.mpr hmem)).mp hin)⟩
  forward := by
    intro s hs
    obtain ⟨hmem, hlast⟩ := mem_visibleEnds.mp hs
    have hspan := mem_lineSpans.mpr (((laid_line text).paired s).mpr hmem)
    exact (laid_line text).forward s hmem (fun hin => hlast ((h.inside s hspan).mp hin)) hlast
  apart := by
    intro s t hs ht
    obtain ⟨hsmem, hslast⟩ := mem_visibleEnds.mp hs
    obtain ⟨htmem, htlast⟩ := mem_visibleEnds.mp ht
    have hspan := mem_lineSpans.mpr (((laid_line text).paired s).mpr hsmem)
    have htspan := mem_lineSpans.mpr (((laid_line text).paired t).mpr htmem)
    exact (laid_line text).apart s t hsmem htmem (fun hin => hslast ((h.inside s hspan).mp hin)) hslast
      (fun hin => htlast ((h.inside t htspan).mp hin)) htlast

theorem noneCross_iff (h : Settled text) :
    Markup.NoneCross (visibleEnds (placedLine text)) ↔ Uncrossed text := by
  have hmem : ∀ s, (s, true) ∈ visibleEnds (placedLine text) ↔
      s ∈ lineSpans text ∧ ¬ InAddress text s.first := by
    intro s
    have hclosed := (pending_line h).closed s
    rw [← hclosed, mem_visibleEnds, mem_lineSpans]
    simp [Markup.place_first]
  unfold Markup.NoneCross Uncrossed
  simp only [hmem]
  exact ⟨fun hnone s hs t ht hsf htf => hnone s t ⟨hs, hsf⟩ ⟨ht, htf⟩,
    fun hnone s t hs ht => hnone s hs.1 t ht.1 hs.2 ht.2⟩

/-- The tags of a text that is formatted inline nest exactly when its spans do not cross. -/
theorem nests_inline (h : Settled text) :
    Markup.NestsWhen (telegramInlineFormat text) (Uncrossed text) := by
  refine ⟨(visibleEnds (placedLine text)).map (named telegramName), fun before => ?_, ?_, ?_⟩
  · rw [render_placedLine]
    have hread := read_cells (flow_line h.contained) before
    rw [pendingTag, List.append_nil] at hread
    exact hread
  · intro huncrossed
    exact (pending_line h).neutral telegramName telegramName_injective ((noneCross_iff h).mpr huncrossed)
  · intro hcrossed
    exact (pending_line h).stuck telegramName telegramName_injective (mt (noneCross_iff h).mp hcrossed)

theorem nests_escaped (text : List Char) : Markup.NestsWhen (escapeHtml text) True :=
  .text fun _ hc => (escaped_of_mem hc).1

theorem reads_fixed (name : String) (h : Markup.IsName name.toList) :
    Markup.Reads ('<' :: (name.toList ++ ['>'])) [(name, false)] ∧
      Markup.Reads ('<' :: '/' :: (name.toList ++ ['>'])) [(name, true)] :=
  ⟨by simpa using Markup.reads_open h, by simpa using Markup.reads_close h⟩

/-- The language of a code block stays in the value of its attribute. -/
def LanguageEnds (lang : List Char) : Prop :=
  ((lang.foldl Attributes.step (.quoted true)).step '"').inValue = false

instance (lang : List Char) : Decidable (LanguageEnds lang) := inferInstanceAs (Decidable (_ = _))

theorem foldl_escapeHtml (state : Attributes) (text : List Char) :
    (escapeHtml text).foldl Attributes.step state = text.foldl Attributes.step state := by
  rw [escapeHtml_eq]
  induction text generalizing state with
  | nil => rfl
  | cons c text ih => rw [List.flatMap_cons, List.foldl_append, foldl_escapeChar, ih, List.foldl_cons]

theorem reads_codeLanguage {lang : List Char} (h : LanguageEnds lang) :
    Markup.Reads ("<code".toList ++ (" class=\"language-".toList ++ escapeHtml lang ++ "\"".toList) ++
      ">".toList) [("code", false)] := by
  intro before
  have hname : Markup.IsName "code".toList := by decide
  have hvalue : ∀ c ∈ "class=\"language-".toList ++ (escapeHtml lang ++ ['"']), c ≠ '>' := by
    intro c hc
    rcases List.mem_append.mp hc with hc | hc
    · exact (by decide : ∀ d ∈ "class=\"language-".toList, d ≠ '>') c hc
    · rcases List.mem_append.mp hc with hc | hc
      · exact (escaped_of_mem hc).2
      · rw [List.mem_singleton.mp hc]
        decide
  have hopened := Markup.run_opened hname before hvalue
  have htext : "<code".toList ++ (" class=\"language-".toList ++ escapeHtml lang ++ "\"".toList) ++
      ">".toList = ('<' :: ("code".toList ++ ' ' :: ("class=\"language-".toList ++
        (escapeHtml lang ++ ['"'])))) ++ ['>'] := by
    have hopen : "<code".toList = '<' :: "code".toList := by decide
    have hclass : " class=\"language-".toList = ' ' :: "class=\"language-".toList := by decide
    have hquote : "\"".toList = ['"'] ∧ ">".toList = ['>'] := by decide
    rw [hopen, hclass, hquote.1, hquote.2]
    simp
  have hstart : "class=\"language-".toList.foldl Attributes.step .beforeName = .quoted true := by decide
  rw [htext, Markup.Reader.run_append, hopened, List.foldl_append, hstart, List.foldl_append,
    foldl_escapeHtml]
  have hclosed := Markup.run_closed "code".toList h before
  rw [String.ofList_toList] at hclosed
  exact hclosed

/-- What of a block has to be settled. -/
structure BlockSettled (b : Block) : Prop where
  texts : ∀ text ∈ telegramTexts b, Settled text
  language : ∀ lang ∈ languages b, LanguageEnds lang

def BlockUncrossed (b : Block) : Prop := ∀ text ∈ telegramTexts b, Uncrossed text

theorem nests_code {langAttr : List Char}
    (h : Markup.Reads ("<code".toList ++ langAttr ++ ">".toList) [("code", false)])
    (code : List (List Char)) : Markup.NestsWhen (telegramCode langAttr code) True := by
  have hpre := reads_fixed "pre" (by decide)
  have hcode := reads_fixed "code" (by decide)
  have hinner := (nests_escaped (joinLines code)).element h hcode.2
  have houter := hinner.element hpre.1 hpre.2
  have htags : "<pre>".toList = '<' :: ("pre".toList ++ ['>']) ∧
      "</pre>".toList = '<' :: '/' :: ("pre".toList ++ ['>']) ∧
      "</code>".toList = '<' :: '/' :: ("code".toList ++ ['>']) := by
    decide
  rw [telegramCode_eq, htags.1, htags.2.1, htags.2.2]
  simpa only [List.append_assoc, List.cons_append] using houter

theorem nests_line (line : List Char) (h : ∀ text ∈ telegramTexts (.line line), Settled text) :
    Markup.NestsWhen (markdownLineToTelegramHtml line) (BlockUncrossed (.line line)) := by
  have hb := reads_fixed "b" (by decide)
  have hquotes := reads_fixed "blockquote" (by decide)
  have htags : ("<b>".toList = '<' :: ("b".toList ++ ['>']) ∧
      "</b>".toList = '<' :: '/' :: ("b".toList ++ ['>'])) ∧
      "<blockquote>".toList = '<' :: ("blockquote".toList ++ ['>']) ∧
      "</blockquote>".toList = '<' :: '/' :: ("blockquote".toList ++ ['>']) := by
    decide
  cases hheading : headingMatch line with
  | some heading =>
    have helement := (nests_escaped heading.2).element hb.1 hb.2
    rw [← htags.1.1, ← htags.1.2, ← List.append_assoc] at helement
    simp only [markdownLineToTelegramHtml, BlockUncrossed, telegramTexts, hheading, Option.isSome_some,
      if_true]
    exact helement.congr (by simp)
  | none =>
    simp only [telegramTexts, hheading, Option.isSome_none, Bool.false_eq_true, if_false] at h
    simp only [markdownLineToTelegramHtml, BlockUncrossed, telegramTexts, hheading, Option.isSome_none,
      Bool.false_eq_true, if_false]
    by_cases hquote : isQuote line = true
    · rw [if_pos hquote] at h ⊢
      have hinner := nests_inline (h (quoteText line) (by simp))
      have helement := hinner.element hquotes.1 hquotes.2
      rw [← htags.2.1, ← htags.2.2, ← List.append_assoc] at helement
      simp only [if_pos hquote]
      exact helement.congr (by simp)
    · rw [if_neg hquote] at h ⊢
      simp only [if_neg hquote]
      exact (nests_inline (h _ (by simp))).congr (by simp)

theorem nests_block {b : Block} (h : BlockSettled b) :
    Markup.NestsWhen (telegramBlock b) (BlockUncrossed b) := by
  have hcode : Markup.Reads ("<code".toList ++ [] ++ ">".toList) [("code", false)] := by
    have htext : "<code".toList ++ [] ++ ">".toList = '<' :: ("code".toList ++ ['>']) := by decide
    rw [htext]
    exact (reads_fixed "code" (by decide)).1
  cases b with
  | fence codeLang code =>
    have htrue : True ↔ BlockUncrossed (.fence codeLang code) := by simp [BlockUncrossed, telegramTexts]
    by_cases hlang : codeLang = []
    · simp only [telegramBlock, if_pos hlang]
      exact (nests_code hcode code).congr htrue
    · simp only [telegramBlock, if_neg hlang]
      exact (nests_code (reads_codeLanguage (h.language codeLang (by simp [languages]))) code).congr htrue
  | unclosed code => exact (nests_code hcode code).congr (by simp [BlockUncrossed, telegramTexts])
  | line text => exact nests_line text h.texts

theorem nests_joinLines {fine : Block → Prop} (bs : List Block)
    (h : ∀ b ∈ bs, Markup.NestsWhen (telegramBlock b) (fine b)) :
    Markup.NestsWhen (joinLines (bs.map telegramBlock)) (∀ b ∈ bs, fine b) := by
  induction bs with
  | nil => exact (Markup.NestsWhen.text (by simp [joinLines])).congr (by simp)
  | cons b bs ih =>
    have hb := h b (by simp)
    have ih := ih fun c hc => h c (by simp [hc])
    have hfeed : Markup.NestsWhen ['\n'] True := .text (by simp)
    cases bs with
    | nil => simpa [joinLines] using hb
    | cons c bs =>
      have hjoin := (hb.append hfeed).append ih
      simp only [joinLines, List.map_cons, List.intercalate_cons_cons] at hjoin ⊢
      exact hjoin.congr (by simp)

theorem thinkingQuote_open : "<blockquote expandable>💭 <b>Thinking</b>\n".toList =
    ('<' :: ("blockquote".toList ++ ' ' :: "expandable".toList) ++ ['>']) ++ ("💭 ".toList ++
      (('<' :: ("b".toList ++ ['>'])) ++ ("Thinking".toList ++ ('<' :: '/' :: ("b".toList ++ ['>'])))) ++
        "\n".toList) := by
  decide

theorem thinkingQuote_close : "</blockquote>".toList = '<' :: '/' :: ("blockquote".toList ++ ['>']) := by
  decide

theorem nests_thinking (thinking : List Char) : Markup.NestsWhen (thinkingQuote thinking) True := by
  have hb := reads_fixed "b" (by decide)
  have hquotes := reads_fixed "blockquote" (by decide)
  have hopen : Markup.Reads ('<' :: ("blockquote".toList ++ ' ' :: "expandable".toList) ++ ['>'])
      [("blockquote", false)] := by
    intro before
    have hstate : ("expandable".toList.foldl Attributes.step .beforeName).inValue = false := by decide
    have hname : Markup.IsName "blockquote".toList := by decide
    have hplain : ∀ c ∈ "expandable".toList, c ≠ '>' := by decide
    rw [Markup.Reader.run_append, Markup.run_opened hname before hplain, Markup.run_closed _ hstate,
      String.ofList_toList]
  have hword : Markup.NestsWhen "Thinking".toList True := .text (by decide)
  have hsign : Markup.NestsWhen "💭 ".toList True := .text (by decide)
  have hfeed : Markup.NestsWhen "\n".toList True := .text (by decide)
  have hinner := ((hsign.append (hword.element hb.1 hb.2)).append hfeed).append (nests_escaped thinking)
  have hall : ((True ∧ True) ∧ True) ∧ True ↔ True := by simp
  have helement := (hinner.congr hall).element hopen hquotes.2
  have htext : thinkingQuote thinking = _ :=
    congrArg₂ (fun before behind => before ++ escapeHtml thinking ++ behind) thinkingQuote_open
      thinkingQuote_close
  rw [htext, List.append_assoc, List.append_assoc, ← List.append_assoc _ (escapeHtml thinking)]
  exact helement

theorem nests_response (reply : ChatResponse)
    (h : ∀ b ∈ messageBlocks reply.message.toList, BlockSettled b) :
    Markup.NestsWhen (formatTelegramResponse reply).toList
      (∀ b ∈ messageBlocks reply.message.toList, BlockUncrossed b) := by
  have hmessage : Markup.NestsWhen
      ((if reply.message = "" then none else some (markdownToTelegramHtml reply.message.toList)).getD [])
      (∀ b ∈ messageBlocks reply.message.toList, BlockUncrossed b) := by
    by_cases hempty : reply.message = ""
    · have hnone : ∀ b ∈ messageBlocks reply.message.toList, BlockUncrossed b := by
        have hnothing : lineSpans [] = [] := by decide
        rw [hempty]
        have hblocks : messageBlocks "".toList = [.line []] := by decide
        rw [hblocks]
        intro b hb
        obtain rfl := List.mem_singleton.mp hb
        have htexts : telegramTexts (.line []) = [[]] := by decide
        intro text htext
        rw [htexts, List.mem_singleton] at htext
        subst htext
        intro s hs
        rw [hnothing] at hs
        cases hs
      rw [if_pos hempty]
      exact (Markup.NestsWhen.text (by simp)).congr (iff_of_true trivial hnone)
    · rw [if_neg hempty]
      exact nests_joinLines _ fun b hb => nests_block (h b hb)
  have hfeeds : Markup.NestsWhen "\n\n".toList True := .text (by decide)
  simp only [formatTelegramResponse, String.toList_ofList]
  generalize (if reply.message = "" then none else
    some (markdownToTelegramHtml reply.message.toList)) = message at hmessage
  cases reply.thinking.filter (· ≠ "") with
  | none =>
    cases message with
    | none => simpa using hmessage
    | some text => simpa using hmessage
  | some thinking =>
    have hthink := nests_thinking thinking.toList
    cases message with
    | none =>
      have hboth := hthink.append hmessage
      simpa using hboth
    | some text =>
      have hboth := (hthink.append hfeeds).append hmessage
      simpa [List.intercalate_cons_cons] using hboth

end Reply

/-- A settled reply is sendable exactly when no two of its spans cross. -/
theorem telegram_sendable_iff (reply : ChatResponse) :
    ((∀ b ∈ messageBlocks reply.message.toList, BlockSettled b ∧ BlockUncrossed b) →
        Sendable (formatTelegramResponse reply).toList) ∧
      ((∀ b ∈ messageBlocks reply.message.toList, BlockSettled b) →
        Sendable (formatTelegramResponse reply).toList →
          ∀ b ∈ messageBlocks reply.message.toList, BlockUncrossed b) :=
  ⟨fun h => (nests_response reply fun b hb => (h b hb).1).iff.mpr fun b hb => (h b hb).2,
    fun h => (nests_response reply h).iff.mp⟩

/-- The span of the second marker begins inside of the first and ends behind it. -/
theorem overlapping_markers_unsendable :
    formatTelegramResponse ⟨"**a *b** c*", none⟩ = "<b>a <i>b</b> c</i>" ∧
      ¬ Sendable (formatTelegramResponse ⟨"**a *b** c*", none⟩).toList := by
  decide

end T560.Format
