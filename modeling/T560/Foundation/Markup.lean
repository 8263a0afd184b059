import Mathlib.Data.List.Basic
import Mathlib.Data.List.Pairwise
import Mathlib.Data.String.Basic

/-!
# Tags and their nesting

The tags of a text as the tokenizer of HTML reads them: a tag runs up to the first `>` outside of
the quoted values of its attributes. Tags nest when every end closes the innermost that is open.
Spans of a text whose ends are written as tags nest exactly when no two of them cross.
-/

namespace Markup

/-! ## Reading tags -/

/-- Inside of a tag, behind its name. -/
inductive Attributes where
  | beforeName
  | name
  | afterName
  | beforeValue
  | unquoted
  | quoted (double : Bool)
  deriving DecidableEq, Repr

def isBlank (c : Char) : Bool := c ∈ [' ', '\t', '\n', '\r', '\x0c']

def quoteOf (double : Bool) : Char := if double then '"' else '\''

/-- One character that is not the `>` of the tag. -/
def Attributes.step : Attributes → Char → Attributes
  | .beforeName, c => if isBlank c || c = '/' then .beforeName else .name
  | .name, c =>
    if isBlank c then .afterName
    else if c = '/' then .beforeName
    else if c = '=' then .beforeValue
    else .name
  | .afterName, c =>
    if isBlank c then .afterName
    else if c = '/' then .beforeName
    else if c = '=' then .beforeValue
    else .name
  | .beforeValue, c =>
    if isBlank c then .beforeValue
    else if c = '"' then .quoted true
    else if c = '\'' then .quoted false
    else .unquoted
  | .unquoted, c => if isBlank c then .beforeName else .unquoted
  | .quoted double, c => if c = quoteOf double then .beforeName else .quoted double

def Attributes.inValue : Attributes → Bool
  | .quoted _ => true
  | _ => false

inductive Mode where
  | text
  | tag (closing : Bool) (name : List Char)
  | attributes (closing : Bool) (name : List Char) (state : Attributes)
  deriving DecidableEq, Repr

/-- The tags read so far, each with whether it is a closing one. -/
structure Reader where
  mode : Mode
  tags : List (String × Bool)
  deriving DecidableEq, Repr

def Reader.close (r : Reader) (closing : Bool) (name : List Char) : Reader :=
  ⟨.text, r.tags ++ [(String.ofList name, closing)]⟩

def Reader.step (r : Reader) (c : Char) : Reader :=
  match r.mode with
  | .text => if c = '<' then { r with mode := .tag false [] } else r
  | .tag closing name =>
    if c = '>' then r.close closing name
    else if c = '/' ∧ name = [] ∧ closing = false then { r with mode := .tag true [] }
    else if isBlank c || c = '/' then { r with mode := .attributes closing name .beforeName }
    else { r with mode := .tag closing (name ++ [c]) }
  | .attributes closing name state =>
    if c = '>' ∧ state.inValue = false then r.close closing name
    else { r with mode := .attributes closing name (state.step c) }

def Reader.run (r : Reader) (text : List Char) : Reader := text.foldl Reader.step r

/-- The tags of a text, unless one of them never ends. -/
def readTags (text : List Char) : Option (List (String × Bool)) :=
  let r := Reader.run ⟨.text, []⟩ text
  if r.mode = .text then some r.tags else none

section Reading

variable {xs ys : List Char} {s t : List (String × Bool)}

theorem Reader.run_append (r : Reader) (xs ys : List Char) : r.run (xs ++ ys) = (r.run xs).run ys :=
  List.foldl_append

/-- From text to text, with these tags. -/
def Reads (xs : List Char) (tags : List (String × Bool)) : Prop :=
  ∀ before, Reader.run ⟨.text, before⟩ xs = ⟨.text, before ++ tags⟩

theorem Reads.nil : Reads [] [] := fun before => by rw [List.append_nil]; rfl

theorem Reads.append (hx : Reads xs s) (hy : Reads ys t) : Reads (xs ++ ys) (s ++ t) := by
  intro before
  rw [Reader.run_append, hx, hy, List.append_assoc]

theorem Reads.readTags_eq (h : Reads xs s) : Markup.readTags xs = some s := by
  unfold Markup.readTags
  rw [h]
  rfl

theorem reads_text (h : ∀ c ∈ xs, c ≠ '<') : Reads xs [] := by
  intro before
  rw [List.append_nil]
  induction xs with
  | nil => rfl
  | cons c xs ih =>
    have hstep : Reader.step ⟨.text, before⟩ c = ⟨.text, before⟩ := if_neg (h c (by simp))
    rw [Reader.run, List.foldl_cons, hstep]
    exact ih fun d hd => h d (by simp [hd])

/-- Characters that a name of a tag may have. -/
def IsName (name : List Char) : Prop := ∀ c ∈ name, c ≠ '>' ∧ c ≠ '/' ∧ isBlank c = false

instance (name : List Char) : Decidable (IsName name) := List.decidableBAll _ _

theorem run_name {closing : Bool} {letters name : List Char} (h : IsName name)
    (before : List (String × Bool)) :
    Reader.run ⟨.tag closing letters, before⟩ name = ⟨.tag closing (letters ++ name), before⟩ := by
  induction name generalizing letters with
  | nil => rw [List.append_nil]; rfl
  | cons c name ih =>
    obtain ⟨hend, hslash, hblank⟩ := h c (by simp)
    have hstep : Reader.step ⟨.tag closing letters, before⟩ c = ⟨.tag closing (letters ++ [c]), before⟩ := by
      simp [Reader.step, hend, hslash, hblank]
    have hrest := @ih (letters ++ [c]) fun d hd => h d (by simp [hd])
    rw [List.append_assoc, List.singleton_append] at hrest
    rw [Reader.run, List.foldl_cons, hstep]
    exact hrest

theorem reads_open {name : List Char} (h : IsName name) :
    Reads ('<' :: (name ++ ['>'])) [(String.ofList name, false)] := by
  intro before
  rw [← List.singleton_append, Reader.run_append, Reader.run_append]
  change Reader.run (Reader.run ⟨.tag false [], before⟩ name) ['>'] = _
  rw [run_name h, List.nil_append]
  simp [Reader.run, Reader.step, Reader.close]

theorem reads_close {name : List Char} (h : IsName name) :
    Reads ('<' :: '/' :: (name ++ ['>'])) [(String.ofList name, true)] := by
  intro before
  rw [← List.singleton_append, ← List.singleton_append (x := '/'), Reader.run_append, Reader.run_append,
    Reader.run_append]
  change Reader.run (Reader.run ⟨.tag true [], before⟩ name) ['>'] = _
  rw [run_name h, List.nil_append]
  simp [Reader.run, Reader.step, Reader.close]

/-- Behind the name of a tag, text without its end stays in its attributes. -/
theorem run_attributes (closing : Bool) (name : List Char) (state : Attributes)
    (before : List (String × Bool)) (h : ∀ c ∈ xs, c ≠ '>') :
    Reader.run ⟨.attributes closing name state, before⟩ xs =
      ⟨.attributes closing name (xs.foldl Attributes.step state), before⟩ := by
  induction xs generalizing state with
  | nil => rfl
  | cons c xs ih =>
    have hstep : Reader.step ⟨.attributes closing name state, before⟩ c =
        ⟨.attributes closing name (state.step c), before⟩ :=
      if_neg fun hend => h c (by simp) hend.1
    rw [Reader.run, List.foldl_cons, hstep]
    exact ih _ fun d hd => h d (by simp [hd])

/-- A name, a blank and attributes. -/
theorem run_opened {name : List Char} (hname : IsName name) (before : List (String × Bool))
    (h : ∀ c ∈ xs, c ≠ '>') :
    Reader.run ⟨.text, before⟩ ('<' :: (name ++ ' ' :: xs)) =
      ⟨.attributes false name (xs.foldl Attributes.step .beforeName), before⟩ := by
  rw [← List.singleton_append, Reader.run_append, Reader.run_append]
  change Reader.run (Reader.run ⟨.tag false [], before⟩ name) (' ' :: xs) = _
  rw [run_name hname, List.nil_append, ← List.singleton_append, Reader.run_append]
  change Reader.run ⟨.attributes false name .beforeName, before⟩ xs = _
  exact run_attributes false name .beforeName before h

theorem run_closed (name : List Char) {state : Attributes} (hstate : state.inValue = false)
    (before : List (String × Bool)) :
    Reader.run ⟨.attributes false name state, before⟩ ['>'] =
      ⟨.text, before ++ [(String.ofList name, false)]⟩ := by
  simp [Reader.run, Reader.step, hstate, Reader.close]

/-- A quoted value takes any text without quotes. -/
theorem run_quoted (closing : Bool) (name : List Char) {state : Attributes} (hvalue : state.inValue = true)
    (before : List (String × Bool)) (h : ∀ c ∈ xs, c ≠ '"' ∧ c ≠ '\'') :
    Reader.run ⟨.attributes closing name state, before⟩ xs = ⟨.attributes closing name state, before⟩ := by
  obtain ⟨double, rfl⟩ : ∃ double, state = .quoted double := by
    cases state with
    | quoted double => exact ⟨double, rfl⟩
    | _ => cases hvalue
  induction xs with
  | nil => rfl
  | cons c xs ih =>
    have hne : c ≠ quoteOf double := by
      cases double with
      | true => exact (h c (by simp)).1
      | false => exact (h c (by simp)).2
    have hstep : Reader.step ⟨.attributes closing name (.quoted double), before⟩ c =
        ⟨.attributes closing name (.quoted double), before⟩ := by
      simp [Reader.step, Attributes.inValue, Attributes.step, hne]
    rw [Reader.run, List.foldl_cons, hstep]
    exact ih fun d hd => h d (by simp [hd])

end Reading

/-! ## Nesting -/

section Nesting

variable {τ : Type} [DecidableEq τ]

/-- The tags close in order; the list holds the open ones, the innermost first. -/
def nests : List τ → List (τ × Bool) → Bool
  | opened, [] => opened.isEmpty
  | opened, (name, false) :: tags => nests (name :: opened) tags
  | [], (_, true) :: _ => false
  | innermost :: opened, (name, true) :: tags => decide (innermost = name) && nests opened tags

/-- Tags that close among themselves. -/
def Neutral (tags : List (τ × Bool)) : Prop :=
  ∀ opened rest, nests opened (tags ++ rest) = nests opened rest

/-- Tags that do not nest, whatever is around them. -/
def Stuck (tags : List (τ × Bool)) : Prop := ∀ opened rest, nests opened (tags ++ rest) = false

theorem neutral_nil : Neutral ([] : List (τ × Bool)) := fun _ _ => rfl

theorem Neutral.append {s t : List (τ × Bool)} (hs : Neutral s) (ht : Neutral t) :
    Neutral (s ++ t) := by
  intro opened rest
  rw [List.append_assoc, hs, ht]

theorem Neutral.element {tags : List (τ × Bool)} (h : Neutral tags) (name : τ) :
    Neutral ((name, false) :: (tags ++ [(name, true)])) := by
  intro opened rest
  rw [List.cons_append, nests, List.append_assoc, h, List.singleton_append, nests]
  simp

theorem Neutral.nests_nil {tags : List (τ × Bool)} (h : Neutral tags) : nests [] tags = true := by
  have := h [] []
  rw [List.append_nil] at this
  rw [this]
  rfl

/-- What does not nest does not nest behind anything. -/
theorem Stuck.behind {tags : List (τ × Bool)} (h : Stuck tags) (before : List (τ × Bool)) :
    Stuck (before ++ tags) := by
  intro opened rest
  induction before generalizing opened with
  | nil => exact h opened rest
  | cons tag before ih =>
    obtain ⟨name, closing⟩ := tag
    cases closing with
    | false => exact ih (name :: opened)
    | true =>
      cases opened with
      | nil => rfl
      | cons innermost opened =>
        rw [List.cons_append, List.cons_append, nests, ih, Bool.and_false]

theorem Stuck.append {tags : List (τ × Bool)} (h : Stuck tags) (more : List (τ × Bool)) :
    Stuck (tags ++ more) := by
  intro opened rest
  rw [List.append_assoc]
  exact h opened _

theorem Stuck.nests_nil {tags : List (τ × Bool)} (h : Stuck tags) : nests [] tags = false := by
  have := h [] []
  rwa [List.append_nil] at this

end Nesting

/-! ## Texts whose tags nest -/

/-- The text is read as tags that nest among themselves if the condition holds, and that do not
nest at all if it fails. -/
def NestsWhen (xs : List Char) (ok : Prop) : Prop :=
  ∃ tags, Reads xs tags ∧ (ok → Neutral tags) ∧ (¬ ok → Stuck tags)

section NestsWhen

variable {xs ys before behind : List Char} {ok ok' : Prop} {name : String}

theorem NestsWhen.iff (h : NestsWhen xs ok) : (readTags xs).any (nests []) = true ↔ ok := by
  obtain ⟨tags, hreads, hneutral, hstuck⟩ := h
  rw [hreads.readTags_eq, Option.any_some]
  by_cases hok : ok
  · exact iff_of_true (hneutral hok).nests_nil hok
  · exact iff_of_false (by simp [(hstuck hok).nests_nil]) hok

theorem NestsWhen.congr (h : NestsWhen xs ok) (hok : ok ↔ ok') : NestsWhen xs ok' := by
  rwa [← propext hok]

theorem NestsWhen.text (h : ∀ c ∈ xs, c ≠ '<') : NestsWhen xs True :=
  ⟨[], reads_text h, fun _ => neutral_nil, fun hnot => absurd trivial hnot⟩

theorem NestsWhen.append (hx : NestsWhen xs ok) (hy : NestsWhen ys ok') : NestsWhen (xs ++ ys) (ok ∧ ok') := by
  obtain ⟨s, hs, hneutral, hstuck⟩ := hx
  obtain ⟨t, ht, hneutral', hstuck'⟩ := hy
  refine ⟨s ++ t, hs.append ht, fun hboth => (hneutral hboth.1).append (hneutral' hboth.2), fun hnot => ?_⟩
  by_cases hok : ok
  · exact (hstuck' fun hok' => hnot ⟨hok, hok'⟩).behind s
  · exact (hstuck hok).append t

/-- An element around the text. -/
theorem NestsWhen.element (h : NestsWhen xs ok) (hopen : Reads before [(name, false)])
    (hclose : Reads behind [(name, true)]) : NestsWhen (before ++ (xs ++ behind)) ok := by
  obtain ⟨tags, hreads, hneutral, hstuck⟩ := h
  refine ⟨[(name, false)] ++ (tags ++ [(name, true)]), hopen.append (hreads.append hclose),
    fun hok => (hneutral hok).element name, fun hnot => ((hstuck hnot).append _).behind _⟩

end NestsWhen

/-! ## Spans -/

/-- A span of a text, from its first place to its last one. -/
structure Span (κ : Type) where
  kind : κ
  first : Nat
  last : Nat
  deriving DecidableEq, Repr

section Spans

variable {κ τ : Type} [DecidableEq τ] {stack : List (Span κ)} {ends : List (Span κ × Bool)} {s t : Span κ}

/-- The second begins inside of the first and ends behind it. -/
def Span.Crosses (s t : Span κ) : Prop := s.first < t.first ∧ t.first < s.last ∧ s.last < t.last

def Span.Apart (s t : Span κ) : Prop := s.last < t.first ∨ t.last < s.first

/-- Where a span begins or ends. -/
def place (e : Span κ × Bool) : Nat := if e.2 then e.1.last else e.1.first

/-- The ends of spans in the order of a text, where the given ones are open, the innermost first.
Spans of one kind do not overlap. -/
structure Pending (stack : List (Span κ)) (ends : List (Span κ × Bool)) : Prop where
  sorted : ends.Pairwise fun e e' => place e < place e'
  begun : ∀ s ∈ stack, ∀ e ∈ ends, s.first < place e
  inner : stack.Pairwise fun s t => t.first < s.first
  closed : ∀ s, s ∈ stack ∨ (s, false) ∈ ends ↔ (s, true) ∈ ends
  forward : ∀ s, (s, true) ∈ ends → s.first < s.last
  apart : ∀ s t, (s, true) ∈ ends → (t, true) ∈ ends → s.kind = t.kind → s = t ∨ s.Apart t

theorem place_first (s : Span κ) : place (s, false) = s.first := rfl

theorem place_last (s : Span κ) : place (s, true) = s.last := rfl

/-- A span that begins is open behind. -/
theorem Pending.opened (h : Pending stack ((s, false) :: ends)) : Pending (s :: stack) ends where
  sorted := h.sorted.tail
  begun := by
    intro t ht e he
    rcases List.mem_cons.mp ht with rfl | ht
    · exact List.rel_of_pairwise_cons h.sorted he
    · exact h.begun t ht e (List.mem_cons_of_mem _ he)
  inner := List.pairwise_cons.mpr ⟨fun t ht => h.begun t ht _ (List.mem_cons_self ..), h.inner⟩
  closed := by
    intro t
    have hclosed := h.closed t
    simp only [List.mem_cons, Prod.mk.injEq, Bool.true_eq_false, and_false, false_or, and_true] at hclosed
    rw [← hclosed, List.mem_cons]
    tauto
  forward := fun t ht => h.forward t (List.mem_cons_of_mem _ ht)
  apart := fun t u ht hu => h.apart t u (List.mem_cons_of_mem _ ht) (List.mem_cons_of_mem _ hu)

/-- A span that ends has begun, and its ends are not behind. -/
theorem Pending.ended (h : Pending stack ((s, true) :: ends)) :
    s ∈ stack ∧ s.first < s.last ∧ (s, true) ∉ ends ∧ (s, false) ∉ ends := by
  have hforward := h.forward s (List.mem_cons_self ..)
  have hbehind : ∀ e ∈ ends, s.last < place e := fun e he => List.rel_of_pairwise_cons h.sorted he
  have hnotTrue : (s, true) ∉ ends := fun hmem => Nat.lt_irrefl _ (hbehind _ hmem)
  have hnotFalse : (s, false) ∉ ends := fun hmem => Nat.lt_asymm hforward (hbehind _ hmem)
  refine ⟨?_, hforward, hnotTrue, hnotFalse⟩
  rcases (h.closed s).mpr (List.mem_cons_self ..) with hopen | hopens
  · exact hopen
  · rcases List.mem_cons.mp hopens with heq | hopens
    · cases heq
    · exact absurd hopens hnotFalse

/-- The innermost span ends. -/
theorem Pending.popped (h : Pending (s :: stack) ((s, true) :: ends)) : Pending stack ends where
  sorted := h.sorted.tail
  begun := fun t ht e he => h.begun t (List.mem_cons_of_mem _ ht) e (List.mem_cons_of_mem _ he)
  inner := h.inner.tail
  closed := by
    intro t
    obtain ⟨-, -, hnotTrue, hnotFalse⟩ := h.ended
    have hnotOpen : s ∉ stack := fun hmem => Nat.lt_irrefl _ (List.rel_of_pairwise_cons h.inner hmem)
    have hclosed := h.closed t
    simp only [List.mem_cons, Prod.mk.injEq, Bool.false_eq_true, and_false, false_or, and_true] at hclosed
    by_cases hts : t = s
    · subst hts
      simp [hnotTrue, hnotFalse, hnotOpen]
    · simpa [hts] using hclosed
  forward := fun t ht => h.forward t (List.mem_cons_of_mem _ ht)
  apart := fun t u ht hu => h.apart t u (List.mem_cons_of_mem _ ht) (List.mem_cons_of_mem _ hu)

/-- The innermost span, where another one ends, crosses it and is of another kind. -/
theorem Pending.crossed (h : Pending (t :: stack) ((s, true) :: ends)) (hne : t ≠ s) :
    (t, true) ∈ ends ∧ s.Crosses t ∧ t.kind ≠ s.kind := by
  have hopen : s ∈ stack := (List.mem_cons.mp h.ended.1).resolve_left (Ne.symm hne)
  have hends : (t, true) ∈ ends := by
    rcases List.mem_cons.mp ((h.closed t).mp (Or.inl (List.mem_cons_self ..))) with heq | hends
    · exact absurd (congrArg Prod.fst heq) hne
    · exact hends
  have hfirst : s.first < t.first := List.rel_of_pairwise_cons h.inner hopen
  have hinside : t.first < s.last := h.begun t (List.mem_cons_self ..) _ (List.mem_cons_self ..)
  have hlast : s.last < t.last := List.rel_of_pairwise_cons h.sorted hends
  refine ⟨hends, ⟨hfirst, hinside, hlast⟩, fun hkind => ?_⟩
  rcases h.apart t s (List.mem_cons_of_mem _ hends) (List.mem_cons_self ..) hkind with heq | hbehind | hbefore
  · exact hne heq
  · omega
  · omega

/-- The innermost span crosses none that is pending. -/
theorem Pending.not_crosses (h : Pending (s :: stack) ((s, true) :: ends)) (ht : (t, true) ∈ ends) :
    ¬ s.Crosses t ∧ ¬ t.Crosses s := by
  have hlast : s.last < t.last := List.rel_of_pairwise_cons h.sorted ht
  constructor
  · rintro ⟨hfirst, hinside, -⟩
    rcases (h.closed t).mpr (List.mem_cons_of_mem _ ht) with hopen | hopens
    · rcases List.mem_cons.mp hopen with rfl | hopen
      · omega
      · have := List.rel_of_pairwise_cons h.inner hopen
        omega
    · rcases List.mem_cons.mp hopens with heq | hopens
      · cases heq
      · have : s.last < t.first := List.rel_of_pairwise_cons h.sorted hopens
        omega
  · rintro ⟨-, -, hbehind⟩
    omega

def NoneCross (ends : List (Span κ × Bool)) : Prop :=
  ∀ s t, (s, true) ∈ ends → (t, true) ∈ ends → ¬ s.Crosses t

variable (key : κ → τ)

def named (e : Span κ × Bool) : τ × Bool := (key e.1.kind, e.2)

/-- The ends of spans that do not cross are closed in order; where two cross, one is closed while
another one is open behind it. -/
theorem Pending.nests_iff (hkey : Function.Injective key) (h : Pending stack ends) (opened : List τ)
    (rest : List (τ × Bool)) :
    (NoneCross ends → nests (stack.map (fun s => key s.kind) ++ opened)
        (ends.map (named key) ++ rest) = nests opened rest) ∧
      (¬ NoneCross ends → nests (stack.map (fun s => key s.kind) ++ opened)
        (ends.map (named key) ++ rest) = false) := by
  induction ends generalizing stack with
  | nil =>
    have hnone : stack = [] := by
      cases stack with
      | nil => rfl
      | cons s stack => cases (h.closed s).mp (Or.inl (List.mem_cons_self ..))
    subst hnone
    exact ⟨fun _ => rfl, fun hcross => absurd (fun s t hs => by cases hs) hcross⟩
  | cons e ends ih =>
    obtain ⟨s, closing⟩ := e
    cases closing with
    | false =>
      have hsame : NoneCross ((s, false) :: ends) ↔ NoneCross ends := by
        simp [NoneCross]
      rw [hsame]
      exact ih h.opened
    | true =>
      cases stack with
      | nil => cases h.ended.1
      | cons t stack =>
        rw [List.map_cons, List.map_cons, List.cons_append, List.cons_append, named, nests]
        by_cases hts : t = s
        · subst hts
          have hsame : NoneCross ((t, true) :: ends) ↔ NoneCross ends := by
            constructor
            · exact fun hnone u v hu hv => hnone u v (List.mem_cons_of_mem _ hu) (List.mem_cons_of_mem _ hv)
            · intro hnone u v hu hv
              rcases List.mem_cons.mp hu with hut | hbehind
              · obtain rfl : u = t := congrArg Prod.fst hut
                rcases List.mem_cons.mp hv with hvu | hbehind
                · obtain rfl : v = u := congrArg Prod.fst hvu
                  exact fun hcross => Nat.lt_irrefl _ hcross.1
                · exact (h.not_crosses hbehind).1
              · rcases List.mem_cons.mp hv with hvt | hbehind'
                · obtain rfl : v = t := congrArg Prod.fst hvt
                  exact (h.not_crosses hbehind).2
                · exact hnone u v hbehind hbehind'
          rw [hsame, decide_eq_true rfl, Bool.true_and]
          exact ih h.popped
        · obtain ⟨hends, hcrosses, hkind⟩ := h.crossed hts
          have hcross : ¬ NoneCross ((s, true) :: ends) := fun hnone =>
            hnone s t (List.mem_cons_self ..) (List.mem_cons_of_mem _ hends) hcrosses
          have hname : key t.kind ≠ key s.kind := fun heq => hkind (hkey heq)
          exact ⟨fun hnone => absurd hnone hcross, fun _ => by rw [decide_eq_false hname, Bool.false_and]⟩

theorem Pending.neutral (hkey : Function.Injective key) (h : Pending [] ends) (hnone : NoneCross ends) :
    Neutral (ends.map (named key)) :=
  fun opened rest => (h.nests_iff key hkey opened rest).1 hnone

theorem Pending.stuck (hkey : Function.Injective key) (h : Pending [] ends) (hcross : ¬ NoneCross ends) :
    Stuck (ends.map (named key)) :=
  fun opened rest => (h.nests_iff key hkey opened rest).2 hcross

end Spans

end Markup
