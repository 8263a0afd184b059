import Mathlib.Algebra.GroupWithZero.Nat
import Mathlib.Data.List.Basic

/-!
# Text patterns

The regular expressions of ECMAScript without the `u` flag, as far as `test` needs them:
character classes, word boundaries, runs with an optional bound, sequences and
alternatives. A run counts UTF-16 code units. `ends` is the matcher; `Matches` says
which texts a pattern accepts between two neighbours.
-/

namespace T560.Foundation

def isWordChar (c : Char) : Bool :=
  let n := c.toNat
  (48 ≤ n && n ≤ 57) || (65 ≤ n && n ≤ 90) || n == 95 || (97 ≤ n && n ≤ 122)

/-- A missing neighbour is no word character. -/
def wordAt : Option Char → Bool
  | none => false
  | some c => isWordChar c

/-- The UTF-16 code units of a character. -/
def codeUnits (c : Char) : Nat := if c.toNat < 0x10000 then 1 else 2

inductive Pattern where
  | empty
  | char (p : Char → Bool)
  | boundary
  | run (p : Char → Bool) (limit : Option Nat)
  | seq (a b : Pattern)
  | alt (a b : Pattern)

namespace Pattern

/-- The letter `x` of a pattern under the `i` flag; `x` is in lower case. -/
def letter (x : Char) : Pattern := .char fun c => c.toLower == x

def chars : List Char → Pattern
  | [] => .empty
  | c :: cs => .seq (letter c) (chars cs)

def text (s : String) : Pattern := chars s.toList

/-- A text as it stands, without the `i` flag. -/
def literal (s : String) : Pattern := s.toList.foldr (fun x r => .seq (.char (· == x)) r) .empty

def oneOf : List Pattern → Pattern
  | [] => .char fun _ => false
  | p :: ps => .alt p (oneOf ps)

def opt (p : Pattern) : Pattern := .alt p .empty

def concat : List Pattern → Pattern
  | [] => .empty
  | p :: ps => .seq p (concat ps)

/-- One of the words, with a boundary on either side. -/
def word (words : List String) : Pattern :=
  concat [.boundary, oneOf (words.map literal), .boundary]

/-- The character before the position and the text behind it. -/
abbrev Place := Option Char × List Char

/-- Whether one more character stays inside the bound. -/
def fitsOne (c : Char) : Option Nat → Bool
  | none => true
  | some n => codeUnits c ≤ n

def runEnds (p : Char → Bool) : Option Nat → Option Char → List Char → List Place
  | _, prev, [] => [(prev, [])]
  | limit, prev, c :: cs =>
    (prev, c :: cs) ::
      if p c && fitsOne c limit then runEnds p (limit.map (· - codeUnits c)) (some c) cs else []

/-- The places a match that starts at the given place can end at. -/
def ends : Pattern → Place → List Place
  | .empty, at_ => [at_]
  | .char _, (_, []) => []
  | .char p, (_, c :: cs) => if p c then [(some c, cs)] else []
  | .boundary, (prev, s) => if wordAt prev = wordAt s.head? then [] else [(prev, s)]
  | .run p limit, (prev, s) => runEnds p limit prev s
  | .seq a b, at_ => (a.ends at_).flatMap b.ends
  | .alt a b, at_ => a.ends at_ ++ b.ends at_

def search (r : Pattern) : Option Char → List Char → Bool
  | prev, [] => !(r.ends (prev, [])).isEmpty
  | prev, c :: cs => !(r.ends (prev, c :: cs)).isEmpty || r.search (some c) cs

/-- `RegExp.prototype.test`. -/
def test (r : Pattern) (s : String) : Bool := r.search none s.toList

def units (m : List Char) : Nat := (m.map codeUnits).sum

/-- The pattern accepts `m` where `prev` stands before it and `next` behind it. -/
def Matches : Pattern → Option Char → List Char → Option Char → Prop
  | .empty, _, m, _ => m = []
  | .char p, _, m, _ => ∃ c, p c = true ∧ m = [c]
  | .boundary, prev, m, next => m = [] ∧ wordAt prev ≠ wordAt next
  | .run p limit, _, m, _ => (∀ c ∈ m, p c = true) ∧ ∀ n, limit = some n → units m ≤ n
  | .seq a b, prev, m, next =>
    ∃ u v, m = u ++ v ∧ a.Matches prev u (v.head?.or next) ∧ b.Matches (u.getLast?.or prev) v next
  | .alt a b, prev, m, next => a.Matches prev m next ∨ b.Matches prev m next

theorem getLast?_cons_or (c : Char) (m : List Char) (prev : Option Char) :
    (c :: m).getLast?.or prev = m.getLast?.or (some c) := by
  rw [List.getLast?_cons]
  cases m.getLast? <;> rfl

theorem mem_runEnds {p : Char → Bool} {s : List Char} {limit : Option Nat} {prev q : Option Char}
    {t : List Char} : (q, t) ∈ runEnds p limit prev s ↔
      ∃ m, s = m ++ t ∧ q = m.getLast?.or prev ∧ (run p limit).Matches prev m t.head? := by
  induction s generalizing limit prev with
  | nil =>
    simp only [runEnds, List.mem_singleton, Prod.mk.injEq, Matches]
    constructor
    · rintro ⟨rfl, rfl⟩
      exact ⟨[], by simp, by simp, by simp, by simp [units]⟩
    · rintro ⟨m, hs, hq, -⟩
      obtain ⟨rfl, rfl⟩ := List.append_eq_nil_iff.mp hs.symm
      exact ⟨by simpa using hq, rfl⟩
  | cons c s ih =>
    simp only [runEnds, List.mem_cons, Prod.mk.injEq]
    constructor
    · rintro (⟨rfl, rfl⟩ | hin)
      · exact ⟨[], by simp, by simp, by simp, by simp [units]⟩
      · split at hin
        · next hc =>
          obtain ⟨m, rfl, rfl, hall, hfit⟩ := ih.mp hin
          rw [Bool.and_eq_true] at hc
          refine ⟨c :: m, rfl, (getLast?_cons_or c m prev).symm, ?_, ?_⟩
          · intro d hd
            rcases List.mem_cons.mp hd with rfl | hd
            · exact hc.1
            · exact hall d hd
          · rintro n rfl
            have hle : codeUnits c ≤ n := by simpa [fitsOne] using hc.2
            have hm := hfit (n - codeUnits c) rfl
            simp only [units, List.map_cons, List.sum_cons] at hm ⊢
            omega
        · cases hin
    · rintro ⟨m, hs, hq, hall, hfit⟩
      cases m with
      | nil => exact .inl ⟨by simpa using hq, by simpa using hs.symm⟩
      | cons d m =>
        obtain ⟨rfl, rfl⟩ := List.cons.inj hs
        have hone : fitsOne c limit = true := by
          cases limit with
          | none => rfl
          | some n =>
            have := hfit n rfl
            simp only [units, List.map_cons, List.sum_cons] at this
            simp only [fitsOne, decide_eq_true_eq]
            omega
        rw [if_pos (by simp [hall c (by simp), hone])]
        rw [getLast?_cons_or] at hq
        refine .inr (ih.mpr ⟨m, rfl, hq, fun e he => hall e (by simp [he]), ?_⟩)
        intro n hn
        obtain ⟨k, rfl, rfl⟩ := Option.map_eq_some_iff.mp hn
        have := hfit k rfl
        simp only [units, List.map_cons, List.sum_cons] at this ⊢
        omega

/-- The matcher finds exactly the accepted prefixes. -/
theorem mem_ends {r : Pattern} {s : List Char} {prev q : Option Char} {t : List Char} :
    (q, t) ∈ r.ends (prev, s) ↔
      ∃ m, s = m ++ t ∧ q = m.getLast?.or prev ∧ r.Matches prev m t.head? := by
  induction r generalizing s prev q t with
  | empty =>
    simp only [ends, List.mem_singleton, Prod.mk.injEq, Matches]
    constructor
    · rintro ⟨rfl, rfl⟩
      exact ⟨[], rfl, rfl, rfl⟩
    · rintro ⟨m, rfl, rfl, rfl⟩
      exact ⟨rfl, rfl⟩
  | char p =>
    cases s with
    | nil =>
      simp only [ends, List.not_mem_nil, false_iff, Matches]
      rintro ⟨m, hs, -, c, -, rfl⟩
      cases hs
    | cons d s =>
      simp only [ends, Matches]
      constructor
      · intro hin
        split at hin
        · next hp =>
          obtain ⟨rfl, rfl⟩ := Prod.mk.inj (List.mem_singleton.mp hin)
          exact ⟨[d], rfl, rfl, d, hp, rfl⟩
        · cases hin
      · rintro ⟨m, hs, rfl, c, hp, rfl⟩
        obtain ⟨rfl, rfl⟩ := List.cons.inj hs
        rw [if_pos hp]
        exact List.mem_singleton.mpr rfl
  | boundary =>
    simp only [ends, Matches]
    constructor
    · intro hin
      split at hin
      · cases hin
      · next hne =>
        obtain ⟨rfl, rfl⟩ := Prod.mk.inj (List.mem_singleton.mp hin)
        exact ⟨[], rfl, rfl, rfl, hne⟩
    · rintro ⟨m, rfl, rfl, rfl, hne⟩
      rw [List.nil_append, if_neg hne]
      exact List.mem_singleton.mpr rfl
  | run p limit => exact mem_runEnds
  | seq a b iha ihb =>
    simp only [ends, List.mem_flatMap, Matches]
    constructor
    · rintro ⟨⟨q', t'⟩, ha, hb⟩
      obtain ⟨u, rfl, rfl, hu⟩ := iha.mp ha
      obtain ⟨v, rfl, rfl, hv⟩ := ihb.mp hb
      refine ⟨u ++ v, by simp, ?_, u, v, rfl, ?_, hv⟩
      · rw [List.getLast?_append, Option.or_assoc]
      · rwa [List.head?_append] at hu
    · rintro ⟨m, rfl, rfl, u, v, rfl, hu, hv⟩
      refine ⟨(u.getLast?.or prev, v ++ t), iha.mpr ⟨u, by simp, rfl, ?_⟩, ihb.mpr ⟨v, rfl, ?_, hv⟩⟩
      · rwa [List.head?_append]
      · rw [List.getLast?_append, Option.or_assoc]
  | alt a b iha ihb =>
    simp only [ends, List.mem_append, iha, ihb, Matches]
    constructor
    · rintro (⟨m, hs, hq, hm⟩ | ⟨m, hs, hq, hm⟩)
      · exact ⟨m, hs, hq, .inl hm⟩
      · exact ⟨m, hs, hq, .inr hm⟩
    · rintro ⟨m, hs, hq, hm | hm⟩
      · exact .inl ⟨m, hs, hq, hm⟩
      · exact .inr ⟨m, hs, hq, hm⟩

theorem ends_nonempty {r : Pattern} {s : List Char} {prev : Option Char} :
    (!(r.ends (prev, s)).isEmpty) = true ↔ ∃ m t, s = m ++ t ∧ r.Matches prev m t.head? := by
  rw [Bool.not_eq_true', List.isEmpty_eq_false_iff_exists_mem]
  constructor
  · rintro ⟨⟨q, t⟩, hin⟩
    obtain ⟨m, hs, -, hm⟩ := mem_ends.mp hin
    exact ⟨m, t, hs, hm⟩
  · rintro ⟨m, t, hs, hm⟩
    exact ⟨(m.getLast?.or prev, t), mem_ends.mpr ⟨m, hs, rfl, hm⟩⟩

theorem search_iff {r : Pattern} {s : List Char} {prev : Option Char} :
    r.search prev s = true ↔
      ∃ a m b, s = a ++ m ++ b ∧ r.Matches (a.getLast?.or prev) m b.head? := by
  induction s generalizing prev with
  | nil =>
    rw [search, ends_nonempty]
    constructor
    · rintro ⟨m, t, hs, hm⟩
      exact ⟨[], m, t, hs, hm⟩
    · rintro ⟨a, m, b, hs, hm⟩
      cases a with
      | nil => exact ⟨m, b, hs, hm⟩
      | cons c a => cases hs
  | cons c s ih =>
    rw [search, Bool.or_eq_true, ends_nonempty, ih]
    constructor
    · rintro (⟨m, t, hs, hm⟩ | ⟨a, m, b, rfl, hm⟩)
      · exact ⟨[], m, t, hs, hm⟩
      · refine ⟨c :: a, m, b, rfl, ?_⟩
        rwa [getLast?_cons_or]
    · rintro ⟨a, m, b, hs, hm⟩
      cases a with
      | nil => exact .inl ⟨m, b, hs, hm⟩
      | cons d a =>
        obtain ⟨rfl, rfl⟩ := List.cons.inj hs
        rw [getLast?_cons_or] at hm
        exact .inr ⟨a, m, b, rfl, hm⟩

/-- Some part of the text is accepted between its neighbours. -/
theorem test_iff {r : Pattern} {s : String} :
    r.test s = true ↔ ∃ a m b, s.toList = a ++ m ++ b ∧ r.Matches a.getLast? m b.head? := by
  rw [test, search_iff]
  simp only [Option.or_none]

/-! ## Texts joined by a separator -/

/-- Only whether the neighbours are word characters matters. -/
theorem Matches.congr {r : Pattern} {prev prev' next next' : Option Char} {m : List Char}
    (h : r.Matches prev m next) (hp : wordAt prev = wordAt prev') (hn : wordAt next = wordAt next') :
    r.Matches prev' m next' := by
  induction r generalizing prev prev' next next' m with
  | empty => exact h
  | char p => exact h
  | boundary => exact ⟨h.1, by rw [← hp, ← hn]; exact h.2⟩
  | run p limit => exact h
  | seq a b iha ihb =>
    obtain ⟨u, v, rfl, hu, hv⟩ := h
    refine ⟨u, v, rfl, iha hu hp ?_, ihb hv ?_ hn⟩
    · cases v.head? with
      | none => exact hn
      | some c => rfl
    · cases u.getLast? with
      | none => exact hp
      | some c => rfl
  | alt a b iha ihb =>
    rcases h with h | h
    · exact .inl (iha h hp hn)
    · exact .inr (ihb h hp hn)

/-- No class of the pattern holds the character. -/
def avoids : Pattern → Char → Bool
  | .empty, _ | .boundary, _ => true
  | .char p, c | .run p _, c => !p c
  | .seq a b, c | .alt a b, c => a.avoids c && b.avoids c

def nullable : Pattern → Bool
  | .empty | .boundary | .run _ _ => true
  | .char _ => false
  | .seq a b => a.nullable && b.nullable
  | .alt a b => a.nullable || b.nullable

/-- Whether an accepted text can begin with the character. -/
def mayStart : Pattern → Char → Bool
  | .empty, _ | .boundary, _ => false
  | .char p, c | .run p _, c => p c
  | .seq a b, c => a.mayStart c || a.nullable && b.mayStart c
  | .alt a b, c => a.mayStart c || b.mayStart c

/-- Whether an accepted text can end with the character. -/
def mayEnd : Pattern → Char → Bool
  | .empty, _ | .boundary, _ => false
  | .char p, c | .run p _, c => p c
  | .seq a b, c => b.mayEnd c || b.nullable && a.mayEnd c
  | .alt a b, c => a.mayEnd c || b.mayEnd c

theorem Matches.not_mem {r : Pattern} {prev next : Option Char} {m : List Char} {c : Char}
    (h : r.Matches prev m next) (ha : r.avoids c = true) : c ∉ m := by
  induction r generalizing prev next m with
  | empty =>
    cases h
    exact List.not_mem_nil
  | char p =>
    obtain ⟨d, hd, rfl⟩ := h
    intro hc
    cases List.mem_singleton.mp hc
    simp [avoids, hd] at ha
  | boundary =>
    cases h.1
    exact List.not_mem_nil
  | run p limit =>
    intro hc
    have := h.1 c hc
    simp [avoids, this] at ha
  | seq a b iha ihb =>
    obtain ⟨u, v, rfl, hu, hv⟩ := h
    obtain ⟨ha, hb⟩ := Bool.and_eq_true_iff.mp ha
    intro hc
    rcases List.mem_append.mp hc with hc | hc
    · exact iha hu ha hc
    · exact ihb hv hb hc
  | alt a b iha ihb =>
    obtain ⟨ha, hb⟩ := Bool.and_eq_true_iff.mp ha
    rcases h with h | h
    · exact iha h ha
    · exact ihb h hb

/-- Whether characters of the list can spell a match. -/
def spelled (cs : List Char) : Pattern → Bool
  | .char p => cs.any p
  | .empty | .boundary | .run _ _ => true
  | .seq a b => a.spelled cs && b.spelled cs
  | .alt a b => a.spelled cs || b.spelled cs

theorem Matches.spelled {r : Pattern} {prev next : Option Char} {m cs : List Char}
    (h : r.Matches prev m next) (hm : m ⊆ cs) : r.spelled cs = true := by
  induction r generalizing prev next m with
  | empty => rfl
  | char p =>
    obtain ⟨c, hc, rfl⟩ := h
    exact List.any_eq_true.mpr ⟨c, hm (List.mem_singleton_self c), hc⟩
  | boundary => rfl
  | run p limit => rfl
  | seq a b iha ihb =>
    obtain ⟨u, v, rfl, hu, hv⟩ := h
    obtain ⟨hmu, hmv⟩ := List.append_subset.mp hm
    exact Bool.and_eq_true_iff.mpr ⟨iha hu hmu, ihb hv hmv⟩
  | alt a b iha ihb =>
    rcases h with h | h
    · exact Bool.or_eq_true_iff.mpr (.inl (iha h hm))
    · exact Bool.or_eq_true_iff.mpr (.inr (ihb h hm))

/-- A pattern is not in a text that lacks its characters. -/
theorem test_of_not_spelled {r : Pattern} {s : String} (h : r.spelled s.toList = false) :
    r.test s = false := by
  refine Bool.eq_false_iff.mpr fun htest => ?_
  obtain ⟨a, m, b, hs, hm⟩ := test_iff.mp htest
  have hsub : m ⊆ s.toList := by
    intro c hc
    rw [hs]
    exact List.mem_append_left _ (List.mem_append_right _ hc)
  exact Bool.eq_false_iff.mp h (hm.spelled hsub)

theorem Matches.ne_nil {r : Pattern} {prev next : Option Char} {m : List Char}
    (h : r.Matches prev m next) (hr : r.nullable = false) : m ≠ [] := by
  induction r generalizing prev next m with
  | empty => cases hr
  | char p =>
    obtain ⟨d, -, rfl⟩ := h
    exact List.cons_ne_nil d []
  | boundary => cases hr
  | run p limit => cases hr
  | seq a b iha ihb =>
    obtain ⟨u, v, rfl, hu, hv⟩ := h
    intro hnil
    obtain ⟨hu', hv'⟩ := List.append_eq_nil_iff.mp hnil
    rcases Bool.and_eq_false_iff.mp hr with ha | hb
    · exact iha hu ha hu'
    · exact ihb hv hb hv'
  | alt a b iha ihb =>
    obtain ⟨ha, hb⟩ := Bool.or_eq_false_iff.mp hr
    rcases h with h | h
    · exact iha h ha
    · exact ihb h hb

theorem Matches.mayStart {r : Pattern} {prev next : Option Char} {m : List Char} {c : Char}
    (h : r.Matches prev m next) (hc : m.head? = some c) : r.mayStart c = true := by
  induction r generalizing prev next m with
  | empty =>
    cases h
    cases hc
  | char p =>
    obtain ⟨d, hd, rfl⟩ := h
    cases hc
    exact hd
  | boundary =>
    cases h.1
    cases hc
  | run p limit => exact h.1 c (List.mem_of_head? hc)
  | seq a b iha ihb =>
    obtain ⟨u, v, rfl, hu, hv⟩ := h
    rw [Pattern.mayStart, Bool.or_eq_true]
    cases u with
    | nil =>
      refine .inr (Bool.and_eq_true_iff.mpr ⟨?_, ihb hv hc⟩)
      by_contra hn
      exact hu.ne_nil (Bool.not_eq_true _ ▸ hn) rfl
    | cons d u => exact .inl (iha hu hc)
  | alt a b iha ihb =>
    rw [Pattern.mayStart, Bool.or_eq_true]
    rcases h with h | h
    · exact .inl (iha h hc)
    · exact .inr (ihb h hc)

theorem Matches.mayEnd {r : Pattern} {prev next : Option Char} {m : List Char} {c : Char}
    (h : r.Matches prev m next) (hc : m.getLast? = some c) : r.mayEnd c = true := by
  induction r generalizing prev next m with
  | empty =>
    cases h
    cases hc
  | char p =>
    obtain ⟨d, hd, rfl⟩ := h
    cases hc
    exact hd
  | boundary =>
    cases h.1
    cases hc
  | run p limit => exact h.1 c (List.mem_of_getLast? hc)
  | seq a b iha ihb =>
    obtain ⟨u, v, rfl, hu, hv⟩ := h
    rw [Pattern.mayEnd, Bool.or_eq_true]
    rw [List.getLast?_append] at hc
    cases hl : v.getLast? with
    | none =>
      rw [hl] at hc
      refine .inr (Bool.and_eq_true_iff.mpr ⟨?_, iha hu hc⟩)
      by_contra hn
      exact hv.ne_nil (Bool.not_eq_true _ ▸ hn) (List.getLast?_eq_none_iff.mp hl)
    | some d =>
      rw [hl] at hc
      cases hc
      exact .inl (ihb hv hl)
  | alt a b iha ihb =>
    rw [Pattern.mayEnd, Bool.or_eq_true]
    rcases h with h | h
    · exact .inl (iha h hc)
    · exact .inr (ihb h hc)

/-- A separator no match touches: no character of it is a word character or can begin or end a
match, and one of them lies in no class. -/
structure Separates (sep : List Char) (r : Pattern) : Prop where
  nonempty : r.nullable = false
  noWord : ∀ c ∈ sep, isWordChar c = false
  noStart : ∀ c ∈ sep, r.mayStart c = false
  noEnd : ∀ c ∈ sep, r.mayEnd c = false
  barrier : ∃ c ∈ sep, r.avoids c = true

theorem none_of_all {l : List Char} {p : Char → Bool} (h : (l.all fun c => !p c) = true) :
    ∀ c ∈ l, p c = false := by
  intro c hc
  exact (Bool.not_eq_true' _).mp (List.all_eq_true.mp h c hc)

theorem wordAt_head?_append {sep v : List Char} (h : ∀ c ∈ sep, isWordChar c = false)
    (hs : sep ≠ []) : wordAt (sep ++ v).head? = false := by
  cases sep with
  | nil => exact absurd rfl hs
  | cons c sep => exact h c (by simp)

theorem wordAt_getLast?_append {u sep : List Char} (h : ∀ c ∈ sep, isWordChar c = false)
    (hs : sep ≠ []) : wordAt (u ++ sep).getLast? = false := by
  rw [List.getLast?_append]
  cases hl : sep.getLast? with
  | none => exact absurd (List.getLast?_eq_none_iff.mp hl) hs
  | some c => exact h c (List.mem_of_getLast? hl)

/-- A match inside two separated texts lies inside one of them. -/
theorem Separates.match_side {sep : List Char} {r : Pattern} (hsep : Separates sep r)
    {u v a m b : List Char} {prev next : Option Char} (hs : u ++ (sep ++ v) = a ++ (m ++ b))
    (hm : r.Matches prev m next) :
    (∃ b', u = a ++ (m ++ b') ∧ b = b' ++ (sep ++ v)) ∨
      ∃ a', v = a' ++ (m ++ b) ∧ a = u ++ (sep ++ a') := by
  have hne := hm.ne_nil hsep.nonempty
  rcases List.append_eq_append_iff.mp hs with ⟨w, rfl, hw⟩ | ⟨w, rfl, hw⟩
  · rcases List.append_eq_append_iff.mp hw with ⟨a', rfl, hv⟩ | ⟨k, rfl, hk⟩
    · exact .inr ⟨a', hv, rfl⟩
    · cases k with
      | nil => exact .inr ⟨[], by simpa using hk.symm, by simp⟩
      | cons c k =>
        cases m with
        | nil => exact absurd rfl hne
        | cons d m =>
          obtain ⟨rfl, -⟩ := List.cons.inj hk
          have hno := hsep.noStart d (by simp)
          rw [hm.mayStart rfl] at hno
          cases hno
  · rcases List.append_eq_append_iff.mp hw with ⟨k, rfl, hk⟩ | ⟨k, rfl, hk⟩
    · exact .inl ⟨k, rfl, hk⟩
    · rcases List.append_eq_append_iff.mp hk with ⟨l, rfl, -⟩ | ⟨l, rfl, rfl⟩
      · obtain ⟨c, hc, ha⟩ := hsep.barrier
        exact absurd (by simp [hc]) (hm.not_mem ha)
      · cases hl : k.getLast? with
        | none =>
          cases List.getLast?_eq_none_iff.mp hl
          exact .inl ⟨[], by simp, by simp⟩
        | some c =>
          have hno := hsep.noEnd c (by simp [List.mem_of_getLast? hl])
          rw [hm.mayEnd (c := c) (by rw [List.getLast?_append, hl]; rfl)] at hno
          cases hno

theorem Separates.test_append {sep : List Char} {r : Pattern} (hsep : Separates sep r)
    (u v : List Char) :
    r.search none (u ++ (sep ++ v)) = true ↔ r.search none u = true ∨ r.search none v = true := by
  have hs : sep ≠ [] := by
    obtain ⟨c, hc, -⟩ := hsep.barrier
    exact List.ne_nil_of_mem hc
  simp only [search_iff, Option.or_none, List.append_assoc]
  constructor
  · rintro ⟨a, m, b, h, hm⟩
    rcases hsep.match_side h hm with ⟨b', hu, rfl⟩ | ⟨a', hv, rfl⟩
    · refine .inl ⟨a, m, b', hu, hm.congr rfl ?_⟩
      cases b' with
      | nil =>
        rw [List.nil_append]
        exact wordAt_head?_append hsep.noWord hs
      | cons c b' => rfl
    · refine .inr ⟨a', m, b, hv, hm.congr ?_ rfl⟩
      cases hl : a'.getLast? with
      | none =>
        cases List.getLast?_eq_none_iff.mp hl
        rw [List.append_nil]
        exact wordAt_getLast?_append hsep.noWord hs
      | some c => rw [← List.append_assoc, List.getLast?_append, hl]; rfl
  · rintro (⟨a, m, b, rfl, hm⟩ | ⟨a, m, b, rfl, hm⟩)
    · refine ⟨a, m, b ++ (sep ++ v), by simp, hm.congr rfl ?_⟩
      cases b with
      | nil =>
        rw [List.nil_append]
        exact (wordAt_head?_append hsep.noWord hs).symm
      | cons c b => rfl
    · refine ⟨u ++ (sep ++ a), m, b, by simp, hm.congr ?_ rfl⟩
      cases hl : a.getLast? with
      | none =>
        cases List.getLast?_eq_none_iff.mp hl
        rw [List.append_nil]
        exact (wordAt_getLast?_append hsep.noWord hs).symm
      | some c => rw [← List.append_assoc, List.getLast?_append, hl]; rfl

/-! ## Texts with characters around them that no match touches -/

theorem wordAt_getLast?_front {front a : List Char} (h : ∀ c ∈ front, isWordChar c = false) :
    wordAt (front ++ a).getLast? = wordAt a.getLast? := by
  rw [List.getLast?_append]
  cases a.getLast? with
  | some c => rfl
  | none =>
    cases hf : front.getLast? with
    | none => rfl
    | some c => exact h c (List.mem_of_getLast? hf)

theorem wordAt_head?_back {b back : List Char} (h : ∀ c ∈ back, isWordChar c = false) :
    wordAt (b ++ back).head? = wordAt b.head? := by
  cases b with
  | cons c b => rfl
  | nil =>
    cases back with
    | nil => rfl
    | cons c back => exact h c (by simp)

/-- A match does not start in front of the text. -/
theorem Matches.behind_front {r : Pattern} (hr : r.nullable = false) {front rest a m b : List Char}
    {prev next : Option Char} (hm : r.Matches prev m next)
    (hstart : ∀ c ∈ front, r.mayStart c = false) (hs : a ++ (m ++ b) = front ++ rest) :
    ∃ a', a = front ++ a' ∧ a' ++ (m ++ b) = rest := by
  rcases List.append_eq_append_iff.mp hs with ⟨w, rfl, hw⟩ | ⟨w, rfl, hw⟩
  · cases w with
    | nil => exact ⟨[], by simp, by simpa using hw⟩
    | cons c w =>
      cases m with
      | nil => exact absurd rfl (hm.ne_nil hr)
      | cons d m =>
        obtain ⟨rfl, -⟩ := List.cons.inj hw
        have hno := hstart d (by simp)
        rw [hm.mayStart rfl] at hno
        cases hno
  · exact ⟨w, rfl, hw.symm⟩

/-- Nor does it end behind the text. -/
theorem Matches.before_back {r : Pattern} (hr : r.nullable = false) {back rest a m b : List Char}
    {prev next : Option Char} (hm : r.Matches prev m next)
    (hend : ∀ c ∈ back, r.mayEnd c = false) (hs : a ++ m ++ b = rest ++ back) :
    ∃ b', b = b' ++ back ∧ a ++ m ++ b' = rest := by
  rcases List.append_eq_append_iff.mp hs with ⟨w, rfl, rfl⟩ | ⟨w, hw, rfl⟩
  · exact ⟨w, rfl, rfl⟩
  · cases hl : w.getLast? with
    | none =>
      cases List.getLast?_eq_none_iff.mp hl
      exact ⟨[], by simp, by simpa using hw⟩
    | some c =>
      have hlast : m.getLast? = some c := by
        have hsame := congrArg List.getLast? hw
        rw [List.getLast?_append, List.getLast?_append, hl] at hsame
        cases hm' : m.getLast? with
        | none => exact absurd (List.getLast?_eq_none_iff.mp hm') (hm.ne_nil hr)
        | some d =>
          rw [hm'] at hsame
          exact hsame
      have hno := hend c (by simp [List.mem_of_getLast? hl])
      rw [hm.mayEnd hlast] at hno
      cases hno

/-- Characters that no match starts or ends with do not change a search. -/
theorem search_surround {r : Pattern} (hr : r.nullable = false) {front back : List Char}
    (s : List Char) (hfront : ∀ c ∈ front, isWordChar c = false)
    (hback : ∀ c ∈ back, isWordChar c = false) (hstart : ∀ c ∈ front, r.mayStart c = false)
    (hend : ∀ c ∈ back, r.mayEnd c = false) :
    r.search none (front ++ (s ++ back)) = r.search none s := by
  rw [Bool.eq_iff_iff, search_iff, search_iff]
  simp only [Option.or_none]
  constructor
  · rintro ⟨a, m, b, hs, hm⟩
    rw [List.append_assoc] at hs
    obtain ⟨a', rfl, hrest⟩ := hm.behind_front hr hstart hs.symm
    rw [← List.append_assoc] at hrest
    obtain ⟨b', rfl, hs'⟩ := hm.before_back hr hend hrest
    exact ⟨a', m, b', hs'.symm,
      hm.congr (wordAt_getLast?_front hfront) (wordAt_head?_back hback)⟩
  · rintro ⟨a, m, b, rfl, hm⟩
    exact ⟨front ++ a, m, b ++ back, by simp,
      hm.congr (wordAt_getLast?_front hfront).symm (wordAt_head?_back hback).symm⟩

theorem test_empty {r : Pattern} (hr : r.nullable = false) : r.test "" = false := by
  rw [Bool.eq_false_iff]
  intro h
  obtain ⟨a, m, b, hs, hm⟩ := test_iff.mp h
  have : m = [] := by
    have h' : a ++ m ++ b = [] := hs.symm
    simp only [List.append_eq_nil_iff] at h'
    exact h'.1.2
  exact hm.ne_nil hr this

/-- A text joined from parts matches when one of the parts does. -/
theorem Separates.test_join {sep : String} {r : Pattern} (hsep : Separates sep.toList r)
    (parts : List String) :
    r.test (String.intercalate sep parts) = true ↔ ∃ part ∈ parts, r.test part = true := by
  induction parts with
  | nil => simp [String.intercalate_nil, test_empty hsep.nonempty]
  | cons p ps ih =>
    cases ps with
    | nil => simp
    | cons q ps =>
      have hj : (String.intercalate sep (p :: q :: ps)).toList =
          p.toList ++ (sep.toList ++ (String.intercalate sep (q :: ps)).toList) := by
        simp [String.intercalate_cons_cons]
      rw [test, hj, hsep.test_append]
      simp only [List.mem_cons, exists_eq_or_imp] at ih ⊢
      rw [← ih]
      rfl

end Pattern

end T560.Foundation
