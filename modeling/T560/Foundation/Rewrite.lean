import Mathlib.Data.List.Basic

/-!
# Global replacement

A finder says what it captures at a place of a list and how many items it covers there. The
matches of a list are taken from the left and do not overlap. A list whose items stand for
texts is rewritten as the text itself is, when the patterns do not look inside of the items.
-/

namespace Rewrite

variable {α β γ δ : Type}

/-- The item before the place, the list behind it; the capture and the number of items
covered. -/
abbrev Finder (α γ : Type) := Option α → List α → Option (γ × Nat)

/-- The matches and the items between them. The number says how many items the last match still
covers. -/
def pieces (find : Finder α γ) : Nat → Option α → List α → List (α ⊕ γ)
  | _, _, [] => []
  | skip + 1, _, a :: rest => pieces find skip (some a) rest
  | 0, prev, a :: rest =>
    match find prev (a :: rest) with
    | some (g, n) => .inr g :: pieces find (n - 1) (some a) rest
    | none => .inl a :: pieces find 0 (some a) rest

/-- `text.replace(find, write)` with the global flag. -/
def replaceAll (find : Finder α γ) (write : γ → List α) (l : List α) : List α :=
  (pieces find 0 none l).flatMap (Sum.elim (fun a => [a]) write)

/-- The length of the shortest run of admitted items before a place where `close` holds; a run
has an item. -/
def shortest (ok : α → Bool) (close : List α → Bool) : List α → Option Nat
  | [] => none
  | a :: rest =>
    if ok a then if close rest then some 1 else (shortest ok close rest).map (· + 1) else none

theorem shortest_pos {ok : α → Bool} {close : List α → Bool} {l : List α} {n : Nat}
    (h : shortest ok close l = some n) : 0 < n := by
  cases l with
  | nil => simp [shortest] at h
  | cons a rest =>
    rw [shortest] at h
    split_ifs at h
    · simp at h
      omega
    · simp only [Option.map_eq_some_iff] at h
      omega

theorem shortest_close {ok : α → Bool} {close : List α → Bool} {l : List α} {n : Nat}
    (h : shortest ok close l = some n) : close (l.drop n) = true := by
  induction l generalizing n with
  | nil => simp [shortest] at h
  | cons a rest ih =>
    rw [shortest] at h
    split_ifs at h with hok hclose
    · obtain rfl : 1 = n := by simpa using h
      exact hclose
    · simp only [Option.map_eq_some_iff] at h
      obtain ⟨m, hm, rfl⟩ := h
      exact ih hm

theorem take_flatMap_take (f : α → List β) (l : List α) (n : Nat) :
    (l.flatMap f).take ((l.take n).flatMap f).length = (l.take n).flatMap f := by
  conv_lhs => rw [← List.take_append_drop n l, List.flatMap_append]
  simp

theorem drop_flatMap_take (f : α → List β) (l : List α) (n : Nat) :
    (l.flatMap f).drop ((l.take n).flatMap f).length = (l.drop n).flatMap f := by
  conv_lhs => rw [← List.take_append_drop n l, List.flatMap_append]
  simp

section Pieces
variable {find : Finder α γ}

/-- A finder that does not look back. -/
def Forward (find : Finder α γ) : Prop := ∀ prev prev' l, find prev l = find prev' l

theorem pieces_prev (hf : Forward find) (skip : Nat) (prev prev' : Option α) (l : List α) :
    pieces find skip prev l = pieces find skip prev' l := by
  cases l with
  | nil => cases skip <;> simp [pieces]
  | cons a rest =>
    cases skip with
    | zero => rw [pieces, pieces, hf prev prev']
    | succ n => rw [pieces, pieces]

theorem pieces_drop (hf : Forward find) (skip : Nat) (prev : Option α) (l : List α) :
    pieces find skip prev l = pieces find 0 none (l.drop skip) := by
  induction l generalizing skip prev with
  | nil => cases skip <;> simp [pieces]
  | cons a rest ih =>
    cases skip with
    | zero => exact pieces_prev hf 0 prev none _
    | succ n => rw [pieces, ih, List.drop_succ_cons]

theorem pieces_match (hf : Forward find) (prev : Option α) {a : α} {rest : List α} {g : γ} {n : Nat}
    (h : find none (a :: rest) = some (g, n + 1)) :
    pieces find 0 prev (a :: rest) = .inr g :: pieces find 0 none (rest.drop n) := by
  rw [pieces, hf prev none, h]
  exact congrArg _ (pieces_drop hf n (some a) rest)

theorem pieces_item (hf : Forward find) (prev : Option α) {a : α} {rest : List α}
    (h : find none (a :: rest) = none) :
    pieces find 0 prev (a :: rest) = .inl a :: pieces find 0 none rest := by
  rw [pieces, hf prev none, h]
  exact congrArg _ (pieces_prev hf 0 (some a) none rest)

theorem mem_of_inl {skip : Nat} {prev : Option α} {l : List α} {a : α}
    (h : .inl a ∈ pieces find skip prev l) : a ∈ l := by
  induction l generalizing skip prev with
  | nil => cases skip <;> simp [pieces] at h
  | cons b rest ih =>
    apply List.mem_cons.mpr
    cases skip with
    | succ n => exact Or.inr (ih h)
    | zero =>
      rw [pieces] at h
      cases hm : find prev (b :: rest) with
      | none =>
        rw [hm] at h
        rcases List.mem_cons.mp h with hb | hrest
        · exact Or.inl (Sum.inl.inj hb)
        · exact Or.inr (ih hrest)
      | some m =>
        rw [hm] at h
        rcases List.mem_cons.mp h with hb | hrest
        · cases hb
        · exact Or.inr (ih hrest)

/-- Every capture was found at some place of the list. -/
theorem found_of_inr {skip : Nat} {prev : Option α} {l : List α} {g : γ}
    (h : .inr g ∈ pieces find skip prev l) : ∃ prev' l' n, l' <:+ l ∧ find prev' l' = some (g, n) := by
  induction l generalizing skip prev with
  | nil => cases skip <;> simp [pieces] at h
  | cons b rest ih =>
    have later {skip : Nat} (hrest : .inr g ∈ pieces find skip (some b) rest) :
        ∃ prev' l' n, l' <:+ b :: rest ∧ find prev' l' = some (g, n) := by
      obtain ⟨prev', l', n, hl, hg⟩ := ih hrest
      exact ⟨prev', l', n, hl.trans (List.suffix_cons b rest), hg⟩
    cases skip with
    | succ n => exact later h
    | zero =>
      rw [pieces] at h
      cases hm : find prev (b :: rest) with
      | none =>
        rw [hm] at h
        rcases List.mem_cons.mp h with hb | hrest
        · cases hb
        · exact later hrest
      | some m =>
        rw [hm] at h
        rcases List.mem_cons.mp h with hb | hrest
        · obtain rfl := Sum.inr.inj hb
          exact ⟨prev, b :: rest, m.2, List.suffix_refl _, hm⟩
        · exact later hrest

theorem replaceAll_match (hf : Forward find) {write : γ → List α} {a : α} {rest : List α} {g : γ} {n : Nat}
    (h : find none (a :: rest) = some (g, n + 1)) :
    replaceAll find write (a :: rest) = write g ++ replaceAll find write (rest.drop n) := by
  rw [replaceAll, pieces_match hf none h, List.flatMap_cons]
  rfl

theorem replaceAll_item (hf : Forward find) {write : γ → List α} {a : α} {rest : List α}
    (h : find none (a :: rest) = none) :
    replaceAll find write (a :: rest) = a :: replaceAll find write rest := by
  rw [replaceAll, pieces_item hf none h, List.flatMap_cons]
  rfl

/-- Replacements that are shorter than what they cover are seen by the length of the list. -/
theorem length_replaceAll (hf : Forward find) {write : γ → List α} (l : List α)
    (hshort : ∀ back g n, back <:+ l → find none back = some (g, n) →
      (write g).length < n ∧ n ≤ back.length) :
    (replaceAll find write l = l ∧ ∀ back, back <:+ l → find none back = none) ∨
      ((replaceAll find write l).length < l.length ∧ ∃ back g n, back <:+ l ∧ find none back = some (g, n)) := by
  induction hlen : l.length using Nat.strongRecOn generalizing l with
  | ind k ih =>
    cases l with
    | nil =>
      left
      refine ⟨rfl, ?_⟩
      intro back hback
      obtain rfl := List.suffix_nil.mp hback
      cases hfind : find none [] with
      | none => rfl
      | some found =>
        have := hshort [] found.1 found.2 (List.suffix_refl _) hfind
        simp only [List.length_nil] at this
        omega
    | cons a rest =>
      rw [List.length_cons] at hlen
      cases hfind : find none (a :: rest) with
      | some found =>
        obtain ⟨g, n⟩ := found
        obtain ⟨hless, hinside⟩ := hshort _ g n (List.suffix_refl _) hfind
        obtain ⟨m, rfl⟩ : ∃ m, n = m + 1 := ⟨n - 1, by omega⟩
        right
        refine ⟨?_, a :: rest, g, m + 1, List.suffix_refl _, hfind⟩
        rw [replaceAll_match hf hfind, List.length_append]
        have hdrop : rest.drop m <:+ a :: rest := (List.drop_suffix m rest).trans (List.suffix_cons a rest)
        have hle : (replaceAll find write (rest.drop m)).length ≤ (rest.drop m).length := by
          rcases ih _ (by rw [List.length_drop]; omega) (rest.drop m)
            (fun back g n hback => hshort back g n (hback.trans hdrop)) rfl with h | h
          · exact Nat.le_of_eq (congrArg List.length h.1)
          · omega
        rw [List.length_drop] at hle
        rw [List.length_cons] at hinside
        omega
      | none =>
        have hrest : rest <:+ a :: rest := List.suffix_cons a rest
        rw [replaceAll_item hf hfind]
        rcases ih _ (by omega) rest (fun back g n hback => hshort back g n (hback.trans hrest)) rfl with
          ⟨hsame, hnone⟩ | ⟨hless, back, g, n, hback, hfound⟩
        · left
          rw [hsame]
          refine ⟨rfl, ?_⟩
          intro back hback
          rcases List.suffix_cons_iff.mp hback with rfl | hback
          · exact hfind
          · exact hnone back hback
        · right
          rw [List.length_cons]
          exact ⟨by omega, back, g, n, hback.trans hrest, hfound⟩

/-- What each replacement keeps of the items it covers, replacing all of them keeps. -/
theorem flatMap_replaceAll {write : γ → List α} (q : α → List δ) (l : List α)
    (hw : ∀ prev back g n, back <:+ l → find prev back = some (g, n) →
      0 < n ∧ (write g).flatMap q = (back.take n).flatMap q) :
    (replaceAll find write l).flatMap q = l.flatMap q := by
  have go (skip : Nat) (prev : Option α) :
      ((pieces find skip prev l).flatMap (Sum.elim (fun a => [a]) write)).flatMap q =
        (l.drop skip).flatMap q := by
    induction l generalizing skip prev with
    | nil => cases skip <;> simp [pieces]
    | cons a rest ih =>
      have ih := ih fun prev back g n hback => hw prev back g n (hback.trans (List.suffix_cons a rest))
      cases skip with
      | succ n => rw [pieces, ih, List.drop_succ_cons]
      | zero =>
        rw [pieces]
        cases hm : find prev (a :: rest) with
        | none =>
          dsimp only
          rw [List.flatMap_cons, List.flatMap_append, ih, Sum.elim_inl, List.drop_zero,
            List.drop_zero, ← List.flatMap_append]
          rfl
        | some m =>
          obtain ⟨hpos, hkeep⟩ := hw prev _ m.1 m.2 (List.suffix_refl _) hm
          obtain ⟨n, hn⟩ := Nat.exists_eq_add_of_lt hpos
          rw [Nat.zero_add] at hn
          dsimp only
          rw [List.flatMap_cons, List.flatMap_append, ih, Sum.elim_inr, hkeep, hn,
            List.take_succ_cons, Nat.add_sub_cancel, ← List.flatMap_append, List.cons_append,
            List.take_append_drop, List.drop_zero]
  simpa [replaceAll] using go 0 none

theorem filterMap_replaceAll {write : γ → List α} (q : α → Option δ)
    (hw : ∀ prev l g n, find prev l = some (g, n) →
      0 < n ∧ (write g).filterMap q = (l.take n).filterMap q)
    (l : List α) : (replaceAll find write l).filterMap q = l.filterMap q := by
  have htoList : ∀ m : List α, m.filterMap q = m.flatMap fun a => (q a).toList := by
    intro m
    exact List.filterMap_eq_flatMap_toList q m
  rw [htoList, htoList]
  refine flatMap_replaceAll _ l fun prev back g n _ h => ?_
  rw [← htoList, ← htoList]
  exact hw prev back g n h

/-- The finder with the items that its matches cover. -/
def covered (find : Finder α γ) : Finder α (γ × List α) := fun prev l =>
  (find prev l).map fun m => ((m.1, l.take m.2), m.2)

/-- The matches and the items between them are the list. -/
theorem flatMap_covered (hpos : ∀ prev l m, find prev l = some m → 0 < m.2) (l : List α) :
    (pieces (covered find) 0 none l).flatMap (Sum.elim (fun a => [a]) Prod.snd) = l := by
  have hkeep := @filterMap_replaceAll _ _ _ (covered find) Prod.snd some (by
    intro prev l g n h
    obtain ⟨m, hm, heq⟩ := Option.map_eq_some_iff.mp h
    obtain ⟨rfl, rfl⟩ := Prod.mk.inj heq
    exact ⟨hpos prev l m hm, rfl⟩) l
  rwa [List.filterMap_some, List.filterMap_some] at hkeep

theorem found_covered {l : List α} {g : γ × List α}
    (h : .inr g ∈ pieces (covered find) 0 none l) :
    ∃ prev back n, find prev back = some (g.1, n) ∧ g.2 = back.take n := by
  obtain ⟨prev, back, n, -, hfound⟩ := found_of_inr h
  obtain ⟨m, hm, heq⟩ := Option.map_eq_some_iff.mp hfound
  obtain ⟨rfl, rfl⟩ := Prod.mk.inj heq
  exact ⟨prev, back, m.2, hm, rfl⟩

end Pieces

section Coarse

/-- Every item stands for one unit, or for several that no pattern looks for. -/
structure Coarse (f : α → List β) (plain : β → Prop) : Prop where
  ne_nil : ∀ a, f a ≠ []
  single_or_plain : ∀ a, (∃ b, f a = [b]) ∨ ∀ b ∈ f a, plain b

variable {f : α → List β} {plain : β → Prop}

theorem Coarse.behind_plain (hc : Coarse f plain) {a : α} {b : β} {bs : List β} (h : f a = b :: bs) :
    ∀ c ∈ bs, plain c := by
  intro c hmem
  rcases hc.single_or_plain a with ⟨d, hd⟩ | hplain
  · rw [hd] at h
    simp_all
  · apply hplain
    simp [h, hmem]

section Shortest
variable {ok : β → Bool} {close : List β → Bool}

theorem shortest_run (hok : ∀ b, plain b → ok b = true)
    (hclose : ∀ b l, plain b → close (b :: l) = false) {b : β} {bs : List β} (hb : ok b = true)
    (hbs : ∀ c ∈ bs, plain c) (rest : List β) :
    shortest ok close (b :: (bs ++ rest)) =
      if close rest then some (bs.length + 1)
      else (shortest ok close rest).map (· + (bs.length + 1)) := by
  induction bs generalizing b with
  | nil => simp [shortest, hb]
  | cons c bs ih =>
    have hc : plain c := hbs c (by simp)
    rw [shortest, if_pos hb, List.cons_append, hclose c _ hc, if_neg (by simp),
      ih (hok c hc) fun d hd => hbs d (by simp [hd])]
    split_ifs
    · simp
    · cases shortest ok close rest with
      | none => rfl
      | some n =>
        simp only [Option.map_some, List.length_cons, Option.some.injEq]
        omega

theorem shortest_flatMap {ok' : α → Bool} {close' : List α → Bool} (hc : Coarse f plain)
    (hok : ∀ b, plain b → ok b = true) (hclose : ∀ b l, plain b → close (b :: l) = false)
    (hok' : ∀ a, ∀ b ∈ f a, ok b = ok' a) (hclose' : ∀ l, close (l.flatMap f) = close' l)
    (l : List α) :
    shortest ok close (l.flatMap f) =
      (shortest ok' close' l).map fun n => ((l.take n).flatMap f).length := by
  induction l with
  | nil => rfl
  | cons a rest ih =>
    obtain ⟨b, bs, hf⟩ := List.exists_cons_of_ne_nil (hc.ne_nil a)
    have hb : ok b = ok' a := hok' a b (by simp [hf])
    rw [List.flatMap_cons, hf, List.cons_append]
    by_cases h : ok' a = true
    · rw [shortest_run hok hclose (hb.trans h) (hc.behind_plain hf), hclose', ih, shortest, if_pos h]
      split_ifs
      · simp [hf]
      · cases shortest ok' close' rest with
        | none => rfl
        | some n =>
          simp only [Option.map_some, Option.some.injEq, List.take_succ_cons, List.flatMap_cons, hf,
            List.length_append, List.length_cons]
          omega
    · rw [shortest, shortest, hb, if_neg h, if_neg h]
      rfl

end Shortest

/-- At the borders of the items the second finder finds what the first one does, and inside of
an item nothing. -/
structure Simulates (f : α → List β) (plain : β → Prop) (find : Finder α γ) (find' : Finder β δ)
    (capture : γ → δ) : Prop where
  inside : ∀ prev b l, plain b → find' prev (b :: l) = none
  border : ∀ prev l, find' (prev.bind fun a => (f a).getLast?) (l.flatMap f) =
    (find prev l).map fun m => (capture m.1, ((l.take m.2).flatMap f).length)
  covers : ∀ prev l m, find prev l = some m → 0 < m.2

variable {find : Finder α γ} {find' : Finder β δ} {capture : γ → δ}

theorem pieces_plain (h : Simulates f plain find find' capture) {bs : List β}
    (hbs : ∀ b ∈ bs, plain b) (prev : Option β) (rest : List β) :
    pieces find' 0 prev (bs ++ rest) =
      bs.map .inl ++ pieces find' 0 (bs.getLast?.or prev) rest := by
  induction bs generalizing prev with
  | nil => simp
  | cons b bs ih =>
    rw [List.cons_append, pieces, h.inside prev b _ (hbs b (by simp))]
    dsimp only
    rw [ih (fun c hc => hbs c (by simp [hc])), List.map_cons, List.cons_append]
    cases bs <;> simp [List.getLast?_cons]

theorem pieces_covered (find' : Finder β δ) (bs : List β) (n : Nat) (prev : Option β) (rest : List β) :
    pieces find' (bs.length + n) prev (bs ++ rest) = pieces find' n (bs.getLast?.or prev) rest := by
  induction bs generalizing prev with
  | nil => simp
  | cons b bs ih =>
    rw [List.length_cons, Nat.add_right_comm, List.cons_append, pieces, ih]
    cases bs <;> simp [List.getLast?_cons]

theorem getLast?_or_of_ne_nil {bs : List β} (h : bs ≠ []) (prev : Option β) :
    bs.getLast?.or prev = bs.getLast? := by
  rw [List.getLast?_eq_some_getLast h]
  rfl

theorem pieces_flatMap (hc : Coarse f plain) (h : Simulates f plain find find' capture) (skip : Nat)
    (prev : Option α) (l : List α) :
    pieces find' ((l.take skip).flatMap f).length (prev.bind fun a => (f a).getLast?) (l.flatMap f) =
      (pieces find skip prev l).flatMap
        (Sum.elim (fun a => (f a).map .inl) fun g => [.inr (capture g)]) := by
  induction l generalizing skip prev with
  | nil => cases skip <;> simp [pieces]
  | cons a rest ih =>
    have hne := hc.ne_nil a
    cases skip with
    | succ n =>
      rw [List.take_succ_cons, List.flatMap_cons, List.flatMap_cons, List.length_append,
        pieces_covered, getLast?_or_of_ne_nil hne, pieces]
      exact ih n (some a)
    | zero =>
      have hborder := h.border prev (a :: rest)
      obtain ⟨b, bs, hf⟩ := List.exists_cons_of_ne_nil hne
      rw [List.take_zero, List.flatMap_nil, List.length_nil, pieces]
      rw [List.flatMap_cons, hf, List.cons_append] at hborder ⊢
      rw [pieces, hborder]
      cases hm : find prev (a :: rest) with
      | none =>
        dsimp only [Option.map_none]
        rw [pieces_plain h (hc.behind_plain hf), List.flatMap_cons, Sum.elim_inl, hf, List.map_cons,
          List.cons_append]
        have hlast : bs.getLast?.or (some b) = (some a).bind fun a => (f a).getLast? := by
          rw [Option.bind_some, hf]
          cases bs <;> simp [List.getLast?_cons]
        rw [hlast]
        exact congrArg _ (congrArg _ (ih 0 (some a)))
      | some m =>
        obtain ⟨g, n⟩ := m
        have hn := h.covers prev _ _ hm
        obtain ⟨n, rfl⟩ := Nat.exists_eq_add_of_lt hn
        simp only [Nat.zero_add] at hn ⊢
        dsimp only [Option.map_some]
        have hlength : (((a :: rest).take (n + 1)).flatMap f).length - 1 =
            bs.length + ((rest.take n).flatMap f).length := by
          simp [hf]
        have hlast : bs.getLast?.or (some b) = (some a).bind fun a => (f a).getLast? := by
          rw [Option.bind_some, hf]
          cases bs <;> simp [List.getLast?_cons]
        rw [hlength, pieces_covered, hlast, ih n (some a), List.flatMap_cons, Sum.elim_inr]
        rfl

/-- What is found in what the items stand for. -/
theorem pieces_flatMap_none (hc : Coarse f plain) (h : Simulates f plain find find' capture) (l : List α) :
    pieces find' 0 none (l.flatMap f) =
      (pieces find 0 none l).flatMap (Sum.elim (fun a => (f a).map .inl) fun g => [.inr (capture g)]) := by
  have hpieces := pieces_flatMap hc h 0 none l
  rwa [List.take_zero, List.flatMap_nil, List.length_nil, Option.bind_none] at hpieces

/-- Rewriting the items and rewriting the text they stand for. -/
theorem replaceAll_flatMap (hc : Coarse f plain) (h : Simulates f plain find find' capture)
    {write : γ → List α} {write' : δ → List β} (hw : ∀ g, write' (capture g) = (write g).flatMap f)
    (l : List α) : replaceAll find' write' (l.flatMap f) = (replaceAll find write l).flatMap f := by
  rw [replaceAll, replaceAll, pieces_flatMap_none hc h, List.flatMap_assoc, List.flatMap_assoc]
  apply List.flatMap_congr
  rintro (a | g) -
  · simp [List.flatMap_map]
  · simp [hw]

theorem Simulates.covered (h : Simulates f plain find find' capture) :
    Simulates f plain (covered find) find' fun g => capture g.1 where
  inside := h.inside
  border := by
    intro prev l
    rw [h.border, Rewrite.covered, Option.map_map]
    rfl
  covers := by
    intro prev l m hm
    obtain ⟨m', hm', rfl⟩ := Option.map_eq_some_iff.mp hm
    exact h.covers prev l m' hm'

theorem Simulates.covered_both (h : Simulates f plain find find' capture) :
    Simulates f plain (Rewrite.covered find) (Rewrite.covered find') fun g => (capture g.1, g.2.flatMap f) where
  inside := by
    intro prev b l hb
    rw [Rewrite.covered, h.inside prev b l hb]
    rfl
  border := by
    intro prev l
    rw [Rewrite.covered, Rewrite.covered, h.border, Option.map_map, Option.map_map]
    refine Option.map_congr fun m _ => ?_
    simp only [Function.comp_apply, take_flatMap_take]
  covers := h.covered.covers

end Coarse

end Rewrite
