import Mathlib.Data.List.Basic

/-!
# Matching by preference

A matcher gives the places at which its match can end, in the order in which a backtracking search
tries them. What a search finds is the first end of the first place that has one.
-/

namespace Preference

/-- The item before the place and the list behind it. -/
abbrev Place (α : Type) := Option α × List α

abbrev Matcher (α : Type) := Place α → List (Place α)

section Matchers

variable {α : Type}

def item (p : α → Bool) : Matcher α
  | (_, []) => []
  | (_, a :: rest) => if p a then [(some a, rest)] else []

/-- A condition on the neighbours of the place. -/
def side (ok : Option α → Option α → Bool) : Matcher α := fun at_ =>
  if ok at_.1 at_.2.head? then [at_] else []

def seq (a b : Matcher α) : Matcher α := fun at_ => (a at_).flatMap b

def either (ms : List (Matcher α)) : Matcher α := fun at_ => ms.flatMap fun m => m at_

/-- The items one after the other. -/
def items : List (α → Bool) → Matcher α
  | [] => fun at_ => [at_]
  | p :: ps => seq (item p) (items ps)

/-- At most so many times, as often as possible first. -/
def upTo (m : Matcher α) : Nat → Matcher α
  | 0 => fun at_ => [at_]
  | n + 1 => fun at_ => (m at_).flatMap (upTo m n) ++ [at_]

/-- Any number of times, for a matcher that covers an item. -/
def many (m : Matcher α) : Matcher α := fun at_ => upTo m at_.2.length at_

/-- The start and the end of the first match. -/
def exec (m : Matcher α) : Option α → List α → Option (Place α × Place α)
  | prev, [] => (m (prev, [])).head?.map fun e => ((prev, []), e)
  | prev, a :: rest =>
    match (m (prev, a :: rest)).head? with
    | some e => some ((prev, a :: rest), e)
    | none => exec m (some a) rest

/-- The items between two places. -/
def between (s e : Place α) : List α := s.2.take (s.2.length - e.2.length)

end Matchers

section Taking

variable {α : Type} {a b m : Matcher α} {u v l rest : List α}

/-- The preferred match in front of `rest` is `u`. -/
def Takes (m : Matcher α) (u rest : List α) : Prop :=
  ∀ prev, (m (prev, u ++ rest)).head? = some (u.getLast?.or prev, rest)

/-- There is no match at the beginning of the list. -/
def Fails (m : Matcher α) (l : List α) : Prop := ∀ prev, m (prev, l) = []

theorem getLast?_append_or (u v : List α) (prev : Option α) :
    v.getLast?.or (u.getLast?.or prev) = (u ++ v).getLast?.or prev := by
  rw [List.getLast?_append, Option.or_assoc]

theorem head?_flatMap {β γ : Type} {f : β → List γ} {l : List β} {x : β} {y : γ}
    (hl : l.head? = some x) (hf : (f x).head? = some y) : (l.flatMap f).head? = some y := by
  cases l with
  | nil => cases hl
  | cons z l =>
    obtain rfl : z = x := by simpa using hl
    rw [List.flatMap_cons, List.head?_append, hf]
    rfl

theorem takes_item {p : α → Bool} {x : α} (h : p x = true) : Takes (item p) [x] rest := by
  intro prev
  simp [item, h]

theorem fails_item {p : α → Bool} (h : ∀ x, l.head? = some x → p x = false) : Fails (item p) l := by
  intro prev
  cases l with
  | nil => rfl
  | cons x l => simp [item, h x rfl]

theorem takes_seq (ha : Takes a u (v ++ rest)) (hb : Takes b v rest) :
    Takes (seq a b) (u ++ v) rest := by
  intro prev
  rw [List.append_assoc]
  refine head?_flatMap (ha prev) ?_
  rw [hb, getLast?_append_or]

theorem fails_seq (h : Fails a l) : Fails (seq a b) l := by
  intro prev
  rw [seq, h prev]
  rfl

theorem takes_either_head {ms : List (Matcher α)} (h : Takes m u rest) :
    Takes (either (m :: ms)) u rest := by
  intro prev
  rw [either, List.flatMap_cons, List.head?_append, h prev]
  rfl

theorem takes_either_tail {ms : List (Matcher α)} (hm : Fails m (u ++ rest))
    (h : Takes (either ms) u rest) : Takes (either (m :: ms)) u rest := by
  intro prev
  rw [either, List.flatMap_cons, hm prev]
  exact h prev

theorem fails_either {ms : List (Matcher α)} (h : ∀ m ∈ ms, Fails m l) : Fails (either ms) l := by
  intro prev
  rw [either, List.flatMap_eq_nil_iff]
  intro m hm
  exact h m hm prev

theorem takes_upTo_nil {n : Nat} (h : Fails m rest) : Takes (upTo m n) [] rest := by
  intro prev
  cases n with
  | zero => rfl
  | succ n =>
    simp only [upTo, List.nil_append, h prev, List.flatMap_nil]
    rfl

theorem takes_upTo_zero : Takes (upTo m 0) [] rest := fun _ => rfl

theorem takes_upTo {n : Nat} (hm : Takes m u (v ++ rest)) (hrest : Takes (upTo m n) v rest) :
    Takes (upTo m (n + 1)) (u ++ v) rest := by
  intro prev
  have hhead := takes_seq hm hrest prev
  rw [seq] at hhead
  rw [upTo, List.head?_append, hhead]
  rfl

/-- A run of matches is taken whole when there is no further one. -/
theorem takes_upTo_flatten {n : Nat} {us : List (List α)} (hlen : us.length ≤ n)
    (hm : ∀ u ∈ us, ∀ t, Takes m u t) (hrest : Fails m rest) :
    Takes (upTo m n) us.flatten rest := by
  induction us generalizing n with
  | nil => exact takes_upTo_nil hrest
  | cons u us ih =>
    obtain ⟨k, rfl⟩ : ∃ k, n = k + 1 := ⟨n - 1, by simp at hlen; omega⟩
    rw [List.flatten_cons]
    refine takes_upTo (hm u (by simp) _) (ih ?_ ?_)
    · simpa using hlen
    · exact fun w hw => hm w (by simp [hw])

theorem takes_many_flatten (us : List (List α)) (hne : ∀ u ∈ us, u ≠ [])
    (hm : ∀ u ∈ us, ∀ t, Takes m u t) (hrest : Fails m rest) : Takes (many m) us.flatten rest := by
  intro prev
  have hlen : us.length ≤ (us.flatten ++ rest).length := by
    have : us.length ≤ us.flatten.length := by
      clear hm
      induction us with
      | nil => simp
      | cons u us ih =>
        have hu := List.length_pos_of_ne_nil (hne u (by simp))
        have := ih fun w hw => hne w (by simp [hw])
        simp only [List.flatten_cons, List.length_append, List.length_cons]
        omega
    rw [List.length_append]
    omega
  exact takes_upTo_flatten hlen hm hrest prev

theorem takes_many_nil (h : Fails m rest) : Takes (many m) [] rest :=
  fun prev => takes_upTo_nil h prev

theorem takes_items {ps : List (α → Bool)} (h : List.Forall₂ (fun p x => p x = true) ps u) :
    Takes (items ps) u rest := by
  induction h with
  | nil => exact fun _ => rfl
  | cons hx _ ih => exact takes_seq (takes_item hx) ih

/-- Every end lies behind the place. -/
def Advances (m : Matcher α) : Prop := ∀ p, ∀ q ∈ m p, q.2 <:+ p.2

theorem advances_item {p : α → Bool} : Advances (item p) := by
  rintro ⟨prev, l⟩ q hq
  cases l with
  | nil => cases hq
  | cons x l =>
    simp only [item] at hq
    split at hq
    · obtain rfl := List.mem_singleton.mp hq
      exact List.suffix_cons x l
    · cases hq

theorem advances_seq (ha : Advances a) (hb : Advances b) : Advances (seq a b) := by
  intro p q hq
  obtain ⟨r, hr, hq⟩ := List.mem_flatMap.mp hq
  exact (hb r q hq).trans (ha p r hr)

theorem advances_items (ps : List (α → Bool)) : Advances (items ps) := by
  induction ps with
  | nil =>
    intro p q hq
    obtain rfl := List.mem_singleton.mp hq
    exact List.suffix_refl _
  | cons p ps ih => exact advances_seq advances_item ih

theorem advances_upTo (hm : Advances m) (n : Nat) : Advances (upTo m n) := by
  induction n with
  | zero =>
    intro p q hq
    obtain rfl := List.mem_singleton.mp hq
    exact List.suffix_refl _
  | succ n ih =>
    intro p q hq
    rcases List.mem_append.mp hq with hq | hq
    · exact advances_seq hm ih p q hq
    · obtain rfl := List.mem_singleton.mp hq
      exact List.suffix_refl _

theorem advances_many (hm : Advances m) : Advances (many m) := fun p => advances_upTo hm _ p

/-- A sequence fails where its second part fails at every end of the first. -/
theorem fails_seq_behind (ha : Advances a) (hb : ∀ t, t <:+ l → Fails b t) : Fails (seq a b) l := by
  intro prev
  rw [seq, List.flatMap_eq_nil_iff]
  intro q hq
  exact hb q.2 (ha (prev, l) q hq) q.1

/-- What a sequence of items covers. -/
theorem mem_items {ps : List (α → Bool)} {p q : Place α} (h : q ∈ items ps p) :
    ∃ u, p.2 = u ++ q.2 ∧ List.Forall₂ (fun ok x => ok x = true) ps u := by
  induction ps generalizing p with
  | nil =>
    obtain rfl := List.mem_singleton.mp h
    exact ⟨[], rfl, .nil⟩
  | cons ok ps ih =>
    obtain ⟨r, hr, hq⟩ := List.mem_flatMap.mp h
    obtain ⟨u, hu, hall⟩ := ih hq
    obtain ⟨prev, l⟩ := p
    cases l with
    | nil => cases hr
    | cons x l =>
      simp only [item] at hr
      split at hr
      · next hx =>
        obtain rfl := List.mem_singleton.mp hr
        simp only at hu
        exact ⟨x :: u, by rw [hu]; rfl, .cons hx hall⟩
      · cases hr

end Taking

section Searching

variable {α : Type} {m : Matcher α} {u l rest : List α}

theorem exec_head {prev : Option α} {e : Place α} (h : (m (prev, l)).head? = some e) :
    exec m prev l = some ((prev, l), e) := by
  cases l with
  | nil =>
    rw [exec, h]
    rfl
  | cons x l => rw [exec, h]

theorem exec_takes (h : Takes m u rest) (prev : Option α) :
    exec m prev (u ++ rest) = some ((prev, u ++ rest), (u.getLast?.or prev, rest)) :=
  exec_head (h prev)

theorem mem_of_exec {prev : Option α} {s e : Place α} (h : exec m prev l = some (s, e)) :
    e ∈ m s := by
  induction l generalizing prev with
  | nil =>
    simp only [exec, Option.map_eq_some_iff, Prod.mk.injEq] at h
    obtain ⟨q, hq, rfl, rfl⟩ := h
    exact List.mem_of_mem_head? hq
  | cons x l ih =>
    rw [exec] at h
    split at h
    · next q hq =>
      obtain ⟨rfl, rfl⟩ := Prod.mk.inj (Option.some.inj h)
      exact List.mem_of_mem_head? hq
    · exact ih h

/-- A search passes items with which no match begins. -/
theorem exec_append {front : List α} (h : ∀ x ∈ front, ∀ t, Fails m (x :: t)) (prev : Option α) :
    exec m prev (front ++ l) = exec m (front.getLast?.or prev) l := by
  induction front generalizing prev with
  | nil => rfl
  | cons x front ih =>
    have hlast : front.getLast?.or (some x) = (x :: front).getLast?.or prev :=
      getLast?_append_or [x] front prev
    rw [List.cons_append, exec, h x (by simp) (front ++ l) prev]
    simp only [List.head?_nil]
    rw [ih (fun y hy => h y (by simp [hy])), hlast]

theorem exec_none (h : ∀ t, t <:+ l → Fails m t) (prev : Option α) : exec m prev l = none := by
  induction l generalizing prev with
  | nil =>
    rw [exec, h [] (List.suffix_refl _) prev]
    rfl
  | cons x l ih =>
    rw [exec, h (x :: l) (List.suffix_refl _) prev]
    exact ih (fun t ht => h t (ht.trans (List.suffix_cons x l))) _

theorem between_append {s e : Place α} (h : s.2 = u ++ e.2) : between s e = u := by
  simp [between, h]

end Searching

end Preference
