/-!
# A cursor over visited places

The places of a visit with the one that is looked at. A new place goes behind the current one, in
the place of those that were ahead. A list with an index shows such a cursor when the index is one
of the list.
-/

namespace Visit

structure Cursor (α : Type) where
  /-- What lies behind, the nearest place first. -/
  past : List α
  here : α
  ahead : List α
  deriving DecidableEq, Repr

namespace Cursor
variable {α : Type}

def start (a : α) : Cursor α := ⟨[], a, []⟩

def places (c : Cursor α) : List α := c.past.reverse ++ c.here :: c.ahead

def index (c : Cursor α) : Nat := c.past.length

/-- Go on to a new place: what was ahead is gone. -/
def visit (c : Cursor α) (a : α) : Cursor α := ⟨c.here :: c.past, a, []⟩

/-- Put another place where the cursor is. -/
def revise (c : Cursor α) (a : α) : Cursor α := { c with here := a }

def back : Cursor α → Cursor α
  | ⟨[], here, ahead⟩ => ⟨[], here, ahead⟩
  | ⟨a :: past, here, ahead⟩ => ⟨past, a, here :: ahead⟩

def forward : Cursor α → Cursor α
  | ⟨past, here, []⟩ => ⟨past, here, []⟩
  | ⟨past, here, a :: ahead⟩ => ⟨here :: past, a, ahead⟩

variable (c : Cursor α) (a b : α)

@[simp] theorem here_start : (start a).here = a := rfl
@[simp] theorem here_visit : (c.visit a).here = a := rfl
@[simp] theorem here_revise : (c.revise a).here = a := rfl
@[simp] theorem index_visit : (c.visit a).index = c.index + 1 := rfl
@[simp] theorem index_revise : (c.revise a).index = c.index := rfl
@[simp] theorem revise_revise : (c.revise a).revise b = c.revise b := rfl
@[simp] theorem revise_here : c.revise c.here = c := rfl
@[simp] theorem revise_visit : (c.visit a).revise b = c.visit b := rfl

theorem getElem?_index : c.places[c.index]? = some c.here := by
  simp [index, places]

theorem places_visit : (c.visit a).places = c.places.take (c.index + 1) ++ [a] := by
  have hlength : c.past.reverse.length = c.index := List.length_reverse
  rw [places, places, List.take_append, hlength, List.take_of_length_le (by omega),
    Nat.add_sub_cancel_left]
  simp [visit]

theorem places_revise : (c.revise a).places = c.places.set c.index a := by
  simp [places, index, revise]

theorem places_back : c.back.places = c.places := by
  obtain ⟨past, here, ahead⟩ := c
  cases past <;> simp [back, places]

theorem index_back : c.back.index = c.index - 1 := by
  obtain ⟨past, here, ahead⟩ := c
  cases past <;> rfl

theorem places_forward : c.forward.places = c.places := by
  obtain ⟨past, here, ahead⟩ := c
  cases ahead <;> simp [forward, places]

theorem index_forward : c.forward.index = min (c.places.length - 1) (c.index + 1) := by
  obtain ⟨past, here, ahead⟩ := c
  cases ahead <;> simp [forward, index, places]

/-- Every index of a list is where a cursor can be. -/
theorem exists_places {l : List α} {i : Nat} {a : α} (h : l[i]? = some a) :
    ∃ c : Cursor α, c.places = l ∧ c.index = i ∧ c.here = a := by
  obtain ⟨hlt, rfl⟩ := List.getElem?_eq_some_iff.mp h
  refine ⟨⟨(l.take i).reverse, l[i], l.drop (i + 1)⟩, ?_, ?_, rfl⟩
  · rw [places, List.reverse_reverse, List.getElem_cons_drop, List.take_append_drop]
  · rw [index, List.length_reverse, List.length_take]
    omega

end Cursor

end Visit
