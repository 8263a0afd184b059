import Mathlib.Data.List.Nodup
import Mathlib.Data.List.Perm.Basic
import Mathlib.Logic.Function.Basic

/-!
# A table of open requests

A request is opened under a key and leaves the table when it is settled with an outcome. Settling
a key that is not open changes nothing, so that a second answer, or one that comes too late, has
no effect.
-/

namespace Correlation

structure Table (κ ω : Type) where
  pending : List κ
  settled : List (κ × ω)

variable {κ ω : Type}

def Table.empty : Table κ ω := ⟨[], []⟩

/-- A request waits for its outcome. -/
def Table.add (t : Table κ ω) (k : κ) : Table κ ω := { t with pending := t.pending ++ [k] }

/-- A request that has its outcome from the start. -/
def Table.refuse (t : Table κ ω) (k : κ) (outcome : ω) : Table κ ω :=
  { t with settled := t.settled ++ [(k, outcome)] }

def Table.settle [DecidableEq κ] (t : Table κ ω) (k : κ) (outcome : ω) : Table κ ω :=
  if k ∈ t.pending then ⟨t.pending.erase k, t.settled ++ [(k, outcome)]⟩ else t

/-- Every open request gets the outcome. -/
def Table.settleAll (t : Table κ ω) (outcome : ω) : Table κ ω :=
  ⟨[], t.settled ++ t.pending.map fun k => (k, outcome)⟩

def Table.keys (t : Table κ ω) : List κ := t.pending ++ t.settled.map Prod.fst

/-- Every request that was opened is in the table once: it waits, or it has an outcome. -/
def Table.Accounts (t : Table κ ω) (opened : List κ) : Prop := t.keys.Perm opened

section Accounts
variable {t : Table κ ω} {opened : List κ} {k : κ} {outcome : ω}

theorem accounts_empty : (Table.empty : Table κ ω).Accounts [] := List.Perm.refl []

theorem Table.Accounts.add (h : t.Accounts opened) (k : κ) : (t.add k).Accounts (opened ++ [k]) := by
  have hkeys : (t.add k).keys.Perm (t.keys ++ [k]) := by
    simp only [Table.keys, Table.add, List.append_assoc]
    exact List.Perm.append_left _ List.perm_append_comm
  exact hkeys.trans (List.Perm.append_right [k] h)

theorem Table.Accounts.refuse (h : t.Accounts opened) (k : κ) (outcome : ω) :
    (t.refuse k outcome).Accounts (opened ++ [k]) := by
  have hkeys : (t.refuse k outcome).keys = t.keys ++ [k] := by
    simp [Table.keys, Table.refuse]
  rw [Table.Accounts, hkeys]
  exact List.Perm.append_right [k] h

theorem Table.Accounts.settle [DecidableEq κ] (h : t.Accounts opened) (k : κ) (outcome : ω) :
    (t.settle k outcome).Accounts opened := by
  rw [Table.settle]
  split_ifs with hk
  · have hkeys : (t.pending.erase k ++ (t.settled ++ [(k, outcome)]).map Prod.fst).Perm t.keys := by
      rw [List.map_append, ← List.append_assoc, Table.keys]
      calc (t.pending.erase k ++ t.settled.map Prod.fst ++ [k]).Perm
            (k :: (t.pending.erase k ++ t.settled.map Prod.fst)) := List.perm_append_singleton k _
        _ = (k :: t.pending.erase k) ++ t.settled.map Prod.fst := rfl
        List.Perm _ (t.pending ++ t.settled.map Prod.fst) :=
          List.Perm.append_right _ (List.perm_cons_erase hk).symm
    exact hkeys.trans h
  · exact h

theorem Table.Accounts.settleAll (h : t.Accounts opened) (outcome : ω) :
    (t.settleAll outcome).Accounts opened := by
  have hkeys : (t.settleAll outcome).keys.Perm t.keys := by
    have hfst : (t.pending.map fun k => (k, outcome)).map Prod.fst = t.pending := by
      simp [Function.comp_def]
    simp only [Table.keys, Table.settleAll, List.nil_append, List.map_append, hfst]
    exact List.perm_append_comm
  exact hkeys.trans h

theorem Table.Accounts.pending_nodup (h : t.Accounts opened) (hopened : opened.Nodup) :
    t.pending.Nodup :=
  (List.nodup_append.mp (h.nodup_iff.mpr hopened)).1

end Accounts

end Correlation
