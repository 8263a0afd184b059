import Mathlib.Data.List.Basic

/-!
# Programs that answer through a table

The state of a program holds a table of answers that only grows. What such a program returns is
what a plain function would give in the place of the table, for every function that agrees with
the table left at the end.
-/

/-- How a state answers a key, and the invariant of its table. -/
structure GrowingTable (σ κ α : Type) where
  reads : σ → κ → Option α
  Inv : σ → Prop

namespace GrowingTable

variable {σ κ α β γ : Type} {T : GrowingTable σ κ α} {s t u : σ} {f : κ → α}

def Extends (T : GrowingTable σ κ α) (s t : σ) : Prop :=
  ∀ k v, T.reads s k = some v → T.reads t k = some v

def Agrees (T : GrowingTable σ κ α) (s : σ) (f : κ → α) : Prop :=
  ∀ k v, T.reads s k = some v → f k = v

theorem Extends.refl (s : σ) : T.Extends s s := fun _ _ h => h

theorem Extends.trans (h : T.Extends s t) (g : T.Extends t u) : T.Extends s u :=
  fun k v hk => g k v (h k v hk)

theorem Agrees.of_extends (h : T.Agrees t f) (hst : T.Extends s t) : T.Agrees s f :=
  fun k v hk => h k v (hst k v hk)

/-- Run from a good state, the program keeps the table good, answers the keys, and returns what
`y` makes of any function that agrees with the table. -/
structure RunsTo (T : GrowingTable σ κ α) (keys : List κ) (y : (κ → α) → β) (s : σ)
    (result : β × σ) : Prop where
  inv : T.Inv result.2
  grows : T.Extends s result.2
  answered : ∀ k ∈ keys, ∃ v, T.reads result.2 k = some v
  returns : ∀ f, T.Agrees result.2 f → result.1 = y f

def Follows (T : GrowingTable σ κ α) (keys : List κ) (x : StateM σ β) (y : (κ → α) → β) : Prop :=
  ∀ s, T.Inv s → T.RunsTo keys y s (x.run s)

theorem Follows.pure (b : β) : T.Follows [] (pure b) fun _ => b :=
  fun s hs => ⟨hs, .refl s, by simp, fun _ _ => rfl⟩

theorem Follows.bind {ks ls : List κ} {x : StateM σ β} {y : (κ → α) → β} {g : β → StateM σ γ}
    {z : (κ → α) → β → γ} (hx : T.Follows ks x y) (hg : ∀ b, T.Follows ls (g b) fun f => z f b) :
    T.Follows (ks ++ ls) (x >>= g) fun f => z f (y f) := by
  intro s hs
  obtain ⟨h1, h2, h3, h4⟩ := hx s hs
  obtain ⟨g1, g2, g3, g4⟩ := hg (x.run s).1 (x.run s).2 h1
  refine ⟨g1, h2.trans g2, fun k hk => ?_, fun f hf => ?_⟩
  · rcases List.mem_append.mp hk with hk | hk
    · obtain ⟨v, hv⟩ := h3 k hk
      exact ⟨v, g2 k v hv⟩
    · exact g3 k hk
  · rw [← h4 f (hf.of_extends g2)]
    exact g4 f hf

theorem Follows.map {ks : List κ} {x : StateM σ β} {y : (κ → α) → β} (hx : T.Follows ks x y)
    (g : β → γ) : T.Follows ks (do return g (← x)) fun f => g (y f) := by
  have h := hx.bind fun b => Follows.pure (T := T) (g b)
  rwa [List.append_nil] at h

theorem Follows.mapM {δ : Type} {keysOf : δ → List κ} {x : δ → StateM σ β}
    {y : (κ → α) → δ → β} {ds : List δ}
    (h : ∀ d ∈ ds, T.Follows (keysOf d) (x d) fun f => y f d) :
    T.Follows (ds.flatMap keysOf) (ds.mapM x) fun f => ds.map (y f) := by
  induction ds with
  | nil => exact Follows.pure []
  | cons d ds ih =>
    obtain ⟨hd, hds⟩ := List.forall_mem_cons.mp h
    rw [List.mapM_cons, List.flatMap_cons]
    exact hd.bind fun b => (ih hds).map (b :: ·)

theorem Follows.mapM_option {x : κ → StateM σ β} {y : (κ → α) → κ → β} {k : Option κ}
    (h : ∀ d ∈ k, T.Follows [d] (x d) fun f => y f d) :
    T.Follows k.toList (k.mapM x) fun f => k.map (y f) := by
  cases k with
  | none => exact Follows.pure none
  | some d => exact (h d rfl).map some

end GrowingTable
