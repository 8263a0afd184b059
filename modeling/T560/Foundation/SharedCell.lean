import Mathlib.Data.List.Induction
import Mathlib.Logic.Function.Basic

/-!
# Operations on a shared cell

Every operation reads the cell and later writes a value computed from what it read; an atomic
one does both in one step. A run may interleave them in any order. When no write falls between
the read and the write of another operation, the run is the serial run of its writes.
-/

namespace SharedCell

/-- Where an operation stands: not begun, between its read and its write, or finished. -/
inductive Phase (σ : Type) where
  | idle
  | holding (seen : σ)
  | done (seen : σ)

structure State (ι σ : Type) where
  cell : σ
  phase : ι → Phase σ

inductive Action (ι : Type) where
  | read (i : ι)
  | write (i : ι)
  deriving DecidableEq

/-- What each operation writes, and which operations are atomic. -/
structure System (ι σ : Type) where
  update : ι → σ → σ
  atomic : ι → Bool

variable {ι σ : Type}

def initial (c : σ) : State ι σ := ⟨c, fun _ => .idle⟩

/-- The operations in the order of their writes. -/
def writers : List (Action ι) → List ι
  | [] => []
  | .read _ :: rest => writers rest
  | .write i :: rest => i :: writers rest

/-- The cell after the operations ran one after the other. -/
def serial (sys : System ι σ) (c : σ) (order : List ι) : σ :=
  order.foldl (fun value i => sys.update i value) c

/-- Nobody else is between its read and its write. -/
def OthersRest (s : State ι σ) (i : ι) : Prop :=
  ∀ j, j ≠ i → ∀ seen, s.phase j ≠ .holding seen

/-- The condition that keeps a run serial: a write finds nobody else between read and write. -/
def Quiet (s : State ι σ) : Action ι → Prop
  | .read _ => True
  | .write i => OthersRest s i

/-- What an operation holds is what the cell holds. -/
def Fresh (s : State ι σ) : Prop := ∀ i seen, s.phase i = .holding seen → seen = s.cell

/-- The operations with what they read, each the value the one before it wrote. -/
inductive Chain (sys : System ι σ) (c : σ) : List (ι × σ) → σ → Prop
  | nil : Chain sys c [] c
  | snoc {trail : List (ι × σ)} {d : σ} (i : ι) (h : Chain sys c trail d) :
      Chain sys c (trail ++ [(i, d)]) (sys.update i d)

/-- What a quiet run knows of its writes. -/
structure Serial (sys : System ι σ) (c : σ) (s : State ι σ) (trail : List (ι × σ)) : Prop where
  fresh : Fresh s
  chain : Chain sys c trail s.cell
  once : (trail.map Prod.fst).Nodup
  done : ∀ i seen, s.phase i = .done seen ↔ (i, seen) ∈ trail

section Serial
variable {sys : System ι σ}

theorem serial_initial (c : σ) : Serial sys c (initial c : State ι σ) [] := by
  refine ⟨fun i seen h => ?_, .nil, List.nodup_nil, fun i seen => ⟨fun h => ?_, fun h => ?_⟩⟩
  · cases h
  · cases h
  · cases h

theorem writers_append (xs ys : List (Action ι)) : writers (xs ++ ys) = writers xs ++ writers ys := by
  induction xs with
  | nil => rfl
  | cons a xs ih => cases a <;> simp [writers, ih]

theorem Chain.eq_serial {c d : σ} {trail : List (ι × σ)} (h : Chain sys c trail d) :
    d = serial sys c (trail.map Prod.fst) := by
  induction h with
  | nil => rfl
  | snoc i h ih =>
    rw [List.map_append, serial, List.foldl_append]
    exact congrArg (sys.update i) ih

/-- A property of what one operation wrote stays, unless an operation behind it has an excuse. -/
theorem Chain.persists {c d : σ} {trail : List (ι × σ)} (h : Chain sys c trail d)
    (honce : (trail.map Prod.fst).Nodup) {P : σ → Prop} {excuse : Prop} {i : ι} {seen : σ}
    (hi : (i, seen) ∈ trail) (hp : P (sys.update i seen))
    (hkeep : ∀ j held, j ≠ i → (j, held) ∈ trail → P held → P (sys.update j held) ∨ excuse) :
    P d ∨ excuse := by
  induction h with
  | nil => cases hi
  | @snoc trail d j h ih =>
    rw [List.map_append, List.nodup_append] at honce
    rcases List.mem_append.mp hi with hi | hi
    · have hji : j ≠ i := fun he => honce.2.2 i (List.mem_map_of_mem hi) j (by simp) he.symm
      rcases ih honce.1 hi fun k held hk hmem => hkeep k held hk (by simp [hmem]) with hd | he
      · exact hkeep j d hji (by simp) hd
      · exact Or.inr he
    · cases List.mem_singleton.mp hi
      exact Or.inl hp

end Serial

variable [DecidableEq ι]

def State.read (s : State ι σ) (i : ι) : State ι σ :=
  ⟨s.cell, Function.update s.phase i (.holding s.cell)⟩

def State.write (s : State ι σ) (i : ι) (seen value : σ) : State ι σ :=
  ⟨value, Function.update s.phase i (.done seen)⟩

variable (sys : System ι σ)

inductive Step : State ι σ → Action ι → State ι σ → Prop
  | read {s : State ι σ} {i : ι} (hi : s.phase i = .idle) (ha : sys.atomic i = false) :
      Step s (.read i) (s.read i)
  | write {s : State ι σ} {i : ι} {seen : σ} (hi : s.phase i = .holding seen) :
      Step s (.write i) (s.write i seen (sys.update i seen))
  | atomic {s : State ι σ} {i : ι} (hi : s.phase i = .idle) (ha : sys.atomic i = true) :
      Step s (.write i) (s.write i s.cell (sys.update i s.cell))

/-- The runs whose steps all meet a condition on the state before the step. -/
inductive Run (ok : State ι σ → Action ι → Prop) : State ι σ → List (Action ι) → State ι σ → Prop
  | refl (s : State ι σ) : Run ok s [] s
  | step {s t u : State ι σ} {actions : List (Action ι)} {a : Action ι} (hr : Run ok s actions t)
      (hok : ok t a) (hs : Step sys t a u) : Run ok s (actions ++ [a]) u

variable {sys}

@[simp]
theorem read_phase_self (s : State ι σ) (i : ι) : (s.read i).phase i = .holding s.cell := by
  simp [State.read]

theorem read_phase_ne (s : State ι σ) {i j : ι} (h : j ≠ i) : (s.read i).phase j = s.phase j := by
  simp [State.read, h]

@[simp]
theorem write_phase_self (s : State ι σ) (i : ι) (seen value : σ) :
    (s.write i seen value).phase i = .done seen := by
  simp [State.write]

theorem write_phase_ne (s : State ι σ) {i j : ι} (seen value : σ) (h : j ≠ i) :
    (s.write i seen value).phase j = s.phase j := by
  simp [State.write, h]

theorem fresh_step {s t : State ι σ} {a : Action ι} (h : Step sys s a t) (hq : Quiet s a)
    (hf : Fresh s) : Fresh t := by
  intro j seen hj
  cases h with
  | @read i hi ha =>
    by_cases hji : j = i
    · subst hji
      rw [read_phase_self] at hj
      cases hj
      rfl
    · rw [read_phase_ne s hji] at hj
      exact hf j seen hj
  | @write i _ hi =>
    by_cases hji : j = i
    · subst hji
      rw [write_phase_self] at hj
      cases hj
    · rw [write_phase_ne s _ _ hji] at hj
      exact absurd hj (hq j hji seen)
  | @atomic i hi ha =>
    by_cases hji : j = i
    · subst hji
      rw [write_phase_self] at hj
      cases hj
    · rw [write_phase_ne s _ _ hji] at hj
      exact absurd hj (hq j hji seen)

theorem Serial.read {c : σ} {s : State ι σ} {trail : List (ι × σ)} (h : Serial sys c s trail) {i : ι}
    (hi : s.phase i = .idle) (hf : Fresh (s.read i)) : Serial sys c (s.read i) trail := by
  refine ⟨hf, h.chain, h.once, fun j seen => ?_⟩
  rw [← h.done]
  by_cases hji : j = i
  · subst hji
    rw [read_phase_self, hi]
    exact ⟨nofun, nofun⟩
  · rw [read_phase_ne s hji]

theorem Serial.write {c : σ} {s : State ι σ} {trail : List (ι × σ)} (h : Serial sys c s trail) {i : ι}
    (hi : ∀ seen, s.phase i ≠ .done seen) (hf : Fresh (s.write i s.cell (sys.update i s.cell))) :
    Serial sys c (s.write i s.cell (sys.update i s.cell)) (trail ++ [(i, s.cell)]) := by
  have hnew : i ∉ trail.map Prod.fst := by
    intro hmem
    obtain ⟨⟨j, seen⟩, hj, rfl⟩ := List.mem_map.mp hmem
    exact hi seen ((h.done j seen).mpr hj)
  refine ⟨hf, h.chain.snoc i, ?_, fun j seen => ?_⟩
  · rw [List.map_append, List.nodup_append]
    refine ⟨h.once, by simp, fun a ha b hb hab => ?_⟩
    rw [List.map_singleton, List.mem_singleton] at hb
    subst hab hb
    exact hnew ha
  rw [List.mem_append, ← h.done, List.mem_singleton, Prod.mk.injEq]
  by_cases hji : j = i
  · subst hji
    rw [write_phase_self]
    constructor
    · intro hd
      exact Or.inr ⟨rfl, (Phase.done.inj hd).symm⟩
    · rintro (hd | ⟨-, rfl⟩)
      · exact absurd hd (hi seen)
      · rfl
  · rw [write_phase_ne s _ _ hji]
    simp [hji]

theorem Run.mono {ok ok' : State ι σ → Action ι → Prop} (hle : ∀ s a, ok s a → ok' s a)
    {s t : State ι σ} {actions : List (Action ι)} (h : Run sys ok s actions t) :
    Run sys ok' s actions t := by
  induction h with
  | refl => exact .refl _
  | step hr hok hs ih => exact .step ih (hle _ _ hok) hs

/-- What the steps demand of a value that is read holds of everything an operation saw. -/
theorem Run.seen {ok : State ι σ → Action ι → Prop} {Q : ι → σ → Prop}
    (hread : ∀ s i, ok s (.read i) → Q i s.cell) (hatomic : ∀ i, sys.atomic i = false)
    {c : σ} {actions : List (Action ι)} {s : State ι σ} (h : Run sys ok (initial c) actions s) :
    ∀ i seen, s.phase i = .holding seen ∨ s.phase i = .done seen → Q i seen := by
  induction h with
  | refl =>
    rintro i seen (h | h)
    · cases h
    · cases h
  | step hr hok hs ih =>
    intro j seen hj
    cases hs with
    | @read i hi ha =>
      by_cases hji : j = i
      · subst hji
        rw [read_phase_self] at hj
        rcases hj with hj | hj
        · obtain rfl := Phase.holding.inj hj
          exact hread _ _ hok
        · cases hj
      · rw [read_phase_ne _ hji] at hj
        exact ih j seen hj
    | @write i held hi =>
      by_cases hji : j = i
      · subst hji
        rw [write_phase_self] at hj
        rcases hj with hj | hj
        · cases hj
        · obtain rfl := Phase.done.inj hj
          exact ih j held (Or.inl hi)
      · rw [write_phase_ne _ _ _ hji] at hj
        exact ih j seen hj
    | @atomic i hi ha =>
      rw [hatomic i] at ha
      cases ha

/-- A quiet run is the serial run of its writes, in their order. -/
theorem serial_run {c : σ} {actions : List (Action ι)} {s : State ι σ}
    (h : Run sys Quiet (initial c) actions s) :
    ∃ trail, trail.map Prod.fst = writers actions ∧ Serial sys c s trail := by
  induction h with
  | refl => exact ⟨[], rfl, serial_initial c⟩
  | step hr hok hs ih =>
    obtain ⟨trail, htrail, ih⟩ := ih
    have hf := fresh_step hs hok ih.fresh
    rw [writers_append]
    cases hs with
    | read hi ha => exact ⟨trail, by simp [htrail, writers], ih.read hi hf⟩
    | @write i seen hi =>
      obtain rfl := ih.fresh i seen hi
      refine ⟨_, ?_, ih.write (fun held hd => ?_) hf⟩
      · simp [htrail, writers]
      · rw [hi] at hd
        cases hd
    | @atomic i hi ha =>
      refine ⟨_, ?_, ih.write (fun held hd => ?_) hf⟩
      · simp [htrail, writers]
      · rw [hi] at hd
        cases hd

end SharedCell
