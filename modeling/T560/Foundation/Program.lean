import Mathlib.Data.List.Forall2

/-!
# Programs that wait

A program ends with a result, ends with an error, or waits for the outcome of a call. What a call
brings is left to whoever runs the program. Programs that run at the same time over one world take
their calls in any order; two such pools whose programs and worlds are alike stay alike.
-/

namespace Program

inductive Prog (Call : Type) (Answer : Call → Type) (Err α : Type) where
  | done (a : α)
  | throws (e : Err)
  | waits (call : Call) (next : Except Err (Answer call) → Prog Call Answer Err α)

variable {Call : Type} {Answer : Call → Type} {Err α β : Type}

def Prog.bind : Prog Call Answer Err α → (α → Prog Call Answer Err β) → Prog Call Answer Err β
  | .done a, f => f a
  | .throws e, _ => .throws e
  | .waits call next, f => .waits call fun r => (next r).bind f

instance : Monad (Prog Call Answer Err) where
  pure := .done
  bind := .bind

/-- `await call` -/
def perform (call : Call) : Prog Call Answer Err (Answer call) :=
  .waits call fun
    | .ok a => .done a
    | .error e => .throws e

/-- `try { body } finally { last }`: an error of the last part takes the place of the other. -/
def tryFinally (last : Prog Call Answer Err Unit) : Prog Call Answer Err α → Prog Call Answer Err α
  | .done a => last.bind fun _ => .done a
  | .throws e => last.bind fun _ => .throws e
  | .waits call next => .waits call fun r => tryFinally last (next r)

/-- The outcome of a body, also of one that throws. -/
def attempt : Prog Call Answer Err α → Prog Call Answer Err (Except Err α)
  | .done a => .done (.ok a)
  | .throws e => .done (.error e)
  | .waits call next => .waits call fun r => attempt (next r)

/-- The error that the program has ended with. -/
def Prog.thrown? : Prog Call Answer Err α → Option Err
  | .throws e => some e
  | _ => none

/-- The program begins with a call, or is done. -/
def Prog.Calm (p : Prog Call Answer Err α) : Prop := p.thrown? = none

section Reach

/-- The program makes the call, for some outcomes of the calls before it. -/
inductive Issues : Prog Call Answer Err α → Call → Prop where
  | here {call : Call} {next : Except Err (Answer call) → Prog Call Answer Err α} :
      Issues (.waits call next) call
  | later {call c : Call} {next : Except Err (Answer call) → Prog Call Answer Err α}
      (r : Except Err (Answer call)) (h : Issues (next r) c) : Issues (.waits call next) c

/-- The program ends with the result, for some outcomes of its calls. -/
inductive Returns : Prog Call Answer Err α → α → Prop where
  | done {a : α} : Returns (.done a) a
  | later {call : Call} {a : α} {next : Except Err (Answer call) → Prog Call Answer Err α}
      (r : Except Err (Answer call)) (h : Returns (next r) a) : Returns (.waits call next) a

variable {p : Prog Call Answer Err α} {f : α → Prog Call Answer Err β} {c : Call}

theorem issues_bind : Issues (p >>= f) c ↔ Issues p c ∨ ∃ a, Returns p a ∧ Issues (f a) c := by
  constructor
  · intro h
    induction p with
    | done a => exact Or.inr ⟨a, .done, h⟩
    | throws e => cases h
    | waits call next ih =>
      cases h with
      | here => exact Or.inl .here
      | later r h =>
        rcases ih r h with h | ⟨a, ha, h⟩
        · exact Or.inl (.later r h)
        · exact Or.inr ⟨a, .later r ha, h⟩
  · rintro (h | ⟨a, ha, h⟩)
    · induction h with
      | here => exact .here
      | later r _ ih => exact .later r ih
    · induction ha with
      | done => exact h
      | later r _ ih => exact .later r (ih h)

theorem issues_perform {call : Call} :
    Issues (perform call : Prog Call Answer Err (Answer call)) c ↔ c = call := by
  constructor
  · intro h
    cases h with
    | here => rfl
    | later r h => cases r <;> cases h
  · rintro rfl
    exact .here

/-- A part that can return is followed by the calls of the rest. -/
theorem issues_seq {p : Prog Call Answer Err Unit} {q : Prog Call Answer Err β} (hp : Returns p ()) :
    Issues (p >>= fun _ => q) c ↔ Issues p c ∨ Issues q c := by
  rw [issues_bind]
  constructor
  · rintro (h | ⟨-, -, h⟩)
    · exact Or.inl h
    · exact Or.inr h
  · rintro (h | h)
    · exact Or.inl h
    · exact Or.inr ⟨(), hp, h⟩

theorem not_issues_done (a : α) : ¬ Issues (pure a : Prog Call Answer Err α) c := nofun

theorem returns_bind {a : α} {b : β} (ha : Returns p a) (hb : Returns (f a) b) :
    Returns (p >>= f) b := by
  induction ha with
  | done => exact hb
  | later r _ ih => exact .later r (ih hb)

end Reach

section Worlds

variable {World : Type} (does : World → (c : Call) → Except Err (Answer c) → World → Prop)

/-- The world at some moment of a run of the program. A call takes the world to one in which it
has the outcome. -/
inductive Reaches : World → Prog Call Answer Err α → World → Prop where
  | here {w : World} {p : Prog Call Answer Err α} : Reaches w p w
  | later {w v w' : World} {call : Call} {next : Except Err (Answer call) → Prog Call Answer Err α}
      (r : Except Err (Answer call)) (hcall : does w call r v) (h : Reaches v (next r) w') :
      Reaches w (.waits call next) w'

/-- The world in which a run of the program ends with the result. -/
inductive Ends : World → Prog Call Answer Err α → α → World → Prop where
  | done {w : World} {a : α} : Ends w (.done a) a w
  | later {w v w' : World} {call : Call} {a : α}
      {next : Except Err (Answer call) → Prog Call Answer Err α}
      (r : Except Err (Answer call)) (hcall : does w call r v) (h : Ends v (next r) a w') :
      Ends w (.waits call next) a w'

variable {does} {w w' : World} {p : Prog Call Answer Err α} {f : α → Prog Call Answer Err β}

theorem Ends.reaches {a : α} (h : Ends does w p a w') : Reaches does w p w' := by
  induction h with
  | done => exact .here
  | later r hcall _ ih => exact .later r hcall ih

/-- A run of a sequence is a run of its first part, or has ended it and runs the second. -/
theorem reaches_bind : Reaches does w (p >>= f) w' ↔
    Reaches does w p w' ∨ ∃ a v, Ends does w p a v ∧ Reaches does v (f a) w' := by
  constructor
  · intro h
    induction p generalizing w with
    | done a => exact Or.inr ⟨a, w, .done, h⟩
    | throws e =>
      cases h
      exact Or.inl .here
    | waits call next ih =>
      cases h with
      | here => exact Or.inl .here
      | later r hcall h =>
        rcases ih r h with h | ⟨a, v, ha, h⟩
        · exact Or.inl (.later r hcall h)
        · exact Or.inr ⟨a, v, .later r hcall ha, h⟩
  · rintro (h | ⟨a, v, ha, h⟩)
    · induction h with
      | here => exact .here
      | later r hcall _ ih => exact .later r hcall ih
    · induction ha with
      | done => exact h
      | later r hcall _ ih => exact .later r hcall (ih h)

theorem ends_bind {b : β} : Ends does w (p >>= f) b w' ↔
    ∃ a v, Ends does w p a v ∧ Ends does v (f a) b w' := by
  constructor
  · intro h
    induction p generalizing w with
    | done a => exact ⟨a, w, .done, h⟩
    | throws e => cases h
    | waits call next ih =>
      cases h with
      | later r hcall h =>
        obtain ⟨a, v, ha, h⟩ := ih r h
        exact ⟨a, v, .later r hcall ha, h⟩
  · rintro ⟨a, v, ha, h⟩
    induction ha with
    | done => exact h
    | later r hcall _ ih => exact .later r hcall (ih h)

theorem reaches_perform {call : Call} :
    Reaches does w (perform call : Prog Call Answer Err (Answer call)) w' ↔
      w' = w ∨ ∃ r, does w call r w' := by
  constructor
  · intro h
    cases h with
    | here => exact Or.inl rfl
    | later r hcall h =>
      cases r <;> cases h <;> exact Or.inr ⟨_, hcall⟩
  · rintro (rfl | ⟨r, hcall⟩)
    · exact .here
    · exact .later r hcall .here

theorem ends_perform {call : Call} {a : Answer call} :
    Ends does w (perform call : Prog Call Answer Err (Answer call)) a w' ↔
      does w call (.ok a) w' := by
  constructor
  · intro h
    cases h with
    | later r hcall h =>
      cases r with
      | ok b =>
        cases h
        exact hcall
      | error e => cases h
  · intro hcall
    exact .later (.ok a) hcall .done

/-- An attempt at a call ends with whatever the call brings. -/
theorem ends_attempt_perform {call : Call} {r : Except Err (Answer call)} :
    Ends does w (attempt (perform call : Prog Call Answer Err (Answer call))) r w' ↔
      does w call r w' := by
  constructor
  · intro h
    cases h with
    | later r' hcall h =>
      cases r' <;>
        · cases h
          exact hcall
  · intro hcall
    refine .later r hcall ?_
    cases r <;> exact .done

theorem reaches_attempt_perform {call : Call} :
    Reaches does w (attempt (perform call : Prog Call Answer Err (Answer call))) w' ↔
      w' = w ∨ ∃ r, does w call r w' := by
  constructor
  · intro h
    cases h with
    | here => exact Or.inl rfl
    | later r hcall h =>
      cases r <;> cases h <;> exact Or.inr ⟨_, hcall⟩
  · rintro (rfl | ⟨r, hcall⟩)
    · exact .here
    · exact .later r hcall .here

theorem reaches_done {a : α} (h : Reaches does w (pure a : Prog Call Answer Err α) w') : w' = w := by
  cases h
  rfl

theorem ends_done {a b : α} (h : Ends does w (pure a : Prog Call Answer Err α) b w') :
    b = a ∧ w' = w := by
  cases h
  exact ⟨rfl, rfl⟩

end Worlds

section Pairs

/-- Both outcomes bring results that stand in the relation, or both are the same error. -/
inductive SameOutcome (R : α → β → Prop) : Except Err α → Except Err β → Prop where
  | ok {a : α} {b : β} (h : R a b) : SameOutcome R (.ok a) (.ok b)
  | error (e : Err) : SameOutcome R (.error e) (.error e)

theorem sameOutcome_refl (r : Except Err α) : SameOutcome Eq r r := by
  cases r with
  | ok a => exact .ok rfl
  | error e => exact .error e

/-- Which calls of two programs stand for one another, and which of their answers. -/
structure Likeness (Call : Type) (Answer : Call → Type) where
  call : Call → Call → Prop
  answer : (c c' : Call) → Answer c → Answer c' → Prop

/-- Two programs that make calls that are alike and, told answers that are alike, go on alike. -/
inductive Alike (L : Likeness Call Answer) (R : α → β → Prop) :
    Prog Call Answer Err α → Prog Call Answer Err β → Prop where
  | done {a : α} {b : β} (h : R a b) : Alike L R (.done a) (.done b)
  | throws (e : Err) : Alike L R (.throws e) (.throws e)
  | waits {c c' : Call} {next : Except Err (Answer c) → Prog Call Answer Err α}
      {next' : Except Err (Answer c') → Prog Call Answer Err β} (hcall : L.call c c')
      (hnext : ∀ r r', SameOutcome (L.answer c c') r r' → Alike L R (next r) (next' r')) :
      Alike L R (.waits c next) (.waits c' next')

variable {L : Likeness Call Answer} {α' β' : Type} {R : α → α' → Prop} {S : β → β' → Prop}
  {p : Prog Call Answer Err α} {p' : Prog Call Answer Err α'}

theorem Alike.bind {f : α → Prog Call Answer Err β} {f' : α' → Prog Call Answer Err β'}
    (h : Alike L R p p') (hf : ∀ a a', R a a' → Alike L S (f a) (f' a')) :
    Alike L S (p >>= f) (p' >>= f') := by
  induction h with
  | done h => exact hf _ _ h
  | throws e => exact .throws e
  | waits hcall _ ih => exact .waits hcall ih

theorem Alike.perform {c c' : Call} (h : L.call c c') :
    Alike L (L.answer c c') (perform c : Prog Call Answer Err (Answer c)) (perform c') := by
  refine .waits h ?_
  intro r r' hr
  cases hr with
  | ok h => exact .done h
  | error e => exact .throws e

theorem Alike.attempt (h : Alike L R p p') :
    Alike L (SameOutcome R) (attempt p) (attempt p') := by
  induction h with
  | done h => exact .done (.ok h)
  | throws e => exact .done (.error e)
  | waits hcall _ ih => exact .waits hcall ih

/-- The same loop over the same list. -/
theorem Alike.foldlM {γ : Type} {f : α → γ → Prog Call Answer Err α}
    {f' : α' → γ → Prog Call Answer Err α'}
    (hf : ∀ a a' x, R a a' → Alike L R (f a x) (f' a' x)) (list : List γ) {a : α} {a' : α'}
    (h : R a a') : Alike L R (list.foldlM f a) (list.foldlM f' a') := by
  induction list generalizing a a' with
  | nil => exact .done h
  | cons x list ih =>
    rw [List.foldlM_cons, List.foldlM_cons]
    exact (hf a a' x h).bind fun b b' hb => ih hb

end Pairs

section Pools

variable {World Start Turn : Type}

/-- What a call does to the world, and what it brings. -/
abbrev Access (World Turn : Type) (Answer : Call → Type) (Err : Type) :=
  Turn → World → (c : Call) → Except Err (Answer c) × World

/-- Programs that run at the same time over one world. -/
structure Pool (World Call : Type) (Answer : Call → Type) (Err α : Type) where
  world : World
  tasks : List (Prog Call Answer Err α)

/-- A program starts, or the call that a program waits for takes place. -/
inductive PoolEvent (Start Turn : Type) where
  | starts (s : Start)
  | goesOn (i : Nat) (turn : Turn)

variable (access : Access World Turn Answer Err) (body : Start → Prog Call Answer Err α)

def Pool.goesOn (pool : Pool World Call Answer Err α) (i : Nat) (turn : Turn) :
    Pool World Call Answer Err α :=
  match pool.tasks[i]? with
  | some (.waits call next) =>
    let (r, world) := access turn pool.world call
    ⟨world, pool.tasks.set i (next r)⟩
  | _ => pool

def Pool.step (pool : Pool World Call Answer Err α) :
    PoolEvent Start Turn → Pool World Call Answer Err α
  | .starts s => { pool with tasks := pool.tasks ++ [body s] }
  | .goesOn i turn => pool.goesOn access i turn

/-- What a program has ended with. -/
def Prog.result? : Prog Call Answer Err α → Option (Except Err α)
  | .done a => some (.ok a)
  | .throws e => some (.error e)
  | .waits _ _ => none

def Pool.results (pool : Pool World Call Answer Err α) : List (Option (Except Err α)) :=
  pool.tasks.map Prog.result?

variable {access} {body} {L : Likeness Call Answer} {W : World → World → Prop}
  {S : Start → Start → Prop} {R : α → α → Prop}

/-- Pools whose worlds are alike, and whose programs are alike one by one. -/
structure Pool.Alike (L : Likeness Call Answer) (W : World → World → Prop) (R : α → α → Prop)
    (pool pool' : Pool World Call Answer Err α) : Prop where
  world : W pool.world pool'.world
  tasks : List.Forall₂ (Program.Alike L R) pool.tasks pool'.tasks

/-- Calls that are alike bring answers that are alike, and keep the worlds alike. -/
def Respects (access : Access World Turn Answer Err) (L : Likeness Call Answer)
    (W : World → World → Prop) : Prop :=
  ∀ turn w w' c c', W w w' → L.call c c' →
    SameOutcome (L.answer c c') (access turn w c).1 (access turn w' c').1 ∧
      W (access turn w c).2 (access turn w' c').2

/-- The same turns of programs that start alike. -/
inductive PoolEvent.Alike (S : Start → Start → Prop) :
    PoolEvent Start Turn → PoolEvent Start Turn → Prop where
  | starts {s s' : Start} (h : S s s') : PoolEvent.Alike S (.starts s) (.starts s')
  | goesOn (i : Nat) (turn : Turn) : PoolEvent.Alike S (.goesOn i turn) (.goesOn i turn)

theorem forall₂_set {γ δ : Type} {Q : γ → δ → Prop} {xs : List γ} {ys : List δ}
    (h : List.Forall₂ Q xs ys) {x : γ} {y : δ} (hxy : Q x y) (i : Nat) :
    List.Forall₂ Q (xs.set i x) (ys.set i y) := by
  induction h generalizing i with
  | nil => exact .nil
  | cons hhead htail ih =>
    cases i with
    | zero => exact .cons hxy htail
    | succ i => exact .cons hhead (ih i)

/-- At one place of two such lists stand two items in the relation, or nothing. -/
theorem forall₂_getElem? {γ δ : Type} {Q : γ → δ → Prop} {xs : List γ} {ys : List δ}
    (h : List.Forall₂ Q xs ys) (i : Nat) :
    (xs[i]? = none ∧ ys[i]? = none) ∨ ∃ x y, xs[i]? = some x ∧ ys[i]? = some y ∧ Q x y := by
  induction h generalizing i with
  | nil => exact Or.inl ⟨rfl, rfl⟩
  | @cons x y xs ys hhead _ ih =>
    cases i with
    | zero => exact Or.inr ⟨x, y, rfl, rfl, hhead⟩
    | succ i => exact ih i

variable {pool pool' : Pool World Call Answer Err α}

theorem Pool.Alike.goesOn (h : pool.Alike L W R pool') (haccess : Respects access L W) (i : Nat)
    (turn : Turn) : (pool.goesOn access i turn).Alike L W R (pool'.goesOn access i turn) := by
  unfold Pool.goesOn
  rcases forall₂_getElem? h.tasks i with ⟨hnone, hnone'⟩ | ⟨p, p', hp, hp', hpair⟩
  · rw [hnone, hnone']
    exact h
  · rw [hp, hp']
    cases hpair with
    | done _ => exact h
    | throws _ => exact h
    | waits hcall hnext =>
      obtain ⟨hanswer, hworld⟩ := haccess turn _ _ _ _ h.world hcall
      exact ⟨hworld, forall₂_set h.tasks (hnext _ _ hanswer) i⟩

theorem Pool.Alike.step (h : pool.Alike L W R pool') (haccess : Respects access L W)
    (hbody : ∀ s s', S s s' → Program.Alike L R (body s) (body s')) {e e' : PoolEvent Start Turn}
    (he : e.Alike S e') : (pool.step access body e).Alike L W R (pool'.step access body e') := by
  cases he with
  | starts hs => exact ⟨h.world, List.rel_append h.tasks (.cons (hbody _ _ hs) .nil)⟩
  | goesOn i turn => exact h.goesOn haccess i turn

/-- Two runs over events that are alike: the programs stay alike, whatever order they go on in. -/
theorem Pool.Alike.run (h : pool.Alike L W R pool') (haccess : Respects access L W)
    (hbody : ∀ s s', S s s' → Program.Alike L R (body s) (body s'))
    {events events' : List (PoolEvent Start Turn)}
    (hevents : List.Forall₂ (PoolEvent.Alike S) events events') :
    (events.foldl (Pool.step access body) pool).Alike L W R
      (events'.foldl (Pool.step access body) pool') := by
  induction hevents generalizing pool pool' with
  | nil => exact h
  | cons he _ ih => exact ih (h.step haccess hbody he)

/-- Programs that return the same when they are alike have ended with the same. -/
theorem Pool.Alike.results (h : pool.Alike L W Eq pool') : pool.results = pool'.results := by
  refine List.forall₂_eq_eq_eq ▸ List.forall₂_map_left_iff.mpr (List.forall₂_map_right_iff.mpr ?_)
  refine h.tasks.imp fun p p' hp => ?_
  cases hp with
  | done h => rw [h]
  | throws e => rfl
  | waits _ _ => rfl

end Pools

end Program
