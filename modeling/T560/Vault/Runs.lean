import Mathlib.Logic.Relation
import T560.Vault.Map

/-!
# Operations on the vault at the same time

Operations take their steps on the two files in any order. Nothing stops one of them from
writing over files that another has changed since it read them; a run in which that does not
happen keeps the vault readable and every credential in its place.
-/

namespace T560.Vault

variable {ι Key Sealed : Type} [DecidableEq ι]

structure Workspace (ι Key Sealed : Type) where
  files : Files Key Sealed
  phase : ι → Phase Key Sealed

def initial (files : Files Key Sealed) : Workspace ι Key Sealed := ⟨files, fun _ => .start⟩

variable (env : VaultEnv Key Sealed) (calls : ι → Call Key)

/-- Operation `i` takes its next step. -/
def stepOf (w : Workspace ι Key Sealed) (i : ι) : Workspace ι Key Sealed :=
  let next := advance env (calls i) w.files (w.phase i)
  ⟨next.1, Function.update w.phase i next.2⟩

def Step (ok : Workspace ι Key Sealed → ι → Prop) (w w' : Workspace ι Key Sealed) : Prop :=
  ∃ i, ok w i ∧ stepOf env calls w i = w'

/-- An operation writes over the files as it has read them: it creates a key while there is
still no vault, and it writes the vault while both files are still what it has read. -/
def Undisturbed (w : Workspace ι Key Sealed) (i : ι) : Prop :=
  match w.phase i with
  | .writeKey => w.files.vault = none
  | .writeVault payload key _ _ => w.files = ⟨payload, some key⟩
  | _ => True

/-- The vault opens with the key beside it. -/
def Opens (files : Files Key Sealed) : Prop :=
  ∀ payload, files.vault = some payload →
    ∃ key v, files.key = some key ∧ env.decrypt key payload = some v

/-- A saved credential on a service that no other operation touches is found. -/
def Retrievable (w : Workspace ι Key Sealed) : Prop :=
  ∀ i params service created, (calls i).request = .set params →
    w.phase i = .done (.saved service created) →
    (∀ j ≠ i, ¬ (calls j).request.Touches env service) →
    ∀ get : Call Key, get.request = .get params.service →
      ∃ record, (perform env get w.files).2 = .done (.found (some (.record record))) ∧
        record.credential = params.credential

/-- What an operation carries from the files it has read. -/
def Prepared (call : Call Key) : Phase Key Sealed → Prop
  | .writeVault payload key store outcome => ∃ service store₀,
      call.request.check env = .ok service ∧
      contents env call.now ⟨payload, some key⟩ = some store₀ ∧
      withStore env call service payload key store₀ = .writeVault payload key store outcome
  | .done (.saved service _) => call.request.check env = .ok service
  | _ => True

/-- Every saved credential that no other operation touches stands in the map. -/
def Stands (w : Workspace ι Key Sealed) (m : Credentials) : Prop :=
  ∀ i params service created, (calls i).request = .set params →
    w.phase i = .done (.saved service created) →
    (∀ j ≠ i, ¬ (calls j).request.Touches env service) → m service = some params.credential

/-- The files hold a map with every credential in its place, and every operation is prepared. -/
structure Consistent (w : Workspace ι Key Sealed) : Prop where
  map : ∃ m, Represents env w.files m ∧ Stands env calls w m
  prepared : ∀ i, Prepared env (calls i) (w.phase i)

variable {env} {calls}

section Prepared
variable {call : Call Key}

theorem prepared_withStore {service : String} {payload : Option Sealed} {key : Key}
    {store : VaultStore} (hc : call.request.check env = .ok service)
    (hstore : contents env call.now ⟨payload, some key⟩ = some store) :
    Prepared env call (withStore env call service payload key store) := by
  have hsame : ∀ phase, withStore env call service payload key store = phase →
      Prepared env call phase := by
    intro phase hphase
    unfold withStore at hphase
    split at hphase
    · subst hphase
      refine ⟨service, store, hc, hstore, ?_⟩
      rename_i hr
      rw [withStore, hr]
    · rename_i hr
      split at hphase <;> rename_i hsome <;> subst hphase
      · refine ⟨service, store, hc, hstore, ?_⟩
        rw [withStore, hr]
        exact if_pos hsome
      · trivial
    · subst hphase
      trivial
  exact hsame _ rfl

theorem prepared_openVault {service : String} {payload : Option Sealed} {key : Key}
    (hc : call.request.check env = .ok service) :
    Prepared env call (openVault env call service key payload) := by
  cases payload with
  | none => exact prepared_withStore hc rfl
  | some payload =>
    unfold openVault
    dsimp only
    split
    · rename_i store hstore
      exact prepared_withStore hc hstore
    · trivial

/-- Nothing is saved without the vault being opened. -/
theorem not_saved_of_check {service : String} {created : Bool}
    (h : call.request.check env = .error (.saved service created)) : False := by
  cases hr : call.request with
  | set params =>
    rw [hr] at h
    cases hc : params.check env.toUrlEnv <;> simp [Request.check, hc] at h
  | delete name =>
    rw [hr] at h
    cases hn : normalizeSetupService env.toUrlEnv name <;> simp [Request.check, hn] at h
  | get name =>
    rw [hr] at h
    cases hn : normalizeSetupService env.toUrlEnv name <;> simp [Request.check, hn] at h

theorem not_saved_withStore {name service : String} {payload : Option Sealed} {key : Key}
    {store : VaultStore} {created : Bool}
    (h : withStore env call name payload key store = .done (.saved service created)) : False := by
  unfold withStore at h
  split at h
  · cases h
  · split at h <;> cases h
  · cases h

theorem not_saved_openVault {name service : String} {payload : Option Sealed} {key : Key}
    {created : Bool} (h : openVault env call name key payload = .done (.saved service created)) :
    False := by
  cases payload with
  | none => exact not_saved_withStore h
  | some payload =>
    unfold openVault at h
    dsimp only at h
    split at h
    · exact not_saved_withStore h
    · cases h

/-- Only writing the vault saves a credential. -/
theorem saved_advance {files : Files Key Sealed} {phase : Phase Key Sealed} {service : String}
    {created : Bool} (h : (advance env call files phase).2 = .done (.saved service created)) :
    phase = .done (.saved service created) ∨
      ∃ payload key store, phase = .writeVault payload key store (.saved service created) := by
  cases phase with
  | start =>
    unfold advance at h
    dsimp only at h
    split at h
    · cases h
    · rename_i hc
      cases h
      exact (not_saved_of_check hc).elim
  | readKey payload =>
    unfold advance at h
    dsimp only at h
    split at h
    · exact (not_saved_openVault h).elim
    · split at h <;> cases h
    · rename_i hc
      cases h
      exact (not_saved_of_check hc).elim
  | writeKey =>
    unfold advance at h
    dsimp only at h
    split at h
    · exact (not_saved_withStore h).elim
    · rename_i hc
      cases h
      exact (not_saved_of_check hc).elim
  | writeVault payload key store outcome =>
    cases h
    exact .inr ⟨payload, key, store, rfl⟩
  | done outcome => exact .inl h

theorem prepared_rejected {outcome : Outcome} (h : call.request.check env = .error outcome) :
    Prepared env call (.done outcome : Phase Key Sealed) := by
  cases outcome with
  | saved service created => exact (not_saved_of_check h).elim
  | _ => trivial

theorem prepared_written {payload : Option Sealed} {key : Key} {store : VaultStore}
    {outcome : Outcome} (h : Prepared env call (.writeVault payload key store outcome)) :
    Prepared env call (.done outcome : Phase Key Sealed) := by
  obtain ⟨service, store₀, hc, -, hwith⟩ := h
  unfold withStore at hwith
  split at hwith
  · cases hwith
    exact hc
  · split at hwith <;> cases hwith
    trivial
  · cases hwith

theorem prepared_advance {files : Files Key Sealed} {phase : Phase Key Sealed}
    (h : Prepared env call phase) : Prepared env call (advance env call files phase).2 := by
  cases phase with
  | start =>
    unfold advance
    dsimp only
    split
    · trivial
    · rename_i hc
      exact prepared_rejected hc
  | readKey payload =>
    unfold advance
    dsimp only
    split
    · rename_i hc _
      exact prepared_openVault hc
    · split <;> trivial
    · rename_i hc
      exact prepared_rejected hc
  | writeKey =>
    unfold advance
    dsimp only
    split
    · rename_i hc
      exact prepared_withStore hc rfl
    · rename_i hc
      exact prepared_rejected hc
  | writeVault payload key store outcome => exact prepared_written h
  | done outcome => exact h

end Prepared

section Steps
variable {w : Workspace ι Key Sealed} {i : ι}

/-- A step that does not write the vault leaves the map alone. -/
theorem read_represents {m : Credentials} {call : Call Key} {files : Files Key Sealed}
    {phase : Phase Key Sealed} (hm : Represents env files m)
    (hkey : phase = .writeKey → files.vault = none)
    (hphase : ∀ payload key store outcome, phase ≠ .writeVault payload key store outcome) :
    Represents env (advance env call files phase).1 m := by
  cases phase with
  | start =>
    unfold advance
    dsimp only
    split <;> exact hm
  | readKey payload =>
    unfold advance
    dsimp only
    split
    · exact hm
    · split <;> exact hm
    · exact hm
  | writeKey =>
    unfold advance
    dsimp only
    split
    · exact hm.withKey (hkey rfl) _
    · exact hm
  | writeVault payload key store outcome => exact absurd rfl (hphase payload key store outcome)
  | done outcome => exact hm

/-- Writing the vault does to the map what the operation asks for. -/
theorem write_represents {m : Credentials} {call : Call Key} {payload : Option Sealed} {key : Key}
    {store : VaultStore} {outcome : Outcome} (hk : call.request.Kept env)
    (hp : Prepared env call (.writeVault payload key store outcome))
    (hm : Represents env ⟨payload, some key⟩ m) :
    Represents env (advance env call ⟨payload, some key⟩ (.writeVault payload key store outcome)).1
      (call.request.update env m) := by
  obtain ⟨service, store₀, hc, hstore, hwith⟩ := hp
  rw [← hwith]
  exact withStore_represents hc hk rfl hm hstore

theorem stepOf_phase_self (w : Workspace ι Key Sealed) (i : ι) :
    (stepOf env calls w i).phase i = (advance env (calls i) w.files (w.phase i)).2 :=
  Function.update_self _ _ _

theorem stepOf_phase_ne (w : Workspace ι Key Sealed) {i j : ι} (h : j ≠ i) :
    (stepOf env calls w i).phase j = w.phase j := Function.update_of_ne h _ _

/-- The operation that writes the vault puts its credential there and leaves the others. -/
theorem Stands.write {m : Credentials} {payload : Option Sealed} {key : Key} {store : VaultStore}
    {outcome : Outcome} (hm : Stands env calls w m)
    (hphase : w.phase i = .writeVault payload key store outcome)
    (hp : Prepared env (calls i) (.writeVault payload key store outcome)) :
    Stands env calls (stepOf env calls w i) ((calls i).request.update env m) := by
  intro j params service created hr hdone htouch
  by_cases hj : j = i
  · subst hj
    have hc := prepared_written hp
    rw [stepOf_phase_self, hphase] at hdone
    cases hdone
    have hc : (calls j).request.check env = .ok service := hc
    rw [hr] at hc
    simp [hr, Request.update, check_set hc]
  · rw [stepOf_phase_ne w hj] at hdone
    rw [update_untouched (htouch i (Ne.symm hj))]
    exact hm j params service created hr hdone htouch

/-- No other step saves anything. -/
theorem Stands.read {m : Credentials} (hm : Stands env calls w m)
    (hphase : ∀ payload key store outcome, w.phase i ≠ .writeVault payload key store outcome) :
    Stands env calls (stepOf env calls w i) m := by
  intro j params service created hr hdone htouch
  refine hm j params service created hr ?_ htouch
  by_cases hj : j = i
  · subst hj
    rw [stepOf_phase_self] at hdone
    rcases saved_advance hdone with hdone | ⟨payload, key, store, hwrite⟩
    · exact hdone
    · exact absurd hwrite (hphase payload key store _)
  · rwa [stepOf_phase_ne w hj] at hdone

theorem Consistent.step (h : Consistent env calls w) (hk : (calls i).request.Kept env)
    (hok : Undisturbed w i) : Consistent env calls (stepOf env calls w i) := by
  obtain ⟨⟨m, hm, hsaved⟩, hprepared⟩ := h
  refine ⟨?_, fun j => ?_⟩
  · by_cases hwrite : ∃ payload key store outcome, w.phase i = .writeVault payload key store outcome
    · obtain ⟨payload, key, store, outcome, hphase⟩ := hwrite
      have hfiles : w.files = ⟨payload, some key⟩ := by simpa [Undisturbed, hphase] using hok
      have hp := hprepared i
      rw [hphase] at hp
      refine ⟨(calls i).request.update env m, ?_, Stands.write hsaved hphase hp⟩
      rw [hfiles] at hm
      rw [stepOf, hphase, hfiles]
      exact write_represents hk hp hm
    · have hphase : ∀ payload key store outcome,
          w.phase i ≠ .writeVault payload key store outcome :=
        fun payload key store outcome heq => hwrite ⟨payload, key, store, outcome, heq⟩
      refine ⟨m, read_represents hm ?_ hphase, Stands.read hsaved hphase⟩
      intro hkey
      simpa [Undisturbed, hkey] using hok
  · by_cases hj : j = i
    · subst hj
      rw [stepOf_phase_self]
      exact prepared_advance (hprepared j)
    · rw [stepOf_phase_ne w hj]
      exact hprepared j

end Steps

/-- In a run of undisturbed steps the files stay consistent. -/
theorem consistent_run {files : Files Key Sealed} (hfiles : Settled env files)
    (hk : ∀ i, (calls i).request.Kept env) {w : Workspace ι Key Sealed}
    (h : Relation.ReflTransGen (Step env calls Undisturbed) (initial files) w) :
    Consistent env calls w := by
  induction h with
  | refl =>
    obtain ⟨m, hm⟩ := hfiles
    refine ⟨⟨m, hm, ?_⟩, fun _ => trivial⟩
    intro i params service created _ hdone
    cases hdone
  | tail _ hstep ih =>
    obtain ⟨i, hok, rfl⟩ := hstep
    exact ih.step (hk i) hok

theorem Represents.opens {files : Files Key Sealed} {m : Credentials}
    (h : Represents env files m) : Opens env files := by
  intro payload hvault
  obtain ⟨store, hstore, -⟩ := h 0
  unfold contents at hstore
  rw [hvault] at hstore
  cases hkey : files.key with
  | none =>
    rw [hkey] at hstore
    cases hstore
  | some key =>
    rw [hkey] at hstore
    obtain ⟨v, hv, -⟩ := Option.bind_eq_some_iff.mp hstore
    exact ⟨key, v, rfl, hv⟩

/-- In every run in which no operation writes over files that changed since it read them, the
vault opens with its key and every saved credential that no other operation touches is found. -/
theorem vault_survives_interleaving (env : VaultEnv Key Sealed) (calls : ι → Call Key)
    (files : Files Key Sealed) (hfiles : Settled env files)
    (hkept : ∀ i, (calls i).request.Kept env) (w : Workspace ι Key Sealed)
    (hrun : Relation.ReflTransGen (Step env calls Undisturbed) (initial files) w) :
    Opens env w.files ∧ Retrievable env calls w := by
  have hconsistent := consistent_run hfiles hkept hrun
  obtain ⟨m, hm, hsaved⟩ := hconsistent.map
  refine ⟨hm.opens, ?_⟩
  intro i params service created hr hdone htouch get hget
  have hp := hconsistent.prepared i
  rw [hdone] at hp
  have hc : (calls i).request.check env = .ok service := hp
  rw [hr] at hc
  exact get_found hm hget (check_service (check_set hc))
    (hsaved i params service created hr hdone htouch)

section Races

variable (env) (calls) in
/-- The steps may be taken in this order. -/
def Allowed (ok : Workspace ι Key Sealed → ι → Prop) : Workspace ι Key Sealed → List ι → Prop
  | _, [] => True
  | w, i :: is => ok w i ∧ Allowed ok (stepOf env calls w i) is

theorem reaches_steps {ok : Workspace ι Key Sealed → ι → Prop} {w : Workspace ι Key Sealed}
    {is : List ι} (h : Allowed env calls ok w is) :
    Relation.ReflTransGen (Step env calls ok) w (is.foldl (stepOf env calls) w) := by
  induction is generalizing w with
  | nil => exact .refl
  | cons i is ih =>
    obtain ⟨hok, hrest⟩ := h
    exact .head ⟨i, hok, rfl⟩ (ih hrest)

instance [DecidableEq Key] [DecidableEq Sealed] (w : Workspace ι Key Sealed) (i : ι) :
    Decidable (Undisturbed w i) :=
  match h : w.phase i with
  | .writeKey => decidable_of_iff (w.files.vault = none) (by simp [Undisturbed, h])
  | .writeVault payload key _ _ =>
    decidable_of_iff (w.files = ⟨payload, some key⟩) (by simp [Undisturbed, h])
  | .start | .readKey _ | .done _ => isTrue (by simp [Undisturbed, h])

instance decidableAllowed {ok : Workspace ι Key Sealed → ι → Prop} [∀ w i, Decidable (ok w i)] :
    (w : Workspace ι Key Sealed) → (is : List ι) → Decidable (Allowed env calls ok w is)
  | _, [] => isTrue trivial
  | w, i :: is =>
    @instDecidableAnd (ok w i) (Allowed env calls ok (stepOf env calls w i) is) inferInstance
      (decidableAllowed (stepOf env calls w i) is)

/-- A password is set for a bank while the same password is looked up. Each call would create
a key of its own. -/
def setAndGet : Bool → Call Bool
  | false => ⟨.set (passwordFor "bank.example" "me"), 1, 0, true⟩
  | true => ⟨.get "bank.example", 1, 1, false⟩

def afterSteps (is : List Bool) : Workspace Bool Bool (Bool × Js.Value) :=
  is.foldl (stepOf plainEnv setAndGet) (initial ⟨none, none⟩)

/-- The lookup reads the key file when the new key is there: both calls use one key. -/
theorem vault_survives_interleaving_set_and_get :
    Opens plainEnv (afterSteps [false, true, false, false, true, false]).files ∧
      Retrievable plainEnv setAndGet (afterSteps [false, true, false, false, true, false]) := by
  refine vault_survives_interleaving plainEnv setAndGet ⟨none, none⟩ ⟨_, represents_absent none⟩
    ?_ _ (reaches_steps (by decide))
  intro i
  cases i with
  | false => exact kept_passwordFor "bank.example" (by decide) (by decide) (by decide)
  | true => trivial

def Phase.isDone : Phase Key Sealed → Bool
  | .done _ => true
  | _ => false

/-- Both calls find no key, and the lookup writes its key last: the vault does not open. -/
theorem key_race_locks_vault :
    ¬ ∀ (calls : Bool → Call Bool) (w : Workspace Bool Bool (Bool × Js.Value)),
      (∀ i, (calls i).request.Kept plainEnv) →
      Relation.ReflTransGen (Step plainEnv calls fun _ _ => True) (initial ⟨none, none⟩) w →
      (∀ i, (w.phase i).isDone = true) →
      Opens plainEnv w.files ∧ Retrievable plainEnv calls w := by
  intro h
  have hkept : ∀ i, (setAndGet i).request.Kept plainEnv := by
    intro i
    cases i with
    | false => exact kept_passwordFor "bank.example" (by decide) (by decide) (by decide)
    | true => trivial
  have hrun : Relation.ReflTransGen (Step plainEnv setAndGet fun _ _ => True)
      (initial ⟨none, none⟩) (afterSteps [false, true, false, true, false, true, false]) :=
    reaches_steps (by decide)
  obtain ⟨hopens, -⟩ := h setAndGet _ hkept hrun (by decide)
  have hkey : (afterSteps [false, true, false, true, false, true, false]).files.key = some false := by
    decide
  have hvault : (afterSteps [false, true, false, true, false, true, false]).files.vault.map
      Prod.fst = some true := by
    decide
  obtain ⟨payload, hpayload, hfst⟩ := Option.map_eq_some_iff.mp hvault
  obtain ⟨key, v, hk, hv⟩ := hopens payload hpayload
  obtain rfl : false = key := Option.some.inj (hkey.symm.trans hk)
  simp [plainEnv, hfst] at hv

end Races

end T560.Vault
