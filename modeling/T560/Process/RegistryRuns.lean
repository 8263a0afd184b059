import T560.Js.Ascii
import T560.Process.Tool

/-!
# Runs of the process registry

Sessions are added, go to the background, print and exit, and tools of any scope call the
registry, in any order. A removed session stays out of sight, and a tool leaves the sessions of
other scopes alone, as long as removals stay in the scope of their tool and no removed session
exits in the background.
-/

namespace T560.Process

open EventRun (run Allowed)
open Js (Value Runtime Units)
open Js.Value (trimmedText textOrEmpty)

variable (rt : Runtime)

section Events

/-- The registry with the calls that have not answered yet. `removed` remembers the sessions that
were registered under an id when a call removed it. -/
structure System where
  registry : Registry
  waiting : List Waiting
  removed : List Nat

inductive Event where
  | add (session : ProcessSession)
  | background (ref : Nat)
  | exit (ref : Nat) (exitCode : Option Int) (exitSignal : Option ExitSignal)
    (status : ProcessStatus) (now : Nat)
  | output (ref : Nat) (stream : Stream) (chunk : Units)
  | createTool (cleanupMs : Option Js.Num)
  | sweep (now : Nat)
  | call (scopeKey : Option String) (now : Nat) (params : Value)
  | resume (place : Nat) (now : Nat) (error : Option String)

def System.initial (ttl : Js.Num) : System := ⟨.initial ttl, [], []⟩

/-- The id that a call removes. -/
def removal? (params : Value) : Option String :=
  match actionOf rt params, trimmedText rt [params.get? "sessionId"] with
  | .ok .clear, .ok id | .ok .remove, .ok id => if id = "" then none else some id
  | _, _ => none

def Registry.refsOf (reg : Registry) (id : String) : List Nat :=
  (reg.runningSessions.get id).toList ++ ((reg.finishedSessions.get id).map Prod.fst).toList

def System.on (s : System) (change : Registry → Registry) : System :=
  { s with registry := change s.registry }

def System.call (s : System) (scopeKey : Option String) (now : Nat) (params : Value) : System :=
  let after := execute rt scopeKey now params s.registry
  { registry := after.1
    waiting := match after.2 with
      | .waiting for_ => s.waiting ++ [for_]
      | .answered _ => s.waiting
    removed := s.removed ++ (removal? rt params).elim [] s.registry.refsOf }

/-- The call that waits at this place goes on. -/
def System.resume (s : System) (place now : Nat) (error : Option String) : System :=
  match s.waiting[place]? with
  | none => s
  | some for_ =>
    let after := Process.resume for_ now error s.registry
    { s with
      registry := after.1
      waiting := match after.2 with
        | .waiting _ => s.waiting
        | .answered _ => s.waiting.eraseIdx place }

def step (s : System) : Event → System
  | .add session => s.on (addSession · session)
  | .background ref => s.on (markBackgrounded · ref)
  | .exit ref exitCode exitSignal status now =>
    s.on (markExited · ref exitCode exitSignal status now)
  | .output ref stream chunk => s.on (·.update ref (appendOutput · stream chunk))
  | .createTool cleanupMs => s.on (setJobTtlMs · cleanupMs)
  | .sweep now => s.on (pruneFinishedSessions · now)
  | .call scopeKey now params => s.call rt scopeKey now params
  | .resume place now error => s.resume place now error

/-- The tool scope behind an event: of the call, or of the call that goes on. -/
def Event.scopeKey (s : System) : Event → Option String
  | .call scopeKey .. => scopeKey
  | .resume place .. => (s.waiting[place]?).bind Waiting.scopeKey
  | _ => none

/-- The tool removes only sessions of its scope, and no removed session exits in the background. -/
def Respectful (s : System) : Event → Prop
  | .call scopeKey _ params =>
    (removal? rt params).all fun id =>
      (getSession s.registry id).all (fun found => isInScope scopeKey found.2.scopeKey) ∧
      (getFinishedSession s.registry id).all (fun found => isInScope scopeKey found.2.scopeKey)
  | .exit ref .. =>
    ref ∈ s.removed → (s.registry.sessions[ref]?).all fun session => !session.backgrounded
  | _ => True

instance (s : System) (event : Event) : Decidable (Respectful rt s event) := by
  cases event <;> unfold Respectful <;> infer_instance

end Events

/-! ## What a tool call does to the registry -/

section Calls

/-- A change that leaves a session its id and its scope. -/
def KeepsIdentity (change : ProcessSession → ProcessSession) : Prop :=
  ∀ session, (change session).id = session.id ∧ (change session).scopeKey = session.scopeKey

variable {rt} {reg : Registry} {scopeKey : Option String} {sessionId : String} {now : Nat}
  {params : Value}

/-- The call touches no session but one of its scope, and waits for no other. -/
structure InScopeEffect (reg : Registry) (scopeKey : Option String)
    (after : Registry × Progress) : Prop where
  registry : after.1 = reg ∨ ∃ id ref session change,
    scopedRunning reg scopeKey id = some (ref, session) ∧ KeepsIdentity change ∧
      after.1 = reg.update ref change
  waiting : ∀ for_, after.2 = .waiting for_ →
    for_.scopeKey = scopeKey ∧ ∃ id session, scopedRunning reg scopeKey id = some (for_.ref, session)

theorem inScopeEffect_answered (reply : Except ToolError Reply) :
    InScopeEffect reg scopeKey (reg, .answered reply) :=
  ⟨Or.inl rfl, by simp⟩

theorem finishPoll_effect {ref : Nat} :
    ((finishPoll reg sessionId ref).1 = reg ∨
        (finishPoll reg sessionId ref).1 = reg.update ref drainSession) ∧
      ∀ for_, (finishPoll reg sessionId ref).2 ≠ .waiting for_ := by
  unfold finishPoll
  split
  · exact ⟨Or.inl rfl, by simp [failed]⟩
  · exact ⟨Or.inr rfl, by simp⟩

theorem poll_effect : InScopeEffect reg scopeKey (poll reg scopeKey sessionId now params) := by
  unfold poll
  cases hrunning : scopedRunning reg scopeKey sessionId with
  | none => cases scopedFinished reg scopeKey sessionId <;> exact inScopeEffect_answered _
  | some found =>
    obtain ⟨ref, session⟩ := found
    dsimp only
    split
    · refine ⟨Or.inl rfl, ?_⟩
      rintro _ ⟨⟩
      exact ⟨rfl, sessionId, session, hrunning⟩
    · obtain ⟨hreg, hwait⟩ := @finishPoll_effect reg sessionId ref
      refine ⟨hreg.imp_right fun h => ?_, fun for_ h => absurd h (hwait for_)⟩
      exact ⟨sessionId, ref, session, drainSession, hrunning, fun _ => ⟨rfl, rfl⟩, h⟩

theorem log_effect : InScopeEffect reg scopeKey (log rt reg scopeKey sessionId params) := by
  unfold log
  dsimp only
  split <;> exact inScopeEffect_answered _

theorem writeStdin_effect (submit : Bool) :
    InScopeEffect reg scopeKey (writeStdin rt reg scopeKey sessionId submit params) := by
  unfold writeStdin
  cases hrunning : scopedRunning reg scopeKey sessionId with
  | none => exact inScopeEffect_answered _
  | some found =>
    obtain ⟨ref, session⟩ := found
    cases textOrEmpty rt (params.get? "data") with
    | error e => exact inScopeEffect_answered _
    | ok data =>
      dsimp only
      generalize (if submit = true then data ++ "\n" else data) = payload
      by_cases hempty : payload = ""
      · rw [if_pos hempty]
        exact inScopeEffect_answered _
      · rw [if_neg hempty]
        cases session.stdin.filter fun stdin => !stdin.destroyed with
        | none => exact inScopeEffect_answered _
        | some stdin =>
          have hkeeps : KeepsIdentity (feedStdin stdin payload) := fun _ => ⟨rfl, rfl⟩
          refine ⟨Or.inr ⟨sessionId, ref, session, _, hrunning, hkeeps, rfl⟩, ?_⟩
          rintro _ ⟨⟩
          exact ⟨rfl, sessionId, session, hrunning⟩

theorem kill_effect : InScopeEffect reg scopeKey (kill reg scopeKey sessionId) := by
  unfold kill
  cases hfound : (scopedRunning reg scopeKey sessionId).filter fun found => found.2.child.isSome with
  | none => exact inScopeEffect_answered _
  | some found =>
    obtain ⟨ref, session⟩ := found
    have hscoped := (Option.filter_eq_some_iff.mp hfound).1
    have hkeeps : KeepsIdentity (signalChild "SIGTERM") := fun _ => ⟨rfl, rfl⟩
    refine ⟨Or.inr ⟨sessionId, ref, session, _, hscoped, hkeeps, rfl⟩, ?_⟩
    simp [killReply]

/-- A call removes the sessions of an id, or stays in its scope. -/
theorem execute_effect (rt : Runtime) (scopeKey : Option String) (now : Nat) (params : Value)
    (reg : Registry) :
    (∃ id, removal? rt params = some id ∧
        (execute rt scopeKey now params reg).1 = deleteSession reg id ∧
        ∀ for_, (execute rt scopeKey now params reg).2 ≠ .waiting for_) ∨
      (removal? rt params = none ∧ InScopeEffect reg scopeKey (execute rt scopeKey now params reg)) := by
  unfold removal? execute
  cases haction : actionOf rt params with
  | error e => exact Or.inr ⟨rfl, inScopeEffect_answered _⟩
  | ok action =>
    cases hid : trimmedText rt [params.get? "sessionId"] with
    | error e => cases action <;> exact Or.inr ⟨rfl, inScopeEffect_answered _⟩
    | ok id =>
      by_cases hempty : id = ""
      · cases action <;> simp only [hempty, if_true] <;>
          exact Or.inr ⟨trivial, inScopeEffect_answered _⟩
      · cases action <;> simp only [hempty, if_false, executeOn]
        case list => exact Or.inr ⟨trivial, inScopeEffect_answered _⟩
        case poll => exact Or.inr ⟨trivial, poll_effect⟩
        case log => exact Or.inr ⟨trivial, log_effect⟩
        case write => exact Or.inr ⟨trivial, writeStdin_effect false⟩
        case submit => exact Or.inr ⟨trivial, writeStdin_effect true⟩
        case paste => exact Or.inr ⟨trivial, writeStdin_effect false⟩
        case kill => exact Or.inr ⟨trivial, kill_effect⟩
        case clear => exact Or.inl ⟨id, rfl, rfl, by simp [removeSession]⟩
        case remove => exact Or.inl ⟨id, rfl, rfl, by simp [removeSession]⟩
        case unknown => exact Or.inr ⟨trivial, inScopeEffect_answered _⟩

theorem resume_effect (for_ : Waiting) (now : Nat) (error : Option String) (reg : Registry) :
    ∃ change, KeepsIdentity change ∧
      ((resume for_ now error reg).1 = reg ∨
        (resume for_ now error reg).1 = reg.update for_.ref change) := by
  cases for_ with
  | poll scopeKey sessionId ref deadline =>
    refine ⟨drainSession, fun _ => ⟨rfl, rfl⟩, ?_⟩
    unfold resume
    dsimp only
    split
    · exact Or.inl rfl
    · exact (@finishPoll_effect reg sessionId ref).1
  | write scopeKey sessionId ref eof length =>
    refine ⟨endStdin, fun _ => ⟨rfl, rfl⟩, ?_⟩
    cases error with
    | some message => exact Or.inl rfl
    | none =>
      cases eof with
      | true => exact Or.inr rfl
      | false => exact Or.inl rfl

end Calls

/-! ## The invariant -/

section Invariant

/-- The id and the scope of a session object. -/
def Registry.identity (reg : Registry) (ref : Nat) : Option (String × Option String) :=
  (reg.sessions[ref]?).map fun session => (session.id, session.scopeKey)

/-- Entries stand under the id of their session, calls wait for sessions of their scope, and no
removed session has an entry. -/
structure Sound (s : System) : Prop where
  running : ∀ id ref, s.registry.runningSessions.get id = some ref →
    ∃ scope, s.registry.identity ref = some (id, scope)
  finished : ∀ id found, s.registry.finishedSessions.get id = some found →
    ∃ scope, s.registry.identity found.1 = some (id, scope)
  waiting : ∀ for_ ∈ s.waiting, ∃ id scope, s.registry.identity for_.ref = some (id, scope) ∧
    isInScope for_.scopeKey scope = true
  removed : ∀ ref ∈ s.removed, ref < s.registry.sessions.length
  gone : ∀ ref ∈ s.removed, (∀ id, s.registry.runningSessions.get id ≠ some ref) ∧
    ∀ id found, s.registry.finishedSessions.get id = some found → found.1 ≠ ref

theorem Sound.initial (ttl : Js.Num) : Sound (.initial ttl) where
  running := by intro id ref h; cases h
  finished := by intro id found h; cases h
  waiting := by intro for_ h; cases h
  removed := by intro ref h; cases h
  gone := by intro ref h; cases h

variable {reg : Registry} {ref : Nat} {change : ProcessSession → ProcessSession}

theorem identity_update (h : KeepsIdentity change) (other : Nat) :
    (reg.update ref change).identity other = reg.identity other := by
  unfold Registry.identity Registry.update
  rw [List.getElem?_modify]
  cases reg.sessions[other]? with
  | none => rfl
  | some session =>
    by_cases heq : ref = other
    · simp [heq, h session]
    · simp [heq]

theorem identity_some_lt {x : String × Option String} (h : reg.identity ref = some x) :
    ref < reg.sessions.length := by
  obtain ⟨session, hsession, -⟩ := Option.map_eq_some_iff.mp h
  exact (List.getElem?_eq_some_iff.mp hsession).1

/-- Fewer entries, the same sessions, and no call that waits outside its scope. -/
theorem Sound.shrink {s s' : System} (h : Sound s)
    (hidentity : s'.registry.identity = s.registry.identity)
    (hlength : s'.registry.sessions.length = s.registry.sessions.length)
    (hrunning : ∀ id ref, s'.registry.runningSessions.get id = some ref →
      s.registry.runningSessions.get id = some ref)
    (hfinished : ∀ id found, s'.registry.finishedSessions.get id = some found →
      s.registry.finishedSessions.get id = some found)
    (hwaiting : ∀ for_ ∈ s'.waiting, for_ ∈ s.waiting ∨
      ∃ id scope, s.registry.identity for_.ref = some (id, scope) ∧
        isInScope for_.scopeKey scope = true)
    (hremoved : s'.removed = s.removed) : Sound s' where
  running id ref hget := by
    rw [hidentity]
    exact h.running id ref (hrunning id ref hget)
  finished id found hget := by
    rw [hidentity]
    exact h.finished id found (hfinished id found hget)
  waiting for_ hmem := by
    rw [hidentity]
    exact (hwaiting for_ hmem).elim (h.waiting for_) id
  removed ref hmem := by
    rw [hlength]
    exact h.removed ref (hremoved ▸ hmem)
  gone ref hmem := by
    obtain ⟨hrun, hfin⟩ := h.gone ref (hremoved ▸ hmem)
    exact ⟨fun id hget => hrun id (hrunning id ref hget),
      fun id found hget => hfin id found (hfinished id found hget)⟩

/-- A session is changed and keeps its id and scope. -/
theorem Sound.update {s : System} (h : Sound s) (hchange : KeepsIdentity change)
    {waiting : List Waiting}
    (hwaiting : ∀ for_ ∈ waiting, for_ ∈ s.waiting ∨
      ∃ id scope, s.registry.identity for_.ref = some (id, scope) ∧
        isInScope for_.scopeKey scope = true) :
    Sound ⟨s.registry.update ref change, waiting, s.removed⟩ :=
  h.shrink (funext (identity_update hchange)) (by simp [Registry.update]) (fun _ _ => id)
    (fun _ _ => id) hwaiting rfl

theorem Sound.add {s : System} (h : Sound s) (session : ProcessSession) :
    Sound (s.on (addSession · session)) := by
  have hold : ∀ ref x, s.registry.identity ref = some x →
      (addSession s.registry session).identity ref = some x := by
    intro ref x hx
    have hlt := identity_some_lt hx
    unfold Registry.identity addSession
    rw [List.getElem?_append_left hlt]
    exact hx
  have hnew : (addSession s.registry session).identity s.registry.sessions.length =
      some (session.id, session.scopeKey) := by
    simp [Registry.identity, addSession]
  constructor
  · intro id ref hget
    rw [System.on, addSession, InsertionMap.get_set_eq_some_iff] at hget
    split at hget
    · next hid =>
      subst hid hget
      exact ⟨_, hnew⟩
    · exact (h.running id ref hget).imp fun scope => hold ref _
  · intro id found hget
    exact (h.finished id found hget).imp fun scope => hold found.1 _
  · intro for_ hmem
    obtain ⟨id, scope, hid, hscope⟩ := h.waiting for_ hmem
    exact ⟨id, scope, hold for_.ref _ hid, hscope⟩
  · intro ref hmem
    have hlt := h.removed ref hmem
    simp only [System.on, addSession, List.length_append, List.length_singleton]
    exact Nat.lt_succ_of_lt hlt
  · intro ref hmem
    refine ⟨fun id hget => ?_, (h.gone ref hmem).2⟩
    rw [System.on, addSession, InsertionMap.get_set_eq_some_iff] at hget
    split at hget
    · exact absurd (h.removed ref hmem) (by omega)
    · exact (h.gone ref hmem).1 id hget

/-- Removing an id removes every entry of the sessions that were registered under it. -/
theorem Sound.remove {s : System} (h : Sound s) (id : String) :
    Sound ⟨deleteSession s.registry id, s.waiting, s.removed ++ s.registry.refsOf id⟩ := by
  have hshrunk : Sound ⟨deleteSession s.registry id, s.waiting, s.removed⟩ :=
    h.shrink rfl rfl (fun _ _ hget => (InsertionMap.get_erase_eq_some_iff.mp hget).1)
      (fun _ _ hget => (InsertionMap.get_erase_eq_some_iff.mp hget).1) (fun _ => Or.inl) rfl
  have hid : ∀ ref ∈ s.registry.refsOf id, ∃ scope, s.registry.identity ref = some (id, scope) := by
    intro ref hmem
    rcases List.mem_append.mp hmem with hrun | hfin
    · exact h.running id ref (by simpa using hrun)
    · obtain ⟨found, hfound, rfl⟩ := Option.map_eq_some_iff.mp (Option.mem_toList.mp hfin)
      exact h.finished id found hfound
  refine ⟨hshrunk.running, hshrunk.finished, hshrunk.waiting, ?_, ?_⟩
  · intro ref hmem
    rcases List.mem_append.mp hmem with hold | hnew
    · exact h.removed ref hold
    · exact identity_some_lt (hid ref hnew).choose_spec
  · intro ref hmem
    rcases List.mem_append.mp hmem with hold | hnew
    · exact hshrunk.gone ref hold
    · obtain ⟨scope, href⟩ := hid ref hnew
      refine ⟨fun other hget => ?_, fun other found hget => ?_⟩
      · obtain ⟨hget, hne⟩ := InsertionMap.get_erase_eq_some_iff.mp hget
        obtain ⟨scope', hother⟩ := h.running other ref hget
        rw [href] at hother
        cases hother
        exact hne rfl
      · obtain ⟨hget, hne⟩ := InsertionMap.get_erase_eq_some_iff.mp hget
        obtain ⟨scope', hother⟩ := h.finished other found hget
        rintro rfl
        rw [href] at hother
        cases hother
        exact hne rfl

/-- A session that was not removed may leave a record under its id. -/
theorem Sound.finish {s : System} (h : Sound s) {id : String} {scope : Option String}
    (hid : s.registry.identity ref = some (id, scope)) (hremoved : ref ∉ s.removed)
    (record : FinishedSession) :
    Sound (s.on fun reg =>
      { reg with finishedSessions := reg.finishedSessions.set id (ref, record) }) := by
  refine ⟨h.running, ?_, h.waiting, h.removed, ?_⟩
  · intro other found hget
    rw [System.on, InsertionMap.get_set_eq_some_iff] at hget
    split at hget
    · next heq =>
      subst heq hget
      exact ⟨scope, hid⟩
    · exact h.finished other found hget
  · intro gone hmem
    refine ⟨(h.gone gone hmem).1, fun other found hget => ?_⟩
    rw [System.on, InsertionMap.get_set_eq_some_iff] at hget
    split at hget
    · subst hget
      rintro rfl
      exact hremoved hmem
    · exact (h.gone gone hmem).2 other found hget

theorem Sound.moveToFinished {s : System} (h : Sound s) {session : ProcessSession}
    (hid : s.registry.identity ref = some (session.id, session.scopeKey))
    (hlate : session.backgrounded = true → ref ∉ s.removed) (status : ProcessStatus) (now : Nat) :
    Sound (s.on (moveToFinished · ref session status now)) := by
  have hreleased : KeepsIdentity releasedSession := fun _ => ⟨rfl, rfl⟩
  have hupdated : Sound (s.on (·.update ref releasedSession)) := h.update hreleased fun _ => Or.inl
  have herased : Sound (s.on fun reg => { reg.update ref releasedSession with
      runningSessions := reg.runningSessions.erase session.id }) :=
    hupdated.shrink rfl rfl (fun _ _ hget => (InsertionMap.get_erase_eq_some_iff.mp hget).1)
      (fun _ _ => id) (fun _ => Or.inl) rfl
  unfold Process.moveToFinished System.on
  cases hbackground : session.backgrounded with
  | false => exact herased
  | true =>
    exact herased.finish ((identity_update hreleased ref).trans hid) (hlate hbackground)
      (finishedSession session status now)

theorem Sound.exit {s : System} (h : Sound s)
    (hlate : ref ∈ s.removed →
      (s.registry.sessions[ref]?).all fun session => !session.backgrounded)
    (exitCode : Option Int) (exitSignal : Option ExitSignal) (status : ProcessStatus) (now : Nat) :
    Sound (s.on (markExited · ref exitCode exitSignal status now)) := by
  unfold markExited System.on
  dsimp only
  cases hsession : s.registry.sessions[ref]? with
  | none => exact h
  | some session =>
    have hexited : KeepsIdentity fun session => exitedSession session exitCode exitSignal :=
      fun _ => ⟨rfl, rfl⟩
    have hupdated : Sound (s.on (·.update ref
        fun session => exitedSession session exitCode exitSignal)) :=
      h.update hexited fun _ => Or.inl
    have hid : s.registry.identity ref = some (session.id, session.scopeKey) := by
      simp [Registry.identity, hsession]
    have hremoved : session.backgrounded = true → ref ∉ s.removed := by
      intro hbackground hmem
      simpa [hsession, hbackground] using hlate hmem
    exact @Sound.moveToFinished ref _ hupdated (exitedSession session exitCode exitSignal)
      ((identity_update hexited ref).trans hid) hremoved status now

theorem scopedRunning_identity {scopeKey : Option String} {id : String} {session : ProcessSession}
    (h : scopedRunning reg scopeKey id = some (ref, session)) :
    reg.runningSessions.get id = some ref ∧ reg.sessions[ref]? = some session ∧
      isInScope scopeKey session.scopeKey = true := by
  obtain ⟨hget, hscope⟩ := Option.filter_eq_some_iff.mp h
  unfold getSession at hget
  cases hrun : reg.runningSessions.get id with
  | none => simp [hrun] at hget
  | some found =>
    cases hsession : reg.sessions[found]? with
    | none => simp [hrun, hsession] at hget
    | some s =>
      obtain ⟨rfl, rfl⟩ : found = ref ∧ s = session := by simpa [hrun, hsession] using hget
      exact ⟨rfl, hsession, hscope⟩

variable {rt}

theorem Sound.call {s : System} (h : Sound s) (scopeKey : Option String) (now : Nat)
    (params : Value) : Sound (s.call rt scopeKey now params) := by
  unfold System.call
  dsimp only
  rcases execute_effect rt scopeKey now params s.registry with
    ⟨id, hremoval, hreg, hwait⟩ | ⟨hremoval, hreg, hwait⟩
  · rw [hremoval, hreg]
    cases hafter : (execute rt scopeKey now params s.registry).2 with
    | waiting for_ => exact absurd hafter (hwait for_)
    | answered reply => exact h.remove id
  · rw [hremoval, Option.elim_none, List.append_nil]
    have hwaiting : ∀ for_ ∈ (match (execute rt scopeKey now params s.registry).2 with
        | .waiting for_ => s.waiting ++ [for_]
        | .answered _ => s.waiting), for_ ∈ s.waiting ∨
          ∃ id scope, s.registry.identity for_.ref = some (id, scope) ∧
            isInScope for_.scopeKey scope = true := by
      cases hafter : (execute rt scopeKey now params s.registry).2 with
      | answered reply => exact fun _ => Or.inl
      | waiting new =>
        intro for_ hmem
        rcases List.mem_append.mp hmem with hold | hnew
        · exact Or.inl hold
        · obtain rfl := List.mem_singleton.mp hnew
          obtain ⟨hscope, id, session, hfound⟩ := hwait for_ hafter
          obtain ⟨-, hsession, hin⟩ := scopedRunning_identity hfound
          exact Or.inr ⟨session.id, session.scopeKey, by simp [Registry.identity, hsession],
            hscope ▸ hin⟩
    rcases hreg with hreg | ⟨id, ref, session, change, -, hkeeps, hreg⟩
    · rw [hreg]
      exact h.shrink rfl rfl (fun _ _ h => h) (fun _ _ h => h) hwaiting rfl
    · rw [hreg]
      exact h.update hkeeps hwaiting

theorem Sound.resume {s : System} (h : Sound s) (place now : Nat) (error : Option String) :
    Sound (s.resume place now error) := by
  unfold System.resume
  cases s.waiting[place]? with
  | none => exact h
  | some for_ =>
    have hwaiting : ∀ w ∈ (match (Process.resume for_ now error s.registry).2 with
        | .waiting _ => s.waiting
        | .answered _ => s.waiting.eraseIdx place), w ∈ s.waiting ∨
          ∃ id scope, s.registry.identity w.ref = some (id, scope) ∧
            isInScope w.scopeKey scope = true := by
      cases (Process.resume for_ now error s.registry).2 with
      | waiting _ => exact fun _ => Or.inl
      | answered _ => exact fun _ hmem => Or.inl (List.mem_of_mem_eraseIdx hmem)
    obtain ⟨change, hkeeps, hreg | hreg⟩ := resume_effect for_ now error s.registry
    · dsimp only
      rw [hreg]
      exact h.shrink rfl rfl (fun _ _ => id) (fun _ _ => id) hwaiting rfl
    · dsimp only
      rw [hreg]
      exact h.update hkeeps hwaiting

theorem Sound.setJobTtlMs {s : System} (h : Sound s) (value : Option Js.Num) :
    Sound (s.on (setJobTtlMs · value)) := by
  unfold System.on Process.setJobTtlMs
  dsimp only
  split
  · exact h
  · exact h
  · exact h.shrink rfl rfl (fun _ _ => id) (fun _ _ => id) (fun _ => Or.inl) rfl

theorem Sound.step {s : System} (h : Sound s) (event : Event) (hok : Respectful rt s event) :
    Sound (step rt s event) := by
  cases event with
  | add session => exact h.add session
  | background ref =>
    have hkeeps : KeepsIdentity fun session => { session with backgrounded := true } :=
      fun _ => ⟨rfl, rfl⟩
    exact h.update hkeeps fun _ => Or.inl
  | exit ref exitCode exitSignal status now => exact h.exit hok exitCode exitSignal status now
  | output ref stream chunk =>
    have hkeeps : KeepsIdentity (appendOutput · stream chunk) := fun _ => by
      cases stream <;> exact ⟨rfl, rfl⟩
    exact h.update hkeeps fun _ => Or.inl
  | createTool cleanupMs => exact h.setJobTtlMs cleanupMs
  | sweep now =>
    exact h.shrink rfl rfl (fun _ _ => id)
      (fun _ _ hget => (InsertionMap.get_filter_eq_some_iff.mp hget).1) (fun _ => Or.inl) rfl
  | call scopeKey now params => exact h.call scopeKey now params
  | resume place now error => exact h.resume place now error

end Invariant

/-! ## Removal and scope -/

section Results

/-- A poll with this id answers from the session or from its record. -/
def Pollable (reg : Registry) (scopeKey : Option String) (id : String) (ref : Nat) : Prop :=
  (∃ session, scopedRunning reg scopeKey id = some (ref, session)) ∨
    ∃ record, scopedFinished reg scopeKey id = some (ref, record)

/-- The entries of sessions whose scope is not `key` are the same. -/
structure OthersKept (key : String) (before after : Registry) : Prop where
  running : ∀ id ref session, before.runningSessions.get id = some ref →
    before.sessions[ref]? = some session → session.scopeKey ≠ some key →
    after.runningSessions.get id = some ref ∧ after.sessions[ref]? = some session
  finished : ∀ id found, before.finishedSessions.get id = some found →
    found.2.scopeKey ≠ some key → after.finishedSessions.get id = some found

theorem isInScope_some {key : String} (hkey : key ≠ "") {scope : Option String} :
    isInScope (some key) scope = true ↔ scope = some key := by
  simp [isInScope, hkey, eq_comm]

variable {rt} {reg : Registry} {ref : Nat} {scopeKey : Option String}

theorem not_listed_of_gone (h : (∀ id, reg.runningSessions.get id ≠ some ref) ∧
    ∀ id found, reg.finishedSessions.get id = some found → found.1 ≠ ref)
    (item : SessionItem) : (ref, item) ∉ listed reg scopeKey := by
  intro hmem
  rcases List.mem_append.mp hmem with hrun | hfin
  · obtain ⟨⟨found, session⟩, hfound, heq⟩ := List.mem_map.mp hrun
    cases heq
    obtain ⟨other, hother, hsome⟩ := List.mem_filterMap.mp
      (List.mem_of_mem_filter (List.mem_of_mem_filter hfound))
    obtain ⟨session', -, heq⟩ := Option.map_eq_some_iff.mp hsome
    cases heq
    obtain ⟨id, hid⟩ := InsertionMap.mem_values_iff.mp hother
    exact h.1 id hid
  · obtain ⟨found, hfound, heq⟩ := List.mem_map.mp hfin
    cases heq
    obtain ⟨id, hid⟩ := InsertionMap.mem_values_iff.mp (List.mem_of_mem_filter hfound)
    exact h.2 id found hid rfl

theorem not_pollable_of_gone (h : (∀ id, reg.runningSessions.get id ≠ some ref) ∧
    ∀ id found, reg.finishedSessions.get id = some found → found.1 ≠ ref) (id : String) :
    ¬ Pollable reg scopeKey id ref := by
  rintro (⟨session, hrun⟩ | ⟨record, hfin⟩)
  · exact h.1 id (scopedRunning_identity hrun).1
  · exact h.2 id (ref, record) (Option.filter_eq_some_iff.mp hfin).1 rfl

/-- A change of one session of the scope is no change of the others. -/
theorem OthersKept.update {key : String} {session : ProcessSession}
    (hsession : reg.sessions[ref]? = some session) (hscope : session.scopeKey = some key)
    (change : ProcessSession → ProcessSession) : OthersKept key reg (reg.update ref change) where
  running id other found hget hfound hne := by
    have hother : ref ≠ other := by
      rintro rfl
      rw [hsession] at hfound
      exact hne (Option.some.inj hfound ▸ hscope)
    have hkept : (reg.sessions.modify ref change)[other]? = reg.sessions[other]? :=
      List.getElem?_modify_ne change reg.sessions hother
    exact ⟨hget, hkept.trans hfound⟩
  finished _ _ hget _ := hget

theorem OthersKept.refl (key : String) (reg : Registry) : OthersKept key reg reg where
  running _ _ _ hget hsession _ := ⟨hget, hsession⟩
  finished _ _ hget _ := hget

/-- Removing an id of the scope is no change of the others. -/
theorem OthersKept.remove {key : String} (hkey : key ≠ "") {id : String}
    (hrunning : (getSession reg id).all (fun found => isInScope (some key) found.2.scopeKey))
    (hfinished :
      (getFinishedSession reg id).all (fun found => isInScope (some key) found.2.scopeKey)) :
    OthersKept key reg (deleteSession reg id) where
  running other ref session hget hsession hne := by
    refine ⟨InsertionMap.get_erase_eq_some_iff.mpr ⟨hget, ?_⟩, hsession⟩
    rintro rfl
    have hscope : isInScope (some key) session.scopeKey = true := by
      simpa [getSession, hget, hsession] using hrunning
    exact hne ((isInScope_some hkey).mp hscope)
  finished other found hget hne := by
    refine InsertionMap.get_erase_eq_some_iff.mpr ⟨hget, ?_⟩
    rintro rfl
    have hscope : isInScope (some key) found.2.scopeKey = true := by
      simpa [getFinishedSession, hget] using hfinished
    exact hne ((isInScope_some hkey).mp hscope)

/-- A tool of a scope leaves the entries of the others, when a call begins and when it goes on. -/
theorem Sound.othersKept {s : System} (h : Sound s) {event : Event} (hok : Respectful rt s event)
    {key : String} (hkey : key ≠ "") (hscope : event.scopeKey s = some key) :
    OthersKept key s.registry (Process.step rt s event).registry := by
  cases event with
  | call scopeKey now params =>
    obtain rfl : scopeKey = some key := hscope
    rcases execute_effect rt (some key) now params s.registry with
      ⟨id, hremoval, hreg, -⟩ | ⟨-, hreg, -⟩
    · rw [Process.step, System.call, hreg]
      simp only [Respectful, hremoval, Option.all_some, Bool.decide_and, Bool.and_eq_true,
        decide_eq_true_eq] at hok
      exact OthersKept.remove hkey hok.1 hok.2
    · rcases hreg with hreg | ⟨id, ref, session, change, hfound, -, hreg⟩
      · rw [Process.step, System.call, hreg]
        exact OthersKept.refl key s.registry
      · obtain ⟨-, hsession, hin⟩ := scopedRunning_identity hfound
        rw [Process.step, System.call, hreg]
        exact OthersKept.update hsession ((isInScope_some hkey).mp hin) change
  | resume place now error =>
    rw [Process.step, System.resume]
    cases hplace : s.waiting[place]? with
    | none => exact OthersKept.refl key s.registry
    | some for_ =>
      have hfor : for_.scopeKey = some key := by simpa [Event.scopeKey, hplace] using hscope
      obtain ⟨id, scope, hid, hin⟩ := h.waiting for_ (List.mem_of_getElem? hplace)
      rw [hfor, isInScope_some hkey] at hin
      obtain ⟨session, hsession, heq⟩ := Option.map_eq_some_iff.mp hid
      obtain ⟨change, -, hreg | hreg⟩ := resume_effect for_ now error s.registry
      · dsimp only
        rw [hreg]
        exact OthersKept.refl key s.registry
      · dsimp only
        rw [hreg]
        exact OthersKept.update hsession ((Prod.mk.inj heq).2.trans hin) change
  | _ => cases hscope

/-- Removed sessions stay out of the lists and polls of every tool, and a tool with a scope
changes no entry of a session of another scope. -/
theorem removal_final_and_scoped (rt : Runtime) (ttl : Js.Num) (events : List Event)
    (h : Allowed (step rt) (Respectful rt) (.initial ttl) events) :
    (∀ ref ∈ (run (step rt) (.initial ttl) events).removed, ∀ scopeKey,
      (∀ item, (ref, item) ∉ listed (run (step rt) (.initial ttl) events).registry scopeKey) ∧
      ∀ id, ¬ Pollable (run (step rt) (.initial ttl) events).registry scopeKey id ref) ∧
    ∀ before event after, events = before ++ event :: after → ∀ key, key ≠ "" →
      event.scopeKey (run (step rt) (.initial ttl) before) = some key →
      OthersKept key (run (step rt) (.initial ttl) before).registry
        (run (step rt) (.initial ttl) (before ++ [event])).registry := by
  have hsound : ∀ events, Allowed (step rt) (Respectful rt) (.initial ttl) events →
      Sound (run (step rt) (.initial ttl) events) := fun events hallowed =>
    EventRun.run_keeps (fun _ event hok hs => hs.step event hok) hallowed (.initial ttl)
  constructor
  · intro ref hmem scopeKey
    have hgone := (hsound events h).gone ref hmem
    exact ⟨not_listed_of_gone hgone, not_pollable_of_gone hgone⟩
  · rintro before event after rfl key hkey hscope
    obtain ⟨hbefore, hevent, -⟩ := EventRun.allowed_append.mp h
    rw [EventRun.run_snoc]
    exact (hsound before hbefore).othersKept hevent hkey hscope

/-- A session of scope `a` as it is handed to the registry. -/
def calmReef : ProcessSession :=
  { id := "calm-reef", command := "sleep 60", scopeKey := some "a", startedAt := 0,
    maxOutputChars := 1000 }

def removeCalmReef : Value := .obj [("action", .str "remove"), ("sessionId", .str "calm-reef")]

theorem removal_final_and_scoped_after_exit :
    let events := [Event.add calmReef, .background 0, .exit 0 (some 0) none .completed 5,
      .call (some "a") 6 removeCalmReef]
    let after := run (step Js.asciiRuntime) (.initial .nan) events
    Allowed (step Js.asciiRuntime) (Respectful Js.asciiRuntime) (.initial .nan) events ∧
      0 ∈ after.removed ∧ ∀ item, (0, item) ∉ listed after.registry none := by
  intro events after
  have hallowed : Allowed (step Js.asciiRuntime) (Respectful Js.asciiRuntime) (.initial .nan) events := by
    decide
  have hremoved : 0 ∈ after.removed := by decide
  exact ⟨hallowed, hremoved,
    ((removal_final_and_scoped Js.asciiRuntime .nan events hallowed).1 0 hremoved none).1⟩

/-- A removed session that exits in the background is listed again, and a tool of scope `b`
removes a session of scope `a`. -/
theorem removed_session_listed_and_scope_ignored :
    let exited := run (step Js.asciiRuntime) (.initial .nan) [.add calmReef, .background 0,
      .call (some "a") 6 removeCalmReef, .exit 0 (some 0) none .completed 7]
    let added := run (step Js.asciiRuntime) (.initial .nan) [.add calmReef]
    (0 ∈ exited.removed ∧ ∃ item, (0, item) ∈ listed exited.registry (some "a")) ∧
      ¬ OthersKept "b" added.registry
        (step Js.asciiRuntime added (.call (some "b") 6 removeCalmReef)).registry := by
  intro exited added
  refine ⟨⟨by decide, ?_⟩, fun hkept => ?_⟩
  · have hlisted : (listed exited.registry (some "a")).map Prod.fst = [0] := by decide
    obtain ⟨⟨ref, item⟩, hmem, rfl⟩ := List.mem_map.mp (hlisted ▸ List.mem_singleton_self 0)
    exact ⟨item, hmem⟩
  · have hgone : (step Js.asciiRuntime added
        (.call (some "b") 6 removeCalmReef)).registry.runningSessions.get "calm-reef" = none := by
      decide
    have hstays := (hkept.running "calm-reef" 0 calmReef (by decide) (by decide)
      (by decide)).1
    rw [hgone] at hstays
    cases hstays

end Results

end T560.Process
