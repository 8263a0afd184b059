import T560.Foundation.SharedCell
import T560.Provider.ChatSteps
import T560.Transcript.SessionFile

/-!
# Turns on one session

A chat turn and the dashboard's `chat.inject` load the session, append to it and save it.
Between the load and the save other operations may run. A session is given here by what
`JSON.parse` reads from its file, and saving a list makes that list its content.
-/

namespace T560.Provider

open Js (Value)
open Transcript (Message sanitizeSessionTranscript coerceMessageArray loadSessionMessages
  persistedMessages)
open SharedCell (Action Run OthersRest)

/-- One load, append and save. A turn in compact mode keeps only the end of the history. -/
structure SessionOperation where
  keep : Option Nat := none
  appended : List Message → List Message

/-- The messages a session content stands for, before the sanitizer. -/
def storedMessages : Option Value → List Message
  | some raw => coerceMessageArray raw
  | none => []

def loadContent : Option Value → List Message
  | some raw => sanitizeSessionTranscript (coerceMessageArray raw)
  | none => []

theorem loadSessionMessages_content (parse : String → Option Value) (file : Option String) :
    loadSessionMessages parse file = loadContent (file.bind parse) := by
  cases h : file.bind parse with
  | none => simp only [loadSessionMessages, loadContent, h]
  | some raw => simp only [loadSessionMessages, loadContent, h]

namespace SessionOperation

def kept (op : SessionOperation) (history : List Message) : List Message :=
  match op.keep with
  | some n => history.drop (history.length - n)
  | none => history

/-- What the operation hands to `saveSessionMessages`. -/
def handed (op : SessionOperation) (content : Option Value) : List Message :=
  op.kept (loadContent content) ++ op.appended (loadContent content)

def save (op : SessionOperation) (content : Option Value) : Option Value :=
  some (.arr (persistedMessages (op.handed content)))

/-- The sanitizer of the load took the message out of what was read, or the sanitizer or the
trim of the save took it out of what was handed over. -/
def Removes (op : SessionOperation) (content : Option Value) (m : Message) : Prop :=
  (m ∈ storedMessages content ∧ m ∉ loadContent content) ∨
    (m ∈ op.handed content ∧ m ∉ persistedMessages (op.handed content))

/-- The operation keeps the whole history it loads from this content. -/
def KeepsHistory (op : SessionOperation) (content : Option Value) : Prop :=
  ∀ n, op.keep = some n → (loadContent content).length ≤ n

end SessionOperation

section Operations

/-- The message `chat.inject` appends. -/
def injectMessage (message : String) (now : ℚ) : Message :=
  let zero : Value := .num (.fin 0)
  .obj [("role", .str "assistant"),
    ("content", .arr [.obj [("type", .str "text"), ("text", .str message)]]),
    ("api", .str "openai-responses"), ("provider", .str "webchat"), ("model", .str "manual-inject"),
    ("usage", .obj [("input", zero), ("output", zero), ("cacheRead", zero), ("cacheWrite", zero),
      ("totalTokens", zero), ("cost", .obj [("input", zero), ("output", zero), ("cacheRead", zero),
        ("cacheWrite", zero), ("total", zero)])]),
    ("stopReason", .str "stop"), ("timestamp", .num (.fin now))]

def injectOperation (message : String) (now : ℚ) : SessionOperation where
  appended := fun _ => [injectMessage message now]

/-- A chat turn, given by what it appends behind a history. -/
def chatOperation (env : ChatEnv) (appended : List Message → List Message) : SessionOperation where
  keep := if env.compactMode then some (resolveCompactHistoryMessages env) else none
  appended := appended

theorem kept_chatOperation (env : ChatEnv) (appended : List Message → List Message)
    (history : List Message) :
    (chatOperation env appended).kept history = historyForRun env history := by
  cases h : env.compactMode <;> simp [SessionOperation.kept, chatOperation, historyForRun, h]

/-- A run that began with what was loaded from a file hands to the save what its operation does: a run
only ever appends to its messages. -/
theorem run_hands_over (env : ChatEnv) (parse : String → Option Value) {file : Option String}
    {content : String} {st : RunState}
    (h : Relation.ReflTransGen (Step env False) (start env (loadSessionMessages parse file) content) ⟨.done, st⟩) :
    ∃ new, st.messages = (chatOperation env fun _ => new).handed (file.bind parse) := by
  have hprefix : historyForRun env (loadSessionMessages parse file) <+: st.messages := by
    refine run_keeps (P := fun st => historyForRun env (loadSessionMessages parse file) <+: st.messages) ?_ h
      nofun (List.prefix_refl _)
    intro st st' hstep hprefix
    cases hstep with
    | messages more => exact hprefix.trans (List.prefix_append _ _)
    | _ => exact hprefix
  obtain ⟨new, hnew⟩ := hprefix
  refine ⟨new, ?_⟩
  rw [SessionOperation.handed, kept_chatOperation, ← loadSessionMessages_content, ← hnew]
  rfl

end Operations

section Runs
variable {ι : Type} [DecidableEq ι]

/-- Operations on one session that share its content. -/
def sessionSystem (ops : ι → SessionOperation) : SharedCell.System ι (Option Value) :=
  ⟨fun i => (ops i).save, fun _ => false⟩

/-- Every message a finished operation saved is in the session, or another finished operation
lost it to the sanitizer or the trim. -/
def NoLostTurn (ops : ι → SessionOperation) (s : SharedCell.State ι (Option Value)) : Prop :=
  ∀ i seen, s.phase i = .done seen → ∀ m ∈ storedMessages ((ops i).save seen),
    m ∈ storedMessages s.cell ∨
      ∃ j held, j ≠ i ∧ s.phase j = .done held ∧ (ops j).Removes held m

/-- An operation loads a history it keeps whole, and saves while no other operation stands
between its load and its save. -/
def Undisturbed (ops : ι → SessionOperation) (s : SharedCell.State ι (Option Value)) :
    Action ι → Prop
  | .read i => (ops i).KeepsHistory s.cell
  | .write i => OthersRest s i

theorem kept_eq {op : SessionOperation} {content : Option Value} (h : op.KeepsHistory content) :
    op.kept (loadContent content) = loadContent content := by
  unfold SessionOperation.kept
  cases hk : op.keep with
  | none => rfl
  | some n =>
    have hn := h n hk
    simp [show (loadContent content).length - n = 0 by omega]

theorem storedMessages_save (op : SessionOperation) (content : Option Value) {m : Message} :
    m ∈ storedMessages (op.save content) ↔
      m ∈ persistedMessages (op.handed content) ∧ m ∈ coerceMessageArray (.arr [m]) := by
  simp [storedMessages, SessionOperation.save, coerceMessageArray, List.mem_filter]

theorem coerce_of_stored {content : Option Value} {m : Message} (h : m ∈ storedMessages content) :
    m ∈ coerceMessageArray (.arr [m]) := by
  cases content with
  | none => cases h
  | some raw =>
    cases raw with
    | arr items =>
      have hm := (List.mem_filter.mp h).2
      simp only [coerceMessageArray, List.mem_filter, List.mem_singleton, true_and]
      exact hm
    | _ => cases h

/-- An operation that loads the session content keeps a message of it or removes it. -/
theorem save_keeps {op : SessionOperation} {content : Option Value} (hk : op.KeepsHistory content)
    {m : Message} (h : m ∈ storedMessages content) :
    m ∈ storedMessages (op.save content) ∨ op.Removes content m := by
  by_cases hload : m ∈ loadContent content
  · have hhanded : m ∈ op.handed content := by
      rw [SessionOperation.handed, kept_eq hk]
      exact List.mem_append_left _ hload
    by_cases hsaved : m ∈ persistedMessages (op.handed content)
    · exact Or.inl ((storedMessages_save op content).mpr ⟨hsaved, coerce_of_stored h⟩)
    · exact Or.inr (Or.inr ⟨hhanded, hsaved⟩)
  · exact Or.inr (Or.inl ⟨h, hload⟩)

theorem quiet_of_undisturbed {ops : ι → SessionOperation} {content : Option Value}
    {actions : List (Action ι)} {s : SharedCell.State ι (Option Value)}
    (h : Run (sessionSystem ops) (Undisturbed ops) (SharedCell.initial content) actions s) :
    Run (sessionSystem ops) SharedCell.Quiet (SharedCell.initial content) actions s := by
  refine h.mono fun t a hok => ?_
  cases a with
  | read i => trivial
  | write i => exact hok

/-- Undisturbed operations leave the session as if they had run one after the other, in the
order of their saves, and that is what is loaded next. -/
theorem undisturbed_serial {ops : ι → SessionOperation} {content : Option Value}
    {actions : List (Action ι)} {s : SharedCell.State ι (Option Value)}
    (h : Run (sessionSystem ops) (Undisturbed ops) (SharedCell.initial content) actions s)
    (parse : String → Option Value) {file : Option String} (hfile : file.bind parse = s.cell) :
    loadSessionMessages parse file =
      loadContent (SharedCell.serial (sessionSystem ops) content (SharedCell.writers actions)) := by
  obtain ⟨trail, htrail, hserial⟩ := SharedCell.serial_run (quiet_of_undisturbed h)
  rw [loadSessionMessages_content, hfile, ← htrail]
  exact congrArg loadContent hserial.chain.eq_serial

/-- In a run of undisturbed operations no finished turn is lost. -/
theorem no_lost_turn (ops : ι → SessionOperation) (content : Option Value)
    (actions : List (Action ι)) (s : SharedCell.State ι (Option Value))
    (h : Run (sessionSystem ops) (Undisturbed ops) (SharedCell.initial content) actions s) :
    NoLostTurn ops s := by
  have hkeeps := h.seen (Q := fun i seen => (ops i).KeepsHistory seen) (fun _ _ hok => hok)
    fun _ => rfl
  obtain ⟨trail, -, hserial⟩ := SharedCell.serial_run (quiet_of_undisturbed h)
  intro i seen hi m hm
  refine hserial.chain.persists hserial.once ((hserial.done i seen).mp hi)
    (P := fun c => m ∈ storedMessages c) hm fun j held hji hj hheld => ?_
  have hdone := (hserial.done j held).mpr hj
  rcases save_keeps (hkeeps j held (Or.inr hdone)) hheld with hsaved | hremoved
  · exact Or.inl hsaved
  · exact Or.inr ⟨j, held, hji, hdone, hremoved⟩

end Runs

section Injections

/-- Two injections into one session. -/
def twoInjections (second : Bool) : SessionOperation :=
  if second then injectOperation "second" 1 else injectOperation "first" 0

theorem twoInjections_keepsHistory (b : Bool) (content : Option Value) :
    (twoInjections b).KeepsHistory content := by
  intro n hn
  cases b <;> cases hn

/-- The two injections one after the other. -/
theorem no_lost_turn_in_sequence :
    ∃ s, Run (sessionSystem twoInjections) (Undisturbed twoInjections) (SharedCell.initial none)
        [.read false, .write false, .read true, .write true] s ∧
      NoLostTurn twoInjections s := by
  have hrun : ∃ s, Run (sessionSystem twoInjections) (Undisturbed twoInjections)
      (SharedCell.initial none) [.read false, .write false, .read true, .write true] s := by
    refine ⟨_, .step (.step (.step (.step (.refl _) ?_ (.read rfl rfl)) ?_ (.write rfl)) ?_
      (.read rfl rfl)) ?_ (.write rfl)⟩
    · exact twoInjections_keepsHistory false _
    · intro j hj seen
      cases j
      · exact absurd rfl hj
      · exact nofun
    · exact twoInjections_keepsHistory true _
    · intro j hj seen
      cases j
      · exact nofun
      · exact absurd rfl hj
  obtain ⟨s, hrun⟩ := hrun
  exact ⟨s, hrun, no_lost_turn _ _ _ _ hrun⟩

/-- Both injections load before either saves: the first one is lost. -/
theorem overlapping_injections_lose_turn :
    ¬ ∀ (ops : Bool → SessionOperation) (content : Option Value) (actions : List (Action Bool))
        (s : SharedCell.State Bool (Option Value)),
      Run (sessionSystem ops) (fun _ _ => True) (SharedCell.initial content) actions s →
      (∀ i, ∃ seen, s.phase i = .done seen) → NoLostTurn ops s := by
  intro h
  have hrun : Run (sessionSystem twoInjections) (fun _ _ => True)
      (SharedCell.initial none) [.read false, .read true, .write false, .write true] _ :=
    .step (.step (.step (.step (.refl _) trivial (.read rfl rfl)) trivial (.read rfl rfl)) trivial
      (.write rfl)) trivial (.write rfl)
  have hlost := h _ _ _ _ hrun (fun i => ⟨none, by cases i <;> rfl⟩) false none rfl
    (injectMessage "first" 0) (by decide)
  rcases hlost with hkept | ⟨j, held, hj, hdone, hremoved⟩
  · revert hkept
    decide
  · cases j
    · exact hj rfl
    · obtain rfl : held = none := (SharedCell.Phase.done.inj hdone).symm
      rcases hremoved with ⟨hstored, -⟩ | ⟨hhanded, -⟩
      · cases hstored
      · revert hhanded
        decide

end Injections

end T560.Provider
