import T560.Provider.Requests
import T560.Transcript.Session

/-!
# Orphan results in provider requests

A loaded history is paired, and a run appends results only behind the reply that called for
them. What is left is the compact window, which cuts the history at a fixed distance from
its end: a request has an orphan exactly when that cut falls on a result.
-/

namespace T560.Provider

open Js (Value)
open Transcript

/-- The message holds a tool call with the id. -/
def HoldsCall (msg : Message) (id : String) : Prop :=
  ∃ block ∈ (contentBlocks msg).getD [], isToolCallType block = true ∧
    block.get? "id" = some (.str id)

/-- The id of a result; a result without one refers to the empty id. -/
def resultId (msg : Message) : String := (extractToolResultId msg).getD ""

/-- Every result is preceded by an assistant message that holds its call. -/
def NoOrphans (ms : List Message) : Prop :=
  ∀ before m after, ms = before ++ m :: after → isToolResult m = true →
    ∃ a ∈ before, isAssistant a = true ∧ HoldsCall a (resultId m)

/-- The compact window begins with a result. -/
def CutsTurn (env : ChatEnv) (history : List Message) : Prop :=
  env.compactMode = true ∧
    ∃ m, history[history.length - resolveCompactHistoryMessages env]? = some m ∧
      isToolResult m = true

theorem noOrphans_nil : NoOrphans [] := by
  intro before m after h
  simp at h

theorem NoOrphans.append {xs ys : List Message} (hx : NoOrphans xs) (hy : NoOrphans ys) :
    NoOrphans (xs ++ ys) := by
  intro before m after h hm
  rcases List.append_eq_append_iff.mp h with ⟨zs, rfl, hys⟩ | ⟨zs, rfl, hzs⟩
  · obtain ⟨a, ha, hcall⟩ := hy zs m after hys hm
    exact ⟨a, List.mem_append_right _ ha, hcall⟩
  · cases zs with
    | nil =>
      obtain ⟨a, ha, hcall⟩ := hy [] m after (by simpa using hzs.symm) hm
      simp at ha
    | cons z zs =>
      obtain ⟨rfl, -⟩ := List.cons.inj hzs
      exact hx before m zs rfl hm

theorem NoOrphans.prefix {xs ys : List Message} (h : NoOrphans (xs ++ ys)) : NoOrphans xs := by
  intro before m after hx hm
  exact h before m (after ++ ys) (by simp [hx]) hm

theorem holdsCall_of_mem {a : Message} {id : String} (h : id ∈ callIds a) : HoldsCall a id := by
  obtain ⟨call, hcall, rfl⟩ := List.mem_map.mp h
  unfold extractToolCallsFromAssistant at hcall
  split at hcall
  · rename_i blocks hb
    obtain ⟨block, hmem, hblock⟩ := List.mem_filterMap.mp hcall
    unfold toolCallOfBlock at hblock
    split at hblock
    · rename_i id hid
      split_ifs at hblock with hc
      simp only [Bool.and_eq_true] at hc
      cases hblock
      exact ⟨block, by simpa [hb] using hmem, hc.2, hid⟩
    · cases hblock
  · simp at hcall

theorem holdsCall_toMessage {a : AssistantMessage} {id : String} (h : id ∈ a.callIds) :
    HoldsCall a.toMessage id := by
  obtain ⟨call, hcall, rfl⟩ := List.mem_map.mp h
  obtain ⟨block, hb, hc⟩ := List.mem_filterMap.mp hcall
  cases block with
  | text s => cases hc
  | thinking s => cases hc
  | toolCall c =>
    obtain rfl := Option.some.inj hc
    refine ⟨Block.toValue (.toolCall c), ?_, rfl, rfl⟩
    simpa using List.mem_map_of_mem hb

theorem resultId_toolResultMessage (c : ToolCall) (text : String) (e : Bool) (t : ℚ) :
    resultId (toolResultMessage c text e t) = c.id := by
  by_cases h : c.id = "" <;>
    simp [resultId, extractToolResultId, toolResultMessage, Value.get?, List.lookup_cons,
      nonEmptyText, h]

theorem noOrphans_turn {t : Turn} (h : t.Ordered) : NoOrphans t.messages := by
  intro before m after hsplit hm
  cases before with
  | nil =>
    obtain ⟨rfl, -⟩ := List.cons.inj hsplit
    rw [not_toolResult_of_assistant (isAssistant_toMessage _)] at hm
    cases hm
  | cons b before =>
    obtain ⟨rfl, htail⟩ := List.cons.inj hsplit
    refine ⟨_, List.mem_cons_self, isAssistant_toMessage _, ?_⟩
    have hmem : m ∈ t.tail := by simp [htail]
    cases h.appended m hmem with
    | user text time => simp at hm
    | result call text e time =>
      rw [resultId_toolResultMessage]
      apply holdsCall_toMessage
      apply h.inOrder.subset
      exact List.mem_filterMap.mpr ⟨_, hmem, resultRef_toolResultMessage call text e time⟩

theorem noOrphans_run {lead : List Message} {turns : List Turn}
    (hq : ∀ m ∈ lead, ∃ text t, m = userMessage text t) (hord : ∀ t ∈ turns, t.Ordered) :
    NoOrphans (lead ++ turns.flatMap Turn.messages) := by
  apply NoOrphans.append
  · intro before m after h hm
    obtain ⟨text, t, rfl⟩ := hq m (by simp [h])
    simp at hm
  · induction turns with
    | nil => exact noOrphans_nil
    | cons t turns ih =>
      rw [List.flatMap_cons]
      exact (noOrphans_turn (hord t (by simp))).append (ih fun u hu => hord u (by simp [hu]))

/-- Cutting a paired history at its front orphans a result exactly when the cut falls on one. -/
theorem noOrphans_drop_iff {ms : List Message} (h : Answered ms) (k : Nat) :
    NoOrphans (ms.drop k) ↔ ∀ m, ms[k]? = some m → isToolResult m = false := by
  constructor
  · intro hno m hk
    by_contra hm
    obtain ⟨rest, hrest⟩ : ∃ rest, ms.drop k = m :: rest := by
      rw [← List.head?_drop] at hk
      exact ⟨(ms.drop k).tail, (List.cons_head?_tail hk).symm⟩
    obtain ⟨a, ha, -⟩ := hno [] m rest hrest (by simpa using hm)
    simp at ha
  · intro hhead before m after hsplit hm
    obtain ⟨caller, run, ⟨⟨earlier, hbefore⟩, hexp, hrun⟩, id, hid, hres⟩ :=
      h (ms.take k ++ before) m after (by rw [List.append_assoc, ← hsplit, List.take_append_drop]) hm
    have hfirst : ∀ x, (before ++ m :: after).head? = some x → isToolResult x = false := by
      intro x hx
      rw [← hsplit, List.head?_drop] at hx
      exact hhead x hx
    have hcall : HoldsCall caller (resultId m) := by
      rw [resultId, hres]
      exact holdsCall_of_mem hid
    rcases List.append_eq_append_iff.mp hbefore with ⟨zs, hz, hb⟩ | ⟨zs, hz, hb⟩
    · exact ⟨caller, by simp [hb], expectsResults_isAssistant hexp, hcall⟩
    · cases zs with
      | nil =>
        have hmem : caller ∈ before := by
          rw [List.nil_append] at hb
          simp [← hb]
        exact ⟨caller, hmem, expectsResults_isAssistant hexp, hcall⟩
      | cons z zs =>
        exfalso
        obtain ⟨-, rfl⟩ := List.cons.inj hb
        cases before with
        | nil =>
          have := hfirst m rfl
          rw [hm] at this
          cases this
        | cons b before =>
          have := hfirst b rfl
          rw [hrun b (by simp)] at this
          cases this

/-- The history of a run has an orphan exactly when its window cuts a turn. -/
theorem noOrphans_historyForRun (env : ChatEnv) {history : List Message} (h : Answered history) :
    NoOrphans (historyForRun env history) ↔ ¬ CutsTurn env history := by
  by_cases hc : env.compactMode = true
  · simp only [historyForRun, CutsTurn, hc, if_true, true_and, noOrphans_drop_iff h, not_exists,
      not_and, Bool.not_eq_true]
  · simp only [historyForRun, CutsTurn, hc, Bool.false_eq_true, if_false, false_and, not_false_eq_true,
      iff_true]
    have hwhole := (noOrphans_drop_iff h 0).mpr fun m hm => ?_
    · simpa using hwhole
    · rw [← List.head?_eq_getElem?] at hm
      exact answeredFrom_nil_head ((answered_iff_answeredFrom _).mp h) hm

/-- A request of a run over a loaded history is free of orphans exactly when the compact
window does not cut a turn of that history. -/
theorem request_noOrphans_iff (env : ChatEnv) (file : Option String) (content : String)
    (c : Config)
    (hrun : Relation.ReflTransGen (Step env False)
      (start env (loadSessionMessages env.parse file) content) c)
    (req : Request) (hreq : requestOf env c = some req) :
    NoOrphans req.messages ↔ ¬ CutsTurn env (loadSessionMessages env.parse file) := by
  obtain ⟨st, turns, hl, hm, -⟩ := request_layout (invariant_run hrun) hreq
  obtain ⟨lead, hsplit, hq⟩ := hl.split
  rw [← noOrphans_historyForRun env (load_answered env.parse file), ← hm, hsplit]
  constructor
  · exact NoOrphans.prefix
  · intro h
    exact h.append (noOrphans_run hq hl.ordered)

theorem maxToolRounds_pos (env : ChatEnv) : 0 < maxToolRounds env := by
  unfold maxToolRounds
  split_ifs <;> decide

/-- Without a saved service the run begins with a request for the history and the message. -/
theorem requestOf_start {env : ChatEnv} (hsaved : env.savedServiceFromMessage = none)
    (history : List Message) (content : String) :
    requestOf env (start env history content) =
      some ⟨true, historyForRun env history ++
        [userMessage content (env.now (historyForRun env history).length)]⟩ := by
  have hlogin : autoLogin env (initialLedger env) = .ok (initialLedger env, false, false) := by
    rw [autoLogin, hsaved]
    rfl
  have henters : ∀ st : RunState, st.forceWaitForMfaCode = false → entersRound env 0 st = true := by
    intro st hst
    simp only [entersRound, hst, maxToolRounds_pos, decide_true, Bool.not_false, Bool.and_self]
  simp only [start, hlogin, Bool.false_and, Bool.false_eq_true, if_false, requestOf]
  rw [if_pos (henters _ rfl)]
  rfl

/-- A stored session: a call, its result and an answer. -/
def storedSession : List Message :=
  [callMessage "a", resultMessage "a",
    .obj [("role", .str "assistant"), ("content", .arr [.obj [("type", .str "text"), ("text", .str "ok")]])]]

def storedText : String :=
  "[\x7b\"role\":\"assistant\",\"content\":[\x7b\"type\":\"toolCall\",\"id\":\"a\"," ++
  "\"name\":\"exec\",\"arguments\":\x7b\x7d\x7d]\x7d,\x7b\"role\":\"toolResult\"," ++
  "\"toolCallId\":\"a\",\"toolName\":\"exec\",\"content\":[],\"isError\":false\x7d," ++
  "\x7b\"role\":\"assistant\",\"content\":[\x7b\"type\":\"text\",\"text\":\"ok\"\x7d]\x7d]"

/-- A compact run over the stored session with the given window setting. -/
def compactEnv (setting : String) : ChatEnv :=
  { loginEnv "\x7b\x7d" with
    parse := fun text => if text = storedText then some (.arr storedSession) else none
    compactMode := true
    compactHistorySetting := some setting }

theorem resolveCompactHistoryMessages_nat {env : ChatEnv} {n : Nat}
    (h : env.rt.textNumber (env.compactHistorySetting.getD "") = .fin n)
    (hmin : MIN_COMPACT_HISTORY_MESSAGES ≤ n) (hmax : n ≤ MAX_COMPACT_HISTORY_MESSAGES) :
    resolveCompactHistoryMessages env = n := by
  have hpos : (0 : ℚ) < n := by
    have : 0 < n := lt_of_lt_of_le (by decide) hmin
    exact_mod_cast this
  simp [resolveCompactHistoryMessages, h, hpos, hmin, hmax]

theorem load_storedText (setting : String) :
    loadSessionMessages (compactEnv setting).parse (some storedText) = storedSession := by
  have hparse : (compactEnv setting).parse storedText = some (.arr storedSession) := by
    simp [compactEnv]
  simp only [loadSessionMessages, Option.bind_some, hparse]
  decide

theorem textNumber_compactEnv (setting : String) :
    (compactEnv setting).rt.textNumber ((compactEnv setting).compactHistorySetting.getD "") =
      Js.decimalNumber setting := by
  simp only [compactEnv, loginEnv, Js.asciiRuntime, Option.getD_some]

theorem window_compactEnv {setting : String} {n : Nat}
    (h : Js.decimalNumber setting = .fin n) (hmin : MIN_COMPACT_HISTORY_MESSAGES ≤ n)
    (hmax : n ≤ MAX_COMPACT_HISTORY_MESSAGES) :
    historyForRun (compactEnv setting) storedSession = storedSession.drop (3 - n) := by
  have hw : resolveCompactHistoryMessages (compactEnv setting) = n :=
    resolveCompactHistoryMessages_nat ((textNumber_compactEnv setting).trans h) hmin hmax
  rw [historyForRun, hw]
  rfl

theorem request_noOrphans_wide_window :
    ∃ req, requestOf (compactEnv "3")
        (start (compactEnv "3") (loadSessionMessages (compactEnv "3").parse (some storedText)) "hi") =
        some req ∧ NoOrphans req.messages := by
  refine ⟨_, requestOf_start rfl _ _,
    (request_noOrphans_iff (compactEnv "3") (some storedText) "hi" _ .refl _
      (requestOf_start rfl _ _)).mpr ?_⟩
  have hw : resolveCompactHistoryMessages (compactEnv "3") = 3 :=
    resolveCompactHistoryMessages_nat ((textNumber_compactEnv "3").trans
      (Js.decimalNumber_digits (by decide) (by decide))) (by decide) (by decide)
  rintro ⟨-, m, hm, hr⟩
  rw [load_storedText, hw] at hm
  obtain rfl := Option.some.inj hm
  exact absurd hr (by decide)

/-- A window of two messages begins with the result and leaves its call behind. -/
theorem compact_window_orphans_result :
    ∃ req, requestOf (compactEnv "2")
        (start (compactEnv "2") (loadSessionMessages (compactEnv "2").parse (some storedText)) "hi") =
        some req ∧ ¬ NoOrphans req.messages := by
  refine ⟨_, requestOf_start rfl _ _, fun h => ?_⟩
  rw [load_storedText, window_compactEnv (n := 2)
    (Js.decimalNumber_digits (by decide) (by decide)) (by decide) (by decide)] at h
  obtain ⟨a, ha, -⟩ := h [] (resultMessage "a") _ rfl (by decide)
  simp at ha

end T560.Provider
