import Mathlib.Logic.Relation
import T560.Provider.Chat

/-!
# The message list of a run

Behind the history a run's messages are a lead of user messages and then one turn per
reply: the reply, and the results and instructions appended behind it. `Invariant` says
what each control point knows about these turns; in a run that abandons no call the
turns are also complete.
-/

namespace T560.Provider

open Transcript (Message isAssistant)

/-- A reply with what the run appended behind it. -/
structure Turn where
  assistant : AssistantMessage
  tail : List Message

def Turn.messages (t : Turn) : List Message := t.assistant.toMessage :: t.tail

/-- The call ids the results of a list refer to, in order. -/
def refs (ms : List Message) : List String := ms.filterMap resultRef

/-- The messages a run appends besides replies. -/
inductive Appended : Message → Prop
  | user (text : String) (t : ℚ) : Appended (userMessage text t)
  | result (call : ToolCall) (text : String) (e : Bool) (t : ℚ) :
      Appended (toolResultMessage call text e t)

theorem Appended.not_assistant {m : Message} (h : Appended m) : isAssistant m = false := by
  cases h with
  | user text t => exact isAssistant_userMessage text t
  | result call text e t => exact isAssistant_toolResultMessage call text e t

/-- The results of a turn answer its calls from the first on. -/
structure Turn.Ordered (t : Turn) : Prop where
  appended : ∀ m ∈ t.tail, Appended m
  inOrder : refs t.tail <+: t.assistant.callIds

/-- Every call of the turn has its result. -/
def Turn.Settled (t : Turn) : Prop := refs t.tail = t.assistant.callIds

/-- The messages behind `base` are a lead and the turns of the replies so far. -/
structure Layout (env : ChatEnv) (base : List Message) (st : RunState) (turns : List Turn) :
    Prop where
  split : ∃ lead, st.messages = base ++ (lead ++ turns.flatMap Turn.messages) ∧
    ∀ m ∈ lead, ∃ text t, m = userMessage text t
  count : st.requestCount = turns.length
  replies : turns.map (fun t => Except.ok t.assistant) =
    (List.range turns.length).map env.reply
  ordered : ∀ t ∈ turns, t.Ordered

@[simp]
theorem refs_nil : refs [] = [] := rfl

theorem refs_append (xs ys : List Message) : refs (xs ++ ys) = refs xs ++ refs ys := by
  simp [refs]

@[simp]
theorem refs_user (text : String) (t : ℚ) : refs [userMessage text t] = [] := by
  simp [refs]

@[simp]
theorem refs_result (c : ToolCall) (text : String) (e : Bool) (t : ℚ) :
    refs [toolResultMessage c text e t] = [c.id] := by
  simp [refs]

@[simp]
theorem refs_turn (t : Turn) : refs t.messages = refs t.tail := by
  simp [refs, Turn.messages]

section Steps
variable {env : ChatEnv} {base : List Message} {st : RunState} {turns : List Turn}

/-- Only messages and the request count matter to the layout. -/
theorem Layout.congr (h : Layout env base st turns) (st' : RunState)
    (hm : st'.messages = st.messages) (hc : st'.requestCount = st.requestCount) : Layout env base st' turns := by
  obtain ⟨lead, hl, hq⟩ := h.split
  exact ⟨⟨lead, by rw [hm, hl], hq⟩, by rw [hc, h.count], h.replies, h.ordered⟩

/-- A reply opens a turn. -/
theorem Layout.reply (h : Layout env base st turns) (st' : RunState) {a : AssistantMessage}
    (ha : env.reply st.requestCount = .ok a) (hm : st'.messages = st.messages ++ [a.toMessage])
    (hc : st'.requestCount = st.requestCount + 1) :
    Layout env base st' (turns ++ [⟨a, []⟩]) := by
  obtain ⟨lead, hl, hq⟩ := h.split
  refine ⟨⟨lead, ?_, hq⟩, ?_, ?_, ?_⟩
  · rw [hm, hl]
    simp [Turn.messages]
  · simp [hc, h.count]
  · have hr := h.replies
    rw [h.count] at ha
    simp [List.range_succ, hr, ha]
  · intro t ht
    rcases List.mem_append.mp ht with ht | ht
    · exact h.ordered t ht
    · obtain rfl := List.mem_singleton.mp ht
      exact ⟨by simp, by simp⟩

/-- What is appended behind the last reply joins its turn. -/
theorem Layout.extend {a : AssistantMessage} {tail more : List Message}
    (h : Layout env base st (turns ++ [⟨a, tail⟩])) (st' : RunState)
    (hm : st'.messages = st.messages ++ more) (hc : st'.requestCount = st.requestCount) (happ : ∀ m ∈ more, Appended m)
    (hrefs : refs (tail ++ more) <+: a.callIds) :
    Layout env base st' (turns ++ [⟨a, tail ++ more⟩]) := by
  obtain ⟨lead, hl, hq⟩ := h.split
  refine ⟨⟨lead, ?_, hq⟩, ?_, ?_, ?_⟩
  · rw [hm, hl]
    simp [Turn.messages]
  · rw [hc, h.count]
    simp
  · simpa using h.replies
  · intro t ht
    rcases List.mem_append.mp ht with ht | ht
    · exact h.ordered t (List.mem_append_left _ ht)
    · obtain rfl := List.mem_singleton.mp ht
      refine ⟨fun m hm => ?_, hrefs⟩
      rcases List.mem_append.mp hm with hm | hm
      · exact (h.ordered ⟨a, tail⟩ (by simp)).appended m hm
      · exact happ m hm

theorem refs_extend_user (tail : List Message) (text : String) (t : ℚ) :
    refs (tail ++ [userMessage text t]) = refs tail := by
  rw [refs_append, refs_user, List.append_nil]

/-- An instruction joins the last turn, or the lead when there is no reply yet. -/
theorem Layout.pushUser (h : Layout env base st turns) (text : String) :
    ∃ turns', Layout env base (st.pushUser env text) turns' ∧
      ((∀ t ∈ turns, t.Settled) → ∀ t ∈ turns', t.Settled) := by
  rcases List.eq_nil_or_concat turns with rfl | ⟨ts, t, rfl⟩
  · obtain ⟨lead, hl, hq⟩ := h.split
    refine ⟨[], ⟨⟨lead ++ [userMessage text (env.now st.messages.length)], ?_, ?_⟩,
      h.count, h.replies, h.ordered⟩, fun hs => hs⟩
    · simp [RunState.pushUser, hl]
    · intro m hm
      rcases List.mem_append.mp hm with hm | hm
      · exact hq m hm
      · exact ⟨text, _, List.mem_singleton.mp hm⟩
  · have hord := h.ordered t (by simp)
    have hlast : Layout env base st (ts ++ [⟨t.assistant, t.tail⟩]) := by simpa using h
    refine ⟨ts ++ [⟨t.assistant, t.tail ++ [userMessage text (env.now st.messages.length)]⟩],
      hlast.extend (st.pushUser env text) rfl rfl ?_ ?_, ?_⟩
    · intro m hm
      obtain rfl := List.mem_singleton.mp hm
      exact .user _ _
    · rw [refs_extend_user]
      exact hord.inOrder
    · intro hs u hu
      rcases List.mem_append.mp hu with hu | hu
      · exact hs u (by simp [hu])
      · obtain rfl := List.mem_singleton.mp hu
        have := hs t (by simp)
        rwa [Turn.Settled, refs_extend_user]

end Steps

end T560.Provider
