import T560.Channels.Polling

/-!
# Runs of the polling loop

In every run the updates are taken up in the order in which they came, none twice and none left
out: what has not been taken up is what the server would still return. The loop ends before
`close()` just when an error named `AbortError` gets out of the request or out of the handling of
an update.
-/

namespace T560.Channels.Polling

open EventRun (run Allowed)
open Js (Runtime)

/-- What holds of the updates in every state. -/
structure Tracked (b : Bridge) : Prop where
  ascending : b.arrived.Pairwise fun u v => u.update_id < v.update_id
  split : b.arrived = b.handled ++ b.ahead
  below : ∀ u ∈ b.handled, u.update_id < b.offset
  reached : ∀ n, (∀ u ∈ b.arrived, u.update_id < n) → b.offset ≤ n

/-- The batch is what the server would return again. -/
structure Sound (b : Bridge) : Prop extends Tracked b where
  batch : b.phase.batch <+: b.ahead

section Moves
variable {b : Bridge}

theorem Tracked.of_phase (h : Tracked b) (phase : Phase) (stderr : List String) :
    Tracked { b with phase, stderr } :=
  ⟨h.ascending, h.split, h.below, h.reached⟩

theorem Tracked.loop (h : Tracked b) : Sound b.loop where
  toTracked := h.of_phase _ _
  batch := by
    rw [Bridge.loop]
    split_ifs <;> exact List.nil_prefix

theorem Tracked.catch (h : Tracked b) (e : Thrown) : Sound (b.catch e) := by
  rw [Bridge.catch]
  split_ifs
  · exact ⟨h.of_phase _ _, List.nil_prefix⟩
  · exact ⟨h.of_phase _ _, List.nil_prefix⟩

theorem ahead_acknowledge (b : Bridge) : b.acknowledge.ahead = b.ahead := by
  rw [Bridge.acknowledge, Bridge.ahead, List.filter_eq_self]
  intro u hu
  exact (List.mem_filter.mp hu).2

theorem Tracked.acknowledge (h : Tracked b) : Tracked b.acknowledge where
  ascending := h.ascending
  split := by
    rw [ahead_acknowledge]
    exact h.split
  below := h.below
  reached := h.reached

/-- Taking up the next update moves it from what is ahead to what is handled. -/
theorem ahead_begin (h : Tracked b) {update : TelegramUpdate} {rest : List TelegramUpdate}
    (hahead : b.ahead = update :: rest) : (b.begin update).ahead = rest := by
  have hlater : ∀ u ∈ rest, update.update_id < u.update_id := by
    have hasc := h.ascending
    rw [h.split, hahead, List.pairwise_append, List.pairwise_cons] at hasc
    exact hasc.2.1.1
  have hfilter : (b.begin update).ahead = b.ahead.filter fun u => update.update_id + 1 ≤ u.update_id := by
    rw [Bridge.ahead, Bridge.ahead, List.filter_filter]
    apply List.filter_congr
    intro u _
    have hoffset : (b.begin update).offset = max b.offset (update.update_id + 1) := rfl
    rw [← Bool.decide_and, hoffset]
    exact decide_eq_decide.mpr (by omega)
  rw [hfilter, hahead, List.filter_cons_of_neg (by simp), List.filter_eq_self]
  intro u hu
  exact decide_eq_true (hlater u hu)

theorem Tracked.begin (h : Tracked b) {update : TelegramUpdate} {rest : List TelegramUpdate}
    (hahead : b.ahead = update :: rest) : Tracked (b.begin update) where
  ascending := h.ascending
  split := by
    rw [ahead_begin h hahead]
    have hsplit := h.split
    rw [hahead] at hsplit
    simpa [Bridge.begin] using hsplit
  below := by
    intro u hu
    simp only [Bridge.begin, List.mem_append, List.mem_singleton] at hu ⊢
    rcases hu with hu | rfl
    · have := h.below u hu
      omega
    · omega
  reached := by
    intro n hn
    have hupdate : update ∈ b.arrived := by
      rw [h.split, hahead]
      simp
    have hone := h.reached n hn
    have htwo := hn update hupdate
    simp only [Bridge.begin]
    omega

variable (rt : Runtime)

theorem Tracked.forUpdates (h : Tracked b) {updates : List TelegramUpdate}
    (hbatch : updates <+: b.ahead) : Sound (b.forUpdates rt updates) := by
  induction updates generalizing b with
  | nil => exact h.loop
  | cons update rest ih =>
    obtain ⟨more, hmore⟩ := hbatch
    have hahead : b.ahead = update :: (rest ++ more) := hmore.symm
    have hbegin := h.begin hahead
    have hrest : rest <+: (b.begin update).ahead := by
      rw [ahead_begin h hahead]
      exact List.prefix_append _ _
    rw [Bridge.forUpdates]
    cases handleUpdate rt update with
    | done _ => exact ih hbegin hrest
    | throws e => exact hbegin.catch e
    | waits c next => exact ⟨hbegin.of_phase _ _, hrest⟩

theorem Sound.arrive (h : Sound b) {update : TelegramUpdate}
    (hnew : ∀ u ∈ b.arrived, u.update_id < update.update_id) :
    Sound { b with pending := b.pending ++ [update], arrived := b.arrived ++ [update] } := by
  have hoffset := h.reached update.update_id hnew
  have hahead : Bridge.ahead { b with
      pending := b.pending ++ [update], arrived := b.arrived ++ [update] } = b.ahead ++ [update] := by
    rw [Bridge.ahead, List.filter_append, List.filter_cons_of_pos (by simpa using hoffset)]
    rfl
  constructor
  · constructor
    · rw [List.pairwise_append]
      refine ⟨h.ascending, List.pairwise_singleton _ _, ?_⟩
      intro u hu v hv
      obtain rfl : v = update := by simpa using hv
      exact hnew u hu
    · rw [hahead, ← List.append_assoc, ← h.split]
    · exact h.below
    · intro n hn
      exact h.reached n fun u hu => hn u (by simp [hu])
  · rw [hahead]
    exact h.batch.trans (List.prefix_append _ _)

theorem Sound.step (h : Sound b) (e : Event) : Sound (b.step rt e) := by
  cases e with
  | arrive update =>
    rw [Bridge.step]
    split_ifs with hnew
    · exact h.arrive hnew
    · exact h
  | close => exact ⟨⟨h.ascending, h.split, h.below, h.reached⟩, h.batch⟩
  | polled count =>
    cases hphase : b.phase with
    | polling =>
      simp only [Bridge.step, hphase]
      apply h.acknowledge.forUpdates rt
      rw [ahead_acknowledge]
      exact List.take_prefix _ _
    | _ =>
      simp only [Bridge.step, hphase]
      exact h
  | pollFailed e reached =>
    cases hphase : b.phase with
    | polling =>
      simp only [Bridge.step, hphase]
      split_ifs
      · exact h.acknowledge.catch e
      · exact h.catch e
    | _ =>
      simp only [Bridge.step, hphase]
      exact h
  | answered outcome =>
    cases hphase : b.phase with
    | handling rest c next =>
      have hbatch : rest <+: b.ahead := by
        have := h.batch
        rwa [hphase] at this
      simp only [Bridge.step, hphase]
      cases hnext : next (outcome c) with
      | done _ => exact h.forUpdates rt hbatch
      | throws e => exact h.catch e
      | waits c' next' => exact ⟨h.of_phase _ _, hbatch⟩
    | _ =>
      simp only [Bridge.step, hphase]
      exact h
  | woke =>
    cases hphase : b.phase with
    | pausing =>
      simp only [Bridge.step, hphase]
      exact h.loop
    | _ =>
      simp only [Bridge.step, hphase]
      exact h

theorem sound_run (events : List Event) : Sound (run (Bridge.step rt) Bridge.start events) := by
  induction events using List.reverseRecOn with
  | nil => exact ⟨⟨List.Pairwise.nil, rfl, by simp [Bridge.start], by simp [Bridge.start]⟩, List.nil_prefix⟩
  | append_singleton events e ih =>
    rw [EventRun.run_snoc]
    exact ih.step rt e

end Moves

section Exit

/-- The loop has ended only after `close()`. -/
def Bridge.ExitedClosed (b : Bridge) : Prop := b.phase.isExited = true → b.running = false

/-- The error that gets out of the request or out of the handling of an update. -/
def Bridge.escapes (b : Bridge) : Event → Option Thrown
  | .pollFailed e _ =>
    match b.phase with
    | .polling => some e
    | _ => none
  | .answered outcome =>
    match b.phase with
    | .handling _ c next => (next (outcome c)).thrown?
    | _ => none
  | _ => none

/-- While the bridge runs, no error that gets out is named `AbortError`. -/
def NoStrayAbort (b : Bridge) (event : Event) : Prop :=
  b.running = true → ∀ e, b.escapes event = some e → e.isAbort = false

variable {b : Bridge}

theorem exitedClosed_loop (b : Bridge) : b.loop.ExitedClosed := by
  rw [Bridge.ExitedClosed, Bridge.loop]
  cases b.running <;> simp [Phase.isExited]

theorem exitedClosed_catch (b : Bridge) (e : Thrown) :
    (b.catch e).ExitedClosed ↔ (b.running = true → e.isAbort = false) := by
  rw [Bridge.ExitedClosed, Bridge.catch]
  cases b.running <;> cases e.isAbort <;> simp [Phase.isExited]

variable (rt : Runtime)

theorem calm_handleUpdate (update : TelegramUpdate) : (handleUpdate rt update).Calm := by
  unfold handleUpdate
  split
  · split_ifs <;> rfl
  · rfl

theorem exitedClosed_forUpdates (b : Bridge) (updates : List TelegramUpdate) :
    (b.forUpdates rt updates).ExitedClosed := by
  induction updates generalizing b with
  | nil => exact exitedClosed_loop b
  | cons update rest ih =>
    have hcalm := calm_handleUpdate rt update
    rw [Bridge.forUpdates]
    cases hbody : handleUpdate rt update with
    | done _ => exact ih _
    | throws e =>
      rw [hbody] at hcalm
      cases hcalm
    | waits c next =>
      intro hexited
      cases hexited

/-- A step that cannot end the loop. -/
theorem noStrayAbort_of_none {event : Event} (h : b.escapes event = none) : NoStrayAbort b event := by
  intro _ e he
  rw [h] at he
  cases he

theorem noStrayAbort_of_some {event : Event} {e : Thrown} (h : b.escapes event = some e) :
    NoStrayAbort b event ↔ (b.running = true → e.isAbort = false) := by
  constructor
  · exact fun hno hr => hno hr e h
  · intro himp hr e' he'
    rw [h] at he'
    obtain rfl := Option.some.inj he'
    exact himp hr

/-- One step keeps the loop from ending early just when no stray abort gets out. -/
theorem exitedClosed_step_iff (h : b.ExitedClosed) (event : Event) :
    (b.step rt event).ExitedClosed ↔ NoStrayAbort b event := by
  cases event with
  | arrive update =>
    refine iff_of_true ?_ (noStrayAbort_of_none rfl)
    rw [Bridge.step]
    split_ifs <;> exact h
  | close => exact iff_of_true (fun _ => rfl) (noStrayAbort_of_none rfl)
  | polled count =>
    refine iff_of_true ?_ (noStrayAbort_of_none rfl)
    cases hphase : b.phase with
    | polling =>
      simp only [Bridge.step, hphase]
      exact exitedClosed_forUpdates rt _ _
    | _ =>
      simp only [Bridge.step, hphase]
      exact h
  | pollFailed e reached =>
    cases hphase : b.phase with
    | polling =>
      have hescapes : b.escapes (.pollFailed e reached) = some e := by
        simp only [Bridge.escapes, hphase]
      simp only [Bridge.step, hphase]
      rw [exitedClosed_catch, noStrayAbort_of_some hescapes]
      cases reached <;> rfl
    | _ =>
      refine iff_of_true ?_ (noStrayAbort_of_none (by simp only [Bridge.escapes, hphase]))
      simp only [Bridge.step, hphase]
      exact h
  | answered outcome =>
    cases hphase : b.phase with
    | handling rest c next =>
      have hescapes : b.escapes (.answered outcome) = (next (outcome c)).thrown? := by
        simp only [Bridge.escapes, hphase]
      simp only [Bridge.step, hphase]
      cases hnext : next (outcome c) with
      | done _ =>
        rw [hnext] at hescapes
        exact iff_of_true (exitedClosed_forUpdates rt _ _) (noStrayAbort_of_none hescapes)
      | throws e =>
        rw [hnext] at hescapes
        rw [noStrayAbort_of_some hescapes]
        exact exitedClosed_catch b e
      | waits c' next' =>
        rw [hnext] at hescapes
        refine iff_of_true ?_ (noStrayAbort_of_none hescapes)
        intro hexited
        cases hexited
    | _ =>
      refine iff_of_true ?_ (noStrayAbort_of_none (by simp only [Bridge.escapes, hphase]))
      simp only [Bridge.step, hphase]
      exact h
  | woke =>
    refine iff_of_true ?_ (noStrayAbort_of_none rfl)
    cases hphase : b.phase with
    | pausing =>
      simp only [Bridge.step, hphase]
      exact exitedClosed_loop b
    | _ =>
      simp only [Bridge.step, hphase]
      exact h

end Exit

/-- The updates were taken up in the order of their ids, none of them twice; whatever came and was
not taken up is still returned from the offset on; and the loop has ended only after `close()`. -/
structure Orderly (b : Bridge) : Prop where
  in_order : b.handled.Pairwise fun u v => u.update_id < v.update_id
  none_skipped : b.arrived = b.handled ++ b.ahead
  exited_closed : b.ExitedClosed

theorem orderly_iff {b : Bridge} (h : Sound b) : Orderly b ↔ b.ExitedClosed := by
  constructor
  · exact fun ho => ho.exited_closed
  · intro hexit
    have hasc := h.ascending
    rw [h.split, List.pairwise_append] at hasc
    exact ⟨hasc.1, h.split, hexit⟩

/-- Every state of a run is orderly just when no error named `AbortError` gets out of the
request or of the handling of an update before `close()`. -/
theorem polling_orderly_iff (rt : Runtime) (events : List Event) :
    (∀ before, before <+: events → Orderly (run (Bridge.step rt) Bridge.start before)) ↔
      Allowed (Bridge.step rt) NoStrayAbort Bridge.start events := by
  have hsound := sound_run rt
  induction events using List.reverseRecOn with
  | nil =>
    refine iff_of_true ?_ trivial
    intro before hbefore
    rw [List.prefix_nil.mp hbefore, orderly_iff (hsound [])]
    exact fun h => absurd h (by simp [Bridge.start, Phase.isExited])
  | append_singleton events e ih =>
    rw [EventRun.allowed_append]
    constructor
    · intro h
      have hbefore := h events (List.prefix_append _ _)
      have hlast := h _ (List.prefix_refl _)
      rw [EventRun.run_snoc] at hlast
      refine ⟨ih.mp fun before hpre => h before (hpre.trans (List.prefix_append _ _)), ?_, trivial⟩
      exact (exitedClosed_step_iff rt hbefore.exited_closed e).mp hlast.exited_closed
    · rintro ⟨hallowed, hno, -⟩ before hpre
      have h := ih.mpr hallowed
      rcases List.prefix_concat_iff.mp hpre with rfl | hpre
      · rw [orderly_iff (hsound _), EventRun.run_snoc]
        exact (exitedClosed_step_iff rt (h events (List.prefix_refl _)).exited_closed e).mpr hno
      · exact h before hpre

/-- Direct messages are open, and the handler gives a message up with an `AbortError`. -/
def givenUp : (c : Call) → Except Thrown c.Answer
  | .readConfig => .ok { channels := some ⟨⟨none, .open, none, none⟩⟩ }
  | .handleMessage _ _ _ => .error (.error "AbortError" "This operation was aborted")
  | .readOnboardingStatus => .error (.error "Error" "unreadable")
  | .isPairingApproved _ _ => .ok false
  | .requestPairingCode _ _ => .ok "AAAA"
  | .sendTelegramMessage _ _ _ => .ok ()
  | .clearSessionMessages _ => .ok ()
  | .createTelegramProgressRelay _ _ => .ok ()
  | .closeProgressRelay => .ok ()

/-- Two messages come; the handling of the first is given up. -/
def givenUpRun : List Event :=
  [.arrive ⟨1, some "hello", some 7, none⟩, .arrive ⟨2, some "still there?", some 7, none⟩,
    .polled 2, .answered givenUp, .answered givenUp, .answered givenUp, .answered givenUp]

/-- The loop has ended, nobody called `close()`, and the second message is never taken up. -/
theorem handler_abort_ends_loop :
    ¬ Orderly (run (Bridge.step Js.asciiRuntime) Bridge.start givenUpRun) := by
  intro h
  have hexited : (run (Bridge.step Js.asciiRuntime) Bridge.start givenUpRun).phase.isExited = true := by
    decide
  have hrunning : (run (Bridge.step Js.asciiRuntime) Bridge.start givenUpRun).running = true := by
    decide
  have hclosed := h.exited_closed hexited
  rw [hrunning] at hclosed
  cases hclosed

end T560.Channels.Polling
