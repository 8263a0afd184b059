import T560.Channels.PairingRuns
import T560.Channels.Polling
import T560.Transcript.SessionFile
import T560.Vault.Write

/-!
# Senders that are not accepted

What the handling of an update does to the configuration, the session files, the vault and the
pairings. `shouldAcceptMessage` stands in front of `handleMessage`, and the commands stand in front
of `shouldAcceptMessage`: a sender that it turns away can still clear the session of the chat.
-/

namespace T560.Channels.Polling

open Js (Value)
open Program (Reaches Ends reaches_bind ends_bind reaches_perform ends_perform reaches_done ends_done)
open Config (T560Config TelegramDmPolicy)
open Transcript (SessionEnv Files resolveSessionPath clearSessionMessages)
open Vault (VaultStore)

structure HandledMessage where
  message : String
  sessionId : String
  externalUserId : String

/-- The stores around the bridge, and the messages that `handleMessage` was called with. The
pairings are the file and the `DEFAULT_STORE` of the process. -/
structure World where
  config : T560Config
  sessions : Files
  vault : VaultStore
  defaults : PairingStore
  pairings : Option Value
  messages : List HandledMessage

structure BridgeEnv where
  pairing : PairingEnv
  sessions : SessionEnv

section Calls

/-- What an operation on the pairings leaves, with its write or without. -/
def World.paired (w : World) (e : Effect) (written : Bool) : World :=
  { w with
    defaults := e.defaults
    pairings := if written then e.written.or w.pairings else w.pairings }

def telegramParams (userId chatId : String) : PairingParams := ⟨"telegram", userId, chatId⟩

variable (env : BridgeEnv)

/-- A code is requested for the user and the chat; its write may fail. -/
def RequestsCode (userId chatId : String) (w : World) (e : Effect) : Prop :=
  ∃ at_, e = (Operation.request (telegramParams userId chatId)).call env.pairing at_ w.defaults
    w.pairings

/-- A call takes the world to another one and has an outcome. Each may fail but
`clearSessionMessages`, which ignores that the file could not be removed. `handleMessage` may
change every store. -/
def Does (w : World) : (c : Call) → Except Thrown c.Answer → World → Prop
  | .readConfig, r, w' => w' = w ∧ ∀ config, r = .ok config → config = w.config
  | .isPairingApproved userId chatId, r, w' =>
    ∃ at_ e, e = (Operation.isApproved (telegramParams userId chatId)).call env.pairing at_ w.defaults
        w.pairings ∧
      w' = w.paired e false ∧ ∀ yes, r = .ok yes → e.outcome = .ok (.approved yes)
  | .requestPairingCode userId chatId, r, w' =>
    ∃ e written, RequestsCode env userId chatId w e ∧ w' = w.paired e written ∧
      ∀ code, r = .ok code → written = true ∧ ∃ created, e.outcome = .ok (.code code created)
  | .clearSessionMessages sessionId, r, w' =>
    r = .ok () ∧
      (w' = w ∨ w' = { w with sessions := clearSessionMessages env.sessions sessionId w.sessions })
  | .handleMessage message sessionId externalUserId, _, w' =>
    w'.messages = w.messages ++ [⟨message, sessionId, externalUserId⟩]
  | _, _, w' => w' = w

end Calls

section Frame

variable (env : BridgeEnv)

/-- No check that is carried out now lets the sender and the chat of the update in. -/
def Refused (w : World) (update : TelegramUpdate) : Prop :=
  ∀ chatId fromId, update.chatId = some chatId → update.fromId.or update.chatId = some fromId →
    ∀ a v, Ends (Does env) w (shouldAcceptMessage fromId chatId) a v → a.allowed = false

/-- Nothing changed but the pairings, and these as a request for a code leaves them. -/
def Unharmed (update : TelegramUpdate) (w w' : World) : Prop :=
  w' = w ∨ ∃ chatId fromId e written,
    update.chatId = some chatId ∧ update.fromId.or update.chatId = some fromId ∧
      RequestsCode env (toString fromId) (toString chatId) w e ∧ w' = w.paired e written

/-- The update asks for a fresh session, and the chat has one to lose. -/
def LosesSession (w : World) (update : TelegramUpdate) : Prop :=
  ∃ text chatId, update.text.map Js.trim = some text ∧ update.chatId = some chatId ∧
    (text = "/new" ∨ text = "/reset") ∧
      w.sessions (resolveSessionPath env.sessions ("telegram:" ++ toString chatId)) ≠ none

end Frame

section Pairings

variable {env : PairingEnv}

theorem isApproved_call (params : PairingParams) (at_ : Surroundings) (defaults : PairingStore)
    (file : Option Value) :
    ((Operation.isApproved params).call env at_ defaults file).defaults = defaults := by
  simp only [Operation.call]
  cases readStore env at_.now file <;> rfl

end Pairings

section Checks

variable {env : BridgeEnv} {w w' : World}

theorem does_readConfig {r : Except Thrown T560Config} (h : Does env w .readConfig r w') : w' = w :=
  h.1

theorem does_isPairingApproved {userId chatId : String} {r : Except Thrown Bool}
    (h : Does env w (.isPairingApproved userId chatId) r w') : w' = w := by
  obtain ⟨at_, e, rfl, rfl, -⟩ := h
  simp only [World.paired, isApproved_call]
  rfl

theorem reaches_readConfig (h : Reaches (Does env) w (call .readConfig) w') : w' = w := by
  rcases reaches_perform.mp h with h | ⟨r, h⟩
  · exact h
  · exact does_readConfig h

/-- The check changes the pairings at most, and only by its request for a code. -/
theorem reaches_shouldAcceptMessage {userId chatId : Int}
    (h : Reaches (Does env) w (shouldAcceptMessage userId chatId) w') :
    w' = w ∨ ∃ e written, RequestsCode env (toString userId) (toString chatId) w e ∧
      w' = w.paired e written := by
  rcases reaches_bind.mp h with h | ⟨config, v, hconfig, hrest⟩
  · exact Or.inl (reaches_readConfig h)
  obtain rfl : v = w := does_readConfig (ends_perform.mp hconfig)
  cases hpolicy : dmPolicyOf config <;> simp only [hpolicy] at hrest
  case disabled => exact Or.inl (reaches_done hrest)
  case «open» => exact Or.inl (reaches_done hrest)
  case allowlist => exact Or.inl (reaches_done hrest)
  case pairing =>
    split at hrest
    · exact Or.inl (reaches_done hrest)
    rcases reaches_bind.mp hrest with h | ⟨paired, u, hpaired, hask⟩
    · rcases reaches_perform.mp h with h | ⟨r, h⟩
      · exact Or.inl h
      · exact Or.inl (does_isPairingApproved h)
    obtain rfl : u = v := does_isPairingApproved (ends_perform.mp hpaired)
    split at hask
    · exact Or.inl (reaches_done hask)
    have hasked : ∀ {r x}, Does env u (.requestPairingCode (toString userId) (toString chatId)) r x →
        ∃ e written, RequestsCode env (toString userId) (toString chatId) u e ∧
          x = u.paired e written := by
      rintro r x ⟨e, written, he, hx, -⟩
      exact ⟨e, written, he, hx⟩
    rcases reaches_bind.mp hask with h | ⟨code, x, hcode, hlast⟩
    · rcases reaches_perform.mp h with h | ⟨r, h⟩
      · exact Or.inl h
      · exact Or.inr (hasked h)
    obtain rfl : w' = x := reaches_done hlast
    exact Or.inr (hasked (ends_perform.mp hcode))

end Checks

section Commands

variable {env : BridgeEnv} {w w' : World}

theorem reaches_send {chatId : Int} {text : String}
    (h : Reaches (Does env) w (sendTelegramMessage chatId text) w') : w' = w := by
  rcases reaches_perform.mp h with h | ⟨r, h⟩
  · exact h
  · exact h

theorem reaches_refuse {chatId : Int} {auth : Acceptance}
    (h : Reaches (Does env) w (refuse chatId auth) w') : w' = w := by
  cases hpolicy : auth.dmPolicy <;> simp only [refuse, hpolicy] at h <;> exact reaches_send h

theorem reaches_sendStatus {chatId : Int} (h : Reaches (Does env) w (sendStatus chatId) w') :
    w' = w := by
  rcases reaches_bind.mp h with h | ⟨status, v, hstatus, hpolicy⟩
  · rcases reaches_perform.mp h with h | ⟨r, h⟩
    · exact h
    · exact h
  obtain rfl : v = w := ends_perform.mp hstatus
  rcases reaches_bind.mp hpolicy with h | ⟨policy, u, hread, hsend⟩
  · rcases reaches_bind.mp h with h | ⟨config, u, hread, hdone⟩
    · exact reaches_readConfig h
    · obtain rfl : u = v := does_readConfig (ends_perform.mp hread)
      exact reaches_done hdone
  obtain ⟨config, x, hconfig, hdone⟩ := ends_bind.mp hread
  obtain rfl : x = v := does_readConfig (ends_perform.mp hconfig)
  obtain rfl : u = x := (ends_done hdone).2
  exact reaches_send hsend

/-- A message that no command takes ends in the refusal. -/
theorem reaches_answerMessage {text : String} {chatId fromId : Int}
    (hrefused : ∀ a v, Ends (Does env) w (shouldAcceptMessage fromId chatId) a v → a.allowed = false)
    (h : Reaches (Does env) w (answerMessage text chatId fromId) w') :
    w' = w ∨ ∃ e written, RequestsCode env (toString fromId) (toString chatId) w e ∧
      w' = w.paired e written := by
  rcases reaches_bind.mp h with h | ⟨auth, v, hauth, hrest⟩
  · exact reaches_shouldAcceptMessage h
  rw [if_pos (by rw [hrefused auth v hauth]; rfl)] at hrest
  obtain rfl : w' = v := reaches_refuse hrest
  exact reaches_shouldAcceptMessage hauth.reaches

def startFresh (chatId : Int) : Body Unit := do
  let _ ← call (.clearSessionMessages ("telegram:" ++ toString chatId))
  sendTelegramMessage chatId "Started a fresh chat session for this conversation."

theorem reaches_startFresh {chatId : Int} : Reaches (Does env) w (startFresh chatId) w' ↔
    w' = w ∨ w' = { w with
      sessions := clearSessionMessages env.sessions ("telegram:" ++ toString chatId) w.sessions } := by
  constructor
  · intro h
    rcases reaches_bind.mp h with h | ⟨_, v, hclear, hsend⟩
    · rcases reaches_perform.mp h with h | ⟨r, -, h⟩
      · exact Or.inl h
      · exact h
    · obtain rfl : w' = v := reaches_send hsend
      exact (ends_perform.mp hclear).2
  · rintro (rfl | rfl)
    · exact .here
    · exact reaches_bind.mpr (Or.inl (reaches_perform.mpr (Or.inr ⟨.ok (), rfl, Or.inr rfl⟩)))

end Commands

section Updates

variable {env : BridgeEnv} {w w' : World} {update : TelegramUpdate}

theorem handleUpdate_reset {text : String} {chatId : Int} (htext : update.text.map Js.trim = some text)
    (hchat : update.chatId = some chatId) (hreset : text = "/new" ∨ text = "/reset") :
    handleUpdate env.pairing.rt update = startFresh chatId := by
  obtain ⟨fromId, hfrom⟩ : ∃ fromId, update.fromId.or update.chatId = some fromId := by
    rw [hchat]
    cases update.fromId with
    | none => exact ⟨chatId, rfl⟩
    | some fromId => exact ⟨fromId, rfl⟩
  have hnew : isHeartbeatCheckMessage env.pairing.rt "/new" = false := by
    rw [isHeartbeatCheckMessage, show Js.trim "/new" = "/new" by decide,
      env.pairing.rt.lower_ascii "/new" (by decide)]
    decide
  have hres : isHeartbeatCheckMessage env.pairing.rt "/reset" = false := by
    rw [isHeartbeatCheckMessage, show Js.trim "/reset" = "/reset" by decide,
      env.pairing.rt.lower_ascii "/reset" (by decide)]
    decide
  simp only [handleUpdate, htext, hchat]
  rw [hchat] at hfrom
  rcases hreset with rfl | rfl
  · simp [hfrom, hnew, startFresh]
  · simp [hfrom, hres, startFresh]

/-- What the handling of an update of a refused sender can lead to. -/
theorem reaches_handleUpdate (hrefused : Refused env w update)
    (h : Reaches (Does env) w (handleUpdate env.pairing.rt update) w') :
    Unharmed env update w w' ∨ ∃ text chatId, update.text.map Js.trim = some text ∧
      update.chatId = some chatId ∧ (text = "/new" ∨ text = "/reset") ∧
        Reaches (Does env) w (startFresh chatId) w' := by
  simp only [handleUpdate] at h
  split at h
  case h_2 => exact Or.inl (Or.inl (reaches_done h))
  case h_1 text chatId fromId htext hchat hfrom =>
    split at h
    · exact Or.inl (Or.inl (reaches_done h))
    split at h
    · exact Or.inl (Or.inl (reaches_done h))
    split at h
    · exact Or.inl (Or.inl (reaches_send h))
    split at h
    · exact Or.inl (Or.inl (reaches_sendStatus h))
    split at h
    · rename_i hreset
      exact Or.inr ⟨text, chatId, htext, hchat, hreset, h⟩
    rcases reaches_answerMessage (hrefused chatId fromId hchat hfrom) h with h | ⟨e, written, he, h⟩
    · exact Or.inl (Or.inl h)
    · exact Or.inl (Or.inr ⟨chatId, fromId, e, written, hchat, hfrom, he, h⟩)

theorem refused_of_disabled (hpolicy : dmPolicyOf w.config = .disabled) : Refused env w update := by
  intro chatId fromId _ _ a v h
  obtain ⟨config, u, hconfig, hrest⟩ := ends_bind.mp h
  obtain rfl : config = w.config := (ends_perform.mp hconfig).2 config rfl
  simp only [hpolicy] at hrest
  rw [(ends_done hrest).1]

theorem Unharmed.sessions (h : Unharmed env update w w') : w'.sessions = w.sessions := by
  rcases h with rfl | ⟨_, _, _, _, _, _, _, rfl⟩
  · rfl
  · rfl

end Updates

/-- The handling of an update whose sender is refused changes nothing but the pairings, unless it
clears a session. -/
theorem refused_update_harmless_iff (env : BridgeEnv) (w : World) (update : TelegramUpdate)
    (hrefused : Refused env w update) :
    (∀ w', Reaches (Does env) w (handleUpdate env.pairing.rt update) w' → Unharmed env update w w') ↔
      ¬ LosesSession env w update := by
  constructor
  · rintro h ⟨text, chatId, htext, hchat, hreset, hfile⟩
    have hclear := h _ (by
      rw [handleUpdate_reset htext hchat hreset]
      exact reaches_startFresh.mpr (Or.inr rfl))
    have hsame := congrFun hclear.sessions
      (resolveSessionPath env.sessions ("telegram:" ++ toString chatId))
    have hcleared : clearSessionMessages env.sessions ("telegram:" ++ toString chatId) w.sessions
        (resolveSessionPath env.sessions ("telegram:" ++ toString chatId)) = none :=
      Function.update_self _ _ _
    exact hfile (hsame.symm.trans hcleared)
  · intro hkeeps w' h
    rcases reaches_handleUpdate hrefused h with h | ⟨text, chatId, htext, hchat, hreset, h⟩
    · exact h
    rcases reaches_startFresh.mp h with h | rfl
    · exact Or.inl h
    · have hnone : w.sessions
          (resolveSessionPath env.sessions ("telegram:" ++ toString chatId)) = none := by
        by_contra hfile
        exact hkeeps ⟨text, chatId, htext, hchat, hreset, hfile⟩
      refine Or.inl ?_
      rw [clearSessionMessages, ← hnone, Function.update_eq_self]

/-- Direct messages were disabled after the bot had been used. -/
def disabledWorld : World where
  config := { channels := some ⟨⟨none, .disabled, none, none⟩⟩ }
  sessions := fun _ => some "[]"
  vault := Vault.createEmptyStore
  defaults := DEFAULT_STORE
  pairings := none
  messages := []

theorem bridgeEnv_nonempty : Nonempty BridgeEnv := by
  obtain ⟨sessions⟩ := Transcript.sessionEnv_nonempty
  exact ⟨⟨asciiEnv, sessions⟩⟩

theorem refused_update_harmless_iff_hello :
    ∃ env : BridgeEnv, Refused env disabledWorld ⟨1, some "hello", some 7, some 8⟩ ∧
      ∀ w', Reaches (Does env) disabledWorld
          (handleUpdate env.pairing.rt ⟨1, some "hello", some 7, some 8⟩) w' →
        Unharmed env ⟨1, some "hello", some 7, some 8⟩ disabledWorld w' := by
  obtain ⟨env⟩ := bridgeEnv_nonempty
  have hrefused : Refused env disabledWorld ⟨1, some "hello", some 7, some 8⟩ :=
    refused_of_disabled rfl
  refine ⟨env, hrefused, (refused_update_harmless_iff env disabledWorld _ hrefused).mpr ?_⟩
  rintro ⟨text, chatId, htext, -, hreset, -⟩
  have hhello : text = "hello" := by
    have : Js.trim "hello" = "hello" := by decide
    simpa [this] using htext.symm
  rcases hreset with rfl | rfl
  · exact absurd hhello (by decide)
  · exact absurd hhello (by decide)

/-- `/new` clears the session of a chat that gets no answers any more. -/
theorem refused_sender_clears_session :
    ¬ ∀ (env : BridgeEnv) (w : World) (update : TelegramUpdate), Refused env w update →
      ∀ w', Reaches (Does env) w (handleUpdate env.pairing.rt update) w' →
        Unharmed env update w w' := by
  intro h
  obtain ⟨env⟩ := bridgeEnv_nonempty
  have hnew : handleUpdate env.pairing.rt ⟨1, some "/new", some 7, some 8⟩ = startFresh 7 :=
    handleUpdate_reset rfl rfl (Or.inl rfl)
  have hkept := h env disabledWorld ⟨1, some "/new", some 7, some 8⟩ (refused_of_disabled rfl) _ (by
    rw [hnew]
    exact reaches_startFresh.mpr (Or.inr rfl))
  have hsame := congrFun hkept.sessions (resolveSessionPath env.sessions ("telegram:" ++ toString (7 : Int)))
  have hcleared : clearSessionMessages env.sessions ("telegram:" ++ toString (7 : Int))
      disabledWorld.sessions (resolveSessionPath env.sessions ("telegram:" ++ toString (7 : Int))) = none :=
    Function.update_self _ _ _
  cases hcleared.symm.trans hsame

end T560.Channels.Polling
