import T560.Js.Json
import T560.Transcript.Session

/-!
# Session files

Every session lives in a file named after its id: units other than letters, digits, hyphen
and underscore become underscores, and the name is cut to 64 units. Two ids that this
treatment does not tell apart share one file.
-/

namespace T560.Transcript

open Js (Value)

def MAX_SESSION_MESSAGES : Nat := 40
def MAX_NAME_UNITS : Nat := 64

def codeUnits (s : String) : List Nat := (Js.units s).map UInt16.toNat

/-- A unit in `[a-zA-Z0-9_-]`. -/
def isNameUnit (u : Nat) : Bool :=
  (97 ≤ u && u ≤ 122) || (65 ≤ u && u ≤ 90) || (48 ≤ u && u ≤ 57) || u == 95 || u == 45

/-- What stands in a file name for a unit of the id. -/
def nameChar (u : Nat) : Char := if isNameUnit u then Char.ofNat u else '_'

def sanitizeSessionId (sessionId : String) : String :=
  let safe := (codeUnits sessionId).map nameChar
  String.ofList (if MAX_NAME_UNITS < safe.length then safe.take MAX_NAME_UNITS else safe)

/-- The surroundings of the session files: their directory, `JSON.parse` and
`JSON.stringify(value, null, 2)`. -/
structure SessionEnv where
  sessionsDir : String
  parse : String → Option Value
  pretty : Value → String
  parse_pretty : ∀ v : Value, v.isPlain = true → parse (pretty v) = some v

abbrev Files := String → Option String

variable (env : SessionEnv)

def resolveSessionPath (sessionId : String) : String :=
  env.sessionsDir ++ "/" ++ sanitizeSessionId sessionId ++ ".json"

/-- The last messages a session may keep. -/
def trimTranscript (messages : List Message) : List Message :=
  if MAX_SESSION_MESSAGES < messages.length then
    messages.drop (messages.length - MAX_SESSION_MESSAGES)
  else messages

/-- The messages `saveSessionMessages` writes. -/
def persistedMessages (messages : List Message) : List Message :=
  sanitizeSessionTranscript (trimTranscript (sanitizeSessionTranscript messages))

def sessionText (messages : List Message) : String := env.pretty (.arr (persistedMessages messages))

def saveSessionMessages (sessionId : String) (messages : List Message) (files : Files) : Files :=
  Function.update files (resolveSessionPath env sessionId) (some (sessionText env messages))

def clearSessionMessages (sessionId : String) (files : Files) : Files :=
  Function.update files (resolveSessionPath env sessionId) none

/-- `loadSessionMessages` of the file behind a session id. -/
def loadSession (sessionId : String) (files : Files) : List Message :=
  loadSessionMessages env.parse (files (resolveSessionPath env sessionId))

inductive SessionWrite where
  | save (messages : List Message)
  | clear

def applySessionWrite (sessionId : String) (files : Files) : SessionWrite → Files
  | .save messages => saveSessionMessages env sessionId messages files
  | .clear => clearSessionMessages env sessionId files

/-- No writes to the first session change what is loaded for the second. -/
def Isolated (writer reader : String) : Prop :=
  ∀ (files : Files) (writes : List SessionWrite),
    loadSession env reader (writes.foldl (applySessionWrite env writer) files) =
      loadSession env reader files

/-- A session as the gateways name it. -/
inductive GatewaySession where
  | webchat (key : String)
  | telegram (chatId : Int)

def GatewaySession.sessionId : GatewaySession → String
  | .webchat key => "webchat:" ++ key
  | .telegram chatId => "telegram:" ++ toString chatId

/-- A unit that stands as an underscore in a file name. -/
def isBlankUnit (u : Nat) : Bool := !isNameUnit u || u == 95

/-- Two places of two ids that a file name does not tell apart. -/
def sameInName : Option Nat → Option Nat → Bool
  | none, none => true
  | some u, some v => u == v || (isBlankUnit u && isBlankUnit v)
  | _, _ => false

/-- One of the first 64 units tells the ids apart: one id ends there and the other does not,
or the units differ and one of them is a letter, a digit or a hyphen. -/
def ToldApart (a b : String) : Prop :=
  ∃ i, i < MAX_NAME_UNITS ∧ sameInName (codeUnits a)[i]? (codeUnits b)[i]? = false

section Names

theorem nameChar_toNat {u : Nat} (h : isNameUnit u = true) : (nameChar u).toNat = u := by
  have hu : u < 0xD800 := by
    simp only [isNameUnit, Bool.or_eq_true, Bool.and_eq_true, decide_eq_true_eq, beq_iff_eq] at h
    omega
  rw [nameChar, if_pos h, Char.ofNat, dif_pos (Or.inl hu)]
  rfl

theorem nameChar_blank {u : Nat} (h : isBlankUnit u = true) : nameChar u = '_' := by
  simp only [isBlankUnit, Bool.or_eq_true, Bool.not_eq_true', beq_iff_eq] at h
  rcases h with h | rfl
  · simp [nameChar, h]
  · decide

/-- Only the units written as they are keep their place in a name. -/
theorem nameChar_not_blank {u : Nat} (h : isBlankUnit u = false) :
    (nameChar u).toNat = u ∧ u ≠ 95 := by
  simp only [isBlankUnit, Bool.or_eq_false_iff, Bool.not_eq_false', beq_eq_false_iff_ne] at h
  exact ⟨nameChar_toNat h.1, h.2⟩

theorem isBlankUnit_of_nameChar {u : Nat} (h : nameChar u = '_') : isBlankUnit u = true := by
  by_contra hb
  obtain ⟨hu, hne⟩ := nameChar_not_blank (by simpa using hb)
  rw [h] at hu
  exact hne hu.symm

theorem nameChar_eq_iff (u v : Nat) :
    nameChar u = nameChar v ↔ u = v ∨ (isBlankUnit u = true ∧ isBlankUnit v = true) := by
  constructor
  · intro h
    cases hu : isBlankUnit u with
    | true =>
      rw [nameChar_blank hu] at h
      exact Or.inr ⟨rfl, isBlankUnit_of_nameChar h.symm⟩
    | false =>
      cases hv : isBlankUnit v with
      | true =>
        rw [nameChar_blank hv] at h
        rw [isBlankUnit_of_nameChar h] at hu
        cases hu
      | false =>
        refine Or.inl ?_
        rw [← (nameChar_not_blank hu).1, h, (nameChar_not_blank hv).1]
  · rintro (rfl | ⟨hu, hv⟩)
    · rfl
    · rw [nameChar_blank hu, nameChar_blank hv]

theorem map_nameChar_eq_iff (u v : Option Nat) :
    u.map nameChar = v.map nameChar ↔ sameInName u v = true := by
  cases u with
  | none => cases v <;> simp [sameInName]
  | some u =>
    cases v with
    | none => simp [sameInName]
    | some v => simp [sameInName, nameChar_eq_iff]

theorem sanitizeSessionId_take (id : String) :
    sanitizeSessionId id = String.ofList (((codeUnits id).map nameChar).take MAX_NAME_UNITS) := by
  rw [sanitizeSessionId]
  by_cases h : MAX_NAME_UNITS < ((codeUnits id).map nameChar).length
  · rw [if_pos h]
  · rw [if_neg h, List.take_of_length_le (by omega)]

/-- Two ids share their file exactly when none of the first 64 units tells them apart. -/
theorem sanitizeSessionId_eq_iff (a b : String) :
    sanitizeSessionId a = sanitizeSessionId b ↔ ¬ ToldApart a b := by
  rw [sanitizeSessionId_take, sanitizeSessionId_take, String.ofList_inj, List.ext_getElem?_iff]
  constructor
  · rintro h ⟨i, hi, hne⟩
    have := h i
    simp only [List.getElem?_take_of_lt hi, List.getElem?_map] at this
    rw [(map_nameChar_eq_iff _ _).mp this] at hne
    cases hne
  · intro h i
    by_cases hi : i < MAX_NAME_UNITS
    · simp only [List.getElem?_take_of_lt hi, List.getElem?_map]
      rw [map_nameChar_eq_iff]
      by_contra hne
      exact h ⟨i, hi, by simpa using hne⟩
    · rw [List.getElem?_take_eq_none (by omega), List.getElem?_take_eq_none (by omega)]

end Names

section Isolation
variable {env}

theorem resolveSessionPath_eq_iff (a b : String) :
    resolveSessionPath env a = resolveSessionPath env b ↔
      sanitizeSessionId a = sanitizeSessionId b := by
  simp [resolveSessionPath, ← String.toList_inj]

/-- A write to one session touches no other file. -/
theorem applySessionWrite_frame {writer : String} {path : String}
    (h : path ≠ resolveSessionPath env writer) (files : Files) (w : SessionWrite) :
    applySessionWrite env writer files w path = files path := by
  cases w with
  | save messages => exact Function.update_of_ne h _ _
  | clear => exact Function.update_of_ne h _ _

theorem foldl_applySessionWrite_frame {writer : String} {path : String}
    (h : path ≠ resolveSessionPath env writer) (writes : List SessionWrite) (files : Files) :
    writes.foldl (applySessionWrite env writer) files path = files path := by
  induction writes generalizing files with
  | nil => rfl
  | cons w writes ih => rw [List.foldl_cons, ih, applySessionWrite_frame h]

def greeting : Message := .obj [("role", .str "user"), ("content", .str "hello")]

theorem persistedMessages_greeting : persistedMessages [greeting] = [greeting] := by decide

/-- A saved greeting is loaded again. -/
theorem load_greeting (sessionId : String) (files : Files) :
    loadSession env sessionId (saveSessionMessages env sessionId [greeting] files) =
      [greeting] := by
  have hparse : env.parse (sessionText env [greeting]) = some (.arr [greeting]) := by
    rw [sessionText, persistedMessages_greeting]
    exact env.parse_pretty _ (by decide)
  rw [loadSession, saveSessionMessages, Function.update_self, loadSessionMessages,
    Option.bind_some, hparse]
  decide

theorem isolated_iff_toldApart (a b : String) : Isolated env a b ↔ ToldApart a b := by
  constructor
  · intro h
    by_contra hsame
    have hpath : resolveSessionPath env a = resolveSessionPath env b := by
      rw [resolveSessionPath_eq_iff, sanitizeSessionId_eq_iff]
      exact hsame
    have hleak := h (fun _ => none) [.save [greeting]]
    have hload : loadSession env b (saveSessionMessages env a [greeting] fun _ => none) =
        [greeting] := by
      rw [loadSession, ← hpath]
      exact load_greeting a _
    rw [List.foldl_cons, List.foldl_nil, applySessionWrite, hload] at hleak
    cases hleak
  · intro h files writes
    have hpath : resolveSessionPath env b ≠ resolveSessionPath env a := by
      intro he
      rw [resolveSessionPath_eq_iff, eq_comm, sanitizeSessionId_eq_iff] at he
      exact he h
    rw [loadSession, loadSession, foldl_applySessionWrite_frame hpath]

end Isolation

/-- Writes to one gateway session leave another one alone exactly when the file name tells the
two ids apart. -/
theorem gateway_sessions_isolated_iff (env : SessionEnv) (a b : GatewaySession) :
    Isolated env a.sessionId b.sessionId ↔ ToldApart a.sessionId b.sessionId :=
  isolated_iff_toldApart _ _

theorem sessionEnv_nonempty : Nonempty SessionEnv := by
  obtain ⟨json⟩ := Js.json_nonempty
  exact ⟨⟨"sessions", json.parse, json.stringify, json.parse_stringify⟩⟩

/-- The keys `a.b` and `a_b` share one file. -/
theorem webchat_sessions_share_file :
    ¬ ∀ (env : SessionEnv) (a b : GatewaySession), a.sessionId ≠ b.sessionId →
      Isolated env a.sessionId b.sessionId := by
  intro h
  obtain ⟨env⟩ := sessionEnv_nonempty
  have hiso := h env (.webchat "a.b") (.webchat "a_b") (by decide)
  have hsame : sanitizeSessionId "webchat:a.b" = sanitizeSessionId "webchat:a_b" := by
    decide
  exact (sanitizeSessionId_eq_iff _ _).mp hsame ((isolated_iff_toldApart _ _).mp hiso)

end T560.Transcript
