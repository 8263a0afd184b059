import Mathlib.Data.List.Infix
import T560.Js.PropertyMap

/-!
# Pairing of chat users

The store of pending and approved pairings, and the operations on it. The pairing file is given
by what `JSON.parse` reads from it; a file that is missing, unreadable or no JSON gives nothing.
Then the operation works on a shallow copy of the module constant `DEFAULT_STORE`, and what it
does to the containers of the copy it does to the constant.
-/

namespace T560.Channels

open Js (Value Runtime JsError PropertyMap trim)
open Js.Value (coalesce trimmedText)

structure PendingPairing where
  id : String
  channel : String
  userId : String
  chatId : String
  code : String
  createdAt : Js.Num
  lastSeenAt : Js.Num
  deriving DecidableEq, Repr

/-- The lists of approved ids by channel. A list assigned to `__proto__` is the prototype. -/
structure Approved where
  own : PropertyMap (List String)
  keyed : own.Keyed
  prototype : Option (List String) := none

structure PairingStore where
  approved : Approved
  pending : List PendingPairing

/-- The runtime with its upper-casing. -/
structure PairingEnv where
  rt : Runtime
  toUpperCase : String → String

section Approved

/-- What every object answers to. -/
def OBJECT_NAMES : List String :=
  ["constructor", "__defineGetter__", "__defineSetter__", "hasOwnProperty", "__lookupGetter__",
    "__lookupSetter__", "isPrototypeOf", "propertyIsEnumerable", "toString", "valueOf",
    "__proto__", "toLocaleString"]

/-- What every array answers to beside its elements. -/
def ARRAY_NAMES : List String :=
  ["length", "at", "concat", "copyWithin", "fill", "find", "findIndex", "findLast",
    "findLastIndex", "lastIndexOf", "pop", "push", "reverse", "shift", "unshift", "slice", "sort",
    "splice", "includes", "indexOf", "join", "keys", "entries", "values", "forEach", "filter",
    "flat", "flatMap", "map", "every", "some", "reduce", "reduceRight", "toReversed", "toSorted",
    "toSpliced", "with"]

/-- What reading `approved[channel]` gives: nothing, a list, a text, or something that can
neither be iterated nor searched. -/
inductive Slot where
  | missing
  | entries (ids : List String)
  | text (s : String)
  | other
  deriving DecidableEq

def Approved.read (approved : Approved) (channel : String) : Slot :=
  match approved.own.lookup channel, approved.prototype with
  | some ids, _ => .entries ids
  | none, none => if channel ∈ OBJECT_NAMES then .other else .missing
  | none, some ids =>
    if channel = "__proto__" then .entries ids
    else if channel ∈ OBJECT_NAMES ∨ channel ∈ ARRAY_NAMES then .other
    else
      match (Js.arrayIndex? channel).bind (ids[·]?) with
      | some s => .text s
      | none => .missing

/-- `approved[channel] = ids`. -/
def Approved.assign (approved : Approved) (channel : String) (ids : List String) : Approved :=
  if channel = "__proto__" then { approved with prototype := some ids }
  else { approved with own := approved.own.put channel ids, keyed := approved.keyed.put channel ids }

/-- `new Set(slot ?? [])`, as the list it iterates. -/
def Slot.items : Slot → Except JsError (List String)
  | .missing => .ok []
  | .entries ids => .ok ids
  | .text s => .ok (s.toList.map fun c => String.ofList [c])
  | .other => .error .typeError

/-- `(slot ?? []).includes(id)`. -/
def Slot.includes (id : String) : Slot → Except JsError Bool
  | .missing => .ok false
  | .entries ids => .ok (ids.contains id)
  | .text s => .ok (decide (id.toList <:+: s.toList))
  | .other => .error .typeError

end Approved

def emptyApproved : Approved := { own := [], keyed := List.nodup_nil }

/-- `DEFAULT_STORE` as the module is loaded. -/
def DEFAULT_STORE : PairingStore := ⟨emptyApproved, []⟩

def pairingId (channel userId chatId : String) : String :=
  channel ++ ":" ++ userId ++ ":" ++ chatId

section Read
variable (env : PairingEnv)

/-- One entry of the stored approvals; a value that is no array is skipped. -/
def addApproved (approved : Approved) (f : String × Value) : Except JsError Approved :=
  match f.2 with
  | .arr entries => do
    let texts ← entries.mapM (Value.text env.rt)
    let cleaned := (texts.map trim).filter (· ≠ "")
    return if cleaned = [] then approved else approved.assign f.1 cleaned.eraseDups
  | _ => return approved

def normalizePending (now : ℚ) (item : Value) : Except JsError PendingPairing := do
  let id ← trimmedText env.rt [item.get? "id"]
  let channel ← trimmedText env.rt [item.get? "channel"]
  let userId ← trimmedText env.rt [item.get? "userId"]
  let chatId ← trimmedText env.rt [item.get? "chatId"]
  let code ← trimmedText env.rt [item.get? "code"]
  let createdAt ← Value.number env.rt (coalesce [item.get? "createdAt", some (.num (.fin now))])
  let lastSeenAt ← Value.number env.rt (coalesce [item.get? "lastSeenAt", some (.num (.fin now))])
  return ⟨id, channel, userId, chatId, env.toUpperCase code, createdAt, lastSeenAt⟩

/-- All five texts of the entry are there. -/
def PendingPairing.filled (p : PendingPairing) : Bool :=
  p.id ≠ "" && p.channel ≠ "" && p.userId ≠ "" && p.chatId ≠ "" && p.code ≠ ""

/-- The store a parsed file holds; `none` stands for the copy of `DEFAULT_STORE`. -/
def normalizeStore (now : ℚ) (raw : Value) : Except JsError (Option PairingStore) := do
  if !raw.isObject then return none
  let approvedRaw := ((raw.get? "approved").filter Value.isObject).elim [] Value.entries
  let approved ← approvedRaw.foldlM (addApproved env) emptyApproved
  let pendingRaw := match raw.get? "pending" with
    | some (.arr items) => items
    | _ => []
  let pending ← (pendingRaw.filter Value.isObject).mapM (normalizePending env now)
  return some ⟨approved, pending.filter (·.filled)⟩

/-- `readStore`: every exception ends in the copy of `DEFAULT_STORE`. -/
def readStore (now : ℚ) (file : Option Value) : Option PairingStore :=
  match file with
  | none => none
  | some raw => (normalizeStore env now raw).toOption.join

end Read

section Write

/-- A number as `JSON.stringify` writes it. -/
def numValue : Js.Num → Value
  | .fin q => .num (.fin q)
  | _ => .null

def PendingPairing.toValue (p : PendingPairing) : Value :=
  .obj [("id", .str p.id), ("channel", .str p.channel), ("userId", .str p.userId),
    ("chatId", .str p.chatId), ("code", .str p.code), ("createdAt", numValue p.createdAt),
    ("lastSeenAt", numValue p.lastSeenAt)]

/-- What `JSON.parse` reads back from the file `writeStore` writes: own properties only. -/
def PairingStore.toValue (store : PairingStore) : Value :=
  .obj [("version", .num (.fin 1)),
    ("approved", .obj (store.approved.own.entries.map fun f => (f.1, .arr (f.2.map .str)))),
    ("pending", .arr (store.pending.map (·.toValue)))]

end Write

section Operations
variable (env : PairingEnv)

structure PairingParams where
  channel : String
  userId : String
  chatId : String

/-- What a call takes from its surroundings: the clock and the random bytes of each code. -/
structure Surroundings where
  now : ℚ
  randomBytes : Nat → Vector UInt8 8

inductive Result where
  | approved (yes : Bool)
  | code (code : String) (created : Bool)
  | pairings (list : List PendingPairing)
  | pairing (approved : Option PendingPairing)
  deriving DecidableEq

/-- What an operation does to the store it works on. -/
structure Reaction where
  store : PairingStore
  outcome : Except JsError Result
  writes : Bool

def CODE_ALPHABET : String := "ABCDEFGHJKLMNPQRSTUVWXYZ23456789"

def generateCode (bytes : Vector UInt8 8) : String :=
  String.ofList (bytes.toList.map fun b => CODE_ALPHABET.toList.getD (b.toNat % 32) 'A')

/-- The first of 64 codes that no pending pairing uses, or the one behind them. -/
def freshCode (used : List String) (randomBytes : Nat → Vector UInt8 8) : String :=
  (((List.range 64).map fun i => generateCode (randomBytes i)).find? fun c => !used.contains c).getD
    (generateCode (randomBytes 64))

def isPairingApproved (params : PairingParams) (store : PairingStore) : Reaction :=
  let channel := trim params.channel
  let userId := trim params.userId
  let chatId := trim params.chatId
  let slot := store.approved.read channel
  { store
    outcome := do
      let byId ← slot.includes (pairingId channel userId chatId)
      let byUser ← slot.includes userId
      let byChat ← slot.includes chatId
      return .approved (byId || byUser || byChat)
    writes := false }

/-- The first pending pairing with this id was seen again. -/
def seenAgain (id : String) (now : ℚ) : List PendingPairing → List PendingPairing
  | [] => []
  | p :: rest => if p.id = id then { p with lastSeenAt := .fin now } :: rest
    else p :: seenAgain id now rest

def requestPairingCode (at_ : Surroundings) (params : PairingParams) (store : PairingStore) :
    Reaction :=
  let channel := trim params.channel
  let userId := trim params.userId
  let chatId := trim params.chatId
  let id := pairingId channel userId chatId
  match store.pending.find? (·.id = id) with
  | some existing =>
    { store := { store with pending := seenAgain id at_.now store.pending }
      outcome := .ok (.code existing.code false)
      writes := true }
  | none =>
    let code := freshCode (store.pending.map (·.code)) at_.randomBytes
    { store := { store with
        pending := store.pending ++ [⟨id, channel, userId, chatId, code, .fin at_.now, .fin at_.now⟩] }
      outcome := .ok (.code code true)
      writes := true }

def later : Js.Num → Js.Num → Bool
  | .fin a, .fin b => b < a
  | .posInf, .fin _ | .posInf, .negInf | .fin _, .negInf => true
  | _, _ => false

def listPendingPairings (channel : Option String) (store : PairingStore) : Reaction :=
  let channel := trim (channel.getD "")
  let list := if channel = "" then store.pending else store.pending.filter (·.channel = channel)
  { store
    outcome := .ok (.pairings (list.mergeSort fun a b => !later b.lastSeenAt a.lastSeenAt))
    writes := false }

/-- The entry leaves the pending ones before its channel is looked up. -/
def approvePairingCode (channel code : String) (store : PairingStore) : Reaction :=
  let channel := trim channel
  let code := env.toUpperCase (trim code)
  if channel = "" ∨ code = "" then ⟨store, .ok (.pairing none), false⟩
  else
    match store.pending.find? fun p => p.channel = channel ∧ p.code = code with
    | none => ⟨store, .ok (.pairing none), false⟩
    | some p =>
      let rest := store.pending.eraseP fun p => p.channel = channel ∧ p.code = code
      match (store.approved.read channel).items with
      | .error e => ⟨{ store with pending := rest }, .error e, false⟩
      | .ok ids =>
        { store :=
            { approved := store.approved.assign channel
                (ids ++ [p.id, p.userId, p.chatId]).eraseDups
              pending := rest }
          outcome := .ok (.pairing (some p))
          writes := true }

inductive Operation where
  | isApproved (params : PairingParams)
  | request (params : PairingParams)
  | list (channel : Option String)
  | approve (channel code : String)

def Operation.react (at_ : Surroundings) (store : PairingStore) : Operation → Reaction
  | .isApproved params => isPairingApproved params store
  | .request params => requestPairingCode at_ params store
  | .list channel => listPendingPairings channel store
  | .approve channel code => approvePairingCode env channel code store

/-- What a call does up to its write: the state of `DEFAULT_STORE` behind it, its outcome, and
the file it is about to write. -/
structure Effect where
  defaults : PairingStore
  outcome : Except JsError Result
  written : Option Value

/-- The rest of a call once the file is read; nothing else runs in the process meanwhile. -/
def Operation.call (op : Operation) (at_ : Surroundings) (defaults : PairingStore)
    (file : Option Value) : Effect :=
  let write := fun r : Reaction => if r.writes then some r.store.toValue else none
  match readStore env at_.now file with
  | some store =>
    let r := op.react env at_ store
    ⟨defaults, r.outcome, write r⟩
  | none =>
    let r := op.react env at_ defaults
    ⟨r.store, r.outcome, write r⟩

end Operations

end T560.Channels
