import Mathlib.Logic.Function.Basic
import T560.Foundation.Pattern
import T560.Js.Value

/-!
# The checkout workflow

The guard in front of purchases: which browser calls look like a checkout, and the state
of each session that a user message confirms or cancels. Times are milliseconds.
-/

namespace T560.Checkout

open Foundation (Pattern)
open Foundation.Pattern
open Js (Value Runtime JsError trim collapse isSpace)
open Js.Value (textOrEmpty)

structure CheckoutRisk where
  action : String
  reason : String
  targetHint : Option String
  deriving DecidableEq, Repr

structure PendingCheckout extends CheckoutRisk where
  createdAt : Nat
  deriving DecidableEq, Repr

structure SessionCheckoutState where
  pending : Option PendingCheckout
  confirmedUntil : Nat
  deriving DecidableEq, Repr

inductive GuardDecision where
  | allowed (confirmed : Bool) (state : SessionCheckoutState)
  | blocked (message : String) (state : SessionCheckoutState)
  deriving DecidableEq, Repr

def checkoutConfirmTtlMs : Nat := 5 * 60000

/-- The map `checkoutStateBySession`. -/
abbrev Sessions := String → Option SessionCheckoutState

def isLineTerminator (c : Char) : Bool :=
  c == '\n' || c == '\r' || c.toNat == 0x2028 || c.toNat == 0x2029

def plus (p : Char → Bool) : Pattern := .seq (.char p) (.run p none)

def checkoutKeywords : Pattern :=
  concat [.boundary,
    oneOf [text "add to cart", text "buy now", text "checkout", text "place order",
      text "submit order", text "confirm order", text "purchase", text "pay now", text "payment",
      concat [text "one", opt (.char fun c => c == '-' || isSpace c), text "click"]],
    .boundary]

def checkoutUrlHint : Pattern :=
  oneOf [
    concat [text "amazon.", plus fun c => ('a' ≤ c.toLower && c.toLower ≤ 'z') || c == '.', text "/",
      oneOf [text "gp/buy", text "checkout", text "cart"]],
    text "/checkout", text "/cart", text "/buy-now", text "/place-order", text "/payment"]

def purchaseWords : Pattern :=
  oneOf [text "order", text "purchase", text "checkout", text "buy", text "payment"]

/-- `.{0,20}`. -/
def shortGap : Pattern := .run (fun c => !isLineTerminator c) (some 20)

def confirmRegex : Pattern :=
  .alt
    (concat [.boundary, oneOf [text "confirm", concat [text "approve", opt (text "d")], text "yes"],
      .boundary, shortGap, .boundary, purchaseWords, .boundary])
    (concat [.boundary, text "t560", plus isSpace, text "confirm", plus isSpace, text "purchase",
      .boundary])

def cancelRegex : Pattern :=
  concat [.boundary, oneOf [text "cancel", text "abort", text "stop"], .boundary, shortGap,
    .boundary, purchaseWords, .boundary]

def checkoutActions : List String := ["click", "submit", "act", "press"]

variable (rt : Runtime)

def normalizeToolName (name : String) : String :=
  String.ofList (Js.replaceRuns isSpace '_' false (rt.toLowerCase (trim name)).toList)

def compactText (s : String) : String := trim (collapse s)

/-- `String(value ?? "").replace(/\s+/g, " ").trim()`. -/
def compact (value : Option Value) : Except JsError String := do
  return compactText (← textOrEmpty rt value)

def pushHint (value : Option Value) : Except JsError (List String) := do
  let text ← compact rt value
  return if text = "" then [] else [rt.toLowerCase text]

def hintFields : List String :=
  ["url", "targetUrl", "selector", "element", "linkText", "hrefContains", "currentUrl",
    "currentPageUrl", "tabUrl", "ref", "inputRef"]

def requestHintFields : List String :=
  ["kind", "selector", "element", "ref", "inputRef", "url", "targetUrl", "currentUrl",
    "currentPageUrl", "text"]

/-- The values `collectCheckoutHints` pushes, in its order. -/
def hintValues (args : Value) : List (Option Value) :=
  hintFields.map args.get? ++
    match args.record? "request" with
    | some req => requestHintFields.map req.get?
    | none => []

def collectCheckoutHints (args : Value) : Except JsError (List String) := do
  return (← (hintValues args).mapM (pushHint rt)).flatten

/-- `CHECKOUT_KEYWORDS.test(text) || CHECKOUT_URL_HINT.test(text)`. -/
def namesCheckout (text : String) : Bool := checkoutKeywords.test text || checkoutUrlHint.test text

def checkoutReason : String := "purchase/checkout trigger detected"

/-- The action when the guard looks further: it is listed, and a `press` is one of Enter. -/
def watchedAction (args : Value) : Except JsError (Option String) := do
  let action := rt.toLowerCase (← compact rt (args.get? "action"))
  if action ∉ checkoutActions then return none
  if action = "press" then
    let key := rt.toLowerCase (← compact rt (args.get? "key"))
    return if key ≠ "enter" ∧ key ≠ "return" then none else some action
  else return some action

/-- The tests on the joined hints. The second one repeats the first for an `act` request. -/
def riskOfHints (action : String) (args : Value) (hints : List String) :
    Except JsError (Option CheckoutRisk) := do
  let joined := String.intercalate " | " hints
  if joined = "" then return none
  if namesCheckout joined then return some ⟨action, checkoutReason, hints.head?⟩
  match args.record? "request" with
  | some req =>
    if action = "act" then
      let kind := rt.toLowerCase (← compact rt (req.get? "kind"))
      return if (kind = "click" ∨ kind = "submit") ∧ namesCheckout joined then
        some ⟨"act:" ++ kind, checkoutReason, hints.head?⟩ else none
    else return none
  | none => return none

def detectCheckoutRisk (toolName : String) (args : Value) : Except JsError (Option CheckoutRisk) := do
  if normalizeToolName rt toolName ≠ "browser" then return none
  if !args.isRecord then return none
  match ← watchedAction rt args with
  | none => return none
  | some action => riskOfHints rt action args (← collectCheckoutHints rt args)

def buildBlockMessage (risk : CheckoutRisk) : String :=
  let hint :=
    match risk.targetHint with
    | some target => if target = "" then "" else " Target: " ++ target ++ "."
    | none => ""
  "Checkout protection blocked browser action \"" ++ risk.action ++ "\" (" ++ risk.reason ++ ")." ++
    hint ++ "\n" ++
    "Reply with \"confirm purchase\" to authorize checkout actions for the next 5 minutes."

def getState (sessions : Sessions) (sessionId : String) : SessionCheckoutState :=
  (sessions sessionId).getD ⟨none, 0⟩

/-- The reset of a confirmation that has run out. -/
def SessionCheckoutState.expire (state : SessionCheckoutState) (now : Nat) : SessionCheckoutState :=
  if state.confirmedUntil ≤ now then { state with confirmedUntil := 0 } else state

structure TurnResult where
  confirmedThisTurn : Bool
  canceled : Bool
  deriving DecidableEq, Repr

/-- The user message as both patterns read it. -/
def turnText (userMessage : String) : String := rt.toLowerCase (compactText userMessage)

def beginCheckoutWorkflowTurn (sessions : Sessions) (sessionId : String) (now : Nat)
    (userMessage : String) : TurnResult × Sessions :=
  let state := (getState sessions sessionId).expire now
  let message := turnText rt userMessage
  if message = "" then (⟨false, false⟩, Function.update sessions sessionId (some state))
  else if cancelRegex.test message then
    (⟨false, true⟩, Function.update sessions sessionId (some ⟨none, 0⟩))
  else if confirmRegex.test message then
    (⟨true, false⟩, Function.update sessions sessionId (some ⟨none, now + checkoutConfirmTtlMs⟩))
  else (⟨false, false⟩, Function.update sessions sessionId (some state))

/-- The decision and the state of the session it leaves. -/
def decideCall (state : SessionCheckoutState) (now : Nat) :
    Except JsError (Option CheckoutRisk) → Except JsError GuardDecision × SessionCheckoutState
  | .error e => (.error e, state)
  | .ok none => (.ok (.allowed false state), state)
  | .ok (some risk) =>
    if now < state.confirmedUntil then
      let state := { state with pending := none }
      (.ok (.allowed true state), state)
    else
      let state := { state with pending := some ⟨risk, now⟩ }
      (.ok (.blocked (buildBlockMessage risk) state), state)

def enforceCheckoutWorkflow (sessions : Sessions) (sessionId : String) (now : Nat)
    (toolName : String) (toolArgs : Value) : Except JsError GuardDecision × Sessions :=
  let state := (getState sessions sessionId).expire now
  let decision := decideCall state now (detectCheckoutRisk rt toolName toolArgs)
  (decision.1, Function.update sessions sessionId (some decision.2))

def describeCheckoutWorkflowState (sessions : Sessions) (sessionId : String) (now : Nat) :
    Option String :=
  match sessions sessionId with
  | none => none
  | some state =>
    let remainingMs := state.confirmedUntil - now
    if 0 < remainingMs then
      some ("checkout authorization active for " ++ toString ((remainingMs + 999) / 1000) ++ "s")
    else state.pending.map fun p => "checkout authorization pending (" ++ p.action ++ ")"

end T560.Checkout
