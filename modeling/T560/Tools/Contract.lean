import Mathlib.Algebra.Order.BigOperators.Group.List
import T560.Browser.Params
import T560.Js.Ascii
import T560.Js.Shape
import T560.Js.Text

/-!
# What a tool hands over

The results of the tools are brought into one shape for each tool, whatever a tool gives, and what the
browser sees is cut for the context of the model.
-/

namespace T560.Tools

open Js (JsError Runtime Value trim ok_bind)
open Js.Shape
open Js.Value (textOrEmpty)

/-! ## The contract -/

section Conversions
variable (rt : Runtime)

def toStringValue (value : Option Value) : Except JsError String := textOrEmpty rt value

def toNumberValue (fallback : ℚ) (value : Option Value) : Except JsError Value := do
  let parsed ← Value.number rt value
  return match parsed with
    | .fin q => .num (.fin q)
    | _ => .num (.fin fallback)

def toBooleanValue (fallback : Bool) (value : Option Value) : Except JsError Value :=
  match value with
  | some (.bool b) => .ok (.bool b)
  | none | some .null => .ok (.bool fallback)
  | some v => do
    let text ← v.text rt
    let normalized := rt.toLowerCase (trim text)
    return .bool (if normalized = "true" then true else if normalized = "false" then false else fallback)

/-- `toStringValue(value).trim()` -/
def trimmed (value : Option Value) : Except JsError String := do
  let text ← toStringValue rt value
  return trim text

def asText : Conversion := fun value => do
  let text ← toStringValue rt value
  return some (.str text)

def asTrimmed : Conversion := fun value => do
  let text ← trimmed rt value
  return some (.str text)

def asTrimmedIfAny : Conversion := fun value => do
  let text ← trimmed rt value
  return if text = "" then none else some (.str text)

def asNumber (fallback : ℚ) : Conversion := fun value => do
  let n ← toNumberValue rt fallback value
  return some n

def asNumberIfFinite : Conversion := fun value => do
  let parsed ← Value.number rt value
  return match parsed with
    | .fin q => some (.num (.fin q))
    | _ => none

def asBoolean (fallback : Bool) : Conversion := fun value => do
  let b ← toBooleanValue rt fallback value
  return some b

abbrev Entry := Value → Except JsError (Option Value)

/-- The entries of an array; of what is no array there are none. -/
def entriesOf (entry : Entry) (value : Option Value) : Except JsError (List Value) :=
  match value with
  | some (.arr xs) => collect entry xs
  | _ => .ok []

def asList (entry : Entry) : Conversion := fun value => do
  let entries ← entriesOf entry value
  return some (.arr entries)

def asListIfAny (entry : Entry) : Conversion := fun value => do
  let entries ← entriesOf entry value
  return if entries = [] then none else some (.arr entries)

def asListIfArray (entry : Entry) : Conversion := fun value =>
  match value with
  | some (.arr xs) => do
    let entries ← collect entry xs
    return some (.arr entries)
  | _ => .ok none

/-- `value.trim()`, if that is not empty. -/
def textEntry : Entry := fun value => asTrimmedIfAny rt (some value)

/-- An object, in the shape of the table. -/
def objectEntry (table : Table) : Entry := fun value =>
  if value.isObject then do
    let shaped ← build table value
    return some shaped
  else .ok none

/-- An object with a text in the field, in the shape of the table. -/
def keyedEntry (key : String) (table : Table) : Entry := fun value =>
  if value.isObject then do
    let text ← trimmed rt (value.get? key)
    if text = "" then return none
    let shaped ← build table value
    return some shaped
  else .ok none

def linkTable : Table :=
  [("index", asNumber rt 0), ("text", asTrimmed rt), ("url", asTrimmed rt)]

def normalizeLink : Entry := keyedEntry rt "url" (linkTable rt)

def refTable : Table :=
  [("ref", asTrimmed rt), ("kind", asTrimmed rt), ("role", asTrimmed rt), ("name", asTrimmed rt),
    ("url", asTrimmedIfAny rt), ("formIndex", asNumberIfFinite rt), ("fieldName", asTrimmedIfAny rt),
    ("method", asTrimmedIfAny rt), ("selector", asTrimmedIfAny rt)]

def normalizeRef : Entry := keyedEntry rt "ref" (refTable rt)

def snapshotTable (now : ℚ) : Table :=
  [("capturedAt", asNumber rt now), ("url", asTrimmed rt), ("title", asTrimmed rt),
    ("status", asNumber rt 0), ("ok", asBoolean rt false), ("contentType", asTrimmed rt),
    ("truncated", asBoolean rt false), ("bytes", asNumber rt 0), ("text", asText rt),
    ("links", asList (normalizeLink rt)), ("refs", asList (normalizeRef rt))]

/-- What is no object becomes null. -/
def normalizeSnapshot (now : ℚ) (value : Value) : Except JsError Value := do
  let shaped ← objectEntry (snapshotTable rt now) value
  return shaped.getD .null

/-- A property that is there is replaced. -/
def ifThere (f : Value → Except JsError Value) : Conversion := fun value =>
  match value with
  | some x => do
    let y ← f x
    return some y
  | none => .ok none

def browserTable (now : ℚ) : Table :=
  [("snapshot", ifThere (normalizeSnapshot rt now)), ("openedSnapshot", ifThere (normalizeSnapshot rt now)),
    ("refs", asListIfArray (normalizeRef rt))]

/-- `{ ...value }`; an array gives its elements under their indices. -/
def spread : Value → Value
  | .arr xs => .obj (Browser.indexedFields xs)
  | .obj fields => .obj fields
  | _ => .obj []

def normalizeBrowserResult (now : ℚ) (result : Value) : Except JsError Value :=
  overwrite (browserTable rt now) (spread result)

def searchItem : Entry :=
  keyedEntry rt "url" [("title", asTrimmed rt), ("url", asTrimmed rt), ("description", asTrimmed rt)]

def priceTable : Table :=
  [("amount", asNumber rt 0), ("currency", asTrimmed rt), ("display", asTrimmed rt)]

def asPrice : Conversion := fun value =>
  match value with
  | some price => objectEntry (priceTable rt) price
  | none => .ok none

def productItem : Entry :=
  keyedEntry rt "url" [("title", asTrimmed rt), ("url", asTrimmed rt), ("description", asTrimmed rt),
    ("relevanceScore", asNumber rt 0), ("price", asPrice rt)]

def webSearchTable (found : ℚ) : Table :=
  [("provider", asTrimmed rt), ("query", asTrimmed rt), ("queryUsed", asTrimmed rt),
    ("count", asNumber rt found), ("results", asList (searchItem rt)), ("products", asListIfAny (productItem rt))]

def normalizeWebSearchResult (result : Value) : Except JsError Value := do
  let results ← entriesOf (searchItem rt) (result.get? "results")
  overwrite (webSearchTable rt results.length) (spread result)

def webFetchTable : Table :=
  [("ok", asBoolean rt false), ("status", asNumber rt 0), ("url", asTrimmed rt), ("contentType", asTrimmed rt),
    ("truncated", asBoolean rt false), ("bytes", asNumber rt 0), ("text", asText rt)]

def normalizeWebFetchResult (result : Value) : Except JsError Value :=
  overwrite (webFetchTable rt) (spread result)

def emailTable : Table :=
  [("sequence", asNumber rt 0), ("uid", asNumber rt 0), ("subject", asTrimmed rt), ("from", asTrimmed rt),
    ("to", asTrimmed rt), ("date", asTrimmed rt), ("snippet", asText rt), ("messageId", asTrimmed rt),
    ("inReplyTo", asTrimmed rt), ("threadKey", asTrimmed rt), ("references", asList (textEntry rt)),
    ("flags", asList (textEntry rt)), ("size", asNumber rt 0)]

def normalizeEmailMessage : Entry := objectEntry (emailTable rt)

def emailResultTable (found : ℚ) : Table :=
  [("ok", asBoolean rt false), ("action", asTrimmed rt), ("service", asTrimmed rt), ("provider", asTrimmed rt),
    ("reason", asTrimmed rt), ("nextStep", asTrimmed rt), ("loginUrl", asTrimmed rt),
    ("requiresBrowserLogin", asBoolean rt false), ("count", asNumber rt found), ("acceptedCount", asNumber rt 0),
    ("messages", asList (normalizeEmailMessage rt)), ("accepted", asList (textEntry rt)),
    ("to", asList (textEntry rt)), ("cc", asList (textEntry rt)), ("bcc", asList (textEntry rt))]

def normalizeEmailResult (result : Value) : Except JsError Value := do
  let messages ← entriesOf (normalizeEmailMessage rt) (result.get? "messages")
  overwrite (emailResultTable rt messages.length) (spread result)

/-- Only an object is brought into a shape. -/
def applyToolResultContract (now : ℚ) (toolName : String) (result : Value) : Except JsError Value :=
  if ¬ result.isObject then .ok result
  else
    let normalizedName := rt.toLowerCase (trim toolName)
    if normalizedName = "browser" then normalizeBrowserResult rt now result
    else if normalizedName = "web_search" then normalizeWebSearchResult rt result
    else if normalizedName = "web_fetch" then normalizeWebFetchResult rt result
    else if normalizedName = "email" then normalizeEmailResult rt result
    else .ok result

end Conversions

/-! ## What has the shape is left as it is -/

section Again
variable {rt : Runtime}

theorem trimmed_str (text : String) : trimmed rt (some (.str text)) = .ok (trim text) := by
  rw [trimmed, toStringValue, Value.textOrEmpty_str]
  rfl

theorem trim_of_trimmed {value : Option Value} {text : String} (h : trimmed rt value = .ok text) :
    trim text = text := by
  obtain ⟨raw, -, h⟩ := Js.exists_of_bind_ok h
  cases h
  exact Js.trim_trim raw

theorem keeps_asText : Keeps (asText rt) (asText rt) := by
  refine ⟨fun h => ?_, fun h => ?_⟩
  · obtain ⟨text, -, h⟩ := Js.exists_of_bind_ok h
    cases h
    rw [asText, toStringValue, Value.textOrEmpty_str]
    rfl
  · obtain ⟨text, -, h⟩ := Js.exists_of_bind_ok h
    cases h

theorem keeps_asTrimmed : Keeps (asTrimmed rt) (asTrimmed rt) := by
  refine ⟨fun h => ?_, fun h => ?_⟩
  · obtain ⟨text, htext, h⟩ := Js.exists_of_bind_ok h
    cases h
    rw [asTrimmed, trimmed_str, trim_of_trimmed htext]
    rfl
  · obtain ⟨text, -, h⟩ := Js.exists_of_bind_ok h
    cases h

theorem keeps_asTrimmedIfAny : Keeps (asTrimmedIfAny rt) (asTrimmedIfAny rt) := by
  refine ⟨fun h => ?_, fun h => ⟨rfl, h⟩⟩
  obtain ⟨text, htext, h⟩ := Js.exists_of_bind_ok h
  split at h
  · cases h
  · rename_i hne
    cases h
    rw [asTrimmedIfAny, trimmed_str, trim_of_trimmed htext, ok_bind, if_neg hne]
    rfl

theorem keeps_asNumber (fallback later : ℚ) : Keeps (asNumber rt fallback) (asNumber rt later) := by
  refine ⟨fun h => ?_, fun h => ?_⟩
  · obtain ⟨n, hn, h⟩ := Js.exists_of_bind_ok h
    obtain ⟨parsed, -, hn⟩ := Js.exists_of_bind_ok hn
    have hfinite : ∃ q, n = .num (.fin q) := by
      cases parsed <;> cases hn <;> exact ⟨_, rfl⟩
    obtain ⟨q, rfl⟩ := hfinite
    cases h
    rfl
  · obtain ⟨n, -, h⟩ := Js.exists_of_bind_ok h
    cases h

theorem keeps_asNumberIfFinite : Keeps (asNumberIfFinite rt) (asNumberIfFinite rt) := by
  refine ⟨fun h => ?_, fun h => ⟨rfl, h⟩⟩
  obtain ⟨parsed, -, h⟩ := Js.exists_of_bind_ok h
  cases parsed with
  | fin q =>
    cases h
    rfl
  | _ => cases h

theorem keeps_asBoolean (fallback : Bool) : Keeps (asBoolean rt fallback) (asBoolean rt fallback) := by
  have hbool : ∀ {value n}, toBooleanValue rt fallback value = .ok n → ∃ b, n = .bool b := by
    intro value n h
    unfold toBooleanValue at h
    split at h
    · cases h
      exact ⟨_, rfl⟩
    · cases h
      exact ⟨_, rfl⟩
    · cases h
      exact ⟨_, rfl⟩
    · obtain ⟨text, -, h⟩ := Js.exists_of_bind_ok h
      cases h
      exact ⟨_, rfl⟩
  refine ⟨fun h => ?_, fun h => ?_⟩
  · obtain ⟨n, hn, h⟩ := Js.exists_of_bind_ok h
    obtain ⟨b, rfl⟩ := hbool hn
    cases h
    rfl
  · obtain ⟨n, -, h⟩ := Js.exists_of_bind_ok h
    cases h

section Entries
variable {entry : Entry} (hentry : ∀ x y, entry x = .ok (some y) → entry y = .ok (some y))

/-- The entries that were kept, are kept again. -/
theorem entriesOf_again (hentry : ∀ x y, entry x = .ok (some y) → entry y = .ok (some y))
    {value : Option Value} {ys : List Value} (h : entriesOf entry value = .ok ys) :
    entriesOf entry (some (.arr ys)) = .ok ys := by
  unfold entriesOf at h
  split at h
  · exact collect_again hentry h
  · cases h
    rfl

include hentry

theorem keeps_asList : Keeps (asList entry) (asList entry) := by
  refine ⟨fun h => ?_, fun h => ?_⟩
  · obtain ⟨ys, hys, h⟩ := Js.exists_of_bind_ok h
    cases h
    rw [asList, entriesOf_again hentry hys]
    rfl
  · obtain ⟨ys, -, h⟩ := Js.exists_of_bind_ok h
    cases h

theorem keeps_asListIfAny : Keeps (asListIfAny entry) (asListIfAny entry) := by
  refine ⟨fun h => ?_, fun h => ⟨rfl, h⟩⟩
  obtain ⟨ys, hys, h⟩ := Js.exists_of_bind_ok h
  split at h
  · cases h
  · rename_i hne
    cases h
    rw [asListIfAny, entriesOf_again hentry hys, ok_bind, if_neg hne]
    rfl

theorem keeps_asListIfArray : Keeps (asListIfArray entry) (asListIfArray entry) := by
  refine ⟨fun h => ?_, fun h => ⟨rfl, h⟩⟩
  unfold asListIfArray at h
  split at h
  · obtain ⟨ys, hys, h⟩ := Js.exists_of_bind_ok h
    cases h
    dsimp only [asListIfArray]
    rw [collect_again hentry hys]
    rfl
  · cases h

end Entries

section Tables
variable {table later : Table}

theorem objectEntry_again (hkeeps : KeepsTable table later) (hkeys : (table.map Prod.fst).Nodup) (x y : Value)
    (h : objectEntry table x = .ok (some y)) : objectEntry later y = .ok (some y) := by
  unfold objectEntry at h
  split at h
  · obtain ⟨shaped, hshaped, h⟩ := Js.exists_of_bind_ok h
    cases h
    rw [objectEntry, if_pos (isObject_build hshaped), build_again hkeeps hkeys hshaped]
    rfl
  · cases h

theorem keyedEntry_again {key : String} (hkeeps : KeepsTable table later) (hkeys : (table.map Prod.fst).Nodup)
    (hkey : (key, asTrimmed rt) ∈ table) (x y : Value) (h : keyedEntry rt key table x = .ok (some y)) :
    keyedEntry rt key later y = .ok (some y) := by
  unfold keyedEntry at h
  split at h
  · obtain ⟨text, htext, h⟩ := Js.exists_of_bind_ok h
    split at h
    · cases h
    · rename_i hne
      obtain ⟨shaped, hshaped, h⟩ := Js.exists_of_bind_ok h
      cases h
      have hfield := get?_build hkeys hshaped hkey
      dsimp only [asTrimmed] at hfield
      rw [htext, ok_bind] at hfield
      have hget : y.get? key = some (.str text) := (Except.ok.inj hfield).symm
      rw [keyedEntry, if_pos (isObject_build hshaped), hget, trimmed_str, trim_of_trimmed htext, ok_bind,
        if_neg hne, build_again hkeeps hkeys hshaped]
      rfl
  · cases h

theorem keepsTable_self (h : ∀ f ∈ table, Keeps f.2 f.2) : KeepsTable table table := by
  rw [KeepsTable, List.forall₂_same]
  exact fun f hf => ⟨rfl, h f hf⟩

end Tables

theorem textEntry_again (x y : Value) (h : textEntry rt x = .ok (some y)) : textEntry rt y = .ok (some y) :=
  keeps_asTrimmedIfAny.given h

theorem normalizeLink_again (x y : Value) (h : normalizeLink rt x = .ok (some y)) :
    normalizeLink rt y = .ok (some y) := by
  refine keyedEntry_again (keepsTable_self ?_) (by simp [linkTable]) (by simp [linkTable]) x y h
  simp only [linkTable, List.forall_mem_cons]
  exact ⟨keeps_asNumber 0 0, keeps_asTrimmed, keeps_asTrimmed, by simp⟩

theorem normalizeRef_again (x y : Value) (h : normalizeRef rt x = .ok (some y)) :
    normalizeRef rt y = .ok (some y) := by
  refine keyedEntry_again (keepsTable_self ?_) (by simp [refTable]) (by simp [refTable]) x y h
  simp only [refTable, List.forall_mem_cons]
  exact ⟨keeps_asTrimmed, keeps_asTrimmed, keeps_asTrimmed, keeps_asTrimmed, keeps_asTrimmedIfAny,
    keeps_asNumberIfFinite, keeps_asTrimmedIfAny, keeps_asTrimmedIfAny, keeps_asTrimmedIfAny, by simp⟩

theorem keeps_snapshotTable (now later : ℚ) : KeepsTable (snapshotTable rt now) (snapshotTable rt later) := by
  refine .cons ⟨rfl, keeps_asNumber now later⟩ (keepsTable_self ?_)
  simp only [List.forall_mem_cons]
  exact ⟨keeps_asTrimmed, keeps_asTrimmed, keeps_asNumber 0 0, keeps_asBoolean false, keeps_asTrimmed,
    keeps_asBoolean false, keeps_asNumber 0 0, keeps_asText, keeps_asList normalizeLink_again,
    keeps_asList normalizeRef_again, by simp⟩

theorem keeps_ifThere {f g : Value → Except JsError Value} (h : ∀ x y, f x = .ok y → g y = .ok y) :
    Keeps (ifThere f) (ifThere g) := by
  refine ⟨fun {v x} hfirst => ?_, fun {v} hfirst => ?_⟩
  · cases v with
    | none => cases hfirst
    | some w =>
      obtain ⟨y, hy, hfirst⟩ := Js.exists_of_bind_ok hfirst
      cases hfirst
      dsimp only [ifThere]
      rw [h w x hy]
      rfl
  · cases v with
    | none => exact ⟨rfl, rfl⟩
    | some w =>
      obtain ⟨y, -, hfirst⟩ := Js.exists_of_bind_ok hfirst
      cases hfirst

theorem normalizeSnapshot_again (now later : ℚ) (x y : Value) (h : normalizeSnapshot rt now x = .ok y) :
    normalizeSnapshot rt later y = .ok y := by
  obtain ⟨shaped, hshaped, h⟩ := Js.exists_of_bind_ok h
  cases h
  cases shaped with
  | none => rfl
  | some z =>
    rw [Option.getD_some, normalizeSnapshot,
      objectEntry_again (keeps_snapshotTable now later) (by simp [snapshotTable]) x z hshaped]
    rfl

theorem keeps_browserTable (now later : ℚ) : KeepsTable (browserTable rt now) (browserTable rt later) :=
  have hsnapshot := keeps_ifThere (@normalizeSnapshot_again rt now later)
  .cons ⟨rfl, hsnapshot⟩ (.cons ⟨rfl, hsnapshot⟩ (.cons ⟨rfl, keeps_asListIfArray normalizeRef_again⟩ .nil))

theorem searchItem_again (x y : Value) (h : searchItem rt x = .ok (some y)) : searchItem rt y = .ok (some y) := by
  refine keyedEntry_again (keepsTable_self ?_) (by simp) (by simp) x y h
  simp only [List.forall_mem_cons]
  exact ⟨keeps_asTrimmed, keeps_asTrimmed, keeps_asTrimmed, by simp⟩

theorem keeps_asPrice : Keeps (asPrice rt) (asPrice rt) := by
  have htable : KeepsTable (priceTable rt) (priceTable rt) := by
    refine keepsTable_self ?_
    simp only [priceTable, List.forall_mem_cons]
    exact ⟨keeps_asNumber 0 0, keeps_asTrimmed, keeps_asTrimmed, by simp⟩
  refine ⟨fun {v x} h => ?_, fun h => ⟨rfl, h⟩⟩
  cases v with
  | none => cases h
  | some price => exact objectEntry_again htable (by simp [priceTable]) price x h

theorem productItem_again (x y : Value) (h : productItem rt x = .ok (some y)) :
    productItem rt y = .ok (some y) := by
  refine keyedEntry_again (keepsTable_self ?_) (by simp) (by simp) x y h
  simp only [List.forall_mem_cons]
  exact ⟨keeps_asTrimmed, keeps_asTrimmed, keeps_asTrimmed, keeps_asNumber 0 0, keeps_asPrice, by simp⟩

theorem keeps_webSearchTable (found later : ℚ) :
    KeepsTable (webSearchTable rt found) (webSearchTable rt later) :=
  .cons ⟨rfl, keeps_asTrimmed⟩ (.cons ⟨rfl, keeps_asTrimmed⟩ (.cons ⟨rfl, keeps_asTrimmed⟩
    (.cons ⟨rfl, keeps_asNumber found later⟩ (.cons ⟨rfl, keeps_asList searchItem_again⟩
      (.cons ⟨rfl, keeps_asListIfAny productItem_again⟩ .nil)))))

theorem keeps_webFetchTable : KeepsTable (webFetchTable rt) (webFetchTable rt) := by
  refine keepsTable_self ?_
  simp only [webFetchTable, List.forall_mem_cons]
  exact ⟨keeps_asBoolean false, keeps_asNumber 0 0, keeps_asTrimmed, keeps_asTrimmed, keeps_asBoolean false,
    keeps_asNumber 0 0, keeps_asText, by simp⟩

theorem normalizeEmailMessage_again (x y : Value) (h : normalizeEmailMessage rt x = .ok (some y)) :
    normalizeEmailMessage rt y = .ok (some y) := by
  refine objectEntry_again (keepsTable_self ?_) (by simp [emailTable]) x y h
  simp only [emailTable, List.forall_mem_cons]
  exact ⟨keeps_asNumber 0 0, keeps_asNumber 0 0, keeps_asTrimmed, keeps_asTrimmed, keeps_asTrimmed,
    keeps_asTrimmed, keeps_asText, keeps_asTrimmed, keeps_asTrimmed, keeps_asTrimmed,
    keeps_asList textEntry_again, keeps_asList textEntry_again, keeps_asNumber 0 0, by simp⟩

theorem keeps_emailResultTable (found later : ℚ) :
    KeepsTable (emailResultTable rt found) (emailResultTable rt later) := by
  have hself : ∀ f ∈ (emailResultTable rt 0).drop 9, Keeps f.2 f.2 := by
    simp only [emailResultTable, List.drop_succ_cons, List.drop_zero, List.forall_mem_cons]
    exact ⟨keeps_asNumber 0 0, keeps_asList normalizeEmailMessage_again, keeps_asList textEntry_again,
      keeps_asList textEntry_again, keeps_asList textEntry_again, keeps_asList textEntry_again, by simp⟩
  exact .cons ⟨rfl, keeps_asBoolean false⟩ (.cons ⟨rfl, keeps_asTrimmed⟩ (.cons ⟨rfl, keeps_asTrimmed⟩
    (.cons ⟨rfl, keeps_asTrimmed⟩ (.cons ⟨rfl, keeps_asTrimmed⟩ (.cons ⟨rfl, keeps_asTrimmed⟩
      (.cons ⟨rfl, keeps_asTrimmed⟩ (.cons ⟨rfl, keeps_asBoolean false⟩
        (.cons ⟨rfl, keeps_asNumber found later⟩ (keepsTable_self hself)))))))))

theorem isRecord_spread (v : Value) : (spread v).isRecord = true := by cases v <;> rfl

theorem isRecord_overwrite {table : Table} {row out : Value} (hrow : row.isRecord = true)
    (h : overwrite table row = .ok out) : out.isRecord = true := by
  obtain ⟨fields, -, h⟩ := Js.exists_of_bind_ok h
  cases h
  clear * - hrow
  induction fields generalizing row with
  | nil => exact hrow
  | cons f fields ih => exact ih (isRecord_write hrow f)

theorem spread_of_isRecord {v : Value} (h : v.isRecord = true) : spread v = v := by
  cases v with
  | obj fields => rfl
  | _ => cases h

/-- A result that was overwritten by a table is one that a table which keeps it leaves as it is. -/
theorem overwritten_again {table later : Table} {result shaped : Value} (hkeeps : KeepsTable table later)
    (hkeys : (table.map Prod.fst).Nodup) (h : overwrite table (spread result) = .ok shaped) :
    shaped.isObject = true ∧ overwrite later (spread shaped) = .ok shaped := by
  have hrecord := isRecord_overwrite (isRecord_spread result) h
  rw [spread_of_isRecord hrecord]
  refine ⟨?_, overwrite_again hkeeps hkeys (isRecord_spread result) h⟩
  cases shaped with
  | obj fields => rfl
  | _ => cases hrecord

/-- The list that a table wrote can be read again. -/
theorem entriesOf_overwritten {table : Table} {result shaped : Value} (hkeys : (table.map Prod.fst).Nodup)
    (h : overwrite table (spread result) = .ok shaped) (key : String) {entry : Entry}
    (hkey : (key, asList entry) ∈ table) (hentry : ∀ x y, entry x = .ok (some y) → entry y = .ok (some y)) :
    ∃ ys, entriesOf entry (shaped.get? key) = .ok ys := by
  obtain ⟨w, hw, hget⟩ := get?_overwrite hkeys (isRecord_spread result) h hkey
  obtain ⟨ys, hys, hw⟩ := Js.exists_of_bind_ok hw
  cases hw
  exact ⟨ys, by rw [hget, Option.some_or, entriesOf_again hentry hys]⟩

/-- A result that has the shape of its tool stays as it is, at any later time. -/
theorem tool_result_contract_again (rt : Runtime) {now : ℚ} {toolName : String} {result shaped : Value}
    (h : applyToolResultContract rt now toolName result = .ok shaped) (later : ℚ) :
    applyToolResultContract rt later toolName shaped = .ok shaped := by
  unfold applyToolResultContract at h ⊢
  dsimp only at h ⊢
  by_cases hobject : result.isObject = true
  · rw [if_neg (not_not.mpr hobject)] at h
    have hshaped : shaped.isObject = true ∧
        (if rt.toLowerCase (trim toolName) = "browser" then normalizeBrowserResult rt later shaped
        else if rt.toLowerCase (trim toolName) = "web_search" then normalizeWebSearchResult rt shaped
        else if rt.toLowerCase (trim toolName) = "web_fetch" then normalizeWebFetchResult rt shaped
        else if rt.toLowerCase (trim toolName) = "email" then normalizeEmailResult rt shaped
        else .ok shaped) = .ok shaped := by
      split_ifs at h ⊢
      · exact overwritten_again (keeps_browserTable now later) (by simp [browserTable]) h
      · obtain ⟨results, -, h⟩ := Js.exists_of_bind_ok h
        have hkeys : ((webSearchTable rt results.length).map Prod.fst).Nodup := by simp [webSearchTable]
        obtain ⟨again, hagain⟩ := entriesOf_overwritten hkeys h "results"
          (by simp only [webSearchTable, List.mem_cons, true_or, or_true]) (@searchItem_again rt)
        rw [normalizeWebSearchResult, hagain]
        exact overwritten_again (keeps_webSearchTable _ _) hkeys h
      · exact overwritten_again keeps_webFetchTable (by simp [webFetchTable]) h
      · obtain ⟨messages, -, h⟩ := Js.exists_of_bind_ok h
        have hkeys : ((emailResultTable rt messages.length).map Prod.fst).Nodup := by simp [emailResultTable]
        obtain ⟨again, hagain⟩ := entriesOf_overwritten hkeys h "messages"
          (by simp only [emailResultTable, List.mem_cons, true_or, or_true]) (@normalizeEmailMessage_again rt)
        rw [normalizeEmailResult, hagain]
        exact overwritten_again (keeps_emailResultTable _ _) hkeys h
      · cases h
        exact ⟨hobject, rfl⟩
    rw [if_neg (not_not.mpr hshaped.1)]
    exact hshaped.2
  · rw [if_pos hobject] at h
    cases h
    rw [if_pos hobject]

/-- A result of the browser with an entry without a name. -/
def blankRef : Value :=
  .obj [("refs", .arr [.null, .obj [("ref", .str " e1 "), ("kind", .str "link")], .obj [("ref", .str " ")]])]

theorem tool_result_contract_again_blankRef : ∃ shaped,
    applyToolResultContract Js.asciiRuntime 0 "browser" blankRef = .ok shaped ∧
      applyToolResultContract Js.asciiRuntime 5 "browser" shaped = .ok shaped := by
  have h : applyToolResultContract Js.asciiRuntime 0 "browser" blankRef = .ok (.obj [("refs", .arr [.obj
      [("ref", .str "e1"), ("kind", .str "link"), ("role", .str ""), ("name", .str "")]])]) := by
    decide
  exact ⟨_, h, tool_result_contract_again Js.asciiRuntime h 5⟩

end Again

/-! ## What the browser sees, cut for the context -/

section Compact

def BROWSER_RESULT_MAX_TEXT_CHARS : Nat := 3500
def BROWSER_RESULT_MAX_LINKS : Nat := 40
def BROWSER_RESULT_MAX_REFS : Nat := 60
def BROWSER_RESULT_MAX_FORMS : Nat := 24
def BROWSER_RESULT_MAX_FORM_FIELDS : Nat := 40

/-- The characters of the first units; one that the cut would split is left out. -/
def clipUnits : Nat → List Char → List Char
  | _, [] => []
  | n, c :: cs =>
    let size := (Js.charUnits c).length
    if size ≤ n then c :: clipUnits (n - size) cs else []

def truncateText (maxChars : Nat) (text : String) : String :=
  if (Js.units text).length ≤ maxChars then text
  else String.ofList (clipUnits maxChars text.toList) ++ "\n\n[truncated for tool context]"

def keepNumber : Conversion
  | some (.num n) => .ok (some (.num n))
  | _ => .ok none

def keepText : Conversion
  | some (.str s) => .ok (some (.str s))
  | _ => .ok none

def cutText (maxChars : Nat) : Conversion
  | some (.str s) => .ok (some (.str (truncateText maxChars s)))
  | _ => .ok none

/-- An entry that is an object is replaced by its fields in the table. -/
def compactEntry (table : Table) (entry : Value) : Except JsError Value :=
  if entry.isObject then build table entry else .ok entry

/-- `array.slice(0, max).map(entry)` -/
def cutList (max : Nat) (entry : Value → Except JsError Value) : Conversion
  | some (.arr xs) => do
    let entries ← (xs.take max).mapM entry
    return some (.arr entries)
  | _ => .ok none

def compactLink : Value → Except JsError Value :=
  compactEntry [("index", keepNumber), ("text", cutText 160), ("url", cutText 240)]

def compactRef : Value → Except JsError Value :=
  compactEntry [("ref", keepText), ("kind", keepText), ("role", keepText), ("name", cutText 180),
    ("url", cutText 240), ("formIndex", keepNumber), ("fieldName", cutText 120), ("method", keepText),
    ("selector", cutText 240)]

def compactSnapshotTable : Table :=
  [("text", cutText BROWSER_RESULT_MAX_TEXT_CHARS), ("links", cutList BROWSER_RESULT_MAX_LINKS compactLink),
    ("refs", cutList BROWSER_RESULT_MAX_REFS compactRef)]

def compactSnapshot (snapshot : Value) : Except JsError Value :=
  if ¬ snapshot.isObject then .ok snapshot else overwrite compactSnapshotTable (spread snapshot)

/-- The references beside a snapshot keep fewer fields. -/
def compactOwnRef : Value → Except JsError Value :=
  compactEntry [("ref", keepText), ("kind", keepText), ("role", keepText), ("name", cutText 180),
    ("url", cutText 240), ("selector", cutText 240)]

def compactForm (entry : Value) : Except JsError Value :=
  if entry.isObject then
    match entry.get? "fields" with
    | some (.arr fields) => .ok ((spread entry).set "fields" (.arr (fields.take BROWSER_RESULT_MAX_FORM_FIELDS)))
    | _ => .ok entry
  else .ok entry

def compactTable : Table :=
  [("snapshot", ifThere compactSnapshot), ("openedSnapshot", ifThere compactSnapshot),
    ("refs", cutList BROWSER_RESULT_MAX_REFS compactOwnRef),
    ("forms", cutList BROWSER_RESULT_MAX_FORMS compactForm)]

def compactBrowserToolResult (result : Value) : Except JsError Value :=
  if ¬ result.isObject then .ok result else overwrite compactTable (spread result)

theorem length_clipUnits (n : Nat) (cs : List Char) : ((clipUnits n cs).flatMap Js.charUnits).length ≤ n := by
  induction cs generalizing n with
  | nil => simp [clipUnits]
  | cons c cs ih =>
    dsimp only [clipUnits]
    split_ifs with hfits
    · have hrest := ih (n - (Js.charUnits c).length)
      rw [List.flatMap_cons, List.length_append]
      omega
    · simp

/-- A cut text is at most as long as the bound and the mark behind it. -/
theorem length_truncateText (maxChars : Nat) (text : String) :
    (Js.units (truncateText maxChars text)).length ≤ maxChars + 30 := by
  unfold truncateText
  split_ifs with hshort
  · omega
  · have hmark : (Js.units "\n\n[truncated for tool context]").length = 30 := by decide
    have hcut := length_clipUnits maxChars text.toList
    rw [Js.units, String.toList_append, List.flatMap_append, List.length_append, String.toList_ofList]
    rw [Js.units] at hmark
    omega

/-! ### What is kept of a result -/

section Kept

/-- A text is handed on cut, and what is no text as it is. -/
structure TextKept (max : Nat) (given handed : Option Value) : Prop where
  cut : ∀ text, given = some (.str text) → handed = some (.str (truncateText max text))
  other : (∀ text, given ≠ some (.str text)) → handed = given

/-- A list is handed on as its first entries, each in its compact form, and what is no list as it is. -/
structure ListKept (max : Nat) (entry : Value → Except JsError Value) (given handed : Option Value) : Prop where
  first : ∀ xs, given = some (.arr xs) →
    ∃ ys, handed = some (.arr ys) ∧ List.Forall₂ (fun x y => entry x = .ok y) (xs.take max) ys
  other : (∀ xs, given ≠ some (.arr xs)) → handed = given

/-- A snapshot as it is handed on. -/
structure SnapshotKept (given handed : Value) : Prop where
  text : TextKept BROWSER_RESULT_MAX_TEXT_CHARS (given.get? "text") (handed.get? "text")
  links : ListKept BROWSER_RESULT_MAX_LINKS compactLink (given.get? "links") (handed.get? "links")
  refs : ListKept BROWSER_RESULT_MAX_REFS compactRef (given.get? "refs") (handed.get? "refs")
  other : ∀ key ∉ ["text", "links", "refs"], handed.get? key = given.get? key

/-- A result as it is handed on. -/
structure ResultKept (given handed : Value) : Prop where
  snapshot : ∀ key ∈ ["snapshot", "openedSnapshot"], match given.get? key with
    | some snapshot => ∃ kept, handed.get? key = some kept ∧
        if snapshot.isObject then SnapshotKept (spread snapshot) kept else kept = snapshot
    | none => handed.get? key = none
  refs : ListKept BROWSER_RESULT_MAX_REFS compactOwnRef (given.get? "refs") (handed.get? "refs")
  forms : ListKept BROWSER_RESULT_MAX_FORMS compactForm (given.get? "forms") (handed.get? "forms")
  other : ∀ key ∉ ["snapshot", "openedSnapshot", "refs", "forms"], handed.get? key = given.get? key

section Tables
variable {table : Table} {row out : Value} (hkeys : (table.map Prod.fst).Nodup) (hrow : row.isRecord = true)
  (h : overwrite table row = .ok out)

include hkeys hrow h

theorem textKept_overwrite {key : String} {max : Nat} (hkey : (key, cutText max) ∈ table) :
    TextKept max (row.get? key) (out.get? key) := by
  obtain ⟨w, hw, hout⟩ := get?_overwrite hkeys hrow h hkey
  dsimp only at hw hout
  unfold cutText at hw
  split at hw
  · rename_i text htext
    cases hw
    rw [htext] at hout ⊢
    refine ⟨fun text' htext' => ?_, fun hnone => absurd rfl (hnone text)⟩
    cases htext'
    exact hout
  · rename_i hother
    cases hw
    exact ⟨fun text htext => absurd htext (hother text), fun _ => hout⟩

theorem listKept_overwrite {key : String} {max : Nat} {entry : Value → Except JsError Value}
    (hkey : (key, cutList max entry) ∈ table) : ListKept max entry (row.get? key) (out.get? key) := by
  obtain ⟨w, hw, hout⟩ := get?_overwrite hkeys hrow h hkey
  dsimp only at hw hout
  unfold cutList at hw
  split at hw
  · rename_i xs hxs
    obtain ⟨ys, hys, hw⟩ := Js.exists_of_bind_ok hw
    cases hw
    rw [hxs] at hout ⊢
    refine ⟨fun xs' hxs' => ?_, fun hnone => absurd rfl (hnone xs)⟩
    cases hxs'
    exact ⟨ys, hout, Js.mapM_ok_iff.mp hys⟩
  · rename_i hother
    cases hw
    exact ⟨fun xs hxs => absurd hxs (hother xs), fun _ => hout⟩

end Tables

theorem compactSnapshot_kept {value snapshot : Value} (h : compactSnapshot value = .ok snapshot) :
    if value.isObject then SnapshotKept (spread value) snapshot else snapshot = value := by
  unfold compactSnapshot at h
  split at h
  · rename_i hobject
    cases h
    rw [if_neg hobject]
  · rename_i hobject
    have hkeys : (compactSnapshotTable.map Prod.fst).Nodup := by simp [compactSnapshotTable]
    have hrow := isRecord_spread value
    rw [if_pos (not_not.mp hobject)]
    exact ⟨textKept_overwrite hkeys hrow h (.head _), listKept_overwrite hkeys hrow h (.tail _ (.head _)),
      listKept_overwrite hkeys hrow h (.tail _ (.tail _ (.head _))),
      fun key hkey => get?_overwrite_of_not_mem hrow h hkey⟩

theorem compactBrowserToolResult_kept {result out : Value} (hobject : result.isObject = true)
    (h : compactBrowserToolResult result = .ok out) : ResultKept (spread result) out := by
  rw [compactBrowserToolResult, if_neg (not_not.mpr hobject)] at h
  have hkeys : (compactTable.map Prod.fst).Nodup := by simp [compactTable]
  have hrow := isRecord_spread result
  refine ⟨fun key hkey => ?_, listKept_overwrite hkeys hrow h (.tail _ (.tail _ (.head _))),
    listKept_overwrite hkeys hrow h (.tail _ (.tail _ (.tail _ (.head _)))),
    fun key hkey => get?_overwrite_of_not_mem hrow h hkey⟩
  have hmem : (key, ifThere compactSnapshot) ∈ compactTable := by
    rcases List.mem_pair.mp hkey with rfl | rfl
    · exact .head _
    · exact .tail _ (.head _)
  obtain ⟨w, hw, hout⟩ := get?_overwrite hkeys hrow h hmem
  dsimp only at hw hout
  cases hgiven : (spread result).get? key with
  | none =>
    rw [hgiven] at hw hout
    cases hw
    exact hout
  | some value =>
    rw [hgiven] at hw
    obtain ⟨kept, hkept, hw⟩ := Js.exists_of_bind_ok hw
    cases hw
    exact ⟨kept, hout, compactSnapshot_kept hkept⟩

/-! ### No value makes the cut throw -/

theorem total_keepNumber : Total keepNumber := by
  intro value
  unfold keepNumber
  split <;> exact ⟨_, rfl⟩

theorem total_keepText : Total keepText := by
  intro value
  unfold keepText
  split <;> exact ⟨_, rfl⟩

theorem total_cutText (max : Nat) : Total (cutText max) := by
  intro value
  unfold cutText
  split <;> exact ⟨_, rfl⟩

theorem total_cutList {max : Nat} {entry : Value → Except JsError Value} (h : ∀ x, ∃ y, entry x = .ok y) :
    Total (cutList max entry) := by
  intro value
  unfold cutList
  split
  · obtain ⟨ys, hys⟩ := Js.exists_mapM_ok_iff.mpr fun x _ => h x
    exact ⟨some (.arr ys), by rw [hys]; rfl⟩
  · exact ⟨_, rfl⟩

theorem total_ifThere {f : Value → Except JsError Value} (h : ∀ x, ∃ y, f x = .ok y) : Total (ifThere f) := by
  intro value
  cases value with
  | none => exact ⟨none, rfl⟩
  | some x =>
    obtain ⟨y, hy⟩ := h x
    exact ⟨some y, by rw [ifThere, hy]; rfl⟩

theorem compactEntry_total {table : Table} (h : ∀ t ∈ table, Total t.2) (entry : Value) :
    ∃ y, compactEntry table entry = .ok y := by
  unfold compactEntry
  split
  · exact build_total h entry
  · exact ⟨entry, rfl⟩

theorem compactLink_total (entry : Value) : ∃ y, compactLink entry = .ok y := by
  refine compactEntry_total ?_ entry
  simp only [List.forall_mem_cons, List.not_mem_nil, false_implies, implies_true, and_true]
  exact ⟨total_keepNumber, total_cutText _, total_cutText _⟩

theorem compactRef_total (entry : Value) : ∃ y, compactRef entry = .ok y := by
  refine compactEntry_total ?_ entry
  simp only [List.forall_mem_cons, List.not_mem_nil, false_implies, implies_true, and_true]
  exact ⟨total_keepText, total_keepText, total_keepText, total_cutText _, total_cutText _, total_keepNumber,
    total_cutText _, total_keepText, total_cutText _⟩

theorem compactOwnRef_total (entry : Value) : ∃ y, compactOwnRef entry = .ok y := by
  refine compactEntry_total ?_ entry
  simp only [List.forall_mem_cons, List.not_mem_nil, false_implies, implies_true, and_true]
  exact ⟨total_keepText, total_keepText, total_keepText, total_cutText _, total_cutText _, total_cutText _⟩

theorem compactSnapshot_total (value : Value) : ∃ y, compactSnapshot value = .ok y := by
  unfold compactSnapshot
  split
  · exact ⟨value, rfl⟩
  · refine overwrite_total ?_ (spread value)
    simp only [compactSnapshotTable, List.forall_mem_cons, List.not_mem_nil, false_implies, implies_true, and_true]
    exact ⟨total_cutText _, total_cutList compactLink_total, total_cutList compactRef_total⟩

theorem compactForm_total (entry : Value) : ∃ y, compactForm entry = .ok y := by
  unfold compactForm
  split
  · split <;> exact ⟨_, rfl⟩
  · exact ⟨entry, rfl⟩

theorem compactBrowserToolResult_total (result : Value) : ∃ out, compactBrowserToolResult result = .ok out := by
  unfold compactBrowserToolResult
  split
  · exact ⟨result, rfl⟩
  · refine overwrite_total ?_ (spread result)
    simp only [compactTable, List.forall_mem_cons, List.not_mem_nil, false_implies, implies_true, and_true]
    exact ⟨total_ifThere compactSnapshot_total, total_ifThere compactSnapshot_total,
      total_cutList compactOwnRef_total, total_cutList compactForm_total⟩

end Kept

/-! ### How much is handed on -/

section Bounds

def listOf : Option Value → List Value
  | some (.arr xs) => xs
  | _ => []

/-- The units of a text of the entry. -/
def textUnits (entry : Value) (key : String) : Nat :=
  match entry.get? key with
  | some (.str text) => (Js.units text).length
  | _ => 0

/-- The snapshots in a result. -/
def snapshotsOf (out : Value) : List Value := ["snapshot", "openedSnapshot"].filterMap out.get?

def linksOf (out : Value) : List Value := (snapshotsOf out).flatMap fun s => listOf (s.get? "links")

def refsOf (out : Value) : List Value :=
  (snapshotsOf out).flatMap (fun s => listOf (s.get? "refs")) ++ listOf (out.get? "refs")

def formsOf (out : Value) : List Value := listOf (out.get? "forms")

def fieldsOf (out : Value) : List Value := (formsOf out).flatMap fun form => listOf (form.get? "fields")

def linkUnits (link : Value) : Nat := textUnits link "text" + textUnits link "url"

def refUnits (ref : Value) : Nat :=
  textUnits ref "name" + textUnits ref "url" + textUnits ref "fieldName" + textUnits ref "selector"

/-- The units of the page texts and of the texts of the links and references. -/
def cutUnits (out : Value) : Nat :=
  ((snapshotsOf out).map fun s => textUnits s "text").sum + ((linksOf out).map linkUnits).sum +
    ((refsOf out).map refUnits).sum

theorem length_le_of_listKept {max : Nat} {entry : Value → Except JsError Value} {given handed : Option Value}
    (h : ListKept max entry given handed) :
    (listOf handed).length ≤ max ∧ ∀ y ∈ listOf handed, ∃ x, entry x = .ok y := by
  by_cases hlist : ∃ xs, given = some (.arr xs)
  · obtain ⟨xs, hxs⟩ := hlist
    obtain ⟨ys, rfl, hall⟩ := h.first xs hxs
    rw [listOf]
    refine ⟨?_, fun y hy => ?_⟩
    · rw [← hall.length_eq, List.length_take]
      exact Nat.min_le_left _ _
    · obtain ⟨x, -, hx⟩ := Js.exists_of_mem_mapM (Js.mapM_ok_iff.mpr hall) hy
      exact ⟨x, hx⟩
  · have hnone : ∀ xs, given ≠ some (.arr xs) := fun xs hxs => hlist ⟨xs, hxs⟩
    have hempty : listOf given = [] := by
      unfold listOf
      split
      · rename_i xs
        exact absurd rfl (hnone xs)
      · rfl
    rw [h.other hnone, hempty]
    exact ⟨Nat.zero_le _, fun y hy => absurd hy List.not_mem_nil⟩

theorem textUnits_of_not_record {v : Value} (h : ¬ v.isObject = true) (key : String) :
    v.get? key = none ∧ textUnits v key = 0 := by
  have hnone : v.get? key = none :=
    Value.get?_of_not_record (by cases v <;> simp_all [Value.isObject, Value.isRecord]) key
  exact ⟨hnone, by rw [textUnits, hnone]⟩

theorem textUnits_of_textKept {max : Nat} {given handed : Value} {key : String}
    (h : TextKept max (given.get? key) (handed.get? key)) : textUnits handed key ≤ max + 30 := by
  by_cases htext : ∃ text, given.get? key = some (.str text)
  · obtain ⟨text, htext⟩ := htext
    rw [textUnits, h.cut text htext]
    exact length_truncateText _ _
  · have hnone : ∀ text, given.get? key ≠ some (.str text) := fun text ht => htext ⟨text, ht⟩
    rw [textUnits, h.other hnone]
    split
    · rename_i text heq
      exact absurd heq (hnone text)
    · exact Nat.zero_le _

/-- A text of an entry that was cut, or is not there. -/
theorem textUnits_compactEntry {table : Table} (hkeys : (table.map Prod.fst).Nodup) {entry y : Value}
    (h : compactEntry table entry = .ok y) (key : String) (max : Nat)
    (hkey : (key, cutText max) ∈ table ∨ key ∉ table.map Prod.fst) : textUnits y key ≤ max + 30 := by
  unfold compactEntry at h
  split at h
  · rcases hkey with hkey | hkey
    · have hcut := get?_build hkeys h hkey
      unfold textUnits
      dsimp only at hcut
      unfold cutText at hcut
      split at hcut
      · rw [← Except.ok.inj hcut]
        exact length_truncateText _ _
      · rw [← Except.ok.inj hcut]
        exact Nat.zero_le _
    · rw [textUnits, get?_build_of_not_mem h hkey]
      exact Nat.zero_le _
  · rename_i hobject
    cases h
    rw [(textUnits_of_not_record hobject key).2]
    exact Nat.zero_le _

theorem linkUnits_le {entry link : Value} (h : compactLink entry = .ok link) : linkUnits link ≤ 460 := by
  unfold compactLink at h
  have htext := textUnits_compactEntry (by simp) h "text" 160 (Or.inl (.tail _ (.head _)))
  have hurl := textUnits_compactEntry (by simp) h "url" 240 (Or.inl (.tail _ (.tail _ (.head _))))
  unfold linkUnits
  omega

theorem refUnits_le {entry ref : Value} (h : compactRef entry = .ok ref) : refUnits ref ≤ 900 := by
  unfold compactRef at h
  have hname := textUnits_compactEntry (by simp) h "name" 180 (Or.inl (by simp))
  have hurl := textUnits_compactEntry (by simp) h "url" 240 (Or.inl (by simp))
  have hfield := textUnits_compactEntry (by simp) h "fieldName" 120 (Or.inl (by simp))
  have hselector := textUnits_compactEntry (by simp) h "selector" 240 (Or.inl (by simp))
  unfold refUnits
  omega

theorem ownRefUnits_le {entry ref : Value} (h : compactOwnRef entry = .ok ref) : refUnits ref ≤ 900 := by
  unfold compactOwnRef at h
  have hname := textUnits_compactEntry (by simp) h "name" 180 (Or.inl (by simp))
  have hurl := textUnits_compactEntry (by simp) h "url" 240 (Or.inl (by simp))
  have hfield := textUnits_compactEntry (by simp) h "fieldName" 120 (Or.inr (by simp))
  have hselector := textUnits_compactEntry (by simp) h "selector" 240 (Or.inl (by simp))
  unfold refUnits
  omega

/-- A snapshot that was handed on. -/
structure SnapshotBounds (snapshot : Value) : Prop where
  text : textUnits snapshot "text" ≤ BROWSER_RESULT_MAX_TEXT_CHARS + 30
  links : (listOf (snapshot.get? "links")).length ≤ BROWSER_RESULT_MAX_LINKS
  refs : (listOf (snapshot.get? "refs")).length ≤ BROWSER_RESULT_MAX_REFS
  linkUnits : ∀ link ∈ listOf (snapshot.get? "links"), linkUnits link ≤ 460
  refUnits : ∀ ref ∈ listOf (snapshot.get? "refs"), refUnits ref ≤ 900

theorem snapshotBounds_of_kept {given handed : Value}
    (h : if given.isObject then SnapshotKept (spread given) handed else handed = given) :
    SnapshotBounds handed := by
  split at h
  · obtain ⟨hlinks, hlink⟩ := length_le_of_listKept h.links
    obtain ⟨hrefs, href⟩ := length_le_of_listKept h.refs
    refine ⟨textUnits_of_textKept h.text, hlinks, hrefs, fun link hl => ?_, fun ref hr => ?_⟩
    · obtain ⟨entry, hentry⟩ := hlink link hl
      exact linkUnits_le hentry
    · obtain ⟨entry, hentry⟩ := href ref hr
      exact refUnits_le hentry
  · rename_i hobject
    subst h
    have hnone := fun key => (textUnits_of_not_record hobject key).1
    refine ⟨?_, ?_, ?_, ?_, ?_⟩ <;> simp [textUnits, listOf, hnone]

theorem compactForm_bound {entry form : Value} (h : compactForm entry = .ok form) :
    (listOf (form.get? "fields")).length ≤ BROWSER_RESULT_MAX_FORM_FIELDS := by
  unfold compactForm at h
  split at h
  · split at h
    · cases h
      rw [Value.get?_set (isRecord_spread entry), if_pos rfl, listOf, List.length_take]
      exact Nat.min_le_left _ _
    · rename_i hother
      cases h
      have hempty : listOf (entry.get? "fields") = [] := by
        unfold listOf
        split
        · rename_i fields hfields
          exact absurd hfields (hother fields)
        · rfl
      rw [hempty]
      exact Nat.zero_le _
  · rename_i hobject
    cases h
    rw [(textUnits_of_not_record hobject "fields").1]
    exact Nat.zero_le _

/-- Of every list a result hands on a bounded part, so in all a bounded number of entries. -/
structure ResultBounds (out : Value) : Prop where
  links : (linksOf out).length ≤ 2 * BROWSER_RESULT_MAX_LINKS
  refs : (refsOf out).length ≤ 3 * BROWSER_RESULT_MAX_REFS
  forms : (formsOf out).length ≤ BROWSER_RESULT_MAX_FORMS
  fields : (fieldsOf out).length ≤ BROWSER_RESULT_MAX_FORMS * BROWSER_RESULT_MAX_FORM_FIELDS
  units : cutUnits out ≤ 205860

theorem length_flatMap_le {α β : Type} {f : α → List β} {xs : List α} {bound : Nat}
    (h : ∀ x ∈ xs, (f x).length ≤ bound) : (xs.flatMap f).length ≤ xs.length * bound := by
  rw [List.length_flatMap]
  have hsum := List.sum_le_card_nsmul (xs.map fun x => (f x).length) bound (by simpa using h)
  simpa using hsum

theorem sum_map_le {α : Type} {f : α → Nat} {xs : List α} {bound : Nat} (h : ∀ x ∈ xs, f x ≤ bound) :
    (xs.map f).sum ≤ xs.length * bound := by
  have hsum := List.sum_le_card_nsmul (xs.map f) bound (by simpa using h)
  simpa using hsum

theorem resultBounds_of_parts {out : Value} (hsnapshots : ∀ s ∈ snapshotsOf out, SnapshotBounds s)
    (hrefs : (listOf (out.get? "refs")).length ≤ BROWSER_RESULT_MAX_REFS)
    (href : ∀ ref ∈ listOf (out.get? "refs"), refUnits ref ≤ 900)
    (hforms : (formsOf out).length ≤ BROWSER_RESULT_MAX_FORMS)
    (hform : ∀ form ∈ formsOf out, (listOf (form.get? "fields")).length ≤ BROWSER_RESULT_MAX_FORM_FIELDS) :
    ResultBounds out := by
  have htwo : (snapshotsOf out).length ≤ 2 := by
    unfold snapshotsOf
    exact List.length_filterMap_le _ _
  have hlinks : (linksOf out).length ≤ 2 * BROWSER_RESULT_MAX_LINKS :=
    (length_flatMap_le fun s hs => (hsnapshots s hs).links).trans (Nat.mul_le_mul_right _ htwo)
  have hinside : ((snapshotsOf out).flatMap fun s => listOf (s.get? "refs")).length ≤
      2 * BROWSER_RESULT_MAX_REFS :=
    (length_flatMap_le fun s hs => (hsnapshots s hs).refs).trans (Nat.mul_le_mul_right _ htwo)
  have hrefsAll : (refsOf out).length ≤ 3 * BROWSER_RESULT_MAX_REFS := by
    rw [refsOf, List.length_append]
    omega
  have hfields : (fieldsOf out).length ≤ BROWSER_RESULT_MAX_FORMS * BROWSER_RESULT_MAX_FORM_FIELDS :=
    (length_flatMap_le hform).trans (Nat.mul_le_mul_right _ hforms)
  have hpages : ((snapshotsOf out).map fun s => textUnits s "text").sum ≤ 2 * (BROWSER_RESULT_MAX_TEXT_CHARS + 30) :=
    (sum_map_le fun s hs => (hsnapshots s hs).text).trans (Nat.mul_le_mul_right _ htwo)
  have hlinkUnits : ((linksOf out).map linkUnits).sum ≤ 2 * BROWSER_RESULT_MAX_LINKS * 460 := by
    refine (sum_map_le fun link hlink => ?_).trans (Nat.mul_le_mul_right _ hlinks)
    obtain ⟨s, hs, hlink⟩ := List.mem_flatMap.mp hlink
    exact (hsnapshots s hs).linkUnits link hlink
  have hrefUnits : ((refsOf out).map refUnits).sum ≤ 3 * BROWSER_RESULT_MAX_REFS * 900 := by
    refine (sum_map_le fun ref hmem => ?_).trans (Nat.mul_le_mul_right _ hrefsAll)
    rcases List.mem_append.mp hmem with hmem | hmem
    · obtain ⟨s, hs, hmem⟩ := List.mem_flatMap.mp hmem
      exact (hsnapshots s hs).refUnits ref hmem
    · exact href ref hmem
  refine ⟨hlinks, hrefsAll, hforms, hfields, ?_⟩
  simp only [BROWSER_RESULT_MAX_TEXT_CHARS, BROWSER_RESULT_MAX_LINKS, BROWSER_RESULT_MAX_REFS] at *
  unfold cutUnits
  omega

theorem resultBounds_of_kept {given out : Value} (h : ResultKept given out) : ResultBounds out := by
  obtain ⟨hrefs, href⟩ := length_le_of_listKept h.refs
  obtain ⟨hforms, hform⟩ := length_le_of_listKept h.forms
  refine resultBounds_of_parts (fun s hs => ?_) hrefs (fun ref hr => ?_) hforms fun form hf => ?_
  · obtain ⟨key, hkey, hget⟩ := List.mem_filterMap.mp hs
    have hkept := h.snapshot key hkey
    cases hgiven : given.get? key with
    | none =>
      rw [hgiven] at hkept
      rw [hkept] at hget
      cases hget
    | some snapshot =>
      rw [hgiven] at hkept
      obtain ⟨kept, hhanded, hkept⟩ := hkept
      rw [hhanded] at hget
      cases hget
      exact snapshotBounds_of_kept hkept
  · obtain ⟨entry, hentry⟩ := href ref hr
    exact ownRefUnits_le hentry
  · obtain ⟨entry, hentry⟩ := hform form hf
    exact compactForm_bound hentry

/-- A list of the result and one of its snapshot have each their own bound. -/
example : compactBrowserToolResult (.obj [("snapshot", .obj [("refs", .arr (List.replicate 70 (.str "e")))]),
      ("refs", .arr (List.replicate 70 (.str "e")))]) =
    .ok (.obj [("snapshot", .obj [("refs", .arr (List.replicate 60 (.str "e")))]),
      ("refs", .arr (List.replicate 60 (.str "e")))]) := by
  rfl

end Bounds

end Compact

end T560.Tools
