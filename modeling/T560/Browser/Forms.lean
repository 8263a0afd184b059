import T560.Js.PropertyMap

/-!
# Forms of a page

The fetch engine keeps the forms of a page as it read them, and beside them what the fields are to
be sent with: a record for each form, by field name. A field is filled by its ref, and the ref leads
back to the field by name.
-/

namespace T560.Browser

open Js (Runtime PropertyMap trim)

variable (rt : Runtime)

structure BrowserLink where
  index : Nat
  text : String
  url : String
  deriving DecidableEq

structure BrowserFormField where
  name : String
  type : String
  value : String
  required : Bool
  deriving DecidableEq

inductive FormMethod where
  | get
  | post
  deriving DecidableEq

structure BrowserForm where
  index : Nat
  method : FormMethod
  action : String
  fields : List BrowserFormField
  deriving DecidableEq

inductive RefKind where
  | link
  | form
  | field
  | submit
  deriving DecidableEq

structure BrowserElementRef where
  ref : String
  kind : RefKind
  role : String
  name : String
  url : Option String := none
  formIndex : Option Nat := none
  fieldName : Option String := none
  method : Option FormMethod := none
  deriving DecidableEq

/-- The rows of field values, by form index. -/
abbrev FormValues := List (Nat × PropertyMap String)

/-- What the fetch engine knows of a tab's page; there are no refs before the first snapshot. -/
structure FormTab where
  forms : List BrowserForm
  formValues : FormValues
  refs : Option (List BrowserElementRef)

def FormValues.put (values : FormValues) (index : Nat) (row : PropertyMap String) : FormValues :=
  (index, row) :: values.filter fun entry => entry.1 ≠ index

def defaultRow (fields : List BrowserFormField) : PropertyMap String :=
  fields.foldl (fun row field => row.put field.name field.value) []

def buildDefaultFormValues (forms : List BrowserForm) : FormValues :=
  forms.foldl (fun values form => FormValues.put values form.index (defaultRow form.fields)) []

/-- The text of what every object answers to by a name that it has no property for. -/
def inheritedText (name : String) : Option String :=
  if name = "__proto__" then some "[object Object]"
  else if name = "constructor" then some "function Object() { [native code] }"
  else if name ∈ ["__defineGetter__", "__defineSetter__", "hasOwnProperty", "__lookupGetter__",
      "__lookupSetter__", "isPrototypeOf", "propertyIsEnumerable", "toString", "valueOf",
      "toLocaleString"] then
    some ("function " ++ name ++ "() { [native code] }")
  else none

/-- `row[name]` as a text. -/
def readRow (row : PropertyMap String) (name : String) : Option String :=
  (row.lookup name).or (inheritedText name)

def collectFormPayload (formValues : FormValues) (form : BrowserForm) : List (String × String) :=
  let overrides := (formValues.lookup form.index).getD []
  (form.fields.filter fun field => field.name ≠ "").map fun field =>
    (field.name, (readRow overrides field.name).getD field.value)

def fieldRole (field : BrowserFormField) : String :=
  let type := rt.toLowerCase field.type
  if type = "checkbox" then "checkbox"
  else if type = "radio" then "radio"
  else if type = "select" then "combobox"
  else if type = "textarea" then "textbox"
  else "textbox"

def fieldDisplayName (formIndex : Nat) (field : BrowserFormField) : String :=
  let label := if field.name = "" then field.type ++ " field" else field.name
  "form " ++ toString formIndex ++ ": " ++ label

def FormMethod.upper : FormMethod → String
  | .get => "GET"
  | .post => "POST"

def linkElement (link : BrowserLink) : BrowserElementRef where
  ref := ""
  kind := .link
  role := "link"
  name := link.text
  url := some link.url

def formElements (form : BrowserForm) : List BrowserElementRef :=
  { ref := "", kind := .form, role := "form",
    name := "form " ++ toString form.index ++ " (" ++ form.method.upper ++ " " ++ form.action ++ ")",
    formIndex := some form.index, method := some form.method, url := some form.action } ::
  form.fields.map (fun field =>
    { ref := "", kind := .field, role := fieldRole rt field, name := fieldDisplayName form.index field,
      formIndex := some form.index, fieldName := some field.name }) ++
  [{ ref := "", kind := .submit, role := "button", name := "submit form " ++ toString form.index,
     formIndex := some form.index, method := some form.method, url := some form.action }]

/-- The elements are numbered in the order in which they are pushed. -/
def numbered (elements : List BrowserElementRef) : List BrowserElementRef :=
  elements.zipIdx.map fun (element, index) => { element with ref := "e" ++ toString (index + 1) }

def buildSnapshotRefs (links : List BrowserLink) (forms : List BrowserForm) : List BrowserElementRef :=
  numbered (links.map linkElement ++ forms.flatMap (formElements rt))

/-- What a snapshot leaves in the tab. -/
def captureForms (links : List BrowserLink) (forms : List BrowserForm) : FormTab where
  forms := forms
  formValues := buildDefaultFormValues forms
  refs := some (buildSnapshotRefs rt links forms)

def resolveSnapshotRef (tab : FormTab) (refRaw : String) : Except String (Option BrowserElementRef) :=
  let wanted := rt.toLowerCase (trim refRaw)
  if wanted = "" then .ok none
  else
    match tab.refs with
    | none => .error "no snapshot available for ref lookup. run snapshot first."
    | some refs =>
      match refs.find? fun entry => rt.toLowerCase entry.ref = wanted with
      | none => .error ("ref not found: " ++ wanted)
      | some found => .ok (some found)

/-- The form index is 1 when it is not given. -/
def resolveForm (tab : FormTab) (formIndex : Option Nat) (refRaw : String) : Except String BrowserForm := do
  if tab.forms = [] then throw "no forms available. run snapshot on a page containing a form."
  let byRef ← resolveSnapshotRef rt tab refRaw
  let index := (byRef.bind fun found => found.formIndex).getD (formIndex.getD 1)
  match tab.forms.find? fun entry => entry.index = index with
  | none => throw ("form index " ++ toString index ++ " not found.")
  | some form => return form

def resolveFormField (tab : FormTab) (form : BrowserForm) (fieldNameRaw refRaw : String) :
    Except String BrowserFormField := do
  match ← resolveSnapshotRef rt tab refRaw with
  | some byRef =>
    if byRef.kind ≠ .field then throw ("ref " ++ byRef.ref ++ " is not an input field.")
    if byRef.fieldName.getD "" = "" ∨ byRef.formIndex ≠ some form.index then
      throw ("ref " ++ byRef.ref ++ " does not belong to form " ++ toString form.index ++ ".")
    match form.fields.find? fun entry => byRef.fieldName = some entry.name with
    | none => throw ("field from ref " ++ byRef.ref ++ " is no longer available.")
    | some field => return field
  | none =>
    let fieldName := trim fieldNameRaw
    if fieldName = "" then throw "fieldName is required (or provide a field ref)."
    match (form.fields.find? fun entry => entry.name = fieldName).or
        (form.fields.find? fun entry => rt.toLowerCase entry.name = rt.toLowerCase fieldName) with
    | none =>
      throw ("field \"" ++ fieldName ++ "\" not found on form " ++ toString form.index ++ ".")
    | some field => return field

/-- The `fill` action of the fetch engine on a tab with a snapshot. -/
def fill (tab : FormTab) (formIndex : Option Nat) (fieldName refRaw value : String) :
    Except String FormTab := do
  let form ← resolveForm rt tab formIndex refRaw
  let field ← resolveFormField rt tab form fieldName refRaw
  let row := (tab.formValues.lookup form.index).getD []
  return { tab with
    formValues := FormValues.put tab.formValues form.index (row.put field.name value) }

end T560.Browser
