import Mathlib.Data.List.Dedup
import T560.Foundation.Pattern
import T560.Memory.Store

/-!
# What `memory_save` reads out of texts

Titles and tokens that decide which entry a save updates, the contradictions it reports, and
the test for secrets.
-/

namespace T560.Memory

open Js (Runtime trim isSpace collapse replaceRuns includes)
open Foundation (Pattern isWordChar wordAt)

section Tokens

def isLowerAlnum (c : Char) : Bool :=
  (97 ≤ c.toNat && c.toNat ≤ 122) || (48 ≤ c.toNat && c.toNat ≤ 57)

variable (rt : Runtime)

def normalizeTitleKey (value : String) : String :=
  trim (String.ofList (replaceRuns (fun c => !isLowerAlnum c) ' ' false (rt.toLowerCase value).toList))

def TOKEN_ALIASES : List (String × String) :=
  [("automate", "automation"), ("automating", "automation"), ("automation", "automation"),
    ("deploy", "deployment"), ("deploying", "deployment"), ("deployment", "deployment"),
    ("auth", "authentication"), ("authenticate", "authentication"),
    ("authentication", "authentication"), ("prefs", "preference"), ("prefer", "preference"),
    ("preferred", "preference"), ("like", "preference"), ("likes", "preference"),
    ("pipeline", "workflow"), ("pipelines", "workflow")]

def dropEnd (s : String) (n : Nat) : String := String.ofList (s.toList.take (s.length - n))

/-- The alias table is an object, so `constructor` finds an inherited function in it; its
`length` is 1, and every caller drops it. -/
def canonicalizeToken (raw : String) : Option String :=
  match TOKEN_ALIASES.lookup raw with
  | some canonical => some canonical
  | none =>
    if raw = "constructor" then none
    else if raw.endsWith "ing" && 5 < raw.length then some (dropEnd raw 3)
    else if raw.endsWith "ed" && 4 < raw.length then some (dropEnd raw 2)
    else if raw.endsWith "s" && 3 < raw.length then some (dropEnd raw 1)
    else some raw

/-- The maximal runs of lower-case letters and digits. -/
def alnumWords (value : String) : List String :=
  (((rt.toLowerCase value).toList.splitOnP fun c => !isLowerAlnum c).map String.ofList)

/-- The set of tokens, as a list without repetitions. -/
def tokenizeForSimilarity (value : String) : List String :=
  (((((alnumWords rt value).filterMap canonicalizeToken).filter fun t => 2 < t.length).take 80)).dedup

end Tokens

def jaccardSimilarity (left right : List String) : ℚ :=
  if left.isEmpty || right.isEmpty then 0
  else
    let intersection := (left.filter right.contains).length
    let union := left.length + right.length - intersection
    if union = 0 then 0 else (intersection : ℚ) / union

section Conflicts
variable (rt : Runtime)

def normalizeComparablePhrase (value : String) : String :=
  trim (collapse (String.ofList ((rt.toLowerCase value).toList.map fun c =>
    if isWordChar c || isSpace c || c == '-' then c else ' ')))

/-- What stands behind the first of the phrases and a blank, up to 120 characters. The text is
a comparable phrase, so every run of white space in it is one blank. -/
def targetBehind (phrases : List String) : Option Char → List Char → Option String
  | _, [] => none
  | prev, c :: cs =>
    let behind := phrases.findSome? fun phrase =>
      let start := phrase.toList ++ [' ']
      if !wordAt prev && start.isPrefixOf (c :: cs) && 2 ≤ ((c :: cs).drop start.length).length then
        some (String.ofList (((c :: cs).drop start.length).take 120))
      else none
    behind.or (targetBehind phrases (some c) cs)

def PREFERENCE_VERBS : List String :=
  ["prefer", "prefers", "preferred", "like", "likes", "liked", "love", "loves", "loved", "use",
    "uses", "used"]

def extractPreferenceTarget (content : String) : String :=
  let source := normalizeComparablePhrase rt content
  match (targetBehind PREFERENCE_VERBS none source.toList).or
      (targetBehind ["switched to", "moved to"] none source.toList) with
  | some target => normalizeComparablePhrase rt target
  | none => ""

def negativePreference : Pattern :=
  .concat [.boundary, .oneOf (["dislike", "dislikes", "disliked", "hate", "hates", "hated", "avoid",
    "avoids", "avoided", "no longer", "stopped using", "switched from"].map .text), .boundary]

def hasNegativePreferenceSignal (content : String) : Bool :=
  negativePreference.test (normalizeComparablePhrase rt content)

def detectConflictReason (existingContent incomingContent : String) : Option String :=
  let existing := normalizeComparablePhrase rt existingContent
  let incoming := normalizeComparablePhrase rt incomingContent
  if existing = "" || incoming = "" then none
  else if existing = incoming || includes existing incoming || includes incoming existing then none
  else
    let existingTarget := extractPreferenceTarget rt existing
    let incomingTarget := extractPreferenceTarget rt incoming
    let targetsDiffer := existingTarget ≠ "" && incomingTarget ≠ "" && existingTarget ≠ incomingTarget
    let overlap := fun a b => jaccardSimilarity (tokenizeForSimilarity rt a) (tokenizeForSimilarity rt b)
    if targetsDiffer && (includes existingTarget incomingTarget || includes incomingTarget existingTarget)
    then none
    else if targetsDiffer && overlap existingTarget incomingTarget < 75 / 100 then
      some ("Preference target changed from \"" ++ existingTarget ++ "\" to \"" ++ incomingTarget ++ "\".")
    else if hasNegativePreferenceSignal rt existing ≠ hasNegativePreferenceSignal rt incoming then
      some "Preference polarity appears to have changed (positive vs negative)."
    else if overlap existing incoming ≤ 25 / 100 then
      some "New memory content diverges strongly from the existing entry."
    else none

structure MemoryConflictHint where
  id : String
  title : String
  reason : String
  similarity : ℚ

/-- `toFixed3` stands for `Number(x.toFixed(3))`. -/
def conflictHint (toFixed3 : ℚ → ℚ) (title content : String) (entry : MemoryStoreEntry) :
    Option MemoryConflictHint :=
  let sameTitle := normalizeTitleKey rt entry.title = normalizeTitleKey rt title
  let similarity := jaccardSimilarity (tokenizeForSimilarity rt (title ++ "\n" ++ content))
    (tokenizeForSimilarity rt (entry.title ++ "\n" ++ entry.content))
  if !sameTitle && similarity < 65 / 100 then none
  else (detectConflictReason rt entry.content content).map fun reason =>
    ⟨entry.id, entry.title, reason, toFixed3 similarity⟩

def findPotentialConflicts (toFixed3 : ℚ → ℚ) (entries : List MemoryStoreEntry)
    (title content : String) : List MemoryConflictHint :=
  ((entries.filterMap (conflictHint rt toFixed3 title content)).mergeSort
    fun a b => b.similarity ≤ a.similarity).take 8

/-- The entry with the best score of at least 0.72 so far, and that score. -/
def bestMatch (incomingTokens : List String) (best : Option (MemoryStoreEntry × ℚ))
    (entry : MemoryStoreEntry) : Option (MemoryStoreEntry × ℚ) :=
  let score := jaccardSimilarity incomingTokens
    (tokenizeForSimilarity rt (entry.title ++ "\n" ++ entry.content))
  if score < 72 / 100 then best
  else
    match best with
    | none => some (entry, score)
    | some (_, top) => if top < score then some (entry, score) else best

def pickStoreEntryForUpsert (entries : List MemoryStoreEntry) (title content : String) :
    Option MemoryStoreEntry :=
  let titleKey := normalizeTitleKey rt title
  if titleKey = "" then none
  else
    match entries.find? fun entry => normalizeTitleKey rt entry.title = titleKey with
    | some byTitle => some byTitle
    | none =>
      let incomingTokens := tokenizeForSimilarity rt (title ++ "\n" ++ content)
      if incomingTokens.isEmpty then none
      else (entries.foldl (bestMatch rt incomingTokens) none).map Prod.fst

end Conflicts

section Secrets

def isUpperAlnum (c : Char) : Bool :=
  (65 ≤ c.toNat && c.toNat ≤ 90) || (48 ≤ c.toNat && c.toNat ≤ 57)

def isAlnum (c : Char) : Bool := isUpperAlnum c || (97 ≤ c.toNat && c.toNat ≤ 122)

def exactly (n : Nat) (p : Char → Bool) : Pattern := .concat (List.replicate n (.char p))

def atLeast (n : Nat) (p : Char → Bool) : Pattern := .seq (exactly n p) (.run p none)

/-- A word of a known start and a tail of characters. -/
def keyPattern (start : List Pattern) (tail : Pattern) : Pattern :=
  .concat ([.boundary] ++ start ++ [tail, .boundary])

def isOneOf (s : String) (c : Char) : Bool := s.toList.contains c

def isTokenChar (c : Char) : Bool := isAlnum c || c == '_' || c == '-'

def secretPatterns : List Pattern :=
  [.concat [.literal "-----BEGIN ", .run (fun c => (65 ≤ c.toNat && c.toNat ≤ 90) || c == ' ') none,
      .literal "PRIVATE KEY-----"],
    keyPattern [.oneOf [.literal "sk", .literal "pk"], .literal "_"] (atLeast 16 isAlnum),
    keyPattern [.literal "gh", .char (isOneOf "pousr"), .literal "_"] (atLeast 20 isAlnum),
    keyPattern [.literal "AKIA"] (exactly 16 isUpperAlnum),
    keyPattern [.literal "ASIA"] (exactly 16 isUpperAlnum),
    keyPattern [.literal "xox", .char (isOneOf "baprs"), .literal "-"]
      (atLeast 10 fun c => isAlnum c || c == '-'),
    keyPattern [.literal "AIza"] (atLeast 30 isTokenChar),
    keyPattern [.literal "eyJ", atLeast 10 isTokenChar, .literal ".", atLeast 10 isTokenChar, .literal "."]
      (atLeast 10 isTokenChar)]

def longWordPattern : Pattern := keyPattern [] (atLeast 32 fun c => isAlnum c || isOneOf "+/_=-" c)

def secretNamePattern : Pattern :=
  keyPattern [] (.oneOf ([.text "secret", .text "token", .text "password",
    .concat [.text "api", .opt (.char (isOneOf "-_ ")), .text "key"], .text "passcode"]))

def containsLikelySecret (source : String) : Bool :=
  trim source ≠ "" &&
    (secretPatterns.any (·.test source) ||
      (longWordPattern.test source && secretNamePattern.test source))

end Secrets

end T560.Memory
