import T560.Js.Ascii
import T560.Js.Path
import T560.Memory.Reads

/-!
# The documents of the workspace

Besides the store, `memory_search` searches the memory files of the workspace and refers to what
it finds by path and line. `memory_get` takes such a reference apart and reads the lines around it.
-/

namespace T560.Memory

open Js (Value JsError Units Path.resolve Path.relative Path.join Path.isAbsolute Path.basename trim
  normalizeLineBreaks isLineTerminator startsWith endsWith includes)
open Js.Value (trimmedText coalesce)

def MAX_FILE_SCAN : Nat := 200
def MAX_MEMORY_FILE_BYTES : Nat := 1000000
def DEFAULT_CONTEXT_LINES : Int := 3

def SURROUNDING_FILENAMES : List String :=
  ["AGENTS.md", "SOUL.md", "TOOLS.md", "IDENTITY.md", "USER.md", "HEARTBEAT.md", "BOOTSTRAP.md",
    "README.md"]

section Disk

/-- The name of a directory entry. -/
structure FileName where
  text : String
  no_slash : '/' ∉ text.toList

/-- An entry of a directory as `readdir` shows it: a link is neither a file nor a directory, and a
directory may be unreadable. -/
inductive DirEntry where
  | file
  | directory (listing : Option (List (FileName × DirEntry)))
  | other

abbrev Listing := Option (List (FileName × DirEntry))

structure FileStat where
  isFile : Bool
  size : Nat

/-- What `stat` says of the paths that exist, the texts of the files, and the directory of memory
files. -/
structure Disk where
  stat : String → Option FileStat
  readFile : String → String
  memory : Listing

/-- What the documents need beyond the store: the working directory of the process, the directory
of the workspace, and `localeCompare`. -/
structure DocumentEnv extends ReadEnv where
  processCwd : String
  workspaceOption : String
  byLocale : List String → List String
  byLocale_perm : ∀ paths, (byLocale paths).Perm paths

end Disk

variable (env : DocumentEnv)

def DocumentEnv.workspaceDir : String := Path.resolve env.processCwd [env.workspaceOption]

section Paths

def normalizeRelativePath (workspaceDir targetPath : String) : String :=
  String.ofList ((Path.relative env.processCwd workspaceDir targetPath).toList.map fun c =>
    if c = '\\' then '/' else c)

/-- The path of the target from the workspace, when it is inside. -/
def pathInWorkspace (workspaceDir targetPath : String) : Option String :=
  let relative := normalizeRelativePath env (Path.resolve env.processCwd [workspaceDir])
    (Path.resolve env.processCwd [targetPath])
  if relative = "" || startsWith ".." relative || Path.isAbsolute relative then none
  else some relative

def isMemoryFilePath (workspaceDir targetPath : String) : Bool :=
  (pathInWorkspace env workspaceDir targetPath).any fun relative =>
    let lowered := env.rt.toLowerCase relative
    lowered = "memory.md" || (startsWith "memory/" lowered && endsWith ".md" lowered)

def isSurroundingFilePath (workspaceDir targetPath : String) : Bool :=
  (pathInWorkspace env workspaceDir targetPath).any fun relative =>
    '/' ∉ relative.toList && relative ∈ SURROUNDING_FILENAMES

def isMemorySourceFilePath (workspaceDir targetPath : String) : Bool :=
  isMemoryFilePath env workspaceDir targetPath || isSurroundingFilePath env workspaceDir targetPath

/-- Files that hold credentials. -/
def isSensitivePath (targetPath workspaceDir : String) : Bool :=
  let resolved := Path.resolve env.processCwd [targetPath]
  let relative := Path.relative env.processCwd (Path.resolve env.processCwd [workspaceDir]) resolved
  if relative ≠ "" && startsWith ".." relative then false
  else if includes resolved "/.t560-secure/" || endsWith "/.t560-secure" resolved then true
  else
    let baseName := env.rt.toLowerCase (Path.basename resolved)
    baseName = ".env" || startsWith ".env." baseName || baseName = "credentials.v1.enc"

end Paths

section Collect
variable (disk : Disk)

def addIfMemoryFile (root candidate : String) (found : List String) : List String :=
  if !isMemorySourceFilePath env root candidate then found
  else if isSensitivePath env candidate root then found
  else
    match disk.stat candidate with
    | none => found
    | some info =>
      if !info.isFile then found
      else
        let resolved := Path.resolve env.processCwd [candidate]
        if resolved ∈ found then found else found ++ [resolved]

/-- The loop over the entries of a directory, with the files found and the directories that are
still to be read, the next one first. -/
def scanEntries (root current : String) : List (FileName × DirEntry) → List String →
    List (String × Listing) → List String × List (String × Listing)
  | [], found, stack => (found, stack)
  | (name, entry) :: rest, found, stack =>
    if MAX_FILE_SCAN ≤ found.length then (found, stack)
    else if name.text = "" || startsWith "." name.text then scanEntries root current rest found stack
    else
      let path := Path.join [current, name.text]
      match entry with
      | .directory listing => scanEntries root current rest found ((path, listing) :: stack)
      | .other => scanEntries root current rest found stack
      | .file =>
        if !endsWith ".md" (env.rt.toLowerCase name.text) then
          scanEntries root current rest found stack
        else scanEntries root current rest (addIfMemoryFile env disk root path found) stack

/-- What is put on the stack is smaller than the listing it was taken from. -/
theorem stackSize_scanEntries (root current : String) (entries : List (FileName × DirEntry))
    (found : List String) (stack : List (String × Listing)) :
    ((scanEntries env disk root current entries found stack).2.map fun d => sizeOf d.2).sum ≤
      (stack.map fun d => sizeOf d.2).sum + sizeOf entries := by
  induction entries generalizing found stack with
  | nil => exact Nat.le_add_right _ _
  | cons first rest ih =>
    obtain ⟨name, entry⟩ := first
    have hskip : ∀ found', ((scanEntries env disk root current rest found' stack).2.map
        fun d => sizeOf d.2).sum ≤
          (stack.map fun d => sizeOf d.2).sum + sizeOf ((name, entry) :: rest) := by
      intro found'
      have hrest := ih found' stack
      rw [List.cons.sizeOf_spec]
      omega
    unfold scanEntries
    split
    · exact Nat.le_add_right _ _
    · split
      · exact hskip found
      · cases entry with
        | directory listing =>
          have hrest := ih found ((Path.join [current, name.text], listing) :: stack)
          rw [List.map_cons, List.sum_cons] at hrest
          rw [List.cons.sizeOf_spec, Prod.mk.sizeOf_spec, DirEntry.directory.sizeOf_spec]
          dsimp only at hrest ⊢
          omega
        | other => exact hskip found
        | file =>
          dsimp only
          split
          · exact hskip found
          · exact hskip _

def scanDirectories (root : String) (stack : List (String × Listing)) (found : List String) :
    List String :=
  match stack with
  | [] => found
  | (current, listing) :: stack =>
    if MAX_FILE_SCAN ≤ found.length then found
    else
      match listing with
      | none => scanDirectories root stack found
      | some entries =>
        scanDirectories root (scanEntries env disk root current entries found stack).2
          (scanEntries env disk root current entries found stack).1
termination_by (stack.map fun d => sizeOf d.2).sum
decreasing_by
  · rw [List.map_cons, List.sum_cons, Option.none.sizeOf_spec]
    omega
  · have hsize := stackSize_scanEntries env disk root current entries found stack
    rw [List.map_cons, List.sum_cons, Option.some.sizeOf_spec]
    omega

def collectMemoryFiles (includeSurrounding : Bool) : List String :=
  let root := Path.resolve env.processCwd [env.workspaceDir]
  let add := fun found name => addIfMemoryFile env disk root (Path.join [root, name]) found
  let found := add (add [] "MEMORY.md") "memory.md"
  let found := if includeSurrounding then SURROUNDING_FILENAMES.foldl add found else found
  let memoryDir := Path.join [root, "memory"]
  env.byLocale (if (disk.stat memoryDir).isSome then
    scanDirectories env disk root [(memoryDir, disk.memory)] found else found)

end Collect

section Search
variable (disk : Disk)

def buildFileContextSnippet (lines : List String) (lineIndex contextLines : Nat) : String :=
  let start := lineIndex - contextLines
  let end_ := min lines.length (lineIndex + contextLines + 1)
  trim (String.intercalate "\n" ((List.range' start (end_ - start)).map fun idx =>
    toString (idx + 1) ++ ": " ++ lines.getD idx ""))

/-- A line that matches, with its index. -/
def SearchRequest.matchesLine (r : SearchRequest) (row : String × Nat) : Bool :=
  trim row.1 ≠ "" && 0 < computeScore env.rt row.1 r.query (r.tokens env.toReadEnv)

def SearchRequest.lineScore (r : SearchRequest) (row : String × Nat) : Int :=
  computeScore env.rt row.1 r.query (r.tokens env.toReadEnv)

/-- The matching lines of a file, the best first. -/
def SearchRequest.perFileMatches (r : SearchRequest) (lines : List String) :
    List (String × Nat) :=
  (lines.zipIdx.filter (r.matchesLine env)).mergeSort fun a b =>
    r.lineScore env b < r.lineScore env a ||
      (r.lineScore env a = r.lineScore env b && a.2 ≤ b.2)

def fileRef (path : String) (line : Nat) : String := "file:" ++ path ++ "#L" ++ toString line

def SearchRequest.fileHit (r : SearchRequest) (relativePath : String) (lines : List String)
    (row : String × Nat) : FileSearchHit where
  ref := fileRef relativePath (row.2 + 1)
  path := relativePath
  line := row.2 + 1
  preview := compactPreview (buildFileContextSnippet lines row.2 DEFAULT_CONTEXT_LINES.toNat) 320
  score := r.lineScore env row + 6
  exactMatch := r.query ≠ "" && includes (env.rt.toLowerCase row.1) r.query
  matchedTokens := countMatchedTokens env.rt row.1 (r.tokens env.toReadEnv)

/-- The hits of one file. -/
def SearchRequest.searchFile (r : SearchRequest) (filePath : String) : List FileSearchHit :=
  match disk.stat filePath with
  | none => []
  | some info =>
    if !info.isFile || MAX_MEMORY_FILE_BYTES < info.size then []
    else
      let lines := normalizeLineBreaks (disk.readFile filePath)
      let relativePath := normalizeRelativePath env env.workspaceDir filePath
      ((r.perFileMatches env lines).take 2).map (r.fileHit env relativePath lines)

/-- The hits in the memory files, and the number of these files. -/
def searchMemoryFiles (r : SearchRequest) : List FileSearchHit × Nat :=
  let files := collectMemoryFiles env disk r.includeSurrounding
  (files.flatMap (r.searchFile env disk), files.length)

end Search

section Get
variable (disk : Disk)

/-- What may stand behind a path: nothing, or `#L` and digits. -/
def lineSuffix : List Char → Option (List Char)
  | [] => some []
  | '#' :: 'L' :: digits => if digits ≠ [] && digits.all Js.isDigit then some digits else none
  | _ => none

/-- `/^(.*?)(?:#L(\d+))?$/`: the shortest front without a line terminator that such a suffix
follows, and the digits. -/
def splitRef (front : List Char) : List Char → Option (List Char × List Char)
  | [] => some (front, [])
  | c :: rest =>
    match lineSuffix (c :: rest) with
    | some digits => some (front, digits)
    | none => if isLineTerminator c then none else splitRef (front ++ [c]) rest

structure FileRef where
  path : String
  line : Option Int

def parseFileRef (ref : String) : Except JsError (Option FileRef) :=
  let trimmed := trim ref
  if !startsWith "file:" trimmed then .ok none
  else
    match splitRef [] (trimmed.toList.drop 5) with
    | none => .ok none
    | some (front, digits) =>
      let filePath := trim (String.ofList front)
      if filePath = "" then .ok none
      else if digits = [] then .ok (some ⟨filePath, none⟩)
      else do
        let line ← clampInt env.rt (some (.str (String.ofList digits))) 1 1000000 1
        return some ⟨filePath, some line⟩

structure DocumentReport where
  ref : String
  path : String
  lineStart : Int
  lineEnd : Int
  content : Units
  truncated : Bool

structure DocumentRequest where
  rawPath : String
  line : Int

/-- The path and the line that `memory_get` is asked for. -/
def readDocument (params : Value) (ref : String) : Except JsError DocumentRequest := do
  let pathFromRef ← parseFileRef env ref
  let rawPath ← trimmedText env.rt [params.get? "path", pathFromRef.map (.str ·.path)]
  let line ← clampInt env.rt (coalesce [params.get? "line",
    (pathFromRef.bind (·.line)).map fun line => .num (.fin line)]) 1 1000000 1
  return ⟨rawPath, line⟩

/-- The lines of a document around the line. -/
def documentReport (absolutePath : String) (line contextLines maxChars : Int) : DocumentReport :=
  let lines := normalizeLineBreaks (disk.readFile absolutePath)
  let lineIndex := max 0 (min (lines.length - 1 : Int) (line - 1))
  let clipped := clipText (buildFileContextSnippet lines lineIndex.toNat contextLines.toNat)
    maxChars.toNat
  let relativePath := normalizeRelativePath env env.workspaceDir absolutePath
  { ref := fileRef relativePath (lineIndex.toNat + 1)
    path := relativePath
    lineStart := max 1 (lineIndex + 1 - contextLines)
    lineEnd := min lines.length (lineIndex + 1 + contextLines)
    content := clipped.1
    truncated := clipped.2 }

/-- The rest of `memory_get` when it is asked for a document. -/
def getDocument (params : Value) (r : GetRequest) : Except SaveError DocumentReport :=
  match clampInt env.rt (params.get? "contextLines") 0 20 DEFAULT_CONTEXT_LINES,
    readDocument env params r.ref with
  | .error e, _ | _, .error e => .error (.conversion e)
  | .ok contextLines, .ok request =>
    if request.rawPath = "" then .error (.rejected "Provide one of: ref, id, or path.")
    else
      let absolutePath := Path.resolve env.processCwd [env.workspaceDir, request.rawPath]
      if !isMemorySourceFilePath env env.workspaceDir absolutePath then
        .error (.rejected ("memory_get path must target memory docs (MEMORY.md, memory.md, " ++
          "memory/*.md) or surrounding context files (AGENTS.md, USER.md, SOUL.md, TOOLS.md, " ++
          "IDENTITY.md, HEARTBEAT.md, BOOTSTRAP.md, README.md)."))
      else if isSensitivePath env absolutePath env.workspaceDir then
        .error (.rejected "Access to sensitive credential files is blocked.")
      else
        match disk.stat absolutePath with
        | none => .error (.rejected ("Memory file not found: " ++ request.rawPath))
        | some info =>
          if !info.isFile then .error (.rejected "EISDIR: illegal operation on a directory, read")
          else .ok (documentReport env disk absolutePath request.line contextLines r.maxChars)

/-- What `memory_get` returns. -/
inductive GetOutcome where
  | store (report : GetReport)
  | document (report : DocumentReport)

/-- `memory_get` with the documents of the workspace: its result and the store it leaves. -/
def memoryGetRef (call : GetCall) (file : Option String) :
    Except SaveError (GetOutcome × Option String) :=
  match memoryGet env.toReadEnv call file, readGet env.toReadEnv call.params with
  | .error e, _ => .error e
  | .ok (.store report, after), _ => .ok (.store report, after)
  | .ok (.document, _), .error e => .error (.conversion e)
  | .ok (.document, after), .ok r =>
    (getDocument env disk call.params r).map fun report => (.document report, after)

end Get

end T560.Memory
