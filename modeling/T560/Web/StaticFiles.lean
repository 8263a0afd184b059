import Mathlib.Data.List.Chain
import T560.Js.Text
import T560.Js.Ascii
import T560.Js.PlacedPath

/-! The files of the built user interface: no request opens one outside its directory. -/
namespace T560.Web

open Js (Runtime replaceRuns)
open Js.Path (join extname isAbsolute Below below_of_leads exists_leads_join)

def MIME_TYPES : List (String × String) :=
  [(".html", "text/html; charset=utf-8"),
    (".css", "text/css; charset=utf-8"),
    (".js", "application/javascript; charset=utf-8"),
    (".json", "application/json; charset=utf-8"),
    (".svg", "image/svg+xml"),
    (".png", "image/png"),
    (".jpg", "image/jpeg"),
    (".jpeg", "image/jpeg"),
    (".ico", "image/x-icon"),
    (".woff", "font/woff"),
    (".woff2", "font/woff2"),
    (".ttf", "font/ttf"),
    (".map", "application/json")]

def SECURITY_HEADERS : List (String × String) :=
  [("X-Frame-Options", "DENY"), ("X-Content-Type-Options", "nosniff"),
    ("Referrer-Policy", "no-referrer")]

inductive Stat where
  | file
  | directory
  | other
  deriving DecidableEq

/-- What the disk answers; a call that throws has no answer, and the first and the second `stat`
of a request need not agree. -/
structure Disk where
  statSync : String → Option Stat
  statSyncAgain : String → Option Stat
  readFileSync : String → Option (List UInt8)

structure StaticResponse where
  statusCode : Option Nat := none
  headers : List (String × String) := []
  body : Option (List UInt8) := none

/-- The paths handed to the disk, the response, and whether the request was served. -/
structure Served where
  opened : List String
  response : StaticResponse := {}
  served : Bool := false

/-- `text.replace(/\.\./g, "")`. -/
def withoutDotPairs : List Char → List Char
  | [] => []
  | [c] => [c]
  | a :: b :: rest =>
    if a = '.' ∧ b = '.' then withoutDotPairs rest else a :: withoutDotPairs (b :: rest)

/-- The dots are dropped, the slashes squeezed, and those in front taken off. -/
def safePath (pathname : String) : String :=
  String.ofList
    ((replaceRuns (· = '/') '/' false (withoutDotPairs pathname.toList)).dropWhile (· = '/'))

def contentType (rt : Runtime) (filePath : String) : String :=
  (MIME_TYPES.lookup (rt.toLowerCase (extname filePath))).getD "application/octet-stream"

def serveStaticFile (rt : Runtime) (disk : Disk) (uiRoot pathname : String) : Served :=
  let asked := join [uiRoot, safePath pathname]
  match disk.statSync asked with
  | none => { opened := [asked] }
  | some stat =>
    let filePath := if stat = .directory then join [asked, "index.html"] else asked
    if disk.statSyncAgain filePath ≠ some .file then { opened := [asked, filePath] }
    else
      let response : StaticResponse := {
        statusCode := some 200
        headers := SECURITY_HEADERS ++
          [("content-type", contentType rt filePath), ("cache-control", "no-cache")]
        body := disk.readFileSync filePath }
      -- The headers stay set when the file cannot be read.
      { opened := [asked, filePath, filePath], response, served := response.body.isSome }

section Dots

/-- Not two dots. -/
def NotBothDots (a b : Char) : Prop := ¬ (a = '.' ∧ b = '.')

theorem notBothDots_left {a : Char} (h : a ≠ '.') (b : Char) : NotBothDots a b :=
  fun hboth => h hboth.1

theorem head?_withoutDotPairs {c : Char} (hc : c ≠ '.') (rest : List Char) :
    (withoutDotPairs (c :: rest)).head? = some c := by
  cases rest with
  | nil => rfl
  | cons b rest =>
    rw [withoutDotPairs, if_neg (fun h => hc h.1)]
    rfl

/-- A dot that is kept has no dot behind it, in the text and so in the result. -/
theorem isChain_withoutDotPairs (text : List Char) :
    (withoutDotPairs text).IsChain NotBothDots := by
  induction text using withoutDotPairs.induct with
  | case1 => exact .nil
  | case2 c => exact .singleton c
  | case3 a b rest hdots ih =>
    rw [withoutDotPairs, if_pos hdots]
    exact ih
  | case4 a b rest hdots ih =>
    rw [withoutDotPairs, if_neg hdots]
    refine ih.cons ?_
    intro c hhead hboth
    have hb : b ≠ '.' := fun hb => hdots ⟨hboth.1, hb⟩
    rw [head?_withoutDotPairs hb, Option.mem_some_iff] at hhead
    exact hb (hhead.trans hboth.2)

/-- Squeezing slashes brings no dots together: a slash stays between them. -/
theorem isChain_replaceRuns {text : List Char} (squeezing : Bool) {prev : Char}
    (hprev : squeezing = true → prev = '/') (h : (prev :: text).IsChain NotBothDots) :
    (prev :: replaceRuns (· = '/') '/' squeezing text).IsChain NotBothDots := by
  have hslash : '/' ≠ '.' := by decide
  induction text generalizing squeezing prev with
  | nil => exact h
  | cons c text ih =>
    obtain ⟨hpair, htail⟩ := List.isChain_cons_cons.mp h
    by_cases hc : c = '/'
    · subst hc
      cases squeezing with
      | true =>
        obtain rfl := hprev rfl
        rw [replaceRuns, if_pos (by decide), if_pos rfl]
        exact ih true (fun _ => rfl) htail
      | false =>
        rw [replaceRuns, if_pos (by decide), if_neg Bool.false_ne_true]
        exact List.isChain_cons_cons.mpr ⟨hpair, ih true (fun _ => rfl) htail⟩
    · rw [replaceRuns, if_neg (by simpa using hc)]
      exact List.isChain_cons_cons.mpr ⟨hpair, ih false (fun h => by cases h) htail⟩

theorem isChain_safePath (pathname : String) :
    (safePath pathname).toList.IsChain NotBothDots := by
  have hfront : ('/' :: withoutDotPairs pathname.toList).IsChain NotBothDots :=
    (isChain_withoutDotPairs pathname.toList).cons fun c _ => notBothDots_left (by decide) c
  have hsqueezed := (isChain_replaceRuns false (fun h => by cases h) hfront).tail
  rw [safePath, String.toList_ofList]
  exact hsqueezed.suffix (List.dropWhile_suffix _)

theorem dots_notMem_safePath (pathname : String) :
    ['.', '.'] ∉ (safePath pathname).toList.splitOn '/' := by
  intro h
  rw [List.splitOn_eq_splitOnP] at h
  obtain ⟨front, back, hsplit⟩ := Words.infix_of_mem_splitOnP h
  have hchain := isChain_safePath pathname
  rw [← hsplit] at hchain
  have hpair := hchain.left_of_append.right_of_append
  exact (List.isChain_cons_cons.mp hpair).1 ⟨rfl, rfl⟩

theorem isAbsolute_safePath (pathname : String) : isAbsolute (safePath pathname) = false := by
  rw [safePath, Js.Path.isAbsolute_ofList]
  apply decide_eq_false
  intro hhead
  have hstop := List.head?_dropWhile_not (fun c : Char => decide (c = '/'))
    (replaceRuns (· = '/') '/' false (withoutDotPairs pathname.toList))
  rw [hhead] at hstop
  simp at hstop

end Dots

variable {cwd : String}

/-- Every path that a request hands to the disk is the directory or lies below it. -/
theorem opened_below (rt : Runtime) (disk : Disk) (hcwd : isAbsolute cwd = true)
    (uiRoot pathname : String) :
    ∀ path ∈ (serveStaticFile rt disk uiRoot pathname).opened, Below cwd uiRoot path := by
  obtain ⟨rest, hrest⟩ := @exists_leads_join cwd uiRoot _ (isAbsolute_safePath pathname)
    (dots_notMem_safePath pathname)
  have hasked := below_of_leads hcwd hrest
  have hindex : Below cwd uiRoot (join [join [uiRoot, safePath pathname], "index.html"]) := by
    obtain ⟨name, hname⟩ := @exists_leads_join cwd (join [uiRoot, safePath pathname]) "index.html"
      (by decide) (by decide)
    rw [hrest, List.append_assoc] at hname
    exact below_of_leads hcwd hname
  have hopened : ∀ path ∈ (serveStaticFile rt disk uiRoot pathname).opened,
      path = join [uiRoot, safePath pathname] ∨
        path = join [join [uiRoot, safePath pathname], "index.html"] := by
    intro path hpath
    unfold serveStaticFile at hpath
    dsimp only at hpath
    split at hpath
    · exact .inl (List.mem_singleton.mp hpath)
    · rename_i stat _
      by_cases hdirectory : stat = .directory
      · rw [if_pos hdirectory] at hpath
        split at hpath <;> simpa using hpath
      · rw [if_neg hdirectory] at hpath
        refine .inl ?_
        split at hpath <;> simpa using hpath
  intro path hpath
  rcases hopened path hpath with rfl | rfl
  · exact hasked
  · exact hindex

def testDisk : Disk where
  statSync _ := some .directory
  statSyncAgain _ := some .file
  readFileSync _ := some []

theorem opened_below_srv : Below "/" "/srv/ui" "/srv/ui/etc/index.html" := by
  have hopened : "/srv/ui/etc/index.html" ∈
      (serveStaticFile Js.asciiRuntime testDisk "/srv/ui" "/.../..//../etc").opened := by decide
  exact opened_below Js.asciiRuntime testDisk (by decide) "/srv/ui" "/.../..//../etc" _ hopened

end T560.Web
