import Mathlib.Data.List.DropRight

/-!
# POSIX paths

The functions of `node:path` that the program uses, on the components between slashes. The
working directory of the process is a parameter.
-/

namespace T560.Js.Path

/-- One component of `normalizeString`: `..` takes back the component before it. -/
def normalizeStep (allowAboveRoot : Bool) (res : List (List Char)) (part : List Char) :
    List (List Char) :=
  if part = [] ∨ part = ['.'] then res
  else if part = ['.', '.'] then
    if res ≠ [] ∧ res.getLast? ≠ some ['.', '.'] then res.dropLast
    else if allowAboveRoot then res ++ [part] else res
  else res ++ [part]

def normalizeParts (allowAboveRoot : Bool) (path : List Char) : List (List Char) :=
  (path.splitOn '/').foldl (normalizeStep allowAboveRoot) []

def joinParts (parts : List (List Char)) : List Char := List.intercalate ['/'] parts

def normalizeString (path : List Char) (allowAboveRoot : Bool) : List Char :=
  joinParts (normalizeParts allowAboveRoot path)

def isAbsolute (path : String) : Bool := path.toList.head? = some '/'

def normalize (path : String) : String :=
  let absolute := isAbsolute path
  let trailing := decide (path.toList.getLast? = some '/')
  let res := normalizeString path.toList (!absolute)
  if path = "" then "."
  else if res = [] then
    if absolute then "/" else if trailing then "./" else "."
  else
    String.ofList ((if absolute then ['/'] else []) ++ res ++ if trailing then ['/'] else [])

def join (paths : List String) : String :=
  let given := (paths.map String.toList).filter (· ≠ [])
  if given = [] then "." else normalize (String.ofList (joinParts given))

/-- The loop of `resolve` over the paths from the last to the first, with what it has put
together so far; it ends at an absolute path. -/
def resolveLoop : List String → List Char → List Char × Bool
  | [], resolved => (resolved, false)
  | path :: rest, resolved =>
    if path = "" then resolveLoop rest resolved
    else if isAbsolute path then (path.toList ++ '/' :: resolved, true)
    else resolveLoop rest (path.toList ++ '/' :: resolved)

def resolve (processCwd : String) (paths : List String) : String :=
  let (resolved, absolute) := resolveLoop (paths.reverse ++ [processCwd]) []
  let res := normalizeString resolved (!absolute)
  if absolute then String.ofList ('/' :: res)
  else if res = [] then "." else String.ofList res

/-- The components of a path. -/
def components (path : String) : List (List Char) := (path.toList.splitOn '/').filter (· ≠ [])

def commonLength : List (List Char) → List (List Char) → Nat
  | a :: as, b :: bs => if a = b then commonLength as bs + 1 else 0
  | _, _ => 0

/-- Up from the first path to the common part, and down to the second. -/
def relative (processCwd source target : String) : String :=
  let source := components (resolve processCwd [source])
  let target := components (resolve processCwd [target])
  let common := commonLength source target
  String.ofList (joinParts
    (List.replicate (source.length - common) ['.', '.'] ++ target.drop common))

/-- The last component, without the slashes behind it. -/
def basename (path : String) : String :=
  let front := path.toList.rdropWhile (· == '/')
  String.ofList (front.rtakeWhile (· != '/'))

/-- The last dot of the last component and what follows it; a dot in front does not count. -/
def extname (path : String) : String :=
  let base := (basename path).toList
  if base = ['.', '.'] ∨ '.' ∉ base.tail then ""
  else String.ofList ('.' :: base.rtakeWhile (· != '.'))

theorem basename_append {directory name : String}
    (hdir : directory = "" ∨ directory.toList.getLast? = some '/') (hne : name.toList ≠ [])
    (hname : '/' ∉ name.toList) : basename (directory ++ name) = name := by
  have hfront : (directory.toList ++ name.toList).rdropWhile (· == '/') =
      directory.toList ++ name.toList := by
    rw [List.rdropWhile_eq_self_iff]
    intro hall hslash
    rw [List.getLast_append_of_ne_nil _ hne, beq_iff_eq] at hslash
    exact hname (hslash ▸ List.getLast_mem hne)
  have hback : (directory.toList ++ name.toList).rtakeWhile (· != '/') = name.toList := by
    have hplain : ∀ ch ∈ name.toList.reverse, (ch != '/') = true := by
      intro ch hch
      rw [bne_iff_ne]
      rintro rfl
      exact hname (List.mem_reverse.mp hch)
    have hstop : directory.toList.reverse.takeWhile (· != '/') = [] := by
      rcases hdir with rfl | hslash
      · rfl
      · rw [← List.head?_reverse] at hslash
        obtain ⟨rest, hrest⟩ := List.head?_eq_some_iff.mp hslash
        rw [hrest]
        rfl
    rw [List.rtakeWhile, List.reverse_append, List.takeWhile_append_of_pos hplain, hstop,
      List.append_nil, List.reverse_reverse]
  rw [basename, String.toList_append, hfront, hback, String.ofList_toList]

end T560.Js.Path
