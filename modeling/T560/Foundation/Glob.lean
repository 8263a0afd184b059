import Mathlib.Data.List.Basic

/-!
# File name patterns

The patterns of a POSIX shell for one component of a path: `*`, `?` and bracket sets. A bracket that
is not closed stands for itself, and a leading dot is matched by a leading dot only.
-/

namespace T560.Foundation.Glob

inductive Item where
  | char (c : Char)
  | any
  | star
  | set (negated : Bool) (ranges : List (Char × Char))
  deriving DecidableEq, Repr

/-- The text of a set and what is behind its closing bracket. A bracket in the first place belongs
to the set. -/
def closeSet : List Char → Option (List Char × List Char)
  | [] => none
  | first :: rest =>
    match rest.dropWhile (· != ']') with
    | [] => none
    | _ :: behind => some (first :: rest.takeWhile (· != ']'), behind)

def ranges : List Char → List (Char × Char)
  | first :: '-' :: last :: rest => (first, last) :: ranges rest
  | c :: rest => (c, c) :: ranges rest
  | [] => []

/-- The items of a pattern, read with as many steps as it has characters. -/
def parseSteps : Nat → List Char → List Item
  | 0, _ => []
  | _, [] => []
  | steps + 1, '*' :: rest => .star :: parseSteps steps rest
  | steps + 1, '?' :: rest => .any :: parseSteps steps rest
  | steps + 1, '[' :: rest =>
    let negated := rest.head? = some '!' || rest.head? = some '^'
    match closeSet (if negated then rest.tail else rest) with
    | some (body, behind) => .set negated (ranges body) :: parseSteps steps behind
    | none => .char '[' :: parseSteps steps rest
  | steps + 1, c :: rest => .char c :: parseSteps steps rest

def parse (pattern : List Char) : List Item := parseSteps pattern.length pattern

def Item.acceptsOne : Item → Char → Bool
  | .char c, d => c == d
  | .any, _ => true
  | .star, _ => false
  | .set negated ranges, d => ranges.any (fun r => r.1.toNat ≤ d.toNat && d.toNat ≤ r.2.toNat) != negated

def accepts : List Item → List Char → Bool
  | [], name => name.isEmpty
  | .star :: items, name => name.tails.any (accepts items)
  | item :: items, d :: name => item.acceptsOne d && accepts items name
  | _ :: _, [] => false

/-- The pattern matches the name of a file. -/
def isMatch (pattern name : List Char) : Bool :=
  accepts (parse pattern) name && (name.head? != some '.' || pattern.head? == some '.')

end T560.Foundation.Glob
