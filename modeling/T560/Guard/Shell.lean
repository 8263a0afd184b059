import T560.Js.Text

/-!
# The shell automata

The guard reads a command twice: `splitShellSegments` cuts it into segments at the operators, and
`tokenizeShell` cuts a segment into words. Both follow quotes and backslashes on their own.
-/

namespace T560.Guard

open Js (isSpace trimChars)

/-! ## Segments -/

/-- `skip` is the character that the loop steps over if it comes next: the second one of `||` and
`&&`. -/
structure SplitState where
  out : List (List Char) := []
  current : List Char := []
  quote : Option Char := none
  escaped : Bool := false
  skip : Option Char := none
  deriving DecidableEq, Repr

def isBreak (ch : Char) : Bool := ch = ';' || ch = '|' || ch = '&'

/-- A piece as it is kept: trimmed, and only when something is left. -/
def cleaned (piece : List Char) : List (List Char) :=
  let trimmed := trimChars piece
  if trimmed = [] then [] else [trimmed]

def splitStep (s : SplitState) (ch : Char) : SplitState :=
  if s.skip = some ch then { s with skip := none }
  else
    let s := { s with skip := none }
    if s.escaped then { s with current := s.current ++ [ch], escaped := false }
    else if ch = '\\' ∧ s.quote ≠ some '\'' then
      { s with current := s.current ++ [ch], escaped := true }
    else
      match s.quote with
      | some q =>
        { s with current := s.current ++ [ch], quote := if ch = q then none else some q }
      | none =>
        if ch = '\'' ∨ ch = '"' then { s with quote := some ch, current := s.current ++ [ch] }
        else if isBreak ch then
          { s with
            out := s.out ++ cleaned s.current
            current := []
            skip := if ch = '|' ∨ ch = '&' then some ch else none }
        else { s with current := s.current ++ [ch] }

def splitRun (command : List Char) : SplitState := command.foldl splitStep {}

/-- The segments with the last piece. -/
def SplitState.segments (s : SplitState) : List (List Char) := s.out ++ cleaned s.current

def splitShellSegments (command : List Char) : List (List Char) := (splitRun command).segments

/-! ## Words -/

structure TokenState where
  tokens : List (List Char) := []
  current : List Char := []
  quote : Option Char := none
  escaped : Bool := false
  deriving DecidableEq, Repr

def TokenState.flush (s : TokenState) : TokenState :=
  if s.current = [] then s else { s with tokens := s.tokens ++ [s.current], current := [] }

def tokenStep (s : TokenState) (ch : Char) : TokenState :=
  if s.escaped then { s with current := s.current ++ [ch], escaped := false }
  else if ch = '\\' ∧ s.quote ≠ some '\'' then { s with escaped := true }
  else
    match s.quote with
    | some q =>
      if ch = q then { s with quote := none } else { s with current := s.current ++ [ch] }
    | none =>
      if ch = '\'' ∨ ch = '"' then { s with quote := some ch }
      else if isSpace ch then s.flush
      else { s with current := s.current ++ [ch] }

def tokenizeShell (segment : List Char) : List String :=
  (segment.foldl tokenStep {}).flush.tokens.map String.ofList

end T560.Guard
