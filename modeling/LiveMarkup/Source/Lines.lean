import LiveMarkup.Source.Span
import LiveMarkup.Text.Search
set_option autoImplicit false

/-! # Lines of a source

Messages name lines, counted from 1; a line feed belongs to the line that it ends. One offset is
looked up by counting line feeds before it, many by a table of line starts. A snippet shows the
lines around a failing one. -/

namespace LiveMarkup

open Text

/-- Line feeds that lie wholly before a byte offset. -/
def lineFeedsBefore : (offset : Nat) → List Char → Nat
  | _, [] => 0
  | offset, c :: s =>
    if c.utf8Size ≤ offset then
      (if c = '\n' then 1 else 0) + lineFeedsBefore (offset - c.utf8Size) s
    else 0

/-- The line of an offset, by one pass over the source. -/
def lineAt (source : List Char) (offset : Nat) : Nat := lineFeedsBefore offset source + 1

/-- Where each line of a source starts, in ascending order; the first line starts at 0. -/
structure LineTable where
  starts : Array Nat

namespace LineTable

/-- Offsets just past each line feed of a text that starts at `offset`. -/
def startsFrom : (offset : Nat) → List Char → List Nat
  | _, [] => []
  | offset, c :: s =>
    let next := offset + c.utf8Size
    if c = '\n' then min next Span.limit :: startsFrom next s else startsFrom next s

def ofSource (source : List Char) : LineTable := ⟨(0 :: startsFrom 0 source).toArray⟩

/-- How many entries of an ascending table are at most `offset`, given that all before `lo` are and
none from `hi` on is. Each step halves what is open. -/
def countUpTo (starts : Array Nat) (offset lo hi : Nat) : Nat :=
  if h : lo < hi then
    let mid := (lo + hi) / 2
    if starts[mid]?.any (· ≤ offset) then countUpTo starts offset (mid + 1) hi
    else countUpTo starts offset lo mid
  else lo
termination_by hi - lo

/-- The line of an offset: as many lines start at or before it. -/
def lineAt (table : LineTable) (offset : Nat) : Nat :=
  max 1 (countUpTo table.starts offset 0 table.starts.size)

def lineOf (table : LineTable) (span : Span) : Nat := table.lineAt span.start

/-- Line and column of an offset; the column counts bytes from 1. -/
def position (table : LineTable) (offset : Nat) : Nat × Nat :=
  let line := table.lineAt offset
  (line, offset - (table.starts[line - 1]?.getD 0) + 1)

def count (table : LineTable) : Nat := table.starts.size

end LineTable

/-- The lines of a text, cut at line feeds; a text always has a last line, perhaps empty. -/
def linesOf : List Char → List (List Char)
  | [] => [[]]
  | c :: s =>
    if c = '\n' then [] :: linesOf s
    else
      match linesOf s with
      | line :: rest => (c :: line) :: rest
      | [] => [[c]]

namespace Snippet

/-- Lines shown below the failing one; one fewer is shown above. -/
def radius : Nat := 5

/-- One line of a snippet: the failing line is marked. -/
def row (failing number : Nat) (line : List Char) : String :=
  (if number = failing then ">>" else "  ") ++ " " ++ toString number ++ "| " ++ String.ofList line

end Snippet

/-- The lines around line `failing` of a source, each with its number, joined by line feeds. -/
def snippet (source : List Char) (failing : Nat) : String :=
  let numbered := (linesOf source).zipIdx 1
  let shown := (numbered.take (failing + Snippet.radius)).drop (failing - Snippet.radius)
  "\n".intercalate (shown.map fun row => Snippet.row failing row.2 row.1)

end LiveMarkup
