import LiveMarkup.Engine.Template
set_option autoImplicit false

/-! # Blocks

Blocks are stateless fragments that templates call by name. A block file holds any number of named
`template` elements; each is compiled by itself and registered under the name of the file and its
own. Errors in a fragment point into the whole file. -/

namespace LiveMarkup

open Text

namespace BlockFile

/-- The value of an attribute in the text of a start tag. The name counts where nothing or a blank
stands before it and an equals sign after it; otherwise the search goes on behind it, as if the text
began there. -/
def attributeValue? (name : List Char) (attributes : List Char) : Option (List Char) :=
  match h : cut? name attributes with
  | none => none
  | some (before, rest) =>
    match before.getLast?.all isBlank, trimStart rest with
    | true, '=' :: value =>
      match trimStart value with
      | [] => none
      | quote :: inner =>
        if quote = '"' ∨ quote = '\'' then (cut? [quote] inner).map Prod.fst
        else some ((quote :: inner).takeWhile fun c => !(isBlank c || c == '/'))
    | _, _ =>
      if hn : name = [] then none
      else
        have : rest.length < attributes.length := length_lt_of_cut? hn h
        attributeValue? name rest
termination_by attributes.length

/-- One `template` element of a block file: its name, what it holds, and the line that this starts
on. -/
structure Fragment where
  name : Option (List Char)
  body : List Char
  line : Nat

/-- The `template` elements of the rest of a file that starts on a given line. Elements whose name
only begins alike are other elements; one that is not closed runs to the end. -/
def fragmentsFrom (line : Nat) (source : List Char) : List Fragment :=
  match h : cut? ComponentSource.templateOpen source with
  | none => []
  | some (before, afterName) =>
    have shorter : afterName.length < source.length := length_lt_of_cut? (by decide) h
    let line := line + lineFeeds before
    if ComponentSource.endsTagName afterName then
      match ht : cut? ['>'] afterName with
      | none => []
      | some (tag, inside) =>
        let line := line + lineFeeds tag
        let name := attributeValue? "name".toList tag
        have hi : inside.length ≤ afterName.length := length_le_of_cut? ht
        match hc : cut? ComponentSource.templateClose inside with
        | none => [⟨name, inside, line⟩]
        | some (body, rest) =>
          have : rest.length < source.length :=
            Nat.lt_of_le_of_lt (length_le_of_cut? hc) (Nat.lt_of_le_of_lt hi shorter)
          ⟨name, body, line⟩ :: fragmentsFrom (line + lineFeeds body) rest
    else fragmentsFrom line afterName
termination_by source.length

def fragments (source : String) : List Fragment := fragmentsFrom 1 source.toList

end BlockFile

/-- Registered blocks by name. -/
abbrev Blocks := Table Template

namespace Blocks

/-- An error in a fragment, as an error in its file. -/
def inFile (file source : String) (firstLine : Nat) : EngineError → EngineError
  | .compile reason _ line _ =>
    let line := firstLine + (line - 1)
    .compile reason file line (snippet source.toList line)
  | e => e

/-- Registers fragments in order up to the first that does not compile. What was registered before
stays registered. -/
def register (file source : String) (d : Delimiters) (blocks : Blocks) :
    List BlockFile.Fragment → Except EngineError (List String) × Blocks
  | [] => (.ok [], blocks)
  | ⟨none, _, _⟩ :: rest => register file source d blocks rest
  | ⟨some name, body, line⟩ :: rest =>
    let key := componentName file ++ "." ++ String.ofList name
    match Template.build key (String.ofList body) d with
    | .error e => (.error (inFile file source line e), blocks)
    | .ok t =>
      let (names, blocks) := register file source d (Table.insert key t blocks) rest
      (names.map (key :: ·), blocks)

/-- Compiles and registers every named fragment of a block file; their names in file order. -/
def load (blocks : Blocks) (file source : String) (d : Delimiters) :
    Except EngineError (List String) × Blocks :=
  register file source d blocks (BlockFile.fragments source)

section

variable {σ : Type}

/-- Renders a block with its arguments as data; `inner` renders the blocks that it calls. A name
that is not registered shows nothing. -/
def renderWith (blocks : Blocks) (host : Host σ) (inner : String → Value → Run σ String)
    (name : String) (args : Value) : Run σ String := do
  match Table.get? name blocks with
  | none => return ""
  | some t =>
    match ← t.render { RenderCall.plain host args with block := inner } with
    | .ok html => return html
    | .error f =>
      .failed <| .custom <|
        f.error.message ++ " (block " ++ name ++ ", line " ++ toString f.line ++ ")"

/-- Renders a block whose inner blocks come from the same registry. Blocks may call one another in a
circle, so the depth of nested calls is bounded by a budget. -/
def render (blocks : Blocks) (host : Host σ) : (budget : Nat) → String → Value → Run σ String
  | 0, _, _ => .exhausted
  | budget + 1, name, args => renderWith blocks host (render blocks host budget) name args

end

end Blocks

end LiveMarkup
