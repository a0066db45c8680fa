import LiveMarkup.Engine.Error
set_option autoImplicit false

/-! # Component names and roots

A component goes by the last part of the path that refers to it. The first element of its template
is its root: it is marked with the key of the instance, by which the client finds it again. -/

namespace LiveMarkup

open Text

/-- The attribute that holds an instance key. -/
def rootAttribute : String := "element"

def isPathSeparator (c : Char) : Bool := c == '/' || c == '\\'

/-- The last path segment of a reference, up to its first point. -/
def componentName (reference : String) : String :=
  let segment := (reference.toList.reverse.takeWhile fun c => !isPathSeparator c).reverse
  String.ofList (segment.takeWhile fun c => c != '.')

namespace ComponentSource

def templateOpen : List Char := "<template".toList

def templateClose : List Char := "</template>".toList

/-- Whether a tag name ends here: at a bracket or a blank. -/
def endsTagName (s : List Char) : Bool := s.head?.any fun c => c == '>' || isBlank c

/-- What an enclosing `template` element holds; a source without one is kept. -/
def unwrap (source : List Char) : List Char :=
  match after? templateOpen (trimStart source) with
  | none => source
  | some rest =>
    if endsTagName rest then
      match cut? ['>'] rest with
      | none => source
      | some (_, inner) =>
        match cutLast? templateClose inner with
        | some (body, _) => body
        | none => inner
    else source

def isTagNameChar (c : Char) : Bool :=
  isAsciiLetter c || isAsciiDigit c || c == '-' || c == ':'

/-- Cuts literal text just past the name of its first start tag. Comments are passed over; one that
is not closed takes the rest of the text. -/
def cutAtFirstTag? (text : List Char) : Option (List Char × List Char) :=
  match text with
  | [] => none
  | '<' :: '!' :: '-' :: '-' :: rest =>
    match h : cut? "-->".toList rest with
    | none => none
    | some (comment, following) =>
      have : following.length < rest.length + 1 := Nat.lt_succ_of_le (length_le_of_cut? h)
      (cutAtFirstTag? following).map fun (before, after) =>
        ("<!--".toList ++ comment ++ "-->".toList ++ before, after)
  | '<' :: c :: rest =>
    if isAsciiLetter c then
      some ('<' :: c :: rest.takeWhile isTagNameChar, rest.dropWhile isTagNameChar)
    else (cutAtFirstTag? (c :: rest)).map fun (before, after) => ('<' :: before, after)
  | c :: rest => (cutAtFirstTag? rest).map fun (before, after) => (c :: before, after)
termination_by text.length
decreasing_by all_goals (simp only [List.length_cons]; omega)

/-- Cuts a text after a number of bytes. -/
def cutAtByte : Nat → List Char → List Char × List Char
  | _, [] => ([], [])
  | n, c :: s =>
    if n = 0 then ([], c :: s)
    else
      let (before, after) := cutAtByte (n - c.utf8Size) s
      (c :: before, after)

/-- The offset just past the name of the first start tag in literal text. -/
def rootOffset? (segments : List Segment) : Option Nat :=
  segments.findSome? fun s =>
    if s.kind = .text then
      (cutAtFirstTag? s.content).map fun (before, _) => s.span.start + byteLength before
    else none

/-- Marks the root of a component template with the instance key. Only literal text is searched:
what directives produce has no tags yet. -/
def markRoot (name source : String) (d : Delimiters) : Except EngineError String := do
  let body := unwrap source.toList
  let bodyText := String.ofList body
  let segments ← (scan bodyText d).mapError fun e =>
    EngineError.ofSyntax name bodyText (.ofLex (lineAt body e.span.start) e)
  match rootOffset? segments with
  | none => throw (.emptyComponentTemplate name)
  | some offset =>
    let (before, after) := cutAtByte offset body
    return String.ofList before ++ " " ++ rootAttribute ++ "=\"" ++ d.opening ++ "$ctxKey" ++
      d.closing ++ "\"" ++ String.ofList after

end ComponentSource

end LiveMarkup
