import LiveMarkup.Document.Basic
import LiveMarkup.Document.Piece
set_option autoImplicit false

/-! # Documents from markup

The pieces of a markup text become nodes as they come. An end tag closes the innermost open element
of its name with all that is open inside; one that closes nothing is passed over, and what is open
at the end is closed there. Neighbouring texts are one node. -/

namespace LiveMarkup

namespace Document

/-- An element that still takes children. -/
structure OpenElement where
  name : String
  id : NodeId

/-- Adds a text behind the children of a node, to a text that stands last there. -/
def addText (d : Document) (parent : NodeId) (s : String) : Document :=
  let last := (d.children parent).getLast?
  match last, last.bind d.text? with
  | some id, some before => d.modify id fun n => { n with kind := .text (before ++ s) }
  | _, _ =>
    let (id, d) := d.createText s
    d.attach parent id

/-- The elements that stay open after an end tag. -/
def closeElement (name : String) (stack : List OpenElement) : List OpenElement :=
  match stack.dropWhile fun e => e.name != name with
  | [] => stack
  | _ :: outer => outer

/-- Adds one piece; the innermost open element comes first. -/
def addPiece : Document × List OpenElement → Piece → Document × List OpenElement
  | (d, stack), piece =>
    let current := (stack.head?.map OpenElement.id).getD root
    match piece with
    | .text s => (d.addText current s, stack)
    | .start t =>
      let (id, d) := d.alloc (.element (.ofTag t.name t.attributes))
      let d := d.attach current id
      (d, if t.selfClosing || isVoid t.name then stack else ⟨t.name, id⟩ :: stack)
    | .close name => (d, closeElement name stack)

/-- The document that a markup text describes. Reading is not logged. -/
def parse (markup : String) : Document := ((Piece.ofMarkup markup).foldl addPiece (empty, [])).1

end Document

end LiveMarkup
