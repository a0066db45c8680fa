import LiveMarkup.Document.Basic
import LiveMarkup.Document.Tag
set_option autoImplicit false

/-! # Documents as markup

Elements are written with their attributes in their order. Texts are escaped except in scripts and
styles, where references would not be read. -/

namespace LiveMarkup.Document

def escapeText (s : String) : String :=
  String.join (s.toList.map fun c =>
    if c = '&' then "&amp;" else if c = '<' then "&lt;" else if c = '>' then "&gt;" else c.toString)

def escapeAttribute (s : String) : String :=
  String.join (s.toList.map fun c =>
    if c = '&' then "&amp;" else if c = '"' then "&quot;" else c.toString)

def startTag (e : Element) : String :=
  "<" ++ e.tag ++
    String.join (e.attributes.map fun (name, value) =>
      " " ++ name ++ "=\"" ++ escapeAttribute value ++ "\"") ++ ">"

/-- Whether the texts right below a node are written as they are. -/
def holdsRawText (d : Document) (id : NodeId) : Bool :=
  d.tag? id = some "script" || d.tag? id = some "style"

/-- The markup of a node down to a bounded depth; `raw` says that its parent holds raw text. -/
def writeNode (d : Document) : (depth : Nat) → (raw : Bool) → NodeId → String
  | 0, _, _ => ""
  | depth + 1, raw, id =>
    match d.kind? id with
    | some (.text s) => if raw then s else escapeText s
    | some (.element e) =>
      if isVoid e.tag then startTag e
      else
        startTag e ++
          String.join ((d.children id).map (writeNode d depth (d.holdsRawText id))) ++
          "</" ++ e.tag ++ ">"
    | none => ""

/-- The markup of a node with its own tag. -/
def outerMarkup (d : Document) (id : NodeId) : String := d.writeNode d.depthBound false id

/-- The markup of the children of a node. -/
def innerMarkup (d : Document) (id : NodeId) : String :=
  String.join ((d.children id).map (d.writeNode d.depthBound (d.holdsRawText id)))

end LiveMarkup.Document
