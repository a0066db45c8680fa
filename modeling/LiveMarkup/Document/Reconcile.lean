import LiveMarkup.Document.Basic
set_option autoImplicit false

/-! # Reconciliation

A live tree is changed step by step until it has the markup of a freshly rendered one. Nodes that
have it are left alone, with their live values and properties. Children are paired by position: a
node of the same tag is kept and patched, any other is replaced by a copy. -/

namespace LiveMarkup.Document

/-! ## Attributes and values -/

/-- Elements whose live value follows the markup. -/
def formControls : List String := ["input", "textarea", "select"]

/-- Gives a form control the value that the fresh one has. -/
def patchValue (d : Document) (old : NodeId) (source : Document) (new : NodeId) : Document :=
  match source.tag? new, source.value? new with
  | some tag, some wanted =>
    if formControls.contains tag && d.value? old != some wanted then d.setValue old wanted else d
  | _, _ => d

/-- Removes the attributes that the fresh element does not have. -/
def dropStale (d : Document) (old : NodeId) (source : Document) (new : NodeId) : Document :=
  let attributes := ((d.element? old).map Element.attributes).getD []
  (attributes.filter fun a => (source.attribute? new a.1).isNone).foldl
    (fun d a => d.removeAttribute old a.1) d

/-- Sets the attributes that differ, in the order of the fresh element. -/
def setFresh (d : Document) (old : NodeId) (source : Document) (new : NodeId) : Document :=
  (((source.element? new).map Element.attributes).getD []).foldl
    (fun d (name, value) =>
      if d.attribute? old name != some value then d.setAttribute old name value else d) d

/-! ## Trees -/

/-- Puts a copy of a fresh node in the place of a live one. -/
def replaceByCopy (d : Document) (old : NodeId) (source : Document) (new : NodeId) :
    NodeId × Document :=
  match d.import? source new with
  | none => (old, d)
  | some (copy, d) => d.replace old copy

/-- Pairs live children with fresh ones by position: pairs are patched by `patch`, missing children
appended, surplus ones removed. -/
def patchChildren (patch : Document → NodeId → NodeId → NodeId × Document) (parent : NodeId)
    (source : Document) : Document → (live fresh : List NodeId) → Document
  | d, [], [] => d
  | d, extra :: live, [] => patchChildren patch parent source (d.remove extra) live []
  | d, [], new :: fresh =>
    let d :=
      match d.import? source new with
      | some (copy, d) => d.appendChild parent copy
      | none => d
    patchChildren patch parent source d [] fresh
  | d, old :: live, new :: fresh =>
    patchChildren patch parent source (patch d old new).2 live fresh

/-- Makes the tree under a live node like that under a fresh one, down to a bounded depth; the node
that stands there afterwards is returned. -/
def patchNode (source : Document) : (depth : Nat) → Document → NodeId → NodeId → NodeId × Document
  | 0, d, old, _ => (old, d)
  | depth + 1, d, old, new =>
    if d.deepEqual old source new then (old, d)
    else
      match d.kind? old, source.kind? new with
      | some (.text current), some (.text wanted) =>
        (old, if current = wanted then d else d.setText old wanted)
      | some (.element a), some (.element b) =>
        if a.tag = b.tag then
          let d := ((d.patchValue old source new).dropStale old source new).setFresh old source new
          (old, patchChildren (patchNode source depth) old source d (d.children old)
            (source.children new))
        else d.replaceByCopy old source new
      | _, _ => d.replaceByCopy old source new

/-- Makes the tree under `old` like the tree under `new` of another document. -/
def reconcile (d : Document) (old : NodeId) (source : Document) (new : NodeId) :
    NodeId × Document :=
  patchNode source source.depthBound d old new

/-! ## Boolean properties -/

/-- Attributes with a live property, which is on exactly when the attribute reads `true`. -/
def booleanAttributes : List String :=
  ["checked", "disabled", "readonly", "required", "autofocus", "multiple", "selected", "hidden",
    "open", "ismap", "defer", "async", "novalidate", "formnovalidate", "allowfullscreen",
    "itemscope", "reversed", "autoplay", "controls", "loop", "muted", "default"]

/-- Makes one property follow its attribute. A property that was never set is on. -/
def syncProperty (id : NodeId) (d : Document) (name : String) : Document :=
  match d.attribute? id name with
  | none => d
  | some value =>
    let wanted := value == "true"
    if (d.property? id name).getD true == wanted then d else d.setProperty id name wanted

def syncIn : (depth : Nat) → Document → NodeId → Document
  | 0, d, _ => d
  | depth + 1, d, id =>
    let d := booleanAttributes.foldl (syncProperty id) d
    (d.children id).foldl (syncIn depth) d

/-- Makes the boolean properties of a node and of all below it follow their attributes, in document
order. -/
def syncProperties (d : Document) (id : NodeId) : Document := syncIn d.depthBound d id

end LiveMarkup.Document
