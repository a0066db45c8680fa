import LiveMarkup.Table
import LiveMarkup.Text.Search
set_option autoImplicit false

/-! # Live documents

A document keeps its nodes in numbered slots. A node is an element or a text; beside its markup an
element has what a page keeps while it is open: the live value of a form control and its live
boolean properties. Slots of removed nodes are used again, the one freed last first. Every change is
logged. -/

namespace LiveMarkup

/-- The slot of a node. It may be vacant, or have been taken over by another node. -/
abbrev NodeId := Nat

structure Element where
  /-- The name of the element, in lower case. -/
  tag : String
  attributes : List (String × String)
  /-- What the user entered, once something was. -/
  value : Option String
  /-- Boolean properties that have been set. -/
  properties : Table Bool
  deriving DecidableEq, Repr

def Element.ofTag (tag : String) (attributes : List (String × String)) : Element :=
  ⟨tag, attributes, none, []⟩

inductive NodeKind where
  | element (e : Element)
  | text (s : String)
  deriving DecidableEq, Repr

structure NodeData where
  kind : NodeKind
  parent : Option NodeId
  children : List NodeId
  deriving DecidableEq, Repr

/-- A change of a document. -/
inductive Mutation where
  | setText (node : NodeId)
  | setAttribute (node : NodeId) (name : String)
  | removeAttribute (node : NodeId) (name : String)
  | setValue (node : NodeId)
  | setProperty (node : NodeId) (name : String) (value : Bool)
  | append (parent child : NodeId)
  | remove (node : NodeId)
  | replace (old new : NodeId)
  deriving DecidableEq, Repr

structure Document where
  slots : Array (Option NodeData)
  /-- Vacant slots, the one to be used next first. -/
  free : List NodeId
  log : Array Mutation

namespace Document

/-- The root of every document, under which its top-level nodes stand. -/
def root : NodeId := 0

def rootTag : String := "#document"

/-- How deep a walk over the nodes can go without meeting a node twice. -/
def depthBound (d : Document) : Nat := d.slots.size + 1

/-! ## Slots -/

def node? (d : Document) (id : NodeId) : Option NodeData := (d.slots[id]?).join

/-- Changes a node that is there. -/
def modify (d : Document) (id : NodeId) (f : NodeData → NodeData) : Document :=
  { d with slots := d.slots.modify id fun slot => slot.map f }

/-- Places a node without parent or children into a slot. -/
def alloc (d : Document) (kind : NodeKind) : NodeId × Document :=
  match d.free with
  | id :: rest => (id, { d with slots := d.slots.set! id (some ⟨kind, none, []⟩), free := rest })
  | [] => (d.slots.size, { d with slots := d.slots.push (some ⟨kind, none, []⟩) })

/-- Vacates a slot. -/
def release (d : Document) (id : NodeId) : Document :=
  if (d.node? id).isSome then
    { d with slots := d.slots.set! id none, free := id :: d.free }
  else d

def record (d : Document) (m : Mutation) : Document := { d with log := d.log.push m }

/-- A document that holds its root only. -/
def empty : Document :=
  (alloc ⟨#[], [], #[]⟩ (.element (.ofTag rootTag []))).2

/-- Empties the log. -/
def takeLog (d : Document) : Array Mutation × Document := (d.log, { d with log := #[] })

/-- How many nodes there are, those outside the tree included. -/
def nodeCount (d : Document) : Nat := (d.slots.filter Option.isSome).size

/-! ## Queries -/

def kind? (d : Document) (id : NodeId) : Option NodeKind := (d.node? id).map NodeData.kind

def element? (d : Document) (id : NodeId) : Option Element :=
  match d.kind? id with
  | some (.element e) => some e
  | _ => none

def tag? (d : Document) (id : NodeId) : Option String := (d.element? id).map Element.tag

def text? (d : Document) (id : NodeId) : Option String :=
  match d.kind? id with
  | some (.text s) => some s
  | _ => none

def attribute? (d : Document) (id : NodeId) (name : String) : Option String :=
  (d.element? id).bind fun e => Table.get? name e.attributes

/-- A boolean property, once it was set. -/
def property? (d : Document) (id : NodeId) (name : String) : Option Bool :=
  (d.element? id).bind fun e => Table.get? name e.properties

def children (d : Document) (id : NodeId) : List NodeId :=
  ((d.node? id).map NodeData.children).getD []

def parent? (d : Document) (id : NodeId) : Option NodeId := (d.node? id).bind NodeData.parent

def reachesRoot (d : Document) : Nat → NodeId → Bool
  | 0, _ => false
  | bound + 1, id =>
    if id = root then (d.node? id).isSome
    else
      match d.parent? id with
      | some p => reachesRoot d bound p
      | none => false

/-- Whether a node is there and stands under the root. -/
def contains (d : Document) (id : NodeId) : Bool := d.reachesRoot d.depthBound id

def firstElementChild? (d : Document) (id : NodeId) : Option NodeId :=
  (d.children id).find? fun child => (d.element? child).isSome

def findIn (d : Document) (name value : String) : Nat → NodeId → Option NodeId
  | 0, _ => none
  | bound + 1, id =>
    if d.attribute? id name = some value then some id
    else (d.children id).findSome? (findIn d name value bound)

/-- The first node in document order, from `scope` on and below it, with an attribute of a given
value. -/
def find? (d : Document) (scope : NodeId) (name value : String) : Option NodeId :=
  d.findIn name value d.depthBound scope

def closestFrom (d : Document) (name : String) : Nat → NodeId → Option NodeId
  | 0, _ => none
  | bound + 1, id =>
    if (d.attribute? id name).isSome then some id
    else (d.parent? id).bind (closestFrom d name bound)

/-- The nearest node at or above a node that has an attribute. -/
def closest? (d : Document) (id : NodeId) (name : String) : Option NodeId :=
  d.closestFrom name d.depthBound id

/-- The node reached from another by child positions. -/
def descend? (d : Document) : NodeId → List Nat → Option NodeId
  | id, [] => if (d.node? id).isSome then some id else none
  | id, i :: path => (d.children id)[i]?.bind fun child => descend? d child path

def textIn (d : Document) : Nat → NodeId → String
  | 0, _ => ""
  | bound + 1, id =>
    match d.kind? id with
    | some (.text s) => s
    | some (.element _) => String.join ((d.children id).map (textIn d bound))
    | none => ""

/-- The texts below a node, joined. -/
def textContent (d : Document) (id : NodeId) : String := d.textIn d.depthBound id

/-! ## Values of form controls -/

def taggedIn (d : Document) (tag : String) : Nat → NodeId → List NodeId
  | 0, _ => []
  | bound + 1, id =>
    (d.children id).flatMap fun child =>
      (if d.tag? child = some tag then [child] else []) ++ taggedIn d tag bound child

/-- The nodes of a given tag below a node, in document order. -/
def tagged (d : Document) (tag : String) (id : NodeId) : List NodeId :=
  d.taggedIn tag d.depthBound id

/-- The value of an option: what was set, its attribute, or its text. -/
def optionValue (d : Document) (id : NodeId) : String :=
  match (d.element? id).bind Element.value with
  | some v => v
  | none => (d.attribute? id "value").getD (d.textContent id)

/-- The value of the option that is marked as selected, or else of the first. -/
def selectedValue (d : Document) (id : NodeId) : String :=
  let options := d.tagged "option" id
  let marked := options.find? fun o => (d.attribute? o "selected").isSome
  ((marked.or options.head?).map d.optionValue).getD ""

/-- The current value of a form control: what was set, or else what its markup says. -/
def value? (d : Document) (id : NodeId) : Option String :=
  match d.element? id with
  | none => none
  | some e =>
    match e.value with
    | some v => some v
    | none =>
      if e.tag = "input" then some ((Table.get? "value" e.attributes).getD "")
      else if e.tag = "textarea" then some (d.textContent id)
      else if e.tag = "select" then some (d.selectedValue id)
      else if e.tag = "option" then some (d.optionValue id)
      else none

/-! ## Equality of trees -/

/-- Whether two nodes are alike on their own: the same text, or the same tag and attributes in any
order. -/
def NodeKind.alike : NodeKind → NodeKind → Bool
  | .text s, .text t => s = t
  | .element a, .element b =>
    a.tag = b.tag && a.attributes.length = b.attributes.length &&
      a.attributes.all fun (name, value) => Table.get? name b.attributes = some value
  | _, _ => false

def equalTrees (d other : Document) : Nat → NodeId → NodeId → Bool
  | 0, _, _ => false
  | bound + 1, a, b =>
    match d.node? a, other.node? b with
    | some x, some y =>
      NodeKind.alike x.kind y.kind && x.children.length = y.children.length &&
        (x.children.zip y.children).all fun (c, c') => equalTrees d other bound c c'
    | _, _ => false

/-- Whether the trees under two nodes have the same markup. Live values and properties do not
count. -/
def deepEqual (d : Document) (a : NodeId) (other : Document) (b : NodeId) : Bool :=
  d.equalTrees other d.depthBound a b

/-! ## Edits of single nodes -/

def modifyElement (d : Document) (id : NodeId) (f : Element → Element) : Document :=
  d.modify id fun n =>
    match n.kind with
    | .element e => { n with kind := .element (f e) }
    | .text _ => n

def setAttribute (d : Document) (id : NodeId) (name value : String) : Document :=
  if (d.element? id).isSome then
    let set := fun e : Element => { e with attributes := Table.insert name value e.attributes }
    (d.modifyElement id set).record (.setAttribute id name)
  else d

/-- Removes an attribute; only a change is logged. -/
def removeAttribute (d : Document) (id : NodeId) (name : String) : Document :=
  if (d.attribute? id name).isSome then
    (d.modifyElement id fun e =>
      { e with attributes := e.attributes.filter fun a => a.1 != name }).record
        (.removeAttribute id name)
  else d

def setText (d : Document) (id : NodeId) (s : String) : Document :=
  if (d.text? id).isSome then (d.modify id fun n => { n with kind := .text s }).record (.setText id)
  else d

/-- Sets the live value, as entering something does. -/
def setValue (d : Document) (id : NodeId) (value : String) : Document :=
  if (d.element? id).isSome then
    (d.modifyElement id fun e => { e with value := some value }).record (.setValue id)
  else d

def setProperty (d : Document) (id : NodeId) (name : String) (value : Bool) : Document :=
  if (d.element? id).isSome then
    let set := fun e : Element => { e with properties := Table.insert name value e.properties }
    (d.modifyElement id set).record (.setProperty id name value)
  else d

/-! ## Edits of the tree -/

/-- Makes a node the last child of another. -/
def attach (d : Document) (parent child : NodeId) : Document :=
  (d.modify child fun n => { n with parent := some parent }).modify parent fun n =>
    { n with children := n.children ++ [child] }

/-- Takes a node out of its parent. -/
def detach (d : Document) (id : NodeId) : Document :=
  match d.parent? id with
  | none => d
  | some p =>
    (d.modify p fun n => { n with children := n.children.filter (· != id) }).modify id fun n =>
      { n with parent := none }

def createElement (d : Document) (tag : String) (attributes : List (String × String)) :
    NodeId × Document :=
  d.alloc (.element (.ofTag (Text.asciiLower tag) attributes))

def createText (d : Document) (s : String) : NodeId × Document := d.alloc (.text s)

/-- Copies the nodes of a list and attaches the copies to a node. -/
def importAll (copy : Document → NodeId → Option (NodeId × Document)) (parent : NodeId) :
    Document → List NodeId → Document
  | d, [] => d
  | d, child :: rest =>
    match copy d child with
    | some (id, d) => importAll copy parent (d.attach parent id) rest
    | none => importAll copy parent d rest

def importFrom (source : Document) : Nat → Document → NodeId → Option (NodeId × Document)
  | 0, _, _ => none
  | bound + 1, d, id =>
    match source.node? id with
    | none => none
    | some n =>
      let (copy, d) := d.alloc n.kind
      some (copy, importAll (importFrom source bound) copy d n.children)

/-- Copies a node of another document with all below it; the copy has no parent. -/
def import? (d : Document) (source : Document) (id : NodeId) : Option (NodeId × Document) :=
  importFrom source source.depthBound d id

def freeIn : Nat → Document → NodeId → Document
  | 0, d, _ => d
  | bound + 1, d, id => ((d.children id).foldl (freeIn bound) d).release id

/-- Vacates the slots of a node and of all below it, children before their parents. -/
def freeSubtree (d : Document) (id : NodeId) : Document := freeIn d.depthBound d id

/-- Moves a node to the end of another's children. -/
def appendChild (d : Document) (parent child : NodeId) : Document :=
  ((d.detach child).attach parent child).record (.append parent child)

/-- Removes a node with all below it. The root stays. -/
def remove (d : Document) (id : NodeId) : Document :=
  if id = root then d else ((d.detach id).freeSubtree id).record (.remove id)

/-- Puts a node in the place of another, which is removed with all below it; the node that stands
there afterwards is returned. -/
def replace (d : Document) (old new : NodeId) : NodeId × Document :=
  if old = root ∨ old = new then (old, d)
  else
    let d := d.detach new
    let d :=
      match d.parent? old with
      | some p =>
        (d.modify p fun n =>
          { n with children := n.children.replace old new }).modify new fun n =>
            { n with parent := some p }
      | none => d
    let d := d.modify old fun n => { n with parent := none }
    (new, (d.freeSubtree old).record (.replace old new))

end Document

end LiveMarkup
