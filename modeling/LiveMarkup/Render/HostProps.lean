import LiveMarkup.Value.Json
set_option autoImplicit false

/-! # Host props

During a page render every component occurrence gets a key and records its props under it, by
component name and then by key. The record goes to the client with the page. -/

namespace LiveMarkup

/-- The prop that gives an occurrence a key of its own. -/
def explicitKeyProp : String := "$key"

/-- The key that a props object carries: a string that is not empty. -/
def explicitKey? (props : Value) : Option String :=
  match props.field? explicitKeyProp with
  | some (.str key) => if key.isEmpty then none else some key
  | _ => none

/-- The instance key of an occurrence that carries a key. -/
def explicitInstanceKey (name key : String) : String := name ++ ":" ++ key

/-- The instance key of an occurrence by its position among those without a key. -/
def positionalKey (name : String) (n : Nat) : String :=
  if n = 0 then name else name ++ "_" ++ toString n

/-- Recorded props by component name and instance key, both in the order of their first record. -/
structure HostProps where
  entries : Table (Table Value)

namespace HostProps

def empty : HostProps := ⟨[]⟩

def instances (h : HostProps) (name : String) : Table Value := (Table.get? name h.entries).getD []

def record (h : HostProps) (name key : String) (props : Value) : HostProps :=
  ⟨Table.insert name (Table.insert key props (h.instances name)) h.entries⟩

/-- The key of the next occurrence without a key of its own. Occurrences that carry a key do not
count, and a key that is taken is passed over; of as many candidates as there are keys and one more,
one is free. -/
def nextKey (h : HostProps) (name : String) : String :=
  let taken := h.instances name
  let count := (taken.filter fun entry => (explicitKey? entry.2).isNone).length
  let candidates := (List.range' count (taken.length + 1)).map (positionalKey name)
  (candidates.find? fun key => !Table.contains key taken).getD name

/-- The key of a new occurrence. -/
def keyFor (h : HostProps) (name : String) (props : Value) : String :=
  match explicitKey? props with
  | some key => explicitInstanceKey name key
  | none => h.nextKey name

/-- Gives a new occurrence its key and records its props. -/
def register (h : HostProps) (name : String) (props : Value) : String × HostProps :=
  let key := h.keyFor name props
  (key, h.record name key props)

def get? (h : HostProps) (name key : String) : Option Value := Table.get? key (h.instances name)

def keys (h : HostProps) (name : String) : List String := Table.keys (h.instances name)

def names (h : HostProps) : List String := Table.keys h.entries

/-- Records what an object of objects holds; members of other types are passed over. -/
def ofValue (v : Value) : HostProps :=
  v.fields.foldl (fun h component =>
    component.2.fields.foldl (fun h entry => h.record component.1 entry.1 entry.2) h) empty

/-- The record as an object of objects. The objects are new, the recorded props are not. -/
def toValue (h : HostProps) (ident : Nat → Ident) (next : Nat) : Value × Nat :=
  let components := h.entries.zipIdx.map fun (component, i) =>
    (component.1, Value.object (ident (next + 1 + i)) component.2)
  (.object (ident next) components, next + 1 + h.entries.length)

end HostProps

end LiveMarkup
