import LiveMarkup.Render.HostProps
set_option autoImplicit false

/-! # Instance identity on the client

Every component has a list of keys and a cursor. A render resolves its occurrences by walking the
cursor, so the n-th occurrence in a pass is always the same instance. Occurrences that carry a key
stand outside of the list and never move the cursor. -/

namespace LiveMarkup

structure KeyList where
  /-- Keys of occurrences by position, in the order of their creation. -/
  keys : List String
  /-- Keys of occurrences that carry one. -/
  explicit : List String
  cursor : Nat

def KeyList.empty : KeyList := ⟨[], [], 0⟩

abbrev Registry := Table KeyList

/-- The key of an occurrence, and whether there was no instance under it yet. -/
structure Resolution where
  key : String
  created : Bool
  deriving DecidableEq, Repr

namespace Registry

def list (r : Registry) (name : String) : KeyList := (Table.get? name r).getD .empty

/-- Adds a recorded key to the list it belongs to. -/
def KeyList.seed (l : KeyList) (key : String) (props : Value) : KeyList :=
  if (explicitKey? props).isSome then
    { l with explicit := if l.explicit.contains key then l.explicit else l.explicit ++ [key] }
  else { l with keys := if l.keys.contains key then l.keys else l.keys ++ [key] }

/-- Takes in the instances that a page recorded, in their order. -/
def seed (r : Registry) (host : HostProps) : Registry :=
  host.entries.foldl (fun r (name, instances) =>
    let seeded := instances.foldl (fun l (key, props) => KeyList.seed l key props) (list r name)
    Table.insert name seeded r) r

/-- Starts a new render pass. -/
def resetCursors (r : Registry) : Registry := r.map fun (name, l) => (name, { l with cursor := 0 })

/-- The key of the next occurrence by position; a new key past the end of the list. -/
def resolve (r : Registry) (name : String) : Resolution × Registry :=
  let l := list r name
  match l.keys[l.cursor]? with
  | some key => (⟨key, false⟩, Table.insert name { l with cursor := l.cursor + 1 } r)
  | none =>
    let key := positionalKey name l.keys.length
    (⟨key, true⟩, Table.insert name { l with keys := l.keys ++ [key], cursor := l.cursor + 1 } r)

/-- The key of an occurrence that carries one. -/
def resolveExplicit (r : Registry) (name key : String) : Resolution × Registry :=
  let l := list r name
  let key := explicitInstanceKey name key
  if l.explicit.contains key then (⟨key, false⟩, Table.insert name l r)
  else (⟨key, true⟩, Table.insert name { l with explicit := l.explicit ++ [key] } r)

def keys (r : Registry) (name : String) : List String := (list r name).keys

def cursor (r : Registry) (name : String) : Nat := (list r name).cursor

end Registry

end LiveMarkup
