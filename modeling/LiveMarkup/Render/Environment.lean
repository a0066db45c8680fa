import LiveMarkup.Value
set_option autoImplicit false

/-! # Scopes

Loop bodies and branches open a scope; declarations bind in the innermost one. A name that no scope
binds is looked up in the data record, which is not part of the environment. -/

namespace LiveMarkup

/-- The scopes of a render, innermost first; the outermost one always exists. -/
structure Environment where
  innermost : Table Value
  outer : List (Table Value)

namespace Environment

def empty : Environment := ⟨[], []⟩

def push (e : Environment) : Environment := ⟨[], e.innermost :: e.outer⟩

/-- Drops the innermost scope, unless it is the last. -/
def pop (e : Environment) : Environment :=
  match e.outer with
  | [] => e
  | scope :: rest => ⟨scope, rest⟩

def depth (e : Environment) : Nat := e.outer.length + 1

/-- Binds a name in the innermost scope. -/
def define (e : Environment) (name : String) (v : Value) : Environment :=
  { e with innermost := Table.insert name v e.innermost }

def lookupIn (name : String) : List (Table Value) → Option Value
  | [] => none
  | scope :: rest =>
    match Table.get? name scope with
    | some v => some v
    | none => lookupIn name rest

def lookup? (e : Environment) (name : String) : Option Value :=
  lookupIn name (e.innermost :: e.outer)

def assignIn (name : String) (v : Value) : List (Table Value) → Option (List (Table Value))
  | [] => none
  | scope :: rest =>
    if Table.contains name scope then some (Table.insert name v scope :: rest)
    else (assignIn name v rest).map (scope :: ·)

/-- Writes the nearest binding of a name, if any scope binds it. -/
def assign? (e : Environment) (name : String) (v : Value) : Option Environment :=
  if Table.contains name e.innermost then some (e.define name v)
  else (assignIn name v e.outer).map fun outer => { e with outer }

@[simp] theorem pop_push (e : Environment) : e.push.pop = e := rfl

end Environment

end LiveMarkup
