import LiveMarkup.Value
set_option autoImplicit false

/-! # Declared props

A component may declare the types of its props. Props that are missing become an empty text; props
of another type are reported and kept. -/

namespace LiveMarkup

inductive PropType where
  | string
  | number
  | boolean
  | array
  | object
  | function
  deriving DecidableEq, Repr

namespace PropType

/-- The coarse type name that a prop of this type has; lists are objects in it. -/
def expected : PropType → String
  | string => "string"
  | number => "number"
  | boolean => "boolean"
  | array => "object"
  | object => "object"
  | function => "function"

def ofName? (name : String) : Option PropType :=
  if name = "string" then some string
  else if name = "number" then some number
  else if name = "boolean" then some boolean
  else if name = "array" then some array
  else if name = "object" then some object
  else if name = "function" then some function
  else none

end PropType

inductive PropWarning where
  | missing (key : String)
  | mismatch (key expected actual : String)
  deriving DecidableEq, Repr

def PropWarning.message : PropWarning → String
  | missing key => "the property '" ++ key ++ "' is not defined; ensure it is passed as a prop"
  | mismatch key expected actual =>
    "property '" ++ key ++ "' expects type '" ++ expected ++ "', but received type '" ++
      actual ++ "'"

/-- Checks props against declared types in order, filling in what is missing. -/
def checkProps : List (String × PropType) → Table Value → List PropWarning × Table Value
  | [], props => ([], props)
  | (key, type) :: rest, props =>
    match Table.get? key props with
    | none =>
      let (warnings, props) := checkProps rest (Table.insert key (.str "") props)
      (.missing key :: warnings, props)
    | some v =>
      let (warnings, props) := checkProps rest props
      if v.typeofName = type.expected then (warnings, props)
      else (.mismatch key type.expected v.typeofName :: warnings, props)

end LiveMarkup
