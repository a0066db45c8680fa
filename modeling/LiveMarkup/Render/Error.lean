set_option autoImplicit false

/-! # Evaluation errors -/

namespace LiveMarkup

/-- Why an expression has no value or a directive cannot be carried out. -/
inductive EvalError where
  | undefinedVariable (name : String)
  | cannotReadProperty (field typeName : String)
  | assignToUndeclared (name : String)
  | notCallable (callee : String)
  | invalidArguments (directive typeName : String)
  | loopRequiresIterable (typeName : String)
  | componentNotFound (reference : String)
  /-- Raised by native code, or carried over from a failed block or component. -/
  | custom (message : String)
  deriving DecidableEq, Repr

def EvalError.message : EvalError → String
  | undefinedVariable name => name ++ " is not defined"
  | cannotReadProperty field typeName =>
    "cannot read properties of " ++ typeName ++ " (reading '" ++ field ++ "')"
  | assignToUndeclared name => "assignment to undeclared variable " ++ name
  | notCallable callee => callee ++ " is not a function"
  | invalidArguments directive typeName =>
    directive ++ " arguments must be an object, got " ++ typeName
  | loopRequiresIterable _ => "array or object required."
  | componentNotFound reference => "component not found: " ++ reference
  | custom message => message

/-- A failed render: the error, and the line of the directive that was being carried out. -/
structure RenderFailure where
  error : EvalError
  line : Nat
  deriving DecidableEq, Repr

def RenderFailure.message (f : RenderFailure) : String :=
  f.error.message ++ " (line " ++ toString f.line ++ ")"

end LiveMarkup
