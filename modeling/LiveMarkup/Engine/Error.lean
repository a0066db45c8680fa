import LiveMarkup.Expr.Error
set_option autoImplicit false

/-! # Engine errors

What keeps a template from being compiled or a page from being rendered, with the file and line at
fault where there is one. -/

namespace LiveMarkup

inductive EngineError where
  /-- A malformed directive, an unbalanced scope or a bad expression. -/
  | compile (reason file : String) (line : Nat) (snippet : String)
  /-- A compiled template failed; the snippet is there in development only. -/
  | render (reason file : String) (line : Nat) (snippet : Option String)
  | componentNotFound (reference file : String) (line : Nat)
  | emptyComponentTemplate (name : String)
  | templateNotFound (name : String)
  | missingVersion
  | invalidDelimiters (reason : String)
  | config
  deriving DecidableEq, Repr

namespace EngineError

def message : EngineError → String
  | compile reason file _ snippet => reason ++ "\nFILE: " ++ file ++ "\n" ++ snippet
  | render reason file _ (some snippet) => reason ++ "\nFILE: " ++ file ++ "\n" ++ snippet
  | render reason file line none =>
    reason ++ " (FILE: " ++ file ++ ", line " ++ toString line ++ ")"
  | componentNotFound reference file line =>
    "component not found: " ++ reference ++ " (FILE: " ++ file ++ ", line " ++ toString line ++ ")"
  | emptyComponentTemplate name =>
    "the '" ++ name ++ "' component's template must include at least one child element"
  | templateNotFound name => "template not found: " ++ name
  | missingVersion => "a valid app version is required; set one in the configuration"
  | invalidDelimiters reason => "invalid delimiters: " ++ reason
  | config => "invalid configuration"

def line? : EngineError → Option Nat
  | compile _ _ line _ => some line
  | render _ _ line _ => some line
  | componentNotFound _ _ line => some line
  | _ => none

/-- A syntax error in the source of a file. -/
def ofSyntax (file source : String) (e : SyntaxError) : EngineError :=
  compile e.fault.message file e.line (snippet source.toList e.line)

end EngineError

end LiveMarkup
