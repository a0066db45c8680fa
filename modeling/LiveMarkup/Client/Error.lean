import LiveMarkup.Engine.Error
import LiveMarkup.Render.Error
set_option autoImplicit false

/-! # Client errors -/

namespace LiveMarkup

/-- Why an operation of the client fails. -/
inductive ClientError where
  /-- An instance without a fallback failed to render. -/
  | render (component key message : String) (line : Nat)
  | unknownComponent (name : String)
  /-- An event handler or an argument of its binding failed. -/
  | callback (context : String) (error : EvalError)
  /-- An event attribute is no binding, or binds a handler that does not exist. -/
  | eventBinding (binding reason : String)
  /-- The props of the page are no JSON text. -/
  | pageProps
  /-- A template does not compile. -/
  | template (error : EngineError)

/-- What is told about an error. The fault in the props of a page is not located. -/
def ClientError.message : ClientError → String
  | render component key message line =>
    "render of " ++ component ++ ":" ++ key ++ " failed: " ++ message ++ " (line " ++
      toString line ++ ")"
  | unknownComponent name => "unknown component: " ++ name
  | callback context error => context ++ ": " ++ error.message
  | eventBinding binding reason => "malformed event binding `" ++ binding ++ "`: " ++ reason
  | pageProps => "malformed page props"
  | template error => error.message

end LiveMarkup
