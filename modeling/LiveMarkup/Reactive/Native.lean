import LiveMarkup.Reactive.Store
import LiveMarkup.Text.Search
set_option autoImplicit false

/-! # Calling native functions -/

namespace LiveMarkup

/-- The operation with a given name; a name that none has stands for the identity. -/
def NativeOp.ofName (name : String) : NativeOp :=
  if name = "double" then .double
  else if name = "upper" then .upper
  else if name = "join" then .join
  else if name = "count" then .count
  else if name = "fail" then .fail
  else if name = "markup" then .markup
  else if name = "curry" then .curry
  else .echo

namespace NativeFn

/-- The first argument, null when it is missing. -/
def argument (args : List Value) : Value := args.head?.getD .null

/-- Calls a function on the store. -/
def call (budget : Nat) (f : NativeFn) (args : List Value) : Run Store Value :=
  let first := argument args
  match f.op with
  | .double => pure (.float (first.toNumber * 2))
  | .upper => pure (.str (Text.asciiUpper first.display))
  | .join => pure (.str ("|".intercalate (args.map Value.display)))
  | .count => pure (.int (Int64.ofNat args.length))
  | .fail => .failed (.custom "fail called")
  | .markup => pure (.markup first.display)
  | .curry => do
    let ident ← Run.update Store.fresh
    return .function ⟨ident, "curried", .addTo first.toNumber⟩
  | .addTo x => pure (.float (x + ((args.head?.map Value.toNumber).getD 0)))
  | .echo => pure first
  | .readState signal key => do
    match signal with
    | some i => return (← get).read i key
    | none => return .null
  | .writeState signal key => do
    match signal with
    | some i => Store.set budget i key first
    | none => pure ()
    return .null

end NativeFn

/-- Methods as functions with identities of their own. -/
def Store.nameMethods (s : Store) : List (String × NativeOp) → List NativeFn × Store
  | [] => ([], s)
  | (name, op) :: rest =>
    let (ident, s) := s.fresh
    let (named, s) := s.nameMethods rest
    (⟨ident, name, op⟩ :: named, s)

/-- The services of a store to a render. -/
def Store.host (budget : Nat) : Host Store where
  fresh := Store.fresh
  call := NativeFn.call budget

end LiveMarkup
