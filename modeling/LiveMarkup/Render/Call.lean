import LiveMarkup.Render.Error
import LiveMarkup.Render.HostProps
set_option autoImplicit false

/-! # Rendering as a calling convention

A render gets its data record and the services it calls back into: native functions, blocks and
nested components. All of them may change a world that the renderer knows nothing about, may fail,
and may turn out not to end, which shows as no result at all. -/

namespace LiveMarkup

/-- A computation over a world. A failure keeps the changes made before it; `none` stands for a
computation that exceeds every budget. -/
abbrev Run (σ : Type) := ExceptT EvalError (StateT σ Option)

namespace Run

variable {σ : Type} {α : Type}

/-- Exceeding the budget. -/
def exhausted : Run σ α := ExceptT.mk fun _ => none

/-- Starts a computation in a world. -/
def start (x : Run σ α) (world : σ) : Option (Except EvalError α × σ) := ExceptT.run x world

def failed (e : EvalError) : Run σ α := ExceptT.mk fun world => some (.error e, world)

/-- A result that does not depend on the world. -/
def ofExcept : Except EvalError α → Run σ α
  | .ok a => pure a
  | .error e => failed e

/-- Reads and changes the world. -/
def update (f : σ → α × σ) : Run σ α :=
  ExceptT.mk fun world => some (.ok (f world).1, (f world).2)

/-- Carries out a computation and hands on its failure as a result. -/
def attempt (x : Run σ α) : Run σ (Except EvalError α) :=
  ExceptT.mk fun world => (x.start world).map fun (result, world') => (.ok result, world')

/-- The failure of a computation, if it fails. -/
def failure? (x : Run σ α) : Run σ (Option EvalError) := do
  match ← x.attempt with
  | .ok _ => return none
  | .error e => return some e

/-- Carries out a computation over a part of the world. -/
def within {τ : Type} (part : σ → τ) (put : τ → σ → σ) (x : Run τ α) : Run σ α :=
  ExceptT.mk fun world =>
    (x.start (part world)).map fun (result, p) => (result, put p world)

end Run

/-- What native code may do to the world: give out identities and be called. -/
structure Host (σ : Type) where
  fresh : σ → Ident × σ
  call : NativeFn → List Value → Run σ Value

/-- The arguments of one render. -/
structure RenderCall (σ : Type) where
  host : Host σ
  data : Value
  instanceKey : Option String
  /-- The props recorded so far, where the page makes them available. -/
  hostProps : Option (Run σ Value)
  isServer : Bool
  /-- Whether the component being rendered is visible. -/
  visible : Bool
  block : String → Value → Run σ String
  child : String → Value → Bool → Run σ Value

/-- A render of a template on its own: no block shows anything, no component is found. -/
def RenderCall.plain {σ : Type} (host : Host σ) (data : Value) : RenderCall σ where
  host := host
  data := data
  instanceKey := none
  hostProps := none
  isServer := true
  visible := true
  block := fun _ _ => pure ""
  child := fun reference _ _ => .failed (.componentNotFound reference)

end LiveMarkup
