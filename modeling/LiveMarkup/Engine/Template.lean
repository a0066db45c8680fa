import LiveMarkup.Engine.Component
import LiveMarkup.Template.Build
import LiveMarkup.Render.Execute
set_option autoImplicit false

/-! # Compiled templates

A template is compiled once and rendered any number of times. It keeps the source that it was
compiled from, so that failures can show the lines around them. -/

namespace LiveMarkup

theorem eq_ok_of_toOption {ε α : Type} {x : Except ε α} {v : α} (h : x.toOption = some v) :
    x = .ok v := by
  cases x with
  | error e => cases h
  | ok w => exact congrArg Except.ok (Option.some.inj h)

structure Template where
  name : String
  source : String
  program : Program

namespace Template

/-- Compiles a page or block template. -/
def build (name source : String) (d : Delimiters) : Except EngineError Template := do
  let program ← (Program.compile source d).mapError (EngineError.ofSyntax name source)
  return ⟨name, source, program⟩

/-- Compiles a component template with its root marked. -/
def component (name source : String) (d : Delimiters) : Except EngineError Template := do
  build name (← ComponentSource.markRoot name source d) d

/-- Compiling a component in steps: the mark is placed, the marked source is scanned, and its
segments are folded into a program. -/
theorem component_of_segments {d : Delimiters} {name source marked : String}
    (segments : List Segment) {p : Program}
    (hmark : (ComponentSource.markRoot name source d).toOption = some marked)
    (hscan : (scan marked d).toOption = some segments)
    (hprogram : Program.ofSegments segments = .ok p) :
    component name source d = .ok ⟨name, marked, p⟩ := by
  have hcompile : Program.compile marked d = .ok p := by
    rw [Program.compile, eq_ok_of_toOption hscan]
    exact hprogram
  rw [component, eq_ok_of_toOption hmark]
  show build name marked d = _
  rw [build, hcompile]
  rfl

/-- The engine's error for a failed render of this template. -/
def renderError (t : Template) (f : RenderFailure) (withSnippet : Bool) : EngineError :=
  .render f.error.message t.name f.line
    (if withSnippet then some (snippet t.source.toList f.line) else none)

/-- Renders a template; a failed render is a result like any other. -/
def render {σ : Type} (t : Template) (c : RenderCall σ) : Run σ Rendered :=
  ExceptT.mk fun world => (t.program.execute c world).map fun (result, world') =>
    (.ok result, world')

end Template

end LiveMarkup
