import LiveMarkup.Engine.Template
import LiveMarkup.Engine.Config
set_option autoImplicit false

/-! # The cache of compiled templates -/

namespace LiveMarkup

open Text

/-- The key of a template path: relative to the views directory, with `-` for path separators. -/
def cacheKey (path views : String) : String :=
  let relative :=
    if views.isEmpty then path.toList else (after? views.toList path.toList).getD path.toList
  String.ofList <|
    (relative.dropWhile isPathSeparator).map fun c => if isPathSeparator c then '-' else c

/-- The key of a component's template. No page has it, since pages are not named so. -/
def componentCacheKey (name : String) : String := "@" ++ name

abbrev TemplateCache := Table Template

namespace TemplateCache

/-- Whether a template has to be built: always in development, once in production. -/
def mustBuild (cache : TemplateCache) (key : String) (mode : Mode) : Bool :=
  mode = .development || !Table.contains key cache

/-- The template of a key, built if it has to be. A build that fails leaves the cache as it was. -/
def getOrBuild (cache : TemplateCache) (key : String) (mode : Mode)
    (build : Except EngineError Template) : Except EngineError (Template × TemplateCache) :=
  match mode, Table.get? key cache with
  | .production, some t => .ok (t, cache)
  | _, _ => build.map fun t => (t, Table.insert key t cache)

end TemplateCache

end LiveMarkup
