import LiveMarkup.Engine.Error
import LiveMarkup.Json.Select
import LiveMarkup.Text.Blank
set_option autoImplicit false

/-! # Configuration -/

namespace LiveMarkup

open Text

inductive Mode where
  /-- Templates are compiled for every render, and errors show source lines. -/
  | development
  /-- Templates are compiled once. -/
  | production
  deriving DecidableEq, Repr

def Mode.name : Mode → String
  | .development => "development"
  | .production => "production"

structure Config where
  mode : Mode
  delimiters : Delimiters
  /-- Extension of template files, without the point. -/
  ext : String
  /-- The directory that cache keys are relative to. -/
  views : String
  /-- Version of the application, which must be set. -/
  version : Option String
  /-- Port of the socket that reloads pages in development. -/
  wsPort : Nat
  deriving DecidableEq, Repr

namespace Config

def standard : Config := ⟨.development, .braces, "html", "views", none, 5501⟩

def isDev (c : Config) : Bool := c.mode = .development

/-- A version that is not blank, and two delimiters that are not empty and differ. -/
def validate (c : Config) : Except EngineError Unit :=
  if c.version.all fun v => (trim v.toList).isEmpty then .error .missingVersion
  else if c.delimiters.opening.isEmpty || c.delimiters.closing.isEmpty then
    .error (.invalidDelimiters "delimiters must not be empty")
  else if c.delimiters.opening = c.delimiters.closing then
    .error (.invalidDelimiters "open and close delimiters must differ")
  else .ok ()

/-! ## From the environment -/

/-- The mode that a variable names; all but the names of development mean production. -/
def modeNamed (s : String) : Mode :=
  let name := asciiLower (trimmed s)
  if name = "dev" ∨ name = "development" then .development else .production

/-- A port number in decimal, with an optional plus sign. -/
def portOf? (s : String) : Option Nat :=
  let digits :=
    match trim s.toList with
    | '+' :: rest => rest
    | s => s
  if digits.isEmpty || !digits.all isAsciiDigit then none
  else
    let n := Decimal.numeral digits
    if n < UInt16.size then some n else none

/-- The standard configuration with the mode and port of two environment variables. -/
def ofEnvironment (mode port : Option String) : Config :=
  let c := standard
  { c with
    mode := (mode.map modeNamed).getD c.mode
    wsPort := (port.bind portOf?).getD c.wsPort }

/-! ## From JSON -/

def modeOfJson? : Json → Option Mode
  | .str s =>
    if s = "development" then some .development
    else if s = "production" then some .production
    else none
  | .object [(s, .null)] =>
    if s = "development" then some .development
    else if s = "production" then some .production
    else none
  | _ => none

def textOfJson? : Json → Option String
  | .str s => some s
  | _ => none

def fieldNames : List String :=
  ["mode", "open_delimiter", "close_delimiter", "ext", "views", "version", "ws_port"]

/-- Whether a member of a document is a field. -/
def isField (name : String) : Bool := fieldNames.contains name

/-- Sets the field of a given name. -/
def setField? (c : Config) (name : String) (j : Json) : Option Config :=
  if name = "mode" then (modeOfJson? j).map fun mode => { c with mode }
  else if name = "open_delimiter" then
    (textOfJson? j).map fun s => { c with delimiters := ⟨s, c.delimiters.closing⟩ }
  else if name = "close_delimiter" then
    (textOfJson? j).map fun s => { c with delimiters := ⟨c.delimiters.opening, s⟩ }
  else if name = "ext" then (textOfJson? j).map fun ext => { c with ext }
  else if name = "views" then (textOfJson? j).map fun views => { c with views }
  else if name = "version" then
    match j with
    | .null => some { c with version := none }
    | .str s => some { c with version := some s }
    | _ => none
  else if name = "ws_port" then
    match j with
    | .int n => if 0 ≤ n ∧ n < UInt16.size then some { c with wsPort := n.toNat } else none
    | _ => none
  else some c

def setFields? (c : Config) (entries : List (String × Json)) : Option Config :=
  entries.foldlM (fun c entry => c.setField? entry.1 entry.2) c

/-- The standard configuration with the fields of a document: an object that gives no field twice,
or a list of the first fields in order. -/
def ofDocument? : Json → Option Config
  | .object fields =>
    let names := fields.map Prod.fst
    if names.length = names.eraseDups.length then standard.setFields? fields else none
  | .array items =>
    if items.length ≤ fieldNames.length then standard.setFields? (fieldNames.zip items) else none
  | _ => none

/-- Reads a configuration. Members of the document that are no fields are not looked into. -/
def ofJson (text : String) : Except EngineError Config :=
  match (Json.select? isField text).bind ofDocument? with
  | some c => .ok c
  | none => .error .config

end Config

end LiveMarkup
