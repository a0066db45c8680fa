import LiveMarkup.Source.Lines
import LiveMarkup.Text.Blank
set_option autoImplicit false

/-! # Directives

A template is literal text with directives between an open and a close delimiter. Scanning cuts a
source into text runs and directives; what a directive is follows from the first characters between
its delimiters. A directive ends at the first close delimiter after its open one, and no open
delimiter may stand in between. -/

namespace LiveMarkup

open Text

structure Delimiters where
  opening : String
  closing : String
  deriving DecidableEq, Repr

def Delimiters.braces : Delimiters := ⟨"\x7b\x7b", "\x7d\x7d"⟩

inductive DirectiveKind where
  | escaped
  | raw
  | ifKind
  | elseKind
  | forKind
  | close
  | comment
  | block
  | component
  | code
  deriving DecidableEq, Repr

/-- The name of a kind in messages. -/
def DirectiveKind.describe : DirectiveKind → String
  | .escaped => "interpolation"
  | .raw => "raw interpolation"
  | .ifKind => "if"
  | .elseKind => "else"
  | .forKind => "for"
  | .close => "close"
  | .comment => "comment"
  | .block => "block call"
  | .component => "component call"
  | .code => "code splice"

/-- A text run, or a directive with its kind. -/
inductive SegmentKind where
  | text
  | directive (kind : DirectiveKind)
  deriving DecidableEq, Repr

/-- A piece of a source. The content of a directive is the trimmed text after its marker; that of
`if` and `for` follows the opening parenthesis, so it still ends with the closing one. The span
covers the content, the line is that of the segment's first character. -/
structure Segment where
  kind : SegmentKind
  content : List Char
  span : Span
  line : Nat
  deriving DecidableEq, Repr

/-- Why a source does not fall into segments, or a content not into tokens. -/
inductive LexError where
  | unterminated (close : String) (span : Span)
  | nested (opening : String) (span : Span)
  | invalidToken (text : String) (span : Span)
  deriving DecidableEq, Repr

namespace LexError

def span : LexError → Span
  | unterminated _ s => s
  | nested _ s => s
  | invalidToken _ s => s

def message : LexError → String
  | unterminated close _ =>
    "unterminated directive: expected `" ++ close ++ "` before end of template"
  | nested opening _ => "nested directive: `" ++ opening ++ "` found inside an open directive"
  | invalidToken text _ => "unexpected `" ++ text ++ "` in expression"

end LexError

namespace Directive

/-! ## The kind of a directive -/

/-- `$` calls a block only when blanks and then a name follow; else it is the data record. -/
def startsBlockName (rest : List Char) : Bool :=
  match rest with
  | c :: _ =>
    isBlank c &&
      (match trimStart rest with
      | n :: _ => isAsciiLetter n || n == '_'
      | [] => false)
  | [] => false

/-- A keyword, blanks, and an opening parenthesis; what follows it. -/
def afterHeader? (keyword : String) (body : List Char) : Option (List Char) :=
  match after? keyword.toList body with
  | some rest =>
    match trimStart rest with
    | '(' :: inner => some inner
    | _ => none
  | none => none

/-- The kind of a directive body without leading blanks, and the part that is its content. -/
def classify (body : List Char) : DirectiveKind × List Char :=
  match body with
  | '#' :: rest => (.comment, rest)
  | '/' :: rest => (.close, rest)
  | '-' :: rest => (.raw, rest)
  | '>' :: rest => (.code, rest)
  | '@' :: rest => (.component, rest)
  | _ =>
    match (match body with
      | '$' :: rest => if startsBlockName rest then some rest else none
      | _ => none) with
    | some rest => (.block, rest)
    | none =>
      match afterHeader? "for" body with
      | some inner => (.forKind, inner)
      | none =>
        match afterHeader? "if" body with
        | some inner => (.ifKind, inner)
        | none =>
          match after? "else".toList body with
          | some rest =>
            if rest.head?.any isNameChar then (.escaped, body) else (.elseKind, rest)
          | none => (.escaped, body)

/-- The content of a directive whose inside is `raw`, and how many bytes of `raw` precede it. -/
def content (raw : List Char) : DirectiveKind × Nat × List Char :=
  let (kind, tail) := classify (trimStart raw)
  let inner := trimStart tail
  (kind, byteLength raw - byteLength inner, trimEnd inner)

end Directive

namespace Segment

/-- The text run that starts at a byte offset and line. -/
def ofText (offset line : Nat) (text : List Char) : Segment :=
  ⟨.text, text, Span.clamped offset (offset + byteLength text), line⟩

/-- The directive whose open delimiter is on `line` and whose inside starts at `offset`. -/
def ofDirective (offset line : Nat) (raw : List Char) : Segment :=
  let (kind, lead, content) := Directive.content raw
  ⟨.directive kind, content,
    Span.clamped (offset + lead) (offset + lead + byteLength content), line⟩

end Segment

/-! ## Scanning -/

/-- The segments of a rest of a source that starts at a byte offset and line. -/
def scanFrom (d : Delimiters) (offset line : Nat) (source : List Char) :
    Except LexError (List Segment) :=
  match hcut : cut? d.opening.toList source with
  | none => .ok (if source.isEmpty then [] else [Segment.ofText offset line source])
  | some (text, tail) =>
    let start := offset + byteLength text
    let inside := start + byteLength d.opening.toList
    match hclose : cut? d.closing.toList tail with
    | none => .error (.unterminated d.closing (Span.clamped start (inside + byteLength tail)))
    | some (raw, rest) =>
      match hnested : cut? d.opening.toList raw with
      | some (lead, _) =>
        let found := inside + byteLength lead
        .error (.nested d.opening
          (Span.clamped found (found + byteLength d.opening.toList)))
      | none =>
        have shorter : rest.length < source.length := by
          have ho : d.opening.toList ≠ [] := by
            intro hnil
            rw [hnil, cut?_nil] at hnested
            cases hnested
          exact Nat.lt_of_le_of_lt (length_le_of_cut? hclose) (length_lt_of_cut? ho hcut)
        let at_ := line + lineFeeds text
        let passed := d.opening.toList ++ raw ++ d.closing.toList
        let following :=
          scanFrom d (start + byteLength passed) (at_ + lineFeeds passed) rest
        following.map fun segments =>
          let directive := Segment.ofDirective inside at_ raw
          if text.isEmpty then directive :: segments
          else Segment.ofText offset line text :: directive :: segments
termination_by source.length

/-- Cuts a template source into text runs and directives. -/
def scan (source : String) (d : Delimiters) : Except LexError (List Segment) :=
  scanFrom d 0 1 source.toList

end LiveMarkup
