set_option autoImplicit false

/-! # Spans

A span is a half-open range of byte offsets into a template source. Offsets are held in 32 bits:
what lies past the last of them is reported at the last of them. -/

namespace LiveMarkup

/-- The last offset a span can name. -/
def Span.limit : Nat := UInt32.size - 1

structure Span where
  start : Nat
  stop : Nat
  deriving DecidableEq, Repr, Inhabited

namespace Span

/-- The span of a range of offsets of any size. -/
def clamped (start stop : Nat) : Span := ⟨min start limit, min stop limit⟩

/-- The empty span at the end of `s`. -/
def afterEnd (s : Span) : Span := ⟨s.stop, s.stop⟩

/-- A range that ends before it starts has no length. -/
def length (s : Span) : Nat := s.stop - s.start

def isEmpty (s : Span) : Bool := s.stop ≤ s.start

def contains (s : Span) (offset : Nat) : Bool := s.start ≤ offset && offset < s.stop

/-- The least span that covers both. -/
def merge (s t : Span) : Span := ⟨min s.start t.start, max s.stop t.stop⟩

/-- Moves a span forward: offsets inside a directive become offsets into its template. -/
def shift (s : Span) (by_ : Nat) : Span := clamped (s.start + by_) (s.stop + by_)

def text (s : Span) : String := toString s.start ++ ".." ++ toString s.stop

/-- Merging covers what either span covers. -/
theorem contains_merge {s t : Span} {offset : Nat}
    (h : s.contains offset = true ∨ t.contains offset = true) :
    (s.merge t).contains offset = true := by
  grind [contains, merge]

end Span

end LiveMarkup
