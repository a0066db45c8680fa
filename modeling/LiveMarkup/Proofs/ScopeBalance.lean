import LiveMarkup.Directive
set_option autoImplicit false

/-! # Balanced segments

The directives `if` and `for` open a scope and a close directive ends one. Segments are matched when
every close directive has an open scope to end, and balanced when besides none is left open. Both
are said by counting, so that they do not depend on how a compiler keeps its scopes. -/

namespace LiveMarkup

namespace Segment

def opensScope (s : Segment) : Bool :=
  s.kind == .directive .ifKind || s.kind == .directive .forKind

def closesScope (s : Segment) : Bool := s.kind == .directive .close

/-- No segment both opens and closes a scope. -/
theorem closesScope_of_opensScope {s : Segment} (h : s.opensScope = true) :
    s.closesScope = false := by
  unfold opensScope at h
  unfold closesScope
  cases hk : s.kind with
  | text => rfl
  | directive kind => cases kind <;> simp_all

theorem opensScope_of_closesScope {s : Segment} (h : s.closesScope = true) :
    s.opensScope = false := by
  cases ho : s.opensScope with
  | false => rfl
  | true => exact absurd (closesScope_of_opensScope ho) (by simp [h])

end Segment

namespace Scopes

def openings (segments : List Segment) : Nat := segments.countP Segment.opensScope

def closings (segments : List Segment) : Nat := segments.countP Segment.closesScope

@[simp] theorem openings_nil : openings [] = 0 := rfl

@[simp] theorem closings_nil : closings [] = 0 := rfl

@[simp] theorem openings_append (a b : List Segment) :
    openings (a ++ b) = openings a + openings b := List.countP_append

@[simp] theorem closings_append (a b : List Segment) :
    closings (a ++ b) = closings a + closings b := List.countP_append

theorem openings_cons (s : Segment) (rest : List Segment) :
    openings (s :: rest) = openings rest + if s.opensScope then 1 else 0 := List.countP_cons

theorem closings_cons (s : Segment) (rest : List Segment) :
    closings (s :: rest) = closings rest + if s.closesScope then 1 else 0 := List.countP_cons

/-- Every close directive has an open scope: no beginning closes more scopes than it opens. -/
def Matched (segments : List Segment) : Prop :=
  ∀ n, closings (segments.take n) ≤ openings (segments.take n)

/-- Every close directive has an open scope, and none is left open. -/
structure Balanced (segments : List Segment) : Prop where
  matched : Matched segments
  complete : closings segments = openings segments

/-! ## Putting sequences together -/

theorem matched_nil : Matched [] := fun n => by simp

theorem balanced_nil : Balanced [] := ⟨matched_nil, rfl⟩

theorem Matched.append {a b : List Segment} (ha : Matched a) (hb : Matched b) :
    Matched (a ++ b) := by
  intro n
  have h1 := ha n
  have h2 := hb (n - a.length)
  simp only [List.take_append, openings_append, closings_append]
  omega

theorem Balanced.append {a b : List Segment} (ha : Balanced a) (hb : Balanced b) :
    Balanced (a ++ b) :=
  ⟨ha.matched.append hb.matched, by
    rw [closings_append, openings_append, ha.complete, hb.complete]⟩

/-- A segment before matched ones does no harm unless it closes a scope. -/
theorem matched_cons {s : Segment} {rest : List Segment} (hs : s.closesScope = false)
    (h : Matched rest) : Matched (s :: rest) := by
  intro n
  cases n with
  | zero => simp
  | succ n =>
      have := h n
      rw [List.take_succ_cons, closings_cons, openings_cons, hs]
      simp only [Bool.false_eq_true, if_false]
      omega

theorem balanced_singleton {s : Segment} (ho : s.opensScope = false) (hc : s.closesScope = false) :
    Balanced [s] :=
  ⟨matched_cons hc matched_nil, by rw [closings_cons, openings_cons, ho, hc]; rfl⟩

/-- A close directive is matched behind segments that leave a scope open. -/
theorem Matched.close {before : List Segment} {c : Segment} (h : Matched before)
    (hopen : closings before < openings before) : Matched (before ++ [c]) := by
  intro n
  rw [List.take_append, openings_append, closings_append]
  have hn := h n
  cases hm : n - before.length with
  | zero => simpa using hn
  | succ m =>
      -- the close directive is reached, so all that stands before it is taken
      rw [List.take_of_length_le (show before.length ≤ n by omega)]
      have : closings [c] ≤ 1 := List.countP_le_length
      simp only [List.take_succ_cons, List.take_nil]
      omega

/-- An opening directive and its close directive around balanced segments. -/
theorem Balanced.enclose {s c : Segment} {inside : List Segment} (h : Balanced inside)
    (hs : s.opensScope = true) (hc : c.closesScope = true) :
    Balanced (s :: inside ++ [c]) := by
  have hsc := Segment.closesScope_of_opensScope hs
  have hco := Segment.opensScope_of_closesScope hc
  have hcomplete := h.complete
  have hcount : closings (s :: inside) + 1 = openings (s :: inside) := by
    rw [closings_cons, openings_cons, hs, hsc]
    simpa using hcomplete
  refine ⟨(matched_cons hsc h.matched).close (by omega), ?_⟩
  rw [closings_append, openings_append, closings_cons c, openings_cons c, hc, hco]
  simpa using hcount

/-! ## What is wrong with segments that are not balanced -/

/-- The first close directive without an open scope: before it every scope is closed. -/
def FirstUnmatched (segments : List Segment) (s : Segment) : Prop :=
  ∃ before after, segments = before ++ s :: after ∧ s.closesScope = true ∧ Balanced before

/-- The innermost scope that is left open: after its opening directive every scope is closed. -/
def InnermostOpen (segments : List Segment) (s : Segment) : Prop :=
  ∃ before after, segments = before ++ s :: after ∧ s.opensScope = true ∧ Balanced after

theorem not_matched_of_firstUnmatched {segments : List Segment} {s : Segment}
    (h : FirstUnmatched segments s) : ¬ Matched segments := by
  obtain ⟨before, after, rfl, hs, hb⟩ := h
  intro hmatched
  have hle := hmatched (before.length + 1)
  have hcount := hb.complete
  have ho := Segment.opensScope_of_closesScope hs
  rw [List.take_append, List.take_of_length_le (by omega), Nat.add_sub_cancel_left,
    List.take_succ_cons, List.take_zero] at hle
  simp only [openings_append, closings_append, closings_cons, openings_cons, closings_nil,
    openings_nil, hs, ho, if_true, Bool.false_eq_true, if_false] at hle
  omega

theorem not_balanced_of_firstUnmatched {segments : List Segment} {s : Segment}
    (h : FirstUnmatched segments s) : ¬ Balanced segments :=
  fun hbal => not_matched_of_firstUnmatched h hbal.matched

theorem not_balanced_of_innermostOpen {segments : List Segment} {s : Segment}
    (h : InnermostOpen segments s) : ¬ Balanced segments := by
  obtain ⟨before, after, rfl, hs, hb⟩ := h
  intro hbal
  have hle := hbal.matched before.length
  have hcount := hbal.complete
  have hafter := hb.complete
  have hc := Segment.closesScope_of_opensScope hs
  rw [List.take_left] at hle
  simp only [openings_append, closings_append, closings_cons, openings_cons, hs, hc, if_true,
    Bool.false_eq_true, if_false] at hcount
  omega

/-- There is one innermost scope that is left open. -/
theorem innermostOpen_unique {before before' after after' : List Segment} {s s' : Segment}
    (h : before ++ s :: after = before' ++ s' :: after') (hs : s.opensScope = true)
    (hs' : s'.opensScope = true) (hafter : Balanced after) (hafter' : Balanced after') :
    before = before' ∧ s = s' := by
  have hbehind : ∀ {mid more : List Segment} {t : Segment}, t.opensScope = true → Balanced more →
      ¬ Balanced (mid ++ t :: more) :=
    fun ht hmore => not_balanced_of_innermostOpen ⟨_, _, rfl, ht, hmore⟩
  obtain ⟨mid, rfl, hrest⟩ | ⟨mid, rfl, hrest⟩ := List.append_eq_append_iff.mp h
  · cases mid with
    | nil => exact ⟨(List.append_nil _).symm, (List.cons.inj hrest).1⟩
    | cons t mid => exact absurd ((List.cons.inj hrest).2 ▸ hafter) (hbehind hs' hafter')
  · cases mid with
    | nil => exact ⟨List.append_nil _, (List.cons.inj hrest).1.symm⟩
    | cons t mid => exact absurd ((List.cons.inj hrest).2 ▸ hafter') (hbehind hs hafter)

end Scopes

end LiveMarkup
