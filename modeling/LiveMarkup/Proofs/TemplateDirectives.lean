import LiveMarkup.Proofs.Expr.Reading
import LiveMarkup.Proofs.ScopeBalance
import LiveMarkup.Template.Build
import Mathlib
set_option autoImplicit false

/-! # Programs as sequences of directives

A program is a tree, the template it comes from is a sequence. `Node.flatten` writes the tree out as
the sequence of its directives again, and `Program.flatten_compile` says that compiling loses,
doubles and reorders nothing: what is written out are the directives of the template in their order,
less the comments and the `else` directives that have no `if` to continue. -/

namespace LiveMarkup

/-! ## Items -/

/-- A text or directive as far as a program records it. -/
inductive Item where
  | text (s : String)
  | interpolate (expr : Expr) (escape : Bool) (line : Nat)
  | choice (condition : Expr) (line : Nat)
  | elseIf (condition : Expr) (line : Nat)
  | otherwise
  | loop (binding : LoopBinding) (subject : Expr) (line : Nat)
  | close
  | block (name : String) (args : Expr) (line : Nat)
  | component (reference : String) (args : Expr) (line : Nat)
  | code (stmts : List Stmt) (line : Nat)

/-- What a segment says, if its header is well formed: a comment says nothing, all else is one
item. -/
def Segment.items (s : Segment) : Except SyntaxError (List Item) :=
  let content := Content.ofSegment s
  match s.kind with
  | .text => .ok [.text (String.ofList s.content)]
  | .directive .comment => .ok []
  | .directive .escaped => return [.interpolate (← content.expression) true s.line]
  | .directive .raw => return [.interpolate (← content.expression) false s.line]
  | .directive .ifKind => return [.choice (← content.condition) s.line]
  | .directive .elseKind =>
    return [(← content.elseCondition).elim .otherwise fun c => .elseIf c s.line]
  | .directive .forKind => do
    let (binding, subject) ← content.loopHeader
    return [.loop binding subject s.line]
  | .directive .close => .ok [.close]
  | .directive .block => do
    let (name, args) ← content.callHeader "block"
    return [.block name args s.line]
  | .directive .component => do
    let (reference, args) ← content.callHeader "component"
    return [.component reference args s.line]
  | .directive .code => return [.code (← content.statements) s.line]

namespace Node

mutual

/-- The directives of a node, in the order of the template. -/
def flatten : Node → List Item
  | text s => [.text s]
  | interpolate e escape line => [.interpolate e escape line]
  | choose arms otherwise =>
    flattenArms true arms ++
      (match otherwise with
      | some body => .otherwise :: flattenAll body
      | none => []) ++ [.close]
  | loop binding subject body line => .loop binding subject line :: flattenAll body ++ [.close]
  | block name args line => [.block name args line]
  | component reference args line => [.component reference args line]
  | code stmts line => [.code stmts line]

def flattenAll : List Node → List Item
  | [] => []
  | n :: rest => flatten n ++ flattenAll rest

/-- The arms of an `if`; the first one opens it, the others go on with `else if`. -/
def flattenArms (first : Bool) : List Arm → List Item
  | [] => []
  | .arm condition body line :: rest =>
    (if first then .choice condition line else .elseIf condition line) ::
      flattenAll body ++ flattenArms false rest

end

theorem flattenAll_append (a b : List Node) :
    flattenAll (a ++ b) = flattenAll a ++ flattenAll b := by
  induction a with
  | nil => rfl
  | cons n rest ih => simp [flattenAll, ih]

theorem flattenAll_append_singleton (nodes : List Node) (n : Node) :
    flattenAll (nodes ++ [n]) = flattenAll nodes ++ flatten n := by
  simp [flattenAll_append, flattenAll]

theorem flattenArms_append (first : Bool) (a b : List Arm) :
    flattenArms first (a ++ b) = flattenArms first a ++ flattenArms (first && a.isEmpty) b := by
  induction a generalizing first with
  | nil => simp [flattenArms]
  | cons arm rest ih =>
      cases arm
      simp [flattenArms, ih]

end Node

/-! ## Ignored directives

Which `else` directives count depends on the scopes that are open, and on nothing else about the
directives before. -/

/-- An open scope: a loop, or an `if` that still waits for its final `else` or does not. -/
inductive OpenScope where
  | choice (waiting : Bool)
  | loop
  deriving DecidableEq, Repr

namespace Item

/-- Whether an item counts when the given scopes are open, innermost first: an `else` does when the
innermost one is an `if` that waits for its final `else`, all else always does. -/
def counts (scopes : List OpenScope) : Item → Bool
  | elseIf _ _ => scopes.head? = some (.choice true)
  | otherwise => scopes.head? = some (.choice true)
  | _ => true

/-- The open scopes after an item. -/
def scopesAfter (scopes : List OpenScope) : Item → List OpenScope
  | choice _ _ => .choice true :: scopes
  | loop _ _ _ => .loop :: scopes
  | otherwise => if scopes.head? = some (.choice true) then .choice false :: scopes.tail else scopes
  | close => scopes.tail
  | _ => scopes

/-- The items that count. -/
def counting (scopes : List OpenScope) : List Item → List Item
  | [] => []
  | i :: rest =>
    if i.counts scopes then i :: counting (i.scopesAfter scopes) rest
    else counting (i.scopesAfter scopes) rest

def opensScope : Item → Bool
  | choice _ _ => true
  | loop _ _ _ => true
  | _ => false

def closesScope : Item → Bool
  | close => true
  | _ => false

end Item

/-! ## Templates read in part

What has been read so far can be written out as well: the open scopes, outermost first, without
their close directives. -/

/-- The directives that opened a scope and led to its present branch. -/
def Scope.flatten : Scope → List Item
  | .choose done (some (condition, line)) _ _ =>
    Node.flattenArms true done ++
      [if done.isEmpty then .choice condition line else .elseIf condition line]
  | .choose done none _ _ => Node.flattenArms true done ++ [.otherwise]
  | .loop binding subject _ line => [.loop binding subject line]

def Scope.shape : Scope → OpenScope
  | .choose _ pending _ _ => .choice pending.isSome
  | .loop _ _ _ _ => .loop

namespace Unfinished

def flattenFrames (outside : List Node) : List Frame → List Item
  | [] => Node.flattenAll outside.reverse
  | f :: fs => flattenFrames outside fs ++ f.scope.flatten ++ Node.flattenAll f.nodes.reverse

/-- All that has been read, as the sequence it came from. -/
def flatten (u : Unfinished) : List Item := flattenFrames u.outside u.frames

/-- The open scopes, innermost first. -/
def shape (u : Unfinished) : List OpenScope := u.frames.map fun f => f.scope.shape

theorem flatten_push (u : Unfinished) (n : Node) : (u.push n).flatten = u.flatten ++ n.flatten := by
  obtain ⟨frames, outside⟩ := u
  cases frames with
  | nil => simp [push, flatten, flattenFrames, Node.flattenAll_append_singleton]
  | cons f fs => simp [push, flatten, flattenFrames, Node.flattenAll_append_singleton]

theorem shape_push (u : Unfinished) (n : Node) : (u.push n).shape = u.shape := by
  obtain ⟨frames, outside⟩ := u
  cases frames <;> rfl

theorem flatten_opened (u : Unfinished) (s : Scope) :
    (u.opened s).flatten = u.flatten ++ s.flatten := by
  simp [opened, flatten, flattenFrames, Node.flattenAll]

/-- An `else` that continues an `if` ends its present branch and starts the next one. -/
theorem flatten_switchBranch {u : Unfinished} (h : u.shape.head? = some (.choice true))
    (condition : Option Expr) (line : Nat) :
    (u.switchBranch condition line).flatten =
        u.flatten ++ [condition.elim .otherwise fun c => .elseIf c line] ∧
      (u.switchBranch condition line).shape = .choice condition.isSome :: u.shape.tail := by
  obtain ⟨frames, outside⟩ := u
  match frames with
  | [] => cases h
  | ⟨.loop _ _ _ _, _⟩ :: _ => cases h
  | ⟨.choose _ none _ _, _⟩ :: _ => cases h
  | ⟨.choose done (some (current, armLine)) span ifLine, nodes⟩ :: fs =>
      constructor
      · cases condition <;>
          simp [switchBranch, flatten, flattenFrames, Scope.flatten, Node.flattenArms_append,
            Node.flattenArms, Node.flattenAll]
      · cases condition <;> rfl

theorem switchBranch_of_not {u : Unfinished} (h : u.shape.head? ≠ some (.choice true))
    (condition : Option Expr) (line : Nat) : u.switchBranch condition line = u := by
  obtain ⟨frames, outside⟩ := u
  match frames with
  | [] => rfl
  | ⟨.loop _ _ _ _, _⟩ :: _ => rfl
  | ⟨.choose _ none _ _, _⟩ :: _ => rfl
  | ⟨.choose _ (some _) _ _, _⟩ :: _ => exact absurd rfl h

/-- The node of a closed scope is written out as the scope was, with the close directive. -/
theorem flatten_closedNode (f : Frame) :
    (closedNode f).flatten = f.scope.flatten ++ Node.flattenAll f.nodes.reverse ++ [.close] := by
  match f with
  | ⟨.choose done (some (condition, line)) _ _, nodes⟩ =>
      simp [closedNode, Node.flatten, Scope.flatten, Node.flattenArms_append, Node.flattenArms]
  | ⟨.choose done none _ _, nodes⟩ => simp [closedNode, Node.flatten, Scope.flatten]
  | ⟨.loop binding subject _ line, nodes⟩ => simp [closedNode, Node.flatten, Scope.flatten]

/-! ## One item -/

/-- Takes in one item of a segment. -/
def take (u : Unfinished) (s : Segment) : Item → Except SyntaxError Unfinished
  | .text t => .ok (u.push (.text t))
  | .interpolate e escape line => .ok (u.push (.interpolate e escape line))
  | .choice condition line => .ok (u.opened (.choose [] (some (condition, line)) s.span s.line))
  | .elseIf condition line => .ok (u.switchBranch (some condition) line)
  | .otherwise => .ok (u.switchBranch none s.line)
  | .loop binding subject line => .ok (u.opened (.loop binding subject s.span line))
  | .close => u.close s.span s.line
  | .block name args line => .ok (u.push (.block name args line))
  | .component reference args line => .ok (u.push (.component reference args line))
  | .code stmts line => .ok (u.push (.code stmts line))

/-- A step reads the segment's header and takes in what it says. -/
theorem step_of_items {s : Segment} {items : List Item} (h : s.items = .ok items)
    (u : Unfinished) : u.step s = items.foldlM (fun u i => u.take s i) u := by
  unfold Segment.items at h
  unfold step
  cases hk : s.kind with
  | text => simp only [hk] at h ⊢; cases h; rfl
  | directive kind =>
      cases kind <;> simp only [hk] at h ⊢
      case comment => cases h; rfl
      case close =>
        cases h
        exact (bind_pure _).symm
      case elseKind =>
        obtain ⟨condition, hc, h⟩ := bind_eq_ok h
        cases h
        rw [hc]
        cases condition <;> rfl
      all_goals
        obtain ⟨header, hc, h⟩ := bind_eq_ok h
        cases h
        rw [hc]
        rfl

theorem close_eq_ok {u u' : Unfinished} {span : Span} {line : Nat}
    (h : u.close span line = .ok u') :
    ∃ f fs, u.frames = f :: fs ∧ u' = push ⟨fs, u.outside⟩ (closedNode f) := by
  unfold close at h
  split at h
  · cases h
  · next f fs hf =>
      cases h
      exact ⟨f, fs, hf, rfl⟩

/-- Taking in an item adds it to what has been read if it counts, and changes the open scopes as the
item says. -/
theorem flatten_take {u u' : Unfinished} {s : Segment} {i : Item} (h : u.take s i = .ok u') :
    u'.flatten = u.flatten ++ (if i.counts u.shape then [i] else []) ∧
      u'.shape = i.scopesAfter u.shape := by
  cases i with
  | text t => cases h; exact ⟨flatten_push u _, shape_push u _⟩
  | interpolate e escape line => cases h; exact ⟨flatten_push u _, shape_push u _⟩
  | block name args line => cases h; exact ⟨flatten_push u _, shape_push u _⟩
  | component reference args line => cases h; exact ⟨flatten_push u _, shape_push u _⟩
  | code stmts line => cases h; exact ⟨flatten_push u _, shape_push u _⟩
  | choice condition line => cases h; exact ⟨flatten_opened u _, rfl⟩
  | loop binding subject line => cases h; exact ⟨flatten_opened u _, rfl⟩
  | elseIf condition line =>
      cases h
      by_cases hw : u.shape.head? = some (.choice true)
      · obtain ⟨hf, hs⟩ := flatten_switchBranch hw (some condition) line
        obtain ⟨outer, ho⟩ := List.head?_eq_some_iff.1 hw
        refine ⟨by rw [hf, Item.counts, decide_eq_true hw]; rfl, ?_⟩
        rw [hs, ho]
        rfl
      · -- a branch of no choice, or after its `else`: dropped
        rw [switchBranch_of_not hw]
        exact ⟨by rw [Item.counts, decide_eq_false hw]; simp, rfl⟩
  | otherwise =>
      cases h
      by_cases hw : u.shape.head? = some (.choice true)
      · obtain ⟨hf, hs⟩ := flatten_switchBranch hw none s.line
        refine ⟨by rw [hf, Item.counts, decide_eq_true hw]; rfl, ?_⟩
        rw [hs, Item.scopesAfter, if_pos hw]
        rfl
      · rw [switchBranch_of_not hw]
        exact ⟨by rw [Item.counts, decide_eq_false hw]; simp, (if_neg hw).symm⟩
  | close =>
      obtain ⟨f, fs, hf, rfl⟩ := close_eq_ok h
      constructor
      · rw [flatten_push, flatten_closedNode]
        simp [flatten, hf, flattenFrames, Item.counts]
      · rw [shape_push]
        simp [shape, hf, Item.scopesAfter]

theorem take_eq_error {u : Unfinished} {s : Segment} {i : Item} {e : SyntaxError}
    (h : u.take s i = .error e) :
    i = .close ∧ u.frames = [] ∧ e = ⟨.unexpectedClose, s.span, s.line⟩ := by
  cases i with
  | close =>
      replace h : u.close s.span s.line = .error e := h
      unfold close at h
      split at h
      · next hf =>
          cases h
          exact ⟨rfl, hf, rfl⟩
      · cases h
  | _ => cases h

/-! ## Where the open scopes began -/

end Unfinished

/-- The kind, span and line of the directive that opened a scope. -/
def Scope.site : Scope → SegmentKind × Span × Nat
  | .choose _ _ span line => (.directive .ifKind, span, line)
  | .loop _ _ span line => (.directive .forKind, span, line)

def Segment.site (s : Segment) : SegmentKind × Span × Nat := (s.kind, s.span, s.line)

/-- Segments whose open scopes, innermost first, began at the given sites: what stands outside of
them and what follows each of their opening directives is balanced. -/
inductive OpenTrail : List (SegmentKind × Span × Nat) → List Segment → Prop where
  | outside {segments : List Segment} : Scopes.Balanced segments → OpenTrail [] segments
  | inside {sites : List (SegmentKind × Span × Nat)} {before after : List Segment} {s : Segment} :
    OpenTrail sites before → s.opensScope = true → Scopes.Balanced after →
      OpenTrail (s.site :: sites) (before ++ s :: after)

namespace OpenTrail

open Scopes

variable {sites : List (SegmentKind × Span × Nat)} {segments : List Segment}

theorem append_balanced (h : OpenTrail sites segments) {more : List Segment}
    (hm : Balanced more) : OpenTrail sites (segments ++ more) := by
  cases h with
  | outside hb => exact .outside (hb.append hm)
  | inside ht ho hb =>
      rw [List.append_assoc, List.cons_append]
      exact .inside ht ho (hb.append hm)

theorem opened (h : OpenTrail sites segments) {s : Segment} (hs : s.opensScope = true) :
    OpenTrail (s.site :: sites) (segments ++ [s]) := .inside h hs balanced_nil

theorem closed {site : SegmentKind × Span × Nat} (h : OpenTrail (site :: sites) segments)
    {s : Segment} (hs : s.closesScope = true) : OpenTrail sites (segments ++ [s]) := by
  cases h with
  | @inside _ before after opener ht ho hb =>
      have := ht.append_balanced (hb.enclose ho hs)
      rwa [List.append_assoc]

theorem matched (h : OpenTrail sites segments) : Matched segments := by
  induction h with
  | outside hb => exact hb.matched
  | inside ht ho hb ih =>
      exact ih.append (matched_cons (Segment.closesScope_of_opensScope ho) hb.matched)

/-- Every open scope is one opening directive without a close directive. -/
theorem count (h : OpenTrail sites segments) :
    closings segments + sites.length = openings segments := by
  induction h with
  | outside hb => simpa using hb.complete
  | inside ht ho hb ih =>
      have := hb.complete
      simp only [closings_append, openings_append, closings_cons, openings_cons, ho,
        Segment.closesScope_of_opensScope ho, List.length_cons]
      simp only [Bool.false_eq_true, if_false, if_true]
      omega

/-- With a scope open the segments are not balanced: its opening directive has no close directive,
and what follows it is balanced. -/
theorem innermostOpen {site : SegmentKind × Span × Nat} (h : OpenTrail (site :: sites) segments) :
    ¬ Balanced segments ∧ ∃ s, InnermostOpen segments s ∧ s.site = site := by
  refine ⟨fun hb => ?_, ?_⟩
  · have hcount := h.count
    have := hb.complete
    simp only [List.length_cons] at hcount
    omega
  · cases h with
    | @inside _ before after s ht ho hb => exact ⟨s, ⟨before, after, rfl, ho, hb⟩, rfl⟩

end OpenTrail

namespace Unfinished

def sites (u : Unfinished) : List (SegmentKind × Span × Nat) := u.frames.map fun f => f.scope.site

theorem sites_push (u : Unfinished) (n : Node) : (u.push n).sites = u.sites := by
  obtain ⟨frames, outside⟩ := u
  cases frames <;> rfl

theorem sites_switchBranch (u : Unfinished) (condition : Option Expr) (line : Nat) :
    (u.switchBranch condition line).sites = u.sites := by
  unfold switchBranch
  split
  · next hf => simp [sites, hf, Scope.site]
  · rfl

/-- A segment that has been taken in leaves the open scopes alone, opens one, or closes the
innermost one, as its kind says. -/
theorem sites_step {u u' : Unfinished} {s : Segment} (h : u.step s = .ok u') :
    (s.opensScope = false ∧ s.closesScope = false ∧ u'.sites = u.sites) ∨
    (s.opensScope = true ∧ u'.sites = s.site :: u.sites) ∨
    (s.closesScope = true ∧ ∃ site, u.sites = site :: u'.sites) := by
  unfold step at h
  unfold Segment.opensScope Segment.closesScope Segment.site
  cases hk : s.kind with
  | text =>
      simp only [hk] at h
      cases h
      exact .inl ⟨rfl, rfl, sites_push u _⟩
  | directive kind =>
      cases kind <;> simp only [hk] at h
      case comment => cases h; exact .inl ⟨rfl, rfl, rfl⟩
      case close =>
        obtain ⟨f, fs, hf, rfl⟩ := close_eq_ok h
        exact .inr (.inr ⟨rfl, f.scope.site, by rw [sites_push]; simp [sites, hf]⟩)
      all_goals obtain ⟨header, -, h⟩ := bind_eq_ok h
      case ifKind => cases h; exact .inr (.inl ⟨rfl, rfl⟩)
      case forKind => cases h; exact .inr (.inl ⟨rfl, rfl⟩)
      case elseKind => cases h; exact .inl ⟨rfl, rfl, sites_switchBranch u _ _⟩
      all_goals
        cases h
        exact .inl ⟨rfl, rfl, sites_push u _⟩

theorem trail_step {u u' : Unfinished} {s : Segment} {before : List Segment}
    (ht : OpenTrail u.sites before) (h : u.step s = .ok u') :
    OpenTrail u'.sites (before ++ [s]) := by
  rcases sites_step h with ⟨ho, hc, hs⟩ | ⟨ho, hs⟩ | ⟨hc, site, hs⟩
  · rw [hs]
    exact ht.append_balanced (Scopes.balanced_singleton ho hc)
  · rw [hs]
    exact ht.opened ho
  · rw [hs] at ht
    exact ht.closed hc

/-! ## Runs -/

theorem flatten_foldlM_take {u u' : Unfinished} {s : Segment} {items : List Item}
    (h : items.foldlM (fun u i => u.take s i) u = .ok u') :
    u'.flatten = u.flatten ++ Item.counting u.shape items ∧
      u'.shape = items.foldl Item.scopesAfter u.shape := by
  induction items generalizing u with
  | nil =>
      cases h
      simp [Item.counting]
  | cons i rest ih =>
      rw [List.foldlM_cons] at h
      obtain ⟨next, hn, h⟩ := bind_eq_ok h
      obtain ⟨hf, hs⟩ := flatten_take hn
      obtain ⟨hf', hs'⟩ := ih h
      rw [hf, hs] at hf'
      rw [hs] at hs'
      refine ⟨?_, hs'⟩
      rw [hf', Item.counting]
      split <;> simp

/-- With well-formed headers only a close directive can fail, and only where no scope is open. -/
theorem step_eq_error {u : Unfinished} {s : Segment} {items : List Item} {e : SyntaxError}
    (hi : s.items = .ok items) (h : u.step s = .error e) :
    s.closesScope = true ∧ u.frames = [] ∧ e = ⟨.unexpectedClose, s.span, s.line⟩ := by
  rw [step_of_items hi] at h
  unfold Segment.items at hi
  unfold Segment.closesScope
  cases hk : s.kind with
  | text => simp only [hk] at hi; cases hi; cases h
  | directive kind =>
      cases kind <;> simp only [hk] at hi
      case comment => cases hi; cases h
      case close =>
        cases hi
        rw [List.foldlM_cons, show List.foldlM (fun u i => take u s i) = _ from rfl] at h
        have h' : u.take s .close = .error e := (bind_pure _).symm.trans h
        exact ⟨rfl, (take_eq_error h').2⟩
      case elseKind =>
        obtain ⟨condition, -, hi⟩ := bind_eq_ok hi
        cases hi
        cases condition <;> cases h
      all_goals
        obtain ⟨header, -, hi⟩ := bind_eq_ok hi
        cases hi
        cases h

end Unfinished

theorem Item.counting_append (scopes : List OpenScope) (a b : List Item) :
    counting scopes (a ++ b) = counting scopes a ++ counting (a.foldl scopesAfter scopes) b := by
  induction a generalizing scopes with
  | nil => rfl
  | cons i rest ih =>
      rw [List.cons_append, counting, counting, ih]
      split <;> simp

namespace Unfinished

/-- Reading segments with well-formed headers either takes them all in, and adds what counts of them
to what has been read, or stops at the first close directive that has no open scope. -/
theorem run_cases {segments : List Segment} {parts : List (List Item)}
    (hp : segments.mapM Segment.items = .ok parts) {u : Unfinished} {before : List Segment}
    (ht : OpenTrail u.sites before) :
    (∃ u', segments.foldlM step u = .ok u' ∧ OpenTrail u'.sites (before ++ segments) ∧
      u'.flatten = u.flatten ++ Item.counting u.shape parts.flatten) ∨
    ∃ read s rest, segments = read ++ s :: rest ∧ s.closesScope = true ∧
      OpenTrail [] (before ++ read) ∧
      segments.foldlM step u = .error ⟨.unexpectedClose, s.span, s.line⟩ := by
  induction segments generalizing parts u before with
  | nil =>
      cases hp
      exact .inl ⟨u, rfl, by simpa using ht, by simp [Item.counting]⟩
  | cons s rest ih =>
      rw [List.mapM_cons] at hp
      obtain ⟨items, hi, hp⟩ := bind_eq_ok hp
      obtain ⟨others, ho, hp⟩ := bind_eq_ok hp
      cases hp
      cases hstep : u.step s with
      | error e =>
          obtain ⟨hc, hf, rfl⟩ := step_eq_error hi hstep
          rw [show u.sites = [] by simp [sites, hf]] at ht
          refine .inr ⟨[], s, rest, rfl, hc, by simpa using ht, ?_⟩
          rw [List.foldlM_cons, hstep]
          rfl
      | ok next =>
          have hfold : (s :: rest).foldlM step u = rest.foldlM step next := by
            rw [List.foldlM_cons, hstep]
            rfl
          obtain ⟨hflat, hshape⟩ := flatten_foldlM_take (step_of_items hi u ▸ hstep)
          rw [hfold]
          rcases ih ho (trail_step ht hstep) with
            ⟨u', hu, htrail, hfl⟩ | ⟨read, c, after, hseg, hc, htrail, he⟩
          · refine .inl ⟨u', hu, by simpa using htrail, ?_⟩
            rw [hfl, hflat, hshape, List.flatten_cons, Item.counting_append, List.append_assoc]
          · exact .inr ⟨s :: read, c, after, by rw [hseg]; rfl, hc, by simpa using htrail, he⟩

/-- A template that ends inside of a scope is refused with the kind and place of its directive. -/
theorem finish_of_open {f : Frame} {s : Segment} (h : s.site = f.scope.site) (fs : List Frame)
    (outside : List Node) : ∃ kind, s.kind = .directive kind ∧
      finish ⟨f :: fs, outside⟩ = .error ⟨.unclosedScope kind.describe, s.span, s.line⟩ := by
  match f with
  | ⟨.choose _ _ span line, _⟩ =>
      obtain ⟨hk, rfl, rfl⟩ : s.kind = .directive .ifKind ∧ s.span = span ∧ s.line = line := by
        simpa [Segment.site, Scope.site] using h
      exact ⟨_, hk, rfl⟩
  | ⟨.loop _ _ span line, _⟩ =>
      obtain ⟨hk, rfl, rfl⟩ : s.kind = .directive .forKind ∧ s.span = span ∧ s.line = line := by
        simpa [Segment.site, Scope.site] using h
      exact ⟨_, hk, rfl⟩

end Unfinished

/-! ## Compiling -/

open Scopes

/-- What becomes of a template whose headers are all well formed. It compiles exactly when its
scopes are balanced; then the program, written out as a sequence again, is the sequence of the
template's items less those that do not count. Otherwise the fault is the first close directive
without an open scope, or else the innermost scope that is left open. -/
theorem Program.flatten_compile {source : String} {d : Delimiters} {segments : List Segment}
    {parts : List (List Item)} (hscan : scan source d = .ok segments)
    (hparts : segments.mapM Segment.items = .ok parts) :
    ((∃ p, compile source d = .ok p) ↔ Balanced segments) ∧
    (∀ p, compile source d = .ok p →
      Node.flattenAll p.nodes = Item.counting [] parts.flatten) ∧
    ∀ e, compile source d = .error e →
      (∃ s, FirstUnmatched segments s ∧ e = ⟨.unexpectedClose, s.span, s.line⟩) ∨
      (Matched segments ∧ ∃ s kind, InnermostOpen segments s ∧ s.kind = .directive kind ∧
        e = ⟨.unclosedScope kind.describe, s.span, s.line⟩) := by
  have hcompile : compile source d =
      (segments.foldlM Unfinished.step .empty >>= Unfinished.finish) := by
    unfold compile ofSegments
    rw [hscan]
    rfl
  rw [hcompile]
  have hstart : OpenTrail Unfinished.empty.sites [] := .outside balanced_nil
  rcases Unfinished.run_cases hparts hstart with
    ⟨⟨frames, outside⟩, hu, htrail, hflat⟩ | ⟨read, s, rest, hseg, hc, htrail, he⟩
  · rw [hu]
    rw [List.nil_append] at htrail
    cases frames with
    | nil =>
        -- read to the end, with no scope left open
        cases htrail with
        | outside hb =>
            refine ⟨⟨fun _ => hb, fun _ => ⟨_, rfl⟩⟩, fun p hp => ?_, fun e he => by cases he⟩
            cases hp
            exact hflat
    | cons f fs =>
        -- the innermost frame is the scope that the fault names
        obtain ⟨hopen, s, hinner, hsite⟩ := htrail.innermostOpen
        obtain ⟨kind, hkind, hfin⟩ := Unfinished.finish_of_open hsite fs outside
        refine ⟨⟨?_, fun hb => absurd hb hopen⟩, ?_, ?_⟩
        · rintro ⟨p, hp⟩
          cases hfin.symm.trans hp
        · intro p hp
          cases hfin.symm.trans hp
        · intro e he
          cases hfin.symm.trans he
          exact .inr ⟨htrail.matched, s, kind, hinner, hkind, rfl⟩
  · -- stopped at a close outside of every scope
    have hfirst : FirstUnmatched segments s := by
      cases htrail with
      | outside hb => exact ⟨read, rest, hseg, hc, by simpa using hb⟩
    rw [he]
    refine ⟨⟨?_, fun hb => absurd hb (not_balanced_of_firstUnmatched hfirst)⟩, ?_, ?_⟩
    · rintro ⟨p, hp⟩
      cases hp
    · intro p hp
      cases hp
    · intro e he
      cases he
      exact .inl ⟨s, hfirst, rfl⟩

/-- The second `else` of an `if` does not count, nor does a comment. -/
theorem Program.flatten_compile_second_else :
    ∃ segments parts, scan "[if (x)]b[else]c[else]d[/][# note]" ⟨"[", "]"⟩ = .ok segments ∧
      segments.mapM Segment.items = .ok parts ∧ Balanced segments ∧
      ∃ p, compile "[if (x)]b[else]c[else]d[/][# note]" ⟨"[", "]"⟩ = .ok p ∧
        Node.flattenAll p.nodes =
          [.choice (.node (.ident "x") ⟨5, 6⟩) 1, .text "b", .otherwise, .text "c", .text "d",
            .close] := by
  have hscan : scan "[if (x)]b[else]c[else]d[/][# note]" ⟨"[", "]"⟩ = .ok
      [⟨.directive .ifKind, ['x', ')'], ⟨5, 7⟩, 1⟩, ⟨.text, ['b'], ⟨8, 9⟩, 1⟩,
        ⟨.directive .elseKind, [], ⟨14, 14⟩, 1⟩, ⟨.text, ['c'], ⟨15, 16⟩, 1⟩,
        ⟨.directive .elseKind, [], ⟨21, 21⟩, 1⟩, ⟨.text, ['d'], ⟨22, 23⟩, 1⟩,
        ⟨.directive .close, [], ⟨25, 25⟩, 1⟩,
        ⟨.directive .comment, ['n', 'o', 't', 'e'], ⟨29, 33⟩, 1⟩] := by decide +kernel
  have hparts : List.mapM Segment.items
      [⟨.directive .ifKind, ['x', ')'], ⟨5, 7⟩, 1⟩, ⟨.text, ['b'], ⟨8, 9⟩, 1⟩,
        ⟨.directive .elseKind, [], ⟨14, 14⟩, 1⟩, ⟨.text, ['c'], ⟨15, 16⟩, 1⟩,
        ⟨.directive .elseKind, [], ⟨21, 21⟩, 1⟩, ⟨.text, ['d'], ⟨22, 23⟩, 1⟩,
        ⟨.directive .close, [], ⟨25, 25⟩, 1⟩,
        ⟨.directive .comment, ['n', 'o', 't', 'e'], ⟨29, 33⟩, 1⟩] = .ok
      [[.choice (.node (.ident "x") ⟨5, 6⟩) 1], [.text "b"], [.otherwise], [.text "c"],
        [.otherwise], [.text "d"], [.close], []] := by cbv
  have hok : (compile "[if (x)]b[else]c[else]d[/][# note]" ⟨"[", "]"⟩).isOk = true := by
    cbv
  obtain ⟨hiff, hflat, -⟩ := Program.flatten_compile hscan hparts
  cases hp : compile "[if (x)]b[else]c[else]d[/][# note]" ⟨"[", "]"⟩ with
  | error e =>
      rw [hp] at hok
      cases hok
  | ok p => exact ⟨_, _, hscan, hparts, hiff.1 ⟨p, hp⟩, p, rfl, hflat p hp⟩

end LiveMarkup
