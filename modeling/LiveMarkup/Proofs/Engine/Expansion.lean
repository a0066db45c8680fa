import LiveMarkup.Proofs.Engine.RootElement
import LiveMarkup.Proofs.Template.Unplaced
set_option autoImplicit false

/-! # One node replaced in a program

Two templates that differ in one run of text, the first one with a tag, are read alike. What stands
in front of the run is the same; what stands behind it has the same contents in other places.
`Node.Expanded` says of two programs that one node of the first is replaced in the second, and
`Unfinished.Expanded` says so of templates read in part. Reading on keeps this
(`Unfinished.Expanded.step`), since a segment looks at which scopes are open and never at what has
been read in them. -/

namespace LiveMarkup

open Text

/-! ## Programs -/

namespace Node

/-- Nodes without a start tag in their texts. -/
def Tagless (nodes : List Node) : Prop := ∀ i ∈ flattenAll nodes, ¬ i.HasTag

def TaglessArms (arms : List Arm) : Prop := ∀ i ∈ flattenArms true arms, ¬ i.HasTag

mutual

/-- The node `x`, at one place that no tag stands in front of, is replaced by the nodes `run`. What
is in front of that place is kept, what is behind it is kept up to spans and comes `k` lines further
down. -/
inductive Expanded (k : Nat) (x : Node) (run : List Node) : List Node → List Node → Prop where
  | here {before after after' : List Node} : Tagless before →
    bareAll k after = bareAll 0 after' →
    Expanded k x run (before ++ x :: after) (before ++ (run ++ after'))
  | inside {before after after' : List Node} {n n' : Node} : Tagless before →
    ExpandedIn k x run n n' → bareAll k after = bareAll 0 after' →
    Expanded k x run (before ++ n :: after) (before ++ n' :: after')

/-- The node `x` is replaced in one of the bodies of a node. -/
inductive ExpandedIn (k : Nat) (x : Node) (run : List Node) : Node → Node → Prop where
  | loop {body body' : List Node} (binding : LoopBinding) (subject : Expr) (line : Nat) :
    Expanded k x run body body' →
    ExpandedIn k x run (.loop binding subject body line) (.loop binding subject body' line)
  | arm {done rest rest' : List Arm} {body body' : List Node}
    {otherwise otherwise' : Option (List Node)} (condition : Expr) (line : Nat) :
    TaglessArms done → Expanded k x run body body' → bareArms k rest = bareArms 0 rest' →
    otherwise.map (bareAll k) = otherwise'.map (bareAll 0) →
    ExpandedIn k x run (.choose (done ++ .arm condition body line :: rest) otherwise)
      (.choose (done ++ .arm condition body' line :: rest') otherwise')
  | otherwise {arms : List Arm} {body body' : List Node} : TaglessArms arms →
    Expanded k x run body body' →
    ExpandedIn k x run (.choose arms (some body)) (.choose arms (some body'))

end

variable {k : Nat} {x : Node} {run : List Node}

/-- More nodes come behind the place. -/
theorem Expanded.append {nodes nodes' more more' : List Node} (h : Expanded k x run nodes nodes')
    (hmore : bareAll k more = bareAll 0 more') :
    Expanded k x run (nodes ++ more) (nodes' ++ more') := by
  cases h with
  | here hbefore hafter =>
      simp only [List.append_assoc, List.cons_append]
      exact .here hbefore (by rw [bareAll_append, bareAll_append, hafter, hmore])
  | inside hbefore hn hafter =>
      simp only [List.append_assoc, List.cons_append]
      exact .inside hbefore hn (by rw [bareAll_append, bareAll_append, hafter, hmore])

end Node

/-! ## Open scopes -/

namespace Scope

def line : Scope → Nat
  | choose _ _ _ line => line
  | loop _ _ _ line => line

/-- The condition of the branch that is being filled, without spans, `k` lines further down. -/
def barePending (k : Nat) (pending : Option (Expr × Nat)) : Option (Expr × Nat) :=
  pending.map fun p => (p.1.bare, p.2 + k)

theorem barePending_some {k : Nat} {condition condition' : Expr} {line line' : Nat}
    (h : barePending k (some (condition, line)) = barePending 0 (some (condition', line'))) :
    condition.bare = condition'.bare ∧ line + k = line' :=
  Prod.mk.inj (Option.some.inj h)

theorem barePending_map {condition condition' : Option Expr}
    (h : condition.map Expr.bare = condition'.map Expr.bare) (k line : Nat) :
    barePending k (condition.map (·, line)) = barePending 0 (condition'.map (·, line + k)) := by
  match condition, condition' with
  | some e, some e' =>
      have he : e.bare = e'.bare := Option.some.inj h
      simp only [barePending, Option.map_some, he, Nat.add_zero]
  | none, none => rfl

/-- A scope without spans, `k` lines further down. -/
def bare (k : Nat) : Scope → Scope
  | choose done pending _ line =>
    choose (Node.bareArms k done) (barePending k pending) ⟨0, 0⟩ (line + k)
  | loop binding subject _ line => loop binding subject.bare ⟨0, 0⟩ (line + k)

end Scope

namespace Frame

open Node (bareAll bareArms Tagless TaglessArms)
open Scope (barePending)

variable {n k : Nat} {x : Node} {run : List Node} {f f' : Frame}

/-- Frames of scopes that were opened from line `n` on, the second `k` lines further down. -/
structure Below (n k : Nat) (f f' : Frame) : Prop where
  scope : f.scope.bare k = f'.scope.bare 0
  nodes : bareAll k f.nodes = bareAll 0 f'.nodes
  from_le : n ≤ f.scope.line

/-- Frames of one scope, with the node `x` replaced in what has been read inside of it. -/
inductive Expanded (k : Nat) (x : Node) (run : List Node) : Frame → Frame → Prop where
  | nodes {scope : Scope} {nodes nodes' : List Node} : (∀ i ∈ scope.flatten, ¬ i.HasTag) →
    Node.Expanded k x run nodes.reverse nodes'.reverse →
    Expanded k x run ⟨scope, nodes⟩ ⟨scope, nodes'⟩
  | arm {done rest rest' : List Arm} {body body' nodes nodes' : List Node}
    {pending pending' : Option (Expr × Nat)} (condition : Expr) (armLine : Nat) (span : Span)
    (line : Nat) : TaglessArms done → Node.Expanded k x run body body' →
    bareArms k rest = bareArms 0 rest' → barePending k pending = barePending 0 pending' →
    bareAll k nodes = bareAll 0 nodes' →
    Expanded k x run
      ⟨.choose (done ++ .arm condition body armLine :: rest) pending span line, nodes⟩
      ⟨.choose (done ++ .arm condition body' armLine :: rest') pending' span line, nodes'⟩

/-- A branch that ends is the last of its `if` so far. -/
theorem bareArms_ended {done done' : List Arm} {condition condition' : Expr} {line line' : Nat}
    {nodes nodes' : List Node} (hdone : bareArms k done = bareArms 0 done')
    (hpending : barePending k (some (condition, line)) = barePending 0 (some (condition', line')))
    (hnodes : bareAll k nodes = bareAll 0 nodes') :
    bareArms k (done ++ [.arm condition nodes.reverse line]) =
      bareArms 0 (done' ++ [.arm condition' nodes'.reverse line']) := by
  obtain ⟨hcondition, hline⟩ := Scope.barePending_some hpending
  simp only [Node.bareArms_append, Node.bareArms, Node.bareAll_reverse, hdone, hcondition, hnodes,
    hline, Nat.add_zero]

theorem taglessArms_of_scope {done : List Arm} {pending : Option (Expr × Nat)} {span : Span}
    {line : Nat} (h : ∀ i ∈ (Scope.choose done pending span line).flatten, ¬ i.HasTag) :
    TaglessArms done := by
  intro i hi
  refine h i ?_
  cases pending with
  | none => exact List.mem_append_left _ hi
  | some p => exact List.mem_append_left _ hi

theorem Expanded.push (h : Expanded k x run f f') {m m' : Node} (hm : m.bare k = m'.bare 0) :
    Expanded k x run ⟨f.scope, m :: f.nodes⟩ ⟨f'.scope, m' :: f'.nodes⟩ := by
  have hmore : bareAll k [m] = bareAll 0 [m'] := congrArg (fun m => [m]) hm
  cases h with
  | nodes hscope hnodes =>
      refine .nodes hscope ?_
      rw [List.reverse_cons, List.reverse_cons]
      exact hnodes.append hmore
  | arm condition armLine span line hdone hbody hrest hpending hnodes =>
      exact .arm condition armLine span line hdone hbody hrest hpending
        (congrArg₂ List.cons hm hnodes)

theorem Below.push (h : Below n k f f') {m m' : Node} (hm : m.bare k = m'.bare 0) :
    Below n k ⟨f.scope, m :: f.nodes⟩ ⟨f'.scope, m' :: f'.nodes⟩ :=
  ⟨h.scope, congrArg₂ List.cons hm h.nodes, h.from_le⟩

theorem Below.closedNode (h : Below n k f f') :
    (Unfinished.closedNode f).bare k = (Unfinished.closedNode f').bare 0 := by
  obtain ⟨scope, nodes⟩ := f
  obtain ⟨scope', nodes'⟩ := f'
  obtain ⟨hscope, hnodes, -⟩ := h
  match scope, scope' with
  | .choose done pending _ _, .choose done' pending' _ _ =>
      obtain ⟨hdone, hpending, -, -⟩ := Scope.choose.inj hscope
      match pending, pending' with
      | some (condition, line), some (condition', line') =>
          rw [Unfinished.closedNode, Unfinished.closedNode, Node.bare_choose, Node.bare_choose,
            bareArms_ended hdone hpending hnodes]
          rfl
      | none, none =>
          simp only [Unfinished.closedNode, Node.bare_choose, Node.bareAll_reverse, Option.map_some,
            hdone, hnodes]
  | .loop binding subject _ line, .loop binding' subject' _ line' =>
      obtain ⟨rfl, hsubject, -, hline⟩ := Scope.loop.inj hscope
      simp only [Unfinished.closedNode, Node.bare, Node.bareAll_reverse, hsubject, hnodes, hline]

theorem Expanded.closedNode (h : Expanded k x run f f') :
    Node.ExpandedIn k x run (Unfinished.closedNode f) (Unfinished.closedNode f') := by
  cases h with
  | @nodes scope nodes nodes' hscope hnodes =>
      match scope with
      | .choose done (some (condition, line)) _ _ =>
          exact .arm condition line (taglessArms_of_scope hscope) hnodes rfl rfl
      | .choose done none _ _ => exact .otherwise (taglessArms_of_scope hscope) hnodes
      | .loop binding subject _ line => exact .loop binding subject line hnodes
  | @arm done rest rest' body body' nodes nodes' pending pending' condition armLine span line
      hdone hbody hrest hpending hnodes =>
      match pending, pending' with
      | some (last, lastLine), some (last', lastLine') =>
          simp only [Unfinished.closedNode, List.append_assoc, List.cons_append]
          exact .arm condition armLine hdone hbody (bareArms_ended hrest hpending hnodes) rfl
      | none, none =>
          refine .arm condition armLine hdone hbody hrest (congrArg some ?_)
          rw [Node.bareAll_reverse, Node.bareAll_reverse, hnodes]

/-- The frame of an `if` with its next branch started; other frames are as before. -/
def switched (f : Frame) (condition : Option Expr) (line : Nat) : Frame :=
  match f with
  | ⟨.choose done (some (current, armLine)) span ifLine, nodes⟩ =>
    ⟨.choose (done ++ [.arm current nodes.reverse armLine]) (condition.map (·, line)) span ifLine,
      []⟩
  | f => f

theorem switchBranch_cons (f : Frame) (fs : List Frame) (outside : List Node)
    (condition : Option Expr) (line : Nat) :
    Unfinished.switchBranch ⟨f :: fs, outside⟩ condition line =
      ⟨f.switched condition line :: fs, outside⟩ := by
  obtain ⟨scope, nodes⟩ := f
  match scope with
  | .choose _ (some _) _ _ => rfl
  | .choose _ none _ _ => rfl
  | .loop _ _ _ _ => rfl

theorem line_switched (f : Frame) (condition : Option Expr) (line : Nat) :
    (f.switched condition line).scope.line = f.scope.line := by
  obtain ⟨scope, nodes⟩ := f
  match scope with
  | .choose _ (some _) _ _ => rfl
  | .choose _ none _ _ => rfl
  | .loop _ _ _ _ => rfl

section

variable {condition condition' : Option Expr} {line line' : Nat}

theorem Below.switched (h : Below n k f f')
    (hpending : barePending k (condition.map (·, line)) =
      barePending 0 (condition'.map (·, line'))) :
    Below n k (f.switched condition line) (f'.switched condition' line') := by
  obtain ⟨scope, nodes⟩ := f
  obtain ⟨scope', nodes'⟩ := f'
  match scope, scope' with
  | .choose done (some (last, lastLine)) span ifLine,
    .choose done' (some (last', lastLine')) span' ifLine' =>
      obtain ⟨hdone, hlast, -, hifLine⟩ := Scope.choose.inj h.scope
      refine ⟨?_, rfl, h.from_le⟩
      simp only [Frame.switched, Scope.bare, bareArms_ended hdone hlast h.nodes, hpending, hifLine]
  | .choose _ none _ _, .choose _ none _ _ => exact h
  | .loop _ _ _ _, .loop _ _ _ _ => exact h
  | .choose _ (some _) _ _, .choose _ none _ _ => cases (Scope.choose.inj h.scope).2.1
  | .choose _ none _ _, .choose _ (some _) _ _ => cases (Scope.choose.inj h.scope).2.1

theorem Expanded.switched (h : Expanded k x run f f')
    (hpending : barePending k (condition.map (·, line)) =
      barePending 0 (condition'.map (·, line'))) :
    Expanded k x run (f.switched condition line) (f'.switched condition' line') := by
  cases h with
  | @nodes scope nodes nodes' hscope hnodes =>
      match scope with
      | .choose done (some (current, armLine)) span ifLine =>
          -- the place is in the branch that ends here
          exact .arm current armLine span ifLine (taglessArms_of_scope hscope) hnodes rfl hpending
            rfl
      | .choose _ none _ _ => exact .nodes hscope hnodes
      | .loop _ _ _ _ => exact .nodes hscope hnodes
  | @arm done rest rest' body body' nodes nodes' pending pending' current armLine span ifLine
      hdone hbody hrest hpending' hnodes =>
      match pending, pending' with
      | some (last, lastLine), some (last', lastLine') =>
          have hmore := bareArms_ended hrest hpending' hnodes
          simp only [Frame.switched, List.append_assoc, List.cons_append]
          exact .arm current armLine span ifLine hdone hbody hmore hpending rfl
      | none, none => exact .arm current armLine span ifLine hdone hbody hrest hpending' hnodes

end

end Frame

/-! ## Segments -/

/-- Segments with one content from line `n` on, the second `k` lines further down. -/
structure Segment.Below (n k : Nat) (s s' : Segment) : Prop where
  kind : s.kind = s'.kind
  content : s.content = s'.content
  from_le : n ≤ s.line
  line : s'.line = s.line + k

namespace Stretch

variable {n k : Nat} {d : Delimiters} {before before' : List Char}

/-- Stretches that stand further down in another source make the same segments there. -/
theorem below_segments (hbefore : lineFeeds before' = lineFeeds before + k)
    (hle : n ≤ lineFeeds before + 1) (stretches : List Stretch) :
    List.Forall₂ (Segment.Below n k) (segments d before stretches)
      (segments d before' stretches) := by
  have hline : lineFeeds before' + 1 = lineFeeds before + 1 + k := by omega
  induction stretches generalizing before before' with
  | nil => exact .nil
  | cons first rest ih =>
      have hrest (more : List Char) : List.Forall₂ (Segment.Below n k)
          (segments d (before ++ more) rest) (segments d (before' ++ more) rest) := by
        apply ih <;> simp only [lineFeeds_append] <;> omega
      cases first with
      | text run => exact .cons ⟨rfl, rfl, hle, hline⟩ (hrest _)
      | directive raw => exact .cons ⟨rfl, rfl, hle, hline⟩ (hrest _)

/-- A segment starts on a line that the stretches reach. -/
theorem line_le_of_mem_segments {stretches : List Stretch} {s : Segment}
    (h : s ∈ segments d before stretches) :
    s.line ≤ lineFeeds (before ++ written d stretches) + 1 := by
  induction stretches generalizing before with
  | nil => cases h
  | cons first rest ih =>
      rw [written_cons, ← List.append_assoc]
      have hfirst : lineFeeds before + 1 ≤
          lineFeeds (before ++ first.source d ++ written d rest) + 1 := by
        simp only [lineFeeds_append]
        omega
      cases first with
      | text run =>
          rcases List.mem_cons.mp h with rfl | h
          · exact hfirst
          · exact ih h
      | directive raw =>
          rcases List.mem_cons.mp h with rfl | h
          · exact hfirst
          · exact ih h

end Stretch

/-! ## Templates read in part -/

/-- Lines up to line `n`, which are kept, and lines from there on, which come `k` further down. -/
def LineMoved (n k m m' : Nat) : Prop := m ≤ n ∧ m' = m ∨ n ≤ m ∧ m' = m + k

namespace Unfinished

open Node (bareAll Tagless)

variable {n k : Nat} {x m m' : Node} {run : List Node} {u v : Unfinished}

/-- What has been read up to line `n` and has no tag. -/
structure Front (n : Nat) (u : Unfinished) : Prop where
  tagless : ∀ i ∈ u.flatten, ¬ i.HasTag
  line_le : ∀ f ∈ u.frames, f.scope.line ≤ n

/-- Templates of which one has the node `x` replaced in what has been read. Scopes that were opened
behind it are further in. -/
inductive Expanded (n k : Nat) (x : Node) (run : List Node) : Unfinished → Unfinished → Prop where
  | outside {nodes nodes' : List Node} : Node.Expanded k x run nodes.reverse nodes'.reverse →
    Expanded n k x run ⟨[], nodes⟩ ⟨[], nodes'⟩
  | inside {f f' : Frame} {fs : List Frame} {outside : List Node} : Frame.Expanded k x run f f' →
    f.scope.line ≤ n → Front n ⟨fs, outside⟩ →
    Expanded n k x run ⟨f :: fs, outside⟩ ⟨f' :: fs, outside⟩
  | behind {f f' : Frame} {fs fs' : List Frame} {outside outside' : List Node} :
    Frame.Below n k f f' → Expanded n k x run ⟨fs, outside⟩ ⟨fs', outside'⟩ →
    Expanded n k x run ⟨f :: fs, outside⟩ ⟨f' :: fs', outside'⟩

/-! ### The place of the node -/

theorem Front.outside {nodes : List Node} (h : Front n ⟨[], nodes⟩) : Tagless nodes.reverse :=
  h.tagless

theorem Front.cons {f : Frame} {fs : List Frame} {outside : List Node}
    (h : Front n ⟨f :: fs, outside⟩) :
    Front n ⟨fs, outside⟩ ∧ f.scope.line ≤ n ∧ (∀ i ∈ f.scope.flatten, ¬ i.HasTag) ∧
      Tagless f.nodes.reverse := by
  refine ⟨⟨fun i hi => h.tagless i ?_, fun g hg => h.line_le g (List.mem_cons_of_mem _ hg)⟩,
    h.line_le f List.mem_cons_self, fun i hi => h.tagless i ?_, fun i hi => h.tagless i ?_⟩
  · exact List.mem_append_left _ (List.mem_append_left _ hi)
  · exact List.mem_append_left _ (List.mem_append_right _ hi)
  · exact List.mem_append_right _ hi

theorem Front.expanded (h : Front n u) : Expanded n k x run (u.push x) (u.pushAll run) := by
  obtain ⟨frames, outside⟩ := u
  have hplace : ∀ nodes : List Node, Tagless nodes.reverse →
      Node.Expanded k x run (x :: nodes).reverse (run.reverse ++ nodes).reverse := by
    intro nodes hnodes
    have hrun : (run.reverse ++ nodes).reverse = nodes.reverse ++ (run ++ []) := by simp
    rw [List.reverse_cons, hrun]
    exact .here hnodes rfl
  cases frames with
  | nil =>
      rw [pushAll_outside]
      exact .outside (hplace _ h.outside)
  | cons f fs =>
      obtain ⟨hfront, hle, hscope, hnodes⟩ := h.cons
      rw [pushAll_cons]
      exact .inside (.nodes hscope (hplace _ hnodes)) hle hfront

/-- A node that has been read as a whole, with the place in it. -/
theorem Front.push_expandedIn (h : Front n u) (hm : Node.ExpandedIn k x run m m') :
    Expanded n k x run (u.push m) (u.push m') := by
  obtain ⟨frames, outside⟩ := u
  have hplace : ∀ nodes : List Node, Tagless nodes.reverse →
      Node.Expanded k x run (m :: nodes).reverse (m' :: nodes).reverse := by
    intro nodes hnodes
    rw [List.reverse_cons, List.reverse_cons]
    exact .inside hnodes hm rfl
  cases frames with
  | nil => exact .outside (hplace _ h.outside)
  | cons f fs =>
      obtain ⟨hfront, hle, hscope, hnodes⟩ := h.cons
      exact .inside (.nodes hscope (hplace _ hnodes)) hle hfront

/-! ### What is read behind it -/

namespace Expanded

theorem push (h : Expanded n k x run u v) (hm : m.bare k = m'.bare 0) :
    Expanded n k x run (u.push m) (v.push m') := by
  cases h with
  | @outside nodes nodes' hnodes =>
      refine .outside ?_
      rw [List.reverse_cons, List.reverse_cons]
      exact hnodes.append (congrArg (fun m => [m]) hm)
  | inside hf hle hfront => exact .inside (hf.push hm) hle hfront
  | behind hf hu => exact .behind (hf.push hm) hu

theorem opened (h : Expanded n k x run u v) {s s' : Scope} (hs : s.bare k = s'.bare 0)
    (hle : n ≤ s.line) : Expanded n k x run (u.opened s) (v.opened s') :=
  .behind ⟨hs, rfl, hle⟩ h

theorem switchBranch (h : Expanded n k x run u v) {condition condition' : Option Expr}
    (hcondition : condition.map Expr.bare = condition'.map Expr.bare) (line : Nat) :
    Expanded n k x run (u.switchBranch condition line) (v.switchBranch condition' (line + k)) := by
  have hpending := Scope.barePending_map hcondition k line
  cases h with
  | outside hnodes => exact .outside hnodes
  | inside hf hle hfront =>
      rw [Frame.switchBranch_cons, Frame.switchBranch_cons]
      exact .inside (hf.switched hpending) ((Frame.line_switched _ _ _).le.trans hle) hfront
  | behind hf hu =>
      rw [Frame.switchBranch_cons, Frame.switchBranch_cons]
      exact .behind (hf.switched hpending) hu

theorem close (h : Expanded n k x run u v) (span span' : Span) {line : Nat} (hle : n ≤ line) :
    EndsAlike (fun m m' => n ≤ m ∧ m' = m + k) (Expanded n k x run) (u.close span line)
      (v.close span' (line + k)) := by
  cases h with
  | outside _ => exact .error rfl ⟨hle, rfl⟩
  | inside hf _ hfront => exact .ok (hfront.push_expandedIn hf.closedNode)
  | behind hf hu => exact .ok (hu.push hf.closedNode)

theorem finish (h : Expanded n k x run u v) :
    EndsAlike (LineMoved n k) (fun p p' => Node.Expanded k x run p.nodes p'.nodes) u.finish
      v.finish := by
  cases h with
  | outside hnodes => exact .ok hnodes
  | inside hf hle _ =>
      cases hf with
      | @nodes scope nodes nodes' hscope hnodes =>
          cases scope <;> exact .error rfl (.inl ⟨hle, rfl⟩)
      | arm => exact .error rfl (.inl ⟨hle, rfl⟩)
  | @behind f f' fs fs' outside outside' hf hu =>
      obtain ⟨scope, nodes⟩ := f
      obtain ⟨scope', nodes'⟩ := f'
      obtain ⟨hscope, -, hle⟩ := hf
      match scope, scope' with
      | .choose _ _ _ _, .choose _ _ _ _ =>
          exact .error rfl (.inr ⟨hle, (Scope.choose.inj hscope).2.2.2.symm⟩)
      | .loop _ _ _ _, .loop _ _ _ _ =>
          exact .error rfl (.inr ⟨hle, (Scope.loop.inj hscope).2.2.2.symm⟩)

/-- What one segment behind the place adds. -/
theorem step (h : Expanded n k x run u v) {s s' : Segment} (hs : s.Below n k s') :
    EndsAlike (fun m m' => n ≤ m ∧ m' = m + k) (Expanded n k x run) (u.step s) (v.step s') := by
  obtain ⟨hkind, hcontent, hle, hline⟩ := hs
  have hsegment : Content.Alike (fun m m' => n ≤ m ∧ m' = m + k) (.ofSegment s) (.ofSegment s') :=
    ⟨hcontent, hle, hline⟩
  unfold Unfinished.step
  rw [← hkind, ← hcontent, hline]
  cases s.kind with
  | text => exact .ok (h.push rfl)
  | directive kind =>
      cases kind with
      | comment => exact .ok h
      | escaped =>
          refine hsegment.endsAlike_expression.bind fun e e' he => .ok (h.push ?_)
          simp only [Node.bare, he, Nat.add_zero]
      | raw =>
          refine hsegment.endsAlike_expression.bind fun e e' he => .ok (h.push ?_)
          simp only [Node.bare, he, Nat.add_zero]
      | ifKind =>
          refine hsegment.endsAlike_condition.bind fun e e' he => .ok (h.opened ?_ hle)
          simp only [Scope.bare, Scope.barePending, Option.map_some, Node.bareArms, he,
            Nat.add_zero]
      | elseKind =>
          exact hsegment.endsAlike_elseCondition.bind fun e e' he => .ok (h.switchBranch he _)
      | forKind =>
          refine hsegment.endsAlike_loopHeader.bind ?_
          rintro ⟨binding, subject⟩ ⟨binding', subject'⟩ ⟨hbinding, hsubject⟩
          obtain rfl : binding = binding' := hbinding
          refine .ok (h.opened ?_ hle)
          simp only [Scope.bare, hsubject, Nat.add_zero]
      | close => exact h.close _ _ hle
      | block =>
          refine (hsegment.endsAlike_callHeader "block").bind ?_
          rintro ⟨name, args⟩ ⟨name', args'⟩ ⟨hname, hargs⟩
          obtain rfl : name = name' := hname
          refine .ok (h.push ?_)
          simp only [Node.bare, hargs, Nat.add_zero]
      | component =>
          refine (hsegment.endsAlike_callHeader "component").bind ?_
          rintro ⟨name, args⟩ ⟨name', args'⟩ ⟨hname, hargs⟩
          obtain rfl : name = name' := hname
          refine .ok (h.push ?_)
          simp only [Node.bare, hargs, Nat.add_zero]
      | code =>
          refine hsegment.endsAlike_statements.bind fun stmts stmts' hstmts => .ok (h.push ?_)
          simp only [Node.bare, hstmts, Nat.add_zero]

end Expanded

/-! ### What is read in front of it -/

/-- A fault is reported on the line of its segment. -/
theorem line_of_step_eq_error {s : Segment} {e : SyntaxError} (h : u.step s = .error e) :
    e.line = s.line := by
  have hself : Content.Alike (fun m _ => m = s.line) (.ofSegment s) (.ofSegment s) := ⟨rfl, rfl⟩
  unfold step at h
  cases hk : s.kind with
  | text => simp only [hk] at h; cases h
  | directive kind =>
      cases kind <;> simp only [hk] at h
      case comment => cases h
      case close =>
        unfold close at h
        split at h <;> cases h
        rfl
      all_goals replace h := eq_error_of_bind (fun _ => ⟨_, rfl⟩) h
      case escaped => exact hself.endsAlike_expression.line_of_error h
      case raw => exact hself.endsAlike_expression.line_of_error h
      case ifKind => exact hself.endsAlike_condition.line_of_error h
      case elseKind => exact hself.endsAlike_elseCondition.line_of_error h
      case forKind => exact hself.endsAlike_loopHeader.line_of_error h
      case block => exact (hself.endsAlike_callHeader _).line_of_error h
      case component => exact (hself.endsAlike_callHeader _).line_of_error h
      case code => exact hself.endsAlike_statements.line_of_error h

theorem exists_line_of_foldlM_eq_error {segments : List Segment} {e : SyntaxError}
    (h : segments.foldlM step u = .error e) : ∃ s ∈ segments, e.line = s.line := by
  induction segments generalizing u with
  | nil => cases h
  | cons s rest ih =>
      rw [List.foldlM_cons] at h
      cases hstep : u.step s with
      | error e' =>
          rw [hstep] at h
          cases h
          exact ⟨s, List.mem_cons_self, line_of_step_eq_error hstep⟩
      | ok next =>
          rw [ok_bind hstep] at h
          obtain ⟨t, ht, hline⟩ := ih h
          exact ⟨t, List.mem_cons_of_mem _ ht, hline⟩

/-- The scopes that are open were opened by segments. -/
theorem exists_of_mem_sites {segments : List Segment} (h : segments.foldlM step u = .ok v)
    {site : SegmentKind × Span × Nat} (hsite : site ∈ v.sites) :
    site ∈ u.sites ∨ ∃ s ∈ segments, s.site = site := by
  induction segments generalizing u with
  | nil =>
      cases h
      exact .inl hsite
  | cons s rest ih =>
      rw [List.foldlM_cons] at h
      obtain ⟨next, hnext, h⟩ := bind_eq_ok h
      rcases ih h with hin | ⟨t, ht, rfl⟩
      · rcases sites_step hnext with ⟨-, -, hsites⟩ | ⟨-, hsites⟩ | ⟨-, closed, hsites⟩
        · exact .inl (hsites ▸ hin)
        · rw [hsites] at hin
          rcases List.mem_cons.mp hin with rfl | hin
          · exact .inr ⟨s, List.mem_cons_self, rfl⟩
          · exact .inl hin
        · exact .inl (hsites ▸ List.mem_cons_of_mem _ hin)
      · exact .inr ⟨t, List.mem_cons_of_mem _ ht, rfl⟩

theorem front_of_foldlM {segments : List Segment} (h : segments.foldlM step empty = .ok u)
    (hline : ∀ s ∈ segments, s.line ≤ n)
    (htag : ∀ s ∈ segments, s.kind = .text →
      ComponentSource.cutAtFirstTag? s.content = none) : Front n u := by
  constructor
  · obtain ⟨items, hitems, htexts⟩ := exists_flatten_foldlM h
    intro i hi hhas
    rw [hitems] at hi
    obtain ⟨s, hs, hkind, rfl⟩ := htexts i hi hhas
    exact hhas (by rw [String.toList_ofList, htag s hs hkind])
  · intro f hf
    have hsite : f.scope.site ∈ u.sites := List.mem_map_of_mem hf
    rcases exists_of_mem_sites h hsite with hempty | ⟨s, hs, hsame⟩
    · cases hempty
    · have hle := hline s hs
      have hsame' : s.line = f.scope.site.2.2 := congrArg (fun site => site.2.2) hsame
      rw [hsame'] at hle
      cases f with
      | mk scope nodes => cases scope <;> exact hle

end Unfinished

end LiveMarkup
