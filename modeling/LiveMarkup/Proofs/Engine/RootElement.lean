import LiveMarkup.Engine.Template
import LiveMarkup.Proofs.Render.FirstTag
import LiveMarkup.Proofs.TemplateDirectives
set_option autoImplicit false

/-! # The root element of a component

The program of a component template has the mark of its source in the first text with a tag
(`Template.exists_flatten_component`). If that text leads in the program, so that no branch without
it shows a tag, the first element of every page that a render shows has the instance key
(`Template.attribute?_firstElementChild?_component`). -/

namespace LiveMarkup

open Text

/-! ## Items -/

namespace Item

/-- Whether an item is a text with a start tag. -/
def HasTag : Item → Prop
  | text s => ComponentSource.cutAtFirstTag? s.toList ≠ none
  | _ => False

theorem hasTag_text {s : String} {cut : List Char × List Char}
    (h : ComponentSource.cutAtFirstTag? s.toList = some cut) : (text s).HasTag := by
  show ComponentSource.cutAtFirstTag? s.toList ≠ none
  rw [h]
  exact Option.some_ne_none cut

/-- Whether an item ends a branch or a body. -/
def EndsBranch : Item → Prop
  | elseIf _ _ => True
  | otherwise => True
  | close => True
  | _ => False

/-- The items of a marked run of text. -/
def marked (head : String) (key : Expr) (line : Nat) (behind : String) : List Item :=
  [.text head, .interpolate key true line, .text behind]

end Item

/-- The nodes of a marked run of text. -/
def Node.marked (head : String) (key : Expr) (line : Nat) (behind : String) : List Node :=
  [.text head, .interpolate key true line, .text behind]

/-! ## Segments as they are read -/

namespace Unfinished

variable {u u' : Unfinished}

/-- A segment is taken in as one item, or as none. Only a run of text is taken in as a text. -/
theorem exists_take_of_step {s : Segment} (h : u.step s = .ok u') :
    u' = u ∨ ∃ i : Item, u.take s i = .ok u' ∧
      (i.HasTag → s.kind = .text ∧ i = .text (String.ofList s.content)) := by
  unfold step at h
  cases hk : s.kind with
  | text =>
      simp only [hk] at h
      exact .inr ⟨.text (String.ofList s.content), h, fun _ => ⟨rfl, rfl⟩⟩
  | directive kind =>
      cases kind <;> simp only [hk] at h
      case comment =>
        cases h
        exact .inl rfl
      case close => exact .inr ⟨.close, h, False.elim⟩
      all_goals obtain ⟨header, -, h⟩ := bind_eq_ok h
      case elseKind =>
        cases header with
        | none => exact .inr ⟨.otherwise, h, False.elim⟩
        | some condition => exact .inr ⟨.elseIf condition s.line, h, False.elim⟩
      case escaped => exact .inr ⟨.interpolate header true s.line, h, False.elim⟩
      case raw => exact .inr ⟨.interpolate header false s.line, h, False.elim⟩
      case ifKind => exact .inr ⟨.choice header s.line, h, False.elim⟩
      case forKind => exact .inr ⟨.loop header.1 header.2 s.line, h, False.elim⟩
      case block => exact .inr ⟨.block header.1 header.2 s.line, h, False.elim⟩
      case component => exact .inr ⟨.component header.1 header.2 s.line, h, False.elim⟩
      case code => exact .inr ⟨.code header s.line, h, False.elim⟩

/-- Segments add items to what has been read, and their texts are those of the segments. -/
theorem exists_flatten_foldlM {segments : List Segment} (h : segments.foldlM step u = .ok u') :
    ∃ items : List Item, u'.flatten = u.flatten ++ items ∧ ∀ i ∈ items, i.HasTag →
      ∃ s ∈ segments, s.kind = .text ∧ i = .text (String.ofList s.content) := by
  induction segments generalizing u with
  | nil =>
      cases h
      exact ⟨[], (List.append_nil _).symm, fun _ hi => absurd hi List.not_mem_nil⟩
  | cons s rest ih =>
      rw [List.foldlM_cons] at h
      obtain ⟨next, hnext, h⟩ := bind_eq_ok h
      obtain ⟨items, hitems, htexts⟩ := ih h
      have hrest : ∀ i ∈ items, i.HasTag →
          ∃ t ∈ s :: rest, t.kind = .text ∧ i = .text (String.ofList t.content) := by
        intro i hi htag
        obtain ⟨t, ht, hkind⟩ := htexts i hi htag
        exact ⟨t, List.mem_cons_of_mem _ ht, hkind⟩
      rcases exists_take_of_step hnext with rfl | ⟨i, htake, htext⟩
      · exact ⟨items, hitems, hrest⟩
      · obtain ⟨hflat, -⟩ := flatten_take htake
        refine ⟨(if i.counts u.shape then [i] else []) ++ items, ?_, fun j hj htag => ?_⟩
        · rw [hitems, hflat, List.append_assoc]
        · rcases List.mem_append.mp hj with hj | hj
          · obtain rfl : j = i := by
              split at hj
              · exact List.mem_singleton.mp hj
              · cases hj
            exact ⟨s, List.mem_cons_self, htext htag⟩
          · exact hrest j hj htag

end Unfinished

/-! ## Where the mark is in a program -/

namespace Item

variable {front behind : List Item}

/-- The first text with a tag is one, and what stands behind it. -/
theorem eq_of_first {front' behind' : List Item} {i j : Item}
    (hfront : ∀ x ∈ front, ¬ x.HasTag) (hfront' : ∀ x ∈ front', ¬ x.HasTag) (hi : i.HasTag)
    (hj : j.HasTag) (h : front ++ i :: behind = front' ++ j :: behind') :
    i = j ∧ behind = behind' := by
  induction front generalizing front' with
  | nil =>
      cases front' with
      | nil => exact List.cons.inj h
      | cons x rest =>
          obtain ⟨rfl, -⟩ := List.cons.inj h
          exact absurd hi (hfront' _ List.mem_cons_self)
  | cons x rest ih =>
      cases front' with
      | nil =>
          obtain ⟨rfl, -⟩ := List.cons.inj h
          exact absurd hj (hfront _ List.mem_cons_self)
      | cons y rest' =>
          exact ih (fun z hz => hfront z (List.mem_cons_of_mem _ hz))
            (fun z hz => hfront' z (List.mem_cons_of_mem _ hz)) (List.cons.inj h).2

/-- A marked run among items of which only some in the middle have tags is among these. -/
theorem exists_of_append_eq {body before after : List Item} {ends : Item} {head tail : String}
    {key : Expr} {line : Nat} (hfront : ∀ i ∈ front, ¬ i.HasTag)
    (hbehind : ∀ i ∈ ends :: behind, ¬ i.HasTag) (hends : ends.EndsBranch)
    (hhead : (Item.text head).HasTag)
    (h : front ++ (body ++ ends :: behind) = before ++ (marked head key line tail ++ after)) :
    ∃ before' after', before = front ++ before' ∧
      body = before' ++ (marked head key line tail ++ after') := by
  have hmem : Item.text head ∈ marked head key line tail := List.mem_cons_self
  obtain ⟨before', rfl, hrest⟩ : ∃ before', before = front ++ before' ∧
      body ++ ends :: behind = before' ++ (marked head key line tail ++ after) := by
    rcases List.append_eq_append_iff.mp h with ⟨x, hbefore, hrest⟩ | ⟨x, hbefore, hrest⟩
    · exact ⟨x, hbefore, hrest⟩
    · cases x with
      | nil => exact ⟨[], by simpa using hbefore.symm, by simpa using hrest.symm⟩
      | cons i x =>
          -- the run would start among the items in front
          obtain ⟨rfl, -⟩ := List.cons.inj hrest
          exact absurd hhead (hfront _ (hbefore ▸ by simp))
  refine ⟨before', ?_⟩
  rcases List.append_eq_append_iff.mp hrest with ⟨x, -, hx⟩ | ⟨x, hbody, hx⟩
  · refine absurd hhead (hbehind _ ?_)
    rw [hx]
    exact List.mem_append_right _ (List.mem_append_left _ hmem)
  · -- the run ends before the branch does
    match x, hx with
    | [], hx | [_], hx | [_, _], hx =>
        simp only [marked, List.cons_append, List.nil_append, List.cons.injEq] at hx
        simp [EndsBranch, ← hx] at hends
    | _ :: _ :: _ :: after', hx =>
        simp only [marked, List.cons_append, List.nil_append, List.cons.injEq] at hx
        obtain ⟨rfl, rfl, rfl, -⟩ := hx
        exact ⟨after', rfl, hbody⟩

end Item

namespace Node

section

variable {s : String}

mutual

theorem text_mem_walk : ∀ n : Node, Item.text s ∈ n.flatten → Node.text s ∈ n.walk
  | .text t, h => by
      obtain rfl := Item.text.inj (List.mem_singleton.mp h)
      exact List.mem_cons_self
  | .choose arms none, h => by
      rw [flatten, List.append_nil] at h
      rcases List.mem_append.mp h with h | h
      · exact mem_walk_of_arms (text_mem_walkArms true arms h) none
      · cases List.mem_singleton.mp h
  | .choose arms (some body), h => by
      rw [flatten] at h
      rcases List.mem_append.mp h with h | h
      · rcases List.mem_append.mp h with h | h
        · exact mem_walk_of_arms (text_mem_walkArms true arms h) _
        · rcases List.mem_cons.mp h with h | h
          · cases h
          · exact mem_walk_of_otherwise (text_mem_walkAll body h) arms
      · cases List.mem_singleton.mp h
  | .loop binding subject body line, h => by
      rw [flatten] at h
      rcases List.mem_append.mp h with h | h
      · rcases List.mem_cons.mp h with h | h
        · cases h
        · exact List.mem_cons_of_mem _ (text_mem_walkAll body h)
      · cases List.mem_singleton.mp h
  | .interpolate _ _ _, h => by cases List.mem_singleton.mp h
  | .block _ _ _, h => by cases List.mem_singleton.mp h
  | .component _ _ _, h => by cases List.mem_singleton.mp h
  | .code _ _, h => by cases List.mem_singleton.mp h

theorem text_mem_walkAll : ∀ nodes : List Node, Item.text s ∈ flattenAll nodes →
    Node.text s ∈ walkAll nodes
  | [], h => by cases h
  | n :: rest, h => by
      rcases List.mem_append.mp h with h | h
      · exact List.mem_append_left _ (text_mem_walk n h)
      · exact List.mem_append_right _ (text_mem_walkAll rest h)

theorem text_mem_walkArms : ∀ (first : Bool) (arms : List Arm),
    Item.text s ∈ flattenArms first arms → Node.text s ∈ walkArms arms
  | _, [], h => by cases h
  | first, .arm condition body line :: rest, h => by
      rcases List.mem_append.mp h with h | h
      · rcases List.mem_cons.mp h with h | h
        · cases first <;> cases h
        · exact List.mem_append_left _ (text_mem_walkAll body h)
      · exact List.mem_append_right _ (text_mem_walkArms false rest h)

end

end

theorem Bare.not_hasTag {nodes : List Node} (h : Bare nodes) :
    ∀ i ∈ flattenAll nodes, ¬ i.HasTag := by
  intro i hi htag
  cases i with
  | text s => exact htag (h s (text_mem_walkAll nodes hi)).tagless
  | _ => exact htag

theorem BareArms.not_hasTag {arms : List Arm} (h : BareArms arms) (first : Bool) :
    ∀ i ∈ flattenArms first arms, ¬ i.HasTag := by
  intro i hi htag
  cases i with
  | text s => exact htag (h s (text_mem_walkArms first arms hi)).tagless
  | _ => exact htag

/-- The items of a final `else`. -/
def flattenElse : Option (List Node) → List Item
  | none => []
  | some body => .otherwise :: flattenAll body

theorem flatten_choose (arms : List Arm) (otherwise : Option (List Node)) :
    (choose arms otherwise).flatten =
      flattenArms true arms ++ (flattenElse otherwise ++ [.close]) := by
  cases otherwise <;> simp [flatten, flattenElse]

/-- Behind an arm there is another one, the final `else` or the end. -/
theorem exists_behind_arm (after : List Arm) (otherwise : Option (List Node)) :
    ∃ ends behind, flattenArms false after ++ (flattenElse otherwise ++ [.close]) = ends :: behind ∧
      ends.EndsBranch := by
  cases after with
  | cons arm rest =>
      obtain ⟨condition, body, line⟩ := arm
      exact ⟨.elseIf condition line, _, rfl, trivial⟩
  | nil =>
      cases otherwise with
      | some body => exact ⟨.otherwise, _, rfl, trivial⟩
      | none => exact ⟨.close, _, rfl, trivial⟩

/-- The items of a node that encloses a body are those of the body between items without tags. -/
theorem Encloses.exists_flatten {n : Node} {body : List Node} (h : Encloses n body) :
    ∃ front ends behind, n.flatten = front ++ (flattenAll body ++ ends :: behind) ∧
      ends.EndsBranch ∧ (∀ i ∈ front, ¬ i.HasTag) ∧ ∀ i ∈ ends :: behind, ¬ i.HasTag := by
  cases h with
  | loop binding subject _ line =>
      exact ⟨[.loop binding subject line], .close, [], by simp [flatten], trivial,
        by simp [Item.HasTag], by simp [Item.HasTag]⟩
  | @arm before after condition _ line otherwise hbefore hafter hotherwise =>
      have helse : ∀ i ∈ flattenElse otherwise, ¬ i.HasTag := by
        intro i hi
        cases otherwise with
        | none => cases hi
        | some nodes =>
            rcases List.mem_cons.mp hi with rfl | hi
            · exact id
            · exact (hotherwise nodes rfl).not_hasTag i hi
      obtain ⟨ends, behind, hrest, hends⟩ := exists_behind_arm after otherwise
      refine ⟨flattenArms true before ++
        [if before.isEmpty then .choice condition line else .elseIf condition line],
        ends, behind, ?_, hends, fun i hi => ?_, fun i hi => ?_⟩
      · rw [flatten_choose, flattenArms_append, flattenArms, ← hrest]
        simp
      · rcases List.mem_append.mp hi with hi | hi
        · exact hbefore.not_hasTag true i hi
        · obtain rfl := List.mem_singleton.mp hi
          split <;> exact id
      · rw [← hrest] at hi
        rcases List.mem_append.mp hi with hi | hi
        · exact hafter.not_hasTag false i hi
        · rcases List.mem_append.mp hi with hi | hi
          · exact helse i hi
          · obtain rfl := List.mem_singleton.mp hi
            exact id
  | @otherwise arms _ harms =>
      refine ⟨flattenArms true arms ++ [.otherwise], .close, [], ?_, trivial, fun i hi => ?_,
        by simp [Item.HasTag]⟩
      · simp [flatten]
      · rcases List.mem_append.mp hi with hi | hi
        · exact harms.not_hasTag true i hi
        · obtain rfl := List.mem_singleton.mp hi
          exact id

/-- The node of an item that is a node by itself. -/
def leaf? : Item → Option Node
  | .text s => some (.text s)
  | .interpolate e escape line => some (.interpolate e escape line)
  | _ => none

theorem exists_of_flattenAll_cons {nodes : List Node} {i : Item} {items : List Item} {n : Node}
    (hn : leaf? i = some n) (h : flattenAll nodes = i :: items) :
    ∃ rest, nodes = n :: rest ∧ flattenAll rest = items := by
  cases nodes with
  | nil => cases h
  | cons m rest =>
      cases m with
      | text s =>
          obtain ⟨rfl, hrest⟩ := List.cons.inj h
          exact ⟨rest, by rw [← Option.some.inj hn], hrest⟩
      | interpolate e escape line =>
          obtain ⟨rfl, hrest⟩ := List.cons.inj h
          exact ⟨rest, by rw [← Option.some.inj hn], hrest⟩
      | choose arms otherwise =>
          -- the items start with a condition, an `else` or the end
          rw [flattenAll, flatten_choose] at h
          cases arms with
          | nil =>
              cases otherwise <;> obtain ⟨rfl, -⟩ := List.cons.inj h <;> cases hn
          | cons arm arms =>
              cases arm
              obtain ⟨rfl, -⟩ := List.cons.inj h
              cases hn
      | loop _ _ _ _ | block _ _ _ | component _ _ _ | code _ _ =>
          obtain ⟨rfl, -⟩ := List.cons.inj h
          cases hn

/-- If a text that opens a tag leads, and the first text with a tag is marked, then the nodes lead
with a marked tag. -/
theorem Leads.marked {nodes : List Node} {before after : List Item} {a b : List Char} {key : Expr}
    {line : Nat} (h : Leads StartsTag nodes) (hkey : key.kind = .instanceKey)
    (hfirst : ComponentSource.cutAtFirstTag? (a ++ ComponentSource.markHead) =
      some (a, ComponentSource.markHead)) (hbefore : ∀ i ∈ before, ¬ i.HasTag)
    (hflat : flattenAll nodes = before ++
      (Item.marked (String.ofList (a ++ ComponentSource.markHead)) key line
        (String.ofList ('"' :: b)) ++ after)) : Leads StartsMarked nodes := by
  have hhead : (Item.text (String.ofList (a ++ ComponentSource.markHead))).HasTag :=
    Item.hasTag_text (by rw [String.toList_ofList, hfirst])
  induction h generalizing before after with
  | @here front nodes hfront hstarts =>
      obtain ⟨s, rest, rfl, lead, c, name, behind, hopens, hc, hname, hsettled⟩ := hstarts
      rw [flattenAll_append] at hflat
      obtain ⟨htext, hrest⟩ :=
        Item.eq_of_first hfront.not_hasTag hbefore (Item.hasTag_text hopens) hhead hflat
      obtain rfl := Item.text.inj htext
      rw [String.toList_ofList, hfirst] at hopens
      obtain ⟨rfl, -⟩ := Prod.mk.inj (Option.some.inj hopens)
      obtain ⟨nodes, rfl, hbehind⟩ := exists_of_flattenAll_cons rfl hrest
      obtain ⟨nodes, rfl, -⟩ := exists_of_flattenAll_cons rfl hbehind
      exact .here hfront ⟨lead, c, name, key, line, b, nodes, rfl, hkey, hc, hname, hsettled⟩
  | @inside front behind body n hfront hbehind hencloses _ ih =>
      obtain ⟨opening, ends, closing, hnode, hends, hopening, hclosing⟩ := hencloses.exists_flatten
      rw [flattenAll_append, flattenAll, hnode] at hflat
      have hsplit : (flattenAll front ++ opening) ++
          (flattenAll body ++ ends :: (closing ++ flattenAll behind)) = before ++
            (Item.marked (String.ofList (a ++ ComponentSource.markHead)) key line
              (String.ofList ('"' :: b)) ++ after) := by
        rw [← hflat]
        simp only [List.append_assoc, List.cons_append]
      have hin : ∀ i ∈ flattenAll front ++ opening, ¬ i.HasTag := fun i hi =>
        (List.mem_append.mp hi).elim (hfront.not_hasTag i) (hopening i)
      have hout : ∀ i ∈ ends :: (closing ++ flattenAll behind), ¬ i.HasTag := by
        intro i hi
        rw [← List.cons_append] at hi
        exact (List.mem_append.mp hi).elim (hclosing i) (hbehind.not_hasTag i)
      obtain ⟨before', after', rfl, hbody⟩ :=
        Item.exists_of_append_eq hin hout hends hhead hsplit
      exact .inside hfront hbehind hencloses
        (ih (fun i hi => hbefore i (List.mem_append_right _ hi)) hbody)

end Node

/-! ## The program of a marked source -/

/-- The directive of a mark says the instance key. -/
theorem exists_items_mark (offset line : Nat) :
    ∃ key : Expr, key.kind = .instanceKey ∧
      (Segment.ofDirective offset line ComponentSource.keyName).items =
        .ok [.interpolate key true line] := by
  obtain ⟨span, hsegment⟩ : ∃ span, Segment.ofDirective offset line ComponentSource.keyName =
      ⟨.directive .escaped, ComponentSource.keyName, span, line⟩ := ⟨_, rfl⟩
  have hspells : Spells ComponentSource.keyName [.ident "$ctxKey"] := .cons rfl rfl .nil
  obtain ⟨key, hbare, hread⟩ := Content.exists_expression
    (c := ⟨ComponentSource.keyName, span, line⟩) hspells (.expr (.atom .instanceKey))
  refine ⟨key, ?_, ?_⟩
  · obtain ⟨kind, span⟩ := key
    have hkind : Expr.bareKind kind = .instanceKey := congrArg Expr.kind hbare
    cases kind <;> cases hkind
    rfl
  · rw [hsegment]
    exact ok_bind hread

/-- The directive of a mark shows the instance key. -/
theorem exists_step_mark (offset line : Nat) :
    ∃ key : Expr, key.kind = .instanceKey ∧ ∀ u : Unfinished,
      u.step (Segment.ofDirective offset line ComponentSource.keyName) =
        .ok (u.push (.interpolate key true line)) := by
  obtain ⟨key, hkey, hitems⟩ := exists_items_mark offset line
  exact ⟨key, hkey, fun u => Unfinished.step_of_items hitems u⟩

/-- A marked run of text is read as the nodes of the mark. -/
theorem exists_foldlM_marked (d : Delimiters) (before a b : List Char) :
    ∃ key : Expr, key.kind = .instanceKey ∧ ∀ u : Unfinished,
      (Stretch.segments d before (Stretch.marked a b)).foldlM Unfinished.step u =
        .ok (u.pushAll (Node.marked (String.ofList (a ++ ComponentSource.markHead)) key
          (lineFeeds (before ++ (a ++ ComponentSource.markHead)) + 1)
          (String.ofList ('"' :: b)))) := by
  obtain ⟨key, hkey, hstep⟩ := exists_step_mark
    (byteLength (before ++ (a ++ ComponentSource.markHead)) + byteLength d.opening.toList)
    (lineFeeds (before ++ (a ++ ComponentSource.markHead)) + 1)
  exact ⟨key, hkey, fun _ => ok_bind (hstep _)⟩

theorem Unfinished.nodes_of_finish {u : Unfinished} {p : Program} (h : u.finish = .ok p) :
    Node.flattenAll p.nodes = u.flatten := by
  obtain ⟨frames, outside⟩ := u
  match frames with
  | [] =>
      cases h
      rfl
  | ⟨.choose _ _ _ _, _⟩ :: _ => cases h
  | ⟨.loop _ _ _ _, _⟩ :: _ => cases h

/-- What a marked run of text adds to the items. -/
theorem exists_flatten_marked {d : Delimiters} {before a b : List Char} {u u' : Unfinished}
    (h : (Stretch.segments d before (Stretch.marked a b)).foldlM Unfinished.step u = .ok u') :
    ∃ key line, key.kind = .instanceKey ∧ u'.flatten = u.flatten ++
      Item.marked (String.ofList (a ++ ComponentSource.markHead)) key line
        (String.ofList ('"' :: b)) := by
  obtain ⟨key, hkey, hfold⟩ := exists_foldlM_marked d before a b
  obtain rfl := Except.ok.inj ((hfold u).symm.trans h)
  refine ⟨key, lineFeeds (before ++ (a ++ ComponentSource.markHead)) + 1, hkey, ?_⟩
  simp only [Node.marked, Unfinished.pushAll, List.foldl_cons, List.foldl_nil,
    Unfinished.flatten_push, List.append_assoc]
  rfl

theorem Stretch.text_of_mem_segments {d : Delimiters} {before : List Char}
    {stretches : List Stretch} {s : Segment} (h : s ∈ segments d before stretches)
    (hkind : s.kind = .text) : Stretch.text s.content ∈ stretches := by
  induction stretches generalizing before with
  | nil => cases h
  | cons first rest ih =>
      cases first with
      | text run =>
          rcases List.mem_cons.mp h with rfl | h
          · exact List.mem_cons_self
          · exact List.mem_cons_of_mem _ (ih h)
      | directive raw =>
          rcases List.mem_cons.mp h with rfl | h
          · cases hkind
          · exact List.mem_cons_of_mem _ (ih h)

/-- The program of a component template has the mark in the first text with a tag. -/
theorem Template.exists_flatten_component {d : Delimiters} {name text : String} {t : Template}
    (hd : d.Apart) (hclose : d.closing ≠ "")
    (hsize : byteLength (ComponentSource.unwrap text.toList) < UInt32.size)
    (h : Template.component name text d = .ok t) :
    ∃ before a key line b after, key.kind = .instanceKey ∧
      Node.flattenAll t.program.nodes = before ++
        Item.marked (String.ofList (a ++ ComponentSource.markHead)) key line
          (String.ofList ('"' :: b)) ++ after ∧
      ComponentSource.cutAtFirstTag? (a ++ ComponentSource.markHead) =
        some (a, ComponentSource.markHead) ∧ ∀ i ∈ before, ¬ i.HasTag := by
  obtain ⟨marked, hmarked, hbuild⟩ := bind_eq_ok h
  obtain ⟨p, hcompile, hp⟩ := bind_eq_ok hbuild
  cases hp
  obtain ⟨segments, hscan, hsegments⟩ := bind_eq_ok (eq_ok_of_mapError hcompile)
  obtain ⟨u, hread, hfinish⟩ := bind_eq_ok hsegments
  obtain ⟨pre, a, b, post, -, hcut, hfirst, htagless⟩ :=
    ComponentSource.exists_cut_of_markRoot hd hclose hsize hmarked
  obtain rfl := Except.ok.inj ((eq_ok_of_mapError hscan).symm.trans (scanFrom_of_cut hcut []))
  rw [Stretch.segments_append, Stretch.segments_append, List.foldlM_append,
    List.foldlM_append] at hread
  obtain ⟨u₂, hread₂, hpost⟩ := bind_eq_ok hread
  obtain ⟨u₁, hpre, hmark⟩ := bind_eq_ok hread₂
  obtain ⟨before, hbefore, htexts⟩ := Unfinished.exists_flatten_foldlM hpre
  obtain ⟨key, line, hkey, hflat⟩ := exists_flatten_marked hmark
  obtain ⟨after, hafter, -⟩ := Unfinished.exists_flatten_foldlM hpost
  refine ⟨before, a, key, line, b, after, hkey, ?_,
    ComponentSource.cutAtFirstTag?_append hfirst (by decide) _, fun i hi htag => ?_⟩
  · rw [Unfinished.nodes_of_finish hfinish, hafter, hflat, hbefore]
    rfl
  · obtain ⟨s, hs, hkind, rfl⟩ := htexts i hi htag
    have htext := Stretch.text_of_mem_segments hs hkind
    exact htag (by rw [String.toList_ofList, htagless _ htext])

/-! ## Renders -/

theorem Program.exists_execute {σ : Type} {p : Program} {c : RenderCall σ} {world : σ}
    {out : String}
    (h : (p.execute c world).map (fun shown => shown.1.toOption) = some (some out)) :
    ∃ world', p.execute c world = some (.ok out, world') := by
  obtain ⟨⟨result, world'⟩, hrun, hresult⟩ := Option.map_eq_some_iff.mp h
  obtain rfl : result = .ok out := eq_ok_of_toOption hresult
  exact ⟨world', hrun⟩

/-- The mark of a component reaches the document. If the text that opens the first tag leads in the
program, the first element of every page that a render of it shows has the instance key. The mark
is not cut apart, since the delimiters share no character with it, and spans reach the tag. -/
theorem Template.attribute?_firstElementChild?_component {σ : Type} {c : RenderCall σ}
    {d : Delimiters} {name text k : String} {t : Template} (hd : d.Apart) (hclose : d.closing ≠ "")
    (hsize : byteLength (ComponentSource.unwrap text.toList) < UInt32.size)
    (ht : Template.component name text d = .ok t)
    (hescaping : ∀ n ∈ Node.walkAll t.program.nodes, n.Escaping)
    (hleads : Node.Leads Node.StartsTag t.program.nodes) (hc : c.Unmarked)
    (hk : c.instanceKey = some k) (hnull : '\x00' ∉ k.toList) (hreturn : '\r' ∉ k.toList)
    {world world' : σ} {out : String} (hrun : t.program.execute c world = some (.ok out, world'))
    {x : NodeId} (hx : (Document.parse out).firstElementChild? Document.root = some x) :
    (Document.parse out).attribute? x rootAttribute = some k := by
  obtain ⟨before, a, key, line, b, after, hkey, hflat, hfirst, hbefore⟩ :=
    exists_flatten_component hd hclose hsize ht
  rw [List.append_assoc] at hflat
  exact t.program.attribute?_firstElementChild? hescaping
    (hleads.marked hkey hfirst hbefore hflat) hc hk hnull hreturn hrun hx

/-- A render of an instance with a key. -/
def RenderCall.keyed {σ : Type} (host : Host σ) (data : Value) (key : String) : RenderCall σ :=
  { RenderCall.plain host data with instanceKey := some key }

theorem RenderCall.unmarked_keyed {σ : Type} {host : Host σ} {i : Ident} {name key : String}
    {v : Value} (h : v.Unmarked) :
    (RenderCall.keyed host (.object i [(name, v)]) key).Unmarked := by
  refine ⟨.object ?_, fun _ hprops => nomatch hprops⟩
  simpa only [List.forall_mem_singleton] using h

/-- A component of a comment and a loop, as it is marked. -/
def itemList : Template where
  name := "list"
  source := "<!-- x -->[for (x in xs)]<p element=\"[$ctxKey]\">[x]</p>[/]"
  program := ⟨[.text "<!-- x -->",
    .loop ⟨none, "x"⟩ (.node (.ident "xs") ⟨21, 23⟩)
      [.text "<p element=\"", .interpolate (.node .instanceKey ⟨38, 45⟩) true 1, .text "\">",
        .interpolate (.node (.ident "x") ⟨49, 50⟩) true 1, .text "</p>"] 1]⟩

theorem leads_itemList : Node.Leads Node.StartsTag itemList.program.nodes := by
  have hcomment : Text.Bare "<!-- x -->" :=
    ⟨by cbv, .markup (fun _ => ⟨rfl, rfl⟩) (fun _ => List.not_mem_nil) .nil⟩
  have hbefore : Node.Bare [.text "<!-- x -->"] := by
    intro s hs
    obtain rfl := Node.text.inj (List.mem_singleton.mp hs)
    exact hcomment
  have hopens : Text.Opens "<p element=\"" :=
    ⟨[], 'p', [], [' ', 'e', 'l', 'e', 'm', 'e', 'n', 't', '=', '"'], by cbv, by decide, by simp,
      .nil⟩
  have hempty : Node.Bare [] := fun s hs => absurd hs List.not_mem_nil
  refine @Node.Leads.inside Node.StartsTag _ [] _ _ hbefore hempty (.loop _ _ _ _)
    (@Node.Leads.here Node.StartsTag [] _ hempty ?_)
  exact ⟨_, _, rfl, hopens⟩

/-- A render of the list with values that look like markup. -/
def itemListCall : RenderCall Store :=
  .keyed (Store.host 1)
    (.object (.given 0) [("xs", .array (.given 1) [.str "<b>", .str "-->"])]) "list_1"

def itemListPage : String :=
  "<!-- x --><p element=\"list_1\">&lt;b&gt;</p><p element=\"list_1\">--&gt;</p>"

/-- Values that look like markup come behind the mark. -/
theorem Template.attribute?_firstElementChild?_component_itemList :
    (⟨"[", "]"⟩ : Delimiters).Apart ∧
    Template.component "list" "<!-- x -->[for (x in xs)]<p>[x]</p>[/]" ⟨"[", "]"⟩ =
      .ok itemList ∧
    (∀ n ∈ Node.walkAll itemList.program.nodes, n.Escaping) ∧
    Node.Leads Node.StartsTag itemList.program.nodes ∧ itemListCall.Unmarked ∧
    ∃ world' x, itemList.program.execute itemListCall Store.empty =
        some (.ok itemListPage, world') ∧
      (Document.parse itemListPage).firstElementChild? Document.root = some x ∧
      (Document.parse itemListPage).attribute? x rootAttribute = some "list_1" := by
  have hd : (⟨"[", "]"⟩ : Delimiters).Apart := by
    simp [Delimiters.Apart, Delimiters.Spare, ComponentSource.markHead,
      ComponentSource.keyName_eq, rootAttribute]
  have ht : Template.component "list" "<!-- x -->[for (x in xs)]<p>[x]</p>[/]" ⟨"[", "]"⟩ =
      .ok itemList :=
    Template.component_of_segments
      [⟨.text, "<!-- x -->".toList, ⟨0, 10⟩, 1⟩,
        ⟨.directive .forKind, "x in xs)".toList, ⟨16, 24⟩, 1⟩,
        ⟨.text, "<p element=\"".toList, ⟨25, 37⟩, 1⟩,
        ⟨.directive .escaped, "$ctxKey".toList, ⟨38, 45⟩, 1⟩, ⟨.text, "\">".toList, ⟨46, 48⟩, 1⟩,
        ⟨.directive .escaped, "x".toList, ⟨49, 50⟩, 1⟩, ⟨.text, "</p>".toList, ⟨51, 55⟩, 1⟩,
        ⟨.directive .close, [], ⟨57, 57⟩, 1⟩]
      (by decide +kernel) (by decide +kernel) (by cbv)
  have hescaping : ∀ n ∈ Node.walkAll itemList.program.nodes, n.Escaping := by
    simp [itemList, Node.walkAll, Node.walk, Node.Escaping]
  have hc : itemListCall.Unmarked :=
    RenderCall.unmarked_keyed (.array (by simp [Value.Unmarked.str]))
  have hshown : (itemList.program.execute itemListCall Store.empty).map
      (fun shown => shown.1.toOption) = some (some itemListPage) := by decide +kernel
  obtain ⟨world', hrun⟩ := Program.exists_execute hshown
  have hfirst : (Document.parse itemListPage).firstElementChild? Document.root = some 1 := by
    decide +kernel
  refine ⟨hd, ht, hescaping, leads_itemList, hc, world', 1, hrun, hfirst, ?_⟩
  exact Template.attribute?_firstElementChild?_component hd (by decide) (by decide) ht hescaping
    leads_itemList hc rfl (by decide) (by decide) hrun hfirst

/-- A component with a tag in either branch of a condition, as it is marked. -/
def eitherTag : Template where
  name := "rule"
  source := "\x7b\x7bif (a)\x7d\x7d<hr element=\"\x7b\x7b$ctxKey\x7d\x7d\">" ++
    "\x7b\x7belse\x7d\x7d<br>\x7b\x7b/\x7d\x7d"
  program := ⟨[.choose
    [.arm (.node (.ident "a") ⟨6, 7⟩) [.text "<hr element=\"",
      .interpolate (.node .instanceKey ⟨25, 32⟩) true 1, .text "\">"] 1]
    (some [.text "<br>"])]⟩

/-- A component whose mark holds the delimiters, as it is cut. -/
def crossedMark : Template where
  name := "box"
  source := "<p element=\"l$ctxKeym\">x</p>"
  program := ⟨[.text "<p e", .interpolate (.node (.ident "e") ⟨5, 6⟩) true 1, .text "ent=\"",
    .interpolate (.node .instanceKey ⟨13, 20⟩) true 1, .text "\">x</p>"]⟩

/-- The first element may be without a mark: only the tag of the first branch is marked, and a mark
that holds the delimiters is cut apart. -/
theorem Template.component_unmarked :
    (Template.component "rule" ("\x7b\x7bif (a)\x7d\x7d<hr>" ++
      "\x7b\x7belse\x7d\x7d<br>\x7b\x7b/\x7d\x7d") .braces = .ok eitherTag ∧
    (∀ n ∈ Node.walkAll eitherTag.program.nodes, n.Escaping) ∧
    (RenderCall.keyed (Store.host 1) (.object (.given 0) [("a", .bool false)]) "rule").Unmarked ∧
    ∃ world' x, eitherTag.program.execute
        (.keyed (Store.host 1) (.object (.given 0) [("a", .bool false)]) "rule") Store.empty =
          some (.ok "<br>", world') ∧
      (Document.parse "<br>").firstElementChild? Document.root = some x ∧
      (Document.parse "<br>").attribute? x rootAttribute = none) ∧
    Template.component "box" "<p>x</p>" ⟨"l", "m"⟩ = .ok crossedMark ∧
    (∀ n ∈ Node.walkAll crossedMark.program.nodes, n.Escaping) ∧
    (RenderCall.keyed (Store.host 1) (.object (.given 0) [("e", .str "x")]) "box").Unmarked ∧
    ∃ world' x, crossedMark.program.execute
        (.keyed (Store.host 1) (.object (.given 0) [("e", .str "x")]) "box") Store.empty =
          some (.ok "<p exent=\"box\">x</p>", world') ∧
      (Document.parse "<p exent=\"box\">x</p>").firstElementChild? Document.root = some x ∧
      (Document.parse "<p exent=\"box\">x</p>").attribute? x rootAttribute = none := by
  have heither : (eitherTag.program.execute
      (.keyed (Store.host 1) (.object (.given 0) [("a", .bool false)]) "rule") Store.empty).map
        (fun shown => shown.1.toOption) = some (some "<br>") := by decide +kernel
  have hcrossed : (crossedMark.program.execute
      (.keyed (Store.host 1) (.object (.given 0) [("e", .str "x")]) "box") Store.empty).map
        (fun shown => shown.1.toOption) = some (some "<p exent=\"box\">x</p>") := by decide +kernel
  have hbranches : Template.component "rule" ("\x7b\x7bif (a)\x7d\x7d<hr>" ++
      "\x7b\x7belse\x7d\x7d<br>\x7b\x7b/\x7d\x7d") .braces = .ok eitherTag :=
    Template.component_of_segments
      [⟨.directive .ifKind, ['a', ')'], ⟨6, 8⟩, 1⟩,
        ⟨.text, "<hr element=\"".toList, ⟨10, 23⟩, 1⟩,
        ⟨.directive .escaped, "$ctxKey".toList, ⟨25, 32⟩, 1⟩, ⟨.text, "\">".toList, ⟨34, 36⟩, 1⟩,
        ⟨.directive .elseKind, [], ⟨42, 42⟩, 1⟩, ⟨.text, "<br>".toList, ⟨44, 48⟩, 1⟩,
        ⟨.directive .close, [], ⟨51, 51⟩, 1⟩]
      (by decide +kernel) (by decide +kernel) (by cbv)
  obtain ⟨world, hrun⟩ := Program.exists_execute heither
  obtain ⟨world', hrun'⟩ := Program.exists_execute hcrossed
  refine ⟨⟨hbranches, ?_, RenderCall.unmarked_keyed (.bool false), world, 1, hrun,
    by decide +kernel, by decide +kernel⟩, by cbv, ?_, RenderCall.unmarked_keyed (.str "x"), world',
    1, hrun', by decide +kernel, by decide +kernel⟩
  · simp [eitherTag, Node.walkAll, Node.walk, Node.walkArms, Node.Escaping]
  · simp [crossedMark, Node.walkAll, Node.walk, Node.Escaping]

end LiveMarkup
