import LiveMarkup.Proofs.Document.InPlace
import Mathlib.Data.Finmap
set_option autoImplicit false

/-! # Trees of markup

What a node shows is a tree without slots: a text, or a tag with a finite map of attributes and the
trees of its children (`TreeAt`). In a well-formed document every node shows just one tree, and two
nodes are deeply equal exactly when they show the same one (`deepEqual_iff_eq`). Attributes are
compared in one direction and by their number, so this needs that no element has one twice. -/

namespace LiveMarkup

/-- A tree of markup: attributes have no order, and nothing of what a page keeps while it is open is
part of it. -/
inductive Tree where
  | text (s : String)
  | element (tag : String) (attributes : Finmap fun _ : String => String) (children : List Tree)

/-- The attributes of a list, each under its name. -/
def attributeMap (attributes : List (String × String)) : Finmap fun _ : String => String :=
  (attributes.map fun a => ⟨a.1, a.2⟩).toFinmap

theorem lookup_attributeMap (attributes : List (String × String)) (name : String) :
    (attributeMap attributes).lookup name = Table.get? name attributes := by
  rw [attributeMap, Finmap.dlookup_list_toFinmap]
  induction attributes with
  | nil => rfl
  | cons a rest ih =>
      by_cases h : a.1 = name
      · subst h
        simp [Table.get?]
      · have hne : ¬name = a.1 := fun heq => h heq.symm
        simp [Table.get?, h, List.dlookup_cons_ne, hne, ih]

theorem attributeMap_inj {s t : List (String × String)} :
    attributeMap s = attributeMap t ↔ ∀ name, Table.get? name s = Table.get? name t := by
  constructor
  · intro h name
    rw [← lookup_attributeMap, h, lookup_attributeMap]
  · intro h
    refine Finmap.ext_lookup fun name => ?_
    rw [lookup_attributeMap, lookup_attributeMap, h]

namespace Document

variable {d d' other : Document} {a b c x : NodeId} {parent : Option NodeId} {s t : Tree}
  {f g : Forest}

/-! ## What a node shows -/

/-- The tree under a node. -/
inductive TreeAt (d : Document) : NodeId → Tree → Prop
  | text {id : NodeId} {s : String} : d.kind? id = some (.text s) → TreeAt d id (.text s)
  | element {id : NodeId} {e : Element} {trees : List Tree} : d.kind? id = some (.element e) →
      List.Forall₂ (TreeAt d) (d.children id) trees →
      TreeAt d id (.element e.tag (attributeMap e.attributes) trees)

/-- The trees of a forest, without their slots. -/
def Forest.trees : Forest → List Tree
  | nil => []
  | cons _ (.text s) _ next => .text s :: next.trees
  | cons _ (.element e) below next =>
    .element e.tag (attributeMap e.attributes) below.trees :: next.trees

theorem Holds.treeAt (h : d.Holds parent f) : List.Forall₂ d.TreeAt f.roots f.trees := by
  induction f generalizing parent with
  | nil => exact .nil
  | cons id kind below next ihb ihn =>
      have hkind := kind?_eq h.1
      cases kind with
      | text s => exact .cons (.text hkind) (ihn h.2.2)
      | element e =>
          have hbelow := ihb h.2.1
          rw [show below.roots = d.children id from (children_eq h.1).symm] at hbelow
          exact .cons (.element hkind hbelow) (ihn h.2.2)

/-- Nothing else is shown. -/
theorem Holds.eq_trees_of_treeAt (h : d.Holds parent f) {trees : List Tree}
    (hshows : List.Forall₂ d.TreeAt f.roots trees) : trees = f.trees := by
  induction f generalizing parent trees with
  | nil =>
      cases hshows
      rfl
  | cons id kind below next ihb ihn =>
      have hkind := kind?_eq h.1
      have hchildren := children_eq h.1
      obtain _ | ⟨hfirst, hrest⟩ := hshows
      rw [ihn h.2.2 hrest]
      cases hfirst with
      | text hs =>
          obtain rfl := Option.some.inj (hkind.symm.trans hs)
          rfl
      | element he hbelow =>
          obtain rfl := Option.some.inj (hkind.symm.trans he)
          rw [hchildren] at hbelow
          rw [ihb h.2.1 hbelow]
          rfl

theorem Treelike.existsUnique_treeAt (h : d.Treelike) (hx : (d.node? x).isSome) :
    ∃! t, d.TreeAt x t := by
  obtain ⟨n, hn⟩ := Option.isSome_iff_exists.mp hx
  obtain ⟨below, hholds, -⟩ := h.exists_tree hn
  have hshows := hholds.treeAt
  obtain ⟨t, ht⟩ : ∃ t, (Forest.tree x n.kind below).trees = [t] := by
    cases n.kind with
    | text s => exact ⟨_, rfl⟩
    | element e => exact ⟨_, rfl⟩
  rw [ht] at hshows
  obtain _ | ⟨hfirst, -⟩ := hshows
  refine ⟨t, hfirst, fun t' ht' => ?_⟩
  have hsame := hholds.eq_trees_of_treeAt (.cons ht' .nil)
  rw [ht] at hsame
  exact (List.cons.inj hsame).1

/-! ## Equality -/

theorem alike_iff_attributeMap {e e' : Element} (he : NamesUnique e.attributes)
    (he' : NamesUnique e'.attributes) : NodeKind.alike (.element e) (.element e') = true ↔
      e.tag = e'.tag ∧ attributeMap e.attributes = attributeMap e'.attributes := by
  rw [attributeMap_inj]
  constructor
  · intro h
    have hattributes := get?_eq_of_alike he h
    simp only [NodeKind.alike, Bool.and_eq_true, decide_eq_true_eq] at h
    exact ⟨h.1.1, hattributes⟩
  · rintro ⟨htag, hattributes⟩
    exact alike_of_get? htag he he' hattributes

/-- Forests are alike exactly when their trees are equal. -/
theorem Forest.alike_iff_trees_eq (hf : f.Sound) (hg : g.Sound) :
    f.Alike g ↔ f.trees = g.trees := by
  induction f generalizing g with
  | nil => cases g with
    | nil => exact ⟨fun _ => rfl, fun _ => trivial⟩
    | cons id kind below next =>
        refine ⟨False.elim, fun h => ?_⟩
        cases kind <;> cases h
  | cons id kind below next ihb ihn => cases g with
    | nil =>
        refine ⟨False.elim, fun h => ?_⟩
        cases kind <;> cases h
    | cons id' kind' below' next' =>
        obtain ⟨htext, hnames, hbelow, hnext⟩ := hf
        obtain ⟨htext', hnames', hbelow', hnext'⟩ := hg
        show NodeKind.alike kind kind' = true ∧ below.Alike below' ∧ next.Alike next' ↔ _
        rw [ihb hbelow hbelow', ihn hnext hnext']
        cases kind with
        | text s => cases kind' with
          | text s' =>
              -- texts have nothing below them
              rw [htext s rfl, htext' s' rfl]
              simp [NodeKind.alike, trees]
          | element e' => simp [NodeKind.alike, trees]
        | element e => cases kind' with
          | text s' => simp [NodeKind.alike, trees]
          | element e' =>
              rw [alike_iff_attributeMap (hnames e rfl) (hnames' e' rfl)]
              simp only [trees, List.cons.injEq, Tree.element.injEq]
              tauto

theorem deepEqual_iff_eq (h : d.WellFormed) (hother : other.WellFormed) (hs : d.TreeAt a s)
    (ht : other.TreeAt b t) : d.deepEqual a other b = true ↔ s = t := by
  have hlive : ∀ {d : Document} {x : NodeId} {t : Tree}, d.TreeAt x t → ∃ n, d.node? x = some n := by
    intro d x t hshown
    cases hshown with
    | text hkind => exact (exists_node_of_kind? hkind).imp fun _ hn => hn.1
    | element hkind _ => exact (exists_node_of_kind? hkind).imp fun _ hn => hn.1
  obtain ⟨n, hn⟩ := hlive hs
  obtain ⟨m, hm⟩ := hlive ht
  obtain ⟨below, hholds, hnodup, hsound⟩ := h.exists_tree hn
  obtain ⟨below', hholds', -, hsound'⟩ := hother.exists_tree hm
  rw [hholds.deepEqual_iff hnodup hholds', Forest.alike_iff_trees_eq hsound hsound',
    ← hholds.eq_trees_of_treeAt (.cons hs .nil), ← hholds'.eq_trees_of_treeAt (.cons ht .nil)]
  simp

/-! ## What does not count -/

/-- The same markup, but for the order of attributes. -/
def NodeKind.Reordered : NodeKind → NodeKind → Prop
  | .text s, .text t => s = t
  | .element e, .element e' => e.tag = e'.tag ∧ e.attributes.Perm e'.attributes
  | _, _ => False

/-- The documents have the same nodes, but for the order of attributes, live values and
properties. -/
def Reordered (d d' : Document) : Prop :=
  ∀ x, Option.Rel NodeKind.Reordered (d.kind? x) (d'.kind? x) ∧ d'.children x = d.children x

theorem forall₂_imp_of_mem {α β : Type} {R S : α → β → Prop} {l : List α} {l' : List β}
    (h : List.Forall₂ R l l') (himp : ∀ a ∈ l, ∀ b, R a b → S a b) : List.Forall₂ S l l' := by
  induction h with
  | nil => exact .nil
  | cons hab _ ih =>
      obtain ⟨hfirst, hrest⟩ := List.forall_mem_cons.mp himp
      exact .cons (hfirst _ hab) (ih hrest)

/-- The order of attributes does not matter to a map of them. -/
theorem attributeMap_of_perm {s t : List (String × String)} (hs : NamesUnique s) (h : s.Perm t) :
    attributeMap s = attributeMap t := by
  have ht : NamesUnique t := (h.map Prod.fst).nodup_iff.mp hs
  rw [attributeMap_inj]
  intro name
  refine Option.ext fun value => ?_
  constructor
  · intro hvalue
    exact Table.get?_of_mem ht (h.mem_iff.mp (Table.mem_of_get? hvalue))
  · intro hvalue
    exact Table.get?_of_mem hs (h.mem_iff.mpr (Table.mem_of_get? hvalue))

theorem TreeAt.reordered (h : d.WellFormed) (hsame : Reordered d d') (hshows : d.TreeAt x t) :
    d'.TreeAt x t := by
  induction x using h.treelike.childOf_wellFounded.induction generalizing t with
  | _ x ih =>
      obtain ⟨hkinds, hchildren⟩ := hsame x
      cases hshows with
      | text hkind =>
          rw [hkind] at hkinds
          cases hkind' : d'.kind? x with
          | none =>
              rw [hkind'] at hkinds
              cases hkinds
          | some kind =>
              rw [hkind'] at hkinds
              obtain ⟨hrel⟩ := hkinds
              cases kind with
              | text s => exact hrel ▸ .text hkind'
              | element e => exact hrel.elim
      | @element _ e trees hkind hbelow =>
          rw [hkind] at hkinds
          cases hkind' : d'.kind? x with
          | none =>
              rw [hkind'] at hkinds
              cases hkinds
          | some kind =>
              rw [hkind'] at hkinds
              obtain ⟨hrel⟩ := hkinds
              cases kind with
              | text s => exact hrel.elim
              | element e' =>
                  have hnames := h.names_unique x e (element?_eq_some_iff.mpr hkind)
                  rw [hrel.1, attributeMap_of_perm hnames hrel.2]
                  refine .element hkind' ?_
                  rw [hchildren]
                  refine forall₂_imp_of_mem hbelow fun c hc tree htree => ?_
                  exact ih c ((h.linked x c).mp hc) htree

/-- Two nodes of well-formed documents are deeply equal exactly when they show the same tree. So deep
equality is an equivalence across documents, and neither the order of attributes nor live values and
properties count for it. -/
theorem deepEqual_iff_same_tree (h : d.WellFormed) (hother : other.WellFormed)
    (ha : (d.node? a).isSome) (hb : (other.node? b).isSome) :
    ((∃! s, d.TreeAt a s) ∧ (∃! t, other.TreeAt b t) ∧
        ∀ s t, d.TreeAt a s → other.TreeAt b t → (d.deepEqual a other b = true ↔ s = t)) ∧
      d.deepEqual a d a = true ∧
      d.deepEqual a other b = other.deepEqual b d a ∧
      (∀ third c, third.WellFormed → (third.node? c).isSome → d.deepEqual a other b = true →
        other.deepEqual b third c = true → d.deepEqual a third c = true) ∧
      ∀ d' other', d'.WellFormed → other'.WellFormed → Reordered d d' → Reordered other other' →
        d'.deepEqual a other' b = d.deepEqual a other b := by
  have hexists := h.treelike.existsUnique_treeAt ha
  have hexists' := hother.treelike.existsUnique_treeAt hb
  obtain ⟨s, hs, -⟩ := id hexists
  obtain ⟨t, ht, -⟩ := id hexists'
  refine ⟨⟨hexists, hexists', fun s t hs ht => deepEqual_iff_eq h hother hs ht⟩, ?_, ?_, ?_, ?_⟩
  · exact (deepEqual_iff_eq h h hs hs).mpr rfl
  · rw [Bool.eq_iff_iff, deepEqual_iff_eq h hother hs ht, deepEqual_iff_eq hother h ht hs]
    exact eq_comm
  · intro third c hthird hc hab hbc
    obtain ⟨u, hu, -⟩ := hthird.treelike.existsUnique_treeAt hc
    rw [deepEqual_iff_eq h hother hs ht] at hab
    rw [deepEqual_iff_eq hother hthird ht hu] at hbc
    exact (deepEqual_iff_eq h hthird hs hu).mpr (hab.trans hbc)
  · intro d' other' hd' hother' hsame hsame'
    rw [Bool.eq_iff_iff, deepEqual_iff_eq h hother hs ht,
      deepEqual_iff_eq hd' hother' (hs.reordered h hsame) (ht.reordered hother hsame')]

/-- A field that was filled in, beside fresh markup with its attributes the other way round: both show
one tree. -/
theorem deepEqual_iff_same_tree_field :
    let live : Document :=
      ⟨#[some ⟨.element (.ofTag rootTag []), none, [1]⟩,
        some ⟨.element (.ofTag "label" []), some 0, [2, 3]⟩,
        some ⟨.text "Name", some 1, []⟩,
        some ⟨.element ⟨"input", [("name", "n"), ("type", "text")], some "Ada",
          [("disabled", true)]⟩, some 1, []⟩], [], #[]⟩
    let fresh : Document :=
      ⟨#[some ⟨.element (.ofTag rootTag []), none, [1]⟩,
        some ⟨.element (.ofTag "label" []), some 0, [2, 3]⟩,
        some ⟨.text "Name", some 1, []⟩,
        some ⟨.element (.ofTag "input" [("type", "text"), ("name", "n")]), some 1, []⟩], [], #[]⟩
    live.WellFormed ∧ fresh.WellFormed ∧ (live.node? 1).isSome ∧ (fresh.node? 1).isSome ∧
      ∃ t, live.TreeAt 1 t ∧ fresh.TreeAt 1 t := by
  intro live fresh
  have hlive : live.WellFormed := wellFormed_of_isOrdered (by decide +kernel)
  have hfresh : fresh.WellFormed := wellFormed_of_isOrdered (by decide +kernel)
  obtain ⟨⟨⟨s, hs, -⟩, ⟨t, ht, -⟩, hiff⟩, -⟩ :=
    deepEqual_iff_same_tree hlive hfresh (a := 1) (b := 1) rfl rfl
  have hequal : live.deepEqual 1 fresh 1 = true := by decide +kernel
  obtain rfl := (hiff s t hs ht).mp hequal
  exact ⟨hlive, hfresh, rfl, rfl, s, hs, ht⟩

end Document

end LiveMarkup
