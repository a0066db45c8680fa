import LiveMarkup.Proofs.Document.Slots
import Mathlib.Data.Fintype.EquivFin
import Mathlib.Order.WellFounded
set_option autoImplicit false

/-! # Well-formed documents

The nodes of a well-formed document form trees: the children of a node and the parents of its
children agree, and no node is below itself. Induction from the children of a node to the node
(`childOf_wellFounded`) follows because there are only finitely many slots. -/

namespace LiveMarkup.Document

/-! ## Ancestry -/

def ChildOf (d : Document) (c p : NodeId) : Prop := d.parent? c = some p

instance (d : Document) (c p : NodeId) : Decidable (d.ChildOf c p) :=
  inferInstanceAs (Decidable (d.parent? c = some p))

/-- A node stands under itself and under every ancestor. -/
def Under (d : Document) : NodeId → NodeId → Prop := Relation.ReflTransGen d.ChildOf

/-- The nodes form trees: parents and children agree, and nothing is below itself. -/
structure Treelike (d : Document) : Prop where
  /-- A node names its children and they name it. -/
  linked : ∀ p c, c ∈ d.children p ↔ d.ChildOf c p
  children_nodup : ∀ p, (d.children p).Nodup
  acyclic : ∀ id, ¬Relation.TransGen d.ChildOf id id

/-- The names of a list of attributes. -/
def NamesUnique (attributes : List (String × String)) : Prop := (Table.keys attributes).Nodup

/-- Parents and children agree, nothing is below itself, texts have no children and elements no
attribute twice. The root and the vacant slots are the arena's own business, and in order. -/
structure WellFormed (d : Document) : Prop where
  root_live : (d.node? root).isSome
  root_parent : d.parent? root = none
  /-- A node names its children and they name it. -/
  linked : ∀ p c, c ∈ d.children p ↔ d.ChildOf c p
  children_nodup : ∀ p, (d.children p).Nodup
  acyclic : ∀ id, ¬Relation.TransGen d.ChildOf id id
  text_childless : ∀ id s, d.text? id = some s → d.children id = []
  names_unique : ∀ id e, d.element? id = some e → NamesUnique e.attributes
  accounted : d.SlotsAccounted

variable {d : Document} {id p c x : NodeId}

theorem childOf_rightUnique (d : Document) : Relator.RightUnique d.ChildOf := by
  intro c p q hp hq
  exact Option.some.inj (hp.symm.trans hq)

theorem acyclic_of_wellFounded (h : WellFounded d.ChildOf) (id : NodeId) :
    ¬Relation.TransGen d.ChildOf id id :=
  h.transGen.irrefl.irrefl id

theorem WellFormed.treelike (h : d.WellFormed) : d.Treelike :=
  ⟨h.linked, h.children_nodup, h.acyclic⟩

namespace Treelike

variable (h : d.Treelike)

include h

/-- What holds of a node when it holds of all its children holds of every node. -/
theorem childOf_wellFounded : WellFounded d.ChildOf := by
  -- below the size of the arena there are finitely many ids, so it is enough that none is below
  -- itself; no id beyond it has a child
  let below : Fin d.slots.size → Fin d.slots.size → Prop :=
    fun a b => Relation.TransGen d.ChildOf a b
  have : IsTrans (Fin d.slots.size) below := ⟨fun _ _ _ => Relation.TransGen.trans⟩
  have : Std.Irrefl below := ⟨fun a => h.acyclic a⟩
  have hwf : WellFounded below := Finite.wellFounded_of_trans_of_irrefl below
  have hbound : ∀ c p, d.ChildOf c p → c < d.slots.size := by
    intro c p hcp
    obtain ⟨n, hn, -⟩ := exists_node_of_parent? hcp
    exact lt_size_of_node? hn
  have hin : ∀ a : Fin d.slots.size, Acc d.ChildOf a := by
    intro a
    induction a using hwf.induction with
    | _ a ih =>
        refine Acc.intro _ ?_
        intro c hc
        exact ih ⟨c, hbound c a hc⟩ (Relation.TransGen.single hc)
  refine ⟨fun p => Acc.intro p ?_⟩
  intro c hc
  exact hin ⟨c, hbound c p hc⟩

/-- Nodes under different children of one node are different. -/
theorem eq_of_siblings {c' : NodeId} (hc : d.ChildOf c p) (hc' : d.ChildOf c' p)
    (hx : d.Under x c) (hx' : d.Under x c') : c = c' := by
  -- one sibling cannot stand under the other: it would stand under their parent and above it
  have hno : ∀ {a b : NodeId}, d.ChildOf a p → d.ChildOf b p → d.Under a b → a = b := by
    intro a b ha hb hab
    rcases hab.cases_head with heq | ⟨q, haq, hqb⟩
    · exact heq
    · have hq : p = q := childOf_rightUnique d ha haq
      subst hq
      exact absurd (Relation.TransGen.tail' hqb hb) (h.acyclic p)
  rcases Relation.ReflTransGen.total_of_right_unique (childOf_rightUnique d) hx hx' with hcc | hcc
  · exact hno hc hc' hcc
  · exact (hno hc' hc hcc).symm

theorem not_under_child (hc : d.ChildOf c p) : ¬d.Under p c := by
  intro hpc
  exact h.acyclic p (Relation.TransGen.tail' hpc hc)

theorem live_of_mem_children (hc : c ∈ d.children p) : (d.node? c).isSome := by
  obtain ⟨n, hn, -⟩ := exists_node_of_parent? ((h.linked p c).mp hc)
  simp [hn]

end Treelike

namespace WellFormed

variable (h : d.WellFormed)

include h

theorem text?_of_child (hc : d.ChildOf c p) : d.text? p = none := by
  cases htext : d.text? p with
  | none => rfl
  | some s =>
      have hmem : c ∈ d.children p := (h.linked p c).mpr hc
      simp [h.text_childless p s htext] at hmem

theorem root_not_under (hid : id ≠ root) : ¬d.Under root id := by
  intro hu
  rcases hu.cases_head with heq | ⟨q, hq, -⟩
  · exact hid heq.symm
  · rw [ChildOf, h.root_parent] at hq
    simp at hq

end WellFormed

/-! ## Checking a document -/

/-- A text has no children, an element no attribute twice. -/
def SoundNode : NodeData → Prop
  | ⟨.text _, _, children⟩ => children = []
  | ⟨.element e, _, _⟩ => NamesUnique e.attributes

instance : DecidablePred SoundNode
  | ⟨.text _, _, children⟩ => inferInstanceAs (Decidable (children = []))
  | ⟨.element e, _, _⟩ => inferInstanceAs (Decidable (Table.keys e.attributes).Nodup)

/-- Whether a node is linked as it should be and stands after its parent. -/
def OrderedAt (d : Document) (id : NodeId) (n : NodeData) : Prop :=
  n.children.Nodup ∧ (∀ c ∈ n.children, d.parent? c = some id) ∧
    (∀ p ∈ n.parent, p < id ∧ id ∈ d.children p) ∧ SoundNode n

instance (d : Document) (id : NodeId) (n : NodeData) : Decidable (d.OrderedAt id n) :=
  inferInstanceAs (Decidable (_ ∧ _ ∧ _ ∧ _))

/-- Whether a document has no vacant slot, its root on top, and every node after its parent, as when
it was built from the top down. -/
def isOrdered (d : Document) : Bool :=
  d.free = [] && d.slots.size != 0 && d.parent? root = none &&
    (List.range d.slots.size).all fun id => (d.node? id).any fun n => d.OrderedAt id n

theorem wellFormed_of_isOrdered (h : d.isOrdered = true) : d.WellFormed := by
  simp only [isOrdered, Bool.and_eq_true, decide_eq_true_eq, bne_iff_ne, List.all_eq_true,
    List.mem_range, Option.any_eq_true] at h
  obtain ⟨⟨⟨hfree, hsize⟩, hroot⟩, hslots⟩ := h
  have hat : ∀ {id n}, d.node? id = some n → d.OrderedAt id n := by
    intro id n hn
    obtain ⟨m, hm, hordered⟩ := hslots id (lt_size_of_node? hn)
    obtain rfl : m = n := Option.some.inj (hm.symm.trans hn)
    exact hordered
  refine ⟨?_, hroot, ?_, ?_, acyclic_of_wellFounded ?_, ?_, ?_, ?_⟩
  · obtain ⟨n, hn, -⟩ := hslots root (Nat.pos_of_ne_zero hsize)
    simp [hn]
  · intro p c
    constructor
    · intro hc
      obtain ⟨n, hn, hc⟩ := exists_node_of_mem_children hc
      exact (hat hn).2.1 c hc
    · intro hc
      obtain ⟨n, hn, hp⟩ := exists_node_of_parent? hc
      exact ((hat hn).2.2.1 p hp).2
  · intro p
    cases hp : d.node? p with
    | none => simp [children_of_vacant hp]
    | some n =>
        rw [children_eq hp]
        exact (hat hp).1
  · -- going down, the ids grow towards the size of the arena
    refine Subrelation.wf ?_ (measure fun id : NodeId => d.slots.size - id).wf
    intro c p hc
    obtain ⟨n, hn, hp⟩ := exists_node_of_parent? hc
    have hlt : p < c := ((hat hn).2.2.1 p hp).1
    exact Nat.sub_lt_sub_left (Nat.lt_trans hlt (lt_size_of_node? hn)) hlt
  · intro id s hs
    obtain ⟨⟨_, parent, children⟩, hn, rfl⟩ := exists_node_of_kind? (text?_eq_some_iff.mp hs)
    rw [children_eq hn]
    exact (hat hn).2.2.2
  · intro id e he
    obtain ⟨⟨_, parent, children⟩, hn, rfl⟩ := exists_node_of_kind? (element?_eq_some_iff.mp he)
    exact (hat hn).2.2.2
  · -- every slot is occupied, so none is free
    refine ⟨by simp [hfree], ?_⟩
    intro id
    rw [hfree]
    simp only [List.not_mem_nil, false_iff, not_and]
    intro hlt hnone
    obtain ⟨n, hn, -⟩ := hslots id hlt
    simp [hn] at hnone

end LiveMarkup.Document
