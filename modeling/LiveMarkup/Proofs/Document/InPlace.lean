import LiveMarkup.Proofs.Document.Log
import LiveMarkup.Proofs.Document.Reconcile
import Mathlib.Data.List.Chain
set_option autoImplicit false

/-! # Standing in a place

A node is in the document when it stands under the root (`contains_iff_under`). Reconciling a node
shows the fresh one in its place: under the same parent, at the same position among the siblings
(`shownInPlace_reconcile`), and what stands there is in the document as before. -/

namespace LiveMarkup.Document

variable {d d' source : Document} {id old new : NodeId} {name value : String}

/-! ## Standing under the root -/

theorem under_of_reachesRoot {bound : Nat} (h : d.reachesRoot bound id = true) :
    d.Under id root := by
  induction bound generalizing id with
  | zero => simp [reachesRoot] at h
  | succ bound ih =>
      rw [reachesRoot] at h
      split at h
      · next heq => exact heq ▸ .refl
      · split at h
        · next p hp => exact .head hp (ih h)
        · cases h

/-- Walking up along parents that are all there ends at the root within as many steps. -/
theorem reachesRoot_of_chain (h : d.WellFormed) {path : List NodeId} {bound : Nat}
    (hchain : (id :: path).IsChain d.ChildOf) (hlast : (id :: path).getLast (by simp) = root)
    (hbound : path.length < bound) : d.reachesRoot bound id = true := by
  induction path generalizing id bound with
  | nil =>
      obtain ⟨bound, rfl⟩ := Nat.exists_eq_succ_of_ne_zero (Nat.ne_of_gt hbound)
      obtain rfl : id = root := by simpa using hlast
      rw [reachesRoot, if_pos rfl]
      exact h.root_live
  | cons p rest ih =>
      obtain ⟨bound, rfl⟩ := Nat.exists_eq_succ_of_ne_zero (Nat.ne_of_gt (Nat.zero_lt_of_lt hbound))
      obtain ⟨hp, hrest⟩ := List.isChain_cons_cons.mp hchain
      rw [reachesRoot]
      split
      · next heq =>
          rw [heq]
          exact h.root_live
      · rw [show d.parent? id = some p from hp]
        refine ih hrest ?_ (by simpa using hbound)
        rwa [List.getLast_cons (by simp)] at hlast

/-- The way from a node up to the root meets no node twice, so it is no longer than there are slots.
-/
theorem exists_chain_of_under (h : d.WellFormed) (hunder : d.Under id root) :
    ∃ path, (id :: path).IsChain d.ChildOf ∧ (id :: path).getLast (by simp) = root ∧
      path.length < d.depthBound := by
  obtain ⟨path, hchain, hlast⟩ := List.exists_isChain_cons_of_relationReflTransGen hunder
  have hpairwise : (id :: path).Pairwise (Relation.TransGen d.ChildOf) :=
    List.isChain_iff_pairwise.mp (hchain.imp fun _ _ => .single)
  have hnodup : (id :: path).Nodup := by
    refine List.nodup_iff_pairwise_ne.mpr (hpairwise.imp ?_)
    rintro a _ hab rfl
    exact h.acyclic a hab
  have hlive : ∀ x ∈ id :: path, (d.node? x).isSome := by
    refine hchain.backwards_cons_induction _ _ hlast (fun x p hp _ => ?_) h.root_live
    obtain ⟨n, hn, -⟩ := exists_node_of_parent? hp
    simp [hn]
  have hslots : id :: path ⊆ List.range d.slots.size := by
    intro x hx
    obtain ⟨n, hn⟩ := Option.isSome_iff_exists.mp (hlive x hx)
    exact List.mem_range.mpr (lt_size_of_node? hn)
  have hlength := (List.subperm_of_subset hnodup hslots).length_le
  rw [List.length_range, List.length_cons] at hlength
  refine ⟨path, hchain, hlast, ?_⟩
  unfold depthBound
  omega

/-- A node is in the document exactly if it stands under the root. -/
theorem contains_iff_under (h : d.WellFormed) : d.contains id = true ↔ d.Under id root := by
  refine ⟨under_of_reachesRoot, fun hunder => ?_⟩
  obtain ⟨path, hchain, hlast, hlength⟩ := exists_chain_of_under h hunder
  exact reachesRoot_of_chain h hchain hlast hlength

/-- What is found below a node stands under it. -/
theorem under_of_findIn (h : d.WellFormed) {bound : Nat} {scope : NodeId}
    (hfind : d.findIn name value bound scope = some id) : d.Under id scope := by
  induction bound generalizing scope with
  | zero => simp [findIn] at hfind
  | succ bound ih =>
      rw [findIn] at hfind
      split at hfind
      · exact Option.some.inj hfind ▸ .refl
      · obtain ⟨child, hchild, hfound⟩ := List.exists_of_findSome?_eq_some hfind
        exact (ih hfound).tail ((h.linked scope child).mp hchild)

/-! ## Attributes of equal trees -/

theorem get?_eq_of_alike {a b : Element} (ha : NamesUnique a.attributes)
    (halike : NodeKind.alike (.element a) (.element b) = true) (name : String) :
    Table.get? name a.attributes = Table.get? name b.attributes := by
  simp only [NodeKind.alike, Bool.and_eq_true, decide_eq_true_eq, List.all_eq_true] at halike
  obtain ⟨⟨-, hlength⟩, hall⟩ := halike
  cases hget : Table.get? name a.attributes with
  | some value => exact (hall _ (Table.mem_of_get? hget)).symm
  | none =>
      -- the names of both are the same, since there are as many of them
      have hsub : Table.keys a.attributes ⊆ Table.keys b.attributes := by
        intro key hkey
        obtain ⟨⟨key, value⟩, hmem, rfl⟩ := List.mem_map.mp hkey
        exact Table.get?_isSome_iff.mp (by simp [hall _ hmem])
      have hperm : (Table.keys a.attributes).Perm (Table.keys b.attributes) :=
        (List.subperm_of_subset ha hsub).perm_of_length_le
          (by simp [Table.keys, hlength])
      have hnot : name ∉ Table.keys b.attributes := by
        rw [← hperm.mem_iff, ← Table.get?_isSome_iff, hget]
        exact Bool.false_ne_true
      rw [← Table.get?_isSome_iff, Bool.not_eq_true, Option.isSome_eq_false_iff,
        Option.isNone_iff_eq_none] at hnot
      exact hnot.symm

/-- The nodes on top of equal trees have the same attributes. -/
theorem attribute?_of_deepEqual (h : d.WellFormed) {a b : NodeId}
    (hequal : d.deepEqual a source b = true) (name : String) :
    d.attribute? a name = source.attribute? b name := by
  unfold deepEqual depthBound at hequal
  rw [equalTrees] at hequal
  cases hx : d.node? a with
  | none => simp [hx] at hequal
  | some x =>
      cases hy : source.node? b with
      | none => simp [hx, hy] at hequal
      | some y =>
          simp only [hx, hy, Bool.and_eq_true] at hequal
          obtain ⟨⟨halike, -⟩, -⟩ := hequal
          unfold attribute? element?
          rw [kind?_eq hx, kind?_eq hy]
          cases hxk : x.kind with
          | text s =>
              cases hyk : y.kind with
              | text t => rfl
              | element e => simp [hxk, hyk, NodeKind.alike] at halike
          | element e =>
              cases hyk : y.kind with
              | text t => simp [hxk, hyk, NodeKind.alike] at halike
              | element e' =>
                  rw [hxk, hyk] at halike
                  have hnames := h.names_unique a e (by rw [element?, kind?_eq hx, hxk])
                  exact get?_eq_of_alike hnames halike name

/-! ## Reconciling in place -/

section

variable (h : d.WellFormed) (hsource : source.WellFormed) (hold : (d.node? old).isSome)
  (hroot : old ≠ root) (hnew : (source.node? new).isSome)

include h hsource hold hroot hnew

theorem parent?_reconcile :
    (d.reconcile old source new).2.parent? (d.reconcile old source new).1 = d.parent? old := by
  obtain ⟨n, hn⟩ := Option.isSome_iff_exists.mp hold
  obtain ⟨m, hm⟩ := Option.isSome_iff_exists.mp hnew
  obtain ⟨before, after, hsome, hnone⟩ := h.exists_beside old
  obtain ⟨below, below', -, -, -, -, kind₁, below₁, hedit, -⟩ :=
    exists_patches_reconcile h hsource before after hn hroot hm hsome hnone
  exact parent?_eq hedit.placed.holds.1

theorem children_reconcile {p : NodeId} {before after : List NodeId}
    (hsplit : d.children p = before ++ old :: after) :
    (d.reconcile old source new).2.children p =
      before ++ (d.reconcile old source new).1 :: after := by
  obtain ⟨n, hn⟩ := Option.isSome_iff_exists.mp hold
  obtain ⟨m, hm⟩ := Option.isSome_iff_exists.mp hnew
  have hp : d.parent? old = some p := by
    rw [← ChildOf, ← h.linked, hsplit]
    exact List.mem_append_right _ List.mem_cons_self
  obtain ⟨below, below', -, -, -, -, kind₁, below₁, hedit, -⟩ :=
    exists_patches_reconcile h hsource before after hn hroot hm
      (fun p' hp' => by rw [← hsplit, Option.some.inj (hp.symm.trans hp')])
      (fun hnone => by simp [hp] at hnone)
  obtain ⟨-, k, hk, hchildren⟩ := hedit.placed.above p hp
  rw [children_eq hk, hchildren]
  rfl

/-- What stands in the place of a node of the document is in the document. -/
theorem under_root_reconcile (hunder : d.Under old root) :
    (d.reconcile old source new).2.Under (d.reconcile old source new).1 root := by
  rcases hunder.cases_head with heq | ⟨p, hp, hpr⟩
  · exact absurd heq hroot
  -- the nodes above the old one stay where they are
  have habove : ∀ x, d.Under x root → ¬d.Under x old →
      (d.reconcile old source new).2.Under x root := by
    intro x hx
    induction hx using Relation.ReflTransGen.head_induction_on with
    | refl => exact fun _ => .refl
    | @head x q hxq _ ih =>
        intro hnot
        obtain ⟨n, hn, -⟩ := exists_node_of_parent? hxq
        have hsame := outside_reconcile h hsource hold hroot hnew (by simp [hn]) hnot
        exact .head (hsame.2.1.trans hxq) (ih fun hq => hnot (.head hxq hq))
  refine .head ?_ (habove p hpr (h.treelike.not_under_child hp))
  exact (parent?_reconcile h hsource hold hroot hnew).trans hp

end

/-- A node of fresh markup is shown in the place of another: `placed` has its markup, and stands
under the same parent at the same position among the siblings. -/
structure ShownInPlace (d : Document) (old : NodeId) (source : Document) (new placed : NodeId)
    (d' : Document) : Prop where
  equal : d'.deepEqual placed source new = true
  parent : d'.parent? placed = d.parent? old
  slot : ∀ p before after, d.children p = before ++ old :: after →
    d'.children p = before ++ placed :: after

/-- What is shown in the place of something that is shown in a place is shown in that place. -/
theorem ShownInPlace.trans {d₁ d₂ source' : Document} {new' placed placed' : NodeId}
    (h₁ : d.ShownInPlace old source new placed d₁)
    (h₂ : d₁.ShownInPlace placed source' new' placed' d₂) :
    d.ShownInPlace old source' new' placed' d₂ :=
  ⟨h₂.equal, h₂.parent.trans h₁.parent,
    fun p before after hsplit => h₂.slot p before after (h₁.slot p before after hsplit)⟩

/-- Live properties and values are nothing to the place. -/
theorem ShownInPlace.sameTree {d₁ d₂ : Document} {placed : NodeId}
    (h : d.ShownInPlace old source new placed d₁) (hsame : SameTree d₁ d₂) :
    d.ShownInPlace old source new placed d₂ := by
  refine ⟨?_, ?_, fun p before after hsplit => ?_⟩
  · rw [hsame.deepEqual]
    exact h.equal
  · rw [hsame.parent?]
    exact h.parent
  · rw [hsame.children]
    exact h.slot p before after hsplit

/-- Reconciling shows the fresh node in the place of the old one. -/
theorem shownInPlace_reconcile (h : d.WellFormed) (hsource : source.WellFormed)
    (hold : (d.node? old).isSome) (hroot : old ≠ root) (hnew : (source.node? new).isSome) :
    d.ShownInPlace old source new (d.reconcile old source new).1
      (d.reconcile old source new).2 where
  equal := deepEqual_reconcile h hsource hold hroot hnew
  parent := parent?_reconcile h hsource hold hroot hnew
  slot := fun _ _ _ hsplit => children_reconcile h hsource hold hroot hnew hsplit

end LiveMarkup.Document
