import LiveMarkup.Proofs.Document.WellFormed
import Mathlib.Data.List.Nodup
set_option autoImplicit false

/-! # The trees of a document

A forest says in full which trees stand under a parent: every node with its kind, what is below it
and what stands next to it. `Holds` ties a forest to the slots of a document. Walks over a document
are understood as recursions over the forest it holds; a change of other slots does not touch it
(`Holds.congr`), and every node of a well-formed document is the top of one (`exists_tree`). -/

namespace LiveMarkup.Document

/-- Trees in order: the node on top of the first one, what is below it, and the trees next to it. -/
inductive Forest where
  | nil
  | cons (id : NodeId) (kind : NodeKind) (below next : Forest)

namespace Forest

/-- A single tree. -/
abbrev tree (id : NodeId) (kind : NodeKind) (below : Forest) : Forest := cons id kind below nil

def roots : Forest → List NodeId
  | nil => []
  | cons id _ _ next => id :: next.roots

/-- The nodes in document order. -/
def ids : Forest → List NodeId
  | nil => []
  | cons id _ below next => id :: (below.ids ++ next.ids)

def height : Forest → Nat
  | nil => 0
  | cons _ _ below next => max (below.height + 1) next.height

/-- The trees of one forest followed by those of another. -/
def append : Forest → Forest → Forest
  | nil, g => g
  | cons id kind below next, g => cons id kind below (next.append g)

/-- Whether two forests have the same shape, with related kinds in the same places. -/
def Rel (r : NodeKind → NodeKind → Prop) : Forest → Forest → Prop
  | nil, nil => True
  | cons _ k below next, cons _ k' below' next' => r k k' ∧ Rel r below below' ∧ Rel r next next'
  | _, _ => False

/-- Whether two forests have the same markup. -/
def Alike : Forest → Forest → Prop := Rel fun k k' => NodeKind.alike k k' = true

/-- Texts have nothing below them and no element has an attribute twice. -/
def Sound : Forest → Prop
  | nil => True
  | cons _ kind below next =>
    (∀ s, kind = .text s → below = nil) ∧ (∀ e, kind = .element e → NamesUnique e.attributes) ∧
      below.Sound ∧ next.Sound

theorem roots_append (f g : Forest) : (f.append g).roots = f.roots ++ g.roots := by
  induction f with
  | nil => rfl
  | cons id kind below next _ ihn => simp [append, roots, ihn]

theorem ids_append (f g : Forest) : (f.append g).ids = f.ids ++ g.ids := by
  induction f with
  | nil => rfl
  | cons id kind below next _ ihn => simp [append, ids, ihn]

theorem sound_append {f g : Forest} : (f.append g).Sound ↔ f.Sound ∧ g.Sound := by
  induction f with
  | nil => simp [append, Sound]
  | cons id kind below next _ ihn => simp only [append, Sound, ihn, and_assoc]

theorem height_le_length_ids (f : Forest) : f.height ≤ f.ids.length := by
  induction f with
  | nil => exact Nat.le_refl _
  | cons id kind below next ihb ihn =>
      simp only [height, ids, List.length_cons, List.length_append]
      omega

/-- A walk that may go as deep as some trees may go one step down. -/
theorem exists_bound_of_height_le {id : NodeId} {kind : NodeKind} {below next : Forest}
    {bound : Nat} (h : (cons id kind below next).height ≤ bound) :
    ∃ b, bound = b + 1 ∧ below.height ≤ b ∧ next.height ≤ b + 1 := by
  simp only [height, Nat.max_le] at h
  exact ⟨bound - 1, by omega, by omega, by omega⟩

theorem mem_ids_of_mem_roots {f : Forest} {x : NodeId} (h : x ∈ f.roots) : x ∈ f.ids := by
  induction f with
  | nil => exact h
  | cons id kind below next _ ihn =>
      rcases List.mem_cons.mp h with rfl | h
      · exact List.mem_cons_self
      · exact List.mem_cons_of_mem _ (List.mem_append_right _ (ihn h))

theorem roots_nodup {f : Forest} (h : f.ids.Nodup) : f.roots.Nodup := by
  induction f with
  | nil => exact List.nodup_nil
  | cons id kind below next _ ihn =>
      obtain ⟨hid, hrest⟩ := List.nodup_cons.mp h
      refine List.nodup_cons.mpr ⟨?_, ihn hrest.of_append_right⟩
      exact fun hmem => hid (List.mem_append_right _ (mem_ids_of_mem_roots hmem))

theorem nodup_ids_tree {id : NodeId} {kind : NodeKind} {below next : Forest}
    (h : (cons id kind below next).ids.Nodup) : (tree id kind below).ids.Nodup := by
  obtain ⟨hid, hrest⟩ := List.nodup_cons.mp h
  simp only [ids, List.append_nil]
  exact List.nodup_cons.mpr ⟨fun hm => hid (List.mem_append_left _ hm), hrest.of_append_left⟩

theorem Rel.mono {r s : NodeKind → NodeKind → Prop} (hrs : ∀ k k', r k k' → s k k')
    {f g : Forest} (h : Rel r f g) : Rel s f g := by
  induction f generalizing g with
  | nil => cases g with
    | nil => trivial
    | cons => exact h
  | cons id kind below next ihb ihn => cases g with
    | nil => exact h
    | cons => exact ⟨hrs _ _ h.1, ihb h.2.1, ihn h.2.2⟩

end Forest

/-! ## The forest a document holds -/

/-- The trees of a forest stand in the document under `parent`, with nothing but the forest below
them. -/
def Holds (d : Document) (parent : Option NodeId) : Forest → Prop
  | .nil => True
  | .cons id kind below next =>
    d.node? id = some ⟨kind, parent, below.roots⟩ ∧ d.Holds (some id) below ∧ d.Holds parent next

variable {d d' other : Document} {parent : Option NodeId} {f g : Forest} {x : NodeId}

theorem holds_append : d.Holds parent (f.append g) ↔ d.Holds parent f ∧ d.Holds parent g := by
  induction f with
  | nil => simp [Forest.append, Holds]
  | cons id kind below next _ ihn => simp only [Forest.append, Holds, ihn, and_assoc]

/-- Changes of other slots do not touch a forest. -/
theorem Holds.congr (h : d.Holds parent f) (hsame : ∀ x ∈ f.ids, d'.node? x = d.node? x) :
    d'.Holds parent f := by
  induction f generalizing parent with
  | nil => trivial
  | cons id kind below next ihb ihn =>
      obtain ⟨hnode, hbelow, hnext⟩ := h
      refine ⟨?_, ihb hbelow ?_, ihn hnext ?_⟩
      · rw [hsame id (by simp [Forest.ids])]
        exact hnode
      · exact fun x hx => hsame x (by simp [Forest.ids, hx])
      · exact fun x hx => hsame x (by simp [Forest.ids, hx])

theorem Holds.live (h : d.Holds parent f) (hx : x ∈ f.ids) : ∃ n, d.node? x = some n := by
  induction f generalizing parent with
  | nil => simp [Forest.ids] at hx
  | cons id kind below next ihb ihn =>
      simp only [Forest.ids, List.mem_cons, List.mem_append] at hx
      rcases hx with rfl | hx | hx
      · exact ⟨_, h.1⟩
      · exact ihb h.2.1 hx
      · exact ihn h.2.2 hx

theorem Holds.parent?_of_mem_roots (h : d.Holds parent f) (hx : x ∈ f.roots) :
    d.parent? x = parent := by
  induction f generalizing parent with
  | nil => simp [Forest.roots] at hx
  | cons id kind below next ihb ihn =>
      rcases List.mem_cons.mp hx with rfl | hx
      · exact parent?_eq h.1
      · exact ihn h.2.2 hx

/-- A node of a forest is on top, or its parent is in the forest. -/
theorem Holds.parent?_of_mem_ids (h : d.Holds parent f) (hx : x ∈ f.ids) :
    x ∈ f.roots ∨ ∃ q ∈ f.ids, d.parent? x = some q ∧ x ∈ d.children q := by
  induction f generalizing parent with
  | nil => simp [Forest.ids] at hx
  | cons id kind below next ihb ihn =>
      simp only [Forest.ids, List.mem_cons, List.mem_append] at hx
      rcases hx with rfl | hx | hx
      · exact Or.inl List.mem_cons_self
      · refine Or.inr ?_
        rcases ihb h.2.1 hx with htop | ⟨q, hq, hxq⟩
        · refine ⟨id, List.mem_cons_self, h.2.1.parent?_of_mem_roots htop, ?_⟩
          rw [children_eq h.1]
          exact htop
        · exact ⟨q, by simp [Forest.ids, hq], hxq⟩
      · rcases ihn h.2.2 hx with htop | ⟨q, hq, hxq⟩
        · exact Or.inl (List.mem_cons_of_mem _ htop)
        · exact Or.inr ⟨q, by simp [Forest.ids, hq], hxq⟩

/-- The children of a node of a forest are in the forest and name it as their parent. -/
theorem Holds.children_of_mem_ids (h : d.Holds parent f) (hx : x ∈ f.ids) {c : NodeId}
    (hc : c ∈ d.children x) : c ∈ f.ids ∧ d.ChildOf c x := by
  induction f generalizing parent with
  | nil => simp [Forest.ids] at hx
  | cons id kind below next ihb ihn =>
      simp only [Forest.ids, List.mem_cons, List.mem_append] at hx ⊢
      rcases hx with rfl | hx | hx
      · rw [children_eq h.1] at hc
        exact ⟨Or.inr (Or.inl (Forest.mem_ids_of_mem_roots hc)),
          h.2.1.parent?_of_mem_roots hc⟩
      · exact ⟨Or.inr (Or.inl (ihb h.2.1 hx).1), (ihb h.2.1 hx).2⟩
      · exact ⟨Or.inr (Or.inr (ihn h.2.2 hx).1), (ihn h.2.2 hx).2⟩

theorem Holds.children_nodup (h : d.Holds parent f) (hnodup : f.ids.Nodup) (hx : x ∈ f.ids) :
    (d.children x).Nodup := by
  induction f generalizing parent with
  | nil => simp [Forest.ids] at hx
  | cons id kind below next ihb ihn =>
      obtain ⟨-, hrest⟩ := List.nodup_cons.mp hnodup
      simp only [Forest.ids, List.mem_cons, List.mem_append] at hx
      rcases hx with rfl | hx | hx
      · rw [children_eq h.1]
        exact Forest.roots_nodup hrest.of_append_left
      · exact ihb h.2.1 hrest.of_append_left hx
      · exact ihn h.2.2 hrest.of_append_right hx

/-- Induction over a forest from below: no walk from parents to children leaves it or goes on
forever. -/
theorem Holds.acc (h : d.Holds parent f) (hlinked : ∀ p c, c ∈ d.children p ↔ d.ChildOf c p)
    (hx : x ∈ f.ids) : Acc d.ChildOf x := by
  induction f generalizing parent x with
  | nil => simp [Forest.ids] at hx
  | cons id kind below next ihb ihn =>
      simp only [Forest.ids, List.mem_cons, List.mem_append] at hx
      rcases hx with rfl | hx | hx
      · refine Acc.intro _ ?_
        intro c hc
        rw [← hlinked, children_eq h.1] at hc
        exact ihb h.2.1 (Forest.mem_ids_of_mem_roots hc)
      · exact ihb h.2.1 hx
      · exact ihn h.2.2 hx

/-- A node of a forest stands under one of its roots. -/
theorem Holds.under_root (h : d.Holds parent f) (hx : x ∈ f.ids) : ∃ r ∈ f.roots, d.Under x r := by
  induction f generalizing parent x with
  | nil => simp [Forest.ids] at hx
  | cons id kind below next ihb ihn =>
      simp only [Forest.ids, List.mem_cons, List.mem_append] at hx
      rcases hx with rfl | hx | hx
      · exact ⟨x, List.mem_cons_self, Relation.ReflTransGen.refl⟩
      · obtain ⟨r, hr, hxr⟩ := ihb h.2.1 hx
        exact ⟨id, List.mem_cons_self, hxr.tail (h.2.1.parent?_of_mem_roots hr)⟩
      · obtain ⟨r, hr, hxr⟩ := ihn h.2.2 hx
        exact ⟨r, List.mem_cons_of_mem _ hr, hxr⟩

theorem Holds.sound_of_mem_ids (h : d.Holds parent f) (hsound : f.Sound) (hx : x ∈ f.ids) :
    (∀ s, d.text? x = some s → d.children x = []) ∧
      ∀ e, d.element? x = some e → NamesUnique e.attributes := by
  induction f generalizing parent with
  | nil => simp [Forest.ids] at hx
  | cons id kind below next ihb ihn =>
      obtain ⟨htext, hnames, hbelow, hnext⟩ := hsound
      simp only [Forest.ids, List.mem_cons, List.mem_append] at hx
      rcases hx with rfl | hx | hx
      · rw [children_eq h.1, text?, element?, kind?_eq h.1]
        cases kind with
        | text s => simp [htext s rfl, Forest.roots]
        | element e => simpa using hnames e rfl
      · exact ihb h.2.1 hbelow hx
      · exact ihn h.2.2 hnext hx

theorem Holds.height_le (h : d.Holds parent f) (hnodup : f.ids.Nodup) :
    f.height ≤ d.slots.size := by
  refine Nat.le_trans f.height_le_length_ids ?_
  -- the ids are different slots of the arena
  have hsub : f.ids ⊆ List.range d.slots.size := by
    intro x hx
    obtain ⟨n, hn⟩ := h.live hx
    exact List.mem_range.mpr (lt_size_of_node? hn)
  simpa using (hnodup.subperm hsub).length_le

/-! ## Equality of trees -/

/-- Walking two forests side by side compares them, when the walk may go as deep as the first. -/
theorem Holds.equalTrees_iff {q : Option NodeId} {bound : Nat} (hf : d.Holds parent f)
    (hg : other.Holds q g) (hbound : f.height ≤ bound) :
    (f.roots.length = g.roots.length ∧
      ∀ c ∈ f.roots.zip g.roots, d.equalTrees other bound c.1 c.2 = true) ↔ f.Alike g := by
  induction f generalizing parent q g bound with
  | nil => cases g <;> simp [Forest.roots, Forest.Alike, Forest.Rel]
  | cons id kind below next ihb ihn =>
      cases g with
      | nil => simp [Forest.roots, Forest.Alike, Forest.Rel]
      | cons id' kind' below' next' =>
          obtain ⟨bound, rfl, hlow, hlevel⟩ := Forest.exists_bound_of_height_le hbound
          have hbelow := ihb hf.2.1 hg.2.1 hlow
          have hnext := ihn hf.2.2 hg.2.2 hlevel
          have htop : d.equalTrees other (bound + 1) id id' = true ↔
              NodeKind.alike kind kind' = true ∧ below.Alike below' := by
            rw [equalTrees, hf.1, hg.1]
            simp only [Bool.and_eq_true, decide_eq_true_eq, List.all_eq_true, and_assoc, hbelow]
          simp only [Forest.roots, List.length_cons, Nat.add_right_cancel_iff, List.zip_cons_cons,
            List.forall_mem_cons, htop]
          show _ ↔ NodeKind.alike kind kind' = true ∧ below.Alike below' ∧ next.Alike next'
          rw [← hnext]
          tauto

/-- On a tree that the document holds, `deepEqual` compares markup. -/
theorem Holds.deepEqual_iff {q : Option NodeId} {id id' : NodeId} {kind kind' : NodeKind}
    {below below' : Forest} (hf : d.Holds parent (.tree id kind below))
    (hnodup : (Forest.tree id kind below).ids.Nodup)
    (hg : other.Holds q (.tree id' kind' below')) :
    d.deepEqual id other id' = true ↔
      (Forest.tree id kind below).Alike (.tree id' kind' below') := by
  rw [← hf.equalTrees_iff hg (Nat.le_succ_of_le (hf.height_le hnodup))]
  simp [Forest.roots, deepEqual, depthBound]

/-! ## The tree under a node -/

namespace Treelike

variable (h : d.Treelike)

include h

/-- The trees under some children of a node make up a forest. -/
theorem exists_forest {p : NodeId} {l : List NodeId} (hl : l.Nodup) (hchild : ∀ c ∈ l, d.ChildOf c p)
    (htree : ∀ c ∈ l, ∃ kind below, d.Holds (some p) (.tree c kind below) ∧
      (Forest.tree c kind below).ids.Nodup) :
    ∃ f, d.Holds (some p) f ∧ f.roots = l ∧ f.ids.Nodup := by
  induction l with
  | nil => exact ⟨.nil, trivial, rfl, List.nodup_nil⟩
  | cons c rest ih =>
      obtain ⟨hc, hrest⟩ := List.nodup_cons.mp hl
      obtain ⟨kind, below, hholds, hnodup⟩ := htree c List.mem_cons_self
      obtain ⟨next, hnext, hroots, hnextNodup⟩ := ih hrest
        (fun c' hc' => hchild c' (List.mem_cons_of_mem _ hc'))
        (fun c' hc' => htree c' (List.mem_cons_of_mem _ hc'))
      refine ⟨.cons c kind below next, ⟨hholds.1, hholds.2.1, hnext⟩, by simp [Forest.roots, hroots],
        ?_⟩
      -- a node in both would stand under two different children of `p`
      have happart : ∀ x ∈ (Forest.tree c kind below).ids, x ∉ next.ids := by
        intro x hx hx'
        obtain ⟨r, hr, hxr⟩ := hholds.under_root hx
        obtain ⟨r', hr', hxr'⟩ := hnext.under_root hx'
        obtain rfl : r = c := by simpa [Forest.roots] using hr
        rw [hroots] at hr'
        have heq := h.eq_of_siblings (hchild r List.mem_cons_self)
          (hchild r' (List.mem_cons_of_mem _ hr')) hxr hxr'
        exact hc (heq ▸ hr')
      simp only [Forest.ids, List.append_nil] at hnodup happart ⊢
      rw [← List.cons_append]
      exact List.nodup_append'.mpr ⟨hnodup, hnextNodup, happart⟩

/-- Every node is the top of a tree that the document holds. -/
theorem exists_tree {id : NodeId} {n : NodeData} (hid : d.node? id = some n) :
    ∃ below, d.Holds (d.parent? id) (.tree id n.kind below) ∧
      (Forest.tree id n.kind below).ids.Nodup := by
  induction id using h.childOf_wellFounded.induction generalizing n with
  | _ id ih =>
      have hchild : ∀ c ∈ d.children id, d.ChildOf c id := fun c => (h.linked id c).mp
      obtain ⟨below, hbelow, hroots, hnodup⟩ : ∃ f, d.Holds (some id) f ∧
          f.roots = d.children id ∧ f.ids.Nodup := by
        refine h.exists_forest (h.children_nodup id) hchild ?_
        intro c hc
        obtain ⟨m, hm, -⟩ := exists_node_of_parent? (hchild c hc)
        obtain ⟨below, hholds, hrest⟩ := ih c (hchild c hc) hm
        rw [hchild c hc] at hholds
        exact ⟨m.kind, below, hholds, hrest⟩
      refine ⟨below, ⟨?_, hbelow, trivial⟩, ?_⟩
      · rw [hid, parent?_eq hid, hroots, children_eq hid]
      · simp only [Forest.ids, List.append_nil]
        refine List.nodup_cons.mpr ⟨?_, hnodup⟩
        intro hmem
        obtain ⟨r, hr, hu⟩ := hbelow.under_root hmem
        exact h.not_under_child (hbelow.parent?_of_mem_roots hr) hu

end Treelike

/-- A well-formed document holds sound forests only. -/
theorem WellFormed.sound_of_holds (h : d.WellFormed) (hf : d.Holds parent f) : f.Sound := by
  induction f generalizing parent with
  | nil => trivial
  | cons id kind below next ihb ihn =>
      obtain ⟨hid, hbelow, hnext⟩ := hf
      refine ⟨?_, ?_, ihb hbelow, ihn hnext⟩
      · intro s hs
        have hnil := h.text_childless id s (by rw [text?, kind?_eq hid, hs])
        rw [children_eq hid] at hnil
        cases below with
        | nil => rfl
        | cons => simp [Forest.roots] at hnil
      · intro e he
        exact h.names_unique id e (by rw [element?, kind?_eq hid, he])

/-- The tree under a node of a well-formed document is sound. -/
theorem WellFormed.exists_tree (h : d.WellFormed) {id : NodeId} {n : NodeData}
    (hid : d.node? id = some n) :
    ∃ below, d.Holds (d.parent? id) (.tree id n.kind below) ∧
      (Forest.tree id n.kind below).ids.Nodup ∧ (Forest.tree id n.kind below).Sound := by
  obtain ⟨below, hholds, hnodup⟩ := h.treelike.exists_tree hid
  exact ⟨below, hholds, hnodup, h.sound_of_holds hholds⟩

/-- A document holds one forest with given roots. -/
theorem Holds.eq_of_roots (hf : d.Holds parent f) (hg : d.Holds parent g)
    (hroots : f.roots = g.roots) : f = g := by
  induction f generalizing parent g with
  | nil => cases g with
    | nil => rfl
    | cons => cases hroots
  | cons id kind below next ihb ihn => cases g with
    | nil => cases hroots
    | cons id' kind' below' next' =>
        obtain ⟨rfl, hnext⟩ := List.cons.inj hroots
        have hnode : some _ = some _ := hf.1.symm.trans hg.1
        obtain ⟨rfl, hbelow⟩ : kind = kind' ∧ below.roots = below'.roots := by simpa using hnode
        rw [ihb hf.2.1 hg.2.1 hbelow, ihn hf.2.2 hg.2.2 hnext]

/-- No node stands twice in a tree of a well-formed document. -/
theorem WellFormed.nodup_of_holds (h : d.WellFormed) {id : NodeId} {kind : NodeKind} {below : Forest}
    (hf : d.Holds parent (.tree id kind below)) : (Forest.tree id kind below).ids.Nodup := by
  obtain ⟨below', hholds, hnodup⟩ := h.treelike.exists_tree hf.1
  rw [parent?_eq hf.1] at hholds
  rwa [hf.eq_of_roots hholds rfl]

end LiveMarkup.Document
