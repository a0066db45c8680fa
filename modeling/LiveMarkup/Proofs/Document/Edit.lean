import LiveMarkup.Proofs.Document.Forest
set_option autoImplicit false

/-! # Edits of the trees under a parent

An edit puts trees in the place of others and leaves the rest of the document alone. `Placed` says
where the trees stand before, `Replaces` what the edit did. Edits of one place follow each other
(`Replaces.trans`), edits of neighbouring places add up (`Replaces.beside`), and an edit of what is
below a node is one of the node's tree (`Replaces.inside`); removing and moving trees are the edits
that everything else is made of. -/

namespace LiveMarkup.Document

variable {d d₁ d₂ : Document} {parent : Option NodeId} {before after : List NodeId}
  {f f₁ f₂ g g₁ : Forest} {id x : NodeId} {kind kind' : NodeKind} {below below' : Forest}

/-! ## Places -/

/-- Trees stand under a parent between some other children of it. -/
structure Placed (d : Document) (parent : Option NodeId) (before after : List NodeId) (f : Forest) :
    Prop where
  holds : d.Holds parent f
  nodup : f.ids.Nodup
  sound : f.Sound
  beside : ∀ x ∈ before ++ after, x ∉ f.ids ∧ (d.node? x).isSome
  above : ∀ p, parent = some p →
    p ∉ f.ids ∧ ∃ n, d.node? p = some n ∧ n.children = before ++ (f.roots ++ after)
  accounted : d.SlotsAccounted

/-- The trees `f'` stand where `f` stood. Nodes that are new had vacant slots, those that are gone
left vacant ones, and outside the trees only the children of the parent are others. -/
structure Replaces (d d' : Document) (parent : Option NodeId) (before after : List NodeId)
    (f f' : Forest) : Prop where
  placed : d'.Placed parent before after f'
  fresh : ∀ x ∈ f'.ids, x ∈ f.ids ∨ d.node? x = none
  gone : ∀ x ∈ f.ids, x ∉ f'.ids → d'.node? x = none
  elsewhere : ∀ x, x ∉ f.ids → x ∉ f'.ids → parent ≠ some x → d'.node? x = d.node? x
  above_same : ∀ p, parent = some p → d'.kind? p = d.kind? p ∧ d'.parent? p = d.parent? p

theorem Placed.parent_ne (h : d.Placed parent before after f) (hx : x ∈ f.ids) :
    parent ≠ some x := by
  intro hp
  exact (h.above x hp).1 hx

/-- What there is to show of an edit of placed trees: the rest of `Replaces` follows. -/
theorem Placed.replaces (h : d.Placed parent before after f) (hholds : d₁.Holds parent f₁)
    (hnodup : f₁.ids.Nodup) (hsound : f₁.Sound)
    (hfresh : ∀ x ∈ f₁.ids, x ∈ f.ids ∨ d.node? x = none)
    (hgone : ∀ x ∈ f.ids, x ∉ f₁.ids → d₁.node? x = none)
    (helse : ∀ x, x ∉ f.ids → x ∉ f₁.ids → parent ≠ some x → d₁.node? x = d.node? x)
    (hslot : ∀ p n, parent = some p → d.node? p = some n →
      n.children = before ++ (f.roots ++ after) →
        d₁.node? p = some { n with children := before ++ (f₁.roots ++ after) })
    (haccounted : d₁.SlotsAccounted) : Replaces d d₁ parent before after f f₁ := by
  -- a node that was there beside the trees is not among the new ones
  have hother : ∀ x, x ∉ f.ids → (d.node? x).isSome → x ∉ f₁.ids := by
    intro x hx hlive hmem
    rcases hfresh x hmem with hf | hnone
    · exact hx hf
    · simp [hnone] at hlive
  refine ⟨⟨hholds, hnodup, hsound, ?_, ?_, haccounted⟩, hfresh, hgone, helse, ?_⟩
  · intro x hx
    obtain ⟨hxf, hlive⟩ := h.beside x hx
    have hxf₁ := hother x hxf hlive
    refine ⟨hxf₁, ?_⟩
    by_cases hp : parent = some x
    · obtain ⟨-, n, hn, hchildren⟩ := h.above x hp
      rw [hslot x n hp hn hchildren]
      rfl
    · rw [helse x hxf hxf₁ hp]
      exact hlive
  · intro p hp
    obtain ⟨hpf, n, hn, hchildren⟩ := h.above p hp
    exact ⟨hother p hpf (by simp [hn]), _, hslot p n hp hn hchildren, rfl⟩
  · intro p hp
    obtain ⟨-, n, hn, hchildren⟩ := h.above p hp
    have hn' := hslot p n hp hn hchildren
    rw [kind?_eq hn, kind?_eq hn', parent?_eq hn, parent?_eq hn']
    exact ⟨rfl, rfl⟩

/-! ## Edits put together -/

namespace Replaces

theorem refl (h : d.Placed parent before after f) : Replaces d d parent before after f f :=
  ⟨h, fun _ hx => Or.inl hx, fun _ hx hx' => absurd hx hx', fun _ _ _ _ => rfl,
    fun _ _ => ⟨rfl, rfl⟩⟩

/-- A node outside the trees has gone from being there to being vacant in neither direction. -/
theorem vacant_iff (h : Replaces d d₁ parent before after f f₁) (hf : d.Placed parent before after f)
    (hx : x ∉ f.ids) (hx₁ : x ∉ f₁.ids) : d₁.node? x = none ↔ d.node? x = none := by
  by_cases hp : parent = some x
  · obtain ⟨-, n, hn, -⟩ := hf.above x hp
    obtain ⟨-, n₁, hn₁, -⟩ := h.placed.above x hp
    simp [hn, hn₁]
  · rw [h.elsewhere x hx hx₁ hp]

theorem trans (hf : d.Placed parent before after f) (h₁ : Replaces d d₁ parent before after f f₁)
    (h₂ : Replaces d₁ d₂ parent before after f₁ f₂) : Replaces d d₂ parent before after f f₂ := by
  refine ⟨h₂.placed, ?_, ?_, ?_, ?_⟩
  · intro x hx
    by_cases hxf : x ∈ f.ids
    · exact Or.inl hxf
    · rcases h₂.fresh x hx with hx₁ | hnone
      · exact h₁.fresh x hx₁
      · by_cases hx₁ : x ∈ f₁.ids
        · exact h₁.fresh x hx₁
        · exact Or.inr ((h₁.vacant_iff hf hxf hx₁).mp hnone)
  · intro x hx hx₂
    by_cases hx₁ : x ∈ f₁.ids
    · exact h₂.gone x hx₁ hx₂
    · exact (h₂.vacant_iff h₁.placed hx₁ hx₂).mpr (h₁.gone x hx hx₁)
  · intro x hx hx₂ hp
    by_cases hx₁ : x ∈ f₁.ids
    · have hnone : d.node? x = none := (h₁.fresh x hx₁).resolve_left hx
      rw [hnone]
      exact h₂.gone x hx₁ hx₂
    · rw [h₂.elsewhere x hx₁ hx₂ hp, h₁.elsewhere x hx hx₁ hp]
  · intro p hp
    obtain ⟨hkind₁, hparent₁⟩ := h₁.above_same p hp
    obtain ⟨hkind₂, hparent₂⟩ := h₂.above_same p hp
    exact ⟨hkind₂.trans hkind₁, hparent₂.trans hparent₁⟩

end Replaces

/-- The first of two neighbouring groups of trees. -/
theorem Placed.left (h : d.Placed parent before after (f.append g)) :
    d.Placed parent before (g.roots ++ after) f := by
  obtain ⟨hf, hg⟩ := holds_append.mp h.holds
  have hnodup := h.nodup
  have habove := h.above
  have hbeside := h.beside
  simp only [Forest.ids_append, Forest.roots_append, List.mem_append, List.append_assoc] at *
  obtain ⟨hfn, -, hdisjoint⟩ := List.nodup_append'.mp hnodup
  refine ⟨hf, hfn, (Forest.sound_append.mp h.sound).1, ?_, ?_, h.accounted⟩
  · intro x hx
    simp only [List.mem_append] at hx
    rcases hx with hx | hx | hx
    · exact ⟨fun hm => (hbeside x (Or.inl hx)).1 (Or.inl hm), (hbeside x (Or.inl hx)).2⟩
    · have hxg := Forest.mem_ids_of_mem_roots hx
      obtain ⟨n, hn⟩ := hg.live hxg
      exact ⟨fun hm => hdisjoint hm hxg, by simp [hn]⟩
    · exact ⟨fun hm => (hbeside x (Or.inr hx)).1 (Or.inl hm), (hbeside x (Or.inr hx)).2⟩
  · intro p hp
    obtain ⟨hpf, hn⟩ := habove p hp
    exact ⟨fun hm => hpf (Or.inl hm), hn⟩

/-- The second of two neighbouring groups of trees, after an edit of the first. -/
theorem Placed.right (h : d.Placed parent before after (f.append g))
    (hedit : Replaces d d₁ parent before (g.roots ++ after) f f₁) :
    d₁.Placed parent (before ++ f₁.roots) after g := by
  obtain ⟨hf, hg⟩ := holds_append.mp h.holds
  have hnodup := h.nodup
  rw [Forest.ids_append] at hnodup
  obtain ⟨-, hgn, hdisjoint⟩ := List.nodup_append'.mp hnodup
  have hg₁ : ∀ x ∈ g.ids, x ∉ f₁.ids := by
    intro x hx hx₁
    obtain ⟨n, hn⟩ := hg.live hx
    rcases hedit.fresh x hx₁ with hxf | hnone
    · exact hdisjoint hxf hx
    · simp [hn] at hnone
  have hpg : ∀ x ∈ g.ids, parent ≠ some x := by
    intro x hx
    exact h.parent_ne (by simp [Forest.ids_append, hx])
  refine ⟨?_, hgn, (Forest.sound_append.mp h.sound).2, ?_, ?_, hedit.placed.accounted⟩
  · refine hg.congr ?_
    intro x hx
    exact hedit.elsewhere x (fun hxf => hdisjoint hxf hx) (hg₁ x hx) (hpg x hx)
  · intro x hx
    simp only [List.mem_append, or_assoc] at hx
    rcases hx with hx | hx | hx
    · have hxfg := (h.beside x (by simp [hx])).1
      exact ⟨fun hm => hxfg (by simp [Forest.ids_append, hm]),
        (hedit.placed.beside x (by simp [hx])).2⟩
    · -- a sibling that the edit put there
      have hx₁ := Forest.mem_ids_of_mem_roots hx
      obtain ⟨n, hn⟩ := hedit.placed.holds.live hx₁
      exact ⟨fun hm => hg₁ x hm hx₁, by simp [hn]⟩
    · have hxfg := (h.beside x (by simp [hx])).1
      exact ⟨fun hm => hxfg (by simp [Forest.ids_append, hm]),
        (hedit.placed.beside x (by simp [hx])).2⟩
  · intro p hp
    obtain ⟨-, n, hn, hchildren⟩ := hedit.placed.above p hp
    refine ⟨fun hm => hpg p hm hp, n, hn, ?_⟩
    rw [hchildren, List.append_assoc]

/-- Edits of neighbouring trees, one after the other. -/
theorem Replaces.beside (h : d.Placed parent before after (f.append g))
    (hf : Replaces d d₁ parent before (g.roots ++ after) f f₁)
    (hg : Replaces d₁ d₂ parent (before ++ f₁.roots) after g g₁) :
    Replaces d d₂ parent before after (f.append g) (f₁.append g₁) := by
  have hright := h.right hf
  have hnodup := h.nodup
  rw [Forest.ids_append] at hnodup
  obtain ⟨-, -, hdisjoint⟩ := List.nodup_append'.mp hnodup
  -- the first group stays as it is while the second is edited
  have hlive : ∀ x ∈ f₁.ids, x ∉ g.ids := by
    intro x hx hxg
    obtain ⟨n, hn⟩ := (holds_append.mp h.holds).2.live hxg
    rcases hf.fresh x hx with hxf | hnone
    · exact hdisjoint hxf hxg
    · simp [hn] at hnone
  have hstay : ∀ x ∈ f₁.ids, x ∉ g₁.ids ∧ d₂.node? x = d₁.node? x := by
    intro x hx
    have hx₁ : x ∉ g₁.ids := by
      intro hxg
      obtain ⟨n, hn⟩ := hf.placed.holds.live hx
      rcases hg.fresh x hxg with hxg | hnone
      · exact hlive x hx hxg
      · simp [hn] at hnone
    exact ⟨hx₁, hg.elsewhere x (hlive x hx) hx₁ (hf.placed.parent_ne hx)⟩
  refine h.replaces ?_ ?_ ?_ ?_ ?_ ?_ ?_ hg.placed.accounted
  · refine holds_append.mpr ⟨?_, hg.placed.holds⟩
    exact hf.placed.holds.congr fun x hx => (hstay x hx).2
  · rw [Forest.ids_append]
    refine List.nodup_append'.mpr ⟨hf.placed.nodup, hg.placed.nodup, ?_⟩
    exact fun x hx => (hstay x hx).1
  · exact Forest.sound_append.mpr ⟨hf.placed.sound, hg.placed.sound⟩
  · intro x hx
    simp only [Forest.ids_append, List.mem_append] at hx ⊢
    rcases hx with hx | hx
    · rcases hf.fresh x hx with hxf | hnone
      · exact Or.inl (Or.inl hxf)
      · exact Or.inr hnone
    · by_cases hxf : x ∈ f.ids
      · exact Or.inl (Or.inl hxf)
      · rcases hg.fresh x hx with hxg | hnone
        · exact Or.inl (Or.inr hxg)
        · have hx₁ : x ∉ f₁.ids := fun hm => (hstay x hm).1 hx
          exact Or.inr ((hf.vacant_iff h.left hxf hx₁).mp hnone)
  · intro x hx hx'
    simp only [Forest.ids_append, List.mem_append, not_or] at hx hx'
    rcases hx with hxf | hxg
    · have hxg : x ∉ g.ids := fun hm => hdisjoint hxf hm
      exact (hg.vacant_iff hright hxg hx'.2).mpr (hf.gone x hxf hx'.1)
    · exact hg.gone x hxg hx'.2
  · intro x hx hx' hp
    simp only [Forest.ids_append, List.mem_append, not_or] at hx hx'
    rw [hg.elsewhere x hx.2 hx'.2 hp, hf.elsewhere x hx.1 hx'.1 hp]
  · intro p n hp hn _
    obtain ⟨-, n₂, hn₂, hchildren⟩ := hg.placed.above p hp
    have hkind := (hg.above_same p hp).1.trans (hf.above_same p hp).1
    have hparent := (hg.above_same p hp).2.trans (hf.above_same p hp).2
    rw [node?_eq (hkind.trans (kind?_eq hn)), hparent, parent?_eq hn, children_eq hn₂, hchildren,
      Forest.roots_append, List.append_assoc, List.append_assoc]

/-- What is below the top of a placed tree. -/
theorem Placed.descend (h : d.Placed parent before after (.tree id kind below)) :
    d.Placed (some id) [] [] below := by
  obtain ⟨hid, hnodup⟩ := List.nodup_cons.mp h.nodup
  simp only [Forest.ids, List.append_nil] at hid hnodup
  refine ⟨h.holds.2.1, hnodup, h.sound.2.2.1, by simp, ?_, h.accounted⟩
  rintro p ⟨⟩
  exact ⟨hid, _, h.holds.1, by simp⟩

/-- An edit of what is below a node is an edit of the node's tree. -/
theorem Replaces.inside (h : d.Placed parent before after (.tree id kind below))
    (hedit : Replaces d d₁ (some id) [] [] below below')
    (htext : ∀ s, kind = .text s → below' = .nil) :
    Replaces d d₁ parent before after (.tree id kind below) (.tree id kind below') := by
  have hnode : d₁.node? id = some ⟨kind, parent, below'.roots⟩ := by
    obtain ⟨-, n, hn, hchildren⟩ := hedit.placed.above id rfl
    obtain ⟨hkind, hparent⟩ := hedit.above_same id rfl
    rw [node?_eq (hkind.trans (kind?_eq h.holds.1)), hparent, parent?_eq h.holds.1, children_eq hn,
      hchildren, List.nil_append, List.append_nil]
  have hid := (hedit.placed.above id rfl).1
  have htree : ∀ {b : Forest} {x : NodeId}, x ∈ (Forest.tree id kind b).ids ↔ x = id ∨ x ∈ b.ids := by
    intro b x
    simp [Forest.ids]
  refine h.replaces ⟨hnode, hedit.placed.holds, trivial⟩ ?_ ?_ ?_ ?_ ?_ ?_ hedit.placed.accounted
  · simpa [Forest.ids] using ⟨hid, hedit.placed.nodup⟩
  · exact ⟨htext, h.sound.2.1, hedit.placed.sound, trivial⟩
  · intro x hx
    rcases htree.mp hx with rfl | hx
    · exact Or.inl (htree.mpr (Or.inl rfl))
    · exact (hedit.fresh x hx).imp_left fun hb => htree.mpr (Or.inr hb)
  · intro x hx hx'
    rw [htree, not_or] at hx'
    exact hedit.gone x ((htree.mp hx).resolve_left hx'.1) hx'.2
  · intro x hx hx' _
    rw [htree, not_or] at hx hx'
    exact hedit.elsewhere x hx.2 hx'.2 fun he => hx.1 (Option.some.inj he).symm
  · intro p n hp hn hchildren
    -- the parent is neither the node nor below it
    have hpt := (h.above p hp).1
    rw [htree, not_or] at hpt
    have hp' : p ∉ below'.ids := by
      intro hm
      rcases hedit.fresh p hm with hb | hnone
      · exact hpt.2 hb
      · simp [hn] at hnone
    rw [hedit.elsewhere p hpt.2 hp' fun he => hpt.1 (Option.some.inj he).symm, hn]
    rw [show (Forest.tree id kind below').roots = (Forest.tree id kind below).roots from rfl,
      ← hchildren]

/-- A change of the kind of a node. -/
theorem Placed.retouch (h : d.Placed parent before after (.tree id kind below))
    (hnode : ∀ x, d₁.node? x =
      if x = id then some ⟨kind', parent, below.roots⟩ else d.node? x)
    (hfree : d₁.free = d.free) (hsize : d₁.slots.size = d.slots.size)
    (htext : ∀ s, kind' = .text s → below = .nil)
    (hnames : ∀ e, kind' = .element e → NamesUnique e.attributes) :
    Replaces d d₁ parent before after (.tree id kind below) (.tree id kind' below) := by
  have hids : (Forest.tree id kind' below).ids = (Forest.tree id kind below).ids := rfl
  have hsame : ∀ x, x ≠ id → d₁.node? x = d.node? x := fun x hx => by rw [hnode, if_neg hx]
  have hid := (h.descend.above id rfl).1
  refine h.replaces ⟨by simp [hnode], ?_, trivial⟩ h.nodup ⟨htext, hnames, h.sound.2.2⟩ ?_ ?_ ?_ ?_ ?_
  · refine h.holds.2.1.congr ?_
    exact fun x hx => hsame x fun he => hid (he ▸ hx)
  · exact fun x hx => Or.inl hx
  · exact fun x hx hx' => absurd hx hx'
  · intro x hx _ _
    exact hsame x fun he => hx (by simp [he, Forest.ids])
  · intro p n hp hn hchildren
    rw [hsame p fun he => (h.above p hp).1 (by simp [he, Forest.ids]), hn,
      show (Forest.tree id kind' below).roots = (Forest.tree id kind below).roots from rfl,
      ← hchildren]
  · refine h.accounted.congr hfree hsize ?_
    intro x
    rw [hnode]
    split
    · next he => simp [he, h.holds.1]
    · rfl

/-- A text that is given another content. -/
theorem Placed.retext {s : String} (h : d.Placed parent before after (.tree id (.text s) below))
    (s' : String) :
    Replaces d (d.modify id fun n => { n with kind := .text s' }) parent before after
      (.tree id (.text s) below) (.tree id (.text s') below) := by
  refine h.retouch ?_ rfl (size_modify ..) ?_ ?_
  · intro x
    rw [node?_modify]
    split
    · next hx => simp [hx, h.holds.1]
    · rfl
  · exact fun _ _ => h.sound.1 s rfl
  · rintro e ⟨⟩

/-- Logging is no edit. -/
theorem Replaces.record (h : Replaces d d₁ parent before after f f₁) (m : Mutation) :
    Replaces d (d₁.record m) parent before after f f₁ := by
  obtain ⟨⟨hholds, hnodup, hsound, hbeside, habove, haccounted⟩, hfresh, hgone, helse, hsame⟩ := h
  exact ⟨⟨hholds.congr fun _ _ => rfl, hnodup, hsound, hbeside, habove, haccounted.record m⟩,
    hfresh, hgone, helse, hsame⟩

/-! ## Well-formedness -/

/-- The tree under a node of a well-formed document is placed among the children of its parent. -/
theorem WellFormed.exists_placed {n : NodeData} (h : d.WellFormed) (hid : d.node? id = some n)
    (hsome : ∀ p, d.parent? id = some p → d.children p = before ++ id :: after)
    (hnone : d.parent? id = none → before = [] ∧ after = []) :
    ∃ below, d.Placed (d.parent? id) before after (.tree id n.kind below) := by
  obtain ⟨below, hholds, hnodup, hsound⟩ := h.exists_tree hid
  have hunder : ∀ x ∈ (Forest.tree id n.kind below).ids, d.Under x id := by
    intro x hx
    obtain ⟨r, hr, hxr⟩ := hholds.under_root hx
    obtain rfl : r = id := by simpa [Forest.roots] using hr
    exact hxr
  have habove : ∀ p, d.parent? id = some p → p ∉ (Forest.tree id n.kind below).ids :=
    fun p hp hm => h.treelike.not_under_child hp (hunder p hm)
  refine ⟨below, hholds, hnodup, hsound, ?_, ?_, h.accounted⟩
  · intro x hx
    cases hp : d.parent? id with
    | none =>
        obtain ⟨rfl, rfl⟩ := hnone hp
        simp at hx
    | some p =>
        have hchildren := hsome p hp
        have hmem : x ∈ d.children p := by
          rw [hchildren]
          simp only [List.mem_append, List.mem_cons] at hx ⊢
          tauto
        have hne : x ≠ id := by
          rintro rfl
          have hnd := h.children_nodup p
          rw [hchildren] at hnd
          obtain ⟨-, hnd, hdisjoint⟩ := List.nodup_append'.mp hnd
          rcases List.mem_append.mp hx with hx | hx
          · exact hdisjoint hx List.mem_cons_self
          · exact (List.nodup_cons.mp hnd).1 hx
        refine ⟨fun hxt => ?_, h.treelike.live_of_mem_children hmem⟩
        -- the parent of `x` would be in the tree
        rcases hholds.parent?_of_mem_ids hxt with htop | ⟨q, hq, hxq, -⟩
        · exact hne (by simpa [Forest.roots] using htop)
        · obtain rfl : q = p := Option.some.inj (hxq.symm.trans ((h.linked p x).mp hmem))
          exact habove q hp hq
  · intro p hp
    obtain ⟨m, hm, -⟩ := exists_node_of_mem_children ((h.linked p id).mpr hp)
    exact ⟨habove p hp, m, hm, by rw [← children_eq hm, hsome p hp]; rfl⟩

/-- Every node has a place. -/
theorem WellFormed.exists_beside (h : d.WellFormed) (id : NodeId) :
    ∃ before after, (∀ p, d.parent? id = some p → d.children p = before ++ id :: after) ∧
      (d.parent? id = none → before = [] ∧ after = []) := by
  cases hp : d.parent? id with
  | none => exact ⟨[], [], by simp, fun _ => ⟨rfl, rfl⟩⟩
  | some p =>
      obtain ⟨before, after, hsplit⟩ := List.append_of_mem ((h.linked p id).mpr hp)
      refine ⟨before, after, ?_, by simp⟩
      rintro _ ⟨⟩
      exact hsplit

namespace Replaces

variable (hf : d.Placed parent before after f) (hedit : Replaces d d₁ parent before after f f₁)

include hedit

/-- A node outside the trees keeps its kind and its parent, and, unless it is the parent of the
trees, its children. -/
theorem outside (hx : x ∉ f.ids) (hx₁ : x ∉ f₁.ids) :
    d₁.kind? x = d.kind? x ∧ d₁.parent? x = d.parent? x ∧
      (parent ≠ some x → d₁.children x = d.children x) := by
  by_cases hp : parent = some x
  · obtain ⟨hkind, hparent⟩ := hedit.above_same x hp
    exact ⟨hkind, hparent, fun hne => absurd hp hne⟩
  · have hsame := hedit.elsewhere x hx hx₁ hp
    simp only [kind?, parent?, children, hsame, implies_true, and_self]

/-- A node that is there after the edit is one of the trees or was outside them before. -/
theorem mem_or_outside (hx : (d₁.node? x).isSome) : x ∈ f₁.ids ∨ x ∉ f.ids ∧ x ∉ f₁.ids := by
  by_cases hx₁ : x ∈ f₁.ids
  · exact Or.inl hx₁
  · refine Or.inr ⟨fun hxf => ?_, hx₁⟩
    simp [hedit.gone x hxf hx₁] at hx

theorem not_mem_of_live (hx : x ∉ f.ids) (hlive : (d.node? x).isSome) : x ∉ f₁.ids := by
  intro hx₁
  simp [(hedit.fresh x hx₁).resolve_left hx] at hlive

include hf

/-- The children that a node outside the trees has beside them are outside the trees. -/
theorem children_outside (h : d.WellFormed) {c : NodeId} (hx : x ∉ f.ids)
    (hc : c ∈ d.children x) (hroot : c ∉ f.roots) : c ∉ f.ids ∧ c ∉ f₁.ids := by
  have hcx : d.parent? c = some x := (h.linked x c).mp hc
  have hcf : c ∉ f.ids := by
    intro hm
    rcases hf.holds.parent?_of_mem_ids hm with htop | ⟨q, hq, hcq, -⟩
    · exact hroot htop
    · obtain rfl : q = x := Option.some.inj (hcq.symm.trans hcx)
      exact hx hq
  exact ⟨hcf, hedit.not_mem_of_live hcf (h.treelike.live_of_mem_children hc)⟩

theorem linked (h : d.WellFormed) (p c : NodeId) : c ∈ d₁.children p ↔ d₁.ChildOf c p := by
  constructor
  · intro hc
    obtain ⟨n, hn, -⟩ := exists_node_of_mem_children hc
    rcases hedit.mem_or_outside (by simp [hn] : (d₁.node? p).isSome) with hp | ⟨hpf, hp₁⟩
    · exact (hedit.placed.holds.children_of_mem_ids hp hc).2
    · by_cases hpar : parent = some p
      · -- `p` holds the edited trees, and its other children are as they were
        obtain ⟨-, m, hm, hchildren⟩ := hf.above p hpar
        obtain ⟨-, m₁, hm₁, hchildren₁⟩ := hedit.placed.above p hpar
        rw [children_eq hm₁, hchildren₁] at hc
        have hside : c ∈ f₁.roots ∨ c ∈ before ++ after := by
          simp only [List.mem_append] at hc ⊢
          tauto
        rcases hside with hc | hc
        · rw [ChildOf, hedit.placed.holds.parent?_of_mem_roots hc, hpar]
        · -- one of the other children
          have hcd : c ∈ d.children p := by
            rw [children_eq hm, hchildren]
            simp only [List.mem_append] at hc ⊢
            tauto
          rw [ChildOf, (hedit.outside (hf.beside c hc).1 (hedit.placed.beside c hc).1).2.1]
          exact (h.linked p c).mp hcd
      · -- an edit changes the children of no other node, so the link of the old document stands
        rw [(hedit.outside hpf hp₁).2.2 hpar] at hc
        have hcx : d.parent? c = some p := (h.linked p c).mp hc
        have hroot : c ∉ f.roots := fun hm =>
          hpar ((hf.holds.parent?_of_mem_roots hm).symm.trans hcx)
        obtain ⟨hcf, hc₁⟩ := hedit.children_outside hf h hpf hc hroot
        rw [ChildOf, (hedit.outside hcf hc₁).2.1]
        exact hcx
  · intro hc
    obtain ⟨n, hn, -⟩ := exists_node_of_parent? hc
    rcases hedit.mem_or_outside (by simp [hn] : (d₁.node? c).isSome) with hc₁ | ⟨hcf, hc₁⟩
    · rcases hedit.placed.holds.parent?_of_mem_ids hc₁ with htop | ⟨q, hq, hcq, hmem⟩
      · have hpar := (hedit.placed.holds.parent?_of_mem_roots htop).symm.trans hc
        obtain ⟨-, m₁, hm₁, hchildren₁⟩ := hedit.placed.above p hpar
        rw [children_eq hm₁, hchildren₁]
        exact List.mem_append_right _ (List.mem_append_left _ htop)
      · obtain rfl : q = p := Option.some.inj (hcq.symm.trans hc)
        exact hmem
    · -- a node outside the edited trees keeps its parent, which then lies outside them too
      rw [ChildOf, (hedit.outside hcf hc₁).2.1] at hc
      have hcd : c ∈ d.children p := (h.linked p c).mpr hc
      have hpf : p ∉ f.ids := fun hm => hcf (hf.holds.children_of_mem_ids hm hcd).1
      obtain ⟨m, hm, hmc⟩ := exists_node_of_mem_children hcd
      have hp₁ := hedit.not_mem_of_live hpf (by simp [hm])
      by_cases hpar : parent = some p
      · obtain ⟨-, m, hm, hchildren⟩ := hf.above p hpar
        obtain ⟨-, m₁, hm₁, hchildren₁⟩ := hedit.placed.above p hpar
        have hno : c ∉ f.roots := fun hm => hcf (Forest.mem_ids_of_mem_roots hm)
        rw [children_eq hm, hchildren] at hcd
        rw [children_eq hm₁, hchildren₁]
        simp only [List.mem_append, hno, false_or] at hcd ⊢
        exact hcd.imp_right Or.inr
      · rw [(hedit.outside hpf hp₁).2.2 hpar]
        exact hcd

theorem children_nodup (h : d.WellFormed) (p : NodeId) : (d₁.children p).Nodup := by
  cases hp : d₁.node? p with
  | none =>
      rw [children_of_vacant hp]
      exact List.nodup_nil
  | some n =>
      rcases hedit.mem_or_outside (by simp [hp] : (d₁.node? p).isSome) with hp₁ | ⟨hpf, hp₁⟩
      · exact hedit.placed.holds.children_nodup hedit.placed.nodup hp₁
      · by_cases hpar : parent = some p
        · obtain ⟨-, m, hm, hchildren⟩ := hf.above p hpar
          obtain ⟨-, m₁, hm₁, hchildren₁⟩ := hedit.placed.above p hpar
          have hnodup := h.children_nodup p
          rw [children_eq hm, hchildren] at hnodup
          rw [children_eq hm₁, hchildren₁]
          have hroots := Forest.roots_nodup hedit.placed.nodup
          have hapart : ∀ x ∈ f₁.roots, x ∉ before ++ after := fun x hx hb =>
            (hedit.placed.beside x hb).1 (Forest.mem_ids_of_mem_roots hx)
          simp only [List.nodup_append', List.disjoint_append_right, List.mem_append,
            not_or] at hnodup hapart ⊢
          refine ⟨hnodup.1, ⟨hroots, hnodup.2.1.2.1, ?_⟩, ?_, hnodup.2.2.2⟩
          · exact fun x hx ha => (hapart x hx).2 ha
          · exact fun x hb hx => (hapart x hx).1 hb
        · rw [(hedit.outside hpf hp₁).2.2 hpar]
          exact h.children_nodup p

theorem childOf_wellFounded (h : d.WellFormed) : WellFounded d₁.ChildOf := by
  have hlinked := hedit.linked hf h
  -- by induction in the document before the edit; a child in the new trees is none of it
  refine ⟨fun x => ?_⟩
  induction x using h.treelike.childOf_wellFounded.induction with
  | _ x ih =>
      refine Acc.intro x ?_
      intro c hc
      obtain ⟨n, hn, -⟩ := exists_node_of_parent? hc
      rcases hedit.mem_or_outside (by simp [hn] : (d₁.node? c).isSome) with hc₁ | ⟨hcf, hc₁⟩
      · exact hedit.placed.holds.acc hlinked hc₁
      · refine ih c ?_
        rw [ChildOf, ← (hedit.outside hcf hc₁).2.1]
        exact hc

/-- An edit below an element, or of trees without a parent, keeps a document well formed. -/
theorem wellFormed (h : d.WellFormed) (hroot : root ∉ f.ids)
    (htext : ∀ p, parent = some p → d.text? p = none) : d₁.WellFormed := by
  have hroot₁ : root ∉ f₁.ids := hedit.not_mem_of_live hroot h.root_live
  obtain ⟨hrootKind, hrootParent, -⟩ := hedit.outside hroot hroot₁
  refine ⟨?_, ?_, hedit.linked hf h, hedit.children_nodup hf h,
    acyclic_of_wellFounded (hedit.childOf_wellFounded hf h), ?_, ?_, hedit.placed.accounted⟩
  · have hlive := h.root_live
    simp only [kind?] at hrootKind
    rwa [← Option.isSome_map (f := NodeData.kind), hrootKind, Option.isSome_map]
  · rw [hrootParent]
    exact h.root_parent
  · intro x s hs
    obtain ⟨n, hn, -⟩ := exists_node_of_kind? (text?_eq_some_iff.mp hs)
    rcases hedit.mem_or_outside (by simp [hn] : (d₁.node? x).isSome) with hx₁ | ⟨hxf, hx₁⟩
    · exact (hedit.placed.holds.sound_of_mem_ids hedit.placed.sound hx₁).1 s hs
    · obtain ⟨hkind, -, hchildren⟩ := hedit.outside hxf hx₁
      rw [text?, hkind] at hs
      have hpar : parent ≠ some x := by
        intro hp
        have hnone := htext x hp
        rw [text?] at hnone
        rw [hnone] at hs
        simp at hs
      rw [hchildren hpar]
      exact h.text_childless x s hs
  · intro x e he
    obtain ⟨n, hn, -⟩ := exists_node_of_kind? (element?_eq_some_iff.mp he)
    rcases hedit.mem_or_outside (by simp [hn] : (d₁.node? x).isSome) with hx₁ | ⟨hxf, hx₁⟩
    · exact (hedit.placed.holds.sound_of_mem_ids hedit.placed.sound hx₁).2 e he
    · rw [element?, (hedit.outside hxf hx₁).1] at he
      exact h.names_unique x e he

end Replaces

end LiveMarkup.Document
