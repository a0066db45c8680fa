import LiveMarkup.Document.Basic
import Mathlib.Data.List.Basic
set_option autoImplicit false

/-! # Slots of a document

What every primitive change of a document does to `node?`, and the bookkeeping of vacant slots
(`SlotsAccounted`), which every one of them keeps. -/

namespace LiveMarkup.Document

variable {d d' : Document} {id x : NodeId} {n : NodeData} {e : Element} {s : String}

/-! ## Reading a slot -/

theorem lt_size_of_node? (h : d.node? id = some n) : id < d.slots.size := by
  by_contra hlt
  rw [node?, Array.getElem?_eq_none (Nat.le_of_not_lt hlt)] at h
  simp at h

theorem children_eq (h : d.node? id = some n) : d.children id = n.children := by
  simp [children, h]

theorem parent?_eq (h : d.node? id = some n) : d.parent? id = n.parent := by
  simp [parent?, h]

theorem kind?_eq (h : d.node? id = some n) : d.kind? id = some n.kind := by
  simp [kind?, h]

/-- A node is known by its kind, its parent and its children. -/
theorem node?_eq {kind : NodeKind} (hkind : d.kind? id = some kind) :
    d.node? id = some ⟨kind, d.parent? id, d.children id⟩ := by
  cases hn : d.node? id with
  | none => simp [kind?, hn] at hkind
  | some n =>
      obtain rfl : n.kind = kind := by simpa [kind?, hn] using hkind
      rw [parent?_eq hn, children_eq hn]

theorem children_of_vacant (h : d.node? id = none) : d.children id = [] := by
  simp [children, h]

theorem parent?_of_vacant (h : d.node? id = none) : d.parent? id = none := by
  simp [parent?, h]

theorem exists_node_of_parent? {p : NodeId} (h : d.parent? id = some p) :
    ∃ n, d.node? id = some n ∧ n.parent = some p := by
  simpa [parent?, Option.bind_eq_some_iff] using h

theorem exists_node_of_mem_children {c : NodeId} (h : c ∈ d.children id) :
    ∃ n, d.node? id = some n ∧ c ∈ n.children := by
  cases hn : d.node? id with
  | none => simp [children, hn] at h
  | some n => exact ⟨n, rfl, by rwa [children_eq hn] at h⟩

theorem exists_node_of_kind? {kind : NodeKind} (h : d.kind? id = some kind) :
    ∃ n, d.node? id = some n ∧ n.kind = kind := by
  simpa [kind?] using h

theorem element?_eq_some_iff : d.element? id = some e ↔ d.kind? id = some (.element e) := by
  unfold element?
  split <;> simp_all

theorem text?_eq_some_iff : d.text? id = some s ↔ d.kind? id = some (.text s) := by
  unfold text?
  split <;> simp_all

/-! ## Primitive changes -/

@[simp] theorem node?_record (d : Document) (m : Mutation) (x : NodeId) :
    (d.record m).node? x = d.node? x := rfl

@[simp] theorem free_record (d : Document) (m : Mutation) : (d.record m).free = d.free := rfl

@[simp] theorem size_record (d : Document) (m : Mutation) :
    (d.record m).slots.size = d.slots.size := rfl

@[simp] theorem node?_modify (d : Document) (id : NodeId) (f : NodeData → NodeData) (x : NodeId) :
    (d.modify id f).node? x = if x = id then (d.node? x).map f else d.node? x := by
  unfold node? modify
  rw [Array.getElem?_modify]
  by_cases h : id = x
  · subst h
    cases d.slots[id]? <;> simp
  · have h' : ¬x = id := fun e => h e.symm
    simp [h, h']

@[simp] theorem free_modify (d : Document) (id : NodeId) (f : NodeData → NodeData) :
    (d.modify id f).free = d.free := rfl

@[simp] theorem size_modify (d : Document) (id : NodeId) (f : NodeData → NodeData) :
    (d.modify id f).slots.size = d.slots.size := by
  simp [modify]

/-! ## Vacant slots -/

/-- The free list holds exactly the vacant slots, each once. -/
structure SlotsAccounted (d : Document) : Prop where
  nodup : d.free.Nodup
  mem_iff : ∀ id, id ∈ d.free ↔ id < d.slots.size ∧ d.node? id = none

/-- A change that neither takes nor vacates a slot. -/
theorem SlotsAccounted.congr (h : d.SlotsAccounted) (hfree : d'.free = d.free)
    (hsize : d'.slots.size = d.slots.size)
    (hvacant : ∀ x, d'.node? x = none ↔ d.node? x = none) : d'.SlotsAccounted where
  nodup := hfree ▸ h.nodup
  mem_iff := by
    intro id
    rw [hfree, hsize, hvacant]
    exact h.mem_iff id

theorem SlotsAccounted.record (h : d.SlotsAccounted) (m : Mutation) : (d.record m).SlotsAccounted :=
  h.congr rfl rfl fun _ => Iff.rfl

theorem SlotsAccounted.modify (h : d.SlotsAccounted) (id : NodeId) (f : NodeData → NodeData) :
    (d.modify id f).SlotsAccounted := by
  refine h.congr rfl (size_modify ..) ?_
  intro x
  rw [node?_modify]
  split <;> simp

/-- A new node takes a slot that was vacant, and no other slot changes. -/
theorem node?_alloc (h : d.SlotsAccounted) (kind : NodeKind) :
    d.node? (d.alloc kind).1 = none ∧
      ∀ x, (d.alloc kind).2.node? x =
        if x = (d.alloc kind).1 then some ⟨kind, none, []⟩ else d.node? x := by
  unfold alloc
  cases hfree : d.free with
  | nil =>
      have hnone : d.node? d.slots.size = none := by simp [node?]
      refine ⟨hnone, ?_⟩
      intro x
      show (d.slots.push _)[x]?.join = _
      rw [Array.getElem?_push]
      by_cases hx : x = d.slots.size
      · simp [hx]
      · simp [hx, node?]
  | cons id rest =>
      obtain ⟨hlt, hnone⟩ := (h.mem_iff id).mp (by simp [hfree])
      refine ⟨hnone, ?_⟩
      intro x
      show (d.slots.set! id _)[x]?.join = _
      rw [Array.set!_eq_setIfInBounds, Array.getElem?_setIfInBounds]
      by_cases hx : id = x
      · subst hx
        simp [hlt]
      · have hx' : ¬x = id := fun e => hx e.symm
        simp [hx, hx', node?]

theorem SlotsAccounted.alloc (h : d.SlotsAccounted) (kind : NodeKind) :
    (d.alloc kind).2.SlotsAccounted := by
  have hnode := (node?_alloc h kind).2
  revert hnode
  unfold Document.alloc
  cases hfree : d.free with
  | nil =>
      intro hnode
      refine ⟨by simp, ?_⟩
      intro id
      -- no slot was vacant, and the new one is taken
      have hno : ¬(id < d.slots.size ∧ d.node? id = none) := by
        rw [← h.mem_iff, hfree]
        simp
      rw [hnode id]
      simp only [List.not_mem_nil, false_iff, Array.size_push]
      rintro ⟨hlt, hnone⟩
      by_cases hid : id = d.slots.size
      · simp [hid] at hnone
      · rw [if_neg hid] at hnone
        exact hno ⟨Nat.lt_of_le_of_ne (Nat.le_of_lt_succ hlt) hid, hnone⟩
  | cons first rest =>
      intro hnode
      have hnodup : (first :: rest).Nodup := hfree ▸ h.nodup
      refine ⟨(List.nodup_cons.mp hnodup).2, ?_⟩
      intro id
      have hmem := h.mem_iff id
      have hid := hnode id
      simp only [hfree, List.mem_cons] at hmem
      simp only [Array.set!_eq_setIfInBounds, Array.size_setIfInBounds] at hid ⊢
      rw [hid]
      by_cases hfirst : id = first
      · subst hfirst
        simp [(List.nodup_cons.mp hnodup).1]
      · simpa [hfirst] using hmem

@[simp] theorem node?_release (d : Document) (id x : NodeId) :
    (d.release id).node? x = if x = id then none else d.node? x := by
  unfold release
  split
  · next hsome =>
      obtain ⟨n, hn⟩ := Option.isSome_iff_exists.mp hsome
      have hlt := lt_size_of_node? hn
      show (d.slots.set! id none)[x]?.join = _
      rw [Array.set!_eq_setIfInBounds, Array.getElem?_setIfInBounds]
      by_cases hx : id = x
      · subst hx
        simp [hlt]
      · have hx' : ¬x = id := fun e => hx e.symm
        simp [hx, hx', node?]
  · next hnone =>
      by_cases hx : x = id
      · subst hx
        simpa using hnone
      · simp [hx]

theorem SlotsAccounted.release (h : d.SlotsAccounted) (id : NodeId) :
    (d.release id).SlotsAccounted := by
  by_cases hsome : (d.node? id).isSome
  · obtain ⟨n, hn⟩ := Option.isSome_iff_exists.mp hsome
    have hfree : (d.release id).free = id :: d.free := by simp [Document.release, hsome]
    have hsize : (d.release id).slots.size = d.slots.size := by simp [Document.release, hsome]
    refine ⟨?_, ?_⟩
    · rw [hfree, List.nodup_cons, h.mem_iff]
      exact ⟨by simp [hn], h.nodup⟩
    · intro x
      rw [hfree, hsize, node?_release, List.mem_cons, h.mem_iff]
      by_cases hx : x = id
      · subst hx
        simp [lt_size_of_node? hn]
      · simp [hx]
  · have hsame : d.release id = d := by simp [Document.release, hsome]
    rw [hsame]
    exact h

end LiveMarkup.Document
