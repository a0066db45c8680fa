import LiveMarkup.Document.Reconcile
import LiveMarkup.Proofs.Document.Copy
set_option autoImplicit false

/-! # What the log says about the tree

Live values and boolean properties are no part of the tree. Whatever else the steps of a
reconciliation change is logged as a change of the tree (`Logged`): where no such change was logged,
the tree is as it was. `Logged` says as well which nodes the logged mutations are about. -/

namespace LiveMarkup

/-- Whether a mutation changes the tree: anything but a live value or a live property. -/
def Mutation.isTree : Mutation → Bool
  | .setValue _ => false
  | .setProperty _ _ _ => false
  | _ => true

/-- The node that a mutation is about: the one that is changed, gets a child, is removed or gives way
to another. -/
def Mutation.target : Mutation → NodeId
  | .setText node => node
  | .setAttribute node _ => node
  | .removeAttribute node _ => node
  | .setValue node => node
  | .setProperty node _ _ => node
  | .append parent _ => parent
  | .remove node => node
  | .replace old _ => old

/-- The markup of a node: its kind without what a page keeps while it is open. -/
def NodeKind.markup : NodeKind → NodeKind
  | .text s => .text s
  | .element e => .element { e with value := none, properties := [] }

def NodeData.markup (n : NodeData) : NodeData := { n with kind := n.kind.markup }

namespace Document

/-- The changes of the tree that were logged. -/
def treeLog (d : Document) : List Mutation := d.log.toList.filter Mutation.isTree

variable {d d₁ d₂ source : Document} {old new x : NodeId}

/-! ## Documents with one tree -/

/-- Two documents differ in live values and properties only. -/
structure SameTree (d d' : Document) : Prop where
  node : ∀ x, (d'.node? x).map NodeData.markup = (d.node? x).map NodeData.markup
  free : d'.free = d.free
  size : d'.slots.size = d.slots.size

namespace SameTree

theorem refl (d : Document) : SameTree d d := ⟨fun _ => rfl, rfl, rfl⟩

theorem trans (h₁ : SameTree d d₁) (h₂ : SameTree d₁ d₂) : SameTree d d₂ :=
  ⟨fun x => (h₂.node x).trans (h₁.node x), h₂.free.trans h₁.free, h₂.size.trans h₁.size⟩

theorem record (h : SameTree d d₁) (m : Mutation) : SameTree d (d₁.record m) :=
  ⟨h.node, h.free, h.size⟩

/-- A change of the live part of an element. -/
theorem modifyElement (d : Document) (id : NodeId) {f : Element → Element}
    (h : ∀ e, NodeKind.markup (.element (f e)) = NodeKind.markup (.element e)) :
    SameTree d (d.modifyElement id f) := by
  refine ⟨fun x => ?_, rfl, size_modify ..⟩
  rw [Document.modifyElement, node?_modify]
  split
  · cases d.node? x with
    | none => rfl
    | some n =>
        obtain ⟨kind, parent, children⟩ := n
        cases kind with
        | element e => simp [NodeData.markup, h]
        | text s => rfl
  · rfl

theorem markup_eq (h : SameTree d d₁) (x : NodeId) :
    (d.node? x = none ∧ d₁.node? x = none) ∨
      ∃ n n₁, d.node? x = some n ∧ d₁.node? x = some n₁ ∧ n₁.kind.markup = n.kind.markup ∧
        n₁.parent = n.parent ∧ n₁.children = n.children := by
  have hx := h.node x
  cases hn : d.node? x <;> cases hn₁ : d₁.node? x <;> rw [hn, hn₁] at hx
  · exact .inl ⟨rfl, rfl⟩
  · cases hx
  · cases hx
  · next n n₁ =>
      have hmarkup : n₁.markup = n.markup := Option.some.inj hx
      have hkind : n₁.markup.kind = n.markup.kind := congrArg NodeData.kind hmarkup
      have hparent : n₁.markup.parent = n.markup.parent := congrArg NodeData.parent hmarkup
      have hchildren : n₁.markup.children = n.markup.children := congrArg NodeData.children hmarkup
      exact .inr ⟨n, n₁, rfl, rfl, hkind, hparent, hchildren⟩

theorem vacant_iff (h : SameTree d d₁) (x : NodeId) : d₁.node? x = none ↔ d.node? x = none := by
  obtain ⟨hn, hn₁⟩ | ⟨n, n₁, hn, hn₁, -⟩ := h.markup_eq x <;> simp [hn, hn₁]

theorem parent? (h : SameTree d d₁) (x : NodeId) : d₁.parent? x = d.parent? x := by
  obtain ⟨hn, hn₁⟩ | ⟨n, n₁, hn, hn₁, -, hparent, -⟩ := h.markup_eq x
  · rw [parent?_of_vacant hn, parent?_of_vacant hn₁]
  · rw [parent?_eq hn, parent?_eq hn₁, hparent]

theorem children (h : SameTree d d₁) (x : NodeId) : d₁.children x = d.children x := by
  obtain ⟨hn, hn₁⟩ | ⟨n, n₁, hn, hn₁, -, -, hchildren⟩ := h.markup_eq x
  · rw [children_of_vacant hn, children_of_vacant hn₁]
  · rw [children_eq hn, children_eq hn₁, hchildren]

theorem text? (h : SameTree d d₁) (x : NodeId) : d₁.text? x = d.text? x := by
  unfold Document.text? kind?
  obtain ⟨hn, hn₁⟩ | ⟨n, n₁, hn, hn₁, hkind, -⟩ := h.markup_eq x
  · rw [hn, hn₁]
  · rw [hn, hn₁, Option.map_some, Option.map_some]
    cases hk : n.kind <;> cases hk₁ : n₁.kind <;> rw [hk, hk₁] at hkind <;>
      simp_all [NodeKind.markup]

/-- The attributes of an element are part of the tree. -/
theorem attributes (h : SameTree d d₁) (x : NodeId) :
    (d₁.element? x).map Element.attributes = (d.element? x).map Element.attributes := by
  unfold Document.element? kind?
  obtain ⟨hn, hn₁⟩ | ⟨n, n₁, hn, hn₁, hkind, -⟩ := h.markup_eq x
  · rw [hn, hn₁]
  · rw [hn, hn₁, Option.map_some, Option.map_some]
    cases hk : n.kind <;> cases hk₁ : n₁.kind <;> rw [hk, hk₁] at hkind <;>
      simp_all [NodeKind.markup]

theorem attribute? (h : SameTree d d₁) (x : NodeId) (name : String) :
    d₁.attribute? x name = d.attribute? x name := by
  have hget : ∀ d : Document, d.attribute? x name =
      ((d.element? x).map Element.attributes).bind (Table.get? name) := by
    intro d
    unfold Document.attribute?
    cases d.element? x <;> rfl
  rw [hget, hget, h.attributes]

theorem wellFormed (h : SameTree d d₁) (hd : d.WellFormed) : d₁.WellFormed := by
  have hchild : d₁.ChildOf = d.ChildOf := by
    funext c p
    rw [ChildOf, ChildOf, h.parent?]
  refine ⟨?_, ?_, ?_, ?_, ?_, ?_, ?_, ?_⟩
  · have hroot := hd.root_live
    rw [Option.isSome_iff_ne_none] at hroot ⊢
    exact fun hnone => hroot ((h.vacant_iff root).mp hnone)
  · rw [h.parent?]
    exact hd.root_parent
  · intro p c
    rw [h.children, hchild]
    exact hd.linked p c
  · intro p
    rw [h.children]
    exact hd.children_nodup p
  · rw [hchild]
    exact hd.acyclic
  · intro id s hs
    rw [h.children]
    exact hd.text_childless id s (h.text? id ▸ hs)
  · intro id e he
    have hattributes := h.attributes id
    rw [he] at hattributes
    obtain ⟨e', he', hnames⟩ := Option.map_eq_some_iff.mp hattributes.symm
    rw [← hnames]
    exact hd.names_unique id e' he'
  · exact hd.accounted.congr h.free h.size h.vacant_iff

theorem alike_markup (k k' : NodeKind) : NodeKind.alike k.markup k' = NodeKind.alike k k' := by
  cases k <;> cases k' <;> rfl

/-- Live values and properties do not count when trees are compared. -/
theorem deepEqual (h : SameTree d d₁) (other : Document) (a b : NodeId) :
    d₁.deepEqual a other b = d.deepEqual a other b := by
  unfold Document.deepEqual depthBound
  rw [h.size]
  generalize d.slots.size + 1 = bound
  induction bound generalizing a b with
  | zero => rfl
  | succ bound ih =>
      rw [equalTrees, equalTrees]
      obtain ⟨hn, hn₁⟩ | ⟨n, n₁, hn, hn₁, hkind, -, hchildren⟩ := h.markup_eq a
      · rw [hn, hn₁]
      · rw [hn, hn₁]
        cases other.node? b with
        | none => rfl
        | some m =>
            dsimp only
            rw [← alike_markup n₁.kind, hkind, alike_markup, hchildren]
            simp only [ih]

end SameTree

/-! ## Changes that are logged -/

/-- The log has grown by mutations of certain nodes, and if by no change of the tree, the tree is the
same. -/
def Logged (targets : NodeId → Prop) (d d' : Document) : Prop :=
  ∃ added, d'.log.toList = d.log.toList ++ added ∧ (∀ m ∈ added, targets m.target) ∧
    ((∀ m ∈ added, m.isTree = false) → SameTree d d')

namespace Logged

variable {targets targets' : NodeId → Prop}

theorem refl (targets : NodeId → Prop) (d : Document) : Logged targets d d :=
  ⟨[], by simp, by simp, fun _ => .refl d⟩

theorem trans (h₁ : Logged targets d d₁) (h₂ : Logged targets d₁ d₂) : Logged targets d d₂ := by
  obtain ⟨added₁, hlog₁, htargets₁, hsame₁⟩ := h₁
  obtain ⟨added₂, hlog₂, htargets₂, hsame₂⟩ := h₂
  refine ⟨added₁ ++ added₂, ?_, fun m hm => ?_, fun hquiet => ?_⟩
  · rw [hlog₂, hlog₁, List.append_assoc]
  · exact (List.mem_append.mp hm).elim (htargets₁ m) (htargets₂ m)
  · refine (hsame₁ fun m hm => hquiet m ?_).trans (hsame₂ fun m hm => hquiet m ?_)
    · exact List.mem_append_left _ hm
    · exact List.mem_append_right _ hm

theorem mono (h : Logged targets d d₁) (hmono : ∀ x, targets x → targets' x) :
    Logged targets' d d₁ := by
  obtain ⟨added, hlog, htargets, hsame⟩ := h
  exact ⟨added, hlog, fun m hm => hmono _ (htargets m hm), hsame⟩

/-- Any change may be logged as one of the tree. -/
theorem recordTree {m : Mutation} (hlog : d₁.log = d.log) (hm : m.isTree = true)
    (htarget : targets m.target) : Logged targets d (d₁.record m) := by
  refine ⟨[m], by simp [Document.record, hlog], by simpa using htarget, fun hquiet => ?_⟩
  simp [hquiet m List.mem_cons_self] at hm

/-- A change of live values and properties needs no more than to be logged. -/
theorem recordLive {m : Mutation} (h : SameTree d d₁) (hlog : d₁.log = d.log)
    (htarget : targets m.target) : Logged targets d (d₁.record m) :=
  ⟨[m], by simp [Document.record, hlog], by simpa using htarget, fun _ => h.record m⟩

theorem foldl {α : Type} {step : Document → α → Document}
    (h : ∀ d a, Logged targets d (step d a)) (d : Document) (l : List α) :
    Logged targets d (l.foldl step d) := by
  induction l generalizing d with
  | nil => exact refl targets d
  | cons a rest ih => exact (h d a).trans (ih (step d a))

theorem sameTree (h : Logged targets d d₁) (heq : d₁.treeLog = d.treeLog) : SameTree d d₁ := by
  obtain ⟨added, hlog, -, hsame⟩ := h
  have hnone : added.filter Mutation.isTree = [] := by
    unfold treeLog at heq
    rw [hlog, List.filter_append] at heq
    exact List.append_right_eq_self.mp heq
  refine hsame fun m hm => ?_
  simpa using List.filter_eq_nil_iff.mp hnone m hm

end Logged

/-! ## What is not logged by itself -/

@[simp] theorem log_modify (d : Document) (id : NodeId) (f : NodeData → NodeData) :
    (d.modify id f).log = d.log := rfl

@[simp] theorem log_modifyElement (d : Document) (id : NodeId) (f : Element → Element) :
    (d.modifyElement id f).log = d.log := rfl

@[simp] theorem log_attach (d : Document) (parent child : NodeId) :
    (d.attach parent child).log = d.log := rfl

@[simp] theorem log_alloc (d : Document) (kind : NodeKind) : (d.alloc kind).2.log = d.log := by
  unfold alloc
  split <;> rfl

@[simp] theorem log_release (d : Document) (id : NodeId) : (d.release id).log = d.log := by
  unfold release
  split <;> rfl

@[simp] theorem log_detach (d : Document) (id : NodeId) : (d.detach id).log = d.log := by
  unfold detach
  split <;> rfl

/-- What no step of a fold logs, the fold does not log. -/
theorem log_foldl {α : Type} {step : Document → α → Document} (h : ∀ d a, (step d a).log = d.log)
    (d : Document) (l : List α) : (l.foldl step d).log = d.log := by
  induction l generalizing d with
  | nil => rfl
  | cons a rest ih => exact (ih (step d a)).trans (h d a)

theorem log_freeIn (bound : Nat) (d : Document) (id : NodeId) : (freeIn bound d id).log = d.log := by
  induction bound generalizing d id with
  | zero => rfl
  | succ bound ih => rw [freeIn, log_release, log_foldl ih]

@[simp] theorem log_freeSubtree (d : Document) (id : NodeId) : (d.freeSubtree id).log = d.log :=
  log_freeIn _ d id

theorem log_importAll {copy : Document → NodeId → Option (NodeId × Document)}
    (h : ∀ d id r, copy d id = some r → r.2.log = d.log) (parent : NodeId) (d : Document)
    (l : List NodeId) : (importAll copy parent d l).log = d.log := by
  induction l generalizing d with
  | nil => rfl
  | cons child rest ih =>
      rw [importAll]
      split
      · next id d₁ hcopy =>
          rw [ih, log_attach]
          exact h d child _ hcopy
      · exact ih d

theorem log_importFrom {bound : Nat} {id : NodeId} {r : NodeId × Document}
    (h : importFrom source bound d id = some r) : r.2.log = d.log := by
  induction bound generalizing d id r with
  | zero => simp [importFrom] at h
  | succ bound ih =>
      rw [importFrom] at h
      cases hn : source.node? id with
      | none => simp [hn] at h
      | some n =>
          rw [hn] at h
          have hcopies := log_importAll (fun d id r (hr : importFrom source bound d id = some r) =>
            ih hr) (d.alloc n.kind).1 (d.alloc n.kind).2 n.children
          rw [log_alloc] at hcopies
          rw [← Option.some.inj h]
          exact hcopies

theorem log_link (d : Document) (old new : NodeId) : (d.link old new).log = d.log := by
  unfold link
  split <;> simp

/-! ## The steps of a reconciliation -/

section

variable {targets : NodeId → Prop} {id : NodeId}

theorem logged_setValue (hid : targets id) (d : Document) (value : String) :
    Logged targets d (d.setValue id value) := by
  unfold setValue
  split
  · refine Logged.recordLive (SameTree.modifyElement d id ?_) (log_modifyElement ..) hid
    exact fun _ => rfl
  · exact Logged.refl targets d

theorem logged_setAttribute (hid : targets id) (d : Document) (name value : String) :
    Logged targets d (d.setAttribute id name value) := by
  unfold setAttribute
  split
  · exact Logged.recordTree (log_modifyElement ..) rfl hid
  · exact Logged.refl targets d

theorem logged_removeAttribute (hid : targets id) (d : Document) (name : String) :
    Logged targets d (d.removeAttribute id name) := by
  unfold removeAttribute
  split
  · exact Logged.recordTree (log_modifyElement ..) rfl hid
  · exact Logged.refl targets d

theorem logged_setText (hid : targets id) (d : Document) (s : String) :
    Logged targets d (d.setText id s) := by
  unfold setText
  split
  · exact Logged.recordTree (log_modify ..) rfl hid
  · exact Logged.refl targets d

theorem logged_remove (hid : targets id) (d : Document) : Logged targets d (d.remove id) := by
  unfold remove
  split
  · exact Logged.refl targets d
  · exact Logged.recordTree (by simp) rfl hid

theorem logged_appendChild {parent : NodeId} (hparent : targets parent) (hlog : d₁.log = d.log)
    (child : NodeId) : Logged targets d (d₁.appendChild parent child) :=
  Logged.recordTree (by simp [hlog]) rfl hparent

end

/-- A copy stands in a slot that was vacant. -/
theorem vacant_of_import? (h : d.SlotsAccounted) {copy : NodeId}
    (himport : d.import? source new = some (copy, d₁)) : d.node? copy = none := by
  unfold import? depthBound at himport
  rw [importFrom] at himport
  cases hn : source.node? new with
  | none => simp [hn] at himport
  | some n =>
      rw [hn] at himport
      obtain rfl : (d.alloc n.kind).1 = copy := congrArg Prod.fst (Option.some.inj himport)
      exact (node?_alloc h n.kind).1

theorem logged_replaceByCopy {targets : NodeId → Prop} (htarget : targets old)
    (h : d.SlotsAccounted) (hold : (d.node? old).isSome) (hroot : old ≠ root) (source : Document)
    (new : NodeId) : Logged targets d (d.replaceByCopy old source new).2 := by
  unfold replaceByCopy
  cases himport : d.import? source new with
  | none => exact Logged.refl targets d
  | some r =>
      obtain ⟨copy, d₁⟩ := r
      have hlog : d₁.log = d.log := log_importFrom himport
      have hne : old ≠ copy := by
        rintro rfl
        simp [vacant_of_import? h himport] at hold
      dsimp only
      rw [replace_eq_link hroot hne]
      exact Logged.recordTree (by simp [log_link, hlog]) rfl htarget

theorem logged_patchElement {targets : NodeId → Prop} (hold : targets old) (d source : Document)
    (new : NodeId) : Logged targets d
      (((d.patchValue old source new).dropStale old source new).setFresh old source new) := by
  have hvalue : Logged targets d (d.patchValue old source new) := by
    unfold patchValue
    split
    · split
      · exact logged_setValue hold ..
      · exact Logged.refl targets d
    · exact Logged.refl targets d
  refine (hvalue.trans (Logged.foldl ?_ _ _)).trans (Logged.foldl ?_ _ _)
  · exact fun d a => logged_removeAttribute hold ..
  · rintro d ⟨name, value⟩
    dsimp only
    split
    · exact logged_setAttribute hold ..
    · exact Logged.refl targets d

/-! ## Boolean properties -/

/-- Making boolean properties follow their attributes is nothing to the tree. -/
structure Synced (d d' : Document) : Prop where
  sameTree : SameTree d d'
  treeLog : d'.treeLog = d.treeLog

namespace Synced

theorem refl (d : Document) : Synced d d := ⟨.refl d, rfl⟩

theorem trans (h₁ : Synced d d₁) (h₂ : Synced d₁ d₂) : Synced d d₂ :=
  ⟨h₁.sameTree.trans h₂.sameTree, h₂.treeLog.trans h₁.treeLog⟩

theorem foldl {α : Type} {step : Document → α → Document} (h : ∀ d a, Synced d (step d a))
    (d : Document) (l : List α) : Synced d (l.foldl step d) := by
  induction l generalizing d with
  | nil => exact refl d
  | cons a rest ih => exact (h d a).trans (ih (step d a))

end Synced

theorem synced_syncProperty (id : NodeId) (d : Document) (name : String) :
    Synced d (syncProperty id d name) := by
  unfold syncProperty
  split
  · exact Synced.refl d
  · dsimp only
    split
    · exact Synced.refl d
    · unfold setProperty
      split
      · refine ⟨(SameTree.modifyElement d id ?_).record _, ?_⟩
        · exact fun _ => rfl
        · simp [treeLog, Document.record, Mutation.isTree]
      · exact Synced.refl d

theorem synced_syncIn (depth : Nat) (d : Document) (id : NodeId) : Synced d (syncIn depth d id) := by
  induction depth generalizing d id with
  | zero => exact Synced.refl d
  | succ depth ih =>
      exact (Synced.foldl (synced_syncProperty id) d booleanAttributes).trans (Synced.foldl ih _ _)

theorem synced_syncProperties (d : Document) (id : NodeId) : Synced d (d.syncProperties id) :=
  synced_syncIn _ d id

end Document

end LiveMarkup
