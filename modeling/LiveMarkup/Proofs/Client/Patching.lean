import LiveMarkup.Proofs.Client.Fallback
import LiveMarkup.Proofs.Client.Keyed
import LiveMarkup.Proofs.Document.Outside
set_option autoImplicit false

/-! # An update patches the mounted root

Where an instance was last seen may have been freed, and the slot taken over by another node; so an
update looks again. It finds an element exactly if one in the document is marked with the key of the
instance (`findRoot_eq_none_iff`), and then it exchanges that element for what the instance is
rendered to and leaves everything outside of it alone (`patched_place`). `updateComponent_patches`
says so for every client that a host can bring about, setups and hooks included. -/

namespace LiveMarkup

namespace Document

/-- An element of a document is exchanged for the first element of fresh markup, which stands in its
place afterwards. Markup without an element leaves the tree as it is. Nothing outside of the element
is changed. -/
structure Patched (d : Document) (e : NodeId) (fresh d' : Document) : Prop where
  shown : ∀ new, fresh.firstElementChild? root = some new →
    ∃ placed, d.ShownInPlace e fresh new placed d'
  kept : fresh.firstElementChild? root = none → SameTree d d'
  outside : d.SameOutside e d'

end Document

namespace Client

open Document (parse)

variable {c c' c₁ c₂ c₃ : Client} {key html : String} {i : Instance} {root : NodeId} {budget : Nat}

/-! ## Looking for the root -/

/-- An element of the document is marked with a key. -/
def Marks (d : Document) (e : NodeId) (key : String) : Prop :=
  d.contains e = true ∧ d.attribute? e rootAttribute = some key

/-- What is found is marked with the key of the instance, whatever the slot that it was last seen in
holds now. -/
theorem marks_of_findRoot (h : c.document.WellFormed) (hroot : c.findRoot i = some root) :
    Marks c.document root i.key :=
  ⟨(Document.contains_iff_under h).mpr (under_of_findRoot h hroot), attribute?_of_findRoot hroot⟩

/-- Nothing is found exactly if nothing in the document is marked with the key. -/
theorem findRoot_eq_none_iff (h : c.document.WellFormed) :
    c.findRoot i = none ↔ ∀ e, ¬Marks c.document e i.key := by
  constructor
  · rintro hnone e ⟨hcontains, hmarked⟩
    have hunder := (Document.contains_iff_under h).mp hcontains
    obtain ⟨found, hfound⟩ := Document.exists_find?_of_under h hunder hmarked
    have hsearched := (Option.or_eq_none_iff.mp hnone).2
    rw [hfound] at hsearched
    cases hsearched
  · intro hnowhere
    refine Option.eq_none_iff_forall_ne_some.mpr fun root hroot => ?_
    exact hnowhere root (marks_of_findRoot h hroot)

/-! ## Placing markup -/

/-- Placing markup patches a marked element of a document that is not marked itself. -/
theorem patched_place (h : c.document.WellFormed)
    (hbare : c.document.attribute? Document.root rootAttribute = none)
    (hmarks : Marks c.document root key) (html : String) :
    c.document.Patched root (parse html) (place key root html c).document := by
  obtain ⟨hcontains, hmarked⟩ := hmarks
  have hunder := (Document.contains_iff_under h).mp hcontains
  have hlive := Document.live_of_attribute? hmarked
  have hne : root ≠ Document.root := by
    rintro rfl
    rw [hbare] at hmarked
    cases hmarked
  have hdocument : ∀ d placed, ({ c with document := d }.modifyInstance key fun i =>
      { i with root := some placed }).document = d :=
    fun d placed => (sameButInstances_modifyInstance { c with document := d } key _).document
  unfold place
  dsimp only
  cases hfirst : (parse html).firstElementChild? Document.root with
  | none =>
      rw [hdocument]
      have hsame := (Document.synced_syncProperties c.document root).sameTree
      refine ⟨fun new hnew => ?_, fun _ => hsame, Document.sameOutside_syncProperties h root⟩
      rw [hfirst] at hnew
      cases hnew
  | some new =>
      rw [hdocument]
      have hnew := Document.live_of_firstElementChild? hfirst
      have hparsed := Document.wellFormed_parse html
      obtain ⟨-, hshown, -⟩ := shownInPlace_sync h hparsed hunder hne hnew rfl
      refine ⟨fun new' hnew' => ?_, fun hnone => ?_, ?_⟩
      · obtain rfl := Option.some.inj (hfirst.symm.trans hnew')
        exact ⟨_, hshown⟩
      · rw [hfirst] at hnone
        cases hnone
      · exact Document.sameOutside_sync_reconcile h hparsed hlive hne hnew

/-! ## Updates -/

/-- An update of an instance at a root comes to its end: the instance is rendered to markup, by its
template or by its fallback, and the hooks before and after the markup is placed end. -/
def Ends (budget : Nat) (key : String) (i : Instance) (root : NodeId) (html : String)
    (c c' : Client) : Prop :=
  ∃ c₁ c₂,
    ExceptT.run (renderInstance budget (renderChild budget maxDepth) i) (c.startPass key root) =
      some (.ok html, c₁) ∧
    fire budget key .beforeUpdate c₁ = some ((), c₂) ∧
    fire budget key .updated (place key root html c₂) = some ((), c')

/-- An update that finds nothing forgets where the instance was seen, and does nothing else. -/
theorem run_updateComponent_of_nowhere (hi : c.instance? key = some i)
    (hnowhere : c.findRoot i = none) (budget : Nat) :
    ExceptT.run (updateComponent budget key) c =
      some (.ok (), c.modifyInstance key fun j => { j with root := none }) := by
  rw [run_updateComponent, hi, mountedRoot_of_instance? hi, hnowhere]

theorem run_exchange_of_ends (hbefore : fire budget key .beforeUpdate c₁ = some ((), c₂))
    (hafter : fire budget key .updated (place key root html c₂) = some ((), c₃)) :
    ExceptT.run (exchange budget key root html) c₁ = some (.ok (), c₃) := by
  unfold exchange
  rw [run_bind, run_lift, hbefore]
  dsimp only [Option.map_some]
  rw [run_modify_bind, run_lift, hafter]
  rfl

/-- An update that ends patches the root that it has found. -/
theorem patched_of_ends (h : c.document.WellFormed)
    (hbare : c.document.attribute? Document.root rootAttribute = none)
    (hmarks : Marks c.document root key) (hends : Ends budget key i root html c c') :
    c.document.Patched root (parse html) c'.document := by
  obtain ⟨c₁, c₂, hrender, hbefore, hafter⟩ := hends
  -- renders and hooks leave the document alone
  have hdocument : c₂.document = c.document :=
    calc c₂.document = c₁.document := (unmoving_fire budget key _ _ _ _ hbefore).document
      _ = (c.startPass key root).document := (unmoved_renderInstance budget i hrender).document
      _ = c.document := document_startPass c key root
  have hplaced : c'.document = (place key root html c₂).document :=
    (unmoving_fire budget key _ _ _ _ hafter).document
  have hpatched : c₂.document.Patched root (parse html) (place key root html c₂).document :=
    patched_place (by rwa [hdocument]) (by rwa [hdocument]) (by rwa [hdocument]) html
  rwa [hdocument, ← hplaced] at hpatched

/-- An update of a known instance, in a well-formed document that is not marked itself. If no
element of the document is marked with the key, the update succeeds at once: it forgets where the
instance was seen and does nothing else, so that no hook runs. If there are such elements, one of
them is patched with whatever markup the instance is rendered to, and the update succeeds. -/
theorem updateComponent_patches (hc : Reached c) (h : c.document.WellFormed)
    (hbare : c.document.attribute? Document.root rootAttribute = none)
    (hi : c.instance? key = some i) :
    ((∀ e, ¬Marks c.document e key) → ∀ budget, ∃ c',
      ExceptT.run (updateComponent budget key) c = some (.ok (), c') ∧
        c' = c.modifyInstance key (fun j => { j with root := none }) ∧
        c'.document = c.document ∧ c'.store = c.store) ∧
    ((∃ e, Marks c.document e key) → ∃ e, Marks c.document e key ∧
      ∀ budget html c', Ends budget key i e html c c' →
        ExceptT.run (updateComponent budget key) c = some (.ok (), c') ∧
          c.document.Patched e (parse html) c'.document) := by
  have hkey : i.key = key := hc.keyed key i hi
  constructor
  · intro hnowhere budget
    have hnone : c.findRoot i = none := (findRoot_eq_none_iff h).mpr (hkey ▸ hnowhere)
    have hsame := sameButInstances_modifyInstance c key fun j => { j with root := none }
    exact ⟨_, run_updateComponent_of_nowhere hi hnone budget, rfl, hsame.document, hsame.store⟩
  · rintro ⟨e, he⟩
    cases hroot : c.findRoot i with
    | none => exact absurd (hkey ▸ he) ((findRoot_eq_none_iff h).mp hroot e)
    | some root =>
        have hmarks : Marks c.document root key := hkey ▸ marks_of_findRoot h hroot
        refine ⟨root, hmarks, fun budget html c' hends => ?_⟩
        refine ⟨?_, patched_of_ends h hbare hmarks hends⟩
        obtain ⟨c₁, c₂, hrender, hbefore, hafter⟩ := hends
        rw [run_updateComponent_of_mounted hi hroot, hrender]
        exact run_exchange_of_ends hbefore hafter

/-! ## A slot that was taken over -/

namespace Reused

def note : ComponentDef := ⟨"note", "<p>new</p>", none⟩

def template : Template where
  name := "note"
  source := "<p element=\"\x7b\x7b$ctxKey\x7d\x7d\">new</p>"
  program := ⟨[.text "<p element=\"", .interpolate (.node .instanceKey ⟨14, 21⟩) true 1,
    .text "\">new</p>"]⟩

theorem component_note : Template.component "note" note.source .braces = .ok template :=
  Template.component_of_segments
    [⟨.text, "<p element=\"".toList, ⟨0, 12⟩, 1⟩,
      ⟨.directive .escaped, "$ctxKey".toList, ⟨14, 21⟩, 1⟩,
      ⟨.text, "\">new</p>".toList, ⟨23, 32⟩, 1⟩]
    (by decide +kernel) (by decide +kernel) (by cbv)

/-- The page as it comes. -/
def page : Document :=
  ⟨#[some ⟨.element (.ofTag Document.rootTag []), none, [1]⟩,
    some ⟨.element (.ofTag "p" [(rootAttribute, "note")]), some 0, []⟩], [], #[]⟩

/-- The page after an edit: another paragraph has the slot of the note, which stands behind it. -/
def edited : Document :=
  ⟨#[some ⟨.element (.ofTag Document.rootTag []), none, [1, 2]⟩,
    some ⟨.element (.ofTag "p" []), some 0, []⟩,
    some ⟨.element (.ofTag "p" [(rootAttribute, "note")]), some 0, []⟩], [], #[]⟩

def props : Value :=
  .object (.given 0) [("note", .object (.given 1) [("note", .object (.given 2) [])])]

def registered : Client :=
  { Client.create page .braces with components := [("note", ⟨"note", template, none⟩)] }

/-- The note is the only marked element of the edited page. -/
theorem marks_edited {e : NodeId} (h : Marks edited e "note") : e = 2 := by
  have hmarked := h.2
  match e with
  | 0 => cases hmarked
  | 1 => cases hmarked
  | 2 => rfl
  | e + 3 => cases hmarked

end Reused

open Reused in
/-- The instance was last seen in a slot that holds an unrelated paragraph now. The update finds the
note all the same. -/
theorem updateComponent_patches_reused : ∃ c i, Reached c ∧ c.document.WellFormed ∧
    c.document.attribute? Document.root rootAttribute = none ∧ c.instance? "note" = some i ∧
    i.root = some 1 ∧ c.document.attribute? 1 rootAttribute = none ∧
    ∃ c', ExceptT.run (updateComponent 1 "note") c = some (.ok (), c') ∧
      c.document.Patched 2 (parse "<p element=\"note\">new</p>") c'.document := by
  have hregistered : Reached registered := by
    refine .step (.create page .braces) (.registerComponent note ?_)
    show (do
      let template ← (Template.component "note" note.source .braces).mapError ClientError.template
      return { Client.create page .braces with
        components := Table.insert "note" ⟨"note", template, none⟩ [] }) = _
    rw [component_note]
    rfl
  obtain ⟨c, hrun, i, hi, hseen, c', hends⟩ : ∃ c,
      ExceptT.run (hydrate 1 props) registered = some (.ok (), c) ∧
      ∃ i, c.instance? "note" = some i ∧ i.root = some 1 ∧
        ∃ c', Ends 1 "note" i 2 "<p element=\"note\">new</p>" { c with document := edited } c' :=
    ⟨_, rfl, _, rfl, rfl, _, _, _, rfl, rfl, rfl⟩
  have hreached : Reached { c with document := edited } :=
    .step (.step hregistered (.hydrate 1 props hrun)) (.edit c edited)
  have hwell : edited.WellFormed := Document.wellFormed_of_isOrdered (by decide +kernel)
  have hmarked : Marks edited 2 "note" := ⟨by decide +kernel, by decide +kernel⟩
  have hbare : edited.attribute? Document.root rootAttribute = none := by decide +kernel
  have htaken : edited.attribute? 1 rootAttribute = none := by decide +kernel
  obtain ⟨e, he, hpatches⟩ := (updateComponent_patches hreached hwell hbare hi).2 ⟨2, hmarked⟩
  obtain rfl := marks_edited he
  obtain ⟨hupdate, hpatched⟩ := hpatches 1 _ c' hends
  exact ⟨_, i, hreached, hwell, hbare, hi, hseen, htaken, c', hupdate, hpatched⟩

end Client

end LiveMarkup
