import LiveMarkup.Proofs.Engine.Recording
import Mathlib.Data.Finset.Card
set_option autoImplicit false

/-! # What an engine looks up

Pages and components are looked up in one cache. A request for a template is answered from the cache
if it is kept there, and else by building the template (`Website.find`); a request that was answered
gets the same answer from then on, as long as no lookup replaces a template that is kept
(`Later.of_find`). -/

namespace LiveMarkup

/-- What an engine looks up a template for: a page by its name, or a component by the reference that
it is called with. -/
inductive Request where
  | page (name : String)
  | component (reference : String)

namespace Website

/-- The key that a request goes by. -/
def key (w : Website) : Request → String
  | .page name => cacheKey name w.config.views
  | .component reference => componentCacheKey (componentName reference)

/-- Whether a request is answered from the cache: every one in production, and one for a registered
component in development, too. -/
def keeps (w : Website) (q : Request) : Bool :=
  w.config.mode = .production ||
    match q with
    | .page _ => false
    | .component reference => (w.component? (componentName reference)).isSome

/-- What is built for a request that the cache does not answer. -/
def build (w : Website) : Request → Except EngineError Template
  | .page name => do Template.build name (← w.source name) w.config.delimiters
  | .component reference =>
    match w.component? (componentName reference) with
    | some c => Template.component (componentName reference) c.source w.config.delimiters
    | none => do
      Template.component (componentName reference) (← w.source reference) w.config.delimiters

/-- The template of a request, and the cache with it. -/
def find (w : Website) (cache : TemplateCache) (q : Request) :
    Except EngineError (Template × TemplateCache) :=
  match if w.keeps q then Table.get? (w.key q) cache else none with
  | some t => .ok (t, cache)
  | none => (w.build q).map fun t => (t, Table.insert (w.key q) t cache)

/-- The template of a request. -/
def resolve (w : Website) (cache : TemplateCache) (q : Request) : Except EngineError Template :=
  (w.find cache q).map Prod.fst

variable {w : Website} {cache cache₁ cache₂ : TemplateCache} {p q : Request} {t u : Template}

theorem keeps_of_production (h : w.config.mode = .production) (q : Request) : w.keeps q = true := by
  simp [keeps, h]

theorem keeps_component (w : Website) (reference : String) :
    w.keeps (.component reference) = (decide (w.config.mode = .production) ||
      (w.component? (componentName reference)).isSome) :=
  rfl

/-- In development a page is never answered from the cache. -/
theorem keeps_page (w : Website) (name : String) :
    w.keeps (.page name) = decide (w.config.mode = .production) :=
  Bool.or_false _

theorem getOrBuild_eq (cache : TemplateCache) (k : String) (mode : Mode)
    (build : Except EngineError Template) : cache.getOrBuild k mode build =
      match if mode = .production then Table.get? k cache else none with
      | some t => .ok (t, cache)
      | none => build.map fun t => (t, Table.insert k t cache) := by
  unfold TemplateCache.getOrBuild
  cases mode <;> cases Table.get? k cache <;> rfl

theorem getOrBuild_page (w : Website) (cache : TemplateCache) (name : String) :
    cache.getOrBuild (cacheKey name w.config.views) w.config.mode
      (do Template.build name (← w.source name) w.config.delimiters) = w.find cache (.page name) := by
  unfold find
  rw [getOrBuild_eq, keeps_page]
  cases w.config.mode <;> rfl

theorem build_component (w : Website) (reference : String) : w.build (.component reference) =
    (match w.component? (componentName reference) with
    | some c => Template.component (componentName reference) c.source w.config.delimiters
    | none => do
      Template.component (componentName reference) (← w.source reference) w.config.delimiters) :=
  rfl

/-- A registered component is answered from the cache in either mode. -/
theorem componentTemplate_eq_find (w : Website) (cache : TemplateCache) (reference : String) :
    w.componentTemplate cache reference = w.find cache (.component reference) := by
  unfold componentTemplate find
  rw [keeps_component, build_component]
  simp only [getOrBuild_eq, key]
  cases w.component? (componentName reference) <;>
    cases Table.get? (componentCacheKey (componentName reference)) cache <;>
    cases w.config.mode <;> rfl

/-- A request that is found is answered by the cache, or what was built for it is put there. -/
theorem find_eq_ok (h : w.find cache q = .ok (t, cache₁)) :
    (w.keeps q = true ∧ Table.get? (w.key q) cache = some t ∧ cache₁ = cache) ∨
      ((w.keeps q = true → Table.get? (w.key q) cache = none) ∧ w.build q = .ok t ∧
        cache₁ = Table.insert (w.key q) t cache) := by
  unfold find at h
  split at h
  · next found hfound =>
      obtain ⟨rfl, rfl⟩ := Prod.mk.inj (Except.ok.inj h)
      split at hfound
      · next hkeeps => exact .inl ⟨hkeeps, hfound, rfl⟩
      · nomatch hfound
  · next hmiss =>
      refine .inr ⟨fun hkeeps => by rwa [if_pos hkeeps] at hmiss, ?_⟩
      cases hbuild : w.build q with
      | error e =>
          rw [hbuild] at h
          nomatch h
      | ok built =>
          rw [hbuild] at h
          obtain ⟨rfl, rfl⟩ := Prod.mk.inj (Except.ok.inj h)
          exact ⟨rfl, rfl⟩

theorem find_of_get? (hkeeps : w.keeps q = true) (hget : Table.get? (w.key q) cache = some t) :
    w.find cache q = .ok (t, cache) := by
  unfold find
  rw [if_pos hkeeps, hget]

theorem find_of_not_keeps (hkeeps : ¬ w.keeps q = true) :
    w.find cache q = (w.build q).map fun t => (t, Table.insert (w.key q) t cache) := by
  unfold find
  rw [if_neg hkeeps]

theorem find_of_get?_eq_none (hget : Table.get? (w.key q) cache = none) :
    w.find cache q = (w.build q).map fun t => (t, Table.insert (w.key q) t cache) := by
  unfold find
  rw [hget, ite_self]

theorem resolve_eq_ok_iff : w.resolve cache q = .ok t ↔ ∃ cache₁, w.find cache q = .ok (t, cache₁) := by
  unfold resolve
  cases h : w.find cache q with
  | error e => simp [Except.map]
  | ok found =>
      obtain ⟨u, cache₁⟩ := found
      constructor
      · intro heq
        obtain rfl := Except.ok.inj heq
        exact ⟨cache₁, rfl⟩
      · rintro ⟨_, heq⟩
        exact congrArg Except.ok (Prod.mk.inj (Except.ok.inj heq)).1

/-! ## Answers that stay -/

/-- A request has an answer that is not built anew, or is built the same every time. -/
def Settled (w : Website) (cache : TemplateCache) (q : Request) (t : Template) : Prop :=
  if w.keeps q then Table.get? (w.key q) cache = some t else w.build q = .ok t

/-- What was found is settled. -/
theorem Settled.of_find (h : w.find cache q = .ok (t, cache₁)) : w.Settled cache₁ q t := by
  unfold Settled
  obtain ⟨hkeeps, hget, rfl⟩ | ⟨-, hbuild, rfl⟩ := find_eq_ok h
  · rwa [if_pos hkeeps]
  · split
    · exact Table.get?_insert_self ..
    · exact hbuild

/-- What is settled is found. -/
theorem Settled.find (h : w.Settled cache q t) : ∃ cache₁, w.find cache q = .ok (t, cache₁) := by
  unfold Settled at h
  split at h
  · next hkeeps => exact ⟨cache, find_of_get? hkeeps h⟩
  · next hkeeps => exact ⟨_, by rw [find_of_not_keeps hkeeps, h]; rfl⟩

theorem settled_of_resolve (hkeeps : ¬ w.keeps q = true) (h : w.resolve cache q = .ok t) :
    w.Settled cache q t := by
  obtain ⟨cache₁, hfind⟩ := resolve_eq_ok_iff.mp h
  unfold Settled
  rw [if_neg hkeeps]
  obtain ⟨hkept, -, -⟩ | ⟨-, hbuild, -⟩ := find_eq_ok hfind
  · exact absurd hkept hkeeps
  · exact hbuild

theorem Settled.resolve (h : w.Settled cache q t) : w.resolve cache q = .ok t :=
  resolve_eq_ok_iff.mpr h.find

theorem Settled.unique (h : w.Settled cache q t) (h' : w.Settled cache q u) : t = u :=
  Except.ok.inj (h.resolve.symm.trans h'.resolve)

/-- The components of one name share their answer, where it is kept. -/
theorem Settled.of_name {reference other : String} (h : w.Settled cache (.component reference) t)
    (hname : componentName reference = componentName other)
    (hkeeps : w.keeps (.component other) = true) : w.Settled cache (.component other) t := by
  have hkeeps' : w.keeps (.component reference) = true := by
    rwa [keeps_component, hname, ← keeps_component]
  have hkey : w.key (.component reference) = w.key (.component other) :=
    congrArg componentCacheKey hname
  unfold Settled at h ⊢
  rw [if_pos hkeeps', hkey] at h
  rwa [if_pos hkeeps]

/-- A lookup of this request replaces no template that is kept for another one. -/
def Spares (w : Website) (p : Request) : Prop :=
  w.keeps p = true ∨ ∀ q, w.keeps q = true → w.key q ≠ w.key p

theorem spares_of_production (h : w.config.mode = .production) (p : Request) : w.Spares p :=
  .inl (keeps_of_production h p)

/-- Components share a key only if they share their name, and then both are registered or neither
is. -/
theorem spares_component (w : Website) (reference : String) : w.Spares (.component reference) := by
  by_cases hkeeps : w.keeps (.component reference) = true
  · exact .inl hkeeps
  · refine .inr fun q hq heq => ?_
    rw [keeps_component, Bool.or_eq_true, decide_eq_true_eq] at hkeeps
    obtain ⟨hmode, hnone⟩ := not_or.mp hkeeps
    cases q with
    | page name =>
        rw [keeps_page, decide_eq_true_eq] at hq
        exact hmode hq
    | component other =>
        rw [keeps_component, Bool.or_eq_true, decide_eq_true_eq,
          componentCacheKey_injective heq] at hq
        exact hq.elim hmode hnone

/-- Every answer that is settled in one cache is settled in another. -/
def Later (w : Website) (cache cache₁ : TemplateCache) : Prop :=
  ∀ q t, w.Settled cache q t → w.Settled cache₁ q t

theorem Later.refl (w : Website) (cache : TemplateCache) : w.Later cache cache := fun _ _ h => h

theorem Later.trans (h₁ : w.Later cache cache₁) (h₂ : w.Later cache₁ cache₂) :
    w.Later cache cache₂ :=
  fun q t h => h₂ q t (h₁ q t h)

theorem Later.of_find (hp : w.Spares p) (h : w.find cache p = .ok (u, cache₁)) :
    w.Later cache cache₁ := by
  intro q t hq
  obtain ⟨-, -, rfl⟩ | ⟨hmiss, -, rfl⟩ := find_eq_ok h
  · exact hq
  unfold Settled at hq ⊢
  split at hq
  · next hkeeps =>
      rw [if_pos hkeeps, Table.get?_insert_of_ne, hq]
      intro hkey
      rcases hp with hp | hp
      · rw [hkey, hmiss hp] at hq
        nomatch hq
      · exact hp q hkeeps hkey
  · next hkeeps => rwa [if_neg hkeeps]

/-! ## What is asked for -/

/-- The requests that come of some pages: for the pages, and for the components that their templates
and the templates of those refer to. -/
inductive Asked (w : Website) (cache : TemplateCache) (names : List String) : Request → Prop
  | page {name : String} (h : name ∈ names) : Asked w cache names (.page name)
  | component {q : Request} {t : Template} {reference : String} {line : Nat}
      (hq : Asked w cache names q) (ht : w.resolve cache q = .ok t)
      (hr : (reference, line) ∈ t.program.componentReferences) :
      Asked w cache names (.component reference)

/-! ## The check of a page -/

/-- What a check of the component references of a file comes to, from a cache and the names that
were checked before. -/
inductive Checked (w : Website) : String → List (String × Nat) → TemplateCache × List String →
    Except EngineError Unit × TemplateCache × List String → Prop
  | done {file : String} {state : TemplateCache × List String} :
      Checked w file [] state (.ok (), state)
  | passed {file reference : String} {line : Nat} {rest : List (String × Nat)}
      {cache : TemplateCache} {seen : List String}
      {outcome : Except EngineError Unit × TemplateCache × List String}
      (hseen : componentName reference ∈ seen) (hrest : Checked w file rest (cache, seen) outcome) :
      Checked w file ((reference, line) :: rest) (cache, seen) outcome
  | missing {file reference : String} {line : Nat} {rest : List (String × Nat)}
      {cache : TemplateCache} {seen : List String} {e : EngineError}
      (hnew : componentName reference ∉ seen)
      (hfind : w.find cache (.component reference) = .error e) :
      Checked w file ((reference, line) :: rest) (cache, seen)
        (.error (missingAt reference file line e), cache, componentName reference :: seen)
  | failed {file reference : String} {line : Nat} {rest : List (String × Nat)}
      {cache cache₁ : TemplateCache} {seen : List String} {child : Template} {e : EngineError}
      {state : TemplateCache × List String} (hnew : componentName reference ∉ seen)
      (hfind : w.find cache (.component reference) = .ok (child, cache₁))
      (hchild : Checked w child.name child.program.componentReferences
        (cache₁, componentName reference :: seen) (.error e, state)) :
      Checked w file ((reference, line) :: rest) (cache, seen) (.error e, state)
  | found {file reference : String} {line : Nat} {rest : List (String × Nat)}
      {cache cache₁ : TemplateCache} {seen : List String} {child : Template}
      {state : TemplateCache × List String}
      {outcome : Except EngineError Unit × TemplateCache × List String}
      (hnew : componentName reference ∉ seen)
      (hfind : w.find cache (.component reference) = .ok (child, cache₁))
      (hchild : Checked w child.name child.program.componentReferences
        (cache₁, componentName reference :: seen) (.ok (), state))
      (hrest : Checked w file rest state outcome) :
      Checked w file ((reference, line) :: rest) (cache, seen) outcome

/-- The names that may resolve: those of the components, of the sources and of what the cache has
of components. -/
def resolvable (w : Website) (cache : TemplateCache) : Finset String :=
  (Table.keys w.components ++ (Table.keys w.sources).map componentName ++
    (Table.keys cache).map fun key => String.ofList key.toList.tail).toFinset

/-- How many names the check may still come to. -/
def unchecked (w : Website) (state : TemplateCache × List String) : Nat :=
  (w.resolvable state.1 \ state.2.toFinset).card

theorem unchecked_lt_nameBound (w : Website) (cache : TemplateCache) :
    w.unchecked (cache, []) < w.nameBound cache := by
  have hcard : (w.resolvable cache).card ≤
      w.components.length + w.sources.length + cache.length := by
    refine (List.toFinset_card_le _).trans (le_of_eq ?_)
    simp [Table.keys, Nat.add_assoc]
  have hless := Finset.card_le_card
    (Finset.sdiff_subset (s := w.resolvable cache) (t := ([] : List String).toFinset))
  show (w.resolvable cache \ ([] : List String).toFinset).card < _
  unfold nameBound
  omega

theorem name_of_componentCacheKey (name : String) :
    String.ofList (componentCacheKey name).toList.tail = name := by
  simp [componentCacheKey]

/-- A component that resolves has a name that may. -/
theorem mem_resolvable_of_find {reference : String}
    (h : w.find cache (.component reference) = .ok (t, cache₁)) :
    componentName reference ∈ w.resolvable cache := by
  unfold resolvable
  rw [List.mem_toFinset, List.mem_append, List.mem_append, or_assoc]
  obtain ⟨-, hget, -⟩ | ⟨-, hbuild, -⟩ := find_eq_ok h
  · refine .inr (.inr (List.mem_map.mpr ⟨_, ?_, name_of_componentCacheKey _⟩))
    rw [← Table.get?_isSome_iff]
    exact Option.isSome_of_eq_some hget
  · rw [build_component] at hbuild
    split at hbuild
    · next d hregistered =>
        refine .inl ?_
        rw [← Table.get?_isSome_iff]
        exact Option.isSome_of_eq_some hregistered
    · unfold source at hbuild
      cases hsource : Table.get? reference w.sources with
      | none =>
          rw [hsource] at hbuild
          nomatch hbuild
      | some text =>
          refine .inr (.inl (List.mem_map.mpr ⟨reference, ?_, rfl⟩))
          rw [← Table.get?_isSome_iff]
          exact Option.isSome_of_eq_some hsource

/-- A check goes on: it forgets no name, and names that may resolve only now were checked. -/
structure Onward (w : Website) (state state' : TemplateCache × List String) : Prop where
  seen : state.2 ⊆ state'.2
  resolvable : ∀ name ∈ w.resolvable state'.1, name ∈ w.resolvable state.1 ∨ name ∈ state'.2

theorem Onward.refl (w : Website) (state : TemplateCache × List String) : w.Onward state state :=
  ⟨fun _ h => h, fun _ h => .inl h⟩

theorem Onward.trans {state state₁ state₂ : TemplateCache × List String}
    (h₁ : w.Onward state state₁) (h₂ : w.Onward state₁ state₂) : w.Onward state state₂ where
  seen := fun _ h => h₂.seen (h₁.seen h)
  resolvable := fun name h => (h₂.resolvable name h).elim
    (fun h => (h₁.resolvable name h).imp id fun h => h₂.seen h) .inr

theorem Onward.unchecked_le {state state' : TemplateCache × List String}
    (h : w.Onward state state') : w.unchecked state' ≤ w.unchecked state := by
  refine Finset.card_le_card fun name hname => ?_
  rw [Finset.mem_sdiff, List.mem_toFinset] at hname ⊢
  exact ⟨(h.resolvable name hname.1).resolve_right hname.2, fun hseen => hname.2 (h.seen hseen)⟩

theorem Onward.of_find {reference : String} (seen : List String)
    (h : w.find cache (.component reference) = .ok (t, cache₁)) :
    w.Onward (cache, seen) (cache₁, componentName reference :: seen) where
  seen := List.subset_cons_self _ _
  resolvable := fun name hname => by
    obtain ⟨-, -, rfl⟩ | ⟨-, -, rfl⟩ := find_eq_ok h
    · exact .inl hname
    unfold Website.resolvable at hname ⊢
    simp only [List.mem_toFinset, List.mem_append, List.mem_map] at hname ⊢
    rcases hname with hname | ⟨k, hkey, rfl⟩
    · exact .inl (.inl hname)
    · rw [Table.keys_insert] at hkey
      split at hkey
      · exact .inl (.inr ⟨k, hkey, rfl⟩)
      rcases List.mem_append.mp hkey with hkey | hkey
      · exact .inl (.inr ⟨k, hkey, rfl⟩)
      · rw [List.mem_singleton.mp hkey, Website.key, name_of_componentCacheKey]
        exact .inr List.mem_cons_self

theorem Checked.onward {file : String} {references : List (String × Nat)}
    {state : TemplateCache × List String}
    {outcome : Except EngineError Unit × TemplateCache × List String}
    (h : w.Checked file references state outcome) : w.Onward state outcome.2 := by
  induction h with
  | done => exact .refl w _
  | passed _ _ ih => exact ih
  | missing => exact ⟨List.subset_cons_self _ _, fun _ hname => .inl hname⟩
  | failed _ hfind _ ih => exact (Onward.of_find _ hfind).trans ih
  | found _ hfind _ _ ihchild ihrest => exact ((Onward.of_find _ hfind).trans ihchild).trans ihrest

/-- With one component found and checked, there are fewer names to come to. -/
theorem unchecked_lt_of_find {reference : String} {seen : List String}
    (hnew : componentName reference ∉ seen)
    (h : w.find cache (.component reference) = .ok (t, cache₁)) :
    w.unchecked (cache₁, componentName reference :: seen) < w.unchecked (cache, seen) := by
  refine Finset.card_lt_card (Finset.ssubset_iff_of_subset ?_ |>.mpr ⟨componentName reference, ?_, ?_⟩)
  · intro name hname
    rw [Finset.mem_sdiff, List.mem_toFinset] at hname ⊢
    have honward := Onward.of_find seen h
    exact ⟨(honward.resolvable name hname.1).resolve_right hname.2,
      fun hseen => hname.2 (honward.seen hseen)⟩
  · rw [Finset.mem_sdiff, List.mem_toFinset]
    exact ⟨mem_resolvable_of_find h, hnew⟩
  · simp

/-- The bound on the depth of a check is never reached, if it exceeds the names that may still
resolve: components that refer to each other in a circle are checked once. -/
theorem checked_checkComponents {depth : Nat} {t : Template} {state : TemplateCache × List String}
    (hdepth : w.unchecked state < depth) :
    w.Checked t.name t.program.componentReferences state (w.checkComponents depth t state) := by
  induction depth generalizing t state with
  | zero => exact absurd hdepth (Nat.not_lt_zero _)
  | succ depth ih =>
      rw [checkComponents]
      generalize t.program.componentReferences = references
      induction references generalizing state with
      | nil => exact .done
      | cons first rest ihrest =>
          obtain ⟨reference, line⟩ := first
          obtain ⟨cache, seen⟩ := state
          rw [checkComponents.checkAll]
          split
          · next hseen =>
              exact .passed (List.contains_iff_mem.mp hseen) (ihrest hdepth)
          · next hseen =>
              have hnew : componentName reference ∉ seen :=
                fun hmem => hseen (List.contains_iff_mem.mpr hmem)
              rw [componentTemplate_eq_find]
              cases hfind : w.find cache (.component reference) with
              | error e => exact .missing hnew hfind
              | ok found =>
                  obtain ⟨child, cache₁⟩ := found
                  have hless := unchecked_lt_of_find hnew hfind
                  have hchild : w.Checked child.name child.program.componentReferences
                      (cache₁, componentName reference :: seen)
                      (w.checkComponents depth child (cache₁, componentName reference :: seen)) :=
                    ih (by omega)
                  dsimp only
                  have honward := hchild.onward.unchecked_le
                  generalize w.checkComponents depth child _ = outcome at hchild honward ⊢
                  obtain ⟨result, state⟩ := outcome
                  cases result with
                  | error e => exact .failed hnew hfind hchild
                  | ok _ =>
                      have hfewer : w.unchecked state ≤ _ := honward
                      exact .found hnew hfind hchild (ihrest (by omega))

/-- The check of a page goes through, to whatever it comes. -/
theorem checked_nameBound (w : Website) (cache : TemplateCache) (t : Template) :
    w.Checked t.name t.program.componentReferences (cache, [])
      (w.checkComponents (w.nameBound cache) t (cache, [])) :=
  checked_checkComponents (w.unchecked_lt_nameBound cache)

end Website

end LiveMarkup
