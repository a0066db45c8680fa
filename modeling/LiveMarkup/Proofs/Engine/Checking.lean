import LiveMarkup.Proofs.Engine.Caching
import LiveMarkup.Proofs.Render.FailureLines
import Mathlib
set_option autoImplicit false

/-! # What compiling a page finds out

A page that compiles has all its components, as far as references of one component name stand for
one template, and a component that is reported as missing is referred to where the report says
(`Engine.compile_checks`). -/

namespace LiveMarkup

open Text

/-! ## References in a source -/

section

mutual

/-- A component call of a program is one of its directives. -/
theorem Node.mem_flatten_of_walk {reference : String} {args : Expr} {line : Nat} :
    ∀ n : Node, .component reference args line ∈ n.walk →
      Item.component reference args line ∈ n.flatten
  | .component reference' args' line', h => by
      cases List.mem_singleton.mp h
      exact List.mem_cons_self
  | .choose arms none, h => by
      rw [Node.walk, List.mem_cons, List.append_nil] at h
      have harms := mem_flattenArms_of_walk arms true (h.resolve_left nofun)
      rw [Node.flatten]
      exact List.mem_append_left _ (List.mem_append_left _ harms)
  | .choose arms (some body), h => by
      rw [Node.walk, List.mem_cons, List.mem_append] at h
      rw [Node.flatten]
      rcases h.resolve_left nofun with h | h
      · exact List.mem_append_left _ (List.mem_append_left _ (mem_flattenArms_of_walk arms true h))
      · refine List.mem_append_left _ (List.mem_append_right _ (List.mem_cons_of_mem _ ?_))
        exact mem_flattenAll_of_walk body h
  | .loop binding subject body line', h => by
      rw [Node.walk, List.mem_cons] at h
      rw [Node.flatten]
      refine List.mem_append_left _ (List.mem_cons_of_mem _ ?_)
      exact mem_flattenAll_of_walk body (h.resolve_left nofun)
  | .text _, h => nomatch List.mem_singleton.mp h
  | .interpolate _ _ _, h => nomatch List.mem_singleton.mp h
  | .block _ _ _, h => nomatch List.mem_singleton.mp h
  | .code _ _, h => nomatch List.mem_singleton.mp h

theorem Node.mem_flattenAll_of_walk {reference : String} {args : Expr} {line : Nat} :
    ∀ nodes : List Node, .component reference args line ∈ Node.walkAll nodes →
      Item.component reference args line ∈ Node.flattenAll nodes
  | [], h => nomatch h
  | n :: rest, h => by
      rw [Node.walkAll, List.mem_append] at h
      rw [Node.flattenAll, List.mem_append]
      exact h.imp (Node.mem_flatten_of_walk n) (Node.mem_flattenAll_of_walk rest)

theorem Node.mem_flattenArms_of_walk {reference : String} {args : Expr} {line : Nat} :
    ∀ (arms : List Arm) (first : Bool), .component reference args line ∈ Node.walkArms arms →
      Item.component reference args line ∈ Node.flattenArms first arms
  | [], _, h => nomatch h
  | .arm condition body line' :: rest, first, h => by
      rw [Node.walkArms, List.mem_append] at h
      rw [Node.flattenArms, List.cons_append]
      refine List.mem_cons_of_mem _ (List.mem_append.mpr ?_)
      exact h.imp (Node.mem_flattenAll_of_walk body) (Node.mem_flattenArms_of_walk rest false)

end

end

namespace Template

/-- The template is what its source compiles to. -/
def Compiled (d : Delimiters) (t : Template) : Prop := build t.name t.source d = .ok t

/-- The source has a directive that calls a component by this reference, on this line. -/
def RefersAt (d : Delimiters) (t : Template) (reference : String) (line : Nat) : Prop :=
  ∃ q : Located Item, (∃ args, q.what = .component reference args line) ∧
    q.StandsIn d t.source.toList ∧ q.before ++ d.opening.toList <+: t.source.toList ∧
      line = lineFeeds q.before + 1

variable {d : Delimiters} {t : Template} {name source : String}

theorem compiled_build (h : build name source d = .ok t) : t.Compiled d := by
  obtain ⟨p, hp, hpure⟩ := bind_eq_ok h
  obtain rfl := Except.ok.inj hpure
  exact h

theorem compiled_component (h : component name source d = .ok t) : t.Compiled d := by
  obtain ⟨marked, -, hbuild⟩ := bind_eq_ok h
  exact compiled_build hbuild

/-- What a compiled template refers to stands in its source, where the reference says. -/
theorem Compiled.refersAt (h : t.Compiled d) {reference : String} {line : Nat}
    (hr : (reference, line) ∈ t.program.componentReferences) : t.RefersAt d reference line := by
  obtain ⟨n, hn, hreference⟩ := List.mem_filterMap.mp hr
  cases n with
  | component reference' args line' =>
      obtain ⟨rfl, rfl⟩ := Prod.mk.inj (Option.some.inj hreference)
      obtain ⟨p, hp, hpure⟩ := bind_eq_ok h
      have hprogram : t.program = p := by rw [← Except.ok.inj hpure]
      have hcompile : Program.compile t.source d = .ok t.program := by
        rw [hprogram]
        cases hc : Program.compile t.source d with
        | error e =>
            rw [hc] at hp
            nomatch hp
        | ok p' =>
            rw [hc] at hp
            obtain rfl : p' = p := Except.ok.inj hp
            rfl
      obtain ⟨located, hflat, hstands, -⟩ := Program.located_of_compile hcompile
      have hmem := Node.mem_flattenAll_of_walk t.program.nodes hn
      rw [hflat] at hmem
      obtain ⟨q, hq, hwhat⟩ := List.mem_map.mp hmem
      have hreported : q.what.line? = some line' := by rw [hwhat]; rfl
      obtain ⟨hbefore, hline⟩ := (hstands q hq).line hreported
      exact ⟨q, ⟨args, hwhat⟩, hstands q hq, hbefore, hline⟩
  | _ => nomatch hreference

end Template

/-- A template's own fault: it does not compile, or it is a component's and has no element. -/
def EngineError.Faulty (e : EngineError) : Prop :=
  (∃ reason file line shown, e = .compile reason file line shown) ∨
    ∃ name, e = .emptyComponentTemplate name

theorem faulty_ofSyntax {α : Type} {name source : String} {x : Except SyntaxError α}
    {e : EngineError} (h : x.mapError (EngineError.ofSyntax name source) = .error e) :
    e.Faulty := by
  cases x with
  | error err => exact .inl ⟨_, _, _, _, (Except.error.inj h).symm⟩
  | ok a => nomatch h

namespace Template

variable {d : Delimiters} {name source : String} {e : EngineError}

theorem faulty_of_build (h : build name source d = .error e) : e.Faulty := by
  unfold build at h
  cases hcompile : (Program.compile source d).mapError (EngineError.ofSyntax name source) with
  | error err =>
      rw [hcompile] at h
      obtain rfl := Except.error.inj h
      exact faulty_ofSyntax hcompile
  | ok p =>
      rw [hcompile] at h
      nomatch h

theorem faulty_of_component (h : component name source d = .error e) : e.Faulty := by
  unfold component at h
  cases hmark : ComponentSource.markRoot name source d with
  | ok marked =>
      rw [hmark] at h
      exact faulty_of_build h
  | error err =>
      rw [hmark] at h
      obtain rfl := Except.error.inj h
      unfold ComponentSource.markRoot at hmark
      dsimp only at hmark
      cases hscan : scan (String.ofList (ComponentSource.unwrap source.toList)) d with
      | error lexed =>
          rw [hscan] at hmark
          exact .inl ⟨_, _, _, _, (Except.error.inj hmark).symm⟩
      | ok segments =>
          rw [hscan] at hmark
          dsimp only [Except.mapError, bind, Except.bind, pure, Except.pure] at hmark
          split at hmark
          · exact .inr ⟨name, (Except.error.inj hmark).symm⟩
          · cases hmark

end Template

namespace Website

variable {w : Website} {cache cache₁ base final : TemplateCache} {p q : Request} {t u : Template}
  {asked : Request → Prop}

/-! ## What a check has been through -/

theorem Checked.later {file : String} {references : List (String × Nat)}
    {state : TemplateCache × List String}
    {outcome : Except EngineError Unit × TemplateCache × List String}
    (h : w.Checked file references state outcome) : w.Later state.1 outcome.2.1 := by
  induction h with
  | done => exact .refl w _
  | passed _ _ ih => exact ih
  | missing => exact .refl w _
  | failed _ hfind _ ih => exact (Later.of_find (w.spares_component _) hfind).trans ih
  | found _ hfind _ _ ihchild ihrest =>
      exact ((Later.of_find (w.spares_component _) hfind).trans ihchild).trans ihrest

/-- What a template refers to is asked for, once the request for the template is settled. -/
def Follows (w : Website) (final : TemplateCache) (asked : Request → Prop) : Prop :=
  ∀ q t, asked q → w.Settled final q t →
    ∀ r ∈ t.program.componentReferences, asked (.component r.1)

/-- A name stands for a template with references only to names of a list. -/
def Closed (w : Website) (final : TemplateCache) (asked : Request → Prop) (names : List String)
    (name : String) : Prop :=
  ∃ reference t, componentName reference = name ∧ asked (.component reference) ∧
    w.Settled final (.component reference) t ∧
      ∀ r ∈ t.program.componentReferences, componentName r.1 ∈ names

theorem Closed.mono {names names' : List String} {name : String}
    (h : w.Closed final asked names name) (hsub : names ⊆ names') :
    w.Closed final asked names' name := by
  obtain ⟨reference, t, hname, hasked, hsettled, hall⟩ := h
  exact ⟨reference, t, hname, hasked, hsettled, fun r hr => hsub (hall r hr)⟩

/-- A check that passes has been to every reference, and to those of each template it came to. -/
theorem Checked.closed {file : String} {references : List (String × Nat)}
    {state : TemplateCache × List String}
    {outcome : Except EngineError Unit × TemplateCache × List String}
    (h : w.Checked file references state outcome) (hpassed : outcome.1 = .ok ())
    (hfollows : w.Follows final asked) (hfinal : w.Later outcome.2.1 final)
    (hasked : ∀ r ∈ references, asked (.component r.1)) :
    (∀ r ∈ references, componentName r.1 ∈ outcome.2.2) ∧
      ∀ name ∈ outcome.2.2, name ∈ state.2 ∨ w.Closed final asked outcome.2.2 name := by
  induction h with
  | done => exact ⟨by simp, fun name hname => .inl hname⟩
  | passed hseen hrest ih =>
      obtain ⟨hall, hclosed⟩ :=
        ih hpassed hfinal fun r hr => hasked r (List.mem_cons_of_mem _ hr)
      refine ⟨fun r hr => ?_, hclosed⟩
      rcases List.mem_cons.mp hr with rfl | hr
      · exact hrest.onward.seen hseen
      · exact hall r hr
  | missing => nomatch hpassed
  | failed => nomatch hpassed
  | @found _ reference _ _ _ _ _ child _ _ hnew hfind hchild hrest ihchild ihrest =>
      have hsettled := (hchild.later.trans (hrest.later.trans hfinal)) _ _ (Settled.of_find hfind)
      have hreference := hasked _ List.mem_cons_self
      obtain ⟨hinner, hwithin⟩ :=
        ihchild rfl (hrest.later.trans hfinal) (hfollows _ _ hreference hsettled)
      obtain ⟨hall, hclosed⟩ :=
        ihrest hpassed hfinal fun r hr => hasked r (List.mem_cons_of_mem _ hr)
      have hon := hrest.onward.seen
      refine ⟨fun r hr => ?_, fun name hname => ?_⟩
      · rcases List.mem_cons.mp hr with rfl | hr
        · exact hon (hchild.onward.seen List.mem_cons_self)
        · exact hall r hr
      · rcases hclosed name hname with hname | hname
        · rcases hwithin name hname with hname | hname
          · rcases List.mem_cons.mp hname with rfl | hname
            · exact .inr ⟨reference, child, rfl, hreference, hsettled, fun r hr => hon (hinner r hr)⟩
            · exact .inl hname
          · exact .inr (hname.mono hon)
        · exact .inr hname

/-- A check that fails does so over a reference of the file, or of a template that it came to. -/
theorem Checked.located {file : String} {references : List (String × Nat)}
    {state : TemplateCache × List String}
    {outcome : Except EngineError Unit × TemplateCache × List String}
    (h : w.Checked file references state outcome) {e : EngineError} (hfailed : outcome.1 = .error e)
    (hfollows : w.Follows outcome.2.1 asked) (hasked : ∀ r ∈ references, asked (.component r.1)) :
    ∃ reference at_ line err, w.find outcome.2.1 (.component reference) = .error err ∧
      e = missingAt reference at_ line err ∧
      ((at_ = file ∧ (reference, line) ∈ references) ∨
        ∃ q t, asked q ∧ w.Settled outcome.2.1 q t ∧ t.name = at_ ∧
          (reference, line) ∈ t.program.componentReferences) := by
  induction h with
  | done => nomatch hfailed
  | passed _ _ ih =>
      obtain ⟨reference, at_, line, err, hfind, he, hplace⟩ :=
        ih hfailed hfollows fun r hr => hasked r (List.mem_cons_of_mem _ hr)
      exact ⟨reference, at_, line, err, hfind, he,
        hplace.imp (fun h => ⟨h.1, List.mem_cons_of_mem _ h.2⟩) id⟩
  | missing _ hfind =>
      obtain rfl := Except.error.inj hfailed
      exact ⟨_, _, _, _, hfind, rfl, .inl ⟨rfl, List.mem_cons_self⟩⟩
  | failed _ hfind hchild ih =>
      have hsettled := hchild.later _ _ (Settled.of_find hfind)
      have hreference := hasked _ List.mem_cons_self
      obtain ⟨reference, at_, line, err, hmiss, he, hplace⟩ :=
        ih hfailed hfollows (hfollows _ _ hreference hsettled)
      refine ⟨reference, at_, line, err, hmiss, he, .inr ?_⟩
      rcases hplace with ⟨rfl, hmem⟩ | hplace
      · exact ⟨_, _, hreference, hsettled, rfl, hmem⟩
      · exact hplace
  | @found _ _ _ _ _ _ _ _ _ _ _ hfind hchild hrest _ ihrest =>
      obtain ⟨reference, at_, line, err, hmiss, he, hplace⟩ :=
        ihrest hfailed hfollows fun r hr => hasked r (List.mem_cons_of_mem _ hr)
      exact ⟨reference, at_, line, err, hmiss, he,
        hplace.imp (fun h => ⟨h.1, List.mem_cons_of_mem _ h.2⟩) id⟩

/-! ## What building reports -/

/-- A component that is not built has a fault of its own, or it is not there. -/
theorem build_component_eq_error {reference : String} {e : EngineError}
    (h : w.build (.component reference) = .error e) :
    e = .templateNotFound reference ∨ e.Faulty := by
  rw [build_component] at h
  split at h
  · exact .inr (Template.faulty_of_component h)
  · unfold source at h
    split at h
    · exact .inr (Template.faulty_of_component h)
    · exact .inl (Except.error.inj h).symm

theorem build_page_eq_error {name : String} {e : EngineError}
    (h : w.build (.page name) = .error e) : e = .templateNotFound name ∨ e.Faulty := by
  unfold build source at h
  dsimp only at h
  split at h
  · exact .inr (Template.faulty_of_build h)
  · exact .inl (Except.error.inj h).symm

theorem build_of_find_eq_error {e : EngineError} (h : w.find cache q = .error e) :
    w.build q = .error e := by
  unfold find at h
  split at h
  · nomatch h
  · cases hbuild : w.build q with
    | error err =>
        rw [hbuild] at h
        exact congrArg Except.error (Except.error.inj h)
    | ok t =>
        rw [hbuild] at h
        nomatch h

/-! ## Looking up again -/

/-- A lookup of a request changes no answer that was settled: it replaces no template that is kept,
or puts the one there that is there. -/
def Harmless (w : Website) (base : TemplateCache) (p : Request) : Prop :=
  w.Spares p ∨ ∃ u, w.Settled base p u ∧
    ∀ q t, w.keeps q = true → w.key q = w.key p → w.Settled base q t → t = u

theorem Later.find (h : w.Later base cache) (hp : w.Harmless base p)
    (hfind : w.find cache p = .ok (u, cache₁)) : w.Later base cache₁ := by
  rcases hp with hspares | ⟨v, hv, hsame⟩
  · exact h.trans (Later.of_find hspares hfind)
  obtain ⟨_, hfound⟩ := (h p v hv).find
  obtain ⟨rfl, -⟩ := Prod.mk.inj (Except.ok.inj (hfound.symm.trans hfind))
  intro q t hq
  have hsettled := h q t hq
  obtain ⟨-, -, rfl⟩ | ⟨-, -, rfl⟩ := find_eq_ok hfind
  · exact hsettled
  unfold Settled at hsettled ⊢
  split at hsettled
  · next hkeeps =>
      rw [if_pos hkeeps]
      by_cases hkey : w.key q = w.key p
      · rw [hkey, Table.get?_insert_self, hsame q t hkeeps hkey hq]
      · rw [Table.get?_insert_of_ne hkey, hsettled]
  · next hkeeps => rwa [if_neg hkeeps]

/-- Once a page is found, finding it again is harmless. -/
theorem harmless_of_find (h : w.find cache p = .ok (u, cache₁)) (hlater : w.Later cache₁ final) :
    w.Harmless final p := by
  refine .inr ⟨u, hlater p u (Settled.of_find h), fun q t hkeeps hkey ht => ?_⟩
  have hget : Table.get? (w.key p) cache₁ = some u := by
    obtain ⟨-, hget, rfl⟩ | ⟨-, -, rfl⟩ := find_eq_ok h
    · exact hget
    · exact Table.get?_insert_self ..
  have hu : w.Settled cache₁ q u := by
    unfold Settled
    rw [if_pos hkeeps, hkey, hget]
  exact ht.unique (hlater q u hu)

/-- What a compilation comes to: the page is not found, or its check decides. -/
theorem compile_cases (w : Website) (cache : TemplateCache) (name : String) :
    (∃ e, w.find cache (.page name) = .error e ∧ w.compile cache name = (.error e, cache)) ∨
      ∃ page cache₁ outcome, w.find cache (.page name) = .ok (page, cache₁) ∧
        w.Checked page.name page.program.componentReferences (cache₁, []) outcome ∧
        w.compile cache name = (outcome.1.map fun _ => page, outcome.2.1) := by
  unfold compile
  dsimp only
  rw [getOrBuild_page]
  cases hfind : w.find cache (.page name) with
  | error e => exact .inl ⟨e, rfl, rfl⟩
  | ok found =>
      obtain ⟨page, cache₁⟩ := found
      refine .inr ⟨page, cache₁, _, rfl, w.checked_nameBound cache₁ page, ?_⟩
      dsimp only
      rcases w.checkComponents (w.nameBound cache₁) page (cache₁, []) with ⟨_ | _, _, _⟩ <;> rfl

theorem follows_asked (w : Website) (final : TemplateCache) (names : List String) :
    w.Follows final (Asked w final names) :=
  fun _ _ hq ht _ hr => .component hq ht.resolve hr

/-- A page that compiles has an answer for everything that comes of it, as far as references of one
name stand for one template. -/
theorem settled_of_compile {name : String} {page : Template}
    (hcompile : w.compile cache name = (.ok page, final))
    (hnames : w.config.mode = .production ∨ ∀ a b, w.Asked final [name] (.component a) →
      w.Asked final [name] (.component b) → componentName a = componentName b →
        ∀ t, w.resolve final (.component a) = .ok t → w.resolve final (.component b) = .ok t) :
    w.Settled final (.page name) page ∧ w.Harmless final (.page name) ∧
      ∀ q, w.Asked final [name] q → ∃ t, w.Settled final q t := by
  obtain ⟨e, -, hfailed⟩ | ⟨page', cache₁, ⟨result, cache₂, seen⟩, hfind, hchecked, hchecks⟩ :=
    w.compile_cases cache name
  · nomatch hfailed.symm.trans hcompile
  obtain ⟨hresult, rfl⟩ := Prod.mk.inj (hchecks.symm.trans hcompile)
  obtain ⟨rfl, rfl⟩ : page' = page ∧ result = .ok () := by
    cases result with
    | error e => nomatch hresult
    | ok _ => exact ⟨Except.ok.inj hresult, rfl⟩
  have hlater : w.Later cache₁ cache₂ := hchecked.later
  have hpage := hlater _ _ (Settled.of_find hfind)
  have hstart : w.Asked cache₂ [name] (.page name) := .page List.mem_cons_self
  obtain ⟨hreferences, hclosed⟩ := hchecked.closed rfl (w.follows_asked cache₂ [name]) (.refl w _)
    (w.follows_asked cache₂ [name] _ _ hstart hpage)
  refine ⟨hpage, harmless_of_find hfind hlater, ?_⟩
  -- every template that is come to has been checked
  have hall : ∀ q, w.Asked cache₂ [name] q →
      ∃ t, w.Settled cache₂ q t ∧ ∀ r ∈ t.program.componentReferences, componentName r.1 ∈ seen := by
    intro q hq
    induction hq with
    | page hname =>
        obtain rfl := List.mem_singleton.mp hname
        exact ⟨page', hpage, hreferences⟩
    | @component p t reference line hp ht hr ih =>
        obtain ⟨u, hu, hwithin⟩ := ih
        obtain rfl := Except.ok.inj (hu.resolve.symm.trans ht)
        obtain ⟨a, v, hname, ha, hv, hinner⟩ :=
          (hclosed _ (hwithin _ hr)).resolve_left List.not_mem_nil
        refine ⟨v, ?_, hinner⟩
        by_cases hkeeps : w.keeps (.component reference) = true
        · exact hv.of_name hname hkeeps
        · refine settled_of_resolve hkeeps ?_
          have hmode := hnames.resolve_left fun hmode => hkeeps (keeps_of_production hmode _)
          exact hmode a reference ha (.component hp ht hr) hname v hv.resolve
  exact fun q hq => (hall q hq).imp fun t ht => ht.1

/-- A component that a compilation misses is one that nothing is found for, and a template that
comes of the page refers to it. -/
theorem located_of_compile {name reference file : String} {line : Nat}
    (hcompile : w.compile cache name = (.error (.componentNotFound reference file line), final)) :
    w.resolve final (.component reference) = .error (.templateNotFound reference) ∧
      ∃ q t, w.Asked final [name] q ∧ w.Settled final q t ∧ t.name = file ∧
        (reference, line) ∈ t.program.componentReferences := by
  obtain ⟨e, hfind, hfailed⟩ | ⟨page, cache₁, ⟨result, cache₂, seen⟩, hfind, hchecked, hchecks⟩ :=
    w.compile_cases cache name
  · -- a page that is not found misses no component
    obtain ⟨he, -⟩ := Prod.mk.inj (hfailed.symm.trans hcompile)
    obtain rfl := Except.error.inj he
    rcases build_page_eq_error (build_of_find_eq_error hfind) with h | ⟨_, _, _, _, h⟩ | ⟨_, h⟩ <;>
      nomatch h
  obtain ⟨hresult, rfl⟩ := Prod.mk.inj (hchecks.symm.trans hcompile)
  obtain rfl : result = .error (.componentNotFound reference file line) := by
    cases result with
    | error e => exact congrArg Except.error (Except.error.inj hresult)
    | ok _ => nomatch hresult
  have hpage : w.Settled cache₂ (.page name) page := hchecked.later _ _ (Settled.of_find hfind)
  have hstart : w.Asked cache₂ [name] (.page name) := .page List.mem_cons_self
  obtain ⟨reference', file', line', err, hmiss, he, hplace⟩ := hchecked.located rfl
    (w.follows_asked cache₂ [name]) (w.follows_asked cache₂ [name] _ _ hstart hpage)
  -- only a component that is not there is reported as missing
  rcases build_component_eq_error (build_of_find_eq_error hmiss) with
    rfl | ⟨_, _, _, _, rfl⟩ | ⟨_, rfl⟩
  · obtain ⟨rfl, rfl, rfl⟩ := EngineError.componentNotFound.inj he
    refine ⟨by unfold resolve; rw [hmiss]; rfl, ?_⟩
    obtain ⟨rfl, hmem⟩ | ⟨q, t, hq, ht, hname, hmem⟩ := hplace
    · exact ⟨_, page, hstart, hpage, rfl, hmem⟩
    · exact ⟨q, t, hq, ht, hname, hmem⟩
  · nomatch he
  · nomatch he

/-- What has an answer is found from then on. -/
theorem lookupsTandem_settled {name : String} (hpage : w.Harmless final (.page name))
    (hall : ∀ q, w.Asked final [name] q → ∃ t, w.Settled final q t) :
    w.LookupsTandem False (w.Asked final [name]) (fun c c' => c = c' ∧ w.Later final c) := by
  rintro q c _ hq ⟨rfl, hlater⟩
  obtain ⟨t, ht⟩ := hall q hq
  obtain ⟨c₁, hfind⟩ := (hlater q t ht).find
  have hharmless : w.Harmless final q := by
    cases hq with
    | page hname => exact List.mem_singleton.mp hname ▸ hpage
    | component => exact .inl (w.spares_component _)
  exact .inr ⟨t, c₁, c₁, hfind, hfind, ⟨rfl, hlater.find hharmless hfind⟩,
    fun r hr => .component hq ht.resolve hr⟩

/-- Calls that replace no kept template leave settled what is settled. -/
theorem lookupsTandem_harmless (w : Website) (base : TemplateCache) :
    w.LookupsTandem True (w.Harmless base) (fun c c' => c = c' ∧ w.Later base c) :=
  lookupsTandem_self fun _ _ _ _ hq hlater hfind =>
    ⟨hlater.find hq hfind, fun _ _ => .inl (w.spares_component _)⟩

/-- The depth of a check makes no difference once it exceeds the names that may resolve. -/
theorem checkComponents_of_le (w : Website) (page : Template) {depth : Nat}
    (hdepth : w.nameBound cache ≤ depth) : w.checkComponents depth page (cache, []) =
      w.checkComponents (w.nameBound cache) page (cache, []) := by
  obtain ⟨hresult, ⟨hcaches, -⟩, hseen, -⟩ := w.lookupsTandem_refl.checked
    (checked_checkComponents ((w.unchecked_lt_nameBound cache).trans_le hdepth))
    (fun _ _ => trivial) ⟨rfl, trivial⟩ (w.checked_nameBound cache page)
  exact Prod.ext hresult (Prod.ext hcaches hseen)

/-! ## Compiled caches -/

/-- Every template of a cache is what its source compiles to. -/
def CompiledCache (w : Website) (cache : TemplateCache) : Prop :=
  ∀ k t, Table.get? k cache = some t → t.Compiled w.config.delimiters

theorem compiledCache_nil (w : Website) : w.CompiledCache [] := fun _ _ h => nomatch h

theorem compiled_of_build (h : w.build q = .ok t) : t.Compiled w.config.delimiters := by
  cases q with
  | page name =>
      obtain ⟨source, -, hbuild⟩ := bind_eq_ok h
      exact Template.compiled_build hbuild
  | component reference =>
      rw [build_component] at h
      split at h
      · exact Template.compiled_component h
      · obtain ⟨source, -, hbuild⟩ := bind_eq_ok h
        exact Template.compiled_component hbuild

theorem CompiledCache.insert (h : w.CompiledCache cache) (k : String)
    (ht : t.Compiled w.config.delimiters) : w.CompiledCache (Table.insert k t cache) := by
  intro other u hu
  by_cases hk : other = k
  · subst hk
    rw [Table.get?_insert_self] at hu
    exact Option.some.inj hu ▸ ht
  · rw [Table.get?_insert_of_ne hk] at hu
    exact h other u hu

theorem lookupsTandem_compiled (w : Website) :
    w.LookupsTandem True (fun _ => True) (fun c c' => c = c' ∧ w.CompiledCache c) := by
  refine lookupsTandem_self fun q cache t c _ hcompiled hfind => ⟨?_, fun _ _ => trivial⟩
  obtain ⟨-, -, rfl⟩ | ⟨-, hbuild, rfl⟩ := find_eq_ok hfind
  · exact hcompiled
  · exact hcompiled.insert _ (compiled_of_build hbuild)

theorem CompiledCache.settled (h : w.CompiledCache cache) (ht : w.Settled cache q t) :
    t.Compiled w.config.delimiters := by
  unfold Settled at ht
  split at ht
  · exact h _ t ht
  · exact compiled_of_build ht

end Website

namespace Engine

open Website

/-- Every template of the engine is what its source compiles to. -/
def Compiled (e : Engine) : Prop := e.site.CompiledCache e.cache

variable {e e' : Engine}

theorem compiled_create {config : Config} {sources : Table String}
    (h : create config sources = .ok e) : e.Compiled := by
  obtain ⟨-, -, hpure⟩ := bind_eq_ok h
  obtain rfl := Except.ok.inj hpure
  exact compiledCache_nil _

theorem Compiled.registerComponent (h : e.Compiled) {c : ComponentDef}
    (hregister : e.registerComponent c = .ok e') : e'.Compiled := by
  obtain ⟨t, ht, hpure⟩ := bind_eq_ok hregister
  obtain rfl := Except.ok.inj hpure
  exact CompiledCache.insert h _ (Template.compiled_component ht)

theorem Compiled.addSource (h : e.Compiled) (name source : String) :
    (e.addSource name source).Compiled := h

theorem Compiled.registerBlocks (h : e.Compiled) (file source : String) :
    (e.registerBlocks file source).2.Compiled := h

theorem Compiled.after (h : e.Compiled) {calls : List Call} (hafter : e.after calls = some e') :
    e'.Compiled := by
  obtain ⟨hsite, hcompiled⟩ :=
    keeps_after (lookupsTandem_compiled e.site) (fun _ _ => trivial) h hafter
  unfold Compiled
  rwa [hsite]

/-- With an answer for everything that comes of it, a page compiles, and what would be done about a
component that is not found makes no difference to its renders. -/
theorem found_of_settled {w : Website} {final cache : TemplateCache} {name : String}
    {page : Template} (hpage : w.Settled final (.page name) page)
    (hharmless : w.Harmless final (.page name))
    (hall : ∀ q, w.Asked final [name] q → ∃ t, w.Settled final q t) (hlater : w.Later final cache) :
    ((Engine.mk w cache).compile name).1 = .ok page ∧ ∀ missing budget data,
      (Engine.mk w cache).renderWithHostOr missing budget name data =
        (Engine.mk w cache).renderWithHost budget name data := by
  have hlook := lookupsTandem_settled hharmless hall
  have hstart : w.Asked final [name] (.page name) := .page List.mem_cons_self
  constructor
  · obtain ⟨hfalse, -⟩ | ⟨t, c, _, hc, -, -, hresolve, -⟩ := hlook.compile hstart ⟨rfl, hlater⟩
    · exact hfalse.elim
    · obtain rfl := Except.ok.inj ((hlater _ _ hpage).resolve.symm.trans hresolve)
      exact congrArg Prod.fst hc
  · intro missing budget data
    rw [← renderWithHostOr_fail]
    -- nothing is missing, so the two renders may differ in what they do about it
    obtain ⟨-, hnone, hnone'⟩ | ⟨run, run', hrun, hrun', hruns⟩ :=
      tandem_renderWithHostOr hlook (servesTandem_refl w _ budget)
        (False.elim : False → missing = fail ∧ fail = fail) hstart ⟨rfl, hlater⟩ data
    · rw [hnone, hnone']
    · rw [hrun, hrun', hruns.eq]

/-- A page that compiles is compiled again, and rendered without a component that is not found,
after any calls that replace no registered component; in development, as far as references of one
component name stand for one template. A component that is reported as missing is referred to from
the named file, on the named line of the source that was compiled, by a template that comes of the
page. The depth that a check is given does not matter, so it ends by itself. -/
theorem compile_checks (e : Engine) (name : String) :
    (∀ page final, e.compile name = (.ok page, final) →
      (e.site.config.mode = .production ∨ ∀ a b, e.site.Asked final.cache [name] (.component a) →
        e.site.Asked final.cache [name] (.component b) → componentName a = componentName b →
          ∀ t, e.site.resolve final.cache (.component a) = .ok t →
            e.site.resolve final.cache (.component b) = .ok t) →
      ∀ calls later, final.after calls = some later →
        (∀ c ∈ calls, c.page = name ∨ e.site.Spares (.page c.page)) →
          (later.compile name).1 = .ok page ∧ ∀ missing budget data,
            later.renderWithHostOr missing budget name data =
              later.renderWithHost budget name data) ∧
    (∀ reference file line final,
      e.compile name = (.error (.componentNotFound reference file line), final) →
        e.site.resolve final.cache (.component reference) = .error (.templateNotFound reference) ∧
        ∃ q t, e.site.Asked final.cache [name] q ∧ e.site.resolve final.cache q = .ok t ∧
          t.name = file ∧ (reference, line) ∈ t.program.componentReferences ∧
            (e.Compiled → t.RefersAt e.site.config.delimiters reference line)) ∧
    ∀ page cache, e.site.find e.cache (.page name) = .ok (page, cache) →
      ∀ depth, e.site.nameBound cache ≤ depth → e.site.checkComponents depth page (cache, []) =
        e.site.checkComponents (e.site.nameBound cache) page (cache, []) := by
  obtain ⟨w, base⟩ := e
  refine ⟨?_, ?_, fun page cache _ depth hdepth => w.checkComponents_of_le page hdepth⟩
  · rintro page ⟨site, cache⟩ hcompile hnames calls ⟨site', cache'⟩ hafter hcalls
    obtain ⟨hresult, hfinal⟩ := Prod.mk.inj hcompile
    obtain ⟨rfl, hcache⟩ := Engine.mk.inj hfinal
    obtain ⟨hpage, hharmless, hall⟩ := settled_of_compile (Prod.ext hresult hcache) hnames
    obtain ⟨hsite, hlater⟩ := keeps_after (lookupsTandem_harmless w cache)
      (fun c hc => (hcalls c hc).elim (fun h => h ▸ hharmless) .inl) (.refl w cache) hafter
    obtain rfl : site' = w := hsite
    exact found_of_settled hpage hharmless hall hlater
  · rintro reference file line ⟨site, final⟩ hcompile
    obtain ⟨hresult, hfinal⟩ := Prod.mk.inj hcompile
    obtain ⟨rfl, hcache⟩ := Engine.mk.inj hfinal
    obtain ⟨hmissing, q, t, hq, ht, hname, hmem⟩ := located_of_compile (Prod.ext hresult hcache)
    refine ⟨hmissing, q, t, hq, ht.resolve, hname, hmem, fun hcompiled => ?_⟩
    obtain ⟨-, hkept⟩ := keeps_call (c := .compile name) (lookupsTandem_compiled w) trivial hcompiled
      (congrArg some hfinal)
    exact (CompiledCache.settled hkept ht).refersAt hmem

open TwoCards in
/-- A shop whose card is missing is reported, which does not concern the home page. -/
theorem compile_checks_shop : ∃ final later final',
    (engine "c/none").compile "home" = (.ok (pageTemplate "home" "a/card"), final) ∧
      final.after [.compile "shop"] = some later ∧
      (later.compile "home").1 = .ok (pageTemplate "home" "a/card") ∧
      (∀ missing budget data, later.renderWithHostOr missing budget "home" data =
        later.renderWithHost budget "home" data) ∧
      (engine "c/none").compile "shop" = (.error (.componentNotFound "c/none" "shop" 1), final') ∧
      ∃ q t, (engine "c/none").site.Asked final'.cache ["shop"] q ∧
        (engine "c/none").site.resolve final'.cache q = .ok t ∧ t.name = "shop" ∧
          t.RefersAt config.delimiters "c/none" 1 := by
  have hhome : (engine "c/none").compile "home" =
      (.ok (pageTemplate "home" "a/card"), ⟨(engine "c/none").site, homeCache⟩) := by cbv
  have hshop : (Engine.mk (engine "c/none").site homeCache).after [.compile "shop"] =
      some ⟨(engine "c/none").site, homeCache ++ [("shop", pageTemplate "shop" "c/none")]⟩ := by cbv
  have hmissing : (engine "c/none").compile "shop" =
      (.error (.componentNotFound "c/none" "shop" 1),
        ⟨(engine "c/none").site, [("shop", pageTemplate "shop" "c/none")]⟩) := by cbv
  obtain ⟨hagain, hrenders⟩ := (compile_checks (engine "c/none") "home").1 _ _ hhome (.inl rfl) _ _
    hshop fun c _ => .inr (spares_of_production rfl _)
  obtain ⟨-, q, t, hq, ht, hname, -, hplace⟩ :=
    (compile_checks (engine "c/none") "shop").2.1 _ _ _ _ hmissing
  exact ⟨_, _, _, hhome, hshop, hagain, hrenders, hmissing, q, t, hq, ht, hname,
    hplace (compiledCache_nil _)⟩

end Engine

/-! ## A card that is missed -/

namespace HalfFound

/-- A page that refers to two cards of one name, in development, where one of them is missing. -/
def engine : Engine where
  site := ⟨{ TwoCards.config with mode := .development },
    [("page", "[if (user)][@ a/card(\x7b\x7d)][/][@ b/card(\x7b\x7d)]"), ("a/card", "<i/>")], [], []⟩
  cache := []

def pageTemplate : Template where
  name := "page"
  source := "[if (user)][@ a/card(\x7b\x7d)][/][@ b/card(\x7b\x7d)]"
  program := ⟨[.choose [.arm (.node (.ident "user") ⟨5, 9⟩)
      [.component "a/card" (.node (.object []) ⟨21, 23⟩) 1] 1] none,
    .component "b/card" (.node (.object []) ⟨38, 40⟩) 1]⟩

end HalfFound

namespace Engine

open HalfFound

/-- The page compiles, since a card was found, and then cannot be rendered, since the other one is
not. -/
theorem compile_checks_half : ∃ final, engine.compile "page" = (.ok pageTemplate, final) ∧
    (final.render 1 "page" (.object (.given 0) [("user", .null)])).map PageRun.result =
      some (.error (.render "template not found: b/card" "page" 1
        (some ">> 1| [if (user)][@ a/card(\x7b\x7d)][/][@ b/card(\x7b\x7d)]"))) := by
  have hcompile : engine.compile "page" = (.ok pageTemplate, ⟨engine.site,
      [("page", pageTemplate), ("@card", TwoCards.cardTemplate "i")]⟩) := by cbv
  have hagain : (Engine.mk engine.site
        [("page", pageTemplate), ("@card", TwoCards.cardTemplate "i")]).compile "page" =
      (.ok pageTemplate, ⟨engine.site,
        [("page", pageTemplate), ("@card", TwoCards.cardTemplate "i")]⟩) := by cbv
  refine ⟨_, hcompile, ?_⟩
  rw [result_of_compile hagain]
  decide +kernel

end Engine

end LiveMarkup
