import LiveMarkup.Proofs.Engine.Tandem
import Mathlib
set_option autoImplicit false

/-! # What the cache of templates changes

After any calls, a request is answered as by the engine that they started from, or as that engine
answers an earlier request with the same key. A page renders to what it did at first if no request
of it is answered with the template of another one (`Engine.render_after`). -/

namespace LiveMarkup

/-- A call that compiles or renders a page. -/
inductive Call where
  | compile (name : String)
  | render (budget : Nat) (name : String) (data : Value)

def Call.page : Call → String
  | compile name => name
  | render _ name _ => name

namespace Engine

/-- The engine after a call, also after one that fails; none if a render does not end within its
budget. -/
def call (e : Engine) : Call → Option Engine
  | .compile name => some (e.compile name).2
  | .render budget name data => (e.render budget name data).map PageRun.engine

/-- The engine after some calls. -/
def after (e : Engine) : List Call → Option Engine
  | [] => some e
  | c :: rest => (e.call c).bind fun e => e.after rest

end Engine

namespace Website

variable {w : Website} {asked : Request → Prop} {P : TemplateCache → Prop}

/-- Lookups beside themselves keep what every one of them keeps. -/
theorem lookupsTandem_self
    (h : ∀ q cache t c, asked q → P cache → w.find cache q = .ok (t, c) →
      P c ∧ ∀ r ∈ t.program.componentReferences, asked (.component r.1)) :
    w.LookupsTandem True asked (fun c c' => c = c' ∧ P c) := by
  rintro q cache _ hq ⟨rfl, hP⟩
  cases hfind : w.find cache q with
  | error e => exact .inl ⟨trivial, e, rfl, rfl⟩
  | ok found =>
      obtain ⟨t, c⟩ := found
      obtain ⟨hc, hreferences⟩ := h q cache t c hq hP hfind
      exact .inr ⟨t, c, c, rfl, rfl, ⟨rfl, hc⟩, hreferences⟩

/-- Every lookup comes to the same from one cache. -/
theorem lookupsTandem_refl (w : Website) :
    w.LookupsTandem True (fun _ => True) (fun c c' => c = c' ∧ True) :=
  lookupsTandem_self fun _ _ _ _ _ _ _ => ⟨trivial, fun _ _ => trivial⟩

end Website

namespace Engine

open Website

variable {w : Website} {asked : Request → Prop} {P : TemplateCache → Prop}
  {cache : TemplateCache} {e : Engine}

/-- One call keeps what the lookups keep. -/
theorem keeps_call (h : w.LookupsTandem True asked (fun c c' => c = c' ∧ P c)) {c : Call}
    (hasked : asked (.page c.page)) (hP : P cache) (hcall : (Engine.mk w cache).call c = some e) :
    e.site = w ∧ P e.cache := by
  cases c with
  | compile name =>
      replace hasked : asked (.page name) := hasked
      obtain rfl := Option.some.inj hcall
      unfold Engine.compile
      dsimp only
      obtain ⟨-, err, c, c', hc, -, -, hkept⟩ | ⟨t, c, c', hc, -, ⟨-, hkept⟩, -⟩ :=
        h.compile hasked ⟨rfl, hP⟩
      · rw [hc]
        exact ⟨rfl, hkept⟩
      · rw [hc]
        exact ⟨rfl, hkept⟩
  | render budget name data =>
      obtain ⟨run, hrender, rfl⟩ := Option.map_eq_some_iff.mp hcall
      obtain ⟨out, hout, rfl⟩ := Option.map_eq_some_iff.mp hrender
      rw [← renderWithHostOr_fail] at hout
      obtain ⟨-, hnone, -⟩ | ⟨run, run', hrun, -, hruns⟩ :=
        tandem_renderWithHostOr h (servesTandem_refl w _ budget) (fun _ => ⟨rfl, rfl⟩) hasked
          ⟨rfl, hP⟩ data
      · nomatch hnone.symm.trans hout
      · obtain rfl := Option.some.inj (hrun.symm.trans hout)
        exact ⟨hruns.site, hruns.cache.2⟩

/-- Any calls keep what the lookups keep. -/
theorem keeps_after (h : w.LookupsTandem True asked (fun c c' => c = c' ∧ P c)) {calls : List Call}
    (hasked : ∀ c ∈ calls, asked (.page c.page)) (hP : P cache)
    (hafter : (Engine.mk w cache).after calls = some e) : e.site = w ∧ P e.cache := by
  induction calls generalizing cache with
  | nil =>
      obtain rfl := Option.some.inj hafter
      exact ⟨rfl, hP⟩
  | cons c rest ih =>
      obtain ⟨⟨site, cache₁⟩, hcall, hrest⟩ := Option.bind_eq_some_iff.mp hafter
      obtain ⟨hsite, hkept⟩ := keeps_call h (hasked c List.mem_cons_self) hP hcall
      obtain rfl : site = w := hsite
      exact ih (fun c hc => hasked c (List.mem_cons_of_mem _ hc)) hkept hrest

end Engine

namespace Website

variable {w : Website} {base cache cache' : TemplateCache} {asked asked' : Request → Prop}
  {q : Request} {t : Template} {names : List String}

/-! ## What was added to a cache -/

/-- What a cache has under a key it had at first, or a request with that key was answered with. -/
def AddedBy (w : Website) (base : TemplateCache) (asked : Request → Prop) (cache : TemplateCache) :
    Prop :=
  ∀ k, Table.get? k cache = Table.get? k base ∨
    ∃ q t, asked q ∧ w.key q = k ∧ w.resolve base q = .ok t ∧ Table.get? k cache = some t

theorem AddedBy.refl (w : Website) (base : TemplateCache) (asked : Request → Prop) :
    w.AddedBy base asked base := fun _ => .inl rfl

/-- What is missing in a cache was missing at first. -/
theorem AddedBy.get?_eq_none {k : String} (h : w.AddedBy base asked cache)
    (hget : Table.get? k cache = none) : Table.get? k base = none := by
  rcases h k with hsame | ⟨_, _, -, -, -, hsome⟩
  · rwa [hsame] at hget
  · nomatch hget.symm.trans hsome

/-- A lookup finds what is found at first, for this request or for one with its key. -/
theorem AddedBy.exists_of_find (h : w.AddedBy base asked cache) (hq : asked q)
    (hfind : w.find cache q = .ok (t, cache')) :
    ∃ p, asked p ∧ w.key p = w.key q ∧ w.resolve base p = .ok t := by
  obtain ⟨hkeeps, hget, -⟩ | ⟨hmiss, hbuild, -⟩ := find_eq_ok hfind
  · rcases h (w.key q) with hsame | ⟨p, u, hp, hkey, hresolve, hsome⟩
    · exact ⟨q, hq, rfl, resolve_eq_ok_iff.mpr ⟨base, find_of_get? hkeeps (hsame ▸ hget)⟩⟩
    · obtain rfl := Option.some.inj (hsome.symm.trans hget)
      exact ⟨p, hp, hkey, hresolve⟩
  · -- what is built now is built at first as well: nothing was there under the key
    refine ⟨q, hq, rfl, resolve_eq_ok_iff.mpr ⟨Table.insert (w.key q) t base, ?_⟩⟩
    by_cases hkeeps : w.keeps q = true
    · rw [find_of_get?_eq_none (h.get?_eq_none (hmiss hkeeps)), hbuild]
      rfl
    · rw [find_of_not_keeps hkeeps, hbuild]
      rfl

theorem AddedBy.find (h : w.AddedBy base asked cache) (hq : asked q)
    (hfind : w.find cache q = .ok (t, cache')) : w.AddedBy base asked cache' := by
  obtain ⟨p, hp, hkey, hresolve⟩ := h.exists_of_find hq hfind
  obtain ⟨-, -, rfl⟩ | ⟨-, -, rfl⟩ := find_eq_ok hfind
  · exact h
  intro k
  by_cases hk : k = w.key q
  · subst hk
    exact .inr ⟨p, t, hp, hkey, hresolve, Table.get?_insert_self ..⟩
  · rw [Table.get?_insert_of_ne hk]
    exact h k

/-- The requests that come of some pages only add themselves. -/
theorem lookupsTandem_addedBy (w : Website) (base : TemplateCache) (names : List String) :
    w.LookupsTandem True (Asked w base names)
      (fun c c' => c = c' ∧ w.AddedBy base (Asked w base names) c) := by
  refine lookupsTandem_self fun q cache t c hq hadded hfind => ⟨hadded.find hq hfind, ?_⟩
  obtain ⟨p, hp, -, hresolve⟩ := hadded.exists_of_find hq hfind
  exact fun r hr => .component hp hresolve hr

/-- A request is answered as at first, or as another one with its key was. -/
theorem AddedBy.resolve (h : w.AddedBy base asked cache) (q : Request) :
    w.resolve cache q = w.resolve base q ∨
      ∃ p, asked p ∧ w.key p = w.key q ∧ w.resolve cache q = w.resolve base p := by
  by_cases hkeeps : w.keeps q = true
  · rcases h (w.key q) with hsame | ⟨p, t, hp, hkey, hresolve, hget⟩
    · refine .inl ?_
      unfold Website.resolve Website.find
      rw [hsame]
      split <;> cases w.build q <;> rfl
    · refine .inr ⟨p, hp, hkey, ?_⟩
      rw [hresolve, resolve_eq_ok_iff]
      exact ⟨cache, find_of_get? hkeeps hget⟩
  · refine .inl ?_
    unfold Website.resolve
    rw [find_of_not_keeps hkeeps, find_of_not_keeps hkeeps]
    cases w.build q <;> rfl

/-! ## A cache with a history -/

/-- Two caches have the same under a key, or one has what it had at first and the other what an
earlier request with that key was answered with. -/
def Ahead (w : Website) (base : TemplateCache) (asked : Request → Prop)
    (cache cache' : TemplateCache) : Prop :=
  ∀ k, Table.get? k cache = Table.get? k cache' ∨ (Table.get? k cache = Table.get? k base ∧
    ∃ p t, asked p ∧ w.key p = k ∧ w.resolve base p = .ok t ∧ Table.get? k cache' = some t)

theorem AddedBy.ahead (h : w.AddedBy base asked cache) : w.Ahead base asked base cache :=
  fun k => (h k).imp Eq.symm fun hadded => ⟨rfl, hadded⟩

/-- Where an earlier request had the key, the template is there already. -/
theorem Ahead.insert_left (h : w.Ahead base asked cache cache') {k : String}
    (hget : Table.get? k cache' = some t) : w.Ahead base asked (Table.insert k t cache) cache' := by
  intro other
  by_cases hk : other = k
  · subst hk
    exact .inl ((Table.get?_insert_self ..).trans hget.symm)
  · rw [Table.get?_insert_of_ne hk]
    exact h other

theorem Ahead.insert (h : w.Ahead base asked cache cache') (k : String) (t : Template) :
    w.Ahead base asked (Table.insert k t cache) (Table.insert k t cache') := by
  intro other
  by_cases hk : other = k
  · subst hk
    exact .inl ((Table.get?_insert_self ..).trans (Table.get?_insert_self ..).symm)
  · rw [Table.get?_insert_of_ne hk, Table.get?_insert_of_ne hk]
    exact h other

/-- What is built is built from either cache. -/
theorem Ahead.build (h : w.Ahead base asked cache cache')
    (hfind : w.find cache q = (w.build q).map fun t => (t, Table.insert (w.key q) t cache))
    (hfind' : w.find cache' q = (w.build q).map fun t => (t, Table.insert (w.key q) t cache')) :
    (∃ e, w.find cache q = .error e ∧ w.find cache' q = .error e) ∨
      ∃ t c c', w.find cache q = .ok (t, c) ∧ w.find cache' q = .ok (t, c') ∧
        w.Ahead base asked c c' := by
  cases hbuild : w.build q with
  | error e =>
      rw [hfind, hfind', hbuild]
      exact .inl ⟨e, rfl, rfl⟩
  | ok t =>
      rw [hfind, hfind', hbuild]
      exact .inr ⟨t, _, _, rfl, rfl, h.insert _ t⟩

/-- A request is answered alike from both caches, if it is answered like the earlier requests with
its key. -/
theorem Ahead.find (h : w.Ahead base asked cache cache')
    (hq : w.keeps q = true → ∀ p, asked p → w.key p = w.key q →
      ∀ t, w.resolve base p = .ok t → w.resolve base q = .ok t) :
    (∃ e, w.find cache q = .error e ∧ w.find cache' q = .error e) ∨
      ∃ t c c', w.find cache q = .ok (t, c) ∧ w.find cache' q = .ok (t, c') ∧
        w.Ahead base asked c c' := by
  by_cases hkeeps : w.keeps q = true
  · rcases h (w.key q) with hsame | ⟨hbase, p, t, hp, hkey, hresolve, hget'⟩
    · cases hget : Table.get? (w.key q) cache with
      | none => exact h.build (find_of_get?_eq_none hget) (find_of_get?_eq_none (hsame ▸ hget))
      | some t =>
          refine .inr ⟨t, cache, cache', find_of_get? hkeeps hget, ?_, h⟩
          exact find_of_get? hkeeps (hsame ▸ hget)
    · -- an earlier request left its template, which is the one that is found at first
      have hsame := hq hkeeps p hp hkey t hresolve
      obtain ⟨c, hfind⟩ := resolve_eq_ok_iff.mp hsame
      refine .inr ⟨t, ?_⟩
      obtain ⟨-, hget, -⟩ | ⟨hmiss, hbuild, -⟩ := find_eq_ok hfind
      · refine ⟨cache, cache', find_of_get? hkeeps (hbase.trans hget), ?_, h⟩
        exact find_of_get? hkeeps hget'
      · refine ⟨Table.insert (w.key q) t cache, cache', ?_, find_of_get? hkeeps hget',
          h.insert_left hget'⟩
        rw [find_of_get?_eq_none (hbase.trans (hmiss hkeeps)), hbuild]
        rfl
  · exact h.build (find_of_not_keeps hkeeps) (find_of_not_keeps hkeeps)

/-- Lookups for some pages come to the same at first and after a history, if they are answered like
those of the history. -/
theorem lookupsTandem_ahead (hkeys : ∀ p q, asked p → Asked w base names q → w.keeps q = true →
      w.key p = w.key q → ∀ t, w.resolve base p = .ok t → w.resolve base q = .ok t) :
    w.LookupsTandem True (Asked w base names)
      (fun c c' => w.AddedBy base (Asked w base names) c ∧ w.Ahead base asked c c') := by
  rintro q cache cache' hq ⟨hadded, hahead⟩
  obtain ⟨e, he, he'⟩ | ⟨t, c, c', ht, ht', hcc⟩ :=
    hahead.find fun hkeeps p hp => hkeys p q hp hq hkeeps
  · exact .inl ⟨trivial, e, he, he'⟩
  · obtain ⟨p, hp, -, hresolve⟩ := hadded.exists_of_find hq ht
    exact .inr ⟨t, c, c', ht, ht', ⟨hadded.find hq ht, hcc⟩, fun r hr => .component hp hresolve hr⟩

end Website

namespace Engine

open Website

/-- After any calls, a request is answered as at first or as an earlier request with its key was. A
page renders to the same result as at first, and leaves the same journal, if every request of it
that is answered from the cache is answered like the earlier requests with its key. -/
theorem render_after {e later : Engine} {calls : List Call} (hafter : e.after calls = some later) :
    later.site = e.site ∧
    (∀ q, e.site.resolve later.cache q = e.site.resolve e.cache q ∨
      ∃ p, Asked e.site e.cache (calls.map Call.page) p ∧ e.site.key p = e.site.key q ∧
        e.site.resolve later.cache q = e.site.resolve e.cache p) ∧
    ∀ name,
      (∀ p q, Asked e.site e.cache (calls.map Call.page) p → Asked e.site e.cache [name] q →
        e.site.keeps q = true → e.site.key p = e.site.key q →
        ∀ t, e.site.resolve e.cache p = .ok t → e.site.resolve e.cache q = .ok t) →
      ∀ budget data,
        (later.render budget name data).map (fun run => (run.result, run.journal)) =
          (e.render budget name data).map fun run => (run.result, run.journal) := by
  obtain ⟨w, base⟩ := e
  obtain ⟨site, cache⟩ := later
  obtain ⟨hsite, hadded⟩ := keeps_after (lookupsTandem_addedBy w base (calls.map Call.page))
    (fun c hc => .page (List.mem_map_of_mem hc)) (.refl w base _) hafter
  obtain rfl : site = w := hsite
  refine ⟨rfl, hadded.resolve, fun name hkeys budget data => ?_⟩
  unfold render
  rw [← renderWithHostOr_fail, ← renderWithHostOr_fail]
  obtain ⟨-, hnone, hnone'⟩ | ⟨run, run', hrun, hrun', hruns⟩ :=
    tandem_renderWithHostOr (lookupsTandem_ahead hkeys) (servesTandem_refl site _ budget)
      (fun _ => ⟨rfl, rfl⟩) (.page List.mem_cons_self) ⟨.refl site base _, hadded.ahead⟩ data
  · rw [hnone, hnone']
  · rw [hrun, hrun']
    simp only [Option.map_some, hruns.result, hruns.journal]

/-- The result of rendering a page that compiles. -/
theorem result_of_compile {e e' : Engine} {name : String} {page : Template}
    (h : e.compile name = (.ok page, e')) (budget : Nat) (data : Value) :
    (e.render budget name data).map PageRun.result =
      (page.program.execute (e'.site.pageCall budget data) ⟨e'.cache, .empty, .empty⟩).map
        fun (rendered, _) =>
          rendered.mapError fun f => page.renderError f e'.site.config.isDev := by
  unfold render renderWithHost
  rw [h]
  dsimp only
  rcases page.program.execute (e'.site.pageCall budget data) ⟨e'.cache, .empty, .empty⟩ with
    _ | ⟨_ | _, _⟩ <;> rfl

end Engine

/-! ## Two cards of one name -/

namespace TwoCards

def config : Config := ⟨.production, ⟨"[", "]"⟩, "html", "", some "1", 5501⟩

/-- The source of a page that shows one card. -/
def showing (card : String) : String := "[@ " ++ card ++ "(\x7b\x7d)]"

/-- A home page that shows the first card, and a shop that shows a given one. -/
def engine (card : String) : Engine where
  site := ⟨config, [("home", showing "a/card"), ("shop", showing card), ("a/card", "<i/>"),
    ("b/card", "<b/>")], [], []⟩
  cache := []

def data : Value := .object (.given 0) []

def pageTemplate (name card : String) : Template where
  name := name
  source := showing card
  program := ⟨[.component card (.node (.object []) ⟨10, 12⟩) 1]⟩

def cardTemplate (tag : String) : Template where
  name := "card"
  source := "<" ++ tag ++ " element=\"[$ctxKey]\"/>"
  program := ⟨[.text ("<" ++ tag ++ " element=\""),
    .interpolate (.node .instanceKey ⟨13, 20⟩) true 1, .text "\"/>"]⟩

/-- The cache after the home page. -/
def homeCache : TemplateCache :=
  [("home", pageTemplate "home" "a/card"), ("@card", cardTemplate "i")]

theorem resolve_home :
    (engine "a/card").site.resolve [] (.page "home") = .ok (pageTemplate "home" "a/card") := by cbv

theorem resolve_shop :
    (engine "a/card").site.resolve [] (.page "shop") = .ok (pageTemplate "shop" "a/card") := by cbv

theorem resolve_card :
    (engine "a/card").site.resolve [] (.component "a/card") = .ok (cardTemplate "i") := by cbv

theorem after_home (card : String) : (engine card).after [.compile "home"] =
    some ⟨(engine card).site, homeCache⟩ := by
  have hcompile : (engine card).site.compile [] "home" =
      (.ok (pageTemplate "home" "a/card"), homeCache) := by cbv
  show some ((engine card).compile "home").2 = _
  unfold Engine.compile
  dsimp only [engine] at hcompile ⊢
  rw [hcompile]

/-- Either page asks for itself and for the card. -/
theorem asked {name : String}
    (hpage : (engine "a/card").site.resolve [] (.page name) = .ok (pageTemplate name "a/card"))
    {q : Request} (h : (engine "a/card").site.Asked [] [name] q) :
    q = .page name ∨ q = .component "a/card" := by
  induction h with
  | page hname => exact .inl (congrArg Request.page (List.mem_singleton.mp hname))
  | @component p t reference line _ ht hr ih =>
      rcases ih with rfl | rfl
      · obtain rfl := Except.ok.inj (hpage.symm.trans ht)
        obtain ⟨rfl, -⟩ := Prod.mk.inj (List.mem_singleton.mp hr)
        exact .inr rfl
      · obtain rfl := Except.ok.inj (resolve_card.symm.trans ht)
        nomatch hr

end TwoCards

namespace Engine

open TwoCards

/-- The shop is the same before and after the home page, which shows the same card. -/
theorem render_after_same_card : ∃ later,
    (engine "a/card").after [.compile "home"] = some later ∧
      (later.render 1 "shop" data).map (fun run => (run.result, run.journal)) =
        ((engine "a/card").render 1 "shop" data).map fun run => (run.result, run.journal) := by
  refine ⟨_, after_home "a/card", (render_after (after_home "a/card")).2.2 "shop" ?_ 1 data⟩
  intro p q hp hq _ hkey t ht
  rcases asked resolve_home hp with rfl | rfl <;> rcases asked resolve_shop hq with rfl | rfl
  · exact absurd hkey (by cbv)
  · exact absurd hkey (by cbv)
  · exact absurd hkey (by cbv)
  · exact ht

/-- A shop that shows another card of that name is rendered with the first one after the home
page. -/
theorem render_after_other_card :
    ((engine "b/card").render 1 "shop" data).map PageRun.result =
        some (.ok "<b element=\"card\"/>") ∧
      ∃ later, (engine "b/card").after [.compile "home"] = some later ∧
        (later.render 1 "shop" data).map PageRun.result =
          some (.ok "<i element=\"card\"/>") := by
  have hfirst : (engine "b/card").compile "shop" = (.ok (pageTemplate "shop" "b/card"),
      ⟨(engine "b/card").site, [("shop", pageTemplate "shop" "b/card"),
        ("@card", cardTemplate "b")]⟩) := by cbv
  have hlater : (Engine.mk (engine "b/card").site homeCache).compile "shop" =
      (.ok (pageTemplate "shop" "b/card"),
        ⟨(engine "b/card").site, homeCache ++ [("shop", pageTemplate "shop" "b/card")]⟩) := by cbv
  refine ⟨?_, _, after_home "b/card", ?_⟩
  · rw [result_of_compile hfirst]
    decide +kernel
  · rw [result_of_compile hlater]
    decide +kernel

end Engine

end LiveMarkup
