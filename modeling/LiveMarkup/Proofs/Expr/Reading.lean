import LiveMarkup.Proofs.Expr.Grammar
set_option autoImplicit false

/-! # What the readers of expressions do

The readers return, with what is left, the evidence that they took something. Here is what each of
them does without it: from the front of the tokens a phrase is read (`Reads`), or one that was read
before is continued (`Continues`). Each reader has one equivalence, a disjunction over its
branches. -/

namespace LiveMarkup

theorem bind_eq_ok {ε α β : Type} {x : Except ε α} {f : α → Except ε β} {b : β}
    (h : x >>= f = .ok b) : ∃ a, x = .ok a ∧ f a = .ok b := by
  cases x with
  | error e => cases h
  | ok a => exact ⟨a, rfl, h⟩

/-- The converse of `bind_eq_ok`, to put a reader together again. -/
theorem ok_bind {ε α β : Type} {x : Except ε α} {f : α → Except ε β} {a : α} (h : x = .ok a) :
    x >>= f = f a := by
  rw [h]
  rfl

theorem Token.isPunct_iff {t : Token} {p : Punct} : t.isPunct p = true ↔ t = .punct p := by
  cases t <;> simp [isPunct, eq_comm]

theorem Token.not_isPunct {t : Token} {p : Punct} (h : t ≠ .punct p) : ¬t.isPunct p = true :=
  mt isPunct_iff.mp h

/-- A phrase is read from the front of the tokens. -/
def Reads {ts : List Lexeme} {α : Type} (r : Except SyntaxError (Parsed ts α)) (v : α)
    (rest : List Lexeme) : Prop :=
  ∃ h, r = .ok ⟨v, rest, h⟩

/-- A phrase that has been read is continued. -/
def Continues {ts : List Lexeme} {α : Type} (r : Except SyntaxError (Continued ts α)) (v : α)
    (rest : List Lexeme) : Prop :=
  ∃ h, r = .ok ⟨v, rest, h⟩

section

variable {ts rest : List Lexeme} {α : Type} {v : α}

theorem Reads.shorter {r : Except SyntaxError (Parsed ts α)} (h : Reads r v rest) :
    rest.length < ts.length := h.1

theorem Reads.unique {r : Except SyntaxError (Parsed ts α)} {v' : α} {rest' : List Lexeme}
    (h : Reads r v rest) (h' : Reads r v' rest') : v = v' ∧ rest = rest' := by
  obtain ⟨_, rfl⟩ := h
  obtain ⟨_, heq⟩ := h'
  cases heq
  exact ⟨rfl, rfl⟩

theorem Continues.reads_bind {ts' : List Lexeme} {β : Type} (a : β) (ts₁ : List Lexeme)
    {r : Except SyntaxError (Continued ts' β)}
    {f : Continued ts' β → Except SyntaxError (Parsed ts α)} (hr : Continues r a ts₁)
    (hf : ∀ h, Reads (f ⟨a, ts₁, h⟩) v rest) : Reads (r >>= f) v rest := by
  obtain ⟨h, rfl⟩ := hr
  exact hf h

theorem reads_expect {site : Site} {p : Punct} {s : Span} : Reads (site.expect p ts) s rest ↔
    ∃ t, ts = t :: rest ∧ t.token = .punct p ∧ s = t.span := by
  constructor
  · rintro ⟨h, heq⟩
    cases ts with
    | nil => cases heq
    | cons t ts =>
        rw [Site.expect] at heq
        split at heq
        · cases heq
          exact ⟨t, rfl, Token.isPunct_iff.mp ‹_›, rfl⟩
        · cases heq
  · rintro ⟨t, rfl, ht, rfl⟩
    exact ⟨_, if_pos (Token.isPunct_iff.mpr ht)⟩

theorem Site.expectEnd_eq_ok_iff {site : Site} : site.expectEnd ts = .ok () ↔ ts = [] := by
  cases ts <;> simp [Site.expectEnd]

end

namespace Expr

variable {site : Site} {ts rest : List Lexeme} {e : Expr}

theorem reads_parse : Reads (parse site ts) e rest ↔
    ∃ c ts₁, Reads (parseBinary site .coalesce ts) c ts₁ ∧
      ((NoMark .question ts₁ ∧ e = c ∧ rest = ts₁) ∨
        ∃ q ts₂ a k ts₃ b, ts₁ = q :: ts₂ ∧ q.token = .punct .question ∧
          Reads (parse site ts₂) a (k :: ts₃) ∧ k.token = .punct .colon ∧
          Reads (parse site ts₃) b rest ∧
          e = node (.conditional c a b) (c.span.merge b.span)) := by
  rw [parse]
  constructor
  · rintro ⟨_, h⟩
    obtain ⟨⟨c, ts₁, _⟩, hc, h⟩ := bind_eq_ok h
    refine ⟨c, ts₁, ⟨_, hc⟩, ?_⟩
    cases ts₁ with
    | nil =>
        cases h
        exact .inl ⟨by simp [NoMark], rfl, rfl⟩
    | cons q ts₂ =>
        dsimp only at h
        split at h
        next hq =>
          obtain ⟨⟨a, ts₃, _⟩, ha, h⟩ := bind_eq_ok h
          obtain ⟨⟨s, ts₄, _⟩, hs, h⟩ := bind_eq_ok h
          obtain ⟨⟨b, ts₅, _⟩, hb, h⟩ := bind_eq_ok h
          obtain ⟨k, rfl, hk, -⟩ := reads_expect.mp ⟨_, hs⟩
          cases h
          exact .inr ⟨q, ts₂, a, k, ts₄, b, rfl, Token.isPunct_iff.mp hq, ⟨_, ha⟩, hk, ⟨_, hb⟩, rfl⟩
        next hq =>
          cases h
          exact .inl ⟨by simpa [NoMark, Token.isPunct_iff] using hq, rfl, rfl⟩
  · rintro ⟨c, ts₁, ⟨hlt, hc⟩, ⟨hno, rfl, rfl⟩ |
      ⟨q, ts₂, a, k, ts₃, b, rfl, hq, ⟨hlt', ha⟩, hk, ⟨_, hb⟩, rfl⟩⟩
    · cases rest with
      | nil => exact ⟨_, ok_bind hc⟩
      | cons q ts₂ =>
        refine ⟨_, (ok_bind hc).trans (if_neg ?_)⟩
        simpa [Token.isPunct_iff] using hno q rfl
    · obtain ⟨_, hs⟩ := reads_expect.mpr ⟨k, rfl, hk, rfl⟩
      refine ⟨?_, (ok_bind hc).trans ((if_pos (Token.isPunct_iff.mpr hq)).trans
        ((ok_bind ha).trans ((ok_bind hs).trans (ok_bind hb))))⟩
      simp only [List.length_cons] at hlt hlt'
      omega

theorem reads_parseBinary {level : Level} : Reads (parseBinary site level ts) e rest ↔
    ∃ left ts₁, Reads (parseOperand site level ts) left ts₁ ∧
      Continues (continueBinary site level left ts₁) e rest := by
  rw [parseBinary]
  constructor
  · rintro ⟨_, h⟩
    obtain ⟨⟨left, ts₁, _⟩, hleft, h⟩ := bind_eq_ok h
    obtain ⟨⟨whole, ts₂, _⟩, hwhole, h⟩ := bind_eq_ok h
    cases h
    exact ⟨left, ts₁, ⟨_, hleft⟩, _, hwhole⟩
  · rintro ⟨left, ts₁, ⟨_, hleft⟩, ⟨_, hwhole⟩⟩
    exact ⟨by omega, (ok_bind hleft).trans (ok_bind hwhole)⟩

theorem parseOperand_of_next {level tighter : Level} (h : level.next? = some tighter) :
    parseOperand site level ts = parseBinary site tighter ts := by
  cases level <;> cases h <;> rw [parseOperand]

theorem parseOperand_multiplicative :
    parseOperand site .multiplicative ts = parseUnary site ts := by
  rw [parseOperand]

theorem continues_continueBinary {level : Level} {left : Expr} :
    Continues (continueBinary site level left ts) e rest ↔
      ((∀ t ∈ ts.head?, level.op? t.token = none) ∧ e = left ∧ rest = ts) ∨
        ∃ t ts₁ op right ts₂, ts = t :: ts₁ ∧ level.op? t.token = some op ∧
          Reads (parseOperand site level ts₁) right ts₂ ∧
          Continues (continueBinary site level
            (node (.binary op left right) (left.span.merge right.span)) ts₂) e rest := by
  rw [continueBinary.eq_def]
  constructor
  · rintro ⟨_, h⟩
    cases ts with
    | nil =>
        cases h
        exact .inl ⟨by simp, rfl, rfl⟩
    | cons t ts₁ =>
        dsimp only at h
        split at h
        next hop =>
          cases h
          exact .inl ⟨by simpa using hop, rfl, rfl⟩
        next op hop =>
          obtain ⟨⟨right, ts₂, _⟩, hright, h⟩ := bind_eq_ok h
          obtain ⟨⟨whole, ts₃, _⟩, hwhole, h⟩ := bind_eq_ok h
          cases h
          exact .inr ⟨t, ts₁, op, right, ts₂, rfl, hop, ⟨_, hright⟩, _, hwhole⟩
  · rintro (⟨hno, rfl, rfl⟩ | ⟨t, ts₁, op, right, ts₂, rfl, hop, ⟨hlt, hright⟩, ⟨_, hwhole⟩⟩)
    · cases rest with
      | nil => exact ⟨_, rfl⟩
      | cons t ts₁ =>
          dsimp only
          rw [hno t rfl]
          exact ⟨_, rfl⟩
    · dsimp only
      rw [hop]
      exact ⟨by simp only [List.length_cons]; omega, (ok_bind hright).trans (ok_bind hwhole)⟩

theorem reads_parseUnary : Reads (parseUnary site ts) e rest ↔
    ((∀ t ∈ ts.head?, UnaryOp.ofToken? t.token = none) ∧ Reads (parsePostfix site ts) e rest) ∨
      ∃ t ts₁ op operand, ts = t :: ts₁ ∧ UnaryOp.ofToken? t.token = some op ∧
        Reads (parseUnary site ts₁) operand rest ∧
        e = node (.unary op operand) (t.span.merge operand.span) := by
  rw [parseUnary.eq_def]
  cases ts with
  | nil => simp
  | cons t ts₁ =>
      dsimp only
      constructor
      · rintro ⟨_, h⟩
        split at h
        next hop => exact .inl ⟨by simpa using hop, _, h⟩
        next op hop =>
          obtain ⟨⟨operand, ts₂, _⟩, hoperand, h⟩ := bind_eq_ok h
          cases h
          exact .inr ⟨t, ts₁, op, operand, rfl, hop, ⟨_, hoperand⟩, rfl⟩
      · rintro (⟨hno, h⟩ | ⟨_, _, op, operand, heq, hop, ⟨_, hoperand⟩, rfl⟩)
        · rw [hno t rfl]
          exact h
        · cases heq
          rw [hop]
          exact ⟨by simp only [List.length_cons]; omega, ok_bind hoperand⟩

theorem reads_parsePostfix : Reads (parsePostfix site ts) e rest ↔
    ∃ object ts₁, Reads (parsePrimary site ts) object ts₁ ∧
      Continues (continuePostfix site object ts₁) e rest := by
  rw [parsePostfix]
  constructor
  · rintro ⟨_, h⟩
    obtain ⟨⟨object, ts₁, _⟩, hobject, h⟩ := bind_eq_ok h
    obtain ⟨⟨whole, ts₂, _⟩, hwhole, h⟩ := bind_eq_ok h
    cases h
    exact ⟨object, ts₁, ⟨_, hobject⟩, _, hwhole⟩
  · rintro ⟨object, ts₁, ⟨_, hobject⟩, ⟨_, hwhole⟩⟩
    exact ⟨by omega, (ok_bind hobject).trans (ok_bind hwhole)⟩

theorem continues_continuePostfix {object : Expr} :
    Continues (continuePostfix site object ts) e rest ↔
      ((NoMark .dot ts ∧ NoMark .lbracket ts ∧ NoMark .lparen ts) ∧ e = object ∧ rest = ts) ∨
      (∃ d n ts₁ field, ts = d :: n :: ts₁ ∧ d.token = .punct .dot ∧
        memberName? n.token = some field ∧
        Continues (continuePostfix site
          (node (.member object field) (object.span.merge n.span)) ts₁) e rest) ∨
      (∃ l ts₁ index k ts₂, ts = l :: ts₁ ∧ l.token = .punct .lbracket ∧
        Reads (parse site ts₁) index (k :: ts₂) ∧ k.token = .punct .rbracket ∧
        Continues (continuePostfix site
          (node (.index object index) (object.span.merge k.span)) ts₂) e rest) ∨
      ∃ l ts₁ args stop ts₂, ts = l :: ts₁ ∧ l.token = .punct .lparen ∧
        Reads (parseItems site .rparen ts₁) (args, stop) ts₂ ∧
        Continues (continuePostfix site
          (node (.call object args) (object.span.merge stop)) ts₂) e rest := by
  rw [continuePostfix.eq_def]
  constructor
  · rintro ⟨_, h⟩
    cases ts with
    | nil =>
        cases h
        exact .inl ⟨by simp [NoMark], rfl, rfl⟩
    | cons t ts₁ =>
        dsimp only at h
        split at h
        next hdot =>
          cases ts₁ with
          | nil => cases h
          | cons n ts₂ =>
              dsimp only at h
              split at h
              next => cases h
              next field hname =>
                obtain ⟨⟨whole, ts₃, _⟩, hwhole, h⟩ := bind_eq_ok h
                cases h
                have ht := Token.isPunct_iff.mp hdot
                exact .inr (.inl ⟨t, n, ts₂, field, rfl, ht, hname, _, hwhole⟩)
        next hdot =>
          split at h
          next hbracket =>
            obtain ⟨⟨index, ts₂, _⟩, hindex, h⟩ := bind_eq_ok h
            obtain ⟨⟨stop, ts₃, _⟩, hstop, h⟩ := bind_eq_ok h
            obtain ⟨⟨whole, ts₄, _⟩, hwhole, h⟩ := bind_eq_ok h
            obtain ⟨k, rfl, hk, rfl⟩ := reads_expect.mp ⟨_, hstop⟩
            cases h
            exact .inr (.inr (.inl ⟨t, ts₁, index, k, ts₃, rfl, Token.isPunct_iff.mp hbracket,
              ⟨_, hindex⟩, hk, _, hwhole⟩))
          next hbracket =>
            split at h
            next hparen =>
              obtain ⟨⟨⟨args, stop⟩, ts₂, _⟩, hargs, h⟩ := bind_eq_ok h
              obtain ⟨⟨whole, ts₄, _⟩, hwhole, h⟩ := bind_eq_ok h
              cases h
              exact .inr (.inr (.inr ⟨t, ts₁, args, stop, ts₂, rfl, Token.isPunct_iff.mp hparen,
                ⟨_, hargs⟩, _, hwhole⟩))
            next hparen =>
              cases h
              rw [Token.isPunct_iff] at hdot hbracket hparen
              exact .inl ⟨by simp [NoMark, hdot, hbracket, hparen], rfl, rfl⟩
  · rintro (⟨⟨hdot, hbracket, hparen⟩, rfl, rfl⟩ |
      ⟨⟨_, s⟩, n, ts₁, field, rfl, rfl, hname, ⟨_, hwhole⟩⟩ |
      ⟨⟨_, s⟩, ts₁, index, k, ts₂, rfl, rfl, ⟨hlt, hindex⟩, hk, ⟨_, hwhole⟩⟩ |
      ⟨⟨_, s⟩, ts₁, args, stop, ts₂, rfl, rfl, ⟨hlt, hargs⟩, ⟨_, hwhole⟩⟩)
    · cases rest with
      | nil => exact ⟨_, rfl⟩
      | cons t ts₁ =>
          dsimp only
          rw [if_neg (Token.not_isPunct (hdot t rfl)),
            if_neg (Token.not_isPunct (hbracket t rfl)),
            if_neg (Token.not_isPunct (hparen t rfl))]
          exact ⟨_, rfl⟩
    · simp only [Token.isPunct, hname]
      exact ⟨by simp only [List.length_cons]; omega, ok_bind hwhole⟩
    · obtain ⟨_, hstop⟩ := reads_expect.mpr ⟨k, rfl, hk, rfl⟩
      refine ⟨?_, (ok_bind hindex).trans ((ok_bind hstop).trans (ok_bind hwhole))⟩
      simp only [List.length_cons] at *
      omega
    · exact ⟨by simp only [List.length_cons]; omega, (ok_bind hargs).trans (ok_bind hwhole)⟩

theorem reads_parsePrimary : Reads (parsePrimary site ts) e rest ↔
    ∃ t ts₁, ts = t :: ts₁ ∧
      ((∃ kind, atom? t.token = some kind ∧ e = node kind t.span ∧ rest = ts₁) ∨
      (t.token = .punct .lparen ∧ ∃ inner k, Reads (parse site ts₁) inner (k :: rest) ∧
        k.token = .punct .rparen ∧ e = node inner.kind (t.span.merge k.span)) ∨
      (t.token = .punct .lbracket ∧ ∃ items stop,
        Reads (parseItems site .rbracket ts₁) (items, stop) rest ∧
        e = node (.array items) (t.span.merge stop)) ∨
      (t.token = .punct .lbrace ∧ ∃ entries stop,
        Reads (parseEntries site ts₁) (entries, stop) rest ∧
        e = node (.object entries) (t.span.merge stop))) := by
  rw [parsePrimary.eq_def]
  constructor
  · rintro ⟨_, h⟩
    cases ts with
    | nil => cases h
    | cons t ts₁ =>
        refine ⟨t, ts₁, rfl, ?_⟩
        dsimp only at h
        split at h
        next kind hatom =>
          cases h
          exact .inl ⟨kind, hatom, rfl, rfl⟩
        next =>
          split at h
          next hparen =>
            obtain ⟨⟨inner, ts₂, _⟩, hinner, h⟩ := bind_eq_ok h
            obtain ⟨⟨stop, ts₃, _⟩, hstop, h⟩ := bind_eq_ok h
            obtain ⟨k, rfl, hk, rfl⟩ := reads_expect.mp ⟨_, hstop⟩
            cases h
            exact .inr (.inl ⟨Token.isPunct_iff.mp hparen, inner, k, ⟨_, hinner⟩, hk, rfl⟩)
          next =>
            split at h
            next hbracket =>
              obtain ⟨⟨⟨items, stop⟩, ts₂, _⟩, hitems, h⟩ := bind_eq_ok h
              cases h
              have ht := Token.isPunct_iff.mp hbracket
              exact .inr (.inr (.inl ⟨ht, items, stop, ⟨_, hitems⟩, rfl⟩))
            next =>
              split at h
              next hbrace =>
                obtain ⟨⟨⟨entries, stop⟩, ts₂, _⟩, hentries, h⟩ := bind_eq_ok h
                cases h
                exact .inr (.inr (.inr
                  ⟨Token.isPunct_iff.mp hbrace, entries, stop, ⟨_, hentries⟩, rfl⟩))
              next => cases h
  · rintro ⟨⟨token, s⟩, ts₁, rfl, ⟨kind, hatom, rfl, rfl⟩ |
      ⟨rfl, inner, k, ⟨hlt, hinner⟩, hk, rfl⟩ | ⟨rfl, items, stop, ⟨_, hitems⟩, rfl⟩ |
      ⟨rfl, entries, stop, ⟨_, hentries⟩, rfl⟩⟩
    · dsimp only at hatom ⊢
      rw [hatom]
      exact ⟨_, rfl⟩
    · obtain ⟨_, hstop⟩ := reads_expect.mpr ⟨k, rfl, hk, rfl⟩
      refine ⟨?_, (ok_bind hinner).trans (ok_bind hstop)⟩
      simp only [List.length_cons] at *
      omega
    · exact ⟨by simp only [List.length_cons]; omega, ok_bind hitems⟩
    · exact ⟨by simp only [List.length_cons]; omega, ok_bind hentries⟩

/-- A comma ends an item, so it cannot end the list. -/
theorem reads_parseItems {close : Punct} (hclose : close ≠ .comma) {items : List Expr}
    {stop : Span} :
    Reads (parseItems site close ts) (items, stop) rest ↔
      (∃ k, ts = k :: rest ∧ k.token = .punct close ∧ items = [] ∧ stop = k.span) ∨
      (NoMark close ts ∧ ∃ item k ts₁, Reads (parse site ts) item (k :: ts₁) ∧
        ((k.token = .punct close ∧ items = [item] ∧ stop = k.span ∧ rest = ts₁) ∨
          (k.token = .punct .comma ∧ ∃ more, Reads (parseItems site close ts₁) (more, stop) rest ∧
            items = item :: more))) := by
  rw [parseItems.eq_def]
  cases ts with
  | nil =>
      constructor
      · rintro ⟨_, h⟩
        cases h
      · rintro (⟨k, h, -⟩ | ⟨-, item, k, ts₁, ⟨hlt, -⟩, -⟩)
        · cases h
        · simp at hlt
  | cons t ts₀ =>
      dsimp only
      constructor
      · rintro ⟨_, h⟩
        split at h
        next ht =>
          cases h
          exact .inl ⟨t, rfl, Token.isPunct_iff.mp ht, rfl, rfl⟩
        next ht =>
          refine .inr ⟨by simpa [NoMark, Token.isPunct_iff] using ht, ?_⟩
          obtain ⟨⟨item, ts₁, _⟩, hitem, h⟩ := bind_eq_ok h
          cases ts₁ with
          | nil => cases h
          | cons k ts₁ =>
              refine ⟨item, k, ts₁, ⟨_, hitem⟩, ?_⟩
              dsimp only at h
              split at h
              next hcomma =>
                obtain ⟨⟨⟨more, stop'⟩, ts₂, _⟩, hmore, h⟩ := bind_eq_ok h
                cases h
                exact .inr ⟨Token.isPunct_iff.mp hcomma, more, ⟨_, hmore⟩, rfl⟩
              next =>
                obtain ⟨⟨stop', ts₂, _⟩, hstop, h⟩ := bind_eq_ok h
                obtain ⟨k, hk, htoken, rfl⟩ := reads_expect.mp ⟨_, hstop⟩
                cases hk
                cases h
                exact .inl ⟨htoken, rfl, rfl, rfl⟩
      · rintro (⟨k, heq, hk, rfl, rfl⟩ | ⟨hno, item, k, ts₁, ⟨hlt, hitem⟩, h⟩)
        · cases heq
          rw [if_pos (Token.isPunct_iff.mpr hk)]
          exact ⟨_, rfl⟩
        · rw [if_neg (Token.not_isPunct (hno t rfl)), ok_bind hitem]
          dsimp only
          rcases h with ⟨hk, rfl, rfl, rfl⟩ | ⟨hk, more, ⟨_, hmore⟩, rfl⟩
          · obtain ⟨_, hstop⟩ := reads_expect.mpr ⟨k, rfl, hk, rfl⟩
            rw [if_neg (by simpa [Token.isPunct_iff, hk] using hclose)]
            refine ⟨?_, ok_bind hstop⟩
            simp only [List.length_cons] at hlt ⊢
            omega
          · rw [if_pos (Token.isPunct_iff.mpr hk)]
            refine ⟨?_, ok_bind hmore⟩
            simp only [List.length_cons] at hlt ⊢
            omega

theorem continues_continueEntry {key : String} {short : Bool} {span : Span} {value : Expr} :
    Continues (continueEntry site key short span ts) value rest ↔
      (∃ k ts₁, ts = k :: ts₁ ∧ k.token = .punct .colon ∧ Reads (parse site ts₁) value rest) ∨
      (short = true ∧ NoMark .colon ts ∧ value = node (ofName key) span ∧ rest = ts) := by
  rw [continueEntry.eq_def]
  cases ts with
  | nil =>
      constructor
      · rintro ⟨_, h⟩
        dsimp only at h
        split at h
        next hshort =>
          cases h
          exact .inr ⟨hshort, by simp [NoMark], rfl, rfl⟩
        next => cases h
      · rintro (⟨k, ts₁, h, -⟩ | ⟨rfl, -, rfl, rfl⟩)
        · cases h
        · exact ⟨_, rfl⟩
  | cons c ts₁ =>
      constructor
      · rintro ⟨_, h⟩
        dsimp only at h
        split at h
        next hc =>
          obtain ⟨⟨value', ts₂, _⟩, hvalue, h⟩ := bind_eq_ok h
          cases h
          exact .inl ⟨c, ts₁, rfl, Token.isPunct_iff.mp hc, _, hvalue⟩
        next hc =>
          split at h
          next hshort =>
            cases h
            exact .inr ⟨hshort, by simpa [NoMark, Token.isPunct_iff] using hc, rfl, rfl⟩
          next => cases h
      · rintro (⟨_, _, heq, hc, hlt, hvalue⟩ | ⟨rfl, hno, rfl, rfl⟩)
        · cases heq
          refine ⟨?_, (if_pos (Token.isPunct_iff.mpr hc)).trans (ok_bind hvalue)⟩
          exact Nat.le_succ_of_le (Nat.le_of_lt hlt)
        · exact ⟨_, (if_neg (Token.not_isPunct (hno c rfl))).trans (if_pos rfl)⟩

/-- One entry of an object literal is read: a key, and what follows it. -/
def ReadsEntry (site : Site) (ts : List Lexeme) (key : String) (value : Expr)
    (rest : List Lexeme) : Prop :=
  ∃ t ts₁ short, ts = t :: ts₁ ∧ objectKey? t.token = some (key, short) ∧
    Continues (continueEntry site key short t.span ts₁) value rest

theorem ReadsEntry.shorter {key : String} {value : Expr} (h : ReadsEntry site ts key value rest) :
    rest.length < ts.length := by
  obtain ⟨t, ts₁, short, rfl, -, hle, -⟩ := h
  exact Nat.lt_succ_of_le hle

theorem reads_parseEntries {entries : List (String × Expr)} {stop : Span} :
    Reads (parseEntries site ts) (entries, stop) rest ↔
      (∃ k, ts = k :: rest ∧ k.token = .punct .rbrace ∧ entries = [] ∧ stop = k.span) ∨
      ∃ key value k ts₁, ReadsEntry site ts key value (k :: ts₁) ∧
        ((k.token = .punct .rbrace ∧ entries = [(key, value)] ∧ stop = k.span ∧ rest = ts₁) ∨
          (k.token = .punct .comma ∧ ∃ more, Reads (parseEntries site ts₁) (more, stop) rest ∧
            entries = (key, value) :: more)) := by
  rw [parseEntries.eq_def]
  constructor
  · rintro ⟨_, h⟩
    cases ts with
    | nil => cases h
    | cons t ts₀ =>
        dsimp only at h
        split at h
        next ht =>
          cases h
          exact .inl ⟨t, rfl, Token.isPunct_iff.mp ht, rfl, rfl⟩
        next ht =>
          split at h
          next => cases h
          next key short hkey =>
            obtain ⟨⟨value, ts₁, hle⟩, hvalue, h⟩ := bind_eq_ok h
            cases ts₁ with
            | nil => cases h
            | cons k ts₁ =>
                refine .inr ⟨key, value, k, ts₁, ⟨t, ts₀, short, rfl, hkey, hle, hvalue⟩, ?_⟩
                dsimp only at h
                split at h
                next hcomma =>
                  obtain ⟨⟨⟨more, stop'⟩, ts₂, _⟩, hmore, h⟩ := bind_eq_ok h
                  cases h
                  exact .inr ⟨Token.isPunct_iff.mp hcomma, more, ⟨_, hmore⟩, rfl⟩
                next =>
                  obtain ⟨⟨stop', ts₂, _⟩, hstop, h⟩ := bind_eq_ok h
                  obtain ⟨k, hk, htoken, rfl⟩ := reads_expect.mp ⟨_, hstop⟩
                  cases hk
                  cases h
                  exact .inl ⟨htoken, rfl, rfl, rfl⟩
  · rintro (⟨k, rfl, hk, rfl, rfl⟩ |
      ⟨key, value, k, ts₁, ⟨t, ts₀, short, rfl, hkey, hle, hvalue⟩, h⟩)
    · dsimp only
      rw [if_pos (Token.isPunct_iff.mpr hk)]
      exact ⟨_, rfl⟩
    · -- a mark is no key, so the list does not end here
      have ht : t.token ≠ .punct .rbrace := by
        intro ht
        rw [ht] at hkey
        cases hkey
      dsimp only
      rw [if_neg (Token.not_isPunct ht), hkey]
      dsimp only
      refine Continues.reads_bind value (k :: ts₁) ⟨hle, hvalue⟩ fun _ => ?_
      dsimp only
      rcases h with ⟨hk, rfl, rfl, rfl⟩ | ⟨hk, more, ⟨hlt, hmore⟩, rfl⟩
      · obtain ⟨_, hstop⟩ := reads_expect.mpr ⟨k, rfl, hk, rfl⟩
        rw [if_neg (by simp [Token.isPunct, hk])]
        refine ⟨?_, ok_bind hstop⟩
        simp only [List.length_cons] at hle ⊢
        omega
      · rw [if_pos (Token.isPunct_iff.mpr hk)]
        refine ⟨?_, ok_bind hmore⟩
        simp only [List.length_cons] at hle ⊢
        omega

end Expr

end LiveMarkup
