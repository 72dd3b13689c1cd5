import LoopLanguage.Proofs.Sentence

/-!
The parser by descent reads exactly the sentences of the grammar. Its state is looked at through
the tokens that are pending: those looked ahead at, then the one pushed back, then those still to
be scanned. Every step either takes tokens off the front of them or leaves them as they are.
-/

namespace LoopLanguage

namespace Parser

/-- The tokens still to be read, up to the end token or the first lexical error. -/
def pending (p : Parser) : List Token := p.ahead ++ p.lexer.tokens.1

/-- The lexical error behind the pending tokens. -/
def fault (p : Parser) : Option Error := p.lexer.tokens.2.1

/-- While tokens are looked ahead at, none is pushed back. -/
def Steady (p : Parser) : Prop := p.ahead ≠ [] → p.lexer.pushed = none

theorem steady_of_ahead_nil {p : Parser} (h : p.ahead = []) : p.Steady := fun hne => absurd h hne

/-- Reading the tokens `ts` leads from `p` to `q`, which has that registry. -/
structure Advance (p : Parser) (ts : List Token) (registry : Registry) (q : Parser) : Prop where
  pending : p.pending = ts ++ q.pending
  fault : q.fault = p.fault
  registry : q.registry = registry
  terminator : q.terminator = p.terminator
  done : q.done = p.done
  ahead : q.ahead = p.ahead.drop ts.length
  steady : q.Steady

namespace Advance

variable {p q r : Parser} {ts us : List Token} {registry other : Registry}

theorem refl (hp : p.Steady) : Advance p [] p.registry p where
  pending := rfl
  fault := rfl
  registry := rfl
  terminator := rfl
  done := rfl
  ahead := rfl
  steady := hp

theorem trans (h : Advance p ts registry q) (h' : Advance q us other r) :
    Advance p (ts ++ us) other r where
  pending := by rw [h.pending, h'.pending, List.append_assoc]
  fault := h'.fault.trans h.fault
  registry := h'.registry
  terminator := h'.terminator.trans h.terminator
  done := h'.done.trans h.done
  ahead := by rw [h'.ahead, h.ahead, List.drop_drop, List.length_append]
  steady := h'.steady

theorem ahead_nil (h : Advance p ts registry q) (hp : p.ahead.length ≤ ts.length) :
    q.ahead = [] := by
  rw [h.ahead, List.drop_eq_nil_iff]
  exact hp

end Advance

/-- A token that was looked at is taken; where there is none the lexer is asked. -/
theorem nextToken_cases {p q : Parser} {r : Except Error Token} (h : nextToken p = (r, q)) :
    (∃ t ahead, p.ahead = t :: ahead ∧ r = .ok t ∧ q = { p with ahead }) ∨
      (p.ahead = [] ∧ ∃ lexer, Lexer.next p.lexer = (r, lexer) ∧ q = { p with lexer }) := by
  unfold nextToken at h
  split at h
  · next t ahead hahead =>
    cases h
    exact .inl ⟨t, ahead, hahead, rfl, rfl⟩
  · next hahead =>
    unfold onLexer Action.onPart at h
    cases hnext : Lexer.next p.lexer with
    | mk r' lexer =>
      rw [hnext] at h
      cases h
      exact .inr ⟨hahead, lexer, rfl, rfl⟩

/-- What a token that was read says about the pending tokens. -/
theorem nextToken_ok {p q : Parser} {t : Token} (hp : p.Steady)
    (h : nextToken p = (.ok t, q)) (ht : t.kind ≠ .eof) : Advance p [t] p.registry q := by
  obtain ⟨_, rest, hahead, hr, rfl⟩ | ⟨hahead, after, hn, rfl⟩ := nextToken_cases h
  · cases hr
    exact {
      pending := by simp [Parser.pending, hahead]
      fault := rfl
      registry := rfl
      terminator := rfl
      done := rfl
      ahead := by simp [hahead]
      steady := fun _ => hp (by simp [hahead]) }
  · have htokens := Lexer.tokens_of_ok hn ht
    exact {
      pending := by simp [Parser.pending, hahead, htokens]
      fault := by simp [Parser.fault, htokens]
      registry := rfl
      terminator := rfl
      done := rfl
      ahead := by simp [hahead]
      steady := steady_of_ahead_nil hahead }

/-- After a token was read none is pushed back. -/
theorem nextToken_pushed {p q : Parser} {t : Token} (hp : p.Steady)
    (h : nextToken p = (.ok t, q)) : q.lexer.pushed = none := by
  obtain ⟨_, _, hahead, _, rfl⟩ | ⟨_, _, hn, rfl⟩ := nextToken_cases h
  · exact hp (by simp [hahead])
  · exact Lexer.next_pushed hn

/-- The end token is the last one that is pending. -/
theorem nextToken_eof {p q : Parser} {t : Token} (hp : p.ahead = [])
    (h : nextToken p = (.ok t, q)) (ht : t.kind = .eof) :
    p.pending = [t] ∧ p.fault = none ∧ q = { p with lexer := q.lexer } := by
  obtain ⟨_, _, hahead, _⟩ | ⟨_, _, hn, rfl⟩ := nextToken_cases h
  · rw [hp] at hahead
    cases hahead
  · have htokens := Lexer.tokens_of_eof hn ht
    exact ⟨by simp [pending, hp, htokens], by simp [fault, htokens], rfl⟩

/-- A pending token can be read. -/
theorem nextToken_of_pending {p : Parser} {t : Token} {ts : List Token}
    (h : p.pending = t :: ts) : ∃ q, nextToken p = (.ok t, q) := by
  unfold nextToken
  split
  · next token rest hahead =>
    simp only [pending, hahead, List.cons_append, List.cons.injEq] at h
    exact ⟨_, by rw [h.1]⟩
  · next hahead =>
    simp only [pending, hahead, List.nil_append] at h
    unfold onLexer Action.onPart
    cases hn : Lexer.next p.lexer with
    | mk r after =>
      cases r with
      | error e => simp [Lexer.tokens_of_error hn] at h
      | ok u =>
        have hu : u = t := by
          by_cases hk : u.kind = .eof
          · simp [Lexer.tokens_of_eof hn hk] at h
            exact h.1
          · simp [Lexer.tokens_of_ok hn hk] at h
            exact h.1
        exact ⟨_, by rw [hu]⟩

theorem nextToken_ahead_nil {p q : Parser} {t : Token} (hp : p.ahead = [])
    (h : nextToken p = (.ok t, q)) : q.ahead = [] := by
  by_cases ht : t.kind = .eof
  · obtain ⟨_, _, hq⟩ := nextToken_eof hp h ht
    rw [hq]
    exact hp
  · exact (nextToken_ok (steady_of_ahead_nil hp) h ht).ahead_nil (by simp [hp])

/-- A token that was read can be pushed back, and then all is pending that was pending before. -/
theorem pushBack_of_nextToken {p q : Parser} {t : Token} (hp : p.ahead = [])
    (h : nextToken p = (.ok t, q)) :
    ∃ r, pushBack t q = (.ok (), r) ∧ Advance p [] p.registry r ∧ ∃ us, r.pending = t :: us := by
  have hpushed := nextToken_pushed (steady_of_ahead_nil hp) h
  have hahead := nextToken_ahead_nil hp h
  let r : Parser := { q with lexer := { q.lexer with pushed := some t } }
  have hback : pushBack t q = (.ok (), r) := by
    simp [pushBack, hahead, onLexer, Action.onPart, Lexer.pushBack, hpushed, r]
  have hnext : Lexer.next r.lexer = (.ok t, q.lexer) := by
    rw [Lexer.next_of_pushed rfl, ← hpushed]
  have hr : r.ahead = [] := hahead
  refine ⟨r, hback, ?_⟩
  by_cases ht : t.kind = .eof
  · obtain ⟨hpending, hfault, hq⟩ := nextToken_eof hp h ht
    have htokens := Lexer.tokens_of_eof hnext ht
    have hrpending : r.pending = [t] := by simp [Parser.pending, hr, htokens]
    have hrfault : r.fault = none := by simp [Parser.fault, htokens]
    have hregistry : q.registry = p.registry := by rw [hq]
    have hterminator : q.terminator = p.terminator := by rw [hq]
    have hdone : q.done = p.done := by rw [hq]
    exact ⟨{
      pending := by rw [hpending, hrpending, List.nil_append]
      fault := hrfault.trans hfault.symm
      registry := hregistry
      terminator := hterminator
      done := hdone
      ahead := by rw [hr, hp]; rfl
      steady := steady_of_ahead_nil hr }, [], hrpending⟩
  · have hadvance := nextToken_ok (steady_of_ahead_nil hp) h ht
    have htokens := Lexer.tokens_of_ok hnext ht
    have hrpending : r.pending = t :: q.pending := by
      simp [Parser.pending, hr, hahead, htokens]
    have hrfault : r.fault = q.fault := by simp [Parser.fault, htokens]
    exact ⟨{
      pending := by rw [hadvance.pending, hrpending]; rfl
      fault := hrfault.trans hadvance.fault
      registry := hadvance.registry
      terminator := hadvance.terminator
      done := hadvance.done
      ahead := by rw [hr, hp]; rfl
      steady := steady_of_ahead_nil hr }, q.pending, hrpending⟩

theorem expectOneOf_ok {kinds : List Kind} {context : String} {p q : Parser} {t : Token}
    (hp : p.Steady) (h : expectOneOf kinds context p = (.ok t, q)) (hkinds : .eof ∉ kinds) :
    t.kind ∈ kinds ∧ Advance p [t] p.registry q := by
  obtain ⟨u, r, hnext, hrest⟩ := Action.bind_eq_ok_iff.mp h
  split at hrest
  · next hmem =>
    cases hrest
    have hkind : t.kind ∈ kinds := List.contains_iff_mem.mp hmem
    refine ⟨hkind, nextToken_ok hp hnext ?_⟩
    rintro heof
    exact hkinds (heof ▸ hkind)
  · cases hrest

theorem expect_ok {kind : Kind} {context : String} {p q : Parser} {t : Token} (hp : p.Steady)
    (h : expect kind context p = (.ok t, q)) (hkind : kind ≠ .eof) :
    t.kind = kind ∧ Advance p [t] p.registry q := by
  obtain ⟨hmem, hadvance⟩ := expectOneOf_ok hp h (by simpa using hkind.symm)
  exact ⟨by simpa using hmem, hadvance⟩

/-- What the end of a statement takes: a semicolon, or nothing before a token that can stand after a
statement. -/
def Separated (sep : List Token) (q : Parser) : Prop :=
  q.ahead = [] ∧
    ((∃ t, sep = [t] ∧ t.kind = .semicolon) ∨ (sep = [] ∧ ∃ t us, q.pending = t :: us ∧ t.Ends))

theorem endStatement_ok {context : String} {p q : Parser} (hp : p.ahead = [])
    (h : endStatement context p = (.ok (), q)) :
    ∃ sep, Advance p sep p.registry q ∧ Separated sep q := by
  obtain ⟨t, r, hnext, hrest⟩ := Action.bind_eq_ok_iff.mp h
  split at hrest
  · next hsemi =>
    cases hrest
    have hadvance := nextToken_ok (steady_of_ahead_nil hp) hnext (by simp [hsemi])
    exact ⟨[t], hadvance, nextToken_ahead_nil hp hnext, .inl ⟨t, rfl, hsemi⟩⟩
  · next hsemi =>
    split at hrest
    · next hends =>
      obtain ⟨r', hback, hadvance, us, hpending⟩ := pushBack_of_nextToken hp hnext
      rw [hback] at hrest
      cases hrest
      refine ⟨[], hadvance, hadvance.ahead_nil (by simp [hp]), .inr ⟨rfl, t, us, hpending, ?_⟩⟩
      simp only [Bool.or_eq_true, decide_eq_true_eq] at hends
      rcases hends with (hline | hend) | heof
      · exact .inr (.inl hline)
      · exact .inr (.inr (.inl hend))
      · exact .inr (.inr (.inr heof))
    · cases hrest

theorem namesFrom_ok {context : String} {count : Nat} {token : Token} {p q : Parser}
    {names : List Atom} (hp : p.Steady) (htoken : token.kind = .identifier)
    (h : namesFrom context count token p = (.ok names, q)) :
    ∃ ts, Names (token :: ts) names ∧ Advance p ts p.registry q := by
  induction count generalizing token p names with
  | zero => cases h
  | succ count ih =>
    obtain ⟨sep, r, hnext, hrest⟩ := Action.bind_eq_ok_iff.mp h
    split at hrest
    · next hcomma =>
      have hsep := nextToken_ok hp hnext (by simp [hcomma])
      obtain ⟨name, r', hname, hmore⟩ := Action.bind_eq_ok_iff.mp hrest
      obtain ⟨hkind, hadvance⟩ := expect_ok hsep.steady hname (by simp)
      obtain ⟨more, r'', hnames, hdone⟩ := Action.bind_eq_ok_iff.mp hmore
      cases hdone
      obtain ⟨ts, hts, hlast⟩ := ih hadvance.steady hkind hnames
      refine ⟨sep :: name :: ts, .more htoken hcomma hts, ?_⟩
      rw [hadvance.registry, hsep.registry] at hlast
      exact (hsep.trans hadvance).trans hlast
    · split at hrest
      · next hclose =>
        cases hrest
        exact ⟨[sep], .last htoken hclose, nextToken_ok hp hnext (by simp [hclose])⟩
      · cases hrest

theorem nameList_ok {context : String} {p q : Parser} {names : List Atom} (hp : p.Steady)
    (h : nameList context p = (.ok names, q)) :
    ∃ ts, NameList ts names ∧ Advance p ts p.registry q := by
  obtain ⟨token, r, hfirst, hrest⟩ := Action.bind_eq_ok_iff.mp h
  obtain ⟨hkind, hadvance⟩ := expectOneOf_ok hp hfirst (by simp)
  split at hrest
  · next hclose =>
    cases hrest
    exact ⟨[token], .none hclose, hadvance⟩
  · next hclose =>
    have hname : token.kind = .identifier := by simpa [hclose] using hkind
    obtain ⟨ts, hts, hlast⟩ := namesFrom_ok hadvance.steady hname hrest
    rw [hadvance.registry] at hlast
    exact ⟨token :: ts, .some hts, hadvance.trans hlast⟩

theorem itemsFrom_ok {kinds : List Kind} (hkinds : .eof ∉ kinds) {count : Nat} {p q : Parser}
    {items : List Token} (hp : p.ahead = []) (h : itemsFrom kinds count p = (.ok items, q)) :
    ∃ ts, Items kinds ts items ∧ Advance p ts p.registry q := by
  induction count generalizing p items with
  | zero => cases h
  | succ count ih =>
    obtain ⟨sep, r, hnext, hrest⟩ := Action.bind_eq_ok_iff.mp h
    split at hrest
    · obtain ⟨r', hback, hadvance, _⟩ := pushBack_of_nextToken hp hnext
      rw [Action.bind_ok hback] at hrest
      cases hrest
      exact ⟨[], .done, hadvance⟩
    · next hsep =>
      simp only [ne_eq, decide_not, Bool.or_eq_true, Bool.not_eq_true', decide_eq_false_iff_not,
        not_or, Decidable.not_not, Bool.not_eq_true] at hsep
      obtain ⟨hcomma, hline⟩ := hsep
      have hadvance := nextToken_ok (steady_of_ahead_nil hp) hnext (by simp [hcomma])
      have hahead := nextToken_ahead_nil hp hnext
      obtain ⟨item, r', hitem, hmore⟩ := Action.bind_eq_ok_iff.mp hrest
      split at hmore
      · obtain ⟨r'', hback, hstay, _⟩ := pushBack_of_nextToken hahead hitem
        rw [Action.bind_ok hback] at hmore
        cases hmore
        rw [hadvance.registry] at hstay
        exact ⟨[sep], .trailing hcomma hline, hadvance.trans hstay⟩
      · next hkind =>
        simp only [Bool.or_eq_true, Bool.not_eq_true', not_or, Bool.not_eq_true,
          Bool.not_eq_false, List.contains_iff_mem] at hkind
        obtain ⟨hmem, hitemLine⟩ := hkind
        have hne : item.kind ≠ .eof := fun heof => hkinds (heof ▸ hmem)
        have hread := nextToken_ok (steady_of_ahead_nil hahead) hitem hne
        obtain ⟨more, r'', hitems, hdone⟩ := Action.bind_eq_ok_iff.mp hmore
        cases hdone
        obtain ⟨ts, hts, hlast⟩ := ih (nextToken_ahead_nil hahead hitem) hitems
        rw [hread.registry, hadvance.registry] at hlast
        exact ⟨sep :: item :: ts, .more hcomma hline hmem hitemLine hts,
          (hadvance.trans hread).trans hlast⟩

theorem itemList_ok {kinds : List Kind} (hkinds : .eof ∉ kinds) {context : String} {p q : Parser}
    {items : List Token} (hp : p.ahead = []) (h : itemList kinds context p = (.ok items, q)) :
    ∃ ts, ItemList kinds ts items ∧ Advance p ts p.registry q := by
  obtain ⟨first, r, hfirst, hrest⟩ := Action.bind_eq_ok_iff.mp h
  obtain ⟨hkind, hadvance⟩ := expectOneOf_ok (steady_of_ahead_nil hp) hfirst hkinds
  rw [Action.get_bind] at hrest
  obtain ⟨more, r', hmore, hdone⟩ := Action.bind_eq_ok_iff.mp hrest
  cases hdone
  obtain ⟨ts, hts, hlast⟩ := itemsFrom_ok hkinds (hadvance.ahead_nil (by simp [hp])) hmore
  rw [hadvance.registry] at hlast
  exact ⟨first :: ts, .mk hkind hts, hadvance.trans hlast⟩

namespace Advance

/-! A reader is followed step by step: what was read so far, and what is left of the reader. -/

variable {p q r : Parser} {ts : List Token} {registry : Registry} {context : String} {α : Type}
  {b : α}

theorem note (h : Advance p ts registry r) {draft : Draft} {f : Unit → Action Parser α}
    (hrun : (Parser.note draft >>= f) r = (.ok b, q)) :
    ∃ r', Advance p ts registry r' ∧ f () r' = (.ok b, q) :=
  ⟨{ r with draft }, { h with }, hrun⟩

theorem expect (h : Advance p ts registry r) {kind : Kind} (hkind : kind ≠ .eof)
    {f : Token → Action Parser α} (hrun : (Parser.expect kind context >>= f) r = (.ok b, q)) :
    ∃ t r', t.kind = kind ∧ Advance p (ts ++ [t]) registry r' ∧ f t r' = (.ok b, q) := by
  obtain ⟨t, r', hexpect, hrest⟩ := Action.bind_eq_ok_iff.mp hrun
  obtain ⟨ht, hadvance⟩ := expect_ok h.steady hexpect hkind
  rw [h.registry] at hadvance
  exact ⟨t, r', ht, h.trans hadvance, hrest⟩

theorem nameList (h : Advance p ts registry r) {f : List Atom → Action Parser α}
    (hrun : (Parser.nameList context >>= f) r = (.ok b, q)) :
    ∃ us names r', NameList us names ∧ Advance p (ts ++ us) registry r' ∧
      f names r' = (.ok b, q) := by
  obtain ⟨names, r', hnames, hrest⟩ := Action.bind_eq_ok_iff.mp hrun
  obtain ⟨us, hus, hadvance⟩ := nameList_ok h.steady hnames
  rw [h.registry] at hadvance
  exact ⟨us, names, r', hus, h.trans hadvance, hrest⟩

theorem itemList (h : Advance p ts registry r) (hr : r.ahead = []) {kinds : List Kind}
    (hkinds : .eof ∉ kinds) {f : List Token → Action Parser α}
    (hrun : (Parser.itemList kinds context >>= f) r = (.ok b, q)) :
    ∃ us items r', ItemList kinds us items ∧ Advance p (ts ++ us) registry r' ∧
      f items r' = (.ok b, q) := by
  obtain ⟨items, r', hitems, hrest⟩ := Action.bind_eq_ok_iff.mp hrun
  obtain ⟨us, hus, hadvance⟩ := itemList_ok hkinds hr hitems
  rw [h.registry] at hadvance
  exact ⟨us, items, r', hus, h.trans hadvance, hrest⟩

theorem endStatement (h : Advance p ts registry r) (hr : r.ahead = []) {s : α}
    (hrun : (Parser.endStatement context >>= fun _ => pure s) r = (.ok b, q)) :
    ∃ sep, Separated sep q ∧ Advance p (ts ++ sep) registry q ∧ b = s := by
  obtain ⟨_, r', hend, hrest⟩ := Action.bind_eq_ok_iff.mp hrun
  obtain ⟨sep, hadvance, hsep⟩ := endStatement_ok hr hend
  cases hrest
  rw [h.registry] at hadvance
  exact ⟨sep, hsep, h.trans hadvance, rfl⟩

end Advance

/-- Between `p` and `q` a sentence for `s` and its separator were read, and `s` was enrolled. -/
def Reads (p : Parser) (s : Statement) (q : Parser) : Prop :=
  ∃ ts inner sep registry, Sentence ts inner s ∧ s.enroll p.registry = some registry ∧
    Separated sep q ∧ Advance p (ts ++ sep) registry q

theorem readAssign_ok {p q : Parser} {s : Statement} (hp : p.Steady) (hahead : p.ahead.length ≤ 3)
    (h : readAssign p = (.ok s, q)) : Reads p s q := by
  obtain ⟨target, r₁, htarget, h₁, hrest₁⟩ := (Advance.refl hp).expect (by simp) h
  obtain ⟨r₂, h₂, hrest₂⟩ := h₁.note hrest₁
  obtain ⟨sign, r₃, hsign, h₃, hrest₃⟩ := h₂.expect (by simp) hrest₂
  obtain ⟨number, r₄, hnumber, h₄, hrest₄⟩ := h₃.expect (by simp) hrest₃
  obtain ⟨value, hvalue, hrest₅⟩ := Action.ofExcept_bind_eq_ok_iff.mp hrest₄
  obtain ⟨r₆, h₆, hrest₆⟩ := h₄.note hrest₅
  obtain ⟨sep, hsep, h₇, rfl⟩ := h₆.endStatement (h₆.ahead_nil hahead) hrest₆
  exact ⟨_, _, sep, _, .assign htarget hsign hnumber hvalue, rfl, hsep, h₇⟩

theorem readIncrement_ok {p q : Parser} {s : Statement} (hp : p.Steady)
    (hahead : p.ahead.length ≤ 4) (h : readIncrement p = (.ok s, q)) : Reads p s q := by
  obtain ⟨target, r₁, htarget, h₁, hrest₁⟩ := (Advance.refl hp).expect (by simp) h
  obtain ⟨r₂, h₂, hrest₂⟩ := h₁.note hrest₁
  obtain ⟨sign, r₃, hsign, h₃, hrest₃⟩ := h₂.expect (by simp) hrest₂
  obtain ⟨operand, r₄, hoperand, h₄, hrest₄⟩ := h₃.expect (by simp) hrest₃
  obtain ⟨r₅, h₅, hrest₅⟩ := h₄.note hrest₄
  obtain ⟨plus, r₆, hplus, h₆, hrest₆⟩ := h₅.expect (by simp) hrest₅
  obtain ⟨one, r₇, hone, h₇, hrest₇⟩ := h₆.expect (by simp) hrest₆
  obtain ⟨value, hvalue, hrest₈⟩ := Action.ofExcept_bind_eq_ok_iff.mp hrest₇
  split at hrest₈
  · cases hrest₈
  · next hunit =>
    have hunit : value = 1 := Decidable.not_not.mp hunit
    subst hunit
    have hnil : r₇.ahead = [] := h₇.ahead_nil (Nat.le_succ_of_le hahead)
    obtain ⟨sep, hsep, h₉, rfl⟩ := h₇.endStatement hnil hrest₈
    exact ⟨_, _, sep, _, .increment htarget hsign hoperand hplus hone hvalue, rfl, hsep, h₉⟩

theorem readCall_ok {p q : Parser} {s : Statement} (hp : p.Steady) (hahead : p.ahead.length ≤ 4)
    (h : readCall p = (.ok s, q)) : Reads p s q := by
  obtain ⟨target, r₁, htarget, h₁, hrest₁⟩ := (Advance.refl hp).expect (by simp) h
  obtain ⟨r₂, h₂, hrest₂⟩ := h₁.note hrest₁
  obtain ⟨sign, r₃, hsign, h₃, hrest₃⟩ := h₂.expect (by simp) hrest₂
  obtain ⟨callee, r₄, hcallee, h₄, hrest₄⟩ := h₃.expect (by simp) hrest₃
  rw [Action.get_bind] at hrest₄
  obtain ⟨known, _, htest⟩ := Action.ofExcept_bind_eq_ok_iff.mp hrest₄
  split at htest
  · cases htest
  · obtain ⟨r₅, h₅, hrest₅⟩ := h₄.note htest
    obtain ⟨left, r₆, hleft, h₆, hrest₆⟩ := h₅.expect (by simp) hrest₅
    obtain ⟨us, args, r₇, hargs, h₇, hrest₇⟩ := h₆.nameList hrest₆
    rw [Action.get_bind, h₇.registry] at hrest₇
    obtain ⟨d, hlookup, harity⟩ := Action.ofExcept_bind_eq_ok_iff.mp hrest₇
    split at harity
    · cases harity
    · next hlength =>
      have hlength : args.length = d.params.length := Decidable.not_not.mp hlength
      obtain ⟨r₈, h₈, hrest₈⟩ := h₇.note harity
      have hnil : r₈.ahead = [] := h₈.ahead_nil (by simp; omega)
      obtain ⟨sep, hsep, h₉, rfl⟩ := h₈.endStatement hnil hrest₈
      exact ⟨_, _, sep, _, .call htarget hsign hcallee hleft hargs,
        Statement.enroll_call.mpr ⟨d, Registry.lookup_eq_ok hlookup, hlength, rfl⟩, hsep, h₉⟩

theorem readInput_ok {p q : Parser} {s : Statement} (hp : p.ahead = [])
    (h : readInput p = (.ok s, q)) : Reads p s q := by
  obtain ⟨word, r₁, hword, h₁, hrest₁⟩ :=
    (Advance.refl (steady_of_ahead_nil hp)).expect (by simp) h
  obtain ⟨us, targets, r₂, htargets, h₂, hrest₂⟩ :=
    h₁.itemList (h₁.ahead_nil (by simp [hp])) (by simp) hrest₁
  obtain ⟨r₃, h₃, hrest₃⟩ := h₂.note hrest₂
  obtain ⟨sep, hsep, h₄, rfl⟩ := h₃.endStatement (h₃.ahead_nil (by simp [hp])) hrest₃
  exact ⟨_, _, sep, _, .input hword htargets, rfl, hsep, h₄⟩

theorem readOutput_ok {p q : Parser} {s : Statement} (hp : p.ahead = [])
    (h : readOutput p = (.ok s, q)) : Reads p s q := by
  obtain ⟨word, r₁, hword, h₁, hrest₁⟩ :=
    (Advance.refl (steady_of_ahead_nil hp)).expect (by simp) h
  obtain ⟨us, items, r₂, hitems, h₂, hrest₂⟩ :=
    h₁.itemList (h₁.ahead_nil (by simp [hp])) (by simp) hrest₁
  obtain ⟨_, hnumbers, hrest₃⟩ := Action.ofExcept_bind_eq_ok_iff.mp hrest₂
  obtain ⟨r₄, h₄, hrest₄⟩ := h₂.note hrest₃
  obtain ⟨sep, hsep, h₅, rfl⟩ := h₄.endStatement (h₄.ahead_nil (by simp [hp])) hrest₄
  exact ⟨_, _, sep, _, .output hword hitems hnumbers, rfl, hsep, h₅⟩

theorem skipDo_ok {p q : Parser} (hp : p.ahead = []) (h : skipDo p = (.ok (), q)) :
    ∃ opening, MaybeDo opening ∧ Advance p opening p.registry q := by
  obtain ⟨t, r, hnext, hrest⟩ := Action.bind_eq_ok_iff.mp h
  split at hrest
  · next hdo =>
    cases hrest
    exact ⟨[t], .present hdo, nextToken_ok (steady_of_ahead_nil hp) hnext (by simp [hdo])⟩
  · obtain ⟨r', hback, hadvance, _⟩ := pushBack_of_nextToken hp hnext
    rw [hback] at hrest
    cases hrest
    exact ⟨[], .absent, hadvance⟩

/-- A reader of bodies reads sentences up to `END` and enrolls them. -/
def ReadsBodies (block : Action Parser (List Statement)) : Prop :=
  ∀ {p q : Parser} {body : List Statement}, p.ahead = [] → block p = (.ok body, q) →
    ∃ ts inner registry, Sentences .kwEnd ts inner body ∧
      Statement.enrollAll body p.registry = some registry ∧ Advance p ts registry q

theorem Advance.block {block : Action Parser (List Statement)} (hblock : ReadsBodies block)
    {p q r : Parser} {ts : List Token} {registry : Registry} {α : Type} {b : α}
    {f : List Statement → Action Parser α} (h : Advance p ts registry r) (hr : r.ahead = [])
    (hrun : (block >>= f) r = (.ok b, q)) :
    ∃ us inner body after r', Sentences .kwEnd us inner body ∧
      Statement.enrollAll body registry = some after ∧ Advance p (ts ++ us) after r' ∧
      f body r' = (.ok b, q) := by
  obtain ⟨body, r', hbody, hrest⟩ := Action.bind_eq_ok_iff.mp hrun
  obtain ⟨us, inner, after, hus, henroll, hadvance⟩ := hblock hr hbody
  rw [h.registry] at henroll
  exact ⟨us, inner, body, after, r', hus, henroll, h.trans hadvance, hrest⟩

theorem readLoop_ok {block : Action Parser (List Statement)} (hblock : ReadsBodies block)
    {p q : Parser} {s : Statement} (hp : p.ahead = []) (h : readLoop block p = (.ok s, q)) :
    Reads p s q := by
  obtain ⟨word, r₁, hword, h₁, hrest₁⟩ :=
    (Advance.refl (steady_of_ahead_nil hp)).expect (by simp) h
  obtain ⟨count, r₂, hcount, h₂, hrest₂⟩ := h₁.expect (by simp) hrest₁
  obtain ⟨r₃, h₃, hrest₃⟩ := h₂.note hrest₂
  obtain ⟨_, r₄, hskip, hrest₄⟩ := Action.bind_eq_ok_iff.mp hrest₃
  obtain ⟨opening, hopening, hdo⟩ := skipDo_ok (h₃.ahead_nil (by simp [hp])) hskip
  rw [h₃.registry] at hdo
  have h₄ := h₃.trans hdo
  obtain ⟨us, inner, body, after, r₅, hus, henroll, h₅, hrest₅⟩ :=
    h₄.block hblock (h₄.ahead_nil (by simp [hp])) hrest₄
  obtain ⟨r₆, h₆, hrest₆⟩ := h₅.note hrest₅
  obtain ⟨sep, hsep, h₇, rfl⟩ := h₆.endStatement (h₆.ahead_nil (by simp [hp])) hrest₆
  exact ⟨_, _, sep, after, .loop hword hcount hopening hus, henroll, hsep, by simpa using h₇⟩

theorem readDefine_ok {block : Action Parser (List Statement)} (hblock : ReadsBodies block)
    {p q : Parser} {s : Statement} (hp : p.ahead = []) (h : readDefine block p = (.ok s, q)) :
    Reads p s q := by
  obtain ⟨word, r₁, hword, h₁, hrest₁⟩ :=
    (Advance.refl (steady_of_ahead_nil hp)).expect (by simp) h
  obtain ⟨name, r₂, hname, h₂, hrest₂⟩ := h₁.expect (by simp) hrest₁
  rw [Action.get_bind] at hrest₂
  obtain ⟨known, _, htest⟩ := Action.ofExcept_bind_eq_ok_iff.mp hrest₂
  split at htest
  · cases htest
  · obtain ⟨r₃, h₃, hrest₃⟩ := h₂.note htest
    obtain ⟨left, r₄, hleft, h₄, hrest₄⟩ := h₃.expect (by simp) hrest₃
    obtain ⟨ts, params, r₅, hparams, h₅, hrest₅⟩ := h₄.nameList hrest₄
    split at hrest₅
    · cases hrest₅
    · next hnodup =>
      obtain ⟨r₆, h₆, hrest₆⟩ := h₅.note hrest₅
      obtain ⟨opening, r₇, hopening, h₇, hrest₇⟩ := h₆.expect (by simp) hrest₆
      obtain ⟨us, inner, body, after, r₈, hus, henroll, h₈, hrest₈⟩ :=
        h₇.block hblock (h₇.ahead_nil (by simp [hp])) hrest₇
      obtain ⟨r₉, h₉, hrest₉⟩ := h₈.note hrest₈
      obtain ⟨_, r', hdefine, hrest'⟩ := Action.bind_eq_ok_iff.mp hrest₉
      unfold onRegistry Action.onPart at hdefine
      rw [h₉.registry] at hdefine
      cases hrun : Registry.define ⟨name.text, params, body⟩ after with
      | mk result last =>
        rw [hrun] at hdefine
        cases hdefine
        obtain ⟨hnew, rfl⟩ := Registry.define_eq_ok hrun
        have h' : Advance p _ (after ++ [⟨name.text, params, body⟩])
            { r₉ with registry := after ++ [⟨name.text, params, body⟩] } :=
          { h₉ with registry := rfl }
        obtain ⟨sep, hsep, hlast, rfl⟩ := h'.endStatement (h'.ahead_nil (by simp [hp])) hrest'
        exact ⟨_, _, sep, _,
          .define hword hname hleft hparams (Decidable.not_not.mp hnodup) hopening hus,
          Statement.enroll_define.mpr ⟨after, henroll, hnew, rfl⟩, hsep, by simpa using hlast⟩

/-- From `p` to `q` tokens were only looked at. -/
structure Looked (p q : Parser) : Prop where
  pending : q.pending = p.pending
  fault : q.fault = p.fault
  registry : q.registry = p.registry
  terminator : q.terminator = p.terminator
  done : q.done = p.done
  steady : q.Steady

namespace Looked

variable {p q r : Parser}

theorem trans (h : Looked p q) (h' : Looked q r) : Looked p r where
  pending := h'.pending.trans h.pending
  fault := h'.fault.trans h.fault
  registry := h'.registry.trans h.registry
  terminator := h'.terminator.trans h.terminator
  done := h'.done.trans h.done
  steady := h'.steady

/-- What is read after a look is read from where the look started. -/
theorem advance (h : Looked p q) (hp : p.ahead = []) {ts : List Token} {registry : Registry}
    (hadvance : Advance q ts registry r) (hr : r.ahead = []) : Advance p ts registry r where
  pending := h.pending ▸ hadvance.pending
  fault := hadvance.fault.trans h.fault
  registry := hadvance.registry
  terminator := hadvance.terminator.trans h.terminator
  done := hadvance.done.trans h.done
  ahead := by rw [hr, hp, List.drop_nil]
  steady := hadvance.steady

theorem reads (h : Looked p q) (hp : p.ahead = []) {s : Statement} (hread : Reads q s r) :
    Reads p s r := by
  obtain ⟨ts, inner, sep, registry, hts, henroll, hsep, hadvance⟩ := hread
  rw [h.registry] at henroll
  exact ⟨ts, inner, sep, registry, hts, henroll, hsep, h.advance hp hadvance hsep.1⟩

end Looked

theorem takeTokens_ok {count : Nat} {p q : Parser} {ts : List Token} (hp : p.Steady)
    (h : takeTokens count p = (.ok ts, q)) (hts : ∀ t ∈ ts, t.kind ≠ .eof) :
    ts.length = count ∧ Advance p ts p.registry q ∧ (0 < count → q.lexer.pushed = none) := by
  induction count generalizing p ts with
  | zero =>
    cases h
    exact ⟨rfl, .refl hp, fun hlt => absurd hlt (Nat.lt_irrefl 0)⟩
  | succ count ih =>
    obtain ⟨t, r, hnext, hrest⟩ := Action.bind_eq_ok_iff.mp h
    obtain ⟨us, r', hmore, hdone⟩ := Action.bind_eq_ok_iff.mp hrest
    cases hdone
    have hfirst := nextToken_ok hp hnext (hts t (by simp))
    obtain ⟨hlength, hadvance, hpushed⟩ :=
      ih hfirst.steady hmore fun u hu => hts u (by simp [hu])
    rw [hfirst.registry] at hadvance
    refine ⟨by simp [hlength], hfirst.trans hadvance, fun _ => ?_⟩
    cases count with
    | zero =>
      cases hmore
      exact nextToken_pushed hp hnext
    | succ count => exact hpushed (Nat.succ_pos _)

theorem peek_ok {count : Nat} {p q : Parser} {ts : List Token} (hp : p.Steady) (hcount : 0 < count)
    (h : peek count p = (.ok ts, q)) (hts : ∀ t ∈ ts, t.kind ≠ .eof) :
    ts.length = count ∧ Looked p q ∧ q.ahead = ts ++ p.ahead.drop count ∧
      ∃ us, p.pending = ts ++ us := by
  obtain ⟨us, r, htake, hrest⟩ := Action.bind_eq_ok_iff.mp h
  rw [Action.modify_bind] at hrest
  cases hrest
  obtain ⟨hlength, hadvance, hpushed⟩ := takeTokens_ok hp htake hts
  have hahead := hadvance.ahead
  rw [hlength] at hahead
  have hlook : Looked p { r with ahead := ts ++ r.ahead } := {
    pending := by
      rw [hadvance.pending]
      simp [Parser.pending]
    fault := hadvance.fault
    registry := hadvance.registry
    terminator := hadvance.terminator
    done := hadvance.done
    steady := fun _ => hpushed hcount }
  exact ⟨hlength, hlook, by rw [hahead], r.pending, hadvance.pending⟩

theorem takeTokens_length {count : Nat} {p q : Parser} {ts : List Token}
    (h : takeTokens count p = (.ok ts, q)) : ts.length = count := by
  induction count generalizing p ts with
  | zero =>
    cases h
    rfl
  | succ count ih =>
    obtain ⟨t, r, _, hrest⟩ := Action.bind_eq_ok_iff.mp h
    obtain ⟨us, r', hmore, hdone⟩ := Action.bind_eq_ok_iff.mp hrest
    cases hdone
    rw [List.length_cons, ih hmore]

/-- The first tokens that are taken are the first ones that are pending. -/
theorem takeTokens_front {front us : List Token} {count : Nat} {p q : Parser} {ts : List Token}
    (hp : p.Steady) (hfront : ∀ t ∈ front, t.kind ≠ .eof) (hpending : p.pending = front ++ us)
    (h : takeTokens (count + front.length) p = (.ok ts, q)) :
    ∃ vs, ts = front ++ vs ∧ vs.length = count := by
  induction front generalizing p ts with
  | nil => exact ⟨ts, rfl, takeTokens_length h⟩
  | cons t front ih =>
    obtain ⟨r, hnext⟩ := nextToken_of_pending hpending
    have hadvance := nextToken_ok hp hnext (hfront t (by simp))
    rw [List.length_cons, ← Nat.add_assoc, takeTokens, Action.bind_ok hnext] at h
    obtain ⟨vs, r', hmore, hdone⟩ := Action.bind_eq_ok_iff.mp h
    cases hdone
    have hrest : r.pending = front ++ us := by
      have hcons := hpending ▸ hadvance.pending
      simpa using hcons.symm
    obtain ⟨ws, rfl, hlength⟩ :=
      ih hadvance.steady (fun u hu => hfront u (by simp [hu])) hrest hmore
    exact ⟨ws, rfl, hlength⟩

theorem peek_front {front us : List Token} {count : Nat} {p q : Parser} {ts : List Token}
    (hp : p.Steady) (hfront : ∀ t ∈ front, t.kind ≠ .eof) (hpending : p.pending = front ++ us)
    (h : peek (count + front.length) p = (.ok ts, q)) :
    ∃ vs, ts = front ++ vs ∧ vs.length = count := by
  obtain ⟨vs, r, htake, hrest⟩ := Action.bind_eq_ok_iff.mp h
  rw [Action.modify_bind] at hrest
  cases hrest
  exact takeTokens_front hp hfront hpending htake

/-- The most tokens that are looked ahead at when a statement of that form is read. -/
def lookahead : Statement.Form → Nat
  | .assign => 3
  | .increment | .call => 4
  | .input | .output | .loop | .define => 0

theorem assignmentForm_ok {p q : Parser} {t : Token} {us : List Token} {form : Statement.Form}
    (hp : p.ahead = []) (hpending : p.pending = t :: us) (ht : t.kind ≠ .eof)
    (h : assignmentForm p = (.ok form, q)) :
    Looked p q ∧ q.ahead.length ≤ lookahead form := by
  have hsteady := steady_of_ahead_nil hp
  obtain ⟨ts, r, hpeek, hrest⟩ := Action.bind_eq_ok_iff.mp h
  obtain ⟨vs, rfl, hvs⟩ :=
    @peek_front [t] us 2 p r ts hsteady (by simpa using ht) hpending hpeek
  obtain ⟨sign, value, rfl⟩ : ∃ sign value, vs = [sign, value] := by
    match vs, hvs with
    | [sign, value], _ => exact ⟨sign, value, rfl⟩
  simp only [List.cons_append, List.nil_append, List.getD_cons_succ, List.getD_cons_zero] at hrest
  split at hrest
  · cases hrest
  next hsign =>
  have hsign : sign.kind = .assign := Decidable.not_not.mp hsign
  split at hrest
  · next hvalue =>
    cases hrest
    obtain ⟨_, hlook, hahead, _⟩ := peek_ok hsteady (by simp) hpeek (by simp [ht, hsign, hvalue])
    exact ⟨hlook, by simp [hahead, hp, lookahead]⟩
  · split at hrest
    · cases hrest
    next hvalue =>
    have hvalue : value.kind = .identifier := Decidable.not_not.mp hvalue
    have hfront : ∀ u ∈ [t, sign, value], u.kind ≠ .eof := by simp [ht, hsign, hvalue]
    obtain ⟨_, hlook, hahead, vs, hvs⟩ := peek_ok hsteady (by simp) hpeek hfront
    obtain ⟨ts, r', hpeek', hrest'⟩ := Action.bind_eq_ok_iff.mp hrest
    obtain ⟨ws, rfl, hws⟩ :=
      @peek_front [t, sign, value] vs 1 r r' ts hlook.steady hfront (hlook.pending ▸ hvs) hpeek'
    obtain ⟨follow, rfl⟩ := List.length_eq_one_iff.mp hws
    simp only [List.cons_append, List.nil_append, List.getD_cons_succ, List.getD_cons_zero]
      at hrest'
    split at hrest'
    · next hfollow =>
      cases hrest'
      obtain ⟨_, hlook', hahead', _⟩ :=
        peek_ok hlook.steady (by simp) hpeek' (by simp [ht, hsign, hvalue, hfollow])
      exact ⟨hlook.trans hlook', by simp [hahead', hahead, hp, lookahead]⟩
    · split at hrest'
      · next hfollow =>
        cases hrest'
        obtain ⟨_, hlook', hahead', _⟩ :=
          peek_ok hlook.steady (by simp) hpeek' (by simp [ht, hsign, hvalue, hfollow])
        exact ⟨hlook.trans hlook', by simp [hahead', hahead, hp, lookahead]⟩
      · cases hrest'

theorem formOf_ok {p q : Parser} {t : Token} {us : List Token} {form : Statement.Form}
    (hp : p.ahead = []) (hpending : p.pending = t :: us) (h : formOf t p = (.ok form, q)) :
    Looked p q ∧ q.ahead.length ≤ lookahead form := by
  have hstay : Looked p p := ⟨rfl, rfl, rfl, rfl, rfl, steady_of_ahead_nil hp⟩
  unfold formOf at h
  cases hkind : t.kind
  all_goals rw [hkind] at h
  case identifier => exact assignmentForm_ok hp hpending (by simp [hkind]) h
  all_goals cases h
  all_goals exact ⟨hstay, by simp [hp]⟩

theorem readForm_ok {block : Action Parser (List Statement)} (hblock : ReadsBodies block)
    {form : Statement.Form} {p q : Parser} {s : Statement} (hp : p.Steady)
    (hahead : p.ahead.length ≤ lookahead form) (h : readForm block form p = (.ok s, q)) :
    Reads p s q := by
  cases form with
  | assign => exact readAssign_ok hp hahead h
  | increment => exact readIncrement_ok hp hahead h
  | call => exact readCall_ok hp hahead h
  | input => exact readInput_ok (List.length_eq_zero_iff.mp (Nat.le_zero.mp hahead)) h
  | output => exact readOutput_ok (List.length_eq_zero_iff.mp (Nat.le_zero.mp hahead)) h
  | loop => exact readLoop_ok hblock (List.length_eq_zero_iff.mp (Nat.le_zero.mp hahead)) h
  | define => exact readDefine_ok hblock (List.length_eq_zero_iff.mp (Nat.le_zero.mp hahead)) h

theorem skipSemicolons_ok {count : Nat} {p q : Parser} {t : Token} (hp : p.ahead = [])
    (h : skipSemicolons count p = (.ok t, q)) :
    ∃ semis r, Semicolons semis ∧ Advance p semis p.registry r ∧ r.ahead = [] ∧
      nextToken r = (.ok t, q) := by
  induction count generalizing p with
  | zero => cases h
  | succ count ih =>
    obtain ⟨u, r, hnext, hrest⟩ := Action.bind_eq_ok_iff.mp h
    split at hrest
    · next hsemi =>
      have hfirst := nextToken_ok (steady_of_ahead_nil hp) hnext (by simp [hsemi])
      obtain ⟨semis, r', hsemis, hadvance, hahead, hlast⟩ := ih (nextToken_ahead_nil hp hnext) hrest
      rw [hfirst.registry] at hadvance
      refine ⟨u :: semis, r', ?_, hfirst.trans hadvance, hahead, hlast⟩
      rintro v (_ | ⟨_, hv⟩)
      · exact hsemi
      · exact hsemis v hv
    · cases hrest
      exact ⟨[], p, by simp [Semicolons], .refl (steady_of_ahead_nil hp), hp, hnext⟩

/-- The next statement is read behind semicolons; where there is none, the terminator was read. -/
theorem nextBy_ok {block : Action Parser (List Statement)} (hblock : ReadsBodies block)
    {p q : Parser} {result : Option Statement} (hp : p.ahead = []) (hdone : p.done = false)
    (h : nextBy block p = (.ok result, q)) :
    ∃ semis r, Semicolons semis ∧ Advance p semis p.registry r ∧ r.ahead = [] ∧
      match result with
      | some s => Reads r s q
      | none => ∃ t r', t.kind = p.terminator ∧ nextToken r = (.ok t, r') ∧
          q = { r' with done := true } := by
  rw [nextBy, Action.get_bind] at h
  simp only [hdone, Bool.false_eq_true, if_false] at h
  obtain ⟨t, r', hskip, hrest⟩ := Action.bind_eq_ok_iff.mp h
  obtain ⟨semis, r, hsemis, hadvance, hahead, hnext⟩ := skipSemicolons_ok hp hskip
  refine ⟨semis, r, hsemis, hadvance, hahead, ?_⟩
  split at hrest
  · next hclose =>
    rw [Action.modify_bind] at hrest
    cases hrest
    exact ⟨t, r', hclose, hnext, rfl⟩
  · split at hrest
    · cases hrest
    · obtain ⟨back, hback, hstay, us, hpending⟩ := pushBack_of_nextToken hahead hnext
      rw [Action.bind_ok hback] at hrest
      obtain ⟨form, look, hform, hrest'⟩ := Action.bind_eq_ok_iff.mp hrest
      obtain ⟨s, last, hread, hsome⟩ := Action.bind_eq_ok_iff.mp hrest'
      cases hsome
      have hbackNil : back.ahead = [] := hstay.ahead_nil (by simp [hahead])
      obtain ⟨hlook, hlength⟩ := formOf_ok hbackNil hpending hform
      have hback' : Looked r back := {
        pending := hstay.pending.symm
        fault := hstay.fault
        registry := hstay.registry
        terminator := hstay.terminator
        done := hstay.done
        steady := hstay.steady }
      exact (hback'.trans hlook).reads hahead (readForm_ok hblock hlook.steady hlength hread)

/-- From `p` to `q` the tokens `ts` were read, the last of which closed what was read. The end token
closes a source and with it all that is pending. -/
def Closes (p : Parser) (ts : List Token) (q : Parser) : Prop :=
  if p.terminator = .eof then p.pending = ts ∧ p.fault = none
  else p.pending = ts ++ q.pending ∧ q.fault = p.fault ∧ q.ahead = []

theorem Closes.front {p q : Parser} {ts : List Token} (h : Closes p ts q) :
    ∃ us, p.pending = ts ++ us := by
  unfold Closes at h
  split at h
  · exact ⟨[], by rw [h.1, List.append_nil]⟩
  · exact ⟨q.pending, h.1⟩

theorem Advance.closes {p q r : Parser} {ts us : List Token} {registry : Registry}
    (h : Advance p ts registry r) (h' : Closes r us q) : Closes p (ts ++ us) q := by
  unfold Closes at h' ⊢
  rw [h.terminator] at h'
  split
  · next heof =>
    rw [if_pos heof] at h'
    exact ⟨by rw [h.pending, h'.1], h.fault.symm.trans h'.2⟩
  · next heof =>
    rw [if_neg heof] at h'
    exact ⟨by rw [h.pending, h'.1, List.append_assoc], h'.2.1.trans h.fault, h'.2.2⟩

theorem nextToken_closes {p q : Parser} {t : Token} (hp : p.ahead = [])
    (ht : t.kind = p.terminator) (h : nextToken p = (.ok t, q)) :
    Closes p [t] { q with done := true } ∧ q.registry = p.registry := by
  unfold Closes
  by_cases heof : t.kind = .eof
  · rw [if_pos (ht.symm.trans heof)]
    obtain ⟨hpending, hfault, hq⟩ := nextToken_eof hp h heof
    exact ⟨⟨hpending, hfault⟩, by rw [hq]⟩
  · rw [if_neg (ht ▸ heof)]
    have hadvance := nextToken_ok (steady_of_ahead_nil hp) h heof
    exact ⟨⟨hadvance.pending, hadvance.fault, hadvance.ahead_nil (by simp [hp])⟩,
      hadvance.registry⟩

/-- A body is read by a parser of its own, which leaves the tokens behind it. -/
theorem inBlock_ok {act : Action Parser (List Statement)}
    (hact : ∀ {p q : Parser} {body : List Statement}, p.ahead = [] → p.done = false →
      act p = (.ok body, q) → ∃ ts inner, Sentences p.terminator ts inner body ∧
        Statement.enrollAll body p.registry = some q.registry ∧ Closes p ts q) :
    ReadsBodies (inBlock act) := by
  intro p q body hp h
  unfold inBlock at h
  cases hrun : act (ofLexer p.lexer .kwEnd p.registry) with
  | mk result inside =>
    rw [hrun] at h
    cases h
    obtain ⟨ts, inner, hts, henroll, hcloses⟩ := hact rfl rfl hrun
    have hkind : (ofLexer p.lexer .kwEnd p.registry).terminator ≠ .eof := by simp [ofLexer]
    rw [Closes, if_neg hkind] at hcloses
    obtain ⟨hpending, hfault, hahead⟩ := hcloses
    refine ⟨ts, inner, inside.registry, hts, henroll, ?_⟩
    exact {
      pending := by simpa [Parser.pending, ofLexer, hp, hahead] using hpending
      fault := hfault
      registry := rfl
      terminator := rfl
      done := rfl
      ahead := by simp [hp]
      steady := steady_of_ahead_nil hp }

/-- What is read up to the terminator are sentences, and they were enrolled. -/
theorem statements_ok {fuel : Nat} {p q : Parser} {body : List Statement} (hp : p.ahead = [])
    (hdone : p.done = false) (h : statements fuel p = (.ok body, q)) :
    ∃ ts inner, Sentences p.terminator ts inner body ∧
      Statement.enrollAll body p.registry = some q.registry ∧ Closes p ts q := by
  induction fuel generalizing p q body with
  | zero => cases h
  | succ fuel ih =>
    have hblock : ReadsBodies (inBlock (statements fuel)) := inBlock_ok ih
    obtain ⟨result, r, hnext, hrest⟩ := Action.bind_eq_ok_iff.mp h
    obtain ⟨semis, r', hsemis, hskip, hahead, hresult⟩ := nextBy_ok hblock hp hdone hnext
    cases result with
    | none =>
      cases hrest
      obtain ⟨t, last, ht, hread, rfl⟩ := hresult
      obtain ⟨hcloses, hregistry⟩ := nextToken_closes hahead (ht.trans hskip.terminator.symm) hread
      refine ⟨semis ++ [t], [], .semicolons hsemis (.close ht), ?_, hskip.closes hcloses⟩
      rw [Statement.enrollAll, hregistry, hskip.registry]
    | some s =>
      obtain ⟨ts, inner, sep, registry, hts, henroll, ⟨hnil, hsep⟩, hadvance⟩ := hresult
      obtain ⟨more, last, hmore, hcons⟩ := Action.bind_eq_ok_iff.mp hrest
      cases hcons
      have hfirst := hskip.trans hadvance
      obtain ⟨us, inners, hus, henrollAll, hcloses⟩ :=
        ih hnil (hfirst.done.trans hdone) hmore
      rw [hfirst.terminator] at hus
      have hall := hfirst.closes hcloses
      rw [List.append_assoc, List.append_assoc] at hall
      rw [hfirst.registry] at henrollAll
      rw [hskip.registry] at henroll
      refine ⟨semis ++ (ts ++ (sep ++ us)), inner ++ inners, .semicolons hsemis ?_,
        Statement.enrollAll_cons.mpr ⟨registry, henroll, henrollAll⟩, hall⟩
      rcases hsep with ⟨semi, rfl, hsemi⟩ | ⟨rfl, t, vs, hpending, hends⟩
      · exact .cons hts (.inl hsemi) (.semicolon hsemi hus)
      · -- Nothing was used up, so what follows starts with the token that ended the statement.
        obtain ⟨u, ws, rfl, _⟩ := hus.head
        obtain ⟨rest, hrest⟩ := hcloses.front
        rw [hpending, List.cons_append, List.cons.injEq] at hrest
        exact .cons hts (hrest.1 ▸ hends) hus

end Parser

end LoopLanguage
