import LoopLanguage.Proofs.Regular

/-!
What can go wrong when a source is parsed by descent. Whatever is read, an error is a parse error,
the lexical error that the tokens end with, or that of a number among the tokens which is too long
to be read. In particular a token that was read can always be pushed back, and the fuel of the
readers never runs out: every round of a reader takes a token, and there are never more tokens than
rounds.
-/

namespace LoopLanguage

namespace Action

variable {σ α β : Type}

theorem bind_eq_error_iff {act : Action σ α} {f : α → Action σ β} {s t : σ} {e : Error} :
    (act >>= f) s = (.error e, t) ↔
      act s = (.error e, t) ∨ ∃ a u, act s = (.ok a, u) ∧ f a u = (.error e, t) := by
  cases h : act s with
  | mk r u =>
    cases r with
    | ok a =>
      rw [bind_ok h]
      constructor
      · exact fun hf => .inr ⟨a, u, rfl, hf⟩
      · rintro (hfail | ⟨_, _, hrun, hf⟩)
        · cases hfail
        · cases hrun
          exact hf
    | error e' =>
      rw [bind_error h]
      simp

end Action

theorem Lexeme.eq_nil_of_read? {cs : List Char} (h : read? cs = none) : cs = [] := by
  cases cs with
  | nil => rfl
  | cons c cs =>
    rw [read?] at h
    repeat' split at h
    all_goals cases h

namespace Lexer

/-- With the error that ends them, the tokens are no more than were asked for. -/
theorem upTo_need (count : Nat) (lexer : Lexer) :
    (upTo count lexer).1.length + (upTo count lexer).2.1.toList.length ≤ count := by
  induction count generalizing lexer with
  | zero => exact Nat.le_refl 0
  | succ count ih =>
    rw [upTo]
    split
    · next t after _ =>
      split
      · simp
      · have hrest := ih after
        show (upTo count after).1.length + 1 + (upTo count after).2.1.toList.length ≤ count + 1
        omega
    · simp

theorem tokens_need_pos (lexer : Lexer) :
    0 < lexer.tokens.1.length + lexer.tokens.2.1.toList.length := by
  cases hnext : next lexer with
  | mk r after =>
    cases r with
    | error e => simp [tokens_of_error hnext]
    | ok t =>
      by_cases ht : t.kind = .eof
      · simp [tokens_of_eof hnext ht]
      · simp only [tokens_of_ok hnext ht, List.length_cons]
        omega

/-- At the end of the source the end token is read. -/
theorem tokens_of_nothing {lexer : Lexer} (hp : lexer.pushed = none) (h : lexer.rest = []) :
    lexer.tokens.2.1 = none := by
  have hscan : ∃ t after, scan lexer = (.ok t, after) ∧ t.kind = .eof := by
    simp [scan, skipGaps, skip, h, Lexeme.read?]
  obtain ⟨t, after, hscan, ht⟩ := hscan
  have hnext := next_of_wanted hp hscan (by simp [ht, Kind.isTrivia])
  rw [tokens_of_eof hnext ht]

/-- Behind the end there is nothing but the end. -/
theorem fault_after_eof {lexer after : Lexer} {t : Token} (hp : lexer.pushed = none)
    (h : next lexer = (.ok t, after)) (ht : t.kind = .eof) : after.tokens.2.1 = none := by
  obtain ⟨before, last, hscan, rfl, _, hpushed⟩ := next_scanned hp h
  cases hscan with
  | lexeme _ hdenotes => exact absurd ht hdenotes.kind_ne_eof
  | finish hread =>
    exact tokens_of_nothing hpushed (Lexeme.eq_nil_of_read? hread)

end Lexer

namespace Parser

variable {α β : Type}

/-- How many times a token can be asked for until there is the end or an error. -/
def need (p : Parser) : Nat := p.pending.length + p.fault.toList.length

theorem need_pos (p : Parser) : 0 < p.need := by
  have htokens := Lexer.tokens_need_pos p.lexer
  simp only [need, pending, fault, List.length_append]
  omega

theorem need_le_size (p : Parser) : p.need ≤ p.size := by
  have htokens := Lexer.upTo_need (p.lexer.rest.length + 2) p.lexer
  simp only [need, pending, fault, size, Lexer.tokens, List.length_append]
  omega

theorem Advance.need {p q : Parser} {ts : List Token} {registry : Registry}
    (h : Advance p ts registry q) : p.need = ts.length + q.need := by
  simp only [Parser.need, h.pending, h.fault, List.length_append]
  omega

theorem Advance.lexical {p q : Parser} {ts : List Token} {registry : Registry}
    (h : Advance p ts registry q) (hp : ∀ t ∈ p.pending, t.Lexical) :
    ∀ t ∈ q.pending, t.Lexical := by
  intro t ht
  refine hp t ?_
  rw [h.pending]
  exact List.mem_append_right _ ht

/-- An error that the pending tokens account for. -/
def Justified (p : Parser) (e : Error) : Prop :=
  e.category = .parsing ∨ p.fault = some e ∨
    ∃ t ∈ p.pending, t.kind = .number ∧ t.value = .error e

/-- If the step fails from `r`, the tokens that were pending at `p` account for it. -/
def Explains (p : Parser) (act : Action Parser α) (r : Parser) : Prop :=
  ∀ e q, act r = (.error e, q) → p.Justified e

theorem Advance.justified {p r : Parser} {ts : List Token} {registry : Registry} {e : Error}
    (h : Advance p ts registry r) (he : r.Justified e) : p.Justified e := by
  obtain hparsing | hfault | ⟨t, ht, hnumber⟩ := he
  · exact .inl hparsing
  · exact .inr (.inl (h.fault ▸ hfault))
  · refine .inr (.inr ⟨t, ?_, hnumber⟩)
    rw [h.pending]
    exact List.mem_append_right _ ht

namespace Explains

variable {p r : Parser} {act : Action Parser α}

theorem bind {f : α → Action Parser β} (h : Explains p act r)
    (hf : ∀ a r', act r = (.ok a, r') → Explains p (f a) r') : Explains p (act >>= f) r := by
  intro e q hrun
  obtain hfail | ⟨a, r', hact, hrest⟩ := Action.bind_eq_error_iff.mp hrun
  · exact h e q hfail
  · exact hf a r' hact e q hrest

theorem pure (a : α) : Explains p (pure a) r := fun _ _ h => by cases h

theorem fail {e : Error} (h : e.category = .parsing) :
    Explains p (Action.fail e : Action Parser α) r := by
  intro e' q hrun
  cases hrun
  exact .inl h

/-- A result that is known to be a value explains itself. -/
theorem ofExcept_bind {x : Except Error α} {a : α} {f : α → Action Parser β} (h : x = .ok a)
    (hf : Explains p (f a) r) : Explains p (Action.ofExcept x >>= f) r := by
  subst h
  exact hf

/-- What a later state accounts for an earlier one does. -/
theorem from_advance {q : Parser} {ts : List Token} {registry : Registry}
    (h : Advance p ts registry q) (hact : Explains q act r) : Explains p act r :=
  fun e s hrun => h.justified (hact e s hrun)

end Explains

theorem nextToken_error {p q : Parser} {e : Error} (h : nextToken p = (.error e, q)) :
    p.fault = some e := by
  obtain ⟨_, _, _, hr, _⟩ | ⟨_, _, hnext, _⟩ := nextToken_cases h
  · cases hr
  · rw [fault, Lexer.tokens_of_error hnext]

theorem nextToken_explains {p : Parser} : Explains p nextToken p :=
  fun _ _ h => .inr (.inl (nextToken_error h))

/-- A token that was read can be pushed back. -/
theorem pushBack_explains {p q r : Parser} {t : Token} (hp : p.ahead = [])
    (h : nextToken p = (.ok t, q)) : Explains r (pushBack t) q := by
  intro e q' hrun
  obtain ⟨back, hback, _⟩ := pushBack_of_nextToken hp h
  rw [hback] at hrun
  cases hrun

theorem expectOneOf_explains {p : Parser} (kinds : List Kind) (context : String) :
    Explains p (expectOneOf kinds context) p := by
  refine nextToken_explains.bind fun t r _ => ?_
  split
  · exact .pure t
  · exact .fail rfl

theorem endStatement_explains {p : Parser} (hp : p.ahead = []) (context : String) :
    Explains p (endStatement context) p := by
  refine nextToken_explains.bind fun t r hnext => ?_
  split
  · exact .pure ()
  · split
    · exact pushBack_explains hp hnext
    · exact .fail rfl

theorem skipDo_explains {p : Parser} (hp : p.ahead = []) : Explains p skipDo p := by
  refine nextToken_explains.bind fun t r hnext => ?_
  split
  · exact .pure ()
  · exact pushBack_explains hp hnext

theorem namesFrom_explains {context : String} {count : Nat} {p : Parser} (hp : p.Steady)
    (hcount : p.need ≤ count) (token : Token) : Explains p (namesFrom context count token) p := by
  induction count generalizing p token with
  | zero => exact absurd p.need_pos (by omega)
  | succ count ih =>
    refine nextToken_explains.bind fun sep r hnext => ?_
    split
    · next hcomma =>
      have hsep := nextToken_ok hp hnext (by simp [hcomma])
      refine Explains.from_advance hsep ?_
      refine (expectOneOf_explains _ _).bind fun name r' hname => ?_
      obtain ⟨_, hadvance⟩ := expect_ok hsep.steady hname (by simp)
      have hneed : p.need = 1 + (1 + r'.need) := by rw [hsep.need, hadvance.need]; rfl
      exact Explains.from_advance hadvance
        ((ih hadvance.steady (by omega) name).bind fun _ _ _ => .pure _)
    · split
      · exact .pure _
      · exact .fail rfl

theorem nameList_explains {context : String} {p : Parser} (hp : p.Steady) :
    Explains p (nameList context) p := by
  refine (expectOneOf_explains _ _).bind fun token r hfirst => ?_
  obtain ⟨_, hadvance⟩ := expectOneOf_ok hp hfirst (by simp)
  split
  · exact .pure _
  · exact Explains.from_advance hadvance (namesFrom_explains hadvance.steady r.need_le_size token)

theorem itemsFrom_explains {kinds : List Kind} (hkinds : .eof ∉ kinds) {count : Nat} {p : Parser}
    (hp : p.ahead = []) (hcount : p.need ≤ count) : Explains p (itemsFrom kinds count) p := by
  induction count generalizing p with
  | zero => exact absurd p.need_pos (by omega)
  | succ count ih =>
    refine nextToken_explains.bind fun sep r hnext => ?_
    split
    · exact (pushBack_explains hp hnext).bind fun _ _ _ => .pure _
    · next hsep =>
      have hcomma : sep.kind = .comma :=
        Decidable.byContradiction fun hne => hsep (by simp [hne])
      have hadvance := nextToken_ok (steady_of_ahead_nil hp) hnext (by simp [hcomma])
      have hahead := nextToken_ahead_nil hp hnext
      refine Explains.from_advance hadvance ?_
      refine nextToken_explains.bind fun item r' hitem => ?_
      split
      · exact (pushBack_explains hahead hitem).bind fun _ _ _ => .pure _
      · next hkind =>
        have hne : item.kind ≠ .eof := by
          intro heof
          simp [heof, hkinds] at hkind
        have hread := nextToken_ok (steady_of_ahead_nil hahead) hitem hne
        have hneed : p.need = 1 + (1 + r'.need) := by rw [hadvance.need, hread.need]; rfl
        exact Explains.from_advance hread
          ((ih (nextToken_ahead_nil hahead hitem) (by omega)).bind fun _ _ _ => .pure _)

theorem itemList_explains {kinds : List Kind} (hkinds : .eof ∉ kinds) {context : String}
    {p : Parser} (hp : p.ahead = []) : Explains p (itemList kinds context) p := by
  refine (expectOneOf_explains _ _).bind fun first r hfirst => ?_
  obtain ⟨_, hadvance⟩ := expectOneOf_ok (steady_of_ahead_nil hp) hfirst hkinds
  have hahead := hadvance.ahead_nil (by simp [hp])
  exact Explains.from_advance hadvance
    ((itemsFrom_explains hkinds hahead r.need_le_size).bind fun _ _ _ => .pure _)

theorem skipSemicolons_explains {count : Nat} {p : Parser} (hp : p.ahead = [])
    (hcount : p.need ≤ count) : Explains p (skipSemicolons count) p := by
  induction count generalizing p with
  | zero => exact absurd p.need_pos (by omega)
  | succ count ih =>
    refine nextToken_explains.bind fun t r hnext => ?_
    split
    · next hsemi =>
      have hadvance := nextToken_ok (steady_of_ahead_nil hp) hnext (by simp [hsemi])
      have hneed : p.need = 1 + r.need := hadvance.need
      exact Explains.from_advance hadvance (ih (nextToken_ahead_nil hp hnext) (by omega))
    · exact .pure _

theorem checkNumbers_error {items : List Token} {e : Error} (h : checkNumbers items = .error e) :
    ∃ t ∈ items, t.kind = .number ∧ t.value = .error e := by
  induction items with
  | nil => cases h
  | cons first items ih =>
    have hsplit : checkNumbers (first :: items) =
        ((if first.kind = .number then do let _ ← first.value else .ok ()) >>= fun _ =>
          checkNumbers items) := rfl
    rw [hsplit] at h
    by_cases hkind : first.kind = .number
    · rw [if_pos hkind] at h
      cases hvalue : first.value with
      | error e' =>
        rw [hvalue] at h
        cases h
        exact ⟨first, by simp, hkind, hvalue⟩
      | ok n =>
        rw [hvalue] at h
        obtain ⟨t, ht, hnumber⟩ := ih h
        exact ⟨t, by simp [ht], hnumber⟩
    · rw [if_neg hkind] at h
      obtain ⟨t, ht, hnumber⟩ := ih h
      exact ⟨t, by simp [ht], hnumber⟩

/-- A reader of bodies fails only as the tokens account for, if they are that few. -/
def ExplainsBodies (limit : Nat) (block : Action Parser (List Statement)) : Prop :=
  ∀ {p : Parser}, p.ahead = [] → p.need ≤ limit → (∀ t ∈ p.pending, t.Lexical) →
    Explains p block p

namespace Advance

/-! A reader that may fail is followed step by step, as one that succeeds is. -/

variable {p r : Parser} {ts : List Token} {registry : Registry} {context : String}

theorem explains_note (h : Advance p ts registry r) {draft : Draft} {f : Unit → Action Parser α}
    (hf : ∀ r', Advance p ts registry r' → Explains p (f ()) r') :
    Explains p (Parser.note draft >>= f) r :=
  fun e q hrun => hf { r with draft } { h with } e q hrun

theorem explains_expect (h : Advance p ts registry r) {kind : Kind} (hkind : kind ≠ .eof)
    {f : Token → Action Parser α}
    (hf : ∀ t r', t.kind = kind → Advance p (ts ++ [t]) registry r' → Explains p (f t) r') :
    Explains p (Parser.expect kind context >>= f) r := by
  refine Explains.bind (.from_advance h (expectOneOf_explains _ _)) fun t r' hexpect => ?_
  obtain ⟨ht, hadvance⟩ := expect_ok h.steady hexpect hkind
  rw [h.registry] at hadvance
  exact hf t r' ht (h.trans hadvance)

theorem explains_nameList (h : Advance p ts registry r) {f : List Atom → Action Parser α}
    (hf : ∀ us names r', NameList us names → Advance p (ts ++ us) registry r' →
      Explains p (f names) r') : Explains p (Parser.nameList context >>= f) r := by
  refine Explains.bind (.from_advance h (nameList_explains h.steady)) fun names r' hnames => ?_
  obtain ⟨us, hus, hadvance⟩ := nameList_ok h.steady hnames
  rw [h.registry] at hadvance
  exact hf us names r' hus (h.trans hadvance)

theorem explains_itemList (h : Advance p ts registry r) (hr : r.ahead = []) {kinds : List Kind}
    (hkinds : .eof ∉ kinds) {f : List Token → Action Parser α}
    (hf : ∀ us items r', ItemList kinds us items → Advance p (ts ++ us) registry r' →
      Explains p (f items) r') : Explains p (Parser.itemList kinds context >>= f) r := by
  refine Explains.bind (.from_advance h (itemList_explains hkinds hr)) fun items r' hitems => ?_
  obtain ⟨us, hus, hadvance⟩ := itemList_ok hkinds hr hitems
  rw [h.registry] at hadvance
  exact hf us items r' hus (h.trans hadvance)

theorem explains_end (h : Advance p ts registry r) (hr : r.ahead = []) {s : α} :
    Explains p (Parser.endStatement context >>= fun _ => pure s) r :=
  Explains.bind (.from_advance h (endStatement_explains hr context)) fun _ _ _ => .pure s

/-- A number that has no value is one of the tokens that were read. -/
theorem explains_value (h : Advance p ts registry r) {t : Token} (ht : t ∈ ts)
    (hkind : t.kind = .number) {f : Nat → Action Parser α}
    (hf : ∀ n, Explains p (f n) r) : Explains p (Action.ofExcept t.value >>= f) r := by
  cases hvalue : t.value with
  | ok n => exact hf n
  | error e =>
    intro e' q hrun
    cases hrun
    refine .inr (.inr ⟨t, ?_, hkind, hvalue⟩)
    rw [h.pending]
    exact List.mem_append_left _ ht

theorem explains_block {limit : Nat} {block : Action Parser (List Statement)}
    (hblock : ExplainsBodies limit block) (hreads : ReadsBodies block)
    (h : Advance p ts registry r) (hr : r.ahead = []) (hneed : r.need ≤ limit)
    (hlexical : ∀ t ∈ p.pending, t.Lexical) {f : List Statement → Action Parser α}
    (hf : ∀ us body after r', Advance p (ts ++ us) after r' → Explains p (f body) r') :
    Explains p (block >>= f) r := by
  refine Explains.bind (.from_advance h (hblock hr hneed (h.lexical hlexical)))
    fun body r' hbody => ?_
  obtain ⟨us, _, after, _, _, hadvance⟩ := hreads hr hbody
  exact hf us body after r' (h.trans hadvance)

end Advance

theorem readAssign_explains {p : Parser} (hp : p.Steady) (hahead : p.ahead.length ≤ 3) :
    Explains p readAssign p := by
  refine (Advance.refl hp).explains_expect (by simp) fun target r₁ _ h₁ => ?_
  refine h₁.explains_note fun r₂ h₂ => ?_
  refine h₂.explains_expect (by simp) fun sign r₃ _ h₃ => ?_
  refine h₃.explains_expect (by simp) fun number r₄ hnumber h₄ => ?_
  refine h₄.explains_value (by simp) hnumber fun value => ?_
  refine h₄.explains_note fun r₅ h₅ => ?_
  exact h₅.explains_end (h₅.ahead_nil hahead)

theorem readIncrement_explains {p : Parser} (hp : p.Steady) (hahead : p.ahead.length ≤ 4) :
    Explains p readIncrement p := by
  refine (Advance.refl hp).explains_expect (by simp) fun target r₁ _ h₁ => ?_
  refine h₁.explains_note fun r₂ h₂ => ?_
  refine h₂.explains_expect (by simp) fun sign r₃ _ h₃ => ?_
  refine h₃.explains_expect (by simp) fun operand r₄ _ h₄ => ?_
  refine h₄.explains_note fun r₅ h₅ => ?_
  refine h₅.explains_expect (by simp) fun plus r₆ _ h₆ => ?_
  refine h₆.explains_expect (by simp) fun one r₇ hone h₇ => ?_
  refine h₇.explains_value (by simp) hone fun value => ?_
  split
  · exact .fail rfl
  · exact h₇.explains_end (h₇.ahead_nil (Nat.le_succ_of_le hahead))

/-- The program is tested for before the arguments are read, and nothing in between takes it away, so
the lookup behind them gives it. -/
theorem readCall_explains {p : Parser} (hp : p.Steady) (hahead : p.ahead.length ≤ 4)
    (hlexical : ∀ t ∈ p.pending, t.Lexical) : Explains p readCall p := by
  refine (Advance.refl hp).explains_expect (by simp) fun target r₁ _ h₁ => ?_
  refine h₁.explains_note fun r₂ h₂ => ?_
  refine h₂.explains_expect (by simp) fun sign r₃ _ h₃ => ?_
  refine h₃.explains_expect (by simp) fun callee r₄ hcallee h₄ => ?_
  refine Explains.bind (fun _ _ h => by cases h) fun parser r₄' hget => ?_
  cases hget
  have hkey : callee.text.isKey = true := (hlexical callee (by simp [h₄.pending])).isKey hcallee
  rw [h₄.registry]
  refine Explains.ofExcept_bind (Registry.contains_of_key hkey) ?_
  cases hfind : p.registry.find? callee.text with
  | none => exact .fail rfl
  | some d =>
    refine h₄.explains_note fun r₅ h₅ => ?_
    refine h₅.explains_expect (by simp) fun left r₆ _ h₆ => ?_
    refine h₆.explains_nameList fun us args r₇ _ h₇ => ?_
    refine Explains.bind (fun _ _ h => by cases h) fun parser r₇' hget => ?_
    cases hget
    rw [h₇.registry]
    refine Explains.ofExcept_bind (Registry.lookup_of_find? hkey hfind) ?_
    split
    · exact .fail rfl
    · refine h₇.explains_note fun r₈ h₈ => ?_
      exact h₈.explains_end (h₈.ahead_nil (by simp; omega))

theorem readInput_explains {p : Parser} (hp : p.ahead = []) : Explains p readInput p := by
  refine (Advance.refl (steady_of_ahead_nil hp)).explains_expect (by simp) fun word r₁ _ h₁ => ?_
  refine h₁.explains_itemList (h₁.ahead_nil (by simp [hp])) (by simp) fun us targets r₂ _ h₂ => ?_
  refine h₂.explains_note fun r₃ h₃ => ?_
  exact h₃.explains_end (h₃.ahead_nil (by simp [hp]))

theorem readOutput_explains {p : Parser} (hp : p.ahead = []) : Explains p readOutput p := by
  refine (Advance.refl (steady_of_ahead_nil hp)).explains_expect (by simp) fun word r₁ _ h₁ => ?_
  refine h₁.explains_itemList (h₁.ahead_nil (by simp [hp])) (by simp)
    fun us items r₂ hitems h₂ => ?_
  cases hnumbers : checkNumbers items with
  | ok _ =>
    refine Explains.bind (fun _ _ h => by cases h) fun _ r₂' hok => ?_
    cases hok
    refine h₂.explains_note fun r₃ h₃ => ?_
    exact h₃.explains_end (h₃.ahead_nil (by simp [hp]))
  | error e =>
    intro e' q hrun
    cases hrun
    obtain ⟨t, ht, hnumber⟩ := checkNumbers_error hnumbers
    refine .inr (.inr ⟨t, ?_, hnumber⟩)
    rw [h₂.pending]
    simp [(hitems.mem.2 t ht).2]

theorem readLoop_explains {limit : Nat} {block : Action Parser (List Statement)}
    (hblock : ExplainsBodies limit block) (hreads : ReadsBodies block) {p : Parser}
    (hp : p.ahead = []) (hneed : p.need ≤ limit + 1) (hlexical : ∀ t ∈ p.pending, t.Lexical) :
    Explains p (readLoop block) p := by
  refine (Advance.refl (steady_of_ahead_nil hp)).explains_expect (by simp) fun word r₁ _ h₁ => ?_
  refine h₁.explains_expect (by simp) fun count r₂ _ h₂ => ?_
  refine h₂.explains_note fun r₃ h₃ => ?_
  have hnil : r₃.ahead = [] := h₃.ahead_nil (by simp [hp])
  refine Explains.bind (.from_advance h₃ (skipDo_explains hnil)) fun _ r₄ hskip => ?_
  obtain ⟨opening, _, hdo⟩ := skipDo_ok hnil hskip
  have h₄ := h₃.trans hdo
  have htaken : p.need = _ + r₄.need := h₄.need
  refine h₄.explains_block hblock hreads (h₄.ahead_nil (by simp [hp])) (by simp at htaken; omega)
    hlexical fun us body after r₅ h₅ => ?_
  refine h₅.explains_note fun r₆ h₆ => ?_
  exact h₆.explains_end (h₆.ahead_nil (by simp [hp]))

/-- A definition is registered, or its name is taken. -/
theorem onRegistry_define {d : Definition} {name : String} (hname : d.name = .text name)
    (r : Parser) :
    (∃ e r', onRegistry (Registry.define d) r = (.error e, r') ∧ e.category = .parsing) ∨
      onRegistry (Registry.define d) r =
        (.ok (), { r with registry := r.registry ++ [d] }) := by
  cases hfind : r.registry.find? (.text name) with
  | some known =>
    have hdefine := Registry.define_of_known hname hfind
    refine .inl ⟨.alreadyDefined (.text name) none, r, ?_, rfl⟩
    simp only [onRegistry, Action.onPart, hdefine]
  | none =>
    have hdefine := Registry.define_of_new (d := d) (by rw [hname]; rfl) (hname ▸ hfind)
    exact .inr (by simp only [onRegistry, Action.onPart, hdefine])

theorem readDefine_explains {limit : Nat} {block : Action Parser (List Statement)}
    (hblock : ExplainsBodies limit block) (hreads : ReadsBodies block) {p : Parser}
    (hp : p.ahead = []) (hneed : p.need ≤ limit + 1) (hlexical : ∀ t ∈ p.pending, t.Lexical) :
    Explains p (readDefine block) p := by
  refine (Advance.refl (steady_of_ahead_nil hp)).explains_expect (by simp) fun word r₁ _ h₁ => ?_
  refine h₁.explains_expect (by simp) fun name r₂ hname h₂ => ?_
  refine Explains.bind (fun _ _ h => by cases h) fun parser r₂' hget => ?_
  cases hget
  have hlex : name.Lexical := hlexical name (by simp [h₂.pending])
  refine Explains.ofExcept_bind (Registry.contains_of_key (hlex.isKey hname)) ?_
  split
  · exact .fail rfl
  refine h₂.explains_note fun r₃ h₃ => ?_
  refine h₃.explains_expect (by simp) fun left r₄ _ h₄ => ?_
  refine h₄.explains_nameList fun ts params r₅ _ h₅ => ?_
  split
  · exact .fail rfl
  refine h₅.explains_note fun r₆ h₆ => ?_
  refine h₆.explains_expect (by simp) fun opening r₇ _ h₇ => ?_
  have htaken : p.need = _ + r₇.need := h₇.need
  refine h₇.explains_block hblock hreads (h₇.ahead_nil (by simp [hp])) (by simp at htaken; omega)
    hlexical fun us body after r₈ h₈ => ?_
  refine h₈.explains_note fun r₉ h₉ => ?_
  obtain ⟨text, htext⟩ : ∃ text, name.text = .text text := (hlex.identifier hname).exists_text
  obtain ⟨e, last, hdefine, he⟩ | hdefine :=
    @onRegistry_define ⟨name.text, params, body⟩ text htext r₉
  · intro e' q hrun
    rw [Action.bind_error hdefine] at hrun
    cases hrun
    exact .inl he
  · intro e q hrun
    rw [Action.bind_ok hdefine] at hrun
    have hlast : Advance p _ (r₉.registry ++ [⟨name.text, params, body⟩])
        { r₉ with registry := r₉.registry ++ [⟨name.text, params, body⟩] } :=
      { h₉ with registry := rfl }
    exact hlast.explains_end (hlast.ahead_nil (by simp [hp])) e q hrun

theorem nextToken_at_end {p q : Parser} {t : Token} (hp : p.lexer.pushed = none)
    (hahead : ∀ u ∈ p.ahead, u.kind ≠ .eof) (h : nextToken p = (.ok t, q)) (ht : t.kind = .eof) :
    q.ahead = [] ∧ q.fault = none := by
  obtain ⟨_, _, hcons, hr, _⟩ | ⟨hnil, _, hnext, rfl⟩ := nextToken_cases h
  · cases hr
    exact absurd ht (hahead t (by simp [hcons]))
  · exact ⟨hnil, Lexer.fault_after_eof hp hnext ht⟩

/-- Where no end token was looked at and none is pushed back, taking tokens fails only with the
lexical error behind them. -/
theorem takeTokens_error {count : Nat} {p q : Parser} {e : Error} (hp : p.lexer.pushed = none)
    (hahead : ∀ t ∈ p.ahead, t.kind ≠ .eof) (h : takeTokens count p = (.error e, q)) :
    p.fault = some e := by
  induction count generalizing p with
  | zero => cases h
  | succ count ih =>
    have hsteady : p.Steady := fun _ => hp
    obtain hfail | ⟨t, r, hnext, hrest⟩ := Action.bind_eq_error_iff.mp h
    · exact nextToken_error hfail
    · obtain hfail | ⟨ts, r', _, hdone⟩ := Action.bind_eq_error_iff.mp hrest
      · by_cases ht : t.kind = .eof
        · -- The end came from the lexer, and there is no error behind it.
          obtain ⟨hnil, hfault⟩ := nextToken_at_end hp hahead hnext ht
          have hnone := ih (nextToken_pushed hsteady hnext) (by simp [hnil]) hfail
          rw [hfault] at hnone
          cases hnone
        · have hadvance := nextToken_ok hsteady hnext ht
          rw [← hadvance.fault]
          refine ih (nextToken_pushed hsteady hnext) (fun u hu => hahead u ?_) hfail
          rw [hadvance.ahead] at hu
          exact List.mem_of_mem_drop hu
      · cases hdone

theorem peek_error {count : Nat} {p q : Parser} {e : Error} (hp : p.lexer.pushed = none)
    (hahead : ∀ t ∈ p.ahead, t.kind ≠ .eof) (h : peek count p = (.error e, q)) :
    p.fault = some e := by
  obtain hfail | ⟨ts, r, _, hdone⟩ := Action.bind_eq_error_iff.mp h
  · exact takeTokens_error hp hahead hfail
  · cases hdone

/-- The same where the first token is still pushed back. -/
theorem peek_error_of_pending {count : Nat} {p q : Parser} {t : Token} {us : List Token}
    {e : Error} (hp : p.ahead = []) (hpending : p.pending = t :: us) (ht : t.kind ≠ .eof)
    (h : peek (count + 1) p = (.error e, q)) : p.fault = some e := by
  obtain ⟨r, hnext⟩ := nextToken_of_pending hpending
  have hadvance := nextToken_ok (steady_of_ahead_nil hp) hnext ht
  have hnil := nextToken_ahead_nil hp hnext
  obtain hfail | ⟨_, _, _, hdone⟩ := Action.bind_eq_error_iff.mp h
  · rw [takeTokens, Action.bind_ok hnext] at hfail
    obtain hfail | ⟨_, _, _, hdone⟩ := Action.bind_eq_error_iff.mp hfail
    · rw [← hadvance.fault]
      have hpushed := nextToken_pushed (steady_of_ahead_nil hp) hnext
      exact takeTokens_error hpushed (by simp [hnil]) hfail
    · cases hdone
  · cases hdone

theorem assignmentForm_explains {p : Parser} {t : Token} {us : List Token} (hp : p.ahead = [])
    (hpending : p.pending = t :: us) (ht : t.kind ≠ .eof) : Explains p assignmentForm p := by
  have hsteady := steady_of_ahead_nil hp
  refine Explains.bind (fun e q h => .inr (.inl (peek_error_of_pending hp hpending ht h)))
    fun ts r hpeek => ?_
  obtain ⟨vs, rfl, hvs⟩ :=
    @peek_front [t] us 2 p r ts hsteady (by simpa using ht) hpending hpeek
  obtain ⟨sign, value, rfl⟩ : ∃ sign value, vs = [sign, value] := by
    match vs, hvs with
    | [sign, value], _ => exact ⟨sign, value, rfl⟩
  simp only [List.cons_append, List.nil_append, List.getD_cons_succ, List.getD_cons_zero]
  split
  · exact .fail rfl
  next hsign =>
  have hsign : sign.kind = .assign := Decidable.not_not.mp hsign
  split
  · exact .pure _
  split
  · exact .fail rfl
  next hvalue =>
  have hvalue : value.kind = .identifier := Decidable.not_not.mp hvalue
  obtain ⟨_, hlook, hahead, _⟩ := peek_ok hsteady (by simp) hpeek (by simp [ht, hsign, hvalue])
  have hahead : r.ahead = [t, sign, value] := by simpa [hp] using hahead
  refine Explains.bind (fun e q h => .inr (.inl ?_)) fun more r' _ => ?_
  · rw [← hlook.fault]
    exact peek_error (hlook.steady (by simp [hahead])) (by simp [hahead, ht, hsign, hvalue]) h
  · split
    · exact .pure _
    · split
      · exact .pure _
      · exact .fail rfl

theorem formOf_explains {p : Parser} {t : Token} {us : List Token} (hp : p.ahead = [])
    (hpending : p.pending = t :: us) (ht : t.kind ≠ .eof) : Explains p (formOf t) p := by
  unfold formOf
  cases t.kind
  case identifier => exact assignmentForm_explains hp hpending ht
  case kwInput | kwPrint | kwLoop | kwProgram => exact .pure _
  all_goals
    intro e q h
    cases h
    exact .inl rfl

theorem readForm_explains {limit : Nat} {block : Action Parser (List Statement)}
    (hblock : ExplainsBodies limit block) (hreads : ReadsBodies block) {form : Statement.Form}
    {p : Parser} (hp : p.Steady) (hahead : p.ahead.length ≤ lookahead form)
    (hneed : p.need ≤ limit + 1) (hlexical : ∀ t ∈ p.pending, t.Lexical) :
    Explains p (readForm block form) p := by
  cases form with
  | assign => exact readAssign_explains hp hahead
  | increment => exact readIncrement_explains hp hahead
  | call => exact readCall_explains hp hahead hlexical
  | input => exact readInput_explains (List.length_eq_zero_iff.mp (Nat.le_zero.mp hahead))
  | output => exact readOutput_explains (List.length_eq_zero_iff.mp (Nat.le_zero.mp hahead))
  | loop =>
    exact readLoop_explains hblock hreads (List.length_eq_zero_iff.mp (Nat.le_zero.mp hahead)) hneed
      hlexical
  | define =>
    exact readDefine_explains hblock hreads (List.length_eq_zero_iff.mp (Nat.le_zero.mp hahead))
      hneed hlexical

theorem Looked.explains {p q r : Parser} {act : Action Parser α} (h : Looked p q)
    (hact : Explains q act r) : Explains p act r := by
  intro e s hrun
  have he := hact e s hrun
  unfold Justified at he ⊢
  rwa [h.pending, h.fault] at he

theorem nextBy_explains {limit : Nat} {block : Action Parser (List Statement)}
    (hblock : ExplainsBodies limit block) (hreads : ReadsBodies block) {p : Parser}
    (hp : p.ahead = []) (hneed : p.need ≤ limit + 1) (hlexical : ∀ t ∈ p.pending, t.Lexical) :
    Explains p (nextBy block) p := by
  refine Explains.bind (fun _ _ h => by cases h) fun parser p' hget => ?_
  cases hget
  split
  · exact .pure _
  refine (skipSemicolons_explains hp p.need_le_size).bind fun t r' hskip => ?_
  obtain ⟨semis, r, _, hadvance, hahead, hnext⟩ := skipSemicolons_ok hp hskip
  split
  · exact .pure _
  split
  · exact .fail rfl
  next hne =>
  -- The token goes back and the statement is read from where it stands.
  obtain ⟨back, hback, hstay, us, hpending⟩ := pushBack_of_nextToken hahead hnext
  have hstart := hadvance.trans hstay
  have hnil : back.ahead = [] := hstart.ahead_nil (by simp [hp])
  have htaken : p.need = _ + back.need := hstart.need
  refine Explains.bind (fun e q h => by rw [hback] at h; cases h) fun _ back' hrun => ?_
  rw [hback] at hrun
  cases hrun
  refine Explains.from_advance hstart ?_
  refine (formOf_explains hnil hpending hne).bind fun form look hform => ?_
  obtain ⟨hlook, hlength⟩ := formOf_ok hnil hpending hform
  refine hlook.explains ((readForm_explains hblock hreads hlook.steady hlength ?_ ?_).bind
    fun _ _ _ => .pure _)
  · unfold need
    rw [hlook.pending, hlook.fault]
    show back.need ≤ limit + 1
    omega
  · rw [hlook.pending]
    exact hstart.lexical hlexical

theorem inBlock_explains {limit : Nat} {act : Action Parser (List Statement)}
    (hact : ∀ {p : Parser}, p.ahead = [] → p.done = false → p.need ≤ limit →
      (∀ t ∈ p.pending, t.Lexical) → Explains p act p) : ExplainsBodies limit (inBlock act) := by
  intro p hp hneed hlexical e q h
  have hpending : (ofLexer p.lexer .kwEnd p.registry).pending = p.pending := by
    simp [pending, ofLexer, hp]
  have hfault : (ofLexer p.lexer .kwEnd p.registry).fault = p.fault := rfl
  unfold inBlock at h
  cases hrun : act (ofLexer p.lexer .kwEnd p.registry) with
  | mk result inside =>
    rw [hrun] at h
    cases h
    have he := hact rfl rfl (by rwa [need, hpending, hfault]) (by rwa [hpending]) e inside hrun
    unfold Justified at he ⊢
    rwa [hpending, hfault] at he

/-- With as much fuel as there are tokens, statements are read or the tokens account for the
failure. -/
theorem statements_explains {fuel : Nat} {p : Parser} (hp : p.ahead = []) (hdone : p.done = false)
    (hneed : p.need ≤ fuel) (hlexical : ∀ t ∈ p.pending, t.Lexical) :
    Explains p (statements fuel) p := by
  induction fuel generalizing p with
  | zero => exact absurd p.need_pos (by omega)
  | succ fuel ih =>
    have hreads : ReadsBodies (inBlock (statements fuel)) := inBlock_ok statements_ok
    refine (nextBy_explains (inBlock_explains ih) hreads hp hneed hlexical).bind
      fun result r hnext => ?_
    cases result with
    | none => exact .pure _
    | some s =>
      obtain ⟨semis, r', _, hskip, _, hreads⟩ := nextBy_ok hreads hp hdone hnext
      obtain ⟨ts, _, sep, registry, hts, _, ⟨hnil, _⟩, hadvance⟩ := hreads
      obtain ⟨first, rest, rfl, _⟩ := hts.exists_cons
      have hfirst := hskip.trans hadvance
      have htaken : p.need = _ + r.need := hfirst.need
      refine Explains.from_advance hfirst ((ih hnil (hfirst.done.trans hdone) ?_
        (hfirst.lexical hlexical)).bind fun _ _ _ => .pure _)
      simp at htaken
      omega

end Parser

/-- A source that is refused by descent has a lexical error, a number that is too long to be read,
or an error of the grammar or of its context. -/
theorem parseByDescent_error {source : String} {registry after : Registry} {e : Error}
    (h : parseByDescent source registry = (.error e, after)) :
    e.category = .parsing ∨ (Lexer.ofSource source false).tokens.2.1 = some e ∨
      ∃ t ∈ (Lexer.ofSource source false).tokens.1, t.kind = .number ∧ t.value = .error e := by
  let p := Parser.ofLexer (Lexer.ofSource source false) .eof registry
  have hlexical : ∀ t ∈ p.pending, t.Lexical := Lexer.tokens_lexical p.lexer rfl
  cases hrun : Parser.statements p.size p with
  | mk result q =>
    have hparse : parseByDescent source registry = (result, q.registry) := by
      show ((Parser.statements p.size p).1, (Parser.statements p.size p).2.registry) = _
      rw [hrun]
    rw [hparse] at h
    cases h
    exact Parser.statements_explains rfl rfl p.need_le_size hlexical e q hrun

end LoopLanguage
