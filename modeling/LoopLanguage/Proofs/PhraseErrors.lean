import LoopLanguage.Proofs.DescentErrors

/-!
What can go wrong when a source is parsed by the grammar. Reading phrases fails only where a
terminal is not allowed, or with the lexical error that the pieces end with; there is always enough
fuel. Phrases that were read fail to mean something only by the rules of context, or through one of
their pieces: a literal that cannot be read, or a number that is too long.
-/

namespace LoopLanguage.Grammar

open LoopLanguage.Action (Ensures)

namespace Phrase

mutual

/-- The numbers and items of the phrase are what they should be and have the property. -/
def Over (P : Piece → Prop) : Phrase → Prop
  | assign _ number => number.terminal = .number ∧ P number
  | increment _ _ number => number.terminal = .number ∧ P number
  | call .. => True
  | input items => ∀ item ∈ items, item.IsItem ∧ P item
  | output items => ∀ item ∈ items, item.IsItem ∧ P item
  | loop _ body => OverAll P body
  | define _ _ body => OverAll P body

def OverAll (P : Piece → Prop) : List Phrase → Prop
  | [] => True
  | phrase :: phrases => Over P phrase ∧ OverAll P phrases

end

end Phrase

/-- What reading pieces with that fault behind them can fail with. -/
def Refused (fault : Option Error) (e : Error) : Prop := e.category = .parsing ∨ fault = some e

/-- The feed has at most `size` pieces, all with the property, and that fault. -/
structure Feed.Holds (P : Piece → Prop) (fault : Option Error) (size : Nat) (r : Feed) : Prop where
  pieces : ∀ piece ∈ r.pieces, P piece
  fault : r.fault = fault
  size : r.pieces.length ≤ size

namespace Feed.Holds

variable {α : Type} {P : Piece → Prop} {fault : Option Error} {n m : Nat} {r : Feed}
  {expected : List Terminal} {Q : α → Feed → Prop}

theorem mono (h : r.Holds P fault m) (hle : m ≤ n) : r.Holds P fault n :=
  { h with size := Nat.le_trans h.size hle }

theorem look (h : r.Holds P fault n) {f : Piece → Action Feed α}
    (hf : ∀ piece, r.front = .ok piece → piece.terminal ∈ expected →
      Ensures (f piece) r Q (Refused fault)) :
    Ensures (Grammar.look expected >>= f) r Q (Refused fault) := by
  cases hfront : r.front with
  | error e =>
    have hlook : Grammar.look expected r = (.error e, r) := by simp [Grammar.look, hfront]
    refine Ensures.of_error (Action.bind_error hlook) (.inr ?_)
    unfold Feed.front at hfront
    split at hfront
    · cases hfront
    · next hfault =>
      cases hfront
      rw [← h.fault, hfault]
    · cases hfront
  | ok piece =>
    by_cases hmem : piece.terminal ∈ expected
    · have hlook : Grammar.look expected r = (.ok piece, r) := by
        simp [Grammar.look, hfront, hmem]
      exact Ensures.bind_of_ok hlook (hf piece hfront hmem)
    · have hlook : Grammar.look expected r = (.error (unexpected expected piece), r) := by
        simp [Grammar.look, hfront, hmem]
      exact Ensures.of_error (Action.bind_error hlook) (.inl rfl)

theorem shift (h : r.Holds P fault n) (hexpected : .finish ∉ expected) {f : Piece → Action Feed α}
    (hf : ∀ piece r' m, piece.terminal ∈ expected → P piece → r'.Holds P fault m → n = m + 1 →
      Ensures (f piece) r' Q (Refused fault)) :
    Ensures (Grammar.shift expected >>= f) r Q (Refused fault) := by
  show Ensures ((Grammar.look expected >>= fun piece =>
    Action.modify Feed.drop >>= fun _ => pure piece) >>= f) r Q (Refused fault)
  rw [bind_assoc]
  refine h.look fun piece hfront hmem => ?_
  obtain ⟨hpieces, hfault⟩ := took_drop hfront fun hfinish => hexpected (hfinish ▸ hmem)
  have hsize := h.size
  rw [hpieces, List.length_append, List.length_singleton] at hsize
  refine hf piece r.drop (n - 1) hmem (h.pieces piece (by simp [hpieces])) ⟨?_, ?_, ?_⟩ ?_
  · exact fun other hother => h.pieces other (by simp [hpieces, hother])
  · rw [hfault, h.fault]
  · omega
  · omega

theorem namesFrom {count : Nat} (h : r.Holds P fault n) (hcount : n < count) (name : Piece) :
    Ensures (Grammar.namesFrom count name) r (fun _ r' => r'.Holds P fault n) (Refused fault) := by
  induction count generalizing r n name with
  | zero => omega
  | succ count ih =>
    refine h.shift (by simp) fun sep r₁ m _ _ h₁ hm => ?_
    split
    · refine h₁.shift (by simp) fun next r₂ k _ _ h₂ hk => ?_
      refine (ih h₂ (by omega) next).bind fun _ r₃ h₃ => ?_
      exact Ensures.of_ok rfl (h₃.mono (by omega))
    · exact Ensures.of_ok rfl (h₁.mono (by omega))

theorem nameList (h : r.Holds P fault n) :
    Ensures Grammar.nameList r (fun _ r' => r'.Holds P fault n) (Refused fault) := by
  refine h.shift (by simp) fun piece r₁ m _ _ h₁ hm => ?_
  split
  · exact Ensures.of_ok rfl (h₁.mono (by omega))
  · refine Ensures.bind_of_ok rfl ?_
    have hexact : r₁.Holds P fault r₁.pieces.length := { h₁ with size := Nat.le_refl _ }
    refine (hexact.namesFrom (Nat.lt_succ_self _) piece).imp (fun _ r' h' => h'.mono ?_) fun _ => id
    have hsize := h₁.size
    omega

theorem itemsFrom {kinds : List Terminal} (hkinds : kinds ⊆ [.identifier, .number, .string])
    {count : Nat} (h : r.Holds P fault n) (hcount : n < count) :
    Ensures (Grammar.itemsFrom kinds count) r
      (fun items r' => (∀ item ∈ items, item.IsItem ∧ P item) ∧ r'.Holds P fault n)
      (Refused fault) := by
  have hfinish : .finish ∉ kinds := fun hmem => by simpa using hkinds hmem
  induction count generalizing r n with
  | zero => omega
  | succ count ih =>
    refine h.look fun sep _ _ => ?_
    split
    · refine h.shift (by simp) fun comma r₁ m _ _ h₁ hm => ?_
      refine h₁.look fun item _ _ => ?_
      split
      · refine h₁.shift hfinish fun item r₂ k hkind hitem h₂ hk => ?_
        refine (ih h₂ (by omega)).bind fun items r₃ ⟨hitems, h₃⟩ => ?_
        refine Ensures.of_ok rfl ⟨?_, h₃.mono (by omega)⟩
        exact List.forall_mem_cons.mpr ⟨⟨hkinds hkind, hitem⟩, hitems⟩
      · exact Ensures.of_ok rfl ⟨by simp, h₁.mono (by omega)⟩
    · exact Ensures.of_ok rfl ⟨by simp, h⟩

theorem itemList {kinds : List Terminal} (hkinds : kinds ⊆ [.identifier, .number, .string])
    (h : r.Holds P fault n) :
    Ensures (Grammar.itemList kinds) r
      (fun items r' => (∀ item ∈ items, item.IsItem ∧ P item) ∧ r'.Holds P fault n)
      (Refused fault) := by
  have hfinish : .finish ∉ kinds := fun hmem => by simpa using hkinds hmem
  refine h.shift hfinish fun first r₁ m hkind hfirst h₁ hm => ?_
  refine Ensures.bind_of_ok rfl ?_
  have hexact : r₁.Holds P fault r₁.pieces.length := { h₁ with size := Nat.le_refl _ }
  refine (hexact.itemsFrom hkinds (Nat.lt_succ_self _)).bind fun items r₂ ⟨hitems, h₂⟩ => ?_
  refine Ensures.of_ok rfl ⟨List.forall_mem_cons.mpr ⟨⟨hkinds hkind, hfirst⟩, hitems⟩, h₂.mono ?_⟩
  have hsize := h₁.size
  omega

theorem assignment (h : r.Holds P fault n) (target : Piece) :
    Ensures (Grammar.assignment target) r
      (fun phrase r' => phrase.Over P ∧ r'.Holds P fault n) (Refused fault) := by
  refine h.shift (by simp) fun sign r₁ m _ _ h₁ hm => ?_
  refine h₁.shift (by simp) fun value r₂ k _ hvalue h₂ hk => ?_
  split
  · next hnumber => exact Ensures.of_ok rfl ⟨⟨hnumber, hvalue⟩, h₂.mono (by omega)⟩
  refine h₂.shift (by simp) fun mark r₃ l _ _ h₃ hl => ?_
  split
  · refine h₃.shift (by simp) fun one r₄ j hnumber hone h₄ hj => ?_
    exact Ensures.of_ok rfl ⟨⟨by simpa using hnumber, hone⟩, h₄.mono (by omega)⟩
  · refine h₃.nameList.bind fun args r₄ h₄ => ?_
    exact Ensures.of_ok rfl ⟨trivial, h₄.mono (by omega)⟩

/-- How bodies are read: from fewer than `limit` pieces with the property come phrases over them, or
an error that the fault or a piece accounts for. -/
def Blocks (P : Piece → Prop) (fault : Option Error) (limit : Nat) (block : Block) : Prop :=
  ∀ first r n, n < limit → r.Holds P fault n →
    Ensures (block first) r (fun body r' => Phrase.OverAll P body ∧ r'.Holds P fault n)
      (Refused fault)

variable {limit : Nat} {block : Block}

theorem loop (hblock : Blocks P fault limit block) (h : r.Holds P fault n) (hlimit : n ≤ limit) :
    Ensures (Grammar.loop block) r
      (fun phrase r' => phrase.Over P ∧ r'.Holds P fault n) (Refused fault) := by
  refine h.shift (by simp) fun count r₁ m _ _ h₁ hm => ?_
  refine h₁.look fun piece _ _ => ?_
  split
  · refine h₁.shift (by simp) fun word r₂ k _ _ h₂ hk => ?_
    refine (hblock _ _ k (by omega) h₂).bind fun body r₃ ⟨hbody, h₃⟩ => ?_
    exact Ensures.of_ok rfl ⟨hbody, h₃.mono (by omega)⟩
  · refine (hblock _ _ m (by omega) h₁).bind fun body r₂ ⟨hbody, h₂⟩ => ?_
    exact Ensures.of_ok rfl ⟨hbody, h₂.mono (by omega)⟩

theorem definition (hblock : Blocks P fault limit block) (h : r.Holds P fault n)
    (hlimit : n ≤ limit) :
    Ensures (Grammar.definition block) r
      (fun phrase r' => phrase.Over P ∧ r'.Holds P fault n) (Refused fault) := by
  refine h.shift (by simp) fun name r₁ m _ _ h₁ hm => ?_
  refine h₁.shift (by simp) fun mark r₂ k _ _ h₂ hk => ?_
  refine h₂.nameList.bind fun params r₃ h₃ => ?_
  refine h₃.shift (by simp) fun word r₄ l _ _ h₄ hl => ?_
  refine (hblock _ _ l (by omega) h₄).bind fun body r₅ ⟨hbody, h₅⟩ => ?_
  exact Ensures.of_ok rfl ⟨hbody, h₅.mono (by omega)⟩

theorem statement (hblock : Blocks P fault limit block) (h : r.Holds P fault n)
    (hlimit : n ≤ limit) :
    Ensures (Grammar.statement block) r
      (fun phrase r' => phrase.Over P ∧ ∃ m, m < n ∧ r'.Holds P fault m) (Refused fault) := by
  refine h.shift (by decide) fun piece r₁ m _ _ h₁ hm => ?_
  have hshrink : ∀ (phrase : Phrase) (r' : Feed), phrase.Over P ∧ r'.Holds P fault m →
      phrase.Over P ∧ ∃ m, m < n ∧ r'.Holds P fault m :=
    fun _ _ ⟨hphrase, h'⟩ => ⟨hphrase, m, by omega, h'⟩
  split
  · refine (h₁.itemList (by simp)).bind fun items r₂ hitems => ?_
    exact Ensures.of_ok rfl (hshrink _ _ hitems)
  · exact (h₁.loop hblock (by omega)).imp hshrink fun _ => id
  · exact (h₁.definition hblock (by omega)).imp hshrink fun _ => id
  · exact (h₁.assignment piece).imp hshrink fun _ => id
  · refine (h₁.itemList (by simp)).bind fun items r₂ hitems => ?_
    exact Ensures.of_ok rfl (hshrink _ _ hitems)

/-- With more fuel than there are pieces, phrases are read or the feed accounts for the failure. -/
theorem phrases {fuel : Nat} (h : r.Holds P fault n) (hfuel : n < fuel) (close : Terminal)
    (expected : List Terminal) :
    Ensures (Grammar.phrases fuel close expected) r
      (fun found r' => Phrase.OverAll P found ∧ r'.Holds P fault n) (Refused fault) := by
  induction fuel generalizing r n close expected with
  | zero => omega
  | succ fuel ih =>
    refine h.look fun piece _ _ => ?_
    split
    · refine h.shift (by simp) fun sep r₁ m _ _ h₁ hm => ?_
      refine (ih h₁ (by omega) close _).imp ?_ fun _ => id
      exact fun found r₂ ⟨hfound, h₂⟩ => ⟨hfound, h₂.mono (by omega)⟩
    split
    · split
      · exact Ensures.of_ok rfl ⟨trivial, h⟩
      · exact Ensures.of_error rfl (.inl rfl)
    have hblock : Blocks P fault fuel fun first => do
        let body ← Grammar.phrases fuel .kwEnd first
        let _ ← Grammar.shift [.kwEnd]
        return body := by
      intro first r₁ m hm h₁
      refine (ih h₁ hm .kwEnd first).bind fun body r₂ ⟨hbody, h₂⟩ => ?_
      refine h₂.shift (by simp) fun word r₃ k _ _ h₃ hk => ?_
      exact Ensures.of_ok rfl ⟨hbody, h₃.mono (by omega)⟩
    refine (h.statement hblock (by omega)).bind fun phrase r₁ ⟨hphrase, m, hm, h₁⟩ => ?_
    refine (ih h₁ (by omega) close _).bind fun found r₂ ⟨hfound, h₂⟩ => ?_
    exact Ensures.of_ok rfl ⟨⟨hphrase, hfound⟩, h₂.mono (by omega)⟩

end Feed.Holds

/-- Reading the phrases of a source fails only as the grammar or a lexical error says. -/
theorem program_ensures (feed : Feed) :
    Ensures program feed (fun found _ => Phrase.OverAll (· ∈ feed.pieces) found)
      (Refused feed.fault) := by
  have h : feed.Holds (· ∈ feed.pieces) feed.fault feed.pieces.length :=
    ⟨fun _ => id, rfl, Nat.le_refl _⟩
  exact (h.phrases (Nat.lt_succ_self _) _ _).imp (fun _ _ found => found.1) fun _ => id

/-- One of the pieces is a literal or a number that fails with the error. -/
def Spoilt (P : Piece → Prop) (e : Error) : Prop :=
  ∃ piece, P piece ∧
    (piece.IsItem ∧ piece.token = .error e ∨ piece.terminal = .number ∧ piece.value = .error e)

/-- The action ends in a result, or fails by a rule of context or through one of the pieces. -/
def Interpreted {α : Type} (P : Piece → Prop) (act : Action Registry α) (registry : Registry)
    (Q : α → Prop) : Prop :=
  Ensures act registry (fun a _ => Q a) fun e => e.category = .parsing ∨ Spoilt P e

theorem interpreted_ofExcept {α : Type} {P : Piece → Prop} {x : Except Error α}
    {registry : Registry} {Q : α → Prop} (hok : ∀ a, x = .ok a → Q a)
    (herror : ∀ e, x = .error e → Spoilt P e) :
    Interpreted P (Action.ofExcept x) registry Q := by
  cases x with
  | ok a => exact Ensures.of_ok rfl (hok a rfl)
  | error e => exact Ensures.of_error rfl (.inr (herror e rfl))

theorem number_interpreted {P : Piece → Prop} {number : Piece}
    (h : number.terminal = .number ∧ P number) (registry : Registry) :
    Interpreted P (Action.ofExcept number.value) registry fun _ => True :=
  interpreted_ofExcept (fun _ _ => trivial) fun _ he => ⟨number, h.2, .inr ⟨h.1, he⟩⟩

theorem items_interpreted {P : Piece → Prop} {items : List Piece}
    (h : ∀ item ∈ items, item.IsItem ∧ P item) (registry : Registry) :
    Interpreted P (Action.ofExcept (items.mapM Piece.token)) registry fun tokens =>
      ∀ t ∈ tokens, ∃ piece, P piece ∧ piece.token = .ok t := by
  induction items with
  | nil => exact Ensures.of_ok rfl (by simp)
  | cons first items ih =>
    rw [List.mapM_cons]
    obtain ⟨hitem, hpiece⟩ := h first (by simp)
    have hrest := ih fun item hitem => h item (by simp [hitem])
    cases hfirst : first.token with
    | error e => exact Ensures.of_error rfl (.inr ⟨first, hpiece, .inl ⟨hitem, hfirst⟩⟩)
    | ok t =>
      cases htokens : items.mapM Piece.token with
      | error e =>
        rw [htokens] at hrest
        exact Ensures.of_error rfl hrest
      | ok tokens =>
        rw [htokens] at hrest
        exact Ensures.of_ok rfl (List.forall_mem_cons.mpr ⟨⟨first, hpiece, hfirst⟩, hrest⟩)

theorem Piece.terminal_of_token {piece : Piece} {t : Token} (h : piece.token = .ok t)
    (hkind : t.kind = .number) : piece.terminal = .number := by
  unfold Piece.token at h
  split at h
  · split at h <;> cases h
    cases hkind
  · assumption
  · cases h
    cases hkind
  · cases h

namespace Phrase

mutual

theorem meaning_interpreted {P : Piece → Prop} :
    (phrase : Phrase) → phrase.Over P → ∀ registry,
      Interpreted P phrase.meaning registry fun _ => True
  | assign target number, h, registry =>
    (number_interpreted h registry).bind fun _ _ _ => Ensures.of_ok rfl trivial
  | increment target operand number, h, registry => by
    refine (number_interpreted h registry).bind fun value after _ => ?_
    split
    · exact Ensures.of_error rfl (.inl rfl)
    · exact Ensures.of_ok rfl trivial
  | call target callee args, _, registry => by
    unfold Interpreted Ensures
    rw [meaning_call]
    cases registry.find? callee.atom with
    | none => exact .inl rfl
    | some d =>
      by_cases hlength : args.length = d.params.length
      · simp [hlength]
      · simpa [hlength] using .inl rfl
  | input items, h, registry =>
    (items_interpreted h registry).bind fun _ _ _ => Ensures.of_ok rfl trivial
  | output items, h, registry => by
    refine (items_interpreted h registry).bind fun tokens after htokens => ?_
    have hnumbers : Interpreted P (Action.ofExcept (Parser.checkNumbers tokens)) after
        fun _ => True := by
      refine interpreted_ofExcept (fun _ _ => trivial) fun e he => ?_
      obtain ⟨t, ht, hkind, hvalue⟩ := Parser.checkNumbers_error he
      obtain ⟨piece, hpiece, htoken⟩ := htokens t ht
      refine ⟨piece, hpiece, .inr ⟨Piece.terminal_of_token htoken hkind, ?_⟩⟩
      simp [Piece.value, htoken, hvalue, bind, Except.bind]
    exact hnumbers.bind fun _ _ _ => Ensures.of_ok rfl trivial
  | loop count body, h, registry =>
    (meanings_interpreted body h registry).bind fun _ _ _ => Ensures.of_ok rfl trivial
  | define name params body, h, registry => by
    refine (meanings_interpreted body h registry).bind fun body after _ => ?_
    simp only []
    split
    · exact Ensures.of_error rfl (.inl rfl)
    cases hfind : after.find? (.text name.text) with
    | some known =>
      exact Ensures.of_error (Action.bind_error (Registry.define_of_known rfl hfind)) (.inl rfl)
    | none =>
      exact Ensures.bind_of_ok (Registry.define_of_new rfl hfind) (Ensures.of_ok rfl trivial)

theorem meanings_interpreted {P : Piece → Prop} :
    (phrases : List Phrase) → OverAll P phrases → ∀ registry,
      Interpreted P (meanings phrases) registry fun _ => True
  | [], _, _ => Ensures.of_ok rfl trivial
  | phrase :: phrases, h, registry => by
    refine (meaning_interpreted phrase h.1 registry).bind fun _ after _ => ?_
    exact (meanings_interpreted phrases h.2 after).bind fun _ _ _ => Ensures.of_ok rfl trivial

end

end Phrase

end LoopLanguage.Grammar

namespace LoopLanguage

/-- A source that is refused by the grammar has a lexical error, a literal that cannot be read, a
number that is too long, or an error of the grammar or of its context. -/
theorem parseByGrammar_error {source : String} {registry after : Registry} {e : Error}
    (h : parseByGrammar source registry = (.error e, after)) :
    e.category = .parsing ∨ (Grammar.Feed.ofSource source).fault = some e ∨
      ∃ piece ∈ (Grammar.Feed.ofSource source).pieces,
        piece.IsItem ∧ piece.token = .error e ∨
          piece.terminal = .number ∧ piece.value = .error e := by
  have hread := Grammar.program_ensures (Grammar.Feed.ofSource source)
  unfold parseByGrammar at h
  unfold Action.Ensures at hread
  split at h
  · next phrases r hrun =>
    rw [hrun] at hread
    have hmeaning := Grammar.Phrase.meanings_interpreted phrases hread registry
    rw [Grammar.Interpreted, Action.Ensures, h] at hmeaning
    exact hmeaning.imp id .inr
  · next e' r hrun =>
    rw [hrun] at hread
    cases h
    exact hread.imp id .inl

end LoopLanguage
