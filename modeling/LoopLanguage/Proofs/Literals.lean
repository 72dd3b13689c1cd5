import LoopLanguage.Proofs.PhraseErrors
import LoopLanguage.Proofs.PhrasesComplete

/-!
Literals that the grammar reads. A string is only read as an item, and an item has a meaning only
if its escapes can be read. So all literals of a source that has a meaning are sound, and with that
the sources that the grammar accepts are known exactly.
-/

namespace LoopLanguage.Grammar

/-- All strings that were read on the way from `start` to `r` have the property. -/
def Feed.Passed (P : Piece → Prop) (start r : Feed) : Prop :=
  ∀ piece ∈ start.pieces, piece.terminal = .string → P piece ∨ piece ∈ r.pieces

namespace Feed.Passed

variable {α : Type} {P : Piece → Prop} {start r after : Feed} {expected : List Terminal}
  {f : Piece → Action Feed α} {a : α}

theorem refl (r : Feed) : Passed P r r := fun _ hpiece _ => .inr hpiece

theorem took {piece : Piece} (h : Passed P start r) (htook : r.Took [piece] after)
    (hpiece : piece.terminal = .string → P piece) : Passed P start after := by
  intro other hother hstring
  rcases h other hother hstring with hP | hmem
  · exact .inl hP
  · rw [htook.1] at hmem
    rcases List.mem_append.mp hmem with hmem | hmem
    · obtain rfl := List.mem_singleton.mp hmem
      exact .inl (hpiece hstring)
    · exact .inr hmem

/-- Reading an item. -/
theorem item (h : Passed P start r) (hexpected : .finish ∉ expected)
    (hrun : (Grammar.shift expected >>= f) r = (.ok a, after)) :
    ∃ piece r', (P piece → Passed P start r') ∧ f piece r' = (.ok a, after) := by
  obtain ⟨piece, r', _, htook, hrest⟩ := (Took.refl r).shift hexpected hrun
  exact ⟨piece, r', fun hpiece => h.took htook fun _ => hpiece, hrest⟩

/-- Reading a piece that is no string. -/
theorem shift (h : Passed P start r) (hfinish : .finish ∉ expected) (hstring : .string ∉ expected)
    (hrun : (Grammar.shift expected >>= f) r = (.ok a, after)) :
    ∃ piece r', Passed P start r' ∧ f piece r' = (.ok a, after) := by
  obtain ⟨piece, r', hmem, htook, hrest⟩ := (Took.refl r).shift hfinish hrun
  exact ⟨piece, r', h.took htook fun heq => absurd (heq ▸ hmem) hstring, hrest⟩

theorem look (hrun : (Grammar.look expected >>= f) r = (.ok a, after)) :
    ∃ piece, f piece r = (.ok a, after) := by
  obtain ⟨piece, same, hlook, hrest⟩ := Action.bind_eq_ok_iff.mp hrun
  obtain ⟨_, _, rfl⟩ := look_eq_ok hlook
  exact ⟨piece, hrest⟩

theorem namesFrom {count : Nat} {name : Piece} {names : List Piece} (h : Passed P start r)
    (hrun : Grammar.namesFrom count name r = (.ok names, after)) : Passed P start after := by
  induction count generalizing name r names with
  | zero => cases hrun
  | succ count ih =>
    obtain ⟨sep, r₁, h₁, hrest₁⟩ := h.shift (by simp) (by simp) hrun
    split at hrest₁
    · obtain ⟨next, r₂, h₂, hrest₂⟩ := h₁.shift (by simp) (by simp) hrest₁
      obtain ⟨more, r₃, hmore, hdone⟩ := Action.bind_eq_ok_iff.mp hrest₂
      cases hdone
      exact ih h₂ hmore
    · cases hrest₁
      exact h₁

theorem nameList {names : List Piece} (h : Passed P start r)
    (hrun : Grammar.nameList r = (.ok names, after)) : Passed P start after := by
  obtain ⟨piece, r₁, h₁, hrest₁⟩ := h.shift (by simp) (by simp) hrun
  split at hrest₁
  · cases hrest₁
    exact h₁
  · rw [Action.get_bind] at hrest₁
    exact h₁.namesFrom hrest₁

theorem itemsFrom {kinds : List Terminal} (hkinds : .finish ∉ kinds) {count : Nat}
    {items : List Piece} (h : Passed P start r)
    (hrun : Grammar.itemsFrom kinds count r = (.ok items, after))
    (hitems : ∀ item ∈ items, P item) : Passed P start after := by
  induction count generalizing r items with
  | zero => cases hrun
  | succ count ih =>
    obtain ⟨sep, hrest₁⟩ := look hrun
    split at hrest₁
    · obtain ⟨comma, r₁, h₁, hrest₂⟩ := h.shift (by simp) (by simp) hrest₁
      obtain ⟨item, hrest₃⟩ := look hrest₂
      split at hrest₃
      · obtain ⟨item, r₂, h₂, hrest₄⟩ := h₁.item hkinds hrest₃
        obtain ⟨more, r₃, hmore, hdone⟩ := Action.bind_eq_ok_iff.mp hrest₄
        cases hdone
        refine ih (h₂ (hitems item (by simp))) hmore fun other hother => ?_
        exact hitems other (by simp [hother])
      · cases hrest₃
        exact h₁
    · cases hrest₁
      exact h

theorem itemList {kinds : List Terminal} (hkinds : .finish ∉ kinds) {items : List Piece}
    (h : Passed P start r) (hrun : Grammar.itemList kinds r = (.ok items, after))
    (hitems : ∀ item ∈ items, P item) : Passed P start after := by
  obtain ⟨first, r₁, h₁, hrest₁⟩ := h.item hkinds hrun
  rw [Action.get_bind] at hrest₁
  obtain ⟨more, r₂, hmore, hdone⟩ := Action.bind_eq_ok_iff.mp hrest₁
  cases hdone
  refine (h₁ (hitems first (by simp))).itemsFrom hkinds hmore fun other hother => ?_
  exact hitems other (by simp [hother])

theorem assignment {target : Piece} {phrase : Phrase} (h : Passed P start r)
    (hrun : Grammar.assignment target r = (.ok phrase, after)) : Passed P start after := by
  obtain ⟨sign, r₁, h₁, hrest₁⟩ := h.shift (by simp) (by simp) hrun
  obtain ⟨value, r₂, h₂, hrest₂⟩ := h₁.shift (by simp) (by simp) hrest₁
  split at hrest₂
  · cases hrest₂
    exact h₂
  obtain ⟨mark, r₃, h₃, hrest₃⟩ := h₂.shift (by simp) (by simp) hrest₂
  split at hrest₃
  · obtain ⟨one, r₄, h₄, hrest₄⟩ := h₃.shift (by simp) (by simp) hrest₃
    cases hrest₄
    exact h₄
  · obtain ⟨args, r₄, hargs, hdone⟩ := Action.bind_eq_ok_iff.mp hrest₃
    cases hdone
    exact h₃.nameList hargs

/-- A statement that consists of items. -/
theorem items {kinds : List Terminal} (hkinds : .finish ∉ kinds) {make : List Piece → Phrase}
    (hmake : ∀ items, (make items).Over P → ∀ item ∈ items, item.IsItem ∧ P item) {phrase : Phrase}
    (h : Passed P start r)
    (hrun : (Grammar.itemList kinds >>= fun items => pure (make items)) r = (.ok phrase, after))
    (hphrase : phrase.Over P) : Passed P start after := by
  obtain ⟨items, r₁, hitems, hdone⟩ := Action.bind_eq_ok_iff.mp hrun
  cases hdone
  exact h.itemList hkinds hitems fun item hitem => (hmake items hphrase item hitem).2

/-- How bodies are read: the strings in them are those of their phrases. -/
def Blocks (P : Piece → Prop) (start : Feed) (block : Block) : Prop :=
  ∀ {first : List Terminal} {r after : Feed} {found : List Phrase}, Passed P start r →
    block first r = (.ok found, after) → Phrase.OverAll P found → Passed P start after

variable {block : Block} {phrase : Phrase}

theorem loop (hblock : Blocks P start block) (h : Passed P start r)
    (hrun : Grammar.loop block r = (.ok phrase, after)) (hphrase : phrase.Over P) :
    Passed P start after := by
  obtain ⟨count, r₁, h₁, hrest₁⟩ := h.shift (by simp) (by simp) hrun
  obtain ⟨piece, hrest₂⟩ := look hrest₁
  split at hrest₂
  · obtain ⟨word, r₂, h₂, hrest₃⟩ := h₁.shift (by simp) (by simp) hrest₂
    obtain ⟨body, r₃, hbody, hdone⟩ := Action.bind_eq_ok_iff.mp hrest₃
    cases hdone
    exact hblock h₂ hbody hphrase
  · obtain ⟨body, r₂, hbody, hdone⟩ := Action.bind_eq_ok_iff.mp hrest₂
    cases hdone
    exact hblock h₁ hbody hphrase

theorem definition (hblock : Blocks P start block) (h : Passed P start r)
    (hrun : Grammar.definition block r = (.ok phrase, after)) (hphrase : phrase.Over P) :
    Passed P start after := by
  obtain ⟨name, r₁, h₁, hrest₁⟩ := h.shift (by simp) (by simp) hrun
  obtain ⟨mark, r₂, h₂, hrest₂⟩ := h₁.shift (by simp) (by simp) hrest₁
  obtain ⟨params, r₃, hparams, hrest₃⟩ := Action.bind_eq_ok_iff.mp hrest₂
  obtain ⟨word, r₄, h₄, hrest₄⟩ := (h₂.nameList hparams).shift (by simp) (by simp) hrest₃
  obtain ⟨body, r₅, hbody, hdone⟩ := Action.bind_eq_ok_iff.mp hrest₄
  cases hdone
  exact hblock h₄ hbody hphrase

theorem statement (hblock : Blocks P start block) (h : Passed P start r)
    (hrun : Grammar.statement block r = (.ok phrase, after)) (hphrase : phrase.Over P) :
    Passed P start after := by
  obtain ⟨word, r₁, hword, htook, hrest₁⟩ := (Took.refl r).shift (by decide) hrun
  have h₁ : Passed P start r₁ := h.took htook fun heq => by simp [heq, starts] at hword
  simp only [starts, List.mem_cons, List.not_mem_nil, or_false] at hword
  rcases hword with hword | hword | hword | hword | hword | hword <;> rw [hword] at hrest₁
  · exact h₁.assignment hrest₁
  · exact h₁.items (by simp) (fun _ => id) hrest₁ hphrase
  · exact h₁.loop hblock hrest₁ hphrase
  · exact h₁.items (by simp) (fun _ => id) hrest₁ hphrase
  · exact h₁.items (by simp) (fun _ => id) hrest₁ hphrase
  · exact h₁.definition hblock hrest₁ hphrase

theorem phrases {fuel : Nat} {close : Terminal} {found : List Phrase} (h : Passed P start r)
    (hrun : Grammar.phrases fuel close expected r = (.ok found, after))
    (hfound : Phrase.OverAll P found) : Passed P start after := by
  induction fuel generalizing close expected r after found with
  | zero => cases hrun
  | succ fuel ih =>
    obtain ⟨piece, hrest⟩ := look hrun
    split at hrest
    · obtain ⟨sep, r₁, h₁, hrest₁⟩ := h.shift (by simp) (by simp) hrest
      exact ih h₁ hrest₁ hfound
    split at hrest
    · split at hrest <;> cases hrest
      exact h
    have hblock : Blocks P start fun first => do
        let body ← Grammar.phrases fuel .kwEnd first
        let _ ← Grammar.shift [.kwEnd]
        return body := by
      intro first r after found h hbody hfound
      obtain ⟨body, r₁, hphrases, hend⟩ := Action.bind_eq_ok_iff.mp hbody
      obtain ⟨word, r₂, hword, hdone⟩ := Action.bind_eq_ok_iff.mp hend
      cases hdone
      obtain ⟨hmem, htook⟩ := shift_eq_ok (by simp) hword
      exact (ih h hphrases hfound).took htook fun heq => by simp [heq] at hmem
    obtain ⟨phrase, r₁, hphrase, hrest₁⟩ := Action.bind_eq_ok_iff.mp hrest
    obtain ⟨more, r₂, hmore, hdone⟩ := Action.bind_eq_ok_iff.mp hrest₁
    cases hdone
    exact ih (h.statement hblock hphrase hfound.1) hmore hfound.2

end Feed.Passed

namespace Piece

theorem sound_of_token {piece : Piece} {t : Token} (h : piece.token = .ok t) : piece.Sound := by
  intro hstring
  unfold token at h
  simp only [hstring] at h
  rw [← literal] at h
  cases hliteral : piece.literal with
  | none =>
    rw [hliteral] at h
    cases h
  | some text => rfl

theorem sound_of_mapM_token {pieces : List Piece} {ts : List Token}
    (h : pieces.mapM token = .ok ts) : ∀ piece ∈ pieces, piece.Sound := by
  induction pieces generalizing ts with
  | nil => simp
  | cons piece pieces ih =>
    rw [List.mapM_cons] at h
    obtain ⟨t, ht, hrest⟩ := result_bind_eq_ok.mp h
    obtain ⟨us, hus, _⟩ := result_bind_eq_ok.mp hrest
    exact List.forall_mem_cons.mpr ⟨sound_of_token ht, ih hus⟩

theorem sound_of_number {piece : Piece} (h : piece.terminal = .number) : piece.Sound :=
  fun hstring => by rw [h] at hstring; cases hstring

end Piece

namespace Phrase

mutual

/-- The literals of a phrase that has a meaning can be read. -/
theorem sound_of_meaning {P : Piece → Prop} : (phrase : Phrase) → phrase.Over P →
    ∀ {registry after : Registry} {s : Statement}, phrase.meaning registry = (.ok s, after) →
      phrase.Over Piece.Sound
  | assign .., h, _, _, _, _ => ⟨h.1, Piece.sound_of_number h.1⟩
  | increment .., h, _, _, _, _ => ⟨h.1, Piece.sound_of_number h.1⟩
  | call .., _, _, _, _, _ => trivial
  | input _, h, _, _, _, hmeaning => by
    obtain ⟨_, htokens, _⟩ := Action.ofExcept_bind_eq_ok_iff.mp hmeaning
    exact fun item hitem => ⟨(h item hitem).1, Piece.sound_of_mapM_token htokens item hitem⟩
  | output _, h, _, _, _, hmeaning => by
    obtain ⟨_, htokens, _⟩ := Action.ofExcept_bind_eq_ok_iff.mp hmeaning
    exact fun item hitem => ⟨(h item hitem).1, Piece.sound_of_mapM_token htokens item hitem⟩
  | loop _ body, h, _, _, _, hmeaning => by
    obtain ⟨_, _, hbody, _⟩ := Action.bind_eq_ok_iff.mp hmeaning
    exact sound_of_meanings body h hbody
  | define _ _ body, h, _, _, _, hmeaning => by
    obtain ⟨_, _, hbody, _⟩ := Action.bind_eq_ok_iff.mp hmeaning
    exact sound_of_meanings body h hbody

theorem sound_of_meanings {P : Piece → Prop} : (phrases : List Phrase) → OverAll P phrases →
    ∀ {registry after : Registry} {body : List Statement},
      meanings phrases registry = (.ok body, after) → OverAll Piece.Sound phrases
  | [], _, _, _, _, _ => trivial
  | phrase :: phrases, h, _, _, _, hmeaning => by
    obtain ⟨_, _, hfirst, hrest⟩ := Action.bind_eq_ok_iff.mp hmeaning
    obtain ⟨_, _, hmore, _⟩ := Action.bind_eq_ok_iff.mp hrest
    exact ⟨sound_of_meaning phrase h.1 hfirst, sound_of_meanings phrases h.2 hmore⟩

end

end Phrase

/-- The literals of a source that the grammar accepts can be read. -/
theorem parseByGrammar_sound {source : String} {registry after : Registry} {body : List Statement}
    (h : parseByGrammar source registry = (.ok body, after)) :
    ∀ piece ∈ (Feed.ofSource source).pieces, piece.Sound := by
  have hread := program_ensures (Feed.ofSource source)
  unfold parseByGrammar at h
  split at h
  · next found last hprogram =>
    rw [Action.Ensures, hprogram] at hread
    have hsound := Phrase.sound_of_meanings found hread h
    have hpassed := (Feed.Passed.refl (Feed.ofSource source)).phrases hprogram hsound
    obtain ⟨_, _, htook, hfront, hfinish, _⟩ := phrases_ok (.inl rfl) hprogram
    intro piece hpiece hstring
    rcases hpassed piece hpiece hstring with hsound | hmem
    · exact hsound hstring
    · simp [pieces_eq_nil_of_finish htook hfront hfinish] at hmem
  · cases h

/-- The grammar accepts a source exactly if it has no fault, its literals can be read, and its
pieces are sentences that can be enrolled. -/
theorem parseByGrammar_iff_sentences {source : String} {registry after : Registry}
    {body : List Statement} {t : Token} (ht : t.kind = .eof) :
    parseByGrammar source registry = (.ok body, after) ↔
      (Feed.ofSource source).fault = none ∧ (∀ p ∈ (Feed.ofSource source).pieces, p.Sound) ∧
      (∃ inner, Sentences .eof ((Feed.ofSource source).pieces.map Piece.flat ++ [t]) inner body) ∧
      Statement.enrollAll body registry = some after := by
  constructor
  · intro h
    obtain ⟨hfault, hsentences, henroll⟩ := parseByGrammar_ok h
    exact ⟨hfault, parseByGrammar_sound h, hsentences t ht, henroll⟩
  · rintro ⟨hfault, hsound, ⟨_, hsentences⟩, henroll⟩
    exact parseByGrammar_of_sentences ht hsentences hfault hsound henroll

end LoopLanguage.Grammar
