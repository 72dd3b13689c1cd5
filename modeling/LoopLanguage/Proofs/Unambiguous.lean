import LoopLanguage.Proofs.Sentence

/-!
The grammar is unambiguous: a row of tokens is a row of sentences in one way only. Where a sentence
ends is known from its tokens and from the one behind it, so two readings that start together stay
together.
-/

namespace LoopLanguage

theorem Names.unique {ts ts' us us' : List Token} {names names' : List Atom} (h : Names ts names)
    (h' : Names ts' names') (heq : ts ++ us = ts' ++ us') : ts = ts' ∧ names = names' := by
  induction h generalizing ts' names' with
  | last _ hclose =>
    cases h' with
    | last _ _ =>
      simp only [List.cons_append, List.cons.injEq] at heq
      obtain ⟨rfl, rfl, _⟩ := heq
      exact ⟨rfl, rfl⟩
    | more _ hcomma _ =>
      simp only [List.cons_append, List.cons.injEq] at heq
      obtain ⟨_, rfl, _⟩ := heq
      simp [hclose] at hcomma
  | more _ hcomma _ ih =>
    cases h' with
    | last _ hclose =>
      simp only [List.cons_append, List.cons.injEq] at heq
      obtain ⟨_, rfl, _⟩ := heq
      simp [hclose] at hcomma
    | more _ _ hrest =>
      simp only [List.cons_append, List.cons.injEq] at heq
      obtain ⟨rfl, rfl, heq⟩ := heq
      obtain ⟨rfl, rfl⟩ := ih hrest heq
      exact ⟨rfl, rfl⟩

theorem NameList.unique {ts ts' us us' : List Token} {names names' : List Atom}
    (h : NameList ts names) (h' : NameList ts' names') (heq : ts ++ us = ts' ++ us') :
    ts = ts' ∧ names = names' := by
  cases h with
  | none hclose =>
    cases h' with
    | none _ => exact ⟨by simpa using (List.cons.inj heq).1, rfl⟩
    | some h' =>
      obtain ⟨t, _, rfl, ht⟩ := h'.head
      obtain ⟨rfl, _⟩ := List.cons.inj heq
      simp [hclose] at ht
  | some h =>
    cases h' with
    | none hclose =>
      obtain ⟨t, _, rfl, ht⟩ := h.head
      obtain ⟨rfl, _⟩ := List.cons.inj heq
      simp [hclose] at ht
    | some h' => exact h.unique h' heq

theorem Items.unique {kinds : List Kind} {ts ts' us us' items items' : List Token}
    {next next' : Token} (h : Items kinds ts items) (h' : Items kinds ts' items')
    (hnext : ItemsEnd kinds next) (hnext' : ItemsEnd kinds next')
    (heq : ts ++ next :: us = ts' ++ next' :: us') : ts = ts' ∧ items = items' := by
  -- A comma inside the line is never the token behind the items, nor is an item.
  have hcomma : ∀ {t : Token}, ItemsEnd kinds t → t.kind = .comma → t.lineStart = false → False := by
    intro t ht hkind hline
    rw [ht.1 hkind] at hline
    cases hline
  have hitem : ∀ {t : Token}, ItemsEnd kinds t → t.kind ∈ kinds → t.lineStart = false → False := by
    intro t ht hkind hline
    rw [ht.2 hkind] at hline
    cases hline
  induction h generalizing ts' items' with
  | done =>
    cases h' with
    | done => exact ⟨rfl, rfl⟩
    | trailing hkind hline =>
      obtain ⟨rfl, _⟩ := List.cons.inj heq
      exact (hcomma hnext hkind hline).elim
    | more hkind hline _ _ _ =>
      obtain ⟨rfl, _⟩ := List.cons.inj heq
      exact (hcomma hnext hkind hline).elim
  | trailing hkind hline =>
    cases h' with
    | done =>
      obtain ⟨rfl, _⟩ := List.cons.inj heq
      exact (hcomma hnext' hkind hline).elim
    | trailing _ _ => exact ⟨by simpa using (List.cons.inj heq).1, rfl⟩
    | more _ _ hkind' hline' _ =>
      obtain ⟨_, heq⟩ := List.cons.inj heq
      obtain ⟨rfl, _⟩ := List.cons.inj heq
      exact (hitem hnext hkind' hline').elim
  | more hkind hline hkind' hline' _ ih =>
    cases h' with
    | done =>
      obtain ⟨rfl, _⟩ := List.cons.inj heq
      exact (hcomma hnext' hkind hline).elim
    | trailing _ _ =>
      obtain ⟨_, heq⟩ := List.cons.inj heq
      obtain ⟨rfl, _⟩ := List.cons.inj heq
      exact (hitem hnext' hkind' hline').elim
    | more _ _ _ _ hrest =>
      simp only [List.cons_append, List.cons.injEq] at heq
      obtain ⟨rfl, rfl, heq⟩ := heq
      obtain ⟨rfl, rfl⟩ := ih hrest heq
      exact ⟨rfl, rfl⟩

theorem ItemList.unique {kinds : List Kind} {ts ts' us us' items items' : List Token}
    {next next' : Token} (h : ItemList kinds ts items) (h' : ItemList kinds ts' items')
    (hnext : ItemsEnd kinds next) (hnext' : ItemsEnd kinds next')
    (heq : ts ++ next :: us = ts' ++ next' :: us') : ts = ts' ∧ items = items' := by
  cases h with
  | mk _ hrest =>
    cases h' with
    | mk _ hrest' =>
      simp only [List.cons_append, List.cons.injEq] at heq
      obtain ⟨rfl, heq⟩ := heq
      obtain ⟨rfl, rfl⟩ := hrest.unique hrest' hnext hnext' heq
      exact ⟨rfl, rfl⟩

namespace Sentence

/-! The first tokens of a sentence tell its form. -/

variable {word : Token} {ts inner : List Token} {s : Statement} (h : Sentence (word :: ts) inner s)
include h

theorem of_input (hword : word.kind = .kwInput) :
    ∃ targets, ItemList targetKinds ts targets ∧ inner = ts ∧ s = .input targets := by
  cases h with
  | input _ htargets => exact ⟨_, htargets, rfl, rfl⟩
  | _ => simp_all

theorem of_output (hword : word.kind = .kwPrint) :
    ∃ items, ItemList itemKinds ts items ∧ inner = ts ∧ s = .output items := by
  cases h with
  | output _ hitems _ => exact ⟨_, hitems, rfl, rfl⟩
  | _ => simp_all

theorem of_loop (hword : word.kind = .kwLoop) :
    ∃ count opening us bodyInner body, MaybeDo opening ∧ Sentences .kwEnd us bodyInner body ∧
      ts = count :: (opening ++ us) ∧ inner = count :: (opening ++ bodyInner) ∧
      s = .loop count.text body := by
  cases h with
  | loop _ _ hopening hbody => exact ⟨_, _, _, _, _, hopening, hbody, rfl, rfl, rfl⟩
  | _ => simp_all

theorem of_define (hword : word.kind = .kwProgram) :
    ∃ name left ps params opening us bodyInner body, NameList ps params ∧
      Sentences .kwEnd us bodyInner body ∧ ts = name :: left :: (ps ++ opening :: us) ∧
      inner = name :: left :: (ps ++ opening :: bodyInner) ∧
      s = .define name.text params body := by
  cases h with
  | define _ _ _ hparams _ _ hbody =>
    exact ⟨_, _, _, _, _, _, _, _, hparams, hbody, rfl, rfl, rfl⟩
  | _ => simp_all

theorem of_identifier (hword : word.kind = .identifier) :
    ∃ sign value rest, ts = sign :: value :: rest ∧ inner = ts ∧
      ((value.kind = .number ∧ rest = [] ∧ ∃ n : Nat, value.value = .ok n ∧
          s = .assign word.text n) ∨
        (value.kind = .identifier ∧ ∃ mark more, rest = mark :: more ∧
          ((mark.kind = .plus ∧ more.length = 1 ∧ s = .increment word.text value.text) ∨
            (mark.kind = .leftParen ∧ ∃ args, NameList more args ∧
              s = .call word.text value.text args)))) := by
  cases h with
  | assign _ _ hnumber hvalue =>
    exact ⟨_, _, _, rfl, rfl, .inl ⟨hnumber, rfl, _, hvalue, rfl⟩⟩
  | increment _ _ hoperand hplus _ _ =>
    exact ⟨_, _, _, rfl, rfl, .inr ⟨hoperand, _, _, rfl, .inl ⟨hplus, rfl, rfl⟩⟩⟩
  | call _ _ hcallee hleft hargs =>
    exact ⟨_, _, _, rfl, rfl, .inr ⟨hcallee, _, _, rfl, .inr ⟨hleft, _, hargs, rfl⟩⟩⟩
  | _ => simp_all

end Sentence

/-- `DO` is there in both readings or in none, because no body starts with it. -/
theorem MaybeDo.unique {opening opening' ts ts' us us' inner inner' : List Token}
    {body body' : List Statement} (h : MaybeDo opening) (h' : MaybeDo opening')
    (hbody : Sentences .kwEnd ts inner body) (hbody' : Sentences .kwEnd ts' inner' body')
    (heq : opening ++ (ts ++ us) = opening' ++ (ts' ++ us')) : opening = opening' := by
  obtain ⟨t, _, rfl, ht⟩ := hbody.head
  obtain ⟨t', _, rfl, ht'⟩ := hbody'.head
  cases h with
  | absent =>
    cases h' with
    | absent => rfl
    | present hdo =>
      obtain ⟨rfl, _⟩ := List.cons.inj heq
      simp [hdo, sentenceStarts] at ht
  | present hdo =>
    cases h' with
    | absent =>
      obtain ⟨rfl, _⟩ := List.cons.inj heq
      simp [hdo, sentenceStarts] at ht'
    | present _ => exact congrArg (fun t => [t]) (List.cons.inj heq).1

mutual

theorem Sentence.unique : ∀ {ts inner : List Token} {s : Statement}, Sentence ts inner s →
    ∀ {ts' inner' : List Token} {s' : Statement}, Sentence ts' inner' s' →
    ∀ {next next' : Token} {us us' : List Token}, next.Ends → next'.Ends →
    ts ++ next :: us = ts' ++ next' :: us' → ts = ts' ∧ inner = inner' ∧ s = s'
  | _, _, _, .assign htarget _ hnumber hvalue, _, _, _, h', _, _, _, _, _, _, heq => by
    obtain ⟨t, ts', rfl, _⟩ := h'.exists_cons
    obtain ⟨rfl, heq₁⟩ := List.cons.inj heq
    obtain ⟨sign', value', rest, rfl, rfl, hform⟩ := h'.of_identifier htarget
    obtain ⟨rfl, heq₂⟩ := List.cons.inj heq₁
    obtain ⟨rfl, _⟩ := List.cons.inj heq₂
    rcases hform with ⟨_, rfl, n, hn, rfl⟩ | ⟨hidentifier, _⟩
    · cases hvalue.symm.trans hn
      exact ⟨rfl, rfl, rfl⟩
    · simp [hnumber] at hidentifier
  | _, _, _, .increment htarget _ hoperand hplus _ _, _, _, _, h', _, _, _, _, _, _, heq => by
    obtain ⟨t, ts', rfl, _⟩ := h'.exists_cons
    obtain ⟨rfl, heq₁⟩ := List.cons.inj heq
    obtain ⟨sign', value', rest, rfl, rfl, hform⟩ := h'.of_identifier htarget
    obtain ⟨rfl, heq₂⟩ := List.cons.inj heq₁
    obtain ⟨rfl, heq₃⟩ := List.cons.inj heq₂
    rcases hform with ⟨hnumber, _⟩ | ⟨_, mark, more, rfl, ⟨_, hlength, rfl⟩ | ⟨hleft, _⟩⟩
    · simp [hoperand] at hnumber
    · obtain ⟨one, rfl⟩ := List.length_eq_one_iff.mp hlength
      obtain ⟨rfl, heq₄⟩ := List.cons.inj heq₃
      obtain ⟨rfl, _⟩ := List.cons.inj heq₄
      exact ⟨rfl, rfl, rfl⟩
    · obtain ⟨rfl, _⟩ := List.cons.inj heq₃
      simp [hplus] at hleft
  | _, _, _, .call htarget _ hcallee hleft hargs, _, _, _, h', _, _, _, _, _, _, heq => by
    obtain ⟨t, ts', rfl, _⟩ := h'.exists_cons
    obtain ⟨rfl, heq₁⟩ := List.cons.inj heq
    obtain ⟨sign', value', rest, rfl, rfl, hform⟩ := h'.of_identifier htarget
    obtain ⟨rfl, heq₂⟩ := List.cons.inj heq₁
    obtain ⟨rfl, heq₃⟩ := List.cons.inj heq₂
    rcases hform with ⟨hnumber, _⟩ | ⟨_, mark, more, rfl, ⟨hplus, _⟩ | ⟨_, args, hargs', rfl⟩⟩
    · simp [hcallee] at hnumber
    · obtain ⟨rfl, _⟩ := List.cons.inj heq₃
      simp [hplus] at hleft
    · obtain ⟨rfl, heq₄⟩ := List.cons.inj heq₃
      obtain ⟨rfl, rfl⟩ := hargs.unique hargs' heq₄
      exact ⟨rfl, rfl, rfl⟩
  | _, _, _, .input hword htargets, _, _, _, h', _, _, _, _, hnext, hnext', heq => by
    obtain ⟨t, ts', rfl, _⟩ := h'.exists_cons
    obtain ⟨rfl, heq₁⟩ := List.cons.inj heq
    obtain ⟨targets, htargets', rfl, rfl⟩ := h'.of_input hword
    have hsub : ∀ kind ∈ targetKinds, kind ∈ itemKinds := by simp [targetKinds, itemKinds]
    obtain ⟨rfl, rfl⟩ :=
      htargets.unique htargets' (hnext.itemsEnd hsub) (hnext'.itemsEnd hsub) heq₁
    exact ⟨rfl, rfl, rfl⟩
  | _, _, _, .output hword hitems _, _, _, _, h', _, _, _, _, hnext, hnext', heq => by
    obtain ⟨t, ts', rfl, _⟩ := h'.exists_cons
    obtain ⟨rfl, heq₁⟩ := List.cons.inj heq
    obtain ⟨items, hitems', rfl, rfl⟩ := h'.of_output hword
    obtain ⟨rfl, rfl⟩ := hitems.unique hitems' (hnext.itemsEnd fun _ h => h)
      (hnext'.itemsEnd fun _ h => h) heq₁
    exact ⟨rfl, rfl, rfl⟩
  | _, _, _, .loop hword _ hopening hbody, _, _, _, h', _, _, _, _, _, _, heq => by
    obtain ⟨t, ts', rfl, _⟩ := h'.exists_cons
    obtain ⟨rfl, heq₁⟩ := List.cons.inj heq
    obtain ⟨count, opening, vs, inner', body', hopening', hbody', rfl, rfl, rfl⟩ :=
      h'.of_loop hword
    obtain ⟨rfl, heq₂⟩ := List.cons.inj heq₁
    simp only [List.append_eq, List.append_assoc] at heq₂
    obtain rfl := hopening.unique hopening' hbody hbody' heq₂
    obtain ⟨rfl, rfl, rfl⟩ :=
      hbody.unique hbody' (by simp [sentenceStarts]) (List.append_cancel_left heq₂)
    exact ⟨rfl, rfl, rfl⟩
  | _, _, _, .define hword _ _ hparams _ _ hbody, _, _, _, h', _, _, _, _, _, _, heq => by
    obtain ⟨t, ts', rfl, _⟩ := h'.exists_cons
    obtain ⟨rfl, heq₁⟩ := List.cons.inj heq
    obtain ⟨name, left, ps, params, opening, vs, inner', body', hparams', hbody', rfl, rfl, rfl⟩ :=
      h'.of_define hword
    obtain ⟨rfl, heq₂⟩ := List.cons.inj heq₁
    obtain ⟨rfl, heq₃⟩ := List.cons.inj heq₂
    simp only [List.append_eq, List.append_assoc, List.cons_append] at heq₃
    obtain ⟨rfl, rfl⟩ := hparams.unique hparams' heq₃
    obtain ⟨rfl, heq₄⟩ := List.cons.inj (List.append_cancel_left heq₃)
    obtain ⟨rfl, rfl, rfl⟩ := hbody.unique hbody' (by simp [sentenceStarts]) heq₄
    exact ⟨rfl, rfl, rfl⟩

/-- Two readings of one row of tokens are the same, wherever they stop. -/
theorem Sentences.unique : ∀ {close : Kind} {ts inner : List Token} {body : List Statement},
    Sentences close ts inner body →
    ∀ {ts' inner' : List Token} {body' : List Statement}, Sentences close ts' inner' body' →
    close ∉ Kind.semicolon :: sentenceStarts → ∀ {us us' : List Token}, ts ++ us = ts' ++ us' →
    ts = ts' ∧ inner = inner' ∧ body = body'
  | _, _, _, _, .close h, _, _, _, h', hclose, _, _, heq => by
    cases h' with
    | close _ => exact ⟨congrArg (fun t => [t]) (List.cons.inj heq).1, rfl, rfl⟩
    | semicolon hsemi _ =>
      obtain ⟨rfl, _⟩ := List.cons.inj heq
      simp [← h, hsemi] at hclose
    | cons first _ _ =>
      obtain ⟨t, _, rfl, ht⟩ := first.exists_cons
      obtain ⟨rfl, _⟩ := List.cons.inj heq
      simp [← h, ht] at hclose
  | _, _, _, _, .semicolon hsemi rest, _, _, _, h', hclose, _, _, heq => by
    cases h' with
    | close h =>
      obtain ⟨rfl, _⟩ := List.cons.inj heq
      simp [← h, hsemi] at hclose
    | semicolon _ rest' =>
      obtain ⟨rfl, heq₁⟩ := List.cons.inj heq
      obtain ⟨rfl, rfl, rfl⟩ := rest.unique rest' hclose heq₁
      exact ⟨rfl, rfl, rfl⟩
    | cons first _ _ =>
      obtain ⟨t, _, rfl, ht⟩ := first.exists_cons
      obtain ⟨rfl, _⟩ := List.cons.inj heq
      simp [hsemi, sentenceStarts] at ht
  | _, _, _, _, .cons first hnext rest, _, _, _, h', hclose, _, _, heq => by
    cases h' with
    | close h =>
      obtain ⟨t, _, rfl, ht⟩ := first.exists_cons
      obtain ⟨rfl, _⟩ := List.cons.inj heq
      simp [← h, ht] at hclose
    | semicolon hsemi _ =>
      obtain ⟨t, _, rfl, ht⟩ := first.exists_cons
      obtain ⟨rfl, _⟩ := List.cons.inj heq
      simp [hsemi, sentenceStarts] at ht
    | cons first' hnext' rest' =>
      simp only [List.append_assoc, List.cons_append] at heq
      obtain ⟨rfl, rfl, rfl⟩ := first.unique first' hnext hnext' heq
      obtain ⟨hts, rfl, rfl⟩ := rest.unique rest' hclose (List.append_cancel_left heq)
      exact ⟨by rw [hts], rfl, rfl⟩

end

/-- The tokens of a whole source read as one program. -/
theorem Sentences.unique_program {ts inner inner' : List Token} {body body' : List Statement}
    (h : Sentences .eof ts inner body) (h' : Sentences .eof ts inner' body') : body = body' :=
  (@Sentences.unique _ _ _ _ h _ _ _ h' (by simp [sentenceStarts]) [] [] rfl).2.2

end LoopLanguage
