import LoopLanguage.Proofs.Spelling

/-!
The grammar does not look at the places of tokens: if the tokens of a sentence are put elsewhere,
they are a sentence for the same statement.
-/

namespace LoopLanguage

/-- The same tokens at other places. -/
inductive Moved : List Token → List Token → Prop
  | nil : Moved [] []
  | cons {t : Token} {ts us : List Token} (place : Place) (rest : Moved ts us) :
      Moved (t :: ts) ({ t with place := place } :: us)

namespace Moved

variable {ts us vs inner : List Token} {a b : List Token}

theorem of_unplaced (h : us.map Token.unplaced = ts.map Token.unplaced) : Moved ts us := by
  induction ts generalizing us with
  | nil =>
    obtain rfl := List.map_eq_nil_iff.mp h
    exact .nil
  | cons t ts ih =>
    obtain ⟨u, us, rfl, hu, hus⟩ := List.map_eq_cons_iff.mp h
    obtain ⟨kind, text, place, lineStart⟩ := u
    obtain ⟨rfl, rfl, rfl⟩ : kind = t.kind ∧ text = t.text ∧ lineStart = t.lineStart := by
      simpa [Token.unplaced] using hu
    exact .cons place (ih hus)

theorem refl (ts : List Token) : Moved ts ts := of_unplaced rfl

theorem append (h : Moved ts us) (hab : Moved a b) : Moved (ts ++ a) (us ++ b) := by
  induction h with
  | nil => exact hab
  | cons place _ ih => exact .cons place ih

theorem exists_cons {t : Token} (h : Moved (t :: ts) us) :
    ∃ place vs, us = { t with place := place } :: vs ∧ Moved ts vs := by
  cases h with
  | cons place rest => exact ⟨place, _, rfl, rest⟩

theorem eq_nil (h : Moved [] us) : us = [] := by
  cases h
  rfl

theorem exists_append (h : Moved (a ++ b) us) :
    ∃ c d, us = c ++ d ∧ Moved a c ∧ Moved b d := by
  induction a generalizing us with
  | nil => exact ⟨[], us, rfl, .nil, h⟩
  | cons t a ih =>
    cases h with
    | cons place rest =>
      obtain ⟨c, d, rfl, hc, hd⟩ := ih rest
      exact ⟨_ :: c, d, rfl, .cons place hc, hd⟩

theorem exists_of_mem (h : Moved ts us) :
    ∀ u ∈ us, ∃ t ∈ ts, ∃ place, u = { t with place := place } := by
  induction h with
  | nil => simp
  | @cons t ts us place _ ih =>
    rw [List.forall_mem_cons]
    refine ⟨⟨t, by simp, place, rfl⟩, fun u hu => ?_⟩
    obtain ⟨v, hv, hmoved⟩ := ih u hu
    exact ⟨v, by simp [hv], hmoved⟩

theorem lineStart (h : Moved ts us) (hts : ∀ t ∈ ts, t.lineStart = false) :
    ∀ u ∈ us, u.lineStart = false := by
  intro u hu
  obtain ⟨t, ht, place, rfl⟩ := h.exists_of_mem u hu
  exact hts t ht

theorem sameTokens (h : Moved ts us) : Statement.sameTokens us ts = true := by
  induction h with
  | nil => rfl
  | cons place _ ih => simp [Statement.sameTokens, Token.same, ih]

end Moved

theorem Token.value_moved {t : Token} {n : Nat} (h : t.value = .ok n) (place : Place) :
    Token.value { t with place := place } = .ok n := by
  obtain ⟨kind, text, _, lineStart⟩ := t
  unfold Token.value at h ⊢
  split at h
  · cases h
  · next hkind =>
    rw [if_neg hkind]
    cases text with
    | text s =>
      dsimp only at h ⊢
      split at h
      · next hdecimal => rw [if_pos hdecimal, h]
      · cases h
    | absent => cases h
    | other => cases h

theorem Names.moved {ts us : List Token} {names : List Atom} (h : Names ts names)
    (hmoved : Moved ts us) : Names us names := by
  induction h generalizing us with
  | last hname hclose =>
    cases hmoved with
    | cons _ rest =>
      cases rest with
      | cons _ rest =>
        cases rest
        exact @Names.last _ _ hname hclose
  | more hname hcomma _ ih =>
    cases hmoved with
    | cons _ rest =>
      cases rest with
      | cons _ rest => exact @Names.more _ _ _ _ hname hcomma (ih rest)

theorem NameList.moved {ts us : List Token} {names : List Atom} (h : NameList ts names)
    (hmoved : Moved ts us) : NameList us names := by
  cases h with
  | none hclose =>
    cases hmoved with
    | cons _ rest =>
      cases rest
      exact .none hclose
  | some h => exact .some (h.moved hmoved)

theorem Items.moved {kinds : List Kind} {ts us items : List Token} (h : Items kinds ts items)
    (hmoved : Moved ts us) : ∃ items', Items kinds us items' ∧ Moved items items' := by
  induction h generalizing us with
  | done =>
    cases hmoved
    exact ⟨[], .done, .nil⟩
  | trailing hcomma hline =>
    cases hmoved with
    | cons _ rest =>
      cases rest
      exact ⟨[], .trailing hcomma hline, .nil⟩
  | more hcomma hline hitem hitemLine _ ih =>
    cases hmoved with
    | cons _ rest =>
      cases rest with
      | cons place rest =>
        obtain ⟨items', hitems', hmoved'⟩ := ih rest
        exact ⟨_, .more hcomma hline hitem hitemLine hitems', .cons place hmoved'⟩

theorem ItemList.moved {kinds : List Kind} {ts us items : List Token} (h : ItemList kinds ts items)
    (hmoved : Moved ts us) : ∃ items', ItemList kinds us items' ∧ Moved items items' := by
  cases h with
  | mk hfirst rest =>
    cases hmoved with
    | cons place hrest =>
      obtain ⟨items', hitems', hmoved'⟩ := rest.moved hrest
      exact ⟨_, .mk hfirst hitems', .cons place hmoved'⟩

theorem Moved.checkNumbers {ts us : List Token} (h : Moved ts us)
    (hnumbers : Parser.checkNumbers ts = .ok ()) : Parser.checkNumbers us = .ok () := by
  refine Parser.checkNumbers_eq_ok.mpr fun u hu hkind => ?_
  obtain ⟨t, ht, place, rfl⟩ := h.exists_of_mem u hu
  obtain ⟨n, hn⟩ := Parser.checkNumbers_eq_ok.mp hnumbers t ht hkind
  exact ⟨n, Token.value_moved hn place⟩

theorem MaybeDo.moved {ts us : List Token} (h : MaybeDo ts) (hmoved : Moved ts us) :
    MaybeDo us := by
  cases h with
  | absent =>
    cases hmoved
    exact .absent
  | present hword =>
    cases hmoved with
    | cons _ rest =>
      cases rest
      exact .present hword

open Statement (same sameBody)

mutual

theorem Sentence.moved : ∀ {ts us inner : List Token} {s : Statement}, Sentence ts inner s →
    Moved ts us → ∃ inner' s', Sentence us inner' s' ∧ Moved inner inner' ∧ same s' s = true
  | _, _, _, _, .assign htarget hsign hnumber hvalue, hmoved => by
    obtain ⟨_, _, rfl, hfirst⟩ := hmoved.exists_cons
    obtain ⟨_, _, rfl, hsecond⟩ := hfirst.exists_cons
    obtain ⟨place, _, rfl, hthird⟩ := hsecond.exists_cons
    obtain rfl := hthird.eq_nil
    exact ⟨_, _, .assign htarget hsign hnumber (Token.value_moved hvalue place), hfirst,
      by simp [same]⟩
  | _, _, _, _, .increment htarget hsign hoperand hplus hone hvalue, hmoved => by
    obtain ⟨_, _, rfl, hfirst⟩ := hmoved.exists_cons
    obtain ⟨_, _, rfl, hsecond⟩ := hfirst.exists_cons
    obtain ⟨_, _, rfl, hthird⟩ := hsecond.exists_cons
    obtain ⟨_, _, rfl, hfourth⟩ := hthird.exists_cons
    obtain ⟨place, _, rfl, hfifth⟩ := hfourth.exists_cons
    obtain rfl := hfifth.eq_nil
    exact ⟨_, _, .increment htarget hsign hoperand hplus hone (Token.value_moved hvalue place),
      hfirst, by simp [same]⟩
  | _, _, _, _, .call htarget hsign hcallee hleft hargs, hmoved => by
    obtain ⟨_, _, rfl, hfirst⟩ := hmoved.exists_cons
    obtain ⟨_, _, rfl, hsecond⟩ := hfirst.exists_cons
    obtain ⟨_, _, rfl, hthird⟩ := hsecond.exists_cons
    obtain ⟨_, _, rfl, hrest⟩ := hthird.exists_cons
    exact ⟨_, _, .call htarget hsign hcallee hleft (hargs.moved hrest), hfirst, by simp [same]⟩
  | _, _, _, _, .input hword htargets, hmoved => by
    obtain ⟨_, _, rfl, hfirst⟩ := hmoved.exists_cons
    obtain ⟨targets', htargets', hitems⟩ := htargets.moved hfirst
    exact ⟨_, _, .input hword htargets', hfirst, hitems.sameTokens⟩
  | _, _, _, _, .output hword hitems hnumbers, hmoved => by
    obtain ⟨_, _, rfl, hfirst⟩ := hmoved.exists_cons
    obtain ⟨items', hitems', hlist⟩ := hitems.moved hfirst
    exact ⟨_, _, .output hword hitems' (hlist.checkNumbers hnumbers), hfirst, hlist.sameTokens⟩
  | _, _, _, _, .loop hword hcount hopening hbody, hmoved => by
    obtain ⟨_, _, rfl, hfirst⟩ := hmoved.exists_cons
    obtain ⟨place, _, rfl, hrest⟩ := hfirst.exists_cons
    obtain ⟨opening', ts', rfl, hopening', hts⟩ := hrest.exists_append
    obtain ⟨inner', body', hbody', hinner, hsame⟩ := hbody.moved hts
    exact ⟨_, _, .loop hword hcount (hopening.moved hopening') hbody',
      .cons place (hopening'.append hinner), by simp [same, hsame]⟩
  | _, _, _, _, .define hword hname hleft hparams hnodup hopening hbody, hmoved => by
    obtain ⟨_, _, rfl, hfirst⟩ := hmoved.exists_cons
    obtain ⟨first, _, rfl, hsecond⟩ := hfirst.exists_cons
    obtain ⟨second, _, rfl, hrest⟩ := hsecond.exists_cons
    obtain ⟨params', _, rfl, hparams', hopen⟩ := hrest.exists_append
    obtain ⟨third, _, rfl, hts⟩ := hopen.exists_cons
    obtain ⟨inner', body', hbody', hinner, hsame⟩ := hbody.moved hts
    exact ⟨_, _, .define hword hname hleft (hparams.moved hparams') hnodup hopening hbody',
      .cons first (.cons second (hparams'.append (.cons third hinner))), by simp [same, hsame]⟩

theorem Sentences.moved : ∀ {close : Kind} {ts us inner : List Token} {body : List Statement},
    Sentences close ts inner body → Moved ts us →
      ∃ inner' body', Sentences close us inner' body' ∧ Moved inner inner' ∧
        sameBody body' body = true
  | _, _, _, _, _, .close h, hmoved => by
    obtain ⟨_, _, rfl, hrest⟩ := hmoved.exists_cons
    obtain rfl := hrest.eq_nil
    exact ⟨[], [], .close h, .nil, rfl⟩
  | _, _, _, _, _, .semicolon h rest, hmoved => by
    obtain ⟨_, _, rfl, hfirst⟩ := hmoved.exists_cons
    obtain ⟨inner', body', hrest, hinner, hsame⟩ := rest.moved hfirst
    exact ⟨inner', body', .semicolon h hrest, hinner, hsame⟩
  | _, _, _, _, _, .cons first hnext rest, hmoved => by
    obtain ⟨ts', us', rfl, hts, hus⟩ := hmoved.exists_append
    obtain ⟨inner', s', hfirst, hinner, hs⟩ := first.moved hts
    obtain ⟨inners', body', hrest, hinners, hbody⟩ := rest.moved hus
    obtain ⟨_, _, rfl, _⟩ := hus.exists_cons
    exact ⟨_, _, .cons hfirst hnext hrest, hinner.append hinners, by simp [sameBody, hs, hbody]⟩

end

end LoopLanguage
