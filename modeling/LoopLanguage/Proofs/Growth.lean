import LoopLanguage.Proofs.Descent

/-!
What loading does to a registry that is shared by many loads. Both parsers and the loader of
documents add programs at the end, one at a time and each behind all programs that its body needs,
and a load that fails midway leaves those that it has added. So after any row of loads the names
are distinct, every call in a body goes to a program further up, and no program can come back to
itself.
-/

namespace LoopLanguage

namespace Registry

/-- Programs were only added, and what makes a registry sound was kept. -/
structure Grows (before after : Registry) : Prop where
  front : before <+: after
  layered : before.Layered → after.Layered
  distinct : (before.map (·.name.key)).Nodup → (after.map (·.name.key)).Nodup

namespace Grows

variable {before middle after : Registry}

theorem refl (registry : Registry) : Grows registry registry :=
  ⟨List.prefix_rfl, id, id⟩

theorem trans (h : Grows before middle) (h' : Grows middle after) : Grows before after :=
  ⟨h.front.trans h'.front, h'.layered ∘ h.layered, h'.distinct ∘ h.distinct⟩

theorem of_eq (h : after = before) : Grows before after := h ▸ refl before

end Grows

theorem distinct_snoc {registry : Registry} {d : Definition} (hnew : registry.find? d.name = none)
    (h : (registry.map (·.name.key)).Nodup) :
    ((registry ++ [d]).map (·.name.key)).Nodup := by
  have hnone := List.find?_eq_none.mp hnew
  rw [List.map_append, List.nodup_append]
  refine ⟨h, by simp, ?_⟩
  rintro key hkey _ hlast rfl
  obtain ⟨e, he, rfl⟩ := List.mem_map.mp hkey
  have hsame : e.name.key = d.name.key := by simpa using hlast
  exact hnone e he (by simpa using hsame)

end Registry

open Registry (Grows)

namespace Statement

mutual

theorem enroll_distinct : ∀ (s : Statement) {registry after : Registry},
    (registry.map (·.name.key)).Nodup → enroll s registry = some after →
    (after.map (·.name.key)).Nodup
  | .call .., _, _, hdistinct, h => by
    obtain ⟨_, _, _, rfl⟩ := enroll_call.mp h
    exact hdistinct
  | .loop _ body, _, _, hdistinct, h => enrollAll_distinct body hdistinct h
  | .program body, _, _, hdistinct, h => enrollAll_distinct body hdistinct h
  | .define _ _ body, _, _, hdistinct, h => by
    obtain ⟨inner, hbody, hnew, rfl⟩ := enroll_define.mp h
    exact Registry.distinct_snoc hnew (enrollAll_distinct body hdistinct hbody)
  | .assign .., _, _, hdistinct, h | .increment .., _, _, hdistinct, h
  | .input _, _, _, hdistinct, h | .output _, _, _, hdistinct, h
  | .missing, _, _, hdistinct, h | .token _, _, _, hdistinct, h => by
    cases h
    exact hdistinct

theorem enrollAll_distinct : ∀ (body : List Statement) {registry after : Registry},
    (registry.map (·.name.key)).Nodup → enrollAll body registry = some after →
    (after.map (·.name.key)).Nodup
  | [], _, _, hdistinct, h => by
    cases h
    exact hdistinct
  | s :: rest, _, _, hdistinct, h => by
    obtain ⟨next, hs, hrest⟩ := enrollAll_cons.mp h
    exact enrollAll_distinct rest (enroll_distinct s hdistinct hs) hrest

end

theorem enrollAll_grows {body : List Statement} {registry after : Registry}
    (h : enrollAll body registry = some after) : Grows registry after := by
  obtain ⟨more, rfl⟩ := enrollAll_extends body h
  exact ⟨List.prefix_append _ _, fun hlayered => (enrollAll_linked body hlayered h).1,
    fun hdistinct => enrollAll_distinct body hdistinct h⟩

end Statement

open Statement (enroll enrollAll)

/-- A program is added behind those that its body was enrolled with, or not at all. -/
theorem Registry.define_grows {d : Definition} {before inner : Registry}
    (h : enrollAll d.body before = some inner) : Grows before (Registry.define d inner).2 := by
  have hinner := Statement.enrollAll_grows h
  unfold Registry.define
  split
  · exact hinner
  · exact hinner
  · next hknown =>
    have hnew : inner.find? d.name = none := by
      obtain ⟨_, _, hsome⟩ := result_bind_eq_ok.mp hknown
      simpa [pure, Except.pure] using hsome
    refine ⟨hinner.front.trans (List.prefix_append _ _), fun hlayered => ?_, fun hdistinct => ?_⟩
    · obtain ⟨hlast, hlinked⟩ := Statement.enrollAll_linked d.body hlayered h
      exact .snoc hlast hlinked
    · exact Registry.distinct_snoc hnew (hinner.distinct hdistinct)

namespace Action

variable {σ α β : Type} {registry : σ → Registry} {act : Action σ α} {s : σ}

/-- Whether it succeeds or fails, the step from `s` lets the registry in the state grow. -/
def Extends (registry : σ → Registry) (act : Action σ α) (s : σ) : Prop :=
  Grows (registry s) (registry (act s).2)

/-- What has grown into the registry after a step grows on through what follows it. -/
theorem grows_bind {base : Registry} {f : α → Action σ β} (h : Grows base (registry (act s).2))
    (hf : ∀ a t, act s = (.ok a, t) → Grows base (registry (f a t).2)) :
    Grows base (registry ((act >>= f) s).2) := by
  cases hrun : act s with
  | mk r t =>
    cases r with
    | ok a =>
      rw [bind_ok hrun]
      exact hf a t hrun
    | error e =>
      rw [bind_error hrun]
      rw [hrun] at h
      exact h

theorem Extends.bind {f : α → Action σ β} (h : Extends registry act s)
    (hf : ∀ a t, act s = (.ok a, t) → Extends registry (f a) t) :
    Extends registry (act >>= f) s := by
  refine grows_bind h fun a t hrun => ?_
  have hact : Grows (registry s) (registry (act s).2) := h
  rw [hrun] at hact
  exact hact.trans (hf a t hrun)

theorem grows_ofExcept_bind {base : Registry} {r : Except Error α} {f : α → Action σ β}
    (h : Grows base (registry s)) (hf : ∀ a, Grows base (registry (f a s).2)) :
    Grows base (registry ((ofExcept r >>= f) s).2) := by
  cases r with
  | ok a => exact hf a
  | error e => exact h

theorem Extends.ofExcept (r : Except Error α) : Extends registry (ofExcept r) s := by
  cases r <;> exact .refl _

end Action

open LoopLanguage.Action (Extends)

namespace Parser

variable {α β : Type}

/-- The step does not touch the registry. -/
def Keeps (act : Action Parser α) : Prop := ∀ p, (act p).2.registry = p.registry

namespace Keeps

theorem bind {act : Action Parser α} {f : α → Action Parser β} (h : Keeps act)
    (hf : ∀ a, Keeps (f a)) : Keeps (act >>= f) := by
  intro p
  cases hrun : act p with
  | mk r q =>
    have hq : q.registry = p.registry := by simpa [hrun] using h p
    cases r with
    | ok a => rw [Action.bind_ok hrun, hf a q, hq]
    | error e => rw [Action.bind_error hrun, hq]

theorem pure (a : α) : Keeps (pure a) := fun _ => rfl

theorem fail (e : Error) : Keeps (Action.fail e : Action Parser α) := fun _ => rfl

theorem get : Keeps Action.get := fun _ => rfl

theorem ofExcept (r : Except Error α) : Keeps (Action.ofExcept r) := by
  intro p
  cases r <;> rfl

theorem note (draft : Draft) : Keeps (Parser.note draft) := fun _ => rfl

theorem onLexer (act : Action Lexer α) : Keeps (Parser.onLexer act) := fun _ => rfl

theorem nextToken : Keeps Parser.nextToken := by
  intro p
  unfold Parser.nextToken
  split
  · rfl
  · exact onLexer _ p

theorem pushBack (t : Token) : Keeps (Parser.pushBack t) := by
  intro p
  unfold Parser.pushBack
  split
  · exact onLexer _ p
  · rfl

theorem takeTokens (count : Nat) : Keeps (Parser.takeTokens count) := by
  induction count with
  | zero => exact pure _
  | succ count ih => exact nextToken.bind fun _ => ih.bind fun _ => pure _

theorem peek (count : Nat) : Keeps (Parser.peek count) :=
  (takeTokens count).bind fun _ _ => rfl

theorem expectOneOf (kinds : List Kind) (context : String) :
    Keeps (Parser.expectOneOf kinds context) := by
  refine nextToken.bind fun t => ?_
  split
  · exact pure t
  · exact fail _

theorem expect (kind : Kind) (context : String) : Keeps (Parser.expect kind context) :=
  expectOneOf [kind] context

theorem endStatement (context : String) : Keeps (Parser.endStatement context) := by
  refine nextToken.bind fun t => ?_
  split
  · exact pure ()
  · split
    · exact pushBack t
    · exact fail _

theorem namesFrom (context : String) (count : Nat) (t : Token) :
    Keeps (Parser.namesFrom context count t) := by
  induction count generalizing t with
  | zero => exact fail _
  | succ count ih =>
    refine nextToken.bind fun sep => ?_
    split
    · exact (expect _ _).bind fun name => (ih name).bind fun _ => pure _
    · split
      · exact pure _
      · exact fail _

theorem nameList (context : String) : Keeps (Parser.nameList context) := by
  refine (expectOneOf _ _).bind fun t => ?_
  split
  · exact pure _
  · exact get.bind fun _ => namesFrom _ _ _

theorem itemsFrom (kinds : List Kind) (count : Nat) : Keeps (Parser.itemsFrom kinds count) := by
  induction count with
  | zero => exact fail _
  | succ count ih =>
    refine nextToken.bind fun sep => ?_
    split
    · exact (pushBack sep).bind fun _ => pure _
    · refine nextToken.bind fun item => ?_
      split
      · exact (pushBack item).bind fun _ => pure _
      · exact ih.bind fun _ => pure _

theorem itemList (kinds : List Kind) (context : String) : Keeps (Parser.itemList kinds context) :=
  (expectOneOf _ _).bind fun _ => get.bind fun _ => (itemsFrom _ _).bind fun _ => pure _

theorem skipDo : Keeps Parser.skipDo := by
  refine nextToken.bind fun t => ?_
  split
  · exact pure ()
  · exact pushBack t

theorem skipSemicolons (count : Nat) : Keeps (Parser.skipSemicolons count) := by
  induction count with
  | zero => exact fail _
  | succ count ih =>
    refine nextToken.bind fun t => ?_
    split
    · exact ih
    · exact pure t

theorem readAssign : Keeps Parser.readAssign :=
  (expect _ _).bind fun _ => (note _).bind fun _ => (expect _ _).bind fun _ =>
    (expect _ _).bind fun _ => (ofExcept _).bind fun _ => (note _).bind fun _ =>
      (endStatement _).bind fun _ => pure _

theorem readIncrement : Keeps Parser.readIncrement := by
  refine (expect _ _).bind fun _ => (note _).bind fun _ => (expect _ _).bind fun _ =>
    (expect _ _).bind fun _ => (note _).bind fun _ => (expect _ _).bind fun _ =>
      (expect _ _).bind fun _ => (ofExcept _).bind fun value => ?_
  split
  · exact fail _
  · exact (endStatement _).bind fun _ => pure _

theorem readCall : Keeps Parser.readCall := by
  refine (expect _ _).bind fun _ => (note _).bind fun _ => (expect _ _).bind fun _ =>
    (expect _ _).bind fun callee => get.bind fun parser => (ofExcept _).bind fun known => ?_
  split
  · exact fail _
  · refine (note _).bind fun _ => (expect _ _).bind fun _ => (nameList _).bind fun args =>
      get.bind fun parser => (ofExcept _).bind fun definition => ?_
    split
    · exact fail _
    · exact (note _).bind fun _ => (endStatement _).bind fun _ => pure _

theorem readInput : Keeps Parser.readInput :=
  (expect _ _).bind fun _ => (itemList _ _).bind fun _ => (note _).bind fun _ =>
    (endStatement _).bind fun _ => pure _

theorem readOutput : Keeps Parser.readOutput :=
  (expect _ _).bind fun _ => (itemList _ _).bind fun _ => (ofExcept _).bind fun _ =>
    (note _).bind fun _ => (endStatement _).bind fun _ => pure _

theorem assignmentForm : Keeps Parser.assignmentForm := by
  refine (peek 3).bind fun tokens => ?_
  dsimp only
  split
  · exact fail _
  · split
    · exact pure _
    · split
      · exact fail _
      · refine (peek 4).bind fun more => ?_
        split
        · exact pure _
        · split
          · exact pure _
          · exact fail _

theorem formOf (t : Token) : Keeps (Parser.formOf t) := by
  unfold Parser.formOf
  cases t.kind
  case identifier => exact assignmentForm
  all_goals exact fun _ => rfl

theorem extends_at {act : Action Parser α} (h : Keeps act) (p : Parser) :
    Extends Parser.registry act p := .of_eq (h p)

/-- A step that does not touch the registry and what follows it. -/
theorem bind_extends {act : Action Parser α} {f : α → Action Parser β} (h : Keeps act) {p : Parser}
    (hf : ∀ a q, Extends Parser.registry (f a) q) : Extends Parser.registry (act >>= f) p :=
  (h.extends_at p).bind fun a q _ => hf a q

end Keeps

/-- A reader of bodies lets the registry grow, by the programs of the body if it gives one. -/
def GrowsBodies (block : Action Parser (List Statement)) : Prop :=
  (∀ p, Extends Parser.registry block p) ∧
    ∀ {p q : Parser} {body : List Statement}, block p = (.ok body, q) →
      enrollAll body p.registry = some q.registry

theorem readLoop_extends {block : Action Parser (List Statement)} (hblock : GrowsBodies block)
    (p : Parser) : Extends Parser.registry (readLoop block) p := by
  refine (Keeps.expect _ _).bind_extends fun _ _ => ?_
  refine (Keeps.expect _ _).bind_extends fun _ _ => ?_
  refine (Keeps.note _).bind_extends fun _ _ => ?_
  refine Keeps.skipDo.bind_extends fun _ r => ?_
  refine (hblock.1 r).bind fun body r' _ => Keeps.extends_at ?_ r'
  exact (Keeps.note _).bind fun _ => (Keeps.endStatement _).bind fun _ => .pure _

/-- The definition is registered behind the programs of its body. -/
theorem readDefine_extends {block : Action Parser (List Statement)} (hblock : GrowsBodies block)
    (p : Parser) : Extends Parser.registry (readDefine block) p := by
  refine (Keeps.expect _ _).bind_extends fun _ _ => ?_
  refine (Keeps.expect _ _).bind_extends fun name _ => ?_
  refine Keeps.get.bind_extends fun parser _ => ?_
  refine (Keeps.ofExcept _).bind_extends fun known _ => ?_
  split
  · exact (Keeps.fail _).extends_at _
  refine (Keeps.note _).bind_extends fun _ _ => ?_
  refine (Keeps.expect _ _).bind_extends fun _ _ => ?_
  refine (Keeps.nameList _).bind_extends fun params _ => ?_
  split
  · exact (Keeps.fail _).extends_at _
  refine (Keeps.note _).bind_extends fun _ _ => ?_
  refine (Keeps.expect _ _).bind_extends fun _ r => ?_
  refine Action.grows_bind (hblock.1 r) fun body r' hrun => ?_
  -- What grows is the registry before the body, which the body was enrolled with.
  have henroll : enrollAll body r.registry = some r'.registry := hblock.2 hrun
  have hdefine : Grows r.registry
      (Registry.define ⟨name.text, params, body⟩ r'.registry).2 := Registry.define_grows henroll
  refine Action.grows_bind (Statement.enrollAll_grows henroll) fun _ r'' hnote => ?_
  obtain rfl : r'' = { r' with draft := .define name.text (some params) (some body) } := by
    cases hnote
    rfl
  refine Action.grows_bind hdefine fun _ last hlast => ?_
  have hlast : last.registry = (Registry.define ⟨name.text, params, body⟩ r'.registry).2 := by
    rw [← congrArg (fun run => run.2.registry) hlast]
    rfl
  rw [← hlast] at hdefine
  exact hdefine.trans (Keeps.extends_at ((Keeps.endStatement _).bind fun _ => .pure _) last)

theorem readForm_extends {block : Action Parser (List Statement)} (hblock : GrowsBodies block)
    (form : Statement.Form) (p : Parser) : Extends Parser.registry (readForm block form) p := by
  cases form with
  | assign => exact Keeps.readAssign.extends_at p
  | increment => exact Keeps.readIncrement.extends_at p
  | call => exact Keeps.readCall.extends_at p
  | input => exact Keeps.readInput.extends_at p
  | output => exact Keeps.readOutput.extends_at p
  | loop => exact readLoop_extends hblock p
  | define => exact readDefine_extends hblock p

theorem nextBy_extends {block : Action Parser (List Statement)} (hblock : GrowsBodies block)
    (p : Parser) : Extends Parser.registry (nextBy block) p := by
  refine Keeps.get.bind_extends fun parser _ => ?_
  split
  · exact (Keeps.pure _).extends_at _
  refine (Keeps.skipSemicolons _).bind_extends fun t q => ?_
  split
  · exact .refl _
  split
  · exact (Keeps.fail _).extends_at _
  refine (Keeps.pushBack t).bind_extends fun _ _ => ?_
  refine (Keeps.formOf t).bind_extends fun form r => ?_
  exact (readForm_extends hblock form r).bind fun _ _ _ => .refl _

theorem statements_extends (fuel : Nat) (p : Parser) :
    Extends Parser.registry (statements fuel) p := by
  induction fuel generalizing p with
  | zero => exact .refl _
  | succ fuel ih =>
    have hblock : GrowsBodies (inBlock (statements fuel)) := by
      refine ⟨fun r => ih (ofLexer r.lexer .kwEnd r.registry), fun {r q body} hrun => ?_⟩
      unfold inBlock at hrun
      cases hinside : statements fuel (ofLexer r.lexer .kwEnd r.registry) with
      | mk result inside =>
        rw [hinside] at hrun
        cases hrun
        obtain ⟨_, _, _, henroll, _⟩ := statements_ok rfl rfl hinside
        exact henroll
    refine (nextBy_extends hblock p).bind fun result q _ => ?_
    cases result with
    | none => exact .refl _
    | some s => exact (ih q).bind fun _ _ _ => .refl _

end Parser

theorem parseByDescent_extends (source : String) (registry : Registry) :
    Extends id (parseByDescent source) registry :=
  let p := Parser.ofLexer (Lexer.ofSource source false) .eof registry
  Parser.statements_extends p.size p

namespace Grammar.Phrase

mutual

/-- A phrase that has a meaning leaves the registry that its statement enrolls. -/
theorem meaning_enrolls : ∀ (phrase : Phrase) {registry after : Registry} {s : Statement},
    meaning phrase registry = (.ok s, after) → s.enroll registry = some after
  | .assign .., _, _, _, h => by
    obtain ⟨_, _, hdone⟩ := Action.ofExcept_bind_eq_ok_iff.mp h
    cases hdone
    rfl
  | .increment .., _, _, _, h => by
    obtain ⟨_, _, hone⟩ := Action.ofExcept_bind_eq_ok_iff.mp h
    split at hone <;> cases hone
    rfl
  | .call .., _, _, _, h => (meaning_call_eq_ok_iff.mp h).2
  | .input _, _, _, _, h => by
    obtain ⟨_, _, hdone⟩ := Action.ofExcept_bind_eq_ok_iff.mp h
    cases hdone
    rfl
  | .output _, _, _, _, h => by
    obtain ⟨_, _, hnumbers⟩ := Action.ofExcept_bind_eq_ok_iff.mp h
    obtain ⟨_, _, hdone⟩ := Action.ofExcept_bind_eq_ok_iff.mp hnumbers
    cases hdone
    rfl
  | .loop _ body, _, _, _, h => by
    obtain ⟨_, _, hbody, hdone⟩ := Action.bind_eq_ok_iff.mp h
    cases hdone
    exact meanings_enrolls body hbody
  | .define _ _ body, _, _, _, h => by
    obtain ⟨_, inner, hbody, hrest⟩ := Action.bind_eq_ok_iff.mp h
    split at hrest
    · cases hrest
    · obtain ⟨_, _, hdefine, hdone⟩ := Action.bind_eq_ok_iff.mp hrest
      obtain ⟨hnew, rfl⟩ := Registry.define_eq_ok hdefine
      cases hdone
      exact Statement.enroll_define.mpr ⟨inner, meanings_enrolls body hbody, hnew, rfl⟩

theorem meanings_enrolls : ∀ (phrases : List Phrase) {registry after : Registry}
    {body : List Statement}, meanings phrases registry = (.ok body, after) →
    enrollAll body registry = some after
  | [], _, _, _, h => by
    cases h
    rfl
  | phrase :: phrases, _, _, _, h => by
    obtain ⟨_, next, hfirst, hrest⟩ := Action.bind_eq_ok_iff.mp h
    obtain ⟨_, _, hmore, hdone⟩ := Action.bind_eq_ok_iff.mp hrest
    cases hdone
    exact Statement.enrollAll_cons.mpr
      ⟨next, meaning_enrolls phrase hfirst, meanings_enrolls phrases hmore⟩

end

mutual

theorem meaning_extends : ∀ (phrase : Phrase) (registry : Registry),
    Extends id (meaning phrase) registry
  | .assign .., _ => Extends.bind (.ofExcept _) fun _ _ _ => .refl _
  | .increment .., _ => Extends.bind (.ofExcept _) fun _ _ _ => by
    split <;> exact .refl _
  | .call .., _ => .of_eq (by rw [meaning_call])
  | .input _, _ => Extends.bind (.ofExcept _) fun _ _ _ => .refl _
  | .output _, _ => Extends.bind (.ofExcept _) fun _ _ _ =>
    Extends.bind (.ofExcept _) fun _ _ _ => .refl _
  | .loop _ body, registry => (meanings_extends body registry).bind fun _ _ _ => .refl _
  | .define name params body, registry => by
    have hbody := meanings_extends body registry
    refine Action.grows_bind hbody fun found inner hrun => ?_
    have henroll : enrollAll found registry = some inner := meanings_enrolls body hrun
    split
    · exact Statement.enrollAll_grows henroll
    · have hdefine : Grows registry
          (Registry.define ⟨name.atom, params.map Piece.atom, found⟩ inner).2 :=
        Registry.define_grows henroll
      refine Action.grows_bind hdefine fun _ last hlast => ?_
      rw [hlast] at hdefine
      exact hdefine

theorem meanings_extends : ∀ (phrases : List Phrase) (registry : Registry),
    Extends id (meanings phrases) registry
  | [], _ => .refl _
  | phrase :: phrases, registry =>
    (meaning_extends phrase registry).bind fun _ next _ =>
      (meanings_extends phrases next).bind fun _ _ _ => .refl _

end

end Grammar.Phrase

theorem parseByGrammar_extends (source : String) (registry : Registry) :
    Extends id (parseByGrammar source) registry := by
  unfold Extends parseByGrammar
  split
  · exact Grammar.Phrase.meanings_extends _ registry
  · exact .refl _

namespace Document

mutual

theorem load_extends : ∀ (document : Json) (registry : Registry),
    Extends id (load document) registry
  | .null, _ => .refl _
  | .obj fields, registry => by
    rw [load]
    split
    · exact .ofExcept _
    · split
      · exact (loadBody_extends fields registry).bind fun _ _ _ => .refl _
      · refine Extends.bind (.ofExcept _) fun _ inner _ => ?_
        exact (loadBody_extends fields inner).bind fun _ _ _ => .refl _
      · refine Action.grows_bind (loadBody_extends fields registry) fun body inner hrun => ?_
        have henroll : enrollAll body registry = some inner := loadBody_enrolls fields hrun
        have hinner : Grows registry inner := Statement.enrollAll_grows henroll
        refine Action.grows_ofExcept_bind hinner fun name => ?_
        refine Action.grows_ofExcept_bind hinner fun params => ?_
        have hdefine : Grows registry
            (Registry.define ⟨Atom.ofJson name, params, body⟩ inner).2 :=
          Registry.define_grows henroll
        refine Action.grows_bind hdefine fun _ last hlast => ?_
        rw [hlast] at hdefine
        exact hdefine
      · exact .ofExcept _
  | .bool _, _ | .int _, _ | .real _, _ | .str _, _ | .arr _, _ => .refl _

theorem loadBody_extends : ∀ (fields : List (String × Json)) (registry : Registry),
    Extends id (loadBody fields) registry
  | [], _ => .refl _
  | (key, value) :: fields, registry => by
    unfold loadBody
    split
    · exact loadItems_extends value registry
    · exact loadBody_extends fields registry

theorem loadItems_extends : ∀ (value : Json) (registry : Registry),
    Extends id (loadItems value) registry
  | .arr values, registry => loadAll_extends values registry
  | .str s, _ => by
    unfold loadItems
    split <;> exact .refl _
  | .obj fields, _ => by
    unfold loadItems
    split <;> exact .refl _
  | .null, _ | .bool _, _ | .int _, _ | .real _, _ => .refl _

theorem loadAll_extends : ∀ (values : List Json) (registry : Registry),
    Extends id (loadAll values) registry
  | [], _ => .refl _
  | value :: values, registry =>
    (load_extends value registry).bind fun _ next _ =>
      (loadAll_extends values next).bind fun _ _ _ => .refl _

end

end Document

/-! ### Calls -/

namespace Statement

mutual

/-- The calls of a statement at any depth, each with the program that it names and its arguments. -/
def calls : Statement → List (Atom × List Atom)
  | .call _ callee args => [(callee, args)]
  | .loop _ body => callsAll body
  | .define _ _ body => callsAll body
  | .program body => callsAll body
  | _ => []

def callsAll : List Statement → List (Atom × List Atom)
  | [] => []
  | s :: rest => calls s ++ callsAll rest

end

mutual

theorem Linked.calls : ∀ (s : Statement) {registry : Registry}, Linked registry s →
    ∀ {callee : Atom} {args : List Atom}, (callee, args) ∈ s.calls →
    ∃ d, registry.find? callee = some d ∧ args.length = d.params.length
  | .call .., _, h, _, _, hmem => by
    cases List.mem_singleton.mp hmem
    exact h
  | .loop _ body, _, h, _, _, hmem => LinkedAll.calls body h hmem
  | .define _ _ body, _, h, _, _, hmem => LinkedAll.calls body h.2 hmem
  | .program body, _, h, _, _, hmem => LinkedAll.calls body h hmem
  | .assign .., _, _, _, _, hmem | .increment .., _, _, _, _, hmem | .input _, _, _, _, _, hmem
  | .output _, _, _, _, _, hmem | .missing, _, _, _, _, hmem | .token _, _, _, _, _, hmem => by
    cases hmem

theorem LinkedAll.calls : ∀ (body : List Statement) {registry : Registry}, LinkedAll registry body →
    ∀ {callee : Atom} {args : List Atom}, (callee, args) ∈ callsAll body →
    ∃ d, registry.find? callee = some d ∧ args.length = d.params.length
  | [], _, _, _, _, hmem => by cases hmem
  | s :: rest, _, h, _, _, hmem => by
    obtain hfirst | hrest := List.mem_append.mp hmem
    · exact Linked.calls s h.1 hfirst
    · exact LinkedAll.calls rest h.2 hrest

end

end Statement

namespace Registry

/-- The one program calls the other, at some depth of its body. -/
def Calls (registry : Registry) (caller callee : Definition) : Prop :=
  caller ∈ registry ∧ callee ∈ registry ∧
    ∃ call ∈ Statement.callsAll caller.body, call.1.key = callee.name.key

namespace Layered

variable {registry front back : Registry} {d : Definition}

theorem linked_front (h : Layered registry) (hsplit : registry = front ++ d :: back) :
    Statement.LinkedAll front d.body := by
  induction h generalizing back with
  | nil => simp at hsplit
  | @snoc before last _ hlinked ih =>
    obtain rfl | ⟨init, final, rfl⟩ := back.eq_nil_or_concat
    · obtain ⟨rfl, hlast⟩ := List.append_inj' hsplit rfl
      cases hlast
      exact hlinked
    · have hinit : before ++ [last] = (front ++ d :: init) ++ [final] := by simpa using hsplit
      exact ih (List.append_inj' hinit rfl).1

/-- A call in a body goes to a program that stands before it and takes as many arguments. -/
theorem calls_front (h : Layered registry) (hsplit : registry = front ++ d :: back) {callee : Atom}
    {args : List Atom} (hcall : (callee, args) ∈ Statement.callsAll d.body) :
    ∃ e ∈ front, e.name.key = callee.key ∧ e.params.length = args.length := by
  obtain ⟨e, hfind, hlength⟩ := Statement.LinkedAll.calls d.body (h.linked_front hsplit) hcall
  have hname : e.name.key = callee.key := by simpa using List.find?_some hfind
  exact ⟨e, List.mem_of_find?_eq_some hfind, hname, hlength.symm⟩

end Layered

/-- The place of a program's name among the names. -/
def rank (registry : Registry) (d : Definition) : Nat :=
  (registry.map (·.name.key)).idxOf d.name.key

theorem rank_lt_of_calls {registry : Registry} (hlayered : registry.Layered)
    (hdistinct : (registry.map (·.name.key)).Nodup) {caller callee : Definition}
    (h : registry.Calls caller callee) : registry.rank callee < registry.rank caller := by
  obtain ⟨hcaller, _, ⟨name, args⟩, hcall, hname⟩ := h
  obtain ⟨front, back, hsplit⟩ := List.append_of_mem hcaller
  obtain ⟨e, he, hkey, _⟩ := hlayered.calls_front hsplit hcall
  have hfront : callee.name.key ∈ front.map (·.name.key) :=
    List.mem_map.mpr ⟨e, he, hkey.trans hname⟩
  subst hsplit
  rw [List.map_append, List.map_cons] at hdistinct
  -- The caller's own name does not stand before it, so its rank is its place.
  have hnot : caller.name.key ∉ front.map (·.name.key) := fun hmem =>
    (List.nodup_append.mp hdistinct).2.2 _ hmem _ List.mem_cons_self rfl
  unfold rank
  rw [List.map_append, List.map_cons, List.idxOf_append, if_pos hfront, List.idxOf_append,
    if_neg hnot, List.idxOf_cons_self, Nat.zero_add]
  exact List.idxOf_lt_length_of_mem hfront

theorem rank_lt_of_chain {registry : Registry} (hlayered : registry.Layered)
    (hdistinct : (registry.map (·.name.key)).Nodup) {caller callee : Definition}
    (h : Relation.TransGen registry.Calls caller callee) :
    registry.rank callee < registry.rank caller := by
  induction h with
  | single hcall => exact rank_lt_of_calls hlayered hdistinct hcall
  | tail _ hcall ih => exact Nat.lt_trans (rank_lt_of_calls hlayered hdistinct hcall) ih

end Registry

/-! ### Many loads -/

/-- One load into a registry that is there. -/
inductive Loading where
  | descent (source : String)
  | grammar (source : String)
  | document (value : Json)

namespace Loading

def run : Loading → Action Registry Statement
  | .descent source => do return .program (← parseByDescent source)
  | .grammar source => do return .program (← parseByGrammar source)
  | .document value => Document.load value

/-- The registry after one load, also if that load fails. -/
def after (registry : Registry) (load : Loading) : Registry := (load.run registry).2

/-- The registry that a row of loads leaves, of which each may fail. -/
def session (loads : List Loading) : Registry := loads.foldl after []

theorem run_extends (load : Loading) (registry : Registry) : Extends id load.run registry := by
  cases load with
  | descent source => exact (parseByDescent_extends source registry).bind fun _ _ _ => .refl _
  | grammar source => exact (parseByGrammar_extends source registry).bind fun _ _ _ => .refl _
  | document value => exact Document.load_extends value registry

theorem session_snoc (loads : List Loading) (load : Loading) :
    session (loads ++ [load]) = after (session loads) load := by
  simp [session]

theorem foldl_after_grows (loads : List Loading) (registry : Registry) :
    Grows registry (loads.foldl after registry) := by
  induction loads generalizing registry with
  | nil => exact .refl _
  | cons load loads ih => exact (run_extends load registry).trans (ih (after registry load))

/-- After any row of loads the programs of before the last one are still there in front, names are
distinct, a call in a body goes to a program before it with as many parameters, and no chain of
calls comes back to where it began. -/
theorem session_acyclic (loads : List Loading) :
    (∀ load, session loads <+: session (loads ++ [load])) ∧
    ((session loads).map (·.name.key)).Nodup ∧
    (∀ front d back, session loads = front ++ d :: back →
      ∀ callee args, (callee, args) ∈ Statement.callsAll d.body →
        ∃ e ∈ front, e.name.key = callee.key ∧ e.params.length = args.length) ∧
    ∀ d, ¬ Relation.TransGen (session loads).Calls d d := by
  have hgrows : Grows [] (session loads) := foldl_after_grows loads []
  have hlayered := hgrows.layered .nil
  have hdistinct := hgrows.distinct List.nodup_nil
  refine ⟨fun load => ?_, hdistinct, fun front d back hsplit callee args hcall => ?_,
    fun d hchain => ?_⟩
  · rw [session_snoc]
    exact (run_extends load (session loads)).front
  · exact hlayered.calls_front hsplit hcall
  · exact Nat.lt_irrefl _ (Registry.rank_lt_of_chain hlayered hdistinct hchain)

end Loading

end LoopLanguage
