import LoopLanguage.Proofs.Agreement
import LoopLanguage.Proofs.Isolation
import LoopLanguage.Proofs.Renaming

/-!
A printed program runs as the program does. Printing puts variables into small letters, which is a
renaming as long as no two variables of a scope differ only in the case of their letters. It is one
that runs do not notice as long as the result variable is not named in a definition: a call looks
for `X0`, and what the definition sets is then printed as `x0`.
-/

namespace LoopLanguage

/-- No two of the names differ only in the case of their letters. -/
def CaseApart (names : List Atom) : Prop :=
  ∀ a ∈ names, ∀ b ∈ names, a.lower = b.lower → a = b

instance (names : List Atom) : Decidable (CaseApart names) :=
  inferInstanceAs (Decidable (∀ a ∈ names, ∀ b ∈ names, a.lower = b.lower → a = b))

theorem CaseApart.mono {names scope : List Atom} (h : CaseApart scope) (hsub : names ⊆ scope) :
    CaseApart names :=
  fun a ha b hb => h a (hsub ha) b (hsub hb)

theorem CaseApart.nodup_lower {names : List Atom} (h : CaseApart names) (hnodup : names.Nodup) :
    (names.map Atom.lower).Nodup := by
  rw [List.Nodup, List.pairwise_map]
  apply hnodup.imp_of_mem
  intro a b ha hb hne hlower
  exact hne (h a ha b hb hlower)

/-- The case of letters does not matter in the definition: its name is in capitals, its variables
can be told apart in small letters, and the result variable is not among them. -/
structure Definition.Caseless (d : Definition) : Prop where
  capitals : d.name.upper = d.name
  apart : CaseApart (d.params ++ Statement.varsAll d.body)
  result : Store.result ∉ d.params ++ Statement.varsAll d.body

theorem Atom.IsIdentifier.lower_ne_result {a : Atom} (h : a.IsIdentifier) :
    a.lower ≠ Store.result := by
  intro hlower
  have hupper := h.isUpper_lower 'X'
  rw [hlower] at hupper
  exact absurd (hupper (by decide)) (by decide)

/-! ## Printing as a renaming -/

/-- A variable stays or is put into small letters. -/
def Atom.PrintedAs (a b : Atom) : Prop := b = a ∨ b = a.lower

namespace Naming

/-- The variables of a scope in small letters. -/
def small (scope : List Atom) (hapart : CaseApart scope) : Naming Atom.PrintedAs where
  Rel a b := a.IsIdentifier ∧ a ∈ scope ∧ b = a.lower
  texts := by
    rintro a _ ⟨ha, _, rfl⟩
    exact ⟨ha.exists_text, ha.lower.exists_text⟩
  apart := by
    rintro a _ b _ ⟨_, ha, rfl⟩ ⟨_, hb, rfl⟩
    exact ⟨congrArg Atom.lower, hapart a ha b hb⟩
  spells := by
    rintro a _ ⟨_, _, rfl⟩
    exact .inr rfl

/-- The variables of a call in small letters, the result variable aside. -/
def called (scope : List Atom) (hapart : CaseApart scope) (hresult : Store.result ∉ scope) :
    Naming Atom.PrintedAs where
  Rel a b := (small scope hapart).Rel a b ∨ a = Store.result ∧ b = Store.result
  texts := by
    rintro a b (h | ⟨rfl, rfl⟩)
    · exact (small scope hapart).texts h
    · exact ⟨⟨_, rfl⟩, ⟨_, rfl⟩⟩
  apart := by
    -- Neither a name of the scope nor one in small letters is the result variable.
    have hother : ∀ {a b}, (small scope hapart).Rel a b → a ≠ Store.result ∧ b ≠ Store.result := by
      rintro a _ ⟨ha, hscope, rfl⟩
      exact ⟨fun h => hresult (h ▸ hscope), ha.lower_ne_result⟩
    rintro a a' b b' (ha | ⟨rfl, rfl⟩) (hb | ⟨rfl, rfl⟩)
    · exact (small scope hapart).apart ha hb
    · exact iff_of_false (hother ha).1 (hother ha).2
    · exact iff_of_false (hother hb).1.symm (hother hb).2.symm
    · exact iff_of_true rfl rfl
  spells := by
    rintro a b (h | ⟨rfl, rfl⟩)
    · exact (small scope hapart).spells h
    · exact .inl rfl

end Naming

/-- Programs keep their names. -/
def ProgramNaming.unchanged : ProgramNaming where
  Rel a b := a.IsIdentifier ∧ b = a
  texts := by
    rintro a _ ⟨ha, rfl⟩
    exact ⟨ha.exists_text, ha.exists_text⟩
  apart := by
    rintro a _ b _ ⟨_, rfl⟩ ⟨_, rfl⟩
    exact .rfl
  spells _ := trivial

section Respell

variable {names : Naming Atom.PrintedAs} {strings : Nat → String → String}

theorem Token.respell_renames {string : String → String} {t : Token} (hkind : t.kind ∈ itemKinds)
    (hlexical : t.Lexical) (hnumber : t.kind = .number → ∃ n, t.value = .ok n)
    (hstring : t.kind = .string → string t.text.content = t.text.content)
    (hname : t.kind = .identifier → names.Rel t.text t.text.lower) :
    t.Renames names (t.respell string) := by
  simp only [itemKinds, List.mem_cons, List.not_mem_nil, or_false] at hkind
  rcases hkind with hkind | hkind | hkind
  · obtain ⟨s, hs⟩ := hlexical.exists_text hkind
    have hsame := hstring hkind
    rw [hs] at hsame
    have htext : (t.respell string).text = .text (string s) := respell_string hkind hs
    rw [show string s = s from hsame] at htext
    exact .string hkind hkind hs htext
  · obtain ⟨n, hn⟩ := hnumber hkind
    exact .number hkind hkind hn (value_respell hkind hn)
  · have htext := hname hkind
    rw [← respell_identifier hkind] at htext
    exact .identifier hkind hkind htext

theorem mem_tokenVariables {t : Token} {tokens : List Token} (ht : t ∈ tokens)
    (hkind : t.kind = .identifier) : t.text ∈ tokenVariables tokens :=
  List.mem_map_of_mem (List.mem_filter.mpr ⟨ht, decide_eq_true hkind⟩)

theorem forall₂_lower {as : List Atom} (h : ∀ a ∈ as, names.Rel a a.lower) :
    List.Forall₂ names.Rel as (as.map Atom.lower) :=
  List.forall₂_map_right_iff.mpr (List.forall₂_same.mpr h)

namespace Statement

mutual

theorem Regular.vars_identifier : ∀ s : Statement, s.Regular → ∀ a ∈ s.vars, a.IsIdentifier
  | .assign .., h, a, ha => by
    obtain rfl := List.mem_singleton.mp ha
    exact h.1
  | .increment .., h, a, ha => by
    rcases List.mem_cons.mp ha with rfl | ha
    · exact h.1
    · obtain rfl := List.mem_singleton.mp ha
      exact h.2
  | .call .., h, a, ha => by
    rcases List.mem_cons.mp ha with rfl | ha
    · exact h.1
    · exact h.2.2 a ha
  | .input targets, h, a, ha => by
    obtain ⟨t, ht, rfl⟩ := List.mem_map.mp ha
    obtain ⟨ht, hkind⟩ := List.mem_filter.mp ht
    exact (h.2 t ht).2.identifier (of_decide_eq_true hkind)
  | .output items, h, a, ha => by
    obtain ⟨t, ht, rfl⟩ := List.mem_map.mp ha
    obtain ⟨ht, hkind⟩ := List.mem_filter.mp ht
    exact (h.2 t ht).2.1.identifier (of_decide_eq_true hkind)
  | .loop _ body, h, a, ha => by
    rcases List.mem_cons.mp ha with rfl | ha
    · exact h.1
    · exact RegularAll.vars_identifier body h.2 a ha
  | .define .., _, a, ha => by cases ha
  | .missing, h, _, _ | .token _, h, _, _ | .program _, h, _, _ => h.elim

theorem RegularAll.vars_identifier : ∀ body : List Statement, RegularAll body →
    ∀ a ∈ varsAll body, a.IsIdentifier
  | [], _, a, ha => by cases ha
  | s :: rest, h, a, ha => by
    rcases List.mem_append.mp ha with ha | ha
    · exact Regular.vars_identifier s h.1 a ha
    · exact RegularAll.vars_identifier rest h.2 a ha

end

mutual

/-- A statement in canonical spelling is the statement under other names, if its literals stay and
the programs that it calls and defines have lost nothing in print. -/
theorem respell_renames : ∀ (s : Statement) {depth : Nat} {names : Naming Atom.PrintedAs}
    {registry after : Registry}, s.Regular →
    s.Literals (fun depth text => strings depth text = text) depth →
    (∀ a ∈ s.vars, names.Rel a a.lower) → enroll s registry = some after →
    (∀ d ∈ after, d.name.IsIdentifier ∧ d.Caseless) →
      s.Renames .unchanged names (respell strings depth s)
  | .assign target _, _, _, _, _, _, _, hvars, _, _ => .assign (hvars target (by simp [vars]))
  | .increment target operand, _, _, _, _, _, _, hvars, _, _ =>
    .increment (hvars target (by simp [vars])) (hvars operand (by simp [vars]))
  | .call target callee args, _, _, _, _, hregular, _, hvars, h, hafter => by
    obtain ⟨d, hfind, _, rfl⟩ := enroll_call.mp h
    obtain ⟨hname, hcaseless⟩ := hafter d (List.mem_of_find?_eq_some hfind)
    have hkey : d.name.key = callee.key := by simpa using List.find?_some hfind
    obtain rfl := hname.key_inj hregular.2.1 hkey
    exact .call (hvars target (by simp [vars])) ⟨hname, hcaseless.capitals⟩
      (forall₂_lower fun a ha => hvars a (by simp [vars, ha]))
  | .input targets, _, _, _, _, hregular, hliterals, hvars, _, _ => by
    apply Renames.input
    apply List.forall₂_map_right_iff.mpr
    apply List.forall₂_same.mpr
    intro t ht
    obtain ⟨hkind, hlexical⟩ := hregular.2 t ht
    obtain ⟨hitem, hnumber⟩ := targetKinds_subset hkind
    exact ⟨Token.respell_renames hitem hlexical (fun h => absurd h hnumber) (hliterals t ht)
      fun h => hvars _ (mem_tokenVariables ht h), hnumber⟩
  | .output items, _, _, _, _, hregular, hliterals, hvars, _, _ => by
    apply Renames.output
    apply List.forall₂_map_right_iff.mpr
    apply List.forall₂_same.mpr
    intro t ht
    obtain ⟨hkind, hlexical, hnumber⟩ := hregular.2 t ht
    exact Token.respell_renames hkind hlexical hnumber (hliterals t ht)
      fun h => hvars _ (mem_tokenVariables ht h)
  | .loop count body, _, _, _, _, hregular, hliterals, hvars, h, hafter =>
    .loop (hvars count (by simp [vars])) (respellAll_renames body hregular.2 hliterals
      (fun a ha => hvars a (by simp [vars, ha])) h hafter)
  | .define name params body, _, _, _, _, hregular, hliterals, _, h, hafter => by
    obtain ⟨inner, hinner, _, rfl⟩ := enroll_define.mp h
    obtain ⟨hname, hcaseless⟩ := hafter ⟨name, params, body⟩ (by simp)
    have hparams : ∀ a ∈ params, (Naming.called _ hcaseless.apart hcaseless.result).Rel a a.lower :=
      fun a ha => .inl ⟨hregular.2.1 a ha, List.mem_append_left _ ha, rfl⟩
    have hbody : ∀ a ∈ varsAll body,
        (Naming.called _ hcaseless.apart hcaseless.result).Rel a a.lower :=
      fun a ha => .inl ⟨RegularAll.vars_identifier body hregular.2.2.2 a ha,
        List.mem_append_right _ ha, rfl⟩
    have hresult : (Naming.called _ hcaseless.apart hcaseless.result).Rel Store.result
        Store.result := .inr ⟨rfl, rfl⟩
    exact .define ⟨hname, hcaseless.capitals⟩ hresult (forall₂_lower hparams)
      (respellAll_renames body hregular.2.2.2 hliterals hbody hinner
        fun d hd => hafter d (by simp [hd]))
  | .missing, _, _, _, _, hregular, _, _, _, _ | .token _, _, _, _, _, hregular, _, _, _, _
  | .program _, _, _, _, _, hregular, _, _, _, _ => hregular.elim

theorem respellAll_renames : ∀ (body : List Statement) {depth : Nat}
    {names : Naming Atom.PrintedAs} {registry after : Registry}, RegularAll body →
    LiteralsAll (fun depth text => strings depth text = text) depth body →
    (∀ a ∈ varsAll body, names.Rel a a.lower) → enrollAll body registry = some after →
    (∀ d ∈ after, d.name.IsIdentifier ∧ d.Caseless) →
      RenamesAll .unchanged names body (respellAll strings depth body)
  | [], _, _, _, _, _, _, _, _, _ => .nil
  | s :: rest, _, _, _, _, hregular, hliterals, hvars, h, hafter => by
    obtain ⟨next, hs, hrest⟩ := enrollAll_cons.mp h
    obtain ⟨more, rfl⟩ := enrollAll_extends rest hrest
    exact .cons
      (respell_renames s hregular.1 hliterals.1 (fun a ha => hvars a (by simp [varsAll, ha])) hs
        fun d hd => hafter d (by simp [hd]))
      (respellAll_renames rest hregular.2 hliterals.2
        (fun a ha => hvars a (by simp [varsAll, ha])) hrest hafter)

end

end Statement

end Respell

/-! ## Running what was printed -/

theorem ReportedAlike.failure?_eq {α : Type} {r r' : Except Error α} (h : ReportedAlike r r') :
    failure? r' = failure? r := by
  cases r with
  | ok a =>
    cases r' with
    | ok a' => rfl
    | error e' => cases h
  | error e =>
    cases r' with
    | ok a' => cases h
    | error e' => exact congrArg some (congrArg Prod.fst (Except.error.inj h))

/-- Programs that differ in the places of their tokens print the same and fail alike. -/
theorem Machine.run_of_placeless {body body' : List Statement} {registry registry' : Registry}
    (hbody : Statement.placelessAll body = Statement.placelessAll body')
    (hregistry : registry.placeless = registry'.placeless) (tracing : Tracing) (input : String) :
    (run tracing body (start registry input)).2.output =
        (run tracing body' (start registry' input)).2.output ∧
      failure? (run tracing body (start registry input)).1 =
        failure? (run tracing body' (start registry' input)).1 := by
  have hstart : (start registry input).placeless = (start registry' input).placeless :=
    congrArg (fun registry => start registry input) hregistry
  obtain ⟨hresult, hafter⟩ := run_mirrors tracing body (start registry input)
  obtain ⟨hresult', hafter'⟩ := run_mirrors tracing body' (start registry' input)
  rw [hbody, hstart] at hresult hafter
  have hsame := hafter.symm.trans hafter'
  constructor
  · have houtput := congrArg Machine.output hsame
    exact houtput
  · exact hresult.failure?_eq.symm.trans hresult'.failure?_eq

/-- A program is printed as a source that both parsers read, and what they read prints the same as
the program on every input and fails exactly if the program does, with an error of the same
category. Names of programs have to be in capitals, the variables of each scope have to be
different in small letters, the result variable must not be named in a definition, and literals in
bodies must not have line breaks. -/
theorem formatting_keeps_runs {body : List Statement} {registry : Registry}
    (h : Parsed body registry) (hbody : CaseApart (Statement.varsAll body))
    (hdefinitions : ∀ d ∈ registry, d.Caseless)
    (hliterals : Statement.LiteralsAll
      (fun depth s => 0 < depth → ∀ c ∈ s.toList, c.toNat ∉ Literal.lineBreaks) 0 body) :
    ∃ text found after,
      Statement.programSource body = .ok text ∧
      parseByDescent text [] = (.ok found, after) ∧
      parseByGrammar text [] = (.ok found, after) ∧
      ∀ (level : Int) (file : String) (files : Files) (input : String),
        let tracing := (Interpreter.create level file files).1.tracing
        (Machine.run tracing found (Machine.start after input)).2.output =
            (Machine.run tracing body (Machine.start registry input)).2.output ∧
          failure? (Machine.run tracing found (Machine.start after input)).1 =
            failure? (Machine.run tracing body (Machine.start registry input)).1 := by
  have hregular := h.regular
  have hnodup : ∀ d ∈ registry, d.name.IsIdentifier ∧ d.params.Nodup :=
    Statement.enrollAll_forall (fun _ _ _ hdefine => ⟨hdefine.1, hdefine.2.2.1⟩) body hregular
      (by simp) h.enrolls
  have hprintable := Statement.enrollAll_printable body hregular h.enrolls fun d hd => by
    have hparams := (hdefinitions d hd).apart.mono (List.subset_append_left _ _)
    rw [(hdefinitions d hd).capitals]
    exact ⟨(hnodup d hd).1, (hnodup d hd).1, hparams.nodup_lower (hnodup d hd).2⟩
  have hprinted : Statement.RegularAll (Statement.respellAll Literal.inflated 0 body) :=
    Statement.respellAll_regular body 0 hregular hprintable
  obtain ⟨text, hsource, htext⟩ := Statement.programSource_eq hregular
  obtain ⟨hfault, inner, found, hsentences, hinner, hsame⟩ :=
    Statement.joined_sentences hprinted (Statement.respellAll_tidy _ 0 body) htext
  -- What was printed is the program under other names, and what is read differs from it in places.
  have hrenames : Statement.RenamesAll .unchanged (.small _ hbody) body
      (Statement.respellAll Literal.inflated 0 body) := by
    apply Statement.respellAll_renames body hregular _ _ h.enrolls
      fun d hd => ⟨(hnodup d hd).1, hdefinitions d hd⟩
    · simpa only [Literal.inflated_eq_self] using hliterals
    · exact fun a ha => ⟨Statement.RegularAll.vars_identifier body hregular a ha, ha, rfl⟩
  obtain ⟨renamed, hrenamed, hregistry⟩ := hrenames.enrollAll .nil h.enrolls
  have hfound := hsentences.regular (Lexer.tokens_lexical _ rfl)
  have hplaceless := Statement.placelessAll_of_same found _ hfound hprinted hsame
  have henroll : (Statement.enrollAll found []).map Registry.placeless =
      some renamed.placeless := by
    rw [← Statement.enrollAll_placeless, hplaceless, Statement.enrollAll_placeless]
    exact congrArg (Option.map Registry.placeless) hrenamed
  obtain ⟨after, hafter, hplacelessAfter⟩ := Option.map_eq_some_iff.mp henroll
  refine ⟨text, found, after, hsource, parseByDescent_eq_ok.mpr ⟨hfault, ⟨inner, hsentences⟩, hafter⟩,
    (parseByGrammar_eq_ok hfault).mpr ⟨⟨inner, hsentences, hinner⟩, hafter⟩, ?_⟩
  intro level file files input tracing
  obtain ⟨houtput, hfailure⟩ :=
    Machine.run_of_placeless hplaceless hplacelessAfter tracing input
  obtain ⟨hresult, hmachine⟩ := Machine.run_tracks (Interpreter.create_ready level file files)
    hrenames _ _ (Machine.start_renames hregistry input)
  exact ⟨houtput.trans hmachine.output, hfailure.trans hresult.failure?_eq⟩

/-- The result variable may be named outside of definitions. -/
theorem formatting_keeps_runs_add :
    ∃ body registry,
      parseByDescent
        "PROGRAM ADD(A, b) DO\nLOOP b DO A := A + 1 END\nOUTPUT \"+\", A\nEND\nINPUT N\nX0 := ADD(N, N)"
        [] = (.ok body, registry) ∧
      CaseApart (Statement.varsAll body) ∧ (∀ d ∈ registry, d.Caseless) ∧
      ∃ text found after,
        Statement.programSource body = .ok text ∧
        parseByDescent text [] = (.ok found, after) ∧
        ∀ input,
          (Machine.run ⟨0, false⟩ found (Machine.start after input)).2.output =
            (Machine.run ⟨0, false⟩ body (Machine.start registry input)).2.output := by
  have hparse : parseByDescent
      "PROGRAM ADD(A, b) DO\nLOOP b DO A := A + 1 END\nOUTPUT \"+\", A\nEND\nINPUT N\nX0 := ADD(N, N)"
      [] =
      (.ok [.define (.text "ADD") [.text "A", .text "b"]
            [.loop (.text "b") [.increment (.text "A") (.text "A")],
              .output [⟨.string, .text "+", ⟨3, 8⟩, false⟩,
                ⟨.identifier, .text "A", ⟨3, 13⟩, false⟩]],
          .input [⟨.identifier, .text "N", ⟨5, 7⟩, false⟩],
          .call (.text "X0") (.text "ADD") [.text "N", .text "N"]],
        [⟨.text "ADD", [.text "A", .text "b"],
          [.loop (.text "b") [.increment (.text "A") (.text "A")],
            .output [⟨.string, .text "+", ⟨3, 8⟩, false⟩,
              ⟨.identifier, .text "A", ⟨3, 13⟩, false⟩]]⟩]) := by
    cbv
  have hapart : CaseApart [.text "N", .text "X0", .text "N", .text "N"] := by decide
  have hscope : CaseApart [.text "A", .text "b", .text "b", .text "A", .text "A", .text "A"] := by
    decide
  have hcaseless := List.forall_mem_singleton.mpr (show Definition.Caseless ⟨.text "ADD",
      [.text "A", .text "b"], [.loop (.text "b") [.increment (.text "A") (.text "A")],
        .output [⟨.string, .text "+", ⟨3, 8⟩, false⟩, ⟨.identifier, .text "A", ⟨3, 13⟩, false⟩]]⟩
    from ⟨by decide, hscope, by decide⟩)
  have hliteral : '+'.toNat ∉ Literal.lineBreaks := by decide
  obtain ⟨text, found, after, hsource, hfound, _, hruns⟩ :=
    formatting_keeps_runs ⟨_, .inl hparse⟩ hapart hcaseless
      (by simpa [Statement.LiteralsAll, Statement.Literals, Atom.content] using hliteral)
  exact ⟨_, _, hparse, hapart, hcaseless, text, found, after, hsource, hfound, fun input =>
    (hruns 0 "" [] input).1⟩

/-- A program whose definition sets the result variable prints something else once it has been
printed and read again, although no two of its variables differ in case only. -/
theorem formatting_loses_result :
    ∃ body registry text found after,
      parseByDescent "PROGRAM P() DO\nX0 := 5\nEND\ny := P()\nOUTPUT y" [] =
        (.ok body, registry) ∧
      (∀ d ∈ registry, d.name.upper = d.name) ∧
      CaseApart (Statement.varsAll body ++
        registry.flatMap fun d => d.params ++ Statement.varsAll d.body) ∧
      Statement.LiteralsAll (fun _ s => ∀ c ∈ s.toList, c.toNat ∉ Literal.lineBreaks) 0 body ∧
      Statement.programSource body = .ok text ∧
      parseByDescent text [] = (.ok found, after) ∧
      (Machine.run ⟨0, false⟩ body (Machine.start registry "")).2.output = "5\n" ∧
      (Machine.run ⟨0, false⟩ found (Machine.start after "")).2.output = "0\n" := by
  refine ⟨[.define (.text "P") [] [.assign (.text "X0") 5], .call (.text "y") (.text "P") [],
      .output [⟨.identifier, .text "y", ⟨5, 8⟩, false⟩]],
    [⟨.text "P", [], [.assign (.text "X0") 5]⟩],
    "PROGRAM P() DO\n  x0 := 5\nEND\ny := P()\nOUTPUT y",
    [.define (.text "P") [] [.assign (.text "x0") 5], .call (.text "y") (.text "P") [],
      .output [⟨.identifier, .text "y", ⟨5, 8⟩, false⟩]],
    [⟨.text "P", [], [.assign (.text "x0") 5]⟩], ?_, ?_, ?_, ?_, ?_, ?_, ?_, ?_⟩
  · cbv
  · exact List.forall_mem_singleton.mpr (by decide)
  · decide
  · simp [Statement.LiteralsAll, Statement.Literals]
  · decide +kernel
  · cbv
  · decide +kernel
  · decide +kernel

end LoopLanguage
