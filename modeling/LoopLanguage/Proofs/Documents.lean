import LoopLanguage.Proofs.Placeless

/-!
Documents of parsed programs. Loading goes through the statements in the order in which the parsers
close them and checks the calls and definitions again, so the document of a program is loaded
exactly where its statements can be enrolled; what comes back is the program without the places of
its tokens.
-/

namespace LoopLanguage

open LoopLanguage.Action (Ensures)
open Statement (placelessAll)

/-- An atom that comes back as it was written. -/
def Atom.Stable (a : Atom) : Prop := ofJson a.toJson = a

theorem Atom.Stable.eq {a : Atom} (h : a.Stable) : ofJson a.toJson = a := h

theorem Atom.IsText.stable {a : Atom} (h : a.IsText) : a.Stable := by
  cases a with
  | text s => rfl
  | absent => exact h.elim
  | other => exact h.elim

theorem Atom.IsIdentifier.isText {a : Atom} (h : a.IsIdentifier) : a.IsText := by
  obtain ⟨s, rfl⟩ := h.exists_text
  trivial

theorem Atom.IsIdentifier.stable {a : Atom} (h : a.IsIdentifier) : a.Stable := h.isText.stable

theorem Token.Lexical.isText {t : Token} (h : t.Lexical) (hkind : t.kind ∈ itemKinds) :
    t.text.IsText := by
  cases hcase : t.kind with
  | string => simpa [Token.Lexical, hcase] using h
  | identifier => exact (h.identifier hcase).isText
  | number =>
    obtain ⟨s, htext, _⟩ := h.exists_numeral hcase
    rw [htext]
    trivial
  | _ => simp [hcase, itemKinds] at hkind

namespace Document

open Statement (typed namesDocument tokensDocument placeless enroll)

theorem names_namesDocument {names : List Atom} (h : ∀ name ∈ names, name.Stable) :
    Document.names (namesDocument names) = .ok names := by
  have hmap : (names.map Atom.toJson).map Atom.ofJson = names := by
    rw [List.map_map]
    exact (List.map_congr_left fun name hname => (h name hname).eq).trans names.map_id
  exact congrArg Except.ok hmap

theorem token_toDocument {t : Token} (h : t.text.Stable) :
    token t.toDocument = .ok t.placeless := by
  have hkind : kind (.str t.kind.name) = .ok t.kind := by
    simp only [kind, Kind.ofName?_name]
  show (do
    let found ← kind (.str t.kind.name)
    return (⟨found, Atom.ofJson t.text.toJson, ⟨0, 0⟩, false⟩ : Token)) = _
  rw [hkind, h.eq]
  rfl

theorem tokens_tokensDocument {ts : List Token} (h : ∀ t ∈ ts, t.text.Stable) :
    tokens (tokensDocument ts) = .ok (ts.map Token.placeless) := by
  show (ts.map Token.toDocument).mapM token = _
  induction ts with
  | nil => rfl
  | cons t ts ih =>
    rw [List.map_cons, List.mapM_cons, token_toDocument (h t (by simp)),
      ih fun u hu => h u (by simp [hu])]
    rfl

/-! ### One step of loading -/

theorem load_assign {target : Atom} (h : target.Stable) (value : Int) (registry : Registry) :
    load (typed "AssignNumber" [("variable", target.toJson), ("number", .int value)]) registry =
      (.ok (.assign target value), registry) := by
  have hload : load (typed "AssignNumber" [("variable", target.toJson), ("number", .int value)])
      registry = (.ok (.assign (Atom.ofJson target.toJson) value), registry) := rfl
  rwa [h.eq] at hload

theorem load_increment {target operand : Atom} (htarget : target.Stable) (hoperand : operand.Stable)
    (registry : Registry) :
    load (typed "AssignPlus" [("variable", target.toJson), ("source", operand.toJson)]) registry =
      (.ok (.increment target operand), registry) := by
  have hload : load (typed "AssignPlus" [("variable", target.toJson), ("source", operand.toJson)])
      registry = (.ok (.increment (Atom.ofJson target.toJson) (Atom.ofJson operand.toJson)),
        registry) := rfl
  rwa [htarget.eq, hoperand.eq] at hload

theorem load_input {targets : List Token} (h : ∀ t ∈ targets, t.text.Stable) (registry : Registry) :
    load (typed "Input" [("targets", tokensDocument targets)]) registry =
      (.ok (.input (targets.map Token.placeless)), registry) := by
  have hload : load (typed "Input" [("targets", tokensDocument targets)]) registry =
      Action.ofExcept (do return .input (← tokens (tokensDocument targets))) registry := rfl
  rwa [tokens_tokensDocument h] at hload

theorem load_output {items : List Token} (h : ∀ t ∈ items, t.text.Stable) (registry : Registry) :
    load (typed "Print" [("items", tokensDocument items)]) registry =
      (.ok (.output (items.map Token.placeless)), registry) := by
  have hload : load (typed "Print" [("items", tokensDocument items)]) registry =
      Action.ofExcept (do return .output (← tokens (tokensDocument items))) registry := rfl
  rwa [tokens_tokensDocument h] at hload

theorem load_token {t : Token} (h : t.text.Stable) (registry : Registry) :
    load (.obj [("__type__", .str "Token"), ("value", t.toDocument)]) registry =
      (.ok (.token t.placeless), registry) := by
  have hload : load (.obj [("__type__", .str "Token"), ("value", t.toDocument)]) registry =
      Action.ofExcept (do return .token (← token t.toDocument)) registry := rfl
  rwa [token_toDocument h] at hload

theorem load_call {target callee : Atom} {args : List Atom} (htarget : target.Stable)
    (hcallee : callee.Stable) (hargs : ∀ arg ∈ args, arg.Stable) (registry : Registry) :
    load (typed "AssignCall" [("variable", target.toJson), ("program", callee.toJson),
        ("args", namesDocument args)]) registry =
      Action.ofExcept (do
        if ← registry.contains callee then
          let definition ← registry.lookup callee
          if args.length = definition.params.length then
            return .call target callee args
          else .error (Error.raised (.callArity callee definition.params.length args.length none))
        else .error (Error.raised (.notYetDefined callee none))) registry := by
  have hload : load (typed "AssignCall" [("variable", target.toJson), ("program", callee.toJson),
      ("args", namesDocument args)]) registry =
    Action.ofExcept (do
      let args ← names (namesDocument args)
      if ← registry.contains (Atom.ofJson callee.toJson) then
        let definition ← registry.lookup (Atom.ofJson callee.toJson)
        if args.length = definition.params.length then
          return .call (Atom.ofJson target.toJson) (Atom.ofJson callee.toJson) args
        else .error (Error.raised (.callArity (Atom.ofJson callee.toJson)
          definition.params.length args.length none))
      else .error (Error.raised (.notYetDefined (Atom.ofJson callee.toJson) none))) registry := rfl
  rw [names_namesDocument hargs, htarget.eq, hcallee.eq] at hload
  exact hload

theorem load_loop {count : Atom} (h : count.Stable) (documents : List Json) :
    load (typed "Loop" [("variable", count.toJson), ("body", .arr documents)]) =
      (do return .loop count (← loadAll documents)) := by
  have hload : load (typed "Loop" [("variable", count.toJson), ("body", .arr documents)]) =
      (do return .loop (Atom.ofJson count.toJson) (← loadAll documents)) := rfl
  rwa [h.eq] at hload

theorem load_define {name : Atom} {params : List Atom} (hname : name.Stable)
    (hparams : ∀ param ∈ params, param.Stable) (documents : List Json) :
    load (typed "Definition" [("name", name.toJson), ("params", namesDocument params),
        ("body", .arr documents)]) =
      (do
        let body ← loadAll documents
        Registry.define ⟨name, params, body⟩
        return .define name params body) := by
  have hload : load (typed "Definition" [("name", name.toJson), ("params", namesDocument params),
      ("body", .arr documents)]) =
    (do
      let body ← loadAll documents
      let params ← Action.ofExcept (names (namesDocument params))
      Registry.define ⟨Atom.ofJson name.toJson, params, body⟩
      return .define (Atom.ofJson name.toJson) params body) := rfl
  rw [names_namesDocument hparams, hname.eq] at hload
  exact hload

theorem load_program (documents : List Json) :
    load (typed "Program" [("body", .arr documents)]) =
      (do return .program (← loadAll documents)) := rfl

/-! ### Statements of sources -/

/-- What the document of a call in a source is loaded as. -/
theorem load_regular_call {target callee : Atom} {args : List Atom} (htarget : target.IsIdentifier)
    (hcallee : callee.IsIdentifier) (hargs : ∀ arg ∈ args, arg.IsIdentifier) (registry : Registry) :
    Ensures (load (typed "AssignCall" [("variable", target.toJson), ("program", callee.toJson),
        ("args", namesDocument args)])) registry
      (fun found _ => found = .call target callee args)
      (fun e => e.category = .parsing ∧
        (Statement.call target callee args).enroll registry = none) := by
  have hrun := load_call htarget.stable hcallee.stable (fun arg harg => (hargs arg harg).stable)
    registry
  obtain ⟨s, rfl⟩ := hcallee.exists_text
  cases hfind : registry.find? (.text s) with
  | none =>
    simp only [Registry.contains, hfind] at hrun
    rw [Error.raised_of_shown rfl] at hrun
    refine Ensures.of_error hrun ⟨rfl, ?_⟩
    simp [enroll, hfind]
  | some d =>
    simp only [Registry.contains, Registry.lookup, hfind] at hrun
    replace hrun := hrun.trans (show _ = Action.ofExcept
      (if args.length = d.params.length then .ok (.call target (.text s) args)
        else .error (Error.raised (.callArity (.text s) d.params.length args.length none)))
      registry from rfl)
    by_cases hlength : args.length = d.params.length
    · rw [if_pos hlength] at hrun
      exact Ensures.of_ok hrun rfl
    · rw [if_neg hlength, Error.raised_of_shown rfl] at hrun
      refine Ensures.of_error hrun ⟨rfl, ?_⟩
      simp [enroll, hfind, hlength]

/-- Loading the document gives the statement without places, or it is refused where the statement
cannot be enrolled. -/
def Loads (document : Json) (s : Statement) : Prop :=
  ∀ registry, Ensures (load document) registry (fun found _ => found = s.placeless)
    (fun e => e.category = .parsing ∧ s.placeless.enroll registry = none)

def LoadsAll (documents : List Json) (body : List Statement) : Prop :=
  ∀ registry, Ensures (loadAll documents) registry
    (fun found _ => found = Statement.placelessAll body)
    (fun e => e.category = .parsing ∧
      Statement.enrollAll (Statement.placelessAll body) registry = none)

theorem LoadsAll.nil : LoadsAll [] [] := fun _ => Ensures.of_ok rfl rfl

theorem LoadsAll.cons {document : Json} {documents : List Json} {s : Statement}
    {rest : List Statement} (hfirst : Loads document s) (hrest : LoadsAll documents rest) :
    LoadsAll (document :: documents) (s :: rest) := by
  intro registry
  refine ((hfirst registry).run.imp (fun _ _ => id) fun e he => ⟨he.1, by
    simp [Statement.placelessAll, Statement.enrollAll, he.2]⟩).bind ?_
  rintro _ next ⟨hrun, rfl⟩
  have hnext := load_enrolls document hrun
  refine ((hrest next).imp (fun _ _ => id) fun e he => ⟨he.1, by
    simp [Statement.placelessAll, Statement.enrollAll, hnext, he.2]⟩).bind ?_
  rintro _ last rfl
  exact Ensures.of_ok rfl rfl

theorem LoadsAll.loop {count : Atom} {documents : List Json} {body : List Statement}
    (hcount : count.IsIdentifier) (hbody : LoadsAll documents body) :
    Loads (typed "Loop" [("variable", count.toJson), ("body", .arr documents)])
      (.loop count body) := by
  intro registry
  rw [load_loop hcount.stable]
  exact (hbody registry).bind fun _ _ hfound => Ensures.of_ok rfl (hfound ▸ rfl)

/-- A definition is refused if its body is, or if its name is taken when the body is done. -/
theorem LoadsAll.define {name : Atom} {params : List Atom} {documents : List Json}
    {body : List Statement} (hname : name.IsIdentifier)
    (hparams : ∀ param ∈ params, param.IsIdentifier) (hbody : LoadsAll documents body) :
    Loads (typed "Definition" [("name", name.toJson), ("params", namesDocument params),
      ("body", .arr documents)]) (.define name params body) := by
  intro registry
  rw [load_define hname.stable fun param hparam => (hparams param hparam).stable]
  refine ((hbody registry).run.imp (fun _ _ => id) fun e he => ⟨he.1, by
    simp [placeless, enroll, he.2]⟩).bind ?_
  rintro _ inner ⟨hrun, rfl⟩
  have hinner := loadAll_enrolls documents hrun
  obtain ⟨s, rfl⟩ := hname.exists_text
  cases hfind : inner.find? (.text s) with
  | none => exact Ensures.bind_of_ok (Registry.define_of_new rfl hfind) (Ensures.of_ok rfl rfl)
  | some d =>
    refine Ensures.of_error (Action.bind_error (Registry.define_of_known rfl hfind)) ⟨rfl, ?_⟩
    simp [placeless, enroll, hinner, hfind]

end Document

namespace Statement

open Document (Loads LoadsAll)

theorem Regular.targets_text {targets : List Token} (h : (input targets).Regular) :
    ∀ t ∈ targets, t.text.IsText :=
  fun t ht => (h.2 t ht).2.isText (targetKinds_subset (h.2 t ht).1).1

theorem Regular.items_text {items : List Token} (h : (output items).Regular) :
    ∀ t ∈ items, t.text.IsText :=
  fun t ht => (h.2 t ht).2.1.isText (h.2 t ht).1

mutual

/-- What comes from a source has a document, and the document is loaded. -/
theorem toDocument_loads : ∀ s : Statement, s.Regular →
    ∃ document, s.toDocument = .ok document ∧ Loads document s
  | .assign target value, h => by
    refine ⟨_, by rw [toDocument, checkReady_of_regular h]; rfl, fun registry => ?_⟩
    exact Ensures.of_ok (Document.load_assign h.1.stable value registry) rfl
  | .increment target operand, h => by
    refine ⟨_, by rw [toDocument, checkReady_of_regular h]; rfl, fun registry => ?_⟩
    exact Ensures.of_ok (Document.load_increment h.1.stable h.2.stable registry) rfl
  | .call target callee args, h => by
    refine ⟨_, by rw [toDocument, checkReady_of_regular h]; rfl, fun registry => ?_⟩
    exact Document.load_regular_call h.1 h.2.1 h.2.2 registry
  | .input targets, h => by
    refine ⟨_, rfl, fun registry => Ensures.of_ok (Document.load_input ?_ registry) rfl⟩
    exact fun t ht => (h.targets_text t ht).stable
  | .output items, h => by
    refine ⟨_, rfl, fun registry => Ensures.of_ok (Document.load_output ?_ registry) rfl⟩
    exact fun t ht => (h.items_text t ht).stable
  | .loop count body, h => by
    obtain ⟨documents, hdocuments, hloads⟩ := toDocuments_loads body h.2
    refine ⟨_, by rw [toDocument, checkReady_of_regular h, hdocuments]; rfl, ?_⟩
    exact hloads.loop h.1
  | .define name params body, h => by
    obtain ⟨documents, hdocuments, hloads⟩ := toDocuments_loads body h.2.2.2
    refine ⟨_, by rw [toDocument, checkReady_of_regular h, hdocuments]; rfl, ?_⟩
    exact hloads.define h.1 h.2.1
  | .missing, h | .token _, h | .program _, h => h.elim

theorem toDocuments_loads : ∀ body : List Statement, RegularAll body →
    ∃ documents, toDocuments body = .ok documents ∧ LoadsAll documents body
  | [], _ => ⟨[], rfl, .nil⟩
  | s :: rest, h => by
    obtain ⟨document, hdocument, hfirst⟩ := toDocument_loads s h.1
    obtain ⟨documents, hdocuments, hrest⟩ := toDocuments_loads rest h.2
    refine ⟨document :: documents, ?_, .cons hfirst hrest⟩
    rw [toDocuments, hdocument, hdocuments]
    rfl

end

theorem program_loads {body : List Statement} (h : RegularAll body) :
    ∃ document, (program body).toDocument = .ok document ∧ Loads document (.program body) := by
  obtain ⟨documents, hdocuments, hloads⟩ := toDocuments_loads body h
  refine ⟨_, by rw [toDocument, hdocuments]; rfl, fun registry => ?_⟩
  rw [Document.load_program]
  exact (hloads registry).bind fun _ _ hfound => Ensures.of_ok rfl (hfound ▸ rfl)

theorem enroll_placeless_nil (s : Statement) :
    s.placeless.enroll [] = (s.enroll []).map Registry.placeless :=
  enroll_placeless s []

/-- Where the statements can be enrolled the document is loaded, with their programs. -/
theorem load_of_enrolls {document : Json} {s : Statement} (h : Loads document s)
    {registry : Registry} (henroll : s.enroll [] = some registry) :
    Document.load document [] = (.ok s.placeless, registry.placeless) := by
  have hplaceless : s.placeless.enroll [] = some registry.placeless := by
    rw [enroll_placeless_nil, henroll, Option.map_some]
  have hrun := h []
  cases hload : Document.load document [] with
  | mk result after =>
    simp only [Ensures, hload] at hrun
    cases result with
    | ok found =>
      have hfound : found = s.placeless := hrun
      have hafter := Document.load_enrolls document hload
      rw [hfound, hplaceless] at hafter
      rw [hfound, Option.some.inj hafter]
    | error e => simp [hplaceless] at hrun

end Statement

/-- A parsed program survives its document: the statements and the programs are the same but for
the places of tokens, and so is every run. -/
theorem document_roundTrip {body : List Statement} {registry : Registry}
    (h : Parsed body registry) :
    ∃ document found after,
      (Statement.program body).toDocument = .ok document ∧
      Document.load document [] = (.ok (.program found), after) ∧
      Statement.sameBody found body = true ∧ Registry.same after registry ∧
      ∀ tracing input,
        ReportedAlike (Machine.run tracing body (Machine.start registry input)).1
          (Machine.run tracing found (Machine.start after input)).1 ∧
        (Machine.run tracing found (Machine.start after input)).2.output =
          (Machine.run tracing body (Machine.start registry input)).2.output ∧
        (Machine.run tracing found (Machine.start after input)).2.store =
          (Machine.run tracing body (Machine.start registry input)).2.store := by
  obtain ⟨document, hdocument, hloads⟩ := Statement.program_loads h.regular
  have hload := Statement.load_of_enrolls hloads h.enrolls
  refine ⟨document, placelessAll body, registry.placeless, hdocument, hload,
    Statement.sameBody_placeless body, registry.same_placeless, fun tracing input => ?_⟩
  obtain ⟨hresult, hmachine⟩ := Machine.run_mirrors tracing body (Machine.start registry input)
  have hstart : (Machine.start registry input).placeless =
      Machine.start registry.placeless input := rfl
  rw [hstart] at hresult hmachine
  rw [hmachine]
  exact ⟨hresult, rfl, rfl⟩

/-- The definition stands in a loop that is not run, and is loaded nevertheless. -/
theorem document_roundTrip_unrun :
    ∃ document found after,
      (Statement.program
        [.input [⟨.identifier, .text "n", ⟨1, 7⟩, false⟩],
          .loop (.text "n") [.define (.text "p") [.text "a"] [.increment (.text "X0") (.text "a")]],
          .call (.text "X0") (.text "p") [.text "n"]]).toDocument = .ok document ∧
      Document.load document [] = (.ok (.program found), after) ∧
      Registry.same after [⟨.text "p", [.text "a"], [.increment (.text "X0") (.text "a")]⟩] ∧
      ReportedAlike
        (Machine.run ⟨0, false⟩
          [.input [⟨.identifier, .text "n", ⟨1, 7⟩, false⟩],
            .loop (.text "n") [.define (.text "p") [.text "a"] [.increment (.text "X0") (.text "a")]],
            .call (.text "X0") (.text "p") [.text "n"]]
          (Machine.start [⟨.text "p", [.text "a"], [.increment (.text "X0") (.text "a")]⟩] "0\n")).1
        (Machine.run ⟨0, false⟩ found (Machine.start after "0\n")).1 := by
  have hparse : parseByDescent
      "INPUT n\nLOOP n PROGRAM p(a) DO X0 := a + 1 END END\nX0 := p(n)" [] =
        (.ok [.input [⟨.identifier, .text "n", ⟨1, 7⟩, false⟩],
            .loop (.text "n") [.define (.text "p") [.text "a"] [.increment (.text "X0") (.text "a")]],
            .call (.text "X0") (.text "p") [.text "n"]],
          [⟨.text "p", [.text "a"], [.increment (.text "X0") (.text "a")]⟩]) := by
    cbv
  obtain ⟨document, found, after, hdocument, hload, _, hsame, hrun⟩ :=
    document_roundTrip ⟨_, .inl hparse⟩
  exact ⟨document, found, after, hdocument, hload, hsame, (hrun ⟨0, false⟩ "0\n").1⟩

end LoopLanguage
