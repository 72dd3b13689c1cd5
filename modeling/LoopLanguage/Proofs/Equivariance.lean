import LoopLanguage.Proofs.Canonical
import LoopLanguage.Proofs.Renaming

/-!
Other names, the same run. A `Renaming` gives new names to variables and to programs and mixes none
of them up. Only `X0` has to stay what it is: a call starts with it at zero unless a parameter has
that name, and its value is what a call and a run give. A program and its registry under a renaming
are related by `Statement.Renames`, so the run of the renamed program follows the run of the program
step by step (`Machine.run_tracks`), and what is left to do is to read this off.
-/

namespace LoopLanguage

/-- New names for variables and for programs. -/
structure Renaming where
  ofVariable : String → String
  ofProgram : String → String
  ofVariable_injective : Function.Injective ofVariable
  ofProgram_injective : Function.Injective ofProgram
  keeps_result : ofVariable "X0" = "X0"

/-- Only identifiers are names; literals and numbers stay. -/
def Token.rename (f : String → String) (t : Token) : Token :=
  if t.kind = .identifier then { t with text := t.text.map f } else t

namespace Statement

mutual

/-- A statement under a renaming, its bodies included. -/
def rename (names : Renaming) : Statement → Statement
  | assign target value => assign (target.map names.ofVariable) value
  | increment target operand =>
    increment (target.map names.ofVariable) (operand.map names.ofVariable)
  | call target callee args =>
    call (target.map names.ofVariable) (callee.map names.ofProgram)
      (args.map (Atom.map names.ofVariable))
  | input targets => input (targets.map (Token.rename names.ofVariable))
  | output items => output (items.map (Token.rename names.ofVariable))
  | loop count body => loop (count.map names.ofVariable) (renameAll names body)
  | define name params body =>
    define (name.map names.ofProgram) (params.map (Atom.map names.ofVariable))
      (renameAll names body)
  | missing => missing
  | token t => token (t.rename names.ofVariable)
  | program body => program (renameAll names body)

def renameAll (names : Renaming) : List Statement → List Statement
  | [] => []
  | s :: rest => rename names s :: renameAll names rest

end

end Statement

def Definition.rename (names : Renaming) (d : Definition) : Definition :=
  { name := d.name.map names.ofProgram
    params := d.params.map (Atom.map names.ofVariable)
    body := Statement.renameAll names d.body }

def Registry.rename (names : Renaming) (registry : Registry) : Registry :=
  registry.map (Definition.rename names)

def Store.rename (names : Renaming) (store : Store) : Store :=
  store.map fun entry => (entry.1.map names.ofVariable, entry.2)

/-! ## A renaming relates names -/

/-- Texts and what an injective function makes of them. -/
def Naming.ofInjective {spelled : Atom → Atom → Prop} {f : String → String}
    (hf : Function.Injective f) (hspelled : ∀ a : Atom, spelled a (a.map f)) :
    Naming spelled where
  Rel a b := (∃ s, a = .text s) ∧ b = a.map f
  texts := by
    rintro a _ ⟨⟨s, rfl⟩, rfl⟩
    exact ⟨⟨s, rfl⟩, ⟨f s, rfl⟩⟩
  apart := by
    rintro _ _ _ _ ⟨⟨s, rfl⟩, rfl⟩ ⟨⟨r, rfl⟩, rfl⟩
    simp [Atom.map, hf.eq_iff]
  spells := by
    rintro a _ ⟨_, rfl⟩
    exact hspelled a

namespace Renaming

variable (names : Renaming)

def variableNaming : Naming fun a b => b = a.map names.ofVariable :=
  .ofInjective names.ofVariable_injective fun _ => rfl

def programNaming : ProgramNaming := .ofInjective names.ofProgram_injective fun _ => trivial

theorem variable_rel {a : Atom} (h : a.IsIdentifier) :
    names.variableNaming.Rel a (a.map names.ofVariable) := ⟨h.exists_text, rfl⟩

theorem program_rel {a : Atom} (h : a.IsIdentifier) :
    names.programNaming.Rel a (a.map names.ofProgram) := ⟨h.exists_text, rfl⟩

theorem variable_rels {as : List Atom} (h : ∀ a ∈ as, a.IsIdentifier) :
    List.Forall₂ names.variableNaming.Rel as (as.map (Atom.map names.ofVariable)) :=
  List.forall₂_map_right_iff.mpr (List.forall₂_same.mpr fun a ha => names.variable_rel (h a ha))

theorem result_rel : names.variableNaming.Rel Store.result Store.result :=
  ⟨⟨_, rfl⟩, congrArg Atom.text names.keeps_result.symm⟩

end Renaming

variable {names : Renaming}

theorem Token.rename_renames {t : Token} (hkind : t.kind ∈ itemKinds) (hlexical : t.Lexical)
    (hnumber : t.kind = .number → ∃ n, t.value = .ok n) :
    t.Renames names.variableNaming (t.rename names.ofVariable) := by
  simp only [itemKinds, List.mem_cons, List.not_mem_nil, or_false] at hkind
  unfold Token.rename
  rcases hkind with hkind | hkind | hkind
  · obtain ⟨s, hs⟩ := hlexical.exists_text hkind
    rw [if_neg (by simp [hkind])]
    exact .string hkind hkind hs hs
  · obtain ⟨n, hn⟩ := hnumber hkind
    rw [if_neg (by simp [hkind])]
    exact .number hkind hkind hn hn
  · rw [if_pos hkind]
    exact .identifier hkind hkind (names.variable_rel (hlexical.identifier hkind))

namespace Statement

mutual

/-- A statement that comes from a source is renamed at every depth. -/
theorem rename_renames : ∀ s : Statement, s.Regular →
    s.Renames names.programNaming names.variableNaming (s.rename names)
  | .assign .., h => .assign (names.variable_rel h.1)
  | .increment .., h => .increment (names.variable_rel h.1) (names.variable_rel h.2)
  | .call .., h =>
    .call (names.variable_rel h.1) (names.program_rel h.2.1) (names.variable_rels h.2.2)
  | .input targets, h => by
    apply Renames.input
    apply List.forall₂_map_right_iff.mpr
    apply List.forall₂_same.mpr
    intro t ht
    obtain ⟨hkind, hlexical⟩ := h.2 t ht
    obtain ⟨hitem, hnumber⟩ := targetKinds_subset hkind
    exact ⟨Token.rename_renames hitem hlexical fun h => absurd h hnumber, hnumber⟩
  | .output items, h => by
    apply Renames.output
    apply List.forall₂_map_right_iff.mpr
    apply List.forall₂_same.mpr
    intro t ht
    obtain ⟨hkind, hlexical, hnumber⟩ := h.2 t ht
    exact Token.rename_renames hkind hlexical hnumber
  | .loop _ body, h => .loop (names.variable_rel h.1) (renameAll_renames body h.2)
  | .define _ _ body, h =>
    .define (names.program_rel h.1) names.result_rel (names.variable_rels h.2.1)
      (renameAll_renames body h.2.2.2)
  | .missing, h | .token _, h | .program _, h => h.elim

theorem renameAll_renames : ∀ body : List Statement, RegularAll body →
    RenamesAll names.programNaming names.variableNaming body (renameAll names body)
  | [], _ => .nil
  | s :: rest, h => .cons (rename_renames s h.1) (renameAll_renames rest h.2)

end

end Statement

theorem Registry.rename_renames {registry : Registry}
    (h : ∀ d ∈ registry, Statement.RegularDefinition d) :
    Registry.Renames (fun a b => b = a.map names.ofVariable) names.programNaming registry
      (registry.rename names) := by
  apply List.forall₂_map_right_iff.mpr
  apply List.forall₂_same.mpr
  intro d hd
  obtain ⟨hname, hparams, hbody⟩ := h d hd
  exact ⟨names.program_rel hname, names.variableNaming, names.result_rel,
    names.variable_rels hparams, Statement.renameAll_renames d.body hbody⟩

theorem Store.Renames.eq_rename {store other : Store}
    (h : store.Renames names.variableNaming other) : other = store.rename names := by
  induction h with
  | nil => rfl
  | cons hentry _ ih =>
    obtain ⟨⟨_, hname⟩, hvalue⟩ := hentry
    exact congrArg₂ List.cons (Prod.ext hname hvalue) ih

/-! ## Runs -/

/-- A program that was parsed runs under other names as it does under its own: it prints the same,
leaves the same input, gives the same result, and its variables end with the same values, each under
its new name; it fails exactly if the program does, with an error of the same category, and a
variable that is undefined is reported under its new name. Programs that were there before have to
come from sources, too. -/
theorem renaming_keeps_runs {before registry : Registry} {body : List Statement}
    (hbefore : ∀ d ∈ before, Statement.RegularDefinition d)
    (h : ParsedAfter before body registry) (names : Renaming) (level : Int) (file : String)
    (files : Files) (input : String) :
    let tracing := (Interpreter.create level file files).1.tracing
    let plain := Machine.run tracing body (Machine.start registry input)
    let renamed := Machine.run tracing (Statement.renameAll names body)
      (Machine.start (registry.rename names) input)
    renamed.2.output = plain.2.output ∧ renamed.2.input = plain.2.input ∧
      renamed.2.store = plain.2.store.rename names ∧
      Parallel (fun a b => b = a.map names.ofVariable) Eq plain.1 renamed.1 := by
  intro tracing plain renamed
  have hprograms := Statement.enrollAll_regular body h.regular hbefore h.enrolls
  obtain ⟨hresult, hmachine⟩ := Machine.run_tracks (Interpreter.create_ready level file files)
    (Statement.renameAll_renames body h.regular) _ _
    (Machine.start_renames (Registry.rename_renames hprograms) input)
  refine ⟨hmachine.output, hmachine.input, hmachine.store.eq_rename, ?_⟩
  exact hresult.imp fun _ _ hsame => (hsame names.result_rel).symm

/-- Two variables change places, and two programs. -/
def Renaming.swap (x y p q : String) (hx : x ≠ "X0") (hy : y ≠ "X0") : Renaming where
  ofVariable := Equiv.swap x y
  ofProgram := Equiv.swap p q
  ofVariable_injective := (Equiv.swap x y).injective
  ofProgram_injective := (Equiv.swap p q).injective
  keeps_result := Equiv.swap_apply_of_ne_of_ne hx.symm hy.symm

/-- The result variable is a parameter, the two variables belong to different scopes, and the run
fails after it has printed. -/
theorem renaming_keeps_runs_swap :
    ∃ body registry,
      parseByDescent
        "PROGRAM P(X0, n) DO\nLOOP n DO X0 := X0 + 1 END\nEND\nINPUT x, y\nx := P(x, y)\nOUTPUT x\ny := n + 1"
        [] = (.ok body, registry) ∧
      (let names := Renaming.swap "x" "n" "P" "Q" (by decide) (by decide)
       let plain := Machine.run ⟨0, false⟩ body (Machine.start registry "2\n3\n4\n")
       let renamed := Machine.run ⟨0, false⟩ (Statement.renameAll names body)
         (Machine.start (registry.rename names) "2\n3\n4\n")
       plain.2.output = "5\n" ∧ plain.2.input = ["4"] ∧
         plain.1 = .error (.undefinedVariable (.text "n") (some "in `y := n + 1`")) ∧
         renamed.2.output = "5\n" ∧ renamed.2.input = ["4"] ∧
         renamed.2.store = plain.2.store.rename names ∧
         Parallel (fun a b => b = a.map names.ofVariable) Eq plain.1 renamed.1) := by
  have hparse : parseByDescent
      "PROGRAM P(X0, n) DO\nLOOP n DO X0 := X0 + 1 END\nEND\nINPUT x, y\nx := P(x, y)\nOUTPUT x\ny := n + 1"
      [] =
      (.ok [.define (.text "P") [.text "X0", .text "n"]
            [.loop (.text "n") [.increment (.text "X0") (.text "X0")]],
          .input [⟨.identifier, .text "x", ⟨4, 7⟩, false⟩,
            ⟨.identifier, .text "y", ⟨4, 10⟩, false⟩],
          .call (.text "x") (.text "P") [.text "x", .text "y"],
          .output [⟨.identifier, .text "x", ⟨6, 8⟩, false⟩],
          .increment (.text "y") (.text "n")],
        [⟨.text "P", [.text "X0", .text "n"],
          [.loop (.text "n") [.increment (.text "X0") (.text "X0")]]⟩]) := by
    cbv
  have hkept := @renaming_keeps_runs [] _ _ (by simp) ⟨_, .inl hparse⟩
    (Renaming.swap "x" "n" "P" "Q" (by decide) (by decide)) 0 "" [] "2\n3\n4\n"
  rw [show (Interpreter.create 0 "" []).1.tracing = ⟨0, false⟩ from rfl] at hkept
  obtain ⟨houtput, hinput, hstore, hresult⟩ := hkept
  refine ⟨_, _, hparse, ?_, ?_, ?_, houtput.trans ?_, hinput.trans ?_, hstore, hresult⟩
  all_goals decide +kernel

end LoopLanguage
