import LoopLanguage.Proofs.Documents
import LoopLanguage.Proofs.Printing

/-!
What the parsers guarantee of a program. Its statements, at every depth, are ready and within the
bounds of the language, and the registry is made of its definitions, an inner one before the one it
stands in. So it can be written both as a source and as a document.
-/

namespace LoopLanguage

namespace Statement

mutual

/-- The statement and all statements inside it, in post-order. -/
def nodes : Statement → List Statement
  | loop count body => nodesAll body ++ [loop count body]
  | define name params body => nodesAll body ++ [define name params body]
  | program body => nodesAll body ++ [program body]
  | s => [s]

def nodesAll : List Statement → List Statement
  | [] => []
  | s :: rest => nodes s ++ nodesAll rest

end

/-- The program that the statement itself defines, if it is a definition. -/
def definition? : Statement → Option Definition
  | define name params body => some ⟨name, params, body⟩
  | _ => none

/-- What a source can have in a statement, those inside it aside. -/
def WellFormed : Statement → Prop
  | assign _ value => 0 ≤ value ∧ value < Text.digitLimit
  | input targets => targets ≠ [] ∧ ∀ t ∈ targets, t.kind = .string ∨ t.kind = .identifier
  | output items =>
    items ≠ [] ∧ ∀ t ∈ items, t.kind = .string ∨ t.kind = .number ∨ t.kind = .identifier
  | define _ params _ => params.Nodup
  | _ => True

mutual

/-- The statements inside a regular statement are regular. -/
theorem Regular.nodes : ∀ {s : Statement}, s.Regular → ∀ t ∈ s.nodes, t.Regular
  | .loop _ body, h => by
    rw [Statement.nodes, List.forall_mem_append]
    exact ⟨RegularAll.nodesAll h.2, by simpa using h⟩
  | .define _ _ body, h => by
    rw [Statement.nodes, List.forall_mem_append]
    exact ⟨RegularAll.nodesAll h.2.2.2, by simpa using h⟩
  | .assign .., h | .increment .., h | .call .., h | .input _, h | .output _, h => by
    simpa [Statement.nodes] using h
  | .missing, h | .token _, h | .program _, h => h.elim

theorem RegularAll.nodesAll : ∀ {body : List Statement}, RegularAll body →
    ∀ t ∈ Statement.nodesAll body, t.Regular
  | [], _ => by simp [Statement.nodesAll]
  | s :: rest, h => by
    rw [Statement.nodesAll, List.forall_mem_append]
    exact ⟨Regular.nodes h.1, RegularAll.nodesAll h.2⟩

end

mutual

/-- What a statement adds to a registry are its definitions. -/
theorem enroll_eq_nodes : ∀ (s : Statement) {registry after : Registry},
    enroll s registry = some after → after = registry ++ s.nodes.filterMap definition?
  | .call .., _, _, h => by
    obtain ⟨_, _, _, rfl⟩ := enroll_call.mp h
    simp [nodes, definition?]
  | .loop _ body, _, _, h => by
    simp [nodes, definition?, enrollAll_eq_nodes body h]
  | .define _ _ body, _, _, h => by
    obtain ⟨inner, hinner, _, rfl⟩ := enroll_define.mp h
    simp [nodes, definition?, enrollAll_eq_nodes body hinner]
  | .program body, _, _, h => by
    simp [nodes, definition?, enrollAll_eq_nodes body h]
  | .assign .., _, _, h | .increment .., _, _, h | .input _, _, _, h | .output _, _, _, h
  | .missing, _, _, h | .token _, _, _, h => by
    cases h
    simp [nodes, definition?]

theorem enrollAll_eq_nodes : ∀ (body : List Statement) {registry after : Registry},
    enrollAll body registry = some after →
      after = registry ++ (nodesAll body).filterMap definition?
  | [], _, _, h => by
    cases h
    simp [nodesAll]
  | s :: rest, _, _, h => by
    obtain ⟨next, hs, hrest⟩ := enrollAll_cons.mp h
    rw [enrollAll_eq_nodes rest hrest, enroll_eq_nodes s hs, nodesAll, List.filterMap_append,
      List.append_assoc]

end

theorem checkReady_eq_ok {s : Statement} :
    s.checkReady = .ok () ↔ (∃ form, s.form? = some form) ∧ s.isReady = true := by
  unfold checkReady
  cases s.form? <;> simp

theorem Regular.wellFormed {s : Statement} (h : s.Regular) : s.WellFormed := by
  cases s with
  | assign target value =>
    obtain ⟨_, hpos, hshort⟩ := h
    refine ⟨hpos, ?_⟩
    unfold Numeral.Short at hshort
    omega
  | input targets =>
    refine ⟨h.1, fun t ht => ?_⟩
    simpa [targetKinds] using (h.2 t ht).1
  | output items =>
    refine ⟨h.1, fun t ht => ?_⟩
    simpa [itemKinds] using (h.2 t ht).1
  | define => exact h.2.2.1
  | _ => trivial

end Statement

open Statement (nodesAll definition? programSource)

/-- Every statement of a parsed program, at every depth, has one of the forms, is ready and is well
formed. The registry is made of the definitions in post-order, and the program can be written as a
source and as a document. -/
theorem parsed_well_formed {body : List Statement} {registry : Registry}
    (h : Parsed body registry) :
    (∀ s ∈ nodesAll body, (∃ form, s.form? = some form) ∧ s.isReady = true ∧ s.WellFormed) ∧
      registry = (nodesAll body).filterMap definition? ∧
      (∃ text, programSource body = .ok text) ∧
      ∃ document, (Statement.program body).toDocument = .ok document := by
  refine ⟨fun s hs => ?_, ?_, ?_, ?_⟩
  · have hregular := h.regular.nodesAll s hs
    obtain ⟨hform, hready⟩ :=
      Statement.checkReady_eq_ok.mp (Statement.checkReady_of_regular hregular)
    exact ⟨hform, hready, hregular.wellFormed⟩
  · simpa using Statement.enrollAll_eq_nodes body h.enrolls
  · obtain ⟨text, htext, _⟩ := Statement.programSource_eq h.regular
    exact ⟨text, htext⟩
  · obtain ⟨document, hdocument, _⟩ := Statement.program_loads h.regular
    exact ⟨document, hdocument⟩

/-- A definition inside a definition is registered before the one around it. -/
theorem parsed_well_formed_nested :
    ∃ body registry,
      parseByDescent
        "PROGRAM P() DO\nPROGRAM Q(a) DO\nX0 := a + 1\nEND\nx := 7\nX0 := Q(x)\nEND" [] =
          (.ok body, registry) ∧
      registry.map (·.name) = [.text "Q", .text "P"] ∧
      registry = (nodesAll body).filterMap definition? ∧
      (∃ text, programSource body = .ok text) ∧
      ∃ document, (Statement.program body).toDocument = .ok document := by
  have hparse : parseByDescent
      "PROGRAM P() DO\nPROGRAM Q(a) DO\nX0 := a + 1\nEND\nx := 7\nX0 := Q(x)\nEND" [] =
        (.ok [.define (.text "P") []
            [.define (.text "Q") [.text "a"] [.increment (.text "X0") (.text "a")],
              .assign (.text "x") 7, .call (.text "X0") (.text "Q") [.text "x"]]],
          [⟨.text "Q", [.text "a"], [.increment (.text "X0") (.text "a")]⟩,
            ⟨.text "P", [],
              [.define (.text "Q") [.text "a"] [.increment (.text "X0") (.text "a")],
                .assign (.text "x") 7, .call (.text "X0") (.text "Q") [.text "x"]]⟩]) := by
    cbv
  obtain ⟨_, hregistry, hsource, hdocument⟩ := parsed_well_formed ⟨_, .inl hparse⟩
  exact ⟨_, _, hparse, rfl, hregistry, hsource, hdocument⟩

end LoopLanguage
