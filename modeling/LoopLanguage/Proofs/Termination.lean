import LoopLanguage.Proofs.Alignment
import LoopLanguage.Proofs.Regular

/-!
Programs end. A loop runs as often as its count says when it is entered, so a run could only fail
to end by calls that go ever deeper. In a layered registry a body calls earlier programs only, and
so no call goes deeper than there are programs: with that much depth every run comes to a result
or to an error of its own, and more depth changes nothing.
-/

namespace LoopLanguage

namespace Machine

/-- Two steps do the same from every machine with the registry, which they keep, and the steps
allotted to them suffice. -/
def Steady {α : Type} (registry : Registry) (act other : Action Machine α) : Prop :=
  ∀ machine : Machine, machine.registry = registry →
    other machine = act machine ∧ Settled (act machine).1 ∧ (act machine).2.registry = registry

section Runs

variable {tracing : Tracing} {registry before : Registry}

theorem upholds_registry (registry : Registry) :
    Upholds (fun m => m.registry = registry) fun _ => True where
  frame _ hsame hm := hsame.trans hm
  put _ _ hm _ := hm
  get _ _ := trivial

/-- Runs over the registry that keep it and whose allotted steps suffice. -/
def steadily (tracing : Tracing) (registry : Registry) : Alignment :=
  @Alignment.diagonal _ (· ≠ .exhausted) tracing _ (upholds_registry registry) id fun _ => trivial

theorem steady_of_couples {α : Type} {P : α → Prop} {act other : Action Machine α}
    (h : (steadily tracing registry).bond.Couples (Same P) act other) :
    Steady registry act other := by
  intro machine hmachine
  obtain ⟨hsame, hkept, _, herror⟩ := Bond.diagonal_couples_iff.mp h machine hmachine
  exact ⟨hsame, fun he => herror _ he rfl, hkept⟩

/-- A definition that is registered already does nothing when a run comes to it. -/
theorem register_steadily {definition : Definition}
    (h : (registry.find? definition.name).isSome) :
    (steadily tracing registry).bond.Couples Eq (register definition) (register definition) := by
  apply Bond.Couples.register rfl (steadily tracing registry).refl
  apply Bond.diagonal_modify
  rintro machine rfl
  exact if_pos h

/-- A statement does the same with two ways to call if they agree on the programs that it is linked
to, which are some of those that the machine has. -/
theorem admits_linked {call other : Atom → List Atom → Action Machine Int}
    (hbefore : ∃ more, registry = before ++ more)
    (hcall : ∀ {callee d}, before.find? callee = some d → ∀ args,
      (steadily tracing registry).bond.Couples (Same fun _ => True) (call callee args)
        (other callee args)) :
    (steadily tracing registry).Admits call other (Statement.Linked before) where
  succ _ := trivial
  assign _ := ⟨trivial, trivial⟩
  increment _ := ⟨trivial, trivial⟩
  call := by
    rintro target callee args ⟨d, hfind, _⟩
    exact ⟨trivial, hcall hfind args⟩
  input _ _ _ _ := trivial
  output {items} _ := by
    apply Bond.diagonal_ask id fun m => Output.render_settled m.store items
    exact fun _ _ _ _ => trivial
  loop h := ⟨trivial, Statement.linkedAll_iff.mp h⟩
  define := by
    rintro name params body ⟨hfound, _⟩
    obtain ⟨more, rfl⟩ := hbefore
    exact register_steadily (Registry.find?_isSome_append hfound more)

/-- A call of a program ends if it may go as deep as there are programs up to that one. -/
theorem callProgram_steadily {depth depth' : Nat} (hbefore : ∃ more, registry = before ++ more)
    (hlayered : before.Layered) (hdepth : before.length ≤ depth) (hdepth' : before.length ≤ depth')
    {callee : Atom} {d : Definition} (hfind : before.find? callee = some d) (args : List Atom) :
    (steadily tracing registry).bond.Couples (Same fun _ => True)
      (callProgram tracing depth callee args) (callProgram tracing depth' callee args) := by
  induction depth generalizing before depth' callee d args with
  | zero =>
    obtain rfl := List.eq_nil_of_length_eq_zero (Nat.le_zero.mp hdepth)
    cases hfind
  | succ depth ih =>
    obtain ⟨front, back, rfl, hfront, hlinked⟩ := hlayered.find? hfind
    simp only [List.length_append, List.length_cons] at hdepth hdepth'
    obtain ⟨depth', rfl⟩ : ∃ n, depth' = n + 1 := ⟨depth' - 1, by omega⟩
    obtain ⟨more, hmore⟩ := hbefore
    have hrest : ∃ rest, registry = front ++ rest := ⟨d :: back ++ more, by simp [hmore]⟩
    have hbody : (steadily tracing registry).bond.Couples Eq
        (executeBlock tracing (callProgram tracing depth) d.body)
        (executeBlock tracing (callProgram tracing depth') d.body) :=
      Alignment.Admits.executeBlock
        (admits_linked hrest fun hcallee => ih hrest hfront (by omega) (by omega) hcallee)
        (Statement.linkedAll_iff.mp hlinked)
    -- The machine still has the whole registry, where the name finds the same program.
    have hopening : (steadily tracing registry).bond.Couples (Same fun entry => entry.2 = d)
        (ask (opening callee args)) (ask (opening callee args)) := by
      apply Bond.diagonal_ask id (opening_settled callee args)
      rintro m entry rfl hentry
      obtain ⟨_, hfound⟩ := opening_eq_ok hentry
      rw [hmore, Registry.find?_append_of_some hfind] at hfound
      exact (Option.some.inj hfound).symm
    apply Alignment.callProgram_couples rfl hopening
    · rintro entry _ ⟨rfl, _⟩
      exact ⟨rfl, rfl⟩
    · rintro ⟨inner, _⟩ _ ⟨rfl, rfl⟩
      apply Bond.Couples.inScope _ (Alignment.runBody_couples trivial hbody)
      have htogether := Bond.diagonal_together (fun m => m.registry = registry) (· ≠ .exhausted)
      apply Bond.Nests.of_together htogether htogether
      · exact id
      · rintro m _ ⟨rfl, hm⟩
        exact ⟨rfl, hm⟩
      · rintro m _ n _ ⟨rfl, _⟩ ⟨rfl, hn⟩
        exact ⟨rfl, hn⟩
      · rintro m _ n _ ⟨rfl, _⟩ ⟨rfl, hn⟩
        exact ⟨rfl, hn⟩

theorem executeBlock_steadily (tracing : Tracing) {body : List Statement}
    (hlayered : registry.Layered) (hlinked : Statement.LinkedAll registry body) {depth depth' : Nat}
    (hdepth : registry.length ≤ depth) (hdepth' : registry.length ≤ depth') :
    (steadily tracing registry).bond.Couples Eq
      (executeBlock tracing (callProgram tracing depth) body)
      (executeBlock tracing (callProgram tracing depth') body) := by
  have hself : ∃ more, registry = registry ++ more := ⟨[], (List.append_nil _).symm⟩
  have hadmits := admits_linked hself
    (@callProgram_steadily tracing registry registry _ _ hself hlayered hdepth hdepth')
  exact hadmits.executeBlock (Statement.linkedAll_iff.mp hlinked)

theorem runs_steady (tracing : Tracing) {body : List Statement} (hlayered : registry.Layered)
    (hlinked : Statement.LinkedAll registry body) {depth depth' : Nat}
    (hdepth : registry.length ≤ depth) (hdepth' : registry.length ≤ depth') :
    Steady registry (executeBlock tracing (callProgram tracing depth) body)
      (executeBlock tracing (callProgram tracing depth') body) := by
  have hblock := executeBlock_steadily tracing hlayered hlinked hdepth hdepth'
  exact @steady_of_couples tracing registry Unit (fun _ => True) _ _
    (hblock.imp fun _ _ h => ⟨h, trivial⟩)

theorem length_le_callDepth (body : List Statement) (registry : Registry) :
    registry.length ≤ callDepth body registry := by
  have hsum : registry.length ≤
      registry.foldr (fun definition n => definitionCounts definition.body + 1 + n) 0 := by
    induction registry with
    | nil => exact Nat.le_refl 0
    | cons d registry ih =>
      rw [List.length_cons, List.foldr_cons]
      omega
  unfold callDepth
  omega

/-- A run of linked statements from a layered registry ends and leaves the registry as it is. -/
theorem run_steady {body : List Statement} (hlayered : registry.Layered)
    (hlinked : Statement.LinkedAll registry body) :
    Steady registry (run tracing body) (run tracing body) := by
  have hblock : (steadily tracing registry).bond.Couples Eq (runBlock tracing body)
      (runBlock tracing body) := by
    apply Bond.Couples.of_ends (Bond.diagonal_together _ _)
    rintro machine _ ⟨rfl, hmachine⟩
    have hdepth : registry.length ≤ callDepth body machine.registry := by
      rw [hmachine]
      exact length_le_callDepth body registry
    exact (executeBlock_steadily tracing hlayered hlinked hdepth hdepth).ends ⟨rfl, hmachine⟩
  apply steady_of_couples
  rw [run_eq]
  exact hblock.bind fun _ _ _ => (steadily tracing registry).fetch trivial

end Runs

end Machine

/-- A program with its registry, as a source or a document gives them where there was no program
before. -/
inductive Accepted : List Statement → Registry → Prop
  | source {body : List Statement} {registry : Registry} (h : Parsed body registry) :
      Accepted body registry
  | document {document : Json} {body : List Statement} {registry : Registry}
      (h : Document.load document [] = (.ok (.program body), registry)) : Accepted body registry

theorem Accepted.enrolls {body : List Statement} {registry : Registry}
    (h : Accepted body registry) : Statement.enrollAll body [] = some registry := by
  cases h with
  | source h => exact h.enrolls
  | document h => exact Document.load_enrolls _ h

/-- Every accepted program ends on every input, with a result or with an error of its own. Calls
never go deeper than there are programs: more depth than that gives the same run. -/
theorem accepted_run_settled {body : List Statement} {registry : Registry}
    (h : Accepted body registry) (tracing : Tracing) (input : String) :
    Settled (Machine.run tracing body (Machine.start registry input)).1 ∧
      ∀ depth, registry.length ≤ depth →
        Settled (Machine.executeBlock tracing (Machine.callProgram tracing depth) body
            (Machine.start registry input)).1 ∧
          Machine.executeBlock tracing (Machine.callProgram tracing depth) body
              (Machine.start registry input) =
            Machine.runBlock tracing body (Machine.start registry input) := by
  obtain ⟨hlayered, hlinked⟩ := Statement.enrollAll_linked body .nil h.enrolls
  refine ⟨(Machine.run_steady hlayered hlinked _ rfl).2.1, fun depth hdepth => ?_⟩
  have hsteady := Machine.runs_steady tracing hlayered hlinked hdepth
    (Machine.length_le_callDepth body registry) (Machine.start registry input) rfl
  exact ⟨hsteady.2.1, hsteady.1.symm⟩

theorem accepted_run_settled_call :
    Accepted
        [.define (.text "P") [.text "a"] [.increment (.text "X0") (.text "a")],
          .input [⟨.identifier, .text "x", ⟨4, 7⟩, false⟩],
          .loop (.text "x") [.call (.text "x") (.text "P") [.text "x"]]]
        [⟨.text "P", [.text "a"], [.increment (.text "X0") (.text "a")]⟩] ∧
      Settled (Machine.run ⟨1, true⟩
        [.define (.text "P") [.text "a"] [.increment (.text "X0") (.text "a")],
          .input [⟨.identifier, .text "x", ⟨4, 7⟩, false⟩],
          .loop (.text "x") [.call (.text "x") (.text "P") [.text "x"]]]
        (Machine.start [⟨.text "P", [.text "a"], [.increment (.text "X0") (.text "a")]⟩] "3\n")).1 :=
  have h := Accepted.source
    ⟨"PROGRAM P(a) DO\nX0 := a + 1\nEND\nINPUT x\nLOOP x DO\nx := P(x)\nEND", .inr (by cbv)⟩
  ⟨h, (accepted_run_settled h ⟨1, true⟩ "3\n").1⟩

end LoopLanguage
