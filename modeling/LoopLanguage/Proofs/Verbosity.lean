import LoopLanguage.Command.Run
import LoopLanguage.Proofs.Tracing

/-!
The verbosity of the command. Whatever the command does with a file, it reports the same at every
verbosity, and the only file that it leaves in another state is that of the trace
(`Job.run_alike`). A source only has names that messages can show, and so has a document, as it was
read from a text.
-/

namespace LoopLanguage.Command

/-- The two reports are the same but for the file of the trace. -/
structure Report.Alike (report other : Report) : Prop where
  status : other.status = report.status
  output : other.output = report.output
  errors : other.errors = report.errors
  files : ∀ name, name ≠ traceFile → other.files.get? name = report.files.get? name

theorem Report.Alike.refl (report : Report) : report.Alike report :=
  ⟨rfl, rfl, rfl, fun _ _ => rfl⟩

variable {files : Files}

theorem ofOutcome_alike {after later : Files} (output : String) (e : Error)
    (h : ∀ name, name ≠ traceFile → later.get? name = after.get? name) :
    (ofOutcome after output e).Alike (ofOutcome later output e) := by
  unfold ofOutcome
  dsimp only
  split
  · exact ⟨rfl, rfl, rfl, h⟩
  · exact ⟨rfl, rfl, rfl, h⟩

theorem created_get? (level : Int) {name : String} (h : name ≠ traceFile) :
    (Interpreter.create level traceFile files).2.get? name = files.get? name := by
  unfold Interpreter.create
  split
  · exact Files.get?_put_of_ne files h _
  · rfl

theorem traced_get? (level : Int) (text : String) {name : String} (h : name ≠ traceFile) :
    ((Interpreter.create level traceFile files).1.write text
      (Interpreter.create level traceFile files).2).2.get? name = files.get? name := by
  rw [Interpreter.create_write]
  split
  · exact Files.get?_put_of_ne files h _
  · rfl

theorem execute_alike (input : String) (verbosity other : Nat) {s : Statement} (hs : s.Legible)
    {registry : Registry} (hregistry : registry.Legible) :
    (execute files input verbosity s registry).Alike
      (execute files input other s registry) := by
  cases s with
  | program body =>
    obtain ⟨r, full, _, hrun⟩ := Machine.run_upTo hs hregistry input
    have hone := hrun _ (Interpreter.create_ready verbosity traceFile files)
    have hother := hrun _ (Interpreter.create_ready other traceFile files)
    rw [Interpreter.create_level] at hone hother
    simp only [execute, hone, hother]
    cases r with
    | ok _ =>
      refine ⟨rfl, rfl, rfl, ?_⟩
      intro name hname
      rw [traced_get? _ _ hname, traced_get? _ _ hname]
    | error e =>
      apply ofOutcome_alike
      intro name hname
      rw [traced_get? _ _ hname, traced_get? _ _ hname]
  | _ =>
    -- Nothing else is run, but the file of the trace has been opened.
    exact ⟨rfl, rfl, rfl, fun _ hname => (created_get? other hname).trans
      (created_get? verbosity hname).symm⟩

theorem withText_alike {path : String} {act other : String → Report}
    (h : ∀ text, (act text).Alike (other text)) :
    (withText files path act).Alike (withText files path other) := by
  unfold withText
  split
  · exact .refl _
  · split
    · exact h _
    · exact .refl _
    · exact .refl _

theorem withProgram_alike {frontEnd : FrontEnd} {path : String}
    {act other : List Statement → Registry → Report}
    (h : ∀ body registry, Parsed body registry → (act body registry).Alike (other body registry)) :
    (withProgram files frontEnd path act).Alike (withProgram files frontEnd path other) := by
  apply withText_alike
  intro source
  split
  · next body registry hparse =>
    apply h
    cases frontEnd with
    | descent => exact ⟨source, .inl hparse⟩
    | grammar => exact ⟨source, .inr hparse⟩
  · exact .refl _

theorem withDocument_alike {path : String} {act other : Statement → Registry → Report}
    (h : ∀ s registry, s.Legible → registry.Legible → (act s registry).Alike (other s registry)) :
    (withDocument files path act).Alike (withDocument files path other) := by
  apply withText_alike
  intro text
  split
  · exact .refl _
  · next document hread =>
    split
    · next s registry hload =>
      have hs : s.Legible := Document.load_legible document (Json.read_isWritable hread) hload
      have hregistry : registry.Legible :=
        Statement.enroll_legible s hs Registry.legible_nil (Document.load_enrolls _ hload)
      exact h s registry hs hregistry
    · exact .refl _

/-- How verbose the command is changes nothing but the file of the trace. -/
theorem Job.run_alike (job : Job) {options other : Options}
    (hgrammar : other.grammar = options.grammar) (files : Files) (input : String) :
    (job.run options files input).Alike (job.run other files input) := by
  unfold Job.run
  rw [hgrammar]
  cases job with
  | emitAst path => exact .refl _
  | format path => exact .refl _
  | runAst path =>
    apply withDocument_alike
    intro s registry hs hregistry
    exact execute_alike input _ _ hs hregistry
  | runSource path =>
    apply withProgram_alike
    intro body registry hparsed
    have hbody := Statement.RegularAll.legible body hparsed.regular
    have hregistry :=
      Statement.enrollAll_legible body hbody Registry.legible_nil hparsed.enrolls
    exact execute_alike (s := .program body) input _ _ hbody hregistry

end LoopLanguage.Command
