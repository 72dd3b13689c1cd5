import LoopLanguage.Proofs.Faults

/-!
A run cannot look ahead in its input. What it has printed after some lines does not depend on the
lines that come next, and if it never asks for a line that is not there, lines that follow change
nothing and are left as they are. The runs with and without these lines are bound by `causalBond`:
they do the same until one of them runs out of input, and whatever the other one prints from there on
is printed after what was printed so far.
-/

namespace LoopLanguage

namespace Text

/-- A text of lines, each with the line feed that completes it. -/
def ofLines (lines : List String) : String := String.join (lines.map (· ++ "\n"))

@[simp] theorem toList_ofLines_cons (line : String) (lines : List String) :
    (ofLines (line :: lines)).toList = line.toList ++ '\n' :: (ofLines lines).toList := by
  simp [ofLines, String.join_cons]

end Text

theorem inputLines_complete (cs rest : List Char) (h : '\n' ∉ cs) :
    inputLines (cs ++ '\n' :: rest) = cs :: inputLines rest := by
  induction cs with
  | nil => simp [inputLines]
  | cons c cs ih =>
    rw [List.mem_cons, not_or] at h
    rw [List.cons_append, inputLines, if_neg (Ne.symm h.1), ih h.2]

/-- Lines that are complete are read as they are. -/
theorem inputLines_ofLines {lines : List String} (h : ∀ line ∈ lines, '\n' ∉ line.toList) :
    (inputLines (Text.ofLines lines).toList).map String.ofList = lines := by
  induction lines with
  | nil => rfl
  | cons line lines ih =>
    obtain ⟨hline, hlines⟩ := List.forall_mem_cons.mp h
    rw [Text.toList_ofLines_cons, inputLines_complete _ _ hline, List.map_cons,
      String.ofList_toList, ih hlines]

namespace Machine

/-- All programs come from sources. -/
def Regular (machine : Machine) : Prop := ∀ d ∈ machine.registry, Statement.RegularDefinition d

/-- The machine with more lines behind those that are left. -/
def fed (machine : Machine) (more : List String) : Machine :=
  { machine with input := machine.input ++ more }

theorem start_fed (registry : Registry) {lines more : List String}
    (hlines : ∀ line ∈ lines, '\n' ∉ line.toList) (hmore : ∀ line ∈ more, '\n' ∉ line.toList) :
    start registry (Text.ofLines (lines ++ more)) =
      (start registry (Text.ofLines lines)).fed more := by
  have hall : ∀ line ∈ lines ++ more, '\n' ∉ line.toList :=
    List.forall_mem_append.mpr ⟨hlines, hmore⟩
  simp only [start, fed, inputLines_ofLines hlines, inputLines_ofLines hall]

/-! ## Runs with more input -/

/-- The second machine has more lines, and lines were taken from the front. If the first run ends for
want of input, the second one goes on, and whatever it prints comes after what was printed so far. -/
def causalBond (lines more : List String) : Bond where
  Between m m' := m.Regular ∧ m.input <:+ lines ∧ m' = m.fed more
  Broken m m' := m.Regular ∧ m.input <:+ lines ∧ m' = m.fed more
  Errors := Eq
  Alone e m m' := (∃ name, e = .inputEnded name) ∧ m'.Regular ∧
    ∃ text, m'.output = m.output ++ text
  broken := id

section Steps

variable {tracing : Tracing} {lines more : List String}

/-- What does not look at the input is the same with more of it. -/
theorem ask_causal {α : Type} {q : Machine → Except Error α} {P : α → Prop}
    (hq : ∀ m, q (fed m more) = q m) (hvalue : ∀ m a, m.Regular → q m = .ok a → P a) :
    (causalBond lines more).Couples (Same P) (ask q) (ask q) := by
  apply Bond.Couples.ask
  · rintro m _ ⟨hregular, _, rfl⟩
    rw [hq]
    apply (Paired.refl fun _ _ => rfl).imp
    rintro a _ ⟨rfl, ha⟩
    exact ⟨rfl, hvalue m a hregular ha⟩
  · rintro e m m' ⟨_, hregular, _⟩ a ha
    exact ⟨a, rfl, hvalue m' a hregular ha⟩

theorem print_causal (text : String) :
    (causalBond lines more).Couples Eq (print text) (print text) := by
  apply Bond.Couples.modify
  · rintro m _ ⟨hregular, hinput, rfl⟩
    exact ⟨hregular, hinput, rfl⟩
  · rintro e m m' ⟨he, hregular, first, hfirst⟩
    refine ⟨he, hregular, first ++ text, ?_⟩
    show m'.output ++ text = _
    rw [hfirst, String.append_assoc]

/-- A change that has to do neither with the input nor with the output. -/
theorem modify_causal {f : Machine → Machine} (hfed : ∀ m, f (fed m more) = fed (f m) more)
    (hregular : ∀ m, m.Regular → (f m).Regular) (hinput : ∀ m, (f m).input = m.input)
    (houtput : ∀ m, (f m).output = m.output) :
    (causalBond lines more).Couples Eq (Action.modify f) (Action.modify f) := by
  apply Bond.Couples.modify
  · rintro m _ ⟨hm, hsuffix, rfl⟩
    exact ⟨hregular m hm, (hinput m).symm ▸ hsuffix, hfed m⟩
  · rintro e m m' ⟨he, hm, hlater⟩
    exact ⟨he, hregular m' hm, (houtput m').symm ▸ hlater⟩

theorem emit_causal (level : Nat) (text : String) :
    (causalBond lines more).Couples Eq (emit tracing level text) (emit tracing level text) :=
  .emit print_causal (fun _ => modify_causal (fun _ => rfl) (fun _ => id) (fun _ => rfl)
    fun _ => rfl) level text

theorem setVariable_causal (name : Atom) (value : Int) :
    (causalBond lines more).Couples Eq (setVariable name value) (setVariable name value) :=
  .setVariable (fun _ => rfl) (modify_causal (fun _ => rfl) (fun _ => id) (fun _ => rfl)
    fun _ => rfl)

theorem takeLine_causal {name : Atom} (hname : name.IsIdentifier) :
    (causalBond lines more).Couples Eq (takeLine name) (takeLine name) := by
  constructor
  · rintro m _ ⟨hregular, hinput, rfl⟩
    unfold takeLine
    cases hlines : m.input with
    | nil =>
      -- The run ends here, and with more input it goes on from here.
      rw [hname.raised_inputEnded]
      have hregular' : (m.fed more).Regular := hregular
      cases hmore : (m.fed more).input with
      | nil => exact .alone ⟨⟨name, rfl⟩, hregular', "", by simp [fed]⟩ fun b _ => ⟨b, rfl⟩
      | cons line rest => exact .alone ⟨⟨name, rfl⟩, hregular', "", by simp [fed]⟩ fun b _ => ⟨b, rfl⟩
    | cons line rest =>
      have hmore : (m.fed more).input = line :: (rest ++ more) := by
        rw [fed, hlines, List.cons_append]
      rw [hmore]
      refine .ok rfl ⟨hregular, ?_, rfl⟩
      rw [hlines] at hinput
      exact (List.suffix_cons line rest).trans hinput
  · rintro e m m' ⟨he, hregular, hlater⟩
    unfold takeLine
    cases m'.input with
    | nil => exact ⟨⟨he, hregular, hlater⟩, fun b _ => ⟨b, rfl⟩⟩
    | cons line rest => exact ⟨⟨he, hregular, hlater⟩, fun b _ => ⟨b, rfl⟩⟩

end Steps

section Runs

variable {lines more : List String}

def causally (tracing : Tracing) (lines more : List String) : Alignment where
  bond := causalBond lines more
  tracing := tracing
  tracing' := tracing
  Read _ := True
  Write := Atom.IsIdentifier
  Value _ := True
  Assigned _ := True
  refl _ := rfl
  numeral _ := trivial
  print := print_causal
  emit _ := emit_causal _ _
  put _ _ := setVariable_causal _ _
  assign _ _ := .assign (fun _ => rfl) (setVariable_causal _ _) fun _ => emit_causal _ _
  fetch _ := ask_causal (fun _ => rfl) fun _ _ _ _ _ _ => trivial
  take := takeLine_causal

variable {tracing : Tracing} {call : Atom → List Atom → Action Machine Int}

theorem admits_regular (hcall : ∀ callee args, (causalBond lines more).Couples
      (Same fun _ => True) (call callee args) (call callee args)) :
    (causally tracing lines more).Admits call call Statement.Regular where
  succ _ := trivial
  assign h := ⟨h.1, trivial⟩
  increment h := ⟨h.1, trivial⟩
  call {_ callee args} h := ⟨h.1, hcall callee args⟩
  input := by
    intro targets h t ht hstring
    obtain ⟨hkind, hlexical⟩ := h.2 t ht
    exact hlexical.identifier (by simpa [targetKinds, hstring] using hkind)
  output _ := ask_causal (fun _ => rfl) fun _ _ _ _ => trivial
  loop h := ⟨trivial, Statement.regularAll_iff.mp h.2⟩
  define h := .register rfl (fun _ => rfl) (modify_causal (fun _ => rfl)
    (fun _ hm => forall_including hm ⟨h.1, h.2.1, h.2.2.2⟩) (fun _ => rfl) fun _ => rfl)

theorem callProgram_causal (depth : Nat) (program : Atom) (args : List Atom) :
    (causalBond lines more).Couples (Same fun _ => True) (callProgram tracing depth program args)
      (callProgram tracing depth program args) := by
  induction depth generalizing program args with
  | zero => exact .fail rfl
  | succ depth ih =>
    have hopening : (causalBond lines more).Couples
        (Same fun entry => Statement.RegularDefinition entry.2) (ask (opening program args))
        (ask (opening program args)) := by
      apply ask_causal fun _ => rfl
      intro m entry hregular hentry
      obtain ⟨_, hfound⟩ := opening_eq_ok hentry
      exact hregular entry.2 (List.mem_of_find?_eq_some hfound)
    apply Alignment.callProgram_couples (A := causally tracing lines more) rfl hopening
    · rintro entry _ ⟨rfl, _⟩
      exact ⟨rfl, rfl⟩
    · rintro ⟨inner, d⟩ _ ⟨rfl, hd⟩
      have hbody : (causalBond lines more).Couples Eq
          (executeBlock tracing (callProgram tracing depth) d.body)
          (executeBlock tracing (callProgram tracing depth) d.body) :=
        (admits_regular ih).executeBlock (Statement.regularAll_iff.mp hd.2.2)
      apply Bond.Couples.inScope _ (Alignment.runBody_couples trivial hbody)
      constructor
      · exact id
      · rintro m _ ⟨hregular, hinput, rfl⟩
        exact ⟨hregular, hinput, rfl⟩
      · rintro m _ n _ ⟨_, _, rfl⟩ ⟨hregular, hinput, rfl⟩
        exact ⟨hregular, hinput, rfl⟩
      · rintro m _ n _ ⟨_, _, rfl⟩ ⟨hregular, hinput, rfl⟩
        exact ⟨hregular, hinput, rfl⟩
      · exact fun _ h => h
      · exact fun h => h
      · exact fun _ h => h

theorem run_causal {body : List Statement} (h : Statement.RegularAll body) :
    (causalBond lines more).Couples (Same fun _ => True) (run tracing body) (run tracing body) := by
  rw [run_eq]
  apply (Comparison.runBlock_couples ?_ ?_).bind
  · intro _ _ _
    exact ask_causal (fun _ => rfl) fun _ _ _ _ => trivial
  · intro depth
    exact (admits_regular (callProgram_causal depth)).executeBlock (Statement.regularAll_iff.mp h)
  · rintro m _ ⟨_, _, rfl⟩
    rfl

end Runs

end Machine

/-- Whatever lines follow, a program that was parsed prints what it prints on the first lines, and
then perhaps more. If it does not ask for more lines than there are, it comes to the same: the same
result or error, the same output and the same variables, and of the lines it leaves the same, and
those that follow. Programs that were there before have to come from sources, too. -/
theorem input_causal {before registry : Registry} {body : List Statement}
    (hbefore : ∀ d ∈ before, Statement.RegularDefinition d)
    (h : ParsedAfter before body registry) (tracing : Tracing) {lines more : List String}
    (hlines : ∀ line ∈ lines, '\n' ∉ line.toList) (hmore : ∀ line ∈ more, '\n' ∉ line.toList) :
    let short := Machine.run tracing body (Machine.start registry (Text.ofLines lines))
    let long := Machine.run tracing body (Machine.start registry (Text.ofLines (lines ++ more)))
    (∃ text, long.2.output = short.2.output ++ text) ∧
      ((∀ name, short.1 ≠ .error (.inputEnded name)) →
        long.1 = short.1 ∧ long.2.output = short.2.output ∧ long.2.store = short.2.store ∧
          long.2.trace = short.2.trace ∧ short.2.input <:+ lines ∧
          long.2.input = short.2.input ++ more) := by
  intro short long
  have hregular : (Machine.start registry (Text.ofLines lines)).Regular :=
    Statement.enrollAll_regular body h.regular hbefore h.enrolls
  have hstart : (Machine.causalBond lines more).Between
      (Machine.start registry (Text.ofLines lines))
      (Machine.start registry (Text.ofLines (lines ++ more))) := by
    refine ⟨hregular, ?_, Machine.start_fed registry hlines hmore⟩
    show (inputLines (Text.ofLines lines).toList).map String.ofList <:+ lines
    rw [inputLines_ofLines hlines]
  have hends : (Machine.causalBond lines more).Ends (Same fun _ => True) short long :=
    (Machine.run_causal h.regular).ends hstart
  generalize short = s at hends ⊢
  generalize long = l at hends ⊢
  cases hends with
  | ok hvalue hafter =>
    obtain ⟨rfl, _⟩ := hvalue
    obtain ⟨_, hleft, rfl⟩ := hafter
    exact ⟨⟨"", by simp [Machine.fed]⟩, fun _ => ⟨rfl, rfl, rfl, rfl, hleft, rfl⟩⟩
  | error he hafter =>
    obtain ⟨_, hleft, rfl⟩ := hafter
    cases he
    exact ⟨⟨"", by simp [Machine.fed]⟩, fun _ => ⟨rfl, rfl, rfl, rfl, hleft, rfl⟩⟩
  | alone hended _ =>
    obtain ⟨⟨name, rfl⟩, _, hlater⟩ := hended
    exact ⟨hlater, fun hnot => absurd rfl (hnot name)⟩

/-- The first line says how many lines are read, so two lines are too few here and four are more
than enough. -/
theorem input_causal_counted :
    ∃ body registry,
      parseByDescent "INPUT n\nLOOP n DO\nINPUT \"? \", x\nOUTPUT x\nEND" [] =
        (.ok body, registry) ∧
      (Machine.run ⟨2, true⟩ body (Machine.start registry (Text.ofLines ["2", "7"]))).1 =
        .error (.inputEnded (.text "x")) ∧
      (∃ text, (Machine.run ⟨2, true⟩ body
          (Machine.start registry (Text.ofLines (["2", "7"] ++ ["5", "9"])))).2.output =
        (Machine.run ⟨2, true⟩ body
          (Machine.start registry (Text.ofLines ["2", "7"]))).2.output ++ text) ∧
      (Machine.run ⟨2, true⟩ body (Machine.start registry (Text.ofLines ["2", "7", "5"]))).1 =
        .ok none ∧
      (Machine.run ⟨2, true⟩ body
          (Machine.start registry (Text.ofLines (["2", "7", "5"] ++ ["9"])))).1 =
        (Machine.run ⟨2, true⟩ body (Machine.start registry (Text.ofLines ["2", "7", "5"]))).1 ∧
      (Machine.run ⟨2, true⟩ body
          (Machine.start registry (Text.ofLines (["2", "7", "5"] ++ ["9"])))).2.input =
        (Machine.run ⟨2, true⟩ body
          (Machine.start registry (Text.ofLines ["2", "7", "5"]))).2.input ++ ["9"] := by
  have hparse : parseByDescent "INPUT n\nLOOP n DO\nINPUT \"? \", x\nOUTPUT x\nEND" [] =
      (.ok [.input [⟨.identifier, .text "n", ⟨1, 7⟩, false⟩],
          .loop (.text "n") [
            .input [⟨.string, .text "? ", ⟨3, 7⟩, false⟩, ⟨.identifier, .text "x", ⟨3, 13⟩, false⟩],
            .output [⟨.identifier, .text "x", ⟨4, 8⟩, false⟩]]], []) := by
    cbv
  obtain ⟨hprinted, _⟩ := @input_causal [] _ _ (by simp) ⟨_, .inl hparse⟩ ⟨2, true⟩ ["2", "7"]
    ["5", "9"] (by decide) (by decide)
  obtain ⟨_, hsame⟩ := @input_causal [] _ _ (by simp) ⟨_, .inl hparse⟩ ⟨2, true⟩ ["2", "7", "5"]
    ["9"] (by decide) (by decide)
  obtain ⟨hresult, _, _, _, _, hinput⟩ := hsame fun name h => by
    have hok : (.ok none : Except Error (Option Int)) = .error (.inputEnded name) :=
      Eq.trans (by decide +kernel) h
    cases hok
  refine ⟨_, _, hparse, ?_, hprinted, ?_, hresult, hinput⟩
  · decide +kernel
  · decide +kernel

end LoopLanguage
