import LoopLanguage.Proofs.Legibility
import LoopLanguage.Session.Interpreter

/-!
Tracing changes nothing but the trace. A run at some level is compared with the run at the highest
level, of which it keeps the messages up to its own level: that is the bond between the two, as long
as numbers and names can be written. All messages are put together at every level, with one exception:
the message of a call is only put together if there is a level at all. So nothing may prevent it from
being written, and that is what the numbers in the scope, the names of called programs and the names
of parameters have to be short enough for. The numbers of a run are, and so are the names of a
source and of a document that was read from a text.
-/

namespace LoopLanguage

/-! ## Runs at two levels -/

/-- There is a trace if there is something to trace. -/
def Tracing.Ready (tracing : Tracing) : Prop := 0 < tracing.level → tracing.kept = true

/-- All messages are kept. -/
def Tracing.full : Tracing := ⟨3, true⟩

namespace Machine

/-- The machine as if nothing above the level had been traced. -/
def upTo (level : Int) (machine : Machine) : Machine :=
  { machine with trace := machine.trace.filter fun message => (message.level : Int) ≤ level }

/-- No number in the scope and no name in the registry prevents a message from being written. -/
structure Clear (machine : Machine) : Prop where
  short : machine.store.Holds Numeral.Short
  legible : machine.registry.Legible

/-- The second machine is the first one without the messages above the level. -/
structure Heard (level : Int) (m m' : Machine) : Prop where
  upTo : m' = m.upTo level
  proper : ∀ message ∈ m.trace, message.Proper

def hushedBond (level : Int) : Bond where
  Between m m' := Heard level m m' ∧ m.Clear
  Broken := Heard level
  Errors := Eq
  broken := And.left

section Steps

variable {tracing : Tracing} {level : Int}

theorem hushed_together : (hushedBond level).Together := fun _ _ _ => id

theorem modify_hushed {f g : Machine → Machine} (h : ∀ m : Machine, m.Clear →
      (∀ message ∈ m.trace, message.Proper) → (hushedBond level).Between (f m) (g (m.upTo level))) :
    (hushedBond level).Couples Eq (Action.modify f) (Action.modify g) := by
  apply Bond.Couples.modify_together hushed_together
  rintro m _ ⟨⟨rfl, hproper⟩, hclear⟩
  exact h m hclear hproper

/-- What has nothing to do with the trace is answered alike. -/
theorem ask_hushed {α : Type} {q : Machine → Except Error α} {Q : α → Prop}
    (hq : ∀ m : Machine, q (m.upTo level) = q m) (hvalue : ∀ m a, m.Clear → q m = .ok a → Q a) :
    (hushedBond level).Couples (Same Q) (ask q) (ask q) := by
  apply Bond.Couples.ask_together hushed_together
  rintro m _ ⟨⟨rfl, _⟩, hclear⟩
  rw [hq m]
  exact (Paired.refl fun _ _ => rfl).imp fun _ _ h => ⟨h.1, hvalue m _ hclear h.2⟩

theorem print_hushed (text : String) : (hushedBond level).Couples Eq (print text) (print text) :=
  modify_hushed fun _ hclear hproper => ⟨⟨rfl, hproper⟩, hclear.short, hclear.legible⟩

theorem emit_hushed (hready : tracing.Ready) {level : Nat} {text : String}
    (hproper : Message.Proper ⟨level, text⟩) :
    (hushedBond tracing.level).Couples Eq (emit .full level text) (emit tracing level text) := by
  have hpos := hproper.level_pos
  have hle := hproper.level_le
  dsimp only at hpos hle
  have hfull : emit .full level text =
      Action.modify fun m => { m with trace := ⟨level, text⟩ :: m.trace } := by
    have hnot : ¬ (Tracing.full.level < level) := by
      show ¬ ((3 : Int) < level)
      omega
    rw [emit, if_neg hnot]
    rfl
  have hkept : ∀ m : Machine, (∀ message ∈ m.trace, message.Proper) →
      ∀ message ∈ (⟨level, text⟩ :: m.trace : List Message), message.Proper := by
    intro m htrace
    exact List.forall_mem_cons.mpr ⟨hproper, htrace⟩
  rw [hfull]
  by_cases hlow : tracing.level < level
  · have hnothing : emit tracing level text = Action.modify id := by
      rw [emit, if_pos hlow]
      rfl
    rw [hnothing]
    apply modify_hushed
    intro m hclear htrace
    have hdropped : ¬ ((level : Int) ≤ tracing.level) := by omega
    refine ⟨⟨?_, hkept m htrace⟩, hclear.short, hclear.legible⟩
    simp [upTo, hdropped]
  · have hsame : emit tracing level text =
        Action.modify fun m => { m with trace := ⟨level, text⟩ :: m.trace } := by
      rw [emit, if_neg hlow, if_pos (hready (by omega))]
    rw [hsame]
    apply modify_hushed
    intro m hclear htrace
    have hin : (level : Int) ≤ tracing.level := by omega
    refine ⟨⟨?_, hkept m htrace⟩, hclear.short, hclear.legible⟩
    simp [upTo, hin]

theorem setVariable_hushed (name : Atom) {value : Int} (hvalue : Numeral.Short value) :
    (hushedBond level).Couples Eq (setVariable name value) (setVariable name value) := by
  apply Bond.Couples.setVariable fun _ => rfl
  exact modify_hushed fun _ hclear hproper =>
    ⟨⟨rfl, hproper⟩, hclear.short.put name hvalue, hclear.legible⟩

/-- An assignment of a number that is too long fails in the same way at every level. -/
theorem assign_of_long (target : Atom) {value : Int} (hvalue : ¬ Numeral.Short value) :
    ∃ (e : Error) (change : Store → Store), ∀ (tracing : Tracing) (machine : Machine),
      assign tracing target value machine =
        (.error e, { machine with store := change machine.store }) := by
  cases hkey : target.checkKey with
  | error e =>
    refine ⟨e, id, fun tracing machine => ?_⟩
    rw [assign, Action.bind_error (setVariable_of_no_key hkey value)]
    rfl
  | ok _ =>
    cases hshown : target.shown with
    | error e =>
      refine ⟨e, (·.put target value), fun tracing machine => ?_⟩
      rw [assign, Action.bind_ok (setVariable_of_key hkey value), hshown]
      rfl
    | ok name =>
      refine ⟨.tooManyDigitsWritten, (·.put target value), fun tracing machine => ?_⟩
      rw [assign, Action.bind_ok (setVariable_of_key hkey value), hshown,
        Numeral.write_of_not_short hvalue]
      rfl

theorem assign_hushed (hready : tracing.Ready) (target : Atom) (value : Int) :
    (hushedBond tracing.level).Couples Eq (assign .full target value)
      (assign tracing target value) := by
  by_cases hvalue : Numeral.Short value
  · exact .assign (fun _ => rfl) (setVariable_hushed target hvalue) (emit_hushed hready)
  · obtain ⟨e, change, hfail⟩ := assign_of_long target hvalue
    apply Bond.Couples.of_ends hushed_together
    rintro m _ ⟨⟨rfl, hproper⟩, _⟩
    rw [hfail, hfail]
    exact .error rfl ⟨rfl, hproper⟩

theorem register_hushed {definition : Definition} (hdefinition : definition.Legible) :
    (hushedBond level).Couples Eq (register definition) (register definition) := by
  apply Bond.Couples.register rfl fun _ => rfl
  exact modify_hushed fun _ hclear hproper =>
    ⟨⟨rfl, hproper⟩, hclear.short, forall_including hclear.legible hdefinition⟩

theorem traceCall_hushed (hready : tracing.Ready) {program : Atom} (hprogram : program.isWritable)
    {params : List Atom} (hparams : ∀ param ∈ params, param.isWritable) {inner : Store}
    (hinner : inner.Holds Numeral.Short) :
    (hushedBond tracing.level).Couples Eq (traceCall .full program params inner)
      (traceCall tracing program params inner) := by
  obtain ⟨bindings, htrace⟩ := traceCall_eq hprogram hparams hinner
  have hcall := emit_hushed hready (.call program.display bindings)
  rw [htrace, htrace, if_neg (show ¬ Tracing.full.level = 0 by decide)]
  split
  · next hzero =>
    -- Without a level the message would not have been traced either.
    have hnothing : emit tracing 1
        ("call " ++ program.display ++ "(" ++ ", ".intercalate bindings ++ ")") = pure () := by
      rw [emit, if_pos (by omega)]
    rwa [hnothing] at hcall
  · exact hcall

def hushed {tracing : Tracing} (hready : tracing.Ready) : Alignment where
  bond := hushedBond tracing.level
  tracing := .full
  tracing' := tracing
  Read _ := True
  Write _ := True
  Value := Numeral.Short
  Assigned _ := True
  refl _ := rfl
  numeral := Numeral.short_of_read
  print := print_hushed
  emit := emit_hushed hready
  put _ := setVariable_hushed _
  assign _ _ := assign_hushed hready _ _
  fetch _ := by
    apply Bond.Couples.fetch hushed_together
    · rintro m _ ⟨⟨rfl, _⟩, _⟩
      rfl
    · rintro m _ ⟨_, hclear⟩ v hv
      exact hclear.short _ v hv
  take _ := by
    apply Bond.Couples.takeLine hushed_together fun _ => rfl
    · rintro m _ ⟨⟨rfl, _⟩, _⟩
      rfl
    · rintro m _ input ⟨⟨rfl, hproper⟩, hclear⟩
      exact ⟨⟨rfl, hproper⟩, hclear.short, hclear.legible⟩

end Steps

section Runs

variable {tracing : Tracing} {call other : Atom → List Atom → Action Machine Int}

theorem admits_legible (hready : tracing.Ready)
    (hcall : ∀ callee : Atom, callee.isWritable → ∀ args,
      (hushedBond tracing.level).Couples (Same Numeral.Short) (call callee args)
        (other callee args)) :
    (hushed hready).Admits call other Statement.Legible where
  succ _ := trivial
  assign _ := ⟨trivial, trivial⟩
  increment _ := ⟨trivial, trivial⟩
  call h := ⟨trivial, hcall _ h _⟩
  input _ _ _ _ := trivial
  output _ := ask_hushed (fun _ => rfl) fun _ _ _ _ => trivial
  loop h := ⟨trivial, Statement.legibleAll_iff.mp h⟩
  define h := register_hushed h

theorem callProgram_hushed (hready : tracing.Ready) (depth : Nat) {program : Atom}
    (hprogram : program.isWritable) (args : List Atom) :
    (hushedBond tracing.level).Couples (Same Numeral.Short) (callProgram .full depth program args)
      (callProgram tracing depth program args) := by
  induction depth generalizing program args with
  | zero => exact .fail rfl
  | succ depth ih =>
    have hopening : (hushedBond tracing.level).Couples
        (Same fun entry => entry.1.Holds Numeral.Short ∧ entry.2.Legible)
        (ask (opening program args)) (ask (opening program args)) := by
      apply ask_hushed fun _ => rfl
      intro m entry hclear hentry
      obtain ⟨hinner, hfound⟩ := opening_eq_ok hentry
      constructor
      · exact Store.Holds.enter hclear.short Numeral.short_zero hinner
      · exact hclear.legible entry.2 (List.mem_of_find?_eq_some hfound)
    apply Comparison.callProgram_couples (C := (hushed hready).comparison) rfl
    · apply (hushed hready).comparison.enterCall_couples hopening
      rintro entry _ ⟨rfl, hshort, hlegible⟩
      exact traceCall_hushed hready hprogram hlegible.1 hshort
    · rintro ⟨inner, definition⟩ _ ⟨rfl, hshort, hlegible⟩
      have hbody : (hushedBond tracing.level).Couples Eq
          (executeBlock .full (callProgram .full depth) definition.body)
          (executeBlock tracing (callProgram tracing depth) definition.body) :=
        Alignment.Admits.executeBlock (admits_legible hready fun _ hcallee args => ih hcallee args)
          (Statement.legibleAll_iff.mp hlegible.2)
      apply Bond.Couples.inScope _
        (Alignment.runBody_couples (A := hushed hready) trivial hbody)
      apply Bond.Nests.of_together hushed_together hushed_together
      · exact id
      · rintro m _ ⟨⟨rfl, hproper⟩, hclear⟩
        exact ⟨⟨rfl, hproper⟩, hshort, hclear.legible⟩
      · rintro m _ n _ ⟨⟨rfl, _⟩, hclear⟩ ⟨⟨rfl, hproper⟩, hn⟩
        exact ⟨⟨rfl, hproper⟩, hclear.short, hn.legible⟩
      · rintro m _ n _ ⟨⟨rfl, _⟩, _⟩ ⟨rfl, hproper⟩
        exact ⟨rfl, hproper⟩

theorem run_hushed (hready : tracing.Ready) {body : List Statement}
    (hbody : Statement.LegibleAll body) :
    (hushedBond tracing.level).Couples Eq (run .full body) (run tracing body) := by
  rw [run_eq, run_eq]
  have hblock : (hushedBond tracing.level).Couples Eq (runBlock .full body)
      (runBlock tracing body) := by
    apply Comparison.runBlock_couples
    · intro depth
      exact Alignment.Admits.executeBlock
        (admits_legible hready fun _ hcallee args => callProgram_hushed hready depth hcallee args)
        (Statement.legibleAll_iff.mp hbody)
    · rintro m _ ⟨⟨rfl, _⟩, _⟩
      rfl
  apply hblock.bind
  intro _ _ _
  exact ((hushed hready).fetch trivial).forget

theorem hushed_ends {α : Type} {level : Int} {x y : Except Error α × Machine}
    (h : (hushedBond level).Ends Eq x y) :
    y = (x.1, x.2.upTo level) ∧ ∀ message ∈ x.2.trace, message.Proper := by
  obtain ⟨hresult, hm⟩ := h.paired hushed_together
  exact ⟨Prod.ext hresult.eq.symm hm.upTo, hm.proper⟩

end Runs

end Machine

/-! ## The file of the trace -/

namespace Files

theorem get?_put (files : Files) (name : String) (content : ByteArray) :
    (files.put name content).get? name = some content := by
  induction files with
  | nil => simp [put, get?]
  | cons entry files ih =>
    obtain ⟨n, c⟩ := entry
    by_cases h : n = name
    · simp [put, get?, h]
    · have hne : (name == n) = false := beq_eq_false_iff_ne.mpr (Ne.symm h)
      rw [put, if_neg h, get?, List.lookup_cons, hne]
      exact ih

theorem get?_put_of_ne (files : Files) {name other : String} (h : other ≠ name)
    (content : ByteArray) : (files.put name content).get? other = files.get? other := by
  have hother : (other == name) = false := beq_eq_false_iff_ne.mpr h
  induction files with
  | nil => simp [put, get?, List.lookup_cons, hother]
  | cons entry files ih =>
    obtain ⟨n, c⟩ := entry
    by_cases hn : n = name
    · simp [put, get?, hn, List.lookup_cons, hother]
    · simp only [get?] at ih
      rw [put, if_neg hn, get?, get?, List.lookup_cons, List.lookup_cons, ih]

theorem put_put (files : Files) (name : String) (content later : ByteArray) :
    (files.put name content).put name later = files.put name later := by
  induction files with
  | nil => simp [put]
  | cons entry files ih =>
    obtain ⟨n, c⟩ := entry
    by_cases h : n = name <;> simp [put, h, ih]

theorem overwrite_empty (bytes : ByteArray) : overwrite ByteArray.empty 0 bytes = bytes := by
  apply ByteArray.ext
  simp [overwrite]

end Files

namespace Interpreter

/-- A new interpreter writes what it traces to its file, and nothing else is there. -/
theorem create_write (level : Int) (file : String) (files : Files) (text : String) :
    ((create level file files).1.write text (create level file files).2).2 =
      if 0 < level then files.put file text.toUTF8 else files := by
  unfold create
  split
  · simp only [write, Handle.write, Files.get?_put, Option.getD_some, Files.overwrite_empty,
      Files.put_put]
  · rfl

theorem create_ready (level : Int) (file : String) (files : Files) :
    (create level file files).1.tracing.Ready := by
  intro hlevel
  unfold create at hlevel ⊢
  split at hlevel
  · next hpos =>
    rw [if_pos hpos]
    rfl
  · next hpos => exact absurd hlevel hpos

theorem create_level (level : Int) (file : String) (files : Files) :
    (create level file files).1.tracing.level = level := by
  unfold create
  split <;> rfl

end Interpreter

/-- One run at the highest level tells what the runs at all levels come to. -/
theorem Machine.run_upTo {body : List Statement} (hbody : Statement.LegibleAll body)
    {registry : Registry} (hregistry : registry.Legible) (input : String) :
    ∃ (r : Except Error (Option Int)) (full : Machine),
      (∀ message ∈ full.trace, message.Proper) ∧
      ∀ tracing : Tracing, tracing.Ready →
        run tracing body (start registry input) = (r, full.upTo tracing.level) := by
  have hclear : (start registry input).Clear := ⟨Store.holds_nil, hregistry⟩
  obtain ⟨r, full, hfull⟩ : ∃ r full, run .full body (start registry input) = (r, full) :=
    ⟨_, _, rfl⟩
  have hrun : ∀ tracing : Tracing, tracing.Ready →
      run tracing body (start registry input) = (r, full.upTo tracing.level) ∧
        ∀ message ∈ full.trace, message.Proper := by
    intro tracing hready
    have hstart : (hushedBond tracing.level).Between (start registry input) (start registry input) :=
      ⟨⟨rfl, by simp [start]⟩, hclear⟩
    obtain ⟨hsame, hproper⟩ := hushed_ends ((run_hushed hready hbody).ends hstart)
    rw [hfull] at hsame hproper
    exact ⟨hsame, hproper⟩
  exact ⟨r, full, (hrun .full fun _ => rfl).2, fun tracing hready => (hrun tracing hready).1⟩

end LoopLanguage
