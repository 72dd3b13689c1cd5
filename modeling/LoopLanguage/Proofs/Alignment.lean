import LoopLanguage.Proofs.Lockstep

/-!
Runs with the same names. Two runs of one body, or of two that differ in no name, need fewer laws
than a `Comparison`: errors go with themselves, so an `Alignment` only says what single steps do, and
`Alignment.Admits` which statements may be run. A run beside itself is aligned by anything that it
keeps (`Alignment.diagonal`).
-/

namespace LoopLanguage

open Machine

/-! ## Laws -/

namespace Bond.Couples

variable {B : Bond} {tracing : Tracing} {name : Atom} {value : Int}

/-- Runs that print alike and trace alike have the same messages. -/
theorem emit (hprint : ∀ text, B.Couples Eq (print text) (print text))
    (htrace : ∀ message, B.Couples Eq
      (Action.modify fun m => { m with trace := message :: m.trace })
      (Action.modify fun m => { m with trace := message :: m.trace }))
    (level : Nat) (text : String) :
    B.Couples Eq (Machine.emit tracing level text) (Machine.emit tracing level text) := by
  unfold Machine.emit
  split
  · exact .pure rfl
  · split
    · exact htrace ⟨level, text⟩
    · exact hprint _

theorem setVariable (hrefl : ∀ {e : Error}, e ≠ .exhausted → B.Errors e e)
    (hput : B.Couples Eq (Action.modify fun m => { m with store := m.store.put name value })
      (Action.modify fun m => { m with store := m.store.put name value })) :
    B.Couples Eq (setVariable name value) (setVariable name value) := by
  cases hkey : name.checkKey with
  | error e =>
    have hfail : Machine.setVariable name value = Action.fail e :=
      funext fun _ => setVariable_of_no_key hkey value
    have hsettled : Settled name.checkKey := name.checkKey_settled
    rw [hkey, settled_error] at hsettled
    rw [hfail]
    exact .fail (hrefl hsettled)
  | ok _ =>
    have hdone : Machine.setVariable name value =
        Action.modify fun m => { m with store := m.store.put name value } :=
      funext fun _ => setVariable_of_key hkey value
    rw [hdone]
    exact hput

theorem register {d d' : Definition} (hname : d'.name = d.name)
    (hrefl : ∀ {e : Error}, e ≠ .exhausted → B.Errors e e)
    (hadd : B.Couples Eq (Action.modify fun m => { m with registry := including d m.registry })
      (Action.modify fun m => { m with registry := including d' m.registry })) :
    B.Couples Eq (register d) (register d') := by
  cases hkey : d.name.checkKey with
  | error e =>
    have hfail : Machine.register d = Action.fail e := funext fun _ => register_of_no_key hkey
    have hfail' : Machine.register d' = Action.fail e :=
      funext fun _ => register_of_no_key (hname ▸ hkey)
    have hsettled : Settled d.name.checkKey := d.name.checkKey_settled
    rw [hkey, settled_error] at hsettled
    rw [hfail, hfail']
    exact .fail (hrefl hsettled)
  | ok _ =>
    have hdone : Machine.register d =
        Action.modify fun m => { m with registry := including d m.registry } :=
      funext fun _ => register_of_key hkey
    have hdone' : Machine.register d' =
        Action.modify fun m => { m with registry := including d' m.registry } :=
      funext fun _ => register_of_key (hname ▸ hkey)
    rw [hdone, hdone']
    exact hadd

theorem assign {tracing' : Tracing} (hrefl : ∀ {e : Error}, e ≠ .exhausted → B.Errors e e)
    (hput : B.Couples Eq (Machine.setVariable name value) (Machine.setVariable name value))
    (hemit : ∀ {level text}, Message.Proper ⟨level, text⟩ →
      B.Couples Eq (Machine.emit tracing level text) (Machine.emit tracing' level text)) :
    B.Couples Eq (assign tracing name value) (assign tracing' name value) := by
  apply hput.bind
  intro _ _ _
  apply (ofExcept (.of_settled (fun _ => hrefl) name.shown_settled)).bind
  rintro shown _ ⟨rfl, _⟩
  apply (ofExcept (.of_settled (fun _ => hrefl) (Numeral.write_settled value))).bind
  rintro digits _ ⟨rfl, _⟩
  exact hemit (.assignment shown digits)

theorem fetch {P : Int → Prop} (hB : B.Together)
    (hsame : ∀ m m', B.Between m m' → m'.store.get? name = m.store.get? name)
    (hvalue : ∀ m m', B.Between m m' → ∀ v ∈ m.store.get? name, P v) :
    B.Couples (Same fun value => ∀ v ∈ value, P v) (fetch name) (fetch name) := by
  apply ask_together hB
  intro m m' hm
  exact .ok ⟨(hsame m m' hm).symm, hvalue m m' hm⟩

theorem takeLine (hB : B.Together) (hrefl : ∀ {e : Error}, e ≠ .exhausted → B.Errors e e)
    (hsame : ∀ m m', B.Between m m' → m'.input = m.input)
    (hrest : ∀ m m' input, B.Between m m' → B.Between { m with input } { m' with input }) :
    B.Couples Eq (takeLine name) (takeLine name) := by
  apply of_ends hB
  intro m m' hm
  unfold Machine.takeLine
  rw [hsame m m' hm]
  cases m.input with
  | nil =>
    have hsettled : Settled (.error (Error.raised (.inputEnded name)) : Except Error String) :=
      settled_raised (by simp)
    exact .error (hrefl (settled_error.mp hsettled)) (B.broken hm)
  | cons line rest => exact .ok rfl (hrest m m' rest hm)

end Bond.Couples

/-! ## Alignments -/

/-- A comparison of runs in which all names are the same. -/
structure Alignment where
  bond : Bond
  tracing : Tracing
  tracing' : Tracing
  /-- Variables that are read. -/
  Read : Atom → Prop
  /-- Variables that are set. -/
  Write : Atom → Prop
  Value : Int → Prop
  Assigned : Int → Prop
  refl : ∀ {e : Error}, e ≠ .exhausted → bond.Errors e e
  numeral : ∀ {digits : List Char} {n : Nat}, Numeral.read digits = .ok n → Value n
  print : ∀ text, bond.Couples Eq (Machine.print text) (Machine.print text)
  emit : ∀ {level text}, Message.Proper ⟨level, text⟩ →
    bond.Couples Eq (Machine.emit tracing level text) (Machine.emit tracing' level text)
  put : ∀ {a value}, Write a → Value value →
    bond.Couples Eq (setVariable a value) (setVariable a value)
  assign : ∀ {a value}, Write a → Assigned value →
    bond.Couples Eq (Machine.assign tracing a value) (Machine.assign tracing' a value)
  fetch : ∀ {a}, Read a →
    bond.Couples (Same fun value => ∀ v ∈ value, Value v) (Machine.fetch a) (Machine.fetch a)
  take : ∀ {a}, Write a → bond.Couples Eq (takeLine a) (takeLine a)

namespace Alignment

theorem raised_refl (A : Alignment) {e : Error} (he : e ≠ .exhausted) :
    A.bond.Errors e.raised e.raised := by
  have hsettled : Settled (.error e.raised : Except Error Unit) := settled_raised he
  exact A.refl (settled_error.mp hsettled)

theorem paired (A : Alignment) {α : Type} {r : Except Error α} (h : Settled r) :
    Paired A.bond.Errors (Same fun a => r = .ok a) r r :=
  .of_settled (fun _ => A.refl) h

def comparison (A : Alignment) : Comparison where
  bond := A.bond
  tracing := A.tracing
  tracing' := A.tracing'
  Name := Eq
  Read := Same A.Read
  Write := Same A.Write
  Value := A.Value
  Assigned := A.Assigned
  plain := True
  read_name h := h.1
  write_name h := h.1
  refl he _ := A.refl he
  key := by
    rintro a _ rfl
    exact (A.paired a.checkKey_settled).forget
  shown := by
    rintro a _ rfl
    exact (A.paired a.shown_settled).imp fun _ _ h _ => h.1.symm
  undefined := by
    rintro a _ ⟨rfl, _⟩
    exact A.raised_refl (by simp)
  uncounted := by
    rintro a _ ⟨rfl, _⟩
    exact A.raised_refl (by simp)
  unread := by
    rintro a _ line ⟨rfl, _⟩
    exact A.raised_refl (by simp)
  operand := by
    rintro target _ a _ ⟨rfl, _⟩ ⟨rfl, _⟩
    apply (A.paired (noOperand_settled target a)).imp
    rintro value _ ⟨_, hvalue⟩
    exact absurd hvalue (noOperand_ne_ok target a value)
  numeral := A.numeral
  print := A.print
  emit := by
    intro level text text' hproper htext
    rw [htext trivial]
    exact A.emit hproper
  put := by
    rintro a _ value ⟨rfl, ha⟩ hvalue
    exact A.put ha hvalue
  assign := by
    rintro a _ value ⟨rfl, ha⟩ hvalue
    exact A.assign ha hvalue
  fetch := by
    rintro a _ ⟨rfl, ha⟩
    exact A.fetch ha
  take := by
    rintro a _ ⟨rfl, ha⟩
    exact A.take ha

/-- A prompt stands for itself, and so does a variable that may be set. -/
theorem target (A : Alignment) {t t' : Token} (hkind : t'.kind = t.kind) (htext : t'.text = t.text)
    (h : t.kind ≠ .string → A.Write t.text) : A.comparison.Target t t' := by
  by_cases hstring : t.kind = .string
  · apply Comparison.Target.prompt hstring (hkind.trans hstring)
    rw [htext]
    exact (A.paired t.text.shown_settled).forget
  · exact .name hstring (hkind ▸ hstring) ⟨htext.symm, h hstring⟩

/-- What has to be known of the statements of two runs of one and the same body. -/
structure Admits (A : Alignment) (call call' : Atom → List Atom → Action Machine Int)
    (P : Statement → Prop) : Prop where
  succ : ∀ {value}, A.Value value → A.Assigned (value + 1)
  assign : ∀ {target value}, P (.assign target value) → A.Write target ∧ A.Assigned value
  increment : ∀ {target operand}, P (.increment target operand) → A.Write target ∧ A.Read operand
  call : ∀ {target callee args}, P (.call target callee args) →
    A.Write target ∧ A.bond.Couples (Same A.Value) (call callee args) (call' callee args)
  input : ∀ {targets}, P (.input targets) →
    ∀ t ∈ targets, t.kind ≠ .string → A.Write t.text
  output : ∀ {items}, P (.output items) → A.bond.Couples (Same fun _ => True)
    (ask fun m => Output.render m.store items) (ask fun m => Output.render m.store items)
  loop : ∀ {count body}, P (.loop count body) → A.Read count ∧ ∀ s ∈ body, P s
  define : ∀ {name params body}, P (.define name params body) →
    A.bond.Couples Eq (register ⟨name, params, body⟩) (register ⟨name, params, body⟩)

theorem forall₂_same {P : Statement → Prop} {body : List Statement} (h : ∀ s ∈ body, P s) :
    List.Forall₂ (Same P) body body :=
  List.forall₂_same.mpr fun s hs => ⟨rfl, h s hs⟩

variable {A : Alignment} {call call' : Atom → List Atom → Action Machine Int}
  {P : Statement → Prop}

theorem Admits.accords (h : A.Admits call call' P) :
    A.comparison.Accords call call' (Same P) where
  ready := by
    rintro s _ ⟨rfl, _⟩
    exact (A.paired s.checkReady_settled).forget
  succ := h.succ
  assign := by
    rintro target value _ ⟨rfl, hs⟩
    obtain ⟨htarget, hvalue⟩ := h.assign hs
    exact ⟨target, rfl, ⟨rfl, htarget⟩, hvalue⟩
  increment := by
    rintro target operand _ ⟨rfl, hs⟩
    obtain ⟨htarget, hoperand⟩ := h.increment hs
    exact ⟨target, operand, rfl, ⟨rfl, htarget⟩, rfl, hoperand⟩
  call := by
    rintro target callee args _ ⟨rfl, hs⟩
    obtain ⟨htarget, hcall⟩ := h.call hs
    exact ⟨target, callee, args, rfl, ⟨rfl, htarget⟩, hcall⟩
  input := by
    rintro targets _ ⟨rfl, hs⟩
    refine ⟨targets, rfl, List.forall₂_same.mpr ?_⟩
    intro t ht
    exact A.target rfl rfl (h.input hs t ht)
  output := by
    rintro items _ ⟨rfl, hs⟩
    exact ⟨items, rfl, (h.output hs).forget⟩
  loop := by
    rintro count body _ ⟨rfl, hs⟩
    obtain ⟨hcount, hbody⟩ := h.loop hs
    exact ⟨count, body, rfl, ⟨rfl, hcount⟩, forall₂_same hbody⟩
  define := by
    rintro name params body _ ⟨rfl, hs⟩
    exact ⟨name, params, body, rfl, h.define hs⟩
  other := by
    rintro s _ ⟨rfl, _⟩
    exact id

/-- Statements that are admitted do the same beside one another. -/
theorem Admits.executeBlock (h : A.Admits call call' P) {body : List Statement}
    (hbody : ∀ s ∈ body, P s) :
    A.bond.Couples Eq (executeBlock A.tracing call body) (executeBlock A.tracing' call' body) :=
  Comparison.executeBlock_couples h.accords body (forall₂_same hbody)

theorem runBody_couples (hresult : A.Read Store.result) {depth depth' : Nat} {d d' : Definition}
    (hbody : A.bond.Couples Eq (Machine.executeBlock A.tracing (callProgram A.tracing depth) d.body)
      (Machine.executeBlock A.tracing' (callProgram A.tracing' depth') d'.body)) :
    A.bond.Couples (Same A.Value) (runBody A.tracing depth d) (runBody A.tracing' depth' d') :=
  @Comparison.runBody_couples A.comparison depth depth' d d' ⟨rfl, hresult⟩ hbody

/-- Calls of one program that trace alike enter it alike. -/
theorem enterCall_couples (htracing : A.tracing' = A.tracing) {program : Atom} {args : List Atom}
    {Entry : Store × Definition → Store × Definition → Prop}
    (hopening : A.bond.Couples Entry (ask (opening program args)) (ask (opening program args)))
    (hentry : ∀ entry entry', Entry entry entry' →
      entry'.1 = entry.1 ∧ entry'.2.params = entry.2.params) :
    A.bond.Couples Entry (enterCall A.tracing program args)
      (enterCall A.tracing' program args) := by
  apply A.comparison.enterCall_couples hopening
  intro entry entry' h
  obtain ⟨hstore, hparams⟩ := hentry entry entry' h
  rw [hstore, hparams]
  apply A.comparison.traceCall_couples htracing rfl
  exact (A.paired (bindings_settled _ _)).imp fun _ _ h _ => h.1.symm

/-- Calls of one program that trace alike are coupled if what they enter is. -/
theorem callProgram_couples (htracing : A.tracing' = A.tracing) {program : Atom}
    {args : List Atom} {depth depth' : Nat}
    {Entry : Store × Definition → Store × Definition → Prop}
    (hopening : A.bond.Couples Entry (ask (opening program args)) (ask (opening program args)))
    (hentry : ∀ entry entry', Entry entry entry' →
      entry'.1 = entry.1 ∧ entry'.2.params = entry.2.params)
    (hbody : ∀ entry entry', Entry entry entry' → A.bond.Couples (Same A.Value)
      (inScope entry.1 (runBody A.tracing depth entry.2))
      (inScope entry'.1 (runBody A.tracing' depth' entry'.2))) :
    A.bond.Couples (Same A.Value) (callProgram A.tracing (depth + 1) program args)
      (callProgram A.tracing' (depth' + 1) program args) :=
  @Comparison.callProgram_couples A.comparison program program args args depth depth' Entry rfl
    (enterCall_couples htracing hopening hentry) hbody

end Alignment

/-! ## A run beside itself -/

section Diagonal

variable {I : Machine → Prop} {E : Error → Prop}

theorem Bond.diagonal_ask {α : Type} {q : Machine → Except Error α} {P : α → Prop}
    (hrefl : ∀ {e : Error}, e ≠ .exhausted → E e) (hq : ∀ m, Settled (q m))
    (hvalue : ∀ m a, I m → q m = .ok a → P a) :
    (Bond.diagonal I E).Couples (Same P) (ask q) (ask q) := by
  apply Bond.Couples.ask_together (Bond.diagonal_together I E)
  rintro m _ ⟨rfl, hm⟩
  apply (Paired.of_settled (fun _ he => ⟨rfl, hrefl he⟩) (hq m)).imp
  rintro a _ ⟨rfl, ha⟩
  exact ⟨rfl, hvalue m a hm ha⟩

theorem Bond.diagonal_ofExcept {α : Type} (r : Except Error α) (hE : ∀ e, E e) :
    (Bond.diagonal I E).Couples (Same fun a => r = .ok a) (Action.ofExcept r)
      (Action.ofExcept r) :=
  .ofExcept (.refl fun e _ => ⟨rfl, hE e⟩)

theorem Bond.diagonal_get : (Bond.diagonal I E).Couples (Same I) Action.get Action.get := by
  apply Bond.Couples.of_ends (Bond.diagonal_together I E)
  rintro m _ ⟨rfl, hm⟩
  exact .ok ⟨rfl, hm⟩ ⟨rfl, hm⟩

theorem Bond.diagonal_modify {f : Machine → Machine} (hf : ∀ m, I m → I (f m)) :
    (Bond.diagonal I E).Couples Eq (Action.modify f) (Action.modify f) := by
  apply Bond.Couples.modify_together (Bond.diagonal_together I E)
  rintro m _ ⟨rfl, hm⟩
  exact ⟨rfl, hf m hm⟩

/-- What is asked of a machine has to do with its variables and its programs only; it says that
values have the property, and storing such a value keeps it. -/
structure Machine.Upholds (I : Machine → Prop) (P : Int → Prop) : Prop where
  frame : ∀ {m n : Machine}, n.store = m.store → n.registry = m.registry → I m → I n
  put : ∀ {m : Machine} (name : Atom) {value : Int}, I m → P value →
    I { m with store := m.store.put name value }
  get : ∀ {m : Machine} {name : Atom} {value : Int}, I m → m.store.get? name = some value → P value

theorem Machine.Upholds.emit {P : Int → Prop} (h : Machine.Upholds I P) (tracing : Tracing)
    (level : Nat) (text : String) :
    (Bond.diagonal I E).Couples Eq (Machine.emit tracing level text)
      (Machine.emit tracing level text) := by
  apply Bond.Couples.emit
  · exact fun text => Bond.diagonal_modify fun _ => h.frame rfl rfl
  · exact fun message => Bond.diagonal_modify fun _ => h.frame rfl rfl

theorem Machine.Upholds.setVariable {P : Int → Prop} (h : Machine.Upholds I P)
    (hrefl : ∀ {e : Error}, e ≠ .exhausted → E e) (name : Atom) {value : Int} (hvalue : P value) :
    (Bond.diagonal I E).Couples Eq (Machine.setVariable name value)
      (Machine.setVariable name value) := by
  apply Bond.Couples.setVariable
  · exact fun he => ⟨rfl, hrefl he⟩
  · exact Bond.diagonal_modify fun _ hm => h.put name hm hvalue

def Alignment.diagonal (tracing : Tracing) {P : Int → Prop} (h : Machine.Upholds I P)
    (hrefl : ∀ {e : Error}, e ≠ .exhausted → E e)
    (hnumeral : ∀ {digits : List Char} {n : Nat}, Numeral.read digits = .ok n → P n) :
    Alignment where
  bond := .diagonal I E
  tracing := tracing
  tracing' := tracing
  Read _ := True
  Write _ := True
  Value := P
  Assigned := P
  refl he := ⟨rfl, hrefl he⟩
  numeral := hnumeral
  print _ := Bond.diagonal_modify fun _ => h.frame rfl rfl
  emit _ := h.emit tracing _ _
  put _ hvalue := h.setVariable hrefl _ hvalue
  assign _ hvalue := .assign (fun he => ⟨rfl, hrefl he⟩) (h.setVariable hrefl _ hvalue)
    fun _ => h.emit tracing _ _
  fetch := by
    intro a _
    apply Bond.Couples.fetch (Bond.diagonal_together I E)
    · rintro m _ ⟨rfl, _⟩
      rfl
    · rintro m _ ⟨_, hm⟩ v hv
      exact h.get hm hv
  take := by
    intro a _
    apply Bond.Couples.takeLine (Bond.diagonal_together I E) fun he => ⟨rfl, hrefl he⟩
    · rintro m _ ⟨rfl, _⟩
      rfl
    · rintro m _ input ⟨rfl, hm⟩
      exact ⟨rfl, @Upholds.frame I P h m _ rfl rfl hm⟩

end Diagonal

end LoopLanguage
