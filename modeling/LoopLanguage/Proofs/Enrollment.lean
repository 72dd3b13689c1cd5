import LoopLanguage.Grammar.Meaning

/-!
What a row of statements does to a registry. `Statement.enroll` goes through a statement from the
inside out and from left to right, checks every call against the programs that are there and adds
every definition once its body is through. It knows nothing of tokens, phrases or documents: each
loader is shown to leave the registry that `enroll` gives, and what holds of all loaded programs
is then proved from `enroll` alone.
-/

namespace LoopLanguage

/-- An error whose message can be written is raised as it is. -/
theorem Error.raised_of_shown {e : Error} (h : e.showAll = .ok ()) : e.raised = e := by
  rw [Error.raised, h]

namespace Registry

theorem find?_append_of_some {registry : Registry} {name : Atom} {d : Definition}
    (h : registry.find? name = some d) (more : Registry) :
    Registry.find? (registry ++ more) name = some d := by
  simp only [Registry.find?] at h ⊢
  rw [List.find?_append, h]
  rfl

theorem find?_isSome_append {registry : Registry} {name : Atom}
    (h : (registry.find? name).isSome) (more : Registry) :
    (Registry.find? (registry ++ more) name).isSome := by
  obtain ⟨d, hd⟩ := Option.isSome_iff_exists.mp h
  rw [find?_append_of_some hd]
  rfl

theorem find?_snoc_self (registry : Registry) (d : Definition) :
    (Registry.find? (registry ++ [d]) d.name).isSome := by
  simp [Registry.find?, List.find?_append]

/-- A program is added exactly if its name is new. -/
theorem define_eq_ok {d : Definition} {registry after : Registry}
    (h : Registry.define d registry = (.ok (), after)) :
    registry.find? d.name = none ∧ after = registry ++ [d] := by
  unfold Registry.define Registry.contains Atom.checkKey at h
  cases hkey : d.name.isKey with
  | false => simp [hkey, bind, Except.bind] at h
  | true =>
    cases hfind : registry.find? d.name with
    | none =>
      simp [hkey, hfind, bind, Except.bind, pure, Except.pure] at h
      exact ⟨rfl, h.symm⟩
    | some found => simp [hkey, hfind, bind, Except.bind, pure, Except.pure] at h

theorem define_of_new {d : Definition} {registry : Registry} (hkey : d.name.isKey = true)
    (hnew : registry.find? d.name = none) :
    Registry.define d registry = (.ok (), registry ++ [d]) := by
  simp [Registry.define, Registry.contains, Atom.checkKey, hkey, hnew, bind, Except.bind, pure,
    Except.pure]

/-- A program is refused where its name is taken. -/
theorem define_of_known {d known : Definition} {registry : Registry} {name : String}
    (hname : d.name = .text name) (hfind : registry.find? (.text name) = some known) :
    Registry.define d registry = (.error (.alreadyDefined (.text name) none), registry) := by
  have hraised : Error.raised (.alreadyDefined (.text name) none) =
      .alreadyDefined (.text name) none := Error.raised_of_shown rfl
  simp [Registry.define, Registry.contains, Atom.checkKey, Atom.isKey, hname, hfind, hraised, bind,
    Except.bind, pure, Except.pure]

theorem lookup_eq_ok {registry : Registry} {name : Atom} {d : Definition}
    (h : registry.lookup name = .ok d) : registry.find? name = some d := by
  obtain ⟨_, _, h⟩ := result_bind_eq_ok.mp h
  split at h <;> simp_all

theorem contains_of_key {registry : Registry} {name : Atom} (hkey : name.isKey = true) :
    registry.contains name = .ok (registry.find? name).isSome := by
  rw [Registry.contains, Atom.checkKey, if_pos hkey]
  rfl

theorem lookup_of_find? {registry : Registry} {name : Atom} {d : Definition}
    (hkey : name.isKey = true) (h : registry.find? name = some d) :
    registry.lookup name = .ok d := by
  rw [Registry.lookup, Atom.checkKey, if_pos hkey, h]
  rfl

theorem contains_eq_ok {registry : Registry} {name : Atom} {known : Bool}
    (h : registry.contains name = .ok known) :
    name.isKey = true ∧ (registry.find? name).isSome = known := by
  obtain ⟨_, hkey, hknown⟩ := result_bind_eq_ok.mp h
  unfold Atom.checkKey at hkey
  split at hkey
  · cases hknown
    exact ⟨by assumption, rfl⟩
  · cases hkey

theorem isKey_of_define {d : Definition} {registry after : Registry}
    (h : Registry.define d registry = (.ok (), after)) : d.name.isKey = true := by
  unfold Registry.define at h
  split at h
  · cases h
  · cases h
  · next hnew => exact (contains_eq_ok hnew).1

end Registry

namespace Statement

mutual

/-- The registry after a statement, if its calls and its definitions fit: a call needs a program
that is there and has as many parameters, a definition needs a new name. -/
def enroll : Statement → Registry → Option Registry
  | call _ callee args, registry =>
    match registry.find? callee with
    | some d => if args.length = d.params.length then some registry else none
    | none => none
  | loop _ body, registry => enrollAll body registry
  | define name params body, registry =>
    match enrollAll body registry with
    | some inner => if (inner.find? name).isSome then none else some (inner ++ [⟨name, params, body⟩])
    | none => none
  | program body, registry => enrollAll body registry
  | _, registry => some registry

def enrollAll : List Statement → Registry → Option Registry
  | [], registry => some registry
  | s :: rest, registry =>
    match enroll s registry with
    | some next => enrollAll rest next
    | none => none

end

theorem enrollAll_cons {s : Statement} {rest : List Statement} {registry after : Registry} :
    enrollAll (s :: rest) registry = some after ↔
      ∃ next, enroll s registry = some next ∧ enrollAll rest next = some after := by
  rw [enrollAll]
  cases enroll s registry <;> simp

theorem enroll_call {target callee : Atom} {args : List Atom} {registry after : Registry} :
    enroll (.call target callee args) registry = some after ↔
      ∃ d, registry.find? callee = some d ∧ args.length = d.params.length ∧ after = registry := by
  rw [enroll]
  cases hfind : registry.find? callee with
  | none => simp
  | some d =>
    by_cases hlen : args.length = d.params.length <;> simp [hlen, eq_comm]

theorem enroll_define {name : Atom} {params : List Atom} {body : List Statement}
    {registry after : Registry} :
    enroll (.define name params body) registry = some after ↔
      ∃ inner, enrollAll body registry = some inner ∧ inner.find? name = none ∧
        after = inner ++ [⟨name, params, body⟩] := by
  rw [enroll]
  cases hbody : enrollAll body registry with
  | none => simp
  | some inner =>
    cases hfind : inner.find? name <;> simp [hfind, eq_comm]

mutual

/-- Enrolling only adds programs at the end. -/
theorem enroll_extends : ∀ (s : Statement) {registry after : Registry},
    enroll s registry = some after → ∃ more, after = registry ++ more
  | .call .., registry, after, h => by
    obtain ⟨_, _, _, rfl⟩ := enroll_call.mp h
    exact ⟨[], (List.append_nil _).symm⟩
  | .loop _ body, _, _, h => enrollAll_extends body h
  | .program body, _, _, h => enrollAll_extends body h
  | .define name params body, registry, after, h => by
    obtain ⟨inner, hbody, _, rfl⟩ := enroll_define.mp h
    obtain ⟨more, rfl⟩ := enrollAll_extends body hbody
    exact ⟨more ++ [⟨name, params, body⟩], List.append_assoc _ _ _⟩
  | .assign .., _, _, h | .increment .., _, _, h | .input _, _, _, h | .output _, _, _, h
  | .missing, _, _, h | .token _, _, _, h => by
    cases h
    exact ⟨[], (List.append_nil _).symm⟩

theorem enrollAll_extends : ∀ (body : List Statement) {registry after : Registry},
    enrollAll body registry = some after → ∃ more, after = registry ++ more
  | [], _, _, h => by
    cases h
    exact ⟨[], (List.append_nil _).symm⟩
  | s :: rest, _, _, h => by
    obtain ⟨next, hs, hrest⟩ := enrollAll_cons.mp h
    obtain ⟨first, rfl⟩ := enroll_extends s hs
    obtain ⟨more, rfl⟩ := enrollAll_extends rest hrest
    exact ⟨first ++ more, List.append_assoc _ _ _⟩

end

mutual

/-- Every call of the statement finds a program with as many parameters, and every definition in it
is registered. -/
def Linked (registry : Registry) : Statement → Prop
  | call _ callee args => ∃ d, registry.find? callee = some d ∧ args.length = d.params.length
  | loop _ body => LinkedAll registry body
  | define name _ body => (registry.find? name).isSome ∧ LinkedAll registry body
  | program body => LinkedAll registry body
  | _ => True

def LinkedAll (registry : Registry) : List Statement → Prop
  | [] => True
  | s :: rest => Linked registry s ∧ LinkedAll registry rest

end

theorem linkedAll_iff {registry : Registry} {body : List Statement} :
    LinkedAll registry body ↔ ∀ s ∈ body, Linked registry s := by
  induction body with
  | nil => simp [LinkedAll]
  | cons s rest ih => simp [LinkedAll, ih]

mutual

theorem Linked.append : ∀ (s : Statement) {registry : Registry}, Linked registry s →
    ∀ more, Linked (registry ++ more) s
  | .call .., _, h, more => by
    obtain ⟨d, hfind, hlen⟩ := h
    exact ⟨d, Registry.find?_append_of_some hfind more, hlen⟩
  | .loop _ body, _, h, more => LinkedAll.append body h more
  | .program body, _, h, more => LinkedAll.append body h more
  | .define _ _ body, _, h, more =>
    ⟨Registry.find?_isSome_append h.1 more, LinkedAll.append body h.2 more⟩
  | .assign .., _, _, _ | .increment .., _, _, _ | .input _, _, _, _ | .output _, _, _, _
  | .missing, _, _, _ | .token _, _, _, _ => trivial

theorem LinkedAll.append : ∀ (body : List Statement) {registry : Registry},
    LinkedAll registry body → ∀ more, LinkedAll (registry ++ more) body
  | [], _, _, _ => trivial
  | s :: rest, _, h, more => ⟨Linked.append s h.1 more, LinkedAll.append rest h.2 more⟩

end

end Statement

/-- Every body is linked to the programs before it, so that programs only call earlier ones. -/
inductive Registry.Layered : Registry → Prop
  | nil : Layered []
  | snoc {registry : Registry} {d : Definition} (before : Layered registry)
      (linked : Statement.LinkedAll registry d.body) : Layered (registry ++ [d])

/-- A program that is found stands after all programs that its body needs. -/
theorem Registry.Layered.find? {registry : Registry} (h : Layered registry) {name : Atom}
    {d : Definition} (hfind : registry.find? name = some d) :
    ∃ before after, registry = before ++ d :: after ∧ Layered before ∧
      Statement.LinkedAll before d.body := by
  induction h with
  | nil => simp [Registry.find?] at hfind
  | @snoc before last hbefore hlinked ih =>
    cases hold : before.find? name with
    | some old =>
      rw [Registry.find?_append_of_some hold] at hfind
      cases hfind
      obtain ⟨front, back, rfl, hfront, hbody⟩ := ih hold
      exact ⟨front, back ++ [last], by simp, hfront, hbody⟩
    | none =>
      simp only [Registry.find?, List.find?_append] at hfind hold
      rw [hold] at hfind
      simp only [List.find?_cons, List.find?_nil, Option.none_or] at hfind
      split at hfind
      · cases hfind
        exact ⟨before, [], rfl, hbefore, hlinked⟩
      · cases hfind

namespace Statement

mutual

/-- What is enrolled is linked to the registry that comes out, and layers stay layers. -/
theorem enroll_linked : ∀ (s : Statement) {registry after : Registry}, registry.Layered →
    enroll s registry = some after → after.Layered ∧ Linked after s
  | .call .., registry, _, hlayered, h => by
    obtain ⟨d, hfind, hlen, rfl⟩ := enroll_call.mp h
    exact ⟨hlayered, d, hfind, hlen⟩
  | .loop _ body, _, _, hlayered, h => enrollAll_linked body hlayered h
  | .program body, _, _, hlayered, h => enrollAll_linked body hlayered h
  | .define name params body, _, _, hlayered, h => by
    obtain ⟨inner, hbody, _, rfl⟩ := enroll_define.mp h
    obtain ⟨hinner, hlinked⟩ := enrollAll_linked body hlayered hbody
    refine ⟨.snoc hinner hlinked, ?_, LinkedAll.append body hlinked _⟩
    exact Registry.find?_snoc_self inner ⟨name, params, body⟩
  | .assign .., _, _, hlayered, h | .increment .., _, _, hlayered, h
  | .input _, _, _, hlayered, h | .output _, _, _, hlayered, h
  | .missing, _, _, hlayered, h | .token _, _, _, hlayered, h => by
    cases h
    exact ⟨hlayered, trivial⟩

theorem enrollAll_linked : ∀ (body : List Statement) {registry after : Registry},
    registry.Layered → enrollAll body registry = some after →
      after.Layered ∧ LinkedAll after body
  | [], _, _, hlayered, h => by
    cases h
    exact ⟨hlayered, trivial⟩
  | s :: rest, _, _, hlayered, h => by
    obtain ⟨next, hs, hrest⟩ := enrollAll_cons.mp h
    obtain ⟨hnext, hlinked⟩ := enroll_linked s hlayered hs
    obtain ⟨hafter, hall⟩ := enrollAll_linked rest hnext hrest
    obtain ⟨more, rfl⟩ := enrollAll_extends rest hrest
    exact ⟨hafter, Linked.append s hlinked more, hall⟩

end

end Statement

namespace Document

open Statement

/-- What an object is loaded as, by the type that it names. The statements of its body, and the
registry after them, are the ones that `Body` allows. -/
inductive LoadedAs (Body : Registry → List Statement → Registry → Prop)
    (fields : List (String × Json)) (registry : Registry) : Statement → Registry → Prop
  | token {value : Json} {t : Token} (htoken : Document.token value = .ok t) :
      LoadedAs Body fields registry (.token t) registry
  | assign (target : Json) (value : Int) :
      LoadedAs Body fields registry (.assign (Atom.ofJson target) value) registry
  | increment (target operand : Json) :
      LoadedAs Body fields registry (.increment (Atom.ofJson target) (Atom.ofJson operand)) registry
  | input {value : Json} {targets : List Token} (htargets : tokens value = .ok targets) :
      LoadedAs Body fields registry (.input targets) registry
  | output {value : Json} {items : List Token} (hitems : tokens value = .ok items) :
      LoadedAs Body fields registry (.output items) registry
  | call {program value : Json} {d : Definition} {args : List Atom} (target : Json)
      (hprogram : field fields "program" = .ok program)
      (hfind : registry.find? (Atom.ofJson program) = some d)
      (hlength : args.length = d.params.length)
      (hkey : (Atom.ofJson program).isKey = true) (hargs : names value = .ok args) :
      LoadedAs Body fields registry
        (.call (Atom.ofJson target) (Atom.ofJson program) args) registry
  | loop {body : List Statement} {after : Registry} (count : Json)
      (hbody : Body registry body after) :
      LoadedAs Body fields registry (.loop (Atom.ofJson count) body) after
  | define {value : Json} {params : List Atom} {body : List Statement} {inner : Registry}
      (name : Json) (hbody : Body registry body inner)
      (hvalue : field fields "params" = .ok value) (hparams : names value = .ok params)
      (hnew : inner.find? (Atom.ofJson name) = none) (hkey : (Atom.ofJson name).isKey = true) :
      LoadedAs Body fields registry (.define (Atom.ofJson name) params body)
        (inner ++ [⟨Atom.ofJson name, params, body⟩])
  | program {body : List Statement} {after : Registry} (hbody : Body registry body after) :
      LoadedAs Body fields registry (.program body) after

theorem LoadedAs.imp {Body Other : Registry → List Statement → Registry → Prop}
    {fields : List (String × Json)} {registry after : Registry} {s : Statement}
    (h : LoadedAs Body fields registry s after)
    (himp : ∀ {body inner}, Body registry body inner → Other registry body inner) :
    LoadedAs Other fields registry s after := by
  cases h with
  | token htoken => exact .token htoken
  | assign target value => exact .assign target value
  | increment target operand => exact .increment target operand
  | input htargets => exact .input htargets
  | output hitems => exact .output hitems
  | call target hprogram hfind hlength hkey hargs =>
    exact .call target hprogram hfind hlength hkey hargs
  | loop count hbody => exact .loop count (himp hbody)
  | define name hbody hvalue hparams hnew hkey =>
    exact .define name (himp hbody) hvalue hparams hnew hkey
  | program hbody => exact .program (himp hbody)

theorem call_eq_ok {Body : Registry → List Statement → Registry → Prop} {registry : Registry}
    {fields : List (String × Json)} {s : Statement} (h : call registry fields = .ok s) :
    LoadedAs Body fields registry s registry := by
  obtain ⟨program, hprogram, h⟩ := result_bind_eq_ok.mp h
  obtain ⟨value, _, h⟩ := result_bind_eq_ok.mp h
  obtain ⟨args, hargs, h⟩ := result_bind_eq_ok.mp h
  obtain ⟨known, hknown, h⟩ := result_bind_eq_ok.mp h
  split at h
  · obtain ⟨d, hd, h⟩ := result_bind_eq_ok.mp h
    split at h
    · next hlength =>
      obtain ⟨target, _, h⟩ := result_bind_eq_ok.mp h
      cases h
      exact .call target hprogram (Registry.lookup_eq_ok hd) hlength
        (Registry.contains_eq_ok hknown).1 hargs
    · cases h
  · cases h

theorem plain_eq_ok {Body : Registry → List Statement → Registry → Prop} {registry : Registry}
    {type : Json} {fields : List (String × Json)} {s : Statement}
    (h : plain registry type fields = .ok s) : LoadedAs Body fields registry s registry := by
  unfold plain at h
  split at h
  · obtain ⟨target, _, h⟩ := result_bind_eq_ok.mp h
    obtain ⟨_, _, h⟩ := result_bind_eq_ok.mp h
    obtain ⟨value, _, h⟩ := result_bind_eq_ok.mp h
    cases h
    exact .assign target value
  · obtain ⟨target, _, h⟩ := result_bind_eq_ok.mp h
    obtain ⟨operand, _, h⟩ := result_bind_eq_ok.mp h
    cases h
    exact .increment target operand
  · exact call_eq_ok h
  · obtain ⟨_, _, h⟩ := result_bind_eq_ok.mp h
    obtain ⟨_, htargets, h⟩ := result_bind_eq_ok.mp h
    cases h
    exact .input htargets
  · obtain ⟨_, _, h⟩ := result_bind_eq_ok.mp h
    obtain ⟨_, hitems, h⟩ := result_bind_eq_ok.mp h
    cases h
    exact .output hitems
  · cases h

theorem load_obj_eq_ok {fields : List (String × Json)} {registry after : Registry} {s : Statement}
    (h : load (.obj fields) registry = (.ok s, after)) :
    LoadedAs (fun before body inner => loadBody fields before = (.ok body, inner)) fields registry s
      after := by
  -- The loader is a function chosen by the type field; the choice is opened before it is run.
  obtain ⟨act, hact, hrun⟩ : ∃ act, load (.obj fields) = act ∧ act registry = (.ok s, after) :=
    ⟨_, rfl, h⟩
  rw [load] at hact
  split at hact
  · subst hact
    obtain ⟨hs, rfl⟩ := Action.ofExcept_eq_ok_iff.mp hrun
    obtain ⟨_, _, hs⟩ := result_bind_eq_ok.mp hs
    obtain ⟨t, htoken, hs⟩ := result_bind_eq_ok.mp hs
    cases hs
    exact .token htoken
  · split at hact
    · subst hact
      obtain ⟨body, last, hbody, hs⟩ := Action.bind_eq_ok_iff.mp hrun
      cases hs
      exact .program hbody
    · subst hact
      obtain ⟨count, _, hloop⟩ := Action.ofExcept_bind_eq_ok_iff.mp hrun
      obtain ⟨body, last, hbody, hs⟩ := Action.bind_eq_ok_iff.mp hloop
      cases hs
      exact .loop _ hbody
    · subst hact
      obtain ⟨body, inner, hbody, hrest⟩ := Action.bind_eq_ok_iff.mp hrun
      obtain ⟨name, _, hnamed⟩ := Action.ofExcept_bind_eq_ok_iff.mp hrest
      obtain ⟨params, hparams, hdefined⟩ := Action.ofExcept_bind_eq_ok_iff.mp hnamed
      obtain ⟨value, hvalue, hparams⟩ := result_bind_eq_ok.mp hparams
      obtain ⟨_, last, hdefine, hs⟩ := Action.bind_eq_ok_iff.mp hdefined
      obtain ⟨hnew, rfl⟩ := Registry.define_eq_ok hdefine
      cases hs
      exact .define _ hbody hvalue hparams hnew (Registry.isKey_of_define hdefine)
    · subst hact
      obtain ⟨hs, rfl⟩ := Action.ofExcept_eq_ok_iff.mp hrun
      exact plain_eq_ok hs

/-- A property of loading that every step of it keeps: of statements, with the registries before and
after them, and of rows of statements. -/
structure Kept (Single : Registry → Statement → Registry → Prop)
    (Row : Registry → List Statement → Registry → Prop) : Prop where
  missing (registry : Registry) : Single registry .missing registry
  object {fields : List (String × Json)} {registry after : Registry} {s : Statement} :
    LoadedAs Row fields registry s after → Single registry s after
  nil (registry : Registry) : Row registry [] registry
  cons {registry next after : Registry} {s : Statement} {rest : List Statement} :
    Single registry s next → Row next rest after → Row registry (s :: rest) after

namespace Kept

variable {Single : Registry → Statement → Registry → Prop}
  {Row : Registry → List Statement → Registry → Prop}

mutual

/-- What every step keeps holds of all that a document loads. -/
theorem load (kept : Kept Single Row) : ∀ (document : Json) {registry after : Registry}
    {s : Statement}, Document.load document registry = (.ok s, after) → Single registry s after
  | .null, registry, _, _, h => by
    cases h
    exact kept.missing registry
  | .obj fields, _, _, _, h => kept.object ((load_obj_eq_ok h).imp fun hbody =>
    loadBody kept fields hbody)
  | .bool _, _, _, _, h | .int _, _, _, _, h | .real _, _, _, _, h | .str _, _, _, _, h
  | .arr _, _, _, _, h => by cases h

theorem loadBody (kept : Kept Single Row) : ∀ (fields : List (String × Json))
    {registry after : Registry} {body : List Statement},
    Document.loadBody fields registry = (.ok body, after) → Row registry body after
  | [], _, _, _, h => by cases h
  | (key, value) :: fields, _, _, _, h => by
    unfold Document.loadBody at h
    split at h
    · exact loadItems kept value h
    · exact loadBody kept fields h

theorem loadItems (kept : Kept Single Row) : ∀ (value : Json) {registry after : Registry}
    {body : List Statement}, Document.loadItems value registry = (.ok body, after) →
      Row registry body after
  | .arr values, _, _, _, h => loadAll kept values h
  | .str s, registry, _, _, h => by
    unfold Document.loadItems at h
    split at h <;> cases h
    exact kept.nil registry
  | .obj fields, registry, _, _, h => by
    unfold Document.loadItems at h
    split at h <;> cases h
    exact kept.nil registry
  | .null, _, _, _, h | .bool _, _, _, _, h | .int _, _, _, _, h | .real _, _, _, _, h => by cases h

theorem loadAll (kept : Kept Single Row) : ∀ (values : List Json) {registry after : Registry}
    {body : List Statement}, Document.loadAll values registry = (.ok body, after) →
      Row registry body after
  | [], registry, _, _, h => by
    cases h
    exact kept.nil registry
  | value :: values, _, _, _, h => by
    obtain ⟨first, next, hfirst, h⟩ := Action.bind_eq_ok_iff.mp h
    obtain ⟨rest, last, hrest, h⟩ := Action.bind_eq_ok_iff.mp h
    cases h
    exact kept.cons (load kept value hfirst) (loadAll kept values hrest)

end

end Kept

/-- The registry after loading is the one that the statements enroll. -/
theorem enrolls_kept :
    Kept (fun registry s after => s.enroll registry = some after)
      (fun registry body after => enrollAll body registry = some after) where
  missing _ := rfl
  nil _ := rfl
  cons hs hrest := enrollAll_cons.mpr ⟨_, hs, hrest⟩
  object h := by
    cases h with
    | token | assign | increment | input | output => rfl
    | call _ _ hfind hlength => exact enroll_call.mpr ⟨_, hfind, hlength, rfl⟩
    | loop _ hbody => exact hbody
    | define _ hbody _ _ hnew => exact enroll_define.mpr ⟨_, hbody, hnew, rfl⟩
    | program hbody => exact hbody

/-- A document that loads leaves the registry that its statement enrolls. -/
theorem load_enrolls (document : Json) {registry after : Registry} {s : Statement}
    (h : load document registry = (.ok s, after)) : s.enroll registry = some after :=
  enrolls_kept.load document h

theorem loadBody_enrolls (fields : List (String × Json)) {registry after : Registry}
    {body : List Statement} (h : loadBody fields registry = (.ok body, after)) :
    enrollAll body registry = some after :=
  enrolls_kept.loadBody fields h

theorem loadAll_enrolls (values : List Json) {registry after : Registry} {body : List Statement}
    (h : loadAll values registry = (.ok body, after)) : enrollAll body registry = some after :=
  enrolls_kept.loadAll values h

end Document

namespace Grammar.Phrase

/-- What a call means, by the program that its name finds. Behind the test for the name the lookup
does not fail, so no error but these two comes out. -/
theorem meaning_call (target callee : Piece) (args : List Piece) (registry : Registry) :
    meaning (.call target callee args) registry =
      (match registry.find? callee.atom with
        | none => .error (.notYetDefined callee.atom (some callee.place))
        | some d =>
          if args.length = d.params.length then
            .ok (.call target.atom callee.atom (args.map Piece.atom))
          else .error (.callArity callee.atom d.params.length args.length (some callee.place)),
        registry) := by
  have hkey : callee.atom.isKey = true := rfl
  rw [meaning, Action.get_bind, Registry.contains_of_key hkey]
  cases hfind : registry.find? callee.atom with
  | none => rfl
  | some d =>
    show (Action.ofExcept (registry.lookup callee.atom) >>= _) registry = _
    rw [Registry.lookup_of_find? hkey hfind, Action.bind_ok (Action.ofExcept_ok d registry)]
    by_cases hlength : args.length = d.params.length <;> simp [hlength]

/-- A call means itself exactly where it can be enrolled. -/
theorem meaning_call_eq_ok_iff {target callee : Piece} {args : List Piece}
    {registry after : Registry} {s : Statement} :
    meaning (.call target callee args) registry = (.ok s, after) ↔
      s = .call target.atom callee.atom (args.map Piece.atom) ∧ s.enroll registry = some after := by
  rw [meaning_call]
  constructor
  · intro h
    obtain ⟨h, rfl⟩ := Prod.mk.inj h
    split at h
    · cases h
    · next d hfind =>
      split at h
      · next hlength =>
        cases h
        exact ⟨rfl, Statement.enroll_call.mpr ⟨d, hfind, by simpa using hlength, rfl⟩⟩
      · cases h
  · rintro ⟨rfl, h⟩
    obtain ⟨d, hfind, hlength, rfl⟩ := Statement.enroll_call.mp h
    simp [hfind, ← hlength]

end Grammar.Phrase

end LoopLanguage
