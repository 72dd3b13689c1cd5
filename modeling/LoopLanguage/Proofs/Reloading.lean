import LoopLanguage.Proofs.Documents

/-!
Documents from elsewhere. A document can be loaded though this library would never write it: its
numbers may be texts or truth values, its lists may be texts or objects, its names may be anything,
and fields that nothing asks for are passed over. What was loaded does not remember any of this.
The document that it is written as is loaded as the same statement, with the same programs.
-/

namespace LoopLanguage

theorem Atom.stable_ofJson (value : Json) : (Atom.ofJson value).Stable := ofJson_toJson_ofJson value

/-- A token that comes back as it was written, its place included. -/
def Token.Stable (t : Token) : Prop := t.text.Stable ∧ t.placeless = t

theorem Token.map_placeless_of_stable {ts : List Token} (h : ∀ t ∈ ts, t.Stable) :
    ts.map Token.placeless = ts := by
  rw [List.map_congr_left fun t ht => (h t ht).2, List.map_id']

namespace Statement

mutual

/-- A statement that comes back as it was written. What is looked up in the registry has to be a
key, since the lookup fails otherwise. -/
def Stable : Statement → Prop
  | assign target _ => target.Stable
  | increment target operand => target.Stable ∧ operand.Stable
  | call target callee args =>
    target.Stable ∧ callee.Stable ∧ callee.isKey = true ∧ ∀ arg ∈ args, arg.Stable
  | input targets => ∀ t ∈ targets, t.Stable
  | output items => ∀ t ∈ items, t.Stable
  | loop count body => count.Stable ∧ StableAll body
  | define name params body =>
    name.Stable ∧ name.isKey = true ∧ (∀ param ∈ params, param.Stable) ∧ StableAll body
  | missing => True
  | token t => t.Stable
  | program body => StableAll body

def StableAll : List Statement → Prop
  | [] => True
  | s :: rest => Stable s ∧ StableAll rest

end

end Statement

namespace Document

open Statement (Stable StableAll toDocuments enroll enrollAll)

theorem token_stable {value : Json} {t : Token} (h : token value = .ok t) : t.Stable := by
  cases value with
  | obj fields =>
    obtain ⟨_, _, hkind⟩ := result_bind_eq_ok.mp h
    obtain ⟨_, _, ht⟩ := result_bind_eq_ok.mp hkind
    cases ht
    exact ⟨Atom.stable_ofJson _, rfl⟩
  | _ => cases h

theorem tokens_stable {value : Json} {ts : List Token} (h : tokens value = .ok ts) :
    ∀ t ∈ ts, t.Stable := by
  obtain ⟨values, -, hmap⟩ := result_bind_eq_ok.mp h
  clear h
  induction values generalizing ts with
  | nil =>
    cases hmap
    simp
  | cons first values ih =>
    rw [List.mapM_cons] at hmap
    obtain ⟨t, ht, hmap⟩ := result_bind_eq_ok.mp hmap
    obtain ⟨rest, hrest, hmap⟩ := result_bind_eq_ok.mp hmap
    cases hmap
    exact List.forall_mem_cons.mpr ⟨token_stable ht, ih hrest⟩

theorem names_stable {value : Json} {found : List Atom} (h : names value = .ok found) :
    ∀ name ∈ found, name.Stable := by
  obtain ⟨values, _, hfound⟩ := result_bind_eq_ok.mp h
  cases hfound
  exact List.forall_mem_map.mpr fun value _ => Atom.stable_ofJson value

/-- Whatever the document, what is loaded from it is stable. -/
theorem stable_kept : Kept (fun _ s _ => s.Stable) (fun _ body _ => StableAll body) where
  missing _ := trivial
  nil _ := trivial
  cons hs hrest := ⟨hs, hrest⟩
  object h := by
    cases h with
    | token htoken => exact token_stable htoken
    | assign target => exact Atom.stable_ofJson target
    | increment target operand =>
      exact ⟨Atom.stable_ofJson target, Atom.stable_ofJson operand⟩
    | input htargets => exact tokens_stable htargets
    | output hitems => exact tokens_stable hitems
    | call target _ _ _ hkey hargs =>
      exact ⟨Atom.stable_ofJson target, Atom.stable_ofJson _, hkey, names_stable hargs⟩
    | loop count hbody => exact ⟨Atom.stable_ofJson count, hbody⟩
    | define name hbody _ hparams _ hkey =>
      exact ⟨Atom.stable_ofJson name, hkey, names_stable hparams, hbody⟩
    | program hbody => exact hbody

/-- A call is loaded where its program is there and takes as many arguments. -/
theorem load_call_of_find? {target callee : Atom} {args : List Atom}
    (h : (Statement.call target callee args).Stable) {registry : Registry} {d : Definition}
    (hfind : registry.find? callee = some d) (hlength : args.length = d.params.length) :
    load (Statement.typed "AssignCall" [("variable", target.toJson), ("program", callee.toJson),
        ("args", Statement.namesDocument args)]) registry =
      (.ok (.call target callee args), registry) := by
  obtain ⟨htarget, hcallee, hkey, hargs⟩ := h
  have hchecked : callee.checkKey = .ok () := if_pos hkey
  have hcontains : registry.contains callee = .ok true := by
    rw [Registry.contains, hchecked, hfind]
    rfl
  have hlookup : registry.lookup callee = .ok d := by
    rw [Registry.lookup, hchecked, hfind]
    rfl
  rw [load_call htarget hcallee hargs, hcontains, hlookup]
  show Action.ofExcept (if args.length = d.params.length then _ else _) registry = _
  rw [if_pos hlength]
  rfl

mutual

/-- A stable statement that can be enrolled is what its document is loaded as. -/
theorem load_of_stable : ∀ (s : Statement) {document : Json} {registry after : Registry},
    s.Stable → s.toDocument = .ok document → s.enroll registry = some after →
      load document registry = (.ok s, after)
  | .assign _ value, _, registry, _, h, hdocument, henroll => by
    obtain ⟨_, _, hdone⟩ := result_bind_eq_ok.mp hdocument
    cases hdone
    cases henroll
    exact load_assign h value registry
  | .increment .., _, registry, _, h, hdocument, henroll => by
    obtain ⟨_, _, hdone⟩ := result_bind_eq_ok.mp hdocument
    cases hdone
    cases henroll
    exact load_increment h.1 h.2 registry
  | .call .., _, _, _, h, hdocument, henroll => by
    obtain ⟨_, _, hdone⟩ := result_bind_eq_ok.mp hdocument
    cases hdone
    obtain ⟨d, hfind, hlength, rfl⟩ := Statement.enroll_call.mp henroll
    exact load_call_of_find? h hfind hlength
  | .input _, _, registry, _, h, hdocument, henroll => by
    cases hdocument
    cases henroll
    rw [load_input fun t ht => (h t ht).1, Token.map_placeless_of_stable h]
  | .output _, _, registry, _, h, hdocument, henroll => by
    cases hdocument
    cases henroll
    rw [load_output fun t ht => (h t ht).1, Token.map_placeless_of_stable h]
  | .loop _ body, _, _, _, h, hdocument, henroll => by
    obtain ⟨_, _, hrest⟩ := result_bind_eq_ok.mp hdocument
    obtain ⟨documents, hdocuments, hdone⟩ := result_bind_eq_ok.mp hrest
    cases hdone
    rw [load_loop h.1]
    exact Action.bind_ok (loadAll_of_stable body h.2 hdocuments henroll)
  | .define name params body, _, _, _, h, hdocument, henroll => by
    obtain ⟨hname, hkey, hparams, hbody⟩ := h
    obtain ⟨_, _, hrest⟩ := result_bind_eq_ok.mp hdocument
    obtain ⟨documents, hdocuments, hdone⟩ := result_bind_eq_ok.mp hrest
    cases hdone
    obtain ⟨inner, hinner, hnew, rfl⟩ := Statement.enroll_define.mp henroll
    rw [load_define hname hparams, Action.bind_ok (loadAll_of_stable body hbody hdocuments hinner)]
    exact Action.bind_ok (Registry.define_of_new hkey hnew)
  | .missing, _, _, _, _, hdocument, henroll => by
    cases hdocument
    cases henroll
    rfl
  | .token t, _, registry, _, h, hdocument, henroll => by
    cases hdocument
    cases henroll
    rw [load_token h.1, h.2]
  | .program body, _, _, _, h, hdocument, henroll => by
    obtain ⟨documents, hdocuments, hdone⟩ := result_bind_eq_ok.mp hdocument
    cases hdone
    rw [load_program]
    exact Action.bind_ok (loadAll_of_stable body h hdocuments henroll)

theorem loadAll_of_stable : ∀ (body : List Statement) {documents : List Json}
    {registry after : Registry}, StableAll body → toDocuments body = .ok documents →
      enrollAll body registry = some after → loadAll documents registry = (.ok body, after)
  | [], _, _, _, _, hdocuments, henroll => by
    cases hdocuments
    cases henroll
    rfl
  | s :: rest, _, _, _, h, hdocuments, henroll => by
    obtain ⟨first, hfirst, hmore⟩ := result_bind_eq_ok.mp hdocuments
    obtain ⟨documents, hrest, hdone⟩ := result_bind_eq_ok.mp hmore
    cases hdone
    obtain ⟨next, hs, henrollRest⟩ := Statement.enrollAll_cons.mp henroll
    rw [loadAll, Action.bind_ok (load_of_stable s h.1 hfirst hs)]
    exact Action.bind_ok (loadAll_of_stable rest h.2 hrest henrollRest)

end

end Document

/-- What is loaded from any document, and can be written, is loaded again from what it is written
as, with the same programs; and it is then written in the same way. -/
theorem document_reloads {value document : Json} {registry after : Registry} {s : Statement}
    (hload : Document.load value registry = (.ok s, after))
    (hdocument : s.toDocument = .ok document) :
    Document.load document registry = (.ok s, after) ∧
      ((Document.load document registry).1 >>= Statement.toDocument) = .ok document := by
  have hstable : s.Stable := Document.stable_kept.load value hload
  have hagain : Document.load document registry = (.ok s, after) :=
    Document.load_of_stable s hstable hdocument (Document.load_enrolls value hload)
  refine ⟨hagain, ?_⟩
  rw [hagain]
  exact hdocument

/-- The parameters are a text, the body of the definition is an object, the number is a truth value
and a variable is a number. -/
theorem document_reloads_lenient :
    Document.load
        (.obj [("note", .null), ("body", .arr
          [.obj [("type", .str "Definition"), ("name", .str "P"), ("params", .str "ab"),
            ("body", .obj [])],
          .obj [("number", .bool true), ("type", .str "AssignNumber"), ("variable", .int 3)],
          .obj [("type", .str "AssignCall"), ("variable", .bool true), ("program", .str "P"),
            ("args", .arr [.null, .arr []])], .null]), ("type", .str "Program")]) [] =
      (.ok (.program
        [.define (.text "P") [.text "a", .text "b"] [], .assign (.other (.int 3)) 1,
          .call (.other (.bool true)) (.text "P") [.absent, .other (.arr [])], .missing]),
        [⟨.text "P", [.text "a", .text "b"], []⟩]) ∧
    Document.load
        (.obj [("type", .str "Program"), ("body", .arr
          [.obj [("type", .str "Definition"), ("name", .str "P"),
            ("params", .arr [.str "a", .str "b"]), ("body", .arr [])],
          .obj [("type", .str "AssignNumber"), ("variable", .int 3), ("number", .int 1)],
          .obj [("type", .str "AssignCall"), ("variable", .bool true), ("program", .str "P"),
            ("args", .arr [.null, .arr []])], .null])]) [] =
      (.ok (.program
        [.define (.text "P") [.text "a", .text "b"] [], .assign (.other (.int 3)) 1,
          .call (.other (.bool true)) (.text "P") [.absent, .other (.arr [])], .missing]),
        [⟨.text "P", [.text "a", .text "b"], []⟩]) := by
  have hload : Document.load
      (.obj [("note", .null), ("body", .arr
        [.obj [("type", .str "Definition"), ("name", .str "P"), ("params", .str "ab"),
          ("body", .obj [])],
        .obj [("number", .bool true), ("type", .str "AssignNumber"), ("variable", .int 3)],
        .obj [("type", .str "AssignCall"), ("variable", .bool true), ("program", .str "P"),
          ("args", .arr [.null, .arr []])], .null]), ("type", .str "Program")]) [] =
    (.ok (.program
      [.define (.text "P") [.text "a", .text "b"] [], .assign (.other (.int 3)) 1,
        .call (.other (.bool true)) (.text "P") [.absent, .other (.arr [])], .missing]),
      [⟨.text "P", [.text "a", .text "b"], []⟩]) := by
    cbv
  exact ⟨hload, (document_reloads hload rfl).1⟩

end LoopLanguage
