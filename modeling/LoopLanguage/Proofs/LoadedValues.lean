import LoopLanguage.Proofs.Upkeep
import LoopLanguage.Proofs.WellFormed

/-!
What a document guarantees of a program. Loading checks calls and the names of programs, but takes
literals and parameters as they stand in the document: the loaded program has the literals and the
parameter lists of the document, in the same order. So it has no negative literal and no repeated
parameter exactly if the document has none. A run stores no value below all literals and zero, and
none below zero if the literals are not.
-/

namespace LoopLanguage

namespace Statement

def literal? : Statement → Option Int
  | assign _ value => some value
  | _ => none

def params? : Statement → Option (List Atom)
  | define _ params _ => some params
  | _ => none

theorem mem_literals {ts : List Statement} {value : Int} :
    value ∈ ts.filterMap literal? ↔ ∃ target, assign target value ∈ ts := by
  rw [List.mem_filterMap]
  constructor
  · rintro ⟨s, hs, hshown⟩
    cases s with
    | assign target found =>
      cases hshown
      exact ⟨target, hs⟩
    | _ => cases hshown
  · rintro ⟨target, hs⟩
    exact ⟨_, hs, rfl⟩

theorem mem_paramLists {ts : List Statement} {params : List Atom} :
    params ∈ ts.filterMap params? ↔ ∃ name body, define name params body ∈ ts := by
  rw [List.mem_filterMap]
  constructor
  · rintro ⟨s, hs, hshown⟩
    cases s with
    | define name found body =>
      cases hshown
      exact ⟨name, body, hs⟩
    | _ => cases hshown
  · rintro ⟨name, body, hs⟩
    exact ⟨_, hs, rfl⟩

end Statement

namespace Document

/-- The type that an object names. -/
def type? (fields : List (String × Json)) : Option String :=
  (Json.field? fields "type").bind Json.text?

/-- Objects of these types are loaded with the statements under their field `body`. -/
def hasBody (fields : List (String × Json)) : Bool :=
  type? fields ∈ [some "Program", some "Loop", some "Definition"]

mutual

/-- The objects that are loaded as statements, those in a body before the one around them. -/
def nodes : Json → List (List (String × Json))
  | .obj fields =>
    if isToken fields then [] else (if hasBody fields then bodyNodes fields else []) ++ [fields]
  | _ => []

def bodyNodes : List (String × Json) → List (List (String × Json))
  | [] => []
  | (key, value) :: fields => if key = "body" then itemNodes value else bodyNodes fields

def itemNodes : Json → List (List (String × Json))
  | .arr values => nodesAll values
  | _ => []

def nodesAll : List Json → List (List (String × Json))
  | [] => []
  | value :: values => nodes value ++ nodesAll values

end

/-- The number that an assignment has in a document. -/
def literal? (fields : List (String × Json)) : Option Int :=
  if type? fields = some "AssignNumber" then
    (field fields "number" >>= wholeNumber).toOption
  else none

/-- The parameters that a definition has in a document. -/
def params? (fields : List (String × Json)) : Option (List Atom) :=
  if type? fields = some "Definition" then (field fields "params" >>= names).toOption else none

/-- All numbers that are assigned in a document. -/
def literals (document : Json) : List Int := (nodes document).filterMap literal?

/-- The parameter lists of all definitions in a document. -/
def paramLists (document : Json) : List (List Atom) := (nodes document).filterMap params?

theorem call_form {registry : Registry} {fields : List (String × Json)} {s : Statement}
    (h : call registry fields = .ok s) : ∃ target callee args, s = .call target callee args := by
  obtain ⟨_, _, h⟩ := result_bind_eq_ok.mp h
  obtain ⟨_, _, h⟩ := result_bind_eq_ok.mp h
  obtain ⟨_, _, h⟩ := result_bind_eq_ok.mp h
  obtain ⟨_, _, h⟩ := result_bind_eq_ok.mp h
  split at h
  · obtain ⟨_, _, h⟩ := result_bind_eq_ok.mp h
    split at h
    · obtain ⟨_, _, h⟩ := result_bind_eq_ok.mp h
      cases h
      exact ⟨_, _, _, rfl⟩
    · cases h
  · cases h

/-- What a statement without a body has from its object. -/
theorem plain_heads {registry : Registry} {type : Json} {fields : List (String × Json)}
    {s : Statement} (htype : type? fields = type.text?) (h : plain registry type fields = .ok s) :
    s.literal? = literal? fields ∧ s.params? = params? fields ∧ hasBody fields = false ∧
      s.nodes = [s] := by
  unfold literal? params? hasBody
  rw [htype]
  unfold plain at h
  split at h
  · obtain ⟨target, _, h⟩ := result_bind_eq_ok.mp h
    obtain ⟨number, hnumber, h⟩ := result_bind_eq_ok.mp h
    obtain ⟨value, hvalue, h⟩ := result_bind_eq_ok.mp h
    cases h
    have hread : (field fields "number" >>= wholeNumber) = .ok value :=
      result_bind_eq_ok.mpr ⟨number, hnumber, hvalue⟩
    rw [hread]
    exact ⟨rfl, rfl, rfl, rfl⟩
  · obtain ⟨target, _, h⟩ := result_bind_eq_ok.mp h
    obtain ⟨operand, _, h⟩ := result_bind_eq_ok.mp h
    cases h
    exact ⟨rfl, rfl, rfl, rfl⟩
  · obtain ⟨target, callee, args, rfl⟩ := call_form h
    exact ⟨rfl, rfl, rfl, rfl⟩
  · obtain ⟨_, _, h⟩ := result_bind_eq_ok.mp h
    obtain ⟨_, _, h⟩ := result_bind_eq_ok.mp h
    cases h
    exact ⟨rfl, rfl, rfl, rfl⟩
  · obtain ⟨_, _, h⟩ := result_bind_eq_ok.mp h
    obtain ⟨_, _, h⟩ := result_bind_eq_ok.mp h
    cases h
    exact ⟨rfl, rfl, rfl, rfl⟩
  · cases h

/-- What a statement has from its object: its number, its parameters, and whether there are
statements inside it. -/
theorem load_heads {fields : List (String × Json)} {registry after : Registry} {s : Statement}
    (htoken : isToken fields = false) (h : load (.obj fields) registry = (.ok s, after)) :
    s.literal? = literal? fields ∧ s.params? = params? fields ∧
      ((hasBody fields = true ∧ ∃ body inner, loadBody fields registry = (.ok body, inner) ∧
          s.nodes = Statement.nodesAll body ++ [s]) ∨
        hasBody fields = false ∧ s.nodes = [s]) := by
  obtain ⟨act, hact, hrun⟩ : ∃ act, load (.obj fields) = act ∧ act registry = (.ok s, after) :=
    ⟨_, rfl, h⟩
  rw [load, htoken] at hact
  have htype {type : Json} (hfield : Json.field? fields "type" = some type) :
      type? fields = type.text? := by
    rw [type?, hfield]
    rfl
  split at hact
  · contradiction
  split at hact
  · next hfield =>
    subst hact
    obtain ⟨body, inner, hbody, hs⟩ := Action.bind_eq_ok_iff.mp hrun
    cases hs
    unfold literal? params? hasBody
    rw [htype hfield]
    exact ⟨rfl, rfl, .inl ⟨rfl, body, _, hbody, rfl⟩⟩
  · next hfield =>
    subst hact
    obtain ⟨count, _, hloop⟩ := Action.ofExcept_bind_eq_ok_iff.mp hrun
    obtain ⟨body, inner, hbody, hs⟩ := Action.bind_eq_ok_iff.mp hloop
    cases hs
    unfold literal? params? hasBody
    rw [htype hfield]
    exact ⟨rfl, rfl, .inl ⟨rfl, body, _, hbody, rfl⟩⟩
  · next hfield =>
    subst hact
    obtain ⟨body, inner, hbody, hrest⟩ := Action.bind_eq_ok_iff.mp hrun
    obtain ⟨name, _, hnamed⟩ := Action.ofExcept_bind_eq_ok_iff.mp hrest
    obtain ⟨params, hparams, hdefined⟩ := Action.ofExcept_bind_eq_ok_iff.mp hnamed
    obtain ⟨_, last, _, hs⟩ := Action.bind_eq_ok_iff.mp hdefined
    cases hs
    unfold literal? params? hasBody
    rw [htype hfield, hparams]
    exact ⟨rfl, rfl, .inl ⟨rfl, body, inner, hbody, rfl⟩⟩
  · next type _ _ _ =>
    subst hact
    obtain ⟨hs, _⟩ := Action.ofExcept_eq_ok_iff.mp hrun
    cases hfield : Json.field? fields "type" with
    | none =>
      rw [hfield] at hs
      cases hs
    | some type =>
      rw [hfield] at hs
      obtain ⟨hliteral, hparams, hbody, hnodes⟩ := plain_heads (htype hfield) hs
      exact ⟨hliteral, hparams, .inr ⟨hbody, hnodes⟩⟩

/-- What `v` shows of a statement, `w` shows of the object that it is loaded from. -/
structure View {β : Type} (v : Statement → Option β) (w : List (String × Json) → Option β) :
    Prop where
  missing : v .missing = none
  token (t : Token) : v (.token t) = none
  object {fields : List (String × Json)} {registry after : Registry} {s : Statement} :
    isToken fields = false → load (.obj fields) registry = (.ok s, after) → v s = w fields

section View

variable {β : Type} {v : Statement → Option β} {w : List (String × Json) → Option β}

mutual

/-- A loaded statement shows at all depths what the document shows. -/
theorem load_view (view : View v w) : ∀ (document : Json) {registry after : Registry}
    {s : Statement}, load document registry = (.ok s, after) →
      s.nodes.filterMap v = (nodes document).filterMap w
  | .null, _, _, _, h => by
    cases h
    simp [Statement.nodes, nodes, view.missing]
  | .obj fields, registry, after, s, h => by
    cases htoken : isToken fields with
    | true =>
      obtain ⟨t, rfl⟩ : ∃ t, s = .token t := by
        rw [load, if_pos htoken] at h
        obtain ⟨hs, _⟩ := Action.ofExcept_eq_ok_iff.mp h
        obtain ⟨_, _, hs⟩ := result_bind_eq_ok.mp hs
        obtain ⟨t, _, hs⟩ := result_bind_eq_ok.mp hs
        cases hs
        exact ⟨t, rfl⟩
      simp [Statement.nodes, nodes, htoken, view.token]
    | false =>
      have hhead := view.object htoken h
      obtain ⟨_, _, ⟨hbody, body, inner, hload, hnodes⟩ | ⟨hbody, hnodes⟩⟩ := load_heads htoken h
      · have hinside := loadBody_view view fields hload
        simp [hnodes, nodes, htoken, hbody, hinside, hhead, List.filterMap_cons]
      · simp [hnodes, nodes, htoken, hbody, hhead, List.filterMap_cons]
  | .bool _, _, _, _, h | .int _, _, _, _, h | .real _, _, _, _, h | .str _, _, _, _, h
  | .arr _, _, _, _, h => by cases h

theorem loadBody_view (view : View v w) : ∀ (fields : List (String × Json))
    {registry after : Registry} {body : List Statement},
    loadBody fields registry = (.ok body, after) →
      (Statement.nodesAll body).filterMap v = (bodyNodes fields).filterMap w
  | [], _, _, _, h => by cases h
  | (key, value) :: fields, _, _, _, h => by
    unfold loadBody at h
    unfold bodyNodes
    split at h
    · next hkey =>
      rw [if_pos hkey]
      exact loadItems_view view value h
    · next hkey =>
      rw [if_neg hkey]
      exact loadBody_view view fields h

theorem loadItems_view (view : View v w) : ∀ (value : Json) {registry after : Registry}
    {body : List Statement}, loadItems value registry = (.ok body, after) →
      (Statement.nodesAll body).filterMap v = (itemNodes value).filterMap w
  | .arr values, _, _, _, h => loadAll_view view values h
  | .str s, _, _, _, h => by
    unfold loadItems at h
    split at h <;> cases h
    rfl
  | .obj fields, _, _, _, h => by
    unfold loadItems at h
    split at h <;> cases h
    rfl
  | .null, _, _, _, h | .bool _, _, _, _, h | .int _, _, _, _, h | .real _, _, _, _, h => by cases h

theorem loadAll_view (view : View v w) : ∀ (values : List Json) {registry after : Registry}
    {body : List Statement}, loadAll values registry = (.ok body, after) →
      (Statement.nodesAll body).filterMap v = (nodesAll values).filterMap w
  | [], _, _, _, h => by
    cases h
    rfl
  | value :: values, _, _, _, h => by
    obtain ⟨first, next, hfirst, h⟩ := Action.bind_eq_ok_iff.mp h
    obtain ⟨rest, last, hrest, h⟩ := Action.bind_eq_ok_iff.mp h
    cases h
    rw [Statement.nodesAll, nodesAll, List.filterMap_append, List.filterMap_append,
      load_view view value hfirst, loadAll_view view values hrest]

end

end View

section Program

variable {document : Json} {body : List Statement} {registry after : Registry}

theorem literals_of_load (h : load document registry = (.ok (.program body), after)) :
    (Statement.nodesAll body).filterMap Statement.literal? = literals document := by
  have hview : View Statement.literal? literal? :=
    ⟨rfl, fun _ => rfl, fun htoken h => (load_heads htoken h).1⟩
  have hnodes := load_view hview document h
  rw [Statement.nodes, List.filterMap_append] at hnodes
  exact (List.append_nil _).symm.trans hnodes

theorem paramLists_of_load (h : load document registry = (.ok (.program body), after)) :
    (Statement.nodesAll body).filterMap Statement.params? = paramLists document := by
  have hview : View Statement.params? params? :=
    ⟨rfl, fun _ => rfl, fun htoken h => (load_heads htoken h).2.1⟩
  have hnodes := load_view hview document h
  rw [Statement.nodes, List.filterMap_append] at hnodes
  exact (List.append_nil _).symm.trans hnodes

end Program

end Document

/-! ### Values -/

namespace Statement

theorem nodesAll_eq_flatMap (body : List Statement) : nodesAll body = body.flatMap nodes := by
  induction body with
  | nil => rfl
  | cons s rest ih => rw [nodesAll, ih, List.flatMap_cons]

theorem subset_of_block {s t : Statement} {body : List Statement}
    (hnodes : s.nodes = nodesAll body ++ [s])
    (hbody : t ∈ nodesAll body → t.nodes ⊆ nodesAll body) (ht : t ∈ s.nodes) :
    t.nodes ⊆ s.nodes := by
  rw [hnodes] at ht
  rcases List.mem_append.mp ht with ht | ht
  · rw [hnodes]
    exact fun u hu => List.mem_append_left _ (hbody ht hu)
  · rw [List.mem_singleton.mp ht]
    exact fun _ hu => hu

mutual

/-- What stands inside a statement that stands inside another one, stands inside that one. -/
theorem nodes_subset : ∀ (s : Statement) {t : Statement}, t ∈ s.nodes → t.nodes ⊆ s.nodes
  | .loop _ body, _, ht => subset_of_block (by rw [nodes]) (nodesAll_subset body) ht
  | .define _ _ body, _, ht => subset_of_block (by rw [nodes]) (nodesAll_subset body) ht
  | .program body, _, ht => subset_of_block (by rw [nodes]) (nodesAll_subset body) ht
  | .assign .., t, ht | .increment .., t, ht | .call .., t, ht | .input _, t, ht | .output _, t, ht
  | .missing, t, ht | .token _, t, ht => by
    obtain rfl := List.mem_singleton.mp ht
    exact fun _ hu => hu

theorem nodesAll_subset : ∀ (body : List Statement) {t : Statement}, t ∈ nodesAll body →
    t.nodes ⊆ nodesAll body
  | [], _, ht => by simp [nodesAll] at ht
  | s :: rest, _, ht => by
    rw [nodesAll] at ht ⊢
    rcases List.mem_append.mp ht with ht | ht
    · exact fun u hu => List.mem_append_left _ (nodes_subset s ht hu)
    · exact fun u hu => List.mem_append_right _ (nodesAll_subset rest ht hu)

end

/-- All literals among the statements are at least `floor`. -/
def Above (floor : Int) (ts : List Statement) : Prop := ∀ n ∈ ts.filterMap literal?, floor ≤ n

theorem Above.mono {floor : Int} {ts us : List Statement} (h : Above floor us) (hsub : ts ⊆ us) :
    Above floor ts := by
  intro n hn
  obtain ⟨t, ht, hliteral⟩ := List.mem_filterMap.mp hn
  exact h n (List.mem_filterMap.mpr ⟨t, hsub ht, hliteral⟩)

end Statement

open Statement (Above)

namespace Machine

variable {floor : Int}

/-- Values do not fall below zero and the literals. -/
theorem above_upkeep (hfloor : floor ≤ 0) :
    Upkeep (floor ≤ ·) (fun s => Above floor s.nodes)
      (fun d => Above floor (Statement.nodesAll d.body)) where
  zero := hfloor
  read _ := by omega
  assign h := h _ (by simp [Statement.nodes, Statement.literal?])
  loop {count body} h s hs := by
    refine h.mono fun t ht => ?_
    rw [Statement.nodes, Statement.nodesAll_eq_flatMap]
    exact List.mem_append_left _ (List.mem_flatMap.mpr ⟨s, hs, ht⟩)
  define h := h.mono (by rw [Statement.nodes]; exact List.subset_append_left _ _)
  body {d} h s hs := by
    refine h.mono fun t ht => ?_
    rw [Statement.nodesAll_eq_flatMap]
    exact List.mem_flatMap.mpr ⟨s, hs, ht⟩

/-- A run starts above zero and the literals. -/
theorem above_start {body : List Statement} {registry : Registry}
    (henroll : Statement.enrollAll body [] = some registry)
    (h : Above floor (Statement.nodesAll body)) (input : String) :
    Point.Within (floor ≤ ·) (fun s => Above floor s.nodes)
      (fun d => Above floor (Statement.nodesAll d.body))
      ⟨start registry input, body.map .perform⟩ := by
  constructor
  · refine ⟨Store.holds_nil, fun d hd => ?_⟩
    have hregistry := Statement.enrollAll_eq_nodes body henroll
    change d ∈ registry at hd
    rw [hregistry, List.nil_append] at hd
    obtain ⟨t, ht, hdefinition⟩ := List.mem_filterMap.mp hd
    cases t with
    | define name params inner =>
      cases hdefinition
      have hsub := Statement.nodesAll_subset body ht
      rw [Statement.nodes] at hsub
      exact h.mono fun u hu => hsub (List.mem_append_left _ hu)
    | _ => cases hdefinition
  · refine performs_within fun s hs => h.mono fun t ht => ?_
    rw [Statement.nodesAll_eq_flatMap]
    exact List.mem_flatMap.mpr ⟨s, hs, ht⟩

end Machine

/-- The definitions of a loaded program have distinct parameters exactly if those of the document
have, and its literals are from zero up exactly if those of the document are. At no point of a run,
also not after a failure, does a variable hold a value below zero and all these literals. The points
are those of the run: it takes them to its end, or to the step with whose error it ends. -/
theorem loaded_invariants {document : Json} {body : List Statement} {registry : Registry}
    (h : Document.load document [] = (.ok (.program body), registry)) :
    ((∀ name params inner, .define name params inner ∈ Statement.nodesAll body →
        (params.map Atom.key).Nodup) ↔
      ∀ params ∈ Document.paramLists document, (params.map Atom.key).Nodup) ∧
    ((∀ target value, .assign target value ∈ Statement.nodesAll body → 0 ≤ value) ↔
      ∀ n ∈ Document.literals document, 0 ≤ n) ∧
    ∀ tracing input,
      (∃ r after, Machine.run tracing body (Machine.start registry input) = (r, after) ∧
        ((∃ value, r = .ok value ∧ Machine.Trail tracing
            ⟨Machine.start registry input, body.map .perform⟩ ⟨after, []⟩) ∨
          ∃ e, r = .error e ∧ Machine.Stumbles tracing
            ⟨Machine.start registry input, body.map .perform⟩ [] e after)) ∧
      ∀ floor : Int, floor ≤ 0 → (∀ n ∈ Document.literals document, floor ≤ n) →
        ∀ p, Machine.Trail tracing ⟨Machine.start registry input, body.map .perform⟩ p →
          (∀ store ∈ p.scopes, ∀ name value, store.get? name = some value → floor ≤ value) ∧
          ∀ e final, Machine.Breaks tracing p e final →
            ∀ name value, final.store.get? name = some value → floor ≤ value := by
  have hliterals := Document.literals_of_load h
  have hparams := Document.paramLists_of_load h
  have henroll : Statement.enrollAll body [] = some registry := Document.load_enrolls _ h
  refine ⟨?_, ?_, fun tracing input => ⟨?_, ?_⟩⟩
  · simp only [← hparams, Statement.mem_paramLists]
    exact ⟨fun hdistinct params ⟨name, inner, hs⟩ => hdistinct name params inner hs,
      fun hdistinct name params inner hs => hdistinct params ⟨name, inner, hs⟩⟩
  · simp only [← hliterals, Statement.mem_literals]
    exact ⟨fun hpos value ⟨target, hs⟩ => hpos target value hs,
      fun hpos target value hs => hpos value ⟨target, hs⟩⟩
  · obtain ⟨hlayered, hlinked⟩ := Statement.enrollAll_linked body .nil henroll
    have hsettled := (@Machine.run_steady tracing _ body hlayered hlinked
      (Machine.start registry input) rfl).2.1
    exact ⟨_, _, rfl, Machine.run_trail rfl hsettled⟩
  · intro floor hfloor habove p htrail
    have hupkeep := Machine.above_upkeep hfloor
    have hsucc : ∀ value : Int, floor ≤ value → floor ≤ value + 1 := fun value hvalue => by omega
    have hstart := Machine.above_start henroll (fun n hn => habove n (hliterals ▸ hn)) input
    have hp := hupkeep.trail hsucc hstart htrail
    exact ⟨hp.scopes, fun e final hbreak => (hupkeep.breaks hsucc hp hbreak).store⟩

/-- A document with a negative literal in a loop. -/
def Document.lowering : Json :=
  .obj [("type", .str "Program"), ("body", .arr [
    .obj [("type", .str "AssignNumber"), ("variable", .str "n"), ("number", .bool true)],
    .obj [("type", .str "Loop"), ("variable", .str "n"), ("body", .arr [
      .obj [("type", .str "AssignNumber"), ("variable", .str "x"), ("number", .int (-3))]])]])]

theorem loaded_invariants_lowering :
    Document.load Document.lowering [] =
        (.ok (.program [.assign (.text "n") 1, .loop (.text "n") [.assign (.text "x") (-3)]]), []) ∧
      ∀ p, Machine.Trail ⟨0, false⟩ ⟨Machine.start [] "",
          [.perform (.assign (.text "n") 1),
            .perform (.loop (.text "n") [.assign (.text "x") (-3)])]⟩ p →
        ∀ store ∈ p.scopes, ∀ name value, store.get? name = some value → -3 ≤ value := by
  have h : Document.load Document.lowering [] =
      (.ok (.program [.assign (.text "n") 1, .loop (.text "n") [.assign (.text "x") (-3)]]), []) :=
    rfl
  have hliterals : Document.literals Document.lowering = [1, -3] := by rfl
  refine ⟨h, fun p htrail => ?_⟩
  obtain ⟨_, hfloor⟩ := (loaded_invariants h).2.2 ⟨0, false⟩ ""
  exact (hfloor (-3) (by decide) (by rw [hliterals]; decide) p htrail).1

/-- A document with a negative literal is loaded, and the literal is stored; one with a parameter
that stands twice in a definition is loaded as well. -/
theorem loaded_negative_stored :
    Document.load (.obj [("type", .str "Program"), ("body", .arr [
        .obj [("type", .str "AssignNumber"), ("variable", .str "x"), ("number", .int (-1))]])]) [] =
        (.ok (.program [.assign (.text "x") (-1)]), []) ∧
      (Machine.run ⟨0, false⟩ [.assign (.text "x") (-1)] (Machine.start [] "")).2.store.get?
        (.text "x") = some (-1) ∧
      Document.load (.obj [("type", .str "Program"), ("body", .arr [
        .obj [("type", .str "Definition"), ("name", .str "P"),
          ("params", .arr [.str "a", .str "a"]), ("body", .arr [])]])]) [] =
        (.ok (.program [.define (.text "P") [.text "a", .text "a"] []]),
          [⟨.text "P", [.text "a", .text "a"], []⟩]) :=
  ⟨rfl, by decide +kernel, rfl⟩

end LoopLanguage
