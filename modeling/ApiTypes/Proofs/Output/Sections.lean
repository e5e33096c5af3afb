/-
# Sections and their module

The sections of a document are written twice: each by itself, and all of them in the module of
types.  There the sections of paths, webhooks and components stand as they are, and an operation is
a member of one record, so that its lines are one level deeper than in its section.

* `Output.moduleOf` makes the module out of texts of the sections.
* `Output.renderMember_operation`: an operation has the lines of its section.
* `Output.typesModule_eq`: the module is made out of the texts that the sections have.
* `Output.levels_indent` says both of levels in general and of what is put out.
* `Output.not_levels_indent_picked`: a line feed in the name of a group that is picked from is no
  text of a pattern, and still it breaks a line.
-/
import ApiTypes.Output.Basic
import ApiTypes.Proofs.Document.Building
import ApiTypes.Proofs.Document.Registry
import ApiTypes.Proofs.Output.Groups
import ApiTypes.Proofs.TypeExpr.Indentation
import ApiTypes.Proofs.Typing.Outcome

namespace ApiTypes

open TypeExpr

namespace Output

/-! ## 1. The module out of its sections -/

/-- Whether a type is declared as an interface where the style asks for it. -/
def isOpen : TypeExpr → Bool
  | .record r => !r.isEmpty
  | _ => false

/-- The declaration of a name by the text of its type. -/
def declared (style : ExportStyle) (asInterface : Bool) (name text : String) : String :=
  if style = .interface ∧ asInterface then "export interface " ++ name ++ " " ++ text ++ "\n\n"
  else "export type " ++ name ++ " = " ++ text ++ ";\n\n"

/-- The comment of an operation, if it has something to say. -/
def operationComment (o : TypedOperation) : String :=
  match o.doc with
  | some text => if Text.trim text = "" then "" else renderDoc text 1
  | none => ""

/-- The lines of an operation in the record of operations: the text of its section, one level
deeper. -/
def operationLines (config : Config) (o : TypedOperation) (text : String) : String :=
  operationComment o ++ margin 1 ++ (if config.immutableTypes then "readonly " else "")
    ++ Naming.propertyKey o.name ++ ": " ++ indented 1 text ++ ";\n"

/-- The record of operations, given the texts of their sections. -/
def operationsText (config : Config) (text : Section → String) (os : List TypedOperation) :
    String :=
  if os = [] then "Record<string, never>"
  else
    "\x7b\n" ++ String.join (os.map fun o => operationLines config o (text (.operation o.name)))
      ++ "\x7d"

/-- The module of types, given the texts of the sections. -/
def moduleOf (config : Config) (t : TypedDocument) (text : Section → String) : String :=
  let os := shownOperations config t.operations
  banner ++ "\nexport type WithHeaders<Content, Headers> = Content;\n\n"
    ++ declared config.exportStyle (isOpen t.paths) "paths" (text .paths)
    ++ declared config.exportStyle (isOpen t.webhooks) "webhooks" (text .webhooks)
    ++ declared config.exportStyle (isOpen t.components) "components" (text .components)
    ++ "export type external = Record<string, never>;\n\n"
    ++ declared config.exportStyle (!os.isEmpty) "operations" (operationsText config text os)

/-- The sections of a typed document. -/
def sectionsOf (config : Config) (t : TypedDocument) : List Section :=
  [.paths, .webhooks, .components]
    ++ (shownOperations config t.operations).map fun o => .operation o.name

/-- The text of a section. -/
def sectionText (out : Output) (s : Section) : String := (out.sections.lookup s).getD ""

/-! ## 2. Declarations -/

variable {config : Config} {t : TypedDocument}

theorem declaration_eq (style : ExportStyle) (name : String) (e : TypeExpr) :
    declaration style name e = declared style (isOpen e) name e.render := by
  cases style with
  | type => simp [declaration, declared]
  | interface =>
    cases e with
    | record r =>
      have htext : (record r).render = renderRecord 0 r := rfl
      unfold declaration declared isOpen
      cases hempty : r.isEmpty
      · simp [hempty, htext]
      · simp [hempty]
    | primitive | literal | reference | operation | list | union | intersection | pick
    | withHeaders | never | unknown | void => rfl

/-- **An operation has the lines of its section, one level deeper.** -/
theorem renderMember_operation {o : TypedOperation} (h : Obeys Unbroken o.type) :
    renderMember 0 (.of o.name o.type false config.immutableTypes o.doc)
      = operationLines config o o.type.render := by
  have hdeeper : renderAt 1 o.type = indented 1 o.type.render := renderAt_add 1 o.type 0 h
  unfold operationLines operationComment Member.of
  rw [← hdeeper]
  cases o.doc with
  | none =>
    rw [renderMember, renderKey]
    simp [String.append_assoc]
  | some text =>
    rw [renderMember, renderKey]
    simp [String.append_assoc]

theorem renderMembers_eq_join (level : Nat) (ms : List (Member TypeExpr)) :
    renderMembers level ms = String.join (ms.map (renderMember level)) := by
  induction ms with
  | nil => rfl
  | cons m ms ih => rw [renderMembers, ih, List.map_cons, String.join_cons]

theorem render_operationsRecord {text : Section → String}
    (h : ∀ o ∈ shownOperations config t.operations,
      Obeys Unbroken o.type ∧ text (.operation o.name) = o.type.render) :
    (operationsRecord config t.operations).render
      = operationsText config text (shownOperations config t.operations) := by
  unfold operationsRecord operationsText
  generalize shownOperations config t.operations = os at h
  show renderRecord 0 _ = _
  rw [renderRecord]
  cases os with
  | nil => rfl
  | cons o os =>
    have hlines : (o :: os).map (renderMember 0 ∘ fun o =>
          .of o.name o.type false config.immutableTypes o.doc)
        = (o :: os).map fun o => operationLines config o (text (.operation o.name)) := by
      refine List.map_congr_left fun o ho => ?_
      rw [(h o ho).2, Function.comp_apply, renderMember_operation (h o ho).1]
    rw [renderMembers_eq_join, List.map_map, hlines, renderCatchAll, if_neg (List.cons_ne_nil _ _)]
    simp [margin]

/-! ## 3. Sections -/

theorem perm_shownOperations (config : Config) (os : Registry) :
    (shownOperations config os).Perm os := by
  have hperm := (ordered_perm config.alphabetize (os.map fun o => (o.name, o))).map Prod.snd
  rwa [List.map_map, List.map_id''] at hperm
  exact fun _ => rfl

theorem nodup_sectionsOf (h : (t.operations.map (·.name)).Nodup) : (sectionsOf config t).Nodup := by
  have hnames : ((shownOperations config t.operations).map (·.name)).Nodup :=
    ((perm_shownOperations config t.operations).map _).nodup_iff.mpr h
  have hoperations : ((shownOperations config t.operations).map
      fun o => Section.operation o.name).Nodup := by
    have hmap := hnames.map (f := Section.operation) fun a b hab => Section.operation.inj hab
    rwa [List.map_map] at hmap
  simp [sectionsOf, hoperations]

theorem map_fst_sectionTexts : (sectionTexts config t).map Prod.fst = sectionsOf config t := by
  simp [sectionTexts, sectionsOf]

/-- **The texts of the sections are found under their names.** -/
theorem lookup_sectionTexts (h : (t.operations.map (·.name)).Nodup) {s : Section} {text : String}
    (hmem : (s, text) ∈ sectionTexts config t) : (sectionTexts config t).lookup s = some text := by
  refine Catalog.lookup_of_mem ?_ hmem
  rw [map_fst_sectionTexts]
  exact nodup_sectionsOf h

theorem sectionText_of_mem (h : (t.operations.map (·.name)).Nodup) {out : Output}
    (hout : out.sections = sectionTexts config t) {s : Section} {text : String}
    (hmem : (s, text) ∈ sectionTexts config t) : out.sectionText s = text := by
  rw [sectionText, hout, lookup_sectionTexts h hmem, Option.getD_some]

theorem declared_inj {style : ExportStyle} {asInterface : Bool} {name text text' : String} :
    declared style asInterface name text = declared style asInterface name text' ↔
      text = text' := by
  unfold declared
  split <;> simp only [String.append_left_inj, String.append_right_inj]

/-- **The module repeats the sections** of paths, webhooks and components as they are, so that it is
made out of the sections just if the operations are. -/
theorem typesModule_eq_iff (h : (t.operations.map (·.name)).Nodup) {out : Output}
    (hout : out.sections = sectionTexts config t) :
    typesModule config t = moduleOf config t out.sectionText ↔
      (operationsRecord config t.operations).render
        = operationsText config out.sectionText (shownOperations config t.operations) := by
  have htext : ∀ {s : Section} {text : String}, (s, text) ∈ sectionTexts config t →
      out.sectionText s = text := sectionText_of_mem h hout
  have hpaths : out.sectionText .paths = t.paths.render := htext (by simp [sectionTexts])
  have hwebhooks : out.sectionText .webhooks = t.webhooks.render := htext (by simp [sectionTexts])
  have hcomponents : out.sectionText .components = t.components.render :=
    htext (by simp [sectionTexts])
  have hopen : isOpen (operationsRecord config t.operations)
      = !(shownOperations config t.operations).isEmpty := by
    simp [operationsRecord, isOpen, closed, Record.isEmpty]
  unfold typesModule moduleOf
  simp only [declaration_eq, hpaths, hwebhooks, hcomponents, hopen]
  rw [String.append_right_inj, declared_inj]

/-- Operations whose words have one line each are repeated one level deeper. -/
theorem typesModule_eq (h : (t.operations.map (·.name)).Nodup)
    (hwords : ∀ o ∈ t.operations, Obeys Unbroken o.type) {out : Output}
    (hout : out.sections = sectionTexts config t) :
    typesModule config t = moduleOf config t out.sectionText := by
  refine (typesModule_eq_iff h hout).mpr (render_operationsRecord fun o ho => ⟨?_, ?_⟩)
  · exact hwords o ((perm_shownOperations config t.operations).mem_iff.mp ho)
  · exact sectionText_of_mem h hout (List.mem_append_right _ (List.mem_map.mpr ⟨o, ho, rfl⟩))

/-! ## 4. What is put out -/

theorem moduleText_of_files {out : Output} {spec : Spec} (h : out.files = filesOf config spec t) :
    out.moduleText = typesModule config t := by
  rw [moduleText, h, filesOf, List.lookup_cons_self, Option.getD_some]

/-- **A level does nothing but indent**, and what is put out twice is the same but for a level: if
the words in the operations of a document have one line each, the module is made out of the texts
of the sections, of which each has one. -/
theorem levels_indent :
    (∀ (e : TypeExpr) (level : Nat), Obeys Unbroken e →
      renderAt level e = indented level (renderAt 0 e)) ∧
    ∀ (d : Document) (config : Config) (t : TypedDocument), d.typed config = .ok t →
      (∀ o ∈ t.operations, Obeys Unbroken o.type) →
      ∃ out, d.output config = .ok out ∧ out.sections.map Prod.fst = sectionsOf config t ∧
        (sectionsOf config t).Nodup ∧ out.moduleText = moduleOf config t out.sectionText := by
  refine ⟨fun e level he => renderAt_add level e 0 he, fun d config t ht hwords => ?_⟩
  obtain ⟨_, _, hmade⟩ := Document.of_typed ht
  have hnames := Registry.nodup_registered hmade.operations
  refine ⟨⟨sectionTexts config t, filesOf config d.spec t⟩, ?_, map_fst_sectionTexts,
    nodup_sectionsOf hnames, ?_⟩
  · rw [Document.output, ht]
    rfl
  · rw [moduleText_of_files rfl]
    exact typesModule_eq hnames hwords rfl

/-- A record with a comment of two lines on a member that has a record. -/
def noted : TypeExpr := .closed [
  .of "filter" (.closed [.of "limit" (.primitive .number) true false]) false false
    (some "At most so many.\nAll of them by default.")]

theorem unbroken_noted : Obeys Unbroken noted :=
  unbroken_closed (List.forall_mem_singleton.mpr ⟨⟨_, rfl⟩,
    unbroken_closed (List.forall_mem_singleton.mpr ⟨⟨_, rfl⟩, (obeys_leaf rfl).mpr trivial⟩)⟩)

theorem unbroken_petsTypes : ∀ o ∈ (petsTypes false).operations, Obeys Unbroken o.type := by
  have hleaf : ∀ {e : TypeExpr}, e = .primitive .number ∨ e = .void → Obeys Unbroken e := by
    rintro e (rfl | rfl) <;> exact (obeys_leaf rfl).mpr trivial
  have hparameters : Obeys Unbroken
      (.closed [.of "limit" (.primitive .number) true false]) :=
    unbroken_closed (List.forall_mem_singleton.mpr ⟨⟨_, rfl⟩, hleaf (.inl rfl)⟩)
  have hresponses : Obeys Unbroken (.closed []) := unbroken_closed nofun
  refine List.forall_mem_singleton.mpr (unbroken_closed ?_)
  simp only [List.forall_mem_cons]
  exact ⟨⟨⟨_, rfl⟩, hparameters⟩, ⟨⟨_, rfl⟩, hleaf (.inr rfl)⟩, ⟨⟨_, rfl⟩, hresponses⟩,
    ⟨⟨_, rfl⟩, hresponses⟩, nofun⟩

/-- The lines of the record are two levels deeper, and so are those of its comment; the types of
the operation have one word for each line. -/
theorem levels_indent_noted :
    (renderAt 2 noted = indented 2 (renderAt 0 noted) ∧
      renderAt 2 noted = "\x7b\n      /**\n       * At most so many.\n" ++
        "       * All of them by default.\n       */\n" ++
        "      filter: \x7b\n        limit?: number;\n      \x7d;\n    \x7d") ∧
    petsDocument.typed {} = .ok (petsTypes false) ∧
    ∃ out, petsDocument.output {} = .ok out ∧
      out.sections.map Prod.fst = sectionsOf {} (petsTypes false) ∧
      (sectionsOf {} (petsTypes false)).Nodup ∧
      out.moduleText = moduleOf {} (petsTypes false) out.sectionText := by
  have htyped : petsDocument.typed {} = .ok (petsTypes false) := by cbv
  refine ⟨⟨levels_indent.1 noted 2 unbroken_noted, by decide +kernel⟩, htyped,
    levels_indent.2 petsDocument {} (petsTypes false) htyped unbroken_petsTypes⟩

/-! ## 5. Members that are picked -/

/-- As `Unbroken`, but nothing is asked of the collections that members are picked from. -/
def UnbrokenButPicked : TypeExpr → Prop
  | pick _ _ => True
  | e => Unbroken e

instance : DecidablePred UnbrokenButPicked
  | pick _ _ => inferInstanceAs (Decidable True)
  | reference p => inferInstanceAs (Decidable (Unbroken (reference p)))
  | record r => inferInstanceAs (Decidable (Unbroken (record r)))
  | primitive _ | literal _ | operation _ | list _ _ _ | union _ | intersection _
  | withHeaders _ _ | never | unknown | void => inferInstanceAs (Decidable True)

/-- A member that is picked from a collection in a section whose name has two lines. -/
def pickedBroken : TypeExpr := pick ⟨["a\nb", "parameters"]⟩ ["P"]

/-- A value that spells a document with an operation which has such a member. -/
def pickedRaw : Json := .object [("openapi", .string "3.1.0"),
  ("a\nb", .object [("parameters", .object [
    ("P", .object [("name", .string "P"), ("in", .string "query")])])]),
  ("paths", .object [("/pets", .object [("get", .object [("operationId", .string "pets"),
    ("parameters", .array [.object [("$ref", .string "#/a%0Ab/parameters/P")]])])])])]

/-- The document that the value spells. -/
def pickedDocument : Document where
  raw := pickedRaw
  spec := {
    openapi := "3.1.0"
    paths := some [("/pets", { get := some {
      operationId := some "pets", parameters := [.ref { target := "#/a%0Ab/parameters/P" }] } })] }

theorem loaded_pickedDocument : pickedDocument.Loaded :=
  ⟨pickedRaw, Json.uniqueKeys_of_distinct (by cbv), by cbv⟩

/-- The names in the types of the document have one line each, and the text of the operation is not
that of its section one level deeper. -/
theorem exists_typed_pickedDocument : ∃ t, pickedDocument.typed {} = .ok t ∧
    t.Obeys UnbrokenButPicked ∧ ∀ files, (operationsRecord {} t.operations).render
      ≠ operationsText {} (sectionText ⟨sectionTexts {} t, files⟩)
        (shownOperations {} t.operations) := by
  obtain ⟨t, ht, hcheck⟩ := Typing.exists_of_any (r := pickedDocument.typed {})
    (p := fun t => decide (∀ e ∈ t.parts, UnbrokenButPicked e) &&
      decide ((operationsRecord {} t.operations).render ≠ operationsText {}
        (sectionText ⟨sectionTexts {} t, []⟩) (shownOperations {} t.operations)))
    (by decide +kernel)
  rw [Bool.and_eq_true, decide_eq_true_eq, decide_eq_true_eq] at hcheck
  exact ⟨t, ht, hcheck.1, fun _ => hcheck.2⟩

/-- **A name of two lines may stand where members are picked**: there its lines have no margins, in
an expression by itself and in the module of a document. -/
theorem not_levels_indent_picked :
    (¬∀ (e : TypeExpr) (level : Nat), Obeys UnbrokenButPicked e →
      renderAt level e = indented level (renderAt 0 e)) ∧
    ¬∀ (d : Document) (config : Config) (t : TypedDocument), d.Loaded →
      d.typed config = .ok t → t.Obeys UnbrokenButPicked →
      ∃ out, d.output config = .ok out ∧ out.moduleText = moduleOf config t out.sectionText := by
  constructor
  · intro hall
    have hdeeper := hall pickedBroken 1 ((obeys_leaf rfl).mpr trivial)
    revert hdeeper
    decide +kernel
  · intro hall
    obtain ⟨t, ht, hwords, hne⟩ := exists_typed_pickedDocument
    obtain ⟨out, hout, hmodule⟩ := hall pickedDocument {} t loaded_pickedDocument ht hwords
    rw [Document.output, ht] at hout
    obtain rfl : ⟨sectionTexts {} t, filesOf {} pickedDocument.spec t⟩ = out :=
      Except.ok.inj hout
    obtain ⟨_, _, hmade⟩ := Document.of_typed ht
    have hnames := Registry.nodup_registered hmade.operations
    rw [moduleText_of_files rfl, typesModule_eq_iff hnames rfl] at hmodule
    exact hne _ hmodule

end Output

end ApiTypes
