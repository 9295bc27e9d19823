import Mathlib.Data.List.Permutation
import TypedSettings.Proofs.Definition.Declarations
import TypedSettings.Proofs.Toml.Order

/-!
# The keys of a definition text

A text that decodes as TOML gives two tables, and what is read from it is what their setting names
are declared as (`Decodes.parse_eq`). Main statement: exactly the setting names in the two tables are
settings, each with its default and the type that its annotation or else its default gives; the
least annotation that is no type expression is what is wrong, and other keys do not matter
(`parse_keys`).
-/

namespace TypedSettings.Definition

/-! ## Reading the tables -/

/-- With its references replaced the text is TOML with the two tables of the document. -/
def Decodes (env : Environment) (text : String) (document : Document) : Prop :=
  ∃ read table, Reference.resolve env text = .ok read ∧ Toml.parse read = .ok table ∧
    Holds table "defaults" document.defaults ∧
    Holds table "types" (ofTexts document.annotations)

section
variable {env : Environment} {text : String} {document : Document}

theorem tomlParse_eq_ok {table : Table Toml} :
    Toml.parse text = .ok table ↔ Toml.document text.toList = .ok table := by
  rw [Toml.parse]
  cases Toml.document text.toList <;> simp

theorem documentParse_eq_ok : Document.parse text = .ok document ↔
    ∃ table, Toml.parse text = .ok table ∧ Document.ofToml table = .ok document := by
  rw [Document.parse]
  cases Toml.parse text <;> simp

theorem decodes_iff : Decodes env text document ↔
    ∃ read, Reference.resolve env text = .ok read ∧ Document.parse read = .ok document := by
  simp only [documentParse_eq_ok, ofToml_eq_ok_iff]
  exact ⟨fun ⟨read, table, hread, htable⟩ => ⟨read, hread, table, htable⟩,
    fun ⟨read, hread, table, htable⟩ => ⟨read, table, hread, htable⟩⟩

theorem Holds.eq_of_find? {table es es' : Table Toml} {key : String} (h : Holds table key es)
    (hfind : table.find? key = some (.table es')) : es = es' := by
  cases h with
  | table h =>
    rw [h] at hfind
    cases hfind
    rfl
  | missing h =>
    rw [h] at hfind
    cases hfind
  | dateTime h =>
    rw [h] at hfind
    cases hfind

theorem Holds.ascending {table es : Table Toml} {key : String} {s : List Char}
    (hread : Toml.document s = .ok table) (h : Holds table key es) : es.Ascending := by
  cases h with
  | table hes => exact (Toml.ordered_of_find? hread hes).ascending
  | missing => exact List.Pairwise.nil
  | dateTime => exact List.Pairwise.nil

/-- The tables of a text that decodes ascend. -/
theorem Decodes.ascending (h : Decodes env text document) : document.Ascending := by
  obtain ⟨read, table, _, htable, hdefaults, htypes⟩ := h
  have hread := tomlParse_eq_ok.1 htable
  exact ⟨hdefaults.ascending hread, ascending_of_ofTexts (htypes.ascending hread)⟩

/-- The defaults of a text that decodes are ordered. -/
theorem Decodes.ordered {name : String} {t : Toml} (h : Decodes env text document)
    (ht : document.defaults.find? name = some t) : t.Ordered := by
  obtain ⟨read, table, _, htable, hdefaults, _⟩ := h
  have htable := tomlParse_eq_ok.1 htable
  generalize document.defaults = es at hdefaults ht
  cases hdefaults with
  | table hes =>
    cases Toml.ordered_of_find? htable hes with
    | table _ hinner => exact hinner _ (Table.mem_of_find? ht)
  | missing | dateTime => cases ht

variable [Payloads] {registry : Registry}

/-- What is read from a text that decodes is what its document declares. -/
theorem Decodes.parse_eq (h : Decodes env text document) :
    parse registry env text = ofDeclarations registry document.declarations := by
  obtain ⟨read, hread, hdocument⟩ := decodes_iff.1 h
  rw [parse, hread]
  simp only [hdocument]

theorem parse_eq_ok {definition : Definition} : parse registry env text = .ok definition ↔
    ∃ document, Decodes env text document ∧
      ofDeclarations registry document.declarations = .ok definition := by
  constructor
  · intro h
    unfold parse at h
    split at h
    · cases h
    · rename_i read hread
      split at h
      · cases h
      · rename_i document hdocument
        exact ⟨document, decodes_iff.2 ⟨read, hread, hdocument⟩, h⟩
  · rintro ⟨document, hdecodes, hbuilt⟩
    rw [hdecodes.parse_eq, hbuilt]

end

section
variable [Payloads]

/-! ## The settings -/

/-- The document gives the name the setting: with its default in the table of defaults, or none, and
with its annotation in the table of annotations, or none. The annotation gives the type, or if there
is none, the default does. -/
structure Document.Gives (registry : Registry) (document : Document) (name : String) (s : Setting) :
    Prop where
  default : s.default = ((document.defaults.find? name).map Toml.toValue).getD .absent
  annotation? : s.annotation? = document.annotations.find? name
  annotated : ∀ expression, document.annotations.find? name = some expression →
    SettingType.parse registry expression = .ok s.type
  shaped : document.annotations.find? name = none → s.type = .ofDefault s.default

def Document.WellAnnotated (registry : Registry) (document : Document) (name : String) : Prop :=
  ∀ expression, document.annotations.find? name = some expression →
    ∃ t, SettingType.parse registry expression = .ok t

/-- The name is the least setting name whose annotation is no type expression. -/
structure Document.LeastMisannotated (registry : Registry) (document : Document) (name : String)
    (e : SettingType.Error) : Prop where
  isSettingName : isSettingName name = true
  fails : ∃ expression, document.annotations.find? name = some expression ∧
    SettingType.parse registry expression = .error e
  least : ∀ other, other < name → TypedSettings.isSettingName other = true →
    document.WellAnnotated registry other

section
variable {registry : Registry} {env : Environment} {text name : String} {document : Document}
  {s : Setting}

/-- A default of a document is of a built-in kind. -/
theorem suggests_declarationOf {t : SettingType} :
    Suggests registry (document.declarationOf name).default t ↔
      t = .ofDefault (document.declarationOf name).default := by
  rw [suggests_iff, eq_comm, Document.declarationOf]
  cases document.defaults.find? name with
  | none => rfl
  | some v => cases v <;> rfl

theorem makes_declarationOf_iff (hname : isSettingName name = true) :
    Makes registry name (document.declarationOf name) s ↔ document.Gives registry name s := by
  constructor
  · intro h
    refine ⟨h.default, h.annotation?, h.annotated, fun hnone => ?_⟩
    rw [h.default]
    exact suggests_declarationOf.1 (h.inferred hnone)
  · intro h
    have hdefault : s.default = (document.declarationOf name).default := h.default
    refine ⟨hname, hdefault, h.annotation?, h.annotated, fun hnone => ?_⟩
    exact suggests_declarationOf.2 (hdefault ▸ h.shaped hnone)

theorem exists_makes_declarationOf_iff (hname : isSettingName name = true) :
    (∃ s, Makes registry name (document.declarationOf name) s) ↔
      document.WellAnnotated registry name := by
  constructor
  · rintro ⟨s, hs⟩ expression hexpression
    exact ⟨s.type, hs.annotated expression hexpression⟩
  · intro h
    simp only [makes_declarationOf_iff hname]
    cases hfind : document.annotations.find? name with
    | some expression =>
      obtain ⟨t, ht⟩ := h expression hfind
      refine ⟨⟨_, _, t⟩, rfl, rfl, fun other hother => ?_, fun hnone => ?_⟩
      · rw [hfind] at hother
        cases hother
        exact ht
      · rw [hfind] at hnone
        cases hnone
    | none =>
      refine ⟨⟨_, _, .ofDefault _⟩, rfl, rfl, fun other hother => ?_, fun _ => rfl⟩
      rw [hfind] at hother
      cases hother

theorem faulty_declarationOf_iff (hname : isSettingName name = true) {e : SettingsError} :
    Faulty registry name (document.declarationOf name) e ↔
      ∃ expression te, document.annotations.find? name = some expression ∧
        SettingType.parse registry expression = .error te ∧ e = .typeExpression te := by
  constructor
  · generalize hd : document.declarationOf name = d
    intro h
    cases h with
    | name hbad =>
      rw [hname] at hbad
      cases hbad
    | @expression _ expression te _ hparse =>
      exact ⟨expression, te, congrArg Declaration.annotation? hd, hparse, rfl⟩
  · rintro ⟨expression, te, hfind, hparse, rfl⟩
    rw [Document.declarationOf, hfind]
    exact .expression hname hparse

/-- Only the setting names in the tables matter. -/
theorem ofDeclarations_congr {document' : Document} (h : document.Ascending)
    (h' : document'.Ascending)
    (hsame : ∀ name, isSettingName name = true →
      document.defaults.find? name = document'.defaults.find? name ∧
        document.annotations.find? name = document'.annotations.find? name) :
    ofDeclarations registry document.declarations =
      ofDeclarations registry document'.declarations := by
  rw [ofDeclarations, ofDeclarations, Table.ofEntries_congr fun name d => ?_]
  rw [isLastEntry_declarations h, isLastEntry_declarations h']
  refine and_congr_right fun hname => ?_
  obtain ⟨hdefaults, hannotations⟩ := hsame name hname
  simp only [hasKey_iff, Document.declarationOf, hdefaults, hannotations]

section
variable (h : document.Ascending)

include h

theorem exists_ofDeclarations_iff_wellAnnotated :
    (∃ definition, ofDeclarations registry document.declarations = .ok definition) ↔
      ∀ name, isSettingName name = true → document.WellAnnotated registry name := by
  rw [exists_ofDeclarations_iff]
  constructor
  · intro hmake name hname expression hfind
    have hd := (isLastEntry_declarations h).2 ⟨hname, hasKey_of_find? hfind, rfl⟩
    exact (exists_makes_declarationOf_iff hname).1 (hmake name _ hd) expression hfind
  · intro hannotated name d hd
    obtain ⟨hname, _, rfl⟩ := (isLastEntry_declarations h).1 hd
    exact (exists_makes_declarationOf_iff hname).2 (hannotated name hname)

theorem mem_names_iff_hasKey {definition : Definition}
    (hbuilt : ofDeclarations registry document.declarations = .ok definition) :
    name ∈ definition.names ↔ isSettingName name = true ∧ document.HasKey name := by
  simp only [mem_names_of_ofDeclarations hbuilt, isLastEntry_declarations h, exists_and_left,
    exists_eq, and_true]

theorem gives_of_ofDeclarations {definition : Definition}
    (hbuilt : ofDeclarations registry document.declarations = .ok definition)
    (hs : definition.find? name = some s) : document.Gives registry name s := by
  obtain ⟨d, hd, hmakes⟩ := (find?_of_ofDeclarations hbuilt).1 hs
  obtain ⟨hname, _, rfl⟩ := (isLastEntry_declarations h).1 hd
  exact (makes_declarationOf_iff hname).1 hmakes

theorem ofDeclarations_eq_error_iff_misannotated {e : SettingsError} :
    ofDeclarations registry document.declarations = .error e ↔
      ∃ name te, document.LeastMisannotated registry name te ∧ e = .typeExpression te := by
  rw [ofDeclarations_eq_error_iff]
  constructor
  · rintro ⟨name, ⟨d, hd, hfaulty⟩, hleast⟩
    obtain ⟨hname, _, rfl⟩ := (isLastEntry_declarations h).1 hd
    obtain ⟨expression, te, hfind, hparse, rfl⟩ := (faulty_declarationOf_iff hname).1 hfaulty
    refine ⟨name, te, ⟨hname, ⟨expression, hfind, hparse⟩, ?_⟩, rfl⟩
    intro other hlt hother expression' hfind'
    have hd := (isLastEntry_declarations h).2 ⟨hother, hasKey_of_find? hfind', rfl⟩
    exact (exists_makes_declarationOf_iff hother).1 (hleast other _ hlt hd) expression' hfind'
  · rintro ⟨name, te, ⟨hname, ⟨expression, hfind, hparse⟩, hleast⟩, rfl⟩
    have hd := (isLastEntry_declarations h).2 ⟨hname, hasKey_of_find? hfind, rfl⟩
    refine ⟨name, ⟨_, hd, ?_⟩, ?_⟩
    · exact (faulty_declarationOf_iff hname).2 ⟨expression, te, hfind, hparse, rfl⟩
    · intro other d hlt hd
      obtain ⟨hother, _, rfl⟩ := (isLastEntry_declarations h).1 hd
      exact (exists_makes_declarationOf_iff hother).2 (hleast other hlt hother)

end

/-- The settings are the setting names in the two tables, each as the tables give it, if all their
annotations are type expressions; otherwise the annotation of the least name is what is wrong. No
other key makes a difference, and none is ever reported. -/
theorem parse_keys (registry : Registry) {env : Environment} {text : String} {document : Document}
    (h : Decodes env text document) :
    ((∃ definition, parse registry env text = .ok definition) ↔
      ∀ name, isSettingName name = true → document.WellAnnotated registry name) ∧
    (∀ definition, parse registry env text = .ok definition →
      definition.Ascending ∧
      (∀ name, name ∈ definition.names ↔
        isSettingName name = true ∧
          (name ∈ document.defaults.names ∨ name ∈ document.annotations.names)) ∧
      ∀ name s, definition.find? name = some s → document.Gives registry name s) ∧
    (∀ e, parse registry env text = .error e ↔
      ∃ name te, document.LeastMisannotated registry name te ∧ e = .typeExpression te) ∧
    (∀ name, parse registry env text ≠ .error (badName name)) ∧
    ∀ env' text' document', Decodes env' text' document' →
      (∀ name, isSettingName name = true →
        document.defaults.find? name = document'.defaults.find? name ∧
          document.annotations.find? name = document'.annotations.find? name) →
      parse registry env text = parse registry env' text' := by
  have hascending := h.ascending
  rw [h.parse_eq]
  refine ⟨exists_ofDeclarations_iff_wellAnnotated hascending, fun definition hbuilt => ?_,
    fun e => ofDeclarations_eq_error_iff_misannotated hascending, fun name hbad => ?_,
    fun env' text' document' h' hsame => ?_⟩
  · refine ⟨ascending_of_ofDeclarations hbuilt, fun name => ?_, fun name s hs => ?_⟩
    · exact mem_names_iff_hasKey hascending hbuilt
    · exact gives_of_ofDeclarations hascending hbuilt hs
  · obtain ⟨_, _, _, he⟩ := (ofDeclarations_eq_error_iff_misannotated hascending).1 hbad
    cases he
  · rw [h'.parse_eq]
    exact ofDeclarations_congr hascending h'.ascending hsame

end

end

/-- A table that is written with its keys in another order. -/
def limits : Toml :=
  .table [("end", .dateTime (.date ⟨2024, 2, 29⟩)), ("soft", .array [.int 1, .int 2])]

theorem toValue_limits [Payloads] : limits.toValue =
    .map [(.str "end", .str "2024-02-29"), (.str "soft", .list [.int 1, .int 2])] := by
  have hend : String.ofList (DateTime.date ⟨2024, 2, 29⟩).chars = "2024-02-29" := rfl
  simp [limits, Toml.toValue, Toml.tableEntries, Toml.itemValues, Value.mapOf, Value.putEntry,
    Value.equal, hend]

open Payloads.Integers in
/-- Keys in lower case make no difference, and of two annotations that are no type expressions the
one of the lesser name is reported, though it comes later. -/
theorem parse_keys_samples :
    (parse {} .empty ("[defaults]\nLIMITS = \x7bsoft = [1, 2], end = 2024-02-29\x7d\nlow = 3\n" ++
          "[types]\nHOST = \"str\"\nlow = \"int[\"\n") =
        parse {} .empty ("[defaults]\nLIMITS = \x7bsoft = [1, 2], end = 2024-02-29\x7d\n" ++
          "[types]\nHOST = \"str\"\n")) ∧
      parse {} .empty ("[defaults]\nLIMITS = \x7bsoft = [1, 2], end = 2024-02-29\x7d\n" ++
          "[types]\nHOST = \"str\"\n") =
        .ok [("HOST", ⟨.absent, some "str", .scalar .str⟩),
          ("LIMITS", ⟨.map [(.str "end", .str "2024-02-29"), (.str "soft", .list [.int 1, .int 2])],
            none, .bare .map⟩)] ∧
      ∃ e, SettingType.parse {} "int[" = .error e ∧
        parse {} .empty "[types]\nPORT = \"int[\"\nHOST = \"int[\"\n" =
          .error (.typeExpression e) := by
  have hlow : Decodes .empty
      ("[defaults]\nLIMITS = \x7bsoft = [1, 2], end = 2024-02-29\x7d\nlow = 3\n" ++
        "[types]\nHOST = \"str\"\nlow = \"int[\"\n")
      ⟨[("LIMITS", limits), ("low", .int 3)], [("HOST", "str"), ("low", "int[")]⟩ := by
    refine ⟨"[defaults]\nLIMITS = \x7bsoft = [1, 2], end = 2024-02-29\x7d\nlow = 3\n" ++
        "[types]\nHOST = \"str\"\nlow = \"int[\"",
      [("defaults", .table [("LIMITS", limits), ("low", .int 3)]),
        ("types", .table (ofTexts [("HOST", "str"), ("low", "int[")]))], ?_, ?_, ?_, ?_⟩
    · rfl
    · rw [tomlParse_eq_ok]
      simp only [String.toList_append, String.reduceToList]
      rfl
    · exact .table rfl
    · exact .table rfl
  have hnone : Decodes .empty
      ("[defaults]\nLIMITS = \x7bsoft = [1, 2], end = 2024-02-29\x7d\n" ++
        "[types]\nHOST = \"str\"\n")
      ⟨[("LIMITS", limits)], [("HOST", "str")]⟩ := by
    refine ⟨"[defaults]\nLIMITS = \x7bsoft = [1, 2], end = 2024-02-29\x7d\n" ++
        "[types]\nHOST = \"str\"",
      [("defaults", .table [("LIMITS", limits)]), ("types", .table (ofTexts [("HOST", "str")]))],
      ?_, ?_, ?_, ?_⟩
    · rfl
    · rw [tomlParse_eq_ok]
      simp only [String.toList_append, String.reduceToList]
      rfl
    · exact .table rfl
    · exact .table rfl
  have hwrong : Decodes .empty "[types]\nPORT = \"int[\"\nHOST = \"int[\"\n"
      ⟨[], [("HOST", "int["), ("PORT", "int[")]⟩ := by
    refine ⟨"[types]\nPORT = \"int[\"\nHOST = \"int[\"",
      [("types", .table (ofTexts [("HOST", "int["), ("PORT", "int[")]))], ?_, ?_, ?_, ?_⟩
    · rfl
    · rw [tomlParse_eq_ok]
      simp only [String.reduceToList]
      rfl
    · exact .missing rfl
    · exact .table rfl
  obtain ⟨_, _, _, _, hcongr⟩ := parse_keys {} hlow
  obtain ⟨_, _, herror, _⟩ := parse_keys {} hwrong
  refine ⟨hcongr _ _ _ hnone fun name hname => ?_, ?_, ?_⟩
  · have hlow : "low" ≠ name := by
      rintro rfl
      exact absurd hname (by decide)
    simp only [Table.find?_cons, Table.find?_nil, if_neg hlow, and_self]
  · have hdeclarations : Document.declarations ⟨[("LIMITS", limits)], [("HOST", "str")]⟩ =
        [("LIMITS", ⟨limits.toValue, none⟩), ("HOST", .ofType "str")] := rfl
    rw [hnone.parse_eq, hdeclarations, toValue_limits]
    rfl
  · obtain ⟨e, he⟩ : ∃ e, SettingType.parse {} "int[" = .error e := ⟨_, rfl⟩
    refine ⟨e, he, (herror _).2 ⟨"HOST", e, ⟨by decide, ⟨_, rfl, he⟩, ?_⟩, rfl⟩⟩
    intro name hlt _ expression hexpression
    have hname := Table.mem_of_find? hexpression
    simp only [List.mem_cons, Prod.mk.injEq, List.not_mem_nil, or_false] at hname
    rcases hname with ⟨rfl, _⟩ | ⟨rfl, _⟩
    · exact absurd hlt (by decide)
    · exact absurd hlt (by decide)

end TypedSettings.Definition
