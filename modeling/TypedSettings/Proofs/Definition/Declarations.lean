import TypedSettings.Definition.Document
import TypedSettings.Proofs.Definition.Building

/-!
# What a document declares

A document has its two tables under their keys (`ofToml_eq_ok_iff`), and it declares the setting
names in them, each once and with what both tables have under it (`isLastEntry_declarations`). Every
setting of a definition was declared (`exists_declaration`).
-/

namespace TypedSettings.Definition

/-! ## The two tables -/

/-- The entries of the table under a key of a document, none if the key is not there. A date-time
counts as a table without entries. -/
inductive Holds (table : Table Toml) (key : String) : Table Toml → Prop where
  | table {es : Table Toml} : table.find? key = some (.table es) → Holds table key es
  | missing : table.find? key = none → Holds table key []
  | dateTime {d : DateTime} : table.find? key = some (.dateTime d) → Holds table key []

def ofTexts (texts : Table String) : Table Toml := texts.map fun e => (e.1, .text e.2)

section
variable {table es : Table Toml} {key : String} {document : Document}

theorem tableOf_eq_ok_iff : tableOf key table = .ok es ↔ Holds table key es := by
  unfold tableOf
  constructor
  · intro h
    split at h
    · rename_i hnone
      cases h
      exact .missing hnone
    · rename_i hfind
      cases h
      exact .table hfind
    · rename_i hfind
      cases h
      exact .dateTime hfind
    · cases h
  · intro h
    cases h with
    | table h => rw [h]
    | missing h => rw [h]
    | dateTime h => rw [h]

theorem textsOf_eq_ok_iff {texts : Table String} : textsOf es = .ok texts ↔ es = ofTexts texts := by
  constructor
  · intro h
    fun_induction textsOf es generalizing texts with
    | case1 =>
      cases h
      rfl
    | case2 name s rest _ _ ih =>
      cases h
      rw [ih (by assumption)]
      rfl
    | case3 => cases h
    | case4 => cases h
  · rintro rfl
    induction texts with
    | nil => rfl
    | cons e texts ih =>
      rw [ofTexts, List.map_cons, textsOf, ← ofTexts, ih]

/-- A document has its defaults and its annotations under their keys, and the annotations are
texts. -/
theorem ofToml_eq_ok_iff : Document.ofToml table = .ok document ↔
    Holds table "defaults" document.defaults ∧
      Holds table "types" (ofTexts document.annotations) := by
  obtain ⟨defaults, annotations⟩ := document
  simp only [← tableOf_eq_ok_iff]
  unfold Document.ofToml
  cases tableOf "defaults" table with
  | error fault => simp
  | ok es =>
    cases tableOf "types" table with
    | error fault => simp
    | ok types =>
      simp only [Except.ok.injEq, ← textsOf_eq_ok_iff]
      cases textsOf types with
      | error fault => simp
      | ok texts => simp

theorem ascending_of_ofTexts {texts : Table String} (h : Table.Ascending (ofTexts texts)) :
    texts.Ascending := by
  rw [Table.Ascending, ofTexts, List.pairwise_map] at h
  exact h

end

/-! ## The declarations -/

def Document.HasKey (document : Document) (name : String) : Prop :=
  name ∈ document.defaults.names ∨ name ∈ document.annotations.names

variable [Payloads]

/-- What the tables have under the key: a default or none, and an annotation or none. -/
def Document.declarationOf (document : Document) (name : String) : Declaration :=
  ⟨((document.defaults.find? name).map Toml.toValue).getD .absent,
    document.annotations.find? name⟩

/-- The names in both tables of a document ascend. -/
structure Document.Ascending (document : Document) : Prop where
  defaults : document.defaults.Ascending
  annotations : document.annotations.Ascending

section
variable {document : Document} {name : String} {d : Declaration}

omit [Payloads] in
theorem hasKey_iff : document.HasKey name ↔ (document.defaults.find? name).isSome = true ∨
    (document.annotations.find? name).isSome = true := by
  rw [Document.HasKey, mem_names_iff, mem_names_iff]

omit [Payloads] in
theorem hasKey_of_find? {expression : String}
    (h : document.annotations.find? name = some expression) : document.HasKey name :=
  hasKey_iff.2 (.inr (by rw [h]; rfl))

theorem mk_mem_declarations_iff (h : document.Ascending) : (name, d) ∈ document.declarations ↔
    isSettingName name = true ∧ document.HasKey name ∧ d = document.declarationOf name := by
  simp only [Document.declarations, List.mem_append, List.mem_map, List.mem_filter,
    Bool.and_eq_true, Prod.exists, Prod.mk.injEq, hasKey_iff]
  constructor
  · rintro (⟨name, v, ⟨hv, hname⟩, rfl, rfl⟩ | ⟨name, expression, ⟨he, hname, hnone⟩, rfl, rfl⟩)
    · have hfind := Table.find?_of_mem h.defaults hv
      exact ⟨hname, by simp [hfind], by simp [Document.declarationOf, hfind]⟩
    · have hfind := Table.find?_of_mem h.annotations he
      have hdefault : document.defaults.find? name = none := by simpa [Table.has] using hnone
      refine ⟨hname, by simp [hfind], ?_⟩
      simp [Document.declarationOf, Declaration.ofType, hfind, hdefault]
  · rintro ⟨hname, hkey, rfl⟩
    cases hdefault : document.defaults.find? name with
    | some v =>
      refine .inl ⟨name, v, ⟨Table.mem_of_find? hdefault, hname⟩, rfl, ?_⟩
      simp [Document.declarationOf, hdefault]
    | none =>
      obtain ⟨expression, he⟩ : ∃ e, document.annotations.find? name = some e := by
        simpa [hdefault, Option.isSome_iff_exists] using hkey
      refine .inr ⟨name, expression, ⟨Table.mem_of_find? he, hname, ?_⟩, rfl, ?_⟩
      · simp [Table.has, hdefault]
      · simp [Document.declarationOf, Declaration.ofType, hdefault, he]

theorem nodup_declarations (h : document.Ascending) :
    (document.declarations.map (·.1)).Nodup := by
  rw [Document.declarations, List.map_append, List.map_map, List.map_map, List.nodup_append]
  refine ⟨nodup_names (h.defaults.filter _), nodup_names (h.annotations.filter _), ?_⟩
  intro name hname other hother
  obtain ⟨⟨_, v⟩, hv, rfl⟩ := List.mem_map.1 hname
  obtain ⟨⟨_, expression⟩, hexpression, rfl⟩ := List.mem_map.1 hother
  rintro rfl
  -- what has a default is not declared once more for its annotation
  have hfind := Table.find?_of_mem h.defaults (List.mem_of_mem_filter hv)
  have hhas := (List.mem_filter.1 hexpression).2
  simp only [Function.comp_apply] at hfind hhas
  simp [Table.has, hfind] at hhas

/-- A document declares the setting names of its tables, each once. -/
theorem isLastEntry_declarations (h : document.Ascending) :
    IsLastEntry document.declarations name d ↔
      isSettingName name = true ∧ document.HasKey name ∧ d = document.declarationOf name := by
  rw [isLastEntry_iff_mem (nodup_declarations h), mk_mem_declarations_iff h]

end

end TypedSettings.Definition
