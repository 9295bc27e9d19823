import TypedSettings.Definition.Basic
import TypedSettings.Proofs.Text.Digits
import TypedSettings.Proofs.Toml.Draft
import TypedSettings.Proofs.Toml.Quoted

/-!
# A default in double quotes

A document opens the table of defaults, and its next line starts a text in double quotes for a
setting. What comes after may end the text early and go on with more lines. Main statements: if it
is a text without quotes, backslashes and controls, and the quotes are closed behind it, the
document holds nothing else (`document_quotedDefault`); and whatever it is, in a document that can
be read the setting has the text that was read first (`exists_text_of_document`).
-/

namespace TypedSettings.Toml

open Text

section
variable {c : Char} {s r : List Char} {name : String} {n : Nat} {draft : Draft}

/-! ## Bare keys -/

theorem not_quote_of_isBareKeyChar (h : isBareKeyChar c = true) : isQuote c = false := by
  rw [isQuote, Bool.or_eq_false_iff, beq_eq_false_iff_ne, beq_eq_false_iff_ne]
  exact ⟨ne_of_kind h rfl, ne_of_kind h rfl⟩

theorem not_space_of_isBareKeyChar (h : isBareKeyChar c = true) : isSpace c = false := by
  rw [isSpace, Bool.or_eq_false_iff, beq_eq_false_iff_ne, beq_eq_false_iff_ne]
  exact ⟨ne_of_kind h rfl, ne_of_kind h rfl⟩

theorem not_end_of_isBareKeyChar (h : isBareKeyChar c = true) (s : List Char) :
    isLineEnd (c :: s) = false := by
  rw [isLineEnd, Bool.or_eq_false_iff, Bool.or_eq_false_iff, beq_eq_false_iff_ne,
    beq_eq_false_iff_ne, beq_eq_false_iff_ne]
  exact ⟨⟨ne_of_kind h rfl, ne_of_kind h rfl⟩, ne_of_kind h rfl⟩

theorem isBareKeyChar_of_isUpper (h : c.isUpper = true) : isBareKeyChar c = true := by
  have hrange : 'A' ≤ c ∧ c ≤ 'Z' := of_decide_eq_true h
  simp [isBareKeyChar, hrange]

/-- A setting name is a key without quotes. -/
theorem isBareKeyChar_of_isSettingName (h : isSettingName name = true) :
    name.toList ≠ [] ∧ ∀ c ∈ name.toList, isBareKeyChar c = true := by
  unfold isSettingName at h
  split at h
  · cases h
  · rename_i c r hname
    rw [hname]
    simp only [Bool.and_eq_true, List.all_eq_true, Bool.or_eq_true, beq_iff_eq] at h
    refine ⟨List.cons_ne_nil _ _, List.forall_mem_cons.2 ⟨isBareKeyChar_of_isUpper h.1, ?_⟩⟩
    intro d hd
    rcases h.2 d hd with (hupper | hdigit) | rfl
    · exact isBareKeyChar_of_isUpper hupper
    · simp [isBareKeyChar, hdigit]
    · decide

/-- A key of one part without quotes is read up to what does not belong to it. -/
theorem key_bare {k : List Char} (hk : ∀ c ∈ k, isBareKeyChar c = true) (hne : k ≠ [])
    (hr : ∀ c ∈ r.head?, isBareKeyChar c = false) (hpoint : eat? '.' (dropSpaces r) = none) :
    key (k ++ r) = .ok (⟨[], String.ofList k⟩, dropSpaces r) := by
  obtain ⟨htake, hdrop⟩ := takeWhile_run hk hr
  cases k with
  | nil => exact absurd rfl hne
  | cons c k =>
    have hc := hk c List.mem_cons_self
    have hspaces : dropSpaces (c :: k ++ r) = c :: k ++ r := by
      simp [dropSpaces, not_space_of_isBareKeyChar hc]
    have hsimple : simpleKey (c :: k ++ r) = .ok (String.ofList (c :: k), r) := by
      rw [List.cons_append] at htake hdrop ⊢
      simp only [simpleKey, not_quote_of_isBareKeyChar hc, hc, htake, hdrop, Bool.false_eq_true,
        if_false, if_true]
    rw [key, keyParts, hspaces, hsimple]
    simp only [Step.next, hpoint]
    rfl

/-! ## Lines -/

theorem lines_cons_eq_ok {final : Draft} (hspace : isSpace c = false)
    (hend : isLineEnd (c :: s) = false) :
    lines (n + 1) draft (c :: s) = .ok final ↔
      ∃ next r r', line draft (c :: s) = .ok (next, r) ∧ lineEnd r = .ok ((), r') ∧
        lines n next r' = .ok final := by
  have hspaces : dropSpaces (c :: s) = c :: s := by simp [dropSpaces, hspace]
  rw [lines, hspaces]
  simp only [hend, Bool.false_eq_true, if_false]
  cases hline : line draft (c :: s) with
  | error f => simp
  | ok step =>
    obtain ⟨next, r⟩ := step
    cases hr : lineEnd r with
    | error f => simp [hr]
    | ok step =>
      obtain ⟨⟨⟩, r'⟩ := step
      simp only [hr]
      constructor
      · intro hrest
        exact ⟨next, r, r', rfl, hr, hrest⟩
      · rintro ⟨_, _, _, hstep, hend', hrest⟩
        cases hstep
        rw [hr] at hend'
        cases hend'
        exact hrest

/-- The header of the defaults, and a line up to the opening quote of a text. -/
def quotedDefault (name : String) (s : List Char) : List Char :=
  "[defaults]\n".toList ++ (name.toList ++ (" = \x22".toList ++ s))

def draftOf (name : String) (x : String) : Draft :=
  ⟨[("defaults", .table .header [(name, .leaf (.text x))])], ["defaults"]⟩

theorem line_eq_keyValue (hc : c ≠ '[') (s : List Char) :
    line draft (c :: s) = (keyValue (value maxDepth) (c :: s)).next fun (k, v) r =>
      Draft.place (c :: s) (draft.put k v) r := by
  rw [line]
  · rintro _ ⟨rfl, _⟩
    exact hc rfl
  · rintro _ ⟨rfl, _⟩
    exact hc rfl

/-- The line of a setting up to the closing quote of its text. -/
theorem line_quotedDefault (h : isSettingName name = true) (s : List Char) :
    line ⟨[("defaults", .table .header [])], ["defaults"]⟩
        (name.toList ++ (" = \x22".toList ++ s)) =
      (quotedText '\x22' s).next fun x r => .ok (draftOf name x, r) := by
  obtain ⟨hne, hbare⟩ := isBareKeyChar_of_isSettingName h
  have hkey := key_bare (r := " = \x22".toList ++ s) hbare hne (by simp; decide) rfl
  rw [String.ofList_toList] at hkey
  have hvalue : keyValue (value maxDepth) (name.toList ++ (" = \x22".toList ++ s)) =
      (quotedText '\x22' s).next fun x r => .ok ((⟨[], name⟩, .text x), r) := by
    have hitem : value maxDepth ('\x22' :: s) =
        (quotedText '\x22' s).next fun x r => .ok (.text x, r) := rfl
    rw [keyValue, hkey]
    have hrest : eat? '=' (dropSpaces (" = \x22".toList ++ s)) = some (' ' :: '\x22' :: s) := rfl
    have hspaces : dropSpaces (' ' :: '\x22' :: s) = '\x22' :: s := rfl
    simp only [Step.next, hrest, hspaces, hitem]
    cases quotedText '\x22' s with
    | error f => rfl
    | ok step => rfl
  cases hname : name.toList with
  | nil => exact absurd hname hne
  | cons c k =>
    have hc : c ≠ '[' := ne_of_kind (hbare c (by simp [hname])) rfl
    rw [hname] at hvalue
    rw [List.cons_append] at hvalue ⊢
    rw [line_eq_keyValue hc, hvalue]
    cases quotedText '\x22' s with
    | error f => rfl
    | ok step => rfl

theorem lines_setting_eq_ok {final : Draft} (h : isSettingName name = true) :
    lines (n + 1) ⟨[("defaults", .table .header [])], ["defaults"]⟩
        (name.toList ++ (" = \x22".toList ++ s)) = .ok final ↔
      ∃ x r r', quotedText '\x22' s = .ok (x, r) ∧ lineEnd r = .ok ((), r') ∧
        lines n (draftOf name x) r' = .ok final := by
  obtain ⟨hne, hbare⟩ := isBareKeyChar_of_isSettingName h
  have hline := line_quotedDefault h s
  cases hname : name.toList with
  | nil => exact absurd hname hne
  | cons c k =>
    have hc := hbare c (by simp [hname])
    rw [hname, List.cons_append] at hline
    rw [List.cons_append,
      lines_cons_eq_ok (not_space_of_isBareKeyChar hc) (not_end_of_isBareKeyChar hc _), hline]
    constructor
    · rintro ⟨next, r, r', hstep, hend, hrest⟩
      obtain ⟨x, after, hread, hnext⟩ := Step.next_eq_ok.1 hstep
      cases hnext
      exact ⟨x, r, r', hread, hend, hrest⟩
    · rintro ⟨x, r, r', hread, hend, hrest⟩
      exact ⟨_, r, r', Step.next_eq_ok.2 ⟨x, r, hread, rfl⟩, hend, hrest⟩

theorem lines_quotedDefault_eq_ok {final : Draft} (h : isSettingName name = true) :
    lines (n + 2) ⟨[], []⟩ (quotedDefault name s) = .ok final ↔
      ∃ x r r', quotedText '\x22' s = .ok (x, r) ∧ lineEnd r = .ok ((), r') ∧
        lines n (draftOf name x) r' = .ok final := by
  have hheader : lines (n + 2) ⟨[], []⟩ (quotedDefault name s) =
      lines (n + 1) ⟨[("defaults", .table .header [])], ["defaults"]⟩
        (name.toList ++ (" = \x22".toList ++ s)) := rfl
  rw [hheader, lines_setting_eq_ok h]

/-! ## The document -/

theorem document_eq_ok {t : Table Toml} :
    document s = .ok t ↔
      ∃ final, lines (s.length + 1) ⟨[], []⟩ (dropMark s) = .ok final ∧
        finishEntries final.entries = t := by
  unfold document
  split <;> simp_all

theorem length_quotedDefault (name : String) (s : List Char) :
    ∃ n, (quotedDefault name s).length = n + 2 :=
  ⟨_, rfl⟩

/-- A text without quotes, backslashes and controls is all that the document holds. -/
theorem document_quotedDefault (h : isSettingName name = true) {x : String}
    (hx : ∀ c ∈ x.toList, Verbatim c) :
    document (quotedDefault name (x.toList ++ ['\x22'])) =
      .ok [("defaults", .table [(name, .text x)])] := by
  obtain ⟨n, hn⟩ := length_quotedDefault name (x.toList ++ ['\x22'])
  rw [document_eq_ok, hn]
  refine ⟨draftOf name x, ?_, rfl⟩
  exact (lines_quotedDefault_eq_ok h).2 ⟨x, [], [], quotedText_verbatim hx, rfl, rfl⟩

/-- The setting has the text that was read first, whatever the document holds besides. -/
theorem exists_text_of_document (h : isSettingName name = true) {t : Table Toml}
    (hdoc : document (quotedDefault name s) = .ok t) :
    ∃ x r entries, quotedText '\x22' s = .ok (x, r) ∧
      t.find? "defaults" = some (.table entries) ∧ Table.find? entries name = some (.text x) := by
  obtain ⟨n, hn⟩ := length_quotedDefault name s
  obtain ⟨final, hlines, rfl⟩ := document_eq_ok.1 hdoc
  rw [hn] at hlines
  obtain ⟨x, r, r', hread, _, hrest⟩ := (lines_quotedDefault_eq_ok h).1 hlines
  have hhere : HasLeaf (.text x) ["defaults", name] (draftOf name x).entries :=
    .inside rfl (.here (by simp [nodeOf?]))
  have hfinal := kept_lines hrest _ _ hhere
  cases hfinal with
  | @inside _ _ origin inner _ htable hinner =>
    cases hinner with
    | here hleaf =>
      refine ⟨x, r, finishEntries inner, hread, ?_, ?_⟩
      · rw [find?_finishEntries, htable]
        rfl
      · rw [find?_finishEntries, hleaf]
        rfl
    | inside _ hnone => cases hnone

end

end TypedSettings.Toml
