import TypedSettings.Proofs.Definition.Keys
import TypedSettings.Proofs.Definition.References
import TypedSettings.Proofs.Toml.Defaults

/-!
# A reference in double quotes

References are replaced in the text of a definition before it is read as TOML, so that what a
variable holds is read as a part of the document. Main statement: a default that is a reference in
double quotes is the text of the variable exactly if that text has no quote, no backslash and no
control character but the tab (`parse_quotedReference_iff`).
-/

namespace TypedSettings.Definition

open Reference Text Toml

section
variable [Payloads]

/-- The text of a definition with one setting, whose default is a reference in double quotes. -/
def quotedReference (name source : String) : String :=
  "[defaults]\n" ++ name ++ " = \"$\x7b" ++ source ++ "\x7d\"\n"

/-! ## Replacing the reference -/

def quotedLines (name source : String) : List (List Piece) :=
  ["[defaults]".toList.map .char,
    name.toList.map .char ++ (" = \"".toList.map .char ++
      [.reference source.toList, .char '\x22'])]

omit [Payloads] in
theorem written_quotedLines (name source : String) :
    written (quotedLines name source) = (quotedReference name source).toList := by
  simp [written, quotedLines, quotedReference, flatMap_written_chars, Piece.written]

omit [Payloads] in
theorem plain_of_isBareKeyChar {c : Char} (h : isBareKeyChar c = true) :
    c ≠ '$' ∧ c ≠ '\n' ∧ c ≠ '\r' ∧ c ≠ '#' :=
  ⟨ne_of_kind h rfl, ne_of_kind h rfl, ne_of_kind h rfl, ne_of_kind h rfl⟩

section
variable {env : Environment} {name source t : String} (hname : isSettingName name = true)
  (hsource : isName source.toList = true) (ht : env source = some t)

include hname hsource ht

omit [Payloads] in
theorem ready_quotedLines : ∀ l ∈ quotedLines name source, Ready env l := by
  obtain ⟨_, hbare⟩ := isBareKeyChar_of_isSettingName hname
  have hset : env (String.ofList source.toList) = some t := by rwa [String.ofList_toList]
  intro l hl
  apply ready_of_plain
  rcases List.mem_pair.1 hl with rfl | rfl
  · exact plain_chars (by simp)
  · intro p hp
    rcases List.mem_append.1 hp with hp | hp
    · exact plain_chars (fun c hc => plain_of_isBareKeyChar (hbare c hc)) p hp
    · rcases List.mem_append.1 hp with hp | hp
      · exact plain_chars (by simp) p hp
      · rcases List.mem_pair.1 hp with rfl | rfl
        · exact plain_reference hsource hset
        · exact plain_char (by decide)

omit [Payloads] in
/-- What is read as TOML has the text of the variable between the quotes. -/
theorem resolve_quotedReference :
    resolve env (quotedReference name source) =
      .ok (String.ofList (quotedDefault name (t.toList ++ ['\x22']))) := by
  have hresolve := resolve_written (ready_quotedLines hname hsource ht)
  have hreplaced : ['\n'].intercalate
      ((quotedLines name source).map (List.flatMap (Piece.replaced env))) =
        quotedDefault name (t.toList ++ ['\x22']) := by
    have hpair : [Piece.reference source.toList, .char '\x22'].flatMap (Piece.replaced env) =
        t.toList ++ ['\x22'] := by
      simp [Piece.replaced, ht]
    simp only [quotedLines, List.map_cons, List.map_nil, List.flatMap_append,
      flatMap_replaced_chars, hpair, List.intercalate, List.intersperse, List.flatten_cons,
      List.flatten_nil, List.append_nil]
    rfl
  rw [hreplaced] at hresolve
  have hwritten : quotedReference name source =
      String.ofList (written (quotedLines name source)) := by
    rw [written_quotedLines, String.ofList_toList]
  rw [hwritten, hresolve]

end

/-! ## The definition that is read -/

section
variable {registry : Registry} {env : Environment} {name source t : String}
  (hname : isSettingName name = true) (hsource : isName source.toList = true)
  (ht : env source = some t)

include hname hsource ht

/-- What a document holds besides does not change the default of the setting. -/
theorem exists_read_of_parse {definition : Definition}
    (h : parse registry env (quotedReference name source) = .ok definition) {s : Setting}
    (hs : definition.find? name = some s) :
    ∃ x r, quotedText '\x22' (t.toList ++ ['\x22']) = .ok (x, r) ∧ s.default = .str x := by
  obtain ⟨document, hdecodes, hbuilt⟩ := parse_eq_ok.1 h
  have hgives := gives_of_ofDeclarations hdecodes.ascending hbuilt hs
  obtain ⟨text, table, hresolve, htable, hdefaults, _⟩ := hdecodes
  rw [resolve_quotedReference hname hsource ht] at hresolve
  cases hresolve
  have hread := tomlParse_eq_ok.1 htable
  rw [String.toList_ofList] at hread
  obtain ⟨x, r, entries, hx, hentries, hentry⟩ := exists_text_of_document hname hread
  rw [← hdefaults.eq_of_find? hentries] at hentry
  refine ⟨x, r, hx, ?_⟩
  rw [hgives.default, hentry]
  rfl

theorem parse_of_verbatim (hverbatim : ∀ c ∈ t.toList, Verbatim c) :
    parse registry env (quotedReference name source) =
      .ok [(name, ⟨.str t, none, .scalar .str⟩)] := by
  have hread : Toml.parse (String.ofList (quotedDefault name (t.toList ++ ['\x22']))) =
      .ok [("defaults", .table [(name, .text t)])] := by
    rw [tomlParse_eq_ok, String.toList_ofList]
    exact document_quotedDefault hname hverbatim
  have hdecodes : Decodes env (quotedReference name source) ⟨[(name, .text t)], []⟩ :=
    ⟨_, _, resolve_quotedReference hname hsource ht, hread, .table rfl, .missing rfl⟩
  have hdeclarations :
      Document.declarations ⟨[(name, .text t)], []⟩ = [(name, ⟨.str t, none⟩)] := by
    simp [Document.declarations, hname, Table.find?_nil, Toml.toValue]
  have hsetting : settingOf registry name ⟨.str t, none⟩ = .ok ⟨.str t, none, .scalar .str⟩ := by
    rw [settingOf, if_pos hname]
    rfl
  rw [hdecodes.parse_eq, hdeclarations]
  exact build_cons_eq_ok.2 ⟨_, [], hsetting, rfl, rfl⟩

end

/-- The default is the text of the variable exactly if that text has no quote, no backslash and no
control character but the tab. -/
theorem parse_quotedReference_iff (registry : Registry) (env : Environment) (name source t : String)
    (hname : isSettingName name = true) (hsource : isName source.toList = true)
    (ht : env source = some t) :
    (∃ s, parse registry env (quotedReference name source) = .ok [(name, s)] ∧
      s.default = .str t) ↔ ∀ c ∈ t.toList, Verbatim c := by
  constructor
  · rintro ⟨s, hparse, hs⟩
    obtain ⟨x, r, hread, hx⟩ :=
      exists_read_of_parse hname hsource ht hparse (by rw [Table.find?_cons, if_pos rfl])
    rw [hs] at hx
    cases hx
    exact quotedText_eq_ok_iff.1 ⟨r, hread⟩
  · intro hverbatim
    exact ⟨_, parse_of_verbatim hname hsource ht hverbatim, rfl⟩

end

open Payloads.Integers

/-- A text with a dollar sign and a number sign is taken over, and one with a quote is not. -/
theorem parse_quotedReference_samples :
    (∃ s, parse {} (Environment.empty.set "TOKEN" "s3#$\x7bcret")
        (quotedReference "API_KEY" "TOKEN") = .ok [("API_KEY", s)] ∧
      s.default = .str "s3#$\x7bcret") ∧
    ¬ ∃ s, parse {} (Environment.empty.set "TOKEN" "s3\"cret")
        (quotedReference "API_KEY" "TOKEN") = .ok [("API_KEY", s)] ∧
      s.default = .str "s3\"cret" := by
  constructor
  · exact (parse_quotedReference_iff {} (Environment.empty.set "TOKEN" "s3#$\x7bcret") "API_KEY"
      "TOKEN" "s3#$\x7bcret" (by decide) (by decide) (by simp [Environment.set])).2
      (by simp [Verbatim])
  · intro h
    have hverbatim := (parse_quotedReference_iff {} (Environment.empty.set "TOKEN" "s3\"cret")
      "API_KEY" "TOKEN" "s3\"cret" (by decide) (by decide) (by simp [Environment.set])).1 h
    exact absurd (hverbatim '\x22' (by decide)) (by decide)

/-- A text with a quote can end the default and declare one more setting. -/
theorem parse_quotedReference_injected :
    isSettingName "KEY" = true ∧ isName "TOKEN".toList = true ∧
      parse {} (Environment.empty.set "TOKEN" "x\"\nADMIN = \"yes")
          (quotedReference "KEY" "TOKEN") =
        .ok [("ADMIN", ⟨.str "yes", none, .scalar .str⟩),
          ("KEY", ⟨.str "x", none, .scalar .str⟩)] ∧
      ¬ ∃ s, parse {} (Environment.empty.set "TOKEN" "x\"\nADMIN = \"yes")
          (quotedReference "KEY" "TOKEN") = .ok [("KEY", s)] ∧
        s.default = .str "x\"\nADMIN = \"yes" := by
  have hset : Environment.empty.set "TOKEN" "x\"\nADMIN = \"yes" "TOKEN" =
      some "x\"\nADMIN = \"yes" := by simp [Environment.set]
  have hresolve := resolve_quotedReference (show isSettingName "KEY" = true by decide)
    (show isName "TOKEN".toList = true by decide) hset
  have htable : Toml.parse (String.ofList
      (quotedDefault "KEY" ("x\"\nADMIN = \"yes".toList ++ ['\x22']))) =
      .ok [("defaults", .table [("ADMIN", .text "yes"), ("KEY", .text "x")])] := by
    have hread : quotedDefault "KEY" ("x\"\nADMIN = \"yes".toList ++ ['\x22']) =
        "[defaults]\nKEY = \"x\"\nADMIN = \"yes\"".toList := by decide
    rw [tomlParse_eq_ok, String.toList_ofList, hread]
    simp only [String.reduceToList]
    rfl
  have hdecodes : Decodes _ _ ⟨[("ADMIN", .text "yes"), ("KEY", .text "x")], []⟩ :=
    ⟨_, _, hresolve, htable, .table rfl, .missing rfl⟩
  have hdeclarations : Document.declarations ⟨[("ADMIN", .text "yes"), ("KEY", .text "x")], []⟩ =
      [("ADMIN", ⟨.str "yes", none⟩), ("KEY", ⟨.str "x", none⟩)] := rfl
  have hparse : parse {} (Environment.empty.set "TOKEN" "x\"\nADMIN = \"yes")
      (quotedReference "KEY" "TOKEN") =
      .ok [("ADMIN", ⟨.str "yes", none, .scalar .str⟩),
        ("KEY", ⟨.str "x", none, .scalar .str⟩)] := by
    rw [hdecodes.parse_eq, hdeclarations]
    rfl
  refine ⟨by decide, by decide, hparse, ?_⟩
  rintro ⟨s, hone, _⟩
  have htwo := hparse.symm.trans hone
  simp only [Except.ok.injEq, List.cons.injEq, reduceCtorEq, and_false] at htwo

end TypedSettings.Definition
