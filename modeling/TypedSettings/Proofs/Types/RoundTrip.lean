import TypedSettings.Proofs.Types.Registered

/-!
# Canonical texts are read back

The canonical text of a type is an expression of the type itself. Characters write a part of an
expression if they spell tokens that form it (`Writes`), and there is one lemma for each way to put
parts together. Main statements: the canonical text of a type in normal form, whose user-defined
types the registry offers, writes it (`writesItself`); with a named registry, every type that an
expression was read as is read back from its canonical text (`parse_render_of_parse`).
-/

namespace TypedSettings.SettingType

open Token

/-! ## Canonical names -/

theorem isName_scalar (s : Scalar) : IsName s.name := by
  cases s <;> exact isName_of_all rfl (by decide) (by decide)

theorem isName_shape (s : Shape) : IsName s.name := by
  cases s <;> exact isName_of_all rfl (by decide) (by decide)

theorem scalarName_name (s : Scalar) : ScalarName s.name s := by
  cases s <;> constructor

theorem shapeName_name (s : Shape) : ShapeName s.name s := by
  cases s <;> constructor

theorem shortens_scalar (s : Scalar) : Shortens s.name s.name := by
  cases s <;> exact .plain (by decide)

theorem shortens_shape (s : Shape) : Shortens s.name s.name := by
  cases s <;> exact .plain (by decide)

section
variable [Payloads]

/-- The characters spell tokens that form the part. -/
def Writes (registry : Registry) (s : List Char) (p : Part) : Prop :=
  ∃ k, Spells s k ∧ Forms registry k p

section
variable {registry : Registry} {name : String} {s r : List Char} {t : SettingType}
  {as : List Argument} {a : Argument}

/-! ## Parts side by side -/

theorem writes_of_parse {expression : String} (h : parse registry expression = .ok t) :
    Writes registry expression.toList (.union t) := forms_of_parse h

theorem Writes.parse {expression : String} (h : Writes registry expression.toList (.union t)) :
    parse registry expression = .ok t := by
  obtain ⟨k, hk, hform⟩ := h
  exact parse_of_forms hk hform

theorem writes_name (hn : IsName name) (hd : Denotes registry name none t) :
    Writes registry name.toList (.term t) :=
  ⟨_, spells_name hn, .name hd⟩

/-- Arguments in brackets, behind a name. -/
theorem Writes.applied (h : Writes registry s (.arguments as)) (hn : IsName name)
    (hd : Denotes registry name (some as) t) :
    Writes registry (name.toList ++ '[' :: (s ++ [']'])) (.term t) := by
  obtain ⟨k, hk, hform⟩ := h
  have hclosed : Spells (s ++ [']']) (k ++ [.closing]) :=
    hk.append (.lexeme (.closing []) .done) (head_stops (by decide) [])
  have hopened := (spells_name hn).append (.lexeme (.opening _) hclosed)
    (head_stops (by decide) _)
  exact ⟨_, hopened, .applied hform hd⟩

theorem Writes.lastArgument (h : Writes registry s (.union t)) :
    Writes registry s (.arguments [.type t]) := by
  obtain ⟨k, hk, hform⟩ := h
  exact ⟨k, hk, .lastArgument (.type hform)⟩

/-- An argument before a comma. -/
theorem Writes.moreArguments (h : Writes registry s (.union t))
    (hr : Writes registry r (.arguments as)) :
    Writes registry (s ++ ',' :: ' ' :: r) (.arguments (.type t :: as)) := by
  obtain ⟨k, hk, hform⟩ := h
  obtain ⟨l, hl, hforms⟩ := hr
  have hsep : Spells (',' :: ' ' :: r) (.comma :: l) := .lexeme (.comma _) (.blank (by decide) hl)
  exact ⟨_, hk.append hsep (head_stops (by decide) _), .moreArguments (.type hform) hforms⟩

theorem writes_dots : Writes registry ['.', '.', '.'] (.arguments [.dots]) :=
  ⟨_, .lexeme (.dots []) .done, .lastArgument .dots⟩

/-- Terms with bars between them. -/
theorem writes_terms {ts : List SettingType} (hne : ts ≠ [])
    (h : ∀ t ∈ ts, Writes registry t.chars (.term t)) :
    Writes registry ([' ', '|', ' '].intercalate (charsEach ts)) (.terms ts) := by
  induction ts with
  | nil => exact absurd rfl hne
  | cons t ts ih =>
    obtain ⟨k, hk, hform⟩ := h t List.mem_cons_self
    cases ts with
    | nil =>
      rw [charsEach, charsEach, List.intercalate_singleton]
      exact ⟨k, hk, .lastTerm hform⟩
    | cons u us =>
      obtain ⟨l, hl, hforms⟩ := ih (List.cons_ne_nil u us) fun v hv =>
        h v (List.mem_cons_of_mem _ hv)
      have hsep : Spells (' ' :: '|' :: ' ' :: [' ', '|', ' '].intercalate (charsEach (u :: us)))
          (.bar :: l) :=
        .blank (by decide) (.lexeme (.bar _) (.blank (by decide) hl))
      have hall := hk.append hsep (head_stops (by decide) _)
      rw [charsEach, charsEach, List.intercalate_cons_cons, ← charsEach]
      refine ⟨_, ?_, .moreTerms hform hforms⟩
      simpa using hall

/-- A term in normal form is a choice by itself. -/
theorem Writes.union {P : SettingType → Prop} (h : Writes registry s (.term t)) (ht : Normal P t) :
    Writes registry s (.union t) := by
  obtain ⟨k, hk, hform⟩ := h
  rw [← joinOf_eq_of_join? (join?_singleton ht)]
  exact ⟨k, hk, .union (.lastTerm hform)⟩

/-! ## Canonical texts -/

/-- The canonical text of the type writes it, as a term unless it is a choice. -/
def WritesItself (registry : Registry) (t : SettingType) : Prop :=
  Writes registry t.chars (.union t) ∧
    ((∀ us, t ≠ .choice us) → Writes registry t.chars (.term t))

theorem Writes.itself (h : Writes registry t.chars (.term t)) (ht : Normal (Offered registry) t) :
    WritesItself registry t := ⟨h.union ht, fun _ => h⟩

theorem writes_offered (hr : registry.HooksNamed) (h : Offered registry t) :
    Writes registry t.chars (.term t) := by
  obtain ⟨name, hname, ho⟩ := h
  rw [chars_of_offers hr ho]
  exact writes_name hname (.registered ho)

/-- The canonical text of a type in normal form writes the type. -/
theorem writesItself (hr : registry.HooksNamed) (ht : Normal (Offered registry) t) :
    WritesItself registry t := by
  induction ht with
  | scalar s =>
    have hs : Writes registry (scalar s).chars (.term (scalar s)) :=
      writes_name (isName_scalar s) (.scalar (shortens_scalar s) (scalarName_name s))
    exact hs.itself (.scalar s)
  | bare s =>
    have hs : Writes registry (bare s).chars (.term (bare s)) :=
      writes_name (isName_shape s) (.bare (shortens_shape s) (shapeName_name s))
    exact hs.itself (.bare s)
  | built ho => exact (writes_offered hr ho).itself (.built ho)
  | hooked ho => exact (writes_offered hr ho).itself (.hooked ho)
  | listOf ht ih =>
    have hlist := ih.1.lastArgument.applied (isName_shape .list)
      (.listOf (shortens_shape .list) (shapeName_name .list))
    exact hlist.itself (.listOf ht)
  | setOf ht ih =>
    have hset := ih.1.lastArgument.applied (isName_shape .set)
      (.setOf (shortens_shape .set) (shapeName_name .set))
    exact hset.itself (.setOf ht)
  | tupleOf ht ih =>
    have htuple := (ih.1.moreArguments writes_dots).applied (isName_shape .tuple)
      (.tupleDots (shortens_shape .tuple) (shapeName_name .tuple))
    rw [List.append_assoc] at htuple
    exact htuple.itself (.tupleOf ht)
  | mapOf hk hc ihk ihc =>
    have hmap := (ihk.1.moreArguments ihc.1.lastArgument).applied (isName_shape .map)
      (.mapOf (shortens_shape .map) (shapeName_name .map))
    rw [List.append_assoc] at hmap
    exact hmap.itself (.mapOf hk hc)
  | @choice ts hlen hts hflat hd ih =>
    refine ⟨?_, fun h => absurd rfl (h ts)⟩
    have hne : ts ≠ [] := by
      rintro rfl
      simp at hlen
    -- in normal form a choice is the join of its alternatives, each of which is written as a term
    obtain ⟨k, hk, hform⟩ := writes_terms hne fun t ht => (ih t ht).2 (hflat t ht)
    refine ⟨k, hk, ?_⟩
    rw [← joinOf_eq_of_join? (join?_alternatives (.choice hlen hts hflat hd))]
    exact .union hform

/-- With a named registry, a type that an expression was read as is read back from its canonical
text, which is therefore the canonical text of what is read from it. -/
theorem parse_render_of_parse (hr : registry.HooksNamed) {expression : String}
    (h : parse registry expression = .ok t) : parse registry t.render = .ok t := by
  refine Writes.parse ?_
  rw [render, String.toList_ofList]
  exact (writesItself hr (normal_of_parse h)).1

end

end

open Payloads.Integers in
theorem parse_render_of_parse_sample :
    ∃ t, parse .sample "typing.Optional[Even | List[net.Port,] | Even]" = .ok t ∧
      t.render = "Even | list[net.Port] | None" ∧ parse .sample t.render = .ok t := by
  have h : parse .sample "typing.Optional[Even | List[net.Port,] | Even]" =
      .ok (.choice [Registry.evenHook.type, .listOf Registry.portType, .scalar .absent]) :=
    parse_eq_ok.2 ⟨[⟨0, .name "typing.Optional"⟩, ⟨15, .opening⟩, ⟨16, .name "Even"⟩, ⟨21, .bar⟩,
      ⟨23, .name "List"⟩, ⟨27, .opening⟩, ⟨28, .name "net.Port"⟩, ⟨36, .comma⟩, ⟨37, .closing⟩,
      ⟨39, .bar⟩, ⟨41, .name "Even"⟩, ⟨45, .closing⟩], rfl, rfl⟩
  exact ⟨_, h, rfl, parse_render_of_parse Registry.hooksNamed_sample h⟩

end TypedSettings.SettingType
