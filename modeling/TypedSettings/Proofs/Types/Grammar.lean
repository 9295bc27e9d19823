import TypedSettings.Proofs.Types.Normal
import TypedSettings.Types.Parser

/-!
# The grammar of type expressions

Which tokens make up a type expression and what they stand for: first what a name with its
arguments stands for (`Denotes`), then how terms, choices and arguments are put together (`Forms`).
Main statements: every type that tokens stand for is in normal form (`Forms.normal`), and tokens of
an expression start with a name (`Forms.starts`).
-/

namespace TypedSettings.SettingType

open Token

variable [Payloads]

/-! ## Names -/

inductive ScalarName : String → Scalar → Prop where
  | bool : ScalarName "bool" .bool
  | int : ScalarName "int" .int
  | float : ScalarName "float" .float
  | str : ScalarName "str" .str
  | decimal : ScalarName "Decimal" .decimal
  | decimalModule : ScalarName "decimal" .decimal
  | decimalQualified : ScalarName "decimal.Decimal" .decimal
  | absent : ScalarName "None" .absent
  | absentType : ScalarName "NoneType" .absent

inductive ShapeName : String → Shape → Prop where
  | list : ShapeName "list" .list
  | listAlias : ShapeName "List" .list
  | set : ShapeName "set" .set
  | setAlias : ShapeName "Set" .set
  | tuple : ShapeName "tuple" .tuple
  | tupleAlias : ShapeName "Tuple" .tuple
  | map : ShapeName "dict" .map
  | mapAlias : ShapeName "Dict" .map

/-- A name whose meaning no registry changes. -/
inductive Fixed : String → Prop where
  | scalar {name : String} {s : Scalar} : ScalarName name s → Fixed name
  | shape {name : String} {s : Shape} : ShapeName name s → Fixed name
  | union : Fixed "Union"
  | optional : Fixed "Optional"

/-- The second name is the first without the package name that the first may start with. -/
inductive Shortens : String → String → Prop where
  | qualified (short : String) : Shortens ("typing." ++ short) short
  | plain {name : String} : ¬ "typing.".toList <+: name.toList → Shortens name name

/-- The registry knows a type under the name, and the name is not fixed. -/
def Offers (registry : Registry) (name : String) (t : SettingType) : Prop :=
  (∀ short, Shortens name short → ¬ Fixed short) ∧ registry.resolve name = some t

/-- What a name stands for, without arguments or with some in brackets. -/
inductive Denotes (registry : Registry) (name : String) :
    Option (List Argument) → SettingType → Prop where
  | scalar {short : String} {s : Scalar} : Shortens name short → ScalarName short s →
      Denotes registry name none (.scalar s)
  | bare {short : String} {s : Shape} : Shortens name short → ShapeName short s →
      Denotes registry name none (.bare s)
  | listOf {short : String} {t : SettingType} : Shortens name short → ShapeName short .list →
      Denotes registry name (some [.type t]) (.listOf t)
  | setOf {short : String} {t : SettingType} : Shortens name short → ShapeName short .set →
      Denotes registry name (some [.type t]) (.setOf t)
  | tupleOf {short : String} {t : SettingType} : Shortens name short → ShapeName short .tuple →
      Denotes registry name (some [.type t]) (.tupleOf t)
  | tupleDots {short : String} {t : SettingType} : Shortens name short → ShapeName short .tuple →
      Denotes registry name (some [.type t, .dots]) (.tupleOf t)
  | mapOf {short : String} {k c : SettingType} : Shortens name short → ShapeName short .map →
      Denotes registry name (some [.type k, .type c]) (.mapOf k c)
  | union {ts : List SettingType} : Shortens name "Union" → ts ≠ [] →
      Denotes registry name (some (ts.map .type)) (joinOf ts)
  | optional {t : SettingType} : Shortens name "Optional" →
      Denotes registry name (some [.type t]) (joinOf [t, .scalar .absent])
  | registered {t : SettingType} : Offers registry name t → Denotes registry name none t

/-! ## Expressions -/

/-- What some of the tokens of an expression stand for. -/
inductive Part where
  | union (t : SettingType)
  | terms (ts : List SettingType)
  | term (t : SettingType)
  | arguments (as : List Argument)
  | argument (a : Argument)

/-- The tokens form the part: a choice is made of terms with bars between them, a term of a name and
perhaps of arguments in brackets, and these have commas between them, and perhaps one after the
last. -/
inductive Forms (registry : Registry) : List Token → Part → Prop where
  | union {k : List Token} {ts : List SettingType} : Forms registry k (.terms ts) →
      Forms registry k (.union (joinOf ts))
  | lastTerm {k : List Token} {t : SettingType} : Forms registry k (.term t) →
      Forms registry k (.terms [t])
  | moreTerms {k l : List Token} {t : SettingType} {ts : List SettingType} :
      Forms registry k (.term t) → Forms registry l (.terms ts) →
      Forms registry (k ++ .bar :: l) (.terms (t :: ts))
  | name {name : String} {t : SettingType} : Denotes registry name none t →
      Forms registry [.name name] (.term t)
  | applied {k : List Token} {name : String} {as : List Argument} {t : SettingType} :
      Forms registry k (.arguments as) → Denotes registry name (some as) t →
      Forms registry (.name name :: .opening :: (k ++ [.closing])) (.term t)
  | lastArgument {k : List Token} {a : Argument} : Forms registry k (.argument a) →
      Forms registry k (.arguments [a])
  | lastComma {k : List Token} {a : Argument} : Forms registry k (.argument a) →
      Forms registry (k ++ [.comma]) (.arguments [a])
  | moreArguments {k l : List Token} {a : Argument} {as : List Argument} :
      Forms registry k (.argument a) → Forms registry l (.arguments as) →
      Forms registry (k ++ .comma :: l) (.arguments (a :: as))
  | dots : Forms registry [.dots] (.argument .dots)
  | type {k : List Token} {t : SettingType} : Forms registry k (.union t) →
      Forms registry k (.argument (.type t))

def Argument.type? : Argument → Option SettingType
  | .type t => some t
  | .dots => none

def Part.types : Part → List SettingType
  | union t => [t]
  | terms ts => ts
  | term t => [t]
  | arguments as => as.filterMap Argument.type?
  | argument a => a.type?.toList

/-! ## Normal form -/

section
variable {registry : Registry} {P : SettingType → Prop}

/-- What a registry resolves a name to is a user-defined type. -/
theorem normal_of_resolve {name : String} {t : SettingType} (h : registry.resolve name = some t)
    (ht : P t) : Normal P t := by
  unfold Registry.resolve at h
  split at h
  · cases h
    exact .hooked ht
  · obtain ⟨c, _, rfl⟩ := Option.map_eq_some_iff.1 h
    exact .built ht

theorem normal_optional {t : SettingType} (h : Normal P t) :
    ∀ u ∈ [t, .scalar .absent], Normal P u := by
  intro u hu
  rcases List.mem_cons.1 hu with rfl | hu
  · exact h
  · rw [List.mem_singleton.1 hu]
    exact .scalar .absent

/-- What a name with arguments in normal form stands for is in normal form. -/
theorem Denotes.normal {name : String} {as : Option (List Argument)} {t : SettingType}
    (h : Denotes registry name as t) (hP : ∀ t, Offers registry name t → P t)
    (has : ∀ bs ∈ as, ∀ u, .type u ∈ bs → Normal P u) : Normal P t := by
  cases h with
  | scalar => exact .scalar _
  | bare => exact .bare _
  | listOf => exact .listOf (has _ rfl _ (by simp))
  | setOf => exact .setOf (has _ rfl _ (by simp))
  | tupleOf => exact .tupleOf (has _ rfl _ (by simp))
  | tupleDots => exact .tupleOf (has _ rfl _ (by simp))
  | mapOf => exact .mapOf (has _ rfl _ (by simp)) (has _ rfl _ (by simp))
  | union _ hne => exact normal_joinOf hne fun u hu => has _ rfl u (List.mem_map_of_mem hu)
  | optional =>
    exact normal_joinOf (List.cons_ne_nil _ _) (normal_optional (has _ rfl _ (by simp)))
  | registered ho => exact normal_of_resolve ho.2 (hP _ ho)

theorem Forms.terms_ne_nil {k : List Token} {ts : List SettingType}
    (h : Forms registry k (.terms ts)) : ts ≠ [] := by
  cases h <;> exact List.cons_ne_nil _ _

/-- The types that tokens stand for are in normal form, with the property of whatever the registry
offers under their names. -/
theorem Forms.normal {k : List Token} {p : Part} (h : Forms registry k p)
    (hP : ∀ name, .name name ∈ k → ∀ t, Offers registry name t → P t) :
    ∀ t ∈ p.types, Normal P t := by
  induction h with
  | union hts ih =>
    intro t ht
    rw [List.mem_singleton.1 ht]
    -- there is at least one term, so that the terms have a join
    exact normal_joinOf hts.terms_ne_nil (ih hP)
  | lastTerm _ ih => exact ih hP
  | moreTerms _ _ iht ihts =>
    intro t ht
    rcases List.mem_cons.1 ht with rfl | ht
    · exact iht (fun name hn => hP name (by simp [hn])) _ (by simp [Part.types])
    · exact ihts (fun name hn => hP name (by simp [hn])) _ ht
  | name hd =>
    intro t ht
    rw [List.mem_singleton.1 ht]
    exact hd.normal (hP _ (by simp)) (by simp)
  | applied _ hd ih =>
    intro t ht
    rw [List.mem_singleton.1 ht]
    refine hd.normal (hP _ (by simp)) fun bs hbs u hu => ?_
    cases hbs
    refine ih (fun name hn => hP name (by simp [hn])) u ?_
    exact List.mem_filterMap.2 ⟨_, hu, rfl⟩
  | lastArgument _ ih =>
    intro t ht
    refine ih hP t ?_
    simpa [Part.types] using ht
  | lastComma _ ih =>
    intro t ht
    refine ih (fun name hn => hP name (by simp [hn])) t ?_
    simpa [Part.types] using ht
  | moreArguments _ _ iha ihas =>
    intro t ht
    obtain ⟨b, hb, hbt⟩ := List.mem_filterMap.1 ht
    rcases List.mem_cons.1 hb with rfl | hb
    · exact iha (fun name hn => hP name (by simp [hn])) t (by simp [Part.types, hbt])
    · exact ihas (fun name hn => hP name (by simp [hn])) t (List.mem_filterMap.2 ⟨b, hb, hbt⟩)
  | dots =>
    intro t ht
    cases ht
  | type _ ih => exact ih hP

/-! ## First tokens -/

/-- Whether the part may start with dots. -/
def Part.mayBeDots : Part → Bool
  | arguments _ | argument _ => true
  | _ => false

/-- The tokens of a part start with a name, or with dots where these may stand. -/
theorem Forms.starts {k : List Token} {p : Part} (h : Forms registry k p) :
    ∃ x l, k = x :: l ∧ ((∃ name, x = .name name) ∨ x = .dots ∧ p.mayBeDots = true) := by
  induction h with
  | union _ ih => exact ih
  | lastTerm _ ih => exact ih
  | moreTerms _ _ ih _ =>
    obtain ⟨x, l, rfl, hx⟩ := ih
    exact ⟨x, _, rfl, hx⟩
  | name => exact ⟨_, _, rfl, .inl ⟨_, rfl⟩⟩
  | applied => exact ⟨_, _, rfl, .inl ⟨_, rfl⟩⟩
  | lastArgument _ ih => exact ih
  | lastComma _ ih =>
    obtain ⟨x, l, rfl, hx⟩ := ih
    exact ⟨x, _, rfl, hx⟩
  | moreArguments _ _ ih _ =>
    obtain ⟨x, l, rfl, hx⟩ := ih
    exact ⟨x, _, rfl, hx⟩
  | dots => exact ⟨_, _, rfl, .inr ⟨rfl, rfl⟩⟩
  | type _ ih =>
    obtain ⟨x, l, rfl, hx⟩ := ih
    exact ⟨x, l, rfl, .inl (hx.resolve_right fun hd => by cases hd.2)⟩

end

end TypedSettings.SettingType
