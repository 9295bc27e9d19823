import TypedSettings.Proofs.Types.Grammar
import TypedSettings.Proofs.Types.Tokens

/-!
# Reading exactly the type expressions

The readers of tokens take what the grammar forms, and give what it stands for. What they take is
formed (`ReadsFormed`), by induction on their fuel; what is formed they take if they have fuel for
its tokens and it may end there (`Forms.taken`), by induction on how it is formed. Main statement: a
text is read as a type exactly if it spells tokens that form the type (`parse_eq_ok_iff_forms`).
-/

namespace TypedSettings.SettingType

open Token

/-! ## Names -/

theorem bareName_qualified (short : String) : bareName ("typing." ++ short) = short := by
  simp [bareName, String.toList_append]

theorem bareName_plain {name : String} (h : ¬ "typing.".toList <+: name.toList) :
    bareName name = name :=
  if_neg fun hp => h (List.isPrefixOf_iff_prefix.1 hp)

theorem shortens_iff {name short : String} : Shortens name short ↔ bareName name = short := by
  constructor
  · intro h
    cases h with
    | qualified => exact bareName_qualified short
    | plain hno => exact bareName_plain hno
  · rintro rfl
    by_cases hp : "typing.".toList <+: name.toList
    · obtain ⟨rest, hrest⟩ := hp
      have hname : name = "typing." ++ String.ofList rest := by
        rw [← String.toList_inj]
        simpa using hrest.symm
      rw [hname, bareName_qualified]
      exact .qualified _
    · rw [bareName_plain hp]
      exact .plain hp

theorem scalarOf?_eq_some_iff {name : String} {s : Scalar} :
    scalarOf? name = some s ↔ ScalarName name s := by
  constructor
  · intro h
    unfold scalarOf? at h
    split at h <;> cases h <;> constructor
  · intro h
    cases h <;> rfl

theorem shapeOf?_eq_some_iff {name : String} {s : Shape} :
    shapeOf? name = some s ↔ ShapeName name s := by
  constructor
  · intro h
    unfold shapeOf? at h
    split at h <;> cases h <;> constructor
  · intro h
    cases h <;> rfl

/-- No shape has the name of a scalar. -/
theorem scalarOf?_of_shapeName {name : String} {s : Shape} (h : ShapeName name s) :
    scalarOf? name = none := by
  cases h <;> rfl

/-! ## Tokens apart -/

theorem eat?_eq_some_iff {x : Token} {ts r : List Placed} :
    eat? x ts = some r ↔ ∃ p, ts = p :: r ∧ p.token = x := by
  cases ts with
  | nil => simp [eat?]
  | cons p ts =>
    simp only [eat?]
    constructor
    · intro h
      split at h
      · cases h
        exact ⟨p, rfl, ‹_›⟩
      · cases h
    · rintro ⟨q, hq, rfl⟩
      cases hq
      exact if_pos rfl

theorem eat?_suffix {x : Token} {ts r : List Placed} (h : eat? x ts = some r) : r <:+ ts := by
  obtain ⟨p, rfl, -⟩ := eat?_eq_some_iff.1 h
  exact List.suffix_cons ..

theorem length_of_eat? {x : Token} {ts r : List Placed} (h : eat? x ts = some r) :
    ts.length = r.length + 1 := by
  obtain ⟨p, rfl, -⟩ := eat?_eq_some_iff.1 h
  exact List.length_cons

theorem eat?_of_ne {x : Token} {p : Placed} {r : List Placed} (h : p.token ≠ x) :
    eat? x (p :: r) = none := if_neg h

theorem eat?_of_eq {x : Token} {p : Placed} {r : List Placed} (h : p.token = x) :
    eat? x (p :: r) = some r := if_pos h

/-- A choice may end where neither arguments nor another term follow. -/
def Ends (r : List Placed) : Prop := eat? .opening r = none ∧ eat? .bar r = none

theorem ends_cons {p : Placed} {r : List Placed} (ho : p.token ≠ .opening) (hb : p.token ≠ .bar) :
    Ends (p :: r) := ⟨eat?_of_ne ho, eat?_of_ne hb⟩

/-- Tokens placed apart, from those of two runs with a mark between them. -/
theorem exists_placed {ps : List Placed} {k l : List Token} {x : Token}
    (h : ps.map Placed.token = k ++ x :: l) :
    ∃ qs p rs, ps = qs ++ p :: rs ∧ qs.map Placed.token = k ∧ p.token = x ∧
      rs.map Placed.token = l := by
  obtain ⟨qs, ts, rfl, hq, ht⟩ := List.map_eq_append_iff.1 h
  obtain ⟨p, rs, rfl, hp, hr⟩ := List.map_eq_cons_iff.1 ht
  exact ⟨qs, p, rs, rfl, hq, hp, hr⟩

variable [Payloads] {registry : Registry}

/-! ## What names denote -/

theorem unionOf_eq_ok_iff {ts : List SettingType} {t : SettingType} :
    unionOf ts = .ok t ↔ join? ts = some t := by
  unfold unionOf
  cases join? ts <;> simp

theorem typesOf?_eq_some_iff {as : List Argument} {ts : List SettingType} :
    typesOf? as = some ts ↔ as = ts.map .type := by
  unfold typesOf?
  induction as generalizing ts with
  | nil => cases ts <;> simp
  | cons a as ih =>
    cases a with
    | dots => cases ts <;> simp
    | type t => cases ts <;> simp [Option.bind_eq_some_iff, ih, and_left_comm]

theorem container_sound {name short : String} {shape : Shape} {as : List Argument} {t : SettingType}
    (hn : Shortens name short) (hs : ShapeName short shape) (h : container shape as = .ok t) :
    Denotes registry name (some as) t := by
  unfold container at h
  split at h
  · cases h
    exact .listOf hn hs
  · cases h
    exact .setOf hn hs
  · cases h
    exact .tupleOf hn hs
  · cases h
    exact .tupleDots hn hs
  · cases h
    exact .mapOf hn hs
  · cases h
  · cases h
  · cases h

theorem choiceOf_sound {name short : String} {as : List Argument} {t : SettingType}
    (hn : Shortens name short) (hs : short = "Union" ∨ short = "Optional")
    (h : choiceOf short as = .ok t) : Denotes registry name (some as) t := by
  unfold choiceOf at h
  split at h
  · cases h
  · rename_i u hu
    obtain rfl := typesOf?_eq_some_iff.1 hu
    rw [← joinOf_eq_of_join? (unionOf_eq_ok_iff.1 h)]
    exact .optional hn
  · cases h
  · rename_i us hu _ hno
    obtain rfl := typesOf?_eq_some_iff.1 hu
    rw [← joinOf_eq_of_join? (unionOf_eq_ok_iff.1 h)]
    refine .union (hs.resolve_right hno ▸ hn) ?_
    rintro rfl
    cases h

/-- What a name and its arguments resolve to is what they denote. -/
theorem denotes_of_resolve {name : String} {as : Option (List Argument)} {t : SettingType}
    (h : resolve registry name as = .ok t) : Denotes registry name as t := by
  obtain ⟨short, hshort⟩ : ∃ short, bareName name = short := ⟨_, rfl⟩
  have hn : Shortens name short := shortens_iff.2 hshort
  unfold resolve at h
  simp only [hshort] at h
  split at h
  · rename_i s hs
    cases as with
    | none =>
      cases h
      exact .scalar hn (scalarOf?_eq_some_iff.1 hs)
    | some as => cases h
  · rename_i s _ hs
    have hs := shapeOf?_eq_some_iff.1 hs
    cases as with
    | none =>
      cases h
      exact .bare hn hs
    | some as => exact container_sound hn hs h
  · rename_i hscalar hshape
    split at h
    · rename_i hchoice
      cases as with
      | none => cases h
      | some as => exact choiceOf_sound hn hchoice h
    · rename_i hchoice
      split at h
      · cases h
      · rename_i u hu
        cases as with
        | some as => cases h
        | none =>
          cases h
          refine .registered ⟨fun other hother hfixed => ?_, hu⟩
          obtain rfl : other = short := (shortens_iff.1 hother).symm.trans hshort
          cases hfixed with
          | scalar hs =>
            rw [scalarOf?_eq_some_iff.2 hs] at hscalar
            cases hscalar
          | shape hs =>
            rw [shapeOf?_eq_some_iff.2 hs] at hshape
            cases hshape
          | union => exact hchoice (.inl rfl)
          | optional => exact hchoice (.inr rfl)

theorem resolve_shape {name short : String} {shape : Shape} (hn : Shortens name short)
    (hs : ShapeName short shape) (as : List Argument) :
    resolve registry name (some as) = container shape as := by
  simp [resolve, shortens_iff.1 hn, scalarOf?_of_shapeName hs, shapeOf?_eq_some_iff.2 hs]

theorem resolve_choice {name short : String} (hn : Shortens name short)
    (hs : short = "Union" ∨ short = "Optional") (as : List Argument) :
    resolve registry name (some as) = choiceOf short as := by
  have hscalar : scalarOf? short = none := by rcases hs with rfl | rfl <;> rfl
  have hshape : shapeOf? short = none := by rcases hs with rfl | rfl <;> rfl
  simp [resolve, shortens_iff.1 hn, hscalar, hshape, hs]

/-- Types in normal form have a join. -/
theorem unionOf_of_normal {P : SettingType → Prop} {ts : List SettingType} (hne : ts ≠ [])
    (h : ∀ t ∈ ts, Normal P t) : unionOf ts = .ok (joinOf ts) :=
  unionOf_eq_ok_iff.2 (join?_eq_joinOf hne h)

theorem choiceOf_union {P : SettingType → Prop} {ts : List SettingType} (hne : ts ≠ [])
    (h : ∀ t ∈ ts, Normal P t) : choiceOf "Union" (ts.map .type) = .ok (joinOf ts) := by
  unfold choiceOf
  rw [typesOf?_eq_some_iff.2 rfl]
  match ts with
  | [] => exact absurd rfl hne
  | [_] => exact unionOf_of_normal hne h
  | _ :: _ :: _ => exact unionOf_of_normal hne h

theorem choiceOf_optional {P : SettingType → Prop} {t : SettingType} (h : Normal P t) :
    choiceOf "Optional" [.type t] = .ok (joinOf [t, .scalar .absent]) := by
  have htypes : typesOf? [.type t] = some [t] := typesOf?_eq_some_iff.2 rfl
  unfold choiceOf
  rw [htypes]
  exact unionOf_of_normal (List.cons_ne_nil _ _) (normal_optional h)

/-- A name that is not fixed is looked up. -/
theorem resolve_registered {name : String} {t : SettingType} (h : Offers registry name t) :
    resolve registry name none = .ok t := by
  obtain ⟨hfree, ht⟩ := h
  have hfree := hfree (bareName name) (shortens_iff.2 rfl)
  have hscalar : scalarOf? (bareName name) = none :=
    Option.eq_none_iff_forall_ne_some.2 fun s hs => hfree (.scalar (scalarOf?_eq_some_iff.1 hs))
  have hshape : shapeOf? (bareName name) = none :=
    Option.eq_none_iff_forall_ne_some.2 fun s hs => hfree (.shape (shapeOf?_eq_some_iff.1 hs))
  have hunion : bareName name ≠ "Union" := fun h => hfree (h ▸ .union)
  have hoptional : bareName name ≠ "Optional" := fun h => hfree (h ▸ .optional)
  simp [resolve, hscalar, hshape, hunion, hoptional, ht]

/-- What a name and its arguments denote is what they resolve to, if the types among the arguments
are in normal form. -/
theorem resolve_of_denotes {P : SettingType → Prop} {name : String} {as : Option (List Argument)}
    {t : SettingType} (h : Denotes registry name as t)
    (has : ∀ bs ∈ as, ∀ u, .type u ∈ bs → Normal P u) : resolve registry name as = .ok t := by
  cases h with
  | scalar hn hs => simp [resolve, shortens_iff.1 hn, scalarOf?_eq_some_iff.2 hs]
  | bare hn hs =>
    simp [resolve, shortens_iff.1 hn, scalarOf?_of_shapeName hs, shapeOf?_eq_some_iff.2 hs]
  | listOf hn hs => exact resolve_shape hn hs _
  | setOf hn hs => exact resolve_shape hn hs _
  | tupleOf hn hs => exact resolve_shape hn hs _
  | tupleDots hn hs => exact resolve_shape hn hs _
  | mapOf hn hs => exact resolve_shape hn hs _
  | union hn hne =>
    rw [resolve_choice hn (.inl rfl)]
    exact choiceOf_union hne fun u hu => has _ rfl u (List.mem_map_of_mem hu)
  | optional hn =>
    rw [resolve_choice hn (.inr rfl)]
    exact choiceOf_optional (has _ rfl _ (by simp))
  | registered ho => exact resolve_registered ho

/-! ## What readers take is formed -/

/-- The tokens up to those that are left form the part. -/
def TakesFormed (registry : Registry) (ts : List Placed) (p : Part) (r : List Placed) : Prop :=
  ∃ k, ts.map Placed.token = k ++ r.map Placed.token ∧ Forms registry k p

/-- What the readers take with the fuel is formed. -/
structure ReadsFormed (registry : Registry) (fuel : Nat) : Prop where
  union : ∀ {ts t r}, union registry fuel ts = .ok (t, r) → TakesFormed registry ts (.union t) r
  moreTerms : ∀ {ts us r}, moreTerms registry fuel ts = .ok (us, r) → us = [] ∧ r = ts ∨
    ∃ a, eat? .bar ts = some a ∧ TakesFormed registry a (.terms us) r
  term : ∀ {ts t r}, term registry fuel ts = .ok (t, r) → TakesFormed registry ts (.term t) r
  arguments : ∀ {ts as r}, arguments registry fuel ts = .ok (as, r) →
    ∃ a, eat? .closing a = some r ∧ TakesFormed registry ts (.arguments as) a
  argument : ∀ {ts x r}, argument registry fuel ts = .ok (x, r) →
    TakesFormed registry ts (.argument x) r

section
variable {fuel : Nat} {ts r : List Placed}

theorem readsFormed_zero : ReadsFormed registry 0 where
  union h := by cases h
  moreTerms h := by
    cases h
    exact .inl ⟨rfl, rfl⟩
  term h := by cases h
  arguments h := by cases h
  argument h := by cases h

/-- A term, and more of them after bars, form terms. -/
theorem ReadsFormed.terms (h : ReadsFormed registry fuel) {t : SettingType}
    {us : List SettingType} {a : List Placed} (ht : SettingType.term registry fuel ts = .ok (t, a))
    (hus : SettingType.moreTerms registry fuel a = .ok (us, r)) :
    TakesFormed registry ts (.terms (t :: us)) r := by
  obtain ⟨k, hk, hterm⟩ := h.term ht
  rcases h.moreTerms hus with ⟨rfl, rfl⟩ | ⟨b, hb, l, hl, hterms⟩
  · exact ⟨k, hk, .lastTerm hterm⟩
  · obtain ⟨p, rfl, hp⟩ := eat?_eq_some_iff.1 hb
    refine ⟨k ++ .bar :: l, ?_, .moreTerms hterm hterms⟩
    rw [hk, List.map_cons, hp, hl, List.append_assoc, List.cons_append]

theorem finishUnion_eq_ok_iff {us : List SettingType} {t : SettingType} {a : List Placed} :
    finishUnion us a = .ok (t, r) ↔ join? us = some t ∧ a = r := by
  rw [finishUnion, ← unionOf_eq_ok_iff]
  cases unionOf us <;> simp

theorem ReadsFormed.union_succ (h : ReadsFormed registry fuel) {t : SettingType}
    (hu : SettingType.union registry (fuel + 1) ts = .ok (t, r)) :
    TakesFormed registry ts (.union t) r := by
  obtain ⟨u, a, ht, hu⟩ := Step.next_eq_ok.1 hu
  obtain ⟨us, b, hus, hu⟩ := Step.next_eq_ok.1 hu
  obtain ⟨hjoin, rfl⟩ := finishUnion_eq_ok_iff.1 hu
  obtain ⟨k, hk, hterms⟩ := h.terms ht hus
  rw [← joinOf_eq_of_join? hjoin]
  exact ⟨k, hk, .union hterms⟩

theorem ReadsFormed.moreTerms_succ (h : ReadsFormed registry fuel) {us : List SettingType}
    (hus : SettingType.moreTerms registry (fuel + 1) ts = .ok (us, r)) : us = [] ∧ r = ts ∨
      ∃ a, eat? .bar ts = some a ∧ TakesFormed registry a (.terms us) r := by
  rw [SettingType.moreTerms] at hus
  split at hus
  · cases hus
    exact .inl ⟨rfl, rfl⟩
  · rename_i a ha
    obtain ⟨t, b, ht, hus⟩ := Step.next_eq_ok.1 hus
    obtain ⟨us, c, hmore, hus⟩ := Step.next_eq_ok.1 hus
    cases hus
    exact .inr ⟨a, ha, h.terms ht hmore⟩

theorem finish_sound {start a : List Placed} {name : String} {as : Option (List Argument)}
    {t : SettingType} (h : finish registry start name as a = .ok (t, r)) :
    a = r ∧ Denotes registry name as t := by
  unfold finish at h
  split at h
  · cases h
    exact ⟨rfl, denotes_of_resolve ‹_›⟩
  · cases h

/-- What follows an opening bracket is arguments and the closing bracket. -/
theorem ReadsFormed.term_succ (h : ReadsFormed registry fuel) {t : SettingType}
    (ht : SettingType.term registry (fuel + 1) ts = .ok (t, r)) :
    TakesFormed registry ts (.term t) r := by
  unfold SettingType.term at ht
  split at ht
  · rename_i name _
    split at ht
    · obtain ⟨rfl, hd⟩ := finish_sound ht
      exact ⟨[.name name], rfl, .name hd⟩
    · rename_i b hb
      obtain ⟨as, c, has, ht⟩ := Step.next_eq_ok.1 ht
      obtain ⟨p, rfl, hp⟩ := eat?_eq_some_iff.1 hb
      obtain ⟨d, hd, k, hk, hargs⟩ := h.arguments has
      obtain ⟨q, rfl, hq⟩ := eat?_eq_some_iff.1 hd
      obtain ⟨rfl, hden⟩ := finish_sound ht
      refine ⟨.name name :: .opening :: (k ++ [.closing]), ?_, .applied hargs hden⟩
      simp [hp, hk, hq]
  · cases ht

theorem ReadsFormed.arguments_succ (h : ReadsFormed registry fuel) {as : List Argument}
    (has : SettingType.arguments registry (fuel + 1) ts = .ok (as, r)) :
    ∃ a, eat? .closing a = some r ∧ TakesFormed registry ts (.arguments as) a := by
  rw [SettingType.arguments] at has
  obtain ⟨x, b, hx, has⟩ := Step.next_eq_ok.1 has
  obtain ⟨k, hk, hform⟩ := h.argument hx
  split at has
  · rename_i c hc
    cases has
    exact ⟨b, hc, k, hk, .lastArgument hform⟩
  · split at has
    · cases has
    · rename_i c hc
      obtain ⟨p, rfl, hp⟩ := eat?_eq_some_iff.1 hc
      split at has
      · rename_i d hd
        cases has
        refine ⟨c, hd, k ++ [.comma], ?_, .lastComma hform⟩
        simp [hk, hp]
      · obtain ⟨ys, d, hys, has⟩ := Step.next_eq_ok.1 has
        cases has
        obtain ⟨e, he, l, hl, hys⟩ := h.arguments hys
        refine ⟨e, he, k ++ .comma :: l, ?_, .moreArguments hform hys⟩
        simp [hk, hp, hl]

theorem ReadsFormed.argument_succ (h : ReadsFormed registry fuel) {x : Argument}
    (hx : SettingType.argument registry (fuel + 1) ts = .ok (x, r)) :
    TakesFormed registry ts (.argument x) r := by
  rw [SettingType.argument] at hx
  split at hx
  · rename_i a ha
    cases hx
    obtain ⟨p, rfl, hp⟩ := eat?_eq_some_iff.1 ha
    exact ⟨[.dots], by simp [hp], .dots⟩
  · obtain ⟨t, a, ht, hx⟩ := Step.next_eq_ok.1 hx
    cases hx
    obtain ⟨k, hk, ht⟩ := h.union ht
    exact ⟨k, hk, .type ht⟩

end

/-- Whatever the readers take is formed. -/
theorem readsFormed (registry : Registry) (fuel : Nat) : ReadsFormed registry fuel := by
  induction fuel with
  | zero => exact readsFormed_zero
  | succ fuel ih =>
    exact ⟨ih.union_succ, ih.moreTerms_succ, ih.term_succ, ih.arguments_succ, ih.argument_succ⟩

/-! ## What is formed is taken -/

/-- Terms one after the other, as a choice reads them. -/
def readTerms (registry : Registry) (fuel : Nat) (ts : List Placed) : Step (List SettingType) :=
  (term registry fuel ts).next fun t r =>
  (moreTerms registry fuel r).next fun us r => .ok (t :: us, r)

/-- With fuel for its tokens the reader takes them and gives the result, whatever follows, if the
part may end there. -/
def Takes {α : Type} (read : Nat → List Placed → Step α) (spare : Nat) (ends : List Placed → Prop)
    (k : List Token) (x : α) : Prop :=
  ∀ ps r fuel, ps.map Placed.token = k → ends r → 4 * k.length + spare ≤ fuel →
    read fuel (ps ++ r) = .ok (x, r)

/-- The reader of a part takes its tokens. Arguments are read up to the bracket behind them. -/
def Taken (registry : Registry) (k : List Token) : Part → Prop
  | .union t => Takes (union registry) 1 Ends k t
  | .terms ts => Takes (readTerms registry) 0 Ends k ts
  | .term t => Takes (term registry) 0 (fun r => eat? .opening r = none) k t
  | .arguments as => Takes (arguments registry) 0 (fun _ => True) (k ++ [.closing]) as
  | .argument a => Takes (argument registry) 2 Ends k a

section
variable {k l : List Token} {t : SettingType} {a : Argument}

theorem taken_union {ts : List SettingType} (hk : Forms registry k (.terms ts))
    (h : Taken registry k (.terms ts)) : Taken registry k (.union (joinOf ts)) := by
  intro ps r fuel hps hr hfuel
  obtain ⟨fuel, rfl⟩ : ∃ n, fuel = n + 1 := ⟨fuel - 1, by omega⟩
  obtain ⟨u, b, hu, hterms⟩ := Step.next_eq_ok.1 (h ps r fuel hps hr (by omega))
  obtain ⟨us, c, hus, hterms⟩ := Step.next_eq_ok.1 hterms
  cases hterms
  refine Step.next_eq_ok.2 ⟨u, b, hu, Step.next_eq_ok.2 ⟨us, r, hus, ?_⟩⟩
  have hjoin := join?_eq_joinOf hk.terms_ne_nil (hk.normal fun _ _ _ _ => trivial)
  exact finishUnion_eq_ok_iff.2 ⟨hjoin, rfl⟩

theorem taken_lastTerm (h : Taken registry k (.term t)) : Taken registry k (.terms [t]) := by
  intro ps r fuel hps hr hfuel
  have hmore : moreTerms registry fuel r = .ok ([], r) := by
    cases fuel with
    | zero => rfl
    | succ fuel => simp [moreTerms, hr.2]
  exact Step.next_eq_ok.2 ⟨t, r, h ps r fuel hps hr.1 hfuel,
    Step.next_eq_ok.2 ⟨[], r, hmore, rfl⟩⟩

theorem taken_moreTerms {ts : List SettingType} (h : Taken registry k (.term t))
    (hs : Taken registry l (.terms ts)) : Taken registry (k ++ .bar :: l) (.terms (t :: ts)) := by
  intro ps r fuel hps hr hfuel
  obtain ⟨qs, p, rs, rfl, hq, hp, hl⟩ := exists_placed hps
  simp only [List.length_append, List.length_cons] at hfuel
  obtain ⟨fuel, rfl⟩ : ∃ n, fuel = n + 1 := ⟨fuel - 1, by omega⟩
  rw [List.append_assoc, List.cons_append]
  have hopen : eat? .opening (p :: (rs ++ r)) = none := eat?_of_ne (by simp [hp])
  have hread := h qs (p :: (rs ++ r)) (fuel + 1) hq hopen (by omega)
  have hrest : readTerms registry fuel (rs ++ r) = .ok (ts, r) := hs rs r fuel hl hr (by omega)
  have hmore : moreTerms registry (fuel + 1) (p :: (rs ++ r)) = .ok (ts, r) := by
    rw [moreTerms, eat?_of_eq hp]
    exact hrest
  exact Step.next_eq_ok.2 ⟨t, _, hread, Step.next_eq_ok.2 ⟨ts, r, hmore, rfl⟩⟩

theorem finish_of_denotes {P : SettingType → Prop} {start r : List Placed} {name : String}
    {as : Option (List Argument)} (h : Denotes registry name as t)
    (has : ∀ bs ∈ as, ∀ u, .type u ∈ bs → Normal P u) :
    finish registry start name as r = .ok (t, r) := by
  rw [finish, resolve_of_denotes h has]

theorem taken_name {name : String} (h : Denotes registry name none t) :
    Taken registry [.name name] (.term t) := by
  intro ps r fuel hps hr hfuel
  obtain ⟨⟨position, _⟩, rs, rfl, rfl, hrs⟩ := List.map_eq_cons_iff.1 hps
  obtain rfl := List.map_eq_nil_iff.1 hrs
  obtain ⟨fuel, rfl⟩ : ∃ n, fuel = n + 1 := ⟨fuel - 1, by simp at hfuel; omega⟩
  rw [List.singleton_append, term, hr]
  exact finish_of_denotes (P := fun _ => True) h (by simp)

theorem taken_applied {name : String} {as : List Argument} (hk : Forms registry k (.arguments as))
    (h : Taken registry k (.arguments as)) (hd : Denotes registry name (some as) t) :
    Taken registry (.name name :: .opening :: (k ++ [.closing])) (.term t) := by
  intro ps r fuel hps hr hfuel
  obtain ⟨⟨position, _⟩, qs, rfl, rfl, hqs⟩ := List.map_eq_cons_iff.1 hps
  obtain ⟨p, rs, rfl, hp, hrs⟩ := List.map_eq_cons_iff.1 hqs
  simp only [List.length_append, List.length_cons] at hfuel
  obtain ⟨fuel, rfl⟩ : ∃ n, fuel = n + 1 := ⟨fuel - 1, by omega⟩
  have hargs := h rs r fuel hrs trivial (by simp only [List.length_append, List.length_cons]; omega)
  rw [List.cons_append, List.cons_append, term, eat?_of_eq hp]
  refine Step.next_eq_ok.2 ⟨as, r, hargs, finish_of_denotes (P := fun _ => True) hd ?_⟩
  rintro bs ⟨⟩ u hu
  exact hk.normal (fun _ _ _ _ => trivial) u (List.mem_filterMap.2 ⟨_, hu, rfl⟩)

theorem taken_lastArgument (h : Taken registry k (.argument a)) :
    Taken registry k (.arguments [a]) := by
  intro ps r fuel hps _ hfuel
  obtain ⟨qs, p, rs, rfl, hq, hp, hrs⟩ := exists_placed hps
  obtain rfl := List.map_eq_nil_iff.1 hrs
  simp only [List.length_append, List.length_cons] at hfuel
  obtain ⟨fuel, rfl⟩ : ∃ n, fuel = n + 1 := ⟨fuel - 1, by omega⟩
  have hread := h qs (p :: r) fuel hq (ends_cons (by simp [hp]) (by simp [hp])) (by omega)
  rw [List.append_assoc, List.singleton_append, arguments]
  refine Step.next_eq_ok.2 ⟨a, p :: r, hread, ?_⟩
  rw [eat?_of_eq hp]

theorem taken_lastComma (h : Taken registry k (.argument a)) :
    Taken registry (k ++ [.comma]) (.arguments [a]) := by
  intro ps r fuel hps _ hfuel
  rw [List.append_assoc] at hps
  obtain ⟨qs, p, rs, rfl, hq, hp, hrs⟩ := exists_placed hps
  obtain ⟨q, us, rfl, hq', hus⟩ := List.map_eq_cons_iff.1 hrs
  obtain rfl := List.map_eq_nil_iff.1 hus
  simp only [List.length_append, List.length_cons] at hfuel
  obtain ⟨fuel, rfl⟩ : ∃ n, fuel = n + 1 := ⟨fuel - 1, by omega⟩
  have hread := h qs (p :: q :: r) fuel hq (ends_cons (by simp [hp]) (by simp [hp])) (by omega)
  have hno : eat? .closing (p :: q :: r) = none := eat?_of_ne (by simp [hp])
  rw [List.append_assoc, List.cons_append, List.singleton_append, arguments]
  refine Step.next_eq_ok.2 ⟨a, _, hread, ?_⟩
  simp only [hno, eat?_of_eq hp, eat?_of_eq hq']

theorem taken_moreArguments {as : List Argument} (hl : Forms registry l (.arguments as))
    (h : Taken registry k (.argument a)) (hs : Taken registry l (.arguments as)) :
    Taken registry (k ++ .comma :: l) (.arguments (a :: as)) := by
  intro ps r fuel hps _ hfuel
  rw [List.append_assoc, List.cons_append] at hps
  obtain ⟨qs, p, rs, rfl, hq, hp, hrs⟩ := exists_placed hps
  simp only [List.length_append, List.length_cons] at hfuel
  obtain ⟨fuel, rfl⟩ : ∃ n, fuel = n + 1 := ⟨fuel - 1, by omega⟩
  have hread := h qs (p :: (rs ++ r)) fuel hq (ends_cons (by simp [hp]) (by simp [hp])) (by omega)
  have hrest := hs rs r fuel hrs trivial (by
    simp only [List.length_append, List.length_cons]
    omega)
  have hno : eat? .closing (p :: (rs ++ r)) = none := eat?_of_ne (by simp [hp])
  -- what stands behind the comma starts with a name or dots
  obtain ⟨x, m, rfl, hx⟩ := hl.starts
  obtain ⟨q, us, rfl, hqx, _⟩ := List.map_eq_cons_iff.1 hrs
  have hno' : eat? .closing (q :: us ++ r) = none := by
    refine eat?_of_ne ?_
    rw [hqx]
    rcases hx with ⟨name, rfl⟩ | ⟨rfl, _⟩ <;> simp
  rw [List.append_assoc, List.cons_append, arguments]
  refine Step.next_eq_ok.2 ⟨a, _, hread, ?_⟩
  simp only [hno, eat?_of_eq hp, hno']
  exact Step.next_eq_ok.2 ⟨as, r, hrest, rfl⟩

theorem taken_dots : Taken registry [.dots] (.argument .dots) := by
  intro ps r fuel hps _ hfuel
  obtain ⟨p, rs, rfl, hp, hrs⟩ := List.map_eq_cons_iff.1 hps
  obtain rfl := List.map_eq_nil_iff.1 hrs
  obtain ⟨fuel, rfl⟩ : ∃ n, fuel = n + 1 := ⟨fuel - 1, by omega⟩
  rw [List.singleton_append, argument, eat?_of_eq hp]

theorem taken_type (hk : Forms registry k (.union t)) (h : Taken registry k (.union t)) :
    Taken registry k (.argument (.type t)) := by
  intro ps r fuel hps hr hfuel
  obtain ⟨fuel, rfl⟩ : ∃ n, fuel = n + 1 := ⟨fuel - 1, by omega⟩
  have hread := h ps r fuel hps hr (by omega)
  -- a type does not start with dots
  have hno : eat? .dots (ps ++ r) = none := by
    obtain ⟨x, m, rfl, hx⟩ := hk.starts
    obtain ⟨q, us, rfl, hqx, _⟩ := List.map_eq_cons_iff.1 hps
    refine eat?_of_ne ?_
    rw [hqx]
    rcases hx with ⟨name, rfl⟩ | ⟨_, hdots⟩
    · simp
    · cases hdots
  rw [argument, hno]
  exact Step.next_eq_ok.2 ⟨t, r, hread, rfl⟩

end

/-- Whatever is formed the readers take. -/
theorem Forms.taken {k : List Token} {p : Part} (h : Forms registry k p) : Taken registry k p := by
  induction h with
  | union hts ih => exact taken_union hts ih
  | lastTerm _ ih => exact taken_lastTerm ih
  | moreTerms _ _ iht ihts => exact taken_moreTerms iht ihts
  | name hd => exact taken_name hd
  | applied has hd ih => exact taken_applied has ih hd
  | lastArgument _ ih => exact taken_lastArgument ih
  | lastComma _ ih => exact taken_lastComma ih
  | moreArguments _ has iha ihas => exact taken_moreArguments has iha ihas
  | dots => exact taken_dots
  | type ht ih => exact taken_type ht ih

/-! ## Whole expressions -/

theorem ofTokens_eq_ok_iff {ps : List Placed} {t : SettingType} :
    ofTokens registry ps = .ok t ↔ Forms registry (ps.map Placed.token) (.union t) := by
  constructor
  · intro h
    unfold ofTokens at h
    split at h
    · cases h
    · rename_i u hu
      cases h
      obtain ⟨k, hk, hform⟩ := (readsFormed registry _).union hu
      rw [hk, List.map_nil, List.append_nil]
      exact hform
    · cases h
  · intro h
    have hread := h.taken ps [] (fuelFor ps) rfl ⟨rfl, rfl⟩ (by
      simp only [List.length_map, fuelFor]
      omega)
    rw [List.append_nil] at hread
    rw [ofTokens, hread]

theorem parse_eq_ok {expression : String} {t : SettingType} :
    parse registry expression = .ok t ↔
      ∃ ps, ofText expression = .ok ps ∧ ofTokens registry ps = .ok t := by
  unfold parse
  cases ofText expression with
  | error stray => simp
  | ok ps => cases hps : ofTokens registry ps <;> simp [hps]

/-- Tokens that form a type make its expression, however they are spelled. -/
theorem parse_of_forms {expression : String} {k : List Token} {t : SettingType}
    (hk : Spells expression.toList k) (h : Forms registry k (.union t)) :
    parse registry expression = .ok t := by
  obtain ⟨ps, hps, rfl⟩ := exists_ofText_iff.2 hk
  exact parse_eq_ok.2 ⟨ps, hps, ofTokens_eq_ok_iff.2 h⟩

/-- What is read as a type spells tokens that form it. -/
theorem forms_of_parse {expression : String} {t : SettingType}
    (h : parse registry expression = .ok t) :
    ∃ k, Spells expression.toList k ∧ Forms registry k (.union t) := by
  obtain ⟨ps, hps, ht⟩ := parse_eq_ok.1 h
  exact ⟨ps.map Placed.token, exists_ofText_iff.1 ⟨ps, hps, rfl⟩, ofTokens_eq_ok_iff.1 ht⟩

/-- A text is read as a type exactly if it spells tokens that form the type, with nothing left
over. -/
theorem parse_eq_ok_iff_forms (registry : Registry) (expression : String) (t : SettingType) :
    parse registry expression = .ok t ↔
      ∃ k, Spells expression.toList k ∧ Forms registry k (.union t) := by
  constructor
  · exact forms_of_parse
  · rintro ⟨k, hk, hform⟩
    exact parse_of_forms hk hform

open Payloads.Integers in
/-- A choice by name, with a comma after its last argument, and a choice by bars make one choice. -/
theorem parse_eq_ok_iff_forms_union :
    parse {} "Union[int, None,] | list[str] | int" =
      .ok (.choice [.scalar .int, .scalar .absent, .listOf (.scalar .str)]) := by
  have hint : Forms {} [.name "int"] (.term (.scalar .int)) :=
    .name (.scalar (.plain (by decide)) .int)
  have habsent : Forms {} [.name "None"] (.term (.scalar .absent)) :=
    .name (.scalar (.plain (by decide)) .absent)
  have hstr : Forms {} [.name "str"] (.term (.scalar .str)) :=
    .name (.scalar (.plain (by decide)) .str)
  have hnamed : Denotes {} "Union" (some [.type (.scalar .int), .type (.scalar .absent)])
      (.choice [.scalar .int, .scalar .absent]) :=
    Denotes.union (.plain (by decide)) (List.cons_ne_nil (.scalar .int) [.scalar .absent])
  have hargument := Forms.type (.union (.lastTerm hint))
  have hlast := Forms.type (.union (.lastTerm habsent))
  have hitem := Forms.type (.union (.lastTerm hstr))
  have hunion := Forms.applied (.moreArguments hargument (.lastComma hlast)) hnamed
  have hlist := Forms.applied (.lastArgument hitem) (.listOf (.plain (by decide)) .list)
  have hchoice := Forms.union (.moreTerms hunion (.moreTerms hlist (.lastTerm hint)))
  exact (parse_eq_ok_iff_forms {} _ _).2 ⟨_, exists_ofText_iff.1 ⟨_, rfl, rfl⟩, hchoice⟩

end TypedSettings.SettingType
