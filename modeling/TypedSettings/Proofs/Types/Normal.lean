import TypedSettings.Proofs.Distinct
import TypedSettings.Types.Basic

/-!
# Types in normal form

In a type in normal form no choice stands directly in a choice, and a choice has at least two
alternatives, no two of them the same; so also in all of its parts (`Normal`). What is asked of the
user-defined types in it is a parameter. Main statements: joining types in normal form gives one,
whose alternatives are those of the types, each at its first place (`exists_join?`), so that of any
such types but none there is the join (`join?_eq_joinOf`); a type in normal form is its own join, and
that of its alternatives (`join?_singleton`, `join?_alternatives`).
-/

namespace TypedSettings.SettingType

variable [Payloads]

/-- A type in normal form whose user-defined types all have the property. -/
inductive Normal (P : SettingType → Prop) : SettingType → Prop where
  | scalar (s : Scalar) : Normal P (.scalar s)
  | built {c : Constructor} : P (.built c) → Normal P (.built c)
  | bare (s : Shape) : Normal P (.bare s)
  | listOf {t : SettingType} : Normal P t → Normal P (.listOf t)
  | tupleOf {t : SettingType} : Normal P t → Normal P (.tupleOf t)
  | setOf {t : SettingType} : Normal P t → Normal P (.setOf t)
  | mapOf {k c : SettingType} : Normal P k → Normal P c → Normal P (.mapOf k c)
  | choice {ts : List SettingType} : 2 ≤ ts.length → (∀ t ∈ ts, Normal P t) →
      (∀ t ∈ ts, ∀ us, t ≠ .choice us) → Distinct equal ts → Normal P (.choice ts)
  | hooked {typeName : String} {parameters : List (Option SettingType)}
      {invoke : Value → Except String Value} : P (.hooked typeName parameters invoke) →
      Normal P (.hooked typeName parameters invoke)

section
variable {P : SettingType → Prop} {t : SettingType} {ts : List SettingType}

/-! ## Alternatives -/

theorem alternatives_of_ne_choice (h : ∀ us, t ≠ .choice us) : t.alternatives = [t] := by
  cases t with
  | choice us => exact absurd rfl (h us)
  | _ => rfl

theorem Normal.alternatives_ne_nil (h : Normal P t) : t.alternatives ≠ [] := by
  cases h with
  | choice hlen _ _ _ =>
    rintro rfl
    simp at hlen
  | _ => simp [SettingType.alternatives]

/-- The alternatives of a type in normal form are in normal form, and no choices. -/
theorem Normal.alternative (h : Normal P t) {a : SettingType} (ha : a ∈ t.alternatives) :
    Normal P a ∧ ∀ us, a ≠ .choice us := by
  cases h with
  | choice _ hts hflat _ => exact ⟨hts a ha, hflat a ha⟩
  | _ =>
    obtain rfl := List.mem_singleton.1 ha
    refine ⟨by constructor <;> assumption, fun us h => by cases h⟩

theorem Normal.distinct_alternatives (h : Normal P t) : Distinct equal t.alternatives := by
  cases h with
  | choice _ _ _ hd => exact hd
  | _ => exact List.pairwise_singleton _ _

theorem flatMap_alternatives (h : ∀ t ∈ ts, ∀ us, t ≠ .choice us) :
    ts.flatMap SettingType.alternatives = ts := by
  induction ts with
  | nil => rfl
  | cons t ts ih =>
    rw [List.flatMap_cons, alternatives_of_ne_choice (h t List.mem_cons_self),
      ih fun u hu => h u (List.mem_cons_of_mem _ hu), List.singleton_append]

/-! ## Joining -/

theorem joined_eq_foldl (ts : List SettingType) :
    joined ts = (ts.flatMap SettingType.alternatives).foldl (addNew equal) [] := rfl

theorem distinct_joined (ts : List SettingType) : Distinct equal (joined ts) :=
  (foldl_addNew (distinct_nil equal) _).1

theorem mem_of_mem_joined {a : SettingType} (h : a ∈ joined ts) :
    ∃ t ∈ ts, a ∈ t.alternatives := by
  rcases (foldl_addNew (distinct_nil equal) _).2 a h with h | h
  · cases h
  · exact List.mem_flatMap.1 h

/-- Distinct alternatives are joined as they stand. -/
theorem joined_of_distinct (hd : Distinct equal ts) (h : ∀ t ∈ ts, ∀ us, t ≠ .choice us) :
    joined ts = ts := by
  rw [joined_eq_foldl, flatMap_alternatives h, foldl_addNew_of_distinct hd, List.nil_append]

theorem joined_ne_nil (hne : ts ≠ []) (h : ∀ t ∈ ts, Normal P t) : joined ts ≠ [] := by
  cases ts with
  | nil => exact absurd rfl hne
  | cons t ts =>
    have ht := (h t List.mem_cons_self).alternatives_ne_nil
    cases halt : t.alternatives with
    | nil => exact absurd halt ht
    | cons a as =>
      -- the first alternative is collected first and stays
      have hfirst := prefix_foldl_addNew equal [a]
        (as ++ ts.flatMap SettingType.alternatives)
      have hjoined : joined (t :: ts) =
          (as ++ ts.flatMap SettingType.alternatives).foldl (addNew equal) [a] := by
        rw [joined_eq_foldl, List.flatMap_cons, halt]
        rfl
      rw [hjoined]
      intro hnil
      rw [hnil] at hfirst
      simpa using hfirst.length_le

/-- Types in normal form have a join. It is in normal form, and its alternatives are theirs, each at
its first place. -/
theorem exists_join? (hne : ts ≠ []) (h : ∀ t ∈ ts, Normal P t) :
    ∃ u, join? ts = some u ∧ Normal P u ∧ u.alternatives = joined ts := by
  have hpart : ∀ a ∈ joined ts, Normal P a ∧ ∀ us, a ≠ .choice us := by
    intro a ha
    obtain ⟨t, ht, ha⟩ := mem_of_mem_joined ha
    exact (h t ht).alternative ha
  unfold join?
  match hj : joined ts with
  | [] => exact absurd hj (joined_ne_nil hne h)
  | [a] =>
    obtain ⟨hn, hflat⟩ := hpart a (by simp [hj])
    exact ⟨a, rfl, hn, alternatives_of_ne_choice hflat⟩
  | a :: b :: as =>
    refine ⟨_, rfl, ?_, rfl⟩
    rw [← hj]
    exact .choice (by simp [hj]) (fun t ht => (hpart t ht).1) (fun t ht => (hpart t ht).2)
      (distinct_joined ts)

/-- The choice between the alternatives of some types, of which a single one stands for itself. -/
def joinOf (ts : List SettingType) : SettingType :=
  match joined ts with
  | [t] => t
  | as => .choice as

theorem joinOf_eq_of_join? (h : join? ts = some t) : joinOf ts = t := by
  unfold join? at h
  unfold joinOf
  match hj : joined ts with
  | [] =>
    rw [hj] at h
    cases h
  | [a] =>
    rw [hj] at h
    exact Option.some.inj h
  | a :: b :: as =>
    rw [hj] at h
    exact Option.some.inj h

theorem join?_eq_joinOf (hne : ts ≠ []) (h : ∀ t ∈ ts, Normal P t) :
    join? ts = some (joinOf ts) := by
  obtain ⟨u, hu, -⟩ := exists_join? hne h
  rw [hu, joinOf_eq_of_join? hu]

theorem normal_joinOf (hne : ts ≠ []) (h : ∀ t ∈ ts, Normal P t) : Normal P (joinOf ts) := by
  obtain ⟨u, hu, hn, -⟩ := exists_join? hne h
  rwa [joinOf_eq_of_join? hu]

/-- The alternatives of a type in normal form join to it. -/
theorem join?_alternatives (h : Normal P t) : join? t.alternatives = some t := by
  have hj : joined t.alternatives = t.alternatives :=
    joined_of_distinct h.distinct_alternatives fun a ha => (h.alternative ha).2
  unfold join?
  rw [hj]
  cases h with
  | @choice ts hlen _ _ _ =>
    match ts, hlen with
    | _ :: _ :: _, _ => rfl
  | _ => rfl

theorem join?_singleton (h : Normal P t) : join? [t] = some t := by
  have hj : joined [t] = joined t.alternatives := by
    rw [joined_eq_foldl, joined_eq_foldl, List.flatMap_singleton,
      flatMap_alternatives fun a ha => (h.alternative ha).2]
  rw [← join?_alternatives h]
  unfold join?
  rw [hj]

end

end TypedSettings.SettingType
