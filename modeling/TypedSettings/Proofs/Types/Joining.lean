import TypedSettings.Proofs.Firsts
import TypedSettings.Proofs.Types.Registered

/-!
# Joining joined types

Being the same type is an equivalence (`equivalenceOn_equal`), although it goes by the names of
user-defined types and not by what they do. So the alternatives of a join are the first ones among
those of the types (`joined_eq_firsts`), and it makes no difference which of the types are joined
beforehand. A join takes one level of choices apart; that is enough because a type that was read is
canonical (`canonical_of_parse`), and so is every join of canonical types. Main statement:
`join?_joins`.
-/

namespace TypedSettings.SettingType

section
variable [Payloads]

/-! ## The same type -/

mutual

/-- Types that are the same are the same as the same types. -/
theorem equal_congr : ∀ {t u : SettingType}, equal t u = true → ∀ w, equal t w = equal u w
  | scalar s, u, h, w => by
    cases u with
    | scalar s' => rw [eq_of_beq h]
    | _ => cases h
  | built c, u, h, w => by
    cases u with
    | built c' => cases w <;> simp [equal, eq_of_beq h]
    | _ => cases h
  | bare s, u, h, w => by
    cases u with
    | bare s' => rw [eq_of_beq h]
    | _ => cases h
  | listOf t, u, h, w => by
    cases u with
    | listOf u =>
      cases w with
      | listOf w => exact equal_congr (t := t) (u := u) h w
      | _ => rfl
    | _ => cases h
  | tupleOf t, u, h, w => by
    cases u with
    | tupleOf u =>
      cases w with
      | tupleOf w => exact equal_congr (t := t) (u := u) h w
      | _ => rfl
    | _ => cases h
  | setOf t, u, h, w => by
    cases u with
    | setOf u =>
      cases w with
      | setOf w => exact equal_congr (t := t) (u := u) h w
      | _ => rfl
    | _ => cases h
  | mapOf k c, u, h, w => by
    cases u with
    | mapOf k' c' =>
      cases w with
      | mapOf k'' c'' =>
        simp only [equal, Bool.and_eq_true] at h
        simp only [equal, equal_congr h.1 k'', equal_congr h.2 c'']
      | _ => rfl
    | _ => cases h
  | choice ts, u, h, w => by
    cases u with
    | choice us =>
      cases w with
      | choice ws => exact equalEach_congr h ws
      | _ => rfl
    | _ => cases h
  | hooked name parameters invoke, u, h, w => by
    cases u with
    | hooked name' parameters' invoke' => cases w <;> simp [equal, eq_of_beq h]
    | _ => cases h

theorem equalEach_congr : ∀ {ts us : List SettingType}, equalEach ts us = true →
    ∀ ws, equalEach ts ws = equalEach us ws
  | [], us, h, ws => by
    cases us with
    | nil => rfl
    | cons u us => cases h
  | t :: ts, us, h, ws => by
    cases us with
    | nil => cases h
    | cons u us =>
      cases ws with
      | nil => rfl
      | cons w ws =>
        simp only [equalEach, Bool.and_eq_true] at h
        simp only [equalEach, equal_congr h.1 w, equalEach_congr h.2 ws]

end

theorem equivalenceOn_equal : EquivalenceOn (fun _ : SettingType => True) equal where
  refl {t} _ := equal_refl t
  symm {t u} _ _ h := by rw [← equal_congr h, equal_refl]
  trans {t u w} _ _ _ h h' := by rw [equal_congr h, h']

/-! ## Canonical types -/

/-- A type in normal form, whatever user-defined types are in it: in all of its parts no choice
stands directly in a choice, and a choice has at least two alternatives, no two of them the same. -/
def Canonical (t : SettingType) : Prop := Normal (fun _ => True) t

section
variable {P Q : SettingType → Prop} {t : SettingType} {ts us : List SettingType}

theorem Normal.imp (hpq : ∀ t, P t → Q t) (h : Normal P t) : Normal Q t := by
  induction h with
  | scalar s => exact .scalar s
  | built h => exact .built (hpq _ h)
  | bare s => exact .bare s
  | listOf _ ih => exact .listOf ih
  | tupleOf _ ih => exact .tupleOf ih
  | setOf _ ih => exact .setOf ih
  | mapOf _ _ ihk ihc => exact .mapOf ihk ihc
  | choice hlen _ hflat hd ih => exact .choice hlen ih hflat hd
  | hooked h => exact .hooked (hpq _ h)

/-- What an expression stands for is canonical. -/
theorem canonical_of_parse {registry : Registry} {expression : String}
    (h : parse registry expression = .ok t) : Canonical t :=
  (normal_of_parse h).imp fun _ _ => trivial

/-! ## Joins -/

/-- The alternatives of a join are the first ones among those of the types. -/
theorem joined_eq_firsts (ts : List SettingType) :
    joined ts = firsts equal (ts.flatMap SettingType.alternatives) :=
  foldl_addNew_eq_firsts equivalenceOn_equal.toPartialEquivalenceOn fun _ _ => trivial

/-- Types with the same alternatives have the same join. -/
theorem join?_congr (h : joined ts = joined us) : join? ts = join? us := by
  unfold join?
  rw [h]

/-- A join of joins is the join of all the types. -/
theorem join?_pair {u w : SettingType} (hu : u.alternatives = joined ts)
    (hw : w.alternatives = joined us) : join? [u, w] = join? (ts ++ us) := by
  refine join?_congr ?_
  calc joined [u, w]
      = firsts equal (firsts equal (ts.flatMap SettingType.alternatives) ++
          firsts equal (us.flatMap SettingType.alternatives)) := by
        rw [joined_eq_firsts, List.flatMap_cons, List.flatMap_singleton, hu, hw, joined_eq_firsts,
          joined_eq_firsts]
    _ = firsts equal (ts.flatMap SettingType.alternatives ++
          us.flatMap SettingType.alternatives) :=
        firsts_append_firsts equivalenceOn_equal (fun _ _ => trivial) fun _ _ => trivial
    _ = joined (ts ++ us) := by rw [joined_eq_firsts, List.flatMap_append]

/-- Every type that an expression stands for is canonical. Canonical types have a join, which is
canonical and has their alternatives in the order of their first places; joining the joins of two
groups of types joins them all, and a join is its own join. -/
theorem join?_joins :
    (∀ registry expression t, parse registry expression = .ok t → Canonical t) ∧
      ∀ ts us, ts ≠ [] → us ≠ [] → (∀ t ∈ ts ++ us, Canonical t) →
        ∃ u w, join? ts = some u ∧ join? us = some w ∧ Canonical u ∧
          u.alternatives = firsts equal (ts.flatMap SettingType.alternatives) ∧
          join? [u, w] = join? (ts ++ us) ∧ join? [u] = join? ts := by
  refine ⟨fun _ _ _ => canonical_of_parse, fun ts us hts hus h => ?_⟩
  obtain ⟨hts', hus'⟩ := List.forall_mem_append.1 h
  obtain ⟨u, hu, hcanonical, hualt⟩ := exists_join? hts hts'
  obtain ⟨w, hw, -, hwalt⟩ := exists_join? hus hus'
  refine ⟨u, w, hu, hw, hcanonical, ?_, join?_pair hualt hwalt, ?_⟩
  · rw [hualt, joined_eq_firsts]
  · rw [join?_singleton hcanonical, hu]

end

end

open Payloads.Integers in
theorem join?_joins_sample :
    ∃ t u w, parse .sample "Even | int" = .ok t ∧ join? [t, Registry.portType] = some u ∧
      join? [.scalar .str, t] = some w ∧
      join? [u, w] = some (.choice
        [Registry.evenHook.type, .scalar .int, Registry.portType, .scalar .str]) := by
  have ht : parse .sample "Even | int" = .ok (.choice [Registry.evenHook.type, .scalar .int]) :=
    parse_eq_ok.2 ⟨[⟨0, .name "Even"⟩, ⟨5, .bar⟩, ⟨7, .name "int"⟩], rfl, rfl⟩
  have hcanonical := join?_joins.1 _ _ _ ht
  obtain ⟨u, w, hu, hw, -, -, hjoin, -⟩ := join?_joins.2
    [.choice [Registry.evenHook.type, .scalar .int], Registry.portType]
    [.scalar .str, .choice [Registry.evenHook.type, .scalar .int]]
    (List.cons_ne_nil _ _) (List.cons_ne_nil _ _) (by
      simp only [List.cons_append, List.nil_append, List.forall_mem_cons]
      exact ⟨hcanonical, .built trivial, .scalar .str, hcanonical, List.forall_mem_nil _⟩)
  exact ⟨_, u, w, ht, hu, hw, by rw [hjoin]; rfl⟩

end TypedSettings.SettingType
