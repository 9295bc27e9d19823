import TypedSettings.Proofs.Toml.Order
import TypedSettings.Proofs.Value.Distinct

/-!
# What TOML values stand for

The value of an ordered table has the entries of the table as they stand, for none of them replaces
another (`Ordered.toValue_table`). Main statements: at every depth the values are of the kinds that
TOML has, and maps have distinct texts for keys (`Ordered.everywhere_toValue`); and two ordered
values stand for the same value exactly if they differ in nothing but date-times in the place of
their texts (`Ordered.toValue_eq_iff`).
-/

namespace TypedSettings.Toml

/-! ## Date-times -/

mutual

/-- The value with the texts of its date-times in their place. -/
def dateTimesAsTexts : Toml → Toml
  | dateTime d => .text (String.ofList d.chars)
  | array items => .array (itemsAsTexts items)
  | table entries => .table (entriesAsTexts entries)
  | t => t
termination_by structural t => t

def itemsAsTexts : List Toml → List Toml
  | [] => []
  | t :: ts => dateTimesAsTexts t :: itemsAsTexts ts
termination_by structural ts => ts

def entriesAsTexts : List (String × Toml) → List (String × Toml)
  | [] => []
  | (k, t) :: es => (k, dateTimesAsTexts t) :: entriesAsTexts es
termination_by structural es => es

end

theorem itemsAsTexts_eq_map (ts : List Toml) : itemsAsTexts ts = ts.map dateTimesAsTexts := by
  induction ts with
  | nil => rfl
  | cons t ts ih => simp [itemsAsTexts, ih]

theorem entriesAsTexts_eq_map (es : List (String × Toml)) :
    entriesAsTexts es = es.map fun e => (e.1, e.2.dateTimesAsTexts) := by
  induction es with
  | nil => rfl
  | cons e es ih => simp [entriesAsTexts, ih]

/-- Lists that one function does not tell apart, another does not if it tells apart no more items. -/
theorem map_eq_map_iff_of {α β γ : Type} {f : α → β} {g : α → γ} {xs ys : List α}
    (h : ∀ x ∈ xs, ∀ y ∈ ys, f x = f y ↔ g x = g y) : xs.map f = ys.map f ↔ xs.map g = ys.map g := by
  induction xs generalizing ys with
  | nil => cases ys <;> simp
  | cons x xs ih =>
    cases ys with
    | nil => simp
    | cons y ys =>
      have hrest := ih fun a ha b hb => h a (List.mem_cons_of_mem _ ha) b (List.mem_cons_of_mem _ hb)
      simp only [List.map_cons, List.cons.injEq, h x List.mem_cons_self y List.mem_cons_self, hrest]

section
variable [Payloads] {t u : Toml} {es : Table Toml}

/-! ## Kinds -/

/-- The value is of a kind that TOML has, and the keys of a map are texts, none of them twice. -/
def IsTomlKind : Value → Prop
  | .bool _ | .int _ | .float _ | .str _ | .list _ => True
  | .map es => (∀ e ∈ es, ∃ s, e.1 = .str s) ∧ (Value.map es).NoRepeats
  | _ => False

theorem Ordered.noRepeats (h : Ordered (.table es)) :
    (Value.map (es.map fun e => (.str e.1, e.2.toValue))).NoRepeats := by
  cases h with
  | table hkeys _ =>
    refine List.pairwise_map.2 (hkeys.imp fun hlt => ?_)
    rw [Value.equal, beq_eq_false_iff_ne]
    exact String.ne_of_lt hlt

/-- An ordered table stands for its entries as they are: none of them replaces another. -/
theorem Ordered.toValue_table (h : Ordered (.table es)) :
    (Toml.table es).toValue = .map (es.map fun e => (.str e.1, e.2.toValue)) := by
  rw [toValue, tableEntries_eq_map, Value.mapOf_of_noRepeats h.noRepeats]

/-- What an ordered value stands for is of a kind that TOML has, at every depth. -/
theorem Ordered.everywhere_toValue (h : t.Ordered) : t.toValue.Everywhere IsTomlKind := by
  induction h with
  | text | int | float | bool | dateTime => exact .leaf trivial rfl
  | array _ ih =>
    rw [toValue, itemValues_eq_map]
    refine .intro trivial fun w hw => ?_
    obtain ⟨t, ht, rfl⟩ := List.mem_map.1 hw
    exact ih t ht
  | table hkeys hes ih =>
    have htable := Ordered.table hkeys hes
    rw [htable.toValue_table]
    refine .intro ⟨fun e he => ?_, htable.noRepeats⟩ fun w hw => ?_
    · obtain ⟨f, _, rfl⟩ := List.mem_map.1 he
      exact ⟨f.1, rfl⟩
    · obtain ⟨e, he, hw⟩ := Value.mem_children_map.1 hw
      obtain ⟨f, hf, rfl⟩ := List.mem_map.1 he
      rcases hw with rfl | rfl
      · exact .leaf trivial rfl
      · exact ih f hf

/-! ## Values that stand for the same -/

theorem toValue_array_eq_iff {ts us : List Toml}
    (h : ∀ t ∈ ts, ∀ u ∈ us, t.toValue = u.toValue ↔ t.dateTimesAsTexts = u.dateTimesAsTexts) :
    (array ts).toValue = (array us).toValue ↔
      (array ts).dateTimesAsTexts = (array us).dateTimesAsTexts := by
  simp only [toValue, dateTimesAsTexts, itemValues_eq_map, itemsAsTexts_eq_map, Value.list.injEq,
    array.injEq, map_eq_map_iff_of h]

theorem Ordered.toValue_table_eq_iff {fs : Table Toml} (hes : Ordered (.table es))
    (hfs : Ordered (.table fs)) (h : ∀ e ∈ es, ∀ f ∈ fs, e.2.toValue = f.2.toValue ↔
      e.2.dateTimesAsTexts = f.2.dateTimesAsTexts) :
    (Toml.table es).toValue = (Toml.table fs).toValue ↔
      (Toml.table es).dateTimesAsTexts = (Toml.table fs).dateTimesAsTexts := by
  rw [hes.toValue_table, hfs.toValue_table]
  simp only [dateTimesAsTexts, entriesAsTexts_eq_map, Value.map.injEq, table.injEq]
  refine map_eq_map_iff_of fun e he f hf => ?_
  simp only [Prod.mk.injEq, Value.str.injEq, h e he f hf]

/-- Ordered values stand for the same value exactly if they are the same but for date-times, which
stand for their texts. -/
theorem Ordered.toValue_eq_iff (ht : t.Ordered) (hu : u.Ordered) :
    t.toValue = u.toValue ↔ t.dateTimesAsTexts = u.dateTimesAsTexts := by
  induction ht generalizing u with
  | array hts ih =>
    cases hu with
    | array hus => exact toValue_array_eq_iff fun t ht u hu => ih t ht (hus u hu)
    | _ => simp [toValue, dateTimesAsTexts, Value.mapOf]
  | table hkeys hes ih =>
    cases hu with
    | table hkeys' hfs =>
      exact (Ordered.table hkeys hes).toValue_table_eq_iff (.table hkeys' hfs) fun e he f hf =>
        ih e he (hfs f hf)
    | _ => simp [toValue, dateTimesAsTexts, Value.mapOf]
  | _ => cases hu <;> simp [toValue, dateTimesAsTexts, Value.mapOf]

end

end TypedSettings.Toml
