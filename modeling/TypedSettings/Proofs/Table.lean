import Mathlib.Data.List.Sort
import TypedSettings.Table

/-!
# Names and contents of tables

An ascending table has a name at most once, so that what stands in it is what can be looked up
(`Table.find?_eq_some_iff`), and two of them with the same contents under the same names are one
table (`Table.eq_of_find?`). Of entries in a series the last one under a name counts
(`IsLastEntry`): the table of a series has its content (`Table.find?_ofEntries`), and so depends on
nothing else (`Table.ofEntries_congr`).
-/

namespace TypedSettings

section
variable {α : Type} {t u : Table α} {es fs : List (String × α)} {name : String} {content : α}

/-! ## Names -/

theorem mem_names_iff : name ∈ t.names ↔ (t.find? name).isSome = true := by
  induction t with
  | nil => simp [Table.names, Table.find?]
  | cons e t ih =>
    rw [Table.names, List.map_cons, List.mem_cons, Table.find?_cons]
    by_cases hn : e.1 = name
    · simp [hn]
    · rw [if_neg hn, ← ih]
      exact or_iff_right (Ne.symm hn)

theorem Table.pairwise_names (h : t.Ascending) : t.names.Pairwise (· < ·) := List.pairwise_map.2 h

theorem nodup_names (h : t.Ascending) : t.names.Nodup := by
  refine List.pairwise_map.2 (h.imp ?_)
  intro a b hlt heq
  rw [heq] at hlt
  exact String.lt_irrefl _ hlt

/-- A new name makes a table longer by one. -/
theorem Table.length_insert (h : name ∉ t.names) (content : α) :
    (t.insert name content).length = t.length + 1 := by
  induction t with
  | nil => rfl
  | cons e t ih =>
    rw [Table.names, List.map_cons, List.mem_cons, not_or] at h
    rw [Table.insert, if_neg h.1]
    split
    · rfl
    · rw [List.length_cons, ih h.2, List.length_cons]

/-- Of items in ascending order those before an item are those below it. -/
theorem mem_before_iff {f : α → String} {before after : List α} {x y : α}
    (h : (before ++ x :: after).Pairwise fun a b => f a < f b) :
    y ∈ before ↔ y ∈ before ++ x :: after ∧ f y < f x := by
  obtain ⟨-, hafter, hbefore⟩ := List.pairwise_append.1 h
  constructor
  · intro hmem
    exact ⟨List.mem_append_left _ hmem, hbefore y hmem x List.mem_cons_self⟩
  · rintro ⟨hmem, hlt⟩
    rcases List.mem_append.1 hmem with hmem | hmem
    · exact hmem
    · rcases List.mem_cons.1 hmem with rfl | hmem
      · exact absurd hlt (String.lt_irrefl _)
      · have hgt : f x < f y := (List.pairwise_cons.1 hafter).1 y hmem
        exact absurd (String.lt_trans hlt hgt) (String.lt_irrefl _)

/-! ## Contents -/

theorem Table.find?_of_mem (h : t.Ascending) (hx : (name, content) ∈ t) :
    t.find? name = some content := by
  induction t with
  | nil => cases hx
  | cons e t ih =>
    obtain ⟨hlt, hrest⟩ := List.pairwise_cons.1 h
    rw [find?_cons]
    rcases List.mem_cons.1 hx with rfl | hx
    · exact if_pos rfl
    · rw [if_neg, ih hrest hx]
      intro heq
      exact String.lt_irrefl _ (heq ▸ hlt _ hx)

theorem Table.mem_of_find? (h : t.find? name = some content) : (name, content) ∈ t := by
  induction t with
  | nil => cases h
  | cons e t ih =>
    rw [find?_cons] at h
    split at h
    · rename_i hname
      cases h
      rw [← hname]
      exact List.mem_cons_self
    · exact List.mem_cons_of_mem _ (ih h)

theorem Table.find?_eq_some_iff (h : t.Ascending) :
    t.find? name = some content ↔ (name, content) ∈ t :=
  ⟨mem_of_find?, find?_of_mem h⟩

/-- Items in the strict order of a key are determined by which items they are. -/
theorem eq_of_ordered {β : Type} {r : β → β → Prop} (hirrefl : ∀ a, ¬ r a a)
    (htrans : ∀ {a b c}, r a b → r b c → r a c) {f : α → β} {xs ys : List α}
    (hxs : xs.Pairwise fun a b => r (f a) (f b)) (hys : ys.Pairwise fun a b => r (f a) (f b))
    (h : ∀ x, x ∈ xs ↔ x ∈ ys) : xs = ys := by
  have hsame : Std.Irrefl fun a b => r (f a) (f b) := ⟨fun a => hirrefl (f a)⟩
  have hback : Std.Antisymm fun a b => r (f a) (f b) :=
    ⟨fun _ _ hab hba => absurd (htrans hab hba) (hirrefl _)⟩
  exact List.Pairwise.eq_of_mem_iff hxs hys fun x => h x

/-- Ascending tables with the same contents are the same. -/
theorem Table.eq_of_find? (ht : t.Ascending) (hu : u.Ascending)
    (h : ∀ name, t.find? name = u.find? name) : t = u := by
  refine eq_of_ordered String.lt_irrefl String.lt_trans ht hu fun e => ?_
  rw [← find?_eq_some_iff ht, ← find?_eq_some_iff hu, h]

/-! ## Entries in a series -/

/-- The content stands under the name, and nothing stands under it later. -/
def IsLastEntry (es : List (String × α)) (name : String) (content : α) : Prop :=
  ∃ before after, es = before ++ (name, content) :: after ∧ ∀ e ∈ after, e.1 ≠ name

theorem isLastEntry_nil : ¬ IsLastEntry [] name content := by
  rintro ⟨before, after, h, _⟩
  simp at h

theorem isLastEntry_cons {e : String × α} : IsLastEntry (e :: es) name content ↔
    IsLastEntry es name content ∨ e = (name, content) ∧ ∀ e ∈ es, e.1 ≠ name := by
  constructor
  · rintro ⟨before, after, h, hafter⟩
    cases before with
    | nil =>
      cases h
      exact .inr ⟨rfl, hafter⟩
    | cons _ before =>
      cases h
      exact .inl ⟨before, after, rfl, hafter⟩
  · rintro (⟨before, after, rfl, hafter⟩ | ⟨rfl, hes⟩)
    · exact ⟨e :: before, after, rfl, hafter⟩
    · exact ⟨[], es, rfl, hes⟩

/-- A name is in a series exactly if something is the last entry under it. -/
theorem exists_isLastEntry_iff :
    (∃ content, IsLastEntry es name content) ↔ ∃ e ∈ es, e.1 = name := by
  induction es with
  | nil => simp [isLastEntry_nil]
  | cons e es ih =>
    simp only [isLastEntry_cons, exists_or, ih, List.exists_mem_cons_iff]
    by_cases hes : ∃ x ∈ es, x.1 = name
    · exact ⟨fun _ => .inr hes, fun _ => .inl hes⟩
    · have hnone : ∀ x ∈ es, x.1 ≠ name := fun x hx hname => hes ⟨x, hx, hname⟩
      rw [or_iff_right hes, or_iff_left hes]
      exact ⟨fun ⟨_, he, _⟩ => congrArg Prod.fst he, fun he => ⟨e.2, Prod.ext he rfl, hnone⟩⟩

/-- An entry under another name does not matter to a name. -/
theorem isLastEntry_remove {e : String × α} (h : e.1 ≠ name) :
    IsLastEntry (es ++ e :: fs) name content ↔ IsLastEntry (es ++ fs) name content := by
  induction es with
  | nil =>
    rw [List.nil_append, List.nil_append, isLastEntry_cons]
    exact or_iff_left fun he => h (congrArg Prod.fst he.1)
  | cons d es ih =>
    rw [List.cons_append, List.cons_append, isLastEntry_cons, isLastEntry_cons, ih]
    refine or_congr_right (and_congr_right fun _ => ?_)
    rw [List.forall_mem_append, List.forall_mem_append, List.forall_mem_cons]
    exact and_congr_right fun _ => and_iff_right h

/-- Where every name stands once, each entry is the last of its name. -/
theorem isLastEntry_iff_mem (h : (es.map (·.1)).Nodup) :
    IsLastEntry es name content ↔ (name, content) ∈ es := by
  constructor
  · rintro ⟨before, after, rfl, _⟩
    simp
  · intro hmem
    obtain ⟨before, after, rfl⟩ := List.append_of_mem hmem
    refine ⟨before, after, rfl, fun e he heq => ?_⟩
    rw [List.map_append, List.map_cons] at h
    have hafter := (List.nodup_cons.1 (List.nodup_append.1 h).2.1).1
    exact hafter (List.mem_map.2 ⟨e, he, heq⟩)

theorem Table.ascending_foldl_insert (h : t.Ascending) (es : List (String × α)) :
    Table.Ascending (es.foldl (fun t e => Table.insert e.1 e.2 t) t) := by
  induction es generalizing t with
  | nil => exact h
  | cons e es ih => exact ih (ascending_insert h)

/-- After entries in a series a table has the last of their contents, or what it had before. -/
theorem Table.find?_foldl_insert :
    Table.find? (es.foldl (fun t e => Table.insert e.1 e.2 t) t) name = some content ↔
      IsLastEntry es name content ∨ t.find? name = some content ∧ ∀ e ∈ es, e.1 ≠ name := by
  induction es generalizing t with
  | nil => simp [isLastEntry_nil]
  | cons e es ih =>
    rw [List.foldl_cons, ih, isLastEntry_cons, find?_insert, List.forall_mem_cons, or_assoc]
    refine or_congr_right ?_
    by_cases hname : e.1 = name
    · simp [hname, Prod.ext_iff]
    · simp [hname, Prod.ext_iff]

/-- The table of a series of entries ascends. -/
theorem Table.ascending_ofEntries (es : List (String × α)) : (Table.ofEntries es).Ascending :=
  ascending_foldl_insert List.Pairwise.nil es

theorem Table.find?_ofEntries :
    (Table.ofEntries es).find? name = some content ↔ IsLastEntry es name content := by
  rw [Table.ofEntries, find?_foldl_insert, find?_nil]
  simp

/-- Nothing is under a name that no entry of the series has. -/
theorem Table.find?_ofEntries_eq_none_iff :
    (Table.ofEntries es).find? name = none ↔ ∀ e ∈ es, e.1 ≠ name := by
  simp only [Option.eq_none_iff_forall_ne_some, ne_eq, find?_ofEntries]
  rw [← not_exists, exists_isLastEntry_iff]
  exact ⟨fun h e he hname => h ⟨e, he, hname⟩, fun h ⟨e, he, hname⟩ => h e he hname⟩

/-- What is told of other names does not matter to a name. -/
theorem Table.find?_ofEntries_filterMap {β : Type} {told : β → Option (String × α)} {x : β}
    (h : ∀ e ∈ told x, e.1 ≠ name) (before after : List β) :
    (Table.ofEntries ((before ++ x :: after).filterMap told)).find? name =
      (Table.ofEntries ((before ++ after).filterMap told)).find? name := by
  refine Option.ext fun content => ?_
  rw [find?_ofEntries, find?_ofEntries, List.filterMap_append, List.filterMap_append]
  cases hx : told x with
  | none => rw [List.filterMap_cons_none hx]
  | some e =>
    rw [List.filterMap_cons_some hx]
    exact isLastEntry_remove (h e hx)

/-- The table of a series depends only on the last entry of each name. -/
theorem Table.ofEntries_congr
    (h : ∀ name content, IsLastEntry es name content ↔ IsLastEntry fs name content) :
    Table.ofEntries es = Table.ofEntries fs := by
  refine eq_of_find? (ascending_ofEntries es) (ascending_ofEntries fs) fun name => ?_
  exact Option.ext fun content => by rw [find?_ofEntries, find?_ofEntries, h]

end

end TypedSettings
