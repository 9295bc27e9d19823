import TypedSettings.Proofs.Distinct
import TypedSettings.Proofs.Value.Inside

/-!
# Sets and maps without repeats

Building a set or a map from values leaves no repeats (`noRepeats_setOf`, `noRepeats_mapOf`) and
brings nothing in that was not given; of values without repeats it keeps all of them where they
stand (`setOf_of_noRepeats`, `mapOf_of_noRepeats`).
-/

namespace TypedSettings.Value

variable [Payloads]

/-! ## Sets -/

theorem noRepeats_setOf (vs : List Value) : (setOf vs).NoRepeats :=
  (foldl_addNew (distinct_nil equal) vs).1

theorem mem_of_mem_setOf {vs : List Value} {w : Value} (h : w ∈ (setOf vs).children) :
    w ∈ vs := by
  rcases (foldl_addNew (distinct_nil equal) vs).2 w h with h | h
  · cases h
  · exact h

/-- Of members without repeats none is dropped or moved. -/
theorem setOf_of_noRepeats {vs : List Value} (h : (set vs).NoRepeats) : setOf vs = set vs := by
  have h : Distinct equal ([] ++ vs) := h
  have hfold : vs.foldl addMember [] = [] ++ vs := foldl_addNew_of_distinct h
  rw [setOf, hfold, List.nil_append]

/-! ## Maps -/

theorem mem_putEntry {k v : Value} {es : List (Value × Value)} {x : Value × Value}
    (h : x ∈ putEntry k v es) :
    (x.1 = k ∨ ∃ e ∈ es, x.1 = e.1) ∧ (x.2 = v ∨ ∃ e ∈ es, x.2 = e.2) := by
  induction es with
  | nil =>
    obtain rfl : x = (k, v) := by simpa [putEntry] using h
    exact ⟨Or.inl rfl, Or.inl rfl⟩
  | cons e es ih =>
    unfold putEntry at h
    split at h
    · rcases List.mem_cons.1 h with rfl | h
      · exact ⟨Or.inr ⟨e, List.mem_cons_self, rfl⟩, Or.inl rfl⟩
      · exact ⟨Or.inr ⟨x, List.mem_cons_of_mem _ h, rfl⟩,
          Or.inr ⟨x, List.mem_cons_of_mem _ h, rfl⟩⟩
    · rcases List.mem_cons.1 h with rfl | h
      · exact ⟨Or.inr ⟨x, List.mem_cons_self, rfl⟩, Or.inr ⟨x, List.mem_cons_self, rfl⟩⟩
      · obtain ⟨hk, hv⟩ := ih h
        refine ⟨hk.imp_right ?_, hv.imp_right ?_⟩ <;> rintro ⟨f, hf, hx⟩
        · exact ⟨f, List.mem_cons_of_mem _ hf, hx⟩
        · exact ⟨f, List.mem_cons_of_mem _ hf, hx⟩

/-- Putting an entry adds its key unless the key is there. -/
theorem keys_putEntry (k v : Value) (es : List (Value × Value)) :
    (putEntry k v es).map Prod.fst = addNew equal (es.map Prod.fst) k := by
  induction es with
  | nil => rfl
  | cons e es ih =>
    by_cases he : equal e.1 k = true
    · simp [putEntry, addNew, he]
    · rw [putEntry, if_neg he, List.map_cons, ih, addNew, addNew, List.map_cons, List.any_cons,
        Bool.eq_false_iff.2 he, Bool.false_or]
      split <;> rfl

theorem pairwise_keys_iff {es : List (Value × Value)} :
    (es.Pairwise fun a b => equal a.1 b.1 = false) ↔ Distinct equal (es.map Prod.fst) := by
  rw [Distinct, List.pairwise_map]

/-- Putting an entry keeps the keys apart. -/
theorem pairwise_putEntry {es : List (Value × Value)}
    (h : es.Pairwise fun a b => equal a.1 b.1 = false) (k v : Value) :
    (putEntry k v es).Pairwise fun a b => equal a.1 b.1 = false := by
  rw [pairwise_keys_iff] at h ⊢
  rw [keys_putEntry]
  exact distinct_addNew h k

theorem foldl_putEntry (es acc : List (Value × Value))
    (h : acc.Pairwise fun a b => equal a.1 b.1 = false) :
    ((es.foldl (fun acc e => putEntry e.1 e.2 acc) acc).Pairwise
        fun a b => equal a.1 b.1 = false) ∧
      ∀ x ∈ es.foldl (fun acc e => putEntry e.1 e.2 acc) acc,
        (∃ e ∈ acc ++ es, x.1 = e.1) ∧ ∃ e ∈ acc ++ es, x.2 = e.2 := by
  induction es generalizing acc with
  | nil => exact ⟨h, fun x hx => by simpa using ⟨⟨x.2, hx⟩, ⟨x.1, hx⟩⟩⟩
  | cons e es ih =>
    obtain ⟨hp, hm⟩ := ih (putEntry e.1 e.2 acc) (pairwise_putEntry h e.1 e.2)
    refine ⟨hp, fun x hx => ?_⟩
    -- an entry comes from the rest, from the entry put, or from those before
    have origin : ∀ y ∈ putEntry e.1 e.2 acc ++ es,
        (∃ f ∈ acc ++ e :: es, y.1 = f.1) ∧ ∃ f ∈ acc ++ e :: es, y.2 = f.2 := by
      intro y hy
      rcases List.mem_append.1 hy with hy | hy
      · obtain ⟨hk, hv⟩ := mem_putEntry hy
        refine ⟨?_, ?_⟩
        · rcases hk with hk | ⟨f, hf, hk⟩
          · exact ⟨e, by simp, hk⟩
          · exact ⟨f, by simp [hf], hk⟩
        · rcases hv with hv | ⟨f, hf, hv⟩
          · exact ⟨e, by simp, hv⟩
          · exact ⟨f, by simp [hf], hv⟩
      · exact ⟨⟨y, by simp [hy], rfl⟩, ⟨y, by simp [hy], rfl⟩⟩
    obtain ⟨⟨f, hf, hk⟩, ⟨g, hg, hv⟩⟩ := hm x hx
    rw [hk, hv]
    exact ⟨(origin f hf).1, (origin g hg).2⟩

theorem noRepeats_mapOf (es : List (Value × Value)) : (mapOf es).NoRepeats :=
  (foldl_putEntry es [] List.Pairwise.nil).1

/-- The key of an entry of a map is the key of an entry given, and so is its content. -/
theorem mem_mapOf {es fs : List (Value × Value)} (hm : mapOf es = map fs) {x : Value × Value}
    (h : x ∈ fs) : (∃ e ∈ es, x.1 = e.1) ∧ ∃ e ∈ es, x.2 = e.2 := by
  cases hm
  simpa using (foldl_putEntry es [] List.Pairwise.nil).2 x h

theorem putEntry_of_fresh {es : List (Value × Value)} {k : Value}
    (h : es.any (equal ·.1 k) = false) (v : Value) : putEntry k v es = es ++ [(k, v)] := by
  induction es with
  | nil => rfl
  | cons e es ih =>
    simp only [List.any_cons, Bool.or_eq_false_iff] at h
    simp [putEntry, h.1, ih h.2]

theorem foldl_putEntry_of_pairwise {es acc : List (Value × Value)}
    (h : (acc ++ es).Pairwise fun a b => equal a.1 b.1 = false) :
    es.foldl (fun acc e => putEntry e.1 e.2 acc) acc = acc ++ es := by
  induction es generalizing acc with
  | nil => simp
  | cons e es ih =>
    have hfresh : acc.any (equal ·.1 e.1) = false := by
      rw [List.any_eq_false]
      intro a ha
      simpa using (List.pairwise_append.1 h).2.2 a ha e List.mem_cons_self
    rw [List.foldl_cons, putEntry_of_fresh hfresh, ih (by simpa using h)]
    simp

/-- Of entries without repeated keys none is merged or moved. -/
theorem mapOf_of_noRepeats {es : List (Value × Value)} (h : (map es).NoRepeats) :
    mapOf es = map es := by
  have h : List.Pairwise (fun a b : Value × Value => equal a.1 b.1 = false) ([] ++ es) := h
  rw [mapOf, foldl_putEntry_of_pairwise h, List.nil_append]

end TypedSettings.Value
