import TypedSettings.Proofs.Distinct

/-!
# Equivalences of items and of lists

A comparison that is symmetric and transitive compares lists so too: item by item
(`PartialEquivalenceOn.items`), and in whatever order (`PartialEquivalenceOn.members`), although it
looks for every item of the first list in the second and says nothing of the other way. Main
statement: of distinct items that are found in a list that has no more items, no two are found in
the same place, so that every place is taken (`exists_of_matched`).
-/

namespace TypedSettings

/-- The comparison is symmetric and transitive on what has the property. -/
structure PartialEquivalenceOn {α : Type} (P : α → Prop) (same : α → α → Bool) : Prop where
  symm : ∀ {a b}, P a → P b → same a b = true → same b a = true
  trans : ∀ {a b c}, P a → P b → P c → same a b = true → same b c = true → same a c = true

/-- The comparison is an equivalence on what has the property. -/
structure EquivalenceOn {α : Type} (P : α → Prop) (same : α → α → Bool) : Prop extends
    PartialEquivalenceOn P same where
  refl : ∀ {a}, P a → same a a = true

section
variable {α β : Type} {P : α → Prop} {same : α → α → Bool}

theorem PartialEquivalenceOn.imp {Q : α → Prop} (h : PartialEquivalenceOn P same)
    (hqp : ∀ a, Q a → P a) : PartialEquivalenceOn Q same where
  symm ha hb := h.symm (hqp _ ha) (hqp _ hb)
  trans ha hb hc := h.trans (hqp _ ha) (hqp _ hb) (hqp _ hc)

theorem PartialEquivalenceOn.flip (h : PartialEquivalenceOn P same) :
    PartialEquivalenceOn P fun a b => same b a where
  symm ha hb := h.symm hb ha
  trans ha hb hc hab hbc := h.trans hc hb ha hbc hab

theorem PartialEquivalenceOn.prod (h : PartialEquivalenceOn P same) :
    PartialEquivalenceOn (fun p : α × α => P p.1 ∧ P p.2)
      fun p q => same p.1 q.1 && same p.2 q.2 where
  symm hp hq hpq := by
    rw [Bool.and_eq_true] at hpq ⊢
    exact ⟨h.symm hp.1 hq.1 hpq.1, h.symm hp.2 hq.2 hpq.2⟩
  trans hp hq hr hpq hqr := by
    rw [Bool.and_eq_true] at hpq hqr ⊢
    exact ⟨h.trans hp.1 hq.1 hr.1 hpq.1 hqr.1, h.trans hp.2 hq.2 hr.2 hpq.2 hqr.2⟩

/-! ## Item by item -/

def allSame (same : α → α → Bool) (xs ys : List α) : Bool :=
  xs.length == ys.length && (xs.zip ys).all fun p => same p.1 p.2

theorem allSame_iff {xs ys : List α} :
    allSame same xs ys = true ↔ xs.length = ys.length ∧
      ∀ i (hx : i < xs.length) (hy : i < ys.length), same xs[i] ys[i] = true := by
  rw [allSame, Bool.and_eq_true, beq_iff_eq, List.all_eq_true]
  refine and_congr_right fun hlen => ⟨fun h i hx hy => ?_, fun h p hp => ?_⟩
  · have hi : i < (xs.zip ys).length := by
      rw [List.length_zip]
      omega
    simpa using h _ (List.getElem_mem hi)
  · obtain ⟨i, hi, rfl⟩ := List.getElem_of_mem hp
    rw [List.length_zip] at hi
    simpa using h i (by omega) (by omega)

theorem allSame_self {xs : List α} (h : ∀ x ∈ xs, same x x = true) : allSame same xs xs = true :=
  allSame_iff.2 ⟨rfl, fun _ hi _ => h _ (List.getElem_mem hi)⟩

theorem PartialEquivalenceOn.items (h : PartialEquivalenceOn P same) :
    PartialEquivalenceOn (fun xs => ∀ x ∈ xs, P x) (allSame same) where
  symm hxs hys hxy := by
    rw [allSame_iff] at hxy ⊢
    refine ⟨hxy.1.symm, fun i hy hx => ?_⟩
    exact h.symm (hxs _ (List.getElem_mem hx)) (hys _ (List.getElem_mem hy)) (hxy.2 i hx hy)
  trans hxs hys hzs hxy hyz := by
    rw [allSame_iff] at hxy hyz ⊢
    refine ⟨hxy.1.trans hyz.1, fun i hx hz => ?_⟩
    have hy : i < _ := hyz.1.symm ▸ hz
    exact h.trans (hxs _ (List.getElem_mem hx)) (hys _ (List.getElem_mem hy))
      (hzs _ (List.getElem_mem hz)) (hxy.2 i hx hy) (hyz.2 i hy hz)

/-! ## In whatever order -/

/-- What is related to an item of a list, and not to one of them, is related to another. -/
theorem exists_without {R : α → β → Prop} {x : α} {before after : List β} {z : β}
    (h : ∃ y ∈ before ++ z :: after, R x y) (hz : ¬ R x z) : ∃ y ∈ before ++ after, R x y := by
  obtain ⟨y, hy, hxy⟩ := h
  refine ⟨y, ?_, hxy⟩
  rw [List.mem_append, List.mem_cons] at hy
  rcases hy with hy | rfl | hy
  · exact List.mem_append_left _ hy
  · exact absurd hxy hz
  · exact List.mem_append_right _ hy

theorem subset_without (before after : List β) (z : β) :
    before ++ after ⊆ before ++ z :: after :=
  ((List.sublist_cons_self z after).append_left before).subset

/-- Of items that are related to items of a list, no two of them to the same one, there are no more
than that list has. -/
theorem length_le_of_matched {R : α → β → Prop} {xs : List α} {ys : List β}
    (h : ∀ x ∈ xs, ∃ y ∈ ys, R x y)
    (hapart : xs.Pairwise fun x x' => ∀ y ∈ ys, R x y → ¬ R x' y) : xs.length ≤ ys.length := by
  induction xs generalizing ys with
  | nil => exact Nat.zero_le _
  | cons x xs ih =>
    obtain ⟨z, hz, hxz⟩ := h x List.mem_cons_self
    obtain ⟨before, after, rfl⟩ := List.append_of_mem hz
    obtain ⟨hx, hxs⟩ := List.pairwise_cons.1 hapart
    -- the others are related to what is left when the partner of the first is taken out
    have hothers : ∀ x' ∈ xs, ∃ y ∈ before ++ after, R x' y := fun x' hx' =>
      exists_without (h x' (List.mem_cons_of_mem _ hx')) (hx x' hx' z hz hxz)
    have hle := ih hothers <| hxs.imp fun hapart y hy =>
      hapart y (subset_without before after z hy)
    simp only [List.length_cons, List.length_append] at hle ⊢
    omega

/-- If the list has no more items than there are, none of it is left out. -/
theorem exists_of_matched {R : α → β → Prop} {xs : List α} {ys : List β}
    (hlen : ys.length ≤ xs.length) (h : ∀ x ∈ xs, ∃ y ∈ ys, R x y)
    (hapart : xs.Pairwise fun x x' => ∀ y ∈ ys, R x y → ¬ R x' y) :
    ∀ y ∈ ys, ∃ x ∈ xs, R x y := by
  intro y hy
  refine Classical.byContradiction fun hnone => ?_
  obtain ⟨before, after, rfl⟩ := List.append_of_mem hy
  -- an item that nothing is related to may as well be taken out, and then there are too few
  have hothers : ∀ x ∈ xs, ∃ z ∈ before ++ after, R x z := fun x hx =>
    exists_without (h x hx) fun hxy => hnone ⟨x, hx, hxy⟩
  have hle := length_le_of_matched hothers <| hapart.imp fun hapart z hz =>
    hapart z (subset_without before after y hz)
  simp only [List.length_append, List.length_cons] at hle hlen
  omega

/-- Whether two lists are of one length and every item of the first is found in the second. -/
def allFound (same : α → α → Bool) (xs ys : List α) : Bool :=
  xs.length == ys.length && xs.all fun x => ys.any fun y => same x y

theorem allFound_iff {xs ys : List α} :
    allFound same xs ys = true ↔
      xs.length = ys.length ∧ ∀ x ∈ xs, ∃ y ∈ ys, same x y = true := by
  simp [allFound]

theorem allFound_self {xs : List α} (h : ∀ x ∈ xs, same x x = true) :
    allFound same xs xs = true :=
  allFound_iff.2 ⟨rfl, fun x hx => ⟨x, hx, h x hx⟩⟩

/-- Of distinct items no two are the same as one item. -/
theorem PartialEquivalenceOn.apart (h : PartialEquivalenceOn P same) {xs ys : List α}
    (hxs : ∀ x ∈ xs, P x) (hys : ∀ y ∈ ys, P y) (hdistinct : Distinct same xs) :
    xs.Pairwise fun x x' => ∀ y ∈ ys, same x y = true → ¬ same x' y = true := by
  refine hdistinct.imp_of_mem fun {x x'} hx hx' hxx' y hy hxy hx'y => ?_
  have hyx' := h.symm (hxs x' hx') (hys y hy) hx'y
  rw [h.trans (hxs x hx) (hys y hy) (hxs x' hx') hxy hyx'] at hxx'
  cases hxx'

theorem PartialEquivalenceOn.members (h : PartialEquivalenceOn P same) :
    PartialEquivalenceOn (fun xs => (∀ x ∈ xs, P x) ∧ Distinct same xs) (allFound same) where
  symm := by
    rintro xs ys ⟨hxs, hdistinct⟩ ⟨hys, -⟩ hxy
    rw [allFound_iff] at hxy ⊢
    refine ⟨hxy.1.symm, fun y hy => ?_⟩
    have hapart := h.apart hxs hys hdistinct
    obtain ⟨x, hx, hxy⟩ := exists_of_matched (Nat.le_of_eq hxy.1.symm) hxy.2 hapart y hy
    exact ⟨x, hx, h.symm (hxs x hx) (hys y hy) hxy⟩
  trans := by
    rintro xs ys zs ⟨hxs, -⟩ ⟨hys, -⟩ ⟨hzs, -⟩ hxy hyz
    rw [allFound_iff] at hxy hyz ⊢
    refine ⟨hxy.1.trans hyz.1, fun x hx => ?_⟩
    obtain ⟨y, hy, hxy⟩ := hxy.2 x hx
    obtain ⟨z, hz, hyz⟩ := hyz.2 y hy
    exact ⟨z, hz, h.trans (hxs x hx) (hys y hy) (hzs z hz) hxy hyz⟩

/-- Of distinct items no two are the same, whichever of them stands first. -/
theorem PartialEquivalenceOn.not_same (h : PartialEquivalenceOn P same) {xs : List α}
    (hxs : ∀ x ∈ xs, P x) (hdistinct : Distinct same xs) {i j : Nat} (hi : i < xs.length)
    (hj : j < xs.length) (hij : i ≠ j) : same xs[i] xs[j] = false := by
  have hapart := List.pairwise_iff_getElem.1 hdistinct
  rcases Nat.lt_or_gt_of_ne hij with hlt | hgt
  · exact hapart i j hi hj hlt
  · refine Bool.eq_false_iff.2 fun hsame => ?_
    have hsymm := h.symm (hxs _ (List.getElem_mem hi)) (hxs _ (List.getElem_mem hj)) hsame
    rw [hapart j i hj hi hgt] at hsymm
    cases hsymm

end

end TypedSettings
