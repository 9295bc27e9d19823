/-!
# Items, each at its first place

Items are collected one after the other, and one that is there already is passed over (`addNew`).
Nothing is collected twice and nothing is lost (`foldl_addNew`, `prefix_foldl_addNew`), distinct
items are collected as they stand (`foldl_addNew_of_distinct`), and the first answer to a question
that the same items answer alike stays the first (`findSome?_foldl_addNew`).
-/

namespace TypedSettings

section
variable {α β : Type} {same : α → α → Bool} {x y : α} {xs ys : List α}

def addNew (same : α → α → Bool) (xs : List α) (x : α) : List α :=
  if xs.any (same · x) then xs else xs ++ [x]

/-- No item is the same as an earlier one. -/
def Distinct (same : α → α → Bool) (xs : List α) : Prop := xs.Pairwise fun a b => same a b = false

theorem distinct_nil (same : α → α → Bool) : Distinct same [] := List.Pairwise.nil

theorem addNew_of_any (h : xs.any (same · x) = true) : addNew same xs x = xs := if_pos h

theorem addNew_of_not_any (h : xs.any (same · x) = false) : addNew same xs x = xs ++ [x] := by
  simp [addNew, h]

theorem mem_addNew (h : y ∈ addNew same xs x) : y ∈ xs ∨ y = x := by
  unfold addNew at h
  split at h
  · exact .inl h
  · simpa using h

/-- Adding an item keeps the items apart. -/
theorem distinct_addNew (h : Distinct same xs) (x : α) : Distinct same (addNew same xs x) := by
  unfold addNew
  split
  · exact h
  · rename_i hx
    refine List.pairwise_append.2 ⟨h, List.pairwise_singleton _ _, fun a ha b hb => ?_⟩
    rw [List.mem_singleton.1 hb]
    exact Bool.eq_false_iff.2 fun hab => hx (List.any_eq_true.2 ⟨a, ha, hab⟩)

/-- What is collected is distinct, and was there or was given. -/
theorem foldl_addNew (h : Distinct same xs) (ys : List α) :
    Distinct same (ys.foldl (addNew same) xs) ∧
      ∀ z ∈ ys.foldl (addNew same) xs, z ∈ xs ∨ z ∈ ys := by
  induction ys generalizing xs with
  | nil => exact ⟨h, fun z hz => .inl hz⟩
  | cons y ys ih =>
    obtain ⟨hd, hm⟩ := ih (distinct_addNew h y)
    refine ⟨hd, fun z hz => ?_⟩
    rcases hm z hz with hz | hz
    · rcases mem_addNew hz with hz | rfl
      · exact .inl hz
      · exact .inr List.mem_cons_self
    · exact .inr (List.mem_cons_of_mem _ hz)

/-- What was there stays at the start. -/
theorem prefix_foldl_addNew (same : α → α → Bool) (xs ys : List α) :
    xs <+: ys.foldl (addNew same) xs := by
  induction ys generalizing xs with
  | nil => exact List.prefix_rfl
  | cons y ys ih =>
    refine .trans ?_ (ih (addNew same xs y))
    unfold addNew
    split
    · exact List.prefix_rfl
    · exact List.prefix_append ..

/-- Distinct items are collected as they stand. -/
theorem foldl_addNew_of_distinct (h : Distinct same (xs ++ ys)) :
    ys.foldl (addNew same) xs = xs ++ ys := by
  induction ys generalizing xs with
  | nil => simp
  | cons y ys ih =>
    have hy : xs.any (same · y) = false := by
      rw [List.any_eq_false]
      intro a ha
      simpa using (List.pairwise_append.1 h).2.2 a ha y List.mem_cons_self
    rw [List.foldl_cons, addNew_of_not_any hy, ih (by simpa using h), List.append_assoc,
      List.singleton_append]

/-- If the same items answer alike, passing over the later ones keeps the first answer. -/
theorem findSome?_foldl_addNew {f : α → Option β}
    (h : ∀ a ∈ xs ++ ys, ∀ b ∈ xs ++ ys, same a b = true → f a = f b) :
    (ys.foldl (addNew same) xs).findSome? f = (xs ++ ys).findSome? f := by
  induction ys generalizing xs with
  | nil => simp
  | cons y ys ih =>
    rw [List.foldl_cons]
    cases hy : xs.any (same · y) with
    | false =>
      rw [addNew_of_not_any hy, ih (by simpa using h), List.append_assoc, List.singleton_append]
    | true =>
      have hsub : ∀ a ∈ xs ++ ys, a ∈ xs ++ y :: ys := by
        intro a ha
        simp only [List.mem_append, List.mem_cons] at ha ⊢
        exact ha.imp_right .inr
      rw [addNew_of_any hy, ih fun a ha b hb => h a (hsub a ha) b (hsub b hb)]
      -- an item that answers as the one passed over does stands before it
      obtain ⟨a, ha, hay⟩ := List.any_eq_true.1 hy
      have hfy : f a = f y := h a (by simp [ha]) y (by simp) hay
      rw [List.findSome?_append, List.findSome?_append, List.findSome?_cons]
      cases hxs : xs.findSome? f with
      | some b => rfl
      | none =>
        have hnone : f y = none := by
          rw [← hfy]
          exact List.findSome?_eq_none_iff.1 hxs a ha
        rw [hnone]

end

end TypedSettings
