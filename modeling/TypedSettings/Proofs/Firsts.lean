import TypedSettings.Proofs.Equivalence

/-!
# First places and last contents

Of a list, the items that are the same as no earlier one (`firsts`); of entries with keys, each key
at its first place with the content of the last entry that has it (`merged`). Both are told from the
whole list and not from what was collected before. Main statements: collecting new items yields the
first ones (`foldl_addNew_eq_firsts`), those of two parts being the first ones of the first ones of
either (`firsts_append_firsts`); the merged entries have the first keys (`map_fst_merged`), and each
of them has the last of all contents under its key (`getLast?_contentsOf`).
-/

namespace TypedSettings

/-! ## First places -/

section
variable {α : Type} {same : α → α → Bool} {P : α → Prop} {x : α} {acc before xs : List α}

/-- The items that are the same as no item that stands before them, some standing before all. -/
def firstsAfter (same : α → α → Bool) (before : List α) : List α → List α
  | [] => []
  | x :: xs =>
    if before.any (same · x) then firstsAfter same (before ++ [x]) xs
    else x :: firstsAfter same (before ++ [x]) xs

/-- The items that are the same as no earlier one, in their order. -/
def firsts (same : α → α → Bool) (xs : List α) : List α := firstsAfter same [] xs

theorem firstsAfter_cons_of_any (h : before.any (same · x) = true) :
    firstsAfter same before (x :: xs) = firstsAfter same (before ++ [x]) xs := if_pos h

theorem firstsAfter_cons_of_not_any (h : before.any (same · x) = false) :
    firstsAfter same before (x :: xs) = x :: firstsAfter same (before ++ [x]) xs := by
  simp [firstsAfter, h]

theorem mem_of_mem_firstsAfter {y : α} (h : y ∈ firstsAfter same before xs) : y ∈ xs := by
  induction xs generalizing before with
  | nil => exact h
  | cons x xs ih =>
    unfold firstsAfter at h
    split at h
    · exact List.mem_cons_of_mem x (ih h)
    · rcases List.mem_cons.1 h with rfl | h
      · exact List.mem_cons_self
      · exact List.mem_cons_of_mem x (ih h)

theorem mem_of_mem_firsts {y : α} (h : y ∈ firsts same xs) : y ∈ xs := mem_of_mem_firstsAfter h

/-- What was collected answers for all that stood before: an item is the same as one of the one if
it is the same as one of the other. -/
def Covers (same : α → α → Bool) (acc before xs : List α) : Prop :=
  ∀ y ∈ xs, acc.any (same · y) = before.any (same · y)

/-- An item that is passed over is answered for by the item that it is the same as. -/
theorem Covers.of_any (h : PartialEquivalenceOn P same) (hacc : ∀ a ∈ acc, P a)
    (hxs : ∀ y ∈ x :: xs, P y) (hcovers : Covers same acc before (x :: xs))
    (hx : acc.any (same · x) = true) : Covers same acc (before ++ [x]) xs := by
  intro y hy
  rw [List.any_append, ← hcovers y (List.mem_cons_of_mem x hy)]
  cases hxy : same x y with
  | false => simp [hxy]
  | true =>
    obtain ⟨a, ha, hax⟩ := List.any_eq_true.1 hx
    have hay : same a y = true :=
      h.trans (hacc a ha) (hxs x List.mem_cons_self) (hxs y (List.mem_cons_of_mem x hy)) hax hxy
    rw [List.any_eq_true.2 ⟨a, ha, hay⟩, Bool.true_or]

theorem Covers.of_not_any (hcovers : Covers same acc before (x :: xs)) :
    Covers same (acc ++ [x]) (before ++ [x]) xs := by
  intro y hy
  rw [List.any_append, List.any_append, hcovers y (List.mem_cons_of_mem x hy)]

/-- Collecting new items adds the first ones, those that were collected before being passed over. -/
theorem foldl_addNew_eq_append (h : PartialEquivalenceOn P same) (hacc : ∀ a ∈ acc, P a)
    (hxs : ∀ x ∈ xs, P x) (hcovers : Covers same acc before xs) :
    xs.foldl (addNew same) acc = acc ++ firstsAfter same before xs := by
  induction xs generalizing acc before with
  | nil => simp [firstsAfter]
  | cons x xs ih =>
    have hrest : ∀ y ∈ xs, P y := fun y hy => hxs y (List.mem_cons_of_mem x hy)
    have hbefore := hcovers x List.mem_cons_self
    rw [List.foldl_cons]
    cases hx : acc.any (same · x) with
    | true =>
      rw [addNew_of_any hx, firstsAfter_cons_of_any (hbefore ▸ hx),
        ih hacc hrest (hcovers.of_any h hacc hxs hx)]
    | false =>
      have hadded : ∀ a ∈ acc ++ [x], P a :=
        List.forall_mem_append.2 ⟨hacc, List.forall_mem_singleton.2 (hxs x List.mem_cons_self)⟩
      rw [addNew_of_not_any hx, firstsAfter_cons_of_not_any (hbefore ▸ hx),
        ih hadded hrest hcovers.of_not_any, List.append_assoc, List.singleton_append]

/-- Collecting new items yields the first ones. -/
theorem foldl_addNew_eq_firsts (h : PartialEquivalenceOn P same) (hxs : ∀ x ∈ xs, P x) :
    xs.foldl (addNew same) [] = firsts same xs := by
  rw [foldl_addNew_eq_append h (List.forall_mem_nil P) hxs fun y _ => rfl, List.nil_append, firsts]

theorem distinct_firsts (h : PartialEquivalenceOn P same) (hxs : ∀ x ∈ xs, P x) :
    Distinct same (firsts same xs) := by
  rw [← foldl_addNew_eq_firsts h hxs]
  exact (foldl_addNew (distinct_nil same) xs).1

/-- Every item has a first item that is the same, or one of those that stand before all. -/
theorem exists_firstsAfter (h : EquivalenceOn P same) (hbefore : ∀ b ∈ before, P b)
    (hxs : ∀ x ∈ xs, P x) {y : α} (hy : y ∈ xs) :
    (∃ b ∈ before, same b y = true) ∨ ∃ z ∈ firstsAfter same before xs, same z y = true := by
  induction xs generalizing before with
  | nil => cases hy
  | cons x xs ih =>
    have hx := hxs x List.mem_cons_self
    have hgrown : ∀ b ∈ before ++ [x], P b :=
      List.forall_mem_append.2 ⟨hbefore, List.forall_mem_singleton.2 hx⟩
    -- the first item is answered for by one before it, or else it is a first one itself
    have hfirst : ∀ z, P z → same x z = true →
        (∃ b ∈ before, same b z = true) ∨
          ∃ w ∈ firstsAfter same before (x :: xs), same w z = true := by
      intro z hz hxz
      cases hany : before.any (same · x) with
      | true =>
        obtain ⟨b, hb, hbx⟩ := List.any_eq_true.1 hany
        exact .inl ⟨b, hb, h.trans (hbefore b hb) hx hz hbx hxz⟩
      | false =>
        rw [firstsAfter_cons_of_not_any hany]
        exact .inr ⟨x, List.mem_cons_self, hxz⟩
    rcases List.mem_cons.1 hy with rfl | hy
    · exact hfirst y hx (h.refl hx)
    · rcases ih hgrown (fun z hz => hxs z (List.mem_cons_of_mem x hz)) hy with ⟨b, hb, hby⟩ | hz
      · rcases List.mem_append.1 hb with hb | hb
        · exact .inl ⟨b, hb, hby⟩
        · rw [List.mem_singleton.1 hb] at hby
          exact hfirst y (hxs y (List.mem_cons_of_mem x hy)) hby
      · obtain ⟨z, hz, hzy⟩ := hz
        refine .inr ⟨z, ?_, hzy⟩
        unfold firstsAfter
        split
        · exact hz
        · exact List.mem_cons_of_mem x hz

theorem exists_first (h : EquivalenceOn P same) (hxs : ∀ x ∈ xs, P x) {y : α} (hy : y ∈ xs) :
    ∃ z ∈ firsts same xs, same z y = true := by
  rcases exists_firstsAfter h (List.forall_mem_nil P) hxs hy with ⟨b, hb, _⟩ | hz
  · cases hb
  · exact hz

/-- Every item has one that is the same among what was collected before and from the items. -/
theorem exists_collected (h : EquivalenceOn P same) (hacc : ∀ a ∈ acc, P a)
    (hxs : ∀ x ∈ xs, P x) {y : α} (hy : y ∈ xs) :
    ∃ z ∈ xs.foldl (addNew same) acc, P z ∧ same z y = true := by
  rw [foldl_addNew_eq_append h.toPartialEquivalenceOn hacc hxs fun _ _ => rfl]
  rcases exists_firstsAfter h hacc hxs hy with ⟨z, hz, hzy⟩ | ⟨z, hz, hzy⟩
  · exact ⟨z, List.mem_append_left _ hz, hacc z hz, hzy⟩
  · exact ⟨z, List.mem_append_right _ hz, hxs z (mem_of_mem_firstsAfter hz), hzy⟩

/-- Collecting what was collected is collecting all at once: what was passed over is answered
for. -/
theorem foldl_foldl_addNew (h : EquivalenceOn P same) (hacc : ∀ a ∈ acc, P a)
    {ys : List α} (hxs : ∀ x ∈ xs, P x) (hys : ∀ y ∈ ys, P y) :
    (ys.foldl (addNew same) xs).foldl (addNew same) acc =
      ys.foldl (addNew same) (xs.foldl (addNew same) acc) := by
  induction ys generalizing xs with
  | nil => rfl
  | cons y ys ih =>
    have hy := hys y List.mem_cons_self
    have hadded : ∀ x ∈ addNew same xs y, P x := by
      intro x hx
      rcases mem_addNew hx with hx | rfl
      · exact hxs x hx
      · exact hy
    have hstep : (addNew same xs y).foldl (addNew same) acc =
        addNew same (xs.foldl (addNew same) acc) y := by
      cases hany : xs.any (same · y) with
      | false => rw [addNew_of_not_any hany, List.foldl_append, List.foldl_cons, List.foldl_nil]
      | true =>
        obtain ⟨x, hx, hxy⟩ := List.any_eq_true.1 hany
        obtain ⟨z, hz, hzP, hzx⟩ := exists_collected h hacc hxs hx
        have hzy := h.trans hzP (hxs x hx) hy hzx hxy
        rw [addNew_of_any hany, addNew_of_any (List.any_eq_true.2 ⟨z, hz, hzy⟩)]
    rw [List.foldl_cons, ih hadded fun z hz => hys z (List.mem_cons_of_mem y hz), hstep,
      List.foldl_cons]

/-- Collecting the first ones is collecting all. -/
theorem foldl_firsts (h : EquivalenceOn P same) (hacc : ∀ a ∈ acc, P a) (hxs : ∀ x ∈ xs, P x) :
    (firsts same xs).foldl (addNew same) acc = xs.foldl (addNew same) acc := by
  rw [← foldl_addNew_eq_firsts h.toPartialEquivalenceOn hxs,
    foldl_foldl_addNew h hacc (List.forall_mem_nil P) hxs, List.foldl_nil]

/-- Of items in two parts the first ones are the first ones of the first ones of either part. -/
theorem firsts_append_firsts (h : EquivalenceOn P same) {ys : List α} (hxs : ∀ x ∈ xs, P x)
    (hys : ∀ y ∈ ys, P y) :
    firsts same (firsts same xs ++ firsts same ys) = firsts same (xs ++ ys) := by
  have hfirsts : ∀ x ∈ firsts same xs, P x := fun x hx => hxs x (mem_of_mem_firsts hx)
  have hfirsts' : ∀ y ∈ firsts same ys, P y := fun y hy => hys y (mem_of_mem_firsts hy)
  have hcollected : ∀ x ∈ xs.foldl (addNew same) [], P x := by
    rwa [foldl_addNew_eq_firsts h.toPartialEquivalenceOn hxs]
  calc firsts same (firsts same xs ++ firsts same ys)
      = (firsts same xs ++ firsts same ys).foldl (addNew same) [] :=
        (foldl_addNew_eq_firsts h.toPartialEquivalenceOn
          (List.forall_mem_append.2 ⟨hfirsts, hfirsts'⟩)).symm
    _ = (xs ++ ys).foldl (addNew same) [] := by
        rw [List.foldl_append, foldl_firsts h (List.forall_mem_nil P) hxs,
          foldl_firsts h hcollected hys, List.foldl_append]
    _ = firsts same (xs ++ ys) :=
        foldl_addNew_eq_firsts h.toPartialEquivalenceOn (List.forall_mem_append.2 ⟨hxs, hys⟩)

end

/-! ## Last contents -/

section
variable {α β : Type} {same : α → α → Bool} {P : α → Prop} {k : α} {c : β} {before : List α}
  {e : α × β} {es : List (α × β)}

def contentsOf (same : α → α → Bool) (k : α) (es : List (α × β)) : List β :=
  (es.filter fun e => same k e.1).map (·.2)

/-- The content that a key has after some entries, having had one before. -/
def latest (same : α → α → Bool) (k : α) (c : β) (es : List (α × β)) : β :=
  (contentsOf same k es).getLast?.getD c

/-- Each key at its first place with the last content that follows under it, some keys standing
before all. -/
def mergedAfter (same : α → α → Bool) (before : List α) : List (α × β) → List (α × β)
  | [] => []
  | e :: es =>
    if before.any (same · e.1) then mergedAfter same (before ++ [e.1]) es
    else (e.1, latest same e.1 e.2 es) :: mergedAfter same (before ++ [e.1]) es

/-- Each key at its first place, with the content of the last entry under it. -/
def merged (same : α → α → Bool) (es : List (α × β)) : List (α × β) := mergedAfter same [] es

theorem contentsOf_cons_of_same (h : same k e.1 = true) :
    contentsOf same k (e :: es) = e.2 :: contentsOf same k es := by
  simp [contentsOf, h]

theorem contentsOf_cons_of_not_same (h : same k e.1 = false) :
    contentsOf same k (e :: es) = contentsOf same k es := by
  simp [contentsOf, h]

theorem latest_nil : latest same k c [] = c := rfl

theorem latest_cons :
    latest same k c (e :: es) = latest same k (if same k e.1 then e.2 else c) es := by
  unfold latest
  cases h : same k e.1 with
  | true => simp [contentsOf_cons_of_same h, List.getLast?_cons]
  | false => simp [contentsOf_cons_of_not_same h]

/-- Giving the content of an entry to those with its key, before the others follow. -/
theorem map_latest_of_change (acc : List (α × β)) :
    (acc.map fun a => (a.1, if same a.1 e.1 then e.2 else a.2)).map
        (fun a => (a.1, latest same a.1 a.2 es)) =
      acc.map fun a => (a.1, latest same a.1 a.2 (e :: es)) := by
  rw [List.map_map]
  refine List.map_congr_left fun a _ => ?_
  rw [latest_cons]
  rfl

theorem map_latest_of_not_any {acc : List (α × β)} (h : acc.any (same ·.1 e.1) = false) :
    (acc.map fun a => (a.1, latest same a.1 a.2 (e :: es))) =
      acc.map fun a => (a.1, latest same a.1 a.2 es) := by
  refine List.map_congr_left fun a ha => ?_
  have hae : same a.1 e.1 = false := by simpa using List.any_eq_false.1 h a ha
  rw [latest_cons, hae]
  rfl

theorem mergedAfter_cons_of_any (h : before.any (same · e.1) = true) :
    mergedAfter same before (e :: es) = mergedAfter same (before ++ [e.1]) es := if_pos h

theorem mergedAfter_cons_of_not_any (h : before.any (same · e.1) = false) :
    mergedAfter same before (e :: es) =
      (e.1, latest same e.1 e.2 es) :: mergedAfter same (before ++ [e.1]) es := by
  simp [mergedAfter, h]

theorem map_fst_mergedAfter (same : α → α → Bool) (before : List α) (es : List (α × β)) :
    (mergedAfter same before es).map (·.1) = firstsAfter same before (es.map (·.1)) := by
  induction es generalizing before with
  | nil => rfl
  | cons e es ih =>
    rw [List.map_cons]
    cases hany : before.any (same · e.1) with
    | true => rw [mergedAfter_cons_of_any hany, firstsAfter_cons_of_any hany, ih]
    | false =>
      rw [mergedAfter_cons_of_not_any hany, firstsAfter_cons_of_not_any hany, List.map_cons, ih]

/-- The merged entries have the first keys. -/
theorem map_fst_merged (same : α → α → Bool) (es : List (α × β)) :
    (merged same es).map (·.1) = firsts same (es.map (·.1)) :=
  map_fst_mergedAfter same [] es

theorem mem_keys_of_mem_mergedAfter {x : α × β} (hx : x ∈ mergedAfter same before es) :
    ∃ e ∈ es, x.1 = e.1 := by
  have hkey : x.1 ∈ (mergedAfter same before es).map (·.1) := List.mem_map.2 ⟨x, hx, rfl⟩
  rw [map_fst_mergedAfter] at hkey
  obtain ⟨e, he, hxe⟩ := List.mem_map.1 (mem_of_mem_firstsAfter hkey)
  exact ⟨e, he, hxe.symm⟩

/-- A merged entry's key is the same as none that stands before, and its content is the last of all
under its key. -/
theorem mergedAfter_spec (h : EquivalenceOn P same) (hes : ∀ e ∈ es, P e.1) {x : α × β}
    (hx : x ∈ mergedAfter same before es) :
    before.any (same · x.1) = false ∧ (contentsOf same x.1 es).getLast? = some x.2 := by
  induction es generalizing before with
  | nil => cases hx
  | cons e es ih =>
    have hrest : ∀ f ∈ es, P f.1 := fun f hf => hes f (List.mem_cons_of_mem e hf)
    have he := hes e List.mem_cons_self
    -- an entry that comes of the rest has another key than the first
    have hlater : x ∈ mergedAfter same (before ++ [e.1]) es →
        before.any (same · x.1) = false ∧
          (contentsOf same x.1 (e :: es)).getLast? = some x.2 := by
      intro hx
      obtain ⟨hany, hlast⟩ := ih hrest hx
      rw [List.any_append, Bool.or_eq_false_iff] at hany
      obtain ⟨f, hf, hxf⟩ := mem_keys_of_mem_mergedAfter hx
      have hne : same x.1 e.1 = false := by
        refine Bool.eq_false_iff.2 fun hsame => ?_
        have hsymm := h.symm (hxf ▸ hrest f hf) he hsame
        simp [hsymm] at hany
      exact ⟨hany.1, by rw [contentsOf_cons_of_not_same hne, hlast]⟩
    cases hany : before.any (same · e.1) with
    | true =>
      rw [mergedAfter_cons_of_any hany] at hx
      exact hlater hx
    | false =>
      rw [mergedAfter_cons_of_not_any hany] at hx
      rcases List.mem_cons.1 hx with rfl | hx
      · refine ⟨hany, ?_⟩
        rw [contentsOf_cons_of_same (h.refl he), List.getLast?_cons]
        rfl
      · exact hlater hx

/-- A merged entry has the last of all contents under its key. -/
theorem getLast?_contentsOf (h : EquivalenceOn P same) (hes : ∀ e ∈ es, P e.1) {x : α × β}
    (hx : x ∈ merged same es) : (contentsOf same x.1 es).getLast? = some x.2 :=
  (mergedAfter_spec h hes hx).2

end

end TypedSettings
