import TypedSettings.Proofs.Firsts
import TypedSettings.Proofs.Value.Distinct
import TypedSettings.Proofs.Value.Equality

/-!
# What sets and maps are built to

A set is built by looking each value up among the members so far, and a map by looking each key up
among the entries so far, by an equality that ignores the order of sets and maps and the sign of
zero. What comes out can be told from the values given: the set has those that equal no earlier one
(`setOf_eq_firsts`), and the map each key at its first place with the last content under it
(`mapOf_eq_merged`). Main statement: so it is for all comparable values, sets are equal that are
built of equal values in whatever order, and building again changes nothing
(`setOf_mapOf_normalForms`).
-/

namespace TypedSettings.Value

/-! ## Sets -/

section
variable [Payloads] [EquivBEq Payload] {vs xs ys : List Value}

theorem setOf_eq_firsts (h : ∀ v ∈ vs, v.Everywhere NoRepeats) :
    setOf vs = set (firsts equal vs) := by
  have hfold : vs.foldl addMember [] = firsts equal vs :=
    foldl_addNew_eq_firsts partialEquivalenceOn_noRepeats h
  rw [setOf, hfold]

theorem setOf_firsts (h : ∀ v ∈ vs, v.Everywhere NoRepeats) :
    setOf (firsts equal vs) = set (firsts equal vs) :=
  setOf_of_noRepeats (distinct_firsts partialEquivalenceOn_noRepeats h)

/-- What holds of equal sets holds of what they were built of: every value equals one of the other
set's. -/
theorem exists_equal_of_equal_firsts (hxs : ∀ x ∈ xs, x.Everywhere IsComparable)
    (hys : ∀ y ∈ ys, y.Everywhere IsComparable)
    (h : ∀ x ∈ firsts equal xs, ∃ y ∈ firsts equal ys, equal y x = true) :
    ∀ x ∈ xs, ∃ y ∈ ys, equal x y = true := by
  intro x hx
  obtain ⟨a, ha, hax⟩ := exists_first equivalenceOn_comparable hxs hx
  obtain ⟨y, hy, hya⟩ := h a ha
  have hmem := mem_of_mem_firsts hy
  have hyx := equivalenceOn_comparable.trans (hys y hmem) (hxs a (mem_of_mem_firsts ha)) (hxs x hx)
    hya hax
  exact ⟨y, hmem, equivalenceOn_comparable.symm (hys y hmem) (hxs x hx) hyx⟩

theorem exists_first_of_exists (hxs : ∀ x ∈ xs, x.Everywhere IsComparable)
    (hys : ∀ y ∈ ys, y.Everywhere IsComparable)
    (h : ∀ x ∈ xs, ∃ y ∈ ys, equal x y = true) :
    ∀ x ∈ firsts equal xs, ∃ y ∈ firsts equal ys, equal y x = true := by
  intro x hx
  have hmem := mem_of_mem_firsts hx
  obtain ⟨y, hy, hxy⟩ := h x hmem
  obtain ⟨b, hb, hby⟩ := exists_first equivalenceOn_comparable hys hy
  have hyx := equivalenceOn_comparable.symm (hxs x hmem) (hys y hy) hxy
  exact ⟨b, hb, equivalenceOn_comparable.trans (hys b (mem_of_mem_firsts hb)) (hys y hy)
    (hxs x hmem) hby hyx⟩

/-- Of distinct values that each equal one of a list there are no more than it has. -/
theorem length_firsts_le (hxs : ∀ x ∈ xs, x.Everywhere IsComparable)
    (hys : ∀ y ∈ ys, y.Everywhere IsComparable)
    (h : ∀ x ∈ firsts equal xs, ∃ y ∈ firsts equal ys, equal y x = true) :
    (firsts equal xs).length ≤ (firsts equal ys).length := by
  have hfirst : ∀ x ∈ firsts equal xs, x.Everywhere IsComparable := fun x hx =>
    hxs x (mem_of_mem_firsts hx)
  have hsecond : ∀ y ∈ firsts equal ys, y.Everywhere IsComparable := fun y hy =>
    hys y (mem_of_mem_firsts hy)
  have hdistinct := distinct_firsts equivalenceOn_comparable.toPartialEquivalenceOn hxs
  refine length_le_of_matched (R := fun x y => equal x y = true) (fun x hx => ?_)
    (equivalenceOn_comparable.apart hfirst hsecond hdistinct)
  obtain ⟨y, hy, hyx⟩ := h x hx
  exact ⟨y, hy, equivalenceOn_comparable.symm (hsecond y hy) (hfirst x hx) hyx⟩

theorem equal_setOf_iff_firsts (hxs : ∀ x ∈ xs, x.Everywhere IsComparable)
    (hys : ∀ y ∈ ys, y.Everywhere IsComparable) :
    equal (setOf xs) (setOf ys) = true ↔
      (firsts equal xs).length = (firsts equal ys).length ∧
        ∀ x ∈ firsts equal xs, ∃ y ∈ firsts equal ys, equal y x = true := by
  rw [setOf_eq_firsts fun x hx => (hxs x hx).imp fun _ hw => hw.noRepeats,
    setOf_eq_firsts fun y hy => (hys y hy).imp fun _ hw => hw.noRepeats, equal_set]
  simp

omit [EquivBEq Payload] in
theorem isComparable_setOf (hxs : ∀ x ∈ xs, x.Everywhere IsComparable) :
    (setOf xs).Everywhere IsComparable :=
  isComparable_set (noRepeats_setOf xs) fun v hv => hxs v (mem_of_mem_setOf hv)

/-- Sets are equal exactly if every value of either list that they are built of equals one of the
other. -/
theorem equal_setOf_iff (hxs : ∀ x ∈ xs, x.Everywhere IsComparable)
    (hys : ∀ y ∈ ys, y.Everywhere IsComparable) :
    equal (setOf xs) (setOf ys) = true ↔
      (∀ x ∈ xs, ∃ y ∈ ys, equal x y = true) ∧ ∀ y ∈ ys, ∃ x ∈ xs, equal y x = true := by
  constructor
  · intro h
    have hback := equivalenceOn_comparable.symm (isComparable_setOf hxs) (isComparable_setOf hys) h
    exact ⟨exists_equal_of_equal_firsts hxs hys ((equal_setOf_iff_firsts hxs hys).1 h).2,
      exists_equal_of_equal_firsts hys hxs ((equal_setOf_iff_firsts hys hxs).1 hback).2⟩
  · rintro ⟨hforth, hback⟩
    have hfirst := exists_first_of_exists hxs hys hforth
    have hle := length_firsts_le hxs hys hfirst
    have hge := length_firsts_le hys hxs (exists_first_of_exists hys hxs hback)
    exact (equal_setOf_iff_firsts hxs hys).2 ⟨Nat.le_antisymm hle hge, hfirst⟩

end

/-! ## Maps -/

section
variable [Payloads] [PartialEquivBEq Payload] {k v : Value} {acc es : List (Value × Value)}
  {before : List Value}

/-- Putting under a key that is there changes the content of the one entry that has it. -/
theorem putEntry_of_any (hacc : ∀ a ∈ acc, a.1.Everywhere NoRepeats) (hk : k.Everywhere NoRepeats)
    (hdistinct : Distinct equal (acc.map (·.1))) (hany : (acc.map (·.1)).any (equal · k) = true) :
    putEntry k v acc = acc.map fun a => (a.1, if equal a.1 k then v else a.2) := by
  induction acc with
  | nil => cases hany
  | cons a acc ih =>
    rw [List.map_cons] at hdistinct hany
    obtain ⟨ha, hrest⟩ := List.pairwise_cons.1 hdistinct
    have hkeys : ∀ b ∈ acc, b.1.Everywhere NoRepeats := fun b hb =>
      hacc b (List.mem_cons_of_mem a hb)
    cases hak : equal a.1 k with
    | true =>
      -- no other key equals the key put, for it would equal the first one too
      have hothers : ∀ b ∈ acc, (b.1, if equal b.1 k then v else b.2) = b := by
        intro b hb
        have hbk : equal b.1 k = false := by
          refine Bool.eq_false_iff.2 fun hbk => ?_
          have hkb := partialEquivalenceOn_noRepeats.symm (hkeys b hb) hk hbk
          have hab := partialEquivalenceOn_noRepeats.trans (hacc a List.mem_cons_self) hk
            (hkeys b hb) hak hkb
          rw [ha b.1 (List.mem_map_of_mem hb)] at hab
          cases hab
        rw [hbk]
        rfl
      rw [putEntry, if_pos hak, List.map_cons, hak, if_pos rfl, List.map_congr_left hothers,
        List.map_id']
    | false =>
      have hany : (acc.map (·.1)).any (equal · k) = true := by simpa [hak] using hany
      rw [putEntry, if_neg (by simp [hak]), ih hkeys hrest hany, List.map_cons, hak]
      rfl

/-- Putting entries gives every entry that was there the latest content under its key, and adds the
merged ones of the others. -/
theorem foldl_putEntry_eq_append (hacc : ∀ a ∈ acc, a.1.Everywhere NoRepeats)
    (hes : ∀ e ∈ es, e.1.Everywhere NoRepeats) (hdistinct : Distinct equal (acc.map (·.1)))
    (hcovers : Covers equal (acc.map (·.1)) before (es.map (·.1))) :
    es.foldl (fun acc e => putEntry e.1 e.2 acc) acc =
      (acc.map fun a => (a.1, latest equal a.1 a.2 es)) ++ mergedAfter equal before es := by
  induction es generalizing acc before with
  | nil => simp [latest_nil, mergedAfter]
  | cons e es ih =>
    have hrest : ∀ f ∈ es, f.1.Everywhere NoRepeats := fun f hf => hes f (List.mem_cons_of_mem e hf)
    have hbefore := hcovers e.1 List.mem_cons_self
    rw [List.foldl_cons]
    cases hany : (acc.map (·.1)).any (equal · e.1) with
    | true =>
      -- the keys stay, and the entry's own key is answered for
      have hkeys : (acc.map fun a => (a.1, if equal a.1 e.1 then e.2 else a.2)).map (·.1) =
          acc.map (·.1) := by
        rw [List.map_map]
        rfl
      have hcovered := hcovers.of_any partialEquivalenceOn_noRepeats (List.forall_mem_map.2 hacc)
        (List.forall_mem_map.2 hes) hany
      rw [putEntry_of_any hacc (hes e List.mem_cons_self) hdistinct hany,
        mergedAfter_cons_of_any (hbefore ▸ hany), ← map_latest_of_change]
      exact ih (List.forall_mem_map.2 hacc) hrest (hkeys ▸ hdistinct) (hkeys ▸ hcovered)
    | false =>
      have hfresh : acc.any (equal ·.1 e.1) = false := by simpa using hany
      have hkeys : (acc ++ [e]).map (·.1) = acc.map (·.1) ++ [e.1] := List.map_append
      have hadded : ∀ a ∈ acc ++ [e], a.1.Everywhere NoRepeats :=
        List.forall_mem_append.2 ⟨hacc, List.forall_mem_singleton.2 (hes e List.mem_cons_self)⟩
      have hgrown : Distinct equal ((acc ++ [e]).map (·.1)) := by
        rw [hkeys, ← addNew_of_not_any hany]
        exact distinct_addNew hdistinct e.1
      rw [putEntry_of_fresh hfresh, mergedAfter_cons_of_not_any (hbefore ▸ hany),
        map_latest_of_not_any hfresh,
        ih hadded hrest hgrown (hkeys ▸ hcovers.of_not_any), List.map_append, List.append_assoc]
      rfl

/-- A map is built to the merged entries. -/
theorem mapOf_eq_merged (hes : ∀ e ∈ es, e.1.Everywhere NoRepeats) :
    mapOf es = map (merged equal es) := by
  have hcovers : Covers equal [] [] (es.map (·.1)) := fun _ _ => rfl
  rw [mapOf, foldl_putEntry_eq_append (List.forall_mem_nil _) hes (distinct_nil equal) hcovers]
  rfl

omit [PartialEquivBEq Payload] in
/-- Entries may be merged beforehand. -/
theorem mapOf_append {ws : List (Value × Value)} (h : mapOf es = map ws)
    (fs : List (Value × Value)) : mapOf (es ++ fs) = mapOf (ws ++ fs) := by
  have hws : es.foldl (fun acc e => putEntry e.1 e.2 acc) [] = ws := map.inj h
  have hagain : ws.foldl (fun acc e => putEntry e.1 e.2 acc) [] = ws :=
    map.inj (mapOf_of_noRepeats (h ▸ noRepeats_mapOf es))
  rw [mapOf, mapOf, List.foldl_append, List.foldl_append, hws, hagain]

end

/-! ## Both -/

/-- Sets have the values that equal no earlier one, and are equal if every value of each equals one
of the other, in whatever order and however often. Maps have the keys that equal no earlier one,
each with the last of the contents given under it, and entries may be merged before more follow.
What was built is built to itself. -/
theorem setOf_mapOf_normalForms [Payloads] [EquivBEq Payload] {xs ys : List Value}
    {es : List (Value × Value)}
    (hxs : ∀ x ∈ xs, x.Everywhere IsComparable) (hys : ∀ y ∈ ys, y.Everywhere IsComparable)
    (hes : ∀ e ∈ es, e.1.Everywhere IsComparable ∧ e.2.Everywhere IsComparable) :
    setOf xs = set (firsts equal xs) ∧
    (equal (setOf xs) (setOf ys) = true ↔
      (∀ x ∈ xs, ∃ y ∈ ys, equal x y = true) ∧ ∀ y ∈ ys, ∃ x ∈ xs, equal y x = true) ∧
    ((∀ v, v ∈ xs ↔ v ∈ ys) → equal (setOf xs) (setOf ys) = true) ∧
    setOf (firsts equal xs) = set (firsts equal xs) ∧
    ∃ ws, mapOf es = map ws ∧ ws.map (·.1) = firsts equal (es.map (·.1)) ∧
      (∀ w ∈ ws, (contentsOf equal w.1 es).getLast? = some w.2) ∧
      (∀ fs, mapOf (es ++ fs) = mapOf (ws ++ fs)) ∧ mapOf ws = map ws := by
  have hnone : ∀ x ∈ xs, x.Everywhere NoRepeats := fun x hx =>
    (hxs x hx).imp fun _ hw => hw.noRepeats
  have hkeys : ∀ e ∈ es, e.1.Everywhere NoRepeats := fun e he =>
    (hes e he).1.imp fun _ hw => hw.noRepeats
  have hmerged := mapOf_eq_merged hkeys
  refine ⟨setOf_eq_firsts hnone, equal_setOf_iff hxs hys, fun hsame => ?_, setOf_firsts hnone,
    merged equal es, hmerged, map_fst_merged equal es, fun w hw => ?_, mapOf_append hmerged,
    mapOf_of_noRepeats (hmerged ▸ noRepeats_mapOf es)⟩
  · refine (equal_setOf_iff hxs hys).2 ⟨fun x hx => ?_, fun y hy => ?_⟩
    · exact ⟨x, (hsame x).1 hx, equivalenceOn_comparable.refl (hxs x hx)⟩
    · exact ⟨y, (hsame y).2 hy, equivalenceOn_comparable.refl (hys y hy)⟩
  · exact getLast?_contentsOf equivalenceOn_comparable (fun e he => (hes e he).1) hw

open Payloads.Integers in
/-- Zeros of either sign are one member and one key. -/
theorem setOf_mapOf_normalForms_zeros :
    setOf [float 0, int 1, float (-0)] = set (firsts equal [float 0, int 1, float (-0)]) ∧
    equal (setOf [float 0, int 1, float (-0)]) (setOf [int 1, float (-0)]) = true ∧
    ∃ ws, mapOf [(float 0, int 1), (int 1, int 2), (float (-0), int 3)] = map ws ∧
      ws.map (·.1) = [float 0, int 1] ∧
      ∀ w ∈ ws, (contentsOf equal w.1
        [(float 0, int 1), (int 1, int 2), (float (-0), int 3)]).getLast? = some w.2 := by
  have hzeros : ((0 : Float) == -0) = true ∧ ((-0 : Float) == -0) = true ∧
      ((0 : Float) == 0) = true := by decide +kernel
  have hxs : ∀ x ∈ [float 0, int 1, float (-0)], x.Everywhere IsComparable := by
    simpa using ⟨isComparable_float hzeros.2.2, isComparable_int 1, isComparable_float hzeros.2.1⟩
  have hys : ∀ y ∈ [int 1, float (-0)], y.Everywhere IsComparable := by
    simpa using ⟨isComparable_int 1, isComparable_float hzeros.2.1⟩
  have hes : ∀ e ∈ [(float 0, int 1), (int 1, int 2), (float (-0), int 3)],
      e.1.Everywhere IsComparable ∧ e.2.Everywhere IsComparable := by
    simpa using ⟨⟨isComparable_float hzeros.2.2, isComparable_int 1⟩,
      ⟨isComparable_int 1, isComparable_int 2⟩, isComparable_float hzeros.2.1, isComparable_int 3⟩
  obtain ⟨hset, hequal, _, _, ws, hmap, hkeys, hlast, _⟩ := setOf_mapOf_normalForms hxs hys hes
  refine ⟨hset, hequal.2 ?_, ws, hmap, ?_, hlast⟩
  · simp [equal, hzeros]
  · rw [hkeys]
    simp [firsts, firstsAfter, equal, hzeros]

end TypedSettings.Value
