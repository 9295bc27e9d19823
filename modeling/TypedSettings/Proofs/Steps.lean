import TypedSettings.Step

/-!
# Steps inside the input

What is left of an input is left at a position of it (`LeftAt`). A step stays inside some items if
what it leaves behind a result is a suffix of them, and if the place of a fault is (`StaysIn`); it
advances if a result takes at least one item (`AdvancesIn`). What is asked of a fault besides is a
parameter. Main statements: steps one after the other stay inside (`StaysIn.next`), and advance if
the first one does (`AdvancesIn.next`); a step that stays inside ends no earlier in the input than it
starts, and later if it advances (`exists_leftAt`).
-/

namespace TypedSettings

/-! ## Positions -/

section
variable {ι : Type} {input left s r : List ι} {position : Nat}

/-- The items that are left at a position of the input. The position is not behind the end; whatever
is looked at ahead is what the input has there; and nothing is left exactly at the end. -/
structure LeftAt (input : List ι) (position : Nat) (left : List ι) : Prop where
  le : position ≤ input.length
  ahead : ∀ i, left[i]? = input[position + i]?
  nil_iff : left = [] ↔ position = input.length

theorem leftAt_of_suffix (h : left <:+ input) :
    LeftAt input (input.length - left.length) left := by
  obtain ⟨before, rfl⟩ := h
  have hposition : (before ++ left).length - left.length = before.length := by simp
  rw [hposition]
  refine ⟨by simp, fun i => ?_, by simp⟩
  rw [List.getElem?_append_right (Nat.le_add_right ..), Nat.add_sub_cancel_left]

theorem LeftAt.eq_drop (h : LeftAt input position left) : left = input.drop position := by
  refine List.ext_getElem? fun i => ?_
  rw [h.ahead, List.getElem?_drop]

/-- What is left later is left at a greater position. -/
theorem exists_leftAt (hs : s <:+ input) (hr : r <:+ s) :
    ∃ ending, LeftAt input ending r ∧ input.length - s.length ≤ ending ∧
      (r.length < s.length → input.length - s.length < ending) := by
  have hsle := hs.length_le
  have hrle := hr.length_le
  exact ⟨_, leftAt_of_suffix (hr.trans hs), by omega, fun hlt => by omega⟩

end

/-! ## Steps -/

namespace Step

section
variable {ι κ α β : Type} {good : Fault ι κ → Prop} {s t r : List ι} {x : Step ι κ α}

/-- The items after a result are a suffix of these, and so are those at the place of a fault, which
is a good one. -/
def StaysIn (good : Fault ι κ → Prop) (s : List ι) : Step ι κ α → Prop
  | .ok (_, r) => r <:+ s
  | .error f => f.left <:+ s ∧ good f

/-- The step stays inside, and fewer items are left after a result. -/
def AdvancesIn (good : Fault ι κ → Prop) (s : List ι) : Step ι κ α → Prop
  | .ok (_, r) => r <:+ s ∧ r.length < s.length
  | .error f => f.left <:+ s ∧ good f

theorem StaysIn.suffix {a : α} (h : x.StaysIn good s) (hx : x = .ok (a, r)) : r <:+ s := by
  subst hx
  exact h

theorem StaysIn.fault {f : Fault ι κ} (h : x.StaysIn good s) (hx : x = .error f) :
    f.left <:+ s ∧ good f := by
  subst hx
  exact h

theorem StaysIn.mono (h : x.StaysIn good t) (ht : t <:+ s) : x.StaysIn good s := by
  rcases x with f | ⟨a, r⟩
  · exact ⟨h.1.trans ht, h.2⟩
  · exact List.IsSuffix.trans h ht

theorem StaysIn.next_of_ok {f : α → List ι → Step ι κ β} (h : x.StaysIn good s)
    (hf : ∀ a r, x = .ok (a, r) → (f a r).StaysIn good s) : (x.next f).StaysIn good s := by
  rcases x with e | ⟨a, r⟩
  · exact h
  · exact hf a r rfl

theorem StaysIn.next {f : α → List ι → Step ι κ β} (h : x.StaysIn good s)
    (hf : ∀ a r, r <:+ s → (f a r).StaysIn good s) : (x.next f).StaysIn good s :=
  h.next_of_ok fun a r hx => hf a r (h.suffix hx)

/-- What stays inside the items after some advances over those. -/
theorem StaysIn.advances (h : x.StaysIn good r) (hr : r <:+ s) (hlt : r.length < s.length) :
    x.AdvancesIn good s := by
  rcases x with f | ⟨a, t⟩
  · exact ⟨h.1.trans hr, h.2⟩
  · exact ⟨List.IsSuffix.trans h hr, Nat.lt_of_le_of_lt (List.IsSuffix.length_le h) hlt⟩

theorem StaysIn.advances_cons {i : ι} (h : x.StaysIn good s) : x.AdvancesIn good (i :: s) :=
  h.advances (List.suffix_cons ..) (Nat.lt_succ_self _)

theorem StaysIn.advancesIn (h : x.StaysIn good s)
    (hlt : ∀ a r, x = .ok (a, r) → r.length < s.length) : x.AdvancesIn good s := by
  rcases x with f | ⟨a, r⟩
  · exact h
  · exact ⟨h, hlt a r rfl⟩

theorem AdvancesIn.staysIn (h : x.AdvancesIn good s) : x.StaysIn good s := by
  rcases x with f | ⟨a, r⟩
  · exact h
  · exact h.1

theorem AdvancesIn.length_lt {a : α} (h : x.AdvancesIn good s) (hx : x = .ok (a, r)) :
    r.length < s.length := by
  subst hx
  exact h.2

theorem AdvancesIn.mono (h : x.AdvancesIn good t) (ht : t <:+ s) : x.AdvancesIn good s := by
  rcases x with f | ⟨a, r⟩
  · exact ⟨h.1.trans ht, h.2⟩
  · exact ⟨h.1.trans ht, Nat.lt_of_lt_of_le h.2 ht.length_le⟩

theorem AdvancesIn.next_of_ok {f : α → List ι → Step ι κ β} (h : x.AdvancesIn good s)
    (hf : ∀ a r, x = .ok (a, r) → (f a r).AdvancesIn good s) : (x.next f).AdvancesIn good s := by
  rcases x with e | ⟨a, r⟩
  · exact h
  · exact hf a r rfl

theorem AdvancesIn.next {f : α → List ι → Step ι κ β} (h : x.AdvancesIn good s)
    (hf : ∀ a r, r <:+ s → r.length < s.length → (f a r).AdvancesIn good s) :
    (x.next f).AdvancesIn good s :=
  h.next_of_ok fun a r hx => hf a r (h.staysIn.suffix hx) (h.length_lt hx)

/-- The items after the result of a step, if it has one. -/
def rest? : Step ι κ α → Option (List ι)
  | .ok (_, r) => some r
  | .error _ => none

theorem mem_rest?_iff : r ∈ x.rest? ↔ ∃ a, x = .ok (a, r) := by
  rcases x with f | ⟨a, t⟩
  · simp [rest?]
  · simp [rest?, eq_comm]

theorem StaysIn.of_mem_rest? (h : x.StaysIn good s) (hr : r ∈ x.rest?) : r <:+ s := by
  obtain ⟨a, hx⟩ := mem_rest?_iff.1 hr
  exact h.suffix hx

theorem AdvancesIn.of_mem_rest? (h : x.AdvancesIn good s) (hr : r ∈ x.rest?) :
    r <:+ s ∧ r.length < s.length := by
  obtain ⟨a, hx⟩ := mem_rest?_iff.1 hr
  exact ⟨h.staysIn.suffix hx, h.length_lt hx⟩

/-- Only what follows a result of the first step counts. -/
theorem next_congr {f g : α → List ι → Step ι κ β} (h : ∀ a r, x = .ok (a, r) → f a r = g a r) :
    x.next f = x.next g := by
  rcases x with e | ⟨a, r⟩
  · rfl
  · exact h a r rfl

end

end Step

end TypedSettings
