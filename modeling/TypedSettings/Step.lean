/-!
# Steps of a reader

A reader works on the items that are left of its input: characters, or tokens. A step either gives
a result and the items after it, or a fault that keeps the items that were left at its place, so
that the place is a suffix of the input.
-/

namespace TypedSettings

/-- A cause and the items that were left at its place. -/
structure Fault (ι κ : Type) where
  cause : κ
  left : List ι

/-- What a reader makes of the items that are left: a fault, or a result and the items after it. -/
abbrev Step (ι κ α : Type) := Except (Fault ι κ) (α × List ι)

namespace Step

variable {ι κ α β : Type}

/-- Goes on with the result of a step and the items after it. -/
def next (x : Step ι κ α) (f : α → List ι → Step ι κ β) : Step ι κ β :=
  match x with
  | .ok (a, r) => f a r
  | .error e => .error e

theorem next_eq_ok {x : Step ι κ α} {f : α → List ι → Step ι κ β} {y : β × List ι} :
    x.next f = .ok y ↔ ∃ a r, x = .ok (a, r) ∧ f a r = .ok y := by
  rcases x with e | ⟨a, r⟩
  · simp [next]
  · exact ⟨fun h => ⟨a, r, rfl, h⟩, fun ⟨_, _, hx, h⟩ => by cases hx; exact h⟩

theorem next_eq_error {x : Step ι κ α} {f : α → List ι → Step ι κ β} {e : Fault ι κ} :
    x.next f = .error e ↔ x = .error e ∨ ∃ a r, x = .ok (a, r) ∧ f a r = .error e := by
  rcases x with e | ⟨a, r⟩
  · simp [next]
  · exact ⟨fun h => .inr ⟨a, r, rfl, h⟩, fun h => by
      rcases h with h | ⟨_, _, hx, h⟩
      · cases h
      · cases hx; exact h⟩

end Step

end TypedSettings
