import TypedSettings.Value.Basic

/-!
# What is inside a value

`children` are the items, members, keys and contents of a container. A property holds `Everywhere`
in a value if it holds of the value and, hereditarily, of its children; `nesting` counts how many
containers stand inside one another, and `FitsAt` says that no value inside lies below a depth.
Main statements: a value of small enough nesting fits (`fitsAt_of_nesting`), and what fits nests at
most one container more, no more exactly if nothing at the greatest depth is an empty container
(`FitsAt.nesting_le`, `FitsAt.nesting_le_iff`).
-/

namespace TypedSettings

namespace Value

variable [Payloads]

def children : Value → List Value
  | list vs | tuple vs | set vs => vs
  | map es => es.flatMap fun e => [e.1, e.2]
  | _ => []

theorem mem_children_map {es : List (Value × Value)} {w : Value} :
    w ∈ (map es).children ↔ ∃ e ∈ es, w = e.1 ∨ w = e.2 := by
  simp [children]

theorem sizeOf_lt_of_mem_children {v w : Value} (h : w ∈ v.children) : sizeOf w < sizeOf v := by
  cases v with
  | list vs | tuple vs | set vs =>
    have := List.sizeOf_lt_of_mem (show w ∈ vs from h)
    simp only [list.sizeOf_spec, tuple.sizeOf_spec, set.sizeOf_spec]
    omega
  | map es =>
    obtain ⟨⟨k, c⟩, he, hw⟩ := mem_children_map.1 h
    have := List.sizeOf_lt_of_mem he
    simp only [map.sizeOf_spec, Prod.mk.sizeOf_spec] at *
    rcases hw with rfl | rfl <;> omega
  | _ => simp [children] at h

/-- To prove something of all values, prove it of a value given that it holds of its children. -/
@[elab_as_elim]
theorem children_induction {motive : Value → Prop}
    (step : ∀ v, (∀ w ∈ v.children, motive w) → motive v) (v : Value) : motive v :=
  step v fun w _ => children_induction step w
termination_by sizeOf v
decreasing_by exact sizeOf_lt_of_mem_children ‹_›

/-! ## Hereditary properties -/

/-- A property of a value and of everything inside it. -/
inductive Everywhere (P : Value → Prop) : Value → Prop where
  | intro {v : Value} : P v → (∀ w ∈ v.children, Everywhere P w) → Everywhere P v

section
variable {P Q : Value → Prop}

theorem Everywhere.self {v : Value} (h : Everywhere P v) : P v := by
  cases h with
  | intro hp _ => exact hp

theorem Everywhere.child {v w : Value} (h : Everywhere P v) (hw : w ∈ v.children) :
    Everywhere P w := by
  cases h with
  | intro _ hc => exact hc w hw

theorem Everywhere.key {es : List (Value × Value)} {e : Value × Value}
    (h : Everywhere P (map es)) (he : e ∈ es) : Everywhere P e.1 :=
  h.child (mem_children_map.2 ⟨e, he, Or.inl rfl⟩)

theorem Everywhere.content {es : List (Value × Value)} {e : Value × Value}
    (h : Everywhere P (map es)) (he : e ∈ es) : Everywhere P e.2 :=
  h.child (mem_children_map.2 ⟨e, he, Or.inr rfl⟩)

theorem Everywhere.imp {v : Value} (h : Everywhere P v) (hpq : ∀ w, P w → Q w) :
    Everywhere Q v := by
  induction h with
  | intro hp _ ih => exact .intro (hpq _ hp) ih

/-- What follows wherever a property holds everywhere, holds everywhere. -/
theorem Everywhere.imp_everywhere {v : Value} (h : Everywhere P v)
    (hpq : ∀ w, Everywhere P w → Q w) : Everywhere Q v := by
  induction h with
  | intro hp hc ih => exact .intro (hpq _ (.intro hp hc)) ih

theorem Everywhere.and {v : Value} (hp : Everywhere P v) (hq : Everywhere Q v) :
    Everywhere (fun w => P w ∧ Q w) v := by
  induction hp with
  | intro hp _ ih => exact .intro ⟨hp, hq.self⟩ fun w hw => ih w hw (hq.child hw)

/-- A value with nothing inside has the property everywhere if it has it itself. -/
theorem Everywhere.leaf {v : Value} (hp : P v) (hc : v.children = []) : Everywhere P v :=
  .intro hp (by simp [hc])

end

/-! ## Nesting -/

mutual

/-- How many containers stand inside one another: none in a scalar, and in a container one more
than the greatest nesting of what is directly inside. -/
def nesting : Value → Nat
  | list vs | tuple vs | set vs => nestingEach vs + 1
  | map es => nestingEntries es + 1
  | _ => 0
termination_by structural v => v

def nestingEach : List Value → Nat
  | [] => 0
  | v :: vs => max (nesting v) (nestingEach vs)
termination_by structural vs => vs

def nestingEntries : List (Value × Value) → Nat
  | [] => 0
  | (k, v) :: es => max (max (nesting k) (nesting v)) (nestingEntries es)
termination_by structural es => es

end

theorem nestingEach_le_iff {vs : List Value} {n : Nat} :
    nestingEach vs ≤ n ↔ ∀ v ∈ vs, v.nesting ≤ n := by
  induction vs with
  | nil => simp [nestingEach]
  | cons v vs ih => simp only [nestingEach, Nat.max_le, ih, List.forall_mem_cons]

theorem nestingEntries_le_iff {es : List (Value × Value)} {n : Nat} :
    nestingEntries es ≤ n ↔ ∀ e ∈ es, e.1.nesting ≤ n ∧ e.2.nesting ≤ n := by
  induction es with
  | nil => simp [nestingEntries]
  | cons e es ih => simp only [nestingEntries, Nat.max_le, ih, List.forall_mem_cons]

/-- A value with something inside nests one level more than what is inside. -/
theorem nesting_le_succ_iff {v : Value} {n : Nat} :
    v.nesting ≤ n + 1 ↔ ∀ w ∈ v.children, w.nesting ≤ n := by
  cases v with
  | list vs | tuple vs | set vs => simp [nesting, children, nestingEach_le_iff]
  | map es =>
    simp only [nesting, Nat.add_le_add_iff_right, nestingEntries_le_iff, mem_children_map]
    constructor
    · rintro h w ⟨e, he, rfl | rfl⟩
      · exact (h e he).1
      · exact (h e he).2
    · exact fun h e he => ⟨h _ ⟨e, he, Or.inl rfl⟩, h _ ⟨e, he, Or.inr rfl⟩⟩
  | _ => simp [nesting, children]

theorem nesting_lt_of_mem_children {v w : Value} (h : w ∈ v.children) : w.nesting < v.nesting := by
  cases hv : v.nesting with
  | zero => cases v <;> simp_all [nesting, children]
  | succ n => exact Nat.lt_succ_of_le (nesting_le_succ_iff.1 (Nat.le_of_eq hv) w h)

/-- The second value stands inside so many containers within the first. -/
inductive Within : Nat → Value → Value → Prop where
  | here (v : Value) : Within 0 v v
  | child {n : Nat} {v w u : Value} : w ∈ v.children → Within n w u → Within (n + 1) v u

def IsEmptyContainer (v : Value) : Prop := v.nesting ≠ 0 ∧ v.children = []

theorem nesting_le_of_within {n : Nat} {v w : Value} (h : Within n v w) :
    n + w.nesting ≤ v.nesting := by
  induction h with
  | here v => omega
  | child hw _ ih =>
    have hlt := nesting_lt_of_mem_children hw
    omega

/-- As many containers as a value nests stand inside one another. -/
theorem exists_within {n : Nat} {v : Value} (h : n < v.nesting) :
    ∃ w, Within n v w ∧ n + w.nesting = v.nesting := by
  induction n generalizing v with
  | zero => exact ⟨v, .here v, Nat.zero_add _⟩
  | succ n ih =>
    -- one of the children nests only one container less
    obtain ⟨w, hw, hnesting⟩ : ∃ w ∈ v.children, w.nesting + 1 = v.nesting := by
      refine Classical.byContradiction fun hnone => ?_
      have hle : v.nesting ≤ (v.nesting - 2) + 1 := nesting_le_succ_iff.2 fun w hw => by
        have hlt := nesting_lt_of_mem_children hw
        have hne : w.nesting + 1 ≠ v.nesting := fun heq => hnone ⟨w, hw, heq⟩
        omega
      omega
    obtain ⟨u, hu, hsum⟩ := ih (v := w) (by omega)
    exact ⟨u, .child hw hu, by omega⟩

/-- Standing at a depth, the value and everything inside stands at most at the greatest depth. -/
inductive FitsAt (greatest : Nat) : Nat → Value → Prop where
  | intro {d : Nat} {v : Value} : d ≤ greatest → (∀ w ∈ v.children, FitsAt greatest (d + 1) w) →
      FitsAt greatest d v

section
variable {greatest d : Nat} {v w : Value}

theorem FitsAt.le (h : FitsAt greatest d v) : d ≤ greatest := by
  cases h with
  | intro hd _ => exact hd

theorem FitsAt.child (h : FitsAt greatest d v) (hw : w ∈ v.children) :
    FitsAt greatest (d + 1) w := by
  cases h with
  | intro _ hc => exact hc w hw

/-- What fits at a depth fits one level higher up. -/
theorem FitsAt.up (h : FitsAt greatest (d + 1) v) : FitsAt greatest d v := by
  generalize hn : d + 1 = n at h
  induction h generalizing d with
  | intro hd _ ih =>
    subst hn
    exact .intro (by omega) fun w hw => ih w hw rfl

theorem fitsAt_of_nesting : v.nesting + d ≤ greatest → FitsAt greatest d v := by
  induction v using children_induction generalizing d with
  | step v ih =>
    refine fun h => .intro (by omega) fun w hw => ih w hw ?_
    have := nesting_lt_of_mem_children hw
    omega

theorem FitsAt.within {n : Nat} (h : FitsAt greatest d v) (hw : Within n v w) :
    FitsAt greatest (d + n) w := by
  induction hw generalizing d with
  | here v => exact h
  | child hw _ ih =>
    rw [Nat.add_comm _ 1, ← Nat.add_assoc]
    exact ih (h.child hw)

/-- What fits has at most one container too many, an innermost one. -/
theorem FitsAt.nesting_le (h : FitsAt greatest d v) : v.nesting + d ≤ greatest + 1 := by
  induction h with
  | @intro d v hd _ ih =>
    have hle : v.nesting ≤ (greatest - d) + 1 := nesting_le_succ_iff.2 fun w hw => by
      have := ih w hw
      omega
    omega

/-- What fits has none too many exactly if no container at the greatest depth has nothing in it. -/
theorem FitsAt.nesting_le_iff (h : FitsAt greatest 0 v) :
    v.nesting ≤ greatest ↔ ∀ w, Within greatest v w → ¬ w.IsEmptyContainer := by
  constructor
  · intro hle w hw hempty
    have := nesting_le_of_within hw
    have := hempty.1
    omega
  · intro hnone
    refine Nat.le_of_not_lt fun hlt => ?_
    have hle := h.nesting_le
    obtain ⟨w, hw, hsum⟩ := exists_within hlt
    refine hnone w hw ⟨by omega, List.eq_nil_iff_forall_not_mem.2 fun u hu => ?_⟩
    have := ((h.within hw).child hu).le
    omega

end

/-! ## Well-formed values -/

def HashableMembers : Value → Prop
  | set vs => ∀ v ∈ vs, v.hashable = true
  | map es => ∀ e ∈ es, e.1.hashable = true
  | _ => True

def NoRepeats : Value → Prop
  | set vs => vs.Pairwise fun a b => equal a b = false
  | map es => es.Pairwise fun a b => equal a.1 b.1 = false
  | _ => True

def IsBuiltIn (v : Value) : Prop := ∀ c, v ≠ custom c

def OfLiteralKind : Value → Prop
  | decimal _ | custom _ => False
  | _ => True

/-- What a literal may be: of a literal's kind, with hashable members and keys, none of them twice. -/
structure IsLiteral (v : Value) : Prop where
  kind : v.OfLiteralKind
  hashable : v.HashableMembers
  noRepeats : v.NoRepeats

end Value

end TypedSettings
