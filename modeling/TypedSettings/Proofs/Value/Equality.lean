import TypedSettings.Proofs.Equivalence
import TypedSettings.Proofs.Number.Equality
import TypedSettings.Proofs.Value.Inside

/-!
# Equality of values is an equivalence

Equality looks for every member of the first set in the second, and says nothing of the other way.
On values whose sets and maps have no repeats it is symmetric and transitive all the same
(`partialEquivalenceOn_noRepeats`), and every value equals itself that holds no float that is no
number (`equal_self`). Values of user-defined types are compared by their payloads, of which as much
has to be known; nothing has to be where there are none of them (`equivalenceOn_builtIn`). Main
statement: if payloads are compared by an equivalence, equality is one on the values that are both
(`equal_refl_symm_trans`).
-/

namespace TypedSettings

namespace Value

open Number

section
variable [Payloads]

/-! ## Kind by kind -/

def equalEntry (e f : Value × Value) : Bool := equal e.1 f.1 && equal e.2 f.2

/-- What two equal values are: of one kind, and alike in it. -/
inductive Equals : Value → Value → Prop where
  | absent : Equals absent absent
  | bool (b : Bool) : Equals (bool b) (bool b)
  | int (n : Int64) : Equals (int n) (int n)
  | float {x y : Float} : (x == y) = true → Equals (float x) (float y)
  | str (s : String) : Equals (str s) (str s)
  | decimal {a b : Decimal} : a.equal b = true → Equals (decimal a) (decimal b)
  | list {as bs : List Value} : allSame equal as bs = true → Equals (list as) (list bs)
  | tuple {as bs : List Value} : allSame equal as bs = true → Equals (tuple as) (tuple bs)
  | set {as bs : List Value} : allFound (fun a b => equal b a) as bs = true →
      Equals (set as) (set bs)
  | map {as bs : List (Value × Value)} : allFound equalEntry as bs = true →
      Equals (map as) (map bs)
  | custom {c d : Custom} : (c == d) = true → Equals (custom c) (custom d)

theorem equal_iff {a b : Value} : equal a b = true ↔ Equals a b := by
  constructor
  · intro h
    cases a with
    | absent => cases b <;> first | exact .absent | simp [equal] at h
    | bool a => cases b <;> simp [equal] at h; exact h ▸ .bool a
    | int a => cases b <;> simp [equal] at h; exact h ▸ .int a
    | float x => cases b <;> simp [equal] at h; exact .float h
    | str a => cases b <;> simp [equal] at h; exact h ▸ .str a
    | decimal a => cases b <;> simp only [equal, Bool.false_eq_true] at h; exact .decimal h
    | list as => cases b <;> simp only [equal_list, equal, Bool.false_eq_true] at h; exact .list h
    | tuple as =>
      cases b <;> simp only [equal_tuple, equal, Bool.false_eq_true] at h; exact .tuple h
    | set as => cases b <;> simp only [equal_set, equal, Bool.false_eq_true] at h; exact .set h
    | map es => cases b <;> simp only [equal_map, equal, Bool.false_eq_true] at h; exact .map h
    | custom a => cases b <;> simp only [equal, Bool.false_eq_true] at h; exact .custom h
  · intro h
    cases h with
    | absent => simp [equal]
    | bool b => simp [equal]
    | int n => simp [equal]
    | float h => simpa [equal] using h
    | str s => simp [equal]
    | decimal h => simpa [equal] using h
    | list h => rwa [equal_list]
    | tuple h => rwa [equal_tuple]
    | set h => rwa [equal_set]
    | map h => rwa [equal_map]
    | custom h => simpa [equal] using h

/-! ## Payloads -/

instance [PartialEquivBEq Payload] : PartialEquivBEq Custom where
  symm h := by
    rw [beq_custom, Bool.and_eq_true] at h ⊢
    exact ⟨BEq.symm h.1, BEq.symm h.2⟩
  trans h h' := by
    rw [beq_custom, Bool.and_eq_true] at h h' ⊢
    exact ⟨BEq.trans h.1 h'.1, BEq.trans h.2 h'.2⟩

instance [EquivBEq Payload] : EquivBEq Custom where
  rfl {c} := by
    rw [beq_custom, Bool.and_eq_true]
    exact ⟨BEq.rfl, BEq.rfl⟩

/-- If the value is of a user-defined type, it has the property. -/
def OfCustom (Q : Custom → Prop) (v : Value) : Prop := ∀ c, v = custom c → Q c

/-! ## Values without repeats -/

section
variable {Q : Custom → Prop} {n : Nat}

/-- Values without repeats inside of less than a nesting. -/
def NoRepeatsBelow (Q : Custom → Prop) (n : Nat) (v : Value) : Prop :=
  (v.Everywhere fun w => w.NoRepeats ∧ w.OfCustom Q) ∧ v.nesting < n

theorem NoRepeatsBelow.child {v w : Value} (h : NoRepeatsBelow Q (n + 1) v)
    (hw : w ∈ v.children) : NoRepeatsBelow Q n w :=
  ⟨h.1.child hw, by
    have := nesting_lt_of_mem_children hw
    have := h.2
    omega⟩

theorem NoRepeatsBelow.entry {es : List (Value × Value)} (h : NoRepeatsBelow Q (n + 1) (map es))
    {e : Value × Value} (he : e ∈ es) : NoRepeatsBelow Q n e.1 ∧ NoRepeatsBelow Q n e.2 :=
  ⟨h.child (mem_children_map.2 ⟨e, he, .inl rfl⟩), h.child (mem_children_map.2 ⟨e, he, .inr rfl⟩)⟩

/-- Entries with different keys are different. -/
theorem distinct_entries {es : List (Value × Value)} (h : (map es).NoRepeats) :
    Distinct equalEntry es := by
  refine List.Pairwise.imp (fun {a b} hab => ?_) h
  rw [equalEntry, hab, Bool.false_and]

/-! One level of nesting: the values inside are compared, of which a smaller nesting is known. -/

section
variable (ih : PartialEquivalenceOn (NoRepeatsBelow Q n) equal)
include ih

/-- Read backwards, members without repeats are without repeats. -/
theorem NoRepeatsBelow.members {vs : List Value} (h : NoRepeatsBelow Q (n + 1) (set vs)) :
    (∀ v ∈ vs, NoRepeatsBelow Q n v) ∧ Distinct (fun a b => equal b a) vs := by
  have hdistinct : Distinct equal vs := h.1.self.1
  refine ⟨fun _ => h.child, hdistinct.imp_of_mem fun {a b} ha hb hab => ?_⟩
  cases hba : equal b a with
  | false => exact hba
  | true =>
    rw [ih.symm (h.child hb) (h.child ha) hba] at hab
    cases hab

omit ih in
theorem NoRepeatsBelow.entries {es : List (Value × Value)}
    (h : NoRepeatsBelow Q (n + 1) (map es)) :
    (∀ e ∈ es, NoRepeatsBelow Q n e.1 ∧ NoRepeatsBelow Q n e.2) ∧ Distinct equalEntry es :=
  ⟨fun _ => h.entry, distinct_entries h.1.self.1⟩

variable (hQ : PartialEquivalenceOn Q (· == ·)) {a b c : Value}
include hQ

theorem equal_symm_succ (ha : NoRepeatsBelow Q (n + 1) a) (hb : NoRepeatsBelow Q (n + 1) b)
    (hab : equal a b = true) : equal b a = true := by
  rw [equal_iff] at hab ⊢
  cases hab with
  | absent => exact .absent
  | bool b => exact .bool b
  | int n => exact .int n
  | float h => exact .float (float_beq_symm h)
  | str s => exact .str s
  | decimal h => exact .decimal (Decimal.equal_symm .. ▸ h)
  | list h => exact .list (ih.items.symm (fun _ => ha.child) (fun _ => hb.child) h)
  | tuple h => exact .tuple (ih.items.symm (fun _ => ha.child) (fun _ => hb.child) h)
  | set h => exact .set (ih.flip.members.symm (ha.members ih) (hb.members ih) h)
  | map h => exact .map (ih.prod.members.symm ha.entries hb.entries h)
  | custom h => exact .custom (hQ.symm (ha.1.self.2 _ rfl) (hb.1.self.2 _ rfl) h)

theorem equal_trans_succ (ha : NoRepeatsBelow Q (n + 1) a) (hb : NoRepeatsBelow Q (n + 1) b)
    (hc : NoRepeatsBelow Q (n + 1) c) (hab : equal a b = true) (hbc : equal b c = true) :
    equal a c = true := by
  rw [equal_iff] at hab hbc ⊢
  cases hab with
  | absent | bool | int | str => exact hbc
  | float h =>
    cases hbc with
    | float h' => exact .float (float_beq_trans h h')
  | decimal h =>
    cases hbc with
    | decimal h' => exact .decimal (Decimal.equal_trans h h')
  | list h =>
    cases hbc with
    | list h' =>
      exact .list (ih.items.trans (fun _ => ha.child) (fun _ => hb.child) (fun _ => hc.child) h h')
  | tuple h =>
    cases hbc with
    | tuple h' =>
      exact .tuple (ih.items.trans (fun _ => ha.child) (fun _ => hb.child) (fun _ => hc.child) h h')
  | set h =>
    cases hbc with
    | set h' =>
      exact .set (ih.flip.members.trans (ha.members ih) (hb.members ih) (hc.members ih) h h')
  | map h =>
    cases hbc with
    | map h' => exact .map (ih.prod.members.trans ha.entries hb.entries hc.entries h h')
  | custom h =>
    cases hbc with
    | custom h' =>
      exact .custom (hQ.trans (ha.1.self.2 _ rfl) (hb.1.self.2 _ rfl) (hc.1.self.2 _ rfl) h h')

end

theorem partialEquivalenceOn_below (hQ : PartialEquivalenceOn Q (· == ·)) (n : Nat) :
    PartialEquivalenceOn (NoRepeatsBelow Q n) equal := by
  induction n with
  | zero =>
    have none : ∀ v, ¬ NoRepeatsBelow Q 0 v := fun v h => Nat.not_lt_zero _ h.2
    exact ⟨fun h => absurd h (none _), fun h => absurd h (none _)⟩
  | succ n ih => exact ⟨equal_symm_succ ih hQ, equal_trans_succ ih hQ⟩

theorem partialEquivalenceOn_of_custom (hQ : PartialEquivalenceOn Q (· == ·)) :
    PartialEquivalenceOn (fun v => v.Everywhere fun w => w.NoRepeats ∧ w.OfCustom Q) equal where
  symm {a b} ha hb := (partialEquivalenceOn_below hQ (a.nesting + b.nesting + 1)).symm
    ⟨ha, by omega⟩ ⟨hb, by omega⟩
  trans {a b c} ha hb hc :=
    (partialEquivalenceOn_below hQ (a.nesting + b.nesting + c.nesting + 1)).trans
      ⟨ha, by omega⟩ ⟨hb, by omega⟩ ⟨hc, by omega⟩

/-- Equality is symmetric and transitive on the values without repeats inside. -/
theorem partialEquivalenceOn_noRepeats [PartialEquivBEq Payload] :
    PartialEquivalenceOn (fun v : Value => v.Everywhere NoRepeats) equal := by
  have hcustom : PartialEquivalenceOn (fun _ : Custom => True) (· == ·) :=
    ⟨fun _ _ => BEq.symm, fun _ _ _ => BEq.trans⟩
  exact (partialEquivalenceOn_of_custom hcustom).imp fun _ h => h.imp fun _ hw =>
    ⟨hw, fun _ _ => trivial⟩

/-! ## Comparable values -/

/-- A value equals itself unless it holds a float that is no number, or a value of a user-defined
type that does not equal itself. -/
theorem equal_self (hQ : ∀ c, Q c → (c == c) = true) {v : Value}
    (h : v.Everywhere fun w => (∀ x ∈ w.float?, IsNumber x) ∧ w.OfCustom Q) :
    equal v v = true := by
  induction v using children_induction with
  | step v ih =>
    have hchild : ∀ w ∈ v.children, equal w w = true := fun w hw => ih w hw (h.child hw)
    rw [equal_iff]
    cases v with
    | absent => exact .absent
    | bool b => exact .bool b
    | int n => exact .int n
    | float x => exact .float (float_beq_refl (h.self.1 x rfl))
    | str s => exact .str s
    | decimal d => exact .decimal (Decimal.equal_refl d)
    | list vs => exact .list (allSame_self hchild)
    | tuple vs => exact .tuple (allSame_self hchild)
    | set vs => exact .set (allFound_self hchild)
    | map es =>
      refine .map (allFound_self fun e he => ?_)
      rw [equalEntry, hchild e.1 (mem_children_map.2 ⟨e, he, .inl rfl⟩),
        hchild e.2 (mem_children_map.2 ⟨e, he, .inr rfl⟩)]
      rfl
    | custom c => exact .custom (hQ c (h.self.2 c rfl))

/-- Values that can be compared: no repeats in a set or a map, and no float that is no number. -/
structure IsComparable (v : Value) : Prop where
  noRepeats : v.NoRepeats
  number : ∀ x ∈ v.float?, IsNumber x

theorem equivalenceOn_of_custom (hQ : EquivalenceOn Q (· == ·)) :
    EquivalenceOn (fun v => v.Everywhere fun w => w.IsComparable ∧ w.OfCustom Q) equal where
  toPartialEquivalenceOn :=
    (partialEquivalenceOn_of_custom hQ.toPartialEquivalenceOn).imp fun _ h => h.imp fun _ hw =>
      ⟨hw.1.noRepeats, hw.2⟩
  refl h := equal_self (fun _ => hQ.refl) (h.imp fun _ hw => ⟨hw.1.number, hw.2⟩)

/-- Equality is an equivalence on the values of built-in kinds that are comparable everywhere. -/
theorem equivalenceOn_builtIn :
    EquivalenceOn (fun v : Value => v.Everywhere fun w => w.IsComparable ∧ w.IsBuiltIn) equal :=
  equivalenceOn_of_custom { symm := False.elim, trans := False.elim, refl := False.elim }

/-- Equality is an equivalence on the values that are comparable everywhere. -/
theorem equivalenceOn_comparable [EquivBEq Payload] :
    EquivalenceOn (fun v : Value => v.Everywhere IsComparable) equal := by
  have hcustom : EquivalenceOn (fun _ : Custom => True) (· == ·) :=
    ⟨⟨fun _ _ => BEq.symm, fun _ _ _ => BEq.trans⟩, fun _ => BEq.rfl⟩
  have h := equivalenceOn_of_custom hcustom
  have himp : ∀ v : Value, v.Everywhere IsComparable →
      v.Everywhere fun w => w.IsComparable ∧ w.OfCustom fun _ => True :=
    fun _ hv => hv.imp fun _ hw => ⟨hw, fun _ _ => trivial⟩
  exact ⟨h.toPartialEquivalenceOn.imp himp, fun hv => h.refl (himp _ hv)⟩

end

/-- Every comparable value equals itself, two that are equal are so either way round, and what
equals the same value is equal. -/
theorem equal_refl_symm_trans [EquivBEq Payload] {a b c : Value} (ha : a.Everywhere IsComparable)
    (hb : b.Everywhere IsComparable) (hc : c.Everywhere IsComparable) :
    equal a a = true ∧ (equal a b = true → equal b a = true) ∧
      (equal a b = true → equal b c = true → equal a c = true) :=
  ⟨equivalenceOn_comparable.refl ha, equivalenceOn_comparable.symm ha hb,
    equivalenceOn_comparable.trans ha hb hc⟩

theorem isComparable_int (n : Int64) : (int n).Everywhere IsComparable :=
  .leaf ⟨trivial, by simp [float?]⟩ rfl

theorem isComparable_float {x : Float} (h : (x == x) = true) :
    (float x).Everywhere IsComparable :=
  .leaf ⟨trivial, by simpa [float?] using isNumber_iff.2 h⟩ rfl

theorem isComparable_set {vs : List Value} (h : Distinct equal vs)
    (hvs : ∀ v ∈ vs, v.Everywhere IsComparable) : (set vs).Everywhere IsComparable :=
  .intro ⟨h, by simp [float?]⟩ hvs

end

open Payloads.Integers in
/-- Sets of zeros of either sign, in either order. -/
theorem equal_refl_symm_trans_zeros :
    (set [float 0, int 1]).Everywhere IsComparable ∧
    (set [int 1, float (-0)]).Everywhere IsComparable ∧
    (set [float (-0), int 1]).Everywhere IsComparable ∧
    equal (set [float 0, int 1]) (set [float 0, int 1]) = true ∧
    equal (set [int 1, float (-0)]) (set [float 0, int 1]) = true ∧
    equal (set [float 0, int 1]) (set [float (-0), int 1]) = true := by
  have hzero : ((0 : Float) == 0) = true := by decide +kernel
  have hminus : ((-0 : Float) == -0) = true := by decide +kernel
  have hsigns : ((-0 : Float) == 0) = true := by decide +kernel
  have ha : (set [float 0, int 1]).Everywhere IsComparable := by
    refine isComparable_set (by simp [Distinct, equal]) ?_
    simpa using ⟨isComparable_float hzero, isComparable_int 1⟩
  have hb : (set [int 1, float (-0)]).Everywhere IsComparable := by
    refine isComparable_set (by simp [Distinct, equal]) ?_
    simpa using ⟨isComparable_int 1, isComparable_float hminus⟩
  have hc : (set [float (-0), int 1]).Everywhere IsComparable := by
    refine isComparable_set (by simp [Distinct, equal]) ?_
    simpa using ⟨isComparable_float hminus, isComparable_int 1⟩
  have hab : equal (set [float 0, int 1]) (set [int 1, float (-0)]) = true := by
    simp [equal_set, equal, hsigns]
  have hbc : equal (set [int 1, float (-0)]) (set [float (-0), int 1]) = true := by
    simp [equal_set, equal, hminus]
  obtain ⟨hrefl, hsymm, htrans⟩ := equal_refl_symm_trans ha hb hc
  exact ⟨ha, hb, hc, hrefl, hsymm hab, htrans hab hbc⟩

section
variable [Payloads]

/-- With repeats equality is not symmetric. -/
example : equal (set [int 1, int 1]) (set [int 1, int 2]) = true ∧
    equal (set [int 1, int 2]) (set [int 1, int 1]) = false := by
  cbv

/-! ## No two equal -/

/-- No two members of a set are equal, whichever is compared with the other, and no two keys of a
map. -/
def NoTwoEqual : Value → Prop
  | set vs => ∀ i j, (hi : i < vs.length) → (hj : j < vs.length) → i ≠ j →
    equal vs[i] vs[j] = false
  | map es => ∀ i j, (hi : i < es.length) → (hj : j < es.length) → i ≠ j →
    equal es[i].1 es[j].1 = false
  | _ => True

theorem noTwoEqual_of_builtIn {v : Value}
    (h : v.Everywhere fun w => w.IsComparable ∧ w.IsBuiltIn) : v.NoTwoEqual := by
  cases v with
  | set vs =>
    intro i j hi hj hij
    exact equivalenceOn_builtIn.not_same (fun _ hv => h.child hv) h.self.1.noRepeats hi hj hij
  | map es =>
    intro i j hi hj hij
    have hkeys : ∀ k ∈ es.map Prod.fst, k.Everywhere fun w => w.IsComparable ∧ w.IsBuiltIn := by
      intro k hk
      obtain ⟨e, he, rfl⟩ := List.mem_map.1 hk
      exact h.key he
    have hdistinct : Distinct equal (es.map Prod.fst) := List.pairwise_map.2 h.self.1.noRepeats
    have hne := equivalenceOn_builtIn.not_same hkeys hdistinct (i := i) (j := j)
      (by simpa using hi) (by simpa using hj) hij
    rwa [List.getElem_map, List.getElem_map] at hne
  | _ => trivial

end

end Value

end TypedSettings
