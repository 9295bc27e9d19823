import TypedSettings.Conversion.Basic
import TypedSettings.Proofs.Literal.WellFormed

/-!
# Containers are checked, not changed

Which values have a type, as a relation (`HasType`), beside the checker that builds every container
anew. On a type without hooks, and on values without repeats, the checker gives back the very value
exactly if it has the type (`check_eq_some_iff`). A container is therefore converted by reading a
literal and testing it, and the two ways to fail name two different types (`convert_container`).
-/

namespace TypedSettings

open Value

section
variable [Payloads]

/-! ## Types of values -/

/-- The value has the type, as far as literals and types without hooks go. -/
inductive HasType : SettingType → Value → Prop where
  | bool (b : Bool) : HasType (.scalar .bool) (.bool b)
  | int (n : Int64) : HasType (.scalar .int) (.int n)
  | boolAsInt (b : Bool) : HasType (.scalar .int) (.bool b)
  | float (x : Float) : HasType (.scalar .float) (.float x)
  | str (s : String) : HasType (.scalar .str) (.str s)
  | absent : HasType (.scalar .absent) .absent
  | bareList (vs : List Value) : HasType (.bare .list) (.list vs)
  | bareTuple (vs : List Value) : HasType (.bare .tuple) (.tuple vs)
  | bareSet (vs : List Value) : HasType (.bare .set) (.set vs)
  | bareMap (es : List (Value × Value)) : HasType (.bare .map) (.map es)
  | listOf {t : SettingType} {vs : List Value} : (∀ v ∈ vs, HasType t v) →
      HasType (.listOf t) (.list vs)
  | tupleOf {t : SettingType} {vs : List Value} : (∀ v ∈ vs, HasType t v) →
      HasType (.tupleOf t) (.tuple vs)
  | setOf {t : SettingType} {vs : List Value} : (∀ v ∈ vs, HasType t v) →
      HasType (.setOf t) (.set vs)
  | mapOf {k c : SettingType} {es : List (Value × Value)} : (∀ e ∈ es, HasType k e.1) →
      (∀ e ∈ es, HasType c e.2) → HasType (.mapOf k c) (.map es)
  | choice {ts : List SettingType} {t : SettingType} {v : Value} : t ∈ ts → HasType t v →
      HasType (.choice ts) v

/-- The type has no hook anywhere inside. -/
inductive HookFree : SettingType → Prop where
  | scalar (s : Scalar) : HookFree (.scalar s)
  | built (c : Constructor) : HookFree (.built c)
  | bare (s : Shape) : HookFree (.bare s)
  | listOf {t : SettingType} : HookFree t → HookFree (.listOf t)
  | tupleOf {t : SettingType} : HookFree t → HookFree (.tupleOf t)
  | setOf {t : SettingType} : HookFree t → HookFree (.setOf t)
  | mapOf {k c : SettingType} : HookFree k → HookFree c → HookFree (.mapOf k c)
  | choice {ts : List SettingType} : (∀ t ∈ ts, HookFree t) → HookFree (.choice ts)

section
variable {t k c : SettingType} {vs : List Value} {es : List (Value × Value)}

theorem hasType_listOf_iff : HasType (.listOf t) (.list vs) ↔ ∀ v ∈ vs, HasType t v := by
  refine ⟨fun h => ?_, .listOf⟩
  cases h with
  | listOf h => exact h

theorem hasType_tupleOf_iff : HasType (.tupleOf t) (.tuple vs) ↔ ∀ v ∈ vs, HasType t v := by
  refine ⟨fun h => ?_, .tupleOf⟩
  cases h with
  | tupleOf h => exact h

theorem hasType_setOf_iff : HasType (.setOf t) (.set vs) ↔ ∀ v ∈ vs, HasType t v := by
  refine ⟨fun h => ?_, .setOf⟩
  cases h with
  | setOf h => exact h

theorem hasType_mapOf_iff :
    HasType (.mapOf k c) (.map es) ↔ ∀ e ∈ es, HasType k e.1 ∧ HasType c e.2 := by
  refine ⟨fun h => ?_, fun h => .mapOf (fun e he => (h e he).1) fun e he => (h e he).2⟩
  cases h with
  | mapOf hk hc => exact fun e he => ⟨hk e he, hc e he⟩

theorem hasType_choice_iff {ts : List SettingType} {v : Value} :
    HasType (.choice ts) v ↔ ∃ t ∈ ts, HasType t v := by
  constructor
  · intro h
    cases h with
    | choice ht h => exact ⟨_, ht, h⟩
  · rintro ⟨t, ht, h⟩
    exact .choice ht h

end

def SettingType.shape? : SettingType → Option Shape
  | bare s => some s
  | listOf _ => some .list
  | tupleOf _ => some .tuple
  | setOf _ => some .set
  | mapOf _ _ => some .map
  | _ => none

/-! ## Items -/

section
variable {α : Type} {P : α → Prop} {f : α → Option α}

omit [Payloads] in
/-- A checker of items that changes none of them changes no list of them. -/
theorem mapM_eq_some_iff {xs ys : List α}
    (h : ∀ x ∈ xs, ∀ y, f x = some y ↔ y = x ∧ P x) :
    xs.mapM f = some ys ↔ ys = xs ∧ ∀ x ∈ xs, P x := by
  induction xs generalizing ys with
  | nil => simp [eq_comm]
  | cons x xs ih =>
    have hx := h x List.mem_cons_self
    have hxs : ∀ zs, xs.mapM f = some zs ↔ zs = xs ∧ ∀ x ∈ xs, P x := fun zs =>
      ih fun y hy => h y (List.mem_cons_of_mem _ hy)
    simp only [List.mapM_cons, Option.bind_eq_bind, Option.bind_eq_some_iff, hx, hxs,
      Option.pure_def, Option.some.injEq, List.forall_mem_cons]
    constructor
    · rintro ⟨y, ⟨rfl, hp⟩, zs, ⟨rfl, hps⟩, rfl⟩
      exact ⟨rfl, hp, hps⟩
    · rintro ⟨rfl, hp, hps⟩
      exact ⟨x, ⟨rfl, hp⟩, xs, ⟨rfl, hps⟩, rfl⟩

omit [Payloads] in
/-- What is built of the items checked is what is built of the items. -/
theorem map_mapM_eq_some_iff {β : Type} {build : List α → β} {xs : List α} {y : β}
    (h : ∀ x ∈ xs, ∀ y, f x = some y ↔ y = x ∧ P x) :
    (xs.mapM f).map build = some y ↔ y = build xs ∧ ∀ x ∈ xs, P x := by
  simp only [Option.map_eq_some_iff, mapM_eq_some_iff h]
  constructor
  · rintro ⟨zs, ⟨rfl, hps⟩, rfl⟩
    exact ⟨rfl, hps⟩
  · rintro ⟨rfl, hps⟩
    exact ⟨xs, ⟨rfl, hps⟩, rfl⟩

end

/-! ## The checker -/

theorem admits_iff {s : Scalar} {v : Value} : s.admits v = true ↔ HasType (.scalar s) v := by
  constructor
  · intro h
    cases s <;> cases v <;> first | constructor | cases h
  · intro h
    cases h <;> rfl

theorem fits_iff {s : Shape} {v : Value} : s.fits v = true ↔ HasType (.bare s) v := by
  constructor
  · intro h
    cases s <;> cases v <;> first | constructor | cases h
  · intro h
    cases h <;> rfl

section
variable {f : Value → Option Value} {v w : Value}

theorem checkList_eq_some (h : checkList f v = some w) :
    ∃ vs ws, v = .list vs ∧ vs.mapM f = some ws ∧ w = .list ws := by
  cases v with
  | list vs =>
    obtain ⟨ws, hws, rfl⟩ := Option.map_eq_some_iff.1 h
    exact ⟨vs, ws, rfl, hws, rfl⟩
  | _ => cases h

theorem checkTuple_eq_some (h : checkTuple f v = some w) :
    ∃ vs ws, v = .tuple vs ∧ vs.mapM f = some ws ∧ w = .tuple ws := by
  cases v with
  | tuple vs =>
    obtain ⟨ws, hws, rfl⟩ := Option.map_eq_some_iff.1 h
    exact ⟨vs, ws, rfl, hws, rfl⟩
  | _ => cases h

theorem checkSet_eq_some (h : checkSet f v = some w) :
    ∃ vs ws, v = .set vs ∧ vs.mapM f = some ws ∧ w = .setOf ws := by
  cases v with
  | set vs =>
    obtain ⟨ws, hws, rfl⟩ := Option.map_eq_some_iff.1 h
    exact ⟨vs, ws, rfl, hws, rfl⟩
  | _ => cases h

theorem checkMap_eq_some {g : Value → Option Value} (h : checkMap f g v = some w) :
    ∃ es fs, v = .map es ∧
      es.mapM (fun e => (f e.1).bind fun k => (g e.2).map fun u => (k, u)) = some fs ∧
      w = .mapOf fs := by
  cases v with
  | map es =>
    obtain ⟨fs, hfs, rfl⟩ := Option.map_eq_some_iff.1 h
    exact ⟨es, fs, rfl, hfs, rfl⟩
  | _ => cases h

end

section
variable {setting : String}

theorem checkFirst_eq_some_iff {ts : List SettingType} {v w : Value}
    (h : ∀ t ∈ ts, ∀ u, check setting t v = some u ↔ u = v ∧ HasType t v) :
    checkFirst setting ts v = some w ↔ w = v ∧ ∃ t ∈ ts, HasType t v := by
  induction ts with
  | nil => simp [checkFirst]
  | cons t ts ih =>
    have ht := h t List.mem_cons_self
    have hts := ih fun u hu => h u (List.mem_cons_of_mem _ hu)
    rw [checkFirst]
    split
    · rename_i u hu
      obtain ⟨rfl, hu⟩ := (ht u).1 hu
      constructor
      · intro hw
        cases hw
        exact ⟨rfl, t, List.mem_cons_self, hu⟩
      · rintro ⟨rfl, _⟩
        rfl
    · rename_i hnone
      have hno : ¬ HasType t v := fun hv => by
        rw [(ht v).2 ⟨rfl, hv⟩] at hnone
        cases hnone
      rw [hts]
      refine and_congr_right fun _ => ⟨?_, ?_⟩
      · rintro ⟨u, hu, hv⟩
        exact ⟨u, List.mem_cons_of_mem _ hu, hv⟩
      · rintro ⟨u, hu, hv⟩
        rcases List.mem_cons.1 hu with rfl | hu
        · exact absurd hv hno
        · exact ⟨u, hu, hv⟩

/-- A check that gives nothing back, of a value without the type. -/
theorem eq_some_iff_of_none {u : Option Value} {P : Prop} {v w : Value} (hu : u = none)
    (hP : ¬ P) : u = some w ↔ w = v ∧ P := by
  rw [hu]
  constructor
  · intro h
    cases h
  · rintro ⟨_, h⟩
    exact absurd h hP

/-- Checking a value without repeats gives it back if it has the type, and nothing else. -/
theorem check_eq_some_iff {t : SettingType} (ht : HookFree t) {v w : Value}
    (hv : v.Everywhere NoRepeats) : check setting t v = some w ↔ w = v ∧ HasType t v := by
  induction ht generalizing v w with
  | scalar s =>
    rw [check, ← admits_iff]
    by_cases h : s.admits v = true <;> simp [h, eq_comm]
  | built c =>
    rw [check]
    exact eq_some_iff_of_none rfl fun h => by cases h
  | bare s =>
    rw [check, ← fits_iff]
    by_cases h : s.fits v = true <;> simp [h, eq_comm]
  | @listOf t _ ih =>
    rw [check]
    cases v with
    | list vs =>
      have hitems : ∀ x ∈ vs, ∀ y, check setting t x = some y ↔ y = x ∧ HasType t x :=
        fun x hx y => ih (hv.child hx)
      rw [checkList, map_mapM_eq_some_iff hitems, hasType_listOf_iff]
    | _ => exact eq_some_iff_of_none rfl fun h => by cases h
  | @tupleOf t _ ih =>
    rw [check]
    cases v with
    | tuple vs =>
      have hitems : ∀ x ∈ vs, ∀ y, check setting t x = some y ↔ y = x ∧ HasType t x :=
        fun x hx y => ih (hv.child hx)
      rw [checkTuple, map_mapM_eq_some_iff hitems, hasType_tupleOf_iff]
    | _ => exact eq_some_iff_of_none rfl fun h => by cases h
  | @setOf t _ ih =>
    rw [check]
    cases v with
    | set vs =>
      have hitems : ∀ x ∈ vs, ∀ y, check setting t x = some y ↔ y = x ∧ HasType t x :=
        fun x hx y => ih (hv.child hx)
      rw [checkSet, map_mapM_eq_some_iff hitems, hasType_setOf_iff,
        setOf_of_noRepeats hv.self]
    | _ => exact eq_some_iff_of_none rfl fun h => by cases h
  | @mapOf k c _ _ ihk ihc =>
    rw [check]
    cases v with
    | map es =>
      have hentry : ∀ e ∈ es, ∀ y, ((check setting k e.1).bind fun a =>
          (check setting c e.2).map fun b => (a, b)) = some y ↔
            y = e ∧ HasType k e.1 ∧ HasType c e.2 := by
        intro e he y
        simp only [Option.bind_eq_some_iff, Option.map_eq_some_iff, ihk (hv.key he),
          ihc (hv.content he)]
        constructor
        · rintro ⟨a, ⟨rfl, ha⟩, b, ⟨rfl, hb⟩, rfl⟩
          exact ⟨rfl, ha, hb⟩
        · rintro ⟨rfl, ha, hb⟩
          exact ⟨_, ⟨rfl, ha⟩, _, ⟨rfl, hb⟩, rfl⟩
      rw [checkMap, map_mapM_eq_some_iff hentry, hasType_mapOf_iff, mapOf_of_noRepeats hv.self]
    | _ => exact eq_some_iff_of_none rfl fun h => by cases h
  | @choice ts _ ih =>
    rw [check, checkFirst_eq_some_iff fun t ht u => ih t ht hv, hasType_choice_iff]

/-! ## Conversion -/

/-- Reading a literal of a shape and checking it, given that the check changes nothing. -/
theorem ofLiteral_of_check {raw whole : String} {shape : Shape} {f : Value → Option Value}
    {P : Value → Prop} (hf : ∀ v, Literal.parse raw = .ok v → ∀ w, f v = some w ↔ w = v ∧ P v)
    (hP : ∀ v, P v → shape.fits v = true) :
    (∀ v, ofLiteral setting raw shape whole f = .ok v ↔ Literal.parse raw = .ok v ∧ P v) ∧
    ((∀ v, Literal.parse raw = .ok v → shape.fits v = false) →
      ofLiteral setting raw shape whole f = .error (.mismatch setting raw shape.name)) ∧
    ∀ v, Literal.parse raw = .ok v → shape.fits v = true → ¬ P v →
      ofLiteral setting raw shape whole f = .error (.mismatch setting raw whole) := by
  unfold ofLiteral
  cases hraw : Literal.parse raw with
  | error e => simp
  | ok u =>
    have hu := hf u hraw
    simp only [Except.ok.injEq, forall_eq']
    by_cases hfits : shape.fits u = true
    · rw [if_pos hfits]
      cases hw : f u with
      | none =>
        have hno : ¬ P u := fun hp => by
          rw [(hu u).2 ⟨rfl, hp⟩] at hw
          cases hw
        refine ⟨fun v => ⟨fun h => (by cases h), ?_⟩, fun h => ?_, fun _ _ => rfl⟩
        · rintro ⟨rfl, hp⟩
          exact absurd hp hno
        · rw [h] at hfits
          cases hfits
      | some w =>
        obtain ⟨rfl, hp⟩ := (hu w).1 hw
        refine ⟨fun v => ?_, fun h => ?_, fun _ h => absurd hp h⟩
        · constructor
          · intro h
            cases h
            exact ⟨rfl, hp⟩
          · rintro ⟨rfl, _⟩
            rfl
        · rw [h] at hfits
          cases hfits
    · rw [if_neg hfits]
      refine ⟨fun v => ⟨fun h => (by cases h), ?_⟩, fun _ => rfl, fun h => absurd h hfits⟩
      rintro ⟨rfl, hp⟩
      exact absurd (hP _ hp) hfits

theorem ofLiteral_eq_ok {raw whole : String} {shape : Shape} {f : Value → Option Value} {v : Value}
    (h : ofLiteral setting raw shape whole f = .ok v) :
    ∃ u, Literal.parse raw = .ok u ∧ shape.fits u = true ∧ f u = some v := by
  unfold ofLiteral at h
  split at h
  · cases h
  · rename_i u hu
    split at h
    · rename_i hfits
      split at h <;> cases h
      exact ⟨u, hu, hfits, ‹_›⟩
    · cases h

/-- A container is converted to by reading a literal of its shape and checking it against the whole
type. -/
theorem convert_eq_ofLiteral {raw : String} {t : SettingType} {shape : Shape}
    (hs : t.shape? = some shape) :
    convert setting t raw = ofLiteral setting raw shape t.render (check setting t) := by
  cases t with
  | bare s =>
    cases hs
    have hrender : (SettingType.bare shape).render = shape.name := String.ofList_toList
    rw [convert, hrender]
    unfold ofLiteral
    split
    · rfl
    · by_cases hfits : shape.fits ‹Value› = true <;> simp [check, hfits]
  | listOf t =>
    cases hs
    have hcheck : check setting (.listOf t) = checkList (check setting t) := by
      funext v
      rw [check]
    rw [convert, hcheck]
  | tupleOf t =>
    cases hs
    have hcheck : check setting (.tupleOf t) = checkTuple (check setting t) := by
      funext v
      rw [check]
    rw [convert, hcheck]
  | setOf t =>
    cases hs
    have hcheck : check setting (.setOf t) = checkSet (check setting t) := by
      funext v
      rw [check]
    rw [convert, hcheck]
  | mapOf k c =>
    cases hs
    have hcheck : check setting (.mapOf k c) = checkMap (check setting k) (check setting c) := by
      funext v
      rw [check]
    rw [convert, hcheck]
  | _ => cases hs

/-- A checked container has the shape of the type, whatever its items have become. -/
theorem fits_of_check {t : SettingType} {shape : Shape} (hs : t.shape? = some shape) {u v : Value}
    (h : check setting t u = some v) : shape.fits v = true := by
  cases t with
  | bare s =>
    cases hs
    rw [check] at h
    split at h <;> cases h
    assumption
  | listOf t =>
    cases hs
    obtain ⟨_, _, _, _, rfl⟩ := checkList_eq_some h
    rfl
  | tupleOf t =>
    cases hs
    obtain ⟨_, _, _, _, rfl⟩ := checkTuple_eq_some h
    rfl
  | setOf t =>
    cases hs
    obtain ⟨_, _, _, _, rfl⟩ := checkSet_eq_some h
    rfl
  | mapOf k c =>
    cases hs
    obtain ⟨_, _, _, _, rfl⟩ := checkMap_eq_some h
    rfl
  | _ => cases hs

theorem fits_of_convert {raw : String} {t : SettingType} {shape : Shape}
    (hs : t.shape? = some shape) {v : Value} (h : convert setting t raw = .ok v) :
    shape.fits v = true := by
  rw [convert_eq_ofLiteral hs] at h
  obtain ⟨u, _, _, hcheck⟩ := ofLiteral_eq_ok h
  exact fits_of_check hs hcheck

theorem fits_of_hasType {t : SettingType} {shape : Shape} (hs : t.shape? = some shape) {v : Value}
    (h : HasType t v) : shape.fits v = true := by
  cases h <;> cases hs <;> rfl

/-- A text converts to a container without hooks if it writes a value that has the type. -/
theorem convert_eq_ok_iff {raw : String} {t : SettingType} {shape : Shape} (ht : HookFree t)
    (hs : t.shape? = some shape) {v : Value} :
    convert setting t raw = .ok v ↔ Literal.parse raw = .ok v ∧ HasType t v := by
  rw [convert_eq_ofLiteral hs]
  refine (ofLiteral_of_check (fun u hu w => check_eq_some_iff ht ?_) fun u => fits_of_hasType hs).1 v
  exact (Literal.wellFormed_of_parse hu).1.imp fun w hw => hw.literal.noRepeats

/-- A container without hooks is converted to by reading a literal and testing it. The value read is
kept as it is; a text of no or another shape is expected to have the bare shape, and one whose items
fail to have the whole type. -/
theorem convert_container (setting raw : String) {t : SettingType} {shape : Shape}
    (ht : HookFree t) (hs : t.shape? = some shape) :
    (∀ v, convert setting t raw = .ok v ↔ Literal.parse raw = .ok v ∧ HasType t v) ∧
    ((∀ v, Literal.parse raw = .ok v → shape.fits v = false) →
      convert setting t raw = .error (.mismatch setting raw shape.name)) ∧
    ∀ v, Literal.parse raw = .ok v → shape.fits v = true → ¬ HasType t v →
      convert setting t raw = .error (.mismatch setting raw t.render) := by
  rw [convert_eq_ofLiteral hs]
  refine ofLiteral_of_check (fun v hv w => check_eq_some_iff ht ?_) fun v => fits_of_hasType hs
  exact (Literal.wellFormed_of_parse hv).1.imp fun u hu => hu.literal.noRepeats

end

end

open Payloads.Integers in
theorem convert_container_flags :
    convert "FLAGS" (.listOf (.scalar .int)) "[2, True,]" = .ok (.list [.int 2, .bool true]) ∧
    convert "FLAGS" (.listOf (.scalar .int)) "(2,)" = .error (.mismatch "FLAGS" "(2,)" "list") ∧
    convert "FLAGS" (.listOf (.scalar .int)) "[2, 'a']" =
      .error (.mismatch "FLAGS" "[2, 'a']" "list[int]") := by
  have hfree : HookFree (.listOf (.scalar .int)) := .listOf (.scalar .int)
  have hmixed : Literal.parse "[2, True,]" = .ok (.list [.int 2, .bool true]) := rfl
  have htuple : Literal.parse "(2,)" = .ok (.tuple [.int 2]) := rfl
  have htext : Literal.parse "[2, 'a']" = .ok (.list [.int 2, .str "a"]) := rfl
  refine ⟨((convert_container _ _ hfree rfl).1 _).2 ⟨hmixed, .listOf ?_⟩,
    (convert_container _ _ hfree rfl).2.1 ?_,
    (convert_container _ _ hfree rfl).2.2 _ htext rfl ?_⟩
  · intro v hv
    rcases List.mem_cons.1 hv with rfl | hv
    · exact .int 2
    · rw [List.mem_singleton.1 hv]
      exact .boolAsInt true
  · intro v hv
    rw [htuple] at hv
    cases hv
    rfl
  · intro h
    cases h with
    | listOf h => exact nomatch h (.str "a") (by simp)

end TypedSettings
