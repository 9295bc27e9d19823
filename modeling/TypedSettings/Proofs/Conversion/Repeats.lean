import TypedSettings.Proofs.Conversion.Choices
import TypedSettings.Proofs.Conversion.Items
import TypedSettings.Proofs.Literal.WellFormed
import TypedSettings.Proofs.Value.Merging

/-!
# Repeats that hooks make

Hooks may make equal values of different items. Sets and maps are built anew of what items become,
so that no repeats stay: a set keeps the first of equal members, and a map the first of equal keys
with the last of their contents. Main statement: so it is at every depth of a converted value, if
no hook and no constructor brings repeats of its own (`convert_noRepeats`).
-/

namespace TypedSettings

open Value

section
variable [Payloads]

/-! ## What hooks and constructors return -/

/-- No constructor and no hook returns a value with repeats inside; a hook may return such a value
if it was given one, and its parameter is of a type that has none. -/
inductive KeepsDistinct : SettingType → Prop where
  | scalar (s : Scalar) : KeepsDistinct (.scalar s)
  | built {c : Constructor} :
      (∀ raw w, c.build raw = some w → w.Everywhere NoRepeats) → KeepsDistinct (.built c)
  | bare (s : Shape) : KeepsDistinct (.bare s)
  | listOf {t : SettingType} : KeepsDistinct t → KeepsDistinct (.listOf t)
  | tupleOf {t : SettingType} : KeepsDistinct t → KeepsDistinct (.tupleOf t)
  | setOf {t : SettingType} : KeepsDistinct t → KeepsDistinct (.setOf t)
  | mapOf {k c : SettingType} : KeepsDistinct k → KeepsDistinct c → KeepsDistinct (.mapOf k c)
  | choice {ts : List SettingType} : (∀ t ∈ ts, KeepsDistinct t) → KeepsDistinct (.choice ts)
  | hooked {typeName : String} {parameters : List (Option SettingType)}
      {invoke : Value → Except String Value} :
      (∀ a w, invoke a = .ok w → w.Everywhere NoRepeats) →
      KeepsDistinct (.hooked typeName parameters invoke)
  | passing {typeName : String} {t : SettingType} {invoke : Value → Except String Value} :
      KeepsDistinct t →
      (∀ a w, a.Everywhere NoRepeats → invoke a = .ok w → w.Everywhere NoRepeats) →
      KeepsDistinct (.hooked typeName [some t] invoke)

/-! ## Values without repeats -/

/-- Neither a text nor an item becomes a value with repeats. -/
structure YieldsDistinct (setting : String) (t : SettingType) : Prop where
  convert : ∀ {raw v}, convert setting t raw = .ok v → v.Everywhere NoRepeats
  check : ∀ {v w}, check setting t v = some w → v.Everywhere NoRepeats → w.Everywhere NoRepeats

section
variable {setting raw : String} {t k c : SettingType} {v w : Value}

theorem noRepeats_of_parse (h : Literal.parse raw = .ok v) : v.Everywhere NoRepeats :=
  (Literal.wellFormed_of_parse h).1.imp fun _ hw => hw.literal.noRepeats

theorem noRepeats_of_scalar {s : Scalar} (h : s.convert setting raw = .ok v) :
    v.Everywhere NoRepeats := by
  cases s <;> simp only [Scalar.convert] at h <;> (try split at h) <;> cases h <;>
    exact .leaf trivial rfl

/-- A container is a literal without repeats, checked. -/
theorem YieldsDistinct.of_check {shape : Shape} (hs : t.shape? = some shape)
    (hcheck : ∀ {v w}, TypedSettings.check setting t v = some w → v.Everywhere NoRepeats →
      w.Everywhere NoRepeats) : YieldsDistinct setting t where
  convert h := by
    rw [convert_eq_ofLiteral hs] at h
    obtain ⟨u, hu, _, h⟩ := ofLiteral_eq_ok h
    exact hcheck h (noRepeats_of_parse hu)
  check := hcheck

/-- An item of a hooked type is converted from its plain text. -/
theorem YieldsDistinct.of_convert {typeName : String} {parameters : List (Option SettingType)}
    {invoke : Value → Except String Value}
    (hconvert : ∀ {raw v}, TypedSettings.convert setting (.hooked typeName parameters invoke) raw =
      .ok v → v.Everywhere NoRepeats) :
    YieldsDistinct setting (.hooked typeName parameters invoke) where
  convert := hconvert
  check h _ := hconvert (convert_of_check h)

theorem yieldsDistinct (ht : KeepsDistinct t) : YieldsDistinct setting t := by
  induction ht with
  | scalar s =>
    refine ⟨fun h => ?_, fun h hv => ?_⟩
    · rw [convert] at h
      exact noRepeats_of_scalar h
    · rw [check] at h
      split at h <;> cases h
      exact hv
  | built hbuild =>
    refine ⟨fun h => ?_, fun h => by cases h⟩
    rw [convert] at h
    split at h <;> cases h
    exact hbuild _ _ ‹_›
  | bare s =>
    refine .of_check rfl fun h hv => ?_
    rw [check] at h
    split at h <;> cases h
    exact hv
  | listOf _ ih =>
    refine .of_check rfl fun h hv => ?_
    obtain ⟨vs, ws, rfl, hws, rfl⟩ := checkList_eq_some h
    exact .intro trivial (forall_of_mapM hws (fun _ => hv.child) ih.check)
  | tupleOf _ ih =>
    refine .of_check rfl fun h hv => ?_
    obtain ⟨vs, ws, rfl, hws, rfl⟩ := checkTuple_eq_some h
    exact .intro trivial (forall_of_mapM hws (fun _ => hv.child) ih.check)
  | setOf _ ih =>
    refine .of_check rfl fun h hv => ?_
    obtain ⟨vs, ws, rfl, hws, rfl⟩ := checkSet_eq_some h
    have hitems := forall_of_mapM hws (fun _ => hv.child) ih.check
    exact .intro (noRepeats_setOf ws) fun w hw => hitems w (mem_of_mem_setOf hw)
  | mapOf _ _ ihk ihc =>
    refine .of_check rfl fun h hv => ?_
    obtain ⟨es, fs, rfl, hfs, rfl⟩ := checkMap_eq_some h
    refine .intro (noRepeats_mapOf fs) fun w hw => ?_
    obtain ⟨x, hx, hk | hc⟩ := exists_of_mem_mapOf hfs hw
    · exact ihk.check hk (hv.child hx)
    · exact ihc.check hc (hv.child hx)
  | choice _ ih =>
    refine ⟨fun h => ?_, fun h hv => ?_⟩
    · rw [← converted?_eq_some_iff, converted?_choice] at h
      obtain ⟨t, ht, h⟩ := List.exists_of_findSome?_eq_some h
      exact (ih t ht).convert (converted?_eq_some_iff.1 h)
    · obtain ⟨t, ht, h⟩ := exists_of_checkFirst h
      exact (ih t ht).check h hv
  | hooked hinvoke =>
    refine .of_convert fun h => ?_
    obtain ⟨_, a, _, _, ha⟩ := convert_hooked_eq_ok_iff.1 h
    exact hinvoke a _ ha
  | passing _ hinvoke ih =>
    refine .of_convert fun h => ?_
    obtain ⟨_, a, hp, hargument, ha⟩ := convert_hooked_eq_ok_iff.1 h
    cases hp
    exact hinvoke a _ (ih.convert hargument) ha

/-! ## Maps of merged entries -/

/-- The map of what the entries of a literal become, entries of equal keys being one: at the place
of the first, with the content of the last. -/
def MergesTo (setting : String) (k c : SettingType) (es : List (Value × Value)) (w : Value) :
    Prop :=
  ∃ fs, List.Forall₂ (fun e f => check setting k e.1 = some f.1 ∧ check setting c e.2 = some f.2)
      es fs ∧
    w = map (merged equal fs)

theorem mergesTo_of_check [PartialEquivBEq Payload] (hk : KeepsDistinct k)
    (hv : v.Everywhere NoRepeats) (h : check setting (.mapOf k c) v = some w) :
    ∃ es, v = map es ∧ MergesTo setting k c es w := by
  obtain ⟨es, fs, rfl, hfs, rfl⟩ := checkMap_eq_some h
  refine ⟨es, rfl, fs, forall₂_of_entries hfs, mapOf_eq_merged fun f hf => ?_⟩
  obtain ⟨e, he, hkey, _⟩ := exists_of_mem_entries hfs hf
  exact (yieldsDistinct hk).check hkey (hv.key he)

theorem mergesTo_of_convert [PartialEquivBEq Payload] (hk : KeepsDistinct k)
    (h : convert setting (.mapOf k c) raw = .ok w) :
    ∃ es, Literal.parse raw = .ok (map es) ∧ MergesTo setting k c es w := by
  rw [convert_eq_ofLiteral rfl] at h
  obtain ⟨u, hu, _, hcheck⟩ := ofLiteral_eq_ok h
  obtain ⟨es, rfl, hmerges⟩ := mergesTo_of_check hk (noRepeats_of_parse hu) hcheck
  exact ⟨es, hu, hmerges⟩

/-- What a text converts to, and what an item without repeats becomes, has no repeats at any depth;
and of the entries of a map those whose keys become equal are one, at the place of the first and
with the content of the last. -/
theorem convert_noRepeats [PartialEquivBEq Payload] (ht : KeepsDistinct t) :
    (∀ raw v, convert setting t raw = .ok v →
      v.Everywhere NoRepeats ∧
        ∀ k c, t = .mapOf k c → ∃ es, Literal.parse raw = .ok (map es) ∧
          MergesTo setting k c es v) ∧
    ∀ v w, v.Everywhere NoRepeats → check setting t v = some w →
      w.Everywhere NoRepeats ∧
        ∀ k c, t = .mapOf k c → ∃ es, v = map es ∧ MergesTo setting k c es w := by
  have hkey : ∀ k c, t = .mapOf k c → KeepsDistinct k := by
    rintro k c rfl
    cases ht with
    | mapOf hk _ => exact hk
  refine ⟨fun raw v h => ⟨(yieldsDistinct ht).convert h, ?_⟩,
    fun v w hv h => ⟨(yieldsDistinct ht).check h hv, ?_⟩⟩
  · rintro k c rfl
    exact mergesTo_of_convert (hkey k c rfl) h
  · rintro k c rfl
    exact mergesTo_of_check (hkey k c rfl) hv h

end

end

open Payloads.Integers

theorem noRepeats_of_invoke_evenHook (a w : Value) (h : Registry.evenHook.invoke a = .ok w) :
    w.Everywhere NoRepeats := by
  cases a <;> simp only [Registry.evenHook] at h <;> (try split at h) <;> cases h
  exact .leaf trivial rfl

/-- A number and a text of the same digits become one key, and one member. -/
theorem convert_noRepeats_even :
    convert "S" (.mapOf Registry.evenHook.type (.setOf Registry.evenHook.type))
        "\x7b2: \x7b4\x7d, 6: \x7b8, '8'\x7d, '2': \x7b2, 4\x7d\x7d" =
      .ok (map [(custom ⟨"Even", (2 : Int64)⟩,
          set [custom ⟨"Even", (2 : Int64)⟩, custom ⟨"Even", (4 : Int64)⟩]),
        (custom ⟨"Even", (6 : Int64)⟩, set [custom ⟨"Even", (8 : Int64)⟩])]) ∧
    (map [(custom ⟨"Even", (2 : Int64)⟩,
        set [custom ⟨"Even", (2 : Int64)⟩, custom ⟨"Even", (4 : Int64)⟩]),
      (custom ⟨"Even", (6 : Int64)⟩, set [custom ⟨"Even", (8 : Int64)⟩])]).Everywhere NoRepeats ∧
    ∃ es, MergesTo "S" Registry.evenHook.type (.setOf Registry.evenHook.type) es
      (map [(custom ⟨"Even", (2 : Int64)⟩,
          set [custom ⟨"Even", (2 : Int64)⟩, custom ⟨"Even", (4 : Int64)⟩]),
        (custom ⟨"Even", (6 : Int64)⟩, set [custom ⟨"Even", (8 : Int64)⟩])]) := by
  have heven : KeepsDistinct Registry.evenHook.type := .hooked noRepeats_of_invoke_evenHook
  have hconvert : convert "S" (.mapOf Registry.evenHook.type (.setOf Registry.evenHook.type))
      "\x7b2: \x7b4\x7d, 6: \x7b8, '8'\x7d, '2': \x7b2, 4\x7d\x7d" =
        .ok (map [(custom ⟨"Even", (2 : Int64)⟩,
          set [custom ⟨"Even", (2 : Int64)⟩, custom ⟨"Even", (4 : Int64)⟩]),
          (custom ⟨"Even", (6 : Int64)⟩, set [custom ⟨"Even", (8 : Int64)⟩])]) := by
    have hread : Literal.parse "\x7b2: \x7b4\x7d, 6: \x7b8, '8'\x7d, '2': \x7b2, 4\x7d\x7d" =
        .ok (map [(int 2, set [int 4]), (int 6, set [int 8, str "8"]),
          (str "2", set [int 2, int 4])]) := by
      have hwritten : Literal.parse "\x7b2: \x7b4\x7d, 6: \x7b8, '8'\x7d, '2': \x7b2, 4\x7d\x7d" =
          .ok (mapOf [(int 2, Value.setOf [int 4]), (int 6, Value.setOf [int 8, str "8"]),
            (str "2", Value.setOf [int 2, int 4])]) := by
        simp only [Literal.parse, String.reduceToList]
        rfl
      rw [hwritten]
      simp [mapOf, putEntry, Value.setOf, addMember, equal]
    have hcheck : convert "S" (.mapOf Registry.evenHook.type (.setOf Registry.evenHook.type))
        "\x7b2: \x7b4\x7d, 6: \x7b8, '8'\x7d, '2': \x7b2, 4\x7d\x7d" =
          .ok (mapOf [(custom ⟨"Even", (2 : Int64)⟩, Value.setOf [custom ⟨"Even", (4 : Int64)⟩]),
            (custom ⟨"Even", (6 : Int64)⟩,
              Value.setOf [custom ⟨"Even", (8 : Int64)⟩, custom ⟨"Even", (8 : Int64)⟩]),
            (custom ⟨"Even", (2 : Int64)⟩,
              Value.setOf [custom ⟨"Even", (2 : Int64)⟩, custom ⟨"Even", (4 : Int64)⟩])]) := by
      simp only [convert, ofLiteral, hread]
      rfl
    have hequal : ∀ m n : Int64, ((⟨"Even", m⟩ : Custom) == ⟨"Even", n⟩) = (m == n) :=
      fun _ _ => rfl
    rw [hcheck]
    simp [mapOf, putEntry, Value.setOf, addMember, equal, hequal]
  obtain ⟨hnone, hmerges⟩ := (convert_noRepeats (.mapOf heven (.setOf heven))).1 _ _ hconvert
  obtain ⟨es, _, hes⟩ := hmerges _ _ rfl
  exact ⟨hconvert, hnone, es, hes⟩

end TypedSettings
