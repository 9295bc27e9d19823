import TypedSettings.Conversion.Scalar
import TypedSettings.Proofs.Types.Recognition

/-!
# Registered types go by their names

A registry is named if every hook in it goes by the name it is registered under; a constructor
always does. Registering such hooks and any constructors keeps a registry named
(`HooksNamed.addHook`, `HooksNamed.addConstructor`). The user-defined types that an expression
mentions are those that the registry offers (`normal_of_parse`), a type offered by a named registry
is written as its name (`chars_of_offers`), and so two types from the same named registry that count
as the same are one type (`eq_of_equal`).
-/

namespace TypedSettings

/-- Every hook that counts goes by the name it is registered under. -/
def Registry.HooksNamed [Payloads] (r : Registry) : Prop :=
  ∀ name hook, r.hook? name = some hook → hook.typeName = name

namespace Registry

section
variable [Payloads]

theorem hooksNamed_empty (capability : String) : HooksNamed ⟨capability, []⟩ := by
  intro name hook h
  cases h

variable {r : Registry}

theorem HooksNamed.addHook (h : r.HooksNamed) {hook : Hook} (capability : String) :
    (r.addHook hook.typeName capability hook).HooksNamed := by
  intro name other hother
  rw [hook?_addHook] at hother
  split at hother
  · rename_i hname
    cases hother
    exact hname.1
  · exact h name other hother

theorem hook?_addConstructor (r : Registry) (name : String) (c : Constructor) (other : String) :
    (r.addConstructor name c).hook? other = r.hook? other := by
  unfold hook?
  rw [registered_addConstructor]
  by_cases hn : name = other
  · subst hn
    simp [addConstructor]
  · simp [hn, addConstructor]

theorem HooksNamed.addConstructor (h : r.HooksNamed) (name : String) (c : Constructor) :
    (r.addConstructor name c).HooksNamed := by
  intro other hook hhook
  rw [hook?_addConstructor] at hhook
  exact h other hook hhook

end

section
open Payloads.Integers

def evenHook : Hook where
  typeName := "Even"
  parameters := [some (.scalar .int)]
  invoke
    | .int n => if n % 2 = 0 then .ok (.custom ⟨"Even", n⟩) else .error "odd"
    | _ => .error "no integer"

def port : Constructor :=
  .ofReader "net.Port" fun raw => (Number.readInt64 raw.toList).filter fun n : Int64 => 0 ≤ n

def portType : SettingType := .built port

def sample : Registry :=
  let hooked := addHook {} evenHook.typeName "from_setting" evenHook
  hooked.addConstructor port.typeName port

theorem hooksNamed_sample : sample.HooksNamed :=
  ((hooksNamed_empty _).addHook _).addConstructor _ _

end

end Registry

namespace SettingType

section
variable [Payloads] {registry : Registry} {name : String} {t : SettingType}

/-- A type that a registry offers under something that may be a name. -/
def Offered (registry : Registry) (t : SettingType) : Prop :=
  ∃ name, Token.IsName name ∧ Offers registry name t

/-- The user-defined types that an expression mentions are offered by the registry. -/
theorem normal_of_parse {expression : String} (h : parse registry expression = .ok t) :
    Normal (Offered registry) t := by
  obtain ⟨k, hk, hform⟩ := forms_of_parse h
  refine hform.normal (fun name hn u hu => ?_) t (List.mem_singleton_self t)
  exact ⟨name, hk.isName hn, hu⟩

/-- What a named registry offers is written as the name it is offered under. -/
theorem chars_of_offers (hr : registry.HooksNamed) (h : Offers registry name t) :
    t.chars = name.toList := by
  have hresolve := h.2
  unfold Registry.resolve at hresolve
  split at hresolve
  · rename_i hook hhook
    cases hresolve
    rw [← hr name hook hhook]
    rfl
  · obtain ⟨c, hc, rfl⟩ := Option.map_eq_some_iff.1 hresolve
    rw [← Registry.typeName_of_constructor? hc]
    rfl

/-- A named registry offers one type by any name. -/
theorem eq_of_chars (hr : registry.HooksNamed) {u : SettingType} (ht : Offered registry t)
    (hu : Offered registry u) (h : t.chars = u.chars) : t = u := by
  obtain ⟨name, _, ht⟩ := ht
  obtain ⟨other, _, hu⟩ := hu
  rw [chars_of_offers hr ht, chars_of_offers hr hu, String.toList_inj] at h
  subst h
  exact Option.some.inj (ht.2.symm.trans hu.2)

theorem eq_of_equalEach {ts us : List SettingType}
    (h : ∀ t ∈ ts, ∀ u ∈ us, equal t u = true → t = u) (hall : equalEach ts us = true) :
    ts = us := by
  induction ts generalizing us with
  | nil =>
    cases us with
    | nil => rfl
    | cons u us => cases hall
  | cons t ts ih =>
    cases us with
    | nil => cases hall
    | cons u us =>
      simp only [equalEach, Bool.and_eq_true] at hall
      have htu := h t List.mem_cons_self u List.mem_cons_self hall.1
      have hrest := ih (fun a ha b hb => h a (List.mem_cons_of_mem _ ha) b
        (List.mem_cons_of_mem _ hb)) hall.2
      rw [htu, hrest]

/-- Types from one named registry that count as the same are the same. -/
theorem eq_of_equal (hr : registry.HooksNamed) {u : SettingType}
    (ht : Normal (Offered registry) t) (hu : Normal (Offered registry) u)
    (h : equal t u = true) : t = u := by
  induction ht generalizing u with
  | scalar s =>
    cases hu <;> simp_all [equal]
  | bare s =>
    cases hu <;> simp_all [equal]
  | built ht =>
    cases hu with
    | built hu => exact eq_of_chars hr ht hu (congrArg String.toList (eq_of_beq h))
    | _ => cases h
  | hooked ht =>
    cases hu with
    | hooked hu => exact eq_of_chars hr ht hu (congrArg String.toList (eq_of_beq h))
    | _ => cases h
  | listOf _ ih =>
    cases hu with
    | listOf hu => rw [ih hu h]
    | _ => cases h
  | tupleOf _ ih =>
    cases hu with
    | tupleOf hu => rw [ih hu h]
    | _ => cases h
  | setOf _ ih =>
    cases hu with
    | setOf hu => rw [ih hu h]
    | _ => cases h
  | mapOf _ _ ihk ihc =>
    cases hu with
    | mapOf hk hc =>
      simp only [equal, Bool.and_eq_true] at h
      rw [ihk hk h.1, ihc hc h.2]
    | _ => cases h
  | choice _ _ _ _ ih =>
    cases hu with
    | choice _ hus _ _ => rw [eq_of_equalEach (fun a ha b hb => ih a ha (hus b hb)) h]
    | _ => cases h

end

end SettingType

end TypedSettings
