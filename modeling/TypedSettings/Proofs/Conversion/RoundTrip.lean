import TypedSettings.Proofs.Conversion.Containers
import TypedSettings.Proofs.Literal.Infinite

/-!
# Overrides written from values

A container that an override converts to can be written back as an override, in the syntax that
values are printed in: its text converts to an equal value of the same type. This fails if a float
inside is infinite, which a literal can write with a large exponent but which is printed as a word.
Main statement: it fails in no other case (`convert_render_iff`).
-/

namespace TypedSettings

open Number Value

section
variable [Payloads]

section
variable {setting raw : String} {t : SettingType} {shape : Shape} {v : Value}

/-- A converted container without hooks converts to an equal value from its own text exactly if no
float in it is infinite. -/
theorem convert_render_iff (ht : HookFree t) (hs : t.shape? = some shape)
    (h : convert setting t raw = .ok v) :
    (∃ w, convert setting t v.render = .ok w ∧ w.equal v = true) ↔
      v.Everywhere fun w => ∀ x ∈ w.float?, ¬ IsInfinite x := by
  obtain ⟨hparse, htype⟩ := (convert_eq_ok_iff ht hs).1 h
  constructor
  · rintro ⟨w, hw, _⟩
    obtain ⟨hback, _⟩ := (convert_eq_ok_iff ht hs).1 hw
    exact ((Literal.parse_render_eq_ok_iff hparse).1 hback).2
  · intro hi
    have hback := (Literal.parse_render_eq_ok_iff hparse).2 ⟨rfl, hi⟩
    have hread := (Literal.wellFormed_of_parse hparse).1
    have hcomparable := hread.imp fun _ => Literal.IsRead.isComparable
    exact ⟨v, (convert_eq_ok_iff ht hs).2 ⟨hback, htype⟩, equivalenceOn_builtIn.refl hcomparable⟩

end

end

open Payloads.Integers

/-- The smallest double and a number in a tuple under a text, written in another way. -/
theorem convert_render_smallest :
    convert "S" (.mapOf (.scalar .str) (.tupleOf (.scalar .float)))
        "\x7b'a': (5e-324, -0.25e-6,)\x7d" =
      .ok (map [(str "a", tuple [float 5e-324, float (-2.5e-7)])]) ∧
    ∃ w, convert "S" (.mapOf (.scalar .str) (.tupleOf (.scalar .float)))
        (map [(str "a", tuple [float 5e-324, float (-2.5e-7)])]).render = .ok w ∧
      w.equal (map [(str "a", tuple [float 5e-324, float (-2.5e-7)])]) = true := by
  have hconvert : convert "S" (.mapOf (.scalar .str) (.tupleOf (.scalar .float)))
      "\x7b'a': (5e-324, -0.25e-6,)\x7d" =
        .ok (map [(str "a", tuple [float 5e-324, float (-2.5e-7)])]) := by
    rfl
  have hsmall : ¬ IsInfinite 5e-324 := by
    unfold IsInfinite
    decide +kernel
  have hminus : ¬ IsInfinite (-2.5e-7) := by
    unfold IsInfinite
    decide +kernel
  have hfinite : (map [(str "a", tuple [float 5e-324, float (-2.5e-7)])]).Everywhere fun w =>
      ∀ x ∈ w.float?, ¬ IsInfinite x := by
    refine .intro nofun fun w hw => ?_
    obtain ⟨e, he, hw⟩ := mem_children_map.1 hw
    rw [List.mem_singleton.1 he] at hw
    rcases hw with rfl | rfl
    · exact .leaf nofun rfl
    · refine .intro nofun fun w hw => ?_
      rcases List.mem_cons.1 hw with rfl | hw
      · exact .leaf (by simpa [float?] using hsmall) rfl
      · rw [List.mem_singleton.1 hw]
        exact .leaf (by simpa [float?] using hminus) rfl
  exact ⟨hconvert, (convert_render_iff (.mapOf (.scalar .str) (.tupleOf (.scalar .float))) rfl
    hconvert).2 hfinite⟩

/-- An infinite float is written, but its word is not read. -/
theorem convert_render_infinity :
    convert "S" (.listOf (.scalar .float)) "[1e999]" = .ok (list [float infinity]) ∧
    (list [float infinity]).render = "[inf]" ∧
    convert "S" (.listOf (.scalar .float)) "[inf]" = .error (.mismatch "S" "[inf]" "list") := by
  exact ⟨rfl, rfl, rfl⟩

end TypedSettings
