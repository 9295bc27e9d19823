import TypedSettings.Proofs.Literal.Recognition
import TypedSettings.Proofs.Number.Nearest
import TypedSettings.Proofs.Value.Distinct
import TypedSettings.Proofs.Value.Equality

/-!
# What literals write

A literal at a depth writes a value whose parts stand above the greatest depth, are of a literal's
kind, have hashable members and keys without repeats, and hold no float that is no number
(`Expr.wellFormed`). So does a whole text (`wellFormed_of_parse`), and since equality is an
equivalence on such values, no two members of a set and no two keys of a map are equal
(`everywhere_of_parse`).
-/

namespace TypedSettings.Literal

open Text Number Value

section
variable [Payloads]

/-- What every part of a value read is: a literal, and no float that is no number. -/
structure IsRead (v : Value) : Prop where
  literal : v.IsLiteral
  number : ∀ x ∈ v.float?, IsNumber x

/-! ## Scalars -/

section
variable {negative : Bool} {s start r ds : List Char} {base : Nat} {v : Value}

theorem isRead_of_int (n : Int64) : IsRead (.int n) where
  literal := ⟨trivial, trivial, trivial⟩
  number := by simp [Value.float?]

theorem isRead_of_float {x : Float} (h : IsNumber x) : IsRead (.float x) where
  literal := ⟨trivial, trivial, trivial⟩
  number := by simpa [Value.float?] using h

/-- What number tokens write: integers, and floats that are numbers. -/
def IsNumeral (v : Value) : Prop := (∃ n, v = .int n) ∨ ∃ x, v = .float x ∧ IsNumber x

theorem intValue_isNumeral (h : intValue negative base start ds s = .ok (v, r)) :
    IsNumeral v := by
  obtain ⟨-, n, rfl, -⟩ := intValue_eq_ok_iff.1 h
  exact Or.inl ⟨n, rfl⟩

theorem decimalNumber_isNumeral (h : decimalNumber negative s = .ok (v, r)) : IsNumeral v := by
  obtain ⟨whole, a, _, h⟩ := Step.next_eq_ok.1 h
  obtain ⟨fraction, b, _, h⟩ := Step.next_eq_ok.1 h
  obtain ⟨exponent, c, _, h⟩ := Step.next_eq_ok.1 h
  split at h
  · cases h
    have hn := isNumber_nearestFloat whole (fraction.getD []) (exponent.getD 0)
    refine Or.inr ⟨_, rfl, ?_⟩
    split
    · exact hn.neg
    · exact hn
  · split at h
    · cases h
    · exact intValue_isNumeral h

theorem NumberToken.isNumeral (h : NumberToken negative s v r) : IsNumeral v := by
  obtain ⟨w, a, hw, h⟩ := Step.next_eq_ok.1 h.2
  split at h
  · cases h
  · cases h
    unfold openNumber at hw
    split at hw
    · obtain ⟨ds, b, _, hw⟩ := Step.next_eq_ok.1 hw
      split at hw
      · cases hw
      · exact intValue_isNumeral hw
    · exact decimalNumber_isNumeral hw

end

/-! ## Displays -/

section
variable {α : Type} {item : Writes Value} {s r : List Char}

omit [Payloads] in
theorem Items.mem {item : Writes α} {closing : Char} {xs : List α} {x : α}
    (h : Items item closing s xs r) (hx : x ∈ xs) : ∃ a b, item a x b := by
  induction h with
  | none _ => cases hx
  | @last a b _ _ hy _ =>
    obtain rfl := List.mem_singleton.1 hx
    exact ⟨a, b, hy⟩
  | @more a b _ _ _ _ hy _ _ ih =>
    rcases List.mem_cons.1 hx with rfl | hx
    · exact ⟨a, b, hy⟩
    · exact ih hx

/-- A form either only puts its item in parentheses, or makes a value of its own whose parts are
items. -/
theorem Form.parts {v : Value} (h : Form item s v r) :
    (∃ a b, item a v b) ∨ (IsRead v ∧ ∀ w ∈ v.children, ∃ a b, item a w b) := by
  have scalar : ∀ {v : Value}, IsRead v → v.children = [] →
      (IsRead v ∧ ∀ w ∈ v.children, ∃ a b, item a w b) := fun hv hc => ⟨hv, by simp [hc]⟩
  have display : ∀ {v : Value}, v.float? = none → v.IsLiteral → IsRead v := fun hf hl =>
    ⟨hl, by simp [hf]⟩
  have numeral : ∀ {v : Value}, IsNumeral v →
      (IsRead v ∧ ∀ w ∈ v.children, ∃ a b, item a w b) := by
    rintro v (⟨n, rfl⟩ | ⟨x, rfl, hx⟩)
    · exact scalar (isRead_of_int n) rfl
    · exact scalar (isRead_of_float hx) rfl
  cases h with
  | number h => exact Or.inr (numeral h.isNumeral)
  | signed _ _ h => exact Or.inr (numeral h.isNumeral)
  | texts _ => exact Or.inr (scalar (display rfl ⟨trivial, trivial, trivial⟩) rfl)
  | true _ => exact Or.inr (scalar (display rfl ⟨trivial, trivial, trivial⟩) rfl)
  | false _ => exact Or.inr (scalar (display rfl ⟨trivial, trivial, trivial⟩) rfl)
  | absent _ => exact Or.inr (scalar (display rfl ⟨trivial, trivial, trivial⟩) rfl)
  | emptySet _ _ _ =>
    exact Or.inr (scalar (display rfl ⟨trivial, by simp [HashableMembers], List.Pairwise.nil⟩) rfl)
  | list hi =>
    exact Or.inr ⟨display rfl ⟨trivial, trivial, trivial⟩, fun w hw => hi.mem hw⟩
  | emptyTuple _ => exact Or.inr (scalar (display rfl ⟨trivial, trivial, trivial⟩) rfl)
  | @tuple _ a _ _ v vs hv _ hi =>
    refine Or.inr ⟨display rfl ⟨trivial, trivial, trivial⟩, fun w hw => ?_⟩
    rcases List.mem_cons.1 (show w ∈ v :: vs from hw) with rfl | hw
    · exact ⟨_, _, hv⟩
    · exact hi.mem hw
  | group hv _ => exact Or.inl ⟨_, _, hv⟩
  | emptyMap _ =>
    exact Or.inr (scalar (display rfl ⟨trivial, by simp [HashableMembers], List.Pairwise.nil⟩) rfl)
  | @set _ _ vs hi _ hh =>
    refine Or.inr ⟨display rfl ⟨trivial, fun w hw => hh w (mem_of_mem_setOf hw),
      noRepeats_setOf vs⟩, fun w hw => hi.mem (mem_of_mem_setOf hw)⟩
  | @map _ _ es hi _ hh =>
    refine Or.inr ⟨display rfl ⟨trivial, fun x hx => ?_, noRepeats_mapOf es⟩, fun w hw => ?_⟩
    · obtain ⟨⟨e, he, hk⟩, _⟩ := mem_mapOf rfl hx
      rw [hk]
      exact hh e he
    · obtain ⟨x, hx, hw⟩ := mem_children_map.1 hw
      -- the key and the content may come from two entries that have equal keys
      obtain ⟨⟨e, he, hk⟩, ⟨f, hf, hv⟩⟩ := mem_mapOf rfl hx
      obtain ⟨a, b, a', b', hkey, _, _⟩ := hi.mem he
      obtain ⟨c, d, c', d', _, _, hcontent⟩ := hi.mem hf
      rcases hw with rfl | rfl
      · exact ⟨_, _, hk ▸ hkey⟩
      · exact ⟨_, _, hv ▸ hcontent⟩

end

/-! ## Values -/

/-- What an expression writes is read everywhere and fits at its depth. -/
theorem Expr.wellFormed {d : Nat} {s r : List Char} {v : Value} (h : Expr d s v r) :
    v.Everywhere IsRead ∧ FitsAt maxDepth d v := by
  obtain ⟨hd, t, _, hform⟩ := expr_iff.1 h
  rcases hform.parts with ⟨a, b, hv⟩ | ⟨hread, hparts⟩
  · have := hv.wellFormed
    exact ⟨this.1, this.2.up⟩
  · refine ⟨.intro hread fun w hw => ?_, .intro hd fun w hw => ?_⟩
    · obtain ⟨a, b, hw⟩ := hparts w hw
      exact hw.wellFormed.1
    · obtain ⟨a, b, hw⟩ := hparts w hw
      exact hw.wellFormed.2
termination_by maxDepth + 1 - d

theorem wellFormed_of_parse {raw : String} {v : Value} (h : parse raw = .ok v) :
    v.Everywhere IsRead ∧ FitsAt maxDepth 0 v := by
  obtain ⟨r, hexpr, _⟩ := whole_eq_ok_iff.1 (whole_of_parse.1 h)
  exact hexpr.wellFormed

theorem IsRead.isComparable {v : Value} (h : IsRead v) : v.IsComparable ∧ v.IsBuiltIn :=
  ⟨⟨h.literal.noRepeats, h.number⟩, fun _ hc => by
    have := h.literal.kind
    rwa [hc] at this⟩

/-- Whatever a text writes holds no decimal, no value of a user-defined type and no float that is
no number; every member of a set and every key of a map in it is hashable, and no two of them are
equal. -/
theorem everywhere_of_parse {raw : String} {v : Value} (h : parse raw = .ok v) :
    v.Everywhere fun w =>
      w.OfLiteralKind ∧ (∀ x ∈ w.float?, isNotANumber x = false) ∧ w.HashableMembers ∧
        w.NoTwoEqual := by
  have hread := (wellFormed_of_parse h).1
  refine hread.imp_everywhere fun w hw => ?_
  have hself := hw.self
  exact ⟨hself.literal.kind, fun x hx => isNotANumber_eq_false (hself.number x hx),
    hself.literal.hashable, noTwoEqual_of_builtIn (hw.imp fun _ => IsRead.isComparable)⟩

end

open Payloads.Integers in
theorem everywhere_of_parse_nested :
    parse "\x7b('a', 1): \x7b0.0, 2, 2\x7d, 'b': [1e999]\x7d" =
      .ok (.map [(.tuple [.str "a", .int 1], .set [.float 0, .int 2]),
        (.str "b", .list [.float infinity])]) ∧
    (map [(.tuple [.str "a", .int 1], .set [.float 0, .int 2]),
        (.str "b", .list [.float infinity])]).Everywhere fun w =>
      w.OfLiteralKind ∧ (∀ x ∈ w.float?, isNotANumber x = false) ∧ w.HashableMembers ∧
        w.NoTwoEqual := by
  have h : parse "\x7b('a', 1): \x7b0.0, 2, 2\x7d, 'b': [1e999]\x7d" =
      .ok (.map [(.tuple [.str "a", .int 1], .set [.float 0, .int 2]),
        (.str "b", .list [.float infinity])]) := by
    have hread : parse "\x7b('a', 1): \x7b0.0, 2, 2\x7d, 'b': [1e999]\x7d" =
        .ok (mapOf [(.tuple [.str "a", .int 1], Value.setOf [.float 0, .int 2, .int 2]),
          (.str "b", .list [.float infinity])]) := by
      simp only [parse, String.reduceToList]
      rfl
    rw [hread]
    simp [Value.setOf, addMember, mapOf, putEntry, equal]
  exact ⟨h, everywhere_of_parse h⟩

end TypedSettings.Literal
