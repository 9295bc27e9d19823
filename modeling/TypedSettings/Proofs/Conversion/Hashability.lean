import Mathlib.Data.List.Nodup
import TypedSettings.Proofs.Conversion.Choices
import TypedSettings.Proofs.Conversion.Pointwise

/-!
# Members and keys that hooks return

A literal has hashable members and keys only, but where items are of hooked types the checker puts
what the hooks return in their places, and does not look at it again. Main statements: members and
keys stay hashable if the hooks for members and keys return hashable values
(`everywhere_hashableMembers_of_convert`), and any hook that returns another value makes a set with
a member that is not hashable (`exists_unhashable_member`).
-/

namespace TypedSettings

open Value

section
variable [Payloads]

/-! ## What hooks return -/

/-- What a hashable item of the type becomes is hashable again: hooks return hashable values, except
for those inside lists, sets and maps, which are never hashable. -/
inductive ReturnsHashable : SettingType → Prop where
  | scalar (s : Scalar) : ReturnsHashable (.scalar s)
  | built (c : Constructor) : ReturnsHashable (.built c)
  | bare (s : Shape) : ReturnsHashable (.bare s)
  | listOf (t : SettingType) : ReturnsHashable (.listOf t)
  | tupleOf {t : SettingType} : ReturnsHashable t → ReturnsHashable (.tupleOf t)
  | setOf (t : SettingType) : ReturnsHashable (.setOf t)
  | mapOf (k c : SettingType) : ReturnsHashable (.mapOf k c)
  | choice {ts : List SettingType} : (∀ t ∈ ts, ReturnsHashable t) → ReturnsHashable (.choice ts)
  | hooked {typeName : String} {parameters : List (Option SettingType)}
      {invoke : Value → Except String Value} :
      (∀ a w, invoke a = .ok w → w.hashable = true) →
      ReturnsHashable (.hooked typeName parameters invoke)

/-- No hook returns a value with members or keys that are not hashable, and what becomes of members
and keys is hashable. -/
inductive KeepsHashable : SettingType → Prop where
  | scalar (s : Scalar) : KeepsHashable (.scalar s)
  | built (c : Constructor) : KeepsHashable (.built c)
  | bare (s : Shape) : KeepsHashable (.bare s)
  | listOf {t : SettingType} : KeepsHashable t → KeepsHashable (.listOf t)
  | tupleOf {t : SettingType} : KeepsHashable t → KeepsHashable (.tupleOf t)
  | setOf {t : SettingType} : KeepsHashable t → ReturnsHashable t → KeepsHashable (.setOf t)
  | mapOf {k c : SettingType} : KeepsHashable k → ReturnsHashable k → KeepsHashable c →
      KeepsHashable (.mapOf k c)
  | choice {ts : List SettingType} : (∀ t ∈ ts, KeepsHashable t) → KeepsHashable (.choice ts)
  | hooked {typeName : String} {parameters : List (Option SettingType)}
      {invoke : Value → Except String Value} :
      (∀ a w, invoke a = .ok w → w.Everywhere HashableMembers) →
      KeepsHashable (.hooked typeName parameters invoke)

/-! ## Checked items -/

section
variable {setting : String} {t : SettingType} {ts : List SettingType} {v w : Value}

/-- A hashable item becomes a hashable item. -/
theorem hashable_of_check (ht : ReturnsHashable t) (h : check setting t v = some w)
    (hv : v.hashable = true) : w.hashable = true := by
  induction ht generalizing v w with
  | scalar s =>
    rw [check] at h
    split at h <;> cases h
    exact hv
  | built c => cases h
  | bare s =>
    rw [check] at h
    split at h <;> cases h
    exact hv
  | listOf t =>
    obtain ⟨vs, ws, rfl, _, _⟩ := checkList_eq_some h
    cases hv
  | setOf t =>
    obtain ⟨vs, ws, rfl, _, _⟩ := checkSet_eq_some h
    cases hv
  | mapOf k c =>
    obtain ⟨es, fs, rfl, _, _⟩ := checkMap_eq_some h
    cases hv
  | tupleOf _ ih =>
    obtain ⟨vs, ws, rfl, hws, rfl⟩ := checkTuple_eq_some h
    rw [hashable, allHashable_eq_all, List.all_eq_true] at hv ⊢
    exact forall_of_mapM hws hv ih
  | choice _ ih =>
    obtain ⟨t, ht, h⟩ := exists_of_checkFirst h
    exact ih t ht h hv
  | hooked hinvoke =>
    obtain ⟨a, ha⟩ := exists_invoke_of_check h
    exact hinvoke a _ ha

/-- Checking keeps the members and keys of an item hashable. -/
theorem everywhere_hashableMembers_of_check (ht : KeepsHashable t)
    (h : check setting t v = some w) (hv : v.Everywhere HashableMembers) :
    w.Everywhere HashableMembers := by
  induction ht generalizing v w with
  | scalar s =>
    rw [check] at h
    split at h <;> cases h
    exact hv
  | built c => cases h
  | bare s =>
    rw [check] at h
    split at h <;> cases h
    exact hv
  | listOf _ ih =>
    obtain ⟨vs, ws, rfl, hws, rfl⟩ := checkList_eq_some h
    exact .intro trivial (forall_of_mapM hws (fun _ => hv.child) ih)
  | tupleOf _ ih =>
    obtain ⟨vs, ws, rfl, hws, rfl⟩ := checkTuple_eq_some h
    exact .intro trivial (forall_of_mapM hws (fun _ => hv.child) ih)
  | setOf _ hreturns ih =>
    obtain ⟨vs, ws, rfl, hws, rfl⟩ := checkSet_eq_some h
    have hmembers := forall_of_mapM hws hv.self (hashable_of_check hreturns)
    have hinside := forall_of_mapM hws (fun _ => hv.child) ih
    exact .intro (fun w hw => hmembers w (mem_of_mem_setOf hw)) fun w hw =>
      hinside w (mem_of_mem_setOf hw)
  | mapOf _ hreturns _ ihk ihc =>
    obtain ⟨es, fs, rfl, hfs, rfl⟩ := checkMap_eq_some h
    refine .intro (fun x hx => ?_) fun w hw => ?_
    · -- a key of the new map is the key of some checked entry
      obtain ⟨⟨f, hf, hkey⟩, _⟩ := mem_mapOf rfl hx
      obtain ⟨e, he, hk, _⟩ := exists_of_mem_entries hfs hf
      rw [hkey]
      exact hashable_of_check hreturns hk (hv.self e he)
    · obtain ⟨x, hx, hk | hc⟩ := exists_of_mem_mapOf hfs hw
      · exact ihk hk (hv.child hx)
      · exact ihc hc (hv.child hx)
  | choice _ ih =>
    obtain ⟨t, ht, h⟩ := exists_of_checkFirst h
    exact ih t ht h hv
  | hooked hinvoke =>
    obtain ⟨a, ha⟩ := exists_invoke_of_check h
    exact hinvoke a _ ha

end

/-! ## Converted containers -/

section
variable {setting raw : String} {t : SettingType} {shape : Shape} {v : Value}

/-- A converted container has hashable members and keys at every depth, given that no hook returns a
value that has others, and that the hooks for members and keys return hashable values. -/
theorem everywhere_hashableMembers_of_convert (hs : t.shape? = some shape) (ht : KeepsHashable t)
    (h : convert setting t raw = .ok v) : v.Everywhere HashableMembers := by
  rw [convert_eq_ofLiteral hs] at h
  obtain ⟨u, hu, _, hcheck⟩ := ofLiteral_eq_ok h
  have hread := (Literal.wellFormed_of_parse hu).1
  exact everywhere_hashableMembers_of_check ht hcheck (hread.imp fun _ hw => hw.literal.hashable)

def boxHook : Hook where
  typeName := "Box"
  parameters := [some (.scalar .int)]
  invoke
    | .int n => .ok (list [.int n])
    | _ => .error "no integer"

theorem everywhere_of_invoke_boxHook (a w : Value) (h : boxHook.invoke a = .ok w) :
    w.Everywhere HashableMembers := by
  cases a <;> cases h
  refine .intro trivial fun u hu => ?_
  rw [List.mem_singleton.1 hu]
  exact .leaf trivial rfl

end

end

open Payloads.Integers in
theorem hashable_of_invoke_evenHook (a w : Value) (h : Registry.evenHook.invoke a = .ok w) :
    w.hashable = true ∧ w.Everywhere HashableMembers := by
  cases a <;> simp only [Registry.evenHook] at h <;> (try split at h) <;> cases h
  exact ⟨rfl, .leaf trivial rfl⟩

open Payloads.Integers in
/-- Even numbers in keys, and boxes where no hash is needed. -/
theorem everywhere_hashableMembers_of_convert_boxes :
    convert "S" (.mapOf (.tupleOf Registry.evenHook.type) (.listOf boxHook.type))
        "\x7b(2, 4): [3, 3]\x7d" =
      .ok (map [(tuple [custom ⟨"Even", (2 : Int64)⟩, custom ⟨"Even", (4 : Int64)⟩],
        list [list [int 3], list [int 3]])]) ∧
    (map [(tuple [custom ⟨"Even", (2 : Int64)⟩, custom ⟨"Even", (4 : Int64)⟩],
      list [list [int 3], list [int 3]])]).Everywhere HashableMembers := by
  have hconvert : convert "S" (.mapOf (.tupleOf Registry.evenHook.type) (.listOf boxHook.type))
      "\x7b(2, 4): [3, 3]\x7d" =
        .ok (map [(tuple [custom ⟨"Even", (2 : Int64)⟩, custom ⟨"Even", (4 : Int64)⟩],
          list [list [int 3], list [int 3]])]) := by
    have hread : Literal.parse "\x7b(2, 4): [3, 3]\x7d" =
        .ok (mapOf [(tuple [int 2, int 4], list [int 3, int 3])]) := by
      simp only [Literal.parse, String.reduceToList]
      rfl
    simp only [convert, ofLiteral, hread]
    rfl
  refine ⟨hconvert, everywhere_hashableMembers_of_convert rfl (.mapOf ?_ ?_ ?_) hconvert⟩
  · exact .tupleOf (.hooked fun a w h => (hashable_of_invoke_evenHook a w h).2)
  · exact .tupleOf (.hooked fun a w h => (hashable_of_invoke_evenHook a w h).1)
  · exact .listOf (.hooked everywhere_of_invoke_boxHook)

section
variable [Payloads] {setting raw : String} {v : Value}

/-- A hooked type that makes something that is not hashable of a text makes a set with this member
of the text in quotes. -/
theorem exists_unhashable_member {typeName : String} {parameters : List (Option SettingType)}
    {invoke : Value → Except String Value}
    (h : convert setting (.hooked typeName parameters invoke) raw = .ok v)
    (hv : v.hashable = false) :
    convert setting (.setOf (.hooked typeName parameters invoke)) (set [str raw]).render =
        .ok (.set [v]) ∧
      ¬ (set [v]).Everywhere HashableMembers := by
  have hset : Pointwise setting (.hooked typeName parameters invoke) [raw]
      (.setOf (.hooked typeName parameters invoke)) (set ([raw].map str)) Value.setOf :=
    convert_render_texts rfl (parse_render_set (List.nodup_singleton raw)) rfl (check_setOf _)
  rw [List.map_singleton] at hset
  constructor
  · rw [hset.ok [v] (.cons h .nil)]
    rfl
  · intro hall
    have := hall.self v (List.mem_singleton_self v)
    rw [hv] at this
    cases this

end

open Payloads.Integers in
/-- A set of boxes has a list for a member, although the hook returns no set and no map. -/
theorem convert_set_of_boxes :
    (∀ a w, boxHook.invoke a = .ok w → w.Everywhere HashableMembers) ∧
    convert "S" (.setOf boxHook.type) "\x7b1\x7d" = .ok (set [list [int 1]]) ∧
    (list [int 1]).hashable = false := by
  refine ⟨everywhere_of_invoke_boxHook, ?_, rfl⟩
  have hread : Literal.parse "\x7b1\x7d" = .ok (Value.setOf [int 1]) := by
    simp only [Literal.parse, String.reduceToList]
    rfl
  simp only [convert, ofLiteral, hread]
  rfl

end TypedSettings
