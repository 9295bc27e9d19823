import TypedSettings.Proofs.Conversion.Items
import TypedSettings.Proofs.Literal.RoundTrip
import TypedSettings.Proofs.Types.Registered

/-!
# Containers of a hooked type

A container of texts is read back from its printed form, whatever the texts hold
(`parse_render_of_texts`), and an item of a hooked type becomes what its text converts to. So
converting the printed container is converting the texts one by one (`convert_render_texts`). Main
statement: a list, a tuple and a set of a hooked type are made of what the texts convert to, and one
text that does not convert makes the whole container a mismatch, for whatever reason
(`convert_pointwise`).
-/

namespace TypedSettings

open Value

section
variable [Payloads]

/-! ## Printed texts -/

theorem nesting_le_one_of_texts {v : Value} (h : ∀ w ∈ v.children, ∃ s, w = str s) :
    v.nesting ≤ 1 := by
  refine nesting_le_succ_iff.2 fun w hw => ?_
  obtain ⟨s, rfl⟩ := h w hw
  exact Nat.le_refl 0

/-- A literal with nothing but texts in it is read back from its printed form. -/
theorem parse_render_of_texts {v : Value} (hv : v.IsLiteral) (hx : v.float? = none)
    (h : ∀ w ∈ v.children, ∃ s, w = str s) : Literal.parse v.render = .ok v := by
  have hprintable : v.Everywhere Literal.IsPrintable := by
    refine .intro ⟨hv, by simp [hx]⟩ fun w hw => ?_
    obtain ⟨s, rfl⟩ := h w hw
    exact .leaf ⟨⟨trivial, trivial, trivial⟩, by simp [float?]⟩ rfl
  have hnesting := nesting_le_one_of_texts h
  have hfits : FitsAt Literal.maxDepth 0 v :=
    fitsAt_of_nesting (Nat.le_trans hnesting (by decide))
  exact Literal.parse_render_of_fitsAt hprintable hfits

section
variable {texts : List String}

theorem exists_text {w : Value} (h : w ∈ texts.map str) : ∃ s, w = str s := by
  obtain ⟨s, -, rfl⟩ := List.mem_map.1 h
  exact ⟨s, rfl⟩

theorem parse_render_list :
    Literal.parse (list (texts.map str)).render = .ok (list (texts.map str)) :=
  parse_render_of_texts ⟨trivial, trivial, trivial⟩ rfl fun _ => exists_text

theorem parse_render_tuple :
    Literal.parse (tuple (texts.map str)).render = .ok (tuple (texts.map str)) :=
  parse_render_of_texts ⟨trivial, trivial, trivial⟩ rfl fun _ => exists_text

/-- In a set the texts have to be different. -/
theorem parse_render_set (h : texts.Nodup) :
    Literal.parse (set (texts.map str)).render = .ok (set (texts.map str)) := by
  refine parse_render_of_texts ⟨trivial, ?_, ?_⟩ rfl fun _ => exists_text
  · intro w hw
    obtain ⟨s, rfl⟩ := exists_text hw
    rfl
  · rw [NoRepeats, List.pairwise_map]
    exact h.imp fun hne => by simpa [equal] using hne

end

/-! ## One text after the other -/

/-- Converting the printed container to the type of a container is converting the texts to the item
type, and building the container of their values. -/
structure Pointwise (setting : String) (item : SettingType) (texts : List String)
    (container : SettingType) (printed : Value) (build : List Value → Value) : Prop where
  ok : ∀ vs, List.Forall₂ (fun s v => convert setting item s = .ok v) texts vs →
    convert setting container printed.render = .ok (build vs)
  error : ∀ s ∈ texts, ∀ e, convert setting item s = .error e →
    convert setting container printed.render =
      .error (.mismatch setting printed.render container.render)

section
variable {setting typeName : String} {parameters : List (Option SettingType)}
  {invoke : Value → Except String Value} {texts : List String}

/-- A text is checked against a hooked type by converting it. -/
theorem check_str (s : String) : check setting (.hooked typeName parameters invoke) (str s) =
    (convert setting (.hooked typeName parameters invoke) s).toOption := by
  rw [check_hooked, plain_str]

theorem mapM_check_texts :
    (texts.map str).mapM (check setting (.hooked typeName parameters invoke)) =
      texts.mapM fun s => (convert setting (.hooked typeName parameters invoke) s).toOption := by
  rw [List.mapM_map]
  exact congrArg (texts.mapM ·) (funext check_str)

/-- A container that is read back and whose items are checked one by one. -/
theorem convert_render_texts {container : SettingType} {shape : Shape} {printed : Value}
    {build : List Value → Value} (hs : container.shape? = some shape)
    (hparse : Literal.parse printed.render = .ok printed) (hfits : shape.fits printed = true)
    (hcheck : check setting container printed =
      ((texts.map str).mapM (check setting (.hooked typeName parameters invoke))).map build) :
    Pointwise setting (.hooked typeName parameters invoke) texts container printed build := by
  rw [mapM_check_texts] at hcheck
  constructor
  · intro vs h
    have hall : texts.mapM (fun s =>
        (convert setting (.hooked typeName parameters invoke) s).toOption) = some vs := by
      refine mapM_of_forall₂ (h.imp fun s v hv => ?_)
      rw [hv]
      rfl
    rw [hall] at hcheck
    rw [convert_eq_ofLiteral hs, ofLiteral, hparse]
    simp [hfits, hcheck]
  · intro s hs' e he
    have hnone : texts.mapM (fun s =>
        (convert setting (.hooked typeName parameters invoke) s).toOption) = none := by
      refine Option.eq_none_iff_forall_ne_some.2 fun vs hvs => ?_
      obtain ⟨v, hv⟩ := exists_of_mapM_mem hvs hs'
      rw [he] at hv
      cases hv
    rw [hnone] at hcheck
    rw [convert_eq_ofLiteral hs, ofLiteral, hparse]
    simp [hfits, hcheck]

/-! ## Lists, tuples and sets -/

theorem check_listOf {t : SettingType} (vs : List Value) :
    check setting (.listOf t) (list vs) = (vs.mapM (check setting t)).map list := by
  rw [check, checkList]

theorem check_tupleOf {t : SettingType} (vs : List Value) :
    check setting (.tupleOf t) (tuple vs) = (vs.mapM (check setting t)).map tuple := by
  rw [check, checkTuple]

theorem check_setOf {t : SettingType} (vs : List Value) :
    check setting (.setOf t) (set vs) = (vs.mapM (check setting t)).map Value.setOf := by
  rw [check, checkSet]

end

/-- The printed container of some texts converts to a list, a tuple or a set of a hooked type by
converting the texts one by one; for a set they have to be different, and of equal values the set
has the first. If one of them fails to convert, for any reason, then the container is a mismatch
that names the text of the whole container and its type. -/
theorem convert_pointwise (setting typeName : String) (parameters : List (Option SettingType))
    (invoke : Value → Except String Value) (texts : List String) :
    let item := SettingType.hooked typeName parameters invoke
    let items := texts.map str
    Pointwise setting item texts (.listOf item) (list items) list ∧
    (SettingType.listOf item).render = "list[" ++ typeName ++ "]" ∧
    Pointwise setting item texts (.tupleOf item) (tuple items) tuple ∧
    (SettingType.tupleOf item).render = "tuple[" ++ typeName ++ ", ...]" ∧
    (texts.Nodup → Pointwise setting item texts (.setOf item) (set items) Value.setOf) ∧
    (SettingType.setOf item).render = "set[" ++ typeName ++ "]" := by
  intro item items
  refine ⟨convert_render_texts rfl parse_render_list rfl (check_listOf items), ?_,
    convert_render_texts rfl parse_render_tuple rfl (check_tupleOf items), ?_,
    fun h => convert_render_texts rfl (parse_render_set h) rfl (check_setOf items), ?_⟩
  all_goals
    apply String.toList_inj.1
    simp [item, SettingType.render, SettingType.chars, Shape.name]

end

open Payloads.Integers in
/-- Texts with quotes in them, a text that is no decimal, a hook that cannot be called, and two
texts of one number. -/
theorem convert_pointwise_samples :
    convert "S" (.listOf (.hooked "Name" [some (.scalar .str)] .ok))
        (list [str "it's", str "\"\\"]).render = .ok (list [str "it's", str "\"\\"]) ∧
    convert "S" (.tupleOf (.hooked "Money" [some (.scalar .decimal)] .ok))
        (tuple [str "1.5", str "x"]).render =
      .error (.mismatch "S" (tuple [str "1.5", str "x"]).render "tuple[Money, ...]") ∧
    convert "S" (.listOf (.hooked "Pair" [none, none] .ok)) (list [str "a"]).render =
      .error (.mismatch "S" (list [str "a"]).render "list[Pair]") ∧
    convert "S" (.setOf Registry.evenHook.type) (set [str "2", str "+2"]).render =
      .ok (set [custom ⟨"Even", (2 : Int64)⟩]) := by
  obtain ⟨hname, -⟩ := convert_pointwise "S" "Name" [some (.scalar .str)] .ok ["it's", "\"\\"]
  obtain ⟨-, -, hmoney, htuple, -⟩ :=
    convert_pointwise "S" "Money" [some (.scalar .decimal)] .ok ["1.5", "x"]
  obtain ⟨hpair, hlist, -⟩ := convert_pointwise "S" "Pair" [none, none] .ok ["a"]
  obtain ⟨-, -, -, -, heven, -⟩ := convert_pointwise "S" "Even" Registry.evenHook.parameters
    Registry.evenHook.invoke ["2", "+2"]
  refine ⟨hname.ok [str "it's", str "\"\\"] (.cons rfl (.cons rfl .nil)), ?_, ?_, ?_⟩
  · exact (hmoney.error "x" (by simp) _ rfl).trans (by rw [htuple]; rfl)
  · exact (hpair.error "a" (by simp) _ rfl).trans (by rw [hlist]; rfl)
  · refine ((heven (by decide)).ok [custom ⟨"Even", (2 : Int64)⟩, custom ⟨"Even", (2 : Int64)⟩]
      (.cons rfl (.cons rfl .nil))).trans ?_
    simp [Value.setOf, addMember, equal]

end TypedSettings
