import Mathlib.Data.List.Forall2
import TypedSettings.Proofs.Types.Joining

/-!
# Expressions under two registries

The registry has a say in what an expression stands for only through the names that the expression
mentions and that are not built in. Two registries may resolve these names to one type or to types
that count as the same: both are relations that are kept by all that is made of types
(`congruence_eq`, `congruence_equal`). Under such a relation a name with its arguments stands for
related types (`resolve_alike`), so the readers of tokens leave the same tokens and give related
results or the same fault (`readsAlike`), by induction on their fuel. Main statement: `parse_alike`.
-/

namespace TypedSettings.SettingType

open Token

section
variable [Payloads]

/-- A name that stands for what it is built in for, perhaps behind a package name. -/
def BuiltIn (name : String) : Prop := ∃ short, Shortens name short ∧ Fixed short

/-- The name is among the tokens that the expression spells. -/
def Mentions (expression name : String) : Prop :=
  ∃ ts, Spells expression.toList ts ∧ .name name ∈ ts

/-- Two outcomes that are related results or the same error. -/
inductive Agree {ε α β : Type} (R : α → β → Prop) : Except ε α → Except ε β → Prop where
  | ok {a : α} {b : β} : R a b → Agree R (.ok a) (.ok b)
  | error (e : ε) : Agree R (.error e) (.error e)

/-- A relation that is kept when types are made of types. -/
structure Congruence (R : SettingType → SettingType → Prop) : Prop where
  scalar : ∀ s, R (.scalar s) (.scalar s)
  bare : ∀ s, R (.bare s) (.bare s)
  listOf : ∀ {t u}, R t u → R (.listOf t) (.listOf u)
  tupleOf : ∀ {t u}, R t u → R (.tupleOf t) (.tupleOf u)
  setOf : ∀ {t u}, R t u → R (.setOf t) (.setOf u)
  mapOf : ∀ {k l c d}, R k l → R c d → R (.mapOf k c) (.mapOf l d)
  join : ∀ {ts us}, List.Forall₂ R ts us → Option.Rel R (join? ts) (join? us)

/-! ## One type, and types that count as the same -/

omit [Payloads] in
theorem optionRel_refl {α : Type} {R : α → α → Prop} (h : ∀ a, R a a) (x : Option α) :
    Option.Rel R x x := by
  cases x with
  | none => exact .none
  | some a => exact .some (h a)

theorem congruence_eq : Congruence (· = ·) where
  scalar _ := rfl
  bare _ := rfl
  listOf := congrArg _
  tupleOf := congrArg _
  setOf := congrArg _
  mapOf hk hc := by rw [hk, hc]
  join h := by
    rw [List.forall₂_eq_eq_eq] at h
    subst h
    exact optionRel_refl (fun _ => rfl) _

def Same (t u : SettingType) : Prop := equal t u = true

section
variable {t u : SettingType} {ts us : List SettingType}

theorem equalEach_iff : equalEach ts us = true ↔ List.Forall₂ Same ts us := by
  induction ts generalizing us with
  | nil => cases us <;> simp [equalEach]
  | cons t ts ih => cases us <;> simp [equalEach, ih, Same]

theorem same_alternatives (h : Same t u) : List.Forall₂ Same t.alternatives u.alternatives := by
  cases t with
  | choice ts =>
    cases u with
    | choice us => exact equalEach_iff.1 h
    | _ => cases h
  | _ =>
    cases u with
    | choice us => cases h
    | _ => exact .cons h .nil

/-- Of types that count as the same either all or none are among some types. -/
theorem any_equal_congr (hts : List.Forall₂ Same ts us) (h : Same t u) :
    ts.any (equal · t) = us.any (equal · u) := by
  induction hts with
  | nil => rfl
  | @cons a b ts us hab _ ih =>
    have hflip : ∀ {v w : SettingType}, Same v w → Same w v := equivalenceOn_equal.symm trivial trivial
    have hat : equal a t = equal b u := by
      rw [equal_congr hab, Bool.eq_iff_iff]
      exact ⟨fun hbt => equivalenceOn_equal.trans trivial trivial trivial hbt h,
        fun hbu => equivalenceOn_equal.trans trivial trivial trivial hbu (hflip h)⟩
    rw [List.any_cons, List.any_cons, hat, ih]

theorem same_addAlternative (hts : List.Forall₂ Same ts us) (h : Same t u) :
    List.Forall₂ Same (addAlternative ts t) (addAlternative us u) := by
  unfold addAlternative
  rw [any_equal_congr hts h]
  split
  · exact hts
  · exact List.rel_append hts (.cons h .nil)

theorem same_joined (h : List.Forall₂ Same ts us) : List.Forall₂ Same (joined ts) (joined us) := by
  have halternatives : List.Forall₂ Same (ts.flatMap SettingType.alternatives)
      (us.flatMap SettingType.alternatives) :=
    List.rel_flatMap h fun _ _ ht => same_alternatives ht
  exact List.rel_foldl (P := List.Forall₂ Same) (R := Same)
    (fun _ _ hts _ _ ht => same_addAlternative hts ht) .nil halternatives

theorem congruence_equal : Congruence Same where
  scalar _ := equal_refl _
  bare _ := equal_refl _
  listOf h := h
  tupleOf h := h
  setOf h := h
  mapOf hk hc := Bool.and_eq_true_iff.2 ⟨hk, hc⟩
  join {ts us} h := by
    have hjoined := same_joined h
    unfold join?
    match joined ts, joined us, hjoined with
    | [], [], _ => exact .none
    | [_], [_], .cons ht .nil => exact .some ht
    | _ :: _ :: _, _ :: _ :: _, hall => exact .some (equalEach_iff.2 hall)

end

/-! ## Names with their arguments -/

inductive Argument.Alike (R : SettingType → SettingType → Prop) : Argument → Argument → Prop where
  | type {t u : SettingType} : R t u → Alike R (.type t) (.type u)
  | dots : Alike R .dots .dots

section
variable {R : SettingType → SettingType → Prop} {registry other : Registry} {name : String}
  {as bs : List Argument} (hR : Congruence R)

theorem typesOf?_type (t : SettingType) (as : List Argument) :
    typesOf? (.type t :: as) = (typesOf? as).map (t :: ·) := by
  rw [typesOf?, List.mapM_cons, ← typesOf?]
  cases typesOf? as <;> rfl

theorem typesOf?_alike (h : List.Forall₂ (Argument.Alike R) as bs) :
    Option.Rel (List.Forall₂ R) (typesOf? as) (typesOf? bs) := by
  induction h with
  | nil => exact .some .nil
  | @cons a b as bs ha _ ih =>
    cases ha with
    | dots => exact .none
    | type ht =>
      rw [typesOf?_type, typesOf?_type]
      match typesOf? as, typesOf? bs, ih with
      | none, none, _ => exact .none
      | some ts, some us, .some hts => exact .some (.cons ht hts)

omit [Payloads] in
/-- A name that reaches the registry is not built in. -/
theorem not_builtIn (hscalar : scalarOf? (bareName name) = none)
    (hshape : shapeOf? (bareName name) = none)
    (hchoice : ¬ (bareName name = "Union" ∨ bareName name = "Optional")) : ¬ BuiltIn name := by
  rintro ⟨short, hshort, hfixed⟩
  rw [shortens_iff.1 hshort] at hscalar hshape hchoice
  cases hfixed with
  | scalar hs => simp [scalarOf?_eq_some_iff.2 hs] at hscalar
  | shape hs => simp [shapeOf?_eq_some_iff.2 hs] at hshape
  | union => simp at hchoice
  | optional => simp at hchoice

include hR

theorem unionOf_alike {ts us : List SettingType} (h : List.Forall₂ R ts us) :
    Agree R (unionOf ts) (unionOf us) := by
  unfold unionOf
  match join? ts, join? us, hR.join h with
  | none, none, _ => exact .error _
  | some _, some _, .some h => exact .ok h

theorem container_alike (shape : Shape) (h : List.Forall₂ (Argument.Alike R) as bs) :
    Agree R (container shape as) (container shape bs) := by
  cases h with
  | nil => cases shape <;> exact .error _
  | cons ha h =>
    cases h with
    | nil =>
      cases ha with
      | dots => cases shape <;> exact .error _
      | type ht =>
        cases shape with
        | list => exact .ok (hR.listOf ht)
        | tuple => exact .ok (hR.tupleOf ht)
        | set => exact .ok (hR.setOf ht)
        | map => exact .error _
    | cons hb h =>
      cases h with
      | nil =>
        cases ha with
        | dots => cases hb <;> cases shape <;> exact .error _
        | type ht =>
          cases hb with
          | dots =>
            cases shape with
            | tuple => exact .ok (hR.tupleOf ht)
            | _ => exact .error _
          | type hu =>
            cases shape with
            | map => exact .ok (hR.mapOf ht hu)
            | _ => exact .error _
      | cons _ _ => cases ha <;> cases hb <;> cases shape <;> exact .error _

theorem choiceOf_alike (h : List.Forall₂ (Argument.Alike R) as bs) :
    Agree R (choiceOf name as) (choiceOf name bs) := by
  unfold choiceOf
  match typesOf? as, typesOf? bs, typesOf?_alike h with
  | none, none, _ => exact .error _
  | some ts, some us, .some hts =>
    by_cases hname : name = "Optional"
    · subst hname
      match ts, us, hts with
      | [], [], _ => exact .error _
      | [_], [_], .cons ht .nil =>
        exact unionOf_alike hR (.cons ht (.cons (hR.scalar .absent) .nil))
      | _ :: _ :: _, _ :: _ :: _, _ => exact .error _
    · simpa [hname] using unionOf_alike hR hts

theorem resolve_alike {xs ys : Option (List Argument)}
    (hname : ¬ BuiltIn name → Option.Rel R (registry.resolve name) (other.resolve name))
    (h : Option.Rel (List.Forall₂ (Argument.Alike R)) xs ys) :
    Agree R (resolve registry name xs) (resolve other name ys) := by
  unfold resolve
  simp only
  split
  · cases h with
    | none => exact .ok (hR.scalar _)
    | some h => exact .error _
  · cases h with
    | none => exact .ok (hR.bare _)
    | some h => exact container_alike hR _ h
  · rename_i hscalar hshape
    split
    · cases h with
      | none => exact .error _
      | some h => exact choiceOf_alike hR h
    · rename_i hchoice
      match registry.resolve name, other.resolve name,
        hname (not_builtIn hscalar hshape hchoice) with
      | none, none, _ => exact .error _
      | some _, some _, .some ht =>
        cases h with
        | none => exact .ok ht
        | some h => exact .error _

end

/-! ## Readers -/

/-- Steps of two readers within some tokens: related results with the same tokens left, or the same
fault. -/
def StepsAlike {α : Type} (R : α → α → Prop) (all : List Placed) (x y : Step α) : Prop :=
  Agree (fun a b => R a.1 b.1 ∧ a.2 = b.2 ∧ a.2 <:+ all) x y

section
variable {α β : Type} {all r : List Placed}

omit [Payloads] in
theorem stepsAlike_ok {R : α → α → Prop} {a b : α} (h : R a b) (hr : r <:+ all) :
    StepsAlike R all (.ok (a, r)) (.ok (b, r)) := .ok ⟨h, rfl, hr⟩

omit [Payloads] in
theorem StepsAlike.next {P : α → α → Prop} {Q : β → β → Prop} {x y : Step α}
    {f g : α → List Placed → Step β} (h : StepsAlike P all x y)
    (hf : ∀ a b r, P a b → r <:+ all → StepsAlike Q all (f a r) (g b r)) :
    StepsAlike Q all (x.next f) (y.next g) := by
  cases h with
  | error e => exact .error e
  | @ok a b h =>
    obtain ⟨a, r⟩ := a
    obtain ⟨b, _⟩ := b
    obtain ⟨hab, rfl, hr⟩ := h
    exact hf a b r hab hr

end

/-- With the fuel the readers of two registries agree on all that follows of some tokens. -/
structure ReadsAlike (R : SettingType → SettingType → Prop) (registry other : Registry)
    (all : List Placed) (fuel : Nat) : Prop where
  union : ∀ {ts}, ts <:+ all → StepsAlike R all (union registry fuel ts) (union other fuel ts)
  moreTerms : ∀ {ts}, ts <:+ all →
    StepsAlike (List.Forall₂ R) all (moreTerms registry fuel ts) (moreTerms other fuel ts)
  term : ∀ {ts}, ts <:+ all → StepsAlike R all (term registry fuel ts) (term other fuel ts)
  arguments : ∀ {ts}, ts <:+ all → StepsAlike (List.Forall₂ (Argument.Alike R)) all
    (arguments registry fuel ts) (arguments other fuel ts)
  argument : ∀ {ts}, ts <:+ all →
    StepsAlike (Argument.Alike R) all (argument registry fuel ts) (argument other fuel ts)

section
variable {R : SettingType → SettingType → Prop} {registry other : Registry} {all ts : List Placed}
  {fuel : Nat}

theorem readsAlike_zero : ReadsAlike R registry other all 0 where
  union _ := .error _
  moreTerms h := stepsAlike_ok .nil h
  term _ := .error _
  arguments _ := .error _
  argument _ := .error _

theorem ReadsAlike.moreTerms_succ (h : ReadsAlike R registry other all fuel) (hts : ts <:+ all) :
    StepsAlike (List.Forall₂ R) all (SettingType.moreTerms registry (fuel + 1) ts)
      (SettingType.moreTerms other (fuel + 1) ts) := by
  unfold SettingType.moreTerms
  split
  · exact stepsAlike_ok .nil hts
  · rename_i r hr
    refine (h.term ((eat?_suffix hr).trans hts)).next fun t u r htu hr => ?_
    exact (h.moreTerms hr).next fun ts us r hts hr => stepsAlike_ok (.cons htu hts) hr

theorem ReadsAlike.arguments_succ (h : ReadsAlike R registry other all fuel) (hts : ts <:+ all) :
    StepsAlike (List.Forall₂ (Argument.Alike R)) all (SettingType.arguments registry (fuel + 1) ts)
      (SettingType.arguments other (fuel + 1) ts) := by
  unfold SettingType.arguments
  refine (h.argument hts).next fun a b r hab hr => ?_
  split
  · exact stepsAlike_ok (.cons hab .nil) ((eat?_suffix ‹_›).trans hr)
  · split
    · exact .error _
    · rename_i hcomma
      have hrest := (eat?_suffix hcomma).trans hr
      split
      · exact stepsAlike_ok (.cons hab .nil) ((eat?_suffix ‹_›).trans hrest)
      · exact (h.arguments hrest).next fun as bs r has hr => stepsAlike_ok (.cons hab has) hr

theorem ReadsAlike.argument_succ (h : ReadsAlike R registry other all fuel) (hts : ts <:+ all) :
    StepsAlike (Argument.Alike R) all (SettingType.argument registry (fuel + 1) ts)
      (SettingType.argument other (fuel + 1) ts) := by
  unfold SettingType.argument
  split
  · exact stepsAlike_ok .dots ((eat?_suffix ‹_›).trans hts)
  · exact (h.union hts).next fun t u r htu hr => stepsAlike_ok (.type htu) hr

variable (hR : Congruence R)

include hR

theorem finishUnion_alike {us ws : List SettingType} {r : List Placed} (h : List.Forall₂ R us ws)
    (hr : r <:+ all) : StepsAlike R all (finishUnion us r) (finishUnion ws r) := by
  unfold finishUnion
  match unionOf us, unionOf ws, unionOf_alike hR h with
  | .ok _, .ok _, .ok ht => exact stepsAlike_ok ht hr
  | .error _, .error _, .error _ => exact .error _

theorem ReadsAlike.union_succ (h : ReadsAlike R registry other all fuel) (hts : ts <:+ all) :
    StepsAlike R all (SettingType.union registry (fuel + 1) ts)
      (SettingType.union other (fuel + 1) ts) := by
  unfold SettingType.union
  refine (h.term hts).next fun t u r htu hr => ?_
  exact (h.moreTerms hr).next fun ts us r hts hr => finishUnion_alike hR (.cons htu hts) hr

theorem finish_alike {start r : List Placed} {name : String} {as bs : Option (List Argument)}
    (hname : ¬ BuiltIn name → Option.Rel R (registry.resolve name) (other.resolve name))
    (has : Option.Rel (List.Forall₂ (Argument.Alike R)) as bs) (hr : r <:+ all) :
    StepsAlike R all (finish registry start name as r) (finish other start name bs r) := by
  unfold finish
  match resolve registry name as, resolve other name bs, resolve_alike hR hname has with
  | .ok _, .ok _, .ok ht => exact stepsAlike_ok ht hr
  | .error _, .error _, .error _ => exact .error _

variable (hnames : ∀ p ∈ all, ∀ name, p.token = .name name → ¬ BuiltIn name →
  Option.Rel R (registry.resolve name) (other.resolve name))

include hnames

/-- A term asks the registry for its own name only. -/
theorem ReadsAlike.term_succ (h : ReadsAlike R registry other all fuel) (hts : ts <:+ all) :
    StepsAlike R all (SettingType.term registry (fuel + 1) ts)
      (SettingType.term other (fuel + 1) ts) := by
  unfold SettingType.term
  split
  · rename_i position name r
    have hname := hnames _ (hts.subset List.mem_cons_self) name rfl
    have hr : r <:+ all := (List.suffix_cons _ r).trans hts
    split
    · exact finish_alike hR hname .none hr
    · rename_i hopening
      refine (h.arguments ((eat?_suffix hopening).trans hr)).next fun as bs r has hr => ?_
      exact finish_alike hR hname (.some has) hr
  · exact .error _

/-- Readers of two registries agree if these resolve the names among the tokens alike. -/
theorem readsAlike (fuel : Nat) : ReadsAlike R registry other all fuel := by
  induction fuel with
  | zero => exact readsAlike_zero
  | succ fuel ih =>
    exact ⟨ih.union_succ hR, ih.moreTerms_succ, ih.term_succ hR hnames, ih.arguments_succ,
      ih.argument_succ⟩

theorem ofTokens_alike : Agree R (ofTokens registry all) (ofTokens other all) := by
  unfold ofTokens
  match union registry (fuelFor all) all, union other (fuelFor all) all,
    (readsAlike hR hnames (fuelFor all)).union List.suffix_rfl with
  | .error _, .error _, .error _ => exact .error _
  | .ok (_, r), .ok (_, _), .ok ⟨ht, hleft, _⟩ =>
    cases hleft
    cases r with
    | nil => exact .ok ht
    | cons p r => exact .error _

end

/-! ## Expressions -/

section
variable {R : SettingType → SettingType → Prop} {registry other : Registry} {expression : String}

omit [Payloads] in
theorem mentions_of_mem {ts : List Placed} (hts : ofText expression = .ok ts) {p : Placed}
    (hp : p ∈ ts) {name : String} (hname : p.token = .name name) : Mentions expression name :=
  ⟨ts.map Placed.token, exists_ofText_iff.1 ⟨ts, hts, rfl⟩, hname ▸ List.mem_map_of_mem hp⟩

theorem agree_parse (hR : Congruence R) (h : ∀ name, Mentions expression name → ¬ BuiltIn name →
      Option.Rel R (registry.resolve name) (other.resolve name)) :
    Agree R (parse registry expression) (parse other expression) := by
  unfold parse
  cases hts : ofText expression with
  | error stray => exact .error _
  | ok ts =>
    have hnames : ∀ p ∈ ts, ∀ name, p.token = .name name → ¬ BuiltIn name →
        Option.Rel R (registry.resolve name) (other.resolve name) :=
      fun p hp name hname => h name (mentions_of_mem hts hp hname)
    simp only
    match ofTokens registry ts, ofTokens other ts, ofTokens_alike hR hnames with
    | .ok _, .ok _, .ok ht => exact .ok ht
    | .error _, .error _, .error _ => exact .error _

omit [Payloads] in
theorem eq_of_agree {ε α : Type} {x y : Except ε α} (h : Agree (· = ·) x y) : x = y := by
  cases h with
  | ok h => rw [h]
  | error e => rfl

/-- A registration under a name leaves what is resolved under other names. -/
theorem resolve_addHook_of_ne {name capability asked : String} {hook : Hook} (h : name ≠ asked) :
    (registry.addHook name capability hook).resolve asked = registry.resolve asked := by
  unfold Registry.resolve Registry.constructor?
  rw [Registry.hook?_addHook, Registry.registered_addHook, if_neg h, if_neg fun hboth => h hboth.1]

theorem resolve_addConstructor_of_ne {name asked : String} {c : Constructor} (h : name ≠ asked) :
    (registry.addConstructor name c).resolve asked = registry.resolve asked := by
  unfold Registry.resolve
  rw [Registry.hook?_addConstructor, Registry.constructor?_addConstructor, if_neg h]

/-- Registries that resolve alike the names that an expression mentions and that are not built in
give it types that count as the same, or the same error; if they resolve these names to the same
types, they give it the same type. So no registration under a built-in name makes a difference to
any expression. -/
theorem parse_alike :
    (∀ (registry other : Registry) (expression : String),
      (∀ name, Mentions expression name → ¬ BuiltIn name →
        Option.Rel Same (registry.resolve name) (other.resolve name)) →
      Agree Same (parse registry expression) (parse other expression)) ∧
    (∀ (registry other : Registry) (expression : String),
      (∀ name, Mentions expression name → ¬ BuiltIn name →
        registry.resolve name = other.resolve name) →
      parse registry expression = parse other expression) ∧
    ∀ (registry : Registry) (name : String), BuiltIn name → ∀ expression,
      (∀ capability hook,
        parse (registry.addHook name capability hook) expression = parse registry expression) ∧
      ∀ c, parse (registry.addConstructor name c) expression = parse registry expression := by
  have hsame : ∀ (registry other : Registry) (expression : String),
      (∀ name, Mentions expression name → ¬ BuiltIn name →
        registry.resolve name = other.resolve name) →
      parse registry expression = parse other expression := by
    intro registry other expression h
    refine eq_of_agree (agree_parse congruence_eq fun name hname hfree => ?_)
    rw [h name hname hfree]
    exact optionRel_refl (fun _ => rfl) _
  refine ⟨fun _ _ _ h => agree_parse congruence_equal h, hsame,
    fun registry name hname expression => ⟨fun capability hook => ?_, fun c => ?_⟩⟩
  · refine hsame _ _ _ fun asked _ hfree => resolve_addHook_of_ne ?_
    rintro rfl
    exact hfree hname
  · refine hsame _ _ _ fun asked _ hfree => resolve_addConstructor_of_ne ?_
    rintro rfl
    exact hfree hname

end

end

open Payloads.Integers in
/-- Two registries have other constructors for the same type, and one has a hook under a built-in
name besides. -/
theorem parse_alike_samples :
    let registry := Registry.addConstructor {} "Port" Registry.port
    let other := (Registry.addConstructor {} "Port" ⟨"Port", fun _ => none⟩).addHook "int"
      "from_setting" Registry.evenHook
    Agree Same (parse registry "typing.Optional[Port | int]")
      (parse other "typing.Optional[Port | int]") ∧
    parse registry "list[Even]" = parse other "list[Even]" ∧
    parse registry "list[Even]" = .error ⟨.unknown "Even", 5, "list[Even]"⟩ ∧
    parse (other.addHook "typing.list" "from_setting" Registry.evenHook) "list[Port]" =
      parse other "list[Port]" := by
  intro registry other
  have hresolve : ∀ name, name ≠ "Port" → ¬ BuiltIn name →
      registry.resolve name = none ∧ other.resolve name = none := by
    intro name hport hfree
    have hint : "int" ≠ name := by
      rintro rfl
      exact hfree ⟨"int", .plain (by decide), .scalar .int⟩
    constructor
    · exact resolve_addConstructor_of_ne hport.symm
    · exact (resolve_addHook_of_ne hint).trans (resolve_addConstructor_of_ne hport.symm)
  have htokens : ofText "list[Even]" =
      .ok [⟨0, .name "list"⟩, ⟨4, .opening⟩, ⟨5, .name "Even"⟩, ⟨9, .closing⟩] := rfl
  have hunknown : parse registry "list[Even]" = .error ⟨.unknown "Even", 5, "list[Even]"⟩ := by
    rw [parse, htokens]
    rfl
  have hunmentioned : ¬ Mentions "list[Even]" "Port" := by
    rintro ⟨ts, hts, hport⟩
    obtain ⟨ps, hps, rfl⟩ := exists_ofText_iff.2 hts
    rw [htokens] at hps
    cases hps
    simp at hport
  obtain ⟨hsame, heq, hbuiltIn⟩ := parse_alike
  refine ⟨hsame registry other _ fun name _ hfree => ?_,
    heq registry other _ fun name hname hfree => ?_, hunknown,
    (hbuiltIn other "typing.list" ⟨"list", .qualified "list", .shape .list⟩ _).1 _ _⟩
  · by_cases hport : name = "Port"
    · subst hport
      exact .some rfl
    · rw [(hresolve name hport hfree).1, (hresolve name hport hfree).2]
      exact .none
  · have hport : name ≠ "Port" := fun hport => hunmentioned (hport ▸ hname)
    rw [(hresolve name hport hfree).1, (hresolve name hport hfree).2]

end TypedSettings.SettingType
