import TypedSettings.Proofs.Table
import TypedSettings.Proofs.Types.Registered
import TypedSettings.Types.Registration

/-!
# What a series of registrations comes to

A registration under a name replaces what an earlier one told about the same thing: its hook under
the same capability, or how its texts are built. So what a registry knows is the table of the hooks
that were exposed under its capability and the table of the builders (`hook?_registerEach`,
`constructor?_registerEach`), by induction on the series from what one registration does
(`hook?_register`, `build?_register`). Main statement: the type under a name is that of the last
hook exposed on it, failing that what the last builder builds, and no other registration has a say
(`resolve_registerEach`).
-/

namespace TypedSettings

namespace Registration

section
variable [Payloads]

/-- The name of a type and the hook that is exposed on it, if it is under the capability. -/
def exposedUnder? (capability : String) (x : Registration) : Option (String × Hook) :=
  x.exposed?.bind fun e => if e.1 = capability then some (x.name, e.2) else none

/-- The name of a type and how its texts are built, if that is told. -/
def builds? (x : Registration) : Option (String × (String → Option Value)) :=
  x.build?.map (x.name, ·)

/-- The hooks exposed under the capability in a series, by the names of their types. -/
def exposedUnder (capability : String) (xs : List Registration) : List (String × Hook) :=
  xs.filterMap (exposedUnder? capability)

/-- How the texts of types are built, by their names, in a series. -/
def builders (xs : List Registration) : List (String × (String → Option Value)) :=
  xs.filterMap builds?

section
variable {capability : String} {x : Registration}

theorem fst_of_exposedUnder? : ∀ e ∈ x.exposedUnder? capability, e.1 = x.name := by
  intro e he
  obtain ⟨_, _, he⟩ := Option.bind_eq_some_iff.1 he
  split at he
  · cases he
    rfl
  · cases he

theorem fst_of_builds? : ∀ e ∈ x.builds?, e.1 = x.name := by
  intro e he
  obtain ⟨_, _, rfl⟩ := Option.map_eq_some_iff.1 he
  rfl

/-- A registration that exposes a hook tells nothing about texts. -/
theorem builds?_eq_none (h : x.exposed? ≠ none) : x.builds? = none := by
  cases x with
  | hook => rfl
  | custom => rfl
  | built => exact absurd rfl h

end

end

end Registration

namespace Registry

open Registration

section
variable [Payloads]

/-! ## One registration -/

section
variable (r : Registry) (x : Registration) (name : String)

theorem capability_register : (r.register x).capability = r.capability := by
  cases x <;> rfl

/-- A registration exposes its hook under its name, and leaves all other hooks. -/
theorem hook?_register :
    (r.register x).hook? name =
      (x.exposedUnder? r.capability).elim (r.hook? name) fun e =>
        if e.1 = name then some e.2 else r.hook? name := by
  have expose : ∀ exposed capability hook,
      (r.addHook exposed capability hook).hook? name =
        (if capability = r.capability then some (exposed, hook) else none).elim (r.hook? name)
          fun e => if e.1 = name then some e.2 else r.hook? name := by
    intro exposed capability hook
    rw [hook?_addHook]
    by_cases hc : capability = r.capability <;> simp [hc]
  cases x with
  | hook exposed capability hook => exact expose exposed capability hook
  | custom t => exact expose t.typeName t.capability t.hook
  | built built c => exact hook?_addConstructor r built c name

/-- A registration that tells how texts are built tells it of its name, and none takes it back. -/
theorem build?_register :
    ((r.register x).registered name).build? =
      x.builds?.elim (r.registered name).build? fun e =>
        if e.1 = name then some e.2 else (r.registered name).build? := by
  have expose : ∀ exposed capability hook,
      ((r.addHook exposed capability hook).registered name).build? =
        (r.registered name).build? := by
    intro exposed capability hook
    rw [registered_addHook]
    split
    · rename_i hname
      rw [hname]
    · rfl
  cases x with
  | hook exposed capability hook => exact expose exposed capability hook
  | custom t => exact expose t.typeName t.capability t.hook
  | built built c =>
    rw [register, registered_addConstructor]
    by_cases hname : built = name <;> simp [builds?, build?, Registration.name, hname]

end

/-! ## A series of registrations -/

section
variable {α : Type} {capability : String} {told : Registration → Option (String × α)}

/-- What each registration replaces under one name is, after a series, the table of all that was
told. -/
theorem get_registerEach (get : Registry → String → Option α)
    (hstep : ∀ r x name, r.capability = capability → get (r.register x) name =
      (told x).elim (get r name) fun e => if e.1 = name then some e.2 else get r name)
    (xs : List Registration) (r : Registry) (t : Table α) (hr : r.capability = capability)
    (ht : ∀ name, get r name = t.find? name) (name : String) :
    get (r.registerEach xs) name =
      Table.find? ((xs.filterMap told).foldl (fun t e => Table.insert e.1 e.2 t) t) name := by
  induction xs generalizing r t with
  | nil => exact ht name
  | cons x xs ih =>
    have hx := hstep r x
    have hcapability := (capability_register r x).trans hr
    cases htold : told x with
    | none =>
      rw [List.filterMap_cons_none htold]
      refine ih (r.register x) t hcapability fun other => ?_
      rw [hx other hr, htold, ← ht other]
      rfl
    | some e =>
      rw [List.filterMap_cons_some htold]
      refine ih (r.register x) (t.insert e.1 e.2) hcapability fun other => ?_
      rw [hx other hr, htold, Table.find?_insert, ← ht other]
      rfl

end

section
variable (capability : String) (xs : List Registration) (name : String)

theorem hook?_registerEach :
    (registerEach ⟨capability, []⟩ xs).hook? name =
      (Table.ofEntries (exposedUnder capability xs)).find? name :=
  get_registerEach Registry.hook? (fun r x other hr => by rw [hook?_register, hr]) xs
    ⟨capability, []⟩ [] rfl (fun _ => rfl) name

theorem constructor?_registerEach :
    (registerEach ⟨capability, []⟩ xs).constructor? name =
      ((Table.ofEntries (builders xs)).find? name).map (⟨name, ·⟩) :=
  congrArg (Option.map (Constructor.mk name)) <|
    get_registerEach (fun r name => (r.registered name).build?)
      (fun r x other _ => build?_register r x other) xs ⟨capability, []⟩ [] rfl (fun _ => rfl) name

end

theorem resolve_eq_some_iff {r : Registry} {name : String} {t : SettingType} :
    r.resolve name = some t ↔
      (∃ hook, r.hook? name = some hook ∧ t = hook.type) ∨
      r.hook? name = none ∧ ∃ c, r.constructor? name = some c ∧ t = .built c := by
  unfold resolve
  cases r.hook? name with
  | some hook => simp [eq_comm]
  | none => simp [eq_comm]

/-- A registration among others that has no say in what is under a name: one under another name, a
hook under another capability, or a builder where a hook is exposed. -/
inductive NoSay (capability name : String) (xs : List Registration) (x : Registration) : Prop where
  | otherName : x.name ≠ name → NoSay capability name xs x
  | otherCapability {other : String} {hook : Hook} : x.exposed? = some (other, hook) →
      other ≠ capability → NoSay capability name xs x
  | behindHook : x.exposed? = none → (∃ e ∈ exposedUnder capability xs, e.1 = name) →
      NoSay capability name xs x

section
variable {capability name : String} {x : Registration} {before after : List Registration}

theorem NoSay.exposedUnder? (h : NoSay capability name (before ++ x :: after) x) :
    ∀ e ∈ x.exposedUnder? capability, e.1 ≠ name := by
  intro e he
  cases h with
  | otherName hname =>
    rw [fst_of_exposedUnder? e he]
    exact hname
  | otherCapability hx hother => simp [Registration.exposedUnder?, hx, hother] at he
  | behindHook hx _ => simp [Registration.exposedUnder?, hx] at he

/-- A hook is found whether or not a registration without a say is made. -/
theorem NoSay.hook?_eq (h : NoSay capability name (before ++ x :: after) x) :
    (registerEach ⟨capability, []⟩ (before ++ x :: after)).hook? name =
      (registerEach ⟨capability, []⟩ (before ++ after)).hook? name := by
  rw [hook?_registerEach, hook?_registerEach]
  exact Table.find?_ofEntries_filterMap h.exposedUnder? before after

/-- So is a constructor, where no hook is. -/
theorem NoSay.constructor?_eq (h : NoSay capability name (before ++ x :: after) x)
    (hnone : ∀ e ∈ exposedUnder capability (before ++ x :: after), e.1 ≠ name) :
    (registerEach ⟨capability, []⟩ (before ++ x :: after)).constructor? name =
      (registerEach ⟨capability, []⟩ (before ++ after)).constructor? name := by
  have hbuilds : ∀ e ∈ x.builds?, e.1 ≠ name := by
    intro e he
    cases h with
    | otherName hname =>
      rw [fst_of_builds? e he]
      exact hname
    | otherCapability hx _ =>
      rw [builds?_eq_none (by simp [hx])] at he
      cases he
    | behindHook _ hhook =>
      obtain ⟨e', he', hname⟩ := hhook
      exact absurd hname (hnone e' he')
  rw [constructor?_registerEach, constructor?_registerEach]
  exact congrArg _ (Table.find?_ofEntries_filterMap hbuilds before after)

theorem NoSay.resolve_eq (h : NoSay capability name (before ++ x :: after) x) :
    (registerEach ⟨capability, []⟩ (before ++ x :: after)).resolve name =
      (registerEach ⟨capability, []⟩ (before ++ after)).resolve name := by
  unfold resolve
  rw [← h.hook?_eq]
  cases hhook : (registerEach ⟨capability, []⟩ (before ++ x :: after)).hook? name with
  | some hook => rfl
  | none =>
    rw [hook?_registerEach, Table.find?_ofEntries_eq_none_iff] at hhook
    rw [h.constructor?_eq hhook]

end

/-- Whatever a registry has been told, and under whatever capability: a name stands for the type of
the hook exposed on it last under the capability, failing any such hook for the type that the last
builder under it builds, and failing that for nothing. It counts as hooked exactly if there is such
a hook. So what is told of other names, of hooks under other capabilities, and of texts before or
after a hook does not matter. -/
theorem resolve_registerEach (capability : String) (xs : List Registration) (name : String) :
    let r := registerEach ⟨capability, []⟩ xs
    (∀ t, r.resolve name = some t ↔
      (∃ hook, IsLastEntry (exposedUnder capability xs) name hook ∧ t = hook.type) ∨
      (∀ e ∈ exposedUnder capability xs, e.1 ≠ name) ∧
        ∃ build, IsLastEntry (builders xs) name build ∧ t = .built ⟨name, build⟩) ∧
    (r.isHooked name = true ↔ ∃ e ∈ exposedUnder capability xs, e.1 = name) ∧
    ∀ before x after, xs = before ++ x :: after → NoSay capability name xs x →
      r.resolve name = (registerEach ⟨capability, []⟩ (before ++ after)).resolve name := by
  intro r
  refine ⟨fun t => ?_, ?_, ?_⟩
  · rw [resolve_eq_some_iff, hook?_registerEach, constructor?_registerEach,
      Table.find?_ofEntries_eq_none_iff]
    simp only [Table.find?_ofEntries, Option.map_eq_some_iff, exists_exists_and_eq_and]
  · rw [isHooked, hook?_registerEach, Option.isSome_iff_exists]
    simp only [Table.find?_ofEntries, exists_isLastEntry_iff]
  · rintro before x after rfl hx
    exact hx.resolve_eq

def refusing : CustomType := ⟨"Port", defaultCapability, .scalar .int, fun _ => .error "refused"⟩

end

open Payloads.Integers in
/-- The name has a hook, then a builder, a hook under another capability, and a hook again. -/
theorem resolve_registerEach_port :
    let before := [Registration.hook "Port" "from_setting" evenHook, .built "Port" port]
    let x := Registration.hook "Port" "custom_convert" evenHook
    let xs := before ++ x :: [.custom refusing]
    NoSay "from_setting" "Port" xs x ∧
    (registerEach ⟨"from_setting", []⟩ xs).resolve "Port" =
      (registerEach ⟨"from_setting", []⟩ (before ++ [.custom refusing])).resolve "Port" ∧
    (registerEach ⟨"from_setting", []⟩ xs).resolve "Port" = some refusing.hook.type ∧
    (registerEach ⟨"from_setting", []⟩ xs).isHooked "Port" = true := by
  intro before x xs
  have hx : NoSay "from_setting" "Port" xs x := .otherCapability rfl (by decide)
  have hexposed : exposedUnder "from_setting" xs = [("Port", evenHook), ("Port", refusing.hook)] :=
    rfl
  obtain ⟨hresolve, hhooked, hnoSay⟩ := resolve_registerEach "from_setting" xs "Port"
  refine ⟨hx, hnoSay before x _ rfl hx, (hresolve _).2 (.inl ⟨_, ?_, rfl⟩), hhooked.2 ?_⟩
  · exact ⟨[("Port", evenHook)], [], hexposed, by simp⟩
  · exact ⟨("Port", evenHook), by simp [hexposed], rfl⟩

end Registry

end TypedSettings
