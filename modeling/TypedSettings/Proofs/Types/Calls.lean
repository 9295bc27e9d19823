import Mathlib.Logic.Relation
import TypedSettings.Proofs.Steps
import TypedSettings.Proofs.Types.Places
import TypedSettings.Proofs.Types.Recognition

/-!
# Calls of the readers of type expressions

The readers of tokens stay inside the tokens that they are given, and what a fault names stands at
its place (`ReadsInside`, by induction on the fuel): types that were read have a join, so that a
union without alternatives is never a fault (`exists_unionOf_terms`, `haveJoins_of_arguments`). The
readers call one another with fuel for all the tokens that are left (`Calls.ready`), further on
among the tokens of the expression (`Calls.place_suffix`), so that every call starts and ends at a
token or at their end (`Call.movesOn`). No place where a part is read is left out: readers that
answer there as the readers do may answer anything elsewhere (`outer_answer`). Main statement: every
call that is reached is at a token of the expression or at its end, and an error keeps the
expression and points at a character, a token or the end (`parse_points`).
-/

namespace TypedSettings.SettingType

open Token

section
variable [Payloads]

variable {registry : Registry}

/-! ## Joins that exist -/

section
variable {fuel : Nat} {ts r a : List Placed}

/-- Terms that were read have a join. -/
theorem exists_unionOf_terms {t : SettingType} {us : List SettingType}
    (ht : term registry fuel ts = .ok (t, a)) (hus : moreTerms registry fuel a = .ok (us, r)) :
    ∃ u, unionOf (t :: us) = .ok u := by
  obtain ⟨k, -, hterms⟩ := (readsFormed registry fuel).terms ht hus
  exact ⟨_, unionOf_of_normal (List.cons_ne_nil t us) (hterms.normal fun _ _ _ _ => trivial)⟩

/-- There are arguments, and the types among them are in normal form. -/
structure HaveJoins (as : List Argument) : Prop where
  ne_nil : as ≠ []
  normal : ∀ u, .type u ∈ as → Normal (fun _ => True) u

theorem Forms.arguments_ne_nil {k : List Token} {as : List Argument}
    (h : Forms registry k (.arguments as)) : as ≠ [] := by
  cases h <;> simp

/-- Types that were read as arguments have joins. -/
theorem haveJoins_of_arguments {as : List Argument}
    (h : arguments registry fuel ts = .ok (as, r)) : HaveJoins as := by
  obtain ⟨b, -, k, -, hforms⟩ := (readsFormed registry fuel).arguments h
  refine ⟨hforms.arguments_ne_nil, fun u hu => ?_⟩
  exact hforms.normal (fun _ _ _ _ => trivial) u (List.mem_filterMap.2 ⟨_, hu, rfl⟩)

end

/-! ## What faults name -/

/-- The cause is found only when a name and its arguments are resolved. -/
def Cause.OfName : Cause → Prop
  | stray _ | unexpected _ | expectedName _ | expectedSeparator _ | emptyUnion => False
  | _ => True

/-- What a fault names stands at its place: the token that was found, or a name. A union without
alternatives is no fault that is found. -/
def Shows (f : Fault Placed Cause) : Prop :=
  match f.cause with
  | .unexpected found | .expectedName found | .expectedSeparator found => found = first? f.left
  | cause => cause.OfName ∧ ∃ name, first? f.left = some (.name name)

omit [Payloads] in
theorem Cause.OfName.shows {cause : Cause} (h : cause.OfName) {left : List Placed} {name : String}
    (hname : first? left = some (.name name)) : Shows ⟨cause, left⟩ := by
  cases cause <;> first | exact h.elim | exact ⟨h, name, hname⟩

omit [Payloads] in
theorem Shows.cause_ne {f : Fault Placed Cause} (h : Shows f) : f.cause ≠ .emptyUnion := by
  intro hcause
  rw [Shows, hcause] at h
  exact h.1

theorem ofName_of_container {shape : Shape} {as : List Argument} {cause : Cause}
    (h : container shape as = .error cause) : cause.OfName := by
  unfold container at h
  split at h <;> cases h <;> trivial

theorem ofName_of_choiceOf {name : String} {as : List Argument} {cause : Cause}
    (has : HaveJoins as) (h : choiceOf name as = .error cause) : cause.OfName := by
  have joins : ∀ us, us ≠ [] → (∀ u ∈ us, Normal (fun _ => True) u) →
      unionOf us ≠ .error cause := by
    intro us hne hus hunion
    rw [unionOf_of_normal hne hus] at hunion
    cases hunion
  unfold choiceOf at h
  split at h
  · cases h
    trivial
  · rename_i u hu
    obtain rfl := typesOf?_eq_some_iff.1 hu
    have hnormal := normal_optional (has.normal u (by simp))
    exact absurd h (joins _ (List.cons_ne_nil u _) hnormal)
  · cases h
    trivial
  · rename_i us hus _ _
    obtain rfl := typesOf?_eq_some_iff.1 hus
    have hne : us ≠ [] := fun hnil => has.ne_nil (by rw [hnil, List.map_nil])
    exact absurd h (joins us hne fun u hu => has.normal u (List.mem_map_of_mem hu))

/-- Resolving a name has causes of its own. -/
theorem ofName_of_resolve {name : String} {as : Option (List Argument)} {cause : Cause}
    (has : ∀ bs ∈ as, HaveJoins bs) (h : resolve registry name as = .error cause) :
    cause.OfName := by
  unfold resolve at h
  dsimp only at h
  split at h
  · split at h
    · cases h
      trivial
    · cases h
  · split at h
    · cases h
    · exact ofName_of_container h
  · split at h
    · split at h
      · cases h
        trivial
      · exact ofName_of_choiceOf (has _ rfl) h
    · split at h
      · cases h
        trivial
      · split at h
        · cases h
          trivial
        · cases h

/-! ## Readers that stay inside -/

/-- With the fuel every reader stays inside the tokens and takes at least one of them, further terms
apart. -/
structure ReadsInside (registry : Registry) (fuel : Nat) : Prop where
  union : ∀ ts, (union registry fuel ts).AdvancesIn Shows ts
  moreTerms : ∀ ts, (moreTerms registry fuel ts).StaysIn Shows ts
  term : ∀ ts, (term registry fuel ts).AdvancesIn Shows ts
  arguments : ∀ ts, (arguments registry fuel ts).AdvancesIn Shows ts
  argument : ∀ ts, (argument registry fuel ts).AdvancesIn Shows ts

section
variable {fuel : Nat} {ts r a : List Placed} {x : Token}

theorem readsInside_zero : ReadsInside registry 0 where
  union _ := ⟨List.suffix_rfl, rfl⟩
  moreTerms _ := List.suffix_rfl
  term _ := ⟨List.suffix_rfl, rfl⟩
  arguments _ := ⟨List.suffix_rfl, rfl⟩
  argument _ := ⟨List.suffix_rfl, rfl⟩

theorem ReadsInside.union_succ (h : ReadsInside registry fuel) (ts : List Placed) :
    (SettingType.union registry (fuel + 1) ts).AdvancesIn Shows ts := by
  refine (h.term ts).next_of_ok fun t a ht => ?_
  refine Step.StaysIn.advances ?_ ((h.term ts).staysIn.suffix ht) ((h.term ts).length_lt ht)
  refine (h.moreTerms a).next_of_ok fun us r hus => ?_
  obtain ⟨u, hu⟩ := exists_unionOf_terms ht hus
  rw [finishUnion, hu]
  exact (h.moreTerms a).suffix hus

theorem ReadsInside.moreTerms_succ (h : ReadsInside registry fuel) (ts : List Placed) :
    (SettingType.moreTerms registry (fuel + 1) ts).StaysIn Shows ts := by
  unfold SettingType.moreTerms
  split
  · exact List.suffix_rfl
  · refine ((h.term _).staysIn.mono (eat?_suffix ‹_›)).next fun t a ha => ?_
    exact ((h.moreTerms a).mono ha).next fun _ _ hr => hr

theorem finish_advancesIn {position : Nat} {name : String} {as : Option (List Argument)}
    (has : ∀ bs ∈ as, HaveJoins bs) (hr : r <:+ ⟨position, .name name⟩ :: a)
    (hlt : r.length < a.length + 1) :
    (finish registry (⟨position, .name name⟩ :: a) name as r).AdvancesIn Shows
      (⟨position, .name name⟩ :: a) := by
  unfold finish
  split
  · exact ⟨hr, hlt⟩
  · exact ⟨List.suffix_rfl, (ofName_of_resolve has ‹_›).shows rfl⟩

theorem ReadsInside.term_succ (h : ReadsInside registry fuel) (ts : List Placed) :
    (SettingType.term registry (fuel + 1) ts).AdvancesIn Shows ts := by
  unfold SettingType.term
  split
  · rename_i position name r
    split
    · exact finish_advancesIn (fun _ hnone => absurd hnone (Option.not_mem_none _))
        (List.suffix_cons ..) (Nat.lt_succ_self _)
    · rename_i a ha
      have hadvances := (h.arguments a).mono
        ((eat?_suffix ha).trans (List.suffix_cons ⟨position, .name name⟩ r))
      refine hadvances.next_of_ok fun as b has => ?_
      refine finish_advancesIn (fun bs hbs => ?_) (hadvances.staysIn.suffix has)
        (hadvances.length_lt has)
      cases hbs
      exact haveJoins_of_arguments has
  · exact ⟨List.suffix_rfl, rfl⟩

theorem ReadsInside.arguments_succ (h : ReadsInside registry fuel) (ts : List Placed) :
    (SettingType.arguments registry (fuel + 1) ts).AdvancesIn Shows ts := by
  rw [SettingType.arguments]
  refine (h.argument ts).next fun x a ha hlt => ?_
  refine Step.StaysIn.advances ?_ ha hlt
  split
  · exact eat?_suffix ‹_›
  split
  · exact ⟨List.suffix_rfl, rfl⟩
  · rename_i b hcomma
    refine Step.StaysIn.mono ?_ (eat?_suffix hcomma)
    split
    · exact eat?_suffix ‹_›
    · exact (h.arguments b).staysIn.next fun _ _ hr => hr

theorem ReadsInside.argument_succ (h : ReadsInside registry fuel) (ts : List Placed) :
    (SettingType.argument registry (fuel + 1) ts).AdvancesIn Shows ts := by
  rw [SettingType.argument]
  split
  · rename_i r hdots
    exact ⟨eat?_suffix hdots, by rw [length_of_eat? hdots]; exact Nat.lt_succ_self _⟩
  · exact (h.union ts).next fun t a ha hlt => ⟨ha, hlt⟩

end

theorem readsInside (registry : Registry) (fuel : Nat) : ReadsInside registry fuel := by
  induction fuel with
  | zero => exact readsInside_zero
  | succ fuel ih =>
    exact ⟨ih.union_succ, ih.moreTerms_succ, ih.term_succ, ih.arguments_succ, ih.argument_succ⟩

/-! ## Calls -/

/-- A call of a reader, with its fuel and the tokens that are left where it starts. -/
inductive Call where
  | union (fuel : Nat) (ts : List Placed)
  | moreTerms (fuel : Nat) (ts : List Placed)
  | term (fuel : Nat) (ts : List Placed)
  | arguments (fuel : Nat) (ts : List Placed)
  | argument (fuel : Nat) (ts : List Placed)

/-- The first call leads to the second, given the answers of those that it leads to before. -/
inductive Calls (registry : Registry) : Call → Call → Prop where
  | firstTerm {fuel : Nat} {ts : List Placed} :
      Calls registry (.union (fuel + 1) ts) (.term fuel ts)
  | furtherTerms {fuel : Nat} {ts a : List Placed} {t : SettingType} :
      term registry fuel ts = .ok (t, a) →
      Calls registry (.union (fuel + 1) ts) (.moreTerms fuel a)
  | nextTerm {fuel : Nat} {ts r : List Placed} : eat? .bar ts = some r →
      Calls registry (.moreTerms (fuel + 1) ts) (.term fuel r)
  | moreTerms {fuel : Nat} {ts r a : List Placed} {t : SettingType} : eat? .bar ts = some r →
      term registry fuel r = .ok (t, a) →
      Calls registry (.moreTerms (fuel + 1) ts) (.moreTerms fuel a)
  | arguments {fuel position : Nat} {name : String} {r a : List Placed} :
      eat? .opening r = some a →
      Calls registry (.term (fuel + 1) (⟨position, .name name⟩ :: r)) (.arguments fuel a)
  | firstArgument {fuel : Nat} {ts : List Placed} :
      Calls registry (.arguments (fuel + 1) ts) (.argument fuel ts)
  | moreArguments {fuel : Nat} {ts a r : List Placed} {x : Argument} :
      argument registry fuel ts = .ok (x, a) → eat? .closing a = none → eat? .comma a = some r →
      eat? .closing r = none → Calls registry (.arguments (fuel + 1) ts) (.arguments fuel r)
  | type {fuel : Nat} {ts : List Placed} : eat? .dots ts = none →
      Calls registry (.argument (fuel + 1) ts) (.union fuel ts)

namespace Call

/-- The tokens that are left where the call starts. -/
def place : Call → List Placed
  | union _ ts | moreTerms _ ts | term _ ts | arguments _ ts | argument _ ts => ts

/-- There is fuel for all the tokens that are left, and for the calls down to the next term. -/
def Ready : Call → Prop
  | union fuel ts => 2 * ts.length + 2 ≤ fuel
  | moreTerms fuel ts => 2 * ts.length + 1 ≤ fuel
  | term fuel ts => 2 * ts.length + 1 ≤ fuel
  | arguments fuel ts => 2 * ts.length + 4 ≤ fuel
  | argument fuel ts => 2 * ts.length + 3 ≤ fuel

/-- What the call answers: the reader stays inside the tokens that are left, what a fault names
stands at its place, and further terms apart it takes at least one token. -/
def Progresses (registry : Registry) : Call → Prop
  | union fuel ts => (SettingType.union registry fuel ts).AdvancesIn Shows ts
  | moreTerms fuel ts => (SettingType.moreTerms registry fuel ts).StaysIn Shows ts
  | term fuel ts => (SettingType.term registry fuel ts).AdvancesIn Shows ts
  | arguments fuel ts => (SettingType.arguments registry fuel ts).AdvancesIn Shows ts
  | argument fuel ts => (SettingType.argument registry fuel ts).AdvancesIn Shows ts

/-- The tokens that are left behind what the call reads, if it reads something. -/
def rest? (registry : Registry) : Call → Option (List Placed)
  | union fuel ts => (SettingType.union registry fuel ts).rest?
  | moreTerms fuel ts => (SettingType.moreTerms registry fuel ts).rest?
  | term fuel ts => (SettingType.term registry fuel ts).rest?
  | arguments fuel ts => (SettingType.arguments registry fuel ts).rest?
  | argument fuel ts => (SettingType.argument registry fuel ts).rest?

/-- All but further terms take at least one token. -/
def Takes : Call → Prop
  | moreTerms _ _ => False
  | _ => True

/-- The call starts and ends at tokens or at their end. Ahead of it are the tokens that stand there,
and it ends no earlier than it starts, and later if it takes anything. -/
def MovesOn (registry : Registry) (ps : List Placed) (call : Call) : Prop :=
  ∃ cursor, LeftAt ps cursor call.place ∧ ∀ r ∈ call.rest? registry, ∃ ending,
    LeftAt ps ending r ∧ cursor ≤ ending ∧ (call.Takes → cursor < ending)

theorem progresses (registry : Registry) (c : Call) : c.Progresses registry := by
  cases c with
  | union fuel ts => exact (readsInside registry fuel).union ts
  | moreTerms fuel ts => exact (readsInside registry fuel).moreTerms ts
  | term fuel ts => exact (readsInside registry fuel).term ts
  | arguments fuel ts => exact (readsInside registry fuel).arguments ts
  | argument fuel ts => exact (readsInside registry fuel).argument ts

theorem of_mem_rest? {c : Call} {r : List Placed} (hr : r ∈ c.rest? registry) :
    r <:+ c.place ∧ (c.Takes → r.length < c.place.length) := by
  have hprogresses := c.progresses registry
  cases c with
  | moreTerms fuel ts => exact ⟨Step.StaysIn.of_mem_rest? hprogresses hr, False.elim⟩
  | _ =>
    obtain ⟨hsuffix, hlt⟩ := Step.AdvancesIn.of_mem_rest? hprogresses hr
    exact ⟨hsuffix, fun _ => hlt⟩

theorem movesOn {ps : List Placed} {c : Call} (hplace : c.place <:+ ps) : c.MovesOn registry ps := by
  refine ⟨_, leftAt_of_suffix hplace, fun r hr => ?_⟩
  obtain ⟨hsuffix, hlt⟩ := of_mem_rest? hr
  obtain ⟨ending, hleft, hle, hends⟩ := exists_leftAt hplace hsuffix
  exact ⟨ending, hleft, hle, fun htakes => hends (hlt htakes)⟩

end Call

section
variable {c d : Call}

/-- A call leads to calls further on. -/
theorem Calls.place_suffix (h : Calls registry c d) : d.place <:+ c.place := by
  cases h with
  | firstTerm => exact List.suffix_rfl
  | furtherTerms ht => exact ((readsInside registry _).term _).staysIn.suffix ht
  | nextTerm hbar => exact eat?_suffix hbar
  | moreTerms hbar ht =>
    exact (((readsInside registry _).term _).staysIn.suffix ht).trans (eat?_suffix hbar)
  | arguments hopening => exact (eat?_suffix hopening).trans (List.suffix_cons ..)
  | firstArgument => exact List.suffix_rfl
  | moreArguments hx _ hcomma _ =>
    exact (eat?_suffix hcomma).trans (((readsInside registry _).argument _).staysIn.suffix hx)
  | type _ => exact List.suffix_rfl

/-- A call leads to calls with fuel for what is left there. -/
theorem Calls.ready (h : Calls registry c d) (hc : c.Ready) : d.Ready := by
  cases h with
  | firstTerm => exact Nat.le_of_succ_le_succ hc
  | furtherTerms ht =>
    have hlt := ((readsInside registry _).term _).length_lt ht
    simp only [Call.Ready] at hc ⊢
    omega
  | nextTerm hbar =>
    have hlength := length_of_eat? hbar
    simp only [Call.Ready] at hc ⊢
    omega
  | moreTerms hbar ht =>
    have hlength := length_of_eat? hbar
    have hlt := ((readsInside registry _).term _).length_lt ht
    simp only [Call.Ready] at hc ⊢
    omega
  | arguments hopening =>
    have hlength := length_of_eat? hopening
    simp only [Call.Ready, List.length_cons] at hc ⊢
    omega
  | firstArgument => exact Nat.le_of_succ_le_succ hc
  | moreArguments hx _ hcomma _ =>
    have hlength := length_of_eat? hcomma
    have hlt := ((readsInside registry _).argument _).length_lt hx
    simp only [Call.Ready] at hc ⊢
    omega
  | type _ => exact Nat.le_of_succ_le_succ hc

/-! ## No call is left out -/

/-- Readers of the parts of an expression. -/
structure Readers where
  union : List Placed → Step SettingType
  moreTerms : List Placed → Step (List SettingType)
  term : List Placed → Step SettingType
  arguments : List Placed → Step (List Argument)
  argument : List Placed → Step Argument

/-- The readers with the fuel. -/
def readers (registry : Registry) (fuel : Nat) : Readers where
  union := union registry fuel
  moreTerms := moreTerms registry fuel
  term := term registry fuel
  arguments := arguments registry fuel
  argument := argument registry fuel

/-- The readers that leave the parts of what they read to the inner readers. -/
def Readers.outer (registry : Registry) (inner : Readers) : Readers where
  union ts :=
    (inner.term ts).next fun t r =>
    (inner.moreTerms r).next fun us r => finishUnion (t :: us) r
  moreTerms ts :=
    match eat? .bar ts with
    | none => .ok ([], ts)
    | some r =>
      (inner.term r).next fun t r =>
      (inner.moreTerms r).next fun us r => .ok (t :: us, r)
  term ts :=
    match ts with
    | ⟨_, .name asked⟩ :: r =>
      match eat? .opening r with
      | none => finish registry ts asked none r
      | some r => (inner.arguments r).next fun as r => finish registry ts asked (some as) r
    | _ => .error ⟨.expectedName (first? ts), ts⟩
  arguments ts :=
    (inner.argument ts).next fun a r =>
      match eat? .closing r with
      | some r => .ok ([a], r)
      | none =>
        match eat? .comma r with
        | none => .error ⟨.expectedSeparator (first? r), r⟩
        | some r =>
          match eat? .closing r with
          | some r => .ok ([a], r)
          | none => (inner.arguments r).next fun as r => .ok (a :: as, r)
  argument ts :=
    match eat? .dots ts with
    | some r => .ok (.dots, r)
    | none => (inner.union ts).next fun t r => .ok (.type t, r)

/-- The readers answer the call as the ones with its fuel do. -/
def Readers.Answer (registry : Registry) (given : Readers) : Call → Prop
  | .union fuel ts => given.union ts = (readers registry fuel).union ts
  | .moreTerms fuel ts => given.moreTerms ts = (readers registry fuel).moreTerms ts
  | .term fuel ts => given.term ts = (readers registry fuel).term ts
  | .arguments fuel ts => given.arguments ts = (readers registry fuel).arguments ts
  | .argument fuel ts => given.argument ts = (readers registry fuel).argument ts

theorem readers_succ (registry : Registry) (fuel : Nat) :
    readers registry (fuel + 1) = (readers registry fuel).outer registry := by
  rfl

section
variable {fuel : Nat} {ts : List Placed} {inner : Readers}

theorem outer_union (h : ∀ d, Calls registry (.union (fuel + 1) ts) d → inner.Answer registry d) :
    (inner.outer registry).Answer registry (.union (fuel + 1) ts) := by
  have hterm : inner.term ts = term registry fuel ts := h _ .firstTerm
  rw [Readers.Answer, readers_succ]
  simp only [Readers.outer, hterm]
  refine Step.next_congr fun t a ht => ?_
  have hmore : inner.moreTerms a = moreTerms registry fuel a := h _ (.furtherTerms ht)
  rw [hmore]
  rfl

theorem outer_moreTerms
    (h : ∀ d, Calls registry (.moreTerms (fuel + 1) ts) d → inner.Answer registry d) :
    (inner.outer registry).Answer registry (.moreTerms (fuel + 1) ts) := by
  rw [Readers.Answer, readers_succ]
  simp only [Readers.outer]
  cases hbar : eat? .bar ts with
  | none => rfl
  | some r =>
    have hterm : inner.term r = term registry fuel r := h _ (.nextTerm hbar)
    simp only [hterm]
    refine Step.next_congr fun t a ht => ?_
    have hmore : inner.moreTerms a = moreTerms registry fuel a := h _ (.moreTerms hbar ht)
    rw [hmore]
    rfl

theorem outer_term (h : ∀ d, Calls registry (.term (fuel + 1) ts) d → inner.Answer registry d) :
    (inner.outer registry).Answer registry (.term (fuel + 1) ts) := by
  rw [Readers.Answer, readers_succ]
  simp only [Readers.outer]
  split
  · rename_i position asked r
    cases hopening : eat? .opening r with
    | none => rfl
    | some a =>
      have harguments : inner.arguments a = arguments registry fuel a := h _ (.arguments hopening)
      simp only [harguments]
      rfl
  · rfl

theorem outer_arguments
    (h : ∀ d, Calls registry (.arguments (fuel + 1) ts) d → inner.Answer registry d) :
    (inner.outer registry).Answer registry (.arguments (fuel + 1) ts) := by
  have hargument : inner.argument ts = argument registry fuel ts := h _ .firstArgument
  rw [Readers.Answer, readers_succ]
  simp only [Readers.outer, hargument]
  refine Step.next_congr fun x a hx => ?_
  cases hclosing : eat? .closing a with
  | some r => rfl
  | none =>
    cases hcomma : eat? .comma a with
    | none => rfl
    | some r =>
      cases hagain : eat? .closing r with
      | some b => simp only [hagain]
      | none =>
        have hmore : inner.arguments r = arguments registry fuel r :=
          h _ (.moreArguments hx hclosing hcomma hagain)
        simp only [hagain, hmore]
        rfl

theorem outer_argument
    (h : ∀ d, Calls registry (.argument (fuel + 1) ts) d → inner.Answer registry d) :
    (inner.outer registry).Answer registry (.argument (fuel + 1) ts) := by
  rw [Readers.Answer, readers_succ]
  simp only [Readers.outer]
  cases hdots : eat? .dots ts with
  | some r => rfl
  | none =>
    have hunion : inner.union ts = union registry fuel ts := h _ (.type hdots)
    simp only [hunion]
    rfl

end

/-- Whatever reads the parts of what a call reads, its answers count only where calls lead. -/
theorem outer_answer {inner : Readers} {c : Call} (hc : c.Ready)
    (h : ∀ d, Calls registry c d → inner.Answer registry d) :
    (inner.outer registry).Answer registry c := by
  have hfuel : ∀ {k fuel : Nat}, k + 1 ≤ fuel → ∃ n, fuel = n + 1 := fun hk =>
    Nat.exists_eq_add_one.2 (Nat.lt_of_lt_of_le (Nat.succ_pos _) hk)
  cases c with
  | union fuel ts =>
    obtain ⟨fuel, rfl⟩ := hfuel hc
    exact outer_union h
  | moreTerms fuel ts =>
    obtain ⟨fuel, rfl⟩ := hfuel hc
    exact outer_moreTerms h
  | term fuel ts =>
    obtain ⟨fuel, rfl⟩ := hfuel hc
    exact outer_term h
  | arguments fuel ts =>
    obtain ⟨fuel, rfl⟩ := hfuel hc
    exact outer_arguments h
  | argument fuel ts =>
    obtain ⟨fuel, rfl⟩ := hfuel hc
    exact outer_argument h

/-- The calls that reading tokens comes to. -/
def Reached (registry : Registry) (ps : List Placed) (call : Call) : Prop :=
  Relation.ReflTransGen (Calls registry) (.union (fuelFor ps) ps) call

/-- Every call that is reached is at a token or at their end, with fuel for the tokens left. -/
theorem Reached.place_and_ready {ps : List Placed} (h : Reached registry ps c) :
    c.place <:+ ps ∧ c.Ready := by
  induction h with
  | refl =>
    refine ⟨List.suffix_rfl, ?_⟩
    simp only [Call.Ready, fuelFor]
    omega
  | tail _ hcalls ih => exact ⟨hcalls.place_suffix.trans ih.1, hcalls.ready ih.2⟩

end

/-! ## Errors -/

/-- The error points at a character that starts no token, at a token that it names, or at the end of
the expression. -/
inductive Points (expression : String) (e : Error) : Prop where
  | character {c : Char} {rest : String} : e.cause = .stray c →
      StandsAt expression e.position (String.singleton c ++ rest) → Points expression e
  | token {ps left : List Placed} {p : Placed} {rest : String} : ofText expression = .ok ps →
      p :: left <:+ ps → Shows ⟨e.cause, p :: left⟩ → p.position = e.position →
      StandsAt expression e.position (p.token.text ++ rest) → Points expression e
  | ending : Shows ⟨e.cause, []⟩ → StandsAt expression e.position "" → Points expression e

omit [Payloads] in
theorem Points.le {expression : String} {e : Error} (h : Points expression e) :
    e.position ≤ expression.utf8ByteSize := by
  cases h with
  | character _ h => exact h.le
  | token _ _ _ _ h => exact h.le
  | ending _ h => exact h.le

omit [Payloads] in
/-- What an error points at is never a union without alternatives. -/
theorem Points.cause_ne {expression : String} {e : Error} (h : Points expression e) :
    e.cause ≠ .emptyUnion := by
  cases h with
  | character hcause _ =>
    rw [hcause]
    exact Cause.noConfusion
  | token _ _ hshows _ _ => exact hshows.cause_ne
  | ending hshows _ => exact hshows.cause_ne

theorem ofTokens_fault {ps : List Placed} {f : Fault Placed Cause}
    (h : ofTokens registry ps = .error f) : f.left <:+ ps ∧ Shows f := by
  have hunion := (readsInside registry (fuelFor ps)).union ps
  unfold ofTokens at h
  split at h
  · cases h
    exact hunion.staysIn.fault ‹_›
  · cases h
  · cases h
    exact ⟨hunion.staysIn.suffix ‹_›, rfl⟩

omit [Payloads] in
/-- A fault among the tokens of an expression is an error that points at its place. -/
theorem points_ofFault {expression : String} {ps : List Placed} (hps : ofText expression = .ok ps)
    {f : Fault Placed Cause} (hf : f.left <:+ ps ∧ Shows f) :
    Points expression (.ofFault expression f) := by
  obtain ⟨cause, left⟩ := f
  cases left with
  | nil => exact .ending hf.2 (standsAt_end expression)
  | cons p left =>
    obtain ⟨rest, hrest⟩ := standsAt_of_ofText hps (hf.1.subset List.mem_cons_self)
    exact .token hps hf.1 hf.2 rfl hrest

theorem points_of_parse {expression : String} {e : Error}
    (h : parse registry expression = .error e) :
    e.expression = expression ∧ Points expression e := by
  unfold parse at h
  split at h
  · rename_i stray hstray
    cases h
    obtain ⟨rest, hrest⟩ := standsAt_of_stray hstray
    exact ⟨rfl, .character rfl hrest⟩
  · rename_i ps hps
    split at h
    · cases h
    · cases h
      exact ⟨rfl, points_ofFault hps (ofTokens_fault ‹_›)⟩

/-- Reading a type expression stays inside it: cutting it goes from character to character and cuts
tokens out that stand there; a part is read only where the calls lead; every reader is called at one
of the tokens or at their end, with fuel for those that are left, and ends at one that is no less, and
greater unless it reads further terms; and an error keeps the expression, points at a character, a
token or the end of it, and is never that of a union without alternatives. -/
theorem parse_points (registry : Registry) (expression : String) :
    (∀ skip position left, Scanned expression.toList skip position left →
      StandsAt expression position (String.ofList left) ∧ skip ≤ left.length ∧
        ∀ c r t n, left = c :: r → starting? c r = some (t, n) →
          StandsAt expression position (t.text ++ String.ofList (r.drop n))) ∧
    (∀ (inner : Readers) call, call.Ready → (∀ d, Calls registry call d → inner.Answer registry d) →
      (inner.outer registry).Answer registry call) ∧
    (∀ ps, ofText expression = .ok ps →
      (∀ p ∈ ps, ∃ rest, StandsAt expression p.position (p.token.text ++ rest)) ∧
      ∀ call, Reached registry ps call →
        call.MovesOn registry ps ∧ call.Ready ∧ call.Progresses registry) ∧
    ∀ e, parse registry expression = .error e →
      e.expression = expression ∧ e.position ≤ expression.utf8ByteSize ∧
        Points expression e ∧ e.cause ≠ .emptyUnion := by
  refine ⟨fun skip position left h => ⟨h.standsAt.1, h.standsAt.2, ?_⟩,
    fun inner call hready h => outer_answer hready h, fun ps hps => ⟨?_, ?_⟩, ?_⟩
  · rintro c r t n rfl ht
    exact h.standsAt_text ht
  · exact fun p hp => standsAt_of_ofText hps hp
  · intro call h
    obtain ⟨hplace, hready⟩ := h.place_and_ready
    exact ⟨Call.movesOn hplace, hready, call.progresses registry⟩
  · intro e he
    obtain ⟨hexpression, hpoints⟩ := points_of_parse he
    exact ⟨hexpression, hpoints.le, hpoints, hpoints.cause_ne⟩

end

open Payloads.Integers in
/-- A name that no type has, behind the bracket of a list and a blank of two bytes. Arguments leave
terms to the readers of single arguments. -/
theorem parse_points_blank :
    (Scanned "list[\u00a0x]".toList 0 5 ['\u00a0', 'x', ']'] ∧
      StandsAt "list[\u00a0x]" 5 (String.ofList ['\u00a0', 'x', ']'])) ∧
    (∃ ps, ofText "list[\u00a0x]" = .ok ps ∧
      (∀ p ∈ ps, ∃ rest, StandsAt "list[\u00a0x]" p.position (p.token.text ++ rest)) ∧
      Reached {} ps (.arguments 23 (ps.drop 2)) ∧
      (Call.arguments 23 (ps.drop 2)).MovesOn {} ps ∧
      (Call.arguments 23 (ps.drop 2)).Progresses {} ∧
      (Call.arguments 23 (ps.drop 2)).Ready ∧
      (({ readers {} 22 with term := fun ts => .error ⟨.optionalOne, ts⟩ } : Readers).outer
        {}).arguments (ps.drop 2) = arguments {} 23 (ps.drop 2)) ∧
    parse {} "list[\u00a0x]" = .error ⟨.unknown "x", 7, "list[\u00a0x]"⟩ ∧
      Points "list[\u00a0x]" ⟨.unknown "x", 7, "list[\u00a0x]"⟩ := by
  obtain ⟨hplaces, hanswer, hcalls, herrors⟩ := parse_points {} "list[\u00a0x]"
  have hscanned : Scanned "list[\u00a0x]".toList 0 5 ['\u00a0', 'x', ']'] :=
    .token (.skip (.skip (.skip (.token .start rfl)))) rfl
  let ps : List Placed := [⟨0, .name "list"⟩, ⟨4, .opening⟩, ⟨7, .name "x"⟩, ⟨8, .closing⟩]
  have hps : ofText "list[\u00a0x]" = .ok ps := rfl
  have hterm : Calls {} (.union 25 ps) (.term 24 ps) := .firstTerm
  have harguments : Calls {} (.term 24 ps) (.arguments 23 (ps.drop 2)) := .arguments rfl
  have hreached : Reached {} ps (.arguments 23 (ps.drop 2)) :=
    (Relation.ReflTransGen.single hterm).tail harguments
  have hparse : parse {} "list[\u00a0x]" = .error ⟨.unknown "x", 7, "list[\u00a0x]"⟩ := by
    rw [parse, hps]
    rfl
  obtain ⟨htokens, hreach⟩ := hcalls _ hps
  obtain ⟨hmoves, hready, hprogresses⟩ := hreach _ hreached
  have hterms := hanswer { readers {} 22 with term := fun ts => .error ⟨.optionalOne, ts⟩ }
    (.arguments 23 (ps.drop 2)) hready fun d hd => by cases hd <;> rfl
  exact ⟨⟨hscanned, (hplaces _ _ _ hscanned).1⟩,
    ⟨_, hps, htokens, hreached, hmoves, hprogresses, hready, hterms⟩, hparse,
    (herrors _ hparse).2.2.1⟩

end TypedSettings.SettingType
