import TypedSettings.Proofs.Literal.Brackets
import TypedSettings.Proofs.Literal.Recognition

/-!
# Readers and open brackets

Every reader of literals leads from one number of open brackets to another, and finds the nesting
too deep only where its levels are used up (`Keeps`). Tokens leave the number as it is, what follows
an opening bracket closes it. Main statement: a value closes the brackets that it opens, and is too
deep only where as many are open as it has levels (`keeps_value`).
-/

namespace TypedSettings.Literal

open Text

/-! ## Steps that keep count -/

/-- The step leads from one number of open brackets to another, and is too deep only where so many
are open. -/
structure Keeps {α : Type} (a b deepest : Nat) (s : List Char) (x : Step α) : Prop where
  ok : ∀ {v r}, x = .ok (v, r) → Levels a b s r
  tooDeep : ∀ {f}, x = .error f → f.cause = .tooDeep → ∃ r, Levels a deepest s r

def NeverDeep {α : Type} (x : Step α) : Prop := ∀ f, x = .error f → f.cause ≠ .tooDeep

section
variable {α β : Type} {a b c k : Nat} {s t r : List Char} {x : Step α} {v : α} {cause : Cause}

theorem NeverDeep.ok (v : α) (r : List Char) : NeverDeep (.ok (v, r) : Step α) := by
  intro f h
  cases h

theorem NeverDeep.error (h : cause ≠ .tooDeep) (r : List Char) :
    NeverDeep (.error ⟨cause, r⟩ : Step α) := by
  intro f hf
  cases hf
  exact h

theorem NeverDeep.next {f : α → List Char → Step β} (hx : NeverDeep x)
    (hf : ∀ v r, NeverDeep (f v r)) : NeverDeep (x.next f) := by
  intro e he
  rcases Step.next_eq_error.1 he with he | ⟨v, r, _, he⟩
  · exact hx e he
  · exact hf v r e he

theorem NeverDeep.keeps (hx : NeverDeep x) (h : ∀ {v r}, x = .ok (v, r) → Levels a b s r) :
    Keeps a b k s x where
  ok := h
  tooDeep he hcause := absurd hcause (hx _ he)

theorem Keeps.of_ok (h : Levels a b s r) : Keeps a b k s (.ok (v, r)) :=
  (NeverDeep.ok v r).keeps fun h' => by cases h'; exact h

theorem Keeps.of_error (h : cause ≠ .tooDeep) : Keeps a b k s (.error ⟨cause, r⟩ : Step α) :=
  (NeverDeep.error h r).keeps fun h => by cases h

theorem Keeps.next {f : α → List Char → Step β} (hx : Keeps a b k s x)
    (hf : ∀ v r, Keeps b c k r (f v r)) : Keeps a c k s (x.next f) where
  ok h := by
    obtain ⟨v, r, hv, h⟩ := Step.next_eq_ok.1 h
    exact (hx.ok hv).trans ((hf v r).ok h)
  tooDeep h hcause := by
    rcases Step.next_eq_error.1 h with h | ⟨v, r, hv, h⟩
    · exact hx.tooDeep h hcause
    · obtain ⟨t, ht⟩ := (hf v r).tooDeep h hcause
      exact ⟨t, (hx.ok hv).trans ht⟩

/-- What stands in front of a step counts too. -/
theorem Keeps.after (h : Levels a b s t) (hx : Keeps b c k t x) : Keeps a c k s x where
  ok h' := h.trans (hx.ok h')
  tooDeep h' hcause := by
    obtain ⟨r, hr⟩ := hx.tooDeep h' hcause
    exact ⟨r, h.trans hr⟩

/-- Inside one more bracket a step keeps count as outside. -/
theorem Keeps.inside (hx : Keeps a b k s x) : Keeps (a + 1) (b + 1) (k + 1) s x where
  ok h := (hx.ok h).lift 1
  tooDeep h hcause := by
    obtain ⟨r, hr⟩ := hx.tooDeep h hcause
    exact ⟨r, hr.lift 1⟩

end

/-! ## Numbers -/

section
variable {a k : Nat} {s : List Char} {negative : Bool}

theorem isDigitOf_special (base : Nat) : specials.any (isDigitOf base) = false := rfl

theorem neverDeep_digitRun (isDigit : Char → Bool) (mayPause : Bool) (s : List Char) :
    NeverDeep (digitRun isDigit mayPause s) := by
  induction s generalizing mayPause with
  | nil => exact .ok _ _
  | cons c s ih =>
    rw [digitRun]
    split
    · exact (ih true).next fun _ _ => .ok _ _
    · split
      · split
        · exact ih false
        · exact .error (by decide) _
      · exact .ok _ _

theorem keeps_digitRun {isDigit : Char → Bool} (hd : specials.any isDigit = false)
    (mayPause : Bool) (s : List Char) : Keeps a a k s (digitRun isDigit mayPause s) := by
  refine (neverDeep_digitRun isDigit mayPause s).keeps fun h => ?_
  obtain ⟨run, rfl, hrun, -⟩ := exists_run_of_digitRun h
  refine levels_run (fun d hmem => ?_) a _
  rcases Bool.or_eq_true_iff.1 (hrun.forall_inRun d hmem) with hdigit | hpause
  · exact not_special_of_kind hdigit hd
  · exact not_special_of_kind (p := (· == '_')) hpause rfl

theorem keeps_fractionPart (s : List Char) : Keeps a a k s (fractionPart s) := by
  unfold fractionPart
  split
  · refine .after (levels_of_not_special (by decide) a) ?_
    split
    · exact (keeps_digitRun (by decide) false _).next fun _ _ => .of_ok (.refl a _)
    · exact .of_ok (.refl a _)
  · exact .of_ok (.refl a _)

theorem levels_signOf (s : List Char) : Levels a a s (signOf s).2 := by
  unfold signOf
  split
  · exact levels_of_not_special (by decide) a
  · exact levels_of_not_special (by decide) a
  · exact .refl a _

theorem keeps_exponentPart (s : List Char) : Keeps a a k s (exponentPart s) := by
  unfold exponentPart
  split
  · split
    · rename_i mark r hmark
      have hmark : mark ∉ specials := by
        rcases hmark with rfl | rfl <;> decide
      simp only
      split
      · refine .after ((levels_of_not_special hmark a).trans (levels_signOf r)) ?_
        exact (keeps_digitRun (by decide) false _).next fun _ _ => .of_ok (.refl a _)
      · exact .of_error (by decide)
    · exact .of_ok (.refl a _)
  · exact .of_ok (.refl a _)

variable [Payloads]

theorem keeps_intValue {base : Nat} {start ds : List Char} :
    Keeps a a k s (intValue negative base start ds s) := by
  unfold intValue
  split
  · exact .of_ok (.refl a s)
  · exact .of_error (by decide)

theorem keeps_basedInt {start : List Char} {base : Nat} :
    Keeps a a k s (basedInt negative start base s) := by
  refine (keeps_digitRun (isDigitOf_special base) true s).next fun ds r => ?_
  split
  · exact .of_error (by decide)
  · exact keeps_intValue

theorem keeps_decimalNumber : Keeps a a k s (decimalNumber negative s) := by
  refine (keeps_digitRun (by decide) false s).next fun whole r => ?_
  refine (keeps_fractionPart r).next fun fraction r => ?_
  refine (keeps_exponentPart r).next fun exponent r => ?_
  split
  · exact .of_ok (.refl a r)
  · split
    · exact .of_error (by decide)
    · exact keeps_intValue

theorem keeps_openNumber : Keeps a a k s (openNumber negative s) := by
  unfold openNumber
  split
  · rename_i base ds hbased
    refine .after ?_ keeps_basedInt
    unfold based? at hbased
    split at hbased
    · rename_i mark r
      obtain ⟨base', hbase, hpair⟩ := Option.map_eq_some_iff.1 hbased
      cases hpair
      have hmark : mark ∉ specials :=
        not_special_of_kind (p := fun c => (baseOfMark? c).isSome) (by simp [hbase]) (by decide)
      exact (levels_of_not_special (by decide) a).trans (levels_of_not_special hmark a)
    · cases hbased
  · exact keeps_decimalNumber

theorem keeps_number : Keeps a a k s (number negative s) := by
  refine keeps_openNumber.next fun v r => ?_
  split
  · exact .of_error (by decide)
  · exact .of_ok (.refl a r)

end

/-! ## Texts and names -/

section
variable {a k : Nat} {s r : List Char}

theorem neverDeep_charOf (n : Nat) (s : List Char) : NeverDeep (charOf n s) := by
  unfold charOf
  split
  · exact .ok _ _
  · exact .error (by simp) _

theorem neverDeep_hexDigits (width n : Nat) (s : List Char) : NeverDeep (hexDigits width n s) := by
  induction width generalizing n s with
  | zero => exact .ok _ _
  | succ width ih =>
    cases s with
    | nil => exact .error (by decide) _
    | cons c s =>
      rw [hexDigits]
      split
      · exact ih _ s
      · exact .error (by decide) _

theorem neverDeep_escape (style : TextStyle) (c : Char) (s : List Char) :
    NeverDeep (style.escape c s) := by
  unfold TextStyle.escape escape
  split
  · exact .ok _ _
  split
  · exact .ok _ _
  split
  · exact neverDeep_charOf _ _
  split
  · exact (neverDeep_hexDigits _ _ _).next neverDeep_charOf
  · exact .ok _ _

theorem neverDeep_textBody (style : TextStyle) (start : List Char) (fuel : Nat) (s : List Char) :
    NeverDeep (textBody style start fuel s) := by
  induction fuel generalizing s with
  | zero => exact .error (by decide) _
  | succ fuel ih =>
    rw [textBody.eq_def]
    simp only
    split
    · exact .ok _ _
    · exact .error (by decide) _
    · exact .error (by decide) _
    · exact (neverDeep_escape _ _ _).next fun _ r => (ih r).next fun _ _ => .ok _ _
    · split
      · exact .error (by decide) _
      · exact (ih _).next fun _ _ => .ok _ _

theorem keeps_text (s : List Char) : Keeps a a k s (text s) := by
  refine NeverDeep.keeps ?_ fun h => levels_text h a
  unfold text
  split
  · split
    · exact neverDeep_textBody _ _ _ _
    · exact .error (by decide) _
  · exact .error (by decide) _

theorem keeps_moreTexts (fuel : Nat) (s : List Char) : Keeps a a k s (moreTexts fuel s) := by
  induction fuel generalizing s with
  | zero => exact .of_ok (.refl a s)
  | succ fuel ih =>
    rw [moreTexts]
    split
    · refine .after (levels_dropTrivia a s) ?_
      exact (keeps_text _).next fun _ r => (ih r).next fun _ _ => .of_ok (.refl a _)
    · exact .of_ok (.refl a s)

theorem keeps_textValue [Payloads] (s : List Char) : Keeps a a k s (textValue s) := by
  have htexts : Keeps a a k s (texts s) :=
    (keeps_text s).next fun _ r => (keeps_moreTexts _ r).next fun _ _ => .of_ok (.refl a _)
  exact htexts.next fun _ _ => .of_ok (.refl a _)

/-- A mark that neither opens nor closes brackets. -/
theorem levels_eat? {c : Char} (hc : c ∉ specials) (h : eat? c (dropTrivia s) = some r) :
    Levels a a s r := by
  have htrivia := levels_dropTrivia a s
  rw [eat?_eq_some_iff.1 h] at htrivia
  exact htrivia.trans (levels_of_not_special hc a)

theorem levels_eat?_closing {c : Char} (hc : isClosing c = true)
    (h : eat? c (dropTrivia s) = some r) : Levels (a + 1) a s r := by
  have htrivia := levels_dropTrivia (a + 1) s
  rw [eat?_eq_some_iff.1 h] at htrivia
  exact htrivia.trans (levels_closing hc a)

theorem levels_emptyCall? (h : emptyCall? s = some r) : Levels a a s r := by
  obtain ⟨t, ht, hr⟩ := Option.bind_eq_some_iff.1 h
  have htrivia := levels_dropTrivia a s
  rw [eat?_eq_some_iff.1 ht] at htrivia
  exact (htrivia.trans (levels_opening rfl a)).trans (levels_eat?_closing rfl hr)

theorem keeps_named [Payloads] (s : List Char) : Keeps a a k s (named s) := by
  have hname : Levels a a s (s.dropWhile isWordChar) := by
    have hword : ∀ d ∈ s.takeWhile isWordChar, d ∉ specials := fun d hd =>
      not_special_of_kind (List.all_eq_true.1 List.all_takeWhile d hd) (by decide)
    have hrun := levels_run hword a (s.dropWhile isWordChar)
    rwa [List.takeWhile_append_dropWhile] at hrun
  unfold named
  simp only
  split
  · split
    · exact keeps_textValue s
    · exact .of_error (by simp)
  split
  · exact .of_ok hname
  split
  · exact .of_ok hname
  split
  · exact .of_ok hname
  split
  · split
    · exact .of_ok (hname.trans (levels_emptyCall? ‹_›))
    · exact .of_error (by decide)
  · exact .of_error (by simp)

end

/-! ## Displays -/

section
variable [Payloads]

section
variable {item : ItemReader} {k : Nat} {s : List Char}

theorem keeps_requireHashable {α : Type} {a b : Nat} {x : Step α} (hx : Keeps a b k s x) (v : Value)
    (place : List Char) : Keeps a b k s (requireHashable v place x) := by
  unfold requireHashable
  split
  · exact hx
  · exact .of_error (by simp)

/-- Items in a bracket that is open, up to its end. -/
theorem keeps_items (hitem : ∀ s, Keeps 1 1 k s (item s)) {closing : Char}
    (hclosing : isClosing closing = true) (fuel : Nat) (s : List Char) :
    Keeps 1 0 k s (items item closing fuel s) := by
  induction fuel generalizing s with
  | zero => exact .of_error (by decide)
  | succ fuel ih =>
    rw [items]
    split
    · exact .of_ok (levels_eat?_closing hclosing ‹_›)
    · refine .after (levels_dropTrivia 1 s) ((hitem _).next fun v r => ?_)
      split
      · rename_i r' hcomma
        refine .after (levels_eat? (by decide) hcomma) ?_
        exact (ih r').next fun _ _ => .of_ok (.refl 0 _)
      · split
        · exact .of_ok (levels_eat?_closing hclosing ‹_›)
        · exact .of_error (by simp)

theorem keeps_member (hitem : ∀ s, Keeps 1 1 k s (item s)) (s : List Char) :
    Keeps 1 1 k s (member item s) :=
  (hitem s).next fun v r => keeps_requireHashable (.of_ok (.refl 1 r)) v s

theorem keeps_entry (hitem : ∀ s, Keeps 1 1 k s (item s)) (s : List Char) :
    Keeps 1 1 k s (entry item s) := by
  refine (keeps_member hitem s).next fun v r => ?_
  split
  · rename_i r' hcolon
    refine .after (levels_eat? (by decide) hcolon) ?_
    exact (hitem r').next fun _ _ => .of_ok (.refl 1 _)
  · exact .of_error (by decide)

theorem keeps_moreEntries (hitem : ∀ s, Keeps 1 1 k s (item s)) (fuel : Nat) (s : List Char) :
    Keeps 1 0 k s (moreEntries item fuel s) := by
  induction fuel generalizing s with
  | zero => exact .of_error (by decide)
  | succ fuel ih =>
    rw [moreEntries]
    split
    · exact .of_ok (levels_eat?_closing rfl ‹_›)
    split
    · exact .of_error (by simp)
    · rename_i s' hcomma
      refine .after (levels_eat? (by decide) hcomma) ?_
      split
      · exact .of_ok (levels_eat?_closing rfl ‹_›)
      · refine .after (levels_dropTrivia 1 s') ((keeps_entry hitem _).next fun _ r => ?_)
        exact (ih r).next fun _ _ => .of_ok (.refl 0 _)

theorem keeps_bracketed (hitem : ∀ s, Keeps 1 1 k s (item s)) (s : List Char) :
    Keeps 1 0 k s (bracketed item s) :=
  (keeps_items hitem rfl _ s).next fun _ _ => .of_ok (.refl 0 _)

theorem keeps_parenthesized (hitem : ∀ s, Keeps 1 1 k s (item s)) (s : List Char) :
    Keeps 1 0 k s (parenthesized item s) := by
  unfold parenthesized
  split
  · exact .of_ok (levels_eat?_closing rfl ‹_›)
  · refine .after (levels_dropTrivia 1 s) ((hitem _).next fun v r => ?_)
    split
    · exact .of_ok (levels_eat?_closing rfl ‹_›)
    split
    · rename_i r' hcomma
      refine .after (levels_eat? (by decide) hcomma) ?_
      exact (keeps_items hitem rfl _ r').next fun _ _ => .of_ok (.refl 0 _)
    · exact .of_error (by simp)

theorem keeps_mapAfter (hitem : ∀ s, Keeps 1 1 k s (item s)) (v : Value) (s : List Char) :
    Keeps 1 0 k s (mapAfter item v s) :=
  (hitem s).next fun _ r => (keeps_moreEntries hitem _ r).next fun _ _ => .of_ok (.refl 0 _)

theorem keeps_setAfter (hitem : ∀ s, Keeps 1 1 k s (item s)) (v : Value) (s : List Char) :
    Keeps 1 0 k s (setAfter item v s) := by
  unfold setAfter
  split
  · exact .of_ok (levels_eat?_closing rfl ‹_›)
  split
  · rename_i r hcomma
    refine .after (levels_eat? (by decide) hcomma) ?_
    exact (keeps_items (keeps_member hitem) rfl _ r).next fun _ _ => .of_ok (.refl 0 _)
  · exact .of_error (by simp)

theorem keeps_braced (hitem : ∀ s, Keeps 1 1 k s (item s)) (s : List Char) :
    Keeps 1 0 k s (braced item s) := by
  unfold braced
  split
  · exact .of_ok (levels_eat?_closing rfl ‹_›)
  · refine .after (levels_dropTrivia 1 s) ((hitem _).next fun v r => ?_)
    refine keeps_requireHashable ?_ v _
    split
    · rename_i r' hcolon
      exact .after (levels_eat? (by decide) hcolon) (keeps_mapAfter hitem v r')
    · exact keeps_setAfter hitem v r

/-! ## Values -/

theorem keeps_valueFrom (hitem : ∀ s, Keeps 1 1 k s (item s)) (c : Char) (s : List Char) :
    Keeps 0 0 k (c :: s) (valueFrom item c s) := by
  unfold valueFrom
  split
  · rename_i hsign
    have hsign : c ∉ specials := by
      rcases hsign with rfl | rfl <;> decide
    split
    · exact .after ((levels_of_not_special hsign 0).trans (levels_dropTrivia 0 s)) keeps_number
    · exact .of_error (by decide)
  split
  · exact keeps_number
  split
  · exact keeps_textValue _
  split
  · rename_i hc
    exact .after (levels_opening (by rw [hc]; rfl) 0) (keeps_bracketed hitem s)
  split
  · rename_i hc
    exact .after (levels_opening (by rw [hc]; rfl) 0) (keeps_parenthesized hitem s)
  split
  · rename_i hc
    exact .after (levels_opening (by rw [hc]; rfl) 0) (keeps_braced hitem s)
  split
  · exact keeps_named _
  · exact .of_error (by simp)

/-- A value closes the brackets that it opens, and it is too deep only where as many are open as it
has levels. -/
theorem keeps_value (levels : Nat) (s : List Char) : Keeps 0 0 levels s (value levels s) := by
  induction levels generalizing s with
  | zero =>
    refine ⟨fun h => ?_, fun _ _ => ⟨s, .refl 0 s⟩⟩
    cases h
  | succ levels ih =>
    rw [value]
    split
    · exact .of_error (by decide)
    · rename_i c r hs
      refine .after (levels_dropTrivia 0 s) ?_
      rw [hs]
      exact keeps_valueFrom (fun s => (ih s).inside) c r

end

end

end TypedSettings.Literal
