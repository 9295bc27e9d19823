import TypedSettings.Proofs.Literal.Balance
import TypedSettings.Proofs.Literal.RoundTrip
import TypedSettings.Proofs.Literal.WellFormed

/-!
# How deep literals nest

A text is too deep only where more brackets are open than there may be levels
(`lt_mostOpen_of_tooDeep`). The levels are counted where an item is read and not where a bracket is
opened, so that nothing may stand one level deeper than anything else (`parse_brackets_iff`). Main
statement: `parse_nesting`.
-/

namespace TypedSettings.Literal

open Text Value

section
variable [Payloads]

/-! ## Whole texts -/

omit [Payloads] in
/-- No other cause has this wording: where it is not fixed it starts with another character. -/
theorem Cause.eq_tooDeep {c : Cause} (h : c.message = "literal nesting too deep") :
    c = .tooDeep := by
  have hstart : ∀ {p s : String}, p.toList.head?.any (· != 'l') = true →
      p ++ s ≠ "literal nesting too deep" := by
    intro p s hp h
    obtain ⟨d, hd, hne⟩ := (Option.any_eq_true _ _).1 hp
    have hhead := congrArg (fun m => m.toList.head?) h
    simp only [String.toList_append, List.head?_append, hd, Option.some_or] at hhead
    have hl : "literal nesting too deep".toList.head? = some 'l' := by decide
    rw [hl, Option.some.injEq] at hhead
    exact bne_iff_ne.1 hne hhead
  cases c with
  | tooDeep => rfl
  | unexpected d => exact absurd ((String.append_assoc ..).symm.trans h) (hstart (by decide))
  | badTextMark mark => exact absurd ((String.append_assoc ..).symm.trans h) (hstart (by decide))
  | unknownName name => exact absurd ((String.append_assoc ..).symm.trans h) (hstart (by decide))
  | expectedItem closing =>
    exact absurd ((String.append_assoc ..).symm.trans h) (hstart (by decide))
  | unhashable typeName =>
    exact absurd ((String.append_assoc ..).symm.trans h) (hstart (by decide))
  | badCodePoint n => exact absurd h (hstart (by decide))
  | _ => exact absurd h (by decide)

/-- Where a text is too deep, more brackets are open than there may be. -/
theorem lt_mostOpen_of_tooDeep {raw : String} {e : Error} (h : parse raw = .error e)
    (he : e.cause = .tooDeep) : maxDepth < mostOpen 0 (outside raw.toList) := by
  rw [parse_eq_of_value] at h
  split at h
  · rename_i f hf
    cases h
    obtain ⟨r, ds, hds, hopen⟩ := (keeps_value (maxDepth + 1) raw.toList).tooDeep hf he
    have hmost := openAfter_le_mostOpen 0 ds (outside r)
    rw [← hds, show openAfter 0 ds = 0 + (maxDepth + 1) from hopen 0] at hmost
    omega
  · split at h <;> cases h
    cases he

/-- One more list than the number says, one in the other, and nothing in the innermost. -/
def nested : Nat → Value
  | 0 => .list []
  | n + 1 => .list [nested n]

theorem nesting_nested (n : Nat) : (nested n).nesting = n + 1 := by
  induction n with
  | zero => rfl
  | succ n ih => simp [nested, nesting, nestingEach, ih]

theorem chars_nested (n : Nat) :
    (nested n).chars = List.replicate (n + 1) '[' ++ List.replicate (n + 1) ']' := by
  induction n with
  | zero => rfl
  | succ n ih =>
    have hlist : (nested (n + 1)).chars = '[' :: ((nested n).chars ++ [']']) := by
      simp [nested, Value.chars, charsEach, commaSeparated]
    rw [hlist, ih, List.replicate_succ (n := n + 1), List.replicate_succ' (n := n + 1)]
    simp

theorem fitsAt_nested {n d greatest : Nat} : FitsAt greatest d (nested n) ↔ n + d ≤ greatest := by
  induction n generalizing d with
  | zero =>
    refine ⟨fun h => by have := h.le; omega, fun h => .intro (by omega) ?_⟩
    simp [nested, children]
  | succ n ih =>
    constructor
    · intro h
      have := ih.1 (h.child (w := nested n) (by simp [nested, children]))
      omega
    · intro h
      refine .intro (by omega) fun w hw => ?_
      obtain rfl : w = nested n := by simpa [nested, children] using hw
      exact ih.2 (by omega)

theorem isPrintable_nested (n : Nat) : (nested n).Everywhere IsPrintable := by
  have hlist : ∀ vs, IsPrintable (.list vs) := fun vs =>
    ⟨⟨trivial, trivial, trivial⟩, by simp [Value.float?]⟩
  induction n with
  | zero => exact .leaf (hlist []) rfl
  | succ n ih =>
    refine .intro (hlist _) fun w hw => ?_
    obtain rfl : w = nested n := by simpa [nested, children] using hw
    exact ih

/-- Nothing in square brackets is read up to one bracket more than there are levels. -/
theorem parse_brackets_iff (n : Nat) :
    parse (String.ofList (List.replicate (n + 1) '[' ++ List.replicate (n + 1) ']')) =
      .ok (nested n) ↔ n ≤ maxDepth := by
  rw [← chars_nested]
  constructor
  · intro h
    exact fitsAt_nested.1 (wellFormed_of_parse h).2
  · intro h
    exact parse_render_of_fitsAt (isPrintable_nested n) (fitsAt_nested.2 h)

/-- What a text writes nests at most one container more than there are levels. It nests no more than
there are levels exactly if no container with nothing in it stands inside so many others: the levels
are counted where an item is read, and there is none in it. A text in which no more brackets are
ever open than there are levels is not too deep. -/
theorem parse_nesting (raw : String) :
    (∀ v, parse raw = .ok v → v.nesting ≤ maxDepth + 1 ∧
      (v.nesting ≤ maxDepth ↔ ∀ w, Within maxDepth v w → ¬ w.IsEmptyContainer)) ∧
    ∀ e, mostOpen 0 (outside raw.toList) ≤ maxDepth → parse raw = .error e →
      e.cause.message ≠ "literal nesting too deep" := by
  refine ⟨fun v h => ?_, fun e hopen h hmessage => ?_⟩
  · have hfits := (wellFormed_of_parse h).2
    exact ⟨hfits.nesting_le, hfits.nesting_le_iff⟩
  · have hdeep := lt_mostOpen_of_tooDeep h (Cause.eq_tooDeep hmessage)
    omega

end

open Payloads.Integers

theorem parse_nesting_samples :
    (parse "[[1], ()]" = .ok (.list [.list [.int 1], .tuple []]) ∧
      (list [.list [.int 1], .tuple []]).nesting ≤ maxDepth) ∧
    (mostOpen 0 (outside "['[[', # [\n (1 2)]".toList) ≤ maxDepth ∧
      ∃ e, parse "['[[', # [\n (1 2)]" = .error e ∧
        e.cause.message ≠ "literal nesting too deep") := by
  have hok : parse "[[1], ()]" = .ok (.list [.list [.int 1], .tuple []]) := rfl
  have herror : parse "['[[', # [\n (1 2)]" = .error ⟨.expectedItem ')', 15⟩ := rfl
  have hopen : mostOpen 0 (outside "['[[', # [\n (1 2)]".toList) ≤ maxDepth := by cbv
  refine ⟨⟨hok, ((parse_nesting _).1 _ hok).2.2 fun w hw _ => ?_⟩, hopen, _, herror,
    (parse_nesting _).2 _ hopen herror⟩
  -- nothing stands inside more than two containers
  have hnesting : (list [.list [.int 1], .tuple []]).nesting = 2 := rfl
  have hle := nesting_le_of_within hw
  rw [hnesting, maxDepth] at hle
  omega

/-- Sixty-five brackets around nothing are read, and nest sixty-five deep. -/
theorem parse_brackets_too_many :
    parse (String.ofList (List.replicate 65 '[' ++ List.replicate 65 ']')) = .ok (nested 64) ∧
      ¬ (nested 64).nesting ≤ maxDepth :=
  ⟨(parse_brackets_iff 64).2 (Nat.le_refl 64), by rw [nesting_nested]; decide⟩

end TypedSettings.Literal
