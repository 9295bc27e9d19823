import TypedSettings.Text.Digit

/-!
# Fewest digits

The decimal with the fewest digits that reads back to a given double, found in exact arithmetic on
the double's mantissa and exponent. Main statement: what the search returns lies between the
midpoints to the neighbouring doubles (`search_readsBack`).
-/

namespace TypedSettings.Number

open TypedSettings.Text

/-! ## Doubles as fractions -/

/-- The positive number `mantissa * 2 ^ exponent`. -/
structure Binary where
  mantissa : Nat
  exponent : Int
  /-- The gap to the next double below is half the gap to the next one above. -/
  narrowBelow : Bool
deriving DecidableEq

/-- The magnitude of a finite double, from its bits. -/
def Binary.ofBits (bits : UInt64) : Binary :=
  let e := ((bits >>> 52) &&& 0x7FF).toNat
  let f := (bits &&& 0xFFFFFFFFFFFFF).toNat
  if e = 0 then ⟨f, -1074, false⟩ else ⟨0x10000000000000 + f, (e : Int) - 1075, f == 0 && decide (1 < e)⟩

/-- The number `digits * 10 ^ exponent`. -/
structure Scientific where
  digits : Nat
  exponent : Int
deriving DecidableEq

/-- What becomes of a number halfway between two candidates. -/
inductive Tie where
  | up
  | toEven
deriving DecidableEq

/-- Compares `a * 10 ^ e` with `b * 2 ^ p`. -/
def compareScaled (a : Nat) (e : Int) (b : Nat) (p : Int) : Ordering :=
  compare (a * Nat.pow 10 e.toNat * Nat.pow 2 (-p).toNat)
    (b * Nat.pow 2 p.toNat * Nat.pow 10 (-e).toNat)

/-- Whether the decimal lies between the midpoints to the neighbouring doubles, the midpoints
included exactly when the mantissa is even. -/
def Binary.readsBack (x : Binary) (d : Scientific) : Bool :=
  let low := compareScaled d.digits d.exponent (4 * x.mantissa - if x.narrowBelow then 1 else 2)
    (x.exponent - 2)
  let high := compareScaled d.digits d.exponent (4 * x.mantissa + 2) (x.exponent - 2)
  if x.mantissa % 2 = 0 then low != .lt && high != .gt else low == .gt && high == .lt

/-! ## The search -/

/-- The numerator of the number in units of `10 ^ e`. -/
def Binary.over (x : Binary) (e : Int) : Nat :=
  x.mantissa * Nat.pow 2 x.exponent.toNat * Nat.pow 10 (-e).toNat

/-- The denominator of the number in units of `10 ^ e`. -/
def Binary.under (x : Binary) (e : Int) : Nat :=
  Nat.pow 2 (-x.exponent).toNat * Nat.pow 10 e.toNat

/-- The least `k` with `x < 10 ^ k`. Every positive double is above `10 ^ -400`, so counting the
digits of the whole part of `x * 10 ^ 400` finds it. -/
def Binary.scale (x : Binary) : Int :=
  (decimalDigits (x.over (-400) / x.under (-400))).length - 400

/-- Of the two multiples of `10 ^ e` next to the number the one that reads back; if both do, the
nearer, and of two equally near the one that the rule for ties names. -/
def Binary.onGrid (x : Binary) (tie : Tie) (e : Int) : Option Scientific :=
  let n := x.over e
  let d := x.under e
  let below := n / d
  match x.readsBack ⟨below, e⟩, x.readsBack ⟨below + 1, e⟩ with
  | true, false => some ⟨below, e⟩
  | false, true => some ⟨below + 1, e⟩
  | false, false => none
  | true, true =>
    match compare (2 * n) (d * (2 * below + 1)) with
    | .lt => some ⟨below, e⟩
    | .gt => some ⟨below + 1, e⟩
    | .eq =>
      match tie with
      | .up => some ⟨below + 1, e⟩
      | .toEven => some ⟨if below % 2 = 0 then below else below + 1, e⟩

/-- The first hit on the grids of one digit, of two digits, and so on up to seventeen. -/
def Binary.search (x : Binary) (tie : Tie) : Option Scientific :=
  (List.range 17).findSome? fun i => x.onGrid tie (x.scale - (i + 1 : Nat))

def Binary.exact (x : Binary) : Scientific :=
  ⟨x.mantissa * Nat.pow 2 x.exponent.toNat * Nat.pow 5 (-x.exponent).toNat, min x.exponent 0⟩

/-- The decimal with the fewest digits that reads back to the number. Seventeen digits are always
enough; were they not, the number would be written out in full. -/
def Binary.shortest (x : Binary) (tie : Tie) : Scientific :=
  (x.search tie).getD x.exact

theorem onGrid_readsBack {x : Binary} {tie : Tie} {e : Int} {d : Scientific}
    (h : x.onGrid tie e = some d) : x.readsBack d = true := by
  simp only [Binary.onGrid] at h
  split at h
  · cases h; assumption
  · cases h; assumption
  · cases h
  · rename_i hb ha
    split at h
    · cases h; assumption
    · cases h; assumption
    · split at h
      · cases h; assumption
      · simp only [Option.some.injEq] at h
        subst h
        split <;> assumption

theorem search_readsBack {x : Binary} {tie : Tie} {d : Scientific}
    (h : x.search tie = some d) : x.readsBack d = true := by
  obtain ⟨i, _, hi⟩ := List.exists_of_findSome?_eq_some h
  exact onGrid_readsBack hi

end TypedSettings.Number
