import TypedSettings.Proofs.CommandLine.Marks
import TypedSettings.Proofs.Literal.Infinite

/-!
# Key texts

A map becomes an object whose names are the plain texts of its keys. A hashable value that was read
is known from its text, and so is where the text ends (`eq_of_chars`): without infinite floats it
is read back, and otherwise it is the word for an infinity or a tuple of such values. Plain texts
differ where literal texts do, a text without its quotes aside (`eq_of_plain`). Main statement: the
object of a map that was read has a member for every entry, unless some of its keys are texts and
some are not (`keyTexts_of_parse`).
-/

namespace TypedSettings

open Text Number Value

def Value.IsText [Payloads] (v : Value) : Prop := ∃ s, v = str s

namespace Literal

section
variable [Payloads]

/-- A hashable value as it stands inside of what was read. -/
structure IsKey (v : Value) : Prop where
  read : v.Everywhere IsRead
  fits : FitsAt maxDepth 0 v
  hashable : v.hashable = true

/-- The value and where its text ends are known from the characters, if it is a key and a value may
end there. -/
def IsKnown (v : Value) : Prop :=
  ∀ w r r', IsKey w → Ends r → Ends r' → v.chars ++ r = w.chars ++ r' → v = w ∧ r = r'

/-! ## Values without infinite floats -/

/-- What reads back is told apart from everything that was read. -/
theorem eq_of_notInfinite {v w : Value} (hv : v.Everywhere IsRead) (hfv : FitsAt maxDepth 0 v)
    (hw : w.Everywhere IsRead) (hfw : FitsAt maxDepth 0 w) (hfinite : v.Everywhere NotInfinite)
    {r r' : List Char} (hr : Ends r) (hr' : Ends r') (h : v.chars ++ r = w.chars ++ r') :
    v = w ∧ r = r' := by
  have hexpr : Expr 0 (w.chars ++ r') v r :=
    h ▸ expr_chars (everywhere_isPrintable hv hfinite) hfv hr
  obtain ⟨hfinite', -⟩ := readsExactly hw hfw _ _ _ hr' hexpr hr.follows
  exact hexpr.unique hr.follows (expr_chars (everywhere_isPrintable hw hfinite') hfw hr')
    hr'.follows

/-! ## Infinite floats -/

omit [Payloads] in
theorem eq_of_isInfinite {x y : Float} (hx : IsInfinite x) (hy : IsInfinite y)
    (hsign : signBit x = signBit y) : x = y := by
  have hmagnitude : magnitudeBits x = magnitudeBits y := hx.trans hy.symm
  rw [← UInt64.toNat_inj, toNat_magnitudeBits, toNat_magnitudeBits] at hmagnitude
  have htop : x.toBits.toNat / 2 ^ 63 = 1 ↔ y.toBits.toNat / 2 ^ 63 = 1 := by
    rw [← signBit_iff, ← signBit_iff, hsign]
  have hxlt := x.toBits.toNat_lt
  have hylt := y.toBits.toNat_lt
  exact float_eq_of_toBits (by omega)

/-- The two words for infinities are told apart. -/
theorem eq_of_infinite_text {x y : Float} (hx : IsInfinite x) (hy : IsInfinite y)
    {r r' : List Char} (h : (float x).chars ++ r = (float y).chars ++ r') :
    float x = float y ∧ r = r' := by
  have htext : ∀ z, (float z).chars = floatLayout.text z := fun _ => rfl
  rw [htext, htext, text_of_isInfinite hx, text_of_isInfinite hy] at h
  cases hsx : signBit x <;> cases hsy : signBit y <;> simp [hsx, hsy] at h
  · exact ⟨congrArg float (eq_of_isInfinite hx hy (hsx.trans hsy.symm)), h⟩
  · exact ⟨congrArg float (eq_of_isInfinite hx hy (hsx.trans hsy.symm)), h⟩

/-! ## Tuples -/

/-- What is printed behind an item of a tuple: the other items and the closing parenthesis. -/
def tupleRest : List Value → List Char
  | [] => [')']
  | v :: vs => ',' :: ' ' :: (v.chars ++ tupleRest vs)

/-- What is printed behind the first item of a tuple; a single item has a comma behind it. -/
def behindFirst : List Value → List Char
  | [] => [',', ')']
  | v :: vs => tupleRest (v :: vs)

theorem chars_append_tupleRest (v : Value) (vs : List Value) :
    v.chars ++ tupleRest vs = commaSeparated (charsEach (v :: vs)) ++ [')'] := by
  induction vs generalizing v with
  | nil => simp [tupleRest, commaSeparated, charsEach, List.intercalate]
  | cons w vs ih =>
    rw [tupleRest, ih w]
    simp [commaSeparated, comma, charsEach, List.intercalate]

theorem chars_tuple_cons (v : Value) (vs : List Value) :
    (tuple (v :: vs)).chars = '(' :: (v.chars ++ behindFirst vs) := by
  cases vs with
  | nil => rfl
  | cons w vs =>
    rw [behindFirst, chars_append_tupleRest]
    rfl

theorem ends_tupleRest (vs : List Value) (r : List Char) : Ends (tupleRest vs ++ r) := by
  cases vs <;> exact ends_cons (by decide)

theorem ends_behindFirst (vs : List Value) (r : List Char) : Ends (behindFirst vs ++ r) := by
  cases vs <;> exact ends_cons (by decide)

section
variable {vs ws : List Value} {r r' : List Char}

/-- The items behind an item are known, if each of them is. -/
theorem eq_of_tupleRest (hvs : ∀ v ∈ vs, IsKnown v) (hws : ∀ w ∈ ws, IsKey w)
    (h : tupleRest vs ++ r = tupleRest ws ++ r') : vs = ws ∧ r = r' := by
  induction vs generalizing ws with
  | nil =>
    cases ws with
    | nil => exact ⟨rfl, by simpa [tupleRest] using h⟩
    | cons w ws => simp [tupleRest] at h
  | cons v vs ih =>
    cases ws with
    | nil => simp [tupleRest] at h
    | cons w ws =>
      have h : v.chars ++ (tupleRest vs ++ r) = w.chars ++ (tupleRest ws ++ r') := by
        simpa [tupleRest] using h
      obtain ⟨rfl, hrest⟩ := hvs v List.mem_cons_self w _ _ (hws w List.mem_cons_self)
        (ends_tupleRest vs r) (ends_tupleRest ws r') h
      obtain ⟨rfl, rfl⟩ := ih (fun u hu => hvs u (List.mem_cons_of_mem _ hu))
        (fun u hu => hws u (List.mem_cons_of_mem _ hu)) hrest
      exact ⟨rfl, rfl⟩

theorem eq_of_behindFirst (hvs : ∀ v ∈ vs, IsKnown v) (hws : ∀ w ∈ ws, IsKey w)
    (h : behindFirst vs ++ r = behindFirst ws ++ r') : vs = ws ∧ r = r' := by
  cases vs with
  | nil =>
    cases ws with
    | nil => exact ⟨rfl, by simpa [behindFirst] using h⟩
    | cons w ws => simp [behindFirst, tupleRest] at h
  | cons v vs =>
    cases ws with
    | nil => simp [behindFirst, tupleRest] at h
    | cons w ws => exact eq_of_tupleRest hvs hws h

theorem eq_of_chars_tuple {v w : Value} (hvs : ∀ u ∈ v :: vs, IsKnown u)
    (hws : ∀ u ∈ w :: ws, IsKey u)
    (h : (tuple (v :: vs)).chars ++ r = (tuple (w :: ws)).chars ++ r') :
    tuple (v :: vs) = tuple (w :: ws) ∧ r = r' := by
  have h : v.chars ++ (behindFirst vs ++ r) = w.chars ++ (behindFirst ws ++ r') := by
    simpa [chars_tuple_cons] using h
  obtain ⟨rfl, hrest⟩ := hvs v List.mem_cons_self w _ _ (hws w List.mem_cons_self)
    (ends_behindFirst vs r) (ends_behindFirst ws r') h
  obtain ⟨rfl, rfl⟩ := eq_of_behindFirst (fun u hu => hvs u (List.mem_cons_of_mem _ hu))
    (fun u hu => hws u (List.mem_cons_of_mem _ hu)) hrest
  exact ⟨rfl, rfl⟩

end

/-! ## Keys -/

theorem IsKey.item {vs : List Value} (h : IsKey (tuple vs)) {v : Value} (hv : v ∈ vs) :
    IsKey v where
  read := h.read.child hv
  fits := (h.fits.child hv).up
  hashable := by
    have hall : vs.all Value.hashable = true := by
      rw [← allHashable_eq_all]
      exact h.hashable
    exact List.all_eq_true.1 hall v hv

/-- A key with an infinite float in it is the float, or a tuple. -/
theorem IsKey.infinite_cases {v : Value} (h : IsKey v) (hi : ¬ v.Everywhere NotInfinite) :
    (∃ x, v = float x ∧ IsInfinite x) ∨ ∃ w ws, v = tuple (w :: ws) := by
  have leaf : v.children = [] → ¬ NotInfinite v := fun hc hself => hi (.leaf hself hc)
  cases v with
  | absent | bool _ | int _ | str _ | decimal _ | custom _ =>
    exact absurd (by simp [NotInfinite, float?]) (leaf rfl)
  | float x => exact .inl ⟨x, rfl, by simpa [NotInfinite, float?] using leaf rfl⟩
  | tuple vs =>
    cases vs with
    | nil => exact absurd (by simp [NotInfinite, float?]) (leaf rfl)
    | cons w ws => exact .inr ⟨w, ws, rfl⟩
  | list _ | set _ | map _ => cases h.hashable

/-- A key is known from its text, and so is where the text ends. -/
theorem eq_of_chars {v : Value} (hv : IsKey v) : IsKnown v := by
  induction v using children_induction with
  | step v ih =>
    intro w r r' hw hr hr' h
    by_cases hvi : v.Everywhere NotInfinite
    · exact eq_of_notInfinite hv.read hv.fits hw.read hw.fits hvi hr hr' h
    by_cases hwi : w.Everywhere NotInfinite
    · obtain ⟨rfl, rfl⟩ := eq_of_notInfinite hw.read hw.fits hv.read hv.fits hwi hr' hr h.symm
      exact ⟨rfl, rfl⟩
    have not_word : ∀ {x : Float} {u us a b}, IsInfinite x →
        (float x).chars ++ a ≠ (tuple (u :: us)).chars ++ b := by
      intro x u us a b hx
      rw [chars_tuple_cons, show (float x).chars = floatLayout.text x from rfl,
        text_of_isInfinite hx]
      split <;> simp
    rcases hv.infinite_cases hvi with ⟨x, rfl, hx⟩ | ⟨u, us, rfl⟩ <;>
      rcases hw.infinite_cases hwi with ⟨y, rfl, hy⟩ | ⟨u', us', rfl⟩
    · exact eq_of_infinite_text hx hy h
    · exact absurd h (not_word hx)
    · exact absurd h.symm (not_word hy)
    · exact eq_of_chars_tuple (fun a ha => ih a ha (hv.item ha)) (fun a ha => hw.item ha) h

/-! ## Plain texts -/

theorem plain_of_not_isText {v : Value} (h : ¬ v.IsText) : v.plain = v.render := by
  cases v with
  | str s => exact absurd ⟨s, rfl⟩ h
  | _ => rfl

/-- Keys with one plain text are one key, unless exactly one of them is a text. -/
theorem eq_of_plain {v w : Value} (hv : IsKey v) (hw : IsKey w) (h : v.plain = w.plain)
    (hkinds : v.IsText ↔ w.IsText) : v = w := by
  by_cases ht : v.IsText
  · obtain ⟨s, rfl⟩ := ht
    obtain ⟨t, rfl⟩ := hkinds.1 ⟨s, rfl⟩
    exact congrArg str h
  · rw [plain_of_not_isText ht, plain_of_not_isText fun hw => ht (hkinds.2 hw), render, render,
      String.ofList_inj] at h
    have hends : Ends [] := by simp [Ends]
    exact (eq_of_chars hv w [] [] hw hends hends (by rw [h])).1

/-! ## Objects -/

omit [Payloads] in
/-- Sorting keeps as many members as there are names. -/
theorem length_sortedMembers {ms : List (String × Json)} (h : (ms.map (·.1)).Nodup) :
    (Json.sortedMembers ms).length = ms.length := by
  induction ms with
  | nil => rfl
  | cons m ms ih =>
    obtain ⟨hm, hrest⟩ := List.nodup_cons.1 h
    have hnew : m.1 ∉ (Json.sortedMembers ms).names := CommandLine.mem_names_sortedMembers.not.2 hm
    rw [CommandLine.sortedMembers_cons hm, Table.length_insert hnew, ih hrest, List.length_cons]

/-- The object of a map whose keys have different plain texts has a member for every entry. -/
theorem exists_object {es : List (Value × Value)}
    (h : es.Pairwise fun e f => e.1.plain ≠ f.1.plain) :
    ∃ ms, (map es).toJson.sorted = .object ms ∧ ms.length = es.length ∧
      ∀ e ∈ es, (e.1.plain, e.2.toJson.sorted) ∈ ms := by
  have hnames : ((toJsonMembers es).map (·.1)).Nodup := by
    rw [toJsonMembers_eq_map, List.map_map]
    exact List.pairwise_map.2 h
  refine ⟨Json.sortedMembers (toJsonMembers es), rfl, ?_, fun e he => ?_⟩
  · rw [length_sortedMembers hnames, toJsonMembers_eq_map, List.length_map]
  · rw [CommandLine.mem_sortedMembers_iff hnames, toJsonMembers_eq_map]
    exact ⟨_, List.mem_map_of_mem he, rfl⟩

/-! ## What was read -/

theorem everywhere_fits {greatest : Nat} {v : Value} (h : FitsAt greatest 0 v) :
    v.Everywhere (FitsAt greatest 0) := by
  induction v using children_induction with
  | step v ih => exact .intro h fun w hw => ih w hw (h.child hw).up

/-- In every map that was read: if all keys are texts or none is, the plain texts of the keys are
different, so that the object of the map has a member for every entry. Of two different keys with
one plain text exactly one is a text. -/
theorem keyTexts_of_parse {raw : String} {v : Value} (h : parse raw = .ok v) :
    v.Everywhere fun w => ∀ es, w = map es →
      (((∀ e ∈ es, e.1.IsText) ∨ ∀ e ∈ es, ¬ e.1.IsText) →
        (es.Pairwise fun e f => e.1.plain ≠ f.1.plain) ∧
          ∃ ms, w.toJson.sorted = .object ms ∧ ms.length = es.length ∧
            ∀ e ∈ es, (e.1.plain, e.2.toJson.sorted) ∈ ms) ∧
      ∀ e ∈ es, ∀ f ∈ es, equal e.1 f.1 = false → e.1.plain = f.1.plain →
        (e.1.IsText ↔ ¬ f.1.IsText) := by
  obtain ⟨hread, hfits⟩ := wellFormed_of_parse h
  refine (hread.and (everywhere_fits hfits)).imp_everywhere ?_
  rintro w hw es rfl
  have hkey : ∀ e ∈ es, IsKey e.1 := fun e he =>
    { read := (hw.key he).imp fun _ hu => hu.1
      fits := (hw.key he).self.2
      hashable := hw.self.1.literal.hashable e he }
  have hself : ∀ e ∈ es, equal e.1 e.1 = true := fun e he =>
    equivalenceOn_builtIn.refl ((hkey e he).read.imp fun _ => IsRead.isComparable)
  -- among texts, and among the other keys, the printed key says which one it is
  have hmixed : ∀ e ∈ es, ∀ f ∈ es, equal e.1 f.1 = false → e.1.plain = f.1.plain →
      ¬ (e.1.IsText ↔ f.1.IsText) := by
    intro e he f hf hne hplain hkinds
    rw [eq_of_plain (hkey e he) (hkey f hf) hplain hkinds, hself f hf] at hne
    cases hne
  refine ⟨fun hall => ?_, fun e he f hf hne hplain => ?_⟩
  · have hkinds : ∀ e ∈ es, ∀ f ∈ es, (e.1.IsText ↔ f.1.IsText) := by
      intro e he f hf
      rcases hall with hall | hall
      · exact iff_of_true (hall e he) (hall f hf)
      · exact iff_of_false (hall e he) (hall f hf)
    have hdistinct : es.Pairwise fun e f => equal e.1 f.1 = false := hw.self.1.literal.noRepeats
    have hplain : es.Pairwise fun e f => e.1.plain ≠ f.1.plain :=
      hdistinct.imp_of_mem fun he hf hne heq =>
        hmixed _ he _ hf hne heq (hkinds _ he _ hf)
    exact ⟨hplain, exists_object hplain⟩
  · have := hmixed e he f hf hne hplain
    tauto

end

open Payloads.Integers in
/-- A map with no text among its keys, inside of one whose keys share a plain text. -/
theorem keyTexts_of_parse_mixed :
    parse "\x7b1: \x7b(1e999, '2'): 0, None: 1\x7d, '1': 2\x7d" =
      .ok (map [(int 1, map [(tuple [float infinity, str "2"], int 0), (absent, int 1)]),
        (str "1", int 2)]) ∧
    (map [(int 1, map [(tuple [float infinity, str "2"], int 0), (absent, int 1)]),
        (str "1", int 2)]).Everywhere fun w => ∀ es, w = map es →
      (((∀ e ∈ es, e.1.IsText) ∨ ∀ e ∈ es, ¬ e.1.IsText) →
        (es.Pairwise fun e f => e.1.plain ≠ f.1.plain) ∧
          ∃ ms, w.toJson.sorted = .object ms ∧ ms.length = es.length ∧
            ∀ e ∈ es, (e.1.plain, e.2.toJson.sorted) ∈ ms) ∧
      ∀ e ∈ es, ∀ f ∈ es, equal e.1 f.1 = false → e.1.plain = f.1.plain →
        (e.1.IsText ↔ ¬ f.1.IsText) := by
  have h : parse "\x7b1: \x7b(1e999, '2'): 0, None: 1\x7d, '1': 2\x7d" =
      .ok (map [(int 1, map [(tuple [float infinity, str "2"], int 0), (absent, int 1)]),
        (str "1", int 2)]) := by
    have hread : parse "\x7b1: \x7b(1e999, '2'): 0, None: 1\x7d, '1': 2\x7d" =
        .ok (mapOf [(int 1, mapOf [(tuple [float infinity, str "2"], int 0), (absent, int 1)]),
          (str "1", int 2)]) := by
      simp only [parse, String.reduceToList]
      rfl
    rw [hread]
    simp [mapOf, putEntry, equal]
  exact ⟨h, keyTexts_of_parse h⟩

end Literal

end TypedSettings
