import TypedSettings.Proofs.Literal.WellFormed
import TypedSettings.Proofs.Literal.Written

/-!
# Printing and reading back

The printed form of a value is an expression of the grammar that writes the value, if nothing in it
is beyond literals and it fits at its depth (`expr_chars`). So reading undoes printing
(`parse_render`), given that the texts of the finite floats in the value read back.
-/

namespace TypedSettings.Literal

open Text Number Value

section
variable [Payloads]

/-! ## Items -/

section
variable {α : Type} {item : Writes α} {closing : Char}

omit [Payloads] in
/-- A blank before items whose reader skips it changes nothing. -/
theorem Items.blank (hskip : ∀ {s x r}, item s x r → item (' ' :: s) x r) {s r : List Char}
    {xs : List α} (h : Items item closing s xs r) : Items item closing (' ' :: s) xs r := by
  cases h with
  | none hm => exact .none (.blank (by decide) hm)
  | last hx hm => exact .last (hskip hx) hm
  | more hx hm h => exact .more (hskip hx) hm h

omit [Payloads] in
/-- Items in a row with commas between them are items of the grammar. -/
theorem items_commaSeparated {write : α → List Char} (hc : isDelimiter closing = true)
    (hskip : ∀ {s x r}, item s x r → item (' ' :: s) x r) {xs : List α}
    (hx : ∀ x ∈ xs, ∀ {r}, Ends r → item (write x ++ r) x r) (r : List Char) :
    Items item closing (commaSeparated (xs.map write) ++ closing :: r) xs r := by
  induction xs with
  | nil => exact .none (.done _)
  | cons x xs ih =>
    have hfirst : ∀ {r}, Ends r → item (write x ++ r) x r := hx x List.mem_cons_self
    have hrest := ih fun y hy => hx y (List.mem_cons_of_mem _ hy)
    cases xs with
    | nil =>
      have hs : commaSeparated ([x].map write) = write x := by
        simp [commaSeparated, List.intercalate]
      rw [hs]
      exact .last (hfirst (ends_cons hc)) (.done _)
    | cons y ys =>
      have hs : commaSeparated ((x :: y :: ys).map write) ++ closing :: r =
          write x ++ ',' :: ' ' :: (commaSeparated ((y :: ys).map write) ++ closing :: r) := by
        simp [commaSeparated, comma, List.intercalate]
      rw [hs]
      exact .more (hfirst (ends_cons (by decide))) (.done _) (hrest.blank hskip)

end

/-! ## Values -/

/-- What the printer writes so that it reads back: literals, and finite floats with a text that
reads back. -/
structure IsPrintable (v : Value) : Prop where
  literal : v.IsLiteral
  readsBack : ∀ x ∈ v.float?, isFinite x = true ∧ readFloat (floatLayout.text x) = some x

theorem Expr.blank {d : Nat} {s r : List Char} {v : Value} (h : Expr d s v r) :
    Expr d (' ' :: s) v r :=
  h.trivia (.blank (by decide) (.done _))

section
variable {d : Nat} {r : List Char}

theorem items_charsEach (closing : Char) (hc : isDelimiter closing = true) {vs : List Value}
    (h : ∀ v ∈ vs, ∀ {r}, Ends r → Expr d (v.chars ++ r) v r) :
    Items (Expr d) closing (commaSeparated (charsEach vs) ++ closing :: r) vs r := by
  rw [charsEach_eq_map]
  exact items_commaSeparated hc Expr.blank h r

theorem items_entryChars {es : List (Value × Value)}
    (hk : ∀ e ∈ es, ∀ {r}, Ends r → Expr d (e.1.chars ++ r) e.1 r)
    (hv : ∀ e ∈ es, ∀ {r}, Ends r → Expr d (e.2.chars ++ r) e.2 r) :
    Items (Entry (Expr d)) '\x7d' (commaSeparated (entryChars es) ++ '\x7d' :: r) es r := by
  rw [entryChars_eq_map]
  refine items_commaSeparated (by decide) ?_ (fun e he r hr => ?_) r
  · rintro s e r ⟨a, b, hkey, hm, hcontent⟩
    exact ⟨a, b, hkey.blank, hm, hcontent⟩
  · rw [List.append_assoc]
    exact ⟨_, _, hk e he (ends_cons (by decide)), .done _, (hv e he hr).blank⟩

theorem form_tuple {vs : List Value} (h : ∀ v ∈ vs, ∀ {r}, Ends r → Expr d (v.chars ++ r) v r) :
    Form (Expr d) ((tuple vs).chars ++ r) (.tuple vs) r := by
  have hitems := items_charsEach (r := r) ')' (by decide) h
  match vs with
  | [] => exact .emptyTuple (.done _)
  | [v] =>
    simp only [Value.chars, charsEach, List.cons_append, List.append_assoc]
    exact .tuple (h v (by simp) (ends_cons (by decide))) (.done _) (.none (.done _))
  | v :: w :: vs =>
    simp only [Value.chars, charsEach, List.cons_append, List.append_assoc, List.nil_append]
      at hitems ⊢
    cases hitems with
    | more hv hm hrest => exact .tuple hv hm hrest

theorem form_set {vs : List Value} (hl : (set vs).IsLiteral)
    (h : ∀ v ∈ vs, ∀ {r}, Ends r → Expr d (v.chars ++ r) v r) :
    Form (Expr d) ((set vs).chars ++ r) (.set vs) r := by
  have hitems := items_charsEach (r := r) '\x7d' (by decide) h
  match vs with
  | [] => exact .emptySet ⟨rfl, fun c hc => by cases hc; decide⟩ (.done _) (.done _)
  | v :: vs =>
    have hform := Form.set hitems (by simp) hl.hashable
    rw [setOf_of_noRepeats hl.noRepeats] at hform
    simpa [Value.chars, charsEach] using hform

theorem form_map {es : List (Value × Value)} (hl : (map es).IsLiteral)
    (hk : ∀ e ∈ es, ∀ {r}, Ends r → Expr d (e.1.chars ++ r) e.1 r)
    (hv : ∀ e ∈ es, ∀ {r}, Ends r → Expr d (e.2.chars ++ r) e.2 r) :
    Form (Expr d) ((map es).chars ++ r) (.map es) r := by
  have hitems := items_entryChars (r := r) hk hv
  match es with
  | [] => exact .emptyMap (.done _)
  | e :: es =>
    have hform := Form.map hitems (by simp) hl.hashable
    rw [mapOf_of_noRepeats hl.noRepeats] at hform
    simpa [Value.chars] using hform

end

/-- The printed form of a value is an expression that writes the value. -/
theorem expr_chars {v : Value} (hv : v.Everywhere IsPrintable) {d : Nat}
    (hd : FitsAt maxDepth d v) {r : List Char} (hr : Ends r) : Expr d (v.chars ++ r) v r := by
  induction v using children_induction generalizing d r with
  | step v ih =>
    -- what is inside stands one level deeper, and may be followed by any delimiter
    have inside : ∀ w ∈ v.children, ∀ {r}, Ends r → Expr (d + 1) (w.chars ++ r) w r :=
      fun w hw r hr => ih w hw (hv.child hw) (hd.child hw) hr
    have hself := hv.self
    have hword : ∀ c ∈ r.head?, isWordChar c = false := fun c hc =>
      (not_continues_of_isDelimiter (hr c hc)).2.2.2.2.2.2.1
    refine expr_iff.2 ⟨hd.le, _, .done _, ?_⟩
    cases v with
    | absent => exact .absent ⟨rfl, hword⟩
    | bool b =>
      cases b with
      | false => exact .false ⟨rfl, hword⟩
      | true => exact .true ⟨rfl, hword⟩
    | int n => exact form_int n hr
    | float x =>
      obtain ⟨hfinite, hread⟩ := hself.readsBack x rfl
      exact form_float hfinite hread hr
    | str s => exact form_str s hr
    | decimal _ => exact hself.literal.kind.elim
    | custom _ => exact hself.literal.kind.elim
    | list vs =>
      have hitems := items_charsEach (r := r) ']' (by decide) inside
      simpa [Value.chars, children] using Form.list hitems
    | tuple vs => exact form_tuple inside
    | set vs => exact form_set hself.literal inside
    | map es =>
      exact form_map hself.literal
        (fun e he => inside e.1 (mem_children_map.2 ⟨e, he, Or.inl rfl⟩))
        (fun e he => inside e.2 (mem_children_map.2 ⟨e, he, Or.inr rfl⟩))

/-! ## Whole texts -/

/-- A printable value that fits at depth zero is read back from its text. -/
theorem parse_render_of_fitsAt {v : Value} (hv : v.Everywhere IsPrintable)
    (hd : FitsAt maxDepth 0 v) : parse v.render = .ok v := by
  have hexpr := expr_chars hv hd (r := []) (by simp [Ends])
  rw [List.append_nil] at hexpr
  rw [whole_of_parse, whole_eq_ok_iff, render, String.toList_ofList]
  exact ⟨[], hexpr, .done _⟩

/-- Reading undoes printing, if the texts of the finite floats in the value read back: on every
literal whose floats are finite and that nests at most 64 containers, and on whatever was read and
holds no infinite float. -/
theorem parse_render (v : Value)
    (hread : v.Everywhere fun w => ∀ x ∈ w.float?, isFinite x = true →
      readFloat (floatLayout.text x) = some x) :
    (v.Everywhere IsLiteral → (v.Everywhere fun w => ∀ x ∈ w.float?, isFinite x = true) →
      v.nesting ≤ 64 → parse v.render = .ok v) ∧
    ∀ raw, parse raw = .ok v → (v.Everywhere fun w => ∀ x ∈ w.float?, ¬ IsInfinite x) →
      parse v.render = .ok v := by
  constructor
  · intro hl hf hn
    refine parse_render_of_fitsAt ?_ (fitsAt_of_nesting hn)
    exact ((hl.and hf).and hread).imp fun w hw =>
      ⟨hw.1.1, fun x hx => ⟨hw.1.2 x hx, hw.2 x hx (hw.1.2 x hx)⟩⟩
  · intro raw hraw hi
    obtain ⟨hwell, hfits⟩ := wellFormed_of_parse hraw
    refine parse_render_of_fitsAt ?_ hfits
    refine ((hwell.and hi).and hread).imp fun w hw => ⟨hw.1.1.literal, fun x hx => ?_⟩
    have hfinite := (hw.1.1.number x hx).isFinite (hw.1.2 x hx)
    exact ⟨hfinite, hw.2 x hx hfinite⟩

end

open Payloads.Integers in
/-- A list that is read back from its text, and that was read from another text. -/
theorem parse_render_mixed :
    ((list [float 2.5, str "it's"]).nesting ≤ 64 ∧
      parse (list [float 2.5, str "it's"]).render = .ok (list [float 2.5, str "it's"])) ∧
    (parse "[25e-1, # half\n 'it' \"'s\",]" = .ok (list [float 2.5, str "it's"]) ∧
      parse (list [float 2.5, str "it's"]).render = .ok (list [float 2.5, str "it's"])) := by
  have everywhere : ∀ {P : Value → Prop}, P (list [float 2.5, str "it's"]) → P (float 2.5) →
      P (str "it's") → (list [float 2.5, str "it's"]).Everywhere P := fun hlist hfloat hstr =>
    .intro hlist fun w hw => by
      rcases List.mem_cons.1 hw with rfl | hw
      · exact .leaf hfloat rfl
      · rw [List.mem_singleton.1 hw]
        exact .leaf hstr rfl
  have floats : ∀ {P : Float → Prop}, P 2.5 →
      (list [float 2.5, str "it's"]).Everywhere fun w => ∀ x ∈ w.float?, P x := fun hp =>
    everywhere (by simp [float?]) (by simpa [float?] using hp) (by simp [float?])
  have hread := floats (P := fun x => isFinite x = true → readFloat (floatLayout.text x) = some x)
    fun _ => by decide +kernel
  have hraw : parse "[25e-1, # half\n 'it' \"'s\",]" = .ok (list [float 2.5, str "it's"]) := rfl
  refine ⟨⟨by decide, (parse_render _ hread).1 ?_ ?_ (by decide)⟩, hraw,
    (parse_render _ hread).2 _ hraw ?_⟩
  · exact everywhere ⟨trivial, trivial, trivial⟩ ⟨trivial, trivial, trivial⟩
      ⟨trivial, trivial, trivial⟩
  · exact floats (by decide +kernel)
  · exact floats (by unfold IsInfinite; decide +kernel)

end TypedSettings.Literal
