import TypedSettings.Toml.Parser

/-!
# What a document keeps

A change of a table under construction may add to it, but it takes no value away and puts none in
the place of another. Main statements: a value that has been read still stands in its place at the
end of the document (`kept_lines`), and the finished table has it there (`find?_finishEntries`).
-/

namespace TypedSettings.Toml

section
variable {v : Toml} {es es' es'' : Entries} {key : String} {node : Node} {keys : List String}
  {draft draft' : Draft}

/-- A path of keys leads through tables to a value. -/
inductive HasLeaf (v : Toml) : List String → Entries → Prop where
  | here {key : String} {es : Entries} (h : nodeOf? key es = some (.leaf v)) : HasLeaf v [key] es
  | inside {key : String} {keys : List String} {origin : Origin} {inner es : Entries}
      (h : nodeOf? key es = some (.table origin inner)) (hinner : HasLeaf v keys inner) :
      HasLeaf v (key :: keys) es

/-- Every value of the entries has its place in the others. -/
def Kept (es es' : Entries) : Prop := ∀ v keys, HasLeaf v keys es → HasLeaf v keys es'

/-- A node that may be put in the place of another: no other for a value, and for a table one that
keeps its values. -/
def Node.KeptIn : Node → Node → Prop
  | .leaf v, node => node = .leaf v
  | .table _ es, node => ∃ origin es', node = .table origin es' ∧ Kept es es'
  | .tables _, _ => True

theorem kept_refl (es : Entries) : Kept es es := fun _ _ h => h

theorem Kept.trans (h : Kept es es') (h' : Kept es' es'') : Kept es es'' :=
  fun v keys hleaf => h' v keys (h v keys hleaf)

/-! ## Changes of a table -/

theorem kept_putEntry (h : ∀ old, nodeOf? key es = some old → old.KeptIn node) :
    Kept es (putEntry key node es) := by
  intro v keys hleaf
  cases hleaf with
  | @here other _ hother =>
    refine .here ?_
    rw [nodeOf_putEntry]
    split
    · rename_i hkey
      subst hkey
      rw [h _ hother]
    · exact hother
  | @inside other _ origin inner _ hother hinner =>
    by_cases hkey : key = other
    · subst hkey
      obtain ⟨origin', inner', rfl, hkept⟩ := h _ hother
      exact .inside (by rw [nodeOf_putEntry, if_pos rfl]) (hkept _ _ hinner)
    · exact .inside (by rw [nodeOf_putEntry, if_neg hkey, hother]) hinner

theorem kept_putEntry_of_new (h : nodeOf? key es = none) : Kept es (putEntry key node es) := by
  refine kept_putEntry fun old hold => ?_
  rw [h] at hold
  cases hold

theorem kept_putEntry_of_some {old : Node} (hold : nodeOf? key es = some old)
    (h : old.KeptIn node) : Kept es (putEntry key node es) := by
  refine kept_putEntry fun other hother => ?_
  rw [hold] at hother
  cases hother
  exact h

/-- A change of a table keeps what it holds. -/
def Keeping (change : Origin → Entries → Except Cause Entries) : Prop :=
  ∀ origin es es', change origin es = .ok es' → Kept es es'

theorem keeping_addKey (viaPath : Bool) (key : String) (v : Toml) :
    Keeping (addKey viaPath key v) := by
  intro origin es es' h
  unfold addKey at h
  split at h
  · split at h
    · cases h
    · rename_i hnew
      cases h
      exact kept_putEntry_of_new (by simpa using hnew)
  · cases h

theorem keeping_openTable (key : String) : Keeping (openTable key) := by
  intro origin es es' h
  unfold openTable at h
  split at h
  · rename_i hnew
    cases h
    exact kept_putEntry_of_new hnew
  · rename_i inner himplied
    cases h
    exact kept_putEntry_of_some himplied ⟨_, _, rfl, kept_refl inner⟩
  · cases h

theorem keeping_openElement (key : String) : Keeping (openElement key) := by
  intro origin es es' h
  unfold openElement at h
  split at h
  · rename_i hnew
    cases h
    exact kept_putEntry_of_new hnew
  · rename_i elements helements
    cases h
    exact kept_putEntry_of_some helements trivial
  · cases h

theorem bind_eq_ok {α β : Type} {x : Except Cause α} {f : α → Except Cause β} {b : β} :
    (x >>= f) = .ok b ↔ ∃ a, x = .ok a ∧ f a = .ok b := by
  cases x <;> simp [bind, Except.bind]

/-- A change at the end of a path keeps what the tables on the way hold. -/
theorem keeping_changeAt {change : Origin → Entries → Except Cause Entries} (h : Keeping change)
    (dotted : Bool) (path : List String) :
    Keeping fun origin es => changeAt dotted change origin es path := by
  induction path with
  | nil => exact h
  | cons key path ih =>
    intro origin es es' hchange
    simp only [changeAt] at hchange
    split at hchange
    · rename_i hnew
      obtain ⟨inner, _, hput⟩ := bind_eq_ok.1 hchange
      cases hput
      exact kept_putEntry_of_new hnew
    · cases hchange
    · rename_i elements helements
      obtain ⟨inner, _, hput⟩ := bind_eq_ok.1 hchange
      cases hput
      exact kept_putEntry_of_some helements trivial
    · rename_i made old htable
      split at hchange
      · cases hchange
      · obtain ⟨inner, hinner, hput⟩ := bind_eq_ok.1 hchange
        cases hput
        exact kept_putEntry_of_some htable ⟨_, _, rfl, ih _ _ _ hinner⟩

theorem keeping_putKey (path : List String) (key : String) (v : Toml) :
    Keeping (putKey path key v) :=
  keeping_changeAt (keeping_addKey _ key v) true path

/-! ## Lines of a document -/

theorem kept_put {k : Key} (h : draft.put k v = .ok draft') :
    Kept draft.entries draft'.entries := by
  obtain ⟨es, hchange, hes⟩ := bind_eq_ok.1 h
  cases hes
  exact keeping_changeAt (keeping_putKey k.path k.name v) false _ _ _ _ hchange

theorem kept_openHeader {element : Bool} {k : Key} (h : draft.openHeader element k = .ok draft') :
    Kept draft.entries draft'.entries := by
  obtain ⟨es, hchange, hes⟩ := bind_eq_ok.1 h
  cases hes
  cases element with
  | false => exact keeping_changeAt (keeping_openTable k.name) false _ _ _ _ hchange
  | true => exact keeping_changeAt (keeping_openElement k.name) false _ _ _ _ hchange

theorem place_eq_ok {place r r' : List Char} {x : Except Cause Draft}
    (h : Draft.place place x r = .ok (draft, r')) : x = .ok draft := by
  cases x <;> cases h
  rfl

/-- What putting a key with its value and opening a header keep true of a draft, a line does. -/
theorem line_invariant {P : Draft → Prop}
    (hput : ∀ {draft draft' k v s r}, keyValue (value maxDepth) s = .ok ((k, v), r) →
      draft.put k v = .ok draft' → P draft → P draft')
    (hopen : ∀ {draft draft' element k}, draft.openHeader element k = .ok draft' →
      P draft → P draft')
    {s r : List Char} (h : line draft s = .ok (draft', r)) (hdraft : P draft) : P draft' := by
  unfold line at h
  split at h
  · obtain ⟨k, rest, _, h⟩ := Step.next_eq_ok.1 h
    split at h
    · cases h
    · exact hopen (place_eq_ok h) hdraft
  · obtain ⟨k, rest, _, h⟩ := Step.next_eq_ok.1 h
    split at h
    · cases h
    · exact hopen (place_eq_ok h) hdraft
  · obtain ⟨⟨k, v⟩, rest, hread, h⟩ := Step.next_eq_ok.1 h
    exact hput hread (place_eq_ok h) hdraft

/-- What putting a key with its value and opening a header keep true of a draft, a document does. -/
theorem lines_invariant {P : Draft → Prop}
    (hput : ∀ {draft draft' k v s r}, keyValue (value maxDepth) s = .ok ((k, v), r) →
      draft.put k v = .ok draft' → P draft → P draft')
    (hopen : ∀ {draft draft' element k}, draft.openHeader element k = .ok draft' →
      P draft → P draft')
    {n : Nat} {s : List Char} (h : lines n draft s = .ok draft') (hdraft : P draft) :
    P draft' := by
  induction n generalizing draft s with
  | zero => cases h
  | succ n ih =>
    unfold lines at h
    split at h
    · cases h
      exact hdraft
    · split at h
      · cases h
      · rename_i next rest hline
        split at h
        · cases h
        · refine ih h ?_
          split at hline
          · cases hline
            exact hdraft
          · exact line_invariant hput hopen hline hdraft

/-- What has been read of a document is still there at its end. -/
theorem kept_lines {n : Nat} {s : List Char} (h : lines n draft s = .ok draft') :
    Kept draft.entries draft'.entries :=
  lines_invariant (P := fun next => Kept draft.entries next.entries)
    (fun _ hput hkept => hkept.trans (kept_put hput))
    (fun hopen hkept => hkept.trans (kept_openHeader hopen)) h (kept_refl _)

/-! ## Finished tables -/

theorem find?_finishEntries (es : Entries) (key : String) :
    Table.find? (finishEntries es) key = (nodeOf? key es).map Node.finish := by
  induction es with
  | nil => rfl
  | cons e es ih =>
    rw [finishEntries, Table.find?_insert, nodeOf?, ih]
    split <;> rfl

theorem ascending_finishEntries (es : Entries) : Table.Ascending (finishEntries es) := by
  induction es with
  | nil => exact List.Pairwise.nil
  | cons e es ih => exact Table.ascending_insert ih

end

end TypedSettings.Toml
