/-!
# Tables

A table pairs names with contents, in ascending order of the names. Main statements: looking up
after an insertion (`find?_insert`), and the order of the names is kept (`ascending_insert`).
-/

namespace TypedSettings

/-- Contents by name, ascending. -/
abbrev Table (α : Type) := List (String × α)

namespace Table

variable {α : Type}

def find? : Table α → String → Option α
  | [], _ => none
  | e :: t, name => if e.1 = name then some e.2 else find? t name

def has (t : Table α) (name : String) : Bool := (t.find? name).isSome

def names (t : Table α) : List String := t.map (·.1)

def insert (name : String) (content : α) : Table α → Table α
  | [] => [(name, content)]
  | e :: t =>
    if name < e.1 then (name, content) :: e :: t
    else if name = e.1 then (name, content) :: t
    else e :: insert name content t

/-- The table of a list of entries, a later entry replacing an earlier one of the same name. -/
def ofEntries (es : List (String × α)) : Table α :=
  es.foldl (fun t e => insert e.1 e.2 t) []

/-- Whether the names ascend strictly. -/
def Ascending (t : Table α) : Prop := t.Pairwise fun a b => a.1 < b.1

theorem find?_nil (name : String) : find? ([] : Table α) name = none := rfl

theorem find?_cons (e : String × α) (t : Table α) (name : String) :
    find? (e :: t) name = if e.1 = name then some e.2 else find? t name := rfl

theorem find?_insert (name : String) (content : α) (t : Table α) (other : String) :
    find? (insert name content t) other =
      if name = other then some content else find? t other := by
  induction t with
  | nil => simp [insert, find?_cons, find?_nil]
  | cons e t ih =>
    unfold insert
    split
    · rw [find?_cons]
    · split
      · rename_i h
        rw [find?_cons, find?_cons]
        by_cases hn : name = other <;> simp [← h, hn]
      · rename_i h
        rw [find?_cons, find?_cons, ih]
        by_cases hn : name = other
        · subst hn
          simp [Ne.symm h]
        · simp [hn]

theorem mem_insert {name : String} {content : α} {t : Table α} {x : String × α}
    (h : x ∈ insert name content t) : x = (name, content) ∨ x ∈ t := by
  induction t with
  | nil => simpa [insert] using h
  | cons e t ih =>
    unfold insert at h
    split at h
    · simpa using h
    · split at h
      · rcases List.mem_cons.1 h with h | h
        · exact .inl h
        · exact .inr (List.mem_cons_of_mem _ h)
      · rcases List.mem_cons.1 h with h | h
        · exact .inr (h ▸ List.mem_cons_self ..)
        · rcases ih h with h | h
          · exact .inl h
          · exact .inr (List.mem_cons_of_mem _ h)

theorem ascending_insert {name : String} {content : α} {t : Table α} (h : Ascending t) :
    Ascending (insert name content t) := by
  induction t with
  | nil => simp [insert, Ascending]
  | cons e t ih =>
    have ⟨he, ht⟩ := List.pairwise_cons.1 h
    unfold insert
    split
    · rename_i hlt
      refine List.pairwise_cons.2 ⟨fun x hx => ?_, h⟩
      rcases List.mem_cons.1 hx with rfl | hx
      · exact hlt
      · exact String.lt_trans hlt (he x hx)
    · split
      · rename_i heq
        exact List.pairwise_cons.2 ⟨fun x hx => heq ▸ he x hx, ht⟩
      · rename_i hlt hne
        refine List.pairwise_cons.2 ⟨fun x hx => ?_, ih ht⟩
        rcases mem_insert hx with rfl | hx
        · exact Decidable.byContradiction fun hge =>
            hne (String.le_antisymm (String.not_lt.1 hge) (String.not_lt.1 hlt))
        · exact he x hx

end Table

end TypedSettings
