import TypedSettings.Proofs.Table
import TypedSettings.Proofs.Toml.Draft

/-!
# The keys of a document in order

However a table is written, in braces, under a header or by dotted keys, its keys ascend when it is
finished, so that it has each of them once. A value that is read is ordered in this way at every
depth (`ordered_value`), and every line of a document keeps its entries so. Main statement: all
tables of a document are ordered (`ordered_document`).
-/

namespace TypedSettings.Toml

/-- The keys of every table in the value ascend. -/
inductive Ordered : Toml → Prop where
  | text (s : String) : Ordered (.text s)
  | int (n : Int64) : Ordered (.int n)
  | float (x : Float) : Ordered (.float x)
  | bool (b : Bool) : Ordered (.bool b)
  | dateTime (d : DateTime) : Ordered (.dateTime d)
  | array {items : List Toml} (hitems : ∀ t ∈ items, Ordered t) : Ordered (.array items)
  | table {es : List (String × Toml)} (hkeys : Table.Ascending es) (hes : ∀ e ∈ es, Ordered e.2) :
      Ordered (.table es)

/-- The values that have been read under the node are ordered. -/
inductive Node.Ordered : Node → Prop where
  | leaf {v : Toml} (hv : v.Ordered) : Ordered (.leaf v)
  | table {origin : Origin} {es : Entries} (hes : ∀ e ∈ es, Ordered e.2) :
      Ordered (.table origin es)
  | tables {elements : List Entries} (helements : ∀ es ∈ elements, ∀ e ∈ es, Ordered e.2) :
      Ordered (.tables elements)

/-- The values that have been read in the entries are ordered. -/
def OrderedEntries (es : Entries) : Prop := ∀ e ∈ es, e.2.Ordered

section
variable {v : Toml} {es es' : Entries} {key : String} {node : Node} {s r : List Char}

/-! ## Finished tables -/

theorem orderedEntries_nil : OrderedEntries [] := List.forall_mem_nil _

theorem ordered_finishEntries (h : ∀ e ∈ es, e.2.finish.Ordered) :
    Ordered (.table (finishEntries es)) := by
  refine .table (ascending_finishEntries es) ?_
  induction es with
  | nil => exact List.forall_mem_nil _
  | cons e es ih =>
    obtain ⟨he, hes⟩ := List.forall_mem_cons.1 h
    intro x hx
    rcases Table.mem_insert hx with rfl | hx
    · exact he
    · exact ih hes x hx

theorem mem_finishElements {elements : List Entries} {t : Toml}
    (h : t ∈ finishElements elements) : ∃ es ∈ elements, t = .table (finishEntries es) := by
  induction elements with
  | nil => cases h
  | cons es elements ih =>
    rcases List.mem_cons.1 h with rfl | h
    · exact ⟨es, List.mem_cons_self, rfl⟩
    · obtain ⟨es', hes', rfl⟩ := ih h
      exact ⟨es', List.mem_cons_of_mem _ hes', rfl⟩

/-- A finished node is ordered. -/
theorem Node.Ordered.finish (h : node.Ordered) : node.finish.Ordered := by
  induction h with
  | leaf hv => exact hv
  | table _ ih => exact ordered_finishEntries ih
  | tables _ ih =>
    refine .array fun t ht => ?_
    obtain ⟨es, hes, rfl⟩ := mem_finishElements ht
    exact ordered_finishEntries (ih es hes)

theorem OrderedEntries.finish (h : OrderedEntries es) : Ordered (.table (finishEntries es)) :=
  ordered_finishEntries fun e he => (h e he).finish

/-! ## Changes of a table -/

theorem OrderedEntries.nodeOf? (h : OrderedEntries es) (hnode : nodeOf? key es = some node) :
    node.Ordered := by
  induction es with
  | nil => cases hnode
  | cons e es ih =>
    obtain ⟨he, hes⟩ := List.forall_mem_cons.1 h
    rw [Toml.nodeOf?] at hnode
    split at hnode
    · cases hnode
      exact he
    · exact ih hes hnode

theorem OrderedEntries.putEntry (h : OrderedEntries es) (hnode : node.Ordered) :
    OrderedEntries (putEntry key node es) := by
  induction es with
  | nil => exact List.forall_mem_singleton.2 hnode
  | cons e es ih =>
    obtain ⟨he, hes⟩ := List.forall_mem_cons.1 h
    rw [Toml.putEntry]
    split
    · exact List.forall_mem_cons.2 ⟨hnode, hes⟩
    · exact List.forall_mem_cons.2 ⟨he, ih hes⟩

/-- A change of a table keeps its entries ordered. -/
def KeepsOrder (change : Origin → Entries → Except Cause Entries) : Prop :=
  ∀ origin es es', change origin es = .ok es' → OrderedEntries es → OrderedEntries es'

theorem keepsOrder_addKey (hv : v.Ordered) (viaPath : Bool) (key : String) :
    KeepsOrder (addKey viaPath key v) := by
  intro origin es es' h hes
  unfold addKey at h
  split at h
  · split at h
    · cases h
    · cases h
      exact hes.putEntry (.leaf hv)
  · cases h

theorem keepsOrder_openTable (key : String) : KeepsOrder (openTable key) := by
  intro origin es es' h hes
  unfold openTable at h
  split at h
  · cases h
    exact hes.putEntry (.table orderedEntries_nil)
  · rename_i inner himplied
    cases h
    cases hes.nodeOf? himplied with
    | table hinner => exact hes.putEntry (.table hinner)
  · cases h

theorem keepsOrder_openElement (key : String) : KeepsOrder (openElement key) := by
  intro origin es es' h hes
  unfold openElement at h
  split at h
  · cases h
    exact hes.putEntry (.tables (List.forall_mem_singleton.2 orderedEntries_nil))
  · rename_i elements helements
    cases h
    cases hes.nodeOf? helements with
    | tables hinner =>
      refine hes.putEntry (.tables (List.forall_mem_append.2 ⟨hinner, ?_⟩))
      exact List.forall_mem_singleton.2 orderedEntries_nil
  · cases h

/-- A change at the end of a path keeps the tables on the way ordered. -/
theorem keepsOrder_changeAt {change : Origin → Entries → Except Cause Entries}
    (h : KeepsOrder change) (dotted : Bool) (path : List String) :
    KeepsOrder fun origin es => changeAt dotted change origin es path := by
  induction path with
  | nil => exact h
  | cons key path ih =>
    intro origin es es' hchange hes
    simp only [changeAt] at hchange
    split at hchange
    · obtain ⟨inner, hinner, hput⟩ := bind_eq_ok.1 hchange
      cases hput
      -- a table that is missing on the way is made empty
      exact hes.putEntry (.table (ih _ _ _ hinner orderedEntries_nil))
    · cases hchange
    · rename_i elements helements
      obtain ⟨inner, hinner, hput⟩ := bind_eq_ok.1 hchange
      cases hput
      cases hes.nodeOf? helements with
      | tables hold =>
        -- of an array of tables only the last is changed
        have hlast : OrderedEntries (elements.getLast?.getD []) := by
          cases hlast : elements.getLast? with
          | none => exact orderedEntries_nil
          | some last => exact hold last (List.mem_of_getLast? hlast)
        refine hes.putEntry (.tables (List.forall_mem_append.2 ⟨fun es' hes' => ?_, ?_⟩))
        · exact hold es' ((List.dropLast_sublist _).subset hes')
        · exact List.forall_mem_singleton.2 (ih _ _ _ hinner hlast)
    · rename_i made old htable
      split at hchange
      · cases hchange
      · obtain ⟨inner, hinner, hput⟩ := bind_eq_ok.1 hchange
        cases hput
        cases hes.nodeOf? htable with
        | table hold => exact hes.putEntry (.table (ih _ _ _ hinner hold))

theorem keepsOrder_putKey (hv : v.Ordered) (path : List String) (key : String) :
    KeepsOrder (putKey path key v) :=
  keepsOrder_changeAt (keepsOrder_addKey hv _ key) true path

/-! ## Values -/

/-- The values of the reader are ordered. -/
def ReadsOrdered (item : ValueReader) : Prop := ∀ s v r, item s = .ok (v, r) → v.Ordered

section
variable {item : ValueReader} {n : Nat}

theorem ordered_elements (hitem : ReadsOrdered item) {vs : List Toml}
    (h : elements item n s = .ok (vs, r)) : ∀ v ∈ vs, v.Ordered := by
  induction n generalizing s vs r with
  | zero => cases h
  | succ n ih =>
    unfold elements at h
    split at h
    · cases h
      exact List.forall_mem_nil _
    · obtain ⟨v, rest, hv, h⟩ := Step.next_eq_ok.1 h
      split at h
      · obtain ⟨vs, _, hvs, h⟩ := Step.next_eq_ok.1 h
        cases h
        exact List.forall_mem_cons.2 ⟨hitem _ _ _ hv, ih hvs⟩
      · split at h
        · cases h
          exact List.forall_mem_singleton.2 (hitem _ _ _ hv)
        · cases h

theorem ordered_keyValue (hitem : ReadsOrdered item) {k : Key}
    (h : keyValue item s = .ok ((k, v), r)) : v.Ordered := by
  obtain ⟨_, rest, _, h⟩ := Step.next_eq_ok.1 h
  split at h
  · cases h
  · obtain ⟨v, _, hv, h⟩ := Step.next_eq_ok.1 h
    cases h
    exact hitem _ _ _ hv

theorem ordered_members (hitem : ReadsOrdered item) (hes : OrderedEntries es)
    (h : members item n es s = .ok (es', r)) : OrderedEntries es' := by
  induction n generalizing s es with
  | zero => cases h
  | succ n ih =>
    unfold members at h
    obtain ⟨⟨k, v⟩, rest, hread, h⟩ := Step.next_eq_ok.1 h
    dsimp only at h
    split at h
    · cases h
    · rename_i next hput
      have hnext : OrderedEntries next :=
        keepsOrder_putKey (ordered_keyValue hitem hread) _ _ _ _ _ hput hes
      split at h
      · exact ih hnext h
      · split at h
        · cases h
          exact hnext
        · cases h

theorem ordered_braced (hitem : ReadsOrdered item) (h : braced item s = .ok (v, r)) :
    v.Ordered := by
  unfold braced at h
  split at h
  · cases h
    exact .table List.Pairwise.nil (List.forall_mem_nil _)
  · obtain ⟨entries, _, hread, h⟩ := Step.next_eq_ok.1 h
    cases h
    exact (ordered_members hitem orderedEntries_nil hread).finish

theorem ordered_numeral (h : numeral s = .ok (v, r)) : v.Ordered := by
  unfold numeral at h
  split at h
  · cases h
    exact .dateTime _
  · split at h
    · cases h
      exact .float _
    · split at h
      · cases h
        exact .int _
      · cases h

theorem ordered_valueFrom {inner? : Option ValueReader} (hinner : ∀ item ∈ inner?, ReadsOrdered item)
    {c : Char} (h : valueFrom inner? c s = .ok (v, r)) : v.Ordered := by
  unfold valueFrom at h
  split at h
  · obtain ⟨x, _, _, h⟩ := Step.next_eq_ok.1 h
    cases h
    exact .text x
  · split at h
    · split at h
      · cases h
      · rename_i item
        obtain ⟨vs, _, hvs, h⟩ := Step.next_eq_ok.1 h
        cases h
        exact .array (ordered_elements (hinner item rfl) hvs)
    · split at h
      · split at h
        · cases h
        · rename_i item
          exact ordered_braced (hinner item rfl) h
      · split at h
        · cases h
          exact .bool _
        · split at h
          · exact ordered_numeral h
          · cases h

/-- By induction on the levels that a value may have. -/
theorem ordered_value (n : Nat) : ReadsOrdered (value n) := by
  induction n with
  | zero =>
    intro s v r h
    cases s with
    | nil => cases h
    | cons c s => exact ordered_valueFrom (fun _ hnone => absurd hnone (Option.not_mem_none _)) h
  | succ n ih =>
    intro s v r h
    cases s with
    | nil => cases h
    | cons c s =>
      refine ordered_valueFrom (fun item hitem => ?_) h
      cases hitem
      exact ih

end

/-! ## Documents -/

theorem ordered_put {draft draft' : Draft} {k : Key} (hv : v.Ordered)
    (h : draft.put k v = .ok draft') (hdraft : OrderedEntries draft.entries) :
    OrderedEntries draft'.entries := by
  obtain ⟨es, hchange, hes⟩ := bind_eq_ok.1 h
  cases hes
  exact keepsOrder_changeAt (keepsOrder_putKey hv k.path k.name) false _ _ _ _ hchange hdraft

theorem ordered_openHeader {draft draft' : Draft} {element : Bool} {k : Key}
    (h : draft.openHeader element k = .ok draft') (hdraft : OrderedEntries draft.entries) :
    OrderedEntries draft'.entries := by
  obtain ⟨es, hchange, hes⟩ := bind_eq_ok.1 h
  cases hes
  cases element with
  | false => exact keepsOrder_changeAt (keepsOrder_openTable k.name) false _ _ _ _ hchange hdraft
  | true => exact keepsOrder_changeAt (keepsOrder_openElement k.name) false _ _ _ _ hchange hdraft

/-- All tables of a document are ordered, and the table of the whole document is. -/
theorem ordered_document {t : Table Toml} (h : document s = .ok t) : Ordered (.table t) := by
  unfold document at h
  split at h
  · rename_i draft hlines
    cases h
    have hdraft : OrderedEntries draft.entries :=
      lines_invariant (P := fun draft => OrderedEntries draft.entries)
        (fun hread hput hes => ordered_put (ordered_keyValue (ordered_value _) hread) hput hes)
        ordered_openHeader hlines orderedEntries_nil
    exact hdraft.finish
  · cases h

/-- A value that stands in a document is ordered. -/
theorem ordered_of_find? {t : Table Toml} (h : document s = .ok t) {key : String}
    (hv : t.find? key = some v) : v.Ordered := by
  cases ordered_document h with
  | table _ hinner => exact hinner _ (Table.mem_of_find? hv)

theorem Ordered.ascending {es : Table Toml} (h : Ordered (.table es)) : es.Ascending := by
  cases h with
  | table hkeys _ => exact hkeys

end

end TypedSettings.Toml
