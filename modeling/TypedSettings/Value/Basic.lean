import TypedSettings.Number.Decimal
import TypedSettings.Value.Payload

/-!
# Setting values

The values that a setting can have: those that a literal can write, decimals, and values of
user-defined types. Equality tells kinds apart, is numeric on floats and decimals, and ignores the
order of sets and maps. The main statements unfold it kind by kind (`equal_list`, `equal_set`,
`equal_map`).
-/

namespace TypedSettings

variable [Payloads]

/-- A value of a setting. Sets and maps keep the order in which they were built. -/
inductive Value where
  | absent
  | bool (b : Bool)
  | int (n : Int64)
  | float (x : Float)
  | str (s : String)
  | decimal (d : Decimal)
  | list (items : List Value)
  | tuple (items : List Value)
  | set (members : List Value)
  | map (entries : List (Value × Value))
  | custom (c : Custom)

namespace Value

def typeName : Value → String
  | absent => "None"
  | bool _ => "bool"
  | int _ => "int"
  | float _ => "float"
  | str _ => "str"
  | decimal _ => "Decimal"
  | list _ => "list"
  | tuple _ => "tuple"
  | set _ => "set"
  | map _ => "dict"
  | custom c => c.typeName

/-! ## Hashable values -/

mutual

/-- `Value::is_hashable`: lists, sets and maps are not, and a tuple is if all of its items are. -/
def hashable : Value → Bool
  | list _ | set _ | map _ => false
  | tuple items => allHashable items
  | _ => true
termination_by structural v => v

def allHashable : List Value → Bool
  | [] => true
  | v :: vs => hashable v && allHashable vs
termination_by structural vs => vs

end

theorem allHashable_eq_all (vs : List Value) : allHashable vs = vs.all hashable := by
  induction vs with
  | nil => rfl
  | cons v vs ih => simp [allHashable, ih]

/-! ## Equality -/

/-- Whether two values are equal. Every member of the first set is looked for in the second, and
every entry of the first map in the second. -/
def equal : Value → Value → Bool
  | absent, absent => true
  | bool a, bool b => a == b
  | int a, int b => a == b
  | float a, float b => a == b
  | str a, str b => a == b
  | decimal a, decimal b => a.equal b
  | list a, list b => a.length == b.length && (a.attach.zip b.attach).all fun p => equal p.1 p.2
  | tuple a, tuple b => a.length == b.length && (a.attach.zip b.attach).all fun p => equal p.1 p.2
  | set a, set b => a.length == b.length && a.attach.all fun x => b.attach.any fun y => equal y x
  | map a, map b =>
    a.length == b.length && a.attach.all fun x => b.attach.any fun y =>
      equal x.1.1 y.1.1 && equal x.1.2 y.1.2
  | custom a, custom b => a == b
  | _, _ => false
termination_by a b => sizeOf a + sizeOf b
decreasing_by
  · have := List.sizeOf_lt_of_mem p.1.2
    have := List.sizeOf_lt_of_mem p.2.2
    simp only [list.sizeOf_spec]
    omega
  · have := List.sizeOf_lt_of_mem p.1.2
    have := List.sizeOf_lt_of_mem p.2.2
    simp only [tuple.sizeOf_spec]
    omega
  · have := List.sizeOf_lt_of_mem x.2
    have := List.sizeOf_lt_of_mem y.2
    simp only [set.sizeOf_spec]
    omega
  · obtain ⟨⟨xk, xv⟩, hx⟩ := x
    obtain ⟨⟨yk, yv⟩, hy⟩ := y
    have := List.sizeOf_lt_of_mem hx
    have := List.sizeOf_lt_of_mem hy
    simp only [map.sizeOf_spec, Prod.mk.sizeOf_spec] at *
    omega
  · obtain ⟨⟨xk, xv⟩, hx⟩ := x
    obtain ⟨⟨yk, yv⟩, hy⟩ := y
    have := List.sizeOf_lt_of_mem hx
    have := List.sizeOf_lt_of_mem hy
    simp only [map.sizeOf_spec, Prod.mk.sizeOf_spec] at *
    omega

omit [Payloads] in
theorem attach_zip_all {α : Type} (f : α → α → Bool) (a b : List α) :
    ((a.attach.zip b.attach).all fun p => f p.1 p.2) = (a.zip b).all fun p => f p.1 p.2 := by
  have h : a.zip b = (a.attach.zip b.attach).map (Prod.map Subtype.val Subtype.val) := by
    rw [← List.zip_map, List.attach_map_subtype_val, List.attach_map_subtype_val]
  rw [h, List.all_map]
  rfl

theorem equal_list (a b : List Value) :
    equal (list a) (list b) = (a.length == b.length && (a.zip b).all fun p => equal p.1 p.2) := by
  rw [equal, attach_zip_all]

theorem equal_tuple (a b : List Value) :
    equal (tuple a) (tuple b) = (a.length == b.length && (a.zip b).all fun p => equal p.1 p.2) := by
  rw [equal, attach_zip_all]

theorem equal_set (a b : List Value) :
    equal (set a) (set b) = (a.length == b.length && a.all fun x => b.any fun y => equal y x) := by
  rw [equal]
  congr 1
  rw [Bool.eq_iff_iff]
  simp

theorem equal_map (a b : List (Value × Value)) :
    equal (map a) (map b) =
      (a.length == b.length && a.all fun x => b.any fun y => equal x.1 y.1 && equal x.2 y.2) := by
  rw [equal]
  congr 1
  rw [Bool.eq_iff_iff]
  simp only [List.all_eq_true, List.any_eq_true, List.mem_attach, true_and, Subtype.exists,
    Subtype.forall, forall_const, exists_prop]

/-! ## Building sets and maps -/

/-- Adds a member unless an equal one is there. -/
def addMember (members : List Value) (v : Value) : List Value :=
  if members.any (equal · v) then members else members ++ [v]

/-- `Value::set_from`: the set of some values, each at its first place. -/
def setOf (vs : List Value) : Value := set (vs.foldl addMember [])

/-- Adds an entry; an equal key that is there keeps its place and takes the new value. -/
def putEntry (k v : Value) : List (Value × Value) → List (Value × Value)
  | [] => [(k, v)]
  | e :: es => if equal e.1 k then (e.1, v) :: es else e :: putEntry k v es

/-- `Value::map_from`: the map of some entries: each key at its first place, with its last
value. -/
def mapOf (es : List (Value × Value)) : Value :=
  map (es.foldl (fun acc e => putEntry e.1 e.2 acc) [])

/-! ## Views -/

def bool? : Value → Option Bool
  | bool b => some b
  | _ => none

def int? : Value → Option Int64
  | int n => some n
  | _ => none

def float? : Value → Option Float
  | float x => some x
  | _ => none

def str? : Value → Option String
  | str s => some s
  | _ => none

def payload? : Value → Option Payload
  | custom c => some c.payload
  | _ => none

end Value

end TypedSettings
