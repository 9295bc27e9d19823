import TypedSettings.Environment.Basic

/-!
# Environment blocks

A process is given its environment as one block of bytes: a name, an equals sign and a text for each
variable, each ended by a zero byte. Bytes that are no characters set nothing. Main statement: of
several texts of one variable the first counts (`ofEntries_cons`).
-/

namespace TypedSettings.Environment

/-- The pieces of a block between zero bytes. -/
def blockPieces : List UInt8 → List (List UInt8)
  | [] => []
  | b :: r =>
    if b = 0 then [] :: blockPieces r
    else
      match blockPieces r with
      | [] => [[b]]
      | p :: ps => (b :: p) :: ps

/-- The variable that a piece sets. The name has at least one character before the equals sign. -/
def blockEntry (piece : List UInt8) : Option (String × String) := do
  let text ← String.fromUTF8? ⟨piece.toArray⟩
  match text.toList with
  | [] => none
  | c :: r =>
    match r.dropWhile (· ≠ '=') with
    | [] => none
    | _ :: value => return (String.ofList (c :: r.takeWhile (· ≠ '=')), String.ofList value)

/-- The environment of a list of variables; of several texts of one variable the first counts. -/
def ofEntries : List (String × String) → Environment
  | [] => empty
  | (name, text) :: rest => (ofEntries rest).set name text

def ofBlock (block : ByteArray) : Environment :=
  ofEntries ((blockPieces block.toList).filterMap blockEntry)

theorem ofEntries_cons (name text : String) (rest : List (String × String)) (other : String) :
    ofEntries ((name, text) :: rest) other =
      if other = name then some text else ofEntries rest other := rfl

end TypedSettings.Environment
