/-!
Edit distance of two texts: the fewest single-character insertions, deletions and replacements
that turn one into the other. Of the table of prefix distances two rows are kept, which change
places whenever the lower one is complete. Beside it, the nearest of some candidate names.
-/

namespace Formula.Text

/-- Two rows of the table: the last complete one, and one that is written over from the left. -/
structure Rows where
  previous : Array Nat
  current : Array Nat

namespace Rows

/-- The rows at the start. The complete one has the distances from the empty text to each prefix of
the target. -/
def first (target : List Char) : Rows where
  previous := Array.range (target.length + 1)
  current := Array.replicate (target.length + 1) 0

/-- Writes the entry behind column `j`, for the character `c` of the row and `d` of the column. -/
def write (c : Char) (rows : Rows) : Char × Nat → Rows
  | (d, j) =>
    let deleted := rows.previous.getD (j + 1) 0 + 1
    let inserted := rows.current.getD j 0 + 1
    let replaced := rows.previous.getD j 0 + if c = d then 0 else 1
    let least := min (min deleted inserted) replaced
    { rows with current := rows.current.setIfInBounds (j + 1) least }

/-- Writes the row for the character `c` at `i` and makes it the complete one. -/
def next (target : List Char) (rows : Rows) : Char × Nat → Rows
  | (c, i) =>
    let started := { rows with current := rows.current.setIfInBounds 0 (i + 1) }
    let written := target.zipIdx.foldl (write c) started
    { previous := written.current, current := written.previous }

end Rows

/-- The edit distance of two lists of characters. -/
def distanceOf (source target : List Char) : Nat :=
  (source.zipIdx.foldl (Rows.next target) (Rows.first target)).previous.getD target.length 0

/-- The edit distance of two texts, counted in characters. -/
def distance (source target : String) : Nat :=
  distanceOf source.toList target.toList

/-- One step in the search for the nearest name: `candidate` replaces `best` if it lies below
`bound` and nearer. -/
def nearer (name : String) (bound : Nat) (best : Option (String × Nat)) (candidate : String) :
    Option (String × Nat) :=
  let d := distance name candidate
  if d < bound then
    match best with
    | some (_, b) => if d < b then some (candidate, d) else best
    | none => some (candidate, d)
  else best

/-- The candidate nearest to `name`, of those nearer than `bound`; the first of several. -/
def nearest? (name : String) (candidates : List String) (bound : Nat) : Option String :=
  (candidates.foldl (nearer name bound) none).map (·.1)

/-- How far a name may be mistyped and still be recognised: any distance below this. -/
def typoBound : Nat := 2

/-- A hint for an unknown name: the nearest of the valid names, in the order given, if one is near,
and otherwise all of them. -/
def suggestion? (name : String) (valid : List String) : Option String :=
  match nearest? name valid typoBound with
  | some closest => some ("did you mean `" ++ closest ++ "`?")
  | none =>
    let all := ", ".intercalate valid
    if all.isEmpty then none else some ("valid names are " ++ all)

end Formula.Text
