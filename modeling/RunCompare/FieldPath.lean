/-
Dotted paths to the fields of a record.
-/

namespace RunCompare

/-- The names that lead from a record to one of its fields, outermost first. -/
structure FieldPath where
  segments : List String
deriving DecidableEq, Repr

namespace FieldPath

/-- The path that a text writes with points between its segments; a text with an empty segment
writes none. -/
def ofText? (text : String) : Option FieldPath :=
  let segments := text.toList.splitOn '.'
  if segments.any List.isEmpty then none else some ⟨segments.map String.ofList⟩

/-- The segments with points between them. -/
def text (p : FieldPath) : String := ".".intercalate p.segments

end FieldPath

end RunCompare
