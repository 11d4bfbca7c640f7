/-
Grouping by a key, in order of first appearance.
-/

namespace RunCompare

/-- Items with one key: the first of them and the ones that followed. -/
structure Group (κ τ : Type) where
  key : κ
  first : τ
  rest : List τ

namespace Group

variable {κ τ : Type}

/-- The items of a group, in order. -/
def members (g : Group κ τ) : List τ := g.first :: g.rest

/-- Puts an item at the end of the group with its key, or into a new group at the end. -/
def place [DecidableEq κ] (key : κ) (item : τ) : List (Group κ τ) → List (Group κ τ)
  | [] => [⟨key, item, []⟩]
  | g :: groups =>
    if g.key = key then { g with rest := g.rest ++ [item] } :: groups
    else g :: place key item groups

end Group

/-- The groups of a list by a key: groups in order of their first items, items in their own
order. -/
def groupBy {κ τ : Type} [DecidableEq κ] (key : τ → κ) (items : List τ) : List (Group κ τ) :=
  items.foldl (fun groups item => Group.place (key item) item groups) []

end RunCompare
