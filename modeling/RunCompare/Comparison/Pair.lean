/-
Pairs of configurations to compare.

The baseline of a pair is the side whose name contains the word `Baseline`; if
both or neither do, it is the side declared first.
-/

namespace RunCompare

/-- Whether a text has another one as a part. -/
def occursIn (part : List Char) : List Char → Bool
  | [] => part.isEmpty
  | c :: rest => part.isPrefixOf (c :: rest) || occursIn part rest

/-- The word that marks a configuration as a baseline. -/
def baselineMarker : String := "Baseline"

/-- Whether a configuration is marked as a baseline by its name. -/
def isMarkedBaseline (name : String) : Bool := occursIn baselineMarker.toList name.toList

/-- Two configurations to compare, in declared order. -/
structure ConfigPair where
  first : String
  second : String
deriving DecidableEq, Repr

namespace ConfigPair

/-- The heading of a pair in reports. -/
def label (p : ConfigPair) : String := p.first ++ " vs " ++ p.second

/-- Whether the configuration declared first is the baseline. -/
def baselineFirst (p : ConfigPair) : Bool := isMarkedBaseline p.first || !isMarkedBaseline p.second

end ConfigPair

/-- Something for each side of a pair, in declared order. -/
structure Sides (β : Type) where
  first : β
  second : β

/-- The same function of both sides. -/
def Sides.map {β γ : Type} (f : β → γ) (s : Sides β) : Sides γ := ⟨f s.first, f s.second⟩

end RunCompare
