/-
Reading values of TOML texts.

Every function reads from the start of a text and returns what it read with the
rest of the text.  Values nest in arrays and braces up to a limit.
-/
import RunCompare.Toml.Key
import RunCompare.Toml.Moment
import RunCompare.Toml.Number

namespace RunCompare.Toml

mutual

/-- The value at the start of a text, inside of `depth` arrays and braces. -/
def readValue : (fuel depth : Nat) → List Char → Option (Toml × List Char)
  | 0, _, _ => none
  | fuel + 1, depth, cs =>
    match cs with
    | [] => none
    | c :: rest =>
      if c = '"' ∨ c = '\'' then (readString cs).map fun (s, rest) => (text s, rest)
      else if c = '[' then
        if nestingBound ≤ depth + 1 then none else readElements fuel (depth + 1) [] rest
      else if c = '{' then
        if nestingBound ≤ depth + 1 then none
        else
          match skipGaps rest with
          | '}' :: rest => some (table .braces [], rest)
          | rest => readDefinitions fuel (depth + 1) [] rest
      else if c = 't' then (Text.afterWord "true" cs).map fun rest => (bool true, rest)
      else if c = 'f' then (Text.afterWord "false" cs).map fun rest => (bool false, rest)
      else
        match readMoment cs with
        | some read => some read
        | none => readNumber cs

/-- The elements of an array up to its closing bracket, after those already read. -/
def readElements : (fuel depth : Nat) → List Toml → List Char → Option (Toml × List Char)
  | 0, _, _, _ => none
  | fuel + 1, depth, done, cs => do
    match ← skipLines cs.length cs with
    | ']' :: rest => return (array done.reverse, rest)
    | cs =>
      let (v, rest) ← readValue fuel depth cs
      match ← skipLines rest.length rest with
      | ',' :: rest => readElements fuel depth (v :: done) rest
      | ']' :: rest => return (array (v :: done).reverse, rest)
      | _ => none

/-- The definitions in braces up to the closing one, after those already read. -/
def readDefinitions : (fuel depth : Nat) → List (List String × Toml) → List Char →
    Option (Toml × List Char)
  | 0, _, _, _ => none
  | fuel + 1, depth, done, cs => do
    let (key, rest) ← readKey cs
    let (v, rest) ← readValue fuel depth (skipGaps (← Text.afterChar '=' rest))
    match skipGaps rest with
    | ',' :: rest => readDefinitions fuel depth ((key, v) :: done) rest
    | '}' :: rest => return (← ofBraces ((key, v) :: done).reverse, rest)
    | _ => none

end

end RunCompare.Toml
