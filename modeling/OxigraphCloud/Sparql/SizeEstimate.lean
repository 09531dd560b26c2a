import OxigraphCloud.Sparql.TypeInference

-- The estimates of sizes by which the optimizer orders joins. A computation that leaves the range
-- of the machine integers has no result.

namespace Sparopt

def usizeMax : ℕ := 2 ^ 64 - 1

def saturatingAdd (a b : ℕ) : ℕ := min (a + b) usizeMax

def saturatingMul (a b : ℕ) : ℕ := min (a * b) usizeMax

def saturatingPow (a b : ℕ) : ℕ := min (a ^ b) usizeMax

-- A division by zero is not saved by the saturation.
def saturatingDiv (a b : ℕ) : Option ℕ := if b = 0 then none else some (a / b)

-- `a - b`
def sub (a b : ℕ) : Option ℕ := if b ≤ a then some (a - b) else none

-- `u32::try_from`
def toU32 (n : ℕ) : Option ℕ := if n < 2 ^ 32 then some n else none

def isNamedNodePatternBound (pattern : NamedNodePattern) (inputTypes : VariableTypes) : Bool :=
  match pattern with
  | .namedNode _ => true
  | .variable v => !(inputTypes.get v).undef

def isTermPatternBound (pattern : GroundTermPattern) (inputTypes : VariableTypes) : Bool :=
  match pattern with
  | .namedNode _ | .literal _ => true
  | .variable v => !(inputTypes.get v).undef
  | .triple s p o =>
    isTermPatternBound s inputTypes && isNamedNodePatternBound p inputTypes &&
      isTermPatternBound o inputTypes

def estimateTriplePatternSize (subjectBound predicateBound objectBound : Bool) : ℕ :=
  match subjectBound, predicateBound, objectBound with
  | true, true, true => 1
  | true, true, false => 10
  | true, false, true => 2
  | false, true, true => 10_000
  | true, false, false => 100
  | false, false, false => 1_000_000_000
  | false, true, false => 1_000_000
  | false, false, true => 100_000

def estimatePathSize (startBound : Bool) (path : PropertyPath NamedNode) (endBound : Bool) : ℕ :=
  match path with
  | .path _ => estimateTriplePatternSize startBound true endBound
  | .reverse p => estimatePathSize endBound p startBound
  | .sequence a b =>
    -- We do a for loop join in the best direction.
    min
      (saturatingMul (estimatePathSize startBound a false) (estimatePathSize true b endBound))
      (saturatingMul (estimatePathSize startBound a true) (estimatePathSize false b endBound))
  | .alternative a b =>
    saturatingAdd (estimatePathSize startBound a endBound) (estimatePathSize startBound b endBound)
  | .zeroOrMore p =>
    if startBound && endBound then 1
    else if startBound || endBound then saturatingMul (estimatePathSize startBound p endBound) 1000
    else 1_000_000_000
  | .oneOrMore p =>
    if startBound && endBound then 1
    else saturatingMul (estimatePathSize startBound p endBound) 1000
  | .zeroOrOne p =>
    if startBound && endBound then 1
    else if startBound || endBound then estimatePathSize startBound p endBound
    else 1_000_000_000
  | .negatedPropertySet _ => estimateTriplePatternSize startBound false endBound

-- The part of the pairs that is expected to agree on the keys.
def hashJoinSize (left right : ℕ) (keys : List Variable) : Option ℕ := do
  saturatingDiv (saturatingMul left right) (saturatingPow 1_000 (← toU32 keys.length))

mutual

def estimateGraphPatternSize : GraphPattern → VariableTypes → Option ℕ
  | .values _ bindings, _ => some bindings.length
  | .quadPattern subject predicate object _, inputTypes =>
    some <| estimateTriplePatternSize (isTermPatternBound subject inputTypes)
      (isNamedNodePatternBound predicate inputTypes) (isTermPatternBound object inputTypes)
  | .path subject path object _, inputTypes =>
    some <| estimatePathSize (isTermPatternBound subject inputTypes) path
      (isTermPatternBound object inputTypes)
  | .graph graphName, inputTypes =>
    some <| if isNamedNodePatternBound graphName inputTypes then 100 else 1
  | .join left right keys, inputTypes => do
    hashJoinSize (← estimateGraphPatternSize left inputTypes)
      (← estimateGraphPatternSize right inputTypes) keys
  | .leftJoin left right _ keys, inputTypes => do
    let leftSize ← estimateGraphPatternSize left inputTypes
    let rightTypes := inferGraphPatternTypes right inputTypes
    let size ← hashJoinSize leftSize (← estimateGraphPatternSize right rightTypes) keys
    return max leftSize size
  | .lateral left right, inputTypes => do
    let leftTypes := inferGraphPatternTypes left inputTypes
    return saturatingMul (← estimateGraphPatternSize left inputTypes)
      (← estimateGraphPatternSize right leftTypes)
  | .union inner, inputTypes => do
    return (← estimateUnionSizes inner inputTypes).foldl saturatingAdd 0
  | .minus left _ _, inputTypes => estimateGraphPatternSize left inputTypes
  | .filter _ inner, inputTypes | .extend inner _ _, inputTypes | .orderBy inner _, inputTypes
  | .project inner _, inputTypes | .distinct inner, inputTypes | .reduced inner, inputTypes
  | .group inner _ _, inputTypes | .service _ inner _, inputTypes =>
    estimateGraphPatternSize inner inputTypes
  | .slice inner start length, inputTypes => do
    let inner ← estimateGraphPatternSize inner inputTypes
    match length with
    | some length => return min inner (← sub length start)
    | none => return inner

def estimateUnionSizes : List GraphPattern → VariableTypes → Option (List ℕ)
  | [], _ => some []
  | p :: ps, inputTypes => do
    return (← estimateGraphPatternSize p inputTypes) :: (← estimateUnionSizes ps inputTypes)

end

def estimateJoinCost (left right : GraphPattern) (keys : List Variable)
    (inputTypes : VariableTypes) : Option ℕ := do
  hashJoinSize (← estimateGraphPatternSize left inputTypes)
    (← estimateGraphPatternSize right inputTypes) keys

def estimateLateralCost (left : GraphPattern) (leftTypes : VariableTypes) (right : GraphPattern)
    (inputTypes : VariableTypes) : Option ℕ := do
  return saturatingMul (← estimateGraphPatternSize left inputTypes)
    (← estimateGraphPatternSize right leftTypes)

end Sparopt
