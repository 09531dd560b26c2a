import OxigraphCloud.Sparql.Algebra

-- The kinds of terms that the variables of a pattern may have.

namespace Sparopt

structure VariableType where
  undef : Bool := false
  namedNode : Bool := false
  blankNode : Bool := false
  literal : Bool := false
  triple : Bool := false
  deriving DecidableEq

namespace VariableType

def anyType : VariableType := ⟨true, true, true, true, true⟩
def blankNodeType : VariableType := { blankNode := true }
def literalType : VariableType := { literal := true }
def namedNodeType : VariableType := { namedNode := true }
def subjectType : VariableType := { namedNode := true, blankNode := true, triple := true }
def termType : VariableType := ⟨false, true, true, true, true⟩
def tripleType : VariableType := { triple := true }
def undefType : VariableType := { undef := true }

def bitor (a b : VariableType) : VariableType where
  undef := a.undef || b.undef
  namedNode := a.namedNode || b.namedNode
  blankNode := a.blankNode || b.blankNode
  literal := a.literal || b.literal
  triple := a.triple || b.triple

-- A variable that one side leaves open has the type of the other side.
def bitand (a b : VariableType) : VariableType where
  undef := a.undef && b.undef
  namedNode := a.namedNode && b.namedNode || a.undef && b.namedNode || a.namedNode && b.undef
  blankNode := a.blankNode && b.blankNode || a.undef && b.blankNode || a.blankNode && b.undef
  literal := a.literal && b.literal || a.undef && b.literal || a.literal && b.undef
  triple := a.triple && b.triple || a.undef && b.triple || a.triple && b.undef

def orUndef (t : VariableType) : VariableType :=
  { t with undef := true }

end VariableType

open VariableType

abbrev VariableTypes := AList fun _ : Variable => VariableType

namespace VariableTypes

def get (types : VariableTypes) (var : Variable) : VariableType :=
  (types.lookup var).getD undefType

def mapValues (f : Variable → VariableType → VariableType) (types : VariableTypes) :
    VariableTypes where
  entries := types.entries.map fun ⟨v, t⟩ => ⟨v, f v t⟩
  nodupKeys := by simpa [List.NodupKeys, List.keys, Function.comp_def] using types.nodupKeys

def filterVariables (p : Variable → Bool) (types : VariableTypes) : VariableTypes where
  entries := types.entries.filter fun ⟨v, _⟩ => p v
  nodupKeys := types.nodupKeys.sublist List.filter_sublist

def intersectVariableWith (types : VariableTypes) (var : Variable) (t : VariableType) :
    VariableTypes :=
  let t := (types.get var).bitand t
  if t ≠ undefType then types.insert var t else types

def intersectWith (types other : VariableTypes) : VariableTypes :=
  other.entries.foldl (fun types ⟨v, t⟩ => types.intersectVariableWith v t) types

def unionWith (types other : VariableTypes) : VariableTypes :=
  let types := types.mapValues fun v t => if (other.get v).undef then t.orUndef else t
  other.entries.foldl (fun types ⟨v, t⟩ =>
    types.insert v <| (types.lookup v).elim t.orUndef (·.bitor t)) types

end VariableTypes

open VariableTypes

mutual

def inferExpressionType (types : VariableTypes) : Expression → VariableType
  | .namedNode _ => namedNodeType
  | .literal _ | .exists _ | .bound _ => literalType
  | .variable v => types.get v
  | .functionCall name args =>
    match name with
    | .datatype | .iri | .predicate => namedNodeType.bitor undefType
    | .bnode => if args.isEmpty then blankNodeType else blankNodeType.bitor undefType
    | .rand | .now | .uuid | .strUuid => literalType
    | .triple => tripleType.bitor undefType
    | .subject => subjectType.bitor undefType
    | .object => termType.bitor undefType
    | .custom _ => anyType
    | _ => literalType.bitor undefType
  | .binary .sameTerm left right =>
    if (inferExpressionType types left).undef || (inferExpressionType types right).undef then
      literalType.bitor undefType
    else
      literalType
  | .or _ | .and _ | .binary _ _ _ | .unary _ _ => literalType.bitor undefType
  | .if _ then' els => (inferExpressionType types then').bitor (inferExpressionType types els)
  | .coalesce inner => inferCoalesceType types undefType inner

def inferCoalesceType (types : VariableTypes) (t : VariableType) : List Expression → VariableType
  | [] => t
  | e :: es =>
    let new := inferExpressionType types e
    let t := t.bitor new
    if !new.undef then { t with undef := false } else inferCoalesceType types t es

end

def NamedNodePattern.addTypes (pattern : NamedNodePattern) (types : VariableTypes) :
    VariableTypes :=
  match pattern with
  | .namedNode _ => types
  | .variable v => types.intersectVariableWith v namedNodeType

def addGroundTermPatternTypes (types : VariableTypes) (isObject : Bool) :
    GroundTermPattern → VariableTypes
  | .namedNode _ | .literal _ => types
  | .variable v => types.intersectVariableWith v (if isObject then termType else subjectType)
  | .triple s p o =>
    addGroundTermPatternTypes (p.addTypes <| addGroundTermPatternTypes types false s) true o

-- The type of a column of a table.
def columnType (bindings : List (List (Option GroundTerm))) (i : ℕ) : VariableType :=
  let column := bindings.map (·[i]?.join)
  { undef := column.any (·.isNone)
    namedNode := column.any fun
      | some (.namedNode _) => true
      | _ => false
    literal := column.any fun
      | some (.literal _) => true
      | _ => false
    triple := column.any fun
      | some (.triple _ _ _) => true
      | _ => false }

mutual

def inferGraphPatternTypes : GraphPattern → VariableTypes → VariableTypes
  | .quadPattern subject predicate object graphName, types =>
    let types := addGroundTermPatternTypes types false subject
    let types := predicate.addTypes types
    let types := addGroundTermPatternTypes types true object
    graphName.elim types (·.addTypes types)
  | .path subject _ object graphName, types =>
    let types := addGroundTermPatternTypes types false subject
    let types := addGroundTermPatternTypes types true object
    graphName.elim types (·.addTypes types)
  | .graph graphName, types => graphName.addTypes types
  | .join left right _, types =>
    (inferGraphPatternTypes left types).intersectWith (inferGraphPatternTypes right types)
  | .lateral left right, types => inferGraphPatternTypes right (inferGraphPatternTypes left types)
  | .leftJoin left right _ _, types =>
    -- Right might be unset.
    let rightTypes := (inferGraphPatternTypes right types).mapValues fun _ t => t.orUndef
    (inferGraphPatternTypes left types).intersectWith rightTypes
  | .minus left _ _, types => inferGraphPatternTypes left types
  | .union inner, types =>
    match inferUnionTypes inner types with
    | [] => ∅
    | t :: ts => ts.foldl unionWith t
  | .extend inner var expression, types =>
    let types := inferGraphPatternTypes inner types
    types.intersectVariableWith var (inferExpressionType types expression)
  | .project inner vars, types => (inferGraphPatternTypes inner types).filterVariables (· ∈ vars)
  | .filter _ inner, types | .distinct inner, types | .reduced inner, types
  | .orderBy inner _, types | .slice inner _ _, types => inferGraphPatternTypes inner types
  | .group inner vars aggregates, types =>
    let types := inferGraphPatternTypes inner types
    aggregates.foldl (fun types (v, _) => types.insert v anyType)
      ((inferGraphPatternTypes inner types).filterVariables (· ∈ vars))
  | .values vars bindings, types =>
    vars.zipIdx.foldl (fun types (v, i) =>
      types.intersectVariableWith v (columnType bindings i)) types
  | .service name inner silent, types =>
    let innerTypes := inferGraphPatternTypes inner types
    -- On failure there is a single empty solution.
    if silent then innerTypes.unionWith types else name.addTypes innerTypes

def inferUnionTypes : List GraphPattern → VariableTypes → List VariableTypes
  | [], _ => []
  | p :: ps, types => inferGraphPatternTypes p types :: inferUnionTypes ps types

end

end Sparopt
