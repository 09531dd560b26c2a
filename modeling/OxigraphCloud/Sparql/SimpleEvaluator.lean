import OxigraphCloud.Primitives.PartialMap
import OxigraphCloud.Sparql.Algebra

-- The evaluator of the algebra. It takes a tuple of input bindings and gives the bag of the
-- solutions. The order in which solutions come, the errors of a storage and the cancellation of a
-- query are left out, and so is the difference between terms of the storage and of expressions.

open Rdf

namespace Sparopt

inductive TermKind
  | namedNode | blankNode | literal | triple
  deriving DecidableEq

-- The kinds of what a function gives.
def Function.kinds : Function → List TermKind
  | iri | datatype | predicate | uuid => [.namedNode]
  | bnode => [.blankNode]
  | triple => [.triple]
  | subject => [.namedNode, .blankNode]
  | object | custom _ => [.namedNode, .blankNode, .literal, .triple]
  | _ => [.literal]

-- The functions that always have a value.
def Function.isTotal (f : Function) (args : List α) : Bool :=
  f ∈ [rand, now, uuid, strUuid] || f = bnode && args.isEmpty

-- The terms with the operations that expressions are made of.
structure TermContext (T : Type) where
  kind : T → TermKind
  internalizeNamedNode : NamedNode → T
  internalizeLiteral : Literal → T
  encodeTriple : T → T → T → Option T
  decodeTriple : T → Option (T × T × T)
  effectiveBooleanValue : T → Option Bool
  equals : T → T → Option Bool
  partialCmp : T → T → Option Ordering
  arithmetic : BinaryOperator → T → T → Option T
  sign : UnaryOperator → T → Option T
  call : Function → List (Option T) → Option T
  kind_namedNode : kind (internalizeNamedNode n) = .namedNode
  kind_literal : kind (internalizeLiteral l) = .literal
  decodeTriple_iff : decodeTriple t = some (s, p, o) ↔ encodeTriple s p o = some t
  kind_triple : decodeTriple t = some (s, p, o) →
    kind t = .triple ∧ kind s ≠ .literal ∧ kind p = .namedNode
  encodeTriple_isSome : (encodeTriple (internalizeNamedNode n) (internalizeNamedNode n') t).isSome
  effectiveBooleanValue_boolean : effectiveBooleanValue (internalizeLiteral <|
    .typedLiteral (if b then "true" else "false") xsdBoolean) = some b
  kind_arithmetic : arithmetic op t t' = some u → kind u = .literal
  kind_sign : sign op' t = some u → kind u = .literal
  kind_call : call f args = some u → kind u ∈ f.kinds
  call_isSome : f.isTotal args → (call f args).isSome

abbrev InternalTuple (T : Type) := PartialMap Variable T

structure SimpleEvaluator (T : Type) extends TermContext T where
  dataset : EvalDataset T
  namedGraphs : List T
  -- The rounds that the search along a path may take.
  rounds : ℕ
  hash : List T → ℕ
  -- The order in which solutions come.
  arrange : Multiset (InternalTuple T) → List (InternalTuple T)
  integer : ℕ → Option T
  accumulator : AggregateFunction → Multiset T → Option T
  -- The answer of a service, unless it fails.
  evaluateService : T → GraphPattern → InternalTuple T → Option (Multiset (InternalTuple T))
  kind_quad : q ∈ dataset.quads → kind q.subject ≠ .literal ∧ kind q.predicate = .namedNode
  coe_arrange : (arrange s : Multiset (InternalTuple T)) = s

inductive TupleSelector (T : Type)
  | constant (c : T)
  | variable (v : Variable)
  | triplePattern (subject predicate object : TupleSelector T)

-- The expressions that are evaluated without leaving the terms of the storage.
def Expression.isInternal : Expression → Bool
  | .namedNode _ | .literal _ | .variable _ => true
  | .coalesce inner => isInternalAll inner
  | .if _ b c => b.isInternal && c.isInternal
  | _ => false
where
  isInternalAll : List Expression → Bool
    | [] => true
    | e :: es => e.isInternal && isInternalAll es

-- An error does not matter next to an argument that is true.
def logicalOr (children : List (Option Bool)) : Option Bool :=
  if some true ∈ children then some true
  else if none ∈ children then none
  else some false

def logicalAnd (children : List (Option Bool)) : Option Bool :=
  if some false ∈ children then some false
  else if none ∈ children then none
  else some true

namespace TermContext

variable {T : Type} [DecidableEq T] (C : TermContext T)

def ofBool (b : Bool) : T :=
  C.internalizeLiteral <| .typedLiteral (if b then "true" else "false") xsdBoolean

def evalBinary (a b : T) : BinaryOperator → Option T
  | .equal => C.ofBool <$> C.equals a b
  | .sameTerm => some <| C.ofBool (a = b)
  | .greater => (C.ofBool <| · = .gt) <$> C.partialCmp a b
  | .greaterOrEqual => (C.ofBool <| · ≠ .lt) <$> C.partialCmp a b
  | .less => (C.ofBool <| · = .lt) <$> C.partialCmp a b
  | .lessOrEqual => (C.ofBool <| · ≠ .gt) <$> C.partialCmp a b
  | op => C.arithmetic op a b

def evalUnary (a : T) : UnaryOperator → Option T
  | .not => (C.ofBool !·) <$> C.effectiveBooleanValue a
  | op => C.sign op a

def encodeGroundTerm : GroundTerm → Option T
  | .namedNode node => some <| C.internalizeNamedNode node
  | .literal literal => some <| C.internalizeLiteral literal
  | .triple s p o => do
    C.encodeTriple (C.internalizeNamedNode s) (C.internalizeNamedNode p) (← encodeGroundTerm o)

def fromNamedNodePattern : NamedNodePattern → TupleSelector T
  | .namedNode term => .constant (C.internalizeNamedNode term)
  | .variable v => .variable v

-- A triple of constants stays a pattern, which selects the same.
def fromGroundTermPattern : GroundTermPattern → TupleSelector T
  | .namedNode term => .constant (C.internalizeNamedNode term)
  | .literal term => .constant (C.internalizeLiteral term)
  | .triple s p o =>
    .triplePattern (fromGroundTermPattern s) (C.fromNamedNodePattern p) (fromGroundTermPattern o)
  | .variable v => .variable v

-- A triple that cannot be built is an error, which ends the evaluation without a solution.
def getPatternValue (tuple : InternalTuple T) : TupleSelector T → Option T
  | .constant c => some c
  | .variable v => tuple.lookup v
  | .triplePattern s p o => do
    C.encodeTriple (← getPatternValue tuple s) (← getPatternValue tuple p)
      (← getPatternValue tuple o)

def putPatternValue : TupleSelector T → T → InternalTuple T → Option (InternalTuple T)
  | .constant c, value, tuple => if c = value then some tuple else none
  | .variable v, value, tuple =>
    match tuple.lookup v with
    | some old => if value = old then some tuple else none
    | none => some (tuple.insert v value)
  | .triplePattern s p o, value, tuple => do
    let (subject, predicate, object) ← C.decodeTriple value
    let tuple ← putPatternValue s subject tuple
    let tuple ← putPatternValue p predicate tuple
    putPatternValue o object tuple

end TermContext

namespace SimpleEvaluator

variable {T : Type} [DecidableEq T] (E : SimpleEvaluator T)

def encodePropertyPath : PropertyPath NamedNode → PropertyPath T
  | .path node => .path (E.internalizeNamedNode node)
  | .reverse p => .reverse (encodePropertyPath p)
  | .sequence a b => .sequence (encodePropertyPath a) (encodePropertyPath b)
  | .alternative a b => .alternative (encodePropertyPath a) (encodePropertyPath b)
  | .zeroOrMore p => .zeroOrMore (encodePropertyPath p)
  | .oneOrMore p => .oneOrMore (encodePropertyPath p)
  | .zeroOrOne p => .zeroOrOne (encodePropertyPath p)
  | .negatedPropertySet ps => .negatedPropertySet (ps.map E.internalizeNamedNode)

def internalNamedGraphs : List T :=
  E.dataset.specification.named.getD E.namedGraphs

-- The value of a graph name in a tuple, where the default graph has no name.
def inputGraphName (selector : Option (TupleSelector T)) (input : InternalTuple T) :
    Option (Option T) :=
  match selector with
  | some selector => some <$> E.getPatternValue input selector
  | none => some none

def putGraphName (selector : Option (TupleSelector T)) (value : Option T)
    (tuple : InternalTuple T) : Option (InternalTuple T) :=
  match selector with
  | some selector => do E.putPatternValue selector (← value) tuple
  | none => some tuple

def encodeBinding (vars : List Variable) (row : List (Option GroundTerm)) : InternalTuple T :=
  PartialMap.setAll ∅ <| vars.zip <| row.map (·.bind E.encodeGroundTerm)

def evalValues (vars : List Variable) (bindings : List (List (Option GroundTerm)))
    (input : InternalTuple T) : List (InternalTuple T) :=
  bindings.filterMap fun row => (E.encodeBinding vars row).combineWith input

def evalQuadPattern (subject predicate object : TupleSelector T)
    (graphName : Option (TupleSelector T)) (input : InternalTuple T) : List (InternalTuple T) :=
  (E.dataset.internalQuadsForPattern (E.getPatternValue input subject)
    (E.getPatternValue input predicate) (E.getPatternValue input object)
    (E.inputGraphName graphName input)).filterMap fun quad => do
      let tuple ← E.putPatternValue subject quad.subject input
      let tuple ← E.putPatternValue predicate quad.predicate tuple
      let tuple ← E.putPatternValue object quad.object tuple
      E.putGraphName graphName quad.graphName tuple

def evalPath (subject : TupleSelector T) (path : PropertyPath T) (object : TupleSelector T)
    (graphName : Option (TupleSelector T)) (input : InternalTuple T) : List (InternalTuple T) :=
  match E.getPatternValue input subject, E.getPatternValue input object,
    E.inputGraphName graphName input with
  | some s, some o, some g =>
    if PathEvaluator.evalClosedInGraph E.dataset E.rounds path s o g = some true then [input]
    else []
  | some s, none, some g =>
    ((PathEvaluator.evalFromInGraph E.dataset E.rounds path s g).getD []).filterMap fun o =>
      E.putPatternValue object o input
  | none, some o, some g =>
    ((PathEvaluator.evalToInGraph E.dataset E.rounds path o g).getD []).filterMap fun s =>
      E.putPatternValue subject s input
  | none, none, some g =>
    ((PathEvaluator.evalOpenInGraph E.dataset E.rounds path g).getD []).filterMap fun (s, o) => do
      let tuple ← E.putPatternValue subject s input
      E.putPatternValue object o tuple
  | some s, some o, none =>
    ((PathEvaluator.evalClosedInUnknownGraph E.dataset E.rounds path s o).getD []).filterMap
      fun g => E.putGraphName graphName g input
  | some s, none, none =>
    ((PathEvaluator.evalFromInUnknownGraph E.dataset E.rounds path s).getD []).filterMap
      fun (o, g) => do
        let tuple ← E.putPatternValue object o input
        E.putGraphName graphName g tuple
  | none, some o, none =>
    ((PathEvaluator.evalToInUnknownGraph E.dataset E.rounds path o).getD []).filterMap
      fun (s, g) => do
        let tuple ← E.putPatternValue subject s input
        E.putGraphName graphName g tuple
  | none, none, none =>
    ((PathEvaluator.evalOpenInUnknownGraph E.dataset E.rounds path).getD []).filterMap
      fun (s, o, g) => do
        let tuple ← E.putPatternValue subject s input
        let tuple ← E.putPatternValue object o tuple
        E.putGraphName graphName g tuple

def evalGraph (graphName : TupleSelector T) (input : InternalTuple T) : List (InternalTuple T) :=
  match E.getPatternValue input graphName with
  | some g => if g ∈ E.internalNamedGraphs then [input] else []
  | none => E.internalNamedGraphs.filterMap fun g => E.putPatternValue graphName g input

def tupleKey (keys : List Variable) (tuple : InternalTuple T) : ℕ :=
  E.hash <| keys.filterMap tuple.lookup

-- The tuples of a set that have the same key.
def get (keys : List Variable) (s : Multiset (InternalTuple T)) (tuple : InternalTuple T) :
    Multiset (InternalTuple T) :=
  s.filter (E.tupleKey keys · = E.tupleKey keys tuple)

def hashJoin (keys : List Variable) (build probe : Multiset (InternalTuple T)) :
    Multiset (InternalTuple T) :=
  probe.bind fun tuple => (E.get keys build tuple).filterMap tuple.combineWith

-- A tuple stays alone if nothing is joined to it.
def orElse (tuple : InternalTuple T) (joined : Multiset (InternalTuple T)) :
    Multiset (InternalTuple T) :=
  if joined = 0 then {tuple} else joined

def hashLeftJoin (keys : List Variable) (expression : InternalTuple T → Bool)
    (left right : Multiset (InternalTuple T)) : Multiset (InternalTuple T) :=
  left.bind fun tuple =>
    orElse tuple <| ((E.get keys right tuple).filterMap tuple.combineWith).filter (expression ·)

def areCompatibleAndNotDisjointed (a b : InternalTuple T) : Bool :=
  PartialMap.Compatible a b && decide (a.keys ∩ b.keys ≠ ∅)

def hashMinus (keys : List Variable) (left right : Multiset (InternalTuple T)) :
    Multiset (InternalTuple T) :=
  left.filter fun tuple => ∀ t ∈ E.get keys right tuple, ¬areCompatibleAndNotDisjointed tuple t

def evalSlice (start : ℕ) (length : Option ℕ) (tuples : List (InternalTuple T)) :
    List (InternalTuple T) :=
  let rest := tuples.drop start
  length.elim rest rest.take

def evalProject (vars : List Variable) (inner : InternalTuple T → Multiset (InternalTuple T))
    (input : InternalTuple T) : Multiset (InternalTuple T) :=
  (inner (input.restrict vars)).filterMap fun tuple => input.combineWith (tuple.restrict vars)

-- There is always a single group if there are no variables to group by.
def evalGroup (vars : List Variable)
    (aggregates : Multiset (InternalTuple T) → List (Variable × Option T))
    (inner : Multiset (InternalTuple T)) : Multiset (InternalTuple T) :=
  let key (tuple : InternalTuple T) := vars.map tuple.lookup
  let groups := if vars.isEmpty then {[]} else (inner.map key).dedup
  groups.map fun k =>
    (PartialMap.setAll ∅ (vars.zip k)).setAll <| aggregates <| inner.filter (key · = k)

def accumulate (name : AggregateFunction) (isInternal distinct : Bool)
    (values : Multiset (Option T)) : Option T :=
  let results := values.filterMap id
  let results := if distinct then results.dedup else results
  if name = .count && isInternal then E.integer results.card
  -- One error makes an accumulator fail, except when any value will do.
  else if name ≠ .sample && decide (none ∈ values) then none
  else E.accumulator name results

-- The effective boolean value of an expression, where an error does not hold.
def holds (value : Option T) : Bool :=
  value.bind E.effectiveBooleanValue = some true

mutual

def evalExpression : Expression → InternalTuple T → Option T
  | .namedNode node, _ => some <| E.internalizeNamedNode node
  | .literal literal, _ => some <| E.internalizeLiteral literal
  | .variable v, tuple => tuple.lookup v
  | .or inner, tuple =>
    E.ofBool <$> logicalOr ((evalExpressions inner tuple).map (·.bind E.effectiveBooleanValue))
  | .and inner, tuple =>
    E.ofBool <$> logicalAnd ((evalExpressions inner tuple).map (·.bind E.effectiveBooleanValue))
  | .binary op a b, tuple => do
    E.evalBinary (← evalExpression a tuple) (← evalExpression b tuple) op
  | .unary op e, tuple => do E.evalUnary (← evalExpression e tuple) op
  | .exists inner, tuple => some <| E.ofBool (evalGraphPattern inner tuple ≠ 0)
  | .bound v, tuple => some <| E.ofBool (tuple.lookup v).isSome
  | .if cond then' els, tuple => do
    if ← E.effectiveBooleanValue (← evalExpression cond tuple) then evalExpression then' tuple
    else evalExpression els tuple
  | .coalesce inner, tuple => (evalExpressions inner tuple).findSome? id
  | .functionCall name args, tuple => E.call name (evalExpressions args tuple)

def evalExpressions : List Expression → InternalTuple T → List (Option T)
  | [], _ => []
  | e :: es, tuple => evalExpression e tuple :: evalExpressions es tuple

def evalGraphPattern : GraphPattern → InternalTuple T → Multiset (InternalTuple T)
  | .values vars bindings, input => E.evalValues vars bindings input
  | .quadPattern subject predicate object graphName, input =>
    E.evalQuadPattern (E.fromGroundTermPattern subject) (E.fromNamedNodePattern predicate)
      (E.fromGroundTermPattern object) (graphName.map E.fromNamedNodePattern) input
  | .path subject path object graphName, input =>
    E.evalPath (E.fromGroundTermPattern subject) (E.encodePropertyPath path)
      (E.fromGroundTermPattern object) (graphName.map E.fromNamedNodePattern) input
  | .graph graphName, input => E.evalGraph (E.fromNamedNodePattern graphName) input
  | .join left right keys, input =>
    E.hashJoin keys (evalGraphPattern left input) (evalGraphPattern right input)
  -- An optional part without anything on its left is run for each tuple.
  | .lateral left (.leftJoin nestedLeft nestedRight expression keys), input =>
    (evalGraphPattern left input).bind fun tuple =>
      if nestedLeft.isEmptySingleton then
        orElse tuple <| (evalGraphPattern nestedRight tuple).filter fun t =>
          E.holds (evalExpression expression t)
      else
        E.hashLeftJoin keys (fun t => E.holds (evalExpression expression t))
          (evalGraphPattern nestedLeft tuple) (evalGraphPattern nestedRight tuple)
  | .lateral left right, input =>
    (evalGraphPattern left input).bind fun tuple => evalGraphPattern right tuple
  | .minus left right keys, input =>
    E.hashMinus keys (evalGraphPattern left input) (evalGraphPattern right input)
  | .leftJoin left right expression keys, input =>
    E.hashLeftJoin keys (fun t => E.holds (evalExpression expression t))
      (evalGraphPattern left input) (evalGraphPattern right input)
  | .filter expression inner, input =>
    (evalGraphPattern inner input).filter fun t => E.holds (evalExpression expression t)
  | .union inner, input => evalUnion inner input
  | .extend inner var expression, input =>
    (evalGraphPattern inner input).map fun tuple =>
      (evalExpression expression tuple).elim tuple (tuple.insert var)
  | .orderBy inner _, input => evalGraphPattern inner input
  | .distinct inner, input => (evalGraphPattern inner input).dedup
  | .reduced inner, input => (E.arrange (evalGraphPattern inner input)).destutter (· ≠ ·)
  | .slice inner start length, input =>
    evalSlice start length <| E.arrange (evalGraphPattern inner input)
  | .project inner vars, input => evalProject vars (evalGraphPattern inner) input
  | .group inner vars aggregates, input =>
    evalGroup vars (evalAggregates aggregates) (evalGraphPattern inner input)
  | .service name inner silent, input =>
    match (E.getPatternValue input (E.fromNamedNodePattern name)).bind
      (E.evaluateService · inner input) with
    | some answer => answer.filterMap (·.combineWith input)
    | none => if silent then {input} else 0

def evalUnion : List GraphPattern → InternalTuple T → Multiset (InternalTuple T)
  | [], _ => 0
  | p :: ps, input => evalGraphPattern p input + evalUnion ps input

def evalAggregates : List (Variable × AggregateExpression) → Multiset (InternalTuple T) →
    List (Variable × Option T)
  | [], _ => []
  | (v, aggregate) :: aggregates, tuples =>
    (v, evalAggregate aggregate tuples) :: evalAggregates aggregates tuples

def evalAggregate : AggregateExpression → Multiset (InternalTuple T) → Option T
  | .countSolutions distinct, tuples =>
    E.integer (if distinct then tuples.dedup else tuples).card
  | .functionCall name expr distinct, tuples =>
    E.accumulate name expr.isInternal distinct <| tuples.map fun tuple => evalExpression expr tuple

end

end SimpleEvaluator

end Sparopt
