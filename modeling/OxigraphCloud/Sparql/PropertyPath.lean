import OxigraphCloud.Primitives.Worklist

-- Evaluation of property paths. Errors of the dataset and the cancellation of a query are left out.
-- The loops have a bound on their rounds, and a result is missing when one of them is not enough.

inductive PropertyPath (T : Type)
  | path (p : T)
  | reverse (p : PropertyPath T)
  | sequence (a b : PropertyPath T)
  | alternative (a b : PropertyPath T)
  | zeroOrMore (p : PropertyPath T)
  | oneOrMore (p : PropertyPath T)
  | zeroOrOne (p : PropertyPath T)
  | negatedPropertySet (ps : List T)

structure InternalQuad (T : Type) where
  subject : T
  predicate : T
  object : T
  graphName : Option T
  deriving DecidableEq

structure EncodedDatasetSpec (T : Type) where
  -- The graphs that are merged to the default graph. Without a list it is the union of all graphs.
  default : Option (List (Option T))
  -- The named graphs in use. Without a list these are all named graphs.
  named : Option (List T)

structure EvalDataset (T : Type) where
  quads : List (InternalQuad T)
  specification : EncodedDatasetSpec T

namespace EvalDataset

variable {T : Type} [DecidableEq T] (d : EvalDataset T)

def underlyingInternalQuadsForPattern (subject predicate object : Option T)
    (graphName : Option (Option T)) : List (InternalQuad T) :=
  d.quads.filter fun q =>
    subject.all (· == q.subject) && predicate.all (· == q.predicate) &&
      object.all (· == q.object) && graphName.all (· == q.graphName)

def internalQuadsForPattern (subject predicate object : Option T) :
    Option (Option T) → List (InternalQuad T)
  -- A specific named graph. It has to be in the set of allowed named graphs.
  | some (some graphName) =>
    if d.specification.named.all (graphName ∈ ·) then
      d.underlyingInternalQuadsForPattern subject predicate object (some (some graphName))
    else
      []
  | some none =>
    match d.specification.default with
    | some defaultGraphGraphs =>
      (defaultGraphGraphs.flatMap fun graphName =>
        d.underlyingInternalQuadsForPattern subject predicate object (some graphName)).map
        ({ · with graphName := none })
    | none =>
      (d.underlyingInternalQuadsForPattern subject predicate object none).map
        ({ · with graphName := none })
  | none =>
    match d.specification.named with
    | some namedGraphs =>
      namedGraphs.flatMap fun graphName =>
        d.underlyingInternalQuadsForPattern subject predicate object (some (some graphName))
    | none =>
      (d.underlyingInternalQuadsForPattern subject predicate object none).filter
        (·.graphName.isSome)

end EvalDataset

section

variable [DecidableEq α]

def transitiveClosure (rounds : ℕ) (start : List α) (next : α → Option (List α)) :
    Option (List α) := do
  let (_, all) ← Worklist.explore next (fun _ => false) rounds start.reverse start.eraseDups
  some all

def lookInTransitiveClosure (rounds : ℕ) (start : List α) (next : α → Option (List α))
    (target : α) : Option Bool := do
  let (found, _) ← Worklist.explore next (· == target) rounds start.reverse start.eraseDups
  some found

def hashDeduplicate (iter : List α) : List α :=
  iter.eraseDups

end

namespace PathEvaluator

variable {T : Type} [DecidableEq T] (dataset : EvalDataset T) (rounds : ℕ)

def getSubjectOrObjectIdentityPairsInGraph (graphName : Option T) : List (T × T) :=
  (dataset.internalQuadsForPattern none none none (some graphName)).flatMap fun t =>
    [(t.subject, t.subject), (t.object, t.object)]

def getSubjectOrObjectIdentityPairsInDataset : List (T × T × Option T) :=
  (dataset.internalQuadsForPattern none none none none).flatMap fun t =>
    [(t.subject, t.subject, t.graphName), (t.object, t.object, t.graphName)]

def isSubjectOrObjectInGraph (term : T) (graphName : Option T) : Bool :=
  (dataset.internalQuadsForPattern (some term) none none (some graphName)).head?.isSome ||
    (dataset.internalQuadsForPattern none none (some term) (some graphName)).head?.isSome

def runIfTermIsAGraphNode (term : T) (graphName : Option T) (f : Option (List α)) :
    Option (List α) :=
  if isSubjectOrObjectInGraph dataset term graphName then f else some []

def findGraphsWhereTheNodeIsIn (term : T) : List (Option T) :=
  (dataset.internalQuadsForPattern (some term) none none none ++
    dataset.internalQuadsForPattern none none (some term) none).map (·.graphName)

-- The names of the graphs are collected in a set.
def runIfTermIsADatasetNode (term : T) (f : Option T → Option (List α)) : Option (List α) :=
  (hashDeduplicate <| findGraphsWhereTheNodeIsIn dataset term).flatMapM f

mutual

def evalFromInGraph : PropertyPath T → T → Option T → Option (List T)
  | .path p, start, graphName =>
    some <| (dataset.internalQuadsForPattern (some start) (some p) none (some graphName)).map
      (·.object)
  | .reverse p, start, graphName => evalToInGraph p start graphName
  | .sequence a b, start, graphName => do
    (← evalFromInGraph a start graphName).flatMapM fun middle =>
      evalFromInGraph b middle graphName
  | .alternative a b, start, graphName => do
    some <| hashDeduplicate <|
      (← evalFromInGraph a start graphName) ++ (← evalFromInGraph b start graphName)
  | .zeroOrMore p, start, graphName =>
    runIfTermIsAGraphNode dataset start graphName <|
      transitiveClosure rounds [start] fun e => evalFromInGraph p e graphName
  | .oneOrMore p, start, graphName => do
    transitiveClosure rounds (← evalFromInGraph p start graphName) fun e =>
      evalFromInGraph p e graphName
  | .zeroOrOne p, start, graphName =>
    runIfTermIsAGraphNode dataset start graphName do
      some <| hashDeduplicate <| start :: (← evalFromInGraph p start graphName)
  | .negatedPropertySet ps, start, graphName =>
    some <| (dataset.internalQuadsForPattern (some start) none none (some graphName)).filterMap
      fun t => if t.predicate ∈ ps then none else some t.object

def evalToInGraph : PropertyPath T → T → Option T → Option (List T)
  | .path p, end', graphName =>
    some <| (dataset.internalQuadsForPattern none (some p) (some end') (some graphName)).map
      (·.subject)
  | .reverse p, end', graphName => evalFromInGraph p end' graphName
  | .sequence a b, end', graphName => do
    (← evalToInGraph b end' graphName).flatMapM fun middle => evalToInGraph a middle graphName
  | .alternative a b, end', graphName => do
    some <| hashDeduplicate <|
      (← evalToInGraph a end' graphName) ++ (← evalToInGraph b end' graphName)
  | .zeroOrMore p, end', graphName =>
    runIfTermIsAGraphNode dataset end' graphName <|
      transitiveClosure rounds [end'] fun e => evalToInGraph p e graphName
  | .oneOrMore p, end', graphName => do
    transitiveClosure rounds (← evalToInGraph p end' graphName) fun e =>
      evalToInGraph p e graphName
  | .zeroOrOne p, end', graphName =>
    runIfTermIsAGraphNode dataset end' graphName do
      some <| hashDeduplicate <| end' :: (← evalToInGraph p end' graphName)
  | .negatedPropertySet ps, end', graphName =>
    some <| (dataset.internalQuadsForPattern none none (some end') (some graphName)).filterMap
      fun t => if t.predicate ∈ ps then none else some t.subject

end

def evalClosedInGraph : PropertyPath T → T → T → Option T → Option Bool
  | .path p, start, end', graphName =>
    some (dataset.internalQuadsForPattern (some start) (some p) (some end')
      (some graphName)).head?.isSome
  | .reverse p, start, end', graphName => evalClosedInGraph p end' start graphName
  | .sequence a b, start, end', graphName => do
    (← evalFromInGraph dataset rounds a start graphName).anyM fun middle =>
      evalClosedInGraph b middle end' graphName
  | .alternative a b, start, end', graphName => do
    if ← evalClosedInGraph a start end' graphName then
      some true
    else
      evalClosedInGraph b start end' graphName
  | .zeroOrMore p, start, end', graphName =>
    if start = end' then
      some (isSubjectOrObjectInGraph dataset start graphName)
    else do
      lookInTransitiveClosure rounds (← evalFromInGraph dataset rounds p start graphName)
        (fun e => evalFromInGraph dataset rounds p e graphName) end'
  | .oneOrMore p, start, end', graphName => do
    lookInTransitiveClosure rounds (← evalFromInGraph dataset rounds p start graphName)
      (fun e => evalFromInGraph dataset rounds p e graphName) end'
  | .zeroOrOne p, start, end', graphName =>
    if start = end' then
      some (isSubjectOrObjectInGraph dataset start graphName)
    else
      evalClosedInGraph p start end' graphName
  | .negatedPropertySet ps, start, end', graphName =>
    some <| (dataset.internalQuadsForPattern (some start) none (some end') (some graphName)).any
      fun t => t.predicate ∉ ps

def evalOpenInGraph : PropertyPath T → Option T → Option (List (T × T))
  | .path p, graphName =>
    some <| (dataset.internalQuadsForPattern none (some p) none (some graphName)).map
      fun t => (t.subject, t.object)
  | .reverse p, graphName => (evalOpenInGraph p graphName).map (List.map fun (s, o) => (o, s))
  | .sequence a b, graphName => do
    (← evalOpenInGraph a graphName).flatMapM fun (start, middle) =>
      (evalFromInGraph dataset rounds b middle graphName).map (List.map (start, ·))
  | .alternative a b, graphName => do
    some <| hashDeduplicate <| (← evalOpenInGraph a graphName) ++ (← evalOpenInGraph b graphName)
  | .zeroOrMore p, graphName =>
    transitiveClosure rounds (getSubjectOrObjectIdentityPairsInGraph dataset graphName)
      fun (start, middle) =>
        (evalFromInGraph dataset rounds p middle graphName).map (List.map (start, ·))
  | .oneOrMore p, graphName => do
    transitiveClosure rounds (← evalOpenInGraph p graphName) fun (start, middle) =>
      (evalFromInGraph dataset rounds p middle graphName).map (List.map (start, ·))
  | .zeroOrOne p, graphName => do
    some <| hashDeduplicate <|
      getSubjectOrObjectIdentityPairsInGraph dataset graphName ++ (← evalOpenInGraph p graphName)
  | .negatedPropertySet ps, graphName =>
    some <| (dataset.internalQuadsForPattern none none none (some graphName)).filterMap
      fun t => if t.predicate ∈ ps then none else some (t.subject, t.object)

mutual

def evalFromInUnknownGraph : PropertyPath T → T → Option (List (T × Option T))
  | .path p, start =>
    some <| (dataset.internalQuadsForPattern (some start) (some p) none none).map
      fun t => (t.object, t.graphName)
  | .reverse p, start => evalToInUnknownGraph p start
  | .sequence a b, start => do
    (← evalFromInUnknownGraph a start).flatMapM fun (middle, graphName) =>
      (evalFromInGraph dataset rounds b middle graphName).map (List.map (·, graphName))
  | .alternative a b, start => do
    some <| hashDeduplicate <|
      (← evalFromInUnknownGraph a start) ++ (← evalFromInUnknownGraph b start)
  | .zeroOrMore p, start =>
    runIfTermIsADatasetNode dataset start fun graphName =>
      (transitiveClosure rounds [start] fun e =>
        evalFromInGraph dataset rounds p e graphName).map (List.map (·, graphName))
  | .oneOrMore p, start => do
    transitiveClosure rounds (← evalFromInUnknownGraph p start) fun (e, graphName) =>
      (evalFromInGraph dataset rounds p e graphName).map (List.map (·, graphName))
  | .zeroOrOne p, start =>
    runIfTermIsADatasetNode dataset start fun graphName => do
      some <| (hashDeduplicate <| start :: (← evalFromInGraph dataset rounds p start graphName)).map
        (·, graphName)
  | .negatedPropertySet ps, start =>
    some <| (dataset.internalQuadsForPattern (some start) none none none).filterMap
      fun t => if t.predicate ∈ ps then none else some (t.object, t.graphName)

def evalToInUnknownGraph : PropertyPath T → T → Option (List (T × Option T))
  | .path p, end' =>
    some <| (dataset.internalQuadsForPattern none (some p) (some end') none).map
      fun t => (t.subject, t.graphName)
  | .reverse p, end' => evalFromInUnknownGraph p end'
  | .sequence a b, end' => do
    (← evalToInUnknownGraph b end').flatMapM fun (middle, graphName) =>
      (evalToInGraph dataset rounds a middle graphName).map (List.map (·, graphName))
  | .alternative a b, end' => do
    some <| hashDeduplicate <| (← evalToInUnknownGraph a end') ++ (← evalToInUnknownGraph b end')
  | .zeroOrMore p, end' =>
    runIfTermIsADatasetNode dataset end' fun graphName =>
      (transitiveClosure rounds [end'] fun e =>
        evalToInGraph dataset rounds p e graphName).map (List.map (·, graphName))
  | .oneOrMore p, end' => do
    transitiveClosure rounds (← evalToInUnknownGraph p end') fun (e, graphName) =>
      (evalToInGraph dataset rounds p e graphName).map (List.map (·, graphName))
  | .zeroOrOne p, end' =>
    runIfTermIsADatasetNode dataset end' fun graphName => do
      some <| (hashDeduplicate <| end' :: (← evalToInGraph dataset rounds p end' graphName)).map
        (·, graphName)
  | .negatedPropertySet ps, end' =>
    some <| (dataset.internalQuadsForPattern none none (some end') none).filterMap
      fun t => if t.predicate ∈ ps then none else some (t.subject, t.graphName)

end

def evalClosedInUnknownGraph : PropertyPath T → T → T → Option (List (Option T))
  | .path p, start, end' =>
    some <| (dataset.internalQuadsForPattern (some start) (some p) (some end') none).map
      (·.graphName)
  | .reverse p, start, end' => evalClosedInUnknownGraph p end' start
  | .sequence a b, start, end' => do
    (← evalFromInUnknownGraph dataset rounds a start).flatMapM fun (middle, graphName) => do
      let isFound ← evalClosedInGraph dataset rounds b middle end' graphName
      some <| if isFound then [graphName] else []
  | .alternative a b, start, end' => do
    some <| hashDeduplicate <|
      (← evalClosedInUnknownGraph a start end') ++ (← evalClosedInUnknownGraph b start end')
  | .zeroOrMore p, start, end' =>
    runIfTermIsADatasetNode dataset start fun graphName => do
      let isFound ← lookInTransitiveClosure rounds [start]
        (fun e => evalFromInGraph dataset rounds p e graphName) end'
      some <| if isFound then [graphName] else []
  | .oneOrMore p, start, end' => do
    (← evalFromInUnknownGraph dataset rounds p start).flatMapM fun (start, graphName) => do
      let isFound ← lookInTransitiveClosure rounds [start]
        (fun e => evalFromInGraph dataset rounds p e graphName) end'
      some <| if isFound then [graphName] else []
  | .zeroOrOne p, start, end' =>
    if start = end' then
      runIfTermIsADatasetNode dataset start fun graphName => some [graphName]
    else
      runIfTermIsADatasetNode dataset start fun graphName => do
        let isFound ← evalClosedInGraph dataset rounds p start end' graphName
        some <| if isFound then [graphName] else []
  | .negatedPropertySet ps, start, end' =>
    some <| (dataset.internalQuadsForPattern (some start) none (some end') none).filterMap
      fun t => if t.predicate ∈ ps then none else some t.graphName

def evalOpenInUnknownGraph : PropertyPath T → Option (List (T × T × Option T))
  | .path p =>
    some <| (dataset.internalQuadsForPattern none (some p) none none).map
      fun t => (t.subject, t.object, t.graphName)
  | .reverse p => (evalOpenInUnknownGraph p).map (List.map fun (s, o, g) => (o, s, g))
  | .sequence a b => do
    (← evalOpenInUnknownGraph a).flatMapM fun (start, middle, graphName) =>
      (evalFromInGraph dataset rounds b middle graphName).map (List.map (start, ·, graphName))
  | .alternative a b => do
    some <| hashDeduplicate <| (← evalOpenInUnknownGraph a) ++ (← evalOpenInUnknownGraph b)
  | .zeroOrMore p =>
    transitiveClosure rounds (getSubjectOrObjectIdentityPairsInDataset dataset)
      fun (start, middle, graphName) =>
        (evalFromInGraph dataset rounds p middle graphName).map (List.map (start, ·, graphName))
  | .oneOrMore p => do
    transitiveClosure rounds (← evalOpenInUnknownGraph p) fun (start, middle, graphName) =>
      (evalFromInGraph dataset rounds p middle graphName).map (List.map (start, ·, graphName))
  | .zeroOrOne p => do
    some <| hashDeduplicate <|
      getSubjectOrObjectIdentityPairsInDataset dataset ++ (← evalOpenInUnknownGraph p)
  | .negatedPropertySet ps =>
    some <| (dataset.internalQuadsForPattern none none none none).filterMap
      fun t => if t.predicate ∈ ps then none else some (t.subject, t.object, t.graphName)

end PathEvaluator
