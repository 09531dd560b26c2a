import OxigraphCloud.Storage.Readable

-- The terms that may stand in subject position.
def Rdf.Term.asSubject : Rdf.Term → Option Rdf.NamedOrBlankNode
  | namedNode node => some (.namedNode node)
  | blankNode node => some (.blankNode node)
  | triple _ _ _   => none
  | literal _      => none

-- SPARQL update operations. Finding the solutions of a `WHERE` clause is not modeled: they are
-- whatever the query evaluator gives.
namespace Sparql

open Rdf

abbrev Variable := String

abbrev QuerySolution := Variable → Option Term

abbrev QueryEvaluationError := String

inductive NamedNodePattern
  | namedNode (node : NamedNode)
  | var (name : Variable)

inductive TermPattern
  | namedNode (node : NamedNode)
  | blankNode (node : BlankNode)
  | literal (literal : Literal)
  | triple (subject : TermPattern) (predicate : NamedNodePattern) (object : TermPattern)
  | var (name : Variable)

inductive GroundTermPattern
  | namedNode (node : NamedNode)
  | literal (literal : Literal)
  | triple (subject : GroundTermPattern) (predicate : NamedNodePattern) (object : GroundTermPattern)
  | var (name : Variable)

inductive GraphNamePattern
  | namedNode (node : NamedNode)
  | defaultGraph
  | var (name : Variable)

structure QuadPattern where
  subject   : TermPattern
  predicate : NamedNodePattern
  object    : TermPattern
  graphName : GraphNamePattern

structure GroundQuadPattern where
  subject   : GroundTermPattern
  predicate : NamedNodePattern
  object    : GroundTermPattern
  graphName : GraphNamePattern

inductive DeleteInsertQuad
  | delete (quad : Quad)
  | insert (quad : Quad)

-- A solution, and the blank nodes that are drawn for the labels in the templates it is filled into.
-- They are drawn anew for each solution.
structure Row where
  solution : QuerySolution
  bnodes   : BlankNode → BlankNode

namespace Row

variable (row : Row)

def fillNamedNodeOrVar : NamedNodePattern → Option NamedNode
  | .namedNode node => some node
  | .var v =>
    match row.solution v with
    | some (.namedNode node) => some node
    | _                      => none

def fillGraphNameOrVar : GraphNamePattern → Option GraphName
  | .namedNode node => some (.namedNode node)
  | .defaultGraph   => some .defaultGraph
  | .var v =>
    match row.solution v with
    | some (.namedNode node) => some (.namedNode node)
    | some (.blankNode node) => some (.blankNode node)
    | _                      => none

-- `fill_term_or_var` and `fill_triple_pattern`
def fillTermOrVar : TermPattern → Option Term
  | .namedNode node  => some (.namedNode node)
  | .blankNode bnode => some (.blankNode (row.bnodes bnode))
  | .literal literal => some (.literal literal)
  | .triple subject predicate object => do
    let subject ← (← fillTermOrVar subject).asSubject
    return .triple subject (← row.fillNamedNodeOrVar predicate) (← fillTermOrVar object)
  | .var v => row.solution v

-- `fill_ground_term_or_var` and `fill_ground_triple_pattern`
def fillGroundTermOrVar : GroundTermPattern → Option Term
  | .namedNode node  => some (.namedNode node)
  | .literal literal => some (.literal literal)
  | .triple subject predicate object => do
    let subject ← (← fillGroundTermOrVar subject).asSubject
    return .triple subject (← row.fillNamedNodeOrVar predicate) (← fillGroundTermOrVar object)
  | .var v => row.solution v

def fillQuadPattern (quad : QuadPattern) : Option Quad := do
  let subject ← (← row.fillTermOrVar quad.subject).asSubject
  return {
    subject
    predicate := ← row.fillNamedNodeOrVar quad.predicate
    object    := ← row.fillTermOrVar quad.object
    graphName := ← row.fillGraphNameOrVar quad.graphName
  }

def fillGroundQuadPattern (quad : GroundQuadPattern) : Option Quad := do
  let subject ← (← row.fillGroundTermOrVar quad.subject).asSubject
  return {
    subject
    predicate := ← row.fillNamedNodeOrVar quad.predicate
    object    := ← row.fillGroundTermOrVar quad.object
    graphName := ← row.fillGraphNameOrVar quad.graphName
  }

end Row

structure DeleteInsertIter where
  solutions : List (Except QueryEvaluationError Row)
  delete    : List GroundQuadPattern
  insert    : List QuadPattern
  buffer    : List DeleteInsertQuad

namespace DeleteInsertIter

-- What one solution pushes to the buffer.
def fill (delete : List GroundQuadPattern) (insert : List QuadPattern) (row : Row) :
    List DeleteInsertQuad :=
  (delete.filterMap row.fillGroundQuadPattern).map .delete ++
    (insert.filterMap row.fillQuadPattern).map .insert

-- The loop of `next` runs until there is something in the buffer.
def nextFrom (it : DeleteInsertIter) : List (Except QueryEvaluationError Row) →
    List DeleteInsertQuad →
    Option (Except QueryEvaluationError DeleteInsertQuad) × DeleteInsertIter
  | solutions, quad :: buffer      => (some (.ok quad), { it with solutions, buffer })
  | [], []                         => (none, { it with solutions := [], buffer := [] })
  | .error e :: solutions, []      => (some (.error e), { it with solutions, buffer := [] })
  | .ok solution :: solutions, []  => it.nextFrom solutions (fill it.delete it.insert solution)

def next (it : DeleteInsertIter) :
    Option (Except QueryEvaluationError DeleteInsertQuad) × DeleteInsertIter :=
  it.nextFrom it.solutions it.buffer

-- All items that the iterator gives.
def items (it : DeleteInsertIter) : List (Except QueryEvaluationError DeleteInsertQuad) :=
  it.buffer.map .ok ++ it.solutions.flatMap fun
    | .ok row  => (fill it.delete it.insert row).map .ok
    | .error e => [.error e]

-- `collect::<Result<Vec<_>, _>>()`
def collect (it : DeleteInsertIter) : Except QueryEvaluationError (List DeleteInsertQuad) :=
  it.items.mapM id

end DeleteInsertIter

-- What both evaluators write to.
structure Target (τ : Type) where
  insert : Quad → τ → τ
  remove : Quad → τ → τ

namespace Target

variable (target : Target τ)

def mutate (t : τ) : DeleteInsertQuad → τ
  | .delete quad => target.remove quad t
  | .insert quad => target.insert quad t

-- `eval_delete_insert` of both evaluators, after the query evaluator has started to give solutions.
def evalDeleteInsert (delete : List GroundQuadPattern) (insert : List QuadPattern)
    (solutions : List (Except QueryEvaluationError Row)) (t : τ) :
    Except QueryEvaluationError Unit × τ :=
  match DeleteInsertIter.collect { solutions, delete, insert, buffer := [] } with
  | .error e      => (.error e, t)
  | .ok mutations => (.ok (), mutations.foldl target.mutate t)

end Target

end Sparql

-- The readable transactions of the key-value backends as targets of an update.
def ReadableBackend.target (b : ReadableBackend τ) : Sparql.Target τ where
  insert := b.insert
  remove := b.remove

-- The datasets that the transactions stand for as targets of an update.
def Dataset.target (enc : Encoder) : Sparql.Target Dataset where
  insert quad D := D.insert (enc.encodeQuad quad).canonical
  remove quad D := D.remove (enc.encodeQuad quad).canonical
