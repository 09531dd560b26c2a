import OxigraphCloud.Primitives.Chain
import OxigraphCloud.Storage.Dataset

namespace Memory

-- The versions in which a quad or a named graph exists.
inductive VersionRange
  | empty
  | start (start : ℕ)
  | startEnd (start finish : ℕ)
  | bigger (range : List ℕ)
  deriving DecidableEq

namespace VersionRange

-- The loop over `range.chunks(2)`.
def chunksContain (version : ℕ) : List ℕ → Bool
  | s :: finish :: range => s ≤ version && version < finish || chunksContain version range
  | [s]                  => s ≤ version
  | []                   => false

def contains (version : ℕ) : VersionRange → Bool
  | empty             => false
  | start s           => s ≤ version
  | startEnd s finish => s ≤ version && version < finish
  | bigger range      => chunksContain version range

-- The range with the version added, and whether this has changed anything.
def add (version : ℕ) : VersionRange → Bool × VersionRange
  | empty             => (true, start version)
  | start s           => (false, start s)
  | startEnd s finish => (true, if version = finish then start s else bigger [s, finish, version])
  | bigger vec        =>
    if vec.length % 2 = 0 then
      (true, bigger (if vec.getLast? = some version then vec.dropLast else vec ++ [version]))
    else
      (false, bigger vec)

-- What is left if the last entry is taken away.
def pop : List ℕ → VersionRange
  | [s, finish, _] => startEnd s finish
  | vec            => bigger vec.dropLast

def remove (version : ℕ) : VersionRange → Bool × VersionRange
  | empty             => (false, empty)
  | startEnd s finish => (false, startEnd s finish)
  | start s           => (true, if s = version then empty else startEnd s version)
  | bigger vec        =>
    if vec.length % 2 = 0 then
      (false, bigger vec)
    else
      (true, if vec.getLast? = some version then pop vec else bigger (vec ++ [version]))

def upgradeTransaction (transactionId versionId : ℕ) : VersionRange → VersionRange
  | empty             => empty
  | start s           => start (if s = transactionId then versionId else s)
  | startEnd s finish => startEnd s (if finish = transactionId then versionId else finish)
  | bigger vec        =>
    bigger (if vec.getLast? = some transactionId then vec.set (vec.length - 1) versionId else vec)

def rollbackTransaction (transactionId : ℕ) : VersionRange → VersionRange
  | empty             => empty
  | start s           => if s = transactionId then empty else start s
  | startEnd s finish => if finish = transactionId then start s else startEnd s finish
  | bigger vec        => if vec.getLast? = some transactionId then pop vec else bigger vec

end VersionRange

-- There is one node for each quad, and nodes are never removed. A reference to a node is the quad
-- of the node.
structure QuadListNode where
  quad       : EncodedQuad
  range      : VersionRange
  previous   : Option EncodedQuad
  -- `previous_subject`, `previous_predicate`, `previous_object` and `previous_graph_name`
  previousBy : Position → Option EncodedQuad

-- The nodes are listed from the newest one to the oldest one.
structure Content where
  quadSet    : List QuadListNode
  lastQuad   : Option EncodedQuad
  -- `last_quad_by_subject`, `last_quad_by_predicate`, `last_quad_by_object` and
  -- `last_quad_by_graph_name`: the last node of each list and the length of the list.
  lastQuadBy : Position → EncodedTerm → Option (EncodedQuad × ℕ)
  graphs     : List (EncodedTerm × VersionRange)

namespace Content

def empty : Content where
  quadSet        := []
  lastQuad       := none
  lastQuadBy _ _ := none
  graphs         := []

def node (content : Content) (quad : EncodedQuad) : Option QuadListNode :=
  Keyed.get QuadListNode.quad quad content.quadSet

def graph (content : Content) (graphName : EncodedTerm) : Option VersionRange :=
  (Keyed.get Prod.fst graphName content.graphs).map Prod.snd

end Content

-- Neither counter leaves the range of `usize` in the first 2^63 transactions.
structure MemoryStorage where
  content            : Content
  id2str             : StrHash → Option String
  versionCounter     : ℕ
  transactionCounter : ℕ

def MemoryStorage.new : MemoryStorage where
  content            := .empty
  id2str _           := none
  versionCounter     := 0
  -- `usize::MAX >> 1`
  transactionCounter := 2 ^ 63 - 1

inductive QuadIteratorKind
  | all
  | position (p : Position)

def QuadListNode.previousIn (node : QuadListNode) : QuadIteratorKind → Option EncodedQuad
  | .all        => node.previous
  | .position p => node.previousBy p

-- The content is shared with the transactions: what a reader or an iterator finds depends on the
-- content at the time when it looks at it.
structure MemoryStorageReader where
  snapshotId : ℕ

structure QuadIterator where
  reader  : MemoryStorageReader
  current : Option EncodedQuad
  kind    : QuadIteratorKind
  -- `expect_subject`, `expect_predicate`, `expect_object` and `expect_graph_name`
  expect  : Position → Option EncodedTerm

namespace MemoryStorageReader

variable (r : MemoryStorageReader) (content : Content)

def isInRange (range : VersionRange) : Bool := range.contains r.snapshotId

def isNodeInRange (node : QuadListNode) : Bool := r.isInRange node.range

def len : ℕ := (content.quadSet.filter r.isNodeInRange).length

def isEmpty : Bool := !content.quadSet.any r.isNodeInRange

def contains (quad : EncodedQuad) : Bool := (content.node quad).any r.isNodeInRange

def u64Max : ℕ := 2 ^ 64 - 1

def getStartAndCount (p : Position) : Option EncodedTerm → Option EncodedQuad × ℕ
  | none      => (none, u64Max)
  | some term =>
    match content.lastQuadBy p term with
    | some (quad, count) => (some quad, count)
    | none               => (none, 0)

-- The shortest list, where the earlier position is taken if there are several.
def choose (pattern : Pattern) : Option EncodedQuad × QuadIteratorKind :=
  let (subjectStart, subjectCount)     := getStartAndCount content .subject pattern.subject
  let (predicateStart, predicateCount) := getStartAndCount content .predicate pattern.predicate
  let (objectStart, objectCount)       := getStartAndCount content .object pattern.object
  let (graphNameStart, graphNameCount) := getStartAndCount content .graphName pattern.graphName
  if pattern.subject.isSome ∧ subjectCount ≤ predicateCount ∧ subjectCount ≤ objectCount ∧
      subjectCount ≤ graphNameCount then
    (subjectStart, .position .subject)
  else if pattern.predicate.isSome ∧ predicateCount ≤ objectCount ∧
      predicateCount ≤ graphNameCount then
    (predicateStart, .position .predicate)
  else if pattern.object.isSome ∧ objectCount ≤ graphNameCount then
    (objectStart, .position .object)
  else if pattern.graphName.isSome then
    (graphNameStart, .position .graphName)
  else
    (content.lastQuad, .all)

def quadsForPattern (pattern : Pattern) : QuadIterator :=
  let (start, kind) := choose content pattern
  {
    reader  := r
    current := start
    kind
    expect  := fun p =>
      match kind with
      | .position p' => if p = p' then none else pattern.term p
      | .all         => pattern.term p
  }

def namedGraphs : List EncodedTerm :=
  (content.graphs.filter fun entry => r.isInRange entry.2).map Prod.fst

def containsNamedGraph (graphName : EncodedTerm) : Bool := (content.graph graphName).any r.isInRange

end MemoryStorageReader

namespace QuadIterator

def expects (it : QuadIterator) (quad : EncodedQuad) : Bool :=
  [Position.subject, .predicate, .object, .graphName].all fun p =>
    match it.expect p with
    | some term => quad.term p = term
    | none      => true

-- The loop of `next` ends because every reference leads to an older node. The first argument bounds
-- the number of nodes that are left.
def nextIn (content : Content) : ℕ → QuadIterator → Option EncodedQuad × QuadIterator
  | 0, it     => (none, it)
  | n + 1, it =>
    match it.current.bind content.node with
    | none         => (none, { it with current := none })
    | some current =>
      let it := { it with current := current.previousIn it.kind }
      if !it.reader.isNodeInRange current then
        nextIn content n it
      else if !it.expects current.quad then
        nextIn content n it
      else
        (some current.quad, it)

def next (content : Content) (it : QuadIterator) : Option EncodedQuad × QuadIterator :=
  it.nextIn content content.quadSet.length

end QuadIterator

namespace MemoryStorage

def snapshot (storage : MemoryStorage) : MemoryStorageReader where
  snapshotId := storage.versionCounter

def getStr (storage : MemoryStorage) (key : StrHash) : Option String := storage.id2str key

end MemoryStorage

end Memory
