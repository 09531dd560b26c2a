import OxigraphCloud.Objects.Rdf
import OxigraphCloud.Primitives.Bytes

-- What the server sees of a `Store`, and of the libraries that it is made of.

namespace Rdf

def GraphName.toNode : GraphName → Option NamedOrBlankNode
  | namedNode node => some (.namedNode node)
  | blankNode node => some (.blankNode node)
  | defaultGraph   => none

-- `rename_blank_nodes`: each blank node of a document gets a new name.
section Rename

variable (names : BlankNode → BlankNode)

def NamedOrBlankNode.rename : NamedOrBlankNode → NamedOrBlankNode
  | namedNode node => namedNode node
  | blankNode node => blankNode (names node)

def Term.rename : Term → Term
  | namedNode node => namedNode node
  | blankNode node => blankNode (names node)
  | literal l      => literal l
  | triple subject predicate object => triple (subject.rename names) predicate (rename object)

def GraphName.rename : GraphName → GraphName
  | namedNode node => namedNode node
  | blankNode node => blankNode (names node)
  | defaultGraph   => defaultGraph

def Quad.rename (quad : Quad) : Quad where
  subject   := quad.subject.rename names
  predicate := quad.predicate
  object    := quad.object.rename names
  graphName := quad.graphName.rename names

end Rename

end Rdf

@[ext]
structure Store where
  quads       : Finset Rdf.Quad
  namedGraphs : Finset Rdf.NamedOrBlankNode
  deriving DecidableEq

-- Which calls of one transaction the storage refuses, and with which error.
structure Faults where
  start  : Option String
  commit : Option String

namespace Faults

def none : Faults where
  start  := .none
  commit := .none

def isNone (faults : Faults) : Bool := faults.start.isNone && faults.commit.isNone

end Faults

namespace Store

def empty : Store where
  quads       := ∅
  namedGraphs := ∅

def len (s : Store) : ℕ := s.quads.card

def insert (s : Store) (quad : Rdf.Quad) : Store where
  quads       := Insert.insert quad s.quads
  namedGraphs := s.namedGraphs ∪ quad.graphName.toNode.toFinset

def remove (s : Store) (quad : Rdf.Quad) : Store where
  quads       := s.quads.erase quad
  namedGraphs := s.namedGraphs

def insertAll (s : Store) (quads : List Rdf.Quad) : Store := quads.foldl insert s

def removeAll (s : Store) (quads : List Rdf.Quad) : Store := quads.foldl remove s

-- `start_transaction`, then `body` on the transaction, then `commit`. A transaction that is dropped
-- leaves no trace.
def transact (s : Store) (faults : Faults) (storageError : String → ε)
    (body : Store → Except ε Store) : Except ε Unit × Store :=
  match faults.start with
  | some e => (.error (storageError e), s)
  | none =>
    match body s with
    | .error e => (.error e, s)
    | .ok s' =>
      match faults.commit with
      | some e => (.error (storageError e), s)
      | none   => (.ok (), s')

end Store

inductive RdfFormat
  | jsonLd
  | n3
  | nQuads
  | nTriples
  | rdfXml
  | triG
  | turtle
  deriving DecidableEq

-- A parsed SPARQL update.
structure Update where
  -- On a store: the operations read one state of the store, and the transaction is committed to a
  -- later one if there are other writers.
  onStore       : Store → Store → Except String Store
  onTransaction : Store → Except String Store

structure CompiledShapes where
  schema     : String
  shapeCount : ℕ
  deriving DecidableEq

inductive ShaclError
  | shapeCompilation (message : String)
  | storeSerialization (message : String)
  | dataLoading (message : String)
  | validationEngine (message : String)

structure ValidationReport where
  conforms : Bool
  json     : String

structure Services where
  -- The order in which a set of quads is iterated over.
  scan            : Finset Rdf.Quad → List Rdf.Quad
  mem_scan        : ∀ {quads quad}, quad ∈ scan quads ↔ quad ∈ quads
  nodup_scan      : ∀ {quads}, (scan quads).Nodup
  fromMediaType   : String → Option RdfFormat
  parse           : RdfFormat → Bytes → List (Except String Rdf.Quad)
  serializeNQuads : List Rdf.Quad → String
  parseUpdate     : String → Except String Update
  -- The results of a query, as JSON.
  query           : String → Store → Except String String
  parseForm       : Bytes → List (String × String)
  utf8Error       : Bytes → String
  compileShapes   : String → Except ShaclError CompiledShapes
  -- The validation engine gets the triples of all graphs.
  validate        : CompiledShapes → List (Rdf.NamedOrBlankNode × Rdf.NamedNode × Rdf.Term) →
    Except ShaclError ValidationReport

-- The transactions of one request: the write itself, the changelog entry and the removal of old
-- entries.
inductive Stage
  | write
  | entry
  | prune

-- What else a request gets from its surroundings.
structure Ambient where
  now       : ℕ
  timestamp : String
  uuid      : String
  names     : Rdf.BlankNode → Rdf.BlankNode
  faults    : Stage → Faults

def Ambient.plain : Ambient where
  now       := 0
  timestamp := ""
  uuid      := ""
  names     := id
  faults _  := .none

namespace Services

-- Services which do not know any format, update, query or shape. Concrete ones are made of them.
noncomputable def plain : Services where
  scan                := Finset.toList
  mem_scan            := Finset.mem_toList
  nodup_scan          := Finset.nodup_toList _
  fromMediaType _     := none
  parse _ _           := []
  serializeNQuads _   := ""
  parseUpdate         := .error
  query str _         := .error str
  parseForm _         := []
  utf8Error _         := ""
  compileShapes str   := .error (.shapeCompilation str)
  validate _ _        := .error (.validationEngine "")

variable (sv : Services)

-- `for_slice(..).flatten()`
def parseOk (format : RdfFormat) (body : Bytes) : List Rdf.Quad :=
  (sv.parse format body).filterMap Except.toOption

def insertParsed (names : Rdf.BlankNode → Rdf.BlankNode) (s : Store) :
    Except String Rdf.Quad → Except String Store
  | .ok quad => .ok <| s.insert (quad.rename names)
  | .error e => .error e

def loadFromReader (am : Ambient) (format : RdfFormat) (body : Bytes) (s : Store) :
    Except String Unit × Store :=
  s.transact (am.faults .write) id fun s => (sv.parse format body).foldlM (insertParsed am.names) s

-- The store is iterated over and each quad goes to the N-Triples text without its graph name.
def serializeStoreToNtriples (s : Store) : List (Rdf.NamedOrBlankNode × Rdf.NamedNode × Rdf.Term) :=
  (sv.scan s.quads).map fun quad => (quad.subject, quad.predicate, quad.object)

end Services
