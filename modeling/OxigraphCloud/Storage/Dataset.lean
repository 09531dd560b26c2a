import OxigraphCloud.Primitives.Delta
import OxigraphCloud.Objects.Theorems.BinaryEncoder

-- What a storage backend keeps, and what the operations of the backend traits mean.
@[ext]
structure Dataset where
  quads       : Set EncodedQuad
  namedGraphs : Set EncodedTerm

-- A quad pattern with up to four bound terms. The graph name may be bound to the default graph.
structure Pattern where
  subject   : Option EncodedTerm
  predicate : Option EncodedTerm
  object    : Option EncodedTerm
  graphName : Option EncodedTerm

namespace Pattern

def term (pattern : Pattern) : Position → Option EncodedTerm
  | .subject   => pattern.subject
  | .predicate => pattern.predicate
  | .object    => pattern.object
  | .graphName => pattern.graphName

def Matches (pattern : Pattern) (q : EncodedQuad) : Prop :=
  ∀ p, ∀ t ∈ pattern.term p, q.term p = t

def canonical (pattern : Pattern) : Pattern where
  subject   := pattern.subject.map EncodedTerm.canonical
  predicate := pattern.predicate.map EncodedTerm.canonical
  object    := pattern.object.map EncodedTerm.canonical
  graphName := pattern.graphName.map EncodedTerm.canonical

-- The bound terms are terms, except that the graph name may be the default graph.
structure IsPattern (pattern : Pattern) : Prop where
  subject   : ∀ t ∈ pattern.subject, t.IsTerm
  predicate : ∀ t ∈ pattern.predicate, t.IsTerm
  object    : ∀ t ∈ pattern.object, t.IsTerm
  graphName : ∀ t ∈ pattern.graphName, t ≠ .defaultGraph → t.IsTerm

theorem term_canonical (pattern : Pattern) (p : Position) :
    pattern.canonical.term p = (pattern.term p).map EncodedTerm.canonical := by
  cases p <;> rfl

end Pattern

-- The quads of one graph.
def quadsOf (Q : Set EncodedQuad) (g : EncodedTerm) : Set EncodedQuad := { q ∈ Q | q.graphName = g }

namespace Dataset

def insert (D : Dataset) (q : EncodedQuad) : Dataset where
  quads       := Insert.insert q D.quads
  namedGraphs :=
    if q.graphName = .defaultGraph then D.namedGraphs else Insert.insert q.graphName D.namedGraphs

def insertNamedGraph (D : Dataset) (g : EncodedTerm) : Dataset where
  quads       := D.quads
  namedGraphs := Insert.insert g D.namedGraphs

def remove (D : Dataset) (q : EncodedQuad) : Dataset where
  quads       := D.quads \ {q}
  namedGraphs := D.namedGraphs

def clearGraph (D : Dataset) (g : EncodedTerm) : Dataset where
  quads       := D.quads \ quadsOf D.quads g
  namedGraphs := D.namedGraphs

def clearAllNamedGraphs (D : Dataset) : Dataset where
  quads       := D.quads \ { q | q.graphName ≠ .defaultGraph }
  namedGraphs := D.namedGraphs

def clearAllGraphs (D : Dataset) : Dataset where
  quads       := ∅
  namedGraphs := D.namedGraphs

def removeNamedGraph (D : Dataset) (g : EncodedTerm) : Dataset where
  quads       := D.quads \ quadsOf D.quads g
  namedGraphs := D.namedGraphs \ {g}

def removeAllNamedGraphs (D : Dataset) : Dataset where
  quads       := D.quads \ { q | q.graphName ≠ .defaultGraph }
  namedGraphs := ∅

def clear (_ : Dataset) : Dataset where
  quads       := ∅
  namedGraphs := ∅

-- Every graph name that is used by a quad is known.
def Registered (D : Dataset) : Prop :=
  ∀ q ∈ D.quads, q.graphName ≠ .defaultGraph → q.graphName ∈ D.namedGraphs

end Dataset

-- The operations of a write-only transaction.
inductive WriteOp
  | insert (quad : Rdf.Quad)
  | insertNamedGraph (graphName : Rdf.NamedOrBlankNode)
  | remove (quad : Rdf.Quad)
  | clearDefaultGraph
  | clearAllNamedGraphs
  | clearAllGraphs
  | removeAllNamedGraphs
  | clear

-- The operations of a readable transaction.
inductive ReadableOp
  | insert (quad : Rdf.Quad)
  | insertNamedGraph (graphName : Rdf.NamedOrBlankNode)
  | remove (quad : Rdf.Quad)
  | clearGraph (graphName : Rdf.GraphName)
  | clearAllNamedGraphs
  | clearAllGraphs
  | removeNamedGraph (graphName : Rdf.NamedOrBlankNode)
  | removeAllNamedGraphs
  | clear
