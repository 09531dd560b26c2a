import OxigraphCloud.Storage.Dataset
import OxigraphCloud.Objects.Theorems.EncodedTerm

-- How the key-value backends lay out a dataset: TiKV has these tables as key prefixes, RocksDB as
-- column families.
inductive Table
  | default
  | id2str
  | spog
  | posg
  | ospg
  | gspo
  | gpos
  | gosp
  | dspo
  | dpos
  | dosp
  | graphs
  deriving DecidableEq

def QuadEncoding.table : QuadEncoding → Table
  | spog => .spog
  | posg => .posg
  | ospg => .ospg
  | gspo => .gspo
  | gpos => .gpos
  | gosp => .gosp
  | dspo => .dspo
  | dpos => .dpos
  | dosp => .dosp

namespace Layout

-- The keys of a quad, in the order in which they are written and deleted.
def quadKeys (quad : EncodedQuad) : List (Table × Bytes) :=
  if quad.graphName.isDefaultGraph then
    [(.dspo, writeSpoQuad quad), (.dpos, writePosQuad quad), (.dosp, writeOspQuad quad)]
  else
    [(.spog, writeSpogQuad quad), (.posg, writePosgQuad quad), (.ospg, writeOspgQuad quad),
      (.gspo, writeGspoQuad quad), (.gpos, writeGposQuad quad), (.gosp, writeGospQuad quad)]

-- The entries of `id2str` for the strings of a term.
def strEntries (term : Rdf.Term) (encoded : EncodedTerm) : List (Table × Bytes × Bytes) :=
  termStrs term encoded |>.map fun (id, str) =>
    (.id2str, id.toBeBytes, SmallString.strBytes str)

variable (enc : Encoder)

def graphNameStrEntries (graphName : Rdf.GraphName) (encoded : EncodedTerm) :
    List (Table × Bytes × Bytes) :=
  match graphName with
  | .namedNode node => strEntries (.namedNode node) encoded
  | .blankNode node => strEntries (.blankNode node) encoded
  | .defaultGraph   => []

-- The entries that inserting a quad writes. Only strings have a value.
def insertEntries (quad : Rdf.Quad) : List (Table × Bytes × Bytes) :=
  let encoded := enc.encodeQuad quad
  (quadKeys encoded).map (fun (table, key) => (table, key, [])) ++
  strEntries quad.subject.toTerm encoded.subject ++
  strEntries (.namedNode quad.predicate) encoded.predicate ++
  strEntries quad.object encoded.object ++
  if quad.graphName.isDefaultGraph then
    []
  else
    (.graphs, writeTerm encoded.graphName, []) ::
    graphNameStrEntries quad.graphName encoded.graphName

def insertNamedGraphEntries (graphName : Rdf.NamedOrBlankNode) : List (Table × Bytes × Bytes) :=
  let encoded := enc.encodeNamedOrBlankNode graphName
  (.graphs, writeTerm encoded, []) :: strEntries graphName.toTerm encoded

end Layout

-- The keys of each table.
abbrev Tables := Table → Set Bytes

-- A pending change of the tables.
abbrev TablesDelta := Table → Delta Bytes

namespace TablesDelta

open Classical

def patch (c : TablesDelta) (t : Tables) : Tables := fun table => (c table).patch (t table)

def comp (c₂ c₁ : TablesDelta) : TablesDelta := fun table => Delta.comp (c₂ table) (c₁ table)

noncomputable def puts (entries : List (Table × Bytes × Bytes)) : TablesDelta := fun table key =>
  if ∃ value, (table, key, value) ∈ entries then some true else none

def deletes (keys : List (Table × Bytes)) : TablesDelta := fun table key =>
  if (table, key) ∈ keys then some false else none

-- Takes out the keys `t` of the given tables.
noncomputable def clears (tables : List Table) (t : Tables) : TablesDelta := fun table key =>
  if table ∈ tables ∧ key ∈ t table then some false else none

end TablesDelta

-- The index tables hold exactly the quads `Q`. All terms have the form in which they are read back.
structure Tables.Indexes (t : Tables) (Q : Set EncodedQuad) : Prop where
  isQuad    : ∀ q ∈ Q, q.IsQuad
  canonical : ∀ q ∈ Q, q.canonical = q
  index     : ∀ e k, k ∈ t (QuadEncoding.table e) ↔ ∃ q ∈ Q, e.Indexes q ∧ e.writer q = k

structure Tables.Stores (t : Tables) (D : Dataset) : Prop extends t.Indexes D.quads where
  isTerm         : ∀ g ∈ D.namedGraphs, g.IsTerm
  canonicalGraph : ∀ g ∈ D.namedGraphs, g.canonical = g
  graphs         : ∀ k, k ∈ t .graphs ↔ ∃ g ∈ D.namedGraphs, g.IsTerm ∧ writeTerm g = k
  quadStrs       : ∀ q ∈ D.quads, ∀ p, ∀ id ∈ (q.term p).strIds, id.toBeBytes ∈ t .id2str
  graphStrs      : ∀ g ∈ D.namedGraphs, ∀ id ∈ g.strIds, id.toBeBytes ∈ t .id2str

-- A pending change of a dataset.
@[ext]
structure DatasetDelta where
  quads  : Delta EncodedQuad
  graphs : Delta EncodedTerm

namespace DatasetDelta

def patch (δ : DatasetDelta) (D : Dataset) : Dataset where
  quads       := δ.quads.patch D.quads
  namedGraphs := δ.graphs.patch D.namedGraphs

def comp (δ₂ δ₁ : DatasetDelta) : DatasetDelta where
  quads  := .comp δ₂.quads δ₁.quads
  graphs := .comp δ₂.graphs δ₁.graphs

def none : DatasetDelta where
  quads _  := .none
  graphs _ := .none

def insert (q : EncodedQuad) : DatasetDelta where
  quads  := .single q true
  graphs := if q.graphName = .defaultGraph then fun _ => .none else .single q.graphName true

def insertNamedGraph (g : EncodedTerm) : DatasetDelta where
  quads _ := .none
  graphs  := .single g true

def remove (q : EncodedQuad) : DatasetDelta where
  quads    := .single q false
  graphs _ := .none

def removeGraphName (g : EncodedTerm) : DatasetDelta where
  quads _ := .none
  graphs  := .single g false

noncomputable def dropQuads (Q : Set EncodedQuad) : DatasetDelta where
  quads    := .drop Q
  graphs _ := .none

noncomputable def dropGraphs (G : Set EncodedTerm) : DatasetDelta where
  quads _ := .none
  graphs  := .drop G

end DatasetDelta

-- The change `c` of the tables does to each key of a quad what `δ` does to the quad, and likewise
-- for graph names. It stores the strings of what it adds and never takes a string away.
structure TablesDelta.Coherent (c : TablesDelta) (δ : DatasetDelta) : Prop where
  isQuad       : ∀ {q}, δ.quads q = some true → q.IsQuad ∧ q.canonical = q
  isTerm       : ∀ {g}, δ.graphs g = some true → g.IsTerm ∧ g.canonical = g
  index        : ∀ {e q}, QuadEncoding.Indexes e q → c e.table (e.writer q) = δ.quads q.canonical
  foreign      : ∀ {e k}, (∀ q, QuadEncoding.Indexes e q → e.writer q ≠ k) → c e.table k ≠ some true
  graphs       : ∀ {g}, EncodedTerm.IsTerm g → c .graphs (writeTerm g) = δ.graphs g.canonical
  foreignGraph : ∀ {k}, (∀ g, EncodedTerm.IsTerm g → writeTerm g ≠ k) → c .graphs k ≠ some true
  strs         : ∀ {k}, c .id2str k ≠ some false
  quadStrs     : ∀ {q p id}, δ.quads q = some true → id ∈ (q.term p).strIds →
    c .id2str id.toBeBytes = some true
  graphStrs    : ∀ {g id}, δ.graphs g = some true → id ∈ g.strIds →
    c .id2str id.toBeBytes = some true
