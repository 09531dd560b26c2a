import OxigraphCloud.Primitives.Proc
import OxigraphCloud.Storage.Layout

-- A transaction that can be read from while it is written to. The key-value backends have the same
-- looping operations. They only differ in the calls which these are made of.
structure ReadableBackend (τ : Type) where
  encoder          : Encoder
  batchSize        : ℕ
  -- `quads_for_graph(..).take(BATCH_SIZE).collect()`
  takeQuads        : EncodedTerm → τ → Except StorageError (List EncodedQuad) × τ
  -- `named_graphs().take(BATCH_SIZE).collect()`
  takeGraphNames   : τ → Except StorageError (List EncodedTerm) × τ
  insert           : Rdf.Quad → τ → τ
  insertNamedGraph : Rdf.NamedOrBlankNode → τ → τ
  removeEncoded    : τ → EncodedQuad → τ
  removeGraphName  : EncodedTerm → τ → τ

namespace ReadableBackend

variable {τ : Type} (b : ReadableBackend τ)

abbrev Procedure (_ : ReadableBackend τ) := Proc τ StorageError

def remove (quad : Rdf.Quad) (t : τ) : τ :=
  b.removeEncoded t (b.encoder.encodeQuad quad)

def clearRound (graphName : EncodedTerm) : b.Procedure (Option Unit) := do
  let quads ← .call (b.takeQuads graphName)
  .modify fun t => quads.foldl b.removeEncoded t
  return if quads.length < b.batchSize then some () else none

def clearEncodedGraph (graphName : EncodedTerm) : b.Procedure Unit := .loop (b.clearRound graphName)

def clearGraph (graphName : Rdf.GraphName) : b.Procedure Unit :=
  b.clearEncodedGraph (b.encoder.encodeGraphName graphName)

-- The loops over all named graphs only differ in what they do with each of them.
def graphsRound (body : EncodedTerm → b.Procedure Unit) : b.Procedure (Option Unit) := do
  let graphNames ← .call b.takeGraphNames
  .forEach body graphNames
  return if graphNames.length < b.batchSize then some () else none

def forNamedGraphs (body : EncodedTerm → b.Procedure Unit) : b.Procedure Unit :=
  .loop (b.graphsRound body)

def clearAllNamedGraphs : b.Procedure Unit := b.forNamedGraphs b.clearEncodedGraph

def clearAllGraphs : b.Procedure Unit := do
  b.clearAllNamedGraphs
  b.clearGraph .defaultGraph

def removeEncodedNamedGraph (graphName : EncodedTerm) : b.Procedure Unit := do
  b.clearEncodedGraph graphName
  .modify (b.removeGraphName graphName)

def removeNamedGraph (graphName : Rdf.NamedOrBlankNode) : b.Procedure Unit :=
  b.removeEncodedNamedGraph (b.encoder.encodeNamedOrBlankNode graphName)

def removeAllNamedGraphs : b.Procedure Unit := b.forNamedGraphs b.removeEncodedNamedGraph

def clear : b.Procedure Unit := do
  b.removeAllNamedGraphs
  b.clearGraph .defaultGraph

def apply : ReadableOp → b.Procedure Unit
  | .insert quad                => .modify (b.insert quad)
  | .insertNamedGraph graphName => .modify (b.insertNamedGraph graphName)
  | .remove quad                => .modify (b.remove quad)
  | .clearGraph graphName       => b.clearGraph graphName
  | .clearAllNamedGraphs        => b.clearAllNamedGraphs
  | .clearAllGraphs             => b.clearAllGraphs
  | .removeNamedGraph graphName => b.removeNamedGraph graphName
  | .removeAllNamedGraphs       => b.removeAllNamedGraphs
  | .clear                      => b.clear

def applyAll (ops : List ReadableOp) : b.Procedure Unit := .forEach b.apply ops

end ReadableBackend
