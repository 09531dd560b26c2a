import OxigraphCloud.Storage.Readable

-- What the operations of the transactions are meant to do to a dataset. The terms of a quad are
-- stored in a form that depends on the backend, which is given by `norm`.

section

variable (enc : Encoder) (norm : EncodedQuad → EncodedQuad)

namespace WriteOp

def meaning : WriteOp → Dataset → Dataset
  | .insert quad, D                => D.insert <| norm <| enc.encodeQuad quad
  | .insertNamedGraph graphName, D => D.insertNamedGraph <| enc.encodeNamedOrBlankNode graphName
  | .remove quad, D                => D.remove <| norm <| enc.encodeQuad quad
  | .clearDefaultGraph, D          => D.clearGraph .defaultGraph
  | .clearAllNamedGraphs, D        => D.clearAllNamedGraphs
  | .clearAllGraphs, D             => D.clearAllGraphs
  | .removeAllNamedGraphs, D       => D.removeAllNamedGraphs
  | .clear, D                      => D.clear

-- The write-only transactions of the key-value backends drop the named graphs when all graphs are
-- cleared.
def kvMeaning : WriteOp → Dataset → Dataset
  | .clearAllGraphs, D => D.clear
  | op, D              => op.meaning enc EncodedQuad.canonical D

def kvMeanings (ops : List WriteOp) (D : Dataset) : Dataset :=
  ops.foldl (fun D op => op.kvMeaning enc D) D

end WriteOp

namespace ReadableOp

def meaning : ReadableOp → Dataset → Dataset
  | .insert quad, D                => D.insert <| norm <| enc.encodeQuad quad
  | .insertNamedGraph graphName, D => D.insertNamedGraph <| enc.encodeNamedOrBlankNode graphName
  | .remove quad, D                => D.remove <| norm <| enc.encodeQuad quad
  | .clearGraph graphName, D       => D.clearGraph <| enc.encodeGraphName graphName
  | .clearAllNamedGraphs, D        => D.clearAllNamedGraphs
  | .clearAllGraphs, D             => D.clearAllGraphs
  | .removeNamedGraph graphName, D => D.removeNamedGraph <| enc.encodeNamedOrBlankNode graphName
  | .removeAllNamedGraphs, D       => D.removeAllNamedGraphs
  | .clear, D                      => D.clear

-- What a sequence of operations means, if terms are stored as they are.
def meanings (ops : List ReadableOp) (D : Dataset) : Dataset :=
  ops.foldl (fun D op => op.meaning enc id D) D

end ReadableOp

end

-- How the readable transactions of a key-value backend clear graphs: clearing a graph takes out the
-- quads `quads g`, and it finishes iff `finishes g`.
structure Reach where
  quads    : EncodedTerm → Set EncodedQuad
  finishes : EncodedTerm → Prop

namespace Reach

variable (reach : Reach)

def named (D : Dataset) : Set EncodedQuad := { q | ∃ g ∈ D.namedGraphs, q ∈ reach.quads g }

def all (D : Dataset) : Set EncodedQuad := reach.named D ∪ reach.quads .defaultGraph

variable (enc : Encoder)

-- What the operations do to the dataset that the transaction has so far.
def meaning : ReadableOp → Dataset → Dataset
  | .clearGraph graphName, D =>
    ⟨D.quads \ reach.quads (enc.encodeGraphName graphName), D.namedGraphs⟩
  | .clearAllNamedGraphs, D  => ⟨D.quads \ reach.named D, D.namedGraphs⟩
  | .clearAllGraphs, D       => ⟨D.quads \ reach.all D, D.namedGraphs⟩
  | .removeNamedGraph graphName, D =>
    let g := enc.encodeNamedOrBlankNode graphName
    ⟨D.quads \ reach.quads g, D.namedGraphs \ {g}⟩
  | .removeAllNamedGraphs, D => ⟨D.quads \ reach.named D, ∅⟩
  | .clear, D                => ⟨D.quads \ reach.all D, ∅⟩
  | op, D                    => op.meaning enc EncodedQuad.canonical D

-- Clearing all named graphs reads their names again and again until there are only a few of them.
def Halts (batchSize : ℕ) : ReadableOp → Dataset → Prop
  | .clearGraph graphName, _       => reach.finishes (enc.encodeGraphName graphName)
  | .removeNamedGraph graphName, _ => reach.finishes (enc.encodeNamedOrBlankNode graphName)
  | .clearAllNamedGraphs, D        =>
    D.namedGraphs.ncard < batchSize ∧ ∀ g ∈ D.namedGraphs, reach.finishes g
  | .clearAllGraphs, D             =>
    D.namedGraphs.ncard < batchSize ∧ (∀ g ∈ D.namedGraphs, reach.finishes g) ∧
    reach.finishes .defaultGraph
  | .removeAllNamedGraphs, D       => ∀ g ∈ D.namedGraphs, reach.finishes g
  | .clear, D                      =>
    (∀ g ∈ D.namedGraphs, reach.finishes g) ∧ reach.finishes .defaultGraph
  | _, _                           => True

-- What a sequence of operations does.
def run (ops : List ReadableOp) (D : Dataset) : Dataset :=
  ops.foldl (fun D op => reach.meaning enc op D) D

end Reach
