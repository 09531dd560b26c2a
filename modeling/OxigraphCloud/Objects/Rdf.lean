import Mathlib

-- The RDF terms and quads that the storage API takes.

namespace Rdf

abbrev NamedNode := String

inductive BlankNode
  | named (id : String)
  | anonymous (id : BitVec 128)
  deriving DecidableEq

namespace BlankNode

def uniqueId : BlankNode → Option (BitVec 128)
  | named _      => none
  | anonymous id => some id

def asStr : BlankNode → String
  | named id     => id
  | anonymous id => .ofList <| Nat.toDigits 16 id.toNat

end BlankNode

inductive NamedOrBlankNode
  | namedNode (node : NamedNode)
  | blankNode (node : BlankNode)
  deriving DecidableEq

inductive BaseDirection
  | ltr
  | rtl
  deriving DecidableEq

inductive Literal
  | string (value : String)
  | languageTaggedString (value language : String)
  | directionalLanguageTaggedString (value language : String) (direction : BaseDirection)
  | typedLiteral (value : String) (datatype : NamedNode)
  deriving DecidableEq

namespace Literal

def value : Literal → String
  | string value                              => value
  | languageTaggedString value _              => value
  | directionalLanguageTaggedString value _ _ => value
  | typedLiteral value _                      => value

def language : Literal → Option String
  | languageTaggedString _ language              => some language
  | directionalLanguageTaggedString _ language _ => some language
  | _                                            => none

def direction : Literal → Option BaseDirection
  | directionalLanguageTaggedString _ _ direction => some direction
  | _                                             => none

def datatype : Literal → NamedNode
  | string _                              => "http://www.w3.org/2001/XMLSchema#string"
  | languageTaggedString _ _              => "http://www.w3.org/1999/02/22-rdf-syntax-ns#langString"
  | directionalLanguageTaggedString _ _ _ =>
    "http://www.w3.org/1999/02/22-rdf-syntax-ns#dirLangString"
  | typedLiteral _ datatype               => datatype

end Literal

inductive Term
  | namedNode (node : NamedNode)
  | blankNode (node : BlankNode)
  | literal (literal : Literal)
  | triple (subject : NamedOrBlankNode) (predicate : NamedNode) (object : Term)
  deriving DecidableEq

def NamedOrBlankNode.toTerm : NamedOrBlankNode → Term
  | namedNode node => .namedNode node
  | blankNode node => .blankNode node

inductive GraphName
  | namedNode (node : NamedNode)
  | blankNode (node : BlankNode)
  | defaultGraph
  deriving DecidableEq

namespace GraphName

def isDefaultGraph : GraphName → Bool
  | defaultGraph => true
  | _            => false

def ofNode : NamedOrBlankNode → GraphName
  | .namedNode node => namedNode node
  | .blankNode node => blankNode node

end GraphName

structure Quad where
  subject   : NamedOrBlankNode
  predicate : NamedNode
  object    : Term
  graphName : GraphName
  deriving DecidableEq

end Rdf
