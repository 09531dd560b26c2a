import OxigraphCloud.Objects.Rdf

-- How terms and quads are printed.

namespace Rdf

-- `{:04X}`
def upperHex (n : ℕ) : List Char := ((Nat.toDigits 16 n).map Char.toUpper).leftpad 4 '0'

def quotedChar (c : Char) : List Char :=
  if c = '\x08' then ['\\', 'b']
  else if c = '\t' then ['\\', 't']
  else if c = '\n' then ['\\', 'n']
  else if c = '\x0C' then ['\\', 'f']
  else if c = '\r' then ['\\', 'r']
  else if c = '"' then ['\\', '"']
  else if c = '\\' then ['\\', '\\']
  else if c.toNat ≤ 0x1F ∨ c.toNat = 0x7F ∨ c.toNat = 0xFFFE ∨ c.toNat = 0xFFFF then
    '\\' :: 'u' :: upperHex c.toNat
  else
    [c]

def printQuotedStr (str : String) : List Char := '"' :: (str.toList.flatMap quotedChar ++ ['"'])

def NamedNode.display (node : NamedNode) : List Char := '<' :: (node.toList ++ ['>'])

def BlankNode.display (node : BlankNode) : List Char := '_' :: ':' :: node.asStr.toList

def NamedOrBlankNode.display : NamedOrBlankNode → List Char
  | namedNode node => NamedNode.display node
  | blankNode node => node.display

def BaseDirection.display : BaseDirection → List Char
  | ltr => ['l', 't', 'r']
  | rtl => ['r', 't', 'l']

def Literal.display : Literal → List Char
  | string value                        => printQuotedStr value
  | languageTaggedString value language => printQuotedStr value ++ '@' :: language.toList
  | directionalLanguageTaggedString value language direction =>
    printQuotedStr value ++ '@' :: language.toList ++ '-' :: '-' :: direction.display
  | typedLiteral value datatype         =>
    printQuotedStr value ++ '^' :: '^' :: NamedNode.display datatype

def Term.display : Term → List Char
  | namedNode node => NamedNode.display node
  | blankNode node => node.display
  | literal l      => l.display
  | triple s p o   =>
    '<' :: '<' :: '(' :: ' ' :: s.display ++ ' ' :: NamedNode.display p ++ ' ' :: o.display ++
      [' ', ')', '>', '>']

def GraphName.display : GraphName → List Char
  | namedNode node => NamedNode.display node
  | blankNode node => node.display
  | defaultGraph   => ['D', 'E', 'F', 'A', 'U', 'L', 'T']

def Quad.display (q : Quad) : List Char :=
  let triple := q.subject.display ++ ' ' :: NamedNode.display q.predicate ++ ' ' :: q.object.display
  if q.graphName.isDefaultGraph then triple else triple ++ ' ' :: q.graphName.display

-- The N-Quads serializer, which writes one quad per line.
def serializeNQuads (quads : List Quad) : String :=
  .ofList <| quads.flatMap fun q => q.display ++ [' ', '.', '\n']

end Rdf
