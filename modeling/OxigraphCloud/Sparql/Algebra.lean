import OxigraphCloud.Objects.Rdf
import OxigraphCloud.Sparql.PropertyPath

-- The algebra of queries which the optimizer rewrites.

open Rdf

namespace Sparopt

abbrev Variable := String

inductive NamedNodePattern
  | namedNode (node : NamedNode)
  | variable (v : Variable)
  deriving DecidableEq

inductive GroundTerm
  | namedNode (node : NamedNode)
  | literal (literal : Literal)
  | triple (subject predicate : NamedNode) (object : GroundTerm)
  deriving DecidableEq

inductive GroundTermPattern
  | namedNode (node : NamedNode)
  | literal (literal : Literal)
  | triple (subject : GroundTermPattern) (predicate : NamedNodePattern) (object : GroundTermPattern)
  | variable (v : Variable)
  deriving DecidableEq

inductive Function
  | str | lang | langMatches | datatype | iri | bnode | rand | abs | ceil | floor | round | concat
  | subStr | strLen | replace | ucase | lcase | encodeForUri | contains | strStarts | strEnds
  | strBefore | strAfter | year | month | day | hours | minutes | seconds | timezone | tz | now
  | uuid | strUuid | md5 | sha1 | sha256 | sha384 | sha512 | strLang | strDt | isIri | isBlank
  | isLiteral | isNumeric | regex | triple | subject | predicate | object | isTriple | langDir
  | hasLang | hasLangDir | strLangDir | adjust
  | custom (name : NamedNode)
  deriving DecidableEq

inductive AggregateFunction
  | count | sum | avg | min | max | sample
  | groupConcat (separator : Option String)
  | custom (name : NamedNode)
  deriving DecidableEq

-- The operators with two operands that are only evaluated if both of them have a value.
inductive BinaryOperator
  | equal | sameTerm | greater | greaterOrEqual | less | lessOrEqual
  | add | subtract | multiply | divide
  deriving DecidableEq

inductive UnaryOperator
  | unaryPlus | unaryMinus | not
  deriving DecidableEq

mutual

inductive Expression
  | namedNode (node : NamedNode)
  | literal (literal : Literal)
  | variable (v : Variable)
  | or (inner : List Expression)
  | and (inner : List Expression)
  | binary (op : BinaryOperator) (a b : Expression)
  | unary (op : UnaryOperator) (e : Expression)
  | exists (inner : GraphPattern)
  | bound (v : Variable)
  | if (cond then' els : Expression)
  | coalesce (inner : List Expression)
  | functionCall (name : Function) (args : List Expression)

inductive AggregateExpression
  | countSolutions (distinct : Bool)
  | functionCall (name : AggregateFunction) (expr : Expression) (distinct : Bool)

inductive OrderExpression
  | asc (expression : Expression)
  | desc (expression : Expression)

-- The only algorithm of a join, of an optional part and of a difference is to hash some vars,
-- so these are given by the keys.
inductive GraphPattern
  | quadPattern (subject : GroundTermPattern) (predicate : NamedNodePattern)
      (object : GroundTermPattern) (graphName : Option NamedNodePattern)
  | path (subject : GroundTermPattern) (path : PropertyPath NamedNode)
      (object : GroundTermPattern) (graphName : Option NamedNodePattern)
  | graph (graphName : NamedNodePattern)
  | join (left right : GraphPattern) (keys : List Variable)
  | leftJoin (left right : GraphPattern) (expression : Expression) (keys : List Variable)
  | lateral (left right : GraphPattern)
  | filter (expression : Expression) (inner : GraphPattern)
  | union (inner : List GraphPattern)
  | extend (inner : GraphPattern) (var : Variable) (expression : Expression)
  | minus (left right : GraphPattern) (keys : List Variable)
  | values (vars : List Variable) (bindings : List (List (Option GroundTerm)))
  | orderBy (inner : GraphPattern) (expression : List OrderExpression)
  | project (inner : GraphPattern) (vars : List Variable)
  | distinct (inner : GraphPattern)
  | reduced (inner : GraphPattern)
  | slice (inner : GraphPattern) (start : ℕ) (length : Option ℕ)
  | group (inner : GraphPattern) (vars : List Variable)
      (aggregates : List (Variable × AggregateExpression))
  | service (name : NamedNodePattern) (inner : GraphPattern) (silent : Bool)

end

def xsdBoolean : NamedNode := "http://www.w3.org/2001/XMLSchema#boolean"

def xsdString : NamedNode := "http://www.w3.org/2001/XMLSchema#string"

namespace Expression

def ofBool (b : Bool) : Expression :=
  literal <| .typedLiteral (if b then "true" else "false") xsdBoolean

def effectiveBooleanValue : Expression → Option Bool
  | literal l =>
    if l.datatype = xsdBoolean then
      if l.value = "true" ∨ l.value = "1" then some true
      else if l.value = "false" ∨ l.value = "0" then some false
      else none
    else if l.datatype = xsdString then
      some !l.value.isEmpty
    else
      none
  | _ => none

end Expression

namespace GraphPattern

def emptySingleton : GraphPattern := values [] [[]]

def isEmptySingleton : GraphPattern → Bool
  | values _ bindings => bindings.length = 1 && bindings.all (·.all (·.isNone))
  | _ => false

end GraphPattern

end Sparopt
