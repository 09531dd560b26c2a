import OxigraphCloud.Objects.Values
import OxigraphCloud.Server.Transactions

def dropPlus : List Char → List Char
  | '+' :: digits => digits
  | digits        => digits

-- `str::parse::<u64>`
def parseU64 (str : String) : Option UInt64 :=
  let digits := dropPlus str.toList
  if digits ≠ [] ∧ digits.all Char.isDigit then
    let n := Nat.ofDigitChars 10 digits 0
    if n < 2 ^ 64 then some (.ofNat n) else none
  else
    none

def changelogGraph : Rdf.NamedNode := "urn:oxigraph:changelog"

def maxUndoableQuads : ℕ := 100000

structure ChangelogEntry where
  id        : UInt64
  timestamp : String
  operation : String
  inserted  : List Rdf.Quad
  removed   : List Rdf.Quad
  undoable  : Bool
  deriving DecidableEq

structure ChangeEvent where
  id        : UInt64
  timestamp : String
  operation : String
  inserted  : List Rdf.Quad
  removed   : List Rdf.Quad
  deriving DecidableEq

structure Changelog where
  enabled   : Bool
  retain    : UInt64
  counter   : UInt64
  -- The events that have been sent, if there is a sender.
  cdcSender : Option (List ChangeEvent)

inductive ChangelogError
  | disabled
  | notFound
  | notUndoable
  | internal (message : String)
  deriving DecidableEq

namespace Store

-- `quads_for_pattern(subject, predicate, None, CHANGELOG_GRAPH)`
def changelogQuads (s : Store) (subject : Option Rdf.NamedNode) (predicate : Option Rdf.NamedNode) :
    Finset Rdf.Quad :=
  s.quads.filter fun quad =>
    (∀ node ∈ subject, quad.subject = .namedNode node) ∧
    (∀ node ∈ predicate, quad.predicate = node) ∧ quad.graphName = .namedNode changelogGraph

end Store

namespace Services

variable (sv : Services)

def quadsToNquads (quads : List Rdf.Quad) : String := sv.serializeNQuads quads

def parseNquads (nq : String) : List Rdf.Quad :=
  if nq = "" then [] else sv.parseOk .nQuads (SmallString.strBytes nq)

end Services

namespace ChangelogEntry

def subject (id : UInt64) : Rdf.NamedNode := "urn:oxigraph:changelog:" ++ toString id

def simpleLiteral (value : String) : Rdf.Term := .literal (.string value)

-- The predicates and objects of the quads that `write_entry_to_store` inserts.
def facts (sv : Services) (entry : ChangelogEntry) : List (Rdf.NamedNode × Rdf.Term) :=
  [("http://www.w3.org/1999/02/22-rdf-syntax-ns#type", .namedNode "urn:oxigraph:ChangelogEntry"),
    ("urn:oxigraph:txnId", simpleLiteral (toString entry.id)),
    ("urn:oxigraph:timestamp", simpleLiteral entry.timestamp),
    ("urn:oxigraph:operation", simpleLiteral entry.operation),
    ("urn:oxigraph:undoable", simpleLiteral (toString entry.undoable)),
    ("urn:oxigraph:insertCount", simpleLiteral (toString entry.inserted.length)),
    ("urn:oxigraph:removeCount", simpleLiteral (toString entry.removed.length))] ++
  (if entry.inserted = [] then [] else
    [("urn:oxigraph:insertedNQuads", simpleLiteral (sv.quadsToNquads entry.inserted))]) ++
  (if entry.removed = [] then [] else
    [("urn:oxigraph:removedNQuads", simpleLiteral (sv.quadsToNquads entry.removed))])

def quads (sv : Services) (entry : ChangelogEntry) : List Rdf.Quad :=
  (entry.facts sv).map fun (predicate, object) => {
    subject   := .namedNode (subject entry.id)
    predicate := predicate
    object    := object
    graphName := .namedNode changelogGraph
  }

def toEvent (entry : ChangelogEntry) : ChangeEvent where
  id        := entry.id
  timestamp := entry.timestamp
  operation := entry.operation
  inserted  := entry.inserted
  removed   := entry.removed

end ChangelogEntry

-- The quads about one entry.
def Store.about (s : Store) (id : UInt64) : Finset Rdf.Quad :=
  s.changelogQuads (some (ChangelogEntry.subject id)) none

def writeEntryToStore (sv : Services) (am : Ambient) (entry : ChangelogEntry) (s : Store) :
    Except ChangelogError Unit × Store :=
  s.transact (am.faults .entry) .internal fun s => .ok <| s.insertAll (entry.quads sv)

namespace Changelog

variable (sv : Services) (am : Ambient)

def new (enabled : Bool) (retain : UInt64) : Changelog where
  enabled   := enabled
  retain    := retain
  counter   := 1
  cdcSender := none

-- The id in a quad that the pattern for the predicate `urn:oxigraph:txnId` has given.
def txnId (quad : Rdf.Quad) : Option UInt64 :=
  match quad.object with
  | .literal l => parseU64 l.value
  | _          => none

def txnIdQuads (s : Store) : List Rdf.Quad :=
  sv.scan (s.changelogQuads none (some "urn:oxigraph:txnId"))

def initCounter (s : Store) (c : Changelog) : Changelog :=
  if c.enabled then
    let ids := (txnIdQuads sv s).filterMap txnId
    let maxId := ids.foldl (fun maxId id => if id > maxId then id else maxId) 0
    { c with counter := maxId + 1 }
  else
    c

def insertedOf (ops : List BufferedOp) : List Rdf.Quad :=
  ops.flatMap fun
    | .insertQuads quads => quads
    | _                  => []

def removedOf (ops : List BufferedOp) : List Rdf.Quad :=
  ops.flatMap fun
    | .removeQuads quads => quads
    | _                  => []

def isSparqlUpdate : BufferedOp → Bool
  | .sparqlUpdate _ => true
  | _               => false

def entry (c : Changelog) (ops : List BufferedOp) (operation : String) : ChangelogEntry where
  id        := c.counter
  timestamp := am.timestamp
  operation := operation
  inserted  := insertedOf ops
  removed   := removedOf ops
  undoable  := !ops.any isSparqlUpdate &&
    (insertedOf ops).length + (removedOf ops).length ≤ maxUndoableQuads

-- The subjects of the entries up to the cutoff.
def oldSubjects (s : Store) (cutoffId : UInt64) : List Rdf.NamedNode :=
  (txnIdQuads sv s).filterMap fun quad =>
    match txnId quad, quad.subject with
    | some id, .namedNode node => if id ≤ cutoffId then some node else none
    | _, _                     => none

def prune (c : Changelog) (currentId : UInt64) (s : Store) : Except ChangelogError Unit × Store :=
  if currentId ≤ c.retain then
    (.ok (), s)
  else
    match oldSubjects sv s (currentId - c.retain) with
    | []       => (.ok (), s)
    | subjects =>
      let quads := subjects.flatMap fun node => sv.scan (s.changelogQuads (some node) none)
      s.transact (am.faults .prune) .internal fun s => .ok <| s.removeAll quads

def send (c : Changelog) (event : ChangeEvent) : Changelog :=
  { c with cdcSender := c.cdcSender.map (· ++ [event]) }

def record (ops : List BufferedOp) (operation : String) (c : Changelog) (s : Store) :
    Except ChangelogError ChangelogEntry × Changelog × Store :=
  if !c.enabled then
    (.error .disabled, c, s)
  else
    let entry := c.entry am ops operation
    let c := { c with counter := c.counter + 1 }
    match writeEntryToStore sv am entry s with
    | (.error e, s) => (.error e, c, s)
    | (.ok (), s)   =>
      if c.retain > 0 then
        match c.prune sv am entry.id s with
        | (.error e, s) => (.error e, c, s)
        | (.ok (), s)   => (.ok entry, c.send entry.toEvent, s)
      else
        (.ok entry, c.send entry.toEvent, s)

-- What `get` has collected from the quads it has seen so far.
@[ext]
structure Details where
  timestamp  : String
  operation  : String
  undoable   : Bool
  insertedNq : String
  removedNq  : String

def Details.empty : Details where
  timestamp  := ""
  operation  := ""
  undoable   := false
  insertedNq := ""
  removedNq  := ""

def Details.read (d : Details) (quad : Rdf.Quad) : Details :=
  match quad.object with
  | .literal l =>
    if quad.predicate = "urn:oxigraph:timestamp" then
      { d with timestamp := l.value }
    else if quad.predicate = "urn:oxigraph:operation" then
      { d with operation := l.value }
    else if quad.predicate = "urn:oxigraph:undoable" then
      { d with undoable := l.value = "true" }
    else if quad.predicate = "urn:oxigraph:insertedNQuads" then
      { d with insertedNq := l.value }
    else if quad.predicate = "urn:oxigraph:removedNQuads" then
      { d with removedNq := l.value }
    else
      d
  | _ => d

def get (c : Changelog) (s : Store) (id : UInt64) : Except ChangelogError (Option ChangelogEntry) :=
  if !c.enabled then
    .error .disabled
  else
    match sv.scan (s.changelogQuads (some (ChangelogEntry.subject id)) none) with
    | []    => .ok none
    | quads =>
      let d := quads.foldl Details.read .empty
      .ok <| some {
        id
        timestamp := d.timestamp
        operation := d.operation
        inserted  := sv.parseNquads d.insertedNq
        removed   := sv.parseNquads d.removedNq
        undoable  := d.undoable
      }

-- Newest first.
def list (c : Changelog) (s : Store) (offset limit : ℕ) :
    Except ChangelogError (List ChangelogEntry) :=
  if !c.enabled then
    .error .disabled
  else
    let entries := (txnIdQuads sv s).filterMap fun quad =>
      match quad.subject, txnId quad with
      | .namedNode node, some id => some (id, node)
      | _, _                     => none
    let page := ((entries.mergeSort fun a b => b.1 ≤ a.1).drop offset).take limit
    .ok <| page.map fun (id, node) =>
      let d := (sv.scan (s.changelogQuads (some node) none)).foldl Details.read .empty
      {
        id
        timestamp := d.timestamp
        operation := d.operation
        inserted  := []
        removed   := []
        undoable  := d.undoable
      }

def undo (id : UInt64) (c : Changelog) (s : Store) :
    Except ChangelogError ChangelogEntry × Changelog × Store :=
  match c.get sv s id with
  | .error e          => (.error e, c, s)
  | .ok none          => (.error .notFound, c, s)
  | .ok (some target) =>
    if !target.undoable then
      (.error .notUndoable, c, s)
    else
      let inverse s := Except.ok <| (s.insertAll target.removed).removeAll target.inserted
      match s.transact (am.faults .write) .internal inverse with
      | (.error e, s) => (.error e, c, s)
      | (.ok (), s)   =>
        let inverseOps := [.insertQuads target.removed, .removeQuads target.inserted]
        c.record sv am inverseOps ("undo:" ++ toString id) s

def purge (c : Changelog) (s : Store) : Except ChangelogError ℕ × Store :=
  if !c.enabled then
    (.error .disabled, s)
  else
    let quads := sv.scan (s.changelogQuads none none)
    match s.transact (am.faults .write) .internal fun s => .ok <| s.removeAll quads with
    | (.error e, s) => (.error e, s)
    | (.ok (), s)   => (.ok quads.length, s)

-- The quads in the first list have come and those in the second list have gone.
def NetChange (s s' : Store) (inserted removed : List Rdf.Quad) : Prop :=
  (∀ q, q ∈ inserted ↔ q ∈ s'.quads ∧ q ∉ s.quads) ∧
  (∀ q, q ∈ removed ↔ q ∈ s.quads ∧ q ∉ s'.quads)

end Changelog
