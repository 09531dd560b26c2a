import OxigraphCloud.Objects.Decoder
import OxigraphCloud.Storage.Memory.Transaction

-- Whole transactions, and the check of the internal structure of the storage.

namespace Memory

namespace MemoryStorage

-- A transaction with the given operations, which is committed or dropped.
def transact (enc : Encoder) (storage : MemoryStorage) (txn : List ReadableOp × Bool) :
    MemoryStorage :=
  let t := txn.1.foldl (fun t op => t.apply enc op) storage.startTransaction
  if txn.2 then t.commit else t.rollback

def strLookup (storage : MemoryStorage) : StrLookup := fun key => .ok (storage.getStr key)

end MemoryStorage

-- The value is `none` if a loop has not ended within the given number of turns.
abbrev Check := ExceptT StorageError Option

def Check.fail (message : String) : Check α := throw <| .corruption <| .msg message

namespace Content

variable (content : Content)

-- `quad_set.get(&current.quad).is_some_and(|e| Arc::ptr_eq(&e, &current))`, where `reference` is
-- the reference that has led to the current node.
def holdsNode (reference : EncodedQuad) (current : QuadListNode) : Bool :=
  (content.node current.quad).any fun e => e.quad = reference

-- The loop along the references of one kind. The source counts the nodes that it visits, here they
-- are returned.
def walk (kind : QuadIteratorKind) (check : EncodedQuad → QuadListNode → Check Unit) :
    ℕ → Option EncodedQuad → Check (List EncodedQuad)
  | 0, _           => (none : Option _)
  | _ + 1, none    => return []
  | fuel + 1, some reference =>
    match content.node reference with
    | none         => return []
    | some current => do
      check reference current
      return current.quad :: (← walk kind check fuel (current.previousIn kind))

def checkInSet (reference : EncodedQuad) (current : QuadListNode) : Check Unit :=
  if content.holdsNode reference current then return
  else .fail "Quad in previous chain but not in quad set"

def checkInList (p : Position) (term : EncodedTerm) (reference : EncodedQuad)
    (current : QuadListNode) : Check Unit := do
  if !(current.quad.term p).eq term then
    .fail "Quad in wrong list"
  content.checkInSet reference current

-- The body of the loop over the entries of one of the maps.
def validateEntry (p : Position) (fuel total : ℕ) (term : EncodedTerm) : Check ℕ := do
  match content.lastQuadBy p term with
  | none                => return total
  | some (start, count) =>
    let visited ← content.walk (.position p) (content.checkInList p term) fuel (some start)
    if visited.length ≠ count then
      .fail "Too many quads in a chain"
    return total + visited.length

-- The argument `keys` has the keys of the map in the order in which they are visited.
def validateBy (p : Position) (fuel : ℕ) (keys : List EncodedTerm) : Check ℕ :=
  keys.foldlM (content.validateEntry p fuel) 0

end Content

namespace MemoryStorage

variable (storage : MemoryStorage) (print : Printer)

def checkQuad (reference : EncodedQuad) (current : QuadListNode) : Check Unit := do
  storage.content.checkInSet reference current
  let _ ← (storage.strLookup.decodeQuad print current.quad : Except StorageError Rdf.Quad)
  if !current.quad.graphName.isDefaultGraph &&
      (storage.content.graph current.quad.graphName).isNone then
    .fail "Quad in named graph that does not exists"

def validate (fuel : ℕ) (keys : Position → List EncodedTerm) : Check Unit := do
  let expectedQuadLen := storage.content.quadSet.length
  let visited ← storage.content.walk .all (storage.checkQuad print) fuel storage.content.lastQuad
  if visited.length ≠ expectedQuadLen then
    .fail "Too many quads in quad_set"
  [Position.subject, .predicate, .object, .graphName].forM fun p => do
    if (← storage.content.validateBy p fuel (keys p)) ≠ expectedQuadLen then
      .fail "Too many quads in quad_set"

end MemoryStorage

end Memory
