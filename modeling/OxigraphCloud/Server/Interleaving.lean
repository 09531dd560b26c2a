import OxigraphCloud.Primitives.Run
import OxigraphCloud.Server.Routes

-- Any number of update requests that are handled at the same time with an enabled changelog. Each
-- step of a request is one access to the store.
namespace Interleaving

-- How far a request has got. From the commit on it carries the stores right before and right after
-- the commit.
inductive Phase
  | waiting
  | counted (isSmall : Bool)
  | started (before : Option (Finset Rdf.Quad))
  | evaluating (before : Option (Finset Rdf.Quad)) (update : Update) (snapshot : Store)
  | committed (before : Option (Finset Rdf.Quad)) (old new : Store)
  | evaluated (ops : Option (List BufferedOp)) (old new : Store)
  -- The entry has been written and the lock of the changelog is held.
  | recording (entry : ChangelogEntry)
  | finished

-- The first snapshot has been taken, and the second one not yet.
def Phase.isOpen : Phase → Bool
  | started before        => before.isSome
  | evaluating before _ _ => before.isSome
  | committed before _ _  => before.isSome
  | _                     => false

-- The next step writes to the store.
def Phase.isWriting : Phase → Bool
  | evaluating _ _ _       => true
  | evaluated (some _) _ _ => true
  | recording _            => true
  | _                      => false

structure Recorded where
  entry : ChangelogEntry
  old   : Store
  new   : Store

structure Requests where
  store     : Store
  changelog : Changelog
  isLocked  : Bool
  phases    : ℕ → Phase
  -- The entries that have been recorded, each with what its request has done to the store.
  recorded  : List Recorded

namespace Requests

variable (sv : Services) (updates : ℕ → String)

def initial (s : Store) (c : Changelog) : Requests where
  store     := s
  changelog := c
  isLocked  := false
  phases _  := .waiting
  recorded  := []

def move (rs : Requests) (i : ℕ) (phase : Phase) : Requests :=
  { rs with phases := Function.update rs.phases i phase }

-- The request `i` parses its update and starts a transaction.
def start (rs : Requests) (i : ℕ) (am : Ambient) (before : Option (Finset Rdf.Quad)) : Requests :=
  match sv.parseUpdate (updates i), (am.faults .write).start with
  | .ok update, none => rs.move i (.evaluating before update rs.store)
  | _, _             => rs.move i .finished

def commit (rs : Requests) (i : ℕ) (am : Ambient) (before : Option (Finset Rdf.Quad))
    (update : Update) (snapshot : Store) : Requests :=
  match update.onStore snapshot rs.store, (am.faults .write).commit with
  | .ok s, none => { rs.move i (.committed before rs.store s) with store := s }
  | _, _        => rs.move i .finished

-- The first part of `Changelog::record`
def writeEntry (rs : Requests) (i : ℕ) (am : Ambient) (ops : List BufferedOp) (old new : Store) :
    Requests :=
  let entry := rs.changelog.entry am ops "update"
  let changelog := { rs.changelog with counter := rs.changelog.counter + 1 }
  match writeEntryToStore sv am entry rs.store with
  | (.error _, s) => { rs.move i .finished with store := s, changelog }
  | (.ok (), s)   => { rs.move i (.recording entry) with
      store := s, changelog, isLocked := true, recorded := ⟨entry, old, new⟩ :: rs.recorded }

-- The second part of `Changelog::record`
def finishEntry (rs : Requests) (i : ℕ) (am : Ambient) (entry : ChangelogEntry) : Requests :=
  if rs.changelog.retain > 0 then
    match rs.changelog.prune sv am entry.id rs.store with
    | (.error _, s) => { rs.move i .finished with store := s, isLocked := false }
    | (.ok (), s)   => { rs.move i .finished with
        store := s, changelog := rs.changelog.send entry.toEvent, isLocked := false }
  else
    { rs.move i .finished with
      changelog := rs.changelog.send entry.toEvent, isLocked := false }

-- The next step of the request `i`
def step (rs : Requests) : ℕ × Ambient → Requests
  | (i, am) =>
    match rs.phases i with
    | .waiting                            => rs.move i (.counted (rs.store.len ≤ maxDiffStoreSize))
    | .counted true                       => rs.move i (.started (some rs.store.quads))
    | .counted false                      => rs.move i (.started none)
    | .started before                     => rs.start sv updates i am before
    | .evaluating before update snapshot  => rs.commit i am before update snapshot
    | .committed none old new             =>
      rs.move i (.evaluated (some [.sparqlUpdate (updates i)]) old new)
    | .committed (some before) old new    =>
      rs.move i (.evaluated (diffOps sv before rs.store.quads) old new)
    | .evaluated none _ _                 => rs.move i .finished
    | .evaluated (some ops) old new       =>
      if rs.isLocked then rs else rs.writeEntry sv i am ops old new
    | .recording entry                    => rs.finishEntry sv i am entry
    | .finished                           => rs

-- The store is small enough for snapshots when a request begins, and no other request is between
-- its snapshots while the store is written.
def Calm (rs : Requests) : ℕ × Ambient → Prop
  | (i, _) =>
    (rs.phases i = .waiting → rs.store.len ≤ maxDiffStoreSize) ∧
    ((rs.phases i).isWriting → ∀ j ≠ i, (rs.phases j).isOpen = false)

-- Each entry lists what its request has done.
def Faithful (rs : Requests) : Prop :=
  ∀ r ∈ rs.recorded, Changelog.NetChange r.old r.new r.entry.inserted r.entry.removed

end Requests

end Interleaving
