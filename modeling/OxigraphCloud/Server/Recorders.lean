import OxigraphCloud.Server.Processes

-- Threads that record entries at the same time. An entry is written, old entries are removed and
-- the event is sent one after the other, while the write lock is held.
namespace Changelog

-- What the call of `record` that a thread is in does next.
inductive Recording
  | idle
  | waiting (ops : List BufferedOp) (operation : String)
  | writing (entry : ChangelogEntry)
  | pruning (entry : ChangelogEntry)
  | sending (entry : ChangelogEntry)

structure Recorders (ι : Type) where
  changelog : Changelog
  store     : Store
  writeLock : Bool
  phases    : ι → Recording
  -- The entries that have been in the store.
  written   : List ChangelogEntry
  -- The entries of the calls that have returned, with what they have returned.
  returned  : List (ChangelogEntry × Except ChangelogError ChangelogEntry)

inductive Recorders.Event (ι : Type)
  | call (thread : ι) (ops : List BufferedOp) (operation : String)
  | next (thread : ι) (am : Ambient)

namespace Recorders

variable {ι : Type} [DecidableEq ι] (sv : Services)

-- There is a sender which has not sent anything.
def initial (enabled : Bool) (retain : UInt64) (s : Store) : Recorders ι where
  changelog := { (Changelog.new enabled retain).initCounter sv s with cdcSender := some [] }
  store     := s
  writeLock := false
  phases _  := .idle
  written   := []
  returned  := []

def move (r : Recorders ι) (i : ι) (phase : Recording) : Recorders ι :=
  { r with phases := Function.update r.phases i phase }

-- The lock is released when the call returns.
def finish (r : Recorders ι) (i : ι) (entry : ChangelogEntry)
    (result : Except ChangelogError ChangelogEntry) : Recorders ι :=
  { r.move i .idle with writeLock := false, returned := (entry, result) :: r.returned }

def lock (r : Recorders ι) (i : ι) (am : Ambient) (ops : List BufferedOp) (operation : String) :
    Recorders ι :=
  if r.writeLock then
    r
  else
    { r.move i (.writing (r.changelog.entry am ops operation)) with
      changelog := { r.changelog with counter := r.changelog.counter + 1 }
      writeLock := true }

-- An entry is in the store if all quads about it are there.
def observe (r : Recorders ι) (entry : ChangelogEntry) (s : Store) : Recorders ι := { r with
  store   := s
  written := if ∀ quad ∈ entry.quads sv, quad ∈ s.quads then entry :: r.written else r.written }

def write (r : Recorders ι) (i : ι) (am : Ambient) (entry : ChangelogEntry) : Recorders ι :=
  match writeEntryToStore sv am entry r.store with
  | (.error e, s) => (r.observe sv entry s).finish i entry (.error e)
  | (.ok (), s)   => (r.observe sv entry s).move i (.pruning entry)

def prune (r : Recorders ι) (i : ι) (am : Ambient) (entry : ChangelogEntry) : Recorders ι :=
  if r.changelog.retain > 0 then
    match r.changelog.prune sv am entry.id r.store with
    | (.error e, s) => { r.finish i entry (.error e) with store := s }
    | (.ok (), s)   => { r.move i (.sending entry) with store := s }
  else
    r.move i (.sending entry)

def send (r : Recorders ι) (i : ι) (entry : ChangelogEntry) : Recorders ι :=
  { r.finish i entry (.ok entry) with changelog := r.changelog.send entry.toEvent }

def next (r : Recorders ι) (i : ι) (am : Ambient) : Recorders ι :=
  match r.phases i with
  | .idle                  => r
  | .waiting ops operation => r.lock i am ops operation
  | .writing entry         => r.write sv i am entry
  | .pruning entry         => r.prune sv i am entry
  | .sending entry         => r.send i entry

def step (r : Recorders ι) : Event ι → Recorders ι
  | .call i ops operation =>
    match r.phases i, r.changelog.enabled with
    | .idle, true => r.move i (.waiting ops operation)
    | _, _        => r
  | .next i am => r.next sv i am

def events (r : Recorders ι) : List ChangeEvent := r.changelog.cdcSender.getD []

-- The events with a certain id.
def announcements (r : Recorders ι) (id : UInt64) : List ChangeEvent :=
  r.events.filter (·.id = id)

-- An entry has been in the store if and only if exactly one event tells of it. A call that has
-- failed has left nothing behind.
structure Announced (r : Recorders ι) : Prop where
  once   : ∀ p ∈ r.returned, p.1 ∈ r.written ↔ r.announcements p.1.id = [p.1.toEvent]
  failed : ∀ p ∈ r.returned, p.2.isOk = false →
    p.1 ∉ r.written ∧ r.store.about p.1.id = ∅ ∧ r.announcements p.1.id = []
  sent   : ∀ event ∈ r.events, ∃ e ∈ r.written, e.toEvent = event

-- There are old entries to remove, and the storage refuses to do that.
def PruneRefused (r : Recorders ι) : Event ι → Prop
  | .call _ _ _ => False
  | .next i am  => ∃ entry, r.phases i = .pruning entry ∧
    0 < r.changelog.retain ∧ r.changelog.retain < entry.id ∧
    oldSubjects sv r.store (entry.id - r.changelog.retain) ≠ [] ∧
    (am.faults .prune).isNone = false

-- The counter does not overflow.
def Countable (r : Recorders ι) (_ : Event ι) : Prop := r.changelog.counter + 1 ≠ 0

end Recorders

end Changelog
