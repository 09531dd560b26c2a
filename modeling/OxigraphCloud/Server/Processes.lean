import OxigraphCloud.Primitives.Run
import OxigraphCloud.Server.Changelog

-- Any number of server processes that share one store, each with its own changelog counter.
namespace Changelog

-- The entry that recording adds to the store.
def written (am : Ambient) (ops : List BufferedOp) (operation : String) (c : Changelog) :
    List ChangelogEntry :=
  if c.enabled ∧ (am.faults .entry).isNone then [c.entry am ops operation] else []

-- The entry that undoing adds to the store.
def writtenByUndo (sv : Services) (am : Ambient) (id : UInt64) (c : Changelog) (s : Store) :
    List ChangelogEntry :=
  match c.get sv s id with
  | .ok (some target) =>
    if target.undoable ∧ (am.faults .write).isNone then
      c.written am [.insertQuads target.removed, .removeQuads target.inserted]
        ("undo:" ++ toString id)
    else
      []
  | _ => []

inductive Event
  | record (process : ℕ) (am : Ambient) (ops : List BufferedOp) (operation : String)
  | undo (process : ℕ) (am : Ambient) (id : UInt64)
  | purge (process : ℕ) (am : Ambient)
  | restart (process : ℕ) (enabled : Bool) (retain : UInt64)
  -- Anything else that is done to the store.
  | write (store : Store)

structure Processes where
  store      : Store
  changelogs : ℕ → Changelog
  -- All entries that have ever been recorded, newest first.
  recorded   : List ChangelogEntry
  -- How many entries had been recorded when the process was started or last recorded an entry.
  seen       : ℕ → ℕ

namespace Processes

variable (sv : Services)

-- The processes are started with a store, and each one with its own settings.
def initial (s : Store) (settings : ℕ → Bool × UInt64) : Processes where
  store        := s
  changelogs p := (Changelog.new (settings p).1 (settings p).2).initCounter sv s
  recorded     := []
  seen _       := 0

-- A process gets a new changelog and maybe a new entry.
def advance (ps : Processes) (p : ℕ) (entries : List ChangelogEntry) (c : Changelog) (s : Store) :
    Processes where
  store      := s
  changelogs := Function.update ps.changelogs p c
  recorded   := entries ++ ps.recorded
  seen       := if entries = [] then ps.seen else
    Function.update ps.seen p (ps.recorded.length + entries.length)

def step (ps : Processes) : Event → Processes
  | .record p am ops operation =>
    let (_, c, s) := (ps.changelogs p).record sv am ops operation ps.store
    ps.advance p ((ps.changelogs p).written am ops operation) c s
  | .undo p am id =>
    let (_, c, s) := (ps.changelogs p).undo sv am id ps.store
    ps.advance p ((ps.changelogs p).writtenByUndo sv am id ps.store) c s
  | .purge p am => { ps with store := ((ps.changelogs p).purge sv am ps.store).2 }
  | .restart p enabled retain => { ps with
      changelogs := Function.update ps.changelogs p
        ((Changelog.new enabled retain).initCounter sv ps.store)
      seen       := Function.update ps.seen p ps.recorded.length }
  | .write s => { ps with store := s }

-- No two entries got the same id, and what is in the store about an id is the entry with this id.
def Exact (ps : Processes) : Prop :=
  (ps.recorded.map (·.id)).Nodup ∧
  ∀ id, ps.store.about id ≠ ∅ →
    ∃ e ∈ ps.recorded, e.id = id ∧ ps.store.about id = (e.quads sv).toFinset

-- The process knows of all entries, and its counter does not overflow.
def MayRecord (ps : Processes) (p : ℕ) : Prop :=
  ps.seen p = ps.recorded.length ∧ (ps.changelogs p).counter + 1 ≠ 0

-- A process only records if no other one has recorded anything since it was started. It is only
-- restarted as long as the newest entry is there. Nothing but the changelog itself changes the
-- changelog graph.
def Orderly (ps : Processes) : Event → Prop
  | .record p _ _ _ => ps.MayRecord p
  | .undo p _ id    => ps.MayRecord p ∧
    ∀ target, (ps.changelogs p).get sv ps.store id = .ok (some target) →
      ∀ q ∈ target.inserted ++ target.removed, q.graphName ≠ .namedNode changelogGraph
  | .purge _ _      => True
  | .restart _ _ _  => ∀ e ∈ ps.recorded.head?, ps.store.about e.id ≠ ∅
  | .write s        => s.changelogQuads none none = ps.store.changelogQuads none none

end Processes

end Changelog
