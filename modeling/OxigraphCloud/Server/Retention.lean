import OxigraphCloud.Server.Processes

-- What `list` shows of an entry.
def ChangelogEntry.listed (e : ChangelogEntry) : ChangelogEntry :=
  { e with inserted := [], removed := [] }

-- One server with a limit on the number of entries of its changelog.
namespace Changelog

inductive Call
  | record (am : Ambient) (ops : List BufferedOp) (operation : String)
  | undo (am : Ambient) (id : UInt64)
  | purge (am : Ambient)

def Call.ambient : Call → Ambient
  | record am _ _ => am
  | undo am _     => am
  | purge am      => am

structure Log where
  changelog : Changelog
  store     : Store
  -- What has been recorded since the last purge, newest first.
  recorded  : List ChangelogEntry

namespace Log

variable (sv : Services)

def initial (retain : UInt64) (s : Store) : Log where
  changelog := (Changelog.new true retain).initCounter sv s
  store     := s
  recorded  := []

def step (l : Log) : Call → Log
  | .record am ops operation =>
    let (_, c, s) := l.changelog.record sv am ops operation l.store
    ⟨c, s, l.changelog.written am ops operation ++ l.recorded⟩
  | .undo am id =>
    let (_, c, s) := l.changelog.undo sv am id l.store
    ⟨c, s, l.changelog.writtenByUndo sv am id l.store ++ l.recorded⟩
  | .purge am =>
    match l.changelog.purge sv am l.store with
    | (.error _, s) => { l with store := s }
    | (.ok _, s)    => { l with store := s, recorded := [] }

-- The entries whose ids are among the last ones that were handed out.
def live (l : Log) : List ChangelogEntry :=
  l.recorded.filter fun e =>
    l.changelog.counter.toNat ≤ e.id.toNat + l.changelog.retain.toNat

-- There is no storage error.
def Quiet (_ : Log) (call : Call) : Prop := ∀ stage, (call.ambient.faults stage).isNone

-- The counter does not overflow, and undoing does not write to the graph of the changelog.
def Apart (l : Log) : Call → Prop
  | .record _ _ _ => l.changelog.counter + 1 ≠ 0
  | .undo _ id    => l.changelog.counter + 1 ≠ 0 ∧
    ∀ target, l.changelog.get sv l.store id = .ok (some target) →
      ∀ q ∈ target.inserted ++ target.removed, q.graphName ≠ .namedNode changelogGraph
  | .purge _      => True

-- The first `n` pages of size `k`.
def pages (l : Log) (k n : ℕ) : Except ChangelogError (List (List ChangelogEntry)) :=
  (List.range n).mapM fun i => l.changelog.list sv l.store (i * k) k

-- The graph of the changelog has the live entries and nothing else, and enough pages make up all of
-- them, newest first.
structure Retained (l : Log) : Prop where
  quads  : l.store.changelogQuads none none = (l.live.flatMap (·.quads sv)).toFinset
  sorted : l.live.Pairwise (·.id > ·.id)
  pages  : ∀ k n, l.live.length ≤ n * k →
    ∃ pages, l.pages sv k n = .ok pages ∧ pages.flatten = l.live.map (·.listed)

end Log

end Changelog
