import OxigraphCloud.Primitives.Run
import OxigraphCloud.Server.Transactions

-- The calls of any number of threads on one transaction registry. Each event is one access to the
-- concurrent map.
namespace TransactionRegistry

inductive Call
  | begin (uuid : String)
  | add (txnId : String) (format : RdfFormat) (body : Bytes)
  | remove (txnId : String) (format : RdfFormat) (body : Bytes)
  | update (txnId sparql : String)
  | query (txnId sparql : String)
  | commit (txnId : String)
  | rollback (txnId : String)

namespace Call

def txnId : Call → String
  | begin uuid         => uuid
  | add txnId _ _      => txnId
  | remove txnId _ _   => txnId
  | update txnId _     => txnId
  | query txnId _      => txnId
  | commit txnId       => txnId
  | rollback txnId     => txnId

def isQuery : Call → Bool
  | query _ _ => true
  | _         => false

-- The calls that set the time of the last activity.
def isRefresh : Call → Bool
  | begin _      => true
  | add _ _ _    => true
  | remove _ _ _ => true
  | update _ _   => true
  | _            => false

variable (sv : Services) (now : ℕ) (s : Store) (r : TransactionRegistry)

-- What the call makes of the registry.
def apply : Call → TransactionRegistry
  | begin uuid             => (r.begin { Ambient.plain with now, uuid }).2
  | add txnId format body  => (r.add sv { Ambient.plain with now } txnId format body).2
  | remove txnId format body => (r.remove sv { Ambient.plain with now } txnId format body).2
  | update txnId sparql    => (r.update { Ambient.plain with now } txnId sparql).2
  | query _ _              => r
  | commit txnId           => (r.commit sv { Ambient.plain with now } txnId s).2.1
  | rollback txnId         => (r.rollback txnId).2

-- Whether the call gets to its transaction.
def runs : Call → Bool
  | begin _                => true
  | add txnId format body  => ((sv.parse format body).mapM id).isOk && (r.txns.lookup txnId).isSome
  | remove txnId format body =>
    ((sv.parse format body).mapM id).isOk && (r.txns.lookup txnId).isSome
  | update txnId _         => (r.txns.lookup txnId).isSome
  | query txnId _          => (r.txns.lookup txnId).isSome
  | commit txnId           => (r.txns.lookup txnId).isSome
  | rollback txnId         => (r.txns.lookup txnId).isSome

end Call

-- The two kinds of accesses of `cleanup_expired` are `check` and `discard`.
inductive Event
  | wait (duration : ℕ)
  | call (call : Call) (store : Store)
  | check (txnId : String)
  | discard (txnId : String)

structure Cleanup where
  registry : TransactionRegistry
  now      : ℕ
  -- What the running calls of `cleanup_expired` have found to be expired.
  expired  : List String
  -- Which calls got to which transaction, and when.
  activity : List (String × ℕ)

namespace Cleanup

def initial (timeout : ℕ) : Cleanup where
  registry := .new timeout
  now      := 0
  expired  := []
  activity := []

variable (sv : Services)

def step (c : Cleanup) : Event → Cleanup
  | .wait duration   => { c with now := c.now + duration }
  | .call call store => { c with
      registry := call.apply sv c.now store c.registry
      activity :=
        if call.runs sv c.registry then (call.txnId, c.now) :: c.activity else c.activity }
  | .check txnId     => if c.registry.isExpired c.now txnId then
      { c with expired := txnId :: c.expired } else c
  | .discard txnId   => if txnId ∈ c.expired then
      { c with registry := c.registry.discard txnId, expired := c.expired.erase txnId } else c

-- Each transaction gets a new UUID.
def Possible (c : Cleanup) : Event → Prop
  | .call (.begin uuid) _ => ∀ t, (uuid, t) ∉ c.activity
  | _                     => True

-- If the event discards a transaction, then nothing ran on it within the timeout.
def DiscardsOld (c : Cleanup) : Event → Prop
  | .discard txnId => txnId ∈ c.expired → txnId ∈ c.registry.txns →
    ∀ t, (txnId, t) ∈ c.activity → t + c.registry.timeout < c.now
  | _              => True

-- No query runs inside of a transaction, and nothing is buffered in a transaction between the
-- moment in which it is found to be expired and its removal.
def Calm (c : Cleanup) : Event → Prop
  | .call (.query txnId _) _    => txnId ∉ c.registry.txns
  | .call (.add txnId _ _) _    => txnId ∉ c.expired
  | .call (.remove txnId _ _) _ => txnId ∉ c.expired
  | .call (.update txnId _) _   => txnId ∉ c.expired
  | _                           => True

end Cleanup

end TransactionRegistry
