import OxigraphCloud.Server.Cleanup

-- The gauge of active transactions. The map of the transactions and the gauge are updated one after
-- the other, so that other threads may come in between.
namespace TransactionRegistry

-- What the call that a thread is in does next.
inductive Phase
  | idle
  -- `begin` counts the transaction that it has inserted.
  | begun
  -- `commit` replays the transaction that it has taken out of the map.
  | committing (active : ActiveTransaction)
  -- `commit` and `rollback` count the transaction that they have ended.
  | ended
  -- `cleanup_expired` goes over the map.
  | scanning (seen expired : List String)
  -- `cleanup_expired` removes the next transaction, or is done.
  | removing (expired : List String)
  -- `cleanup_expired` counts the transaction that it has removed.
  | removed (expired : List String)

def Phase.isIdle : Phase → Bool
  | idle => true
  | _    => false

structure Metered (ι : Type) where
  registry           : TransactionRegistry
  store              : Store
  now                : ℕ
  activeTransactions : ℤ
  phases             : ι → Phase

inductive Metered.Event (ι : Type)
  | wait (duration : ℕ)
  | call (thread : ι) (call : Call)
  | cleanupExpired (thread : ι)
  -- The loop of `cleanup_expired` gets to the entry of a transaction.
  | visit (thread : ι) (txnId : String)
  | next (thread : ι) (am : Ambient)

namespace Metered

variable {ι : Type} [DecidableEq ι]

def initial (timeout : ℕ) (s : Store) : Metered ι where
  registry           := .new timeout
  store              := s
  now                := 0
  activeTransactions := 0
  phases _           := .idle

def move (m : Metered ι) (i : ι) (phase : Phase) : Metered ι :=
  { m with phases := Function.update m.phases i phase }

variable (sv : Services)

def enter (m : Metered ι) (i : ι) (call : Call) : Metered ι :=
  match call with
  | .begin _      => { m.move i .begun with registry := call.apply sv m.now m.store m.registry }
  | .commit txnId =>
    match m.registry.txns.lookup txnId with
    | none        => m
    | some active => { m.move i (.committing active) with registry := m.registry.discard txnId }
  | .rollback txnId =>
    match m.registry.txns.lookup txnId with
    | none   => m
    | some _ => { m.move i .ended with registry := m.registry.discard txnId }
  | _ => { m with registry := call.apply sv m.now m.store m.registry }

def visit (m : Metered ι) (i : ι) (txnId : String) : Metered ι :=
  match m.phases i with
  | .scanning seen expired =>
    if txnId ∈ seen ∨ txnId ∉ m.registry.txns then
      m
    else if m.registry.isExpired m.now txnId then
      m.move i (.scanning (txnId :: seen) (expired ++ [txnId]))
    else
      m.move i (.scanning (txnId :: seen) expired)
  | _ => m

def replay (m : Metered ι) (am : Ambient) (active : ActiveTransaction) :
    Except TransactionError Unit × Store :=
  m.store.transact (am.faults .write) .storage (sv.replayOps active.ops)

def next (m : Metered ι) (i : ι) (am : Ambient) : Metered ι :=
  match m.phases i with
  | .idle              => m
  | .begun             => { m.move i .idle with activeTransactions := m.activeTransactions + 1 }
  | .committing active =>
    match m.replay sv am active with
    | (.error _, s) => { m.move i .idle with store := s }
    | (.ok (), s)   => { m.move i .ended with store := s }
  | .ended              => { m.move i .idle with activeTransactions := m.activeTransactions - 1 }
  | .scanning _ expired => m.move i (.removing expired)
  | .removing []        => m.move i .idle
  | .removing (txnId :: expired) =>
    { m.move i (.removed expired) with registry := m.registry.discard txnId }
  | .removed expired =>
    { m.move i (.removing expired) with activeTransactions := m.activeTransactions - 1 }

def step (m : Metered ι) : Event ι → Metered ι
  | .wait duration    => { m with now := m.now + duration }
  | .call i call      => if (m.phases i).isIdle then m.enter sv i call else m
  | .cleanupExpired i => if (m.phases i).isIdle then m.move i (.scanning [] []) else m
  | .visit i txnId    => m.visit i txnId
  | .next i am        => m.next sv i am

-- No call is in progress.
def Idle (m : Metered ι) : Prop := ∀ i, (m.phases i).isIdle

-- Each transaction gets a new UUID.
def Possible (m : Metered ι) : Event ι → Prop
  | .call _ (.begin uuid) => uuid ∉ m.registry.txns
  | _                     => True

-- The commit of a transaction that is no longer in the registry fails.
def isFailure (m : Metered ι) : Event ι → Bool
  | .next i am =>
    match m.phases i with
    | .committing active => !(m.replay sv am active).1.isOk
    | _                  => false
  | _ => false

-- A transaction that was found to be expired has been ended by another call.
def isLate (m : Metered ι) : Event ι → Bool
  | .next i _ =>
    match m.phases i with
    | .removing (txnId :: _) => txnId ∉ m.registry.txns
    | _                      => false
  | _ => false

end Metered

end TransactionRegistry
