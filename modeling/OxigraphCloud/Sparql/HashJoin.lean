import OxigraphCloud.Primitives.Buffered

-- The iterators of the query evaluator that put the solutions of two patterns together by hashing
-- some of their variables. A tuple has a place for each variable of the query.

open Iter

namespace Spareval

structure InternalTuple (T : Type) where
  inner : List (Option T)
  deriving DecidableEq

namespace InternalTuple

variable {T : Type}

def contains (tuple : InternalTuple T) (index : ℕ) : Bool :=
  tuple.inner[index]?.any (·.isSome)

def get (tuple : InternalTuple T) (index : ℕ) : Option T :=
  tuple.inner[index]?.getD none

variable [DecidableEq T]

-- The values of the longer tuple with those of the shorter one in the places that are free.
def fill : List (Option T) → List (Option T) → Option (List (Option T))
  | [], longer => some longer
  | _ :: _, [] => none
  | none :: shorter, value :: longer => (value :: ·) <$> fill shorter longer
  | some value :: shorter, none :: longer => (some value :: ·) <$> fill shorter longer
  | some value :: shorter, some other :: longer =>
    if value ≠ other then none else (some other :: ·) <$> fill shorter longer

def combineWith (self other : InternalTuple T) : Option (InternalTuple T) :=
  if self.inner.length < other.inner.length then mk <$> fill self.inner other.inner
  else mk <$> fill other.inner self.inner

end InternalTuple

def areCompatibleAndNotDisjointed [DecidableEq T] (a b : InternalTuple T) : Bool :=
  go (a.inner.zip b.inner) false
where
  go : List (Option T × Option T) → Bool → Bool
    | [], foundIntersection => foundIntersection
    | (some a, some b) :: rest, _ => if a ≠ b then false else go rest true
    | _ :: rest, foundIntersection => go rest foundIntersection

structure Hasher (T : Type) where
  {State : Type}
  default : State
  hash : State → T → State
  finish : State → UInt64

structure InternalTupleSet (T : Type) where
  key : List ℕ
  map : AList fun _ : UInt64 => List (InternalTuple T)
  len : ℕ

namespace InternalTupleSet

variable {T : Type}

def new (key : List ℕ) : InternalTupleSet T := ⟨key, ∅, 0⟩

def isEmpty (set : InternalTupleSet T) : Bool := set.len = 0

variable (hasher : Hasher T)

def tupleKey (key : List ℕ) (tuple : InternalTuple T) : UInt64 :=
  hasher.finish <| key.foldl (fun state v => (tuple.get v).elim state (hasher.hash state))
    hasher.default

def insert (set : InternalTupleSet T) (tuple : InternalTuple T) : InternalTupleSet T :=
  let key := tupleKey hasher set.key tuple
  { set with
    map := set.map.insert key ((set.map.lookup key).getD [] ++ [tuple])
    len := set.len + 1 }

def get (set : InternalTupleSet T) (tuple : InternalTuple T) : List (InternalTuple T) :=
  (set.map.lookup (tupleKey hasher set.key tuple)).getD []

def extend (set : InternalTupleSet T) (tuples : List (InternalTuple T)) : InternalTupleSet T :=
  tuples.foldl (insert hasher) set

end InternalTupleSet

section Iterators

variable {T ε : Type} [DecidableEq T]

abbrev InternalTuples (ε T : Type) := List (Except ε (InternalTuple T))

-- An error is passed on, and the results of a tuple go to the buffer.
def joinStep (results : InternalTuple T → List (InternalTuple T)) :
    Except ε (InternalTuple T) → Except ε (InternalTuple T) ⊕ InternalTuples ε T
  | .error error => .inl (.error error)
  | .ok tuple => .inr ((results tuple).map .ok)

structure CartesianProductJoinIterator (ε T : Type) where
  probeIter : InternalTuples ε T
  built : List (InternalTuple T)
  bufferedResults : InternalTuples ε T

namespace CartesianProductJoinIterator

def step (built : List (InternalTuple T)) :
    Except ε (InternalTuple T) → Except ε (InternalTuple T) ⊕ InternalTuples ε T :=
  joinStep fun probeTuple => built.filterMap probeTuple.combineWith

def next (it : CartesianProductJoinIterator ε T) :
    Option (Except ε (InternalTuple T)) × CartesianProductJoinIterator ε T :=
  let (result, probeIter, bufferedResults) :=
    bufferedNext (step it.built) it.probeIter it.bufferedResults
  (result, { it with probeIter, bufferedResults })

end CartesianProductJoinIterator

structure HashJoinIterator (ε T : Type) where
  probeIter : InternalTuples ε T
  built : InternalTupleSet T
  bufferedResults : InternalTuples ε T

namespace HashJoinIterator

variable (hasher : Hasher T)

def step (built : InternalTupleSet T) :
    Except ε (InternalTuple T) → Except ε (InternalTuple T) ⊕ InternalTuples ε T :=
  joinStep fun probeTuple => (built.get hasher probeTuple).filterMap probeTuple.combineWith

def next (it : HashJoinIterator ε T) :
    Option (Except ε (InternalTuple T)) × HashJoinIterator ε T :=
  let (result, probeIter, bufferedResults) :=
    bufferedNext (step hasher it.built) it.probeIter it.bufferedResults
  (result, { it with probeIter, bufferedResults })

end HashJoinIterator

structure HashLeftJoinIterator (ε T : Type) where
  leftIter : InternalTuples ε T
  right : InternalTupleSet T
  bufferedResults : InternalTuples ε T

namespace HashLeftJoinIterator

variable (hasher : Hasher T) (expression : InternalTuple T → Option Bool)

def results (right : InternalTupleSet T) (leftTuple : InternalTuple T) : List (InternalTuple T) :=
  (right.get hasher leftTuple).filterMap leftTuple.combineWith |>.filter
    fun tuple => (expression tuple).getD false

-- A tuple that we have not managed to join with anything is given as it is.
def step (right : InternalTupleSet T) :
    Except ε (InternalTuple T) → Except ε (InternalTuple T) ⊕ InternalTuples ε T
  | .error error => .inl (.error error)
  | .ok leftTuple =>
    let results := results hasher expression right leftTuple
    if results.isEmpty then .inl (.ok leftTuple) else .inr (results.map .ok)

def next (it : HashLeftJoinIterator ε T) :
    Option (Except ε (InternalTuple T)) × HashLeftJoinIterator ε T :=
  let (result, leftIter, bufferedResults) :=
    bufferedNext (step hasher expression it.right) it.leftIter it.bufferedResults
  (result, { it with leftIter, bufferedResults })

end HashLeftJoinIterator

end Iterators

section Evaluators

variable {T ε : Type} [DecidableEq T] (hasher : Hasher T)

def oks (items : List (Except ε α)) : List α := items.filterMap Except.toOption

def errors (items : List (Except ε α)) : List (Except ε α) := items.filter (!·.isOk)

-- The solutions of both sides are those for one input tuple.
def evalJoin (keys : List ℕ) (build probe : InternalTuples ε T) :
    Boxed (Except ε (InternalTuple T)) :=
  let errors := errors build
  if keys.isEmpty then
    let built := oks build
    -- We don't bother to execute the other side.
    if built.isEmpty && errors.isEmpty then .ofList []
    -- We know it's empty and can discard errors.
    else if probe.isEmpty then .ofList []
    else ⟨CartesianProductJoinIterator.mk probe built errors, CartesianProductJoinIterator.next⟩
  else
    let built := (InternalTupleSet.new keys).extend hasher (oks build)
    if built.isEmpty && errors.isEmpty then .ofList []
    else if probe.isEmpty then .ofList []
    else ⟨HashJoinIterator.mk probe built errors, HashJoinIterator.next hasher⟩

def evalLeftJoin (keys : List ℕ) (expression : InternalTuple T → Option Bool)
    (left right : InternalTuples ε T) : Boxed (Except ε (InternalTuple T)) :=
  let errors := errors right
  let rightValues := (InternalTupleSet.new keys).extend hasher (oks right)
  if rightValues.isEmpty && errors.isEmpty then .ofList left
  else ⟨HashLeftJoinIterator.mk left rightValues errors,
    HashLeftJoinIterator.next hasher expression⟩

-- Whether a solution is left over, where an error always is.
def isKept (candidates : InternalTuple T → List (InternalTuple T)) :
    Except ε (InternalTuple T) → Bool
  | .ok leftTuple => !(candidates leftTuple).any (areCompatibleAndNotDisjointed leftTuple)
  | .error _ => true

-- The errors of the right side are dropped.
def evalMinus (keys : List ℕ) (left right : InternalTuples ε T) :
    Boxed (Except ε (InternalTuple T)) :=
  if keys.isEmpty then
    let right := oks right
    if right.isEmpty then .ofList left
    else .ofList <| left.filter (isKept fun _ => right)
  else
    let rightValues := (InternalTupleSet.new keys).extend hasher (oks right)
    if rightValues.isEmpty then .ofList left
    else .ofList <| left.filter (isKept (rightValues.get hasher))

end Evaluators

end Spareval
