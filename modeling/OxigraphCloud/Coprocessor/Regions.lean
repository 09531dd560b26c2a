import OxigraphCloud.Coprocessor.Plugin
import OxigraphCloud.Primitives.Best

-- The other side of the coprocessor protocol: a client sends one request to all regions of the key
-- space, decodes the responses and merges what they say.
namespace Coprocessor

-- `&data[offset..offset + n]` and what is behind it, with the check that precedes it.
def splitBytes (n : ℕ) (error : String) (data : Bytes) : Except String (Bytes × Bytes) :=
  if data.length < n then throw error else return (data.take n, data.drop n)

def decodePair (body : Bytes) : Except String (KvPair × Bytes) := do
  let (keyLen, body) ← splitBytes 2 "truncated key length" body
  let (key, body) ← splitBytes (Bytes.ofBe keyLen) "truncated key data" body
  let (valLen, body) ← splitBytes 4 "truncated value length" body
  let (value, body) ← splitBytes (Bytes.ofBe valLen) "truncated value data" body
  return ((key, value), body)

def decodePairs : (count : ℕ) → (body : Bytes) → Except String (List KvPair)
  | 0, _            => return []
  | count + 1, body => do
    let (pair, body) ← decodePair body
    return pair :: (← decodePairs count body)

-- Bytes behind the last pair are ignored.
def decodeScanResponse (data : Bytes) : Except String (ℕ × List KvPair) := do
  let (header, body) ← splitBytes 16 "scan response too short" data
  let pairs ← decodePairs (Bytes.ofBe (header.drop 8)) body
  return (Bytes.ofBe (header.take 8), pairs)

-- The other two responses are only ever written by the plugin. They are read as their format
-- describes them, and nothing may be behind them.
def decodeCountResponse (data : Bytes) : Except String (ℕ × ℕ) := do
  let (header, body) ← splitBytes 16 "count response too short" data
  if body.isEmpty then
    return (Bytes.ofBe (header.take 8), Bytes.ofBe (header.drop 8))
  else
    throw "trailing bytes"

def decodeMinMaxResponse (data : Bytes) : Except String (ℕ × Option (Bytes × Bytes)) := do
  let (header, body) ← splitBytes 16 "min/max response too short" data
  let (minLen, body) ← splitBytes 2 "truncated min key length" body
  let (minKey, body) ← splitBytes (Bytes.ofBe minLen) "truncated min key data" body
  let (maxLen, body) ← splitBytes 2 "truncated max key length" body
  let (maxKey, body) ← splitBytes (Bytes.ofBe maxLen) "truncated max key data" body
  if !body.isEmpty then
    throw "trailing bytes"
  else if Bytes.ofBe (header.drop 8) = 0 then
    return (Bytes.ofBe (header.take 8), none)
  else
    return (Bytes.ofBe (header.take 8), some (minKey, maxKey))

-- The keys that are in front of others when the smallest or the largest one is looked for.
def MinMaxResult.less (a b : Bytes) : Bool := a < b

def MinMaxResult.greater (a b : Bytes) : Bool := b < a

-- What a request asks for. Pairs come in no particular order.
inductive Answer
  | pairs (pairs : Multiset KvPair)
  | count (count : ℕ)
  | minMax (minKey maxKey : Option Bytes)

namespace Answer

-- The answer of a key space that is not split.
def ofPairs (req : CoprocessorRequest) (pairs : List KvPair) : Option Answer :=
  match req.opType with
  | .indexScan | .filterScan => return .pairs (← scanRequest req pairs).pairs
  | .countScan               =>
    return .count (executeCount req.tablePrefix req.keyPrefix pairs).count
  | .minMaxScan              =>
    let result := executeMinMax req.tablePrefix req.keyPrefix pairs
    return .minMax result.minKey result.maxKey

def decode (op : OpType) (data : Bytes) : Except String Answer :=
  match op with
  | .indexScan | .filterScan => return .pairs (← decodeScanResponse data).2
  | .countScan               => return .count (← decodeCountResponse data).2
  | .minMaxScan              => do
    let keys := (← decodeMinMaxResponse data).2
    return .minMax (keys.map Prod.fst) (keys.map Prod.snd)

-- The merged answer of several regions. Answers to other operations do not occur.
def merge (op : OpType) (answers : List Answer) : Answer :=
  match op with
  | .indexScan | .filterScan => .pairs (answers.map fun | pairs p => p | _ => 0).sum
  | .countScan               => .count (answers.map fun | count n => n | _ => 0).sum
  | .minMaxScan              => .minMax
    ((answers.filterMap fun | minMax a _ => a | _ => none).foldl (·.pick MinMaxResult.less) none)
    ((answers.filterMap fun | minMax _ b => b | _ => none).foldl (·.pick MinMaxResult.greater) none)

end Answer

-- The key space is split into regions.
structure Split where
  count    : ℕ
  regionOf : Bytes → Fin count

-- The data that a part of the keys has.
def localStorage (kv : List KvPair) (isLocal : Bytes → Bool) : RawStorage where
  scan := fun (start, stop) =>
    return kv.filter fun (key, _) => isLocal key && start ≤ key && key < stop

variable (kv : List KvPair) (ranges : List (Bytes × Bytes)) (request : Bytes)

-- The pairs that a request goes through when there is only one region.
def requestedPairs : List KvPair :=
  ranges.flatMap fun (start, stop) => kv.filter fun (key, _) => start ≤ key && key < stop

def Split.respond (split : Split) (i : Fin split.count) : Checked PluginError Bytes :=
  onRawCoprocessorRequest ranges request (localStorage kv fun key => split.regionOf key = i)

end Coprocessor
