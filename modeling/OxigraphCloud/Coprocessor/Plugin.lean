import OxigraphCloud.Coprocessor.Scan

-- The messages of the coprocessor plugin and its entry point.
namespace Coprocessor

inductive OpType
  | indexScan
  | filterScan
  | countScan
  | minMaxScan
  deriving DecidableEq

namespace OpType

def toByte : OpType → UInt8
  | indexScan  => 0
  | filterScan => 1
  | countScan  => 2
  | minMaxScan => 3

def fromByte (b : UInt8) : Option OpType :=
  match b.toNat with
  | 0 => some indexScan
  | 1 => some filterScan
  | 2 => some countScan
  | 3 => some minMaxScan
  | _ => none

end OpType

structure CoprocessorRequest where
  opType      : OpType
  tablePrefix : UInt8
  keyPrefix   : Bytes
  bloomFilter : Option Bytes
  deriving DecidableEq

def decodeRequest : Bytes → Except String CoprocessorRequest
  | opByte :: tablePrefix :: pfxHi :: pfxLo :: rest =>
    match OpType.fromByte opByte with
    | none        => throw s!"unknown op type: {opByte}"
    | some opType =>
      let keyPrefixLen := Bytes.ofBe [pfxHi, pfxLo]
      if rest.length < keyPrefixLen then
        throw <| s!"request truncated: declared key prefix length {keyPrefixLen} " ++
          s!"but only {rest.length} bytes remain"
      else
        return {
          opType      := opType
          tablePrefix := tablePrefix
          keyPrefix   := rest.take keyPrefixLen
          bloomFilter := if keyPrefixLen < rest.length then some (rest.drop keyPrefixLen) else none
        }
  | _ => throw "request too short: need at least 4 bytes"

-- The length of the key is cut to two bytes.
def encodeRequest (req : CoprocessorRequest) : Bytes :=
  req.opType.toByte :: req.tablePrefix :: Bytes.toBe 2 req.keyPrefix.length ++ req.keyPrefix ++
    req.bloomFilter.getD []

def encodeScanResponse (scannedKeys : ℕ) (pairs : List KvPair) : Bytes :=
  Bytes.toBe 8 scannedKeys ++ Bytes.toBe 8 pairs.length ++ pairs.flatMap fun (key, value) =>
    Bytes.toBe 2 key.length ++ key ++ Bytes.toBe 4 value.length ++ value

def encodeCountResponse (scannedKeys count : ℕ) : Bytes :=
  Bytes.toBe 8 scannedKeys ++ Bytes.toBe 8 count

def encodeMinMaxResponse (scannedKeys : ℕ) (minKey maxKey : Option Bytes) : Bytes :=
  let encodeKey := fun
    | some key => Bytes.toBe 2 key.length ++ key
    | none     => Bytes.toBe 2 0
  let hasResult := if minKey.isSome || maxKey.isSome then 1 else 0
  Bytes.toBe 8 scannedKeys ++ Bytes.toBe 8 hasResult ++ encodeKey minKey ++ encodeKey maxKey

inductive PluginError
  | keyNotInRegion (key : Bytes) (regionId : ℕ) (startKey endKey : Bytes)
  | timeout (millis : ℕ)
  | canceled
  | other (message : String)

-- The region-local data. Only its scans are used.
structure RawStorage where
  scan : Bytes × Bytes → Except PluginError (List KvPair)

-- `IndexScan` and `FilterScan` do the same.
def scanRequest (req : CoprocessorRequest) (pairs : List KvPair) : Option ScanResult :=
  executeIndexScan {
    tablePrefix    := req.tablePrefix
    keyPrefix      := req.keyPrefix
    limit          := 0
    bloomFilter    := req.bloomFilter
    bloomPositions := []
  } pairs

def respond (req : CoprocessorRequest) (pairs : List KvPair) : Option Bytes :=
  match req.opType with
  | .indexScan | .filterScan => do
    let result ← scanRequest req pairs
    return encodeScanResponse result.scannedKeys result.pairs
  | .countScan =>
    let result := executeCount req.tablePrefix req.keyPrefix pairs
    return encodeCountResponse result.scannedKeys result.count
  | .minMaxScan =>
    let result := executeMinMax req.tablePrefix req.keyPrefix pairs
    return encodeMinMaxResponse result.scannedKeys result.minKey result.maxKey

def onRawCoprocessorRequest (ranges : List (Bytes × Bytes)) (request : Bytes)
    (storage : RawStorage) : Checked PluginError Bytes := do
  match decodeRequest request with
  | .error e => throw <| .other ("failed to decode request: " ++ e)
  | .ok req  =>
    let allPairs ← ExceptT.mk (some <| ranges.mapM storage.scan)
    ExceptT.lift (respond req allPairs.flatten)

end Coprocessor
