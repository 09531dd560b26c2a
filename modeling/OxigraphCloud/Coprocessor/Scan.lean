import OxigraphCloud.Objects.BinaryEncoder
import OxigraphCloud.Primitives.Bits

-- The coprocessor plugin of TiKV: navigation in index keys, Bloom filters, scans and aggregates
-- over the pairs of a region.
namespace Coprocessor

-- A call that returns a value or an error, or that panics (`none`).
abbrev Checked (ε : Type) := ExceptT ε Option

namespace Checked

def panicked : Checked ε α := ExceptT.mk none

-- `&data[start..]`
def sliceFrom (data : Bytes) (start : ℕ) : Checked ε Bytes :=
  if start ≤ data.length then return data.drop start else panicked

-- `&data[start..stop]`
def slice (data : Bytes) (start stop : ℕ) : Checked ε Bytes :=
  if start ≤ stop ∧ stop ≤ data.length then return (data.take stop).drop start else panicked

end Checked

-- Each nested term starts behind the tag of the term around it, so one more than the length of the
-- data suffices as `fuel`.
def encodedTermLenFuel : (fuel : ℕ) → Bytes → Checked String ℕ
  | _, []                    => throw "empty term data"
  | 0, _                     => .panicked
  | fuel + 1, data@(tag :: _) =>
    match tag.toNat with
    | 1 | 8 | 9 | 10 | 16 | 17 | 33 | 44                                  => return 17
    | 20 | 21 | 22 | 23 | 24 | 25 | 56 | 57 | 58 | 59 | 60 | 61 | 62 | 63 => return 33
    | 28 | 29                                                             => return 1
    | 30                                                                  => return 5
    | 31 | 32 | 43                                                        => return 9
    | 34 | 35 | 36 | 37 | 38 | 39 | 40 | 41                               => return 19
    | 42                                                                  => return 25
    | 48 | 49                                                             =>
      (List.range 3).foldlM (fun offset _ => do
        return offset + (← encodedTermLenFuel fuel (← .sliceFrom data offset))) 1
    | _ => throw "unknown term type byte"

def encodedTermLen (data : Bytes) : Checked String ℕ :=
  encodedTermLenFuel (data.length + 1) data

-- The term that is `position` terms behind `offset`.
def extractTermBytesFrom (key : Bytes) (offset position : ℕ) : Checked String Bytes := do
  if key.length ≤ offset then
    throw "key too short for requested term position"
  let len ← encodedTermLen (key.drop offset)
  match position with
  | 0            => .slice key offset (offset + len)
  | position + 1 => extractTermBytesFrom key (offset + len) position

def extractTermBytes (key : Bytes) (position : ℕ) : Checked String Bytes :=
  extractTermBytesFrom key 0 position

def extractConcatTermBytes (key : Bytes) (positions : List ℕ) : Checked String Bytes :=
  positions.foldlM (fun result position => do
    return result ++ (← extractTermBytes key position)) []

-- What a slice of bytes feeds into a hasher: its length and then its bytes.
def hashInput (key : Bytes) : Bytes := (Bytes.toBe 8 key.length).reverse ++ key

-- `(h1.wrapping_add(i.wrapping_mul(h2))) % bits`
def bitPos (h : BitVec 64 × BitVec 64) (bits i : ℕ) : ℕ :=
  (h.1 + BitVec.ofNat 64 i * h.2).toNat % bits

def hashPair (key : Bytes) : BitVec 64 × BitVec 64 :=
  (SipHash.hash 0 0 (hashInput key), SipHash.hash 1 1 (hashInput key))

structure BloomFilter where
  bits        : Bytes
  numBits     : ℕ
  numHashes   : UInt8
  length_bits : bits.length = (numBits + 7) / 8

namespace BloomFilter

-- The sizes are computed from the number of expected elements and the rate of false positives.
def new (numBits : ℕ) (numHashes : UInt8) : BloomFilter where
  bits        := List.replicate ((numBits + 7) / 8) 0
  numBits     := numBits
  numHashes   := numHashes
  length_bits := List.length_replicate

def fromBytes (bytes : Bytes) (numHashes : UInt8) : BloomFilter where
  bits        := bytes
  numBits     := bytes.length * 8
  numHashes   := numHashes
  length_bits := by omega

def toBytes (filter : BloomFilter) : Bytes := filter.bits

def bitPositions (filter : BloomFilter) (key : Bytes) : List ℕ :=
  (List.range filter.numHashes.toNat).map (bitPos (hashPair key) filter.numBits)

-- The remainder of a division by zero panics.
def insert (filter : BloomFilter) (key : Bytes) : Option BloomFilter :=
  if filter.numBits = 0 ∧ 0 < filter.numHashes.toNat then
    none
  else
    some { filter with
      bits        := (filter.bitPositions key).foldl Bytes.setBit filter.bits
      length_bits := by simpa using filter.length_bits }

def insertAll (filter : BloomFilter) (keys : List Bytes) : Option BloomFilter :=
  keys.foldlM insert filter

def mayContain (filter : BloomFilter) (key : Bytes) : Option Bool :=
  if filter.numBits = 0 ∧ 0 < filter.numHashes.toNat then
    none
  else
    some <| (filter.bitPositions key).all filter.bits.testBit

end BloomFilter

abbrev KvPair := Bytes × Bytes

structure ScanResult where
  pairs       : List KvPair
  scannedKeys : ℕ
  deriving DecidableEq

structure IndexScanParams where
  tablePrefix    : UInt8
  keyPrefix      : Bytes
  limit          : ℕ
  bloomFilter    : Option Bytes
  bloomPositions : List ℕ

def siphasherHash (key : Bytes) : BitVec 64 := SipHash.hash 0 0 (hashInput key)

def bloomCheck (filter key : Bytes) : Bool :=
  if filter.isEmpty then
    true
  else
    let bits := filter.length * 8
    let h := siphasherHash key
    (List.range 3).all fun i => filter.testBit (bitPos (h, h >>> (32 : ℕ)) bits i)

namespace IndexScanParams

variable (params : IndexScanParams)

def fullPrefix : Bytes := params.tablePrefix :: params.keyPrefix

-- The join terms of the key are not in the filter. A key without such terms is kept.
def prunes (key : Bytes) : Option Bool :=
  match params.bloomFilter with
  | none            => some false
  | some bloomBytes =>
    match (extractConcatTermBytes (key.drop 1) params.bloomPositions).run with
    | none              => none
    | some (.error _)   => some false
    | some (.ok concat) => some (!bloomCheck bloomBytes concat)

def scanFrom (result : ScanResult) : List KvPair → Option ScanResult
  | []                    => some result
  | (key, value) :: pairs =>
    if !params.fullPrefix.isPrefixOf key then
      scanFrom result pairs
    else do
      let result := { result with scannedKeys := result.scannedKeys + 1 }
      if ← params.prunes key then
        scanFrom result pairs
      else
        let result := { result with pairs := result.pairs ++ [(key, value)] }
        if 0 < params.limit ∧ params.limit ≤ result.pairs.length then
          return result
        else
          scanFrom result pairs

end IndexScanParams

def executeIndexScan (params : IndexScanParams) (pairs : List KvPair) : Option ScanResult :=
  params.scanFrom { pairs := [], scannedKeys := 0 } pairs

structure CountResult where
  count       : ℕ
  scannedKeys : ℕ
  deriving DecidableEq

def executeCount (tablePrefix : UInt8) (keyPrefix : Bytes) (pairs : List KvPair) : CountResult :=
  pairs.foldl (fun result (key, _) =>
    if (tablePrefix :: keyPrefix).isPrefixOf key then
      { count := result.count + 1, scannedKeys := result.scannedKeys + 1 }
    else
      result) { count := 0, scannedKeys := 0 }

structure MinMaxResult where
  minKey      : Option Bytes
  maxKey      : Option Bytes
  scannedKeys : ℕ
  deriving DecidableEq

def MinMaxResult.add (result : MinMaxResult) (key : Bytes) : MinMaxResult where
  minKey      := if result.minKey.all (key < ·) then some key else result.minKey
  maxKey      := if result.maxKey.all (· < key) then some key else result.maxKey
  scannedKeys := result.scannedKeys + 1

def executeMinMax (tablePrefix : UInt8) (keyPrefix : Bytes) (pairs : List KvPair) : MinMaxResult :=
  pairs.foldl (fun result (key, _) =>
    if (tablePrefix :: keyPrefix).isPrefixOf key then result.add key else result)
    { minKey := none, maxKey := none, scannedKeys := 0 }

end Coprocessor
