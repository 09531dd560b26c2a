import OxigraphCloud.Primitives.Bytes

-- `[u8; n]`
abbrev ByteArr (n : ℕ) := List.Vector UInt8 n

inductive BadSmallStringError
  | tooLong (length : ℕ)
  | badUtf8
  deriving DecidableEq

inductive CorruptionError
  | msg (message : String)
  | smallString (error : BadSmallStringError)
  deriving DecidableEq

-- Next to the errors that the storage layer reports, `panicked` stands for a call that does not
-- return because it indexes a slice out of its bounds.
inductive StorageError
  | unexpectedEof
  | corruption (error : CorruptionError)
  | other (message : String)
  | panicked
  deriving DecidableEq

structure StrHash where
  hash : ByteArr 16
  deriving DecidableEq

namespace StrHash

def fromBeBytes (hash : ByteArr 16) : StrHash := { hash }

def toBeBytes (id : StrHash) : Bytes := id.hash.toList

end StrHash

abbrev IsUtf8 (bs : Bytes) : Prop := (ByteArray.mk bs.toArray).IsValidUTF8

-- `bytes[15]`, the length of a small string.
def lenByte (bytes : Bytes) : ℕ := (bytes.getLastD 0).toNat

-- The source relies on the constructors to only build values whose first `len` bytes are UTF-8.
structure SmallString where
  inner  : ByteArr 16
  len_le : lenByte inner.toList ≤ 16
  utf8   : IsUtf8 <| inner.toList.take (lenByte inner.toList)
  deriving DecidableEq

namespace SmallString

def asBytes (s : SmallString) : Bytes := s.inner.toList.take (lenByte s.inner.toList)

def eq (s s' : SmallString) : Bool := s.asBytes = s'.asBytes

-- The error is mapped by `CorruptionError::new` at all places that call this function.
def fromBeBytes (bytes : ByteArr 16) : Except StorageError SmallString :=
  if len_le : lenByte bytes.toList ≤ 16 then
    if utf8 : IsUtf8 <| bytes.toList.take (lenByte bytes.toList) then
      .ok { inner := bytes, len_le, utf8 }
    else
      .error <| .corruption <| .smallString .badUtf8
  else
    .error .panicked

def toBeBytes (s : SmallString) : Bytes := s.inner.toList

theorem fromBeBytes_inner (s : SmallString) : fromBeBytes s.inner = .ok s := by
  simp [fromBeBytes, s.len_le, s.utf8]

def strBytes (value : String) : Bytes := value.toByteArray.data.toList

-- A string of at most 15 bytes followed by its padding and its length.
def pad (bs : Bytes) : Bytes :=
  bs ++ List.replicate (15 - bs.length) 0 ++ [UInt8.ofNat bs.length]

theorem length_pad {bs : Bytes} (h : bs.length ≤ 15) : (pad bs).length = 16 := by
  simp [pad]
  omega

theorem lenByte_pad {bs : Bytes} (h : bs.length ≤ 15) : lenByte (pad bs) = bs.length := by
  simp [lenByte, pad]
  omega

theorem take_pad {bs : Bytes} : (pad bs).take bs.length = bs := by
  simp [pad]

def fromStr (value : String) : Except BadSmallStringError SmallString :=
  if h : (strBytes value).length ≤ 15 then
    .ok {
      inner  := ⟨pad (strBytes value), length_pad h⟩
      len_le := by
        simp only [List.Vector.toList_mk, lenByte_pad h]
        omega
      utf8   := by
        simp only [List.Vector.toList_mk, lenByte_pad h, take_pad]
        exact value.isValidUTF8
    }
  else
    .error <| .tooLong (strBytes value).length

end SmallString

-- A point on the timeline of the `xsd` date and time types: a decimal number of seconds and an
-- offset in minutes.
structure Timestamp where
  value          : BitVec 128
  timezoneOffset : Option (BitVec 16)
  deriving DecidableEq

namespace Timestamp

def fromBeBytes (bytes : Bytes) : Timestamp where
  value          := Bytes.toBitVec 16 (bytes.take 16)
  timezoneOffset := if bytes.drop 16 = [0xFF, 0xFF] then none else Bytes.toBitVec 2 (bytes.drop 16)

def toBeBytes (t : Timestamp) : Bytes :=
  Bytes.ofBitVec 16 t.value ++
  match t.timezoneOffset with
  | some offset => Bytes.ofBitVec 2 offset
  | none        => [0xFF, 0xFF]

-- The offset of -1 minutes has the bytes that stand for a missing offset.
def canonical (t : Timestamp) : Timestamp where
  value          := t.value
  timezoneOffset := if t.timezoneOffset = some (-1) then none else t.timezoneOffset

theorem fromBeBytes_toBeBytes (t : Timestamp) : fromBeBytes t.toBeBytes = t.canonical := by
  have hn (offset : BitVec 16) : Bytes.ofBitVec 2 offset = [0xFF, 0xFF] ↔ offset = -1 :=
    ⟨fun h => by rw [← Bytes.toBitVec_ofBitVec (w := 2) offset, h]; rfl, fun h => h ▸ rfl⟩
  rcases t with ⟨value, _ | offset⟩
  case none => simp [fromBeBytes, toBeBytes, canonical, Bytes.toBitVec_ofBitVec]
  case some =>
    by_cases h : offset = -1
      <;> simp [fromBeBytes, toBeBytes, canonical, Bytes.toBitVec_ofBitVec, hn, h]

end Timestamp

structure Duration where
  yearMonth : BitVec 64
  dayTime   : BitVec 128
  deriving DecidableEq

namespace Duration

def fromBeBytes (bytes : Bytes) : Duration where
  yearMonth := Bytes.toBitVec 8 (bytes.take 8)
  dayTime   := Bytes.toBitVec 16 (bytes.drop 8)

def toBeBytes (d : Duration) : Bytes :=
  Bytes.ofBitVec 8 d.yearMonth ++ Bytes.ofBitVec 16 d.dayTime

theorem fromBeBytes_toBeBytes (d : Duration) : fromBeBytes d.toBeBytes = d := by
  simp [fromBeBytes, toBeBytes, Bytes.toBitVec_ofBitVec]

end Duration
