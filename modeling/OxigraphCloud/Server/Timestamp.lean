import OxigraphCloud.Primitives.Digits

-- Numbers wrap around, as in a release build.
def daysToYmd (days : UInt64) : UInt64 × UInt64 × UInt64 :=
  let z := days + 719468
  let era := z / 146097
  let doe := z - era * 146097
  let yoe := (doe - doe / 1460 + doe / 36524 - doe / 146096) / 365
  let y := yoe + era * 400
  let doy := doe - (365 * yoe + yoe / 4 - yoe / 100)
  let mp := (5 * doy + 2) / 153
  let d := doy - (153 * mp + 2) / 5 + 1
  let m := if mp < 10 then mp + 3 else mp - 9
  let y := if m ≤ 2 then y + 1 else y
  (y, m, d)

-- The seconds since the epoch are given.
def formatTimestamp (secs : UInt64) : String :=
  let days := secs / 86400
  let timeOfDay := secs % 86400
  let hours := timeOfDay / 3600
  let minutes := (timeOfDay % 3600) / 60
  let seconds := timeOfDay % 60
  let (year, month, day) := daysToYmd days
  .ofList <| Nat.padded 4 year.toNat ++ '-' :: Nat.padded 2 month.toNat ++
    '-' :: Nat.padded 2 day.toNat ++ 'T' :: Nat.padded 2 hours.toNat ++
    ':' :: Nat.padded 2 minutes.toNat ++ ':' :: Nat.padded 2 seconds.toNat ++ ['Z']
