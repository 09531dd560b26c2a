import OxigraphCloud.Coprocessor.Scan

-- Filters that are evaluated on the bytes of keys.
namespace Coprocessor

-- `.ok()`
def Checked.ok (x : Checked ε α) : OptionT Option α := OptionT.mk <| x.run.map Except.toOption

-- The term that is `position` terms behind `offset`.
def extractTermAtFrom (key : Bytes) (offset position : ℕ) : OptionT Option Bytes := do
  if key.length ≤ offset then
    failure
  let len ← (encodedTermLen (key.drop offset)).ok
  match position with
  | 0            => (.slice key offset (offset + len) : Checked String Bytes).ok
  | position + 1 => extractTermAtFrom key (offset + len) position

def extractTermAt (key : Bytes) (position : ℕ) : OptionT Option Bytes :=
  extractTermAtFrom key 0 position

inductive FilterPredicate
  | termEquals (position : ℕ) (value : Bytes)
  | termTypeEquals (position : ℕ) (typeByte : UInt8)
  | and (preds : List FilterPredicate)
  | or (preds : List FilterPredicate)

mutual

-- There is no result if the call panics.
def evaluateFilter (key : Bytes) : FilterPredicate → Option Bool
  | .termEquals position value => do
    return (← (extractTermAt key position).run) = some value
  | .termTypeEquals position typeByte => do
    return (← (extractTermAt key position).run).any (·.head? = some typeByte)
  | .and preds => evaluateAll key preds
  | .or preds  => evaluateAny key preds

def evaluateAll (key : Bytes) : List FilterPredicate → Option Bool
  | []         => return true
  | p :: preds => do if ← evaluateFilter key p then evaluateAll key preds else return false

def evaluateAny (key : Bytes) : List FilterPredicate → Option Bool
  | []         => return false
  | p :: preds => do if ← evaluateFilter key p then return true else evaluateAny key preds

end

def filterScanResults (predicate : FilterPredicate) : List KvPair → Option (List KvPair)
  | []            => return []
  | pair :: pairs => do
    let keep ←
      match pair.1 with
      | []       => pure false
      | _ :: key => evaluateFilter key predicate
    let results ← filterScanResults predicate pairs
    return if keep then pair :: results else results

end Coprocessor
