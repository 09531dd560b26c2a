import OxigraphCloud.Server.Http

-- The streaming responses. The generator of a response takes its state, writes into the buffer and
-- returns its next state, if there is one, or an error.
structure ReadForWrite (O : Type) where
  buffer   : Bytes
  position : ℕ
  state    : Option O

namespace ReadForWrite

variable {O : Type} (addMoreData : O → Bytes × Except String (Option O))

def buildResponse (initialState : Bytes × Except String O) :
    Except HttpError (ReadForWrite O) :=
  match initialState with
  | (buffer, .ok state) => .ok { buffer, position := 0, state := some state }
  | (_, .error e)       => .error <| internalServerError e

-- The buffer is cleared and filled again. The text of an error is written behind what the generator
-- has written before.
def refill (state : O) : ReadForWrite O :=
  match addMoreData state with
  | (written, .ok state) => { buffer := written, position := 0, state }
  | (written, .error e)  =>
    { buffer := written ++ SmallString.strBytes e, position := 0, state := none }

-- Reads into a buffer of the given length. There is no result if the buffer has to be filled more
-- than `fuel` times.
def read (length : ℕ) : (fuel : ℕ) → ReadForWrite O → Option (Bytes × ReadForWrite O)
  | fuel, r =>
    if r.position = r.buffer.length then
      match r.state with
      | some state =>
        match fuel with
        | 0        => none
        | fuel + 1 => read length fuel (refill addMoreData state)
      | none => some ([], r)
    else
      let len := min (r.buffer.length - r.position) length
      some ((r.buffer.drop r.position).take len, { r with position := r.position + len })

-- One read for each of the lengths.
def readAll (fuel : ℕ) : List ℕ → ReadForWrite O → Option (List Bytes)
  | [], _                => some []
  | length :: lengths, r => do
    let (bytes, r) ← r.read addMoreData length fuel
    return bytes :: (← readAll fuel lengths r)

end ReadForWrite
