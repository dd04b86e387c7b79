import VivaGenicam.Gige.Gvcp
import VivaGenicam.Library.Tiling

/-!
Memory access over GVCP: READMEM and WRITEMEM in chunks, and writes that start
or end inside a word, which go out as the words around them. `transact` is one
transaction; addresses are narrowed to 32 bits where a command is built.
-/

namespace VivaGenicam.Gvcp

open Library.Bytes Library.Tiling

/-- The data of a READMEM acknowledgement: after the address echo, or all of it
from a device that omits the echo. -/
def readAckData (payload : List UInt8) (request : Nat) : Option (List UInt8) :=
  if 4 + request ≤ payload.length then some ((payload.drop 4).take request)
  else if payload.length = request then some (payload.take request)
  else none

section Transactions

variable {σ : Type} (transact : σ → OpCode → List UInt8 → Except GigeError GenCpAck × σ)

/-- The loop of `readMem`, with `remaining` bytes to go from `addr + offset`. -/
def readMemLoop (addr remaining offset : Nat) (data : List UInt8) (state : σ) :
    Except GigeError (List UInt8) × σ :=
  if h : remaining = 0 then (.ok data, state)
  else
    let chunk := min remaining Consts.gencpMaxBlock
    -- The byte count of a READMEM is a multiple of 4; the padding is dropped.
    let request := nextMultipleOf chunk 4
    let payload := encodeBE 4 (addr + offset) ++ encodeBE 2 0 ++ encodeBE 2 request
    match transact state .readMem payload with
    | (.error error, after) => (.error error, after)
    | (.ok ack, after) =>
      match readAckData ack.payload request with
      | none => (.error (.ackLength "READMEM" request ack.payload.length), after)
      | some ackData =>
        readMemLoop addr (remaining - chunk) (offset + chunk) (data ++ ackData.take chunk) after
termination_by remaining
decreasing_by
  have : 0 < Consts.gencpMaxBlock := by decide
  omega

def readMem (addr len : Nat) (state : σ) : Except GigeError (List UInt8) × σ :=
  readMemLoop transact addr len 0 [] state

def gvcpWriteOverhead : Nat := 4

/-- The loop of `writeMemWords`, with the data from `offset` on to go. -/
def writeMemWordsLoop (addr offset : Nat) (data : List UInt8) (state : σ) :
    Except GigeError Unit × σ :=
  if h : data.length ≤ offset then (.ok (), state)
  else
    let chunk := min (data.length - offset) (Consts.gencpMaxBlock - gvcpWriteOverhead)
    let payload := encodeBE 4 (addr + offset) ++ (data.drop offset).take chunk
    match transact state .writeMem payload with
    | (.error error, after) => (.error error, after)
    | (.ok ack, after) =>
      if 4 < ack.payload.length then
        (.error (.ackLength "WRITEMEM" 4 ack.payload.length), after)
      else writeMemWordsLoop addr (offset + chunk) data after
termination_by data.length - offset
decreasing_by
  have : 0 < Consts.gencpMaxBlock - gvcpWriteOverhead := by decide
  omega

def writeMemWords (addr : Nat) (data : List UInt8) (state : σ) : Except GigeError Unit × σ :=
  writeMemWordsLoop transact addr 0 data state

def writeMem (addr : Nat) (data : List UInt8) (state : σ) : Except GigeError Unit × σ :=
  let start := addr - addr % 4
  let stop := nextMultipleOf (addr + data.length) 4
  if data.length = 0 ∨ (start = addr ∧ stop = addr + data.length) then
    writeMemWords transact addr data state
  else
    match readMem transact start (stop - start) state with
    -- The words around the write are refused: the device judges it as given.
    | (.error _, after) => writeMemWords transact addr data after
    | (.ok words, after) =>
      let offset := addr - start
      writeMemWords transact start
        (words.take offset ++ data ++ words.drop (offset + data.length)) after

end Transactions

end VivaGenicam.Gvcp
