import VivaGenicam.Gige.Status
import VivaGenicam.Library.Bytes
import VivaGenicam.U3v.Framing

/-!
The USB3 Vision control channel: READMEM and WRITEMEM commands over a pair of
bulk endpoints, split across the device's transfer limits, and the search for
the acknowledge of each among pending acknowledges and late answers. The
endpoints are scripts, consumed across calls: how each write ends, and what each
read returns; a read of an exhausted script times out.

`exchanges` is not the program's. It records each command sent, the waits of its
reads and the bytes taken as its answer, oldest first.
-/

namespace VivaGenicam.U3v

open Library.Bytes

namespace CommandId

def readmemCmd : Nat := 0x0800
def readmemAck : Nat := 0x0801
def writememCmd : Nat := 0x0802
def writememAck : Nat := 0x0803
def pendingAck : Nat := 0x0805

end CommandId

def requestAck : Nat := 2 ^ 14
def controlPrefix : Nat := 0x43563355
def headerSize : Nat := 12
def readmemScdSize : Nat := 12
def writememAddressSize : Nat := 8
def maxAcksPerCommand : Nat := 100
def maxPendingWait : Nat := 10000
def defaultPendingWaitMs : Nat := 100
def defaultTimeout : Nat := 1000

/-- The wait a pending acknowledge asks for, in milliseconds. -/
def pendingAckTimeoutMs (scd : List UInt8) : Nat :=
  if scd.length < 4 then defaultPendingWaitMs
  else
    let requested := fieldLE scd 2 2
    if requested = 0 then defaultPendingWaitMs else min requested maxPendingWait

def encodeCommand (command requestId : Nat) (scd : List UInt8) : List UInt8 :=
  encodeLE 4 controlPrefix ++ encodeLE 2 requestAck ++ encodeLE 2 command ++
    encodeLE 2 scd.length ++ encodeLE 2 requestId ++ scd

structure AckPacket where
  status : U3vStatus
  statusRaw : Nat
  command : Nat
  requestId : Nat
  payload : List UInt8
deriving DecidableEq, Repr

def decodeAck (buf : List UInt8) : Except U3vError AckPacket :=
  if buf.length < headerSize then .error (.malformed "acknowledge" "is shorter than its header")
  else if fieldLE buf 0 4 ≠ controlPrefix then
    .error (.malformed "acknowledge" "lacks the U3VC prefix")
  else
    let expected := headerSize + fieldLE buf 8 2
    if buf.length < expected then
      .error (.malformed "acknowledge" "is shorter than its header says")
    else
      .ok {
        status := U3vStatus.fromRaw (fieldLE buf 4 2)
        statusRaw := fieldLE buf 4 2
        command := fieldLE buf 6 2
        requestId := fieldLE buf 10 2
        payload := (buf.take expected).drop headerSize }

/-- What a bulk transfer failed with, and the looks for the device after it. -/
structure Failure where
  error : U3vError
  looks : List (Option Bool)
deriving DecidableEq, Repr

structure Exchange where
  requestId : Nat
  command : Nat
  scd : List UInt8
  waits : List Nat
  answer : Option (List UInt8)
deriving DecidableEq, Repr

structure ControlChannel where
  requestId : Nat
  maxCmdTransfer : Nat
  maxAckTransfer : Nat
  timeout : Nat
  writes : List (Option Failure)
  reads : List (Except Failure (List UInt8))
  exchanges : List Exchange

/-- What the search for an acknowledge comes to. -/
structure Search where
  result : Except U3vError (List UInt8)
  waits : List Nat
  answer : Option (List UInt8)
  reads : List (Except Failure (List UInt8))

/-- The loop over acknowledges, with `left` reads to go. -/
def awaitAck (requestId expectedAck bufferSize timeout : Nat) :
    (left wait : Nat) → List (Except Failure (List UInt8)) → Search
  | 0, _, reads => ⟨.error .timeout, [], none, reads⟩
  | _ + 1, wait, [] => ⟨.error .timeout, [wait], none, []⟩
  | _ + 1, wait, .error failure :: rest =>
    ⟨.error (unlessGone failure.error failure.looks), [wait], none, rest⟩
  | left + 1, wait, .ok bytes :: rest =>
    match decodeAck (bytes.take bufferSize) with
    | .error error => ⟨.error error, [wait], none, rest⟩
    | .ok ack =>
      if ack.requestId ≠ requestId then
        let later := awaitAck requestId expectedAck bufferSize timeout left wait rest
        { later with waits := wait :: later.waits }
      else if ack.command = CommandId.pendingAck then
        let later := awaitAck requestId expectedAck bufferSize timeout left
          (pendingAckTimeoutMs ack.payload + timeout) rest
        { later with waits := wait :: later.waits }
      else if ack.command ≠ expectedAck then
        ⟨.error (.malformed "acknowledge" "answers another command"), [wait], none, rest⟩
      else if ack.status.isSuccess then
        ⟨.ok ack.payload, [wait], some (bytes.take bufferSize), rest⟩
      else ⟨.error (.status ack.statusRaw), [wait], none, rest⟩

namespace ControlChannel

def new (maxCmdTransfer maxAckTransfer : Nat) (writes : List (Option Failure))
    (reads : List (Except Failure (List UInt8))) : ControlChannel where
  requestId := 0
  maxCmdTransfer := maxCmdTransfer
  maxAckTransfer := maxAckTransfer
  timeout := defaultTimeout
  writes := writes
  reads := reads
  exchanges := []

def nextRequestId (channel : ControlChannel) : Nat :=
  if channel.requestId = 65535 then 1 else channel.requestId + 1

/-- The size of the buffer acknowledges are read into. -/
def bufferSize (channel : ControlChannel) : Nat := max channel.maxAckTransfer headerSize

def transact (channel : ControlChannel) (command expectedAck : Nat) (scd : List UInt8) :
    Except U3vError (List UInt8) × ControlChannel :=
  let requestId := channel.nextRequestId
  match channel.writes.head?.join with
  | some failure =>
    (.error (unlessGone failure.error failure.looks),
      { channel with
        requestId := requestId
        writes := channel.writes.tail
        exchanges := channel.exchanges ++ [⟨requestId, command, scd, [], none⟩] })
  | none =>
    let search := awaitAck requestId expectedAck channel.bufferSize channel.timeout
      maxAcksPerCommand channel.timeout channel.reads
    (search.result,
      { channel with
        requestId := requestId
        writes := channel.writes.tail
        reads := search.reads
        exchanges := channel.exchanges ++
          [⟨requestId, command, scd, search.waits, search.answer⟩] })

def maxReadChunk (channel : ControlChannel) : Except U3vError Nat :=
  let chunk := min (channel.maxAckTransfer - headerSize) 65535
  if chunk = 0 then
    .error (.device "has a maximum acknowledge transfer too small to carry data")
  else .ok chunk

def maxWriteChunk (channel : ControlChannel) : Except U3vError Nat :=
  let chunk := min (channel.maxCmdTransfer - (headerSize + writememAddressSize))
    (65535 - writememAddressSize)
  if chunk = 0 then .error (.device "has a maximum command transfer too small to carry data")
  else .ok chunk

/-- The loop of `readMem`, with `len - offset` bytes to go; its caller has
checked that a chunk carries data. -/
def readMemLoop (addr len maxPayload offset : Nat) (result : List UInt8)
    (channel : ControlChannel) : Except U3vError (List UInt8) × ControlChannel :=
  if h : len ≤ offset ∨ maxPayload = 0 then (.ok result, channel)
  else
    let chunk := min (len - offset) maxPayload
    let scd := encodeLE 8 (addr + offset) ++ encodeLE 2 0 ++ encodeLE 2 chunk
    match channel.transact CommandId.readmemCmd CommandId.readmemAck scd with
    | (.error error, after) => (.error error, after)
    | (.ok ack, after) =>
      if ack.length ≠ chunk then
        (.error (.length "READMEM_ACK payload" chunk ack.length), after)
      else readMemLoop addr len maxPayload (offset + chunk) (result ++ ack) after
termination_by len - offset
decreasing_by omega

def readMem (channel : ControlChannel) (addr len : Nat) :
    Except U3vError (List UInt8) × ControlChannel :=
  match channel.maxReadChunk with
  | .error error => (.error error, channel)
  | .ok maxPayload => readMemLoop addr len maxPayload 0 [] channel

/-- The loop of `writeMem`, with the data from `offset` on to go. -/
def writeMemLoop (addr : Nat) (data : List UInt8) (maxPayload offset : Nat)
    (channel : ControlChannel) : Except U3vError Unit × ControlChannel :=
  if h : data.length ≤ offset ∨ maxPayload = 0 then (.ok (), channel)
  else
    let chunk := min (data.length - offset) maxPayload
    let scd := encodeLE 8 (addr + offset) ++ (data.drop offset).take chunk
    match channel.transact CommandId.writememCmd CommandId.writememAck scd with
    | (.error error, after) => (.error error, after)
    | (.ok ack, after) =>
      -- A device without the written-length capability sends no such field.
      if 4 ≤ ack.length ∧ fieldLE ack 2 2 ≠ chunk then
        (.error (.length "a WRITEMEM_ACK's bytes written" chunk (fieldLE ack 2 2)), after)
      else writeMemLoop addr data maxPayload (offset + chunk) after
termination_by data.length - offset
decreasing_by omega

def writeMem (channel : ControlChannel) (addr : Nat) (data : List UInt8) :
    Except U3vError Unit × ControlChannel :=
  match channel.maxWriteChunk with
  | .error error => (.error error, channel)
  | .ok maxPayload => writeMemLoop addr data maxPayload 0 channel

def setMaxTransfer (channel : ControlChannel) (maxCmdTransfer maxAckTransfer : Nat) :
    ControlChannel :=
  { channel with maxCmdTransfer := maxCmdTransfer, maxAckTransfer := maxAckTransfer }

def setTimeout (channel : ControlChannel) (timeout : Nat) : ControlChannel :=
  { channel with timeout := timeout }

end ControlChannel

end VivaGenicam.U3v
