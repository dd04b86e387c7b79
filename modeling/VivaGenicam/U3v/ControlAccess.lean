import VivaGenicam.U3v.Control
import VivaGenicam.Library.RoundRobin
import VivaGenicam.Library.Tiling
import VivaGenicam.Library.Transition

/-!
What a control channel reads and writes. Each command's answer is one decoded
acknowledge that carries its request id, its acknowledge id and SUCCESS, taken
from the pipe in order; the commands of an access tile the range they were
asked for; and request ids go round robin through `1..65535`.
-/

namespace VivaGenicam.U3v

open Library.Bytes Library.RoundRobin Library.Tiling Library.Transition

/-- The acknowledge bytes still in the pipe, as they come out of the read buffer. -/
def arriving (bufferSize : Nat) (reads : List (Except Failure (List UInt8))) :
    List (List UInt8) :=
  reads.filterMap fun read => read.toOption.map (·.take bufferSize)

/-- The bytes taken as the command's answer decode to an acknowledge of this
request and this command with SUCCESS, and `payload` is its payload. -/
def Exchange.Answers (exchange : Exchange) (expectedAck : Nat) (payload : List UInt8) : Prop :=
  ∃ bytes ack, exchange.answer = some bytes ∧ decodeAck bytes = .ok ack ∧
    ack.requestId = exchange.requestId ∧ ack.command = expectedAck ∧
    ack.status.isSuccess = true ∧ ack.payload = payload

/-- What a search took from the pipe, and what it took as its answer. -/
structure Search.Sound (search : Search) (requestId expectedAck bufferSize left : Nat)
    (reads : List (Except Failure (List UInt8))) : Prop where
  few : search.waits.length ≤ left
  taken : ∃ consumed, arriving bufferSize reads = consumed ++ arriving bufferSize search.reads ∧
    search.answer.toList.Sublist consumed
  ok : ∀ payload, search.result = .ok payload →
    ∃ bytes ack, search.answer = some bytes ∧ decodeAck bytes = .ok ack ∧
      ack.requestId = requestId ∧ ack.command = expectedAck ∧ ack.status.isSuccess = true ∧
      ack.payload = payload

variable {rest : List (Except Failure (List UInt8))}

theorem Search.Sound.fail {requestId expectedAck bufferSize left : Nat} {error : U3vError}
    {waits : List Nat} {reads : List (Except Failure (List UInt8))} (hfew : waits.length ≤ left)
    (htaken : ∃ consumed, arriving bufferSize reads = consumed ++ arriving bufferSize rest) :
    Search.Sound ⟨.error error, waits, none, rest⟩ requestId expectedAck bufferSize left reads where
  few := hfew
  taken := by
    obtain ⟨consumed, heq⟩ := htaken
    exact ⟨consumed, heq, List.nil_sublist _⟩
  ok := by simp

theorem Search.Sound.pass {search : Search} {requestId expectedAck bufferSize left wait : Nat}
    {bytes : List UInt8} (h : search.Sound requestId expectedAck bufferSize left rest) :
    Search.Sound { search with waits := wait :: search.waits } requestId expectedAck bufferSize
      (left + 1) (.ok bytes :: rest) where
  few := Nat.succ_le_succ h.few
  taken := by
    obtain ⟨consumed, heq, hsub⟩ := h.taken
    refine ⟨bytes.take bufferSize :: consumed, ?_, hsub.cons _⟩
    rw [List.cons_append, ← heq]
    rfl
  ok := h.ok

theorem arriving_ok (bufferSize : Nat) (bytes : List UInt8)
    (rest : List (Except Failure (List UInt8))) :
    arriving bufferSize (.ok bytes :: rest) =
      [bytes.take bufferSize] ++ arriving bufferSize rest := rfl

theorem awaitAck_sound (requestId expectedAck bufferSize timeout left wait : Nat)
    (reads : List (Except Failure (List UInt8))) :
    (awaitAck requestId expectedAck bufferSize timeout left wait reads).Sound requestId
      expectedAck bufferSize left reads := by
  induction left generalizing wait reads with
  | zero => exact Search.Sound.fail (by simp) ⟨[], rfl⟩
  | succ left ih =>
    cases reads with
    | nil => exact Search.Sound.fail (by simp) ⟨[], rfl⟩
    | cons read rest =>
      cases read with
      | error failure => exact Search.Sound.fail (by simp) ⟨[], rfl⟩
      | ok bytes =>
        have hone : ∃ consumed, arriving bufferSize (.ok bytes :: rest) =
            consumed ++ arriving bufferSize rest := ⟨_, arriving_ok ..⟩
        rw [awaitAck]
        cases hack : decodeAck (bytes.take bufferSize) with
        | error error => exact Search.Sound.fail (by simp) hone
        | ok ack =>
          dsimp only
          split
          · exact (ih wait rest).pass
          · rename_i hid
            split
            · exact (ih _ rest).pass
            · split
              · exact Search.Sound.fail (by simp) hone
              · rename_i hcommand
                split
                · rename_i hsuccess
                  refine ⟨by simp, ⟨_, arriving_ok .., by simp⟩, ?_⟩
                  rintro payload heq
                  cases heq
                  exact ⟨_, ack, rfl, hack, not_not.mp hid, not_not.mp hcommand, hsuccess, rfl⟩
                · exact Search.Sound.fail (by simp) hone

/-- What a call leaves of the channel: the same limits, and what it took from
the pipe. -/
structure Follows (before after : ControlChannel) (added : List Exchange) : Prop where
  maxCmdTransfer : after.maxCmdTransfer = before.maxCmdTransfer
  maxAckTransfer : after.maxAckTransfer = before.maxAckTransfer
  exchanges : after.exchanges = before.exchanges ++ added
  few : ∀ exchange ∈ added, exchange.waits.length ≤ maxAcksPerCommand
  taken : ∃ consumed, arriving before.bufferSize before.reads =
      consumed ++ arriving before.bufferSize after.reads ∧
    (added.filterMap Exchange.answer).Sublist consumed

theorem Follows.bufferSize {before after : ControlChannel} {added : List Exchange}
    (h : Follows before after added) : after.bufferSize = before.bufferSize := by
  unfold ControlChannel.bufferSize
  rw [h.maxAckTransfer]

theorem Follows.refl (channel : ControlChannel) : Follows channel channel [] :=
  ⟨rfl, rfl, by simp, by simp, [], rfl, List.Sublist.refl _⟩

theorem Follows.trans {before middle after : ControlChannel} {first second : List Exchange}
    (hfirst : Follows before middle first) (hsecond : Follows middle after second) :
    Follows before after (first ++ second) where
  maxCmdTransfer := hsecond.maxCmdTransfer.trans hfirst.maxCmdTransfer
  maxAckTransfer := hsecond.maxAckTransfer.trans hfirst.maxAckTransfer
  exchanges := by rw [hsecond.exchanges, hfirst.exchanges, List.append_assoc]
  few := by
    intro exchange hmem
    rcases List.mem_append.mp hmem with hmem | hmem
    · exact hfirst.few exchange hmem
    · exact hsecond.few exchange hmem
  taken := by
    obtain ⟨early, hearly, hsubEarly⟩ := hfirst.taken
    obtain ⟨late, hlate, hsubLate⟩ := hsecond.taken
    rw [hfirst.bufferSize] at hlate
    refine ⟨early ++ late, ?_, ?_⟩
    · rw [hearly, hlate, List.append_assoc]
    · rw [List.filterMap_append]
      exact hsubEarly.append hsubLate

theorem transact_spec (channel : ControlChannel) (command expectedAck : Nat)
    (scd : List UInt8) :
    ∃ exchange, exchange.requestId = channel.nextRequestId ∧ exchange.command = command ∧
      exchange.scd = scd ∧
      Follows channel (channel.transact command expectedAck scd).2 [exchange] ∧
      (channel.transact command expectedAck scd).2.requestId = channel.nextRequestId ∧
      ∀ payload, (channel.transact command expectedAck scd).1 = .ok payload →
        exchange.Answers expectedAck payload := by
  unfold ControlChannel.transact
  dsimp only
  cases channel.writes.head?.join with
  | some failure =>
    exact ⟨⟨channel.nextRequestId, command, scd, [], none⟩, rfl, rfl, rfl,
      ⟨rfl, rfl, rfl, by simp, [], rfl, by simp⟩, rfl, by simp⟩
  | none =>
    have hsound := awaitAck_sound channel.nextRequestId expectedAck channel.bufferSize
      channel.timeout maxAcksPerCommand channel.timeout channel.reads
    set search := awaitAck channel.nextRequestId expectedAck channel.bufferSize
      channel.timeout maxAcksPerCommand channel.timeout channel.reads
    refine ⟨⟨channel.nextRequestId, command, scd, search.waits, search.answer⟩, rfl, rfl, rfl,
      ⟨rfl, rfl, rfl, ?_, ?_⟩, rfl, ?_⟩
    · simpa using hsound.few
    · obtain ⟨consumed, heq, hsub⟩ := hsound.taken
      refine ⟨consumed, heq, ?_⟩
      cases hanswer : search.answer with
      | none => simp
      | some bytes => simpa [hanswer] using hsub
    · intro payload heq
      obtain ⟨bytes, ack, hanswer, hack, hid, hcommand, hsuccess, hpayload⟩ :=
        hsound.ok payload heq
      exact ⟨bytes, ack, hanswer, hack, hid, hcommand, hsuccess, hpayload⟩

/-- The address and the length a READMEM asks for, from its bytes. -/
def Exchange.readSpan (exchange : Exchange) : Nat × Nat :=
  (fieldLE exchange.scd 0 8, fieldLE exchange.scd 10 2)

/-- A READMEM whose acknowledge fits the device's limit, and its length its field. -/
structure Exchange.IsRead (maxAckTransfer : Nat) (exchange : Exchange) : Prop where
  command : exchange.command = CommandId.readmemCmd
  scd : exchange.scd.length = readmemScdSize
  acknowledge : headerSize + exchange.readSpan.2 ≤ maxAckTransfer
  length : exchange.readSpan.2 ≤ 65535

/-- What a read sends and returns: reads that tile the range, all of it where
the read succeeds, whose answers make up the result. -/
structure Reads (first last maxAckTransfer : Nat) (added : List Exchange)
    (result : Except U3vError (List UInt8)) : Prop where
  commands : ∀ exchange ∈ added, exchange.IsRead maxAckTransfer
  tiles : ∃ middle, middle ≤ last ∧ Tiles first middle (added.map Exchange.readSpan) ∧
    ∀ bytes, result = .ok bytes → middle = last
  answers : ∀ bytes, result = .ok bytes → ∃ payloads,
    List.Forall₂ (fun exchange payload => exchange.Answers CommandId.readmemAck payload ∧
      payload.length = exchange.readSpan.2) added payloads ∧ bytes = payloads.flatten

theorem readSpan_scd {exchange : Exchange} {address length : Nat} (haddress : address < 2 ^ 64)
    (hlength : length < 65536)
    (hscd : exchange.scd = encodeLE 8 address ++ encodeLE 2 0 ++ encodeLE 2 length) :
    exchange.readSpan = (address, length) := by
  have hfirst : fieldLE exchange.scd 0 8 = address := by
    rw [hscd, List.append_assoc]
    exact fieldLE_encodeLE [] _ 0 8 _ rfl haddress
  have hlast : fieldLE exchange.scd 10 2 = length := by
    have := fieldLE_encodeLE (encodeLE 8 address ++ encodeLE 2 0) [] 10 2 length (by simp) hlength
    rw [hscd]
    simpa using this
  rw [Exchange.readSpan, hfirst, hlast]

variable {addr len maxPayload : Nat}

theorem readMemLoop_spec (hmax : 0 < maxPayload)
    (hwide : maxPayload ≤ 65535) (hrange : addr + len ≤ 2 ^ 64) (offset : Nat)
    (hoffset : offset ≤ len) (result : List UInt8) (channel : ControlChannel)
    (hlimit : headerSize + maxPayload ≤ channel.maxAckTransfer) :
    ∃ added,
      Follows channel
        (ControlChannel.readMemLoop addr len maxPayload offset result channel).2 added ∧
      (∀ exchange ∈ added, exchange.IsRead channel.maxAckTransfer) ∧
      (∃ middle, middle ≤ addr + len ∧ Tiles (addr + offset) middle (added.map Exchange.readSpan) ∧
        ∀ bytes, (ControlChannel.readMemLoop addr len maxPayload offset result channel).1 =
          .ok bytes → middle = addr + len) ∧
      ∀ bytes, (ControlChannel.readMemLoop addr len maxPayload offset result channel).1 =
          .ok bytes → ∃ payloads,
        List.Forall₂ (fun exchange payload => exchange.Answers CommandId.readmemAck payload ∧
          payload.length = exchange.readSpan.2) added payloads ∧
        bytes = result ++ payloads.flatten := by
  induction hleft : len - offset using Nat.strong_induction_on
    generalizing offset result channel with
  | _ left ih =>
    rw [ControlChannel.readMemLoop]
    rcases Nat.lt_or_ge offset len with hmore | hdone
    · rw [dif_neg (by omega)]
      dsimp only
      set chunk := min (len - offset) maxPayload
      obtain ⟨exchange, -, hcommand, hscd, hfollows, -, hanswers⟩ :=
        transact_spec channel CommandId.readmemCmd CommandId.readmemAck
          (encodeLE 8 (addr + offset) ++ encodeLE 2 0 ++ encodeLE 2 chunk)
      have hspan : exchange.readSpan = (addr + offset, chunk) :=
        readSpan_scd (by omega) (by omega) hscd
      have hread : exchange.IsRead channel.maxAckTransfer := by
        refine ⟨hcommand, by rw [hscd]; simp [readmemScdSize], ?_, ?_⟩
        · rw [hspan]
          dsimp only
          omega
        · rw [hspan]
          dsimp only
          omega
      have hfirst : Tiles (addr + offset) (addr + offset + chunk)
          ([exchange].map Exchange.readSpan) := by
        rw [List.map_singleton, hspan]
        exact Tiles.cons (by omega) (Tiles.nil _)
      -- The call ends with this command.
      have hlast : ∀ error : U3vError, ∃ added,
          Follows channel (channel.transact CommandId.readmemCmd CommandId.readmemAck
            (encodeLE 8 (addr + offset) ++ encodeLE 2 0 ++ encodeLE 2 chunk)).2 added ∧
          (∀ exchange ∈ added, exchange.IsRead channel.maxAckTransfer) ∧
          (∃ middle, middle ≤ addr + len ∧
            Tiles (addr + offset) middle (added.map Exchange.readSpan) ∧
            ∀ bytes, (Except.error error : Except U3vError (List UInt8)) = .ok bytes →
              middle = addr + len) ∧
          ∀ bytes, (Except.error error : Except U3vError (List UInt8)) = .ok bytes →
            ∃ payloads, List.Forall₂ (fun exchange payload =>
              exchange.Answers CommandId.readmemAck payload ∧
                payload.length = exchange.readSpan.2) added payloads ∧
              bytes = result ++ payloads.flatten :=
        fun error => ⟨[exchange], hfollows, by simpa using hread,
          ⟨addr + offset + chunk, by omega, hfirst, by simp⟩, by simp⟩
      cases hcall : channel.transact CommandId.readmemCmd CommandId.readmemAck
          (encodeLE 8 (addr + offset) ++ encodeLE 2 0 ++ encodeLE 2 chunk) with
      | mk outcome after =>
        rw [hcall] at hfollows hanswers hlast
        cases outcome with
        | error error => exact hlast error
        | ok ack =>
          dsimp only
          split
          · exact hlast _
          · rename_i hlength
            obtain ⟨added, hrest, hreads, ⟨middle, hle, htiles, hall⟩, hdata⟩ :=
              ih (len - (offset + chunk)) (by omega) (offset + chunk) (by omega) (result ++ ack)
                after (by rw [hfollows.maxAckTransfer]; exact hlimit) rfl
            rw [hfollows.maxAckTransfer] at hreads
            refine ⟨exchange :: added, hfollows.trans hrest,
              List.forall_mem_cons.mpr ⟨hread, hreads⟩, ⟨middle, hle, ?_, hall⟩, ?_⟩
            · rw [← Nat.add_assoc] at htiles
              exact hfirst.append htiles
            · intro bytes heq
              obtain ⟨payloads, hforall, hbytes⟩ := hdata bytes heq
              refine ⟨ack :: payloads, List.Forall₂.cons ⟨hanswers ack rfl, ?_⟩ hforall, ?_⟩
              · rw [hspan]
                exact not_not.mp hlength
              · rw [hbytes, List.flatten_cons, List.append_assoc]
    · rw [dif_pos (Or.inl hdone)]
      have hend : addr + offset = addr + len := by omega
      refine ⟨[], Follows.refl channel, by simp,
        ⟨addr + offset, hend.le, Tiles.nil _, fun _ _ => hend⟩, ?_⟩
      rintro bytes heq
      cases heq
      exact ⟨[], List.Forall₂.nil, by simp⟩

variable {channel : ControlChannel}

theorem maxReadChunk_ok {chunk : Nat} (h : channel.maxReadChunk = .ok chunk) :
    0 < chunk ∧ chunk ≤ 65535 ∧ headerSize + chunk ≤ channel.maxAckTransfer := by
  unfold ControlChannel.maxReadChunk at h
  dsimp only at h
  split at h
  · cases h
  · cases h
    omega

theorem readMem_spec (channel : ControlChannel) (hrange : addr + len ≤ 2 ^ 64) :
    ∃ added, Follows channel (channel.readMem addr len).2 added ∧
      Reads addr (addr + len) channel.maxAckTransfer added (channel.readMem addr len).1 := by
  unfold ControlChannel.readMem
  cases hchunk : channel.maxReadChunk with
  | error error =>
    exact ⟨[], Follows.refl channel, by simp, ⟨addr, Nat.le_add_right .., Tiles.nil _, by simp⟩,
      by simp⟩
  | ok maxPayload =>
    obtain ⟨hpos, hwide, hlimit⟩ := maxReadChunk_ok hchunk
    obtain ⟨added, hfollows, hreads, htiles, hdata⟩ :=
      readMemLoop_spec hpos hwide hrange 0 (Nat.zero_le _) [] channel hlimit
    refine ⟨added, hfollows, hreads, htiles, ?_⟩
    simpa only [List.nil_append] using hdata

def Exchange.writeData (exchange : Exchange) : List UInt8 :=
  exchange.scd.drop writememAddressSize

/-- The address a WRITEMEM names and the bytes it carries. -/
def Exchange.writeSpan (exchange : Exchange) : Nat × Nat :=
  (fieldLE exchange.scd 0 8, exchange.writeData.length)

/-- A WRITEMEM whose packet fits the device's limit, and its length its field. -/
structure Exchange.IsWrite (maxCmdTransfer : Nat) (exchange : Exchange) : Prop where
  command : exchange.command = CommandId.writememCmd
  packet : (encodeCommand exchange.command exchange.requestId exchange.scd).length ≤
    maxCmdTransfer
  length : exchange.scd.length ≤ 65535

/-- No acknowledge of a write reports another length than was written. -/
def Exchange.Written (exchange : Exchange) : Prop :=
  ∃ payload, exchange.Answers CommandId.writememAck payload ∧
    (4 ≤ payload.length → fieldLE payload 2 2 = exchange.writeSpan.2)

/-- What a write sends: its data in pieces that tile the range, all of it and
all acknowledged where the write succeeds. -/
structure Writes (first : Nat) (data : List UInt8) (maxCmdTransfer : Nat)
    (added : List Exchange) (result : Except U3vError Unit) : Prop where
  commands : ∀ exchange ∈ added, exchange.IsWrite maxCmdTransfer
  tiles : ∃ middle, middle ≤ first + data.length ∧
    Tiles first middle (added.map Exchange.writeSpan) ∧
    added.flatMap Exchange.writeData = data.take (middle - first) ∧
    (result = .ok () → middle = first + data.length)
  answers : result = .ok () → ∀ exchange ∈ added, exchange.Written

theorem length_encodeCommand (command requestId : Nat) (scd : List UInt8) :
    (encodeCommand command requestId scd).length = headerSize + scd.length := by
  simp [encodeCommand, headerSize]
  omega

theorem writeSpan_scd {exchange : Exchange} {address : Nat} {chunk : List UInt8}
    (haddress : address < 2 ^ 64) (hscd : exchange.scd = encodeLE 8 address ++ chunk) :
    exchange.writeData = chunk ∧ exchange.writeSpan = (address, chunk.length) := by
  have hdata : exchange.writeData = chunk := by
    rw [Exchange.writeData, hscd]
    exact List.drop_left' (by simp [writememAddressSize])
  have hfirst : fieldLE exchange.scd 0 8 = address := by
    rw [hscd]
    exact fieldLE_encodeLE [] _ 0 8 _ rfl haddress
  exact ⟨hdata, by rw [Exchange.writeSpan, hfirst, hdata]⟩

variable {data : List UInt8}

theorem writeMemLoop_spec (hmax : 0 < maxPayload) (hwide : maxPayload + writememAddressSize ≤ 65535)
    (hrange : addr + data.length ≤ 2 ^ 64) (offset : Nat) (hoffset : offset ≤ data.length)
    (channel : ControlChannel)
    (hlimit : headerSize + writememAddressSize + maxPayload ≤ channel.maxCmdTransfer) :
    ∃ added,
      Follows channel (ControlChannel.writeMemLoop addr data maxPayload offset channel).2 added ∧
      Writes (addr + offset) (data.drop offset) channel.maxCmdTransfer added
        (ControlChannel.writeMemLoop addr data maxPayload offset channel).1 := by
  induction hleft : data.length - offset using Nat.strong_induction_on
    generalizing offset channel with
  | _ left ih =>
    rw [ControlChannel.writeMemLoop]
    rcases Nat.lt_or_ge offset data.length with hmore | hdone
    · rw [dif_neg (by omega)]
      dsimp only
      set size := min (data.length - offset) maxPayload with hsize
      set chunk := (data.drop offset).take size with hchunk
      have hlength : chunk.length = size := by
        rw [hchunk, List.length_take, List.length_drop]
        omega
      obtain ⟨exchange, -, hcommand, hscd, hfollows, -, hanswers⟩ :=
        transact_spec channel CommandId.writememCmd CommandId.writememAck
          (encodeLE 8 (addr + offset) ++ chunk)
      obtain ⟨hdata, hspan⟩ := writeSpan_scd (by omega) hscd
      rw [hlength] at hspan
      have hscdLength : exchange.scd.length = writememAddressSize + size := by
        rw [hscd, List.length_append, length_encodeLE, hlength]
        rfl
      have hwrite : exchange.IsWrite channel.maxCmdTransfer := by
        refine ⟨hcommand, ?_, by omega⟩
        rw [length_encodeCommand]
        omega
      have hfirst : Tiles (addr + offset) (addr + offset + size)
          ([exchange].map Exchange.writeSpan) := by
        rw [List.map_singleton, hspan]
        exact Tiles.cons (by omega) (Tiles.nil _)
      -- The call ends with this command.
      have hlast : ∀ error : U3vError, ∃ added,
          Follows channel (channel.transact CommandId.writememCmd CommandId.writememAck
            (encodeLE 8 (addr + offset) ++ chunk)).2 added ∧
          Writes (addr + offset) (data.drop offset) channel.maxCmdTransfer added
            (.error error) := by
        refine fun error => ⟨[exchange], hfollows, by simpa using hwrite,
          ⟨addr + offset + size, ?_, hfirst, ?_, by simp⟩, by simp⟩
        · rw [List.length_drop]
          omega
        · rw [List.flatMap_singleton, hdata, Nat.add_sub_cancel_left]
      cases hcall : channel.transact CommandId.writememCmd CommandId.writememAck
          (encodeLE 8 (addr + offset) ++ chunk) with
      | mk outcome after =>
        rw [hcall] at hfollows hanswers hlast
        cases outcome with
        | error error => exact hlast error
        | ok ack =>
          dsimp only
          split
          · exact hlast _
          · rename_i hreported
            obtain ⟨added, hrest, hwrites, ⟨middle, hle, htiles, hbytes, hall⟩, hwritten⟩ :=
              ih (data.length - (offset + size)) (by omega) (offset + size) (by omega) after
                (by rw [hfollows.maxCmdTransfer]; exact hlimit) rfl
            rw [hfollows.maxCmdTransfer] at hwrites
            rw [← Nat.add_assoc] at htiles
            rw [List.length_drop] at hle hall
            have hmiddle := htiles.le
            refine ⟨exchange :: added, hfollows.trans hrest,
              List.forall_mem_cons.mpr ⟨hwrite, hwrites⟩,
              ⟨middle, ?_, hfirst.append htiles, ?_, ?_⟩, ?_⟩
            · rw [List.length_drop]
              omega
            · rw [List.flatMap_cons, hdata, hbytes, hchunk, ← List.drop_drop,
                show middle - (addr + offset) = size + (middle - (addr + (offset + size))) by omega,
                List.take_add]
            · intro heq
              rw [hall heq, List.length_drop]
              omega
            · intro heq
              refine List.forall_mem_cons.mpr ⟨⟨ack, hanswers ack rfl, ?_⟩, hwritten heq⟩
              intro hlong
              rw [hspan]
              by_contra hother
              exact hreported ⟨hlong, hother⟩
    · rw [dif_pos (Or.inl hdone)]
      have hnil : data.drop offset = [] := List.drop_eq_nil_of_le hdone
      exact ⟨[], Follows.refl channel, by simp,
        ⟨addr + offset, Nat.le_add_right .., Tiles.nil _, by simp [hnil], by simp [hnil]⟩, by simp⟩

theorem maxWriteChunk_ok {chunk : Nat} (h : channel.maxWriteChunk = .ok chunk) :
    0 < chunk ∧ chunk + writememAddressSize ≤ 65535 ∧
      headerSize + writememAddressSize + chunk ≤ channel.maxCmdTransfer := by
  unfold ControlChannel.maxWriteChunk writememAddressSize at h
  dsimp only at h
  split at h
  · cases h
  · cases h
    unfold writememAddressSize
    omega

theorem writeMem_spec (channel : ControlChannel) (hrange : addr + data.length ≤ 2 ^ 64) :
    ∃ added, Follows channel (channel.writeMem addr data).2 added ∧
      Writes addr data channel.maxCmdTransfer added (channel.writeMem addr data).1 := by
  unfold ControlChannel.writeMem
  cases hchunk : channel.maxWriteChunk with
  | error error =>
    exact ⟨[], Follows.refl channel, by simp,
      ⟨addr, Nat.le_add_right .., Tiles.nil _, by simp, by simp⟩, by simp⟩
  | ok maxPayload =>
    obtain ⟨hpos, hwide, hlimit⟩ := maxWriteChunk_ok hchunk
    exact writeMemLoop_spec hpos hwide hrange 0 (Nat.zero_le _) channel hlimit

/-- The commands sent so far carry the ids in order, and the next id is the next ticket. -/
structure ControlChannel.InSequence (channel : ControlChannel) : Prop where
  next : channel.nextRequestId = ticket 65535 1 channel.exchanges.length
  ids : channel.exchanges.map Exchange.requestId =
    (List.range channel.exchanges.length).map (ticket 65535 1)

theorem transact_inSequence (h : channel.InSequence)
    (command expectedAck : Nat) (scd : List UInt8) :
    (channel.transact command expectedAck scd).2.InSequence := by
  obtain ⟨exchange, hid, -, -, hfollows, hrequestId, -⟩ :=
    transact_spec channel command expectedAck scd
  have hlength : (channel.transact command expectedAck scd).2.exchanges.length =
      channel.exchanges.length + 1 := by
    rw [hfollows.exchanges, List.length_append, List.length_singleton]
  constructor
  · rw [ControlChannel.nextRequestId, hrequestId, hlength, ticket_succ (by omega), h.next]
  · rw [hlength, hfollows.exchanges, List.map_append, List.map_singleton, h.ids, hid, h.next,
      List.range_succ, List.map_append, List.map_singleton]

theorem readMemLoop_inSequence (offset : Nat) (result : List UInt8) (h : channel.InSequence) :
    (ControlChannel.readMemLoop addr len maxPayload offset result channel).2.InSequence := by
  induction hleft : len - offset using Nat.strong_induction_on
    generalizing offset result channel with
  | _ left ih =>
    rw [ControlChannel.readMemLoop]
    split
    · exact h
    · rename_i hmore
      dsimp only
      set chunk := min (len - offset) maxPayload
      have hafter := transact_inSequence h CommandId.readmemCmd CommandId.readmemAck
        (encodeLE 8 (addr + offset) ++ encodeLE 2 0 ++ encodeLE 2 chunk)
      cases hcall : channel.transact CommandId.readmemCmd CommandId.readmemAck
          (encodeLE 8 (addr + offset) ++ encodeLE 2 0 ++ encodeLE 2 chunk) with
      | mk outcome after =>
        rw [hcall] at hafter
        cases outcome with
        | error error => exact hafter
        | ok ack =>
          dsimp only
          split
          · exact hafter
          · exact ih _ (by omega) (offset + chunk) (result ++ ack) hafter rfl

theorem writeMemLoop_inSequence (offset : Nat) (h : channel.InSequence) :
    (ControlChannel.writeMemLoop addr data maxPayload offset channel).2.InSequence := by
  induction hleft : data.length - offset using Nat.strong_induction_on
    generalizing offset channel with
  | _ left ih =>
    rw [ControlChannel.writeMemLoop]
    split
    · exact h
    · rename_i hmore
      dsimp only
      set size := min (data.length - offset) maxPayload
      have hafter := transact_inSequence h CommandId.writememCmd CommandId.writememAck
        (encodeLE 8 (addr + offset) ++ (data.drop offset).take size)
      cases hcall : channel.transact CommandId.writememCmd CommandId.writememAck
          (encodeLE 8 (addr + offset) ++ (data.drop offset).take size) with
      | mk outcome after =>
        rw [hcall] at hafter
        cases outcome with
        | error error => exact hafter
        | ok ack =>
          dsimp only
          split
          · exact hafter
          · exact ih _ (by omega) (offset + size) hafter rfl

/-- The calls a session makes on its channel. -/
inductive ControlCall where
  | readMem (addr len : Nat)
  | writeMem (addr : Nat) (data : List UInt8)
  | setMaxTransfer (maxCmdTransfer maxAckTransfer : Nat)
  | setTimeout (timeout : Nat)
deriving Repr

def ControlChannel.apply (channel : ControlChannel) : ControlCall → ControlChannel
  | .readMem addr len => (channel.readMem addr len).2
  | .writeMem addr data => (channel.writeMem addr data).2
  | .setMaxTransfer maxCmdTransfer maxAckTransfer =>
    channel.setMaxTransfer maxCmdTransfer maxAckTransfer
  | .setTimeout timeout => channel.setTimeout timeout

theorem apply_inSequence (h : channel.InSequence)
    (call : ControlCall) : (channel.apply call).InSequence := by
  cases call with
  | readMem addr len =>
    unfold ControlChannel.apply ControlChannel.readMem
    cases channel.maxReadChunk with
    | error error => exact h
    | ok maxPayload => exact readMemLoop_inSequence 0 [] h
  | writeMem addr data =>
    unfold ControlChannel.apply ControlChannel.writeMem
    cases channel.maxWriteChunk with
    | error error => exact h
    | ok maxPayload => exact writeMemLoop_inSequence 0 h
  | setMaxTransfer maxCmdTransfer maxAckTransfer => exact ⟨h.next, h.ids⟩
  | setTimeout timeout => exact ⟨h.next, h.ids⟩

theorem new_inSequence (maxCmdTransfer maxAckTransfer : Nat) (writes : List (Option Failure))
    (reads : List (Except Failure (List UInt8))) :
    (ControlChannel.new maxCmdTransfer maxAckTransfer writes reads).InSequence where
  next := (ticket_zero Nat.one_pos (by omega)).symm
  ids := rfl

theorem run_inSequence (maxCmdTransfer maxAckTransfer : Nat) (writes : List (Option Failure))
    (reads : List (Except Failure (List UInt8))) (calls : List ControlCall) :
    (run ControlChannel.apply (ControlChannel.new maxCmdTransfer maxAckTransfer writes reads)
      calls).InSequence := by
  apply run_invariant ControlChannel.apply (fun _ _ => True) ControlChannel.InSequence
  · intro channel call h _
    exact apply_inSequence h call
  · exact new_inSequence ..
  · exact guarded_of_forall _ _ _ _ fun _ _ _ => trivial

theorem ControlChannel.InSequence.distinct (h : channel.InSequence) :
    (∀ exchange ∈ channel.exchanges, exchange.requestId ≠ 0) ∧
      ∀ window, window <:+: channel.exchanges.map Exchange.requestId → window.length ≤ 65535 →
        window.Nodup := by
  constructor
  · intro exchange hmem
    have hid : exchange.requestId ∈ channel.exchanges.map Exchange.requestId :=
      List.mem_map_of_mem hmem
    rw [h.ids, List.mem_map] at hid
    obtain ⟨position, -, heq⟩ := hid
    have := ticket_pos 65535 1 position
    omega
  · intro window hwindow hlength
    rw [h.ids] at hwindow
    exact nodup_of_all_used hwindow hlength

end VivaGenicam.U3v
