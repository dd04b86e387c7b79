import VivaGenicam.Gige.MemoryDevice
import Mathlib.Data.List.GetD

/-!
What memory access comes to on the bench. Both loops cut their range into
pieces, narrow each address to 32 bits, and stop at the first command the
device refuses; what they return and what they send follows from the list of
pieces alone.
-/

namespace VivaGenicam.Gvcp

open Library.Bytes Library.Tiling

/-- The commands for a range in pieces of `stride`, as the device reads them. -/
def narrowed (opcode : OpCode) (ranges : List (Nat × Nat)) : List Command :=
  ranges.map fun piece => ⟨opcode, piece.1 % addressSpace, piece.2⟩

/-- The commands sent: up to the first that is refused. -/
def attempted : List Command → List Command
  | [] => []
  | command :: rest => if command.Served then command :: attempted rest else [command]

variable {commands : List Command}

theorem attempted_of_served (h : ∀ command ∈ commands, command.Served) :
    attempted commands = commands := by
  induction commands with
  | nil => rfl
  | cons command rest ih =>
    rw [attempted, if_pos (h command (List.mem_cons_self ..)),
      ih fun later hmem => h later (List.mem_cons_of_mem _ hmem)]

theorem attempted_append {rest : List Command} (h : ∀ command ∈ commands, command.Served) :
    attempted (commands ++ rest) = commands ++ attempted rest := by
  induction commands with
  | nil => rfl
  | cons command commands ih =>
    rw [List.cons_append, attempted, if_pos (h command (List.mem_cons_self ..)),
      ih fun later hmem => h later (List.mem_cons_of_mem _ hmem), List.cons_append]

theorem attempted_cons (command : Command) (rest : List Command) :
    ∃ later, attempted (command :: rest) = command :: later := by
  rw [attempted]
  split
  · exact ⟨_, rfl⟩
  · exact ⟨_, rfl⟩

theorem attempted_subset :
    ∀ command ∈ attempted commands, command ∈ commands := by
  induction commands with
  | nil => simp [attempted]
  | cons first rest ih =>
    intro command hmem
    rw [attempted] at hmem
    split at hmem
    · rcases List.mem_cons.mp hmem with rfl | hmem
      · exact List.mem_cons_self ..
      · exact List.mem_cons_of_mem _ (ih command hmem)
    · rw [List.mem_singleton] at hmem
      rw [hmem]
      exact List.mem_cons_self ..

variable (camera : MemoryCamera)

theorem readAckData_readAck (memory : Nat → UInt8) (command : Command) :
    readAckData (camera.readAck memory command) command.count =
      some (readBytes memory command.address command.count) := by
  unfold readAckData MemoryCamera.readAck
  cases camera.echo with
  | true =>
    have hdrop : (encodeBE 4 command.address ++
        readBytes memory command.address command.count).drop 4 =
        readBytes memory command.address command.count := List.drop_left' (by simp)
    rw [if_pos (by simp), if_pos rfl, hdrop, List.take_of_length_le (by simp)]
  | false =>
    rw [if_neg (by simp), if_pos (by simp), if_neg (by simp), List.nil_append,
      List.take_of_length_le (by simp)]

variable (memory : Nat → UInt8)

theorem take_readBytes (address : Nat) {count more : Nat} (hle : count ≤ more) :
    (readBytes memory address more).take count = readBytes memory address count := by
  rw [readBytes, ← List.map_take, List.take_range, Nat.min_eq_left hle, readBytes]

/-- The bytes of the pieces, one after another. -/
def gathered (memory : Nat → UInt8) (ranges : List (Nat × Nat)) : List UInt8 :=
  ranges.flatMap fun piece => readBytes memory (piece.1 % addressSpace) piece.2

theorem readMemLoop_spec (camera : MemoryCamera) (addr remaining offset : Nat)
    (data : List UInt8) {bench : Bench} (hready : bench.Ready) :
    let commands := narrowed .readMem
      (pieces 512 (addr + offset) (nextMultipleOf remaining 4))
    ∃ device, device.requestId < 65536 ∧
      readMemLoop camera.transact addr remaining offset data bench =
        (if ∀ command ∈ commands, command.Served then
            .ok (data ++ gathered bench.memory (pieces 512 (addr + offset) remaining))
          else .error (.status (GigeStatus.fromRaw camera.refusal)),
        { bench with device := device, received := bench.received ++ attempted commands }) := by
  induction remaining using Nat.strong_induction_on generalizing offset data bench with
  | _ remaining ih =>
    rcases Nat.eq_zero_or_pos remaining with rfl | hpos
    · refine ⟨bench.device, hready, ?_⟩
      rw [readMemLoop, dif_pos rfl]
      simp [nextMultipleOf, narrowed, attempted, gathered]
    · have hround := @nextMultipleOf_spec 4 (by decide) (min remaining 512)
      have hcount : nextMultipleOf (min remaining 512) 4 ≤ 512 :=
        nextMultipleOf_le (by decide) (by decide) (Nat.min_le_right ..)
      set count := nextMultipleOf (min remaining 512) 4
      -- The first piece of the rounded range is the first request.
      have hpieces : pieces 512 (addr + offset) (nextMultipleOf remaining 4) =
          (addr + offset, count) :: pieces 512 (addr + (offset + min remaining 512))
            (nextMultipleOf (remaining - min remaining 512) 4) := by
        rw [← pieces_nextMultipleOf (by decide) (by decide) (by decide),
          pieces_pos (by decide) _ hpos, List.map_cons,
          pieces_nextMultipleOf (by decide) (by decide) (by decide), Nat.add_assoc]
      obtain ⟨device, hid, header, hcall⟩ :=
        transact_readMem camera hready (addr + offset) hcount
      intro commands
      have hcommands : commands = ⟨.readMem, (addr + offset) % addressSpace, count⟩ ::
          narrowed .readMem (pieces 512 (addr + (offset + min remaining 512))
            (nextMultipleOf (remaining - min remaining 512) 4)) := by
        simp only [commands, hpieces]
        rfl
      unfold readPayload at hcall
      rw [readMemLoop, dif_neg (by omega)]
      simp only [Consts.gencpMaxBlock]
      rw [hcall]
      by_cases hserved : Command.Served ⟨.readMem, (addr + offset) % addressSpace, count⟩
      · rw [if_pos hserved]
        dsimp only
        have hack := readAckData_readAck camera bench.memory
          ⟨.readMem, (addr + offset) % addressSpace, count⟩
        dsimp only at hack
        rw [hack]
        dsimp only
        obtain ⟨last, hlast, heq⟩ := @ih (remaining - min remaining 512) (by omega)
          (offset + min remaining 512)
          (data ++ (readBytes bench.memory ((addr + offset) % addressSpace) count).take
            (min remaining 512))
          { bench with device := device, received := _ } hid
        refine ⟨last, hlast, ?_⟩
        rw [heq, hcommands, attempted, if_pos hserved, take_readBytes _ _ hround.1,
          pieces_pos (by decide) (addr + offset) hpos]
        simp only [List.forall_mem_cons, hserved, true_and, gathered, List.flatMap_cons,
          List.append_assoc, List.singleton_append, Nat.add_assoc]
      · rw [if_neg hserved]
        refine ⟨device, hid, ?_⟩
        rw [hcommands, attempted, if_neg hserved, if_neg]
        exact fun h => hserved (h _ (List.mem_cons_self ..))

@[simp] theorem writeBytes_nil (address : Nat) :
    writeBytes memory address [] = memory := by
  funext at_
  simp [writeBytes]

theorem writeBytes_append (address : Nat) (front back : List UInt8) :
    writeBytes (writeBytes memory address front) (address + front.length) back =
      writeBytes memory address (front ++ back) := by
  funext at_
  unfold writeBytes
  rw [List.length_append]
  rcases Nat.lt_or_ge at_ address with hbelow | hfrom
  · rw [if_neg (by omega), if_neg (by omega), if_neg (by omega)]
  · rcases Nat.lt_or_ge at_ (address + front.length) with hfront | hback
    · rw [if_neg (by omega), if_pos (by omega), if_pos (by omega),
        List.getD_append _ _ _ _ (by omega)]
    · rcases Nat.lt_or_ge at_ (address + front.length + back.length) with hin | hout
      · rw [if_pos (by omega), if_pos (by omega), List.getD_append_right _ _ _ _ (by omega),
          Nat.sub_add_eq]
      · rw [if_neg (by omega), if_neg (by omega), if_neg (by omega)]

theorem writeMemWordsLoop_spec (camera : MemoryCamera) (addr offset : Nat) (data : List UInt8)
    {bench : Bench} (hready : bench.Ready) :
    let commands := narrowed .writeMem (pieces 508 (addr + offset) (data.length - offset))
    ∃ device memory, device.requestId < 65536 ∧
      writeMemWordsLoop camera.transact addr offset data bench =
        (if ∀ command ∈ commands, command.Served then .ok ()
          else .error (.status (GigeStatus.fromRaw camera.refusal)),
        { device := device, memory := memory,
          received := bench.received ++ attempted commands }) ∧
      (addr + data.length ≤ addressSpace → (∀ command ∈ commands, command.Served) →
        memory = writeBytes bench.memory (addr + offset) (data.drop offset)) := by
  induction hleft : data.length - offset using Nat.strong_induction_on
    generalizing offset bench with
  | _ left ih =>
    rcases Nat.eq_zero_or_pos left with rfl | hpos
    · refine ⟨bench.device, bench.memory, hready, ?_, ?_⟩
      · rw [writeMemWordsLoop, dif_pos (by omega)]
        simp [narrowed, attempted]
      · intro _ _
        rw [List.drop_eq_nil_of_le (by omega), writeBytes_nil]
    · set chunk := (data.drop offset).take (min left 508) with hchunk
      have hlength : chunk.length = min left 508 := by
        rw [hchunk, List.length_take, List.length_drop]
        omega
      obtain ⟨device, hid, header, hcall⟩ :=
        transact_writeMem camera hready (addr + offset) chunk
      intro commands
      have hcommands : commands = ⟨.writeMem, (addr + offset) % addressSpace, chunk.length⟩ ::
          narrowed .writeMem (pieces 508 (addr + (offset + min left 508))
            (left - min left 508)) := by
        simp only [commands]
        rw [pieces_pos (by decide) _ hpos, hlength, Nat.add_assoc]
        rfl
      rw [writeMemWordsLoop, dif_neg (by omega)]
      simp only [Consts.gencpMaxBlock, gvcpWriteOverhead, hleft]
      rw [← hchunk, hcall]
      by_cases hserved : Command.Served ⟨.writeMem, (addr + offset) % addressSpace, chunk.length⟩
      · simp only [if_pos hserved]
        rw [if_neg (Nat.not_lt.mpr camera.writeAck_length)]
        obtain ⟨last, memory, hlast, heq, hmemory⟩ := @ih (left - min left 508) (by omega)
          (offset + min left 508)
          { device := device, memory := _, received := _ } hid (by omega)
        refine ⟨last, memory, hlast, ?_, ?_⟩
        · rw [heq, hcommands, attempted, if_pos hserved]
          simp only [List.forall_mem_cons, hserved, true_and, List.append_assoc,
            List.singleton_append]
        · intro hrange hall
          rw [hcommands, List.forall_mem_cons] at hall
          rw [hmemory hrange hall.2]
          have hsmall : (addr + offset) % addressSpace = addr + offset :=
            Nat.mod_eq_of_lt (by omega)
          rw [hsmall, ← Nat.add_assoc, ← hlength, writeBytes_append, hlength, ← List.drop_drop,
            hchunk, List.take_append_drop]
      · simp only [if_neg hserved]
        refine ⟨device, bench.memory, hid, ?_, ?_⟩
        · rw [hcommands, attempted, if_neg hserved, if_neg]
          exact fun h => hserved (h _ (List.mem_cons_self ..))
        · intro _ hall
          rw [hcommands] at hall
          exact absurd (hall _ (List.mem_cons_self ..)) hserved

def Command.span (command : Command) : Nat × Nat := (command.address, command.count)

theorem four_dvd_addressSpace : 4 ∣ addressSpace := by decide

theorem narrowed_span {opcode : OpCode} {ranges : List (Nat × Nat)}
    (h : ∀ piece ∈ ranges, piece.1 < addressSpace) :
    (narrowed opcode ranges).map Command.span = ranges := by
  unfold narrowed
  rw [List.map_map]
  calc
    ranges.map (Command.span ∘ fun piece => ⟨opcode, piece.1 % addressSpace, piece.2⟩)
        = ranges.map id := List.map_congr_left fun piece hmem => by
          simp [Command.span, Nat.mod_eq_of_lt (h piece hmem)]
    _ = ranges := List.map_id ranges

section Ranges

variable {opcode : OpCode} {stride addr len : Nat}

theorem start_lt_of_mem (hstride : 0 < stride) (hrange : addr + len ≤ addressSpace) :
    ∀ piece ∈ pieces stride addr len, piece.1 < addressSpace := by
  intro piece hmem
  have htiles := pieces_tiles hstride addr len
  have := htiles.mem piece hmem
  have := htiles.size_pos piece hmem
  omega

theorem served_inside (hstride : 0 < stride) (hunit : 4 ∣ stride) (haddr : 4 ∣ addr)
    (hlen : 4 ∣ len) (hrange : addr + len ≤ addressSpace) :
    ∀ command ∈ narrowed opcode (pieces stride addr len), command.Served := by
  intro command hmem
  obtain ⟨piece, hpiece, rfl⟩ := List.mem_map.mp hmem
  have hlt := start_lt_of_mem hstride hrange piece hpiece
  obtain ⟨hfst, hsnd⟩ := dvd_of_mem_pieces hstride hunit haddr hpiece
  have hle := ((pieces_tiles hstride addr len).mem piece hpiece).2
  refine ⟨?_, hsnd hlen, ?_⟩
  · exact (Nat.dvd_mod_iff four_dvd_addressSpace).mpr hfst
  · dsimp only
    rw [Nat.mod_eq_of_lt hlt]
    omega

theorem attempted_misaligned (hstride : 0 < stride) (haddr : ¬ 4 ∣ addr) (hpos : 0 < len) :
    attempted (narrowed opcode (pieces stride addr len)) =
        [⟨opcode, addr % addressSpace, min len stride⟩] ∧
      ¬ ∀ command ∈ narrowed opcode (pieces stride addr len), command.Served := by
  have hrefused : ¬ Command.Served ⟨opcode, addr % addressSpace, min len stride⟩ :=
    fun h => haddr ((Nat.dvd_mod_iff four_dvd_addressSpace).mp h.1)
  rw [pieces_pos hstride addr hpos, narrowed, List.map_cons, attempted, if_neg hrefused]
  exact ⟨rfl, fun h => hrefused (h _ (List.mem_cons_self ..))⟩

theorem pieces_to_end (hstride : 0 < stride) (haddr : addr < addressSpace)
    (hrange : addressSpace < addr + len) :
    let whole := (addressSpace - addr) / stride * stride
    pieces stride addr len = pieces stride addr whole ++
        (addr + whole, min (len - whole) stride) ::
          pieces stride (addr + whole + min (len - whole) stride)
            (len - whole - min (len - whole) stride) ∧
      addr + whole ≤ addressSpace ∧ addressSpace < addr + whole + stride ∧
      whole < len := by
  intro whole
  have hwhole : whole ≤ addressSpace - addr := Nat.div_mul_le_self ..
  have hnext : addressSpace - addr < whole + stride := by
    have := Nat.div_add_mod (addressSpace - addr) stride
    have := Nat.mod_lt (addressSpace - addr) hstride
    simp only [whole, Nat.mul_comm]
    omega
  refine ⟨?_, by omega, by omega, by omega⟩
  rw [pieces_split hstride addr (show (addressSpace - addr) / stride * stride ≤ len by omega),
    pieces_pos hstride (addr + whole) (by omega : 0 < len - whole)]

theorem attempted_crossing (hstride : 0 < stride) (hunit : 4 ∣ stride) (haddr : 4 ∣ addr)
    (hlow : addr < addressSpace) (hrange : addressSpace < addr + len)
    (hmiddle : ¬ stride ∣ addressSpace - addr) :
    (∃ sent rest, pieces stride addr len = sent ++ rest ∧
        attempted (narrowed opcode (pieces stride addr len)) = narrowed opcode sent ∧
        ∀ piece ∈ sent, piece.1 < addressSpace) ∧
      ¬ ∀ command ∈ narrowed opcode (pieces stride addr len), command.Served := by
  obtain ⟨hpieces, hle, hnext, hwhole⟩ := pieces_to_end hstride hlow hrange
  set whole := (addressSpace - addr) / stride * stride
  have hlt : addr + whole < addressSpace := by
    refine lt_of_le_of_ne hle fun heq => hmiddle ?_
    rw [show addressSpace - addr = whole by omega]
    exact Nat.dvd_mul_left ..
  have hserved : ∀ command ∈ narrowed opcode (pieces stride addr whole), command.Served :=
    served_inside hstride hunit haddr (hunit.trans (Nat.dvd_mul_left ..)) hle
  have hrefused : ¬ Command.Served
      ⟨opcode, (addr + whole) % addressSpace, min (len - whole) stride⟩ := by
    rintro ⟨-, -, hend⟩
    dsimp only at hend
    rw [Nat.mod_eq_of_lt hlt] at hend
    omega
  have hsplit : narrowed opcode (pieces stride addr len) =
      narrowed opcode (pieces stride addr whole) ++
        ⟨opcode, (addr + whole) % addressSpace, min (len - whole) stride⟩ ::
          narrowed opcode (pieces stride (addr + whole + min (len - whole) stride)
            (len - whole - min (len - whole) stride)) := by
    rw [hpieces]
    simp [narrowed]
  refine ⟨⟨pieces stride addr whole ++ [(addr + whole, min (len - whole) stride)], _,
    by rw [hpieces, List.append_assoc]; rfl, ?_, ?_⟩, ?_⟩
  · rw [hsplit, attempted_append hserved, attempted, if_neg hrefused]
    simp [narrowed]
  · intro piece hmem
    rcases List.mem_append.mp hmem with hmem | hmem
    · exact start_lt_of_mem hstride hle piece hmem
    · rw [List.mem_singleton] at hmem
      rw [hmem]
      exact hlt
  · rw [hsplit]
    exact fun h => hrefused (h _ (by simp))

theorem attempted_wraps (hstride : 0 < stride) (hunit : 4 ∣ stride) (haddr : 4 ∣ addr)
    (hlow : addr < addressSpace) (hrange : addressSpace < addr + len)
    (hmeets : stride ∣ addressSpace - addr) :
    ¬ ((attempted (narrowed opcode (pieces stride addr len))).map Command.address).Pairwise
      (· < ·) := by
  obtain ⟨hpieces, hle, hnext, hwhole⟩ := pieces_to_end hstride hlow hrange
  rw [Nat.div_mul_cancel hmeets] at hpieces hle hnext hwhole
  have hserved : ∀ command ∈ narrowed opcode (pieces stride addr (addressSpace - addr)),
      command.Served :=
    served_inside hstride hunit haddr (Nat.dvd_sub four_dvd_addressSpace haddr) hle
  have hzero : (addr + (addressSpace - addr)) % addressSpace = 0 := by
    rw [show addr + (addressSpace - addr) = addressSpace by omega, Nat.mod_self]
  set size := min (len - (addressSpace - addr)) stride
  set rest := pieces stride (addr + (addressSpace - addr) + size)
    (len - (addressSpace - addr) - size)
  obtain ⟨later, hlater⟩ := attempted_cons ⟨opcode, 0, size⟩ (narrowed opcode rest)
  have hsent : attempted (narrowed opcode (pieces stride addr len)) =
      narrowed opcode (pieces stride addr (addressSpace - addr)) ++
        ⟨opcode, 0, size⟩ :: later := by
    rw [← hlater, ← attempted_append hserved, hpieces]
    simp [narrowed, hzero]
  rw [hsent, pieces_pos hstride addr (by omega : 0 < addressSpace - addr), narrowed,
    List.map_cons, List.cons_append, List.map_cons, List.pairwise_cons]
  intro hascending
  exact absurd (hascending.1 0 (by simp)) (Nat.not_lt_zero _)

theorem attempted_beyond (hstride : 0 < stride) (hpos : 0 < len) :
    ∃ command ∈ attempted (narrowed opcode (pieces stride addr len)),
      command.address < addressSpace := by
  rw [pieces_pos hstride addr hpos, narrowed, List.map_cons]
  obtain ⟨later, hlater⟩ := attempted_cons ⟨opcode, addr % addressSpace, min len stride⟩
    ((pieces stride (addr + min len stride) (len - min len stride)).map
      fun piece => (⟨opcode, piece.1 % addressSpace, piece.2⟩ : Command))
  rw [hlater]
  exact ⟨_, List.mem_cons_self .., Nat.mod_lt _ (by decide)⟩

end Ranges

/-- The range lies in the memory, or is empty. -/
def InRange (addr len : Nat) : Prop := addr + len ≤ addressSpace ∨ len = 0

instance (addr len : Nat) : Decidable (InRange addr len) :=
  inferInstanceAs (Decidable (_ ∨ _))

/-- The commands tile the words around the range in ascending order. -/
def Covers (addr len : Nat) (commands : List Command) : Prop :=
  if len = 0 then commands = []
  else Tiles (addr - addr % 4) (nextMultipleOf (addr + len) 4) (commands.map Command.span)

def commandsOf (opcode : OpCode) (commands : List Command) : List Command :=
  commands.filter fun command => command.opcode = opcode

/-- No command leaves the words around the range, and no address wraps. -/
def Inside (addr len : Nat) (commands : List Command) : Prop :=
  (∀ command ∈ commands, addr - addr % 4 ≤ command.address ∧ command.address < addr + len) ∧
    ∀ opcode, ((commandsOf opcode commands).map Command.address).Pairwise (· < ·)

/-- A read returns exactly the bytes asked for, or fails where they reach past
the memory. -/
def ReadsExactly (camera : MemoryCamera) (bench : Bench) (addr len : Nat) : Prop :=
  let result := readMem camera.transact addr len { bench with received := [] }
  if InRange addr len then
    result.1 = .ok (readBytes bench.memory addr len) ∧ result.2.memory = bench.memory ∧
      Covers addr len result.2.received ∧
      ∀ command ∈ result.2.received,
        command.opcode = .readMem ∧ command.count ≤ Consts.gencpMaxBlock
  else (∃ error, result.1 = .error error) ∧ Inside addr len result.2.received

/-- A write changes exactly the bytes it names, or fails where they reach past
the memory. -/
def WritesExactly (camera : MemoryCamera) (bench : Bench) (addr : Nat) (data : List UInt8) :
    Prop :=
  let result := writeMem camera.transact addr data { bench with received := [] }
  let reads := commandsOf .readMem result.2.received
  let writes := commandsOf .writeMem result.2.received
  if InRange addr data.length then
    result.1 = .ok () ∧ result.2.memory = writeBytes bench.memory addr data ∧
      Covers addr data.length writes ∧ (reads = [] ∨ Covers addr data.length reads) ∧
      (∀ command ∈ reads, command.count ≤ Consts.gencpMaxBlock) ∧
      ∀ command ∈ writes, command.count ≤ Consts.gencpMaxBlock - gvcpWriteOverhead
  else (∃ error, result.1 = .error error) ∧ Inside addr data.length result.2.received

/-- Where a read is exact: whole words in front of it, and beyond the memory
only where a command straddles the end. -/
def ReadSound (addr len : Nat) : Prop :=
  if InRange addr len then len = 0 ∨ 4 ∣ addr
  else addr < addressSpace ∧ (¬ 4 ∣ addr ∨ ¬ 512 ∣ addressSpace - addr)

/-- Where a write is exact: everywhere inside the memory, and beyond it only
where a command of each kind that is sent straddles the end. -/
def WriteSound (addr len : Nat) : Prop :=
  InRange addr len ∨
    addr < addressSpace ∧
      if 4 ∣ addr ∧ 4 ∣ addr + len then ¬ 508 ∣ addressSpace - addr
      else ¬ 512 ∣ addressSpace - (addr - addr % 4) ∧
        (¬ 4 ∣ addr ∨ ¬ 508 ∣ addressSpace - addr)

theorem commandsOf_narrowed_self (opcode : OpCode) (ranges : List (Nat × Nat)) :
    commandsOf opcode (attempted (narrowed opcode ranges)) =
      attempted (narrowed opcode ranges) := by
  unfold commandsOf
  rw [List.filter_eq_self]
  intro command hmem
  obtain ⟨piece, -, rfl⟩ := List.mem_map.mp (attempted_subset command hmem)
  simp

theorem commandsOf_narrowed_ne {opcode other : OpCode} (hne : opcode ≠ other)
    (ranges : List (Nat × Nat)) :
    commandsOf other (attempted (narrowed opcode ranges)) = [] := by
  unfold commandsOf
  rw [List.filter_eq_nil_iff]
  intro command hmem
  obtain ⟨piece, -, rfl⟩ := List.mem_map.mp (attempted_subset command hmem)
  simpa using hne

theorem readBytes_append (address front back : Nat) :
    readBytes memory address (front + back) =
      readBytes memory address front ++ readBytes memory (address + front) back := by
  simp [readBytes, List.range_add, Function.comp_def, Nat.add_assoc]

theorem gathered_pieces {memory : Nat → UInt8} {addr len : Nat} {ranges : List (Nat × Nat)}
    (htiles : Tiles addr (addr + len) ranges)
    (hlow : ∀ piece ∈ ranges, piece.1 < addressSpace) :
    gathered memory ranges = readBytes memory addr len := by
  generalize hlast : addr + len = last at htiles
  induction htiles generalizing len with
  | nil first =>
    rw [show len = 0 by omega]
    rfl
  | @cons first size last rest hsize hrest ih =>
    have hle := hrest.le
    rw [gathered, List.flatMap_cons, show len = size + (len - size) by omega, readBytes_append,
      Nat.mod_eq_of_lt (hlow _ (List.mem_cons_self ..))]
    exact congrArg (_ ++ ·) (ih (fun piece hmem => hlow piece (List.mem_cons_of_mem _ hmem))
      (by omega))

theorem readMem_spec (bench : Bench) (hready : bench.Ready) (addr len : Nat) :
    let commands := narrowed .readMem (pieces 512 addr (nextMultipleOf len 4))
    ∃ device, device.requestId < 65536 ∧
      readMem camera.transact addr len bench =
        (if ∀ command ∈ commands, command.Served then
            .ok (gathered bench.memory (pieces 512 addr len))
          else .error (.status (GigeStatus.fromRaw camera.refusal)),
        { bench with device := device, received := bench.received ++ attempted commands }) :=
  readMemLoop_spec camera addr len 0 [] hready

theorem readMem_inside (bench : Bench) (hready : bench.Ready)
    {addr len : Nat} (haddr : 4 ∣ addr) (hrange : addr + len ≤ addressSpace) :
    ∃ device, device.requestId < 65536 ∧
      readMem camera.transact addr len bench =
        (.ok (readBytes bench.memory addr len),
          { bench with
            device := device
            received := bench.received ++
              narrowed .readMem (pieces 512 addr (nextMultipleOf len 4)) }) := by
  have hround : addr + nextMultipleOf len 4 ≤ addressSpace := by
    have := nextMultipleOf_le (by decide : 0 < 4)
      (Nat.dvd_sub four_dvd_addressSpace haddr) (by omega : len ≤ addressSpace - addr)
    omega
  have hserved : ∀ command ∈ narrowed .readMem (pieces 512 addr (nextMultipleOf len 4)),
      command.Served :=
    served_inside (by decide) (by decide) haddr (dvd_nextMultipleOf ..) hround
  obtain ⟨device, hid, heq⟩ := readMem_spec camera bench hready addr len
  refine ⟨device, hid, ?_⟩
  rw [heq, if_pos hserved, attempted_of_served hserved,
    gathered_pieces (pieces_tiles (by decide) addr len)
      (start_lt_of_mem (by decide) hrange)]

theorem covers_narrowed {opcode : OpCode} {stride addr len : Nat} (hstride : 0 < stride)
    (haddr : 4 ∣ addr) (hpos : 0 < len) (hrange : addr + nextMultipleOf len 4 ≤ addressSpace) :
    Covers addr len (narrowed opcode (pieces stride addr (nextMultipleOf len 4))) := by
  have hstop : nextMultipleOf (addr + len) 4 = addr + nextMultipleOf len 4 := by
    rw [Nat.add_comm addr len, nextMultipleOf_add (by decide) haddr, Nat.add_comm]
  unfold Covers
  rw [if_neg (by omega), narrowed_span (start_lt_of_mem hstride hrange), hstop,
    Nat.mod_eq_zero_of_dvd haddr]
  exact pieces_tiles hstride addr _

/-- Commands of one kind, at ascending addresses from `addr` to the end of the memory. -/
def Straight (opcode : OpCode) (addr : Nat) (commands : List Command) : Prop :=
  (∀ command ∈ commands,
      command.opcode = opcode ∧ addr ≤ command.address ∧ command.address < addressSpace) ∧
    (commands.map Command.address).Pairwise (· < ·)

theorem straight_narrowed {opcode : OpCode} {stride addr len : Nat} (hstride : 0 < stride)
    {sent rest : List (Nat × Nat)} (hpieces : pieces stride addr len = sent ++ rest)
    (hlow : ∀ piece ∈ sent, piece.1 < addressSpace) :
    Straight opcode addr (narrowed opcode sent) := by
  have htiles := pieces_tiles hstride addr len
  rw [hpieces] at htiles
  obtain ⟨middle, -, hsent⟩ := htiles.take
  constructor
  · intro command hmem
    obtain ⟨piece, hpiece, rfl⟩ := List.mem_map.mp hmem
    dsimp only
    rw [Nat.mod_eq_of_lt (hlow piece hpiece)]
    exact ⟨rfl, (hsent.mem piece hpiece).1, hlow piece hpiece⟩
  · have hspans := congrArg (List.map Prod.fst) (@narrowed_span opcode _ hlow)
    rw [List.map_map] at hspans
    have haddresses : (narrowed opcode sent).map Command.address = sent.map Prod.fst := hspans
    rw [haddresses]
    exact hsent.ascending

theorem straight_misaligned {opcode : OpCode} {stride addr len : Nat} (hstride : 0 < stride)
    (haddr : ¬ 4 ∣ addr) (hpos : 0 < len) (hlow : addr < addressSpace) :
    Straight opcode addr (attempted (narrowed opcode (pieces stride addr len))) := by
  rw [(attempted_misaligned hstride haddr hpos).1]
  refine ⟨?_, List.pairwise_singleton ..⟩
  intro command hmem
  rw [List.mem_singleton] at hmem
  subst hmem
  dsimp only
  rw [Nat.mod_eq_of_lt hlow]
  exact ⟨rfl, le_refl _, hlow⟩

theorem straight_crossing {opcode : OpCode} {stride addr len : Nat} (hstride : 0 < stride)
    (hunit : 4 ∣ stride) (haddr : 4 ∣ addr) (hlow : addr < addressSpace)
    (hrange : addressSpace < addr + len) (hmiddle : ¬ stride ∣ addressSpace - addr) :
    Straight opcode addr (attempted (narrowed opcode (pieces stride addr len))) := by
  obtain ⟨⟨sent, rest, hpieces, hattempted, hsent⟩, -⟩ :=
    @attempted_crossing opcode _ _ _ hstride hunit haddr hlow hrange hmiddle
  rw [hattempted]
  exact straight_narrowed hstride hpieces hsent

theorem Straight.commandsOf {opcode : OpCode} {addr : Nat}
    (h : Straight opcode addr commands) (other : OpCode) :
    ((Gvcp.commandsOf other commands).map Command.address).Pairwise (· < ·) :=
  h.2.sublist (List.filter_sublist.map Command.address)

theorem commandsOf_append (opcode : OpCode) (front back : List Command) :
    commandsOf opcode (front ++ back) = commandsOf opcode front ++ commandsOf opcode back :=
  List.filter_append ..

theorem Straight.inside {opcode : OpCode} {addr len from_ : Nat}
    (h : Straight opcode from_ commands) (hfrom : addr - addr % 4 ≤ from_)
    (hrange : addressSpace < addr + len) : Inside addr len commands := by
  refine ⟨?_, h.commandsOf⟩
  intro command hmem
  obtain ⟨-, hlow, hhigh⟩ := h.1 command hmem
  exact ⟨by omega, by omega⟩

theorem Straight.commandsOf_ne {opcode other : OpCode} (hne : opcode ≠ other) {addr : Nat}
    (h : Straight opcode addr commands) :
    Gvcp.commandsOf other commands = [] := by
  rw [Gvcp.commandsOf, List.filter_eq_nil_iff]
  intro command hmem
  simpa [(h.1 command hmem).1] using hne

theorem inside_append {addr len : Nat} {first second : Nat} {reads writes : List Command}
    (hreads : Straight .readMem first reads) (hwrites : Straight .writeMem second writes)
    (hfirst : addr - addr % 4 ≤ first) (hsecond : addr - addr % 4 ≤ second)
    (hrange : addressSpace < addr + len) : Inside addr len (reads ++ writes) := by
  obtain ⟨hinReads, -⟩ := hreads.inside hfirst hrange
  obtain ⟨hinWrites, -⟩ := hwrites.inside hsecond hrange
  refine ⟨fun command hmem => ?_, fun opcode => ?_⟩
  · rcases List.mem_append.mp hmem with hmem | hmem
    · exact hinReads command hmem
    · exact hinWrites command hmem
  · rw [commandsOf_append]
    by_cases hkind : opcode = .readMem
    · subst hkind
      rw [hwrites.commandsOf_ne (by decide), List.append_nil]
      exact hreads.commandsOf _
    · rw [hreads.commandsOf_ne (Ne.symm hkind), List.nil_append]
      exact hwrites.commandsOf _

theorem not_inside_beyond {opcode : OpCode} {stride addr len start : Nat} (hstride : 0 < stride)
    {more : Nat} (hpos : 0 < len) (hbeyond : addressSpace ≤ addr - addr % 4)
    (later : List Command) :
    ¬ Inside addr more (attempted (narrowed opcode (pieces stride start len)) ++ later) := by
  rintro ⟨hin, -⟩
  obtain ⟨command, hmem, hlow⟩ := @attempted_beyond opcode _ start _ hstride hpos
  have := (hin command (List.mem_append_left _ hmem)).1
  omega

theorem not_inside_wraps {opcode other : OpCode} (hne : other ≠ opcode) {stride addr len from_ : Nat}
    (hstride : 0 < stride) (hunit : 4 ∣ stride) (haddr : 4 ∣ addr) (hlow : addr < addressSpace)
    (hrange : addressSpace < addr + len) (hmeets : stride ∣ addressSpace - addr) {more : Nat}
    (ranges : List (Nat × Nat)) :
    ¬ Inside from_ more (attempted (narrowed other ranges) ++
        attempted (narrowed opcode (pieces stride addr len))) ∧
      ¬ Inside from_ more (attempted (narrowed opcode (pieces stride addr len)) ++
        attempted (narrowed other ranges)) := by
  have hwraps := @attempted_wraps opcode _ _ _ hstride hunit haddr hlow hrange hmeets
  constructor
  · rintro ⟨-, hascending⟩
    have := hascending opcode
    rw [commandsOf_append, commandsOf_narrowed_ne hne, List.nil_append,
      commandsOf_narrowed_self] at this
    exact hwraps this
  · rintro ⟨-, hascending⟩
    have := hascending opcode
    rw [commandsOf_append, commandsOf_narrowed_ne hne, List.append_nil,
      commandsOf_narrowed_self] at this
    exact hwraps this

theorem readsExactly_iff (bench : Bench) (hready : bench.Ready)
    (addr len : Nat) : ReadsExactly camera bench addr len ↔ ReadSound addr len := by
  obtain ⟨device, -, hread⟩ :=
    readMem_spec camera { bench with received := [] } hready addr len
  have hround := (@nextMultipleOf_spec 4 (by decide) len).1
  unfold ReadsExactly ReadSound
  by_cases hrange : InRange addr len
  · rw [if_pos hrange, if_pos hrange]
    rcases Nat.eq_zero_or_pos len with rfl | hpos
    · rw [hread]
      simp [nextMultipleOf, narrowed, attempted, gathered, readBytes, Covers]
    · have hinside : addr + len ≤ addressSpace := hrange.resolve_right (by omega)
      rw [or_iff_right (by omega)]
      constructor
      · -- A read that starts inside a word is refused.
        rintro ⟨hok, -⟩
        by_contra haddr
        have hrefused := (@attempted_misaligned .readMem 512 _ _ (by decide) haddr
          (by omega : 0 < nextMultipleOf len 4)).2
        rw [hread, if_neg hrefused] at hok
        cases hok
      · intro haddr
        obtain ⟨last, -, hexact⟩ :=
          readMem_inside camera { bench with received := [] } hready haddr hinside
        have hsmall : addr + nextMultipleOf len 4 ≤ addressSpace := by
          have := nextMultipleOf_le (by decide : 0 < 4)
            (Nat.dvd_sub four_dvd_addressSpace haddr) (by omega : len ≤ addressSpace - addr)
          omega
        rw [hexact]
        refine ⟨rfl, rfl, covers_narrowed (by decide) haddr hpos hsmall, ?_⟩
        intro command hmem
        obtain ⟨piece, hpiece, rfl⟩ := List.mem_map.mp hmem
        exact ⟨rfl, size_le_of_mem_pieces (by decide) hpiece⟩
  · rw [if_neg hrange, if_neg hrange]
    obtain ⟨hpast, hne⟩ := not_or.mp hrange
    have hpos : 0 < nextMultipleOf len 4 := by omega
    have hstart : addr - addr % 4 ≤ addr := Nat.sub_le ..
    rw [hread]
    dsimp only
    rw [List.nil_append]
    rcases Nat.lt_or_ge addr addressSpace with hlow | hhigh
    · rw [and_iff_right hlow]
      by_cases haddr : 4 ∣ addr
      · rw [or_iff_right (not_not.mpr haddr)]
        constructor
        · rintro ⟨-, hin⟩ hmeets
          have := (@not_inside_wraps .readMem .writeMem (by decide) _ _ _ addr
            (by decide : 0 < 512) (by decide) haddr hlow
            (by omega : addressSpace < addr + nextMultipleOf len 4) hmeets len []).2
          rw [show attempted (narrowed .writeMem []) = [] from rfl, List.append_nil] at this
          exact this hin
        · intro hmiddle
          have hcross := (@attempted_crossing .readMem 512 _ _ (by decide) (by decide) haddr hlow
            (by omega : addressSpace < addr + nextMultipleOf len 4) hmiddle).2
          rw [if_neg hcross]
          exact ⟨⟨_, rfl⟩, (straight_crossing (by decide) (by decide) haddr hlow
            (by omega) hmiddle).inside hstart (by omega)⟩
      · rw [if_neg (attempted_misaligned (by decide) haddr hpos).2]
        exact iff_of_true
          ⟨⟨_, rfl⟩, (straight_misaligned (by decide) haddr hpos hlow).inside hstart (by omega)⟩
          (Or.inl haddr)
    · apply iff_of_false
      · rintro ⟨-, hin⟩
        have hbeyond : addressSpace ≤ addr - addr % 4 := by
          unfold addressSpace at hhigh ⊢
          omega
        have := @not_inside_beyond .readMem 512 _ _ addr (by decide) len hpos hbeyond []
        rw [List.append_nil] at this
        exact this hin
      · rintro ⟨hlow, -⟩
        omega

theorem writeMemWords_spec (bench : Bench) (hready : bench.Ready) (addr : Nat) (data : List UInt8) :
    let commands := narrowed .writeMem (pieces 508 addr data.length)
    ∃ device memory, device.requestId < 65536 ∧
      writeMemWords camera.transact addr data bench =
        (if ∀ command ∈ commands, command.Served then .ok ()
          else .error (.status (GigeStatus.fromRaw camera.refusal)),
        { device := device, memory := memory,
          received := bench.received ++ attempted commands }) ∧
      (addr + data.length ≤ addressSpace → (∀ command ∈ commands, command.Served) →
        memory = writeBytes bench.memory addr data) := by
  have hspec := writeMemWordsLoop_spec camera addr 0 data hready
  simpa only [writeMemWords, Nat.add_zero, Nat.sub_zero, List.drop_zero] using hspec

theorem received_writeMemWords (bench : Bench) (hready : bench.Ready)
    (addr : Nat) (data : List UInt8) :
    (writeMemWords camera.transact addr data bench).2.received =
      bench.received ++ attempted (narrowed .writeMem (pieces 508 addr data.length)) := by
  obtain ⟨device, memory, -, heq, -⟩ := writeMemWords_spec camera bench hready addr data
  rw [heq]

variable {data : List UInt8}

theorem writeMemWords_inside (bench : Bench) (hready : bench.Ready)
    {addr : Nat} (haddr : 4 ∣ addr) (hlen : 4 ∣ data.length)
    (hrange : addr + data.length ≤ addressSpace) :
    ∃ device, device.requestId < 65536 ∧
      writeMemWords camera.transact addr data bench =
        (.ok (), {
          device := device
          memory := writeBytes bench.memory addr data
          received := bench.received ++ narrowed .writeMem (pieces 508 addr data.length) }) := by
  have hserved : ∀ command ∈ narrowed .writeMem (pieces 508 addr data.length),
      command.Served := served_inside (by decide) (by decide) haddr hlen hrange
  obtain ⟨device, memory, hid, heq, hmemory⟩ := writeMemWords_spec camera bench hready addr data
  refine ⟨device, hid, ?_⟩
  rw [heq, if_pos hserved, attempted_of_served hserved, hmemory hrange hserved]

theorem words_spec (addr len : Nat) :
    4 ∣ addr - addr % 4 ∧ 4 ∣ nextMultipleOf (addr + len) 4 ∧
      addr + len ≤ nextMultipleOf (addr + len) 4 ∧
      addr - addr % 4 + (nextMultipleOf (addr + len) 4 - (addr - addr % 4)) =
        nextMultipleOf (addr + len) 4 := by
  have hround := (@nextMultipleOf_spec 4 (by decide) (addr + len)).1
  exact ⟨Nat.dvd_sub_mod addr, dvd_nextMultipleOf .., hround, by omega⟩

theorem covers_words {opcode : OpCode} {stride addr len : Nat} (hstride : 0 < stride)
    (hpos : 0 < len) (hrange : addr + len ≤ addressSpace) :
    Covers addr len (narrowed opcode (pieces stride (addr - addr % 4)
      (nextMultipleOf (addr + len) 4 - (addr - addr % 4)))) := by
  obtain ⟨-, -, -, hstop⟩ := words_spec addr len
  have hinside : nextMultipleOf (addr + len) 4 ≤ addressSpace :=
    nextMultipleOf_le (by decide) four_dvd_addressSpace hrange
  have htiles := pieces_tiles hstride (addr - addr % 4)
    (nextMultipleOf (addr + len) 4 - (addr - addr % 4))
  unfold Covers
  rw [if_neg (by omega), narrowed_span (start_lt_of_mem hstride (hstop.le.trans hinside))]
  rwa [hstop] at htiles

theorem writeBytes_words (memory : Nat → UInt8) {start addr stop : Nat} {data : List UInt8}
    (hstart : start ≤ addr) (hstop : addr + data.length ≤ stop) :
    writeBytes memory start
        ((readBytes memory start (stop - start)).take (addr - start) ++ data ++
          (readBytes memory start (stop - start)).drop (addr - start + data.length)) =
      writeBytes memory addr data := by
  funext at_
  have hlength : ((readBytes memory start (stop - start)).take (addr - start) ++ data ++
      (readBytes memory start (stop - start)).drop (addr - start + data.length)).length =
      stop - start := by
    simp only [List.length_append, List.length_take, List.length_drop, length_readBytes]
    omega
  have hfront : ((readBytes memory start (stop - start)).take (addr - start)).length =
      addr - start := by
    rw [List.length_take, length_readBytes]
    omega
  have hbyte : ∀ index, index < stop - start →
      (readBytes memory start (stop - start)).getD index 0 = memory (start + index) := by
    intro index hindex
    simp [readBytes, List.getD_eq_getElem?_getD, List.getElem?_range hindex]
  unfold writeBytes
  rw [hlength]
  rcases Nat.lt_or_ge at_ start with hbelow | hfrom
  · rw [if_neg (by omega), if_neg (by omega)]
  · rcases Nat.lt_or_ge at_ addr with hbefore | hin
    · have hsame : memory at_ = memory (start + (at_ - start)) := by
        rw [Nat.add_sub_of_le hfrom]
      rw [if_pos (by omega), if_neg (by omega), List.append_assoc,
        List.getD_append _ _ _ _ (by omega), hsame, ← hbyte _ (by omega)]
      simp only [List.getD_eq_getElem?_getD, List.getElem?_take]
      rw [if_pos (by omega)]
    · rcases Nat.lt_or_ge at_ (addr + data.length) with hdata | hafter
      · rw [if_pos (by omega), if_pos (by omega), List.append_assoc,
          List.getD_append_right _ _ _ _ (by omega), hfront,
          List.getD_append _ _ _ _ (by omega)]
        congr 1
        omega
      · rcases Nat.lt_or_ge at_ stop with hback | hout
        · have hsame : memory at_ = memory (start + (at_ - start)) := by
            rw [Nat.add_sub_of_le hfrom]
          rw [if_pos (by omega), if_neg (by omega), List.append_assoc,
            List.getD_append_right _ _ _ _ (by omega), hfront,
            List.getD_append_right _ _ _ _ (by omega), hsame, ← hbyte _ (by omega)]
          simp only [List.getD_eq_getElem?_getD, List.getElem?_drop]
          congr 2
          omega
        · rw [if_neg (by omega), if_neg (by omega)]

/-- What a write does: the words as they are, or the words around them with what
was read of them; where that read is refused, the bytes as they are. -/
theorem writeMem_aligned (bench : Bench) {addr : Nat}
    (haligned : data.length = 0 ∨ (4 ∣ addr ∧ 4 ∣ addr + data.length)) :
    writeMem camera.transact addr data bench = writeMemWords camera.transact addr data bench := by
  unfold writeMem
  dsimp only
  rw [if_pos]
  rcases haligned with hempty | ⟨haddr, hend⟩
  · exact Or.inl hempty
  · refine Or.inr ⟨?_, nextMultipleOf_of_dvd (by decide) hend⟩
    rw [Nat.mod_eq_zero_of_dvd haddr, Nat.sub_zero]

theorem writeMem_unaligned (bench : Bench) {addr : Nat}
    (hpos : 0 < data.length) (hunaligned : ¬ (4 ∣ addr ∧ 4 ∣ addr + data.length)) :
    writeMem camera.transact addr data bench =
      match readMem camera.transact (addr - addr % 4)
          (nextMultipleOf (addr + data.length) 4 - (addr - addr % 4)) bench with
      | (.error _, after) => writeMemWords camera.transact addr data after
      | (.ok words, after) =>
        writeMemWords camera.transact (addr - addr % 4)
          (words.take (addr - (addr - addr % 4)) ++ data ++
            words.drop (addr - (addr - addr % 4) + data.length)) after := by
  unfold writeMem
  dsimp only
  rw [if_neg]
  · obtain ⟨result, after⟩ := readMem camera.transact (addr - addr % 4)
      (nextMultipleOf (addr + data.length) 4 - (addr - addr % 4)) bench
    cases result with
    | error error => rfl
    | ok words => rfl
  · rintro (hempty | ⟨hstart, hend⟩)
    · omega
    · apply hunaligned
      constructor
      · rw [← hstart]
        exact Nat.dvd_sub_mod addr
      · rw [← hend]
        exact dvd_nextMultipleOf ..

theorem count_le_of_mem_narrowed {opcode : OpCode} {stride addr len : Nat} (hstride : 0 < stride)
    {command : Command} (hmem : command ∈ narrowed opcode (pieces stride addr len)) :
    command.count ≤ stride := by
  obtain ⟨piece, hpiece, rfl⟩ := List.mem_map.mp hmem
  exact size_le_of_mem_pieces hstride hpiece

theorem commandsOf_narrowed (opcode other : OpCode) (ranges : List (Nat × Nat)) :
    commandsOf other (narrowed opcode ranges) =
      if opcode = other then narrowed opcode ranges else [] := by
  unfold commandsOf narrowed
  split
  · rename_i heq
    rw [List.filter_eq_self]
    intro command hmem
    obtain ⟨piece, -, rfl⟩ := List.mem_map.mp hmem
    simp [heq]
  · rename_i hne
    rw [List.filter_eq_nil_iff]
    intro command hmem
    obtain ⟨piece, -, rfl⟩ := List.mem_map.mp hmem
    simpa using hne

theorem writesExactly_inside (bench : Bench) (hready : bench.Ready)
    (addr : Nat) (data : List UInt8) (hrange : InRange addr data.length) :
    WritesExactly camera bench addr data := by
  unfold WritesExactly
  rw [if_pos hrange]
  rcases Nat.eq_zero_or_pos data.length with hempty | hpos
  · have hnil : data = [] := List.length_eq_zero_iff.mp hempty
    subst hnil
    rw [writeMem_aligned _ _ (Or.inl rfl), writeMemWords, writeMemWordsLoop, dif_pos (by simp)]
    simp [Covers, commandsOf]
  · have hinside : addr + data.length ≤ addressSpace := hrange.resolve_right (by omega)
    by_cases haligned : 4 ∣ addr ∧ 4 ∣ addr + data.length
    · have hlen : 4 ∣ data.length := (Nat.dvd_add_right haligned.1).mp haligned.2
      obtain ⟨device, -, heq⟩ := writeMemWords_inside camera { bench with received := [] } hready
        haligned.1 hlen hinside
      have hcovers := @covers_narrowed .writeMem _ _ _ (by decide : 0 < 508) haligned.1 hpos
        (by rwa [nextMultipleOf_of_dvd (by decide) hlen])
      rw [nextMultipleOf_of_dvd (by decide) hlen] at hcovers
      rw [writeMem_aligned _ _ (Or.inr haligned), heq]
      simp only [List.nil_append, commandsOf_narrowed, if_true, reduceCtorEq, if_false]
      exact ⟨trivial, trivial, hcovers, Or.inl trivial, by simp,
        fun command hmem => count_le_of_mem_narrowed (by decide) hmem⟩
    · obtain ⟨hstart, hstop, hround, hsum⟩ := words_spec addr data.length
      have hmemory : nextMultipleOf (addr + data.length) 4 ≤ addressSpace :=
        nextMultipleOf_le (by decide) four_dvd_addressSpace hinside
      have hcovers := fun opcode stride hstride =>
        @covers_words opcode stride _ _ hstride hpos hinside
      have hlay := fun memory =>
        @writeBytes_words memory _ _ _ data (Nat.sub_le addr (addr % 4)) hround
      set start := addr - addr % 4
      set stop := nextMultipleOf (addr + data.length) 4
      obtain ⟨device, hid, hread⟩ := readMem_inside camera { bench with received := [] } hready
        hstart (hsum.le.trans hmemory)
      rw [writeMem_unaligned _ _ hpos haligned, hread]
      dsimp only
      have hlength : ((readBytes bench.memory start (stop - start)).take (addr - start) ++ data ++
          (readBytes bench.memory start (stop - start)).drop
            (addr - start + data.length)).length = stop - start := by
        simp only [List.length_append, List.length_take, List.length_drop, length_readBytes]
        omega
      obtain ⟨last, -, hwrite⟩ := writeMemWords_inside camera
        { device := device, memory := bench.memory,
          received := [] ++ narrowed .readMem (pieces 512 start
            (nextMultipleOf (stop - start) 4)) } hid hstart
        (by rw [hlength]; exact Nat.dvd_sub hstop hstart)
        (by rw [hlength]; exact hsum.le.trans hmemory)
      rw [hwrite, hlength, nextMultipleOf_of_dvd (by decide) (Nat.dvd_sub hstop hstart)]
      simp only [List.nil_append, commandsOf_append, commandsOf_narrowed, if_true, reduceCtorEq,
        if_false, List.append_nil]
      exact ⟨trivial, hlay bench.memory, hcovers .writeMem 508 (by decide),
        Or.inr (hcovers .readMem 512 (by decide)),
        fun command hmem => count_le_of_mem_narrowed (by decide) hmem,
        fun command hmem => count_le_of_mem_narrowed (by decide) hmem⟩

theorem writesExactly_iff (bench : Bench) (hready : bench.Ready) (addr : Nat) (data : List UInt8) :
    WritesExactly camera bench addr data ↔ WriteSound addr data.length := by
  by_cases hrange : InRange addr data.length
  · exact iff_of_true (writesExactly_inside camera bench hready addr data hrange) (Or.inl hrange)
  · obtain ⟨hpast, hne⟩ := not_or.mp hrange
    have hpos : 0 < data.length := by omega
    have hend : addressSpace < addr + data.length := by omega
    have hself : addr - addr % 4 ≤ addr := Nat.sub_le ..
    unfold WritesExactly WriteSound
    rw [if_neg hrange, or_iff_right hrange]
    by_cases haligned : 4 ∣ addr ∧ 4 ∣ addr + data.length
    · obtain ⟨device, memory, -, hwrite, -⟩ :=
        writeMemWords_spec camera { bench with received := [] } hready addr data
      rw [writeMem_aligned _ _ (Or.inr haligned), hwrite, if_pos haligned]
      dsimp only
      rw [List.nil_append]
      rcases Nat.lt_or_ge addr addressSpace with hlow | hhigh
      · rw [and_iff_right hlow]
        constructor
        · rintro ⟨-, hin⟩ hmeets
          have := (@not_inside_wraps .writeMem .readMem (by decide) _ _ _ addr
            (by decide : 0 < 508) (by decide) haligned.1 hlow hend hmeets data.length []).2
          rw [show attempted (narrowed .readMem []) = [] from rfl, List.append_nil] at this
          exact this hin
        · intro hmiddle
          rw [if_neg (attempted_crossing (by decide) (by decide) haligned.1 hlow hend hmiddle).2]
          exact ⟨⟨_, rfl⟩, (straight_crossing (by decide) (by decide) haligned.1 hlow hend
            hmiddle).inside hself hend⟩
      · apply iff_of_false
        · rintro ⟨-, hin⟩
          have hbeyond : addressSpace ≤ addr - addr % 4 := by
            rwa [Nat.mod_eq_zero_of_dvd haligned.1, Nat.sub_zero]
          have := @not_inside_beyond .writeMem 508 _ _ addr (by decide) data.length hpos hbeyond []
          rw [List.append_nil] at this
          exact this hin
        · rintro ⟨hlow, -⟩
          omega
    · rw [writeMem_unaligned _ _ hpos haligned, if_neg haligned]
      obtain ⟨hstart, hstop, hround, hsum⟩ := words_spec addr data.length
      have hnear : addr < addr - addr % 4 + 4 := by
        have := Nat.mod_lt addr (by decide : 0 < 4)
        omega
      set start := addr - addr % 4
      set stop := nextMultipleOf (addr + data.length) 4
      have hwords : nextMultipleOf (stop - start) 4 = stop - start :=
        nextMultipleOf_of_dvd (by decide) (Nat.dvd_sub hstop hstart)
      obtain ⟨device, hid, hread⟩ :=
        readMem_spec camera { bench with received := [] } hready start (stop - start)
      rw [hwords] at hread
      rw [hread]
      have hlowStart : addr < addressSpace ↔ start < addressSpace := by
        unfold addressSpace
        constructor
        · omega
        · intro h
          omega
      by_cases hsound : start < addressSpace ∧ ¬ 512 ∣ addressSpace - start
      · -- The words around the write are refused, and it goes out as given.
        obtain ⟨hlow, hmiddle⟩ := hsound
        have haddr := hlowStart.mpr hlow
        have hcross := @attempted_crossing .readMem _ _ _ (by decide : 0 < 512) (by decide)
          hstart hlow (by omega : addressSpace < start + (stop - start)) hmiddle
        have hreads := @straight_crossing .readMem _ _ _ (by decide : 0 < 512) (by decide)
          hstart hlow (by omega : addressSpace < start + (stop - start)) hmiddle
        rw [if_neg hcross.2]
        dsimp only
        obtain ⟨last, memory, -, hwrite, -⟩ := writeMemWords_spec camera
          { device := device, memory := bench.memory,
            received := [] ++ attempted (narrowed .readMem (pieces 512 start (stop - start))) }
          hid addr data
        rw [hwrite, and_iff_right haddr, and_iff_right hmiddle]
        dsimp only
        rw [List.nil_append]
        by_cases hword : 4 ∣ addr
        · rw [or_iff_right (not_not.mpr hword)]
          constructor
          · rintro ⟨-, hin⟩ hmeets
            exact (not_inside_wraps (by decide) (by decide) (by decide) hword haddr hend hmeets
              _).1 hin
          · intro hwriteMiddle
            rw [if_neg (attempted_crossing (by decide) (by decide) hword haddr hend
              hwriteMiddle).2]
            exact ⟨⟨_, rfl⟩, inside_append hreads (straight_crossing (by decide) (by decide) hword
              haddr hend hwriteMiddle) (le_refl _) hself hend⟩
        · rw [if_neg (attempted_misaligned (by decide) hword hpos).2]
          exact iff_of_true ⟨⟨_, rfl⟩, inside_append hreads
            (straight_misaligned (by decide) hword hpos haddr) (le_refl _) hself hend⟩
            (Or.inl hword)
      · -- The read of the words has gone out of the range already.
        apply iff_of_false
        · rintro ⟨-, hin⟩
          have hready' : Bench.Ready ⟨device, bench.memory,
              [] ++ attempted (narrowed .readMem (pieces 512 start (stop - start)))⟩ := hid
          have hreceived : ∃ ranges, Inside addr data.length
              (attempted (narrowed .readMem (pieces 512 start (stop - start))) ++
                attempted (narrowed .writeMem ranges)) := by
            split at hin
            · rename_i heq
              obtain ⟨-, rfl⟩ := Prod.mk.inj heq
              rw [received_writeMemWords camera _ hready'] at hin
              exact ⟨_, hin⟩
            · rename_i heq
              obtain ⟨-, rfl⟩ := Prod.mk.inj heq
              rw [received_writeMemWords camera _ hready'] at hin
              exact ⟨_, hin⟩
          obtain ⟨ranges, hinside⟩ := hreceived
          rcases Nat.lt_or_ge start addressSpace with hlow | hhigh
          · have hmeets : 512 ∣ addressSpace - start := by
              by_contra hmiddle
              exact hsound ⟨hlow, hmiddle⟩
            exact (not_inside_wraps (by decide) (by decide) (by decide) hstart hlow (by omega)
              hmeets ranges).2 hinside
          · exact not_inside_beyond (by decide) (by omega) hhigh _ hinside
        · rintro ⟨hlow, hmiddle, -⟩
          exact hsound ⟨hlowStart.mp hlow, hmiddle⟩

/-- Memory access covers exactly the bytes asked for, and stays inside the range
where it cannot, just where `ReadSound` and `WriteSound` say. -/
theorem memory_access_exact (bench : Bench) (hready : bench.Ready)
    (addr len : Nat) (data : List UInt8) :
    (ReadsExactly camera bench addr len ↔ ReadSound addr len) ∧
      (WritesExactly camera bench addr data ↔ WriteSound addr data.length) :=
  ⟨readsExactly_iff camera bench hready addr len, writesExactly_iff camera bench hready addr data⟩

/-- A device that echoes addresses and refuses with BAD_ALIGNMENT. -/
def strictCamera : MemoryCamera where
  echo := true
  writeAck := [0, 0, 0, 1]
  refusal := 0x8005
  writeAck_length := by decide
  refusal_lt := by decide
  refusal_final := by decide

def strictBench : Bench where
  device := ⟨500, none, 0, 1, false, 0, [], []⟩
  memory := fun address => UInt8.ofNat address
  received := []

/-- One byte written in the middle of a word is written exactly. -/
theorem memory_access_exact_byte : WritesExactly strictCamera strictBench 0x102 [7] :=
  (memory_access_exact strictCamera strictBench (show 1 < 65536 by decide) 0x102 0 [7]).2.mpr
    (Or.inl (Or.inl (by decide)))

/-- One byte read at address 1 is refused. -/
theorem unaligned_read_refused :
    ¬ ∀ (camera : MemoryCamera) (bench : Bench), bench.Ready →
      ∀ (addr len : Nat) (data : List UInt8),
        ReadsExactly camera bench addr len ∧ WritesExactly camera bench addr data := by
  intro h
  have hready : strictBench.Ready := by
    unfold Bench.Ready
    decide
  have hread := (h strictCamera strictBench hready 1 1 []).1
  rw [readsExactly_iff strictCamera strictBench hready] at hread
  revert hread
  unfold ReadSound
  decide

end VivaGenicam.Gvcp
