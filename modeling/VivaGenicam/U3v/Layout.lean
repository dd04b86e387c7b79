import VivaGenicam.Library.Checked
import VivaGenicam.U3v.Stream

/-!
The layout of a block in transfers, and the plan the receiver follows through
it. Construction is on machine integers: it fails as the source does, or has no
result at all where an operation would overflow or divide by zero.
-/

namespace VivaGenicam.U3v

open Library

/-- A computation on machine integers that may return an error. -/
abbrev Machine := ExceptT U3vError Option

namespace StreamLayout

/-- `u32::div_ceil`. -/
def divCeil (value alignment : Nat) : Option Nat :=
  (Checked.div value alignment).map fun quotient =>
    quotient + if value % alignment > 0 then 1 else 0

def alignUp (value alignment : Nat) : Machine Nat := do
  let transfers ← divCeil value alignment
  if transfers * alignment < 2 ^ 32 then
    return transfers * alignment
  else
    throw (.device "requires an alignment that overflows a transfer size")

/-- A device that requires no leader or trailer size gets a whole transfer. -/
def framing (alignedMax alignment required : Nat) : Machine Nat :=
  if required = 0 then pure alignedMax else alignUp required alignment

/-- The payload transfer size of `new`; the casts of the source keep 32 bits. -/
def payloadTransfer (payloadSize alignedMax alignment : Nat) : Machine Nat :=
  if payloadSize ≥ alignedMax then
    pure alignedMax
  else do
    let aligned ← Checked.mul32 (← Checked.div (payloadSize % 2 ^ 32) alignment) alignment
    if aligned = 0 then alignUp (payloadSize % 2 ^ 32) alignment else pure aligned

/-- The layout for a block of `payloadSize` bytes, every transfer a multiple of
`alignment` and none larger than `maxTransfer`. -/
def new (payloadSize requiredLeaderSize requiredTrailerSize alignment maxTransfer : Nat) :
    Machine StreamLayout :=
  if alignment = 0 ∨ alignment > maxTransfer then
    throw (.device "requires a transfer alignment larger than its transfers")
  else if payloadSize = 0 then
    throw (.device "requires a zero-byte payload")
  else do
    let alignedMax ← Checked.mul32 (← Checked.div maxTransfer alignment) alignment
    let payloadTransferSize ← payloadTransfer payloadSize alignedMax alignment
    let transfers ← Checked.div payloadSize payloadTransferSize
    if transfers ≥ 2 ^ 32 then
      throw (.device "requires more payload transfers than a SIRM can count")
    else do
      let filled ← Checked.mul transfers payloadTransferSize
      let finalTransfer1Size ← alignUp ((payloadSize - filled) % 2 ^ 32) alignment
      let leaderSize ← framing alignedMax alignment requiredLeaderSize
      let trailerSize ← framing alignedMax alignment requiredTrailerSize
      return {
        leaderSize
        trailerSize
        payloadTransferSize
        payloadTransferCount := transfers
        finalTransfer1Size
        finalTransfer2Size := 0 }

def payloadCapacityChecked (layout : StreamLayout) : Option Nat := do
  let full ← Checked.mul layout.payloadTransferSize layout.payloadTransferCount
  let final1 ← Checked.add full layout.finalTransfer1Size
  Checked.add final1 layout.finalTransfer2Size

end StreamLayout

/-- `U3vStream.slot` with its arithmetic checked. -/
def U3vStream.slotChecked (layout : StreamLayout) (cursor : Cursor) : Option (Nat × Cursor) := do
  let capacity ← layout.payloadCapacityChecked
  match cursor with
  | .leader => some (layout.leaderSize, if capacity = 0 then .trailer else .payload 0)
  | .payload offset =>
    let size := layout.payloadTransferSize
    let full ← Checked.mul size layout.payloadTransferCount
    let final1 ← Checked.add full layout.finalTransfer1Size
    let bound ←
      if offset < full then do
        let transfers ← Checked.add (← Checked.div offset size) 1
        Checked.mul transfers size
      else if offset < final1 then some final1
      else some capacity
    let next := if bound ≥ capacity then Cursor.trailer else .payload bound
    let len ← Checked.sub bound offset
    some (len, next)
  | .trailer => some (layout.trailerSize, .leader)

namespace StreamLayout

/-- The offset and size of each payload transfer planned from `cursor`, and the
cursor they leave. -/
def payloadPlan (layout : StreamLayout) : Nat → Cursor → List (Nat × Nat) × Cursor
  | steps + 1, .payload offset =>
    let (len, next) := U3vStream.slot layout (.payload offset)
    let (rest, last) := payloadPlan layout steps next
    ((offset, len) :: rest, last)
  | _, cursor => ([], cursor)

/-- Where the payload transfers of a whole block end. -/
def boundaries (layout : StreamLayout) : List Nat :=
  (List.range layout.payloadTransferCount).map (fun k => (k + 1) * layout.payloadTransferSize) ++
    if layout.finalTransfer1Size = 0 then [] else [layout.payloadCapacity]

/-- The plan from `offset` in the payload. -/
structure PlanFrom (layout : StreamLayout) (offset : Nat) (plan : List (Nat × Nat) × Cursor) :
    Prop where
  trailer : plan.2 = .trailer
  first : (plan.1.map Prod.fst).head? = some offset
  /-- It joins the boundaries of the whole block. -/
  ends : plan.1.map (fun transfer => transfer.1 + transfer.2) =
    layout.boundaries.filter fun bound => decide (offset < bound)
  increasing : (plan.1.map Prod.fst).Pairwise (· < ·)
  positive : ∀ transfer ∈ plan.1, 0 < transfer.2
  sum : (plan.1.map Prod.snd).sum = layout.payloadCapacity - offset

/-- What the layout of a block comes to. -/
structure Laws (payloadSize requiredLeaderSize requiredTrailerSize alignment maxTransfer : Nat)
    (layout : StreamLayout) : Prop where
  payload_le : payloadSize ≤ layout.payloadCapacity
  capacity_lt : layout.payloadCapacity < payloadSize + alignment
  aligned : ∀ size ∈ [layout.leaderSize, layout.trailerSize, layout.payloadTransferSize,
    layout.finalTransfer1Size, layout.finalTransfer2Size], alignment ∣ size
  within : ∀ size ∈ [layout.payloadTransferSize, layout.finalTransfer1Size,
    layout.finalTransfer2Size], size ≤ maxTransfer
  leader_le : requiredLeaderSize ≤ layout.leaderSize
  trailer_le : requiredTrailerSize ≤ layout.trailerSize
  capacity_checked : layout.payloadCapacityChecked = some layout.payloadCapacity
  slot_checked : ∀ cursor, (∀ offset, cursor = .payload offset → offset < layout.payloadCapacity) →
    U3vStream.slotChecked layout cursor = some (U3vStream.slot layout cursor)
  leader_slot : U3vStream.slot layout .leader = (layout.leaderSize, .payload 0)
  trailer_slot : U3vStream.slot layout .trailer = (layout.trailerSize, .leader)
  plan : ∀ offset < layout.payloadCapacity,
    layout.PlanFrom offset (layout.payloadPlan (layout.payloadTransferCount + 2) (.payload offset))

/-- The least multiple of `alignment` from `value` on. -/
def roundUp (value alignment : Nat) : Nat :=
  (value / alignment + if value % alignment > 0 then 1 else 0) * alignment

theorem dvd_roundUp (value alignment : Nat) : alignment ∣ roundUp value alignment :=
  Nat.dvd_mul_left _ _

theorem le_roundUp {alignment : Nat} (h : 0 < alignment) (value : Nat) :
    value ≤ roundUp value alignment ∧ roundUp value alignment < value + alignment := by
  have hsplit := Nat.div_add_mod' value alignment
  have hmod := Nat.mod_lt value h
  unfold roundUp
  split
  · rw [Nat.add_mul, Nat.one_mul]
    omega
  · rw [Nat.add_zero]
    omega

theorem roundUp_le {value bound alignment : Nat} (hle : value ≤ bound) (hdvd : alignment ∣ bound) :
    roundUp value alignment ≤ bound := by
  obtain ⟨multiple, rfl⟩ := hdvd
  rcases Nat.eq_zero_or_pos alignment with rfl | hpos
  · simp [roundUp]
  unfold roundUp
  rw [Nat.mul_comm alignment multiple] at hle ⊢
  apply Nat.mul_le_mul_right
  have hdiv : value / alignment ≤ multiple := Nat.div_le_of_le_mul (by rwa [Nat.mul_comm])
  split
  · rename_i hmod
    by_contra hnot
    have heq : value / alignment = multiple := by omega
    have hsplit := Nat.div_add_mod' value alignment
    rw [heq] at hsplit
    omega
  · exact hdiv

theorem le_roundDown {value alignment : Nat} (hle : alignment ≤ value) (hpos : 0 < alignment) :
    alignment ≤ value / alignment * alignment :=
  Nat.le_mul_of_pos_left _ (Nat.div_pos hle hpos)

theorem alignUp_eq {alignment : Nat} (hpos : 0 < alignment) (value : Nat) :
    alignUp value alignment =
      if roundUp value alignment < 2 ^ 32 then pure (roundUp value alignment)
      else throw (.device "requires an alignment that overflows a transfer size") := by
  unfold alignUp divCeil
  rw [Checked.div_eq hpos]
  rfl

def transferSize (payloadSize alignment maxTransfer : Nat) : Nat :=
  if payloadSize ≥ maxTransfer / alignment * alignment then maxTransfer / alignment * alignment
  else if payloadSize / alignment * alignment = 0 then roundUp payloadSize alignment
  else payloadSize / alignment * alignment

def framingSize (required alignment maxTransfer : Nat) : Nat :=
  if required = 0 then maxTransfer / alignment * alignment else roundUp required alignment

section Construction

variable {payloadSize requiredLeaderSize requiredTrailerSize alignment maxTransfer : Nat}

theorem transferSize_spec (hpos : 0 < alignment) (hle : alignment ≤ maxTransfer)
    (hpayload : 0 < payloadSize) :
    alignment ∣ transferSize payloadSize alignment maxTransfer ∧
      0 < transferSize payloadSize alignment maxTransfer ∧
      transferSize payloadSize alignment maxTransfer ≤ maxTransfer := by
  have hmax : maxTransfer / alignment * alignment ≤ maxTransfer := Nat.div_mul_le_self _ _
  have hmaxPos := le_roundDown hle hpos
  unfold transferSize
  split
  · exact ⟨Nat.dvd_mul_left _ _, by omega, hmax⟩
  · rename_i hsmall
    split
    · have hround := le_roundUp hpos payloadSize
      refine ⟨dvd_roundUp _ _, by omega, (roundUp_le ?_ (Nat.dvd_mul_left _ _)).trans hmax⟩
      omega
    · have := Nat.div_mul_le_self payloadSize alignment
      exact ⟨Nat.dvd_mul_left _ _, by omega, by omega⟩

def planned (payloadSize requiredLeaderSize requiredTrailerSize alignment maxTransfer : Nat) :
    StreamLayout :=
  let size := transferSize payloadSize alignment maxTransfer
  { leaderSize := framingSize requiredLeaderSize alignment maxTransfer
    trailerSize := framingSize requiredTrailerSize alignment maxTransfer
    payloadTransferSize := size
    payloadTransferCount := payloadSize / size
    finalTransfer1Size := roundUp (payloadSize % size) alignment
    finalTransfer2Size := 0 }

def Refused (payloadSize requiredLeaderSize requiredTrailerSize alignment maxTransfer : Nat) :
    Prop :=
  alignment = 0 ∨ alignment > maxTransfer ∨ payloadSize = 0 ∨
    2 ^ 32 ≤ payloadSize / transferSize payloadSize alignment maxTransfer ∨
    2 ^ 32 ≤ framingSize requiredLeaderSize alignment maxTransfer ∨
    2 ^ 32 ≤ framingSize requiredTrailerSize alignment maxTransfer

theorem lift_some {α β : Type} (value : α) (next : α → Machine β) :
    ((liftM (some value) : Machine α) >>= next) = next value := rfl

theorem framing_eq (hpos : 0 < alignment) (hmax : maxTransfer < 2 ^ 32) (required : Nat) :
    framing (maxTransfer / alignment * alignment) alignment required =
      if framingSize required alignment maxTransfer < 2 ^ 32 then
        pure (framingSize required alignment maxTransfer)
      else throw (.device "requires an alignment that overflows a transfer size") := by
  have hround : maxTransfer / alignment * alignment ≤ maxTransfer := Nat.div_mul_le_self _ _
  unfold framing framingSize
  split
  · rw [if_pos (by omega)]
  · exact alignUp_eq hpos required

theorem payloadTransfer_eq (hpos : 0 < alignment) (hle : alignment ≤ maxTransfer)
    (hmax : maxTransfer < 2 ^ 32) :
    payloadTransfer payloadSize (maxTransfer / alignment * alignment) alignment =
      pure (transferSize payloadSize alignment maxTransfer) := by
  have hround : maxTransfer / alignment * alignment ≤ maxTransfer := Nat.div_mul_le_self _ _
  unfold payloadTransfer transferSize
  split
  · rfl
  · rename_i hsmall
    have hcast : payloadSize % 2 ^ 32 = payloadSize := Nat.mod_eq_of_lt (by omega)
    have hdown : payloadSize / alignment * alignment ≤ payloadSize := Nat.div_mul_le_self _ _
    have hup : roundUp payloadSize alignment ≤ maxTransfer / alignment * alignment :=
      roundUp_le (by omega) (Nat.dvd_mul_left _ _)
    rw [hcast, Checked.div_eq hpos, lift_some, Checked.mul32_eq (by omega), lift_some]
    split
    · rw [alignUp_eq hpos, if_pos (by omega)]
    · rfl

theorem new_eq (hpayload : payloadSize < 2 ^ 64) (hmax : maxTransfer < 2 ^ 32) :
    (Refused payloadSize requiredLeaderSize requiredTrailerSize alignment maxTransfer ∧
      ∃ message, new payloadSize requiredLeaderSize requiredTrailerSize alignment maxTransfer =
        throw (.device message)) ∨
    (¬ Refused payloadSize requiredLeaderSize requiredTrailerSize alignment maxTransfer ∧
      new payloadSize requiredLeaderSize requiredTrailerSize alignment maxTransfer =
        pure (planned payloadSize requiredLeaderSize requiredTrailerSize alignment
          maxTransfer)) := by
  unfold new
  by_cases halignment : alignment = 0 ∨ alignment > maxTransfer
  · rw [if_pos halignment]
    exact .inl ⟨halignment.imp_right .inl, _, rfl⟩
  by_cases hzero : payloadSize = 0
  · rw [if_neg halignment, if_pos hzero]
    exact .inl ⟨.inr (.inr (.inl hzero)), _, rfl⟩
  have hpos : 0 < alignment := by omega
  have hle : alignment ≤ maxTransfer := by omega
  have hround : maxTransfer / alignment * alignment ≤ maxTransfer := Nat.div_mul_le_self _ _
  obtain ⟨hdvd, hsize, hsizeLe⟩ := transferSize_spec hpos hle (Nat.pos_of_ne_zero hzero)
  have hfull := Nat.div_mul_le_self payloadSize (transferSize payloadSize alignment maxTransfer)
  have hrest : payloadSize - payloadSize / transferSize payloadSize alignment maxTransfer *
      transferSize payloadSize alignment maxTransfer =
      payloadSize % transferSize payloadSize alignment maxTransfer := by
    have := Nat.div_add_mod' payloadSize (transferSize payloadSize alignment maxTransfer)
    omega
  have hmod := Nat.mod_lt payloadSize hsize
  have hfinal := roundUp_le hmod.le hdvd
  rw [if_neg halignment, if_neg hzero, Checked.div_eq hpos, lift_some,
    Checked.mul32_eq (by omega), lift_some, payloadTransfer_eq hpos hle hmax, pure_bind, Checked.div_eq hsize, lift_some]
  by_cases hcount : 2 ^ 32 ≤ payloadSize / transferSize payloadSize alignment maxTransfer
  · rw [if_pos hcount]
    exact .inl ⟨.inr (.inr (.inr (.inl hcount))), _, rfl⟩
  rw [if_neg (by omega), Checked.mul_eq (by omega), lift_some, hrest,
    Nat.mod_eq_of_lt (b := 2 ^ 32) (by omega), alignUp_eq hpos, if_pos (by omega), pure_bind,
    framing_eq hpos hmax, framing_eq hpos hmax]
  by_cases hleader : framingSize requiredLeaderSize alignment maxTransfer < 2 ^ 32
  · rw [if_pos hleader, pure_bind]
    by_cases htrailer : framingSize requiredTrailerSize alignment maxTransfer < 2 ^ 32
    · rw [if_pos htrailer, pure_bind]
      refine .inr ⟨?_, rfl⟩
      unfold Refused
      omega
    · rw [if_neg htrailer]
      refine .inl ⟨?_, _, rfl⟩
      unfold Refused
      omega
  · rw [if_neg hleader]
    refine .inl ⟨?_, _, rfl⟩
    unfold Refused
    omega

end Construction

/-- What `new` gives: transfers of a positive size, and a last one that is no
longer. -/
structure Regular (layout : StreamLayout) : Prop where
  size_pos : 0 < layout.payloadTransferSize
  size_lt : layout.payloadTransferSize < 2 ^ 32
  count_lt : layout.payloadTransferCount < 2 ^ 32
  final1_le : layout.finalTransfer1Size ≤ layout.payloadTransferSize
  final2_eq : layout.finalTransfer2Size = 0
  capacity_pos : 0 < layout.payloadCapacity

/-- Where the transfer from `offset` ends. -/
def boundAfter (layout : StreamLayout) (offset : Nat) : Nat :=
  if offset < layout.payloadTransferSize * layout.payloadTransferCount then
    (offset / layout.payloadTransferSize + 1) * layout.payloadTransferSize
  else layout.payloadCapacity

section Plan

variable {layout : StreamLayout} (h : layout.Regular) {offset : Nat}
  (hoffset : offset < layout.payloadCapacity)

include h

theorem Regular.capacity_eq : layout.payloadCapacity =
    layout.payloadTransferSize * layout.payloadTransferCount + layout.finalTransfer1Size := by
  rw [payloadCapacity, h.final2_eq, Nat.add_zero]

theorem Regular.next_multiple
    (hfull : offset < layout.payloadTransferSize * layout.payloadTransferCount) :
    offset / layout.payloadTransferSize < layout.payloadTransferCount ∧
      offset < (offset / layout.payloadTransferSize + 1) * layout.payloadTransferSize ∧
      (offset / layout.payloadTransferSize + 1) * layout.payloadTransferSize ≤
        layout.payloadTransferSize * layout.payloadTransferCount := by
  have hdiv : offset / layout.payloadTransferSize < layout.payloadTransferCount :=
    Nat.div_lt_of_lt_mul hfull
  refine ⟨hdiv, ?_, ?_⟩
  · rw [Nat.mul_comm]
    exact Nat.lt_mul_div_succ offset h.size_pos
  · rw [Nat.mul_comm layout.payloadTransferSize]
    exact Nat.mul_le_mul_right _ hdiv

include hoffset

theorem Regular.slot_eq : U3vStream.slot layout (.payload offset) =
    (layout.boundAfter offset - offset,
      if layout.boundAfter offset ≥ layout.payloadCapacity then .trailer
      else .payload (layout.boundAfter offset)) := by
  have hcapacity := h.capacity_eq
  unfold U3vStream.slot boundAfter
  dsimp only
  split
  · rfl
  · rw [← hcapacity, if_pos hoffset]

theorem Regular.boundAfter_spec : offset < layout.boundAfter offset ∧
    layout.boundAfter offset ≤ layout.payloadCapacity := by
  have hcapacity := h.capacity_eq
  unfold boundAfter
  split
  · rename_i hfull
    obtain ⟨-, hlt, hle⟩ := h.next_multiple hfull
    exact ⟨hlt, by omega⟩
  · exact ⟨hoffset, le_rfl⟩

omit hoffset in
theorem Regular.capacityChecked_eq :
    layout.payloadTransferSize * layout.payloadTransferCount + layout.finalTransfer1Size < 2 ^ 64 ∧
      layout.payloadCapacityChecked = some layout.payloadCapacity := by
  have hsize := h.size_lt
  have hcount := h.count_lt
  have hfinal := h.final1_le
  have hcapacity := h.capacity_eq
  have hfull : layout.payloadTransferSize * layout.payloadTransferCount ≤
      (2 ^ 32 - 1) * (2 ^ 32 - 1) := Nat.mul_le_mul (by omega) (by omega)
  refine ⟨by omega, ?_⟩
  rw [payloadCapacityChecked, Checked.mul_eq (by omega), Option.bind_eq_bind, Option.bind_some,
    Checked.add_eq (by omega), Option.bind_some, h.final2_eq,
    Checked.add_eq (by omega), hcapacity, Nat.add_zero]

theorem Regular.slotChecked_eq : U3vStream.slotChecked layout (.payload offset) =
    some (U3vStream.slot layout (.payload offset)) := by
  obtain ⟨hlt, hchecked⟩ := h.capacityChecked_eq
  have hbound := h.boundAfter_spec hoffset
  have hcapacity := h.capacity_eq
  rw [h.slot_eq hoffset]
  unfold U3vStream.slotChecked
  rw [hchecked, Option.bind_eq_bind, Option.bind_some]
  dsimp only
  rw [Checked.mul_eq (by omega), Option.bind_some, Checked.add_eq (by omega), Option.bind_some]
  unfold boundAfter at hbound ⊢
  split at hbound
  · rename_i hfull
    have hdiv := Nat.div_le_self offset layout.payloadTransferSize
    rw [if_pos hfull, if_pos hfull, Checked.div_eq h.size_pos, Option.bind_some,
      Checked.add_eq (by omega), Option.bind_some, Checked.mul_eq (by omega),
      Option.bind_some, Checked.sub_eq (by omega)]
    rfl
  · rename_i hfull
    rw [if_neg hfull, if_neg hfull, if_pos (by omega), Option.bind_some,
      Checked.sub_eq (by omega), ← hcapacity]
    rfl

end Plan

section Boundaries

variable {layout : StreamLayout} (h : layout.Regular) {offset : Nat}

theorem mem_boundaries {layout : StreamLayout} {bound : Nat} : bound ∈ layout.boundaries ↔
    (∃ k < layout.payloadTransferCount, bound = (k + 1) * layout.payloadTransferSize) ∨
      layout.finalTransfer1Size ≠ 0 ∧ bound = layout.payloadCapacity := by
  unfold boundaries
  rw [List.mem_append, List.mem_map]
  refine or_congr ⟨?_, ?_⟩ ?_
  · rintro ⟨k, hk, rfl⟩
    exact ⟨k, List.mem_range.mp hk, rfl⟩
  · rintro ⟨k, hk, rfl⟩
    exact ⟨k, List.mem_range.mpr hk, rfl⟩
  · split
    · rename_i hzero
      simp [hzero]
    · rename_i hpos
      simp [hpos]

theorem length_boundaries_le (layout : StreamLayout) :
    layout.boundaries.length ≤ layout.payloadTransferCount + 1 := by
  unfold boundaries
  rw [List.length_append, List.length_map, List.length_range]
  split
  · exact Nat.le_succ _
  · exact le_rfl

include h

omit h in
theorem multiple_le {k : Nat} (hk : k < layout.payloadTransferCount) :
    (k + 1) * layout.payloadTransferSize ≤
      layout.payloadTransferSize * layout.payloadTransferCount := by
  rw [Nat.mul_comm layout.payloadTransferSize]
  exact Nat.mul_le_mul_right _ hk

theorem Regular.boundaries_le : ∀ bound ∈ layout.boundaries, bound ≤ layout.payloadCapacity := by
  have hcapacity := h.capacity_eq
  intro bound hbound
  rcases mem_boundaries.mp hbound with ⟨k, hk, rfl⟩ | ⟨-, rfl⟩
  · have := multiple_le hk
    omega
  · exact le_rfl

theorem Regular.boundaries_sorted : layout.boundaries.Pairwise (· < ·) := by
  have hcapacity := h.capacity_eq
  unfold boundaries
  refine List.pairwise_append.mpr ⟨?_, ?_, fun first hfirst second hsecond => ?_⟩
  · rw [List.pairwise_map]
    refine List.pairwise_lt_range.imp fun hlt => ?_
    exact Nat.mul_lt_mul_of_pos_right (Nat.succ_lt_succ hlt) h.size_pos
  · split
    · exact List.Pairwise.nil
    · exact List.pairwise_singleton _ _
  · obtain ⟨k, hk, rfl⟩ := List.mem_map.mp hfirst
    have := multiple_le (List.mem_range.mp hk)
    split at hsecond
    · cases hsecond
    · rw [List.mem_singleton] at hsecond
      omega

theorem Regular.boundAfter_first (hoffset : offset < layout.payloadCapacity) :
    layout.boundAfter offset ∈ layout.boundaries ∧
      ∀ bound ∈ layout.boundaries, offset < bound → layout.boundAfter offset ≤ bound := by
  have hcapacity := h.capacity_eq
  have hle := (h.boundAfter_spec hoffset).2
  unfold boundAfter at hle ⊢
  split
  · rename_i hfull
    rw [if_pos hfull] at hle
    refine ⟨mem_boundaries.mpr (.inl ⟨_, (h.next_multiple hfull).1, rfl⟩),
      fun bound hbound hlt => ?_⟩
    rcases mem_boundaries.mp hbound with ⟨k, -, rfl⟩ | ⟨-, rfl⟩
    · apply Nat.mul_le_mul_right
      exact Nat.div_lt_of_lt_mul (by rwa [Nat.mul_comm])
    · exact hle
  · rename_i hfull
    refine ⟨mem_boundaries.mpr (.inr ⟨by omega, rfl⟩), fun bound hbound hlt => ?_⟩
    rcases mem_boundaries.mp hbound with ⟨k, hk, rfl⟩ | ⟨-, rfl⟩
    · have := multiple_le hk
      omega
    · exact le_rfl

end Boundaries

theorem filter_lt_eq_cons {bounds : List Nat} (hsorted : bounds.Pairwise (· < ·))
    {offset next : Nat} (hnext : next ∈ bounds) (hlt : offset < next)
    (hfirst : ∀ bound ∈ bounds, offset < bound → next ≤ bound) :
    bounds.filter (fun bound => decide (offset < bound)) =
      next :: bounds.filter fun bound => decide (next < bound) := by
  induction bounds with
  | nil => cases hnext
  | cons head rest ih =>
    obtain ⟨hhead, hrest⟩ := List.pairwise_cons.mp hsorted
    rcases List.mem_cons.mp hnext with rfl | hmem
    · rw [List.filter_cons_of_pos (by simpa using hlt), List.filter_cons_of_neg (by simp)]
      congr 1
      refine List.filter_congr fun bound hbound => ?_
      have := hhead bound hbound
      simp [this, hlt.trans this]
    · have hbefore := hhead next hmem
      have hskip : ¬ offset < head := by
        intro hoffset
        have := hfirst head (by simp) hoffset
        omega
      rw [List.filter_cons_of_neg (by simpa using hskip),
        List.filter_cons_of_neg (by simpa using hbefore.le)]
      exact ih hrest hmem fun bound hbound => hfirst bound (by simp [hbound])

/-- The transfers from `offset` to the ends given. -/
def transfersTo : Nat → List Nat → List (Nat × Nat)
  | _, [] => []
  | offset, bound :: rest => (offset, bound - offset) :: transfersTo bound rest

theorem Regular.payloadPlan_eq {layout : StreamLayout} (h : layout.Regular) (steps : Nat)
    {offset : Nat} (hoffset : offset < layout.payloadCapacity)
    (hsteps : (layout.boundaries.filter fun bound => decide (offset < bound)).length ≤ steps) :
    layout.payloadPlan steps (.payload offset) =
        (transfersTo offset (layout.boundaries.filter fun bound => decide (offset < bound)),
          .trailer) ∧
      ((transfersTo offset (layout.boundaries.filter fun bound =>
        decide (offset < bound))).map Prod.snd).sum = layout.payloadCapacity - offset := by
  induction steps generalizing offset with
  | zero =>
    obtain ⟨hmem, -⟩ := h.boundAfter_first hoffset
    have hlt := (h.boundAfter_spec hoffset).1
    rw [Nat.le_zero, List.length_eq_zero_iff, List.filter_eq_nil_iff] at hsteps
    exact absurd (decide_eq_true hlt) (hsteps _ hmem)
  | succ steps ih =>
    obtain ⟨hmem, hfirst⟩ := h.boundAfter_first hoffset
    obtain ⟨hlt, hle⟩ := h.boundAfter_spec hoffset
    have hfilter := filter_lt_eq_cons h.boundaries_sorted hmem hlt hfirst
    rw [hfilter, List.length_cons] at hsteps
    rw [hfilter, payloadPlan, h.slot_eq hoffset, transfersTo, List.map_cons, List.sum_cons]
    dsimp only
    by_cases hlast : layout.boundAfter offset ≥ layout.payloadCapacity
    · have hnone : (layout.boundaries.filter fun bound =>
          decide (layout.boundAfter offset < bound)) = [] := by
        rw [List.filter_eq_nil_iff]
        intro bound hbound
        have := h.boundaries_le bound hbound
        rw [decide_eq_true_eq]
        omega
      rw [if_pos hlast, hnone]
      refine ⟨by cases steps <;> rfl, ?_⟩
      rw [transfersTo, List.map_nil, List.sum_nil]
      omega
    · obtain ⟨hplan, hsum⟩ := ih (Nat.lt_of_not_le hlast) (Nat.le_of_succ_le_succ hsteps)
      rw [if_neg hlast, hplan, hsum]
      exact ⟨rfl, by omega⟩

theorem transfersTo_spec (offset : Nat) (bounds : List Nat)
    (hsorted : (offset :: bounds).Pairwise (· < ·)) :
    (transfersTo offset bounds).map (fun transfer => transfer.1 + transfer.2) = bounds ∧
      ((transfersTo offset bounds).map Prod.fst).Pairwise (· < ·) ∧
      ∀ transfer ∈ transfersTo offset bounds, offset ≤ transfer.1 ∧ 0 < transfer.2 := by
  induction bounds generalizing offset with
  | nil => simp [transfersTo]
  | cons bound rest ih =>
    obtain ⟨hoffset, hrest⟩ := List.pairwise_cons.mp hsorted
    have hlt := hoffset bound (by simp)
    obtain ⟨hends, hincreasing, hpositive⟩ := ih bound hrest
    refine ⟨?_, ?_, ?_⟩
    · rw [transfersTo, List.map_cons, hends]
      congr 1
      dsimp only
      omega
    · rw [transfersTo, List.map_cons, List.pairwise_cons]
      refine ⟨fun start hstart => ?_, hincreasing⟩
      obtain ⟨transfer, htransfer, rfl⟩ := List.mem_map.mp hstart
      exact hlt.trans_le (hpositive transfer htransfer).1
    · rw [transfersTo]
      refine List.forall_mem_cons.mpr ⟨⟨le_rfl, by dsimp only; omega⟩, fun transfer htransfer => ?_⟩
      have := hpositive transfer htransfer
      exact ⟨hlt.le.trans this.1, this.2⟩

theorem Regular.planFrom {layout : StreamLayout} (h : layout.Regular) {offset : Nat}
    (hoffset : offset < layout.payloadCapacity) :
    layout.PlanFrom offset
      (layout.payloadPlan (layout.payloadTransferCount + 2) (.payload offset)) := by
  have hlength : (layout.boundaries.filter fun bound => decide (offset < bound)).length ≤
      layout.payloadTransferCount + 2 :=
    (List.length_filter_le _ _).trans ((length_boundaries_le layout).trans (Nat.le_succ _))
  obtain ⟨hplan, hsum⟩ := h.payloadPlan_eq _ hoffset hlength
  have hsorted : (offset :: layout.boundaries.filter fun bound =>
      decide (offset < bound)).Pairwise (· < ·) := by
    refine List.pairwise_cons.mpr ⟨fun bound hbound => ?_, h.boundaries_sorted.filter _⟩
    exact decide_eq_true_eq.mp (List.mem_filter.mp hbound).2
  obtain ⟨hends, hincreasing, hpositive⟩ := transfersTo_spec offset _ hsorted
  rw [hplan]
  refine ⟨rfl, ?_, hends, hincreasing, fun transfer htransfer => (hpositive transfer htransfer).2,
    hsum⟩
  obtain ⟨hmem, hfirst⟩ := h.boundAfter_first hoffset
  rw [filter_lt_eq_cons h.boundaries_sorted hmem (h.boundAfter_spec hoffset).1 hfirst]
  rfl

section Planned

variable {payloadSize requiredLeaderSize requiredTrailerSize alignment maxTransfer : Nat}

theorem framingSize_spec (hpos : 0 < alignment) (required : Nat) :
    alignment ∣ framingSize required alignment maxTransfer ∧
      required ≤ framingSize required alignment maxTransfer := by
  unfold framingSize
  split
  · rename_i hzero
    exact ⟨Nat.dvd_mul_left _ _, by omega⟩
  · exact ⟨dvd_roundUp _ _, (le_roundUp hpos required).1⟩

theorem planned_laws (hmax : maxTransfer < 2 ^ 32)
    (hnot : ¬ Refused payloadSize requiredLeaderSize requiredTrailerSize alignment maxTransfer) :
    Laws payloadSize requiredLeaderSize requiredTrailerSize alignment maxTransfer
      (planned payloadSize requiredLeaderSize requiredTrailerSize alignment maxTransfer) := by
  simp only [Refused, not_or] at hnot
  obtain ⟨halignment, hle, hpayload, hcount, -, -⟩ := hnot
  have hpos : 0 < alignment := Nat.pos_of_ne_zero halignment
  obtain ⟨hdvd, hsize, hsizeLe⟩ := transferSize_spec hpos (Nat.le_of_not_lt hle)
    (Nat.pos_of_ne_zero hpayload)
  obtain ⟨hleaderDvd, hleader⟩ : alignment ∣ framingSize requiredLeaderSize alignment maxTransfer ∧
      requiredLeaderSize ≤ framingSize requiredLeaderSize alignment maxTransfer :=
    framingSize_spec hpos requiredLeaderSize
  obtain ⟨htrailerDvd, htrailer⟩ :
      alignment ∣ framingSize requiredTrailerSize alignment maxTransfer ∧
        requiredTrailerSize ≤ framingSize requiredTrailerSize alignment maxTransfer :=
    framingSize_spec hpos requiredTrailerSize
  have hmod := Nat.mod_lt payloadSize hsize
  have hsplit := Nat.div_add_mod payloadSize (transferSize payloadSize alignment maxTransfer)
  have hround := le_roundUp hpos (payloadSize % transferSize payloadSize alignment maxTransfer)
  have hfinal := roundUp_le hmod.le hdvd
  generalize hlayout : planned payloadSize requiredLeaderSize requiredTrailerSize alignment
    maxTransfer = layout
  have hcapacity : layout.payloadCapacity =
      transferSize payloadSize alignment maxTransfer *
          (payloadSize / transferSize payloadSize alignment maxTransfer) +
        roundUp (payloadSize % transferSize payloadSize alignment maxTransfer) alignment := by
    rw [← hlayout]
    rfl
  have hregular : layout.Regular := by
    refine ⟨?_, ?_, ?_, ?_, ?_, by omega⟩ <;> rw [← hlayout] <;> dsimp only [planned]
    · exact hsize
    · omega
    · omega
    · exact hfinal
  have hleaderSlot : U3vStream.slot layout .leader = (layout.leaderSize, .payload 0) := by
    unfold U3vStream.slot
    dsimp only
    rw [if_neg hregular.capacity_pos.ne']
  have hchecked := hregular.capacityChecked_eq.2
  exact
    { payload_le := by omega
      capacity_lt := by omega
      aligned := by
        rw [← hlayout]
        simp only [planned, List.forall_mem_cons, List.not_mem_nil, false_imp_iff, implies_true,
          and_true, dvd_zero]
        exact ⟨hleaderDvd, htrailerDvd, hdvd, dvd_roundUp _ _⟩
      within := by
        rw [← hlayout]
        simp only [planned, List.forall_mem_cons, List.not_mem_nil, false_imp_iff, implies_true,
          and_true, Nat.zero_le]
        exact ⟨hsizeLe, hfinal.trans hsizeLe⟩
      leader_le := by
        rw [← hlayout]
        exact hleader
      trailer_le := by
        rw [← hlayout]
        exact htrailer
      capacity_checked := hchecked
      slot_checked := by
        intro cursor hcursor
        cases cursor with
        | leader =>
          unfold U3vStream.slotChecked
          rw [hchecked]
          rfl
        | payload offset => exact hregular.slotChecked_eq (hcursor offset rfl)
        | trailer =>
          unfold U3vStream.slotChecked
          rw [hchecked]
          rfl
      leader_slot := hleaderSlot
      trailer_slot := rfl
      plan := fun offset hoffset => hregular.planFrom hoffset }

end Planned

/-- Construction overflows nowhere, fails only for an alignment, payload, count
or size that cannot be, and otherwise gives a layout whose plan covers the
payload. -/
theorem new_laws (payloadSize requiredLeaderSize requiredTrailerSize alignment maxTransfer : Nat)
    (hpayload : payloadSize < 2 ^ 64) (hmax : maxTransfer < 2 ^ 32) :
    (∃ layout,
      new payloadSize requiredLeaderSize requiredTrailerSize alignment maxTransfer =
        pure layout ∧
      Laws payloadSize requiredLeaderSize requiredTrailerSize alignment maxTransfer layout) ∨
    ∃ message,
      new payloadSize requiredLeaderSize requiredTrailerSize alignment maxTransfer =
        throw (.device message) ∧
      Refused payloadSize requiredLeaderSize requiredTrailerSize alignment maxTransfer := by
  rcases @new_eq payloadSize requiredLeaderSize requiredTrailerSize alignment maxTransfer hpayload
      hmax with
    ⟨hrefused, message, hnew⟩ | ⟨hnot, hnew⟩
  · exact .inr ⟨message, hnew, hrefused⟩
  · exact .inl ⟨_, hnew, planned_laws hmax hnot⟩

/-- A payload that leaves a remainder. -/
theorem new_laws_example :
    (∃ layout, new 1000 52 32 64 256 = pure layout ∧ Laws 1000 52 32 64 256 layout) ∨
    ∃ message, new 1000 52 32 64 256 = throw (.device message) ∧ Refused 1000 52 32 64 256 :=
  new_laws 1000 52 32 64 256 (by decide) (by decide)

end StreamLayout

end VivaGenicam.U3v
