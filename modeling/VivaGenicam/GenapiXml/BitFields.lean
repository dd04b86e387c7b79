import VivaGenicam.GenapiXml.Reading
import VivaGenicam.Genapi.BitOps

/-!
The bits a document declares and the bits the field built from them selects.
`LSB`, `MSB` and `Bit` count from the most significant bit of a big-endian
register and from the least significant bit of a little-endian one; a `Mask` is
a value of the register.
-/

namespace VivaGenicam.GenapiXml

open Library.FoldM Library.Bits Genapi

inductive BitDecl where
  | range (lsb msb : Nat)
  | bit (index : Nat)
  | mask (value : Nat)
deriving DecidableEq, Repr

variable {decl : BitDecl}

namespace BitDecl

/-- The bits as the document numbers them, lowest first. -/
def indices : BitDecl → List Nat
  | .range lsb msb => List.range' (min lsb msb) (max lsb msb - min lsb msb + 1)
  | .bit index => [index]
  | .mask value => (List.range 64).filter (value.testBit ·)

/-- The bits as the register's value has them, lowest first. -/
def positions (order : ByteOrder) (total : Nat) (decl : BitDecl) : List Nat :=
  match order, decl with
  | .big, .range _ _ | .big, .bit _ => (decl.indices.map (total - 1 - ·)).reverse
  | _, _ => decl.indices

/-- Between 1 and 64 bits, all inside a register of `total` bits. -/
def Fits (total : Nat) (decl : BitDecl) : Prop :=
  1 ≤ decl.indices.length ∧ decl.indices.length ≤ 64 ∧ ∀ k ∈ decl.indices, k < total

/-- No gap between the bits: any `LSB` and `MSB`, any `Bit`, and some masks. -/
def Consecutive (decl : BitDecl) : Prop :=
  ∃ low count, decl.indices = List.range' low count

/-- The lowest index and the number of bits, as the builder computes them. -/
def span : BitDecl → Nat × Nat
  | .range lsb msb => (min lsb msb, max lsb msb - min lsb msb + 1)
  | .bit index => (index, 1)
  | .mask value => (trailingZeros value, countOnes value)

def source : BitDecl → BitfieldSource
  | .range _ _ => .lsbMsb
  | .bit _ => .bitLength
  | .mask _ => .mask

/-- The field of a declaration on a register of `total` bits. -/
def field (order : ByteOrder) (total : Nat) (decl : BitDecl) : BitField where
  bitOffset := BitfieldBuilder.offset order decl.source total decl.span.1 decl.span.2
  bitLength := decl.span.2
  byteOrder := order

/-- A register's bits are counted in 32 bits and a field's offset in 16. -/
def WithinWidths (order : ByteOrder) (total : Nat) (decl : BitDecl) : Prop :=
  total < 2 ^ 32 ∧ decl.span.1 < 2 ^ 16 ∧ (decl.field order total).bitOffset < 2 ^ 16

theorem consecutive_range (lsb msb : Nat) : (range lsb msb).Consecutive := ⟨_, _, rfl⟩

theorem consecutive_bit (index : Nat) : (bit index).Consecutive := ⟨index, 1, rfl⟩

theorem indices_eq (h : decl.Consecutive) :
    decl.indices = List.range' decl.span.1 decl.span.2 := by
  cases decl with
  | range lsb msb => rfl
  | bit index => rfl
  | mask value =>
    obtain ⟨low, count, hindices⟩ := h
    have hcount : countOnes value = count := by
      have hlength := congrArg List.length hindices
      rw [List.length_range'] at hlength
      exact hlength
    have hfirst : (List.range 64).find? (fun k => value.testBit k) =
        (List.range' low count).head? := by
      rw [← List.head?_filter]
      exact congrArg List.head? hindices
    simp only [span, hcount, trailingZeros, hfirst]
    rw [hindices]
    cases count with
    | zero => rfl
    | succ count => simp [List.range'_succ]

theorem fits_iff (h : decl.Consecutive) (total : Nat) :
    decl.Fits total ↔ 1 ≤ decl.span.2 ∧ decl.span.2 ≤ 64 ∧ decl.span.1 + decl.span.2 ≤ total := by
  unfold Fits
  rw [indices_eq h, List.length_range']
  constructor
  · rintro ⟨hpos, hwidth, hinside⟩
    have hlast := hinside (decl.span.1 + (decl.span.2 - 1))
      (List.mem_range'_1.mpr ⟨by omega, by omega⟩)
    exact ⟨hpos, hwidth, by omega⟩
  · rintro ⟨hpos, hwidth, hinside⟩
    refine ⟨hpos, hwidth, fun k hk => ?_⟩
    have hbound := (List.mem_range'_1.mp hk).2
    omega

end BitDecl

variable (node : Text)

theorem place_ok_iff (order : ByteOrder) (decl : BitDecl) (total : Nat) {bf : BitField} :
    BitfieldBuilder.place node order decl.source total decl.span.1 decl.span.2 = .ok bf ↔
      1 ≤ decl.span.2 ∧ decl.span.2 ≤ 64 ∧ decl.span.1 + decl.span.2 ≤ total ∧
        decl.span.1 < 2 ^ 16 ∧ (decl.field order total).bitOffset < 2 ^ 16 ∧
        bf = decl.field order total := by
  unfold BitfieldBuilder.place
  split
  · simp only [reduceCtorEq, false_iff]
    omega
  · split
    · simp only [reduceCtorEq, false_iff]
      omega
    · split
      · simp only [reduceCtorEq, false_iff]
        omega
      · split
        · simp only [reduceCtorEq, false_iff]
          omega
        · dsimp only
          split
          · rename_i hlt
            constructor
            · intro h
              cases h
              exact ⟨by omega, by omega, by omega, by omega, hlt, rfl⟩
            · rintro ⟨-, -, -, -, -, rfl⟩
              rfl
          · rename_i hge
            simp only [reduceCtorEq, false_iff]
            exact fun h => hge h.2.2.2.2.1

/-- What the elements of a declaration leave in the builder. -/
def BitDecl.builder (order : Option ByteOrder) : BitDecl → BitfieldBuilder
  | .range lsb msb =>
    { lsb := some lsb, msb := some msb, byteOrder := order, source := some .lsbMsb }
  | .bit index => { bit := some index, byteOrder := order, source := some .bitLength }
  | .mask value => { mask := some value, byteOrder := order, source := some .mask }

theorem builder_range (order : Option ByteOrder) (decl : BitDecl) {span : Nat × Nat}
    (h : (decl.builder order).range node decl.source = .ok span) : span = decl.span := by
  cases decl with
  | range lsb msb =>
    simp only [BitDecl.builder, BitDecl.source, BitfieldBuilder.range] at h
    split at h
    · cases h
      rfl
    · cases h
  | bit index =>
    cases h
    rfl
  | mask value =>
    simp only [BitDecl.builder, BitDecl.source, BitfieldBuilder.range] at h
    split at h
    · cases h
    · cases h
      rfl

theorem builder_range_ok (order : Option ByteOrder) (decl : BitDecl)
    (hpos : 1 ≤ decl.span.2) (hwidth : decl.span.2 ≤ 64) :
    (decl.builder order).range node decl.source = .ok decl.span := by
  cases decl with
  | range lsb msb =>
    simp only [BitDecl.span] at hwidth
    simp only [BitDecl.builder, BitDecl.source, BitfieldBuilder.range, BitDecl.span]
    rw [if_pos (by omega)]
  | bit index => rfl
  | mask value =>
    have hne : value ≠ 0 := by
      rintro rfl
      simp [BitDecl.span, countOnes] at hpos
    simp only [BitDecl.builder, BitDecl.source, BitfieldBuilder.range, BitDecl.span, hne, if_false]

theorem builder_finish (order : Option ByteOrder) (decl : BitDecl) (len : Nat) :
    (decl.builder order).finish node len =
      if len = 0 then .error (.invalid node "declares a zero-length register")
      else if 2 ^ 32 ≤ len * 8 then
        .error (.invalid node "declares a register too long to address")
      else
        (decl.builder order).range node decl.source >>= fun span =>
          (BitfieldBuilder.place node (order.getD .little) decl.source (len * 8)
            span.1 span.2).map some := by
  cases decl with
  | range lsb msb =>
    simp only [BitfieldBuilder.finish, BitDecl.builder, BitDecl.source]
    split
    · rfl
    · split
      · rfl
      · split
        · rename_i heq
          simp only [heq]
          rfl
        · rename_i heq
          simp only [heq]
          rfl
  | bit index => rfl
  | mask value =>
    simp only [BitfieldBuilder.finish, BitDecl.builder, BitDecl.source]
    split
    · rfl
    · split
      · rfl
      · split
        · rename_i heq
          simp only [heq]
          rfl
        · rename_i heq
          simp only [heq]
          rfl

/-- A declaration is placed exactly when its bits fit the register and the
widths the builder counts in, and then as the field that names them. -/
theorem finish_ok_iff (order : Option ByteOrder) (len : Nat)
    (hconsecutive : decl.Consecutive) {bf : Option BitField} :
    (decl.builder order).finish node len = .ok bf ↔
      decl.Fits (len * 8) ∧ decl.WithinWidths (order.getD .little) (len * 8) ∧
        bf = some (decl.field (order.getD .little) (len * 8)) := by
  rw [BitDecl.fits_iff hconsecutive, builder_finish]
  unfold BitDecl.WithinWidths
  constructor
  · intro h
    split at h
    · cases h
    · split at h
      · cases h
      · obtain ⟨span, hspan, h⟩ := bind_eq_ok.mp h
        obtain ⟨field, hfield, rfl⟩ := map_eq_ok.mp h
        rw [builder_range node order decl hspan] at hfield
        obtain ⟨hpos, hwidth, hinside, hlow, hoffset, rfl⟩ := (place_ok_iff ..).mp hfield
        exact ⟨⟨hpos, hwidth, hinside⟩, ⟨by omega, hlow, hoffset⟩, rfl⟩
  · rintro ⟨⟨hpos, hwidth, hinside⟩, ⟨hbits, hlow, hoffset⟩, rfl⟩
    rw [if_neg (by omega), if_neg (by omega), builder_range_ok node order decl hpos hwidth]
    change Except.map some _ = _
    rw [(place_ok_iff node (order.getD .little) decl (len * 8)).mpr
      ⟨hpos, hwidth, hinside, hlow, hoffset, rfl⟩]
    rfl

theorem extract_field {order : ByteOrder} {bytes : List UInt8}
    (hconsecutive : decl.Consecutive) (hfits : decl.Fits (bytes.length * 8))
    (hbytes : bytes.length ≤ 8) :
    extract bytes (decl.field order (bytes.length * 8)) =
      .ok (pick (registerValue order bytes) (decl.positions order (bytes.length * 8))) := by
  have hpositions : decl.positions order (bytes.length * 8) =
      List.range' (fieldShift bytes (decl.field order (bytes.length * 8))) decl.span.2 := by
    obtain ⟨hpos, hwidth, hinside⟩ := (BitDecl.fits_iff hconsecutive _).mp hfits
    cases order with
    | little =>
      have hplain : decl.positions .little (bytes.length * 8) = decl.indices := by
        cases decl <;> rfl
      rw [hplain, BitDecl.indices_eq hconsecutive]
      rfl
    | big =>
      cases decl with
      | mask value =>
        change (BitDecl.mask value).indices = _
        rw [BitDecl.indices_eq hconsecutive]
        congr 1
        simp only [fieldShift, BitDecl.field, BitDecl.source, BitfieldBuilder.offset]
        omega
      | range lsb msb =>
        change ((BitDecl.range lsb msb).indices.map _).reverse = _
        rw [BitDecl.indices_eq hconsecutive, reverse_map_range' hinside]
        rfl
      | bit index =>
        change ((BitDecl.bit index).indices.map _).reverse = _
        rw [BitDecl.indices_eq hconsecutive, reverse_map_range' hinside]
        rfl
  rw [hpositions]
  obtain ⟨hpos, hwidth, hinside⟩ := (BitDecl.fits_iff hconsecutive _).mp hfits
  apply extract_eq_pick hbytes hpos hwidth
  cases order with
  | little => exact hinside
  | big =>
    cases decl with
    | mask value =>
      simp only [BitDecl.field, BitDecl.source, BitfieldBuilder.offset]
      omega
    | range lsb msb => exact hinside
    | bit index => exact hinside

end VivaGenicam.GenapiXml
