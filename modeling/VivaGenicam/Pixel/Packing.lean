import VivaGenicam.Pixel.Exact

/-!
Packing: what a camera does to samples before it sends them. Samples below
2^bits come back from their packed bytes, and a run of bytes cut where a packing
group ends is unpacked piece by piece.
-/

namespace VivaGenicam.Pixel

open Library.Checked Library.Bytes

/-- The number whose digits to base 2^bits are the samples, the first least significant. -/
def streamValue (bits : Nat) : List UInt16 → Nat
  | [] => 0
  | sample :: rest => sample.toNat + 2 ^ bits * streamValue bits rest

/-- The first digits of a number to base 2^bits. -/
def streamSamples (bits : Nat) : Nat → Nat → List UInt16
  | 0, _ => []
  | pixels + 1, value =>
    UInt16.ofNat (value % 2 ^ bits) :: streamSamples bits pixels (value / 2 ^ bits)

variable {bits : Nat} {samples : List UInt16}

theorem streamValue_lt (h : ∀ sample ∈ samples, sample.toNat < 2 ^ bits) :
    streamValue bits samples < 2 ^ (bits * samples.length) := by
  induction samples with
  | nil => simp [streamValue]
  | cons sample rest ih =>
    have hsample := h sample (List.mem_cons_self ..)
    have hrest := ih fun other hmem => h other (List.mem_cons_of_mem _ hmem)
    calc
      streamValue bits (sample :: rest) < 2 ^ bits * (streamValue bits rest + 1) := by
          rw [streamValue, Nat.mul_add]
          omega
      _ ≤ 2 ^ bits * 2 ^ (bits * rest.length) := Nat.mul_le_mul_left _ hrest
      _ = 2 ^ (bits * (sample :: rest).length) := by
          rw [← pow_add, List.length_cons]
          ring_nf

theorem streamSamples_streamValue (h : ∀ sample ∈ samples, sample.toNat < 2 ^ bits) :
    streamSamples bits samples.length (streamValue bits samples) = samples := by
  induction samples with
  | nil => rfl
  | cons sample rest ih =>
    have hsample := h sample (List.mem_cons_self ..)
    rw [List.length_cons, streamSamples, streamValue, Nat.add_mul_mod_self_left,
      Nat.mod_eq_of_lt hsample, UInt16.ofNat_toNat, Nat.add_mul_div_left _ _ (by positivity),
      Nat.div_eq_of_lt hsample, Nat.zero_add,
      ih fun other hmem => h other (List.mem_cons_of_mem _ hmem)]

@[simp] theorem length_streamSamples (bits pixels value : Nat) :
    (streamSamples bits pixels value).length = pixels := by
  induction pixels generalizing value with
  | zero => rfl
  | succ pixels ih => rw [streamSamples, List.length_cons, ih]

theorem streamSamples_append (bits : Nat) {first : Nat} (others : Nat) {low : Nat} (high : Nat)
    (hlow : low < 2 ^ (bits * first)) :
    streamSamples bits (first + others) (low + 2 ^ (bits * first) * high) =
      streamSamples bits first low ++ streamSamples bits others high := by
  induction first generalizing low with
  | zero =>
    have hzero : low = 0 := by simpa using hlow
    simp [hzero, streamSamples]
  | succ first ih =>
    have hpow : 2 ^ (bits * (first + 1)) = 2 ^ bits * 2 ^ (bits * first) := by
      rw [← pow_add]
      ring_nf
    have hdiv : low / 2 ^ bits < 2 ^ (bits * first) := by
      rw [Nat.div_lt_iff_lt_mul (by positivity), Nat.mul_comm, ← hpow]
      exact hlow
    rw [Nat.succ_add, streamSamples, streamSamples, hpow, Nat.mul_assoc,
      Nat.add_mul_mod_self_left, Nat.add_mul_div_left _ _ (by positivity), ih hdiv,
      List.cons_append]

theorem toNat_shift {count : Nat} (h : count < 32) : (UInt32.ofNat count).toNat % 32 = count := by
  rw [UInt32.toNat_ofNat']
  omega

theorem fill_value (hbits : bits ≤ 24) (acc : UInt32) (held : Nat)
    (bytes : List UInt8) (hacc : acc.toNat < 2 ^ held) (hheld : held < bits + 8) :
    ∃ word count rest, fill bits acc held bytes = some (word, count, rest) ∧
      bits ≤ count ∧ count < bits + 8 ∧ word.toNat < 2 ^ count ∧
      word.toNat + 2 ^ count * decodeLE rest = acc.toNat + 2 ^ held * decodeLE bytes := by
  induction hmore : bits - held using Nat.strong_induction_on generalizing acc held bytes with
  | _ more ih =>
    rcases Nat.lt_or_ge held bits with hlt | hdone
    · have hbyte := (bytes.headD 0).toNat_lt
      have hshift : ((bytes.headD 0).toUInt32 <<< UInt32.ofNat held).toNat =
          2 ^ held * (bytes.headD 0).toNat := by
        have hsmall : (bytes.headD 0).toNat * 2 ^ held < 2 ^ 32 := by
          calc
            (bytes.headD 0).toNat * 2 ^ held < 2 ^ 8 * 2 ^ held :=
                Nat.mul_lt_mul_of_pos_right hbyte (by positivity)
            _ = 2 ^ (8 + held) := (pow_add ..).symm
            _ ≤ 2 ^ 32 := Nat.pow_le_pow_right (by decide) (by omega)
        rw [UInt32.toNat_shiftLeft, toNat_shift (by omega), Nat.shiftLeft_eq,
          UInt8.toNat_toUInt32, Nat.mod_eq_of_lt hsmall, Nat.mul_comm]
      have hword : (acc ||| (bytes.headD 0).toUInt32 <<< UInt32.ofNat held).toNat =
          2 ^ held * (bytes.headD 0).toNat + acc.toNat := by
        rw [UInt32.toNat_or, hshift, Nat.or_comm, ← Nat.two_pow_add_eq_or_of_lt hacc]
      have hfits : 2 ^ held * (bytes.headD 0).toNat + acc.toNat < 2 ^ (held + 8) := by
        rw [pow_add]
        nlinarith
      obtain ⟨word, count, rest, hfill, hle, hlt, hsmall, hvalue⟩ :=
        ih (bits - (held + 8)) (by omega)
          (acc ||| (bytes.headD 0).toUInt32 <<< UInt32.ofNat held) (held + 8) bytes.tail
          (hword ▸ hfits) (by omega) rfl
      refine ⟨word, count, rest, ?_, hle, hlt, hsmall, ?_⟩
      · rw [fill, if_pos ‹held < bits›, shl32, if_pos (by omega)]
        exact hfill
      · rw [hvalue, hword, decodeLE_headD bytes, pow_add]
        ring
    · exact ⟨acc, held, bytes, by rw [fill, if_neg (by omega)], hdone, hheld, hacc, rfl⟩

theorem lsbSamples_value (hbits : bits ≤ 24) {mask : UInt32}
    (hmask : mask.toNat = 2 ^ bits - 1) (pixels : Nat) (acc : UInt32) (held : Nat)
    (bytes : List UInt8) (hacc : acc.toNat < 2 ^ held) (hheld : held < 8) :
    lsbSamples bits mask pixels acc held bytes =
      some (streamSamples bits pixels (acc.toNat + 2 ^ held * decodeLE bytes)) := by
  induction pixels generalizing acc held bytes with
  | zero => rfl
  | succ pixels ih =>
    obtain ⟨word, count, rest, hfill, hle, hlt, hsmall, hvalue⟩ :=
      fill_value hbits acc held bytes hacc (by omega)
    have hpow : 2 ^ count = 2 ^ bits * 2 ^ (count - bits) := by
      rw [← pow_add]
      congr 1
      omega
    have hshifted : (word >>> UInt32.ofNat bits).toNat = word.toNat / 2 ^ bits := by
      rw [UInt32.toNat_shiftRight, toNat_shift (by omega), Nat.shiftRight_eq_div_pow]
    have hnext := ih (word >>> UInt32.ofNat bits) (count - bits) rest (by
      rw [hshifted, Nat.div_lt_iff_lt_mul (by positivity), Nat.mul_comm, ← hpow]
      exact hsmall) (by omega)
    have hsample : (word &&& mask).toUInt16 = UInt16.ofNat (word.toNat % 2 ^ bits) := by
      apply UInt16.toNat_inj.mp
      rw [UInt32.toNat_toUInt16, UInt32.toNat_and, hmask, Nat.and_two_pow_sub_one_eq_mod,
        UInt16.toNat_ofNat']
    simp only [lsbSamples, hfill, Option.bind_eq_bind, Option.bind_some, shr32,
      if_pos (show bits < 32 by omega), sub_eq hle, hnext, hsample]
    rw [streamSamples, ← hvalue, hpow, Nat.mul_assoc, Nat.add_mul_mod_self_left,
      Nat.add_mul_div_left _ _ (by positivity), hshifted]

theorem littleEndianPairs_append {left : List UInt8} (right : List UInt8)
    (h : 2 ∣ left.length) :
    littleEndianPairs (left ++ right) = littleEndianPairs left ++ littleEndianPairs right := by
  fun_induction littleEndianPairs left with
  | case1 low high rest ih =>
    rw [List.length_cons, List.length_cons] at h
    rw [List.cons_append, List.cons_append, littleEndianPairs, ih (by omega), List.cons_append]
  | case2 left hshort =>
    rcases left with _ | ⟨low, _ | ⟨high, rest⟩⟩
    · rfl
    · simp at h
    · exact absurd rfl (hshort low high rest)

theorem gigeGroups_append (shift mask : UInt16) {left : List UInt8} (right : List UInt8)
    (h : 3 ∣ left.length) :
    gigeGroups shift mask (left ++ right) =
      gigeGroups shift mask left ++ gigeGroups shift mask right := by
  fun_induction gigeGroups shift mask left with
  | case1 msb0 lsb msb1 rest ih =>
    simp only [List.length_cons] at h
    simp only [List.cons_append, gigeGroups, ih (by omega)]
  | case2 msb0 lsb => simp at h
  | case3 left hlong hpair =>
    rcases left with _ | ⟨msb0, _ | ⟨lsb, _ | ⟨msb1, rest⟩⟩⟩
    · rfl
    · simp at h
    · exact absurd rfl (hpair msb0 lsb)
    · exact absurd rfl (hlong msb0 lsb msb1 rest)

theorem length_gigeGroups (shift mask : UInt16) {bytes : List UInt8} (h : 3 ∣ bytes.length) :
    (gigeGroups shift mask bytes).length = bytes.length / 3 * 2 := by
  fun_induction gigeGroups shift mask bytes with
  | case1 msb0 lsb msb1 rest ih =>
    simp only [List.length_cons] at h ⊢
    rw [ih (by omega)]
    omega
  | case2 msb0 lsb => simp at h
  | case3 bytes hlong hpair =>
    match bytes with
    | [] => rfl
    | [_] => simp at h
    | [msb0, lsb] => exact absurd rfl (hpair msb0 lsb)
    | msb0 :: lsb :: msb1 :: rest => exact absurd rfl (hlong msb0 lsb msb1 rest)

/-- GigE Vision's two pixels in three bytes: the high bits of each in a byte of its own,
the low bits of both between them. A last pixel alone is completed with zeros. -/
def packGroups (shift : Nat) : List UInt16 → List UInt8
  | [] => []
  | [only] =>
    [UInt8.ofNat (only.toNat / 2 ^ shift), UInt8.ofNat (only.toNat % 2 ^ shift), 0]
  | first :: second :: rest =>
    UInt8.ofNat (first.toNat / 2 ^ shift) ::
      UInt8.ofNat (first.toNat % 2 ^ shift + 16 * (second.toNat % 2 ^ shift)) ::
      UInt8.ofNat (second.toNat / 2 ^ shift) :: packGroups shift rest

theorem length_packGroups (shift : Nat) (samples : List UInt16) :
    (packGroups shift samples).length = (samples.length + 1) / 2 * 3 := by
  fun_induction packGroups shift samples with
  | case1 => rfl
  | case2 only => simp
  | case3 first second rest ih =>
    simp only [List.length_cons, ih]
    omega

theorem gigeSample {shift : Nat} (hshift : shift ≤ 4) {sample : UInt16}
    (hsample : sample.toNat < 2 ^ (8 + shift)) {low : UInt16}
    (hlow : low.toNat % 2 ^ shift = sample.toNat % 2 ^ shift) :
    ((UInt8.ofNat (sample.toNat / 2 ^ shift)).toUInt16 <<< UInt16.ofNat shift) |||
      (low &&& ((1 <<< UInt16.ofNat shift) - 1)) = sample := by
  have hmask : ((1 <<< UInt16.ofNat shift) - 1 : UInt16).toNat = 2 ^ shift - 1 := by
    interval_cases shift <;> rfl
  have hhigh : sample.toNat / 2 ^ shift < 256 := by
    rw [Nat.div_lt_iff_lt_mul (by positivity), show 256 = 2 ^ 8 from rfl, ← pow_add]
    exact hsample
  have hsplit := Nat.div_add_mod sample.toNat (2 ^ shift)
  have hshifted : ((UInt8.ofNat (sample.toNat / 2 ^ shift)).toUInt16 <<<
      UInt16.ofNat shift).toNat = 2 ^ shift * (sample.toNat / 2 ^ shift) := by
    have hcount : (UInt16.ofNat shift).toNat % 16 = shift := by
      rw [UInt16.toNat_ofNat']
      omega
    have := sample.toNat_lt
    rw [UInt16.toNat_shiftLeft, hcount, Nat.shiftLeft_eq, UInt8.toNat_toUInt16,
      UInt8.toNat_ofNat', Nat.mod_eq_of_lt hhigh, Nat.mul_comm, Nat.mod_eq_of_lt (by omega)]
  apply UInt16.toNat_inj.mp
  rw [UInt16.toNat_or, hshifted, UInt16.toNat_and, hmask, Nat.and_two_pow_sub_one_eq_mod, hlow,
    ← Nat.two_pow_add_eq_or_of_lt (Nat.mod_lt _ (by positivity)), hsplit]

theorem gigeGroups_packGroups {shift : Nat} (hshift : shift ≤ 4) {samples : List UInt16}
    (h : ∀ sample ∈ samples, sample.toNat < 2 ^ (8 + shift)) :
    (gigeGroups (UInt16.ofNat shift) ((1 <<< UInt16.ofNat shift) - 1)
      (packGroups shift samples)).take samples.length = samples := by
  have hpow : 2 ^ shift ≤ 16 := Nat.pow_le_pow_right (by decide) hshift
  fun_induction packGroups shift samples with
  | case1 => rfl
  | case2 only =>
    have honly := @gigeSample _ hshift _ (h only (List.mem_cons_self ..))
      (UInt8.ofNat (only.toNat % 2 ^ shift)).toUInt16 (by
        have := Nat.mod_lt only.toNat (show 0 < 2 ^ shift by positivity)
        have hbyte : only.toNat % 2 ^ shift < 2 ^ 8 := by omega
        rw [UInt8.toNat_toUInt16, UInt8.toNat_ofNat', Nat.mod_eq_of_lt hbyte, Nat.mod_mod])
    simp only [gigeGroups, honly, List.length_cons, List.length_nil, List.take_succ_cons,
      List.take_zero]
  | case3 first second rest ih =>
    have hfirst := Nat.mod_lt first.toNat (show 0 < 2 ^ shift by positivity)
    have hsecond := Nat.mod_lt second.toNat (show 0 < 2 ^ shift by positivity)
    have hbyte : (UInt8.ofNat (first.toNat % 2 ^ shift +
        16 * (second.toNat % 2 ^ shift))).toUInt16.toNat =
          first.toNat % 2 ^ shift + 16 * (second.toNat % 2 ^ shift) := by
      rw [UInt8.toNat_toUInt16, UInt8.toNat_ofNat', Nat.mod_eq_of_lt (by omega)]
    have hlow := @gigeSample _ hshift _ (h first (List.mem_cons_self ..)) _ (by
      obtain ⟨factor, hfactor⟩ : 2 ^ shift ∣ 2 ^ 4 := pow_dvd_pow 2 hshift
      rw [hbyte, show (16 : Nat) = 2 ^ 4 from rfl, hfactor, Nat.mul_assoc,
        Nat.add_mul_mod_self_left, Nat.mod_mod])
    have hhigh := @gigeSample _ hshift _ (h second (by simp))
      ((UInt8.ofNat (first.toNat % 2 ^ shift +
        16 * (second.toNat % 2 ^ shift))).toUInt16 >>> 4) (by
      have hnibble : (first.toNat % 2 ^ shift + 16 * (second.toNat % 2 ^ shift)) / 16 =
          second.toNat % 2 ^ shift := by omega
      rw [UInt16.toNat_shiftRight, hbyte, Nat.shiftRight_eq_div_pow]
      change (first.toNat % 2 ^ shift + 16 * (second.toNat % 2 ^ shift)) / 16 % 2 ^ shift = _
      rw [hnibble, Nat.mod_mod])
    simp only [gigeGroups, hlow, hhigh, List.length_cons, List.take_succ_cons,
      ih fun other hmem => h other (by simp [hmem])]

/-- The bytes of `pixels` pixels, the last packing group completed. -/
def Single.completed (single : Single) (pixels : Nat) : Nat :=
  (pixels + single.group.1 - 1) / single.group.1 * single.group.2

/-- The bytes of a run of samples, its last packing group completed with zeros. -/
def Single.pack (single : Single) (samples : List UInt16) : List UInt8 :=
  match single.packing with
  | .unpacked =>
    if single.is8Bit then samples.map UInt16.toUInt8
    else samples.flatMap fun sample => encodeLE 2 sample.toNat
  | .lsb => encodeLE (single.completed samples.length) (streamValue single.bits samples)
  | .gige => packGroups (single.bits - 8) samples

def Single.Fit (single : Single) (samples : List UInt16) : Prop :=
  ∀ sample ∈ samples, sample.toNat < 2 ^ single.bits

theorem littleEndianPairs_flatMap (samples : List UInt16) :
    littleEndianPairs (samples.flatMap fun sample => encodeLE 2 sample.toNat) = samples := by
  induction samples with
  | nil => rfl
  | cons sample rest ih =>
    have hsample : (UInt8.ofNat sample.toNat).toUInt16 |||
        ((UInt8.ofNat (sample.toNat / 256)).toUInt16 <<< 8) = sample := by
      have hlt := sample.toNat_lt
      apply UInt16.toNat_inj.mp
      rw [UInt16.toNat_or, UInt16.toNat_shiftLeft, UInt8.toNat_toUInt16, UInt8.toNat_toUInt16,
        UInt8.toNat_ofNat', UInt8.toNat_ofNat', Nat.shiftLeft_eq]
      change sample.toNat % 2 ^ 8 ||| sample.toNat / 256 % 2 ^ 8 * 2 ^ 8 % 2 ^ 16 = _
      rw [Nat.mod_eq_of_lt (show sample.toNat / 256 % 2 ^ 8 * 2 ^ 8 < 2 ^ 16 by omega),
        Nat.or_comm, Nat.mul_comm, ← Nat.two_pow_add_eq_or_of_lt (Nat.mod_lt _ (by decide))]
      omega
    rw [List.flatMap_cons]
    change littleEndianPairs (UInt8.ofNat sample.toNat :: UInt8.ofNat (sample.toNat / 256) ::
      rest.flatMap fun sample => encodeLE 2 sample.toNat) = _
    rw [littleEndianPairs, hsample, ih]

theorem map_toUInt8 (h : ∀ sample ∈ samples, sample.toNat < 2 ^ 8) :
    (samples.map UInt16.toUInt8).map UInt8.toUInt16 = samples := by
  rw [List.map_map]
  conv_rhs => rw [← List.map_id samples]
  refine List.map_congr_left fun sample hmem => ?_
  apply UInt16.toNat_inj.mp
  rw [Function.comp, UInt8.toNat_toUInt16, UInt16.toNat_toUInt8]
  exact Nat.mod_eq_of_lt (h sample hmem)

variable {single : Single}

theorem Single.length_pack (samples : List UInt16) :
    (single.pack samples).length = single.completed samples.length := by
  cases hpacking : single.packing with
  | unpacked =>
    unfold Single.pack Single.completed Single.group
    simp only [hpacking]
    split
    · simp
    · simp
  | lsb =>
    simp only [Single.pack, hpacking, length_encodeLE]
  | gige =>
    unfold Single.pack Single.completed Single.group
    simp only [hpacking, length_packGroups]
    omega

theorem Single.streamBits_le (hvalid : single.Valid) (hlsb : single.packing = .lsb) (pixels : Nat) :
    single.bits * pixels ≤ 8 * single.completed pixels ∧
      (single.group.1 ∣ pixels → single.bits * pixels = 8 * single.completed pixels) := by
  unfold Single.completed Single.group
  rw [hlsb]
  rcases hvalid.packed (by simp [hlsb]) with hbits | hbits
  · simp only [hbits, if_true]
    omega
  · simp only [hbits, Nat.reduceEqDiff, if_false]
    omega

theorem unpackAppend_lsb (hvalid : single.Valid) (hlsb : single.packing = .lsb)
    (pixels : Nat) (src : List UInt8) :
    unpackAppend single pixels src =
      .ok (streamSamples single.bits pixels (decodeLE src)) := by
  have hbits : single.bits = 10 ∨ single.bits = 12 := hvalid.packed (by simp [hlsb])
  have hmask : ((1 <<< UInt32.ofNat single.bits) - 1 : UInt32).toNat = 2 ^ single.bits - 1 := by
    rcases hbits with hbits | hbits
    · rw [hbits]; rfl
    · rw [hbits]; rfl
  have hsamples := lsbSamples_value (by omega) hmask pixels 0 0 src (by decide) (by decide)
  rw [show (0 : UInt32).toNat + 2 ^ 0 * decodeLE src = decodeLE src by simp] at hsamples
  simp only [unpackAppend, hlsb, shl32, if_pos (show single.bits < 32 by omega), orPanic_some,
    ok_bind, hsamples]

theorem unpackAppend_pack {single : Single} (hvalid : single.Valid) {samples : List UInt16}
    (h : single.Fit samples) :
    unpackAppend single samples.length (single.pack samples) = .ok samples := by
  cases hpacking : single.packing with
  | unpacked =>
    unfold unpackAppend Single.pack
    simp only [hpacking]
    split
    · rename_i h8
      have hbits : single.bits = 8 := by simpa [Single.is8Bit] using h8
      rw [slice_eq (by simp), List.drop_zero, orPanic_some, ok_bind,
        List.take_of_length_le (by simp), map_toUInt8 (by rw [← hbits]; exact h)]
    · rw [littleEndianPairs_flatMap, slice_eq (by simp), List.drop_zero, orPanic_some,
        List.take_of_length_le le_rfl]
  | lsb =>
    have hlt : streamValue single.bits samples < 256 ^ single.completed samples.length := by
      refine (streamValue_lt h).trans_le ?_
      rw [show 256 = 2 ^ 8 from rfl, ← pow_mul]
      exact Nat.pow_le_pow_right (by decide) (single.streamBits_le hvalid hpacking _).1
    rw [unpackAppend_lsb hvalid hpacking]
    simp only [Single.pack, hpacking]
    rw [decodeLE_encodeLE, Nat.mod_eq_of_lt hlt, streamSamples_streamValue h]
  | gige =>
    have hbits : single.bits = 10 ∨ single.bits = 12 := hvalid.packed (by simp [hpacking])
    have hgroups := @gigeGroups_packGroups (single.bits - 8) (by omega) samples (by
      rw [show 8 + (single.bits - 8) = single.bits by omega]
      exact h)
    simp only [unpackAppend, Single.pack, hpacking, sub_eq hvalid.low, orPanic_some, ok_bind,
      hgroups]

theorem unpackAppend_append {single : Single} (hvalid : single.Valid) {pixels : Nat}
    (others : Nat) {left right : List UInt8} (hwhole : single.group.1 ∣ pixels)
    (hleft : left.length = single.completed pixels)
    (hright : single.runBytes others ≤ right.length) :
    ∃ first rest, unpackAppend single pixels left = .ok first ∧
      unpackAppend single others right = .ok rest ∧
      unpackAppend single (pixels + others) (left ++ right) = .ok (first ++ rest) := by
  cases hpacking : single.packing with
  | unpacked =>
    unfold Single.completed Single.group at hleft
    unfold Single.runBytes at hright
    rw [hpacking] at hleft hright
    unfold unpackAppend
    simp only [hpacking]
    split
    · rename_i h8
      simp only [h8, if_true] at hleft hright
      refine ⟨left.map UInt8.toUInt16, (right.take others).map UInt8.toUInt16, ?_, ?_, ?_⟩
      · rw [slice_eq (by omega), List.drop_zero, orPanic_some, ok_bind,
          List.take_of_length_le (by omega)]
      · rw [slice_eq (by omega), List.drop_zero, orPanic_some, ok_bind]
      · rw [slice_eq (by simp; omega), List.drop_zero, orPanic_some, ok_bind, List.take_append,
          List.take_of_length_le (by omega), List.map_append,
          show pixels + others - left.length = others by omega]
    · rename_i h8
      simp only [Bool.not_eq_true] at h8
      simp only [h8, Bool.false_eq_true, if_false] at hleft hright
      have hpairs := length_littleEndianPairs left
      have hothers := length_littleEndianPairs right
      refine ⟨littleEndianPairs left, (littleEndianPairs right).take others, ?_, ?_, ?_⟩
      · rw [slice_eq (by omega), List.drop_zero, orPanic_some,
          List.take_of_length_le (by omega)]
      · rw [slice_eq (by omega), List.drop_zero, orPanic_some]
      · rw [littleEndianPairs_append right (by omega), slice_eq (by simp; omega), List.drop_zero,
          orPanic_some, List.take_append, List.take_of_length_le (by omega),
          show pixels + others - (littleEndianPairs left).length = others by omega]
  | lsb =>
    refine ⟨_, _, unpackAppend_lsb hvalid hpacking .., unpackAppend_lsb hvalid hpacking .., ?_⟩
    have hpow : 256 ^ left.length = 2 ^ (single.bits * pixels) := by
      rw [show 256 = 2 ^ 8 from rfl, ← pow_mul, hleft,
        (single.streamBits_le hvalid hpacking pixels).2 hwhole]
    have hlow : decodeLE left < 2 ^ (single.bits * pixels) := hpow ▸ decodeLE_lt left
    rw [unpackAppend_lsb hvalid hpacking, decodeLE_append, hpow,
      streamSamples_append _ _ _ hlow]
  | gige =>
    unfold Single.completed Single.group at hleft
    unfold Single.group at hwhole
    rw [hpacking] at hleft hwhole
    dsimp only at hleft hwhole
    set groups := gigeGroups (UInt16.ofNat (single.bits - 8))
      ((1 <<< UInt16.ofNat (single.bits - 8)) - 1) with hgroups
    have hlength : (groups left).length = pixels := by
      rw [hgroups, length_gigeGroups _ _ (by omega)]
      omega
    have hcut : (groups (left ++ right)).take (pixels + others) =
        groups left ++ (groups right).take others := by
      rw [hgroups, gigeGroups_append _ _ _ (by omega), ← hgroups, List.take_append, hlength,
        List.take_of_length_le (by omega), show pixels + others - pixels = others by omega]
    refine ⟨groups left, (groups right).take others, ?_, ?_, ?_⟩
    · simp only [unpackAppend, hpacking, sub_eq hvalid.low, orPanic_some, ok_bind, ← hgroups]
      rw [List.take_of_length_le (by omega)]
    · simp only [unpackAppend, hpacking, sub_eq hvalid.low, orPanic_some, ok_bind, ← hgroups]
    · simp only [unpackAppend, hpacking, sub_eq hvalid.low, orPanic_some, ok_bind, ← hgroups]
      rw [hcut]

end VivaGenicam.Pixel
