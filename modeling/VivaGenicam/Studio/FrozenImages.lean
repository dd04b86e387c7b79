import VivaGenicam.Studio.ImageFiles
import VivaGenicam.Studio.NativeFrame

/-!
What is accepted of a capture is an image, and the readers of a frozen frame measure it.
-/

namespace VivaGenicam.Studio

open Library.Bytes Library.Tally

variable {μ : Type}

/-- Where an accepted capture has its parts. -/
structure Accepts (readHeader : List UInt8 → Except String (CaptureHeader μ))
    (bytes : List UInt8) (header : CaptureHeader μ) (h : CaptureFields) (frame : NativeFrame μ) :
    Prop where
  read : readHeader ((bytes.drop 8).take (fieldLE bytes 4 4)) = .ok header
  fields : header.fields = some h
  width : frame.width = h.width
  height : frame.height = h.height
  bits : frame.bits = h.bits
  channels : frame.channels = h.channels
  mosaic : frame.mosaic = h.mosaic
  length : 8 + fieldLE bytes 4 4 + h.bmpBytes + h.expected + h.pngBytes = bytes.length
  samples : frame.samples = captureSamples
    (bytes.drop (8 + fieldLE bytes 4 4 + h.bmpBytes)) h.bits (h.width * h.height * h.channels)

variable {readHeader : List UInt8 → Except String (CaptureHeader μ)} {bytes : List UInt8}

theorem exists_accepts {frame : NativeFrame μ}
    (hparse : parseNativeFrame readHeader bytes = .ok frame) :
    ∃ header h, Accepts readHeader bytes header h frame := by
  unfold parseNativeFrame at hparse
  split at hparse
  · cases hparse
  · split at hparse
    · cases hparse
    · dsimp only at hparse
      split at hparse
      · cases hparse
      · cases hheader : readHeader ((bytes.drop 8).take (fieldLE bytes 4 4)) with
        | error error =>
          rw [hheader] at hparse
          cases hparse
        | ok header =>
          rw [hheader] at hparse
          dsimp only at hparse
          cases hfields : header.fields with
          | none =>
            rw [hfields] at hparse
            cases hparse
          | some h =>
            rw [hfields] at hparse
            dsimp only at hparse
            split at hparse
            · cases hparse
            · rename_i hlength
              split at hparse
              · cases hparse
              · split at hparse
                · cases hparse
                · split at hparse
                  · cases hparse
                  · refine ⟨header, h, ?_⟩
                    cases hmetadata : header.metadata.elim (.ok none) (·.map some) with
                    | error error =>
                      rw [hmetadata] at hparse
                      cases hparse
                    | ok metadata =>
                      rw [hmetadata] at hparse
                      cases hparse
                      rw [not_or, not_not, not_not] at hlength
                      exact ⟨hheader, hfields, rfl, rfl, rfl, rfl, rfl, hlength.2, rfl⟩

theorem integer_pos {value : HeaderValue} {n : Nat} (h : integer value = some n) : 0 < n := by
  unfold integer at h
  split at h
  · split at h
    · rename_i hvalue
      cases h
      have hpos := Rat.num_pos.mpr hvalue.2.1
      omega
    · cases h
  · cases h

/-- What the check of a header promises. -/
structure Supported (h : CaptureFields) : Prop where
  wide : 0 < h.width
  tall : 0 < h.height
  few : h.width * h.height ≤ maxPixels
  channels : h.channels = 1 ∨ h.channels = 3
  bits : 8 ≤ h.bits ∧ h.bits ≤ 16

theorem supported_of_fields {header : CaptureHeader μ} {h : CaptureFields}
    (hfields : header.fields = some h) : Supported h := by
  unfold CaptureHeader.fields at hfields
  simp only [Option.bind_eq_bind, Option.bind_eq_some_iff] at hfields
  obtain ⟨width, hwidth, height, hheight, bits, -, channels, hchannels, mosaic, -, pixelFormat, -,
    bmpBytes, -, sampleBytes, -, pngBytes, -, hfields⟩ := hfields
  split at hfields
  · rename_i hsupported
    cases hfields
    refine ⟨integer_pos hwidth, integer_pos hheight, hsupported.2.1, ?_, hsupported.2.2⟩
    unfold channelCount at hchannels
    split at hchannels
    · split at hchannels
      · cases hchannels
        exact .inl rfl
      · split at hchannels
        · cases hchannels
          exact .inr rfl
        · cases hchannels
    · cases hchannels
  · cases hfields

variable {count : Nat}

theorem length_captureSamples {bits : Nat}
    (h : count * (if bits > 8 then 2 else 1) ≤ bytes.length) :
    (captureSamples bytes bits count).length = count := by
  unfold captureSamples
  split
  · simp
  · rename_i hbits
    rw [if_neg hbits] at h
    rw [List.length_map, List.length_take]
    omega

theorem map_places (w h : Nat) :
    (places w h).map (fun place => place.2 * w + place.1) = List.range (w * h) := by
  induction h with
  | zero => rfl
  | succ h ih =>
    have hplaces : places w (h + 1) = places w h ++ (List.range w).map fun x => (x, h) := by
      rw [places, List.range_succ, List.flatMap_append, List.flatMap_singleton]
      rfl
    rw [hplaces, List.map_append, ih, Nat.mul_succ, List.range_add, List.map_map, Nat.mul_comm w]
    rfl

/-- The samples of one of `channels` interleaved channels. -/
def interleaved (samples : List Nat) (channels count c : Nat) : List Nat :=
  (List.range count).map fun i => samples.getD (i * channels + c) 0

theorem Image.channel_eq (image : Image) (c : Nat) :
    image.channel c = interleaved image.samples image.channels (image.width * image.height) c := by
  rw [Image.channel, interleaved, ← map_places, List.map_map]
  rfl

theorem interleaved_one {samples : List Nat} (hlength : samples.length = count) :
    interleaved samples 1 count 0 = samples := by
  apply List.ext_getElem?
  intro i
  rw [interleaved, List.getElem?_map]
  rcases Nat.lt_or_ge i count with hi | hi
  · rw [List.getElem?_range hi, List.getElem?_eq_getElem (by omega)]
    simp [List.getD_eq_getElem?_getD, hlength, hi]
  · rw [List.getElem?_eq_none (by simpa using hi), List.getElem?_eq_none (by omega)]
    rfl

theorem interleaved_cons (r g b : Nat) (samples : List Nat) (count c : Nat) (hc : c < 3) :
    interleaved (r :: g :: b :: samples) 3 (count + 1) c =
      [r, g, b].getD c 0 :: interleaved samples 3 count c := by
  rw [interleaved, List.range_succ_eq_map, List.map_cons, List.map_map]
  congr 1
  · interval_cases c <;> rfl
  · apply List.map_congr_left
    intro i _
    simp only [Function.comp_apply, Nat.succ_eq_add_one]
    rw [show (i + 1) * 3 + c = i * 3 + c + 3 by ring]
    rfl

theorem foldl_countSample_one (samples : List Nat) (start : Nat) (bins : List Nat) :
    (samples.zipIdx start).foldl
        (fun channels sample => channels.modify (sample.2 % 1) fun bins => bump bins sample.1) [bins] =
      [samples.foldl bump bins] := by
  induction samples generalizing start bins with
  | nil => rfl
  | cons sample samples ih =>
    rw [List.zipIdx_cons, List.foldl_cons, Nat.mod_one]
    exact ih (start + 1) (bump bins sample)

theorem foldl_countSample_three {samples : List Nat}
    (hlength : samples.length = count * 3) (start : Nat) (r g b : List Nat) :
    (samples.zipIdx (start * 3)).foldl
        (fun channels sample => channels.modify (sample.2 % 3) fun bins => bump bins sample.1)
        [r, g, b] =
      [(interleaved samples 3 count 0).foldl bump r, (interleaved samples 3 count 1).foldl bump g,
        (interleaved samples 3 count 2).foldl bump b] := by
  induction count generalizing samples start r g b with
  | zero =>
    obtain rfl : samples = [] := List.eq_nil_of_length_eq_zero (by omega)
    rfl
  | succ count ih =>
    rcases samples with _ | ⟨first, _ | ⟨second, _ | ⟨third, rest⟩⟩⟩
    · simp at hlength
    · simp at hlength
      omega
    · simp at hlength
      omega
    · have hrest : rest.length = count * 3 := by
        simp only [List.length_cons] at hlength
        omega
      rw [interleaved_cons _ _ _ _ _ _ (by norm_num), interleaved_cons _ _ _ _ _ _ (by norm_num),
        interleaved_cons _ _ _ _ _ _ (by norm_num)]
      have hfirst : start * 3 % 3 = 0 := by omega
      have hsecond : (start * 3 + 1) % 3 = 1 := by omega
      have hthird : (start * 3 + 1 + 1) % 3 = 2 := by omega
      simp only [List.zipIdx_cons, List.foldl_cons, hfirst, hsecond, hthird]
      have hnext := ih hrest (start + 1) (bump r first) (bump g second) (bump b third)
      rw [show (start + 1) * 3 = start * 3 + 1 + 1 + 1 by ring] at hnext
      exact hnext

namespace NativeFrame

/-- A frame of which every accepted capture is one. -/
structure IsImage (frame : NativeFrame μ) : Prop where
  wide : 0 < frame.width
  tall : 0 < frame.height
  few : frame.width * frame.height ≤ maxPixels
  channels : frame.channels = 1 ∨ frame.channels = 3
  size : frame.samples.length = frame.width * frame.height * frame.channels

theorem isImage_of_parse {frame : NativeFrame μ}
    (hparse : parseNativeFrame readHeader bytes = .ok frame) : frame.IsImage := by
  obtain ⟨header, h, haccepts⟩ := exists_accepts hparse
  obtain ⟨hwide, htall, hfew, hchannels, -⟩ := supported_of_fields haccepts.fields
  have hlength := haccepts.length
  refine ⟨?_, ?_, ?_, ?_, ?_⟩
  · rwa [haccepts.width]
  · rwa [haccepts.height]
  · rwa [haccepts.width, haccepts.height]
  · rwa [haccepts.channels]
  · rw [haccepts.samples, haccepts.width, haccepts.height, haccepts.channels]
    apply length_captureSamples
    rw [List.length_drop]
    change h.expected ≤ _
    omega

def image (frame : NativeFrame μ) (h : frame.IsImage) : Image where
  width := frame.width
  height := frame.height
  colour := frame.channels = 3
  samples := frame.samples
  size := by
    rw [h.size]
    rcases h.channels with hone | hthree
    · simp [hone]
    · simp [hthree]

variable {frame : NativeFrame μ}

theorem sampleNativePixel_outside {x y : Int}
    (hout : x < 0 ∨ y < 0 ∨ x ≥ frame.width ∨ y ≥ frame.height) :
    frame.sampleNativePixel x y = some none := by
  unfold sampleNativePixel
  rw [if_pos]
  right
  right
  rcases hout with hout | hout | hout | hout
  · exact .inl (by exact_mod_cast hout)
  · exact .inr (.inl (by exact_mod_cast hout))
  · exact .inr (.inr (.inl (by exact_mod_cast hout)))
  · exact .inr (.inr (.inr (by exact_mod_cast hout)))

variable (h : frame.IsImage)
include h

theorem channels_image : (frame.image h).channels = frame.channels := by
  rcases h.channels with hone | hthree
  · simp [Image.channels, image, hone]
  · simp [Image.channels, image, hthree]

theorem getElem?_samples {x y c : Nat} (hx : x < frame.width) (hy : y < frame.height)
    (hc : c < frame.channels) :
    frame.samples[(y * frame.width + x) * frame.channels + c]? =
      some ((frame.image h).component c x y) := by
  have hinside : (y * frame.width + x) * frame.channels + c < frame.samples.length := by
    have hrow : (y + 1) * frame.width ≤ frame.height * frame.width :=
      Nat.mul_le_mul_right _ (by omega)
    rw [Nat.succ_mul] at hrow
    have hpixel : (y * frame.width + x + 1) * frame.channels ≤
        frame.height * frame.width * frame.channels := Nat.mul_le_mul_right _ (by omega)
    rw [Nat.succ_mul] at hpixel
    rw [h.size, Nat.mul_comm frame.width]
    omega
  rw [Image.component, channels_image, List.getD_eq_getElem?_getD]
  change _ = some ((frame.samples[(y * frame.width + x) * frame.channels + c]?).getD 0)
  rw [List.getElem?_eq_getElem hinside, Option.getD_some]

theorem sampleNativePixel_inside {x y : Nat} (hx : x < frame.width) (hy : y < frame.height) :
    frame.sampleNativePixel x y = some (some ((frame.image h).pixel x y)) := by
  have hin : ¬ (((x : ℚ)).den ≠ 1 ∨ ((y : ℚ)).den ≠ 1 ∨ (x : ℚ) < 0 ∨ (y : ℚ) < 0 ∨
      (x : ℚ) ≥ frame.width ∨ (y : ℚ) ≥ frame.height) := by
    have hxw : (x : ℚ) < frame.width := by exact_mod_cast hx
    have hyh : (y : ℚ) < frame.height := by exact_mod_cast hy
    have hxpos : (0 : ℚ) ≤ x := Nat.cast_nonneg x
    have hypos : (0 : ℚ) ≤ y := Nat.cast_nonneg y
    simp only [Rat.den_natCast, ne_eq, not_true_eq_false, false_or, not_or]
    exact ⟨not_lt.mpr hxpos, not_lt.mpr hypos, not_le.mpr hxw, not_le.mpr hyh⟩
  have hsamples := fun c hc => @getElem?_samples _ _ h x y c hx hy hc
  unfold sampleNativePixel
  rw [if_neg hin]
  simp only [Rat.num_natCast, Int.toNat_natCast]
  rcases h.channels with hone | hthree
  · have hmono : (frame.image h).colour = false := by simp [image, hone]
    have hvalue := hsamples 0 (by omega)
    rw [Nat.add_zero] at hvalue
    rw [if_pos hone, hvalue, Option.map_some, Image.pixel, hmono]
    rfl
  · have hcolour : (frame.image h).colour = true := by simp [image, hthree]
    have hr := hsamples 0 (by omega)
    rw [Nat.add_zero] at hr
    rw [if_neg (by omega), hr, hsamples 1 (by omega), hsamples 2 (by omega)]
    simp only [Option.bind_eq_bind, Option.bind_some, Image.pixel, hcolour, if_true]

theorem nativeChannel_eq {line : List ImagePoint} {c : Nat} (hc : c < frame.channels)
    (hinside : ∀ p ∈ line, (0 ≤ p.x ∧ p.x < frame.width) ∧ 0 ≤ p.y ∧ p.y < frame.height) :
    frame.nativeChannel line c = some ((frame.image h).along line c) := by
  apply mapM_eq_map
  intro p hp
  obtain ⟨⟨hx, hxw⟩, hy, hyh⟩ := hinside p hp
  exact getElem?_samples h (by omega) (by omega) hc

theorem nativeLineProfile_eq {rounds : Nat} (hrounds : max frame.width frame.height ≤ rounds)
    (x0 y0 x1 y1 : ℚ) : ∃ line, (frame.image h).line rounds x0 y0 x1 y1 = some line ∧
      frame.nativeLineProfile rounds x0 y0 x1 y1 = some ((frame.image h).profile line) := by
  obtain ⟨line, hline, hinside⟩ :=
    exists_bresenhamLine h.wide h.tall hrounds x0 y0 x1 y1
  refine ⟨line, hline, ?_⟩
  unfold nativeLineProfile
  rw [hline, Option.bind_eq_bind, Option.bind_some]
  have hchannel := fun c hc => @nativeChannel_eq _ _ h line c hc hinside
  rcases h.channels with hone | hthree
  · have hmono : (frame.image h).colour = false := by simp [image, hone]
    rw [if_pos hone, hchannel 0 (by omega), Option.map_some, Image.profile, hmono]
    rfl
  · have hcolour : (frame.image h).colour = true := by simp [image, hthree]
    rw [if_neg (by omega), hchannel 0 (by omega), hchannel 1 (by omega), hchannel 2 (by omega)]
    simp only [Option.bind_eq_bind, Option.bind_some, Image.profile, hcolour, if_true]

theorem nativeHistogram_eq :
    frame.nativeHistogram = (frame.image h).histogram (2 ^ frame.bits) := by
  have htally : ∀ c, (interleaved frame.samples frame.channels (frame.width * frame.height) c).foldl
      bump (List.replicate (2 ^ frame.bits) 0) = counts (2 ^ frame.bits) ((frame.image h).channel c) := by
    intro c
    rw [Image.channel_eq, channels_image]
    exact foldl_bump _ _
  have hcount : frame.countSample = fun channels sample =>
      channels.modify (sample.2 % frame.channels) fun bins => bump bins sample.1 := rfl
  have hsize := h.size
  unfold nativeHistogram
  rw [hcount]
  rcases h.channels with hone | hthree
  · have hmono : (frame.image h).colour = false := by simp [image, hone]
    have hfirst := htally 0
    rw [hone, interleaved_one (by rw [hsize, hone, Nat.mul_one])] at hfirst
    rw [hone, List.replicate_one, foldl_countSample_one, hfirst, Image.histogram, hmono]
    rfl
  · have hcolour : (frame.image h).colour = true := by simp [image, hthree]
    rw [hthree] at htally hsize
    have hchannels := foldl_countSample_three hsize 0 (List.replicate (2 ^ frame.bits) 0)
      (List.replicate (2 ^ frame.bits) 0) (List.replicate (2 ^ frame.bits) 0)
    rw [htally, htally, htally, Nat.zero_mul] at hchannels
    rw [hthree, show List.replicate 3 (List.replicate (2 ^ frame.bits) 0) =
      [List.replicate (2 ^ frame.bits) 0, List.replicate (2 ^ frame.bits) 0,
        List.replicate (2 ^ frame.bits) 0] from rfl, hchannels, Image.histogram, hcolour]
    rfl

theorem measures : Measures (frame.image h) (2 ^ frame.bits)
    (fun x y => frame.sampleNativePixel x y) (some (some frame.nativeHistogram))
    fun rounds x0 y0 x1 y1 => (frame.nativeLineProfile rounds x0 y0 x1 y1).map some where
  inside _ _ hx hy := sampleNativePixel_inside h hx hy
  outside _ _ hout := sampleNativePixel_outside hout
  histogram := by rw [nativeHistogram_eq h]
  profile x0 y0 x1 y1 rounds hrounds := by
    obtain ⟨line, hline, hprofile⟩ := nativeLineProfile_eq h hrounds x0 y0 x1 y1
    exact ⟨line, hline, by rw [hprofile]; rfl⟩

end NativeFrame

end VivaGenicam.Studio
