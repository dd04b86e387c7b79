import VivaGenicam.Studio.Capture

/-!
What the viewer measures is the picture it shows: in its own files, in frozen frames, and in
both of one frame. On other bytes no reader leaves them, as long as the numbers in the headers
are not so large that the bitwise operators take them for negative ones.
-/

namespace VivaGenicam.Studio

open Library.Bytes Library.Tally Pixel
open GenapiXml (Text lit)

variable {bytes : List UInt8}

theorem readByte_ne_none {i : Int} (h : 0 ≤ i) (hinside : i < bytes.length) :
    readByte bytes i ≠ none := by
  rw [readByte, if_neg (by omega), List.getElem?_eq_getElem (by omega)]
  exact Option.some_ne_none _

theorem exists_readByte {bytes : List UInt8} {i : Int} (h : 0 ≤ i) (hinside : i < bytes.length) :
    ∃ value, readByte bytes i = some value :=
  Option.ne_none_iff_exists'.mp (readByte_ne_none h hinside)

theorem mapM_ne_none {α β : Type} {f : α → Option β} {items : List α}
    (h : ∀ item ∈ items, f item ≠ none) : items.mapM f ≠ none := by
  induction items with
  | nil => simp
  | cons item items ih =>
    obtain ⟨value, hvalue⟩ := Option.ne_none_iff_exists'.mp (h item List.mem_cons_self)
    obtain ⟨values, hvalues⟩ := Option.ne_none_iff_exists'.mp
      (ih fun item hitem => h item (List.mem_cons_of_mem _ hitem))
    rw [List.mapM_cons, hvalue, Option.bind_eq_bind, Option.bind_some, hvalues]
    exact Option.some_ne_none _

theorem foldlM_ne_none {α β : Type} {f : β → α → Option β} {items : List α} {start : β}
    (h : ∀ found, ∀ item ∈ items, f found item ≠ none) : items.foldlM f start ≠ none := by
  induction items generalizing start with
  | nil => simp
  | cons item items ih =>
    obtain ⟨value, hvalue⟩ := Option.ne_none_iff_exists'.mp (h start item List.mem_cons_self)
    rw [List.foldlM_cons, hvalue]
    exact ih fun found item hitem => h found item (List.mem_cons_of_mem _ hitem)

theorem eachPixel_ne_none {β : Type} {w h : Nat} {inside : Nat → Nat → Bool}
    {step : β → Nat → Nat → Option β} {start : β}
    (hstep : ∀ found x y, inside x y = true → step found x y ≠ none) :
    eachPixel w h inside step start ≠ none := by
  apply foldlM_ne_none
  intro found y _
  apply foldlM_ne_none
  intro found x hx
  have hpixel := @List.mem_takeWhile_imp _ (fun x => inside x y) _ _ hx
  exact hstep found x y hpixel

theorem le_aligned (n : Int) : n ≤ (n + 3) / 4 * 4 := by
  omega

theorem row_nonneg {y n : Int} (hy : 0 ≤ y) (hn : 0 ≤ n) : 0 ≤ y * ((n + 3) / 4 * 4) :=
  mul_nonneg hy (by omega)

/-- The data of a file starts, and its rows end, where 31 bits can tell. -/
structure Readable (bytes : List UInt8) : Prop where
  offset : fieldLE bytes 10 4 < 2 ^ 31
  rows : |readI32LE bytes 18| * 3 + 3 < 2 ^ 31

theorem samplePixel_ne_none (h : Readable bytes) {x y imgW imgH : Int}
    (hrows : imgW * 3 + 3 < 2 ^ 31) : samplePixel bytes x y imgW imgH ≠ none := by
  unfold samplePixel
  split
  · exact Option.some_ne_none _
  · rename_i hin
    have hoffset := h.offset
    have hstart : readI32LE bytes 10 = fieldLE bytes 10 4 := by
      rw [readI32LE, toInt32, Int.bmod_eq_of_le (by omega) (by omega)]
    split
    · exact Option.some_ne_none _
    · dsimp only
      rw [hstart, alignDown_eq (by omega) (by omega), alignDown_eq (by omega) (by omega)]
      split
      · split
        · exact Option.some_ne_none _
        · have hrow : 0 ≤ y * ((imgW + 3) / 4 * 4) :=
            row_nonneg (by omega) (by omega)
          obtain ⟨value, hvalue⟩ := @exists_readByte bytes
            (fieldLE bytes 10 4 + y * ((imgW + 3) / 4 * 4) + x) (by omega) (by omega)
          rw [hvalue]
          exact Option.some_ne_none _
      · split
        · split
          · exact Option.some_ne_none _
          · have hrow : 0 ≤ y * ((imgW * 3 + 3) / 4 * 4) :=
            row_nonneg (by omega) (by omega)
            generalize y * ((imgW * 3 + 3) / 4 * 4) = row at *
            obtain ⟨r, hr⟩ := @exists_readByte bytes (fieldLE bytes 10 4 + row + x * 3 + 2)
              (by omega) (by omega)
            obtain ⟨g, hg⟩ := @exists_readByte bytes (fieldLE bytes 10 4 + row + x * 3 + 1)
              (by omega) (by omega)
            obtain ⟨b, hb⟩ := @exists_readByte bytes (fieldLE bytes 10 4 + row + x * 3)
              (by omega) (by omega)
            rw [readBgr, hr, hg, hb]
            exact Option.some_ne_none _
        · exact Option.some_ne_none _

theorem computeHistogram_ne_none (h : Readable bytes) :
    computeHistogram bytes ≠ none := by
  have hrows := h.rows
  rw [Int.abs_eq_natAbs] at hrows
  unfold computeHistogram
  split
  · exact Option.some_ne_none _
  · dsimp only
    rw [alignDown_eq (n := ((readI32LE bytes 18).natAbs : Int) + 3) (by omega) (by omega),
      alignDown_eq (n := ((readI32LE bytes 18).natAbs : Int) * 3 + 3) (by omega) (by omega)]
    split
    · exact Option.some_ne_none _
    · split
      · rw [ne_eq, Option.map_eq_none_iff]
        apply eachPixel_ne_none
        intro values x y hinside
        rw [decide_eq_true_eq] at hinside
        have hrow : 0 ≤ (y : Int) * ((((readI32LE bytes 18).natAbs : Int) + 3) / 4 * 4) :=
          row_nonneg (by omega) (by omega)
        obtain ⟨value, hvalue⟩ := exists_readByte (by omega) hinside
        rw [countMono, hvalue]
        exact Option.some_ne_none _
      · split
        · rw [ne_eq, Option.map_eq_none_iff]
          apply eachPixel_ne_none
          intro bins x y hinside
          rw [decide_eq_true_eq] at hinside
          have hrow : 0 ≤ (y : Int) * ((((readI32LE bytes 18).natAbs : Int) * 3 + 3) / 4 * 4) :=
            row_nonneg (by omega) (by omega)
          unfold countRgb
          dsimp only
          generalize (y : Int) * ((((readI32LE bytes 18).natAbs : Int) * 3 + 3) / 4 * 4) = row at *
          obtain ⟨b, hb⟩ := @exists_readByte bytes (fieldLE bytes 10 4 + row + x * 3)
            (by omega) (by omega)
          obtain ⟨g, hg⟩ := @exists_readByte bytes (fieldLE bytes 10 4 + row + x * 3 + 1)
            (by omega) (by omega)
          obtain ⟨r, hr⟩ := @exists_readByte bytes (fieldLE bytes 10 4 + row + x * 3 + 2)
            (by omega) (by omega)
          rw [hb, hg, hr]
          exact Option.some_ne_none _
        · exact Option.some_ne_none _

theorem sampleLineProfile_ne_none (h : Readable bytes) {rounds : Nat}
    (hrounds : max (readI32LE bytes 18).natAbs (readI32LE bytes 22).natAbs ≤ rounds)
    (x0 y0 x1 y1 : ℚ) : sampleLineProfile rounds bytes x0 y0 x1 y1 ≠ none := by
  have hrows := h.rows
  unfold sampleLineProfile
  simp only [Int.abs_eq_natAbs] at hrows ⊢
  split
  · exact Option.some_ne_none _
  · rw [alignDown_eq (n := ((readI32LE bytes 18).natAbs : Int) + 3) (by omega) (by omega),
      alignDown_eq (n := ((readI32LE bytes 18).natAbs : Int) * 3 + 3) (by omega) (by omega)]
    split
    · exact Option.some_ne_none _
    · obtain ⟨line, hline, hinside⟩ := @exists_bresenhamLine (readI32LE bytes 18).natAbs
        (readI32LE bytes 22).natAbs (by omega) (by omega) rounds hrounds x0 y0 x1 y1
      rw [hline, Option.bind_eq_bind, Option.bind_some]
      split
      · obtain ⟨values, hvalues⟩ := Option.ne_none_iff_exists'.mp (@mapM_ne_none _ _
          (profileMono bytes (fieldLE bytes 10 4) (((readI32LE bytes 18).natAbs + 3) / 4 * 4))
          line (by
            intro p hp
            obtain ⟨⟨hx, -⟩, hy, -⟩ := hinside p hp
            have hrow : 0 ≤ p.y * ((((readI32LE bytes 18).natAbs : Int) + 3) / 4 * 4) :=
              row_nonneg hy (Int.natCast_nonneg _)
            unfold profileMono
            dsimp only
            split
            · rename_i hbefore
              obtain ⟨value, hvalue⟩ := exists_readByte (by omega) hbefore
              rw [hvalue]
              exact Option.some_ne_none _
            · exact Option.some_ne_none _))
        rw [hvalues]
        exact Option.some_ne_none _
      · split
        · obtain ⟨values, hvalues⟩ := Option.ne_none_iff_exists'.mp (@mapM_ne_none _ _
            (profileRgb bytes (fieldLE bytes 10 4) (((readI32LE bytes 18).natAbs * 3 + 3) / 4 * 4))
            line (by
              intro p hp
              obtain ⟨⟨hx, -⟩, hy, -⟩ := hinside p hp
              have hrow : 0 ≤ p.y * ((((readI32LE bytes 18).natAbs : Int) * 3 + 3) / 4 * 4) :=
                row_nonneg hy (by omega)
              unfold profileRgb
              dsimp only
              generalize p.y * ((((readI32LE bytes 18).natAbs : Int) * 3 + 3) / 4 * 4) = row at *
              split
              · obtain ⟨b, hb⟩ := @exists_readByte bytes (fieldLE bytes 10 4 + row + p.x * 3)
                  (by omega) (by omega)
                obtain ⟨g, hg⟩ := @exists_readByte bytes (fieldLE bytes 10 4 + row + p.x * 3 + 1)
                  (by omega) (by omega)
                obtain ⟨r, hr⟩ := @exists_readByte bytes (fieldLE bytes 10 4 + row + p.x * 3 + 2)
                  (by omega) (by omega)
                rw [hb, hg, hr]
                exact Option.some_ne_none _
              · exact Option.some_ne_none _))
          rw [hvalues]
          exact Option.some_ne_none _
        · exact Option.some_ne_none _

variable {x : Nat}

theorem decodePixel_ne_none {bits paletteOffset k : Nat} {row : Int}
    (hrow : 0 ≤ row) (hbits : bits = 8 ∨ bits = 24) (hk : bits / 8 = k)
    (hinside : row + x * k + k ≤ bytes.length)
    (hpalette : bits = 8 → paletteOffset + 256 * 4 ≤ bytes.length) :
    decodePixel bytes bits paletteOffset row x ≠ none := by
  have hpixel : ∀ src : Int, 0 ≤ src → src + 3 ≤ bytes.length → (do
      let r ← readByte bytes (src + 2)
      let g ← readByte bytes (src + 1)
      let b ← readByte bytes src
      some [r, g, b, 255]) ≠ none := by
    intro src hsrc hend
    obtain ⟨r, hr⟩ := @exists_readByte bytes (src + 2) (by omega) (by omega)
    obtain ⟨g, hg⟩ := @exists_readByte bytes (src + 1) (by omega) (by omega)
    obtain ⟨b, hb⟩ := @exists_readByte bytes src (by omega) (by omega)
    rw [hr, hg, hb]
    exact Option.some_ne_none _
  unfold decodePixel
  subst hk
  rcases hbits with rfl | rfl
  · have hend := hpalette rfl
    obtain ⟨index, hindex⟩ := @exists_readByte bytes (row + x) (by omega) (by omega)
    have hlt := index.toNat_lt
    simp only [if_true, hindex, Option.map_some, Option.bind_eq_bind, Option.bind_some]
    exact hpixel _ (by omega) (by omega)
  · simp only [Nat.reduceEqDiff, if_false, Option.bind_eq_bind, Option.bind_some]
    exact hpixel _ (by omega) (by omega)

theorem decodedPixel_ne_none {bits paletteOffset k y : Nat}
    {width signedHeight rowStride : Int} {offset : Nat} (hbits : bits = 8 ∨ bits = 24)
    (hk : bits / 8 = k) (hx : x < width.toNat) (hy : y < |signedHeight|.toNat)
    (hstride : width * (k : Int) ≤ rowStride)
    (hlength : offset + rowStride * |signedHeight| ≤ bytes.length)
    (hpalette : bits = 8 → paletteOffset + 256 * 4 ≤ offset) :
    decodePixel bytes bits paletteOffset
      (offset + (if signedHeight < 0 then (y : Int) else |signedHeight| - 1 - y) * rowStride) x ≠
        none := by
  generalize hline : (if signedHeight < 0 then (y : Int) else |signedHeight| - 1 - y) = line
  generalize |signedHeight| = height at *
  have hinside : 0 ≤ line ∧ line + 1 ≤ height := by
    split at hline <;> omega
  have hpositive : 0 ≤ rowStride := (mul_nonneg (by omega) (by omega)).trans hstride
  have hstart : 0 ≤ line * rowStride := mul_nonneg hinside.1 hpositive
  have hend : (line + 1) * rowStride ≤ height * rowStride :=
    mul_le_mul_of_nonneg_right hinside.2 hpositive
  have hpixel : ((x : Int) + 1) * k ≤ width * k :=
    mul_le_mul_of_nonneg_right (by omega) (by omega)
  rw [add_mul, one_mul] at hend hpixel
  rw [mul_comm rowStride] at hlength
  refine decodePixel_ne_none (by omega) hbits hk (by omega) fun hgrey => ?_
  have hfirst := hpalette hgrey
  have hwhole : 0 ≤ height * rowStride := by omega
  omega

theorem decodeBmp_ne_none (h : Readable bytes) : decodeBmp bytes ≠ none := by
  have hrows := h.rows
  unfold decodeBmp
  split
  · exact Option.some_ne_none _
  · dsimp only
    split
    · exact Option.some_ne_none _
    · rename_i hsides
      split
      · exact Option.some_ne_none _
      · rename_i hdepth
        have hbits : fieldLE bytes 28 2 = 8 ∨ fieldLE bytes 28 2 = 24 := by omega
        have hbytes : readI32LE bytes 18 * (fieldLE bytes 28 2 : Int) / 8 =
            readI32LE bytes 18 * ((fieldLE bytes 28 2 / 8 : Nat) : Int) := by
          rcases hbits with hbits | hbits
          · rw [hbits]
            omega
          · rw [hbits]
            omega
        rw [hbytes]
        have hk : 1 ≤ fieldLE bytes 28 2 / 8 ∧ fieldLE bytes 28 2 / 8 ≤ 3 := by omega
        generalize hkEq : fieldLE bytes 28 2 / 8 = k at hk ⊢
        have hwidth : 0 < readI32LE bytes 18 := by omega
        rw [abs_of_pos hwidth] at hrows
        have hrow : 0 ≤ readI32LE bytes 18 * (k : Int) := mul_nonneg hwidth.le (Int.natCast_nonneg k)
        have hless : readI32LE bytes 18 * (k : Int) ≤ readI32LE bytes 18 * 3 :=
          mul_le_mul_of_nonneg_left (by exact_mod_cast hk.2) hwidth.le
        have hstride := le_aligned (readI32LE bytes 18 * (k : Int))
        rw [alignDown_eq (by omega) (by omega)]
        generalize (readI32LE bytes 18 * (k : Int) + 3) / 4 * 4 = rowStride at hstride ⊢
        split
        · exact Option.some_ne_none _
        · rename_i hlength
          split
          · exact Option.some_ne_none _
          · rename_i hpalette
            have hpixels : ∀ y ∈ List.range |readI32LE bytes 22|.toNat,
                (List.range (readI32LE bytes 18).toNat).mapM
                  (decodePixel bytes (fieldLE bytes 28 2) (14 + fieldLE bytes 14 4)
                    (fieldLE bytes 10 4 + (if readI32LE bytes 22 < 0 then (y : Int)
                      else |readI32LE bytes 22| - 1 - y) * rowStride)) ≠ none := fun y hy =>
              mapM_ne_none fun x hx => decodedPixel_ne_none hbits hkEq (List.mem_range.mp hx)
                (List.mem_range.mp hy) hstride (not_lt.mp hlength) fun hgrey => by
                  rw [not_and, not_lt] at hpalette
                  exact hpalette hgrey
            obtain ⟨rows, hdecoded⟩ := Option.ne_none_iff_exists'.mp (mapM_ne_none hpixels)
            rw [hdecoded]
            exact Option.some_ne_none _

theorem length_rgba (sample : PixelSample) : sample.rgba.length = 4 := by
  cases sample <;> rfl

theorem Image.take_drop_picture (image : Image) {y : Nat} (hx : x < image.width)
    (hy : y < image.height) :
    (image.picture.drop ((y * image.width + x) * 4)).take 4 = (image.pixel x y).rgba := by
  have hpicture : image.picture = (List.range image.height).flatMap fun y =>
      (List.range image.width).flatMap fun x => (image.pixel x y).rgba := by
    simp only [Image.picture, places, List.flatMap_assoc, List.flatMap_map]
  have hrowLength : ∀ y, ((List.range image.width).flatMap fun x =>
      (image.pixel x y).rgba).length = image.width * 4 := by
    intro y
    simp [List.length_flatMap, length_rgba]
  have hrow := flatMap_piece (fun y _ => hrowLength y) hy
  have hpixel := @flatMap_piece _ (fun x => (image.pixel x y).rgba) _ _
    (fun x _ => length_rgba _) _ hx
  have hend : x * 4 + 4 ≤ image.width * 4 := by omega
  rw [← hpixel, ← hrow, ← hpicture, List.drop_take, List.take_take, Nat.min_eq_left (by omega),
    List.drop_drop]
  congr 2
  ring

/-- A file shows an image, and every reader measures that image. -/
structure Drawn (bmp : List UInt8) (image : Image) : Prop where
  decoded : decodeBmp bmp = some (some ⟨image.width, image.height, image.picture⟩)
  shown : ∀ x y, x < image.width → y < image.height →
    (image.picture.drop ((y * image.width + x) * 4)).take 4 = (image.pixel x y).rgba
  measured : Measures image 256 (fun x y => samplePixel bmp x y image.width image.height)
    (computeHistogram bmp) fun rounds => sampleLineProfile rounds bmp

theorem HoldsImage.drawn {image : Image} {offset stride : Nat}
    (h : HoldsImage bytes image offset stride) : Drawn bytes image :=
  ⟨h.decodeBmp_eq, fun _ _ => image.take_drop_picture, h.measures⟩

/-- A frozen frame and a file give the same measurements. -/
structure Alike {μ : Type} (bmp : List UInt8) (frame : NativeFrame μ) : Prop where
  pixel : ∀ x y : Int,
    frame.sampleNativePixel x y = samplePixel bmp x y frame.width frame.height
  histogram : computeHistogram bmp = some (some frame.nativeHistogram)
  profile : ∀ x0 y0 x1 y1 rounds, max frame.width frame.height ≤ rounds →
    (frame.nativeLineProfile rounds x0 y0 x1 y1).map some =
      sampleLineProfile rounds bmp x0 y0 x1 y1

theorem alike_of_drawn {μ : Type} {bmp : List UInt8} {frame : NativeFrame μ}
    (hframe : frame.IsImage) (hbits : frame.bits = 8) (h : Drawn bmp (frame.image hframe)) :
    Alike bmp frame := by
  have hnative := NativeFrame.measures hframe
  rw [hbits] at hnative
  have hlive := h.measured
  refine ⟨fun x y => ?_, ?_, fun x0 y0 x1 y1 rounds hrounds => ?_⟩
  · by_cases hout : x < 0 ∨ y < 0 ∨ x ≥ frame.width ∨ y ≥ frame.height
    · exact (hnative.outside x y hout).trans (hlive.outside x y hout).symm
    · lift x to Nat using by omega
      lift y to Nat using by omega
      have hx : x < frame.width := by omega
      have hy : y < frame.height := by omega
      exact (hnative.inside x y hx hy).trans (hlive.inside x y hx hy).symm
  · exact hlive.histogram.trans hnative.histogram.symm
  · obtain ⟨line, hline, hprofile⟩ := hlive.profile x0 y0 x1 y1 rounds hrounds
    obtain ⟨other, hother, hotherProfile⟩ := hnative.profile x0 y0 x1 y1 rounds hrounds
    cases hline.symm.trans hother
    exact hotherProfile.trans hprofile.symm

/-- In the files that the encoder writes every reader measures the picture shown; in a frozen
frame every reader measures its samples; both give the same for a frame of 8 bits that is no
mosaic; and in files whose offset and rows fit 31 bits no reader leaves the bytes. -/
theorem measures_the_picture :
    (∀ width height encoder pixels bmp, BmpEncoder.new width height = some encoder →
      encoder.encodeGray8 pixels = .ok bmp → 0 < width.toNat →
      0 < height.toNat ∧ height.toNat < 2 ^ 31 → (width.toNat + 3) / 4 * 4 < 2 ^ 31 →
      ∃ hsize, Drawn bmp (Image.ofBytes width.toNat height.toNat false pixels hsize)) ∧
    (∀ width height encoder pixels bmp, BmpEncoder.newRgb24 width height = some encoder →
      encoder.encodeRgb24 pixels = .ok bmp → 0 < width.toNat →
      0 < height.toNat ∧ height.toNat < 2 ^ 31 → (width.toNat * 3 + 3) / 4 * 4 < 2 ^ 31 →
      ∃ hsize, Drawn bmp (Image.ofBytes width.toNat height.toNat true pixels hsize)) ∧
    (∀ (μ : Type) (readHeader : List UInt8 → Except String (CaptureHeader μ)) bytes
      (frame : NativeFrame μ), parseNativeFrame readHeader bytes = .ok frame →
      ∃ hframe, Measures (frame.image hframe) (2 ^ frame.bits)
        (fun x y => frame.sampleNativePixel x y) (some (some frame.nativeHistogram))
        fun rounds x0 y0 x1 y1 => (frame.nativeLineProfile rounds x0 y0 x1 y1).map some) ∧
    (∀ (ν μ : Type) (tools : CaptureTools ν)
      (readHeader : List UInt8 → Except String (CaptureHeader μ)),
      ReadsHeaders tools.toVec readHeader →
      ∀ (earlier : List Frame) (source : SourceFrame ν) (bytes : List UInt8)
        (frame : NativeFrame μ),
        (FrameEncoder.new.encodeAll (earlier ++ [source.frame])).getLast? =
          some (.ok source.bmp) →
        tools.encode source = .ok bytes → parseNativeFrame readHeader bytes = .ok frame →
        frame.bits = 8 → frame.mosaic = false → Alike source.bmp frame) ∧
    ∀ bytes, Readable bytes → decodeBmp bytes ≠ none ∧ computeHistogram bytes ≠ none ∧
      (∀ x y imgW imgH, imgW * 3 + 3 < 2 ^ 31 → samplePixel bytes x y imgW imgH ≠ none) ∧
      ∀ x0 y0 x1 y1 rounds,
        max (readI32LE bytes 18).natAbs (readI32LE bytes 22).natAbs ≤ rounds →
        sampleLineProfile rounds bytes x0 y0 x1 y1 ≠ none := by
  refine ⟨?_, ?_, ?_, ?_, ?_⟩
  · intro width height encoder pixels bmp hnew hfile hwide htall hsmall
    obtain ⟨hsize, hholds⟩ := BmpEncoder.new_holds hnew hfile hwide htall hsmall
    exact ⟨hsize, hholds.drawn⟩
  · intro width height encoder pixels bmp hnew hfile hwide htall hsmall
    obtain ⟨hsize, hholds⟩ := BmpEncoder.newRgb24_holds hnew hfile hwide htall hsmall
    exact ⟨hsize, hholds.drawn⟩
  · intro μ readHeader bytes frame hparse
    have hframe := NativeFrame.isImage_of_parse hparse
    exact ⟨hframe, NativeFrame.measures hframe⟩
  · intro ν μ tools readHeader hjson earlier source bytes frame hbmp hcapture hparse hbits hmosaic
    have hencoded : encoded source.frame = .ok source.bmp := by
      rw [FrameEncoder.kept_new.encodeAll, List.map_append, List.map_singleton,
        List.getLast?_concat, Option.some.injEq] at hbmp
      exact hbmp
    have hframe := NativeFrame.isImage_of_parse hparse
    obtain ⟨samples, hfreezes⟩ := exists_freezes hjson hcapture hparse hbits
    obtain ⟨offset, stride, hholds⟩ := hfreezes.holds hframe hmosaic hencoded
    exact alike_of_drawn hframe hbits hholds.drawn
  · intro bytes h
    exact ⟨decodeBmp_ne_none h, computeHistogram_ne_none h,
      fun x y imgW imgH hrows => samplePixel_ne_none h hrows,
      fun x0 y0 x1 y1 rounds hrounds => sampleLineProfile_ne_none h hrounds x0 y0 x1 y1⟩

def mosaicFrame : Frame := ⟨.bayerRG8, 1, 1, none, [7], by decide⟩

def mosaicSource : SourceFrame Unit where
  frame := mosaicFrame
  bmp := (encoded mosaicFrame).toOption.getD []
  metadata := none

def mosaicHeader : NativeHeader Unit where
  width := 1
  height := 1
  pixelFormat := lit "BayerRG8"
  bits := 8
  channels := 1
  mosaic := true
  bmpBytes := 58
  sampleBytes := 1
  pngBytes := 8
  metadata := none

def mosaicText : List UInt8 :=
  (lit ("\x7b\"version\":1,\"width\":1,\"height\":1,\"pixel_format\":\"BayerRG8\"," ++
    "\"bits\":8,\"channels\":1,\"mosaic\":true,\"bmp_bytes\":58,\"sample_bytes\":1," ++
    "\"png_bytes\":8,\"metadata\":null\x7d")).map fun c => .ofNat c.toNat

/-- Tools that write one header, and a PNG that is no more than its signature. -/
def mosaicTools : CaptureTools Unit where
  normalize := .ok
  formatName := fun _ => lit "BayerRG8"
  convertError := fun _ => []
  png := fun _ _ _ => .ok [0x89, 0x50, 0x4E, 0x47, 0x0D, 0x0A, 0x1A, 0x0A]
  toVec := fun header => if header = mosaicHeader then .ok mosaicText else .error []

def mosaicReader (bytes : List UInt8) : Except String (CaptureHeader Unit) :=
  if bytes = mosaicText then .ok (mosaicHeader.captured none) else .error "Unexpected token"

/-- A file whose data starts at 2^31 or later. -/
def farFile : List UInt8 := List.replicate 13 0 ++ [0x80] ++ List.replicate 14 0 ++ [8] ++
  List.replicate 25 0

/-- A file whose grey rows are 2^31 - 1 bytes long. -/
def wideFile : List UInt8 := List.replicate 18 0 ++ [0xFF, 0xFF, 0xFF, 0x7F, 2] ++
  List.replicate 5 0 ++ [8] ++ List.replicate 25 0

/-- A mosaic is frozen as grey and shown in colour, and numbers beyond 31 bits make the
readers leave the file. -/
theorem mosaic_measures_apart :
    ReadsHeaders mosaicTools.toVec mosaicReader ∧
    (FrameEncoder.new.encodeAll ([] ++ [mosaicSource.frame])).getLast? =
      some (.ok mosaicSource.bmp) ∧
    (∃ bytes frame, mosaicTools.encode mosaicSource = .ok bytes ∧
      parseNativeFrame mosaicReader bytes = .ok frame ∧ frame.bits = 8 ∧
      ¬ Alike mosaicSource.bmp frame) ∧
    samplePixel farFile 0 0 1 1 = none ∧ sampleLineProfile 1 wideFile 0 1 0 1 = none := by
  refine ⟨?_, ?_, ?_, by decide +kernel, by decide +kernel⟩
  · intro header bytes hbytes
    simp only [mosaicTools] at hbytes
    split at hbytes
    · rename_i hheader
      rw [← Except.ok.inj hbytes, hheader]
      exact ⟨none, if_pos rfl⟩
    · cases hbytes
  · rw [FrameEncoder.kept_new.encodeAll]
    have hencoded : (encoded mosaicFrame).toOption.isSome = true := by decide +kernel
    cases hfile : encoded mosaicFrame with
    | error stop =>
      rw [hfile] at hencoded
      cases hencoded
    | ok bmp => simp [mosaicSource, hfile, Except.toOption]
  · have hapart : ((mosaicTools.encode mosaicSource).toOption.bind fun bytes =>
        (parseNativeFrame mosaicReader bytes).toOption).any (fun frame =>
          frame.bits = 8 ∧ computeHistogram mosaicSource.bmp ≠ some (some frame.nativeHistogram)) =
        true := by
      decide +kernel
    cases hbytes : mosaicTools.encode mosaicSource with
    | error stop =>
      rw [hbytes] at hapart
      cases hapart
    | ok bytes =>
      cases hframe : parseNativeFrame mosaicReader bytes with
      | error error =>
        simp [hbytes, hframe, Except.toOption] at hapart
      | ok frame =>
        simp only [hbytes, hframe, Except.toOption, Option.bind_some, Option.any_some,
          decide_eq_true_eq] at hapart
        exact ⟨bytes, frame, rfl, hframe, hapart.1, fun h => hapart.2 h.histogram⟩

end VivaGenicam.Studio
