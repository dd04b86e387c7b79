import Mathlib.Data.List.TakeWhile
import VivaGenicam.Studio.Bmp
import VivaGenicam.Studio.Image

/-!
The viewer's readers on the viewer's own files: where the headers say where each pixel of an
image is, the decoder, the pointer, the histogram and the profile all find that image.
-/

namespace VivaGenicam.Studio

open Library.Bytes Library.Tally

/-- A file holds an image: top row first, the channels of a pixel the other way round. -/
structure HoldsImage (bytes : List UInt8) (image : Image) (offset stride : Nat) : Prop where
  signature : bytes.take 2 = [0x42, 0x4D]
  dataOffset : fieldLE bytes 10 4 = offset
  header : fieldLE bytes 14 4 = 40
  columns : fieldLE bytes 18 4 = image.width
  lines : fieldLE bytes 22 4 = 2 ^ 32 - image.height
  depth : fieldLE bytes 28 2 = if image.colour then 24 else 8
  plain : fieldLE bytes 30 4 = 0
  wide : 0 < image.width
  tall : 0 < image.height ∧ image.height < 2 ^ 31
  rowStride : stride = (image.width * image.channels + 3) / 4 * 4
  small : stride < 2 ^ 31
  front : 54 ≤ offset ∧ offset < 2 ^ 31
  length : bytes.length = offset + stride * image.height
  stored : ∀ x y c, x < image.width → y < image.height → c < image.channels →
    ∃ value, bytes[offset + y * stride + x * image.channels + (image.channels - 1 - c)]? = some value ∧
      value.toNat = image.component c x y
  palette : image.colour = false → 1078 ≤ offset ∧
    ∀ value : UInt8, ∀ c < 3, bytes[54 + value.toNat * 4 + c]? = some value

theorem readByte_eq {bytes : List UInt8} {i : Int} {n : Nat} (h : i = n) :
    readByte bytes i = bytes[n]? := by
  rw [h, readByte, if_neg (by omega)]
  rfl

theorem eachPixel_eq {β γ : Type} {w h : Nat} {inside : Nat → Nat → Bool}
    {step : β → Nat → Nat → Option β} {found : Nat → Nat → γ} {count : β → γ → β}
    (hinside : ∀ x y, x < w → y < h → inside x y = true)
    (hstep : ∀ start x y, x < w → y < h → step start x y = some (count start (found x y)))
    (start : β) :
    eachPixel w h inside step start =
      some (((places w h).map fun place => found place.1 place.2).foldl count start) := by
  have hrow : ∀ y < h, ∀ xs : List Nat, (∀ x ∈ xs, x < w) → ∀ start,
      xs.foldlM (fun start x => step start x y) start =
        some ((xs.map fun x => found x y).foldl count start) := by
    intro y hy xs
    induction xs with
    | nil => intro _ start; rfl
    | cons x xs ih =>
      intro hxs start
      rw [List.foldlM_cons, hstep start x y (hxs x List.mem_cons_self) hy, Option.bind_eq_bind,
        Option.bind_some, ih (fun x hx => hxs x (List.mem_cons_of_mem _ hx))]
      rfl
  have hrows : ∀ ys : List Nat, (∀ y ∈ ys, y < h) → ∀ start,
      ys.foldlM (fun start y =>
        ((List.range w).takeWhile (inside · y)).foldlM (fun start x => step start x y) start) start =
        some (((ys.flatMap fun y => (List.range w).map fun x => (x, y)).map
          fun place => found place.1 place.2).foldl count start) := by
    intro ys
    induction ys with
    | nil => intro _ start; rfl
    | cons y ys ih =>
      intro hys start
      have hy := hys y List.mem_cons_self
      have hall : (List.range w).takeWhile (inside · y) = List.range w := by
        exact List.takeWhile_eq_self_iff.mpr fun x hx => hinside x y (List.mem_range.mp hx) hy
      rw [List.foldlM_cons, hall, hrow y hy _ (fun x hx => List.mem_range.mp hx),
        Option.bind_eq_bind, Option.bind_some, ih (fun y hy => hys y (List.mem_cons_of_mem _ hy)),
        List.flatMap_cons, List.map_append, List.foldl_append, List.map_map]
      rfl
  exact hrows _ (fun y hy => List.mem_range.mp hy) start

theorem mapM_eq_map {α β : Type} {f : α → Option β} {g : α → β} {items : List α}
    (h : ∀ item ∈ items, f item = some (g item)) : items.mapM f = some (items.map g) := by
  induction items with
  | nil => rfl
  | cons item items ih =>
    rw [List.mapM_cons, h item List.mem_cons_self, Option.bind_eq_bind, Option.bind_some,
      ih fun item hitem => h item (List.mem_cons_of_mem _ hitem)]
    rfl

theorem foldl_bump_rgb {α : Type} (r g b : α → Nat) (items : List α)
    (bins : List Nat × List Nat × List Nat) :
    (items.map fun item => (r item, g item, b item)).foldl
        (fun bins value => (bump bins.1 value.1, bump bins.2.1 value.2.1, bump bins.2.2 value.2.2))
        bins =
      ((items.map r).foldl bump bins.1, (items.map g).foldl bump bins.2.1,
        (items.map b).foldl bump bins.2.2) := by
  induction items generalizing bins with
  | nil => rfl
  | cons item items ih => rw [List.map_cons, List.foldl_cons, ih]; rfl

variable {x y : Nat}

namespace HoldsImage

variable {bytes : List UInt8} {image : Image} {offset stride : Nat}

theorem length_ge (h : HoldsImage bytes image offset stride) : 54 ≤ bytes.length := by
  rw [h.length]
  exact h.front.1.trans (Nat.le_add_right _ _)

theorem readI32LE_width (h : HoldsImage bytes image offset stride) :
    readI32LE bytes 18 = image.width := by
  have hsmall := h.small
  have hstride := h.rowStride
  have hchannels : 1 ≤ image.channels := by
    unfold Image.channels
    split <;> omega
  have hwidth : image.width * 1 ≤ image.width * image.channels := Nat.mul_le_mul_left _ hchannels
  rw [readI32LE, h.columns, toInt32, Int.bmod_eq_of_le (by omega) (by omega)]

theorem readI32LE_height (h : HoldsImage bytes image offset stride) :
    readI32LE bytes 22 = -image.height := by
  have htall := h.tall
  rw [readI32LE, h.lines, toInt32, Int.bmod]
  omega

theorem readI32LE_offset (h : HoldsImage bytes image offset stride) :
    readI32LE bytes 10 = offset := by
  have hfront := h.front
  rw [readI32LE, h.dataOffset, toInt32, Int.bmod_eq_of_le (by omega) (by omega)]

theorem alignDown_width (h : HoldsImage bytes image offset stride) {n : Int}
    (hn : n = image.width * image.channels) : alignDown (n + 3) = stride := by
  have hsmall := h.small
  have hstride := h.rowStride
  rw [hn]
  push_cast at *
  rw [alignDown_eq (by positivity) (by omega)]
  omega

theorem pixel_inside (h : HoldsImage bytes image offset stride)
    (hx : x < image.width) (hy : y < image.height) :
    offset + y * stride + x * image.channels + image.channels ≤ bytes.length := by
  have hstride := h.rowStride
  have hrow : (x + 1) * image.channels ≤ image.width * image.channels :=
    Nat.mul_le_mul_right _ (by omega)
  have hrows : (y + 1) * stride ≤ image.height * stride := Nat.mul_le_mul_right _ (by omega)
  rw [Nat.succ_mul] at hrow hrows
  rw [h.length, Nat.mul_comm stride]
  omega

theorem readByte_mono (h : HoldsImage bytes image offset stride) (hmono : image.colour = false)
    (hx : x < image.width) (hy : y < image.height) :
    ∃ value, readByte bytes (offset + y * stride + x) = some value ∧
      value.toNat = image.component 0 x y := by
  have hone : image.channels = 1 := by simp [Image.channels, hmono]
  obtain ⟨value, hvalue, hcomponent⟩ := h.stored x y 0 hx hy (by omega)
  refine ⟨value, ?_, hcomponent⟩
  rw [hone] at hvalue
  rw [readByte_eq (n := offset + y * stride + x) (by push_cast; ring), ← hvalue]
  congr 1
  omega

theorem readByte_rgb (h : HoldsImage bytes image offset stride) (hcolour : image.colour = true)
    {c : Nat} (hx : x < image.width) (hy : y < image.height) (hc : c < 3) {i : Int}
    (hi : i = offset + y * stride + x * 3 + (2 - c)) :
    ∃ value, readByte bytes i = some value ∧ value.toNat = image.component c x y := by
  have hthree : image.channels = 3 := by simp [Image.channels, hcolour]
  obtain ⟨value, hvalue, hcomponent⟩ := h.stored x y c hx hy (by omega)
  refine ⟨value, ?_, hcomponent⟩
  rw [hthree] at hvalue
  rw [readByte_eq (n := offset + y * stride + x * 3 + (3 - 1 - c)) (by push_cast; omega), hvalue]

theorem readByte_pixel (h : HoldsImage bytes image offset stride) (hcolour : image.colour = true)
    (hx : x < image.width) (hy : y < image.height) :
    ∃ r g b, readByte bytes (offset + y * stride + x * 3 + 2) = some r ∧
      readByte bytes (offset + y * stride + x * 3 + 1) = some g ∧
      readByte bytes (offset + y * stride + x * 3) = some b ∧
      r.toNat = image.component 0 x y ∧ g.toNat = image.component 1 x y ∧
      b.toNat = image.component 2 x y := by
  obtain ⟨r, hr, hrComponent⟩ := h.readByte_rgb hcolour hx hy (show 0 < 3 by omega)
    (i := offset + y * stride + x * 3 + 2) (by push_cast; ring)
  obtain ⟨g, hg, hgComponent⟩ := h.readByte_rgb hcolour hx hy (show 1 < 3 by omega)
    (i := offset + y * stride + x * 3 + 1) (by push_cast; ring)
  obtain ⟨b, hb, hbComponent⟩ := h.readByte_rgb hcolour hx hy (show 2 < 3 by omega)
    (i := offset + y * stride + x * 3) (by push_cast; ring)
  exact ⟨r, g, b, hr, hg, hb, hrComponent, hgComponent, hbComponent⟩

theorem samplePixel_inside (h : HoldsImage bytes image offset stride)
    (hx : x < image.width) (hy : y < image.height) :
    samplePixel bytes x y image.width image.height = some (some (image.pixel x y)) := by
  have hlength := h.length_ge
  have hinside := h.pixel_inside hx hy
  unfold samplePixel
  rw [if_neg (by omega), if_neg (by omega)]
  simp only [h.readI32LE_offset, h.depth]
  cases hcolour : image.colour with
  | false =>
    have hone : image.channels = 1 := by simp [Image.channels, hcolour]
    obtain ⟨value, hvalue, hcomponent⟩ := h.readByte_mono hcolour hx hy
    rw [hone] at hinside
    simp only [Bool.false_eq_true, if_false, if_true]
    rw [h.alignDown_width (by simp [hone]), if_neg (by omega), hvalue, Option.map_some,
      hcomponent, Image.pixel, hcolour]
    rfl
  | true =>
    have hthree : image.channels = 3 := by simp [Image.channels, hcolour]
    obtain ⟨r, g, b, hr, hg, hb, hrComponent, hgComponent, hbComponent⟩ :=
      h.readByte_pixel hcolour hx hy
    rw [hthree] at hinside
    simp only [if_true]
    rw [if_neg (by norm_num), h.alignDown_width (by simp [hthree]),
      if_neg (by omega), readBgr, hr, hg, hb]
    simp only [Option.bind_eq_bind, Option.bind_some, Option.map_some, hrComponent, hgComponent,
      hbComponent, Image.pixel, hcolour, if_true]

theorem computeHistogram_eq (h : HoldsImage bytes image offset stride) :
    computeHistogram bytes = some (some (image.histogram 256)) := by
  have hlength := h.length_ge
  have htall := h.tall
  have hwide := h.wide
  have htally : ∀ c, ((places image.width image.height).map
      fun place => image.component c place.1 place.2).foldl bump (List.replicate 256 0) =
        counts 256 (image.channel c) := fun c => foldl_bump 256 _
  unfold computeHistogram
  rw [if_neg (by omega)]
  simp only [h.readI32LE_width, h.readI32LE_height, h.dataOffset, h.depth, Int.natAbs_natCast,
    Int.natAbs_neg]
  rw [if_neg (by omega)]
  cases hcolour : image.colour with
  | false =>
    have hone : image.channels = 1 := by simp [Image.channels, hcolour]
    simp only [Bool.false_eq_true, if_false, if_true]
    rw [h.alignDown_width (n := image.width) (by simp [hone]),
      @eachPixel_eq _ _ _ _ _ _ (image.component 0) bump, htally, Option.map_some, Image.histogram, hcolour]
    · rfl
    · intro x y hx hy
      have hinside := h.pixel_inside hx hy
      rw [hone] at hinside
      simp only [decide_eq_true_eq]
      omega
    · intro start x y hx hy
      obtain ⟨value, hvalue, hcomponent⟩ := h.readByte_mono hcolour hx hy
      rw [countMono, hvalue, Option.map_some, hcomponent]
  | true =>
    have hthree : image.channels = 3 := by simp [Image.channels, hcolour]
    simp only [if_true]
    rw [if_neg (by norm_num), h.alignDown_width (n := image.width * 3) (by simp [hthree]),
      @eachPixel_eq _ _ _ _ _ _ (fun x y => (image.component 0 x y, image.component 1 x y, image.component 2 x y))
        (fun bins value => (bump bins.1 value.1, bump bins.2.1 value.2.1, bump bins.2.2 value.2.2)),
      foldl_bump_rgb, htally, htally, htally, Option.map_some, Image.histogram, hcolour]
    · rfl
    · intro x y hx hy
      have hinside := h.pixel_inside hx hy
      rw [hthree] at hinside
      simp only [decide_eq_true_eq]
      omega
    · intro start x y hx hy
      obtain ⟨r, g, b, hr, hg, hb, hrComponent, hgComponent, hbComponent⟩ :=
        h.readByte_pixel hcolour hx hy
      simp only [countRgb, hr, hg, hb, Option.bind_eq_bind, Option.bind_some, hrComponent,
        hgComponent, hbComponent]

theorem sampleLineProfile_eq (h : HoldsImage bytes image offset stride) {rounds : Nat}
    (hrounds : max image.width image.height ≤ rounds) (x0 y0 x1 y1 : ℚ) :
    ∃ line, image.line rounds x0 y0 x1 y1 = some line ∧
      sampleLineProfile rounds bytes x0 y0 x1 y1 = some (some (image.profile line)) := by
  have hlength := h.length_ge
  obtain ⟨line, hline, hinside⟩ := exists_bresenhamLine h.wide h.tall.1 hrounds x0 y0 x1 y1
  refine ⟨line, hline, ?_⟩
  unfold sampleLineProfile
  rw [if_neg (by omega)]
  have hwide := h.wide
  have htall := h.tall
  simp only [h.readI32LE_width, h.readI32LE_height, h.dataOffset, h.depth, abs_neg, Nat.abs_cast]
  rw [if_neg (by omega), hline]
  simp only [Option.bind_eq_bind, Option.bind_some]
  cases hcolour : image.colour with
  | false =>
    have hone : image.channels = 1 := by simp [Image.channels, hcolour]
    simp only [Bool.false_eq_true, if_false, if_true]
    rw [h.alignDown_width (n := image.width) (by simp [hone]),
      @mapM_eq_map _ _ _ (fun p => image.component 0 p.x.toNat p.y.toNat) line]
    · simp only [Option.bind_some, Image.profile, hcolour]
      rfl
    · intro p hp
      obtain ⟨⟨hx, hxw⟩, hy, hyh⟩ := hinside p hp
      obtain ⟨x, y⟩ := p
      lift x to Nat using hx
      lift y to Nat using hy
      have hpixel := h.pixel_inside (x := x) (y := y) (by simpa using hxw) (by simpa using hyh)
      obtain ⟨value, hvalue, hcomponent⟩ := h.readByte_mono hcolour (x := x) (y := y)
        (by simpa using hxw) (by simpa using hyh)
      rw [hone] at hpixel
      unfold profileMono
      dsimp only
      rw [if_pos (by omega), hvalue, Option.map_some, hcomponent]
      rfl
  | true =>
    have hthree : image.channels = 3 := by simp [Image.channels, hcolour]
    simp only [if_true]
    rw [if_neg (by norm_num), h.alignDown_width (n := image.width * 3) (by simp [hthree]),
      @mapM_eq_map _ _ _ (fun p => (image.component 0 p.x.toNat p.y.toNat,
        image.component 1 p.x.toNat p.y.toNat, image.component 2 p.x.toNat p.y.toNat)) line]
    · simp only [Option.bind_some, Image.profile, hcolour, List.map_map, if_true]
      rfl
    · intro p hp
      obtain ⟨⟨hx, hxw⟩, hy, hyh⟩ := hinside p hp
      obtain ⟨x, y⟩ := p
      lift x to Nat using hx
      lift y to Nat using hy
      have hpixel := h.pixel_inside (x := x) (y := y) (by simpa using hxw) (by simpa using hyh)
      obtain ⟨r, g, b, hr, hg, hb, hrComponent, hgComponent, hbComponent⟩ :=
        h.readByte_pixel hcolour (x := x) (y := y) (by simpa using hxw) (by simpa using hyh)
      rw [hthree] at hpixel
      unfold profileRgb
      dsimp only
      rw [if_pos (by omega), hb, hg, hr]
      simp only [Option.bind_eq_bind, Option.bind_some, hrComponent, hgComponent, hbComponent,
        Int.toNat_natCast]

theorem decodePixel_eq (h : HoldsImage bytes image offset stride)
    (hx : x < image.width) (hy : y < image.height) :
    decodePixel bytes (if image.colour then 24 else 8) (14 + 40) (offset + y * stride) x =
      some (image.pixel x y).rgba := by
  unfold decodePixel Image.pixel
  cases hcolour : image.colour with
  | false =>
    obtain ⟨value, hvalue, hcomponent⟩ := h.readByte_mono hcolour hx hy
    have hentry : ∀ c : Nat, c < 3 → ∀ i : Int, i = ((14 + 40 : Nat) : Int) + value.toNat * 4 + c →
        readByte bytes i = some value := by
      intro c hc i hi
      rw [readByte_eq (n := 54 + value.toNat * 4 + c) (by push_cast at *; omega),
        (h.palette hcolour).2 value c hc]
    simp only [Bool.false_eq_true, if_false, if_true, hvalue, Option.map_some,
      Option.bind_eq_bind, Option.bind_some]
    rw [hentry 2 (by omega) _ (by push_cast; ring), hentry 1 (by omega) _ (by push_cast; ring),
      hentry 0 (by omega) _ (by push_cast; ring)]
    simp only [Option.bind_some, ← hcomponent, PixelSample.rgba, UInt8.ofNat_toNat]
  | true =>
    obtain ⟨r, g, b, hr, hg, hb, hrComponent, hgComponent, hbComponent⟩ :=
      h.readByte_pixel hcolour hx hy
    simp only [if_true, Nat.reduceEqDiff, if_false, hr, hg, hb, Option.bind_eq_bind,
      Option.bind_some, ← hrComponent, ← hgComponent, ← hbComponent, PixelSample.rgba,
      UInt8.ofNat_toNat]

theorem decodeBmp_eq (h : HoldsImage bytes image offset stride) :
    decodeBmp bytes = some (some ⟨image.width, image.height, image.picture⟩) := by
  have hlength := h.length_ge
  have hwide := h.wide
  have htall := h.tall
  have hfront := h.front
  have hsize := h.length
  have hbits : (if image.colour = true then 24 else 8) = image.channels * 8 := by
    unfold Image.channels
    split <;> rfl
  have hstride : alignDown (image.width * ((if image.colour = true then 24 else 8 : Nat) : Int) / 8 + 3) =
      stride := by
    apply h.alignDown_width
    rw [hbits]
    push_cast
    rw [← mul_assoc, Int.mul_ediv_cancel _ (by norm_num)]
  have hrows : ∀ y ∈ List.range image.height,
      (List.range image.width).mapM (decodePixel bytes (if image.colour = true then 24 else 8)
        (14 + 40) (offset + y * stride)) =
      some ((List.range image.width).map fun x => (image.pixel x y).rgba) := by
    intro y hy
    apply mapM_eq_map
    intro x hx
    exact h.decodePixel_eq (List.mem_range.mp hx) (List.mem_range.mp hy)
  unfold decodeBmp
  rw [if_neg (by simp [h.signature]; omega)]
  simp only [h.readI32LE_width, h.readI32LE_height, h.dataOffset, h.depth, h.header, h.plain,
    hstride, abs_neg, Nat.abs_cast, Int.toNat_natCast]
  rw [if_neg (by omega), if_neg (by split <;> simp), if_neg (by rw [hsize]; push_cast; omega),
    if_neg]
  · have hneg : -(image.height : Int) < 0 := by omega
    simp only [hneg, if_true]
    rw [mapM_eq_map hrows]
    simp only [Option.bind_eq_bind, Option.bind_some]
    rw [Image.picture, places, List.flatMap_assoc, ← List.flatMap_def, List.flatten_eq_flatMap,
      List.flatMap_assoc]
    simp only [List.flatMap_def, List.map_map]
    rfl
  · rintro ⟨hmono, hover⟩
    cases hcolour : image.colour with
    | false =>
      have hpalette := (h.palette hcolour).1
      omega
    | true => simp [hcolour] at hmono

theorem measures (h : HoldsImage bytes image offset stride) :
    Measures image 256 (fun x y => samplePixel bytes x y image.width image.height)
      (computeHistogram bytes) fun rounds => sampleLineProfile rounds bytes where
  inside x y hx hy := h.samplePixel_inside hx hy
  outside x y hout := by
    unfold samplePixel
    rw [if_pos hout]
  histogram := h.computeHistogram_eq
  profile x0 y0 x1 y1 rounds hrounds := h.sampleLineProfile_eq hrounds x0 y0 x1 y1

end HoldsImage

def Image.ofBytes (width height : Nat) (colour : Bool) (pixels : List UInt8)
    (hsize : pixels.length = width * height * (if colour then 3 else 1)) : Image where
  width := width
  height := height
  colour := colour
  samples := pixels.map UInt8.toNat
  size := by rw [List.length_map, hsize]

theorem Image.component_ofBytes {width height : Nat} {colour : Bool} {pixels : List UInt8}
    (hsize : pixels.length = width * height * (if colour then 3 else 1)) {c : Nat} {value : UInt8}
    (hvalue : pixels[(y * width + x) * (if colour then 3 else 1) + c]? = some value) :
    value.toNat = (Image.ofBytes width height colour pixels hsize).component c x y := by
  have hsample : (pixels.map UInt8.toNat)[(y * width + x) * (if colour then 3 else 1) + c]? =
      some value.toNat := by
    rw [List.getElem?_map, hvalue, Option.map_some]
  rw [Image.component, List.getD_eq_getElem?_getD]
  exact (congrArg (Option.getD · 0) hsample).symm

end VivaGenicam.Studio
