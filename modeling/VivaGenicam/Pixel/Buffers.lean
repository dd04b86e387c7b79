import VivaGenicam.Pixel.Paths

/-!
A converter's buffers. The code clears each buffer before it appends to it, lends a
whole run without touching one, and writes a demosaiced pixel at its index; what it
returns does not depend on what earlier frames left behind.
-/

namespace VivaGenicam.Pixel

open Library.Checked

def cleared {α : Type} (_ : List α) : List α := []

/-- Append what each element yields to a buffer. -/
def extendEach {α β : Type} (step : α → Except Stop (List β)) (items : List α) (out : List β) :
    Except Stop (List β) :=
  items.foldlM (fun out item => do .ok (out ++ (← step item))) out

theorem extendEach_eq {α β : Type} (step : α → Except Stop (List β)) (items : List α)
    (out : List β) :
    extendEach step items out = (appendEach step items).map (out ++ ·) := by
  unfold extendEach
  induction items generalizing out with
  | nil => simp [appendEach, Except.map, pure, Except.pure]
  | cons item rest ih =>
    rw [List.foldlM_cons, appendEach]
    cases step item with
    | error stop => rfl
    | ok first =>
      rw [ok_bind, ok_bind, ih]
      cases appendEach step rest with
      | error stop => rfl
      | ok others => simp only [Except.map, ok_bind, List.append_assoc]

/-- Write what each index yields at its place, pieces of `size` from `base` on. -/
def writeEach {β : Type} (step : Nat → Except Stop (List β)) (size base count : Nat)
    (out : List β) : Except Stop (List β) :=
  (List.range count).foldlM (fun out i => do
    let piece ← step i
    orPanic (overwrite out ((base + i) * size) ((base + i) * size + size) piece)) out

theorem writeEach_eq {β : Type} {step : Nat → Except Stop (List β)} {found : Nat → List β}
    {size base count : Nat} (h : ∀ i < count, step i = .ok (found i) ∧ (found i).length = size)
    {front rest : List β} (hfront : front.length = base * size)
    (hrest : count * size ≤ rest.length) :
    writeEach step size base count (front ++ rest) =
      .ok (front ++ (List.range count).flatMap found ++ rest.drop (count * size)) := by
  unfold writeEach
  induction count with
  | zero => simp [pure, Except.pure]
  | succ count ih =>
    rw [Nat.succ_mul] at hrest
    obtain ⟨hstep, hlength⟩ := h count (Nat.lt_succ_self _)
    have hdone : ((List.range count).flatMap found).length = count * size := by
      have hsizes : ∀ i ∈ List.range count, (found i).length = size := fun i hi =>
        (h i (by have := List.mem_range.mp hi; omega)).2
      rw [List.length_flatMap, List.map_congr_left hsizes]
      simp
    have hplace : (front ++ (List.range count).flatMap found).length = (base + count) * size := by
      rw [List.length_append, hfront, hdone, Nat.add_mul]
    have hwritten : Library.Buffer.write
        (front ++ (List.range count).flatMap found ++ rest.drop (count * size))
        ((base + count) * size) (found count) =
        front ++ (List.range count).flatMap found ++ found count ++
          rest.drop (count * size + size) := by
      rw [Library.Buffer.write, List.take_left' hplace, hlength, ← List.drop_drop,
        List.drop_left' hplace, List.drop_drop]
    have hinside : (base + count) * size + size ≤
        (front ++ (List.range count).flatMap found ++ rest.drop (count * size)).length := by
      rw [List.length_append, hplace, List.length_drop]
      omega
    rw [List.range_succ, List.foldlM_append, ih (fun i hi => h i (by omega)) (by omega), ok_bind,
      List.foldlM_cons, hstep, ok_bind, overwrite_eq (by omega) hinside (by omega), orPanic_some,
      ok_bind, List.foldlM_nil, hwritten, List.flatMap_append, List.flatMap_cons, List.flatMap_nil,
      List.append_nil, Nat.succ_mul]
    simp only [List.append_assoc]
    rfl

def unpackRowsInto (single : Single) (rows : Rows) (out : List UInt16) :
    Except Stop (List UInt16) := do
  let _ ← rows.total
  extendEach (fun y => do unpackAppend single rows.pixels (← rows.row y)) (List.range rows.count)
    (cleared out)

def narrowInto (samples : List UInt16) (bits : Nat) (out : List UInt8) : List UInt8 :=
  cleared out ++ samples.map fun v => narrow v bits

/-- The 8-bit samples of `rows`, and the scratch buffer after. -/
def gather8Into (rows : Rows) (scratch : List UInt8) : Except Stop (List UInt8 × List UInt8) :=
  if rows.count ≤ 1 then do
    let total ← rows.total
    let lent ← orPanic (slice rows.src 0 total)
    .ok (lent, scratch)
  else do
    let gathered ← extendEach (fun y => do orPanic (slice (← rows.row y) 0 rows.pixels))
      (List.range rows.count) (cleared scratch)
    .ok (gathered, gathered)

/-- A bilinear demosaic into a buffer, each pixel at its place. -/
def demosaicInto {α : Type} [Sample α] (mosaic : List α) (width height : Nat)
    (offsets : Nat × Nat) (out : List α) : Except Stop (List α) := do
  let pixels ← orPanic (mul width height)
  let size ← orPanic (mul pixels 3)
  let blank := Library.Buffer.resize (cleared out) size (Sample.narrow 0)
  if width = 0 ∨ height = 0 then .ok blank
  else
    let row := fun (y : Nat) => do
      let start ← orPanic (mul y width)
      orPanic (slice mosaic start width)
    (List.range height).foldlM (fun out y => do
      let above ← row (y - 1)
      let here ← row y
      let below ← row (min (y + 1) (height - 1))
      writeEach (demosaicPixel above here below width offsets.1 ((y + offsets.2) % 2)) 3
        (y * width) width out) blank

namespace Converter

def gray8InPlace (converter : Converter) (format : PixelFormat) (width height : UInt32)
    (rowStride : Option Nat) (src : List UInt8) : Except Stop (List UInt8 × Converter) :=
  match layout format with
  | some (.mono single) => do
    let rows ← rows format width height rowStride src
    if single.is8Bit then
      let (gray, out) ← gather8Into rows converter.out
      .ok (gray, { converter with out := out })
    else
      let samples ← unpackRowsInto single rows converter.samples
      let out := narrowInto samples single.bits converter.out
      .ok (out, { converter with samples := samples, out := out })
  | _ => .error (.error (.unsupported format))

/-- `rgb8_into` with the buffer it appends to. -/
def rgb8IntoInPlace (converter : Converter) (format : PixelFormat) (width height : UInt32)
    (rowStride : Option Nat) (src : List UInt8) (out : List UInt8) :
    Except Stop (List UInt8 × Converter) :=
  match layout format with
  | none => .error (.error (.unsupported format))
  | some layout => do
    let rows ← rows format width height rowStride src
    let out := cleared out
    match layout with
    | .mono single =>
      if single.is8Bit then
        let out ← extendEach (fun y => do
          .ok (triple (← orPanic (slice (← rows.row y) 0 rows.pixels)))) (List.range rows.count) out
        .ok (out, converter)
      else
        let samples ← unpackRowsInto single rows converter.samples
        .ok (out ++ triple (samples.map fun v => narrow v single.bits),
          { converter with samples := samples })
    | .bayer single offsets =>
      if single.is8Bit then
        let (lent, mosaic) ← gather8Into rows converter.mosaic
        let out ← demosaicInto lent width.toNat height.toNat offsets out
        .ok (out, { converter with mosaic := mosaic })
      else
        let samples ← unpackRowsInto single rows converter.samples
        let mosaic := narrowInto samples single.bits converter.mosaic
        let out ← demosaicInto mosaic width.toNat height.toNat offsets out
        .ok (out, { converter with samples := samples, mosaic := mosaic })
    | .rgb order =>
      let out ← extendEach (fun y => do rgbAppend order rows.pixels (← rows.row y))
        (List.range rows.count) out
      .ok (out, converter)
    | .yuv order =>
      let total ← rows.total
      let _ ← orPanic (mul total 3)
      let out ← extendEach (fun y => do yuvAppend order rows.pixels (← rows.row y))
        (List.range rows.count) out
      .ok (out, converter)

def rgb8InPlace (converter : Converter) (format : PixelFormat) (width height : UInt32)
    (rowStride : Option Nat) (src : List UInt8) : Except Stop (List UInt8 × Converter) := do
  let lent ←
    if format = .rgb8Packed then do
      let rows ← rows format width height rowStride src
      if rows.count ≤ 1 then
        let bytes ← orPanic (mul rows.pixels 3)
        let run ← orPanic (slice rows.src 0 bytes)
        .ok (some run)
      else .ok none
    else .ok none
  match lent with
  | some run => .ok (run, converter)
  | none => do
    -- The result's buffer is taken out of the converter while it is filled.
    let taken := converter.out
    let (out, after) ← { converter with out := [] }.rgb8IntoInPlace format width height rowStride
      src taken
    .ok (out, { after with out := out })

end Converter

theorem extendEach_cleared {α β : Type} (step : α → Except Stop (List β)) (items : List α)
    (out : List β) : extendEach step items (cleared out) = appendEach step items := by
  rw [extendEach_eq]
  cases appendEach step items with
  | ok found => rfl
  | error stop => rfl

theorem unpackRowsInto_eq (single : Single) (rows : Rows) (out : List UInt16) :
    unpackRowsInto single rows out = unpackRows single rows := by
  simp only [unpackRowsInto, unpackRows, extendEach_cleared]

theorem gather8Into_eq (rows : Rows) (scratch : List UInt8) :
    (gather8Into rows scratch).map Prod.fst = gather8 rows := by
  unfold gather8Into gather8
  split
  · cases rows.total with
    | error stop => rfl
    | ok total =>
      simp only [ok_bind]
      cases orPanic (slice rows.src 0 total) with
      | error stop => rfl
      | ok lent => rfl
  · rw [extendEach_cleared]
    cases appendEach (fun y => do orPanic (slice (← rows.row y) 0 rows.pixels))
        (List.range rows.count) with
    | error stop => rfl
    | ok gathered => rfl

theorem demosaicInto_eq {α : Type} [Sample α] {mosaic : List α} {width height : Nat}
    (offsets : Nat × Nat) (hlength : mosaic.length = width * height) (out : List α) :
    demosaicInto mosaic width height offsets out =
      demosaicBilinear mosaic width height offsets := by
  rcases demosaicBilinear_cases offsets hlength with ⟨hfits, heq⟩ | ⟨hlarge, heq⟩
  · rw [heq, demosaicInto, mul_eq (by omega), orPanic_some, ok_bind, mul_eq hfits, orPanic_some,
      ok_bind]
    have hblank : Library.Buffer.resize (cleared out) (width * height * 3) (Sample.narrow 0) =
        List.replicate (width * height * 3) (Sample.narrow 0 : α) := by
      simp [Library.Buffer.resize, cleared]
    rw [hblank]
    split
    · rename_i hempty
      rcases hempty with rfl | rfl
      · simp [demosaiced]
      · simp [demosaiced]
    · set line := fun y => (List.range width).flatMap fun x =>
        (narrowed (colours (mosaicValue mosaic width) width height offsets x y) : List α) with hline
      have hlines : ∀ n, ((List.range n).flatMap line).length = n * width * 3 := by
        intro n
        have hsizes : ∀ y ∈ List.range n, (line y).length = width * 3 := fun y _ =>
          length_demosaicedLine mosaic width height offsets y
        rw [List.length_flatMap, List.map_congr_left hsizes]
        simp [Nat.mul_assoc]
      have hwhole : ∀ n ≤ height, (List.range n).foldlM (fun out y => do
          let above ← (do
            let start ← orPanic (mul (y - 1) width)
            orPanic (slice mosaic start width))
          let here ← (do
            let start ← orPanic (mul y width)
            orPanic (slice mosaic start width))
          let below ← (do
            let start ← orPanic (mul (min (y + 1) (height - 1)) width)
            orPanic (slice mosaic start width))
          writeEach (demosaicPixel above here below width offsets.1 ((y + offsets.2) % 2)) 3
            (y * width) width out) (List.replicate (width * height * 3) (Sample.narrow 0)) =
          Except.ok (ε := Stop) ((List.range n).flatMap line ++
            List.replicate ((height - n) * width * 3) (Sample.narrow 0)) := by
        intro n hn
        induction n with
        | zero =>
          rw [List.range_zero, List.foldlM_nil, List.flatMap_nil, List.nil_append, Nat.sub_zero,
            Nat.mul_comm height]
          rfl
        | succ n ih =>
          obtain ⟨above, habove, hvalueAbove, hrowAbove⟩ :=
            mosaic_row hlength (by omega) (show n - 1 < height by omega)
          obtain ⟨here, hhere, hvalueHere, hrowHere⟩ :=
            mosaic_row hlength (by omega) (show n < height by omega)
          obtain ⟨below, hbelow, hvalueBelow, hrowBelow⟩ :=
            mosaic_row hlength (by omega) (show min (n + 1) (height - 1) < height by omega)
          have hrest : (height - n) * width * 3 = width * 3 + (height - (n + 1)) * width * 3 := by
            rw [show height - n = height - (n + 1) + 1 by omega]
            ring
          have hwritten := @writeEach_eq _
            (demosaicPixel above here below width offsets.1 ((n + offsets.2) % 2))
            (fun x => narrowed (colours (mosaicValue mosaic width) width height offsets x n)) 3
            (n * width) width
            (fun x hx => ⟨demosaicPixel_eq offsets hx habove hhere hbelow hvalueAbove hvalueHere
              hvalueBelow, length_narrowed _⟩) ((List.range n).flatMap line)
            (List.replicate ((height - n) * width * 3) (Sample.narrow 0)) (hlines n)
            (by rw [List.length_replicate, hrest]; omega)
          rw [List.range_succ, List.foldlM_append, ih (by omega), ok_bind, List.foldlM_cons,
            hrowAbove, hrowHere, hrowBelow, ok_bind, ok_bind, ok_bind, hwritten, ok_bind,
            List.foldlM_nil, List.drop_replicate, hrest, Nat.add_sub_cancel_left,
            List.flatMap_append, List.flatMap_cons, List.flatMap_nil, List.append_nil]
          rfl
      have hall := hwhole height le_rfl
      rw [Nat.sub_self, Nat.zero_mul, Nat.zero_mul, List.replicate_zero, List.append_nil] at hall
      exact hall
  · rw [heq, demosaicInto]
    rcases Nat.lt_or_ge (width * height) (2 ^ 64) with hpixels | hpixels
    · rw [mul_eq hpixels, orPanic_some, ok_bind, mul_eq_none hlarge]
      rfl
    · rw [mul_eq_none hpixels]
      rfl

end VivaGenicam.Pixel
