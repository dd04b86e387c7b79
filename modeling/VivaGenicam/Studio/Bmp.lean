import VivaGenicam.Library.Bytes
import VivaGenicam.Library.PaddedRows
import VivaGenicam.Pixel.Geometry

/-!
The viewer's BMP files: 8-bit grey with a palette or 24-bit colour, top row first, each
row padded to four bytes. A file's headers describe the bytes that follow them, and a
reader that goes by the headers finds the pixels encoded.
-/

namespace VivaGenicam.Studio

open Library.Checked Library.Bytes Library.PaddedRows Pixel

inductive BmpError where
  | sizeMismatch (expected actual : Nat)
  | sizeOverflow
deriving DecidableEq, Repr

/-- How an encoder ends without a file. -/
inductive BmpStop where
  | error (error : BmpError)
  | panic
deriving DecidableEq, Repr

def BmpStop.orPanic {α : Type} : Option α → Except BmpStop α
  | some value => .ok value
  | none => .error .panic

structure BmpEncoder where
  width : UInt32
  height : UInt32
  headerPrefix : List UInt8
  rowStride : Nat
  imageSize : Nat
deriving DecidableEq, Repr

namespace BmpEncoder

/-- `-(height as i32)`, as the word it is written as. -/
def negated (height : UInt32) : Option UInt32 :=
  if height.toNat = 2 ^ 31 then none else some (-height)

/-- The file header and the DIB header of a top-down image. -/
def headers (width height : UInt32) (headerSize imageSize bits colors : Nat) :
    Option (List UInt8) := do
  let fileSize ← add headerSize imageSize
  let topDown ← negated height
  some ([0x42, 0x4D] ++ (encodeLE 4 fileSize ++ (encodeLE 2 0 ++ (encodeLE 2 0 ++
    (encodeLE 4 headerSize ++ (encodeLE 4 40 ++ (encodeLE 4 width.toNat ++
    (encodeLE 4 topDown.toNat ++ (encodeLE 2 1 ++ (encodeLE 2 bits ++ (encodeLE 4 0 ++
    (encodeLE 4 imageSize ++ (encodeLE 4 0 ++ (encodeLE 4 0 ++ (encodeLE 4 colors ++
    encodeLE 4 0)))))))))))))))

/-- The grey palette: blue, green, red and nothing of each entry. -/
def palette : List UInt8 :=
  (List.range 256).flatMap fun value =>
    [UInt8.ofNat value, UInt8.ofNat value, UInt8.ofNat value, 0]

def new (width height : UInt32) : Option BmpEncoder := do
  let rowStride ← mul ((width.toNat + 3) / 4) 4
  let imageSize ← mul rowStride height.toNat
  let headerPrefix ← headers width height (14 + 40 + 256 * 4) imageSize 8 256
  some ⟨width, height, headerPrefix ++ palette, rowStride, imageSize⟩

/-- A 24-bit encoder; `& !3` drops what is over a multiple of four. -/
def newRgb24 (width height : UInt32) : Option BmpEncoder := do
  let rowBytes ← mul width.toNat 3
  let rowStride := (rowBytes + 3) / 4 * 4
  let imageSize ← mul rowStride height.toNat
  let headerPrefix ← headers width height (14 + 40) imageSize 24 0
  some ⟨width, height, headerPrefix, rowStride, imageSize⟩

def grayRow (encoder : BmpEncoder) (pixels buffer : List UInt8) (row : Nat) :
    Option (List UInt8) := do
  let rowWidth := encoder.width.toNat
  let padding := encoder.rowStride - rowWidth
  let start ← mul row rowWidth
  let line ← slice pixels start rowWidth
  if padding > 0 then
    let pad ← slice (List.replicate 4 0) 0 padding
    some (buffer ++ line ++ pad)
  else
    some (buffer ++ line)

def encodeGray8 (encoder : BmpEncoder) (pixels : List UInt8) :
    Except BmpStop (List UInt8) :=
  match mul encoder.width.toNat encoder.height.toNat with
  | none => .error (.error .sizeOverflow)
  | some expected =>
    if pixels.length ≠ expected then .error (.error (.sizeMismatch expected pixels.length))
    else BmpStop.orPanic
      ((List.range encoder.height.toNat).foldlM (encoder.grayRow pixels) encoder.headerPrefix)

def swapped : List UInt8 → List UInt8
  | first :: second :: third :: rest => third :: second :: first :: swapped rest
  | _ => []

/-- Write one row over the blank image, blue first. -/
def rgbRow (encoder : BmpEncoder) (rowWidthBytes : Nat) (image : List UInt8)
    (row : List UInt8 × Nat) : Option (List UInt8) := do
  let start ← mul row.2 encoder.rowStride
  let stop ← add start rowWidthBytes
  overwrite image start stop (swapped row.1)

def encodeRgb24 (encoder : BmpEncoder) (pixels : List UInt8) :
    Except BmpStop (List UInt8) :=
  match (mul encoder.width.toNat encoder.height.toNat).bind (mul · 3) with
  | none => .error (.error .sizeOverflow)
  | some expected =>
    if pixels.length ≠ expected then .error (.error (.sizeMismatch expected pixels.length))
    else BmpStop.orPanic do
      let rowWidthBytes ← mul encoder.width.toNat 3
      let blank := List.replicate encoder.imageSize 0
      let image ←
        if rowWidthBytes > 0 then
          (chunksExact rowWidthBytes pixels).zipIdx.foldlM (encoder.rgbRow rowWidthBytes) blank
        else some blank
      some (encoder.headerPrefix ++ image)

end BmpEncoder

/-- An image's rows, by the fields of a file: the width, the height below zero, the bits
of a pixel and where the pixels start. -/
def bmpRows (bmp : List UInt8) : List (List UInt8) :=
  let bytes := fieldLE bmp 18 4 * (fieldLE bmp 28 2 / 8)
  readRows (bmp.drop (fieldLE bmp 10 4)) ((bytes + 3) / 4 * 4) bytes (2 ^ 32 - fieldLE bmp 22 4)

def paletteRgb (bmp : List UInt8) (index : UInt8) : List UInt8 :=
  BmpEncoder.swapped ((bmp.drop (54 + 4 * index.toNat)).take 3)

/-- The pixels of a top-down BMP as RGB, grey through the palette. -/
def bmpRgb (bmp : List UInt8) : List UInt8 :=
  (bmpRows bmp).flatMap fun row =>
    if fieldLE bmp 28 2 = 8 then row.flatMap (paletteRgb bmp) else BmpEncoder.swapped row

/-- A file's headers are true of its bytes. -/
structure Describes (bmp : List UInt8) (width height : UInt32) (bits colors : Nat) : Prop where
  signature : bmp.take 2 = [0x42, 0x4D]
  fileSize : fieldLE bmp 2 4 = bmp.length
  dataOffset : fieldLE bmp 10 4 = 54 + 4 * colors
  columns : fieldLE bmp 18 4 = width.toNat
  lines : fieldLE bmp 22 4 = 2 ^ 32 - height.toNat
  depth : fieldLE bmp 28 2 = bits
  imageSize : fieldLE bmp 34 4 = (width.toNat * (bits / 8) + 3) / 4 * 4 * height.toNat
  paletteSize : fieldLE bmp 46 4 = colors
  whole : bmp.length = fieldLE bmp 10 4 + fieldLE bmp 34 4

/-- A file that describes itself and is read back as an image. -/
structure Shows (bmp : List UInt8) (width height : UInt32) (bits colors : Nat)
    (rgb : List UInt8) : Prop where
  describes : Describes bmp width height bits colors
  pixels : bmpRgb bmp = rgb

namespace BmpEncoder

variable {width height : UInt32}

theorem negated_eq (hpos : 0 < height.toNat) (hside : height.toNat < 2 ^ 31) :
    ∃ topDown, negated height = some topDown ∧ topDown.toNat = 2 ^ 32 - height.toNat := by
  refine ⟨-height, if_neg (by omega), ?_⟩
  rw [UInt32.toNat_neg, Nat.mod_eq_of_lt (by simp only [UInt32.size]; omega)]
  rfl

theorem fieldLE_written (fieldWidth value : Nat) (after : List UInt8) :
    fieldLE (encodeLE fieldWidth value ++ after) 0 fieldWidth = value % 256 ^ fieldWidth := by
  rw [fieldLE, List.drop_zero, List.take_left' (length_encodeLE fieldWidth value),
    decodeLE_encodeLE]

/-- The fields of a file that starts with these headers. -/
structure Fields (bytes : List UInt8) (width height : UInt32)
    (fileSize headerSize imageSize bits colors : Nat) : Prop where
  signature : bytes.take 2 = [0x42, 0x4D]
  fileSize : fieldLE bytes 2 4 = fileSize % 256 ^ 4
  dataOffset : fieldLE bytes 10 4 = headerSize % 256 ^ 4
  header : fieldLE bytes 14 4 = 40
  columns : fieldLE bytes 18 4 = width.toNat
  lines : fieldLE bytes 22 4 = 2 ^ 32 - height.toNat
  depth : fieldLE bytes 28 2 = bits % 256 ^ 2
  plain : fieldLE bytes 30 4 = 0
  imageSize : fieldLE bytes 34 4 = imageSize % 256 ^ 4
  paletteSize : fieldLE bytes 46 4 = colors % 256 ^ 4

theorem headers_fields {headerSize imageSize bits colors : Nat} {front : List UInt8}
    (hheaders : headers width height headerSize imageSize bits colors = some front)
    (htall : 0 < height.toNat ∧ height.toNat < 2 ^ 31) :
    front.length = 54 ∧ ∀ rest, Fields (front ++ rest) width height (headerSize + imageSize)
      headerSize imageSize bits colors := by
  obtain ⟨topDown, hnegated, htopDown⟩ := negated_eq htall.1 htall.2
  have hwidth := width.toNat_lt
  have hfront : ∀ {offset fieldWidth : Nat} (after : List UInt8), 2 ≤ offset →
      fieldLE ([0x42, 0x4D] ++ after) offset fieldWidth = fieldLE after (offset - 2) fieldWidth :=
    fun after h => fieldLE_append after _ h
  rw [headers, hnegated] at hheaders
  obtain ⟨fileSize, hadd, hheaders⟩ := Option.bind_eq_some_iff.mp hheaders
  rw [add, Option.ite_none_right_eq_some, Option.some.injEq] at hadd
  obtain ⟨-, rfl⟩ := hadd
  simp only [Option.bind_eq_bind, Option.bind_some, Option.some.injEq] at hheaders
  subst hheaders
  refine ⟨?_, fun rest => ?_⟩
  · simp only [List.length_append, length_encodeLE, List.length_cons, List.length_nil]
  · simp only [List.append_assoc]
    constructor
    · rfl
    all_goals
      simp (disch := omega) only [hfront, fieldLE_skip, Nat.reduceSub]
      rw [fieldLE_written]
    · rw [Nat.mod_eq_of_lt (by norm_num)]
    · rw [Nat.mod_eq_of_lt (by norm_num; omega)]
    · rw [Nat.mod_eq_of_lt (by norm_num; omega), htopDown]
    · rfl

theorem describes_headers {imageSize bits colors : Nat} (hpos : 0 < height.toNat)
    (hside : height.toNat < 2 ^ 31) (hsmall : 54 + 4 * colors + imageSize < 2 ^ 32)
    (hbits : bits < 2 ^ 16)
    (himage : imageSize = (width.toNat * (bits / 8) + 3) / 4 * 4 * height.toNat) :
    ∃ front, headers width height (54 + 4 * colors) imageSize bits colors = some front ∧
      front.length = 54 ∧
      ∀ rest, rest.length = 4 * colors + imageSize →
        Describes (front ++ rest) width height bits colors := by
  obtain ⟨topDown, hnegated, -⟩ := negated_eq hpos hside
  obtain ⟨front, hheaders⟩ : ∃ front,
      headers width height (54 + 4 * colors) imageSize bits colors = some front :=
    ⟨_, by rw [headers, add_eq (by omega), hnegated]; rfl⟩
  obtain ⟨hfront, hfields⟩ := headers_fields hheaders ⟨hpos, hside⟩
  refine ⟨front, hheaders, hfront, fun rest hrest => ?_⟩
  have h := hfields rest
  have hfield : ∀ {value : Nat}, value < 2 ^ 32 → value % 256 ^ 4 = value :=
    fun hvalue => Nat.mod_eq_of_lt (by norm_num; exact hvalue)
  have hlength : (front ++ rest).length = 54 + 4 * colors + imageSize := by
    rw [List.length_append, hfront, hrest]
    ring
  exact
    { signature := h.signature
      fileSize := by rw [h.fileSize, hfield hsmall, hlength]
      dataOffset := by rw [h.dataOffset, hfield (by omega)]
      columns := h.columns
      lines := h.lines
      depth := by rw [h.depth, Nat.mod_eq_of_lt (by norm_num; exact hbits)]
      imageSize := by rw [h.imageSize, hfield (by omega), himage]
      paletteSize := by rw [h.paletteSize, hfield (by omega)]
      whole := by rw [h.dataOffset, h.imageSize, hfield (by omega), hfield (by omega), hlength] }

variable {pixels : List UInt8}

theorem grayRows_eq {encoder : BmpEncoder} {count : Nat}
    (hstride : encoder.rowStride = (encoder.width.toNat + 3) / 4 * 4)
    (hpixels : count * encoder.width.toNat ≤ pixels.length) (hsmall : pixels.length < 2 ^ 64)
    (buffer : List UInt8) :
    (List.range count).foldlM (encoder.grayRow pixels) buffer =
      some (buffer ++ laid encoder.rowStride 0
        (readRows pixels encoder.width.toNat encoder.width.toNat count)) := by
  induction count with
  | zero => simp [readRows, laid]
  | succ count ih =>
    rw [Nat.succ_mul] at hpixels
    have hline : ((pixels.drop (count * encoder.width.toNat)).take encoder.width.toNat).length =
        encoder.width.toNat := by
      rw [List.length_take, List.length_drop]
      omega
    have hrow : ∀ before, encoder.grayRow pixels before count = some (before ++
        ((pixels.drop (count * encoder.width.toNat)).take encoder.width.toNat ++
          List.replicate (encoder.rowStride - encoder.width.toNat) 0)) := by
      intro before
      rw [grayRow, mul_eq (by omega), Option.bind_eq_bind, Option.bind_some, slice_eq hpixels,
        Option.bind_eq_bind, Option.bind_some]
      split
      · rw [slice_eq (by rw [List.length_replicate]; omega), List.drop_zero, List.take_replicate,
          Nat.min_eq_left (by omega), Option.bind_some, List.append_assoc]
      · rw [show encoder.rowStride - encoder.width.toNat = 0 by omega, List.replicate_zero,
          List.append_nil]
    rw [List.range_succ, List.foldlM_append, ih (by omega), Option.bind_eq_bind, Option.bind_some,
      List.foldlM_cons, hrow, Option.bind_eq_bind, Option.bind_some, List.foldlM_nil,
      readRows_concat, laid_concat, hline, List.append_assoc]
    rfl

theorem encodeGray8_eq {encoder : BmpEncoder} {pixels : List UInt8}
    (hstride : encoder.rowStride = (encoder.width.toNat + 3) / 4 * 4)
    (hpixels : pixels.length = encoder.width.toNat * encoder.height.toNat) :
    encoder.encodeGray8 pixels = .ok (encoder.headerPrefix ++ laid encoder.rowStride 0
      (readRows pixels encoder.width.toNat encoder.width.toNat encoder.height.toNat)) := by
  have hfits := pixels_lt encoder.width encoder.height
  rw [encodeGray8, mul_eq hfits]
  dsimp only
  rw [if_neg (by rw [hpixels]; simp), grayRows_eq hstride
    (by rw [hpixels, Nat.mul_comm]) (by omega)]
  rfl

theorem length_swapped (h : 3 ∣ pixels.length) :
    (swapped pixels).length = pixels.length := by
  induction pixels using swapped.induct with
  | case1 first second third rest ih =>
    have hrest : 3 ∣ rest.length := by
      simp only [List.length_cons] at h
      omega
    simp only [swapped, List.length_cons, ih hrest]
  | case2 pixels hshort =>
    rcases pixels with _ | ⟨first, _ | ⟨second, _ | ⟨third, rest⟩⟩⟩
    · rfl
    · simp at h
    · simp at h
    · exact absurd rfl (hshort first second third rest)

theorem swapped_swapped (h : 3 ∣ pixels.length) :
    swapped (swapped pixels) = pixels := by
  induction pixels using swapped.induct with
  | case1 first second third rest ih =>
    have hrest : 3 ∣ rest.length := by
      simp only [List.length_cons] at h
      omega
    rw [swapped, swapped, ih hrest]
  | case2 pixels hshort =>
    rcases pixels with _ | ⟨first, _ | ⟨second, _ | ⟨third, rest⟩⟩⟩
    · rfl
    · simp at h
    · simp at h
    · exact absurd rfl (hshort first second third rest)

theorem rgbRows_eq {encoder : BmpEncoder} {rowWidthBytes count : Nat} {rows : List (List UInt8)}
    (hwidth : rowWidthBytes ≤ encoder.rowStride) (hthree : 3 ∣ rowWidthBytes)
    (hrows : ∀ row ∈ rows, row.length = rowWidthBytes) (hcount : rows.length ≤ count)
    (hsmall : count * encoder.rowStride < 2 ^ 64) :
    rows.zipIdx.foldlM (encoder.rgbRow rowWidthBytes)
        (List.replicate (count * encoder.rowStride) 0) =
      some (laid encoder.rowStride 0 (rows.map swapped) ++
        List.replicate ((count - rows.length) * encoder.rowStride) 0) := by
  induction rows using List.reverseRecOn with
  | nil => simp [laid]
  | append_singleton rows row ih =>
    obtain ⟨hfront, hrow⟩ := List.forall_mem_append.mp hrows
    have hlength : row.length = rowWidthBytes := hrow row (List.mem_singleton_self row)
    rw [List.length_append, List.length_singleton] at hcount
    have hswapped : ∀ swap ∈ rows.map swapped, swap.length ≤ encoder.rowStride := by
      intro swap hmem
      obtain ⟨source, hsource, rfl⟩ := List.mem_map.mp hmem
      rw [length_swapped (hfront source hsource ▸ hthree), hfront source hsource]
      exact hwidth
    have hlaid := length_laid (0 : UInt8) hswapped
    rw [List.length_map] at hlaid
    have hrest : (rows.length + 1) * encoder.rowStride ≤ count * encoder.rowStride :=
      Nat.mul_le_mul_right _ hcount
    have hleft : count - rows.length = count - (rows.length + 1) + 1 := by omega
    have hwrite := @write_laid _ encoder.rowStride (0 : UInt8) (rows.map swapped) (swapped row)
      (count - (rows.length + 1)) hswapped
      (by rw [length_swapped (hlength ▸ hthree), hlength]; exact hwidth)
    rw [List.length_map] at hwrite
    have hinside : rows.length * encoder.rowStride + rowWidthBytes ≤
        (laid encoder.rowStride 0 (rows.map swapped) ++
          List.replicate ((count - (rows.length + 1) + 1) * encoder.rowStride) 0).length := by
      rw [List.length_append, hlaid, List.length_replicate, Nat.succ_mul (count - _)]
      omega
    rw [Nat.succ_mul] at hrest
    have hstep : encoder.rgbRow rowWidthBytes (laid encoder.rowStride 0 (rows.map swapped) ++
          List.replicate ((count - (rows.length + 1) + 1) * encoder.rowStride) 0)
          (row, rows.length) =
        some (laid encoder.rowStride 0 (rows.map swapped ++ [swapped row]) ++
          List.replicate ((count - (rows.length + 1)) * encoder.rowStride) 0) := by
      unfold rgbRow
      dsimp only
      rw [mul_eq (by omega), Option.bind_eq_bind, Option.bind_some, add_eq (by omega),
        Option.bind_some, overwrite_eq (by omega) hinside
        (by rw [length_swapped (hlength ▸ hthree), hlength]; omega), hwrite]
    rw [List.zipIdx_append, List.foldlM_append, ih hfront (by omega), Option.bind_eq_bind,
      Option.bind_some, Nat.zero_add, List.zipIdx_singleton, List.foldlM_cons, hleft, hstep,
      Option.bind_eq_bind, Option.bind_some, List.foldlM_nil, List.map_append, List.length_append]
    rfl

theorem encodeRgb24_eq {encoder : BmpEncoder} (hwide : 0 < encoder.width.toNat)
    (hstride : encoder.rowStride = (encoder.width.toNat * 3 + 3) / 4 * 4)
    (himage : encoder.imageSize = encoder.rowStride * encoder.height.toNat)
    (hsmall : encoder.imageSize < 2 ^ 64)
    (hpixels : pixels.length = encoder.width.toNat * encoder.height.toNat * 3) :
    encoder.encodeRgb24 pixels = .ok (encoder.headerPrefix ++ laid encoder.rowStride 0
      ((readRows pixels (encoder.width.toNat * 3) (encoder.width.toNat * 3)
        encoder.height.toNat).map swapped)) := by
  have hwidth := encoder.width.toNat_lt
  have hfits := pixels_lt encoder.width encoder.height
  have hrows : encoder.width.toNat * encoder.height.toNat * 3 =
      encoder.height.toNat * (encoder.width.toNat * 3) := by ring
  have hbelow : encoder.height.toNat * (encoder.width.toNat * 3) ≤ encoder.imageSize := by
    rw [himage, Nat.mul_comm encoder.rowStride]
    exact Nat.mul_le_mul_left _ (by omega)
  have hcount : pixels.length / (encoder.width.toNat * 3) = encoder.height.toNat := by
    rw [hpixels, hrows, Nat.mul_div_cancel _ (by omega)]
  have hchunks : chunksExact (encoder.width.toNat * 3) pixels =
      readRows pixels (encoder.width.toNat * 3) (encoder.width.toNat * 3)
        encoder.height.toNat := by
    rw [chunksExact, hcount]
    rfl
  have hloop := @rgbRows_eq encoder (encoder.width.toNat * 3) encoder.height.toNat
    (readRows pixels (encoder.width.toNat * 3) (encoder.width.toNat * 3) encoder.height.toNat)
    (by omega) (Nat.dvd_mul_left 3 _)
    (fun row hmem => length_of_mem_readRows hmem le_rfl (by omega)) (by simp)
    (by rw [Nat.mul_comm, ← himage]; omega)
  rw [length_readRows, Nat.sub_self, Nat.zero_mul, List.replicate_zero, List.append_nil,
    Nat.mul_comm encoder.height.toNat, ← himage] at hloop
  rw [encodeRgb24, mul_eq hfits, Option.bind_some, mul_eq (by omega)]
  dsimp only
  rw [if_neg (by rw [hpixels]; simp), mul_eq (by omega), Option.bind_eq_bind, Option.bind_some,
    if_pos (by omega), hchunks, hloop]
  rfl

theorem palette_eq :
    palette = laid 4 0 ((List.range 256).map fun value => List.replicate 3 (UInt8.ofNat value)) := by
  rw [palette, laid, List.flatMap_map]
  rfl

theorem length_palette : palette.length = 1024 := by
  rw [palette_eq, length_laid 0 (by simp), List.length_map, List.length_range]

theorem paletteRgb_eq {front : List UInt8} (rest : List UInt8) (hfront : front.length = 54)
    (index : UInt8) : paletteRgb (front ++ (palette ++ rest)) index = [index, index, index] := by
  have hentry : ((List.range 256).map fun value =>
      List.replicate 3 (UInt8.ofNat value))[index.toNat]? = some (List.replicate 3 index) := by
    rw [List.getElem?_map, List.getElem?_range index.toNat_lt, Option.map_some, UInt8.ofNat_toNat]
  have hread := @take_drop_laid _ 4 3 index.toNat 0 _ _ rest (by norm_num) (by simp) hentry
  rw [paletteRgb, ← List.drop_drop, List.drop_left' hfront, palette_eq, Nat.mul_comm, hread]
  rfl

theorem bmpRows_eq {front : List UInt8} {bits colors : Nat} {rows : List (List UInt8)}
    (hfront : front.length = 54 + 4 * colors) (hheight : height.toNat = rows.length)
    (hrows : ∀ row ∈ rows, row.length = width.toNat * (bits / 8))
    (h : Describes (front ++ laid ((width.toNat * (bits / 8) + 3) / 4 * 4) 0 rows) width height
      bits colors) :
    bmpRows (front ++ laid ((width.toNat * (bits / 8) + 3) / 4 * 4) 0 rows) = rows := by
  have hside := height.toNat_lt
  have hread := @readRows_laid _ ((width.toNat * (bits / 8) + 3) / 4 * 4) _ 0 _ [] (by omega)
    hrows
  rw [List.append_nil] at hread
  rw [bmpRows, h.columns, h.depth, h.dataOffset, h.lines, List.drop_left' hfront,
    show 2 ^ 32 - (2 ^ 32 - height.toNat) = rows.length by omega, hread]

theorem new_shows (hpos : 0 < height.toNat) (hside : height.toNat < 2 ^ 31)
    (hsmall : 1078 + (width.toNat + 3) / 4 * 4 * height.toNat < 2 ^ 32) :
    ∃ encoder, new width height = some encoder ∧
      ∀ pixels, pixels.length = width.toNat * height.toNat →
        ∃ bmp, encoder.encodeGray8 pixels = .ok bmp ∧
          Shows bmp width height 8 256 (triple pixels) := by
  have hwidth := width.toNat_lt
  obtain ⟨front, hheaders, hfront, hdescribes⟩ := @describes_headers width height
    ((width.toNat + 3) / 4 * 4 * height.toNat) 8 256 hpos hside (by omega) (by norm_num)
    (by rw [Nat.mul_one])
  refine ⟨⟨width, height, front ++ palette, (width.toNat + 3) / 4 * 4,
    (width.toNat + 3) / 4 * 4 * height.toNat⟩, ?_, fun pixels hpixels => ?_⟩
  · rw [new, mul_eq (by omega), Option.bind_eq_bind, Option.bind_some, mul_eq (by omega),
      Option.bind_eq_bind, Option.bind_some, hheaders]
    rfl
  · set rows := readRows pixels width.toNat width.toNat height.toNat with hrowsEq
    have hrows : ∀ row ∈ rows, row.length = width.toNat := fun row hmem =>
      length_of_mem_readRows hmem le_rfl (by rw [hpixels, Nat.mul_comm])
    have hcount : rows.length = height.toNat := by rw [hrowsEq, length_readRows]
    have hlength := @length_laid _ ((width.toNat + 3) / 4 * 4) (0 : UInt8) rows
      (fun row hmem => by rw [hrows row hmem]; omega)
    have hwhole := hdescribes (palette ++ laid ((width.toNat + 3) / 4 * 4) 0 rows)
      (by rw [List.length_append, length_palette, hlength, hcount, Nat.mul_comm])
    have hread := @bmpRows_eq width height (front ++ palette) 8 256 rows
      (by rw [List.length_append, hfront, length_palette]) hcount.symm (by simpa using hrows)
      (by rw [List.append_assoc]; simpa using hwhole)
    simp only [Nat.reduceDiv, Nat.mul_one] at hread
    have hfile := @encodeGray8_eq ⟨width, height, front ++ palette, (width.toNat + 3) / 4 * 4,
      (width.toNat + 3) / 4 * 4 * height.toNat⟩ pixels rfl hpixels
    refine ⟨_, hfile, by rw [List.append_assoc]; exact hwhole, ?_⟩
    change bmpRgb (front ++ palette ++ laid ((width.toNat + 3) / 4 * 4) 0 rows) = triple pixels
    rw [bmpRgb, hread, List.append_assoc, hwhole.depth]
    calc
      rows.flatMap (fun row => if 8 = 8 then row.flatMap (paletteRgb (front ++ (palette ++
          laid ((width.toNat + 3) / 4 * 4) 0 rows))) else swapped row)
          = rows.flatMap fun row => row.flatMap fun v => [v, v, v] := by
        rw [funext (paletteRgb_eq _ hfront)]
        rfl
      _ = triple rows.flatten := by
        rw [triple, List.flatten_eq_flatMap, List.flatMap_assoc]
        rfl
      _ = triple pixels := by
        rw [hrowsEq, flatten_readRows, List.take_of_length_le (by rw [hpixels, Nat.mul_comm])]

theorem newRgb24_shows (hwide : 0 < width.toNat) (hpos : 0 < height.toNat)
    (hside : height.toNat < 2 ^ 31)
    (hsmall : 54 + (width.toNat * 3 + 3) / 4 * 4 * height.toNat < 2 ^ 32) :
    ∃ encoder, newRgb24 width height = some encoder ∧
      ∀ pixels, pixels.length = width.toNat * height.toNat * 3 →
        ∃ bmp, encoder.encodeRgb24 pixels = .ok bmp ∧ Shows bmp width height 24 0 pixels := by
  have hwidth := width.toNat_lt
  obtain ⟨front, hheaders, hfront, hdescribes⟩ := @describes_headers width height
    ((width.toNat * 3 + 3) / 4 * 4 * height.toNat) 24 0 hpos hside (by omega) (by norm_num) rfl
  refine ⟨⟨width, height, front, (width.toNat * 3 + 3) / 4 * 4,
    (width.toNat * 3 + 3) / 4 * 4 * height.toNat⟩, ?_, fun pixels hpixels => ?_⟩
  · rw [newRgb24, mul_eq (by omega), Option.bind_eq_bind, Option.bind_some]
    dsimp only
    rw [mul_eq (by omega), Option.bind_some, hheaders]
    rfl
  · set rows := readRows pixels (width.toNat * 3) (width.toNat * 3) height.toNat with hrowsEq
    have hwhole : pixels.length = height.toNat * (width.toNat * 3) := by
      rw [hpixels]
      ring
    have hrows : ∀ row ∈ rows, row.length = width.toNat * 3 := fun row hmem =>
      length_of_mem_readRows hmem le_rfl (by omega)
    have hthree : ∀ row ∈ rows, 3 ∣ row.length := fun row hmem => by
      rw [hrows row hmem]
      exact Nat.dvd_mul_left 3 _
    have hswapped : ∀ row ∈ rows.map swapped, row.length = width.toNat * 3 := by
      intro row hmem
      obtain ⟨source, hsource, rfl⟩ := List.mem_map.mp hmem
      rw [length_swapped (hthree source hsource), hrows source hsource]
    have hcount : (rows.map swapped).length = height.toNat := by
      rw [List.length_map, hrowsEq, length_readRows]
    have hlength := @length_laid _ ((width.toNat * 3 + 3) / 4 * 4) (0 : UInt8)
      (rows.map swapped) (fun row hmem => by rw [hswapped row hmem]; omega)
    have htrue := hdescribes (laid ((width.toNat * 3 + 3) / 4 * 4) 0 (rows.map swapped))
      (by rw [hlength, hcount, Nat.mul_comm]; omega)
    have hread : bmpRows (front ++ laid ((width.toNat * 3 + 3) / 4 * 4) 0 (rows.map swapped)) =
        rows.map swapped :=
      @bmpRows_eq _ _ front 24 0 _ hfront hcount.symm hswapped htrue
    refine ⟨front ++ laid ((width.toNat * 3 + 3) / 4 * 4) 0 (rows.map swapped),
      encodeRgb24_eq hwide rfl rfl (by simp only; omega) hpixels, htrue, ?_⟩
    rw [bmpRgb, hread, htrue.depth]
    calc
      (rows.map swapped).flatMap (fun row => if 24 = 8 then row.flatMap (paletteRgb (front ++
          laid ((width.toNat * 3 + 3) / 4 * 4) 0 (rows.map swapped))) else swapped row)
          = rows.flatMap fun row => swapped (swapped row) := by
        simp only [Nat.reduceEqDiff, if_false, List.flatMap_map]
      _ = rows.flatten := by
        rw [List.flatMap_congr fun row hmem => swapped_swapped (hthree row hmem),
          List.flatMap_id']
      _ = pixels := by
        rw [hrowsEq, flatten_readRows, List.take_of_length_le hwhole.le]

end BmpEncoder

end VivaGenicam.Studio
