import VivaGenicam.Pixel.Sizes

/-!
Where an image lies in its payload. `imageEnd` is the number of bytes a frame's
image takes; `rows` refuses a payload that is shorter, and otherwise gives rows
that lie inside it, together hold every pixel, and do not depend on any byte
past that end.
-/

namespace VivaGenicam.Pixel

open Library.Checked

def Single.group (single : Single) : Nat × Nat :=
  match single.packing with
  | .unpacked => if single.is8Bit then (1, 1) else (1, 2)
  | .lsb => if single.bits = 10 then (4, 5) else (2, 3)
  | .gige => (2, 3)

/-- Pixels and bytes of a layout's smallest run of whole bytes. -/
def Layout.group : Layout → Nat × Nat
  | .mono single | .bayer single _ => single.group
  | .rgb order => (1, order.stride)
  | .yuv order => order.group

/-- The bytes of `pixels` pixels, the last group completed. -/
def Layout.completed (layout : Layout) (pixels : Nat) : Nat :=
  (pixels + layout.group.1 - 1) / layout.group.1 * layout.group.2

/-- The bytes of a run of `pixels` pixels, up to its last pixel's. -/
def Layout.runBytes (layout : Layout) (pixels : Nat) : Nat :=
  match layout with
  | .mono single | .bayer single _ => single.runBytes pixels
  | _ => layout.completed pixels

def Layout.Valid : Layout → Prop
  | .mono single | .bayer single _ => single.Valid
  | _ => True

/-- A layout whose runs may end inside a group. -/
def Layout.Packed : Layout → Prop
  | .mono single | .bayer single _ => single.packing ≠ .unpacked
  | _ => False

theorem layout_spec {format : PixelFormat} {l : Layout} (h : layout format = some l) :
    format.group = some l.group ∧ l.Valid := by
  cases format <;> simp only [layout, monoOrBayer, PixelFormat.cfaPattern, reduceCtorEq,
    Option.some.injEq] at h
  all_goals subst h
  all_goals exact ⟨rfl, by first | exact ⟨by decide, by decide, by decide⟩ | trivial⟩

theorem Single.group_pos (single : Single) : 0 < single.group.1 ∧ 0 < single.group.2 := by
  unfold Single.group
  split
  · split <;> simp
  · split <;> simp
  · simp

theorem Layout.group_pos (l : Layout) : 0 < l.group.1 ∧ 0 < l.group.2 := by
  cases l with
  | mono single => exact single.group_pos
  | bayer single offsets => exact single.group_pos
  | rgb order => cases order <;> decide
  | yuv order => cases order <;> decide

theorem Single.runBytes_le {single : Single} (hvalid : single.Valid) (pixels : Nat) :
    single.runBytes pixels ≤
        (pixels + single.group.1 - 1) / single.group.1 * single.group.2 ∧
      (single.packing = .unpacked → single.runBytes pixels =
        (pixels + single.group.1 - 1) / single.group.1 * single.group.2) := by
  obtain ⟨bits, packing⟩ := single
  have hbits := hvalid.packed
  unfold Single.runBytes Single.group
  cases packing with
  | unpacked =>
    dsimp only
    split <;> simp
  | lsb =>
    rcases hbits (by simp) with hbits | hbits
    all_goals
      dsimp only at hbits
      subst hbits
      refine ⟨?_, by simp⟩
      simp only [if_true, Nat.reduceEqDiff, if_false]
      omega
  | gige =>
    refine ⟨?_, by simp⟩
    unfold gigeBytes
    dsimp only
    omega

theorem Layout.runBytes_le {l : Layout} (hvalid : l.Valid) (pixels : Nat) :
    l.runBytes pixels ≤ l.completed pixels ∧
      (¬ l.Packed → l.runBytes pixels = l.completed pixels) := by
  cases l with
  | mono single =>
    have h := Single.runBytes_le hvalid pixels
    exact ⟨h.1, fun hpacked => h.2 (not_not.mp hpacked)⟩
  | bayer single offsets =>
    have h := Single.runBytes_le hvalid pixels
    exact ⟨h.1, fun hpacked => h.2 (not_not.mp hpacked)⟩
  | rgb order => exact ⟨le_rfl, fun _ => rfl⟩
  | yuv order => exact ⟨le_rfl, fun _ => rfl⟩

theorem bytesFor_eq {format : PixelFormat} {l : Layout} (h : layout format = some l)
    (pixels : Nat) : format.bytesFor pixels =
      if l.completed pixels < 2 ^ 64 then some (l.completed pixels) else none := by
  rw [PixelFormat.bytesFor, (layout_spec h).1]
  rfl

theorem pixels_lt (width height : UInt32) : width.toNat * height.toNat < 2 ^ 64 := by
  have hwidth := width.toNat_lt
  have hheight := height.toNat_lt
  calc
    width.toNat * height.toNat ≤ (2 ^ 32 - 1) * (2 ^ 32 - 1) :=
      Nat.mul_le_mul (by omega) (by omega)
    _ < 2 ^ 64 := by norm_num

theorem imageBytes_eq {format : PixelFormat} {l : Layout} (h : layout format = some l)
    (width height : UInt32) : format.imageBytes width height =
      if l.completed (width.toNat * height.toNat) < 2 ^ 64 then
        some (l.completed (width.toNat * height.toNat)) else none := by
  rw [PixelFormat.imageBytes, mul_eq (pixels_lt width height)]
  exact bytesFor_eq h _

theorem completed_line_lt (l : Layout) (width : UInt32) :
    l.completed width.toNat < 2 ^ 64 := by
  have hwidth := width.toNat_lt
  have hgroup : l.group.1 ≤ 4 ∧ l.group.2 ≤ 6 := by
    cases l with
    | mono single =>
      unfold Layout.group Single.group
      dsimp only
      split <;> (try split) <;> simp
    | bayer single offsets =>
      unfold Layout.group Single.group
      dsimp only
      split <;> (try split) <;> simp
    | rgb order => cases order <;> decide
    | yuv order => cases order <;> decide
  unfold Layout.completed
  calc
    (width.toNat + l.group.1 - 1) / l.group.1 * l.group.2
        ≤ (width.toNat + l.group.1 - 1) * 6 :=
      Nat.mul_le_mul (Nat.div_le_self _ _) hgroup.2
    _ < 2 ^ 64 := by omega

theorem lineBytes_eq {format : PixelFormat} {l : Layout} (h : layout format = some l)
    (width : UInt32) : format.lineBytes width = some (l.completed width.toNat) := by
  rw [PixelFormat.lineBytes, bytesFor_eq h, if_pos (completed_line_lt l width)]

/-- The bits of an lsb-first stream of `pixels` pixels. -/
def Layout.streamBits (layout : Layout) (pixels : Nat) : Nat :=
  match layout with
  | .mono ⟨bits, .lsb⟩ | .bayer ⟨bits, .lsb⟩ _ => pixels * bits
  | _ => 0

def imageEnd (l : Layout) (width height : UInt32) (rowStride : Option Nat) : Nat :=
  match rowStride with
  | none => l.runBytes (width.toNat * height.toNat)
  | some stride =>
    if height.toNat = 0 then 0 else stride * (height.toNat - 1) + l.completed width.toNat

def StrideShort (l : Layout) (width : UInt32) (rowStride : Option Nat) : Prop :=
  ∃ stride, rowStride = some stride ∧ stride < l.completed width.toNat

def TooLarge (l : Layout) (width height : UInt32) (rowStride : Option Nat) : Prop :=
  match rowStride with
  | none => 2 ^ 64 ≤ l.completed (width.toNat * height.toNat) ∨
      2 ^ 64 ≤ l.streamBits (width.toNat * height.toNat)
  | some _ => 2 ^ 64 ≤ imageEnd l width height rowStride

/-- The rows of a frame whose payload is long enough. -/
def rowsOf (l : Layout) (width height : UInt32) (rowStride : Option Nat) (src : List UInt8) :
    Rows :=
  match rowStride with
  | none =>
    let run := src.take (l.completed (width.toNat * height.toNat))
    ⟨run, width.toNat * height.toNat, run.length, run.length, 1⟩
  | some stride => ⟨src, width.toNat, l.completed width.toNat, stride, height.toNat⟩

theorem expectedRun_eq {format : PixelFormat} {l : Layout} (hl : layout format = some l)
    (tooLarge : ConvertError) {pixels : Nat} (hfits : l.completed pixels < 2 ^ 64) :
    (2 ^ 64 ≤ l.streamBits pixels →
      expectedRun format tooLarge pixels (l.completed pixels) = .error (.error tooLarge)) ∧
    (l.streamBits pixels < 2 ^ 64 →
      expectedRun format tooLarge pixels (l.completed pixels) = .ok (l.runBytes pixels)) := by
  have hrun := Layout.runBytes_le (layout_spec hl).2 pixels
  have hlsb : ∀ bits, (2 ^ 64 ≤ pixels * bits → (do
        let total ← orError tooLarge (mul pixels bits)
        Except.ok ((total + 7) / 8)) = .error (.error tooLarge)) ∧
      (pixels * bits < 2 ^ 64 → (do
        let total ← orError tooLarge (mul pixels bits)
        Except.ok ((total + 7) / 8)) = .ok ((pixels * bits + 7) / 8)) := by
    intro bits
    constructor
    · intro hlarge
      rw [mul_eq_none hlarge]
      rfl
    · intro hsmall
      rw [mul_eq hsmall]
      rfl
  have hgige : gigeBytes pixels < 2 ^ 64 → (do
      let whole ← orError tooLarge (mul (pixels / 2) 3)
      orError tooLarge (add whole (if pixels % 2 = 1 then 2 else 0))) =
        .ok (gigeBytes pixels) := by
    intro hsmall
    unfold gigeBytes at hsmall
    rw [mul_eq (by omega), orError_some, ok_bind]
    have htail : (if pixels % 2 = 1 then 2 else 0) = 2 * (pixels % 2) := by
      split <;> omega
    rw [htail, add_eq (by omega), orError_some, gigeBytes, Nat.mul_comm 3]
  unfold expectedRun
  rw [hl]
  rcases l with ⟨bits, packing⟩ | ⟨⟨bits, packing⟩, offsets⟩ | order | order
  · cases packing with
    | unpacked => exact ⟨fun h => absurd h (by simp [Layout.streamBits]),
        fun _ => congrArg Except.ok (hrun.2 (by simp [Layout.Packed])).symm⟩
    | lsb => exact hlsb bits
    | gige => exact ⟨fun h => absurd h (by simp [Layout.streamBits]),
        fun _ => hgige (hrun.1.trans_lt hfits)⟩
  · cases packing with
    | unpacked => exact ⟨fun h => absurd h (by simp [Layout.streamBits]),
        fun _ => congrArg Except.ok (hrun.2 (by simp [Layout.Packed])).symm⟩
    | lsb => exact hlsb bits
    | gige => exact ⟨fun h => absurd h (by simp [Layout.streamBits]),
        fun _ => hgige (hrun.1.trans_lt hfits)⟩
  · exact ⟨fun h => absurd h (by simp [Layout.streamBits]), fun _ => rfl⟩
  · exact ⟨fun h => absurd h (by simp [Layout.streamBits]), fun _ => rfl⟩

section Rows

variable {format : PixelFormat} {l : Layout} {width height : UInt32} {rowStride : Option Nat}
  {src : List UInt8}

/-- How `rows` ends: a stride too short, a size too large, a payload too short,
or the rows. -/
structure RowsVerdict (format : PixelFormat) (l : Layout) (width height : UInt32)
    (rowStride : Option Nat) (src : List UInt8) : Prop where
  short : ∀ stride, rowStride = some stride → stride < l.completed width.toNat →
    rows format width height rowStride src =
      .error (.error (.strideTooShort stride (l.completed width.toNat)))
  large : ¬ StrideShort l width rowStride → TooLarge l width height rowStride →
    rows format width height rowStride src = .error (.error (.tooLarge width height))
  payload : ¬ StrideShort l width rowStride → ¬ TooLarge l width height rowStride →
    src.length < imageEnd l width height rowStride →
    rows format width height rowStride src =
      .error (.error (.shortPayload format (imageEnd l width height rowStride) src.length))
  ok : ¬ StrideShort l width rowStride → ¬ TooLarge l width height rowStride →
    imageEnd l width height rowStride ≤ src.length →
    rows format width height rowStride src = .ok (rowsOf l width height rowStride src)

theorem rows_run (hl : layout format = some l) :
    RowsVerdict format l width height none src := by
  have hpixels := pixels_lt width height
  have hunfold : rows format width height none src = (do
      let found ← geometry format width height src
      .ok ⟨found.2, found.1, found.2.length, found.2.length, 1⟩) := rfl
  have hgeometry : geometry format width height src = (do
      let completed ← orError (.tooLarge width height) (format.imageBytes width height)
      let expected ← expectedRun format (.tooLarge width height)
        (width.toNat * height.toNat) completed
      if src.length < expected then .error (.error (.shortPayload format expected src.length))
      else
        let run ← orPanic (slice src 0 (min completed src.length))
        .ok (width.toNat * height.toNat, run)) := by
    rw [geometry, mul_eq hpixels, orError_some, ok_bind]
  rw [imageBytes_eq hl] at hgeometry
  constructor
  · simp
  · rintro - (hlarge | hlarge)
    · rw [hunfold, hgeometry, if_neg (by omega)]
      rfl
    · rcases Nat.lt_or_ge (l.completed (width.toNat * height.toNat)) (2 ^ 64) with hfits | hover
      · rw [hunfold, hgeometry, if_pos hfits, orError_some, ok_bind,
          (expectedRun_eq hl _ hfits).1 hlarge]
        rfl
      · rw [hunfold, hgeometry, if_neg (by omega)]
        rfl
  · intro _ hfits hshort
    change src.length < l.runBytes (width.toNat * height.toNat) at hshort
    simp only [TooLarge, not_or, not_le] at hfits
    rw [hunfold, hgeometry, if_pos hfits.1, orError_some, ok_bind,
      (expectedRun_eq hl _ hfits.1).2 hfits.2, ok_bind, if_pos hshort]
    rfl
  · intro _ hfits hlong
    change l.runBytes (width.toNat * height.toNat) ≤ src.length at hlong
    simp only [TooLarge, not_or, not_le] at hfits
    rw [hunfold, hgeometry, if_pos hfits.1, orError_some, ok_bind,
      (expectedRun_eq hl _ hfits.1).2 hfits.2, ok_bind, if_neg (Nat.not_lt.mpr hlong),
      slice_eq (by omega), List.drop_zero, ← List.take_eq_take_min]
    rfl

theorem expectedLines_eq (l : Layout) (tooLarge : ConvertError) (width height : UInt32)
    (stride : Nat) :
    (2 ^ 64 ≤ imageEnd l width height (some stride) →
      expectedLines tooLarge stride (l.completed width.toNat) height =
        .error (.error tooLarge)) ∧
    (imageEnd l width height (some stride) < 2 ^ 64 →
      expectedLines tooLarge stride (l.completed width.toNat) height =
        .ok (imageEnd l width height (some stride))) := by
  unfold imageEnd expectedLines
  dsimp only
  rcases Nat.eq_zero_or_pos height.toNat with hzero | hpos
  · rw [hzero, if_pos rfl]
    exact ⟨fun h => absurd h (by norm_num), fun _ => rfl⟩
  · rw [if_neg (by omega), sub_eq (show 1 ≤ height.toNat from hpos)]
    dsimp only
    constructor
    · intro hlarge
      rcases Nat.lt_or_ge (stride * (height.toNat - 1)) (2 ^ 64) with hmul | hmul
      · rw [mul_eq hmul, orError_some, ok_bind, add_eq_none hlarge]
        rfl
      · rw [mul_eq_none hmul]
        rfl
    · intro hsmall
      rw [mul_eq (by omega), orError_some, ok_bind, add_eq hsmall, orError_some]

theorem rows_stride (hl : layout format = some l) (stride : Nat) :
    RowsVerdict format l width height (some stride) src := by
  have hunfold : rows format width height (some stride) src =
      if stride < l.completed width.toNat then
        .error (.error (.strideTooShort stride (l.completed width.toNat)))
      else (do
        let expected ← expectedLines (.tooLarge width height) stride (l.completed width.toNat)
          height
        if src.length < expected then .error (.error (.shortPayload format expected src.length))
        else .ok ⟨src, width.toNat, l.completed width.toNat, stride, height.toNat⟩) := by
    rw [rows, mul_eq (pixels_lt width height), orError_some, ok_bind, lineBytes_eq hl,
      orError_some, ok_bind]
  obtain ⟨hover, hexpected⟩ := expectedLines_eq l (.tooLarge width height) width height stride
  have hnotShort : ¬ StrideShort l width (some stride) → ¬ stride < l.completed width.toNat :=
    fun hlong hlt => hlong ⟨stride, rfl, hlt⟩
  constructor
  · intro other heq hlt
    cases heq
    rw [hunfold, if_pos hlt]
  · intro hlong hlarge
    rw [hunfold, if_neg (hnotShort hlong), hover hlarge]
    rfl
  · intro hlong hfits hshort
    rw [hunfold, if_neg (hnotShort hlong), hexpected (Nat.not_le.mp hfits), ok_bind,
      if_pos hshort]
  · intro hlong hfits henough
    rw [hunfold, if_neg (hnotShort hlong), hexpected (Nat.not_le.mp hfits), ok_bind,
      if_neg (Nat.not_lt.mpr henough)]
    rfl

theorem rows_verdict (hl : layout format = some l) (width height : UInt32)
    (rowStride : Option Nat) (src : List UInt8) :
    RowsVerdict format l width height rowStride src := by
  cases rowStride with
  | none => exact rows_run hl
  | some stride => exact rows_stride hl stride

end Rows

/-- The bytes of line `y`. -/
def Rows.line (rows : Rows) (y : Nat) : List UInt8 :=
  (rows.src.drop (y * rows.stride)).take rows.bytes

/-- Rows that lie inside their payload and hold a whole image of `total` pixels. -/
structure Rows.Sound (l : Layout) (total : Nat) (rows : Rows) : Prop where
  inside : ∀ y < rows.count, y * rows.stride + rows.bytes ≤ rows.src.length
  small : rows.src.length < 2 ^ 63
  area : rows.count * rows.bytes ≤ rows.src.length
  product : rows.pixels * rows.count = total
  fits : total < 2 ^ 64
  holds : l.runBytes rows.pixels ≤ rows.bytes
  whole : ¬ l.Packed → l.completed rows.pixels ≤ rows.bytes

/-- Two payloads' rows a layout reads the same samples from. -/
structure Rows.Agree (l : Layout) (left right : Rows) : Prop where
  pixels : left.pixels = right.pixels
  count : left.count = right.count
  lines : ∀ y < left.count, left.line y = right.line y ∨ l.Packed ∧
    (left.line y).take (l.runBytes left.pixels) = (right.line y).take (l.runBytes left.pixels)

theorem Rows.Sound.row {l : Layout} {total : Nat} {rows : Rows} (h : rows.Sound l total) {y : Nat}
    (hy : y < rows.count) :
    rows.row y = .ok (rows.line y) ∧ (rows.line y).length = rows.bytes := by
  have hinside := h.inside y hy
  have hsmall := h.small
  constructor
  · rw [Rows.row, mul_eq (by omega), orPanic_some, ok_bind, slice_eq hinside, orPanic_some]
    rfl
  · rw [Rows.line, List.length_take, List.length_drop]
    omega

theorem Rows.Sound.total_eq {l : Layout} {total : Nat} {rows : Rows}
    (h : rows.Sound l total) : rows.total = .ok total := by
  have hfits := h.fits
  rw [← h.product] at hfits
  rw [Rows.total, mul_eq hfits, h.product, orPanic_some]

section RowsOf

variable {format : PixelFormat} {l : Layout} {width height : UInt32} {rowStride : Option Nat}

theorem rowsOf_sound (hl : layout format = some l) {src : List UInt8}
    (hsmall : src.length < 2 ^ 63) (hstride : ¬ StrideShort l width rowStride)
    (henough : imageEnd l width height rowStride ≤ src.length) :
    (rowsOf l width height rowStride src).Sound l (width.toNat * height.toNat) := by
  have hvalid := (layout_spec hl).2
  have hpixels := pixels_lt width height
  cases rowStride with
  | none =>
    have hrun := Layout.runBytes_le hvalid (width.toNat * height.toNat)
    change l.runBytes (width.toNat * height.toNat) ≤ src.length at henough
    refine ⟨?_, ?_, ?_, Nat.mul_one _, hpixels, ?_, ?_⟩
    · intro y hy
      have : y = 0 := Nat.lt_one_iff.mp hy
      subst this
      simp [rowsOf]
    · simp only [rowsOf, List.length_take]
      omega
    · simp [rowsOf]
    · simp only [rowsOf, List.length_take]
      omega
    · intro hpacked
      have := hrun.2 hpacked
      simp only [rowsOf, List.length_take]
      omega
  | some stride =>
    have hlong : l.completed width.toNat ≤ stride :=
      Nat.not_lt.mp fun hlt => hstride ⟨stride, rfl, hlt⟩
    have hrun := Layout.runBytes_le hvalid width.toNat
    have hinside : ∀ y < height.toNat, y * stride + l.completed width.toNat ≤ src.length := by
      intro y hy
      unfold imageEnd at henough
      dsimp only at henough
      rw [if_neg (by omega)] at henough
      have hle : y * stride ≤ stride * (height.toNat - 1) := by
        rw [Nat.mul_comm]
        exact Nat.mul_le_mul_left _ (by omega)
      omega
    refine ⟨hinside, hsmall, ?_, rfl, hpixels, hrun.1, fun _ => le_rfl⟩
    change height.toNat * l.completed width.toNat ≤ src.length
    rcases Nat.eq_zero_or_pos height.toNat with hzero | hpos
    · simp [hzero]
    · have hlast := hinside (height.toNat - 1) (by omega)
      have hle : (height.toNat - 1) * l.completed width.toNat ≤ (height.toNat - 1) * stride :=
        Nat.mul_le_mul_left _ hlong
      have hsplit : height.toNat * l.completed width.toNat =
          (height.toNat - 1) * l.completed width.toNat + l.completed width.toNat := by
        rw [← Nat.succ_mul, Nat.succ_eq_add_one, Nat.sub_add_cancel hpos]
      omega

theorem rowsOf_agree (hl : layout format = some l) {src other : List UInt8}
    (henough : imageEnd l width height rowStride ≤ src.length)
    (hother : imageEnd l width height rowStride ≤ other.length)
    (hsame : src.take (imageEnd l width height rowStride) =
      other.take (imageEnd l width height rowStride)) :
    (rowsOf l width height rowStride src).Agree l (rowsOf l width height rowStride other) := by
  have hvalid := (layout_spec hl).2
  cases rowStride with
  | none =>
    have hrun := Layout.runBytes_le hvalid (width.toNat * height.toNat)
    refine ⟨rfl, rfl, ?_⟩
    intro y hy
    have : y = 0 := Nat.lt_one_iff.mp hy
    subst this
    change l.runBytes (width.toNat * height.toNat) ≤ src.length at henough
    change l.runBytes (width.toNat * height.toNat) ≤ other.length at hother
    change src.take (l.runBytes (width.toNat * height.toNat)) =
      other.take (l.runBytes (width.toNat * height.toNat)) at hsame
    have hline : ∀ bytes : List UInt8, (rowsOf l width height none bytes).line 0 =
        bytes.take (l.completed (width.toNat * height.toNat)) := by
      intro bytes
      rw [Rows.line, Nat.zero_mul, List.drop_zero]
      exact List.take_length
    rw [hline src, hline other]
    by_cases hpacked : l.Packed
    · apply Or.inr
      refine ⟨hpacked, ?_⟩
      change (src.take _).take (l.runBytes (width.toNat * height.toNat)) =
        (other.take _).take (l.runBytes (width.toNat * height.toNat))
      rw [List.take_take, List.take_take, Nat.min_eq_left hrun.1, hsame]
    · rw [← hrun.2 hpacked]
      exact Or.inl hsame
  | some stride =>
    refine ⟨rfl, rfl, ?_⟩
    intro y hy
    change y < height.toNat at hy
    apply Or.inl
    have hend : y * stride + l.completed width.toNat ≤
        imageEnd l width height (some stride) := by
      unfold imageEnd
      dsimp only
      rw [if_neg (by omega)]
      have hle : y * stride ≤ stride * (height.toNat - 1) := by
        rw [Nat.mul_comm]
        exact Nat.mul_le_mul_left _ (by omega)
      omega
    have hline : ∀ bytes : List UInt8, (bytes.drop (y * stride)).take (l.completed width.toNat) =
        ((bytes.take (imageEnd l width height (some stride))).drop (y * stride)).take
          (l.completed width.toNat) := by
      intro bytes
      rw [List.drop_take, List.take_take, Nat.min_eq_left (by omega)]
    change (src.drop (y * stride)).take (l.completed width.toNat) =
      (other.drop (y * stride)).take (l.completed width.toNat)
    rw [hline src, hline other, hsame]

end RowsOf

end VivaGenicam.Pixel
