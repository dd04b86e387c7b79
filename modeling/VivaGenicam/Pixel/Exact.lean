import VivaGenicam.Pixel.Geometry

/-!
Every conversion, of every format and geometry. Each refuses a stride too
short, a size too large and a payload too short, and otherwise yields exactly
the image's samples, read from the image's bytes alone.
-/

namespace VivaGenicam.Pixel

open Library.Checked

def Layout.single : Layout → Option Single
  | .mono single | .bayer single _ => some single
  | _ => none

section FromRows

variable {l : Layout} {total : Nat} {left right : Rows} {single : Single}

theorem Layout.single_spec (hsingle : l.single = some single) :
    (∀ pixels, l.runBytes pixels = single.runBytes pixels) ∧ (l.Valid → single.Valid) ∧
      (l.Packed → single.packing ≠ .unpacked) := by
  cases l with
  | mono other =>
    cases hsingle
    exact ⟨fun _ => rfl, id, id⟩
  | bayer other offsets =>
    cases hsingle
    exact ⟨fun _ => rfl, id, id⟩
  | rgb order => cases hsingle
  | yuv order => cases hsingle

theorem unpackRows_spec (hsingle : l.single = some single) (hvalid : l.Valid)
    (hleft : left.Sound l total) (hright : right.Sound l total) (hagree : left.Agree l right) :
    ∃ out, out.length = total ∧ unpackRows single left = .ok out ∧
      unpackRows single right = .ok out := by
  obtain ⟨hrun, hsingleValid, -⟩ := Layout.single_spec hsingle
  have hone : ∀ y ∈ List.range left.count, ∃ out, out.length = left.pixels ∧
      (do unpackAppend single left.pixels (← left.row y)) = .ok out ∧
      (do unpackAppend single left.pixels (← right.row y)) = .ok out := by
    intro y hmem
    rw [List.mem_range] at hmem
    have hmem' : y < right.count := by
      rw [← hagree.count]
      exact hmem
    obtain ⟨hrowLeft, hlengthLeft⟩ := hleft.row hmem
    obtain ⟨hrowRight, hlengthRight⟩ := hright.row hmem'
    have hholds := hleft.holds
    have hholds' := hright.holds
    rw [← hagree.pixels] at hholds'
    rw [hrun] at hholds hholds'
    rw [hrowLeft, hrowRight]
    apply unpackAppend_spec (hsingleValid hvalid) left.pixels (by omega) (by omega)
    rcases hagree.lines y hmem with hline | ⟨-, hline⟩
    · rw [hline]
    · rw [hrun] at hline
      exact hline
  obtain ⟨out, hlength, hout, hother⟩ := appendEach_spec hone
  refine ⟨out, ?_, ?_, ?_⟩
  · rw [hlength, List.length_range, Nat.mul_comm, hleft.product]
  · rw [unpackRows, hleft.total_eq, ok_bind, hout]
  · rw [unpackRows, hright.total_eq, ok_bind, ← hagree.count, ← hagree.pixels, hother]

theorem eight_bit (hsingle : l.single = some single) (hvalid : l.Valid)
    (h8 : single.is8Bit = true) :
    ¬ l.Packed ∧ ∀ pixels, l.runBytes pixels = pixels := by
  obtain ⟨hrun, hsingleValid, hpacked⟩ := Layout.single_spec hsingle
  have hunpacked : single.packing = .unpacked := by
    by_contra hother
    have hbits := (hsingleValid hvalid).packed hother
    unfold Single.is8Bit at h8
    rw [decide_eq_true_eq] at h8
    omega
  refine ⟨fun h => hpacked h hunpacked, fun pixels => ?_⟩
  rw [hrun, Single.runBytes, hunpacked]
  exact if_pos h8

theorem eachRow_spec {β : Type} {size : Nat} {step : List UInt8 → Except Stop (List β)}
    (hunpacked : ¬ l.Packed) (hleft : left.Sound l total) (hright : right.Sound l total)
    (hagree : left.Agree l right)
    (hstep : ∀ bytes : List UInt8, bytes.length = left.bytes → 0 < left.count →
      ∃ out, out.length = size ∧ step bytes = .ok out) :
    ∃ out, out.length = left.count * size ∧
      appendEach (fun y => do step (← left.row y)) (List.range left.count) = .ok out ∧
      appendEach (fun y => do step (← right.row y)) (List.range right.count) = .ok out := by
  have hone : ∀ y ∈ List.range left.count, ∃ out, out.length = size ∧
      (do step (← left.row y)) = .ok out ∧ (do step (← right.row y)) = .ok out := by
    intro y hmem
    rw [List.mem_range] at hmem
    obtain ⟨hrowLeft, hlength⟩ := hleft.row hmem
    obtain ⟨hrowRight, -⟩ := hright.row (hagree.count ▸ hmem)
    have hline : left.line y = right.line y :=
      (hagree.lines y hmem).resolve_right fun h => hunpacked h.1
    obtain ⟨out, hsize, hout⟩ := hstep (left.line y) hlength (by omega)
    rw [hrowLeft, hrowRight, ← hline]
    exact ⟨out, hsize, hout, hout⟩
  obtain ⟨out, hlength, hout, hother⟩ := appendEach_spec hone
  rw [List.length_range] at hlength
  rw [← hagree.count]
  exact ⟨out, hlength, hout, hother⟩

theorem slice_zero {bytes : List UInt8} {count : Nat} (h : count ≤ bytes.length) :
    orPanic (slice bytes 0 count) = .ok (bytes.take count) := by
  rw [slice_eq (by omega), List.drop_zero, orPanic_some]

theorem lent_spec {size : Nat} (hunpacked : ¬ l.Packed) (hleft : left.Sound l total)
    (hright : right.Sound l total) (hagree : left.Agree l right) (hcount : left.count ≤ 1)
    (hsize : size ≤ left.bytes * left.count) :
    ∃ out, out.length = size ∧ orPanic (slice left.src 0 size) = .ok out ∧
      orPanic (slice right.src 0 size) = .ok out := by
  rcases Nat.lt_or_ge 0 left.count with hpos | hzero
  · have hone : left.count = 1 := by omega
    have hone' : right.count = 1 := by rw [← hagree.count]; exact hone
    have hinside := hleft.inside 0 (by omega)
    have hinside' := hright.inside 0 (by omega)
    have hline : left.line 0 = right.line 0 :=
      (hagree.lines 0 (by omega)).resolve_right fun h => hunpacked h.1
    rw [hone, Nat.mul_one] at hsize
    rw [Nat.zero_mul, Nat.zero_add] at hinside hinside'
    simp only [Rows.line, Nat.zero_mul, List.drop_zero] at hline
    have hbytes : left.bytes = right.bytes := by
      have := congrArg List.length hline
      rw [List.length_take, List.length_take] at this
      omega
    have htake : ∀ rows : Rows, size ≤ rows.bytes →
        rows.src.take size = (rows.src.take rows.bytes).take size := by
      intro rows hle
      rw [List.take_take, Nat.min_eq_left hle]
    rw [slice_zero (by omega), slice_zero (by omega), htake right (by omega), ← hline,
      ← htake left hsize]
    exact ⟨left.src.take size, by rw [List.length_take]; omega, rfl, rfl⟩
  · have hnone : size = 0 := by
      rw [Nat.le_zero.mp hzero, Nat.mul_zero] at hsize
      omega
    subst hnone
    rw [slice_zero (by omega), slice_zero (by omega)]
    exact ⟨[], rfl, rfl, rfl⟩

theorem gather8_spec (hsingle : l.single = some single) (hvalid : l.Valid)
    (h8 : single.is8Bit = true) (hleft : left.Sound l total) (hright : right.Sound l total)
    (hagree : left.Agree l right) :
    ∃ out, out.length = total ∧ gather8 left = .ok out ∧ gather8 right = .ok out := by
  obtain ⟨hunpacked, hrun⟩ := eight_bit hsingle hvalid h8
  have hholds := hleft.holds
  rw [hrun] at hholds
  unfold gather8
  rw [← hagree.count]
  split
  · rename_i hcount
    rw [hleft.total_eq, hright.total_eq, ok_bind, ok_bind]
    apply lent_spec hunpacked hleft hright hagree hcount
    rw [← hleft.product]
    exact Nat.mul_le_mul_right _ hholds
  · obtain ⟨out, hlength, hout, hother⟩ := @eachRow_spec _ _ _ _ _ left.pixels
      (fun bytes => orPanic (slice bytes 0 left.pixels))
      hunpacked hleft hright hagree (by
        intro bytes hbytes _
        rw [slice_zero (by omega)]
        exact ⟨_, by rw [List.length_take]; omega, rfl⟩)
    rw [← hagree.pixels]
    rw [← hagree.count] at hother
    refine ⟨out, ?_, hout, hother⟩
    rw [hlength, Nat.mul_comm, hleft.product]

end FromRows

/-- A conversion of a format it handles: how it refuses, what it yields, and
that only the image's bytes decide. -/
structure Converts {α : Type} (l : Layout) (format : PixelFormat) (width height : UInt32)
    (rowStride : Option Nat) (Sized : α → Prop) (convert : List UInt8 → Except Stop α) :
    Prop where
  strideTooShort : ∀ src, src.length < 2 ^ 63 → ((∃ stride line, convert src =
      .error (.error (.strideTooShort stride line))) ↔ StrideShort l width rowStride)
  tooLarge : ∀ src, src.length < 2 ^ 63 → (convert src =
      .error (.error (.tooLarge width height)) ↔
    ¬ StrideShort l width rowStride ∧ TooLarge l width height rowStride)
  shortPayload : ∀ src, src.length < 2 ^ 63 → ((∃ expected actual, convert src =
      .error (.error (.shortPayload format expected actual))) ↔
    ¬ StrideShort l width rowStride ∧ ¬ TooLarge l width height rowStride ∧
      src.length < imageEnd l width height rowStride)
  sized : ∀ src, src.length < 2 ^ 63 → ¬ StrideShort l width rowStride →
    ¬ TooLarge l width height rowStride → imageEnd l width height rowStride ≤ src.length →
    ∃ out, convert src = .ok out ∧ Sized out
  beyond : ∀ src other, src.length < 2 ^ 63 → other.length < 2 ^ 63 →
    imageEnd l width height rowStride ≤ src.length →
    imageEnd l width height rowStride ≤ other.length →
    src.take (imageEnd l width height rowStride) =
      other.take (imageEnd l width height rowStride) →
    convert src = convert other

/-- Never a panic, and nothing but the right number of samples. -/
def Total {α : Type} (Sized : α → Prop) (convert : List UInt8 → Except Stop α) : Prop :=
  ∀ src, src.length < 2 ^ 63 →
    convert src ≠ .error .panic ∧ ∀ out, convert src = .ok out → Sized out

section Conversions

variable {α : Type} {format : PixelFormat} {l : Layout} {width height : UInt32}
  {rowStride : Option Nat} {Sized : α → Prop} {convert : List UInt8 → Except Stop α}

/-- The two ways a conversion follows its rows: it passes their refusal on, and
reads agreeing rows alike. -/
structure FollowsRows (l : Layout) (format : PixelFormat) (width height : UInt32)
    (rowStride : Option Nat) (Sized : α → Prop) (convert : List UInt8 → Except Stop α) :
    Prop where
  refused : ∀ src stop, rows format width height rowStride src = .error stop →
    convert src = .error stop
  alike : ∀ src other,
    rows format width height rowStride src = .ok (rowsOf l width height rowStride src) →
    rows format width height rowStride other = .ok (rowsOf l width height rowStride other) →
    (rowsOf l width height rowStride src).Sound l (width.toNat * height.toNat) →
    (rowsOf l width height rowStride other).Sound l (width.toNat * height.toNat) →
    (rowsOf l width height rowStride src).Agree l (rowsOf l width height rowStride other) →
    ∃ out, Sized out ∧ convert src = .ok out ∧ convert other = .ok out

theorem FollowsRows.alikeOf (hl : layout format = some l)
    (h : FollowsRows l format width height rowStride Sized convert) {src other : List UInt8}
    (hsmall : src.length < 2 ^ 63) (hsmall' : other.length < 2 ^ 63)
    (hstride : ¬ StrideShort l width rowStride) (hfits : ¬ TooLarge l width height rowStride)
    (henough : imageEnd l width height rowStride ≤ src.length)
    (henough' : imageEnd l width height rowStride ≤ other.length)
    (hsame : src.take (imageEnd l width height rowStride) =
      other.take (imageEnd l width height rowStride)) :
    ∃ out, Sized out ∧ convert src = .ok out ∧ convert other = .ok out :=
  h.alike src other
    ((rows_verdict hl width height rowStride src).ok hstride hfits henough)
    ((rows_verdict hl width height rowStride other).ok hstride hfits henough')
    (rowsOf_sound hl hsmall hstride henough) (rowsOf_sound hl hsmall' hstride henough')
    (rowsOf_agree hl henough henough' hsame)

/-- The four ways a conversion ends, told apart by its geometry. -/
inductive Outcome (l : Layout) (format : PixelFormat) (width height : UInt32)
    (rowStride : Option Nat) (Sized : α → Prop) (src : List UInt8)
    (result : Except Stop α) : Prop where
  | strideTooShort (hshort : StrideShort l width rowStride)
    (hresult : ∃ stride line, result = .error (.error (.strideTooShort stride line)))
  | tooLarge (hlong : ¬ StrideShort l width rowStride)
    (hlarge : TooLarge l width height rowStride)
    (hresult : result = .error (.error (.tooLarge width height)))
  | shortPayload (hlong : ¬ StrideShort l width rowStride)
    (hfits : ¬ TooLarge l width height rowStride)
    (hlt : src.length < imageEnd l width height rowStride)
    (hresult : ∃ expected actual, result =
      .error (.error (.shortPayload format expected actual)))
  | sized (hlong : ¬ StrideShort l width rowStride) (hfits : ¬ TooLarge l width height rowStride)
    (henough : imageEnd l width height rowStride ≤ src.length)
    (hresult : ∃ out, result = .ok out ∧ Sized out)

theorem FollowsRows.outcome (hl : layout format = some l)
    (h : FollowsRows l format width height rowStride Sized convert) {src : List UInt8}
    (hsmall : src.length < 2 ^ 63) :
    Outcome l format width height rowStride Sized src (convert src) := by
  have hverdict := rows_verdict hl width height rowStride src
  by_cases hshort : StrideShort l width rowStride
  · obtain ⟨stride, hstride, hlt⟩ := hshort
    exact .strideTooShort ⟨stride, hstride, hlt⟩
      ⟨stride, _, h.refused src _ (hverdict.short stride hstride hlt)⟩
  · by_cases hlarge : TooLarge l width height rowStride
    · exact .tooLarge hshort hlarge (h.refused src _ (hverdict.large hshort hlarge))
    · rcases Nat.lt_or_ge src.length (imageEnd l width height rowStride) with hlt | henough
      · exact .shortPayload hshort hlarge hlt
          ⟨_, _, h.refused src _ (hverdict.payload hshort hlarge hlt)⟩
      · obtain ⟨out, hsize, hout, -⟩ :=
          h.alikeOf hl hsmall hsmall hshort hlarge henough henough rfl
        exact .sized hshort hlarge henough ⟨out, hout, hsize⟩

theorem FollowsRows.converts (hl : layout format = some l)
    (h : FollowsRows l format width height rowStride Sized convert) :
    Converts l format width height rowStride Sized convert where
  strideTooShort := by
    intro src hsmall
    rcases h.outcome hl hsmall with ⟨hshort, hres⟩ | ⟨hlong, -, hres⟩ |
      ⟨hlong, -, -, _, _, hres⟩ | ⟨hlong, -, -, out, hres, -⟩
    · exact ⟨fun _ => hshort, fun _ => hres⟩
    all_goals
      rw [hres]
      exact ⟨fun ⟨_, _, heq⟩ => (nomatch heq), fun hshort => absurd hshort hlong⟩
  tooLarge := by
    intro src hsmall
    rcases h.outcome hl hsmall with ⟨hshort, _, _, hres⟩ | ⟨hlong, hlarge, hres⟩ |
      ⟨hlong, hfits, -, _, _, hres⟩ | ⟨hlong, hfits, -, out, hres, -⟩
    · rw [hres]
      exact ⟨fun heq => (nomatch heq), fun hnot => absurd hshort hnot.1⟩
    · exact ⟨fun _ => ⟨hlong, hlarge⟩, fun _ => hres⟩
    all_goals
      rw [hres]
      exact ⟨fun heq => (nomatch heq), fun hnot => absurd hnot.2 hfits⟩
  shortPayload := by
    intro src hsmall
    rcases h.outcome hl hsmall with ⟨hshort, _, _, hres⟩ | ⟨hlong, hlarge, hres⟩ |
      ⟨hlong, hfits, hlt, hres⟩ | ⟨hlong, hfits, henough, out, hres, -⟩
    · rw [hres]
      exact ⟨fun ⟨_, _, heq⟩ => (nomatch heq), fun hnot => absurd hshort hnot.1⟩
    · rw [hres]
      exact ⟨fun ⟨_, _, heq⟩ => (nomatch heq), fun hnot => absurd hlarge hnot.2.1⟩
    · exact ⟨fun _ => ⟨hlong, hfits, hlt⟩, fun _ => hres⟩
    · rw [hres]
      exact ⟨fun ⟨_, _, heq⟩ => (nomatch heq),
        fun hnot => absurd hnot.2.2 (Nat.not_lt.mpr henough)⟩
  sized := by
    intro src hsmall hlong hfits henough
    obtain ⟨out, hsize, hout, -⟩ :=
      h.alikeOf hl hsmall hsmall hlong hfits henough henough rfl
    exact ⟨out, hout, hsize⟩
  beyond := by
    intro src other hsmall hsmall' henough henough' hsame
    have hverdict := rows_verdict hl width height rowStride src
    have hverdict' := rows_verdict hl width height rowStride other
    by_cases hshort : StrideShort l width rowStride
    · obtain ⟨stride, hstride, hlt⟩ := hshort
      rw [h.refused src _ (hverdict.short stride hstride hlt),
        h.refused other _ (hverdict'.short stride hstride hlt)]
    · by_cases hlarge : TooLarge l width height rowStride
      · rw [h.refused src _ (hverdict.large hshort hlarge),
          h.refused other _ (hverdict'.large hshort hlarge)]
      · obtain ⟨out, -, hout, hout'⟩ :=
          h.alikeOf hl hsmall hsmall' hshort hlarge henough henough' hsame
        rw [hout, hout']

theorem FollowsRows.total (hl : layout format = some l)
    (h : FollowsRows l format width height rowStride Sized convert) : Total Sized convert := by
  intro src hsmall
  rcases h.outcome hl hsmall with ⟨-, _, _, hres⟩ | ⟨-, -, hres⟩ | ⟨-, -, -, _, _, hres⟩ |
    ⟨-, -, -, out, hres, hsize⟩
  · rw [hres]
    exact ⟨by simp, fun out heq => (nomatch heq)⟩
  · rw [hres]
    exact ⟨by simp, fun out heq => (nomatch heq)⟩
  · rw [hres]
    exact ⟨by simp, fun out heq => (nomatch heq)⟩
  · rw [hres]
    refine ⟨by simp, fun other heq => ?_⟩
    cases heq
    exact hsize

theorem bayer_cfaPattern {single : Single} {offsets : Nat × Nat}
    (h : layout format = some (.bayer single offsets)) : format.cfaPattern = some offsets := by
  cases format <;> simp_all [layout, monoOrBayer, PixelFormat.cfaPattern]

theorem unpackU16_follows (hl : layout format = some l) (hsingle : l.single.isSome) :
    FollowsRows l format width height rowStride
      (fun out => out.length = width.toNat * height.toNat)
      (unpackU16 format width height rowStride) where
  refused := by
    intro src stop heq
    rw [unpackU16, heq, error_bind]
  alike := by
    intro src other hleft hright hsound hsound' hagree
    obtain ⟨single, hsingle⟩ := Option.isSome_iff_exists.mp hsingle
    obtain ⟨out, hlength, hout, hother⟩ :=
      unpackRows_spec hsingle (layout_spec hl).2 hsound hsound' hagree
    refine ⟨out, hlength, ?_⟩
    rw [unpackU16, unpackU16, hleft, hright, ok_bind, ok_bind, hl]
    cases l with
    | mono other =>
      cases hsingle
      exact ⟨hout, hother⟩
    | bayer other offsets =>
      cases hsingle
      exact ⟨hout, hother⟩
    | rgb order => cases hsingle
    | yuv order => cases hsingle

variable (converter : Converter)

theorem gray8_follows {single : Single} (hl : layout format = some (.mono single)) :
    FollowsRows (.mono single) format width height rowStride
      (fun out => out.length = width.toNat * height.toNat)
      (fun src => (converter.gray8 format width height rowStride src).map Prod.fst) where
  refused := by
    intro src stop heq
    rw [Converter.gray8, hl]
    dsimp only
    rw [heq]
    rfl
  alike := by
    intro src other hleft hright hsound hsound' hagree
    have hvalid := (layout_spec hl).2
    simp only [Converter.gray8, hl, hleft, hright, ok_bind, ← hagree.count]
    split
    · rename_i h8
      obtain ⟨out, hlength, hout, hother⟩ := gather8_spec rfl hvalid h8 hsound hsound' hagree
      refine ⟨out, hlength, ?_⟩
      rw [hout, hother]
      exact ⟨rfl, rfl⟩
    · obtain ⟨samples, hlength, hout, hother⟩ :=
        unpackRows_spec rfl hvalid hsound hsound' hagree
      rw [hout, hother]
      exact ⟨samples.map fun v => narrow v single.bits, by rw [List.length_map, hlength], rfl, rfl⟩

section Rgb

variable {total : Nat} {left right : Rows} {single : Single}

theorem mosaic8_spec (hsingle : l.single = some single)
    (hvalid : l.Valid) (hleft : left.Sound l total) (hright : right.Sound l total)
    (hagree : left.Agree l right) :
    ∃ mosaic : List UInt8 × Converter, mosaic.1.length = total ∧
      converter.mosaic8 single left = .ok mosaic ∧
      converter.mosaic8 single right = .ok mosaic := by
  unfold Converter.mosaic8
  split
  · rename_i h8
    obtain ⟨out, hlength, hout, hother⟩ := gather8_spec hsingle hvalid h8 hleft hright hagree
    rw [hout, hother, ← hagree.count]
    exact ⟨(out, _), hlength, rfl, rfl⟩
  · obtain ⟨samples, hlength, hout, hother⟩ :=
      unpackRows_spec hsingle hvalid hleft hright hagree
    rw [hout, hother]
    exact ⟨(samples.map fun v => narrow v single.bits, _), by rw [List.length_map, hlength],
      rfl, rfl⟩

theorem length_triple {β : Type} (samples : List β) :
    (triple samples).length = samples.length * 3 := by
  induction samples with
  | nil => rfl
  | cons sample rest ih =>
    rw [triple, List.flatMap_cons, List.length_append, List.length_cons]
    change _ + (triple rest).length = _
    rw [ih]
    simp only [List.length_cons, List.length_nil]
    omega

theorem yuv_fits {order : YuvOrder} (h : left.Sound (.yuv order) total) :
    total * 3 < 2 ^ 64 ∧ (0 < left.count → left.pixels * 3 < 2 ^ 64) := by
  have hholds : (left.pixels + order.group.1 - 1) / order.group.1 * order.group.2 ≤ left.bytes :=
    h.holds
  have harea := h.area
  have hsmall := h.small
  have hwide : left.pixels * 3 ≤ left.bytes * 2 := by
    cases order <;> simp only [YuvOrder.group] at hholds <;> omega
  have hall : left.pixels * 3 * left.count ≤ left.bytes * 2 * left.count :=
    Nat.mul_le_mul_right _ hwide
  constructor
  · calc
      total * 3 = left.pixels * 3 * left.count := by
        rw [← h.product]
        ring
      _ ≤ left.bytes * 2 * left.count := hall
      _ = left.count * left.bytes * 2 := by ring
      _ < 2 ^ 64 := by omega
  · intro hpos
    have hone : left.pixels * 3 * 1 ≤ left.pixels * 3 * left.count :=
      Nat.mul_le_mul_left _ hpos
    have hsplit : left.bytes * 2 * left.count = left.count * left.bytes * 2 := by ring
    omega

theorem rgb8Into_alike {src other : List UInt8} (hl : layout format = some l)
    (hfits : format.cfaPattern.isSome → width.toNat * height.toNat * 3 < 2 ^ 64)
    (hleft : rows format width height rowStride src = .ok left)
    (hright : rows format width height rowStride other = .ok right)
    (hsound : left.Sound l (width.toNat * height.toNat))
    (hsound' : right.Sound l (width.toNat * height.toNat)) (hagree : left.Agree l right) :
    ∃ out : List UInt8 × Converter, out.1.length = width.toNat * height.toNat * 3 ∧
      converter.rgb8Into format width height rowStride src = .ok out ∧
      converter.rgb8Into format width height rowStride other = .ok out := by
  have hvalid := (layout_spec hl).2
  simp only [Converter.rgb8Into, hl, hleft, hright, ok_bind]
  cases l with
  | mono single =>
    dsimp only
    split
    · rename_i h8
      obtain ⟨hunpacked, hrun⟩ := eight_bit (l := .mono single) rfl hvalid h8
      have hholds := hsound.holds
      rw [hrun] at hholds
      obtain ⟨out, hlength, hout, hother⟩ := @eachRow_spec _ _ _ _ _ (left.pixels * 3)
        (fun bytes => do .ok (triple (← orPanic (slice bytes 0 left.pixels))))
        hunpacked hsound hsound' hagree (by
          intro bytes hbytes _
          rw [slice_zero (by omega), ok_bind]
          refine ⟨_, ?_, rfl⟩
          rw [length_triple, List.length_take]
          omega)
      rw [← hagree.pixels]
      refine ⟨(out, converter), ?_, ?_, ?_⟩
      · rw [hlength, ← hsound.product]
        ring
      · exact congrArg (fun result => result >>= fun out => .ok (out, converter)) hout
      · exact congrArg (fun result => result >>= fun out => .ok (out, converter)) hother
    · obtain ⟨samples, hlength, hout, hother⟩ :=
        unpackRows_spec rfl hvalid hsound hsound' hagree
      rw [hout, hother]
      refine ⟨(_, _), ?_, rfl, rfl⟩
      rw [length_triple, List.length_map, hlength]
  | bayer single offsets =>
    dsimp only
    obtain ⟨⟨mosaic, after⟩, hlength, hout, hother⟩ :=
      mosaic8_spec converter rfl hvalid hsound hsound' hagree
    obtain ⟨out, hsize, hdemosaic⟩ := demosaicBilinear_ok offsets hlength
      (hfits (by rw [bayer_cfaPattern hl]; rfl))
    rw [hout, hother, ok_bind]
    dsimp only
    rw [hdemosaic]
    exact ⟨(out, after), hsize, rfl, rfl⟩
  | rgb order =>
    dsimp only
    have hholds : (left.pixels + 1 - 1) / 1 * order.stride ≤ left.bytes := hsound.holds
    rw [Nat.add_sub_cancel, Nat.div_one] at hholds
    obtain ⟨out, hlength, hout, hother⟩ := @eachRow_spec _ _ _ _ _ (left.pixels * 3)
      (rgbAppend order left.pixels) id hsound hsound' hagree (by
        intro bytes hbytes _
        exact rgbAppend_ok order (by omega))
    rw [← hagree.pixels]
    refine ⟨(out, converter), ?_, ?_, ?_⟩
    · rw [hlength, ← hsound.product]
      ring
    · exact congrArg (fun result => result >>= fun out => .ok (out, converter)) hout
    · exact congrArg (fun result => result >>= fun out => .ok (out, converter)) hother
  | yuv order =>
    dsimp only
    obtain ⟨htotal, hpixels⟩ := yuv_fits hsound
    have hholds : (left.pixels + order.group.1 - 1) / order.group.1 * order.group.2 ≤
        left.bytes := hsound.holds
    obtain ⟨out, hlength, hout, hother⟩ := @eachRow_spec _ _ _ _ _ (left.pixels * 3)
      (yuvAppend order left.pixels) id hsound hsound' hagree (by
        intro bytes hbytes hpos
        exact yuvAppend_ok order (by omega) (hpixels hpos))
    rw [hsound.total_eq, hsound'.total_eq, ok_bind, ok_bind, mul_eq htotal, orPanic_some,
      ok_bind, ok_bind, ← hagree.pixels]
    refine ⟨(out, converter), ?_, ?_, ?_⟩
    · rw [hlength, ← hsound.product]
      ring
    · exact congrArg (fun result => result >>= fun out => .ok (out, converter)) hout
    · exact congrArg (fun result => result >>= fun out => .ok (out, converter)) hother

theorem rgb8Into_refused {src : List UInt8} {stop : Stop} (hl : layout format = some l)
    (h : rows format width height rowStride src = .error stop) :
    converter.rgb8Into format width height rowStride src = .error stop := by
  rw [Converter.rgb8Into, hl]
  dsimp only
  rw [h, error_bind]

theorem toRgb8_follows (hl : layout format = some l)
    (hfits : format.cfaPattern.isSome → width.toNat * height.toNat * 3 < 2 ^ 64) :
    FollowsRows l format width height rowStride
      (fun out => out.length = width.toNat * height.toNat * 3)
      (toRgb8 format width height rowStride) where
  refused := by
    intro src stop heq
    rw [toRgb8, rgb8Into_refused _ hl heq, error_bind]
  alike := by
    intro src other hleft hright hsound hsound' hagree
    obtain ⟨out, hlength, hout, hother⟩ :=
      rgb8Into_alike Converter.new hl hfits hleft hright hsound hsound' hagree
    refine ⟨out.1, hlength, ?_⟩
    rw [toRgb8, toRgb8, hout, hother]
    exact ⟨rfl, rfl⟩

def Pixels.channels : Pixels → Nat
  | .gray8 _ | .gray16 _ _ => 1
  | .rgb8 _ | .rgb16 _ _ => 3

theorem fullDepth_follows (hl : layout format = some l)
    (hfits : format.cfaPattern.isSome → width.toNat * height.toNat * 3 < 2 ^ 64) :
    FollowsRows l format width height rowStride
      (fun out => out.length = width.toNat * height.toNat * out.channels)
      (fullDepth format width height rowStride) where
  refused := by
    intro src stop heq
    rw [fullDepth, hl]
    dsimp only
    rw [heq, error_bind]
  alike := by
    intro src other hleft hright hsound hsound' hagree
    have hvalid := (layout_spec hl).2
    obtain ⟨colours, hlength, hcolours, hcolours'⟩ :=
      rgb8Into_alike Converter.new hl hfits hleft hright hsound hsound' hagree
    simp only [fullDepth, hl, hleft, hright, ok_bind, hcolours, hcolours']
    cases l with
    | mono single =>
      dsimp only
      split
      · rename_i h8
        obtain ⟨out, hlength, hout, hother⟩ := gather8_spec rfl hvalid h8 hsound hsound' hagree
        rw [hout, hother]
        exact ⟨.gray8 out, hlength.trans (Nat.mul_one _).symm, rfl, rfl⟩
      · obtain ⟨out, hlength, hout, hother⟩ := unpackRows_spec rfl hvalid hsound hsound' hagree
        rw [hout, hother]
        exact ⟨.gray16 out single.bits, hlength.trans (Nat.mul_one _).symm, rfl, rfl⟩
    | bayer single offsets =>
      dsimp only
      split
      · exact ⟨.rgb8 colours.1, hlength, rfl, rfl⟩
      · obtain ⟨samples, hsize, hout, hother⟩ :=
          unpackRows_spec rfl hvalid hsound hsound' hagree
        obtain ⟨out, hsize', hdemosaic⟩ := demosaicBilinear_ok offsets hsize
          (hfits (by rw [bayer_cfaPattern hl]; rfl))
        rw [hout, hother, ok_bind, hdemosaic]
        exact ⟨.rgb16 out single.bits, hsize', rfl, rfl⟩
    | rgb order => exact ⟨.rgb8 colours.1, hlength, rfl, rfl⟩
    | yuv order => exact ⟨.rgb8 colours.1, hlength, rfl, rfl⟩

/-- `rgb8` of `RGB8` lines of an image without lines: its row count is taken for one. -/
def LendsNoLine (format : PixelFormat) (width height : UInt32) (rowStride : Option Nat) : Prop :=
  format = .rgb8Packed ∧ height.toNat = 0 ∧ width.toNat ≠ 0 ∧ rowStride.isSome

theorem rgb8_follows (hl : layout format = some l)
    (hfits : format.cfaPattern.isSome → width.toNat * height.toNat * 3 < 2 ^ 64)
    (hlends : ¬ LendsNoLine format width height rowStride) :
    FollowsRows l format width height rowStride
      (fun out => out.length = width.toNat * height.toNat * 3)
      (fun src => (converter.rgb8 format width height rowStride src).map Prod.fst) where
  refused := by
    intro src stop heq
    rw [Converter.rgb8, rgb8Into_refused converter hl heq, heq]
    split <;> rfl
  alike := by
    intro src other hleft hright hsound hsound' hagree
    obtain ⟨colours, hlength, hcolours, hcolours'⟩ :=
      rgb8Into_alike converter hl hfits hleft hright hsound hsound' hagree
    simp only [Converter.rgb8, hleft, hright, hcolours, hcolours', ok_bind, ← hagree.count,
      ← hagree.pixels]
    by_cases hformat : format = .rgb8Packed
    · subst hformat
      cases hl
      rw [if_pos rfl, if_pos rfl]
      by_cases hcount : (rowsOf (.rgb .rgb) width height rowStride src).count ≤ 1
      · set left := rowsOf (.rgb .rgb) width height rowStride src with hleftRows
        have hholds : (left.pixels + 1 - 1) / 1 * 3 ≤ left.bytes := hsound.holds
        rw [Nat.add_sub_cancel, Nat.div_one] at hholds
        have hnoLine : left.count = 0 → left.pixels = 0 := by
          intro hzero
          cases rowStride with
          | none => cases hzero
          | some stride =>
            by_contra hwide
            exact hlends ⟨rfl, hzero, hwide, rfl⟩
        have hsize : left.pixels * 3 ≤ left.bytes * left.count := by
          rcases Nat.eq_zero_or_pos left.count with hzero | hpos
          · simp [hnoLine hzero]
          · calc
              left.pixels * 3 ≤ left.bytes * 1 := by omega
              _ ≤ left.bytes * left.count := Nat.mul_le_mul_left _ hpos
        have hproduct : left.pixels * 3 = width.toNat * height.toNat * 3 := by
          rw [← hsound.product]
          rcases Nat.eq_zero_or_pos left.count with hzero | hpos
          · simp [hnoLine hzero]
          · rw [show left.count = 1 by omega, Nat.mul_one]
        have hsmall := hsound.small
        have harea := hsound.area
        rw [Nat.mul_comm left.count] at harea
        obtain ⟨run, hrun, hlent, hlent'⟩ :=
          lent_spec id hsound hsound' hagree hcount hsize
        rw [if_pos hcount, if_pos hcount, mul_eq (by omega), orPanic_some, ok_bind, ok_bind, hlent,
          hlent']
        exact ⟨run, by rw [hrun, hproduct], rfl, rfl⟩
      · rw [if_neg hcount, if_neg hcount]
        exact ⟨colours.1, hlength, rfl, rfl⟩
    · rw [if_neg hformat, if_neg hformat]
      exact ⟨colours.1, hlength, rfl, rfl⟩

end Rgb

end Conversions

theorem rows_no_panic (format : PixelFormat) (hl : layout format = none) (width height : UInt32)
    (rowStride : Option Nat) (src : List UInt8) :
    rows format width height rowStride src ≠ .error .panic := by
  have hwhole : ∀ pixels completed, expectedRun format (.tooLarge width height) pixels completed =
      .ok completed := by
    intro pixels completed
    rw [expectedRun, hl]
  unfold rows
  cases rowStride with
  | none =>
    dsimp only
    unfold geometry
    dsimp only
    rw [mul_eq (pixels_lt width height), orError_some, ok_bind]
    cases format.imageBytes width height with
    | none => simp [orError_none]
    | some completed =>
      rw [orError_some, ok_bind, hwhole, ok_bind]
      split
      · simp
      · rw [slice_zero (by omega)]
        simp
  | some stride =>
    dsimp only
    rw [mul_eq (pixels_lt width height), orError_some, ok_bind]
    cases format.lineBytes width with
    | none => simp [orError_none]
    | some size =>
      rw [orError_some, ok_bind]
      split
      · simp
      · unfold expectedLines
        cases sub height.toNat 1 with
        | none =>
          dsimp only
          rw [ok_bind]
          split <;> simp
        | some beforeLast =>
          dsimp only
          cases mul stride beforeLast with
          | none => simp [orError_none]
          | some start =>
            rw [orError_some, ok_bind]
            cases add start size with
            | none => simp [orError_none]
            | some expected =>
              rw [orError_some, ok_bind]
              split <;> simp

theorem unpackU16_unsupported {format : PixelFormat} (hl : ∀ l, layout format = some l →
    l.single = none) (width height : UInt32) (rowStride : Option Nat) :
    Total (fun out => out.length = width.toNat * height.toNat)
      (unpackU16 format width height rowStride) := by
  intro src hsmall
  have hrows : rows format width height rowStride src ≠ .error .panic := by
    cases hlayout : layout format with
    | none => exact rows_no_panic format hlayout width height rowStride src
    | some l =>
      have hverdict := rows_verdict hlayout width height rowStride src
      by_cases hshort : StrideShort l width rowStride
      · obtain ⟨stride, hstride, hlt⟩ := hshort
        rw [hverdict.short stride hstride hlt]
        simp
      · by_cases hlarge : TooLarge l width height rowStride
        · rw [hverdict.large hshort hlarge]
          simp
        · rcases Nat.lt_or_ge src.length (imageEnd l width height rowStride) with hlt | henough
          · rw [hverdict.payload hshort hlarge hlt]
            simp
          · rw [hverdict.ok hshort hlarge henough]
            simp
  have hrefused : unpackU16 format width height rowStride src = (do
      let _ ← rows format width height rowStride src
      .error (.error (.unsupported format))) := by
    unfold unpackU16
    cases hlayout : layout format with
    | none => rfl
    | some l =>
      have hnone := hl l hlayout
      cases l with
      | mono single => cases hnone
      | bayer single offsets => cases hnone
      | rgb order => rfl
      | yuv order => rfl
  rw [hrefused]
  cases hresult : rows format width height rowStride src with
  | error stop =>
    rw [hresult] at hrows
    rw [error_bind]
    exact ⟨fun heq => hrows (by cases heq; rfl), fun out heq => by cases heq⟩
  | ok found =>
    rw [ok_bind]
    refine ⟨?_, ?_⟩
    · intro heq
      cases heq
    · intro out heq
      cases heq

section All

variable (format : PixelFormat) (width height : UInt32) (rowStride : Option Nat)
  (converter : Converter)

theorem unpackU16_total :
    Total (fun out => out.length = width.toNat * height.toNat)
      (unpackU16 format width height rowStride) := by
  by_cases hconverts : ∃ l, layout format = some l ∧ l.single.isSome
  · obtain ⟨l, hl, hsingle⟩ := hconverts
    exact (unpackU16_follows hl hsingle).total hl
  · apply unpackU16_unsupported
    intro l hl
    rw [← Option.not_isSome_iff_eq_none]
    exact fun hsingle => hconverts ⟨l, hl, hsingle⟩

theorem gray8_total :
    Total (fun out => out.length = width.toNat * height.toNat)
      (fun src => (converter.gray8 format width height rowStride src).map Prod.fst) := by
  by_cases hconverts : ∃ single, layout format = some (.mono single)
  · obtain ⟨single, hl⟩ := hconverts
    exact (gray8_follows converter hl).total hl
  · intro src _
    have hrefused : converter.gray8 format width height rowStride src =
        .error (.error (.unsupported format)) := by
      unfold Converter.gray8
      split
      · rename_i single hl
        exact absurd ⟨single, hl⟩ hconverts
      · rfl
    dsimp only
    rw [hrefused]
    exact ⟨by simp [Except.map], fun out heq => by cases heq⟩

/-- Every conversion is total and exactly sized: it ends in an error or in the
image's samples, by its geometry and the image's bytes alone. Left out are a
mosaic whose three colours overflow, and `RGB8` lines of an image without lines. -/
theorem conversion_exact :
    Total (fun out => out.length = width.toNat * height.toNat)
      (unpackU16 format width height rowStride) ∧
    Total (fun out => out.length = width.toNat * height.toNat)
      (fun src => (converter.gray8 format width height rowStride src).map Prod.fst) ∧
    (∀ l, layout format = some l → format.lineBytes width = some (l.completed width.toNat) ∧
      (¬ TooLarge l width height none →
        format.imageBytes width height = some (l.completed (width.toNat * height.toNat))) ∧
      (l.single.isSome → Converts l format width height rowStride
        (fun out => out.length = width.toNat * height.toNat)
        (unpackU16 format width height rowStride)) ∧
      ((∃ single, l = .mono single) → Converts l format width height rowStride
        (fun out => out.length = width.toNat * height.toNat)
        (fun src => (converter.gray8 format width height rowStride src).map Prod.fst))) ∧
    ((format.cfaPattern.isSome → width.toNat * height.toNat * 3 < 2 ^ 64) →
      (layout format = none → ∀ src,
        toRgb8 format width height rowStride src = .error (.error (.unsupported format)) ∧
        fullDepth format width height rowStride src = .error (.error (.unsupported format)) ∧
        converter.rgb8 format width height rowStride src =
          .error (.error (.unsupported format))) ∧
      ∀ l, layout format = some l →
        Converts l format width height rowStride
          (fun out => out.length = width.toNat * height.toNat * 3)
          (toRgb8 format width height rowStride) ∧
        Converts l format width height rowStride
          (fun out => out.length = width.toNat * height.toNat * out.channels)
          (fullDepth format width height rowStride) ∧
        (¬ LendsNoLine format width height rowStride →
          Converts l format width height rowStride
            (fun out => out.length = width.toNat * height.toNat * 3)
            (fun src => (converter.rgb8 format width height rowStride src).map Prod.fst))) := by
  refine ⟨unpackU16_total format width height rowStride,
    gray8_total format width height rowStride converter, ?_, ?_⟩
  · intro l hl
    refine ⟨lineBytes_eq hl width, ?_, ?_, ?_⟩
    · intro hfits
      rw [imageBytes_eq hl, if_pos]
      exact Nat.lt_of_not_le fun hlarge => hfits (Or.inl hlarge)
    · intro hsingle
      exact (unpackU16_follows hl hsingle).converts hl
    · rintro ⟨single, rfl⟩
      exact (gray8_follows converter hl).converts hl
  · intro hfits
    refine ⟨?_, ?_⟩
    · intro hl src
      have hother : format ≠ .rgb8Packed := by
        rintro rfl
        cases hl
      refine ⟨?_, ?_, ?_⟩
      · rw [toRgb8, Converter.rgb8Into, hl, error_bind]
      · rw [fullDepth, hl]
      · rw [Converter.rgb8, if_neg hother, ok_bind]
        dsimp only
        rw [Converter.rgb8Into, hl, error_bind]
    · intro l hl
      refine ⟨(toRgb8_follows hl hfits).converts hl, (fullDepth_follows hl hfits).converts hl, ?_⟩
      intro hlends
      exact (rgb8_follows converter hl hfits hlends).converts hl

/-- Two bytes hold a lone 12-bit packed pixel. -/
theorem conversion_exact_lone_pixel :
    ∃ out, toRgb8 .mono12p 1 1 none [0xBC, 0x0A] = .ok out ∧ out.length = 3 :=
  (((conversion_exact .mono12p 1 1 none Converter.new).2.2.2 (by decide)).2 _ rfl).1.sized
    [0xBC, 0x0A] (by decide) (by rintro ⟨_, heq, _⟩; cases heq)
    (by rintro (h | h) <;> exact absurd h (by decide)) (by decide)

/-- A stride near the end of the address range is called too large, not a short
payload; and an image without lines is sliced for one. -/
theorem stride_overflow_and_no_lines :
    ¬ (∀ format width height stride src l, layout format = some l → l.single.isSome →
      l.completed width.toNat ≤ stride →
      ((∃ expected actual, unpackU16 format width height (some stride) src =
          .error (.error (.shortPayload format expected actual))) ↔
        0 < height.toNat ∧
          src.length < stride * (height.toNat - 1) + l.completed width.toNat)) ∧
    Converter.new.rgb8 .rgb8Packed 1 0 (some 3) [] = .error .panic := by
  refine ⟨fun h => ?_, rfl⟩
  obtain ⟨expected, actual, heq⟩ :=
    (h .mono8 1 2 (2 ^ 64 - 1) [] _ rfl rfl (by decide)).mpr (by decide)
  have hlarge : unpackU16 .mono8 1 2 (some (2 ^ 64 - 1)) [] =
      .error (.error (.tooLarge 1 2)) := by decide
  rw [hlarge] at heq
  cases heq

end All

end VivaGenicam.Pixel
