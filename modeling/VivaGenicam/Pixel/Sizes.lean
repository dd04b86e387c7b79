import VivaGenicam.Pixel.Convert

/-!
How much a conversion yields. A row that holds the bytes its pixels need is
decoded to exactly that many samples, whatever follows those bytes; a mosaic
of the right size is demosaiced to three samples for each of its own.
-/

namespace VivaGenicam.Pixel

open Library.Checked

@[simp] theorem orPanic_some {α : Type} (value : α) : orPanic (some value) = .ok value := rfl

@[simp] theorem orError_some {α : Type} (error : ConvertError) (value : α) :
    orError error (some value) = .ok value := rfl

@[simp] theorem orError_none {α : Type} (error : ConvertError) :
    orError error (none : Option α) = .error (.error error) := rfl

@[simp] theorem ok_bind {α β : Type} (value : α) (next : α → Except Stop β) :
    (Except.ok value >>= next) = next value := rfl

@[simp] theorem error_bind {α β : Type} (stop : Stop) (next : α → Except Stop β) :
    (Except.error stop >>= next) = .error stop := rfl

theorem appendEach_spec {α β : Type} {step other : α → Except Stop (List β)} {items : List α}
    {size : Nat}
    (h : ∀ item ∈ items, ∃ out, out.length = size ∧ step item = .ok out ∧ other item = .ok out) :
    ∃ out, out.length = items.length * size ∧ appendEach step items = .ok out ∧
      appendEach other items = .ok out := by
  induction items with
  | nil => exact ⟨[], by simp, rfl, rfl⟩
  | cons item rest ih =>
    obtain ⟨first, hsize, hfirst, hother⟩ := h item (by simp)
    obtain ⟨others, htotal, hrest, hothers⟩ := ih fun next hmem => h next (by simp [hmem])
    refine ⟨first ++ others, ?_, ?_, ?_⟩
    · rw [List.length_append, List.length_cons, hsize, htotal, Nat.succ_mul]
      omega
    · rw [appendEach, hfirst, hrest]
      rfl
    · rw [appendEach, hother, hothers]
      rfl

theorem headD_eq_of_take {α : Type} {count : Nat} {left right : List α} (default : α)
    (h : left.take (count + 1) = right.take (count + 1)) :
    left.headD default = right.headD default ∧ left.tail.take count = right.tail.take count := by
  cases left with
  | nil =>
    cases right with
    | nil => exact ⟨rfl, rfl⟩
    | cons other rest => simp at h
  | cons first rest =>
    cases right with
    | nil => simp at h
    | cons other rest' =>
      rw [List.take_succ_cons, List.take_succ_cons, List.cons.injEq] at h
      exact h

theorem fill_spec {bits : Nat} (hbits : bits ≤ 24) {count : Nat} (acc : UInt32) (held : Nat)
    (hheld : held < bits + 8) {bytes others : List UInt8}
    (hsame : bytes.take count = others.take count) (hcount : bits ≤ held + 8 * count) :
    ∃ word used, used ≤ count ∧ bits ≤ held + 8 * used ∧ held + 8 * used < bits + 8 ∧
      fill bits acc held bytes = some (word, held + 8 * used, bytes.drop used) ∧
      fill bits acc held others = some (word, held + 8 * used, others.drop used) := by
  induction count generalizing acc held bytes others with
  | zero =>
    rw [fill, if_neg (by omega), fill, if_neg (by omega)]
    exact ⟨acc, 0, le_rfl, by omega, by omega, rfl, rfl⟩
  | succ count ih =>
    rcases Nat.lt_or_ge held bits with hmore | hdone
    · obtain ⟨hhead, htail⟩ := headD_eq_of_take 0 hsame
      rw [fill, if_pos hmore, fill, if_pos hmore, ← hhead, shl32, if_pos (by omega)]
      obtain ⟨word, used, hused, hle, hlt, hfill, hother⟩ :=
        ih (acc ||| (bytes.headD 0).toUInt32 <<< UInt32.ofNat held) (held + 8) (by omega) htail
          (by omega)
      have hkept : held + 8 + 8 * used = held + 8 * (used + 1) := by omega
      rw [hkept, List.drop_tail] at hfill hother
      exact ⟨word, used + 1, by omega, by omega, by omega, hfill, hother⟩
    · rw [fill, if_neg (by omega), fill, if_neg (by omega)]
      exact ⟨acc, 0, by omega, by omega, by omega, rfl, rfl⟩

theorem lsbSamples_spec {bits : Nat} (hbits : bits ≤ 24) (mask : UInt32) (pixels : Nat)
    {count : Nat} (acc : UInt32) (held : Nat) (hheld : held < 8) {bytes others : List UInt8}
    (hsame : bytes.take count = others.take count) (hcount : pixels * bits ≤ held + 8 * count) :
    ∃ out, out.length = pixels ∧ lsbSamples bits mask pixels acc held bytes = some out ∧
      lsbSamples bits mask pixels acc held others = some out := by
  induction pixels generalizing count acc held bytes others with
  | zero => exact ⟨[], rfl, rfl, rfl⟩
  | succ pixels ih =>
    rw [Nat.succ_mul] at hcount
    obtain ⟨word, used, hused, hle, hlt, hfill, hother⟩ :=
      fill_spec hbits acc held (by omega) hsame (by omega)
    have hrest : (bytes.drop used).take (count - used) =
        (others.drop used).take (count - used) := by
      rw [← List.drop_take, ← List.drop_take, hsame]
    obtain ⟨out, hlength, hbytes, hothers⟩ :=
      ih (word >>> UInt32.ofNat bits) (held + 8 * used - bits) (by omega) hrest (by omega)
    refine ⟨(word &&& mask).toUInt16 :: out, by rw [List.length_cons, hlength], ?_, ?_⟩
    · simp only [lsbSamples, hfill, Option.bind_eq_bind, Option.bind_some, shr32,
        if_pos (show bits < 32 by omega), sub_eq hle, hbytes]
    · simp only [lsbSamples, hother, Option.bind_eq_bind, Option.bind_some, shr32,
        if_pos (show bits < 32 by omega), sub_eq hle, hothers]

theorem length_littleEndianPairs : ∀ bytes : List UInt8,
    (littleEndianPairs bytes).length = bytes.length / 2
  | [] => rfl
  | [_] => by simp [littleEndianPairs]
  | _ :: _ :: rest => by
    rw [littleEndianPairs, List.length_cons, length_littleEndianPairs rest, List.length_cons,
      List.length_cons]
    omega

theorem take_littleEndianPairs (pixels : Nat) (bytes : List UInt8) :
    (littleEndianPairs bytes).take pixels = littleEndianPairs (bytes.take (pixels * 2)) := by
  induction pixels generalizing bytes with
  | zero => simp [littleEndianPairs]
  | succ pixels ih =>
    rw [Nat.succ_mul]
    match bytes with
    | [] => simp [littleEndianPairs]
    | [_] => simp [littleEndianPairs]
    | low :: high :: rest => simp [littleEndianPairs, ih]

/-- The bytes GigE Vision's two pixels in three bytes need. -/
def gigeBytes (pixels : Nat) : Nat := 3 * (pixels / 2) + 2 * (pixels % 2)

theorem gigeGroups_spec (shift mask : UInt16) (pixels : Nat) {bytes others : List UInt8}
    (hbytes : gigeBytes pixels ≤ bytes.length) (hothers : gigeBytes pixels ≤ others.length)
    (hsame : bytes.take (gigeBytes pixels) = others.take (gigeBytes pixels)) :
    ((gigeGroups shift mask bytes).take pixels).length = pixels ∧
      (gigeGroups shift mask bytes).take pixels = (gigeGroups shift mask others).take pixels := by
  induction pixels using Nat.strong_induction_on generalizing bytes others with
  | _ pixels ih =>
    match pixels with
    | 0 => simp
    | 1 =>
      have hneed : gigeBytes 1 = 2 := rfl
      rw [hneed] at hbytes hothers hsame
      match bytes, others with
      | a :: b :: [], c :: d :: [] => simp_all [gigeGroups]
      | a :: b :: [], c :: d :: _ :: _ => simp_all [gigeGroups]
      | a :: b :: _ :: _, c :: d :: [] => simp_all [gigeGroups]
      | a :: b :: _ :: _, c :: d :: _ :: _ => simp_all [gigeGroups]
    | pixels + 2 =>
      have hneed : gigeBytes (pixels + 2) = gigeBytes pixels + 3 := by
        unfold gigeBytes
        omega
      rw [hneed] at hbytes hothers hsame
      match bytes, others with
      | a :: b :: c :: rest, a' :: b' :: c' :: rest' =>
        simp only [List.take_succ_cons, List.cons.injEq] at hsame
        obtain ⟨rfl, rfl, rfl, hsame⟩ := hsame
        simp only [List.length_cons] at hbytes hothers
        obtain ⟨hlength, heq⟩ := ih pixels (by omega) (by omega) (by omega) hsame
        constructor
        · simp only [gigeGroups, List.take_succ_cons, List.length_cons, hlength]
        · simp only [gigeGroups, List.take_succ_cons, heq]

/-- The bit depths the layouts come in. -/
structure Single.Valid (single : Single) : Prop where
  low : 8 ≤ single.bits
  high : single.bits ≤ 16
  packed : single.packing ≠ .unpacked → single.bits = 10 ∨ single.bits = 12

/-- The bytes a run of `pixels` pixels takes, up to its last pixel's. -/
def Single.runBytes (single : Single) (pixels : Nat) : Nat :=
  match single.packing with
  | .unpacked => if single.is8Bit then pixels else pixels * 2
  | .lsb => (pixels * single.bits + 7) / 8
  | .gige => gigeBytes pixels

theorem unpackAppend_spec {single : Single} (hvalid : single.Valid) (pixels : Nat)
    {bytes others : List UInt8} (hbytes : single.runBytes pixels ≤ bytes.length)
    (hothers : single.runBytes pixels ≤ others.length)
    (hsame : bytes.take (single.runBytes pixels) = others.take (single.runBytes pixels)) :
    ∃ out, out.length = pixels ∧ unpackAppend single pixels bytes = .ok out ∧
      unpackAppend single pixels others = .ok out := by
  obtain ⟨bits, packing⟩ := single
  obtain ⟨hlow, hhigh, hpacked⟩ := hvalid
  dsimp only at hlow hhigh
  cases packing with
  | unpacked =>
    unfold Single.runBytes at hbytes hothers hsame
    unfold unpackAppend
    dsimp only at hbytes hothers hsame ⊢
    split
    · rename_i h8
      rw [if_pos h8] at hbytes hothers hsame
      rw [slice_eq (by omega), slice_eq (by omega), List.drop_zero, List.drop_zero, hsame]
      refine ⟨(others.take pixels).map UInt8.toUInt16, ?_, rfl, rfl⟩
      rw [List.length_map, List.length_take]
      omega
    · rename_i h8
      rw [if_neg h8] at hbytes hothers hsame
      have hpairs := length_littleEndianPairs bytes
      have hpairs' := length_littleEndianPairs others
      rw [slice_eq (by omega), slice_eq (by omega), List.drop_zero, List.drop_zero,
        take_littleEndianPairs, take_littleEndianPairs, hsame]
      refine ⟨littleEndianPairs (others.take (pixels * 2)), ?_, rfl, rfl⟩
      rw [length_littleEndianPairs, List.length_take]
      omega
  | lsb =>
    have hbits := hpacked (by simp)
    dsimp only at hbits
    obtain ⟨out, hlength, hout, hother⟩ := @lsbSamples_spec bits (by omega)
      ((1 <<< UInt32.ofNat bits) - 1) pixels _ 0 0 (by omega) _ _ hsame (by
        unfold Single.runBytes
        dsimp only
        omega)
    refine ⟨out, hlength, ?_, ?_⟩
    · simp only [unpackAppend, shl32, if_pos (show bits < 32 by omega), orPanic_some, ok_bind,
        hout]
    · simp only [unpackAppend, shl32, if_pos (show bits < 32 by omega), orPanic_some, ok_bind,
        hother]
  | gige =>
    obtain ⟨hlength, heq⟩ := gigeGroups_spec (UInt16.ofNat (bits - 8))
      ((1 <<< UInt16.ofNat (bits - 8)) - 1) pixels hbytes hothers hsame
    refine ⟨_, hlength, ?_, ?_⟩
    · simp only [unpackAppend, sub_eq hlow, orPanic_some, ok_bind]
    · simp only [unpackAppend, sub_eq hlow, orPanic_some, ok_bind, heq]

theorem byteAt_ok {chunk : List UInt8} {i : Nat} (h : i < chunk.length) :
    ∃ byte, byteAt chunk i = .ok byte :=
  ⟨chunk[i], by rw [byteAt, List.getElem?_eq_getElem h]; rfl⟩

theorem length_of_mem_chunksExact {size : Nat} {source chunk : List UInt8}
    (h : chunk ∈ chunksExact size source) : chunk.length = size := by
  unfold chunksExact at h
  rw [List.mem_map] at h
  obtain ⟨i, hi, rfl⟩ := h
  rw [List.mem_range] at hi
  have hfits : (i + 1) * size ≤ source.length :=
    (Nat.mul_le_mul_right _ hi).trans (Nat.div_mul_le_self _ _)
  rw [Nat.succ_mul] at hfits
  rw [List.length_take, List.length_drop]
  omega

theorem length_chunksExact (size : Nat) (source : List UInt8) :
    (chunksExact size source).length = source.length / size := by
  simp [chunksExact]

theorem rgbAppend_ok (order : RgbOrder) {pixels : Nat} {src : List UInt8}
    (h : pixels * order.stride ≤ src.length) :
    ∃ out, out.length = pixels * 3 ∧ rgbAppend order pixels src = .ok out := by
  have hstride : 0 < order.stride := by cases order <;> decide
  have hindices : order.indices.1 < order.stride ∧ order.indices.2.1 < order.stride ∧
      order.indices.2.2 < order.stride := by cases order <;> decide
  have hcount : pixels ≤ src.length / order.stride := (Nat.le_div_iff_mul_le hstride).mpr h
  have hone : ∀ chunk ∈ (chunksExact order.stride src).take pixels, ∃ out, out.length = 3 ∧
      (do .ok [(← byteAt chunk order.indices.1), (← byteAt chunk order.indices.2.1),
        (← byteAt chunk order.indices.2.2)]) = Except.ok (ε := Stop) out ∧
      (do .ok [(← byteAt chunk order.indices.1), (← byteAt chunk order.indices.2.1),
        (← byteAt chunk order.indices.2.2)]) = Except.ok (ε := Stop) out := by
    intro chunk hmem
    have hlength := length_of_mem_chunksExact (List.mem_of_mem_take hmem)
    obtain ⟨r, hr⟩ := @byteAt_ok chunk order.indices.1 (by omega)
    obtain ⟨g, hg⟩ := @byteAt_ok chunk order.indices.2.1 (by omega)
    obtain ⟨b, hb⟩ := @byteAt_ok chunk order.indices.2.2 (by omega)
    rw [hr, hg, hb]
    exact ⟨[r, g, b], rfl, rfl, rfl⟩
  obtain ⟨out, hlength, hout, -⟩ := appendEach_spec hone
  refine ⟨out, ?_, hout⟩
  rw [hlength, List.length_take, length_chunksExact, Nat.min_eq_left hcount]

def YuvOrder.group : YuvOrder → Nat × Nat
  | .yuyv | .uyvy => (2, 4)
  | .uyyvyy => (4, 6)
  | .uyv | .yuv => (1, 3)

theorem yuvGroup_ok {order : YuvOrder} {chunk : List UInt8}
    (h : chunk.length = order.group.2) :
    ∃ out, out.length = order.group.1 * 3 ∧
      yuvGroup order.offsets.2.1 order.offsets.2.2.1 order.offsets.2.2.2 chunk = .ok out := by
  have hlumas : ∀ luma ∈ order.offsets.2.1, luma < order.group.2 := by cases order <;> decide
  have hchroma : order.offsets.2.2.1 < order.group.2 ∧ order.offsets.2.2.2 < order.group.2 := by
    cases order <;> decide
  have hcount : order.offsets.2.1.length = order.group.1 := by cases order <;> decide
  obtain ⟨cb, hcb⟩ := @byteAt_ok chunk order.offsets.2.2.1 (by omega)
  obtain ⟨cr, hcr⟩ := @byteAt_ok chunk order.offsets.2.2.2 (by omega)
  have hone : ∀ luma ∈ order.offsets.2.1, ∃ out : List UInt8, out.length = 3 ∧
      (do .ok (ycbcrToRgb (← byteAt chunk luma) (← byteAt chunk order.offsets.2.2.1)
        (← byteAt chunk order.offsets.2.2.2))) = Except.ok (ε := Stop) out ∧
      (do .ok (ycbcrToRgb (← byteAt chunk luma) (← byteAt chunk order.offsets.2.2.1)
        (← byteAt chunk order.offsets.2.2.2))) = Except.ok (ε := Stop) out := by
    intro luma hmem
    obtain ⟨y, hy⟩ := @byteAt_ok chunk luma (by have := hlumas luma hmem; omega)
    rw [hy, hcb, hcr]
    exact ⟨ycbcrToRgb y cb cr, rfl, rfl, rfl⟩
  obtain ⟨out, hlength, hout, -⟩ := appendEach_spec hone
  exact ⟨out, by rw [hlength, hcount], hout⟩

theorem yuvAppend_ok (order : YuvOrder) {pixels : Nat} {src : List UInt8}
    (h : (pixels + order.group.1 - 1) / order.group.1 * order.group.2 ≤ src.length)
    (hfits : pixels * 3 < 2 ^ 64) :
    ∃ out, out.length = pixels * 3 ∧ yuvAppend order pixels src = .ok out := by
  have hgroup : order.offsets.1 = order.group.2 := by cases order <;> rfl
  have hpos : 0 < order.group.1 ∧ 0 < order.group.2 := by cases order <;> decide
  have hone : ∀ chunk ∈ chunksExact order.group.2 src, ∃ out, out.length = order.group.1 * 3 ∧
      yuvGroup order.offsets.2.1 order.offsets.2.2.1 order.offsets.2.2.2 chunk = .ok out ∧
      yuvGroup order.offsets.2.1 order.offsets.2.2.1 order.offsets.2.2.2 chunk = .ok out := by
    intro chunk hmem
    obtain ⟨out, hlength, hout⟩ := yuvGroup_ok (length_of_mem_chunksExact hmem)
    exact ⟨out, hlength, hout, hout⟩
  obtain ⟨out, hlength, hout, -⟩ := appendEach_spec hone
  have hcount : (pixels + order.group.1 - 1) / order.group.1 ≤ src.length / order.group.2 :=
    (Nat.le_div_iff_mul_le hpos.2).mpr h
  have hpixels : pixels ≤ (pixels + order.group.1 - 1) / order.group.1 * order.group.1 := by
    have hmod := Nat.mod_lt (pixels + order.group.1 - 1) hpos.1
    have hdiv := Nat.div_add_mod (pixels + order.group.1 - 1) order.group.1
    rw [Nat.mul_comm] at hdiv
    omega
  have henough : pixels * 3 ≤ out.length := by
    rw [hlength, length_chunksExact, ← Nat.mul_assoc]
    exact Nat.mul_le_mul_right 3 (hpixels.trans (Nat.mul_le_mul_right _ hcount))
  refine ⟨out.take (pixels * 3), ?_, ?_⟩
  · rw [List.length_take, Nat.min_eq_left henough]
  · simp only [yuvAppend, mul_eq hfits, orPanic_some, ok_bind, hgroup, hout]

section Demosaic

variable {α : Type} [Sample α]

theorem at_ok {samples : List α} {i : Nat} (h : i < samples.length) :
    ∃ value, at_ samples i = .ok value :=
  ⟨Sample.widen samples[i], by rw [at_, List.getElem?_eq_getElem h]; rfl⟩

theorem demosaicPixel_ok {above here below : List α} {width x : Nat} (xOffset ySite : Nat)
    (habove : above.length = width) (hhere : here.length = width)
    (hbelow : below.length = width) (hx : x < width) :
    ∃ out, out.length = 3 ∧ demosaicPixel above here below width xOffset ySite x = .ok out := by
  have hright : min (x + 1) (width - 1) < width := by omega
  obtain ⟨centre, hcentre⟩ := @at_ok _ _ here x (by omega)
  obtain ⟨left, hleft⟩ := @at_ok _ _ here (x - 1) (by omega)
  obtain ⟨right, hrightOk⟩ := @at_ok _ _ here (min (x + 1) (width - 1)) (by omega)
  obtain ⟨up, hup⟩ := @at_ok _ _ above x (by omega)
  obtain ⟨upLeft, hupLeft⟩ := @at_ok _ _ above (x - 1) (by omega)
  obtain ⟨upRight, hupRight⟩ :=
    @at_ok _ _ above (min (x + 1) (width - 1)) (by omega)
  obtain ⟨down, hdown⟩ := @at_ok _ _ below x (by omega)
  obtain ⟨downLeft, hdownLeft⟩ := @at_ok _ _ below (x - 1) (by omega)
  obtain ⟨downRight, hdownRight⟩ :=
    @at_ok _ _ below (min (x + 1) (width - 1)) (by omega)
  simp only [demosaicPixel, hcentre, hleft, hrightOk, hup, hupLeft, hupRight, hdown, hdownLeft,
    hdownRight, ok_bind]
  split
  all_goals exact ⟨_, rfl, rfl⟩

theorem demosaicBilinear_ok {mosaic : List α} {width height : Nat} (offsets : Nat × Nat)
    (hmosaic : mosaic.length = width * height) (hfits : width * height * 3 < 2 ^ 64) :
    ∃ out, out.length = width * height * 3 ∧
      demosaicBilinear mosaic width height offsets = .ok out := by
  simp only [demosaicBilinear, mul_eq (show width * height < 2 ^ 64 by omega), mul_eq hfits,
    orPanic_some, ok_bind]
  split
  · rename_i hempty
    exact ⟨[], by rcases hempty with rfl | rfl <;> simp, rfl⟩
  · rename_i hpos
    rw [not_or] at hpos
    have hrow : ∀ y < height, ∃ line : List α, line.length = width ∧
        (do let start ← orPanic (mul y width); orPanic (slice mosaic start width)) =
          Except.ok (ε := Stop) line := by
      intro y hy
      have hend : (y + 1) * width ≤ mosaic.length := by
        rw [hmosaic, Nat.mul_comm width]
        exact Nat.mul_le_mul_right _ hy
      rw [Nat.succ_mul] at hend
      rw [mul_eq (by omega), orPanic_some, ok_bind, slice_eq hend]
      refine ⟨_, ?_, rfl⟩
      rw [List.length_take, List.length_drop]
      omega
    have hone : ∀ y ∈ List.range height, ∃ out : List α, out.length = width * 3 ∧
        (do
          let above ← (do
            let start ← orPanic (mul (y - 1) width)
            orPanic (slice mosaic start width))
          let here ← (do let start ← orPanic (mul y width); orPanic (slice mosaic start width))
          let below ← (do
            let start ← orPanic (mul (min (y + 1) (height - 1)) width)
            orPanic (slice mosaic start width))
          appendEach (demosaicPixel above here below width offsets.1 ((y + offsets.2) % 2))
            (List.range width)) = Except.ok (ε := Stop) out := by
      intro y hmem
      rw [List.mem_range] at hmem
      obtain ⟨above, hlengthAbove, habove⟩ := hrow (y - 1) (by omega)
      obtain ⟨here, hlengthHere, hhere⟩ := hrow y hmem
      obtain ⟨below, hlengthBelow, hbelow⟩ := hrow (min (y + 1) (height - 1)) (by omega)
      have hpixel : ∀ x ∈ List.range width, ∃ out, out.length = 3 ∧
          demosaicPixel above here below width offsets.1 ((y + offsets.2) % 2) x = .ok out ∧
          demosaicPixel above here below width offsets.1 ((y + offsets.2) % 2) x = .ok out := by
        intro x hx
        rw [List.mem_range] at hx
        obtain ⟨out, hlength, hout⟩ := demosaicPixel_ok offsets.1 ((y + offsets.2) % 2)
          hlengthAbove hlengthHere hlengthBelow hx
        exact ⟨out, hlength, hout, hout⟩
      obtain ⟨out, hlength, hout, -⟩ := appendEach_spec hpixel
      rw [habove, hhere, hbelow]
      exact ⟨out, by rw [hlength, List.length_range], hout⟩
    obtain ⟨out, hlength, hout, -⟩ := appendEach_spec fun y hmem => by
      obtain ⟨out, hlength, hout⟩ := hone y hmem
      exact ⟨out, hlength, hout, hout⟩
    refine ⟨out, ?_, hout⟩
    rw [hlength, List.length_range, ← Nat.mul_assoc, Nat.mul_comm height]

end Demosaic

end VivaGenicam.Pixel
