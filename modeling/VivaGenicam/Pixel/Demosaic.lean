import VivaGenicam.Pixel.Unpacking

/-!
What the demosaic makes of a mosaic: at each site the mosaic's own sample in that
site's channel, and means of its neighbours in the other two.
-/

namespace VivaGenicam.Pixel

open Library.Checked

/-- Narrowing undoes widening, and keeps every number up to the largest sample. -/
class LawfulSample (α : Type) [Sample α] where
  limit : Nat
  widen_le (sample : α) : Sample.widen sample ≤ limit
  narrow_widen (sample : α) : Sample.narrow (Sample.widen sample) = sample
  widen_narrow {n : Nat} (h : n ≤ limit) : Sample.widen (Sample.narrow n : α) = n

instance : LawfulSample UInt8 where
  limit := 255
  widen_le _ := Nat.le_of_lt_succ (UInt8.toNat_lt _)
  narrow_widen _ := UInt8.ofNat_toNat
  widen_narrow h := UInt8.toNat_ofNat_of_lt' (Nat.lt_succ_of_le h)

instance : LawfulSample UInt16 where
  limit := 65535
  widen_le _ := Nat.le_of_lt_succ (UInt16.toNat_lt _)
  narrow_widen _ := UInt16.ofNat_toNat
  widen_narrow h := UInt16.toNat_ofNat_of_lt' (Nat.lt_succ_of_le h)

/-- R, G and B at `(x, y)` from the values of a mosaic, clamped at its edges. -/
def colours (value : Nat → Nat → Nat) (width height : Nat) (offsets : Nat × Nat) (x y : Nat) :
    Nat × Nat × Nat :=
  let left := x - 1
  let right := min (x + 1) (width - 1)
  let up := y - 1
  let down := min (y + 1) (height - 1)
  let centre := value x y
  let horizontal := (value left y + value right y) / 2
  let vertical := (value x up + value x down) / 2
  let cross := (value left y + value right y + value x up + value x down) / 4
  let diagonal := (value left up + value right up + value left down + value right down) / 4
  match (x + offsets.1) % 2, (y + offsets.2) % 2 with
  | 0, 0 => (centre, cross, diagonal)
  | 1, 0 => (horizontal, centre, vertical)
  | 0, 1 => (vertical, centre, horizontal)
  | _, _ => (diagonal, cross, centre)

/-- The channel a site of the mosaic samples: 0 for R, 1 for G, 2 for B. -/
def siteChannel (offsets : Nat × Nat) (x y : Nat) : Nat :=
  (x + offsets.1) % 2 + (y + offsets.2) % 2

def channelOf {β : Type} (pixel : β × β × β) : Nat → β
  | 0 => pixel.1
  | 1 => pixel.2.1
  | _ => pixel.2.2

section Colours

variable {value : Nat → Nat → Nat} {width height : Nat} (offsets : Nat × Nat) {x y : Nat}

theorem site_cases (x y : Nat) :
    ((x + offsets.1) % 2 = 0 ∧ (y + offsets.2) % 2 = 0) ∨
      ((x + offsets.1) % 2 = 1 ∧ (y + offsets.2) % 2 = 0) ∨
      ((x + offsets.1) % 2 = 0 ∧ (y + offsets.2) % 2 = 1) ∨
      ((x + offsets.1) % 2 = 1 ∧ (y + offsets.2) % 2 = 1) := by
  omega

theorem colours_site : channelOf (colours value width height offsets x y)
    (siteChannel offsets x y) = value x y := by
  rcases site_cases offsets x y with ⟨hx, hy⟩ | ⟨hx, hy⟩ | ⟨hx, hy⟩ | ⟨hx, hy⟩ <;>
    simp only [colours, siteChannel, hx, hy, channelOf]

theorem colours_bounds (hx : x < width) (hy : y < height) {low high : Nat}
    (h : ∀ x < width, ∀ y < height, low ≤ value x y ∧ value x y ≤ high) (channel : Nat) :
    low ≤ channelOf (colours value width height offsets x y) channel ∧
      channelOf (colours value width height offsets x y) channel ≤ high := by
  have hleft := h (x - 1) (by omega)
  have hright := h (min (x + 1) (width - 1)) (by omega)
  have hcentre := h x hx
  have hup : y - 1 < height := by omega
  have hdown : min (y + 1) (height - 1) < height := by omega
  have := hleft y hy
  have := hright y hy
  have := hcentre y hy
  have := hleft _ hup
  have := hright _ hup
  have := hcentre _ hup
  have := hleft _ hdown
  have := hright _ hdown
  have := hcentre _ hdown
  have hchannel : ∀ r g b, (low ≤ r ∧ r ≤ high) → (low ≤ g ∧ g ≤ high) → (low ≤ b ∧ b ≤ high) →
      low ≤ channelOf (r, g, b) channel ∧ channelOf (r, g, b) channel ≤ high := by
    intro r g b hr hg hb
    unfold channelOf
    split
    · exact hr
    · exact hg
    · exact hb
  rcases site_cases offsets x y with ⟨hx, hy⟩ | ⟨hx, hy⟩ | ⟨hx, hy⟩ | ⟨hx, hy⟩ <;>
    simp only [colours, hx, hy] <;> apply hchannel <;> omega

theorem colours_uniform {colour : Nat × Nat × Nat}
    (h : ∀ x < width, ∀ y < height, value x y = channelOf colour (siteChannel offsets x y))
    (hx : 0 < x) (hxw : x + 1 < width) (hy : 0 < y) (hyh : y + 1 < height) :
    colours value width height offsets x y = colour := by
  obtain ⟨r, g, b⟩ := colour
  have hright : min (x + 1) (width - 1) = x + 1 := by omega
  have hdown : min (y + 1) (height - 1) = y + 1 := by omega
  have hleftSite : (x - 1 + offsets.1) % 2 = (x + 1 + offsets.1) % 2 := by omega
  have hupSite : (y - 1 + offsets.2) % 2 = (y + 1 + offsets.2) % 2 := by omega
  have hnextX : (x + 1 + offsets.1) % 2 = 1 - (x + offsets.1) % 2 := by omega
  have hnextY : (y + 1 + offsets.2) % 2 = 1 - (y + offsets.2) % 2 := by omega
  have hcentre := h x (by omega) y (by omega)
  have hleft := h (x - 1) (by omega) y (by omega)
  have hrightValue := h (x + 1) hxw y (by omega)
  have hup := h x (by omega) (y - 1) (by omega)
  have hdownValue := h x (by omega) (y + 1) hyh
  have hupLeft := h (x - 1) (by omega) (y - 1) (by omega)
  have hupRight := h (x + 1) hxw (y - 1) (by omega)
  have hdownLeft := h (x - 1) (by omega) (y + 1) hyh
  have hdownRight := h (x + 1) hxw (y + 1) hyh
  have htwo : ∀ n, (n + n) / 2 = n := fun n => by omega
  have hfour : ∀ n, (n + n + n + n) / 4 = n := fun n => by omega
  simp only [siteChannel] at hcentre
  simp only [siteChannel, hleftSite, hnextX] at hleft
  simp only [siteChannel, hnextX] at hrightValue
  simp only [siteChannel, hupSite, hnextY] at hup
  simp only [siteChannel, hnextY] at hdownValue
  simp only [siteChannel, hleftSite, hupSite, hnextX, hnextY] at hupLeft
  simp only [siteChannel, hupSite, hnextX, hnextY] at hupRight
  simp only [siteChannel, hleftSite, hnextX, hnextY] at hdownLeft
  simp only [siteChannel, hnextX, hnextY] at hdownRight
  simp only [colours, hright, hdown, hcentre, hleft, hrightValue, hup, hdownValue, hupLeft,
    hupRight, hdownLeft, hdownRight]
  rcases site_cases offsets x y with ⟨hx, hy⟩ | ⟨hx, hy⟩ | ⟨hx, hy⟩ | ⟨hx, hy⟩ <;>
    simp only [hx, hy, channelOf, Nat.sub_zero, Nat.sub_self, Nat.reduceAdd, htwo, hfour]

end Colours

section Mosaic

variable {α : Type} [Sample α] {mosaic : List α} {width height : Nat}

/-- The value of a sample, where there is one. -/
def valueAt (samples : List α) (i : Nat) : Nat := (samples[i]?.map Sample.widen).getD 0

theorem at_eq {samples : List α} {i : Nat} (h : i < samples.length) :
    at_ samples i = .ok (valueAt samples i) := by
  rw [at_, valueAt, List.getElem?_eq_getElem h]
  rfl

def mosaicValue (mosaic : List α) (width x y : Nat) : Nat := valueAt mosaic (y * width + x)

def narrowed (pixel : Nat × Nat × Nat) : List α :=
  [Sample.narrow pixel.1, Sample.narrow pixel.2.1, Sample.narrow pixel.2.2]

variable (offsets : Nat × Nat) {x y : Nat}

theorem demosaicPixel_eq {above here below : List α}
    {value : Nat → Nat → Nat} (hx : x < width) (habove : above.length = width)
    (hhere : here.length = width) (hbelow : below.length = width)
    (hvalueAbove : ∀ i < width, valueAt above i = value i (y - 1))
    (hvalueHere : ∀ i < width, valueAt here i = value i y)
    (hvalueBelow : ∀ i < width, valueAt below i = value i (min (y + 1) (height - 1))) :
    demosaicPixel above here below width offsets.1 ((y + offsets.2) % 2) x =
      .ok (narrowed (colours value width height offsets x y)) := by
  have hleft : x - 1 < width := by omega
  have hright : min (x + 1) (width - 1) < width := by omega
  have hat : ∀ (line : List α) (row : Nat), line.length = width →
      (∀ i < width, valueAt line i = value i row) →
      ∀ i < width, at_ line i = .ok (value i row) := by
    intro line row hline hvalue i hi
    rw [at_eq (hline ▸ hi), hvalue i hi]
  have hup := hat above _ habove hvalueAbove
  have hlevel := hat here _ hhere hvalueHere
  have hdown := hat below _ hbelow hvalueBelow
  simp only [demosaicPixel, colours, hup x hx, hup _ hleft, hup _ hright, hlevel x hx,
    hlevel _ hleft, hlevel _ hright, hdown x hx, hdown _ hleft, hdown _ hright, ok_bind]
  rcases site_cases offsets x y with ⟨hx, hy⟩ | ⟨hx, hy⟩ | ⟨hx, hy⟩ | ⟨hx, hy⟩ <;>
    simp only [hx, hy, ok_bind, narrowed]

theorem mosaic_row (hlength : mosaic.length = width * height) (hfits : width * height < 2 ^ 64)
    (hy : y < height) :
    ∃ line : List α, line.length = width ∧
      (∀ i < width, valueAt line i = mosaicValue mosaic width i y) ∧
      (do
        let start ← orPanic (mul y width)
        orPanic (slice mosaic start width)) = Except.ok (ε := Stop) line := by
  have hend : y * width + width ≤ mosaic.length := by
    rw [hlength, ← Nat.succ_mul, Nat.mul_comm width]
    exact Nat.mul_le_mul_right _ hy
  refine ⟨(mosaic.drop (y * width)).take width, ?_, fun i hi => ?_, ?_⟩
  · rw [List.length_take, List.length_drop]
    omega
  · rw [mosaicValue, valueAt, valueAt, List.getElem?_take_of_lt hi, List.getElem?_drop]
  · rw [mul_eq (by omega), orPanic_some, ok_bind, slice_eq hend, orPanic_some]

theorem appendEach_eq {β γ : Type} {step : β → Except Stop (List γ)} {items : List β}
    {found : β → List γ} (h : ∀ item ∈ items, step item = .ok (found item)) :
    appendEach step items = .ok (items.flatMap found) := by
  induction items with
  | nil => rfl
  | cons item rest ih =>
    rw [appendEach, h item (List.mem_cons_self ..), ok_bind,
      ih fun later hmem => h later (List.mem_cons_of_mem _ hmem)]
    rfl

/-- The pixels of a demosaiced image, line by line. -/
def demosaiced (mosaic : List α) (width height : Nat) (offsets : Nat × Nat) : List α :=
  (List.range height).flatMap fun y => (List.range width).flatMap fun x =>
    narrowed (colours (mosaicValue mosaic width) width height offsets x y)

theorem demosaicBilinear_eq (hlength : mosaic.length = width * height)
    (hfits : width * height * 3 < 2 ^ 64) :
    demosaicBilinear mosaic width height offsets =
      .ok (demosaiced mosaic width height offsets) := by
  rw [demosaicBilinear, mul_eq (by omega), orPanic_some, ok_bind, mul_eq hfits, orPanic_some,
    ok_bind]
  split
  · rename_i hempty
    rcases hempty with rfl | rfl
    · simp [demosaiced]
    · simp [demosaiced]
  · refine appendEach_eq fun y hmem => ?_
    have hy := List.mem_range.mp hmem
    obtain ⟨above, habove, hvalueAbove, hrowAbove⟩ :=
      mosaic_row hlength (by omega) (show y - 1 < height by omega)
    obtain ⟨here, hhere, hvalueHere, hrowHere⟩ := mosaic_row hlength (by omega) hy
    obtain ⟨below, hbelow, hvalueBelow, hrowBelow⟩ :=
      mosaic_row hlength (by omega) (show min (y + 1) (height - 1) < height by omega)
    simp only [hrowAbove, hrowHere, hrowBelow, ok_bind]
    exact appendEach_eq fun x hx => demosaicPixel_eq offsets (List.mem_range.mp hx) habove hhere
      hbelow hvalueAbove hvalueHere hvalueBelow

theorem flatMap_piece {β : Type} {found : Nat → List β} {size count : Nat}
    (hsize : ∀ i < count, (found i).length = size) {i : Nat} (hi : i < count) :
    (((List.range count).flatMap found).drop (i * size)).take size = found i := by
  have hlength : ∀ n ≤ count, ((List.range n).flatMap found).length = n * size := by
    intro n hn
    induction n with
    | zero => simp
    | succ n ih =>
      rw [List.range_succ, List.flatMap_append, List.length_append, ih (by omega),
        List.flatMap_cons, List.flatMap_nil, List.append_nil, hsize n (by omega), Nat.succ_mul]
  rw [show count = i + (count - i - 1 + 1) by omega, List.range_add, List.range_succ_eq_map,
    List.map_cons, List.flatMap_append, List.drop_left' (hlength i hi.le), List.flatMap_cons,
    Nat.add_zero, List.take_left' (hsize i hi)]

def pixelAt (image : List α) (width x y : Nat) : List α :=
  (image.drop ((y * width + x) * 3)).take 3

@[simp] theorem length_narrowed (pixel : Nat × Nat × Nat) :
    (narrowed pixel : List α).length = 3 := rfl

theorem narrowed_channel (pixel : Nat × Nat × Nat) {channel : Nat} (h : channel < 3) :
    (narrowed pixel : List α)[channel]? = some (Sample.narrow (channelOf pixel channel)) := by
  interval_cases channel <;> rfl

theorem length_demosaicedLine (mosaic : List α) (width height : Nat) (offsets : Nat × Nat)
    (y : Nat) :
    ((List.range width).flatMap fun x =>
      (narrowed (colours (mosaicValue mosaic width) width height offsets x y) : List α)).length =
        width * 3 := by
  simp [List.length_flatMap]

theorem length_demosaiced (mosaic : List α) (width height : Nat) (offsets : Nat × Nat) :
    (demosaiced mosaic width height offsets).length = width * height * 3 := by
  simp only [demosaiced, List.length_flatMap, length_narrowed, List.map_const', List.sum_replicate,
    List.length_range, smul_eq_mul]
  ring

theorem pixelAt_demosaiced (hx : x < width) (hy : y < height) :
    pixelAt (demosaiced mosaic width height offsets) width x y =
      narrowed (colours (mosaicValue mosaic width) width height offsets x y) := by
  have hline := flatMap_piece
    (fun y _ => length_demosaicedLine mosaic width height offsets y) hy
  have hpixel := @flatMap_piece α (fun x =>
    narrowed (colours (mosaicValue mosaic width) width height offsets x y)) _ _
    (fun _ _ => length_narrowed _) _ hx
  have hend : x * 3 + 3 ≤ width * 3 := by omega
  rw [← hpixel, ← hline, List.drop_take, List.take_take, Nat.min_eq_left (by omega),
    List.drop_drop, pixelAt, demosaiced]
  congr 2
  ring

/-- A demosaiced image keeps each site's own sample in the site's channel, stays between
the mosaic's smallest and largest, and has one colour where the mosaic has. -/
structure Demosaics [LawfulSample α] (mosaic image : List α) (width height : Nat)
    (offsets : Nat × Nat) : Prop where
  length : image.length = width * height * 3
  site : ∀ x < width, ∀ y < height,
    (pixelAt image width x y)[siteChannel offsets x y]? = mosaic[y * width + x]?
  between : ∀ low high, (∀ sample ∈ mosaic, low ≤ Sample.widen sample ∧
    Sample.widen sample ≤ high) →
      ∀ sample ∈ image, low ≤ Sample.widen sample ∧ Sample.widen sample ≤ high
  uniform : ∀ r g b : α, (∀ x < width, ∀ y < height,
      mosaic[y * width + x]? = some (channelOf (r, g, b) (siteChannel offsets x y))) →
    ∀ x y, 0 < x → x + 1 < width → 0 < y → y + 1 < height → pixelAt image width x y = [r, g, b]

theorem mosaicValue_eq (hlength : mosaic.length = width * height) (hx : x < width)
    (hy : y < height) :
    ∃ sample ∈ mosaic, mosaic[y * width + x]? = some sample ∧
      mosaicValue mosaic width x y = Sample.widen sample := by
  have hinside : y * width + x < mosaic.length := by
    have : (y + 1) * width ≤ height * width := Nat.mul_le_mul_right _ hy
    rw [Nat.succ_mul, Nat.mul_comm height] at this
    omega
  refine ⟨mosaic[y * width + x], List.getElem_mem hinside, List.getElem?_eq_getElem hinside, ?_⟩
  rw [mosaicValue, valueAt, List.getElem?_eq_getElem hinside]
  rfl

theorem demosaics_demosaiced [LawfulSample α] (hlength : mosaic.length = width * height) :
    Demosaics mosaic (demosaiced mosaic width height offsets) width height offsets where
  length := length_demosaiced mosaic width height offsets
  site := by
    intro x hx y hy
    obtain ⟨sample, -, hsample, hvalue⟩ := mosaicValue_eq hlength hx hy
    have hchannel : siteChannel offsets x y < 3 := by
      unfold siteChannel
      omega
    rw [pixelAt_demosaiced offsets hx hy, narrowed_channel _ hchannel, colours_site, hvalue,
      LawfulSample.narrow_widen, hsample]
  between := by
    intro low high hbounds sample hmem
    simp only [demosaiced, List.mem_flatMap, List.mem_range] at hmem
    obtain ⟨y, hy, x, hx, hmem⟩ := hmem
    have hvalues : ∀ x < width, ∀ y < height, low ≤ mosaicValue mosaic width x y ∧
        mosaicValue mosaic width x y ≤ high ∧
        mosaicValue mosaic width x y ≤ LawfulSample.limit α := by
      intro x hx y hy
      obtain ⟨other, hother, -, hvalue⟩ := mosaicValue_eq hlength hx hy
      rw [hvalue]
      exact ⟨(hbounds other hother).1, (hbounds other hother).2, LawfulSample.widen_le other⟩
    have hcolour : ∀ channel, low ≤ Sample.widen (Sample.narrow (channelOf
        (colours (mosaicValue mosaic width) width height offsets x y) channel) : α) ∧
        Sample.widen (Sample.narrow (channelOf
          (colours (mosaicValue mosaic width) width height offsets x y) channel) : α) ≤ high := by
      intro channel
      have hmean := colours_bounds offsets hx hy
        (fun x hx y hy => ⟨(hvalues x hx y hy).1, (hvalues x hx y hy).2.1⟩) channel
      have hlimit := colours_bounds offsets hx hy
        (fun x hx y hy => ⟨Nat.zero_le _, (hvalues x hx y hy).2.2⟩) channel
      rw [LawfulSample.widen_narrow hlimit.2]
      exact hmean
    simp only [narrowed, List.mem_cons, List.not_mem_nil, or_false] at hmem
    rcases hmem with rfl | rfl | rfl
    · exact hcolour 0
    · exact hcolour 1
    · exact hcolour 2
  uniform := by
    intro r g b huniform x y hx hxw hy hyh
    have hvalues : ∀ x < width, ∀ y < height, mosaicValue mosaic width x y =
        channelOf (Sample.widen r, Sample.widen g, Sample.widen b) (siteChannel offsets x y) := by
      intro x hx y hy
      obtain ⟨sample, -, hsample, hvalue⟩ := mosaicValue_eq hlength hx hy
      rw [hvalue, Option.some.inj (hsample.symm.trans (huniform x hx y hy))]
      unfold channelOf
      split <;> rfl
    rw [pixelAt_demosaiced offsets (by omega) (by omega),
      colours_uniform offsets hvalues hx hxw hy hyh]
    simp only [narrowed, LawfulSample.narrow_widen]

end Mosaic

theorem demosaiced_toUInt16 (mosaic : List UInt8) (width height : Nat) (offsets : Nat × Nat)
    (hlength : mosaic.length = width * height) :
    (demosaiced mosaic width height offsets).map UInt8.toUInt16 =
      demosaiced (mosaic.map UInt8.toUInt16) width height offsets := by
  have hvalue : mosaicValue (mosaic.map UInt8.toUInt16) width = mosaicValue mosaic width := by
    funext x y
    rw [mosaicValue, mosaicValue, valueAt, valueAt, List.getElem?_map]
    cases mosaic[y * width + x]? with
    | none => rfl
    | some sample => exact UInt8.toNat_toUInt16 sample
  rw [demosaiced, demosaiced, hvalue, List.map_flatMap]
  refine List.flatMap_congr fun y hy => ?_
  rw [List.map_flatMap]
  refine List.flatMap_congr fun x hx => ?_
  have hlimit : ∀ channel, channelOf (colours (mosaicValue mosaic width) width height offsets x y)
      channel ≤ 255 := fun channel =>
    (colours_bounds offsets (List.mem_range.mp hx) (List.mem_range.mp hy) (fun x hx y hy => by
      obtain ⟨sample, -, -, hsample⟩ := mosaicValue_eq hlength hx hy
      rw [hsample]
      exact ⟨Nat.zero_le _, LawfulSample.widen_le sample⟩) channel).2
  have hnarrow : ∀ n ≤ 255, (UInt8.ofNat n).toUInt16 = UInt16.ofNat n := by
    intro n hn
    apply UInt16.toNat_inj.mp
    rw [UInt8.toNat_toUInt16, UInt8.toNat_ofNat', UInt16.toNat_ofNat']
    omega
  have hr := hnarrow _ (hlimit 0)
  have hg := hnarrow _ (hlimit 1)
  have hb := hnarrow _ (hlimit 2)
  simp only [narrowed, List.map_cons, List.map_nil]
  exact congrArg₂ List.cons hr (congrArg₂ List.cons hg (congrArg (List.cons · []) hb))

end VivaGenicam.Pixel
