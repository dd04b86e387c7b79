import VivaGenicam.Studio.ImageFiles

/-!
What the encoder writes holds the image it was given, so that every reader measures that
image.
-/

namespace VivaGenicam.Studio

open Library.Bytes Library.Checked Library.PaddedRows Pixel

theorem getElem?_laid {α : Type} {stride width y k : Nat} (fill : α) {rows : List (List α)}
    {row : List α} (hwidth : width ≤ stride) (hrows : ∀ row ∈ rows, row.length = width)
    (hrow : rows[y]? = some row) (hk : k < width) :
    (laid stride fill rows)[y * stride + k]? = row[k]? := by
  have hread := take_drop_laid fill [] hwidth hrows hrow
  rw [List.append_nil] at hread
  rw [← hread, List.getElem?_take_of_lt hk, List.getElem?_drop]

theorem getElem?_readRows {α : Type} {pixels row : List α} {width count y k : Nat}
    (hrow : (readRows pixels width width count)[y]? = some row) (hk : k < width) :
    row[k]? = pixels[y * width + k]? := by
  obtain ⟨hy, -⟩ := List.getElem?_eq_some_iff.mp hrow
  rw [length_readRows] at hy
  rw [readRows, List.getElem?_map, List.getElem?_range hy, Option.map_some,
    Option.some.injEq] at hrow
  rw [← hrow, List.getElem?_take_of_lt hk, List.getElem?_drop]

namespace BmpEncoder

theorem getElem?_swapped {pixels : List UInt8} {x c : Nat} (hinside : 3 * x + 2 < pixels.length)
    (hc : c < 3) : (swapped pixels)[3 * x + (2 - c)]? = pixels[3 * x + c]? := by
  induction pixels using swapped.induct generalizing x with
  | case1 first second third rest ih =>
    rw [swapped]
    cases x with
    | zero => interval_cases c <;> rfl
    | succ x =>
      rw [show 3 * (x + 1) + (2 - c) = 3 * x + (2 - c) + 3 by ring,
        show 3 * (x + 1) + c = 3 * x + c + 3 by ring]
      simp only [List.getElem?_cons_succ]
      apply ih
      simp only [List.length_cons] at hinside
      omega
  | case2 pixels hshort =>
    rcases pixels with _ | ⟨first, _ | ⟨second, _ | ⟨third, rest⟩⟩⟩
    · simp at hinside
    · simp at hinside
    · simp at hinside
    · exact absurd rfl (hshort first second third rest)

theorem getElem?_palette (value : UInt8) {c : Nat} (hc : c < 3) :
    palette[value.toNat * 4 + c]? = some value := by
  have hentry : ((List.range 256).map fun value =>
      List.replicate 3 (UInt8.ofNat value))[value.toNat]? = some (List.replicate 3 value) := by
    rw [List.getElem?_map, List.getElem?_range value.toNat_lt, Option.map_some, UInt8.ofNat_toNat]
  rw [palette_eq, @getElem?_laid _ 4 3 _ _ _ _ _ (by norm_num) (by simp) hentry hc,
    List.getElem?_replicate, if_pos hc]

variable {width height : UInt32} {encoder : BmpEncoder} {pixels bmp : List UInt8}

theorem length_of_encodeGray8 (h : encoder.encodeGray8 pixels = .ok bmp) :
    pixels.length = encoder.width.toNat * encoder.height.toNat := by
  rw [encodeGray8, mul_eq (pixels_lt encoder.width encoder.height)] at h
  dsimp only at h
  split at h
  · cases h
  · rename_i hsame
    exact not_not.mp hsame

theorem length_of_encodeRgb24 (hfits : encoder.width.toNat * encoder.height.toNat * 3 < 2 ^ 64)
    (h : encoder.encodeRgb24 pixels = .ok bmp) :
    pixels.length = encoder.width.toNat * encoder.height.toNat * 3 := by
  rw [encodeRgb24, mul_eq (pixels_lt encoder.width encoder.height), Option.bind_some,
    mul_eq hfits] at h
  dsimp only at h
  split at h
  · cases h
  · rename_i hsame
    exact not_not.mp hsame

theorem holds_laid {offset imageSize colors channels : Nat} {colour : Bool}
    {front middle : List UInt8} {rows : List (List UInt8)}
    (hchannels : channels = if colour then 3 else 1)
    (hheaders : headers width height offset imageSize (if colour then 24 else 8) colors =
      some front)
    (hsize : pixels.length = width.toNat * height.toNat * (if colour then 3 else 1))
    (hwide : 0 < width.toNat) (htall : 0 < height.toNat ∧ height.toNat < 2 ^ 31)
    (hsmall : (width.toNat * channels + 3) / 4 * 4 < 2 ^ 31)
    (hoffset : offset = 54 + middle.length ∧ offset < 2 ^ 31)
    (hrows : ∀ row ∈ rows, row.length = width.toNat * channels)
    (hcount : rows.length = height.toNat)
    (hstored : ∀ x y c, x < width.toNat → y < height.toNat → c < channels →
      ∃ row value, rows[y]? = some row ∧
        row[x * channels + (channels - 1 - c)]? = some value ∧
        pixels[(y * width.toNat + x) * channels + c]? = some value)
    (hpalette : colour = false → 1078 ≤ offset ∧
      ∀ value : UInt8, ∀ c < 3, middle[value.toNat * 4 + c]? = some value) :
    HoldsImage (front ++ middle ++ laid ((width.toNat * channels + 3) / 4 * 4) 0 rows)
      (Image.ofBytes width.toNat height.toNat colour pixels hsize) offset
      ((width.toNat * channels + 3) / 4 * 4) := by
  obtain ⟨hfront, hfields⟩ := headers_fields hheaders htall
  set stride := (width.toNat * channels + 3) / 4 * 4 with hstride
  have hlaid := @length_laid _ stride (0 : UInt8) rows
    (fun row hmem => by rw [hrows row hmem]; omega)
  have hbefore : (front ++ middle).length = offset := by
    rw [List.length_append, hfront, hoffset.1]
  have h := hfields (middle ++ laid stride 0 rows)
  rw [← List.append_assoc] at h
  have hsame : (Image.ofBytes width.toNat height.toNat colour pixels hsize).channels = channels :=
    hchannels.symm
  constructor
  · exact h.signature
  · rw [h.dataOffset, Nat.mod_eq_of_lt (by norm_num; omega)]
  · exact h.header
  · exact h.columns
  · exact h.lines
  · rw [h.depth, Nat.mod_eq_of_lt (by split <;> norm_num)]
    rfl
  · exact h.plain
  · exact hwide
  · exact htall
  · rw [hsame]
    exact hstride
  · exact hsmall
  · omega
  · rw [List.length_append, hbefore, hlaid, hcount, Nat.mul_comm]
    rfl
  · intro x y c hx hy hc
    rw [hsame] at hc ⊢
    obtain ⟨row, value, hrow, hvalue, hpixel⟩ := hstored x y c hx hy hc
    refine ⟨value, ?_, Image.component_ofBytes _ (by rw [← hchannels]; exact hpixel)⟩
    have hinside : x * channels + (channels - 1 - c) < width.toNat * channels := by
      have hend : (x + 1) * channels ≤ width.toNat * channels := Nat.mul_le_mul_right _ hx
      rw [Nat.succ_mul] at hend
      omega
    have hlaidRow := getElem?_laid (0 : UInt8) (by omega : width.toNat * channels ≤ stride) hrows
      hrow hinside
    rw [List.getElem?_append_right (by rw [hbefore]; omega), hbefore, ← hvalue, ← hlaidRow]
    congr 1
    omega
  · refine fun hgrey => ⟨(hpalette hgrey).1, fun value c hc => ?_⟩
    have hentry := (hpalette hgrey).2 value c hc
    obtain ⟨hinside, -⟩ := List.getElem?_eq_some_iff.mp hentry
    rw [List.append_assoc, List.getElem?_append_right (by omega), hfront,
      List.getElem?_append_left (by omega), ← hentry]
    congr 1
    omega

theorem exists_readRows {stride count y k : Nat} (hsize : pixels.length = count * stride)
    (hy : y < count) (hk : k < stride) :
    ∃ row value, (readRows pixels stride stride count)[y]? = some row ∧ row[k]? = some value ∧
      pixels[y * stride + k]? = some value := by
  have hend : (y + 1) * stride ≤ count * stride := Nat.mul_le_mul_right _ hy
  rw [Nat.succ_mul] at hend
  have hrow : (readRows pixels stride stride count)[y]? = some _ :=
    List.getElem?_eq_getElem (by rw [length_readRows]; exact hy)
  have hvalue : pixels[y * stride + k]? = some _ := List.getElem?_eq_getElem (by omega)
  exact ⟨_, _, hrow, (getElem?_readRows hrow hk).trans hvalue, hvalue⟩

theorem new_holds (hnew : new width height = some encoder)
    (hfile : encoder.encodeGray8 pixels = .ok bmp) (hwide : 0 < width.toNat)
    (htall : 0 < height.toNat ∧ height.toNat < 2 ^ 31)
    (hsmall : (width.toNat + 3) / 4 * 4 < 2 ^ 31) :
    ∃ hsize, HoldsImage bmp (Image.ofBytes width.toNat height.toNat false pixels hsize) 1078
      ((width.toNat + 3) / 4 * 4) := by
  have harea : (width.toNat + 3) / 4 * 4 * height.toNat < 2 ^ 62 :=
    (Nat.mul_lt_mul'' hsmall htall.2).trans_eq (by norm_num)
  rw [new, mul_eq (by omega), Option.bind_eq_bind, Option.bind_some, mul_eq (by omega),
    Option.bind_eq_bind, Option.bind_some] at hnew
  obtain ⟨front, hheaders, hencoder⟩ := Option.bind_eq_some_iff.mp hnew
  cases hencoder
  have hpixels := length_of_encodeGray8 hfile
  simp only at hpixels
  rw [encodeGray8_eq rfl hpixels] at hfile
  cases hfile
  have hwhole : pixels.length = height.toNat * width.toNat := by rw [hpixels, Nat.mul_comm]
  have hholds := @holds_laid _ _ pixels _ _ _ 1 false _ palette
    (readRows pixels width.toNat width.toNat height.toNat) rfl hheaders (by simpa using hpixels)
    hwide htall (by simpa using hsmall) ⟨by rw [length_palette], by norm_num⟩
    (fun row hmem => by simpa using length_of_mem_readRows hmem le_rfl hwhole.ge)
    (by rw [length_readRows]) ?_ fun _ => ⟨le_rfl, fun value c hc => getElem?_palette value hc⟩
  · rw [Nat.mul_one] at hholds
    exact ⟨_, hholds⟩
  · intro x y c hx hy hc
    obtain rfl : c = 0 := by omega
    simp only [Nat.mul_one]
    exact exists_readRows hwhole hy hx

theorem newRgb24_holds (hnew : newRgb24 width height = some encoder)
    (hfile : encoder.encodeRgb24 pixels = .ok bmp) (hwide : 0 < width.toNat)
    (htall : 0 < height.toNat ∧ height.toNat < 2 ^ 31)
    (hsmall : (width.toNat * 3 + 3) / 4 * 4 < 2 ^ 31) :
    ∃ hsize, HoldsImage bmp (Image.ofBytes width.toNat height.toNat true pixels hsize) 54
      ((width.toNat * 3 + 3) / 4 * 4) := by
  have harea : (width.toNat * 3 + 3) / 4 * 4 * height.toNat < 2 ^ 62 :=
    (Nat.mul_lt_mul'' hsmall htall.2).trans_eq (by norm_num)
  have hrow : width.toNat * 3 * height.toNat ≤ (width.toNat * 3 + 3) / 4 * 4 * height.toNat :=
    Nat.mul_le_mul_right _ (by omega)
  rw [newRgb24, mul_eq (by omega), Option.bind_eq_bind, Option.bind_some] at hnew
  dsimp only at hnew
  rw [mul_eq (by omega), Option.bind_some] at hnew
  obtain ⟨front, hheaders, hencoder⟩ := Option.bind_eq_some_iff.mp hnew
  cases hencoder
  have hpixels := length_of_encodeRgb24 (by simp only; rw [Nat.mul_right_comm]; omega) hfile
  simp only at hpixels
  rw [encodeRgb24_eq hwide rfl rfl (by simp only; omega) hpixels] at hfile
  cases hfile
  have hwhole : pixels.length = height.toNat * (width.toNat * 3) := by
    rw [hpixels]
    ring
  have hlength : ∀ row ∈ readRows pixels (width.toNat * 3) (width.toNat * 3) height.toNat,
      row.length = width.toNat * 3 := fun row hmem => length_of_mem_readRows hmem le_rfl hwhole.ge
  have hholds := @holds_laid _ _ pixels _ _ _ 3 true _ []
    ((readRows pixels (width.toNat * 3) (width.toNat * 3) height.toNat).map swapped) rfl hheaders
    (by simpa using hpixels) hwide htall hsmall ⟨rfl, by norm_num⟩ ?_
    (by rw [List.length_map, length_readRows]) ?_ (fun hgrey => Bool.noConfusion hgrey)
  · rw [List.append_nil] at hholds
    exact ⟨_, hholds⟩
  · intro row hmem
    obtain ⟨line, hline, rfl⟩ := List.mem_map.mp hmem
    rw [length_swapped (by rw [hlength line hline]; exact Nat.dvd_mul_left 3 _), hlength line hline]
  · intro x y c hx hy hc
    obtain ⟨row, value, hfound, hvalue, hpixel⟩ :=
      @exists_readRows pixels (width.toNat * 3) _ y (3 * x + c) hwhole hy (by omega)
    have hinside := hlength row (List.mem_of_getElem? hfound)
    refine ⟨swapped row, value, by rw [List.getElem?_map, hfound, Option.map_some], ?_, ?_⟩
    · rw [Nat.mul_comm x, getElem?_swapped (by omega) hc, hvalue]
    · rw [← hpixel]
      congr 1
      ring

end BmpEncoder

end VivaGenicam.Studio
