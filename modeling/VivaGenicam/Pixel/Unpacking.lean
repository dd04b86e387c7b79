import VivaGenicam.Pixel.Packing

/-!
Unpacking whole images: packed as one run, or line by line with padding between the
lines; and when the two readings of the same bytes agree.
-/

namespace VivaGenicam.Pixel

open Library.Checked

theorem appendEach_append {α β : Type} (step : α → Except Stop (List β)) (left right : List α) :
    appendEach step (left ++ right) = (do
      let first ← appendEach step left
      let rest ← appendEach step right
      .ok (first ++ rest)) := by
  induction left with
  | nil =>
    simp only [List.nil_append, appendEach, ok_bind]
    cases appendEach step right with
    | ok out => rfl
    | error stop => rfl
  | cons head left ih =>
    rw [List.cons_append, appendEach, ih, appendEach]
    cases step head with
    | error stop => rfl
    | ok first =>
      cases appendEach step left with
      | error stop => rfl
      | ok others =>
        cases appendEach step right with
        | error stop => rfl
        | ok rest => simp only [ok_bind, List.append_assoc]

theorem appendEach_congr {α β : Type} {step other : α → Except Stop (List β)} {items : List α}
    (h : ∀ item ∈ items, step item = other item) :
    appendEach step items = appendEach other items := by
  induction items with
  | nil => rfl
  | cons item rest ih =>
    rw [appendEach, appendEach, h item (List.mem_cons_self ..),
      ih fun later hmem => h later (List.mem_cons_of_mem _ hmem)]

theorem appendEach_lines {width : Nat} {samples : List UInt16} {step : Nat → Except Stop (List UInt16)}
    (height : Nat)
    (h : ∀ y < height, step y = .ok ((samples.drop (y * width)).take width)) :
    appendEach step (List.range height) = .ok (samples.take (height * width)) := by
  induction height with
  | zero => simp [appendEach]
  | succ height ih =>
    rw [List.range_succ, appendEach_append, ih fun y hy => h y (by omega), ok_bind, appendEach,
      h height (by omega), appendEach, ok_bind, ok_bind, ok_bind, List.append_nil, Nat.succ_mul,
      List.take_add]

section Readings

variable {format : PixelFormat} {l : Layout} {single : Single} {width height : UInt32}

theorem Layout.single_sizes (hsingle : l.single = some single) :
    l.group = single.group ∧ (∀ pixels, l.completed pixels = single.completed pixels) ∧
      (∀ pixels, l.runBytes pixels = single.runBytes pixels) ∧
      ∀ pixels, l.streamBits pixels =
        if single.packing = .lsb then pixels * single.bits else 0 := by
  obtain ⟨bits, packing⟩ := single
  cases l with
  | mono other =>
    cases hsingle
    exact ⟨rfl, fun _ => rfl, fun _ => rfl, fun _ => by cases packing <;> rfl⟩
  | bayer other offsets =>
    cases hsingle
    exact ⟨rfl, fun _ => rfl, fun _ => rfl, fun _ => by cases packing <;> rfl⟩
  | rgb order => cases hsingle
  | yuv order => cases hsingle

theorem unpackU16_eq (hl : layout format = some l) (hsingle : l.single = some single)
    (rowStride : Option Nat) (src : List UInt8) :
    unpackU16 format width height rowStride src = (do
      let rows ← rows format width height rowStride src
      unpackRows single rows) := by
  unfold unpackU16
  rw [hl]
  cases l with
  | mono other => cases hsingle; rfl
  | bayer other offsets => cases hsingle; rfl
  | rgb order => cases hsingle
  | yuv order => cases hsingle

theorem unpackU16_run (hl : layout format = some l) (hsingle : l.single = some single)
    {src : List UInt8} (hsmall : src.length < 2 ^ 63)
    (hfits : ¬ TooLarge l width height none)
    (henough : single.runBytes (width.toNat * height.toNat) ≤ src.length) :
    unpackU16 format width height none src =
      unpackAppend single (width.toNat * height.toNat)
        (src.take (single.completed (width.toNat * height.toNat))) := by
  obtain ⟨-, hcompleted, hrun, -⟩ := Layout.single_sizes hsingle
  have hend : imageEnd l width height none ≤ src.length := by
    change l.runBytes _ ≤ _
    rw [hrun]
    exact henough
  have hnot : ¬ StrideShort l width none := by simp [StrideShort]
  have hsound := @rowsOf_sound _ _ width height _ hl _ hsmall hnot hend
  have hrow := (hsound.row (show 0 < 1 from Nat.one_pos)).1
  rw [unpackU16_eq hl hsingle, (rows_verdict hl width height none src).ok hnot hfits hend, ok_bind,
    unpackRows, hsound.total_eq, ok_bind]
  change appendEach _ [0] = _
  have hline : (rowsOf l width height none src).line 0 =
      src.take (single.completed (width.toNat * height.toNat)) := by
    rw [Rows.line, Nat.zero_mul, List.drop_zero, ← hcompleted]
    exact List.take_length
  rw [appendEach, hrow, ok_bind, hline, appendEach]
  change (do
    let first ← unpackAppend single (width.toNat * height.toNat)
      (src.take (single.completed (width.toNat * height.toNat)))
    let others ← Except.ok []
    Except.ok (first ++ others)) = _
  cases unpackAppend single (width.toNat * height.toNat)
      (src.take (single.completed (width.toNat * height.toNat))) with
  | ok out => simp only [ok_bind, List.append_nil]
  | error stop => rfl

theorem unpackU16_lines (hl : layout format = some l) (hsingle : l.single = some single)
    {stride : Nat} {src : List UInt8} (hsmall : src.length < 2 ^ 63)
    (hstride : single.completed width.toNat ≤ stride)
    (henough : imageEnd l width height (some stride) ≤ src.length) :
    unpackU16 format width height (some stride) src =
      appendEach (fun y => unpackAppend single width.toNat
        ((src.drop (y * stride)).take (single.completed width.toNat)))
        (List.range height.toNat) := by
  obtain ⟨-, hcompleted, -, -⟩ := Layout.single_sizes hsingle
  have hnot : ¬ StrideShort l width (some stride) := by
    rintro ⟨other, heq, hlt⟩
    cases heq
    rw [hcompleted] at hlt
    omega
  have hfits : ¬ TooLarge l width height (some stride) := by
    change ¬2 ^ 64 ≤ imageEnd l width height (some stride)
    omega
  have hsound := @rowsOf_sound _ _ width height _ hl _ hsmall hnot henough
  rw [unpackU16_eq hl hsingle, (rows_verdict hl width height _ src).ok hnot hfits henough, ok_bind,
    unpackRows, hsound.total_eq, ok_bind]
  refine appendEach_congr fun y hmem => ?_
  rw [(hsound.row (List.mem_range.mp hmem)).1, ok_bind, ← hcompleted]
  rfl

/-- The bit count of an lsb stream fits a machine word. -/
def Single.Streams (single : Single) (pixels : Nat) : Prop :=
  single.packing = .lsb → pixels * single.bits < 2 ^ 64

theorem streams_iff (hsingle : l.single = some single) (pixels : Nat) :
    single.Streams pixels ↔ ¬2 ^ 64 ≤ l.streamBits pixels := by
  rw [(Layout.single_sizes hsingle).2.2.2, Single.Streams]
  split
  · exact ⟨fun h => Nat.not_le.mpr (h ‹_›), fun h _ => Nat.not_le.mp h⟩
  · exact ⟨fun _ => by norm_num, fun _ h => absurd h ‹_›⟩

theorem completed_lt (hvalid : single.Valid) {pixels : Nat}
    (h : single.runBytes pixels < 2 ^ 63) : single.completed pixels < 2 ^ 64 := by
  unfold Single.runBytes at h
  unfold Single.completed Single.group
  cases hpacking : single.packing with
  | unpacked =>
    simp only [hpacking] at h ⊢
    split
    · simp only [if_pos ‹_›] at h
      dsimp only
      omega
    · simp only [if_neg ‹_›] at h
      dsimp only
      omega
  | lsb =>
    simp only [hpacking] at h ⊢
    rcases hvalid.packed (by simp [hpacking]) with hbits | hbits
    · simp only [hbits, if_true] at h ⊢
      omega
    · simp only [hbits, Nat.reduceEqDiff, if_false] at h ⊢
      omega
  | gige =>
    simp only [hpacking, gigeBytes] at h ⊢
    omega

/-- What is packed as one run, its last group completed or not, is unpacked unless its
bits are too many to count. -/
theorem unpackU16_pack (hl : layout format = some l) (hsingle : l.single = some single)
    {samples : List UInt16} (hlength : samples.length = width.toNat * height.toNat)
    (hfit : single.Fit samples) {count : Nat}
    (hcount : single.runBytes samples.length ≤ count ∧ count ≤ single.completed samples.length)
    (hsmall : count < 2 ^ 63) :
    (single.Streams samples.length →
      unpackU16 format width height none ((single.pack samples).take count) = .ok samples) ∧
    (¬single.Streams samples.length →
      unpackU16 format width height none ((single.pack samples).take count) =
        .error (.error (.tooLarge width height))) := by
  obtain ⟨-, hvalidOf, -⟩ := Layout.single_spec hsingle
  have hvalid := hvalidOf (layout_spec hl).2
  have hpack : ((single.pack samples).take count).length = count := by
    rw [List.length_take, Single.length_pack]
    omega
  constructor
  · intro hstreams
    have hfits : ¬TooLarge l width height none := by
      rintro (hlarge | hlarge)
      · rw [(Layout.single_sizes hsingle).2.1, ← hlength] at hlarge
        have := completed_lt hvalid (show single.runBytes samples.length < 2 ^ 63 by omega)
        omega
      · rw [← hlength] at hlarge
        exact (streams_iff hsingle _).mp hstreams hlarge
    rw [unpackU16_run hl hsingle (by omega) hfits (by rw [← hlength]; omega), ← hlength,
      List.take_of_length_le (by omega)]
    obtain ⟨out, -, hout, hpacked⟩ := @unpackAppend_spec _ hvalid samples.length
      ((single.pack samples).take count) (single.pack samples) (by omega)
      (by rw [Single.length_pack]; omega)
      (by rw [List.take_take, Nat.min_eq_left hcount.1])
    rw [unpackAppend_pack hvalid hfit] at hpacked
    cases hpacked
    exact hout
  · intro hstreams
    have hlarge : TooLarge l width height none := by
      rw [streams_iff hsingle, not_not, hlength] at hstreams
      exact .inr hstreams
    rw [unpackU16_eq hl hsingle,
      (rows_verdict hl width height none _).large (by simp [StrideShort]) hlarge, error_bind]

/-- An image of lines packed by themselves, each `stride` bytes after the one before,
whatever the bytes between them. -/
def Single.Strided (single : Single) (width height stride : Nat) (samples : List UInt16)
    (src : List UInt8) : Prop :=
  ∀ y < height, y * stride + single.completed width ≤ src.length ∧
    (src.drop (y * stride)).take (single.completed width) =
      single.pack ((samples.drop (y * width)).take width)

theorem unpackU16_strided (hl : layout format = some l) (hsingle : l.single = some single)
    {samples : List UInt16} (hlength : samples.length = width.toNat * height.toNat)
    (hfit : single.Fit samples) {stride : Nat} {src : List UInt8} (hsmall : src.length < 2 ^ 63)
    (hstride : single.completed width.toNat ≤ stride)
    (h : single.Strided width.toNat height.toNat stride samples src) :
    unpackU16 format width height (some stride) src = .ok samples := by
  obtain ⟨-, hvalidOf, -⟩ := Layout.single_spec hsingle
  have henough : imageEnd l width height (some stride) ≤ src.length := by
    change (if height.toNat = 0 then 0
      else stride * (height.toNat - 1) + l.completed width.toNat) ≤ _
    rw [(Layout.single_sizes hsingle).2.1]
    split
    · exact Nat.zero_le _
    · rw [Nat.mul_comm]
      exact (h (height.toNat - 1) (by omega)).1
  rw [unpackU16_lines hl hsingle hsmall hstride henough,
    @appendEach_lines width.toNat samples _ height.toNat, Nat.mul_comm,
    ← hlength, List.take_length]
  intro y hy
  have hinside : y * width.toNat + width.toNat ≤ samples.length := by
    rw [hlength, ← Nat.succ_mul, Nat.mul_comm]
    exact Nat.mul_le_mul_left _ hy
  have hline : ((samples.drop (y * width.toNat)).take width.toNat).length = width.toNat := by
    rw [List.length_take, List.length_drop]
    omega
  have hone := @unpackAppend_pack _ (hvalidOf (layout_spec hl).2)
    ((samples.drop (y * width.toNat)).take width.toNat) fun sample hmem =>
      hfit sample (List.mem_of_mem_drop (List.mem_of_mem_take hmem))
  rw [hline] at hone
  rw [(h y hy).2, hone]

theorem completed_mul {width : Nat} (hwhole : single.group.1 ∣ width) (lines : Nat) :
    single.completed (lines * width) = lines * single.completed width := by
  obtain ⟨hgroup, -⟩ := single.group_pos
  obtain ⟨groups, rfl⟩ := hwhole
  have hdiv : ∀ count, (single.group.1 * count + single.group.1 - 1) / single.group.1 = count := by
    intro count
    rw [show single.group.1 * count + single.group.1 - 1 =
      single.group.1 - 1 + single.group.1 * count by omega, Nat.add_mul_div_left _ _ hgroup,
      Nat.div_eq_of_lt (by omega), Nat.zero_add]
  rw [Single.completed, Single.completed, hdiv,
    show lines * (single.group.1 * groups) = single.group.1 * (lines * groups) by ring, hdiv]
  ring

theorem runBytes_whole (hvalid : single.Valid) {pixels : Nat} (hwhole : single.group.1 ∣ pixels) :
    single.runBytes pixels = single.completed pixels := by
  have hbits := hvalid.packed
  cases hpacking : single.packing with
  | unpacked => exact (Single.runBytes_le hvalid pixels).2 hpacking
  | lsb =>
    simp only [Single.group, hpacking] at hwhole
    simp only [Single.runBytes, Single.completed, Single.group, hpacking]
    rcases hbits (by simp [hpacking]) with hbits | hbits
    · simp only [hbits, if_true] at hwhole ⊢
      omega
    · simp only [hbits, Nat.reduceEqDiff, if_false] at hwhole ⊢
      omega
  | gige =>
    simp only [Single.group, hpacking] at hwhole
    simp only [Single.runBytes, Single.completed, Single.group, hpacking, gigeBytes]
    omega

theorem appendEach_wholeLines (hvalid : single.Valid) {width line : Nat} {src : List UInt8}
    (hwhole : single.group.1 ∣ width) (hline : single.completed width = line) (height : Nat)
    (henough : height * line ≤ src.length) :
    appendEach (fun y => unpackAppend single width ((src.drop (y * line)).take line))
        (List.range height) =
      unpackAppend single (height * width) (src.take (height * line)) := by
  have hcompleted : ∀ lines, single.completed (lines * width) = lines * line := by
    intro lines
    rw [completed_mul hwhole, hline]
  induction height with
  | zero =>
    rw [List.range_zero, Nat.zero_mul, Nat.zero_mul, List.take_zero]
    have hnone : single.pack [] = [] := by
      apply List.eq_nil_of_length_eq_zero
      rw [Single.length_pack, List.length_nil]
      simpa using hcompleted 0
    have := @unpackAppend_pack _ hvalid [] (by simp [Single.Fit])
    rw [hnone] at this
    exact this.symm
  | succ height ih =>
    rw [Nat.succ_mul] at henough
    have hright : ((src.drop (height * line)).take line).length = line := by
      rw [List.length_take, List.length_drop]
      omega
    obtain ⟨first, rest, hfirst, hrest, hboth⟩ := @unpackAppend_append _ hvalid
      (height * width) width (src.take (height * line)) ((src.drop (height * line)).take line)
      (hwhole.mul_left height)
      (by rw [hcompleted, List.length_take]; omega)
      (by rw [hright, ← hline]; exact (Single.runBytes_le hvalid width).1)
    rw [List.range_succ, appendEach_append, ih (by omega), hfirst, ok_bind, appendEach, hrest,
      ok_bind, appendEach, ok_bind, ok_bind, List.append_nil, Nat.succ_mul, Nat.succ_mul,
      List.take_add, hboth]

theorem unpackU16_readings (hl : layout format = some l) (hsingle : l.single = some single)
    (hwhole : single.group.1 ∣ width.toNat)
    (hstreams : single.Streams (width.toNat * height.toNat)) {src : List UInt8}
    (hsmall : src.length < 2 ^ 63) :
    unpackU16 format width height none src =
      unpackU16 format width height (some (single.completed width.toNat)) src := by
  obtain ⟨-, hvalidOf, -⟩ := Layout.single_spec hsingle
  have hvalid := hvalidOf (layout_spec hl).2
  obtain ⟨-, hcompleted, hrun, -⟩ := Layout.single_sizes hsingle
  set line := single.completed width.toNat with hline
  have hpixels : single.completed (width.toNat * height.toNat) = height.toNat * line := by
    rw [Nat.mul_comm, completed_mul hwhole]
  have hbytes : single.runBytes (width.toNat * height.toNat) = height.toNat * line := by
    rw [runBytes_whole hvalid (hwhole.mul_right _), hpixels]
  have hendRun : imageEnd l width height none = height.toNat * line := (hrun _).trans hbytes
  have hendLines : imageEnd l width height (some line) = height.toNat * line := by
    unfold imageEnd
    dsimp only
    rw [hcompleted]
    split
    · rename_i hzero
      rw [hzero, Nat.zero_mul]
    · rw [Nat.mul_comm line, ← hline, ← Nat.succ_mul, Nat.succ_eq_add_one,
        Nat.sub_add_cancel (by omega)]
  have hlong : ¬StrideShort l width (some line) := by
    rintro ⟨other, heq, hlt⟩
    cases heq
    rw [hcompleted] at hlt
    exact lt_irrefl _ hlt
  have hnone : ¬StrideShort l width none := by simp [StrideShort]
  have hrunVerdict := rows_verdict hl width height none src
  have hlinesVerdict := rows_verdict hl width height (some line) src
  have hlargeRun : TooLarge l width height none ↔ 2 ^ 64 ≤ height.toNat * line := by
    unfold TooLarge
    dsimp only
    rw [hcompleted, hpixels]
    exact or_iff_left ((streams_iff hsingle _).mp hstreams)
  have hlargeLines : TooLarge l width height (some line) ↔ 2 ^ 64 ≤ height.toNat * line := by
    unfold TooLarge
    dsimp only
    rw [hendLines]
  rcases Nat.lt_or_ge (height.toNat * line) (2 ^ 64) with hfits | hlarge
  · have hfitsRun : ¬TooLarge l width height none := fun h => by have := hlargeRun.mp h; omega
    have hfitsLines : ¬TooLarge l width height (some line) := fun h => by
      have := hlargeLines.mp h
      omega
    rcases Nat.lt_or_ge src.length (height.toNat * line) with hshort | henough
    · rw [unpackU16_eq hl hsingle, unpackU16_eq hl hsingle,
        hrunVerdict.payload hnone hfitsRun (hendRun ▸ hshort),
        hlinesVerdict.payload hlong hfitsLines (hendLines ▸ hshort), hendRun, hendLines]
    · rw [unpackU16_run hl hsingle hsmall hfitsRun (hbytes ▸ henough), hpixels,
        unpackU16_lines hl hsingle hsmall le_rfl (hendLines ▸ henough),
        appendEach_wholeLines hvalid hwhole rfl height.toNat henough, Nat.mul_comm]
  · rw [unpackU16_eq hl hsingle, unpackU16_eq hl hsingle,
      hrunVerdict.large hnone (hlargeRun.mpr hlarge),
      hlinesVerdict.large hlong (hlargeLines.mpr hlarge)]

end Readings

/-- The format of one component a pixel, if it is one. -/
def PixelFormat.single (format : PixelFormat) : Option Single :=
  (layout format).bind Layout.single

/-- Samples come back from their packed bytes, in one run or line by line whatever the
padding; and lines that end on a packing group are read alike either way. Only an lsb
stream whose bits a machine word cannot count is refused. -/
theorem unpacking_undoes_packing {format : PixelFormat} {single : Single}
    (h : format.single = some single) (width height : UInt32) :
    (∀ samples : List UInt16, samples.length = width.toNat * height.toNat → single.Fit samples →
      (∀ count, (count = single.completed samples.length ∨ count = single.runBytes samples.length) →
        count < 2 ^ 63 →
        (single.Streams samples.length →
          unpackU16 format width height none ((single.pack samples).take count) = .ok samples) ∧
        (¬single.Streams samples.length →
          unpackU16 format width height none ((single.pack samples).take count) =
            .error (.error (.tooLarge width height)))) ∧
      ∀ line, format.lineBytes width = some line → ∀ stride, line ≤ stride → ∀ src : List UInt8,
        src.length < 2 ^ 63 → single.Strided width.toNat height.toNat stride samples src →
        unpackU16 format width height (some stride) src = .ok samples) ∧
    ∀ groupPixels groupBytes, format.group = some (groupPixels, groupBytes) →
      groupPixels ∣ width.toNat → single.Streams (width.toNat * height.toNat) →
      ∀ line, format.lineBytes width = some line → ∀ src : List UInt8, src.length < 2 ^ 63 →
        unpackU16 format width height none src = unpackU16 format width height (some line) src := by
  obtain ⟨l, hl, hsingle⟩ := Option.bind_eq_some_iff.mp h
  obtain ⟨hgroup, hcompleted, -, -⟩ := Layout.single_sizes hsingle
  have hvalid := (Layout.single_spec hsingle).2.1 (layout_spec hl).2
  have hline : format.lineBytes width = some (single.completed width.toNat) := by
    rw [lineBytes_eq hl, hcompleted]
  refine ⟨fun samples hlength hfit => ⟨fun count hcount hsmall => ?_, ?_⟩, ?_⟩
  · have hle := (Single.runBytes_le hvalid samples.length).1
    refine unpackU16_pack hl hsingle hlength hfit ?_ hsmall
    rcases hcount with rfl | rfl
    · exact ⟨hle, le_rfl⟩
    · exact ⟨le_rfl, hle⟩
  · intro line hsome stride hstride src hsmall hstrided
    cases hline.symm.trans hsome
    exact unpackU16_strided hl hsingle hlength hfit hsmall hstride hstrided
  · intro groupPixels groupBytes hsomeGroup hwhole hstreams line hsome src hsmall
    cases hline.symm.trans hsome
    have hpixels : groupPixels = single.group.1 := by
      rw [(layout_spec hl).1, hgroup] at hsomeGroup
      exact (congrArg Prod.fst (Option.some.inj hsomeGroup)).symm
    exact unpackU16_readings hl hsingle (hpixels ▸ hwhole) hstreams hsmall

/-- One line of three 10-bit samples, as one run that ends at the last pixel's byte. -/
theorem unpacking_undoes_packing_mono10p :
    unpackU16 .mono10p 3 1 none (((⟨10, .lsb⟩ : Single).pack [1023, 0, 5]).take 4) =
      .ok [1023, 0, 5] := by
  refine (((@unpacking_undoes_packing .mono10p ⟨10, .lsb⟩ rfl 3 1).1
    [1023, 0, 5] rfl ?_).1 4 (.inr rfl) (by decide)).1 ?_
  · intro sample hmem
    simp only [List.mem_cons, List.not_mem_nil, or_false] at hmem
    rcases hmem with rfl | rfl | rfl <;> decide
  · exact fun _ => by decide

/-- At 2^62 pixels of 10 bits the run counts its bits and is too large, and the lines
are only too short. -/
theorem readings_part_where_bits_overflow :
    ¬∀ (format : PixelFormat) (single : Single) (width height : UInt32) (groupPixels groupBytes : Nat),
      format.single = some single → format.group = some (groupPixels, groupBytes) →
      groupPixels ∣ width.toNat → ∀ line, format.lineBytes width = some line → ∀ src,
        unpackU16 format width height none src = unpackU16 format width height (some line) src := by
  intro h
  have hsame := h .mono10p ⟨10, .lsb⟩ (2 ^ 31) (2 ^ 31) 4 5 rfl rfl (by decide) (2 ^ 29 * 5) rfl []
  have hrun : unpackU16 .mono10p (2 ^ 31) (2 ^ 31) none [] =
      .error (.error (.tooLarge (2 ^ 31) (2 ^ 31))) := rfl
  have hlines : unpackU16 .mono10p (2 ^ 31) (2 ^ 31) (some (2 ^ 29 * 5)) [] =
      .error (.error (.shortPayload .mono10p (2 ^ 60 * 5) 0)) := rfl
  rw [hrun, hlines] at hsame
  cases hsame

end VivaGenicam.Pixel
