import Mathlib.Data.List.TakeWhile
import VivaGenicam.Genapi.Configuration

/-!
Which configurations a file gives back: the lines a configuration is written
as, what each line is read as, and when the two agree.
-/

namespace VivaGenicam.Genapi

open GenapiXml Library.Lines Library.FoldM

/-- The text neither begins nor ends with white space. -/
def Tight (text : Text) : Prop :=
  (∀ c ∈ text.head?, isWhitespace c = false) ∧ ∀ c ∈ text.getLast?, isWhitespace c = false

variable {text : Text}

theorem dropWhile_space {space : Text} (hspace : ∀ c ∈ space, isWhitespace c = true)
    (htext : ∀ c ∈ text.head?, isWhitespace c = false) :
    (space ++ text).dropWhile isWhitespace = text := by
  rw [List.dropWhile_append_of_pos hspace]
  cases text with
  | nil => rfl
  | cons c rest =>
    have hc := htext c rfl
    simp [hc]

theorem trim_around {before text after : Text} (hbefore : ∀ c ∈ before, isWhitespace c = true)
    (hafter : ∀ c ∈ after, isWhitespace c = true) (htight : Tight text) :
    trim (before ++ text ++ after) = text := by
  obtain ⟨hhead, hlast⟩ := htight
  rw [trim]
  have hreverse : ∀ c ∈ after.reverse, isWhitespace c = true := fun c hc =>
    hafter c (List.mem_reverse.mp hc)
  have hheadReverse : ∀ c ∈ text.reverse.head?, isWhitespace c = false := by
    rw [List.head?_reverse]
    exact hlast
  cases text with
  | nil =>
    have hall : ∀ c ∈ before ++ [] ++ after, isWhitespace c = true := by
      intro c hc
      rw [List.append_nil, List.mem_append] at hc
      exact hc.elim (hbefore c) (hafter c)
    rw [List.dropWhile_eq_nil_iff.mpr hall]
    rfl
  | cons c rest =>
    have hheadBoth : ∀ d ∈ (c :: rest ++ after).head?, isWhitespace d = false := hhead
    rw [List.append_assoc, dropWhile_space hbefore hheadBoth, List.reverse_append,
      dropWhile_space hreverse hheadReverse, List.reverse_reverse]

theorem exists_trim (text : Text) : ∃ before after,
    (∀ c ∈ before, isWhitespace c = true) ∧ (∀ c ∈ after, isWhitespace c = true) ∧
      text = before ++ trim text ++ after ∧ Tight (trim text) := by
  have hleft := (List.takeWhile_append_dropWhile (p := isWhitespace) (l := text)).symm
  generalize hinner : text.dropWhile isWhitespace = inner at hleft
  have hright := (List.takeWhile_append_dropWhile (p := isWhitespace) (l := inner.reverse)).symm
  generalize hcore : inner.reverse.dropWhile isWhitespace = core at hright
  have htrim : trim text = core.reverse := by rw [trim, hinner, hcore]
  have hsplit : inner = core.reverse ++ (inner.reverse.takeWhile isWhitespace).reverse := by
    rw [← List.reverse_append, ← hright, List.reverse_reverse]
  refine ⟨text.takeWhile isWhitespace, (inner.reverse.takeWhile isWhitespace).reverse, ?_, ?_, ?_,
    ?_, ?_⟩
  · exact fun c hc => List.mem_takeWhile_imp hc
  · exact fun c hc => List.mem_takeWhile_imp (List.mem_reverse.mp hc)
  · rw [htrim, List.append_assoc, ← hsplit]
    exact hleft
  · intro c hc
    rw [htrim] at hc
    have hne : text.dropWhile isWhitespace ≠ [] := by
      rintro hnil
      rw [hinner] at hnil
      rw [hnil] at hsplit
      obtain ⟨hnone, -⟩ := List.append_eq_nil_iff.mp hsplit.symm
      rw [hnone] at hc
      cases hc
    have hhead : (text.dropWhile isWhitespace).head? = some c := by
      rw [hinner, hsplit, List.head?_append, hc]
      rfl
    have hnot := List.head_dropWhile_not isWhitespace hne
    rw [List.head?_eq_some_head hne] at hhead
    rw [← Option.some.inj hhead]
    exact hnot
  · intro c hc
    rw [htrim, List.getLast?_reverse] at hc
    have hne : inner.reverse.dropWhile isWhitespace ≠ [] := by
      rw [hcore]
      rintro rfl
      cases hc
    have hnot := List.head_dropWhile_not isWhitespace hne
    rw [← hcore, List.head?_eq_some_head hne] at hc
    rw [← Option.some.inj hc]
    exact hnot

theorem trim_tight (h : Tight text) : trim text = text := by
  have haround := @trim_around [] text [] (by simp) (by simp) h
  simpa using haround

theorem trim_trim (text : Text) : trim (trim text) = trim text := by
  obtain ⟨-, -, -, -, -, htight⟩ := exists_trim text
  exact trim_tight htight

theorem trim_eq_nil_iff : trim text = [] ↔ ∀ c ∈ text, isWhitespace c = true := by
  constructor
  · intro hnil
    obtain ⟨before, after, hbefore, hafter, htext, -⟩ := exists_trim text
    rw [hnil, List.append_nil] at htext
    intro c hc
    rw [htext, List.mem_append] at hc
    exact hc.elim (hbefore c) (hafter c)
  · intro hall
    have haround := @trim_around text [] [] hall (by simp) ⟨by simp, by simp⟩
    simpa using haround

def NameChar (c : Char) : Prop :=
  c.isAlphanum = true ∨ c = '_' ∨ c = '-' ∨ c = '.'

instance (c : Char) : Decidable (NameChar c) :=
  inferInstanceAs (Decidable (_ ∨ _ ∨ _ ∨ _))

/-- The name of a feature, a selector or an entry; an integer selector's entry
is its value in decimal. -/
structure IsName (name : Text) : Prop where
  nonempty : name ≠ []
  chars : ∀ c ∈ name, NameChar c

variable {c : Char}

theorem NameChar.not_space (h : NameChar c) : isWhitespace c = false := by
  have hrange : (48 ≤ c.toNat ∧ c.toNat ≤ 57) ∨ (65 ≤ c.toNat ∧ c.toNat ≤ 90) ∨
      (97 ≤ c.toNat ∧ c.toNat ≤ 122) ∨ c.toNat = 95 ∨ c.toNat = 45 ∨ c.toNat = 46 := by
    rcases h with h | rfl | rfl | rfl
    · simp only [Char.isAlphanum, Bool.or_eq_true, isAlpha_iff, isDigit_iff] at h
      omega
    all_goals decide
  simp only [isWhitespace, decide_eq_false_iff_not]
  omega

variable {name : Text}

theorem IsName.of_all (hne : name ≠ [])
    (hchars : (name.all fun c => decide (NameChar c)) = true) : IsName name :=
  ⟨hne, by simpa [List.all_eq_true] using hchars⟩

theorem IsName.not_mem (h : IsName name) (hc : ¬NameChar c) : c ∉ name :=
  fun hmem => hc (h.chars c hmem)

theorem IsName.tight (h : IsName name) : Tight name :=
  ⟨fun c hc => (h.chars c (List.mem_of_head? hc)).not_space,
    fun c hc => (h.chars c (List.mem_of_getLast? hc)).not_space⟩

theorem IsName.trim_eq (h : IsName name) : trim name = name :=
  trim_tight h.tight

/-- The line is passed over: it is blank, or a comment not of the other format. -/
def Skipped (text : Text) : Prop :=
  trim text = [] ∨ ∃ comment, stripPrefix '#' text = some comment ∧
    ¬baggerMagic <:+: trim comment

/-- The value a line holds, if it is read as one. -/
def valueOf (text : Text) : Option SavedValue :=
  if trim text = [] then none
  else
    match stripPrefix '#' text with
    | some _ => none
    | none => (readValue text).toOption

def identityOf (text : Text) : Option (Text × Text) :=
  if trim text = [] then none
  else (stripPrefix '#' text).bind fun comment => assignment (trim comment)

def DocumentIdentity.note (identity : DocumentIdentity) (text : Text) : DocumentIdentity :=
  (identityOf text).elim identity fun given => identity.set given.1 given.2

theorem readLine_eq_ok {configuration result : Configuration} {text : Text} :
    readLine configuration text = .ok result ↔
      (Skipped text ∨ (valueOf text).isSome) ∧
        result = { configuration with
          identity := configuration.identity.note text
          values := configuration.values ++ (valueOf text).toList } := by
  simp only [readLine, Skipped, valueOf, DocumentIdentity.note, identityOf]
  by_cases hblank : trim text = []
  · simp only [hblank, if_true, Except.ok.injEq, true_or, true_and, Option.elim_none,
      Option.toList_none, List.append_nil]
    exact eq_comm
  · simp only [hblank, if_false, false_or]
    cases hstrip : stripPrefix '#' text with
    | some comment =>
      simp only [bind_eq_ok, Option.some.injEq, exists_eq_left', readComment, Option.bind_some]
      by_cases hbagger : baggerMagic <:+: trim comment
      · simp [hbagger]
      · cases hgiven : assignment (trim comment) with
        | none => simp [hbagger, pure, Except.pure, eq_comm]
        | some given => simp [hbagger, pure, Except.pure, eq_comm]
    | none =>
      simp only [bind_eq_ok, reduceCtorEq, false_and, exists_false, false_or, Option.bind_none,
        Option.elim_none]
      cases hvalue : readValue text with
      | error message => simp [Except.toOption]
      | ok value => simp [Except.toOption, pure, Except.pure, eq_comm]

variable {configuration : Configuration}

/-- A text is read if each of its lines is; the values are those of its lines,
and each comment that names a key of the identity sets it. -/
theorem readLines_eq_ok {index : Nat} {result : Configuration} {texts : List Text} :
    readLines index configuration texts = .ok result ↔
      (∀ text ∈ texts, Skipped text ∨ (valueOf text).isSome) ∧
        result = { configuration with
          identity := texts.foldl DocumentIdentity.note configuration.identity
          values := configuration.values ++ texts.filterMap valueOf } := by
  induction texts generalizing index configuration with
  | nil =>
    simp only [readLines, Except.ok.injEq, List.not_mem_nil, false_imp_iff, implies_true,
      true_and, List.foldl_nil, List.filterMap_nil, List.append_nil]
    exact eq_comm
  | cons text rest ih =>
    rw [readLines]
    cases hline : readLine configuration text with
    | error message =>
      have hnot : ¬(Skipped text ∨ (valueOf text).isSome) := by
        intro hread
        have hok := (@readLine_eq_ok configuration _ text).mpr ⟨hread, rfl⟩
        rw [hline] at hok
        cases hok
      simp only [reduceCtorEq, false_iff, not_and, List.forall_mem_cons]
      exact fun hall => absurd hall.1 hnot
    | ok next =>
      obtain ⟨hread, rfl⟩ := readLine_eq_ok.mp hline
      have hvalues : (text :: rest).filterMap valueOf =
          (valueOf text).toList ++ rest.filterMap valueOf := by
        rw [List.filterMap_cons]
        cases valueOf text <;> rfl
      simp only [ih, List.forall_mem_cons, hread, true_and, List.foldl_cons, hvalues,
        List.append_assoc]

def given (key : Text) (text : Text) : Option Text :=
  (identityOf text).bind fun assigned => if assigned.1 = key then some assigned.2 else none

variable (identity : DocumentIdentity)

theorem note_vendorName (text : Text) :
    (identity.note text).vendorName = (given keyVendor text).getD identity.vendorName := by
  simp only [DocumentIdentity.note, given]
  cases identityOf text with
  | none => rfl
  | some assigned =>
    simp only [Option.elim_some, Option.bind_some, DocumentIdentity.set]
    split
    · rfl
    · split
      · rfl
      · split <;> rfl

theorem note_modelName (text : Text) :
    (identity.note text).modelName = (given keyModel text).getD identity.modelName := by
  have hkeys : keyVendor ≠ keyModel := by decide
  simp only [DocumentIdentity.note, given]
  cases identityOf text with
  | none => rfl
  | some assigned =>
    simp only [Option.elim_some, Option.bind_some, DocumentIdentity.set]
    split
    · rename_i hvendor
      rw [hvendor, if_neg hkeys]
      rfl
    · split
      · rfl
      · split <;> rfl

theorem note_version (text : Text) :
    (identity.note text).version = (given keyVersion text).getD identity.version := by
  have hvendorKey : keyVendor ≠ keyVersion := by decide
  have hmodelKey : keyModel ≠ keyVersion := by decide
  simp only [DocumentIdentity.note, given]
  cases identityOf text with
  | none => rfl
  | some assigned =>
    simp only [Option.elim_some, Option.bind_some, DocumentIdentity.set]
    split
    · rename_i hvendor
      rw [hvendor, if_neg hvendorKey]
      rfl
    · split
      · rename_i hmodel
        rw [hmodel, if_neg hmodelKey]
        rfl
      · split <;> rfl

/-- A value as a save admits it: under names, not empty and without a line break. -/
structure SavedValue.Admitted (value : SavedValue) : Prop where
  feature : IsName value.feature
  selectors : ∀ pair ∈ value.selectors, IsName pair.1 ∧ IsName pair.2
  nonempty : value.value ≠ []
  lineFeed : '\n' ∉ value.value
  carriageReturn : '\r' ∉ value.value

theorem not_mem_selectorPair {pair : Text × Text} (h : IsName pair.1 ∧ IsName pair.2)
    (hname : ¬NameChar c) (hequals : c ≠ '=') : c ∉ selectorPair pair := by
  rw [selectorPair, List.mem_append, List.mem_cons, not_or, not_or]
  exact ⟨h.1.not_mem hname, hequals, h.2.not_mem hname⟩

theorem not_mem_intercalate {c : Char} {sep : Text} (hsep : c ∉ sep) {texts : List Text}
    (h : ∀ text ∈ texts, c ∉ text) : c ∉ sep.intercalate texts := by
  induction texts with
  | nil => simp
  | cons text rest ih =>
    cases rest with
    | nil => simpa using h text
    | cons next rest =>
      rw [List.intercalate_cons_cons, List.mem_append, List.mem_append, not_or, not_or]
      refine ⟨⟨h text List.mem_cons_self, hsep⟩, ih ?_⟩
      exact fun text' hmem => h text' (List.mem_cons_of_mem _ hmem)

variable {value : SavedValue}

theorem SavedValue.Admitted.not_mem_valueLine (h : value.Admitted)
    (hname : ¬NameChar c) (hvalue : c ∉ value.value)
    (hother : c ≠ '\t' ∧ c ≠ '=' ∧ c ≠ '\x7b' ∧ c ≠ '\x7d') : c ∉ valueLine value := by
  have hgroup : c ∉ selectorGroup value.selectors := by
    rw [selectorGroup]
    split
    · simp
    · have hinner : c ∉ ['\t'].intercalate (value.selectors.map selectorPair) := by
        apply not_mem_intercalate (by simpa using hother.1)
        intro text hmem
        obtain ⟨pair, hpair, rfl⟩ := List.mem_map.mp hmem
        exact not_mem_selectorPair (h.selectors pair hpair) hname hother.2.1
      simp only [List.cons_append, List.mem_cons, List.mem_append, List.not_mem_nil, or_false,
        not_or]
      exact ⟨hother.2.2.1, hinner, hother.2.2.2, hother.1⟩
  rw [valueLine, List.mem_append, List.mem_cons, List.mem_append, not_or, not_or, not_or]
  exact ⟨h.feature.not_mem hname, hother.1, hgroup, hvalue⟩

def commentLines (configuration : Configuration) : List Text :=
  (comments configuration).flatMap (recordLines '\n' '\r')

theorem lines_toText (h : ∀ value ∈ configuration.values, value.Admitted) :
    lines '\n' '\r' (toText configuration) =
      commentLines configuration ++ configuration.values.map valueLine := by
  have hvalues : (configuration.values.map valueLine).flatMap (recordLines '\n' '\r') =
      configuration.values.map valueLine := by
    rw [List.flatMap_map]
    generalize configuration.values = values at h
    induction values with
    | nil => rfl
    | cons value rest ih =>
      have hvalue := h value List.mem_cons_self
      rw [List.flatMap_cons, ih fun v hv => h v (List.mem_cons_of_mem _ hv),
        recordLines_of_not_mem
          (hvalue.not_mem_valueLine (by decide) hvalue.lineFeed (by decide))
          (hvalue.not_mem_valueLine (by decide) hvalue.carriageReturn (by decide))]
      rfl
  rw [toText, lines_records, List.flatMap_append, hvalues, commentLines]

theorem readPair_selectorPair {pair : Text × Text} (h : IsName pair.1 ∧ IsName pair.2) :
    readPair (selectorPair pair) = .ok pair := by
  rw [readPair, selectorPair, splitOnce_append (h.1.not_mem (by decide))]
  simp only [h.1.trim_eq, h.2.trim_eq]
  rw [if_pos ⟨h.1.nonempty, h.2.nonempty⟩]

theorem readPairs_selectorPairs {pairs : List (Text × Text)}
    (h : ∀ pair ∈ pairs, IsName pair.1 ∧ IsName pair.2) :
    (pairs.map selectorPair).mapM readPair = .ok pairs := by
  induction pairs with
  | nil => rfl
  | cons pair rest ih =>
    rw [List.map_cons, List.mapM_cons, readPair_selectorPair (h pair List.mem_cons_self),
      ih fun p hp => h p (List.mem_cons_of_mem _ hp)]
    rfl

variable {selectors : List (Text × Text)}

theorem readSelectors_group {value : Text} (h : ∀ pair ∈ selectors, IsName pair.1 ∧ IsName pair.2)
    (hplain : selectors = [] → value.head? ≠ some '\x7b') :
    readSelectors (selectorGroup selectors ++ value) = .ok (selectors, value) := by
  by_cases hnone : selectors = []
  · subst hnone
    have hstrip : stripPrefix '\x7b' value = none := by
      cases value with
      | nil => rfl
      | cons c rest =>
        have hc : c ≠ '\x7b' := fun heq => hplain rfl (heq ▸ rfl)
        rw [stripPrefix, if_neg hc]
    simp [readSelectors, selectorGroup, hstrip]
  · have hmem : ∀ c, ¬NameChar c → c ≠ '=' → ∀ text ∈ selectors.map selectorPair, c ∉ text := by
      intro c hname hequals text htext
      obtain ⟨pair, hpair, rfl⟩ := List.mem_map.mp htext
      exact not_mem_selectorPair (h pair hpair) hname hequals
    have hsplit : selectorGroup selectors ++ value =
        '\x7b' :: (['\t'].intercalate (selectors.map selectorPair) ++ '\x7d' :: '\t' :: value) := by
      simp [selectorGroup, hnone]
    have hclose := @not_mem_intercalate '\x7d' ['\t'] (by decide) _
      (hmem '\x7d' (by decide) (by decide))
    have hpairs := List.splitOn_intercalate '\t' (hmem '\t' (by decide) (by decide))
      (by simpa using hnone)
    rw [hsplit, readSelectors, stripPrefix, if_pos rfl]
    simp only [splitOnce_append hclose, stripPrefix, if_true, hpairs, readPairs_selectorPairs h]
    rfl

theorem mapM_ne_nil {α β ε : Type} {f : α → Except ε β} {as : List α} {bs : List β}
    (has : as ≠ []) (h : as.mapM f = .ok bs) : bs ≠ [] := by
  obtain ⟨a, rest, rfl⟩ := List.exists_cons_of_ne_nil has
  rw [List.mapM_cons] at h
  obtain ⟨b, -, h⟩ := bind_eq_ok.mp h
  obtain ⟨bs', -, h⟩ := bind_eq_ok.mp h
  cases h
  nofun

theorem readSelectors_brace {rest value : Text}
    (h : readSelectors ('\x7b' :: rest) = .ok (selectors, value)) : selectors ≠ [] := by
  rw [readSelectors, stripPrefix, if_pos rfl] at h
  simp only at h
  split at h
  · cases h
  · split at h
    · cases h
    · obtain ⟨pairs, hpairs, h⟩ := bind_eq_ok.mp h
      cases h
      exact mapM_ne_nil (List.splitOn_ne_nil _ _) hpairs

theorem SavedValue.Admitted.begins (h : value.Admitted) :
    trim (valueLine value) ≠ [] ∧ stripPrefix '#' (valueLine value) = none := by
  obtain ⟨c, rest, hname⟩ := List.exists_cons_of_ne_nil h.feature.nonempty
  have hc : NameChar c := h.feature.chars c (hname ▸ List.mem_cons_self)
  have hline : valueLine value =
      c :: (rest ++ '\t' :: (selectorGroup value.selectors ++ value.value)) := by
    rw [valueLine, hname, List.cons_append]
  rw [hline]
  constructor
  · rw [ne_eq, trim_eq_nil_iff]
    intro hall
    have hspace := hall c List.mem_cons_self
    rw [hc.not_space] at hspace
    cases hspace
  · have hhash : c ≠ '#' := by
      rintro rfl
      revert hc
      decide
    rw [stripPrefix, if_neg hhash]

theorem valueOf_valueLine (h : value.Admitted) :
    valueOf (valueLine value) = (readValue (valueLine value)).toOption := by
  rw [valueOf, if_neg h.begins.1, h.begins.2]

theorem readValue_valueLine (h : value.Admitted) :
    readValue (valueLine value) = (do
      let (selectors, text) ← readSelectors (selectorGroup value.selectors ++ value.value)
      if text = [] then throw "no value after the tab"
      pure ⟨value.feature, selectors, text⟩) := by
  rw [readValue, valueLine, splitOnce_append (h.feature.not_mem (by decide))]
  simp only [h.feature.trim_eq, h.feature.nonempty, if_false]

theorem valueOf_valueLine_iff (h : value.Admitted) :
    valueOf (valueLine value) = some value ↔
      (value.selectors = [] → value.value.head? ≠ some '\x7b') := by
  rw [valueOf_valueLine h, readValue_valueLine h]
  by_cases hplain : value.selectors = [] → value.value.head? ≠ some '\x7b'
  · apply iff_of_true _ hplain
    rw [readSelectors_group h.selectors hplain]
    simp [bind, Except.bind, h.nonempty, pure, Except.pure, Except.toOption]
  · apply iff_of_false _ hplain
    simp only [Classical.not_imp, not_not] at hplain
    obtain ⟨hnone, hhead⟩ := hplain
    intro hread
    obtain ⟨rest, hbrace⟩ := List.head?_eq_some_iff.mp hhead
    cases hselectors : readSelectors (selectorGroup value.selectors ++ value.value) with
    | error message =>
      rw [hselectors] at hread
      cases hread
    | ok parsed =>
      obtain ⟨selectors, text⟩ := parsed
      have hgroup : selectorGroup value.selectors ++ value.value = '\x7b' :: rest := by
        rw [hnone, hbrace]
        rfl
      have hsome := readSelectors_brace (hgroup ▸ hselectors)
      rw [hselectors] at hread
      simp only [bind, Except.bind] at hread
      split at hread
      · cases hread
      · have hsame := congrArg SavedValue.selectors (Option.some.inj hread)
        exact hsome (hsame.trans hnone)

/-- What the comments set a key of the identity to last; nothing if none does. -/
def lastGiven (key : Text) (texts : List Text) : Text :=
  (texts.filterMap (given key)).getLast?.getD []

/-- What a configuration's text has to be for a reader to find the
configuration in it: each line that the comments turn into is passed over, the
last one to name a key of the identity gives it, and no value without
selectors begins as a group of them. -/
structure ReadsBack (configuration : Configuration) : Prop where
  skipped : ∀ text ∈ commentLines configuration, Skipped text
  vendorName : lastGiven keyVendor (commentLines configuration) =
    trim configuration.identity.vendorName
  modelName : lastGiven keyModel (commentLines configuration) =
    trim configuration.identity.modelName
  version : lastGiven keyVersion (commentLines configuration) =
    trim configuration.identity.version
  plain : ∀ value ∈ configuration.values, value.selectors = [] → value.value.head? ≠ some '\x7b'

/-- The same identity, up to space around its texts. -/
def DocumentIdentity.Same (first second : DocumentIdentity) : Prop :=
  trim first.vendorName = trim second.vendorName ∧ trim first.modelName = trim second.modelName ∧
    trim first.version = trim second.version

theorem identityOf_valueLine (h : value.Admitted) :
    identityOf (valueLine value) = none := by
  rw [identityOf, if_neg h.begins.1, h.begins.2]
  rfl

theorem lastGiven_valueLines (key : Text) (texts : List Text) {values : List SavedValue}
    (h : ∀ value ∈ values, value.Admitted) :
    lastGiven key (texts ++ values.map valueLine) = lastGiven key texts := by
  have hnone : (values.map valueLine).filterMap (given key) = [] := by
    rw [List.filterMap_eq_nil_iff]
    intro text hmem
    obtain ⟨value, hvalue, rfl⟩ := List.mem_map.mp hmem
    rw [given, identityOf_valueLine (h value hvalue)]
    rfl
  rw [lastGiven, lastGiven, List.filterMap_append, hnone, List.append_nil]

theorem trim_lastGiven (key : Text) (texts : List Text) :
    trim (lastGiven key texts) = lastGiven key texts := by
  rw [lastGiven]
  cases hlast : (texts.filterMap (given key)).getLast? with
  | none => rfl
  | some value =>
    obtain ⟨text, -, hgiven⟩ := List.mem_filterMap.mp (List.mem_of_getLast? hlast)
    obtain ⟨assigned, hassigned, hkey⟩ := Option.bind_eq_some_iff.mp hgiven
    have htrimmed : trim assigned.2 = assigned.2 := by
      rw [identityOf] at hassigned
      split at hassigned
      · cases hassigned
      · obtain ⟨comment, -, hassigned⟩ := Option.bind_eq_some_iff.mp hassigned
        obtain ⟨parts, -, rfl⟩ := Option.map_eq_some_iff.mp hassigned
        exact trim_trim _
    split at hkey
    · cases hkey
      exact htrimmed
    · cases hkey

theorem filterMap_eq_self_iff {α : Type} {f : α → Option α} {as : List α}
    (h : ∀ a ∈ as, (f a).isSome) : as.filterMap f = as ↔ ∀ a ∈ as, f a = some a := by
  induction as with
  | nil => simp
  | cons a rest ih =>
    obtain ⟨b, hb⟩ := Option.isSome_iff_exists.mp (h a List.mem_cons_self)
    rw [List.filterMap_cons_some hb, List.cons.injEq,
      ih fun a' ha' => h a' (List.mem_cons_of_mem _ ha'), List.forall_mem_cons, hb,
      Option.some.injEq]

theorem length_filterMap_of_isSome {α β : Type} {f : α → Option β} {as : List α}
    (h : ∀ a ∈ as, (f a).isSome) : (as.filterMap f).length = as.length := by
  induction as with
  | nil => rfl
  | cons a rest ih =>
    obtain ⟨b, hb⟩ := Option.isSome_iff_exists.mp (h a List.mem_cons_self)
    rw [List.filterMap_cons_some hb, List.length_cons, List.length_cons,
      ih fun a' ha' => h a' (List.mem_cons_of_mem _ ha')]

theorem Skipped.valueOf (h : Skipped text) : valueOf text = none := by
  rw [Genapi.valueOf]
  rcases h with hblank | ⟨comment, hstrip, -⟩
  · rw [if_pos hblank]
  · rw [hstrip]
    split <;> rfl

theorem values_read_iff {texts : List Text} {values : List SavedValue}
    (h : ∀ value ∈ values, value.Admitted) :
    ((∀ text ∈ texts ++ values.map valueLine, Skipped text ∨ (valueOf text).isSome) ∧
      (texts ++ values.map valueLine).filterMap valueOf = values) ↔
    (∀ text ∈ texts, Skipped text) ∧
      ∀ value ∈ values, value.selectors = [] → value.value.head? ≠ some '\x7b' := by
  have hlines : (values.map valueLine).filterMap valueOf =
      values.filterMap fun value => valueOf (valueLine value) := List.filterMap_map
  rw [List.filterMap_append, hlines]
  constructor
  · rintro ⟨hread, hvalues⟩
    have hsome : ∀ value ∈ values, (valueOf (valueLine value)).isSome := by
      intro value hvalue
      have hmem := List.mem_append_right texts (List.mem_map_of_mem (f := valueLine) hvalue)
      refine (hread _ hmem).resolve_left ?_
      rintro (hblank | ⟨comment, hstrip, -⟩)
      · exact (h value hvalue).begins.1 hblank
      · rw [(h value hvalue).begins.2] at hstrip
        cases hstrip
    have hlength := congrArg List.length hvalues
    rw [List.length_append, length_filterMap_of_isSome hsome] at hlength
    have hnil : texts.filterMap valueOf = [] := List.eq_nil_of_length_eq_zero (by omega)
    rw [hnil, List.nil_append, filterMap_eq_self_iff hsome] at hvalues
    refine ⟨?_, fun value hvalue =>
      (valueOf_valueLine_iff (h value hvalue)).mp (hvalues value hvalue)⟩
    intro text htext
    refine (hread text (List.mem_append_left _ htext)).resolve_right ?_
    rw [List.filterMap_eq_nil_iff.mp hnil text htext]
    exact Bool.false_ne_true
  · rintro ⟨hskipped, hplain⟩
    have hself : ∀ value ∈ values, valueOf (valueLine value) = some value := fun value hvalue =>
      (valueOf_valueLine_iff (h value hvalue)).mpr (hplain value hvalue)
    have hsome : ∀ value ∈ values, (valueOf (valueLine value)).isSome := fun value hvalue => by
      rw [hself value hvalue]
      rfl
    have hnil : texts.filterMap valueOf = [] := by
      rw [List.filterMap_eq_nil_iff]
      exact fun text htext => (hskipped text htext).valueOf
    refine ⟨?_, ?_⟩
    · intro text hmem
      rcases List.mem_append.mp hmem with htext | hline
      · exact .inl (hskipped text htext)
      · obtain ⟨value, hvalue, rfl⟩ := List.mem_map.mp hline
        exact .inr (hsome value hvalue)
    · rw [hnil, List.nil_append, filterMap_eq_self_iff hsome]
      exact hself

/-- A saved configuration is found in its file exactly if no comment is broken
into a line that is read as something else, none takes the file for one of the
other format or renames the camera, and no value without selectors begins with
a brace. -/
theorem configuration_reads_back_iff {configuration : Configuration}
    (hsaved : ∀ value ∈ configuration.values, value.Admitted) :
    (∃ parsed, parse (toText configuration) = .ok parsed ∧
      parsed.values = configuration.values ∧ parsed.identity.Same configuration.identity) ↔
    ReadsBack configuration := by
  have hread := @values_read_iff (commentLines configuration) _ hsaved
  have hvendor := foldl_last DocumentIdentity.note DocumentIdentity.vendorName (given keyVendor)
    note_vendorName ⟨[], [], []⟩ (commentLines configuration ++ configuration.values.map valueLine)
  have hmodel := foldl_last DocumentIdentity.note DocumentIdentity.modelName (given keyModel)
    note_modelName ⟨[], [], []⟩ (commentLines configuration ++ configuration.values.map valueLine)
  have hversion := foldl_last DocumentIdentity.note DocumentIdentity.version (given keyVersion)
    note_version ⟨[], [], []⟩ (commentLines configuration ++ configuration.values.map valueLine)
  rw [← lastGiven, lastGiven_valueLines _ _ hsaved] at hvendor hmodel hversion
  rw [parse, lines_toText hsaved]
  simp only [readLines_eq_ok, Configuration.default, List.nil_append]
  constructor
  · rintro ⟨parsed, ⟨hall, rfl⟩, hvalues, hsame⟩
    simp only [DocumentIdentity.Same, hvendor, hmodel, hversion, trim_lastGiven] at hsame
    obtain ⟨hskipped, hplain⟩ := hread.mp ⟨hall, hvalues⟩
    exact ⟨hskipped, hsame.1, hsame.2.1, hsame.2.2, hplain⟩
  · rintro ⟨hskipped, hvendorName, hmodelName, hversionName, hplain⟩
    obtain ⟨hall, hvalues⟩ := hread.mpr ⟨hskipped, hplain⟩
    refine ⟨_, ⟨hall, rfl⟩, hvalues, ?_⟩
    simp only [DocumentIdentity.Same, hvendor, hmodel, hversion, trim_lastGiven]
    exact ⟨hvendorName, hmodelName, hversionName⟩

/-- A gain under its selector, as a save writes it. -/
theorem configuration_reads_back_iff_gain :
    (∃ parsed, parse (toText ⟨⟨lit "Acme", lit "Test-1", lit "2.0.3"⟩,
        [⟨lit "Gain", [(lit "GainSelector", lit "DigitalAll")], lit "9"⟩],
        [⟨lit "ExposureTime", [], lit "locked by ExposureAuto"⟩]⟩) = .ok parsed ∧
      parsed.values = [⟨lit "Gain", [(lit "GainSelector", lit "DigitalAll")], lit "9"⟩] ∧
      parsed.identity.Same ⟨lit "Acme", lit "Test-1", lit "2.0.3"⟩) ↔
    ReadsBack ⟨⟨lit "Acme", lit "Test-1", lit "2.0.3"⟩,
      [⟨lit "Gain", [(lit "GainSelector", lit "DigitalAll")], lit "9"⟩],
      [⟨lit "ExposureTime", [], lit "locked by ExposureAuto"⟩]⟩ :=
  @configuration_reads_back_iff ⟨⟨lit "Acme", lit "Test-1", lit "2.0.3"⟩,
      [⟨lit "Gain", [(lit "GainSelector", lit "DigitalAll")], lit "9"⟩],
      [⟨lit "ExposureTime", [], lit "locked by ExposureAuto"⟩]⟩ (by
    intro value hmem
    obtain rfl := List.mem_singleton.mp hmem
    refine ⟨.of_all (by decide) (by decide), ?_, by decide, by decide, by decide⟩
    intro pair hpair
    obtain rfl := List.mem_singleton.mp hpair
    exact ⟨.of_all (by decide) (by decide), .of_all (by decide) (by decide)⟩)

/-- A user's text that begins with a brace, and an error of two lines, make the
whole file unreadable. -/
theorem parse_refuses_saved :
    parse (toText ⟨⟨[], [], []⟩, [⟨lit "DeviceUserID", [], lit "\x7bleft"⟩], []⟩) =
      .error ⟨6, "a selector group without its closing brace"⟩ ∧
    parse (toText ⟨⟨[], [], []⟩, [⟨lit "Width", [], lit "640"⟩],
        [⟨lit "Gain", [], lit "read failed: timeout\nretried twice"⟩]⟩) =
      .error ⟨7, "expected a feature name, a tab and a value"⟩ := by
  decide +kernel

/-- A text that a comment holds whole. -/
structure PlainText (text : Text) : Prop where
  lineFeed : '\n' ∉ text
  carriageReturn : '\r' ∉ text
  notBagger : ¬baggerMagic <:+: text

theorem infix_of_infix_append {word before after : Text} (hc : c ∉ before)
    (h : c :: word <:+: before ++ after) : c :: word <:+: after := by
  induction before with
  | nil => exact h
  | cons d rest ih =>
    rcases List.infix_cons_iff.mp h with hprefix | hwithin
    · obtain ⟨tail, htail⟩ := hprefix
      obtain ⟨hhead, -⟩ := List.cons.inj htail
      exact absurd (hhead ▸ List.mem_cons_self) hc
    · exact ih (fun hmem => hc (List.mem_cons_of_mem _ hmem)) hwithin

theorem infix_trim (text : Text) : trim text <:+: text := by
  obtain ⟨before, after, -, -, htext, -⟩ := exists_trim text
  exact ⟨before, after, htext.symm⟩

theorem skipped_comment {before after : Text} (hbefore : '\x7b' ∉ before)
    (hafter : ¬baggerMagic <:+: after) : Skipped ('#' :: (before ++ after)) := by
  refine .inr ⟨before ++ after, by rw [stripPrefix, if_pos rfl], fun hwithin => hafter ?_⟩
  exact infix_of_infix_append hbefore (hwithin.trans (infix_trim _))

variable {key : Text}

theorem assignment_keyed {value : Text} (hkey : IsName key) :
    assignment (trim (' ' :: (key ++ lit " = " ++ value))) = some (key, trim value) := by
  obtain ⟨before, after, hbefore, hafter, hvalue, htight⟩ := exists_trim value
  have hlit : lit " = " = [' ', '=', ' '] := rfl
  have hequals : '=' ∉ key ++ [' '] := by
    rw [List.mem_append, not_or]
    exact ⟨hkey.not_mem (by decide), by decide⟩
  have hspace : ∀ c ∈ [' '], isWhitespace c = true := by simp [isWhitespace]
  have hname : trim (key ++ [' ']) = key := by
    have haround := @trim_around [] key [' '] (by simp) hspace hkey.tight
    simpa using haround
  obtain ⟨c, rest, hcons⟩ := List.exists_cons_of_ne_nil hkey.nonempty
  have hhead : isWhitespace c = false := hkey.tight.1 c (by rw [hcons]; rfl)
  by_cases hblank : trim value = []
  · have hall : ∀ d ∈ ' ' :: value, isWhitespace d = true := by
      intro d hd
      rcases List.mem_cons.mp hd with rfl | hd
      · exact hspace ' ' (by simp)
      · exact trim_eq_nil_iff.mp hblank d hd
    have htrim : trim (' ' :: (key ++ lit " = " ++ value)) = (key ++ [' ']) ++ '=' :: [] := by
      have haround := @trim_around [' '] ((key ++ [' ']) ++ '=' :: []) (' ' :: value) hspace hall
        ⟨by simpa [hcons] using hhead, by simp [isWhitespace]⟩
      rw [← haround, hlit]
      simp
    rw [htrim, assignment, splitOnce_append hequals, hblank]
    simp only [Option.map_some, hname]
    rfl
  · have hlast : ∀ d ∈ ((key ++ [' ']) ++ '=' :: (' ' :: before ++ trim value)).getLast?,
        isWhitespace d = false := by
      intro d hd
      apply htight.2 d
      obtain ⟨e, rest', hvalueCons⟩ := List.exists_cons_of_ne_nil hblank
      rw [hvalueCons] at hd ⊢
      simpa [List.getLast?_append, List.getLast?_cons] using hd
    have htrim : trim (' ' :: (key ++ lit " = " ++ value)) =
        (key ++ [' ']) ++ '=' :: (' ' :: before ++ trim value) := by
      have haround := trim_around hspace hafter
        (⟨by simpa [hcons] using hhead, hlast⟩ :
          Tight ((key ++ [' ']) ++ '=' :: (' ' :: before ++ trim value)))
      rw [← haround, hlit]
      conv_lhs => rw [hvalue]
      simp
    have hinner : trim (' ' :: before ++ trim value) = trim value := by
      have haround := @trim_around (' ' :: before) (trim value) [] (by
        intro d hd
        rcases List.mem_cons.mp hd with rfl | hd
        · exact hspace ' ' (by simp)
        · exact hbefore d hd) (by simp) htight
      simpa using haround
    rw [htrim, assignment, splitOnce_append hequals]
    simp only [Option.map_some, hname, hinner]

theorem identityOf_identityComment {value : Text} (hkey : IsName key) :
    identityOf (identityComment key value) = some (key, trim value) := by
  have hhash : lit "# " = ['#', ' '] := rfl
  have hcomment : identityComment key value = '#' :: ' ' :: (key ++ lit " = " ++ value) := by
    simp [identityComment, hhash]
  have hvisible : trim ('#' :: ' ' :: (key ++ lit " = " ++ value)) ≠ [] := by
    rw [ne_eq, trim_eq_nil_iff]
    intro hall
    have hhash := hall '#' List.mem_cons_self
    revert hhash
    decide
  rw [hcomment, identityOf, if_neg hvisible, stripPrefix, if_pos rfl, Option.bind_some]
  exact assignment_keyed hkey

theorem head?_trim (hc : isWhitespace c = false) (rest : Text) :
    (trim (c :: rest)).head? = some c := by
  obtain ⟨before, after, hbefore, hafter, htext, -⟩ := exists_trim (c :: rest)
  cases before with
  | cons d before =>
    have hspace := hbefore d List.mem_cons_self
    rw [← (List.cons.inj htext).1, hc] at hspace
    cases hspace
  | nil =>
    cases htrim : trim (c :: rest) with
    | nil =>
      rw [htrim, List.nil_append, List.nil_append] at htext
      have hspace := hafter c (htext ▸ List.mem_cons_self)
      rw [hc] at hspace
      cases hspace
    | cons d core =>
      rw [htrim] at htext
      exact congrArg some (List.cons.inj htext).1.symm

theorem given_omissionComment (omission : Omission) (hkey : key.head? ≠ some 'n') :
    given key (omissionComment omission) = none := by
  have hcomment : omissionComment omission = '#' :: ' ' :: 'n' :: (lit "ot saved: " ++
      omission.feature ++ writeSelectors omission.selectors ++ lit ": " ++ omission.reason) := rfl
  have hskip : ∀ rest : Text, trim (' ' :: 'n' :: rest) = trim ('n' :: rest) := fun _ => rfl
  rw [given, identityOf, hcomment, stripPrefix, if_pos rfl, Option.bind_some, hskip]
  split
  · rfl
  · cases hassigned : assignment (trim ('n' :: (lit "ot saved: " ++ omission.feature ++
        writeSelectors omission.selectors ++ lit ": " ++ omission.reason))) with
    | none => rfl
    | some assigned =>
      obtain ⟨⟨name, value⟩, hsplit, rfl⟩ := Option.map_eq_some_iff.mp hassigned
      obtain ⟨htext, -⟩ := splitOnce_eq_some hsplit
      have hhead := congrArg List.head? htext
      rw [head?_trim (by decide)] at hhead
      have hname : (trim name).head? = some 'n' := by
        cases name with
        | nil => cases hhead
        | cons c rest =>
          obtain rfl := Option.some.inj hhead
          exact head?_trim (by decide) rest
      simp only [Option.bind_some]
      rw [if_neg]
      rintro rfl
      exact hkey hname

/-- A configuration whose comments hold their texts whole. -/
structure PlainComments (configuration : Configuration) : Prop where
  vendorName : PlainText configuration.identity.vendorName
  modelName : PlainText configuration.identity.modelName
  version : PlainText configuration.identity.version
  names : ∀ omission ∈ configuration.omitted, IsName omission.feature ∧
    ∀ pair ∈ omission.selectors, IsName pair.1 ∧ IsName pair.2
  reasons : ∀ omission ∈ configuration.omitted, PlainText omission.reason

theorem not_mem_writeSelectors
    (h : ∀ pair ∈ selectors, IsName pair.1 ∧ IsName pair.2) (hname : ¬NameChar c)
    (hother : c ≠ '=' ∧ c ≠ '[' ∧ c ≠ ']' ∧ c ≠ ',' ∧ c ≠ ' ') :
    c ∉ writeSelectors selectors := by
  rw [writeSelectors]
  split
  · simp
  · have hinner : c ∉ [',', ' '].intercalate (selectors.map selectorPair) := by
      apply not_mem_intercalate (by simp [hother])
      intro text hmem
      obtain ⟨pair, hpair, rfl⟩ := List.mem_map.mp hmem
      exact not_mem_selectorPair (h pair hpair) hname hother.1
    simp only [List.cons_append, List.mem_cons, List.mem_append, List.not_mem_nil, or_false,
      not_or]
    exact ⟨hother.2.1, hinner, hother.2.2.1⟩

theorem not_mem_omissionStart {omission : Omission} (hfeature : IsName omission.feature)
    (hselectors : ∀ pair ∈ omission.selectors, IsName pair.1 ∧ IsName pair.2)
    (hc : c = '\x7b' ∨ c = '\n' ∨ c = '\r') :
    c ∉ lit " not saved: " ++ omission.feature ++ writeSelectors omission.selectors ++
      lit ": " := by
  have hname : ¬NameChar c := by rcases hc with rfl | rfl | rfl <;> decide
  have hwritten := not_mem_writeSelectors hselectors hname
    (by rcases hc with rfl | rfl | rfl <;> decide)
  simp only [List.mem_append, not_or]
  refine ⟨⟨⟨?_, hfeature.not_mem hname⟩, hwritten⟩, ?_⟩
  · rcases hc with rfl | rfl | rfl <;> decide
  · rcases hc with rfl | rfl | rfl <;> decide

theorem PlainComments.lines (h : PlainComments configuration) :
    ∀ text ∈ comments configuration,
      recordLines '\n' '\r' text = [text] ∧ Skipped text := by
  have hidentity : ∀ key value : Text, '\x7b' ∉ lit " " ++ key ++ lit " = " →
      '\n' ∉ key → '\r' ∉ key → PlainText value →
      recordLines '\n' '\r' (identityComment key value) = [identityComment key value] ∧
        Skipped (identityComment key value) := by
    intro key value hbrace hlf hcr hvalue
    have hcomment : identityComment key value = '#' :: (lit " " ++ key ++ lit " = " ++ value) :=
      rfl
    refine ⟨recordLines_of_not_mem ?_ ?_, ?_⟩
    · simp only [identityComment, List.mem_append, not_or]
      exact ⟨⟨⟨by decide, hlf⟩, by decide⟩, hvalue.lineFeed⟩
    · simp only [identityComment, List.mem_append, not_or]
      exact ⟨⟨⟨by decide, hcr⟩, by decide⟩, hvalue.carriageReturn⟩
    · rw [hcomment]
      exact skipped_comment hbrace hvalue.notBagger
  intro text hmem
  simp only [comments, List.cons_append, List.nil_append, List.mem_cons, List.mem_map] at hmem
  rcases hmem with rfl | rfl | rfl | rfl | rfl | ⟨omission, homission, rfl⟩
  · exact ⟨by decide, .inr ⟨_, rfl, by decide⟩⟩
  · exact ⟨by decide, .inr ⟨_, rfl, by decide⟩⟩
  · exact hidentity _ _ (by decide) (by decide) (by decide) h.vendorName
  · exact hidentity _ _ (by decide) (by decide) (by decide) h.modelName
  · exact hidentity _ _ (by decide) (by decide) (by decide) h.version
  · obtain ⟨hfeature, hselectors⟩ := h.names omission homission
    have hreason := h.reasons omission homission
    have hcomment : omissionComment omission = '#' :: (lit " not saved: " ++ omission.feature ++
        writeSelectors omission.selectors ++ lit ": " ++ omission.reason) := rfl
    rw [hcomment]
    refine ⟨recordLines_of_not_mem ?_ ?_, ?_⟩
    · rw [List.mem_cons, List.mem_append, not_or, not_or]
      exact ⟨by decide, not_mem_omissionStart hfeature hselectors (.inr (.inl rfl)),
        hreason.lineFeed⟩
    · rw [List.mem_cons, List.mem_append, not_or, not_or]
      exact ⟨by decide, not_mem_omissionStart hfeature hselectors (.inr (.inr rfl)),
        hreason.carriageReturn⟩
    · exact skipped_comment (not_mem_omissionStart hfeature hselectors (.inl rfl))
        hreason.notBagger

theorem PlainComments.readsBack (h : PlainComments configuration)
    (hplain : ∀ value ∈ configuration.values, value.selectors = [] →
      value.value.head? ≠ some '\x7b') : ReadsBack configuration := by
  have hlines : commentLines configuration = comments configuration := by
    rw [commentLines]
    calc
      (comments configuration).flatMap (recordLines '\n' '\r') =
          (comments configuration).flatMap fun text => [text] :=
        List.flatMap_congr fun text hmem => (h.lines text hmem).1
      _ = comments configuration := List.flatMap_singleton' _
  have hgiven : ∀ key : Text, key.head? ≠ some 'n' →
      (configuration.omitted.map omissionComment).filterMap (given key) = [] := by
    intro key hkey
    rw [List.filterMap_eq_nil_iff]
    intro text hmem
    obtain ⟨omission, -, rfl⟩ := List.mem_map.mp hmem
    exact given_omissionComment omission hkey
  have hfirst : ∀ key, given key (lit "# " ++ fileMagic) = none := fun _ => rfl
  have hsecond : ∀ key, given key (lit "# viva-genicam configuration") = none := fun _ => rfl
  have hidentity : ∀ key key' value : Text, IsName key' →
      given key (identityComment key' value) = if key' = key then some (trim value) else none := by
    intro key key' value hname
    rw [given, identityOf_identityComment hname]
    rfl
  have hvendor : IsName keyVendor := .of_all (by decide) (by decide)
  have hmodel : IsName keyModel := .of_all (by decide) (by decide)
  have hversion : IsName keyVersion := .of_all (by decide) (by decide)
  refine ⟨fun text hmem => (h.lines text (hlines ▸ hmem)).2, ?_, ?_, ?_, hplain⟩
  all_goals
    rw [hlines, lastGiven, comments, List.filterMap_append, hgiven _ (by decide), List.append_nil]
    simp only [List.filterMap_cons, List.filterMap_nil, hfirst, hsecond, hidentity _ _ _ hvendor,
      hidentity _ _ _ hmodel, hidentity _ _ _ hversion]
    rfl

end VivaGenicam.Genapi
