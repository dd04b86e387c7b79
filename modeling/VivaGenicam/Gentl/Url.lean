import VivaGenicam.Genapi.NumberTexts
import VivaGenicam.GenapiXml.Fetch

/-!
The two readers of a document's URL: the fetcher's, and the one that tells a consumer of
GenTL what the URL says. Which URLs they understand alike, and what is read to fetch a
document.
-/

namespace VivaGenicam.Gentl

open GenapiXml Library.Lines

inductive UrlScheme where
  | loc
  | file
  | http
  | custom
deriving DecidableEq

/-- One URL and what is reported about it. -/
structure Url where
  text : Text
  scheme : UrlScheme
  file : Option Text
  address : Option Nat
  size : Option Nat
  schema : Option (Int × Int × Int)

/-- `parse::<i32>().ok()`: what an `i64` takes, within 32 bits. -/
def i32FromStr (text : Text) : Option Int :=
  (i64FromStrRadix 10 text).toOption.filter fun value =>
    -2 ^ 31 ≤ value ∧ value < 2 ^ 31

/-- The third number may be missing or none. -/
def schemaNumbers (version : Text) : Option (Int × Int × Int) :=
  match (version.splitOn '.').map i32FromStr with
  | some major :: some minor :: rest => some (major, minor, rest.head?.join.getD 0)
  | _ => none

def schemaKey : Text := lit "SchemaVersion="

/-- `strip_prefix`. -/
def stripPrefix (start text : Text) : Option Text :=
  if start <+: text then some (text.drop start.length) else none

def schemaVersion (query : Text) : Option (Int × Int × Int) := do
  let version ← (query.splitOn '&').findSome? (stripPrefix schemaKey)
  schemaNumbers version

def hexNumber (text : Text) : Option Nat := (u64FromStrRadix 16 (trim text)).toOption

/-- `trim_start_matches("///")`. -/
def trimSlashes : Text → Text
  | '/' :: '/' :: '/' :: rest => trimSlashes rest
  | rest => rest

/-- `local:[///]file.ext;address;length`, `file:` or `http:`, each with a query. -/
def Url.parse (text : Text) : Url :=
  let (body, query) := (splitOnce '?' text).getD (text, [])
  let (schemeName, rest) := (splitOnce ':' body).getD ([], body)
  let url : Url := ⟨text, .custom, none, none, none, schemaVersion query⟩
  let name := toAsciiLower schemeName
  if name = lit "local" then
    match (rest.dropWhile (· = '/')).splitOn ';' with
    | [file, address, size] =>
      { url with
        scheme := .loc
        file := some file
        address := hexNumber address
        size := hexNumber size }
    | _ => { url with scheme := .loc }
  else if name = lit "file" then { url with scheme := .file, file := some (trimSlashes rest) }
  else if name = lit "http" ∨ name = lit "https" then { url with scheme := .http }
  else url

variable {c : Char}

theorem dropWhile_append_stop {p : Char → Bool} (hc : p c = false) (before after : Text) :
    (before ++ c :: after).dropWhile p = before.dropWhile p ++ c :: after := by
  induction before with
  | nil => simp [hc]
  | cons d before ih =>
    rw [List.cons_append, List.dropWhile_cons, List.dropWhile_cons]
    split
    · exact ih
    · rfl

/-- `trim_end`. -/
def trimEnd (text : Text) : Text := (text.reverse.dropWhile isWhitespace).reverse

theorem trim_around_separators (hc : isWhitespace c = false) (before middle after : Text) :
    trim (before ++ c :: middle ++ c :: after) =
      before.dropWhile isWhitespace ++ c :: middle ++ c :: trimEnd after := by
  unfold trim trimEnd
  have hfront : (before ++ c :: middle ++ c :: after).dropWhile isWhitespace =
      before.dropWhile isWhitespace ++ c :: middle ++ c :: after := by
    rw [List.append_assoc, List.cons_append, dropWhile_append_stop hc, List.append_assoc,
      List.cons_append]
  rw [hfront, List.reverse_append, List.reverse_cons, List.append_assoc, List.singleton_append,
    dropWhile_append_stop hc, List.reverse_append, List.reverse_cons, List.reverse_reverse,
    List.append_assoc, List.singleton_append]

theorem trim_append_space {text space : Text} (hspace : ∀ c ∈ space, isWhitespace c = true) :
    trim (text ++ space) = trim text := by
  obtain ⟨before, after, hbefore, hafter, htext, htight⟩ := Genapi.exists_trim text
  have hsame : text ++ space = before ++ trim text ++ (after ++ space) := by
    rw [← List.append_assoc, ← htext]
  rw [hsame]
  refine Genapi.trim_around hbefore ?_ htight
  intro c hc
  exact (List.mem_append.mp hc).elim (hafter c) (hspace c)

theorem trim_trimEnd (text : Text) : trim (trimEnd text) = trim text := by
  have hsplit := (List.takeWhile_append_dropWhile (p := isWhitespace) (l := text.reverse)).symm
  have htext : text = trimEnd text ++ (text.reverse.takeWhile isWhitespace).reverse := by
    rw [trimEnd, ← List.reverse_append, ← hsplit, List.reverse_reverse]
  have hspace := @trim_append_space (trimEnd text) (text.reverse.takeWhile isWhitespace).reverse
    fun c hc => List.mem_takeWhile_imp (List.mem_reverse.mp hc)
  rw [← htext] at hspace
  exact hspace.symm

theorem not_mem_dropWhile {text : Text} (h : c ∉ text) (p : Char → Bool) : c ∉ text.dropWhile p :=
  fun hc => h ((List.dropWhile_suffix p).subset hc)

theorem not_mem_trimEnd {text : Text} (h : c ∉ text) : c ∉ trimEnd text := by
  intro hc
  have hreverse := List.mem_reverse.mp hc
  exact not_mem_dropWhile (fun hmem => h (List.mem_reverse.mp hmem)) _ hreverse

theorem splitOn_three {first second third : Text} (hfirst : c ∉ first)
    (hsecond : c ∉ second) (hthird : c ∉ third) :
    (first ++ c :: second ++ c :: third).splitOn c = [first, second, third] := by
  rw [List.append_assoc, List.cons_append, List.splitOn_append_cons_self,
    List.splitOn_append_cons_self, List.splitOn_eq_singleton hfirst,
    List.splitOn_eq_singleton hsecond, List.splitOn_eq_singleton hthird]
  rfl

theorem not_mem_of_mem_splitOn {c : Char} {text : Text} :
    ∀ piece ∈ text.splitOn c, c ∉ piece := by
  induction text with
  | nil => simp
  | cons d text ih =>
    rw [List.splitOn_cons_eq_if_modifyHead]
    split
    · intro piece hpiece
      rcases List.mem_cons.mp hpiece with rfl | hpiece
      · exact List.not_mem_nil
      · exact ih piece hpiece
    · rename_i hne
      have hd : c ≠ d := by
        rintro rfl
        simp at hne
      cases hsplit : text.splitOn c with
      | nil => exact absurd hsplit (List.splitOn_ne_nil c text)
      | cons first rest =>
        rw [hsplit] at ih
        intro piece hpiece
        rw [List.modifyHead_cons] at hpiece
        rcases List.mem_cons.mp hpiece with rfl | hpiece
        · rw [List.mem_cons, not_or]
          exact ⟨hd, ih first List.mem_cons_self⟩
        · exact ih piece (List.mem_cons_of_mem _ hpiece)

theorem eq_of_splitOn_three {text first second third : Text}
    (h : text.splitOn c = [first, second, third]) :
    text = first ++ c :: second ++ c :: third ∧ c ∉ first ∧ c ∉ second ∧ c ∉ third := by
  have hjoin := @List.intercalate_splitOn _ text _ _ c
  rw [h] at hjoin
  have hnone := @not_mem_of_mem_splitOn c text
  rw [h] at hnone
  refine ⟨?_, hnone first (by simp), hnone second (by simp), hnone third (by simp)⟩
  rw [← hjoin]
  simp [List.intercalate]

variable {address : Text} {a n : Nat}

theorem parseLocalUrl_hexadecimal {front length : Text}
    (hfront : ';' ∉ front) (haddress : ';' ∉ address) (hlength : ';' ∉ length)
    (ha : u64FromStrRadix 16 (trim address) = .ok a)
    (hn : u64FromStrRadix 16 (trim length) = .ok n) {rest : Text}
    (hrest : stripSlashes rest = front ++ ';' :: address ++ ';' :: length) :
    parseLocalUrl rest = .ok (.loc a n) := by
  have hseparator : isWhitespace ';' = false := by decide
  have htrim := trim_around_separators hseparator front address length
  have hne : trim (stripSlashes rest) ≠ [] := by
    rw [hrest, htrim]
    simp
  unfold parseLocalUrl
  rw [if_neg hne, hrest, htrim,
    splitOn_three (not_mem_dropWhile hfront _) haddress (not_mem_trimEnd hlength)]
  simp only [hexParts, List.reverse_cons, List.reverse_nil, List.nil_append, List.cons_append,
    trim_trimEnd, ha, hn]

theorem not_mem_keys : ∀ key ∈ addressKeys ++ lengthKeys, '?' ∉ key := by
  decide

/-- Nothing but what a hexadecimal number and the space around it are made of. -/
def Plain (text : Text) : Prop :=
  ∀ c ∈ text, isWhitespace c = true ∨ Genapi.isHexDigit c = true ∨ c = '+'

theorem plain_of_hexNumber {text : Text} {value : Nat}
    (h : u64FromStrRadix 16 (trim text) = .ok value) : Plain text := by
  obtain ⟨before, after, hbefore, hafter, htext, -⟩ := Genapi.exists_trim text
  obtain ⟨sign, digits, htrim, hsign, hdigits, -, -⟩ := Genapi.u64FromStrRadix_ok_iff.mp h
  rw [htrim] at htext
  intro c hc
  rw [htext] at hc
  simp only [List.mem_append] at hc
  rcases hc with (hc | hc | hc) | hc
  · exact .inl (hbefore c hc)
  · rcases hsign with rfl | rfl
    · cases hc
    · exact .inr (.inr (List.mem_singleton.mp hc))
  · exact .inr (.inl (hdigits.2 c hc))
  · exact .inl (hafter c hc)

theorem Plain.not_mem {text : Text} (h : Plain text) (hspace : isWhitespace c = false)
    (hhex : Genapi.isHexDigit c = false) (hplus : c ≠ '+') : c ∉ text := by
  intro hc
  rcases h c hc with hc | hc | hc
  · rw [hspace] at hc
    cases hc
  · rw [hhex] at hc
    cases hc
  · exact hplus hc

theorem mem_trim {text : Text} (hc : c ∈ text) (hspace : isWhitespace c = false) :
    c ∈ trim text := by
  obtain ⟨before, after, hbefore, hafter, htext, -⟩ := Genapi.exists_trim text
  rw [htext, List.mem_append, List.mem_append] at hc
  rcases hc with (hc | hc) | hc
  · rw [hbefore c hc] at hspace
    cases hspace
  · exact hc
  · rw [hafter c hc] at hspace
    cases hspace

theorem mem_of_mem_trim {text : Text} (hc : c ∈ trim text) : c ∈ text := by
  obtain ⟨before, after, -, -, htext, -⟩ := Genapi.exists_trim text
  rw [htext]
  simp [hc]

def Ignored (part : Text) : Prop :=
  ∀ found, keyValuePart found part = .ok found

variable {part : Text}

theorem ignored_of_token
    (hkey : ∀ key value, splitOnce '=' (trim part) = some (key, value) → '?' ∈ key)
    (hhex : stripHex (trim part) = none) : Ignored part := by
  intro found
  unfold keyValuePart
  dsimp only
  split
  · rfl
  · cases hsplit : splitOnce '=' (trim part) with
    | none =>
      simp only [hhex, Option.isSome_none, Bool.false_eq_true, if_false]
    | some parts =>
      obtain ⟨key, value⟩ := parts
      have hmark : '?' ∈ toAsciiLower (trim key) :=
        List.mem_map.mpr ⟨'?', mem_trim (hkey key value hsplit) (by decide), by decide⟩
      have haddress : toAsciiLower (trim key) ∉ addressKeys := fun hmem =>
        not_mem_keys _ (List.mem_append_left _ hmem) hmark
      have hlength : toAsciiLower (trim key) ∉ lengthKeys := fun hmem =>
        not_mem_keys _ (List.mem_append_right _ hmem) hmark
      simp only [if_neg haddress, if_neg hlength]

theorem Plain.ignored (h : Plain part) : Ignored part := by
  apply ignored_of_token
  · intro key value hsplit
    obtain ⟨htoken, -⟩ := splitOnce_eq_some hsplit
    exfalso
    apply h.not_mem (c := '=') (by decide) (by decide) (by decide)
    apply mem_of_mem_trim
    rw [htoken]
    simp
  · rw [Option.eq_none_iff_forall_ne_some]
    intro hex hhex
    rw [Genapi.stripHex_eq_some_iff] at hhex
    apply h.not_mem (c := 'x') (by decide) (by decide) (by decide)
    apply mem_of_mem_trim
    rw [hhex]
    simp

theorem Plain.ignored_query (h : Plain part) (query : Text) :
    Ignored (part ++ '?' :: query) := by
  have hequals : '=' ∉ part := h.not_mem (by decide) (by decide) (by decide)
  have hx : 'x' ∉ part := h.not_mem (by decide) (by decide) (by decide)
  have htrim : ∃ after, trim (part ++ '?' :: query) =
      part.dropWhile isWhitespace ++ '?' :: after := by
    refine ⟨trimEnd query, ?_⟩
    unfold trim trimEnd
    rw [dropWhile_append_stop (by decide), List.reverse_append, List.reverse_cons,
      List.append_assoc, List.singleton_append, dropWhile_append_stop (by decide),
      List.reverse_append, List.reverse_cons, List.reverse_reverse, List.append_assoc,
      List.singleton_append]
  obtain ⟨after, htrim⟩ := htrim
  have hfront : '=' ∉ part.dropWhile isWhitespace := not_mem_dropWhile hequals _
  have hfrontX : 'x' ∉ part.dropWhile isWhitespace := not_mem_dropWhile hx _
  generalize part.dropWhile isWhitespace = front at htrim hfront hfrontX
  apply ignored_of_token
  · intro key value hsplit
    obtain ⟨htoken, hnone⟩ := splitOnce_eq_some hsplit
    rw [htrim] at htoken
    rcases List.append_eq_append_iff.mp htoken with ⟨more, hkey, hrest⟩ | ⟨more, hkey, hrest⟩
    · cases more with
      | nil => simp at hrest
      | cons c more =>
        simp only [List.cons_append, List.cons.injEq] at hrest
        rw [hkey, hrest.1]
        simp
    · cases more with
      | nil => simp at hrest
      | cons c more =>
        exfalso
        simp only [List.cons_append, List.cons.injEq] at hrest
        apply hfront
        rw [hkey, ← hrest.1]
        simp
  · rw [Option.eq_none_iff_forall_ne_some]
    intro hex hhex
    rw [Genapi.stripHex_eq_some_iff, htrim] at hhex
    rcases front with - | ⟨first, - | ⟨second, rest⟩⟩
    · simp at hhex
    · simp at hhex
    · simp only [List.cons_append, List.cons.injEq] at hhex
      apply hfrontX
      rw [hhex.2.1]
      simp

theorem keyValuePart_one {found : Found}
    (h : keyValuePart (none, none) part = .ok found) : found.1 = none ∨ found.2 = none := by
  unfold keyValuePart at h
  dsimp only at h
  split at h
  · cases h
    exact .inl rfl
  · split at h
    · split at h
      · unfold parseKeyU64 at h
        split at h
        · cases h
          exact .inr rfl
        · cases h
      · split at h
        · unfold parseKeyU64 at h
          split at h
          · cases h
            exact .inl rfl
          · cases h
        · cases h
          exact .inl rfl
    · split at h
      · unfold parseKeyU64 at h
        split at h
        · cases h
          exact .inr rfl
        · cases h
      · cases h
        exact .inl rfl

theorem parseLocalUrl_query {front length query : Text}
    (hfront : ';' ∉ front) (haddress : ';' ∉ address) (hlength : ';' ∉ length)
    (hquery : ';' ∉ query) (ha : u64FromStrRadix 16 (trim address) = .ok a)
    (hn : u64FromStrRadix 16 (trim length) = .ok n) {rest : Text}
    (hrest : stripSlashes rest = front ++ ';' :: address ++ ';' :: (length ++ '?' :: query))
    (place size : Nat) : parseLocalUrl rest ≠ .ok (.loc place size) := by
  have hlast : ';' ∉ length ++ '?' :: query := by
    simp only [List.mem_append, List.mem_cons, not_or]
    exact ⟨hlength, by decide, hquery⟩
  have htrim := trim_around_separators (show isWhitespace ';' = false by decide) front address
    (length ++ '?' :: query)
  have hne : trim (stripSlashes rest) ≠ [] := by
    rw [hrest, htrim]
    simp
  have hplain := plain_of_hexNumber hn
  have hhex : hexParts [front.dropWhile isWhitespace, address,
      trimEnd (length ++ '?' :: query)] = none := by
    have hrefused : ∀ value, u64FromStrRadix 16 (trim (length ++ '?' :: query)) ≠ .ok value := by
      intro value hvalue
      have hmark : '?' ∈ trim (length ++ '?' :: query) := mem_trim (by simp) (by decide)
      exact (plain_of_hexNumber (by rwa [Genapi.trim_trim])).not_mem
        (c := '?') (by decide) (by decide) (by decide) hmark
    unfold hexParts
    simp only [List.reverse_cons, List.reverse_nil, List.nil_append, List.cons_append,
      trim_trimEnd]
    cases hvalue : u64FromStrRadix 16 (trim (length ++ '?' :: query)) with
    | ok value => exact absurd hvalue (hrefused value)
    | error kind => rw [ha]
  have hlastIgnored : Ignored (trimEnd (length ++ '?' :: query)) := by
    intro found
    have hsame := hplain.ignored_query query found
    unfold keyValuePart at hsame ⊢
    rwa [trim_trimEnd]
  unfold parseLocalUrl
  rw [if_neg hne, hrest, htrim,
    splitOn_three (not_mem_dropWhile hfront _) haddress (not_mem_trimEnd hlast)]
  simp only [hhex]
  unfold keyValue
  simp only [List.foldlM_cons, List.foldlM_nil]
  cases hfile : keyValuePart (none, none) (front.dropWhile isWhitespace) with
  | error error =>
    intro h
    cases h
  | ok found =>
    have hone := keyValuePart_one hfile
    simp only [bind, Except.bind, (plain_of_hexNumber ha).ignored found, hlastIgnored found, pure,
      Except.pure]
    obtain ⟨place?, size?⟩ := found
    intro h
    rcases hone with hone | hone
    · simp only at hone
      subst hone
      cases h
    · simp only at hone
      subst hone
      cases place? <;> cases h

theorem stripSlashes_front {front : Text} (hfront : ';' ∉ front) (after : Text) :
    stripSlashes (front ++ ';' :: after) = stripSlashes front ++ ';' :: after ∧
      ';' ∉ stripSlashes front := by
  rcases front with - | ⟨first, - | ⟨second, - | ⟨third, rest⟩⟩⟩
  · exact ⟨rfl, hfront⟩
  · refine ⟨?_, ?_⟩
    · simp [stripSlashes]
    · simpa [stripSlashes] using hfront
  · refine ⟨?_, ?_⟩
    · simp [stripSlashes]
    · simpa [stripSlashes] using hfront
  · by_cases hslashes : first = '/' ∧ second = '/' ∧ third = '/'
    · obtain ⟨rfl, rfl, rfl⟩ := hslashes
      refine ⟨rfl, ?_⟩
      simp only [List.mem_cons, not_or] at hfront
      exact hfront.2.2.2
    · have hsame : ∀ tail, stripSlashes (first :: second :: third :: tail) =
          first :: second :: third :: tail := by
        intro tail
        unfold stripSlashes
        split
        · rename_i heq
          simp only [List.cons.injEq] at heq
          exact absurd ⟨heq.1, heq.2.1, heq.2.2.1⟩ hslashes
        · rfl
      simp only [List.cons_append, hsame, true_and]
      exact hfront

def cutQuery (text : Text) : Text × Text := (splitOnce '?' text).getD (text, [])

/-- What the consumer's reader takes for the address and the size of a document. -/
structure Written (text : Text) (name rest file address size query : Text) : Prop where
  body : cutQuery text = (name ++ ':' :: rest, query)
  name : ':' ∉ name ∧ toAsciiLower name = lit "local"
  parts : (rest.dropWhile (· = '/')).splitOn ';' = [file, address, size]

variable {name file size : Text}

theorem Written.parse {text rest query : Text}
    (h : Written text name rest file address size query) :
    Url.parse text = ⟨text, .loc, some file, hexNumber address, hexNumber size,
      schemaVersion query⟩ := by
  have hbody := h.body
  unfold cutQuery at hbody
  unfold Url.parse
  rw [hbody]
  simp only [splitOnce_append h.name.1, Option.getD_some, h.name.2, if_true, h.parts]

theorem exists_written {text : Text} (ha : (Url.parse text).address = some a)
    (hn : (Url.parse text).size = some n) :
    ∃ name rest file address size query, Written text name rest file address size query ∧
      u64FromStrRadix 16 (trim address) = .ok a ∧ u64FromStrRadix 16 (trim size) = .ok n := by
  unfold Url.parse at ha hn
  generalize hcut : (splitOnce '?' text).getD (text, []) = cut at ha hn
  obtain ⟨body, query⟩ := cut
  dsimp only at ha hn
  cases hscheme : splitOnce ':' body with
  | none =>
    rw [hscheme] at ha
    exact absurd ha (by simp [toAsciiLower])
  | some found =>
    obtain ⟨name, rest⟩ := found
    obtain ⟨rfl, hname⟩ := splitOnce_eq_some hscheme
    simp only [hscheme, Option.getD_some] at ha hn
    by_cases hlocal : toAsciiLower name = lit "local"
    · rw [if_pos hlocal] at ha hn
      split at ha
      · rename_i file address size hparts
        simp only [hparts] at hn
        exact ⟨name, rest, file, address, size, query, ⟨hcut, ⟨hname, hlocal⟩, hparts⟩,
          Genapi.toOption_eq_some_iff.mp ha, Genapi.toOption_eq_some_iff.mp hn⟩
      · cases ha
    · rw [if_neg hlocal] at ha
      split at ha
      · cases ha
      · split at ha <;> cases ha

theorem UrlLocation_parse_local (hname : toAsciiLower name = lit "local")
    (after : Text) : UrlLocation.parse (name ++ ':' :: after) = parseLocalUrl after := by
  have hlower : toAsciiLower (name ++ ':' :: after) = localScheme ++ toAsciiLower after := by
    have hfirst : toAsciiLower (name ++ ':' :: after) =
        toAsciiLower name ++ ':' :: toAsciiLower after := by
      simp [toAsciiLower]
    rw [hfirst, hname]
    rfl
  have hlength : name.length = 5 := by
    have hmap := congrArg List.length hname
    rw [toAsciiLower, List.length_map] at hmap
    exact hmap
  have hdrop : (name ++ ':' :: after).drop localScheme.length = after := by
    have hsix : localScheme.length = (name ++ [':']).length := by
      rw [List.length_append, hlength]
      rfl
    rw [hsix, show name ++ ':' :: after = (name ++ [':']) ++ after by simp, List.drop_left]
  unfold UrlLocation.parse
  rw [hlower, if_pos (List.prefix_append _ _), hdrop]

theorem Written.front {text rest query : Text}
    (h : Written text name rest file address size query) :
    ∃ front, ';' ∉ front ∧ ';' ∉ address ∧ ';' ∉ size ∧
      ∀ more, stripSlashes (rest ++ more) =
        front ++ ';' :: address ++ ';' :: (size ++ more) := by
  obtain ⟨hrest, hfile, haddress, hsize⟩ := eq_of_splitOn_three h.parts
  have hsplit := (List.takeWhile_append_dropWhile (p := (· = '/')) (l := rest)).symm
  rw [hrest] at hsplit
  have hslashes : ';' ∉ rest.takeWhile (· = '/') := by
    intro hmem
    have hslash := List.mem_takeWhile_imp hmem
    simp at hslash
  have hfront : ';' ∉ rest.takeWhile (· = '/') ++ file := by
    rw [List.mem_append, not_or]
    exact ⟨hslashes, hfile⟩
  obtain ⟨-, hstripped⟩ := stripSlashes_front hfront []
  refine ⟨stripSlashes (rest.takeWhile (· = '/') ++ file), hstripped, haddress, hsize, ?_⟩
  intro more
  have hwhole : rest ++ more = (rest.takeWhile (· = '/') ++ file) ++
      ';' :: (address ++ ';' :: (size ++ more)) := by
    calc rest ++ more
        = (rest.takeWhile (· = '/') ++ (file ++ ';' :: address ++ ';' :: size)) ++ more := by
          rw [← hsplit]
      _ = _ := by simp
  rw [hwhole, (stripSlashes_front hfront _).1]
  simp

theorem Written.text {text rest query : Text} (h : Written text name rest file address size query) :
    text = name ++ ':' :: rest ∧ query = [] ∨
      text = name ++ ':' :: (rest ++ '?' :: query) := by
  have hbody := h.body
  unfold cutQuery at hbody
  cases hsplit : splitOnce '?' text with
  | none =>
    rw [hsplit] at hbody
    simp only [Option.getD_none, Prod.mk.injEq] at hbody
    exact .inl ⟨hbody.1, hbody.2.symm⟩
  | some found =>
    rw [hsplit, Option.getD_some] at hbody
    obtain ⟨htext, -⟩ := splitOnce_eq_some (hsplit.trans (congrArg some hbody))
    right
    rw [htext]
    simp

theorem Written.fetched {text rest query : Text}
    (h : Written text name rest file address size query)
    (ha : u64FromStrRadix 16 (trim address) = .ok a)
    (hn : u64FromStrRadix 16 (trim size) = .ok n) (hquery : ';' ∉ query) :
    UrlLocation.parse text = .ok (.loc a n) ∧ text = name ++ ':' :: rest ∨
      ∀ place length, UrlLocation.parse text ≠ .ok (.loc place length) := by
  obtain ⟨front, hfront, haddress, hsize, hstrip⟩ := h.front
  rcases h.text with ⟨htext, -⟩ | htext
  · left
    have hrest := hstrip []
    rw [List.append_nil, List.append_nil] at hrest
    rw [htext, UrlLocation_parse_local h.name.2]
    exact ⟨parseLocalUrl_hexadecimal hfront haddress hsize ha hn hrest, rfl⟩
  · right
    rw [htext, UrlLocation_parse_local h.name.2]
    exact parseLocalUrl_query hfront haddress hsize hquery ha hn (hstrip ('?' :: query))

/-- Both readers give an address and a length of the text, and not the same ones. -/
def Contrary (text : Text) : Prop :=
  ∃ a n place length, (Url.parse text).address = some a ∧ (Url.parse text).size = some n ∧
    UrlLocation.parse text = .ok (.loc place length) ∧ ¬ (a = place ∧ n = length)

theorem not_contrary {text : Text} (hquery : ';' ∉ (cutQuery text).2) : ¬ Contrary text := by
  rintro ⟨a, n, place, length, ha, hn, hfetched, hdiffer⟩
  obtain ⟨name, rest, file, address, size, query, hwritten, haddress, hsize⟩ :=
    exists_written ha hn
  rw [hwritten.body] at hquery
  rcases hwritten.fetched haddress hsize hquery with ⟨hsame, -⟩ | hnone
  · rw [hfetched] at hsame
    simp only [Except.ok.injEq, UrlLocation.loc.injEq] at hsame
    exact hdiffer ⟨hsame.1.symm, hsame.2.symm⟩
  · exact hnone place length hfetched

/-- A URL as a camera may write it. -/
structure LocalUrl where
  name : Text
  hname : toAsciiLower name = lit "local"
  slashes : Bool
  file : Text
  hfile : ';' ∉ file ∧ '?' ∉ file ∧ file.head? ≠ some '/'
  beforeAddress : Text
  address : Text
  afterAddress : Text
  beforeLength : Text
  length : Text
  afterLength : Text
  hspace : ∀ c ∈ beforeAddress ++ afterAddress ++ beforeLength ++ afterLength,
    isWhitespace c = true
  haddress : Genapi.IsHexNumeral address ∧ Genapi.numeral 16 address < 2 ^ 64
  hlength : Genapi.IsHexNumeral length ∧ Genapi.numeral 16 length < 2 ^ 64
  /-- The numbers of a suffix `?SchemaVersion=x.y.z`. -/
  schema : Option (Fin (2 ^ 31) × Fin (2 ^ 31) × Fin (2 ^ 31))

namespace LocalUrl

variable (url : LocalUrl)

def suffix : Text :=
  match url.schema with
  | none => []
  | some (major, minor, patch) =>
    '?' :: (schemaKey ++ Nat.toDigits 10 major ++ '.' :: Nat.toDigits 10 minor ++
      '.' :: Nat.toDigits 10 patch)

def rest : Text :=
  (if url.slashes then ['/', '/', '/'] else []) ++ url.file ++
    ';' :: (url.beforeAddress ++ url.address ++ url.afterAddress) ++
    ';' :: (url.beforeLength ++ url.length ++ url.afterLength)

def text : Text := url.name ++ ':' :: (url.rest ++ url.suffix)

/-- The numbers of the suffix, as they are reported. -/
def schemaInts : Option (Int × Int × Int) :=
  url.schema.map fun numbers =>
    ((numbers.1.val : Int), (numbers.2.1.val : Int), (numbers.2.2.val : Int))

/-- Both readers find the document where the URL says it is. -/
structure Understood : Prop where
  fetched : UrlLocation.parse url.text =
    .ok (.loc (Genapi.numeral 16 url.address) (Genapi.numeral 16 url.length))
  scheme : (Url.parse url.text).scheme = .loc
  file : (Url.parse url.text).file = some url.file
  address : (Url.parse url.text).address = some (Genapi.numeral 16 url.address)
  size : (Url.parse url.text).size = some (Genapi.numeral 16 url.length)
  schema : (Url.parse url.text).schema = url.schemaInts

end LocalUrl

theorem splitOnce_eq_none {text : Text} (h : c ∉ text) : splitOnce c text = none := by
  rw [Option.eq_none_iff_forall_ne_some]
  rintro ⟨before, after⟩ hsplit
  obtain ⟨rfl, -⟩ := splitOnce_eq_some hsplit
  exact h (by simp)

theorem not_mem_number {before digits after : Text}
    (hspace : ∀ c ∈ before ++ after, isWhitespace c = true) (hdigits : Genapi.IsHexNumeral digits)
    (hc : isWhitespace c = false) (hhex : Genapi.isHexDigit c = false) :
    c ∉ before ++ digits ++ after := by
  intro hmem
  simp only [List.mem_append] at hmem hspace
  rcases hmem with (hmem | hmem) | hmem
  · rw [hspace c (.inl hmem)] at hc
    cases hc
  · rw [hdigits.2 c hmem] at hhex
    cases hhex
  · rw [hspace c (.inr hmem)] at hc
    cases hc

theorem number_read {before digits after : Text}
    (hspace : ∀ c ∈ before ++ after, isWhitespace c = true) (hdigits : Genapi.IsHexNumeral digits)
    (hlt : Genapi.numeral 16 digits < 2 ^ 64) :
    u64FromStrRadix 16 (trim (before ++ digits ++ after)) = .ok (Genapi.numeral 16 digits) := by
  have htight : Genapi.Tight digits :=
    ⟨fun c hc => Genapi.not_space_of_isHexDigit (hdigits.2 c (List.mem_of_mem_head? hc)),
      fun c hc => Genapi.not_space_of_isHexDigit (hdigits.2 c (List.mem_of_mem_getLast? hc))⟩
  rw [Genapi.trim_around (fun c hc => hspace c (List.mem_append_left _ hc))
    (fun c hc => hspace c (List.mem_append_right _ hc)) htight]
  exact Genapi.u64FromStrRadix_ok_iff.mpr ⟨[], digits, rfl, .inl rfl, hdigits, rfl, hlt⟩

theorem i32FromStr_toDigits (h : n < 2 ^ 31) :
    i32FromStr (Nat.toDigits 10 n) = some (n : Int) := by
  have hread := Genapi.i64FromStrRadix_digits Nat.toDigits_ne_nil (Genapi.isDigits_toDigits n)
  rw [Genapi.numeral_toDigits, if_pos (by omega)] at hread
  have hrange : -2 ^ 31 ≤ (n : Int) ∧ (n : Int) < 2 ^ 31 := by omega
  rw [i32FromStr, hread]
  simp only [Except.toOption, Option.filter, decide_eq_true_eq]
  rw [if_pos (by simpa using hrange)]

theorem not_mem_toDigits (hc : c.isDigit = false) (n : Nat) :
    c ∉ Nat.toDigits 10 n := by
  intro hmem
  rw [Genapi.isDigits_toDigits n c hmem] at hc
  cases hc

theorem schemaVersion_of {major minor patch : Nat} (hmajor : major < 2 ^ 31)
    (hminor : minor < 2 ^ 31) (hpatch : patch < 2 ^ 31) :
    schemaVersion (schemaKey ++ Nat.toDigits 10 major ++ '.' :: Nat.toDigits 10 minor ++
      '.' :: Nat.toDigits 10 patch) = some ((major : Int), (minor : Int), (patch : Int)) := by
  have hand : '&' ∉ schemaKey ++ Nat.toDigits 10 major ++ '.' :: Nat.toDigits 10 minor ++
      '.' :: Nat.toDigits 10 patch := by
    have hnone := not_mem_toDigits (show '&'.isDigit = false by decide)
    have hkey : '&' ∉ schemaKey := by decide
    simp only [List.mem_append, List.mem_cons, not_or]
    exact ⟨⟨⟨hkey, hnone major⟩, by decide, hnone minor⟩, by decide, hnone patch⟩
  have hdot := not_mem_toDigits (show '.'.isDigit = false by decide)
  have hstrip : ∀ version, stripPrefix schemaKey (schemaKey ++ version) = some version := by
    intro version
    rw [stripPrefix, if_pos (List.prefix_append _ _), List.drop_left]
  unfold schemaVersion
  rw [List.splitOn_eq_singleton hand, List.append_assoc, List.append_assoc]
  simp only [List.findSome?_cons, hstrip, Option.bind_eq_bind, Option.bind_some]
  have hsplit := splitOn_three (hdot major) (hdot minor) (hdot patch)
  rw [List.append_assoc] at hsplit
  rw [schemaNumbers, hsplit]
  simp only [List.map_cons, List.map_nil, i32FromStr_toDigits hmajor, i32FromStr_toDigits hminor,
    i32FromStr_toDigits hpatch, List.head?_cons, Option.join_some, Option.getD_some]

namespace LocalUrl

variable (url : LocalUrl)

/-- What stands behind the question mark, if there is one. -/
def query : Text := url.suffix.tail

theorem not_mem_name (hc : c.toLower ∉ lit "local") : c ∉ url.name := by
  intro hmem
  apply hc
  rw [← url.hname]
  exact List.mem_map_of_mem hmem

theorem spaces : (∀ c ∈ url.beforeAddress ++ url.afterAddress, isWhitespace c = true) ∧
    ∀ c ∈ url.beforeLength ++ url.afterLength, isWhitespace c = true := by
  have hspaces := url.hspace
  simp only [List.mem_append] at hspaces
  refine ⟨fun c hc => ?_, fun c hc => ?_⟩
  · rcases List.mem_append.mp hc with hc | hc
    · exact hspaces c (.inl (.inl (.inl hc)))
    · exact hspaces c (.inl (.inl (.inr hc)))
  · rcases List.mem_append.mp hc with hc | hc
    · exact hspaces c (.inl (.inr hc))
    · exact hspaces c (.inr hc)

theorem written : Written url.text url.name url.rest url.file
    (url.beforeAddress ++ url.address ++ url.afterAddress)
    (url.beforeLength ++ url.length ++ url.afterLength) url.query := by
  refine ⟨?_, ⟨url.not_mem_name (by decide), url.hname⟩, ?_⟩
  · have hmark : '?' ∉ url.name ++ ':' :: url.rest := by
      have hplace := not_mem_number url.spaces.1 url.haddress.1
        (show isWhitespace '?' = false by decide) (by decide)
      have hsize := not_mem_number url.spaces.2 url.hlength.1
        (show isWhitespace '?' = false by decide) (by decide)
      have hslashes : '?' ∉ (if url.slashes then ['/', '/', '/'] else []) := by
        split <;> decide
      unfold rest
      rw [List.mem_append, List.mem_cons, List.mem_append, List.mem_append, List.mem_append,
        List.mem_cons, List.mem_cons]
      simp only [not_or]
      exact ⟨url.not_mem_name (by decide), by decide, ⟨⟨hslashes, url.hfile.2.1⟩, by decide,
        hplace⟩, by decide, hsize⟩
    unfold cutQuery text query suffix
    cases url.schema with
    | none =>
      dsimp only
      rw [List.append_nil, splitOnce_eq_none hmark]
      rfl
    | some numbers =>
      dsimp only
      rw [← List.cons_append, ← List.append_assoc, splitOnce_append hmark]
      rfl
  · have hstart : (url.file ++ (';' ::
        (url.beforeAddress ++ url.address ++ url.afterAddress) ++
        ';' :: (url.beforeLength ++ url.length ++ url.afterLength))).dropWhile (· = '/') =
        url.file ++ (';' :: (url.beforeAddress ++ url.address ++ url.afterAddress) ++
        ';' :: (url.beforeLength ++ url.length ++ url.afterLength)) := by
      have hhead := url.hfile.2.2
      cases hfile : url.file with
      | nil => simp
      | cons c file =>
        rw [hfile, List.head?_cons] at hhead
        have hc : c ≠ '/' := fun heq => hhead (congrArg some heq)
        simp [hc]
    have hdropped : url.rest.dropWhile (· = '/') = url.file ++
        ';' :: (url.beforeAddress ++ url.address ++ url.afterAddress) ++
        ';' :: (url.beforeLength ++ url.length ++ url.afterLength) := by
      rw [← List.append_assoc] at hstart
      rw [rest, List.append_assoc, List.append_assoc, ← List.append_assoc url.file]
      cases url.slashes with
      | false => exact hstart
      | true => exact hstart
    rw [hdropped]
    exact splitOn_three url.hfile.1
      (not_mem_number url.spaces.1 url.haddress.1 (by decide) (by decide))
      (not_mem_number url.spaces.2 url.hlength.1 (by decide) (by decide))

theorem query_none (hschema : url.schema = none) : url.query = [] := by
  rw [query, suffix, hschema]
  rfl

theorem query_some {numbers : Fin (2 ^ 31) × Fin (2 ^ 31) × Fin (2 ^ 31)}
    (hschema : url.schema = some numbers) :
    url.query = schemaKey ++ Nat.toDigits 10 numbers.1 ++ '.' :: Nat.toDigits 10 numbers.2.1 ++
      '.' :: Nat.toDigits 10 numbers.2.2 := by
  rw [query, suffix, hschema]
  rfl

theorem separator_not_mem_query : ';' ∉ url.query := by
  cases hschema : url.schema with
  | none => simp [url.query_none hschema]
  | some numbers =>
    have hnone := not_mem_toDigits (show ';'.isDigit = false by decide)
    have hkey : ';' ∉ schemaKey := by decide
    rw [url.query_some hschema]
    simp only [List.mem_append, List.mem_cons, not_or]
    exact ⟨⟨⟨hkey, hnone _⟩, by decide, hnone _⟩, by decide, hnone _⟩

theorem schemaVersion_query : schemaVersion url.query = url.schemaInts := by
  cases hschema : url.schema with
  | none =>
    rw [url.query_none hschema, schemaInts, hschema]
    decide
  | some numbers =>
    rw [url.query_some hschema, schemaInts, hschema]
    exact schemaVersion_of numbers.1.isLt numbers.2.1.isLt numbers.2.2.isLt

theorem address_read :
    u64FromStrRadix 16 (trim (url.beforeAddress ++ url.address ++ url.afterAddress)) =
      .ok (Genapi.numeral 16 url.address) :=
  number_read url.spaces.1 url.haddress.1 url.haddress.2

theorem length_read :
    u64FromStrRadix 16 (trim (url.beforeLength ++ url.length ++ url.afterLength)) =
      .ok (Genapi.numeral 16 url.length) :=
  number_read url.spaces.2 url.hlength.1 url.hlength.2

theorem parse_text : Url.parse url.text = ⟨url.text, .loc, some url.file,
    some (Genapi.numeral 16 url.address), some (Genapi.numeral 16 url.length),
    url.schemaInts⟩ := by
  rw [url.written.parse, url.schemaVersion_query, hexNumber, hexNumber, url.address_read,
    url.length_read]
  rfl

theorem fetched_iff : UrlLocation.parse url.text =
    .ok (.loc (Genapi.numeral 16 url.address) (Genapi.numeral 16 url.length)) ↔
      url.schema = none := by
  have hboth := url.written.fetched url.address_read url.length_read url.separator_not_mem_query
  constructor
  · intro hfetched
    rcases hboth with ⟨-, htext⟩ | hnone
    · have hsuffix : url.suffix = [] := by
        rw [text] at htext
        simpa using htext
      rw [suffix] at hsuffix
      cases hschema : url.schema with
      | none => rfl
      | some numbers =>
        rw [hschema] at hsuffix
        cases hsuffix
    · exact absurd hfetched (hnone _ _)
  · intro hschema
    have hrest : url.text = url.name ++ ':' :: url.rest := by
      rw [text, suffix, hschema]
      simp
    rcases url.written.front with ⟨front, hfront, haddress, hlength, hstrip⟩
    have hstripped := hstrip []
    rw [List.append_nil, List.append_nil] at hstripped
    rw [hrest, UrlLocation_parse_local url.hname]
    exact parseLocalUrl_hexadecimal hfront haddress hlength url.address_read url.length_read
      hstripped

end LocalUrl

/-- Both readers understand a written URL unless it has a schema version, they never tell
different places unless a separator stands behind a question mark, and a document is fetched
from the first URL that gives one. -/
theorem understood_iff (url : LocalUrl) (text : Text) (zip : ZipLibrary) (readMem : ReadMem) :
    (url.Understood ↔ url.schema = none) ∧
      (';' ∉ (cutQuery text).2 → ¬ Contrary text) ∧
      Fetched zip readMem (fetchAndLoadXml zip readMem) := by
  refine ⟨⟨fun h => url.fetched_iff.mp h.fetched, fun hschema => ?_⟩, not_contrary,
    fetchAndLoadXml_fetched zip readMem⟩
  have hparse := url.parse_text
  refine ⟨url.fetched_iff.mpr hschema, ?_, ?_, ?_, ?_, ?_⟩
  all_goals rw [hparse]

theorem toAsciiLower_local : toAsciiLower (lit "local") = lit "local" := by decide

theorem plain_file :
    ';' ∉ lit "a.xml" ∧ '?' ∉ lit "a.xml" ∧ (lit "a.xml").head? ≠ some '/' := by decide

theorem no_space : ∀ c ∈ ([] ++ [] ++ [] ++ [] : Text), isWhitespace c = true := by simp

theorem hexNumeral_ten :
    Genapi.IsHexNumeral ['1', '0'] ∧ Genapi.numeral 16 ['1', '0'] < 2 ^ 64 :=
  ⟨⟨by simp, by simp [Genapi.isHexDigit]⟩, by decide +kernel⟩

theorem hexNumeral_twenty :
    Genapi.IsHexNumeral ['2', '0'] ∧ Genapi.numeral 16 ['2', '0'] < 2 ^ 64 :=
  ⟨⟨by simp, by simp [Genapi.isHexDigit]⟩, by decide +kernel⟩

/-- The URL `local:a.xml;10;20?SchemaVersion=1.1.0`. -/
def versionedUrl : LocalUrl where
  name := lit "local"
  hname := toAsciiLower_local
  slashes := false
  file := lit "a.xml"
  hfile := plain_file
  beforeAddress := []
  address := ['1', '0']
  afterAddress := []
  beforeLength := []
  length := ['2', '0']
  afterLength := []
  hspace := no_space
  haddress := hexNumeral_ten
  hlength := hexNumeral_twenty
  schema := some (1, 1, 0)

/-- The fetcher takes the query for a part of the length, and finds no location. -/
theorem versionedUrl_not_fetched : versionedUrl.text =
      lit "local:a.xml;10;20?SchemaVersion=1.1.0" ∧
    (UrlLocation.parse versionedUrl.text).toOption = none ∧ ¬ versionedUrl.Understood := by
  have hnone : (UrlLocation.parse versionedUrl.text).toOption = none := by
    decide +kernel
  refine ⟨by decide +kernel, hnone, fun h => ?_⟩
  rw [h.fetched] at hnone
  cases hnone

end VivaGenicam.Gentl
