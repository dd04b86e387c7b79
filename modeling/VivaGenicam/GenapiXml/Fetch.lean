import VivaGenicam.GenapiXml.Text
import VivaGenicam.Library.FoldM
import VivaGenicam.Library.Lines
import VivaGenicam.Library.Utf8

/-!
Where a camera keeps its document and how it is fetched: two URL registers, of which the
second is tried when the first one's document cannot be had.
-/

namespace VivaGenicam.GenapiXml

open Library Library.Lines

def firstUrlAddress : Nat := 0x0200

def secondUrlAddress : Nat := 0x0400

/-- Maximum length of a URL register's string. -/
def urlMaxLen : Nat := 512

def zipMagic : List UInt8 := [0x50, 0x4b, 0x03, 0x04]

/-- Upper bound on the decompressed document. -/
def maxXmlSize : Nat := 64 * 1024 * 1024

inductive FetchError where
  /-- A number of the URL. -/
  | xml (error : XmlError)
  | url (url : Text) (problem : String)
  | archive (error : Text)
  | archiveSize (limit : Nat)
  | encoding
  /-- The memory reader's own error. -/
  | transport (error : Text)

inductive UrlLocation where
  | loc (address length : Nat)
  | http
  | file
deriving DecidableEq

def addressKeys : List Text := [lit "address", lit "addr", lit "offset"]

def lengthKeys : List Text := [lit "length", lit "size"]

/-- What the keys seen so far have set. -/
abbrev Found := Option Nat × Option Nat

def parseKeyU64 (value : Text) : Except FetchError Nat :=
  match parseU64 value with
  | .ok number => .ok number
  | .error error => .error (.xml error)

/-- One part of the key-value notation; a part it does not know is ignored. -/
def keyValuePart (found : Found) (part : Text) : Except FetchError Found :=
  let token := trim part
  if token = [] then .ok found
  else
    match splitOnce '=' token with
    | some (key, value) =>
      let key := toAsciiLower (trim key)
      let value := trim value
      if key ∈ addressKeys then
        (parseKeyU64 value).map fun address => (some address, found.2)
      else if key ∈ lengthKeys then
        (parseKeyU64 value).map fun length => (found.1, some length)
      else .ok found
    | none =>
      if (stripHex token).isSome then
        (parseKeyU64 token).map fun address => (some address, found.2)
      else .ok found

def noAddressProblem : String := "is a local: URL without an address and a length"

def keyValue (rest : Text) (parts : List Text) : Except FetchError UrlLocation :=
  match parts.foldlM keyValuePart (none, none) with
  | .error error => .error error
  | .ok (some address, some length) => .ok (.loc address length)
  | .ok _ => .error (.url rest noAddressProblem)

/-- The last two of three parts or more, if both are hexadecimal numbers. -/
def hexParts (parts : List Text) : Option (Nat × Nat) :=
  match parts.reverse with
  | length :: address :: _ :: _ =>
    match u64FromStrRadix 16 (trim address), u64FromStrRadix 16 (trim length) with
    | .ok address, .ok length => some (address, length)
    | _, _ => none
  | _ => none

/-- `strip_prefix("///")`. -/
def stripSlashes : Text → Text
  | '/' :: '/' :: '/' :: rest => rest
  | rest => rest

/-- `filename;hex_address;hex_length`, or else keys and values. -/
def parseLocalUrl (rest : Text) : Except FetchError UrlLocation :=
  let trimmed := trim (stripSlashes rest)
  if trimmed = [] then .error (.url rest "is a local: URL with no address")
  else
    let parts := trimmed.splitOn ';'
    match hexParts parts with
    | some (address, length) => .ok (.loc address length)
    | none => keyValue rest parts

/-- The scheme `local:`, in any case. -/
def localScheme : Text := ['l', 'o', 'c', 'a', 'l', ':']

def UrlLocation.parse (url : Text) : Except FetchError UrlLocation :=
  let lower := toAsciiLower url
  if localScheme <+: lower then parseLocalUrl (url.drop localScheme.length)
  else if lit "http://" <+: lower ∨ lit "https://" <+: lower then .ok .http
  else if lit "file://" <+: lower then .ok .file
  else .error (.url url "has a scheme that is not local:, http: or file:")

/-- An archive's first file, which gives as many bytes as are asked for at most. -/
structure ZipFile where
  size : Nat
  readToEnd : Nat → Except Text (List UInt8)

/-- The archive library: whether an archive opens and is empty, and its first file. -/
structure ZipLibrary where
  isEmpty : List UInt8 → Except Text Bool
  byIndex : List UInt8 → Nat → Except Text ZipFile

def archiveError {α : Type} : Except Text α → Except FetchError α
  | .ok value => .ok value
  | .error error => .error (.archive error)

/-- The first file of an archive; other data as it is. -/
def decompressIfZip (zip : ZipLibrary) (data : List UInt8) :
    Except FetchError (List UInt8) :=
  if data.length < 4 ∨ data.take 4 ≠ zipMagic then .ok data
  else do
    let empty ← archiveError (zip.isEmpty data)
    if empty then .error (.archiveSize maxXmlSize)
    else do
      let file ← archiveError (zip.byIndex data 0)
      if maxXmlSize < file.size then .error (.archiveSize maxXmlSize)
      else do
        let xml ← archiveError (file.readToEnd (maxXmlSize + 1))
        if maxXmlSize < xml.length then .error (.archiveSize maxXmlSize)
        else .ok xml

/-- `String::from_utf8`. -/
def fromUtf8 (bytes : List UInt8) : Except FetchError Text :=
  if Utf8.encode (Utf8.decodeLossy bytes) = bytes then .ok (Utf8.decodeLossy bytes)
  else .error .encoding

/-- The text before the first 0, if it is more than white space. -/
def firstCstring (bytes : List UInt8) : Option Text :=
  nonBlank (Utf8.decodeLossy (bytes.takeWhile (· ≠ 0)))

/-- A camera's memory: what the n-th read gives, which may fail. -/
abbrev ReadMem := Nat → Nat → Nat → Except FetchError (List UInt8)

/-- A read, as its address and its length. -/
abbrev Access := Nat × Nat

/-- The document that one URL register names, and the reads made for it after `turn`
others. -/
def fetchFromUrlRegister (zip : ZipLibrary) (readMem : ReadMem) (turn urlAddr : Nat) :
    Except FetchError Text × List Access :=
  match readMem turn urlAddr urlMaxLen with
  | .error error => (.error error, [(urlAddr, urlMaxLen)])
  | .ok urlBytes =>
    match firstCstring urlBytes with
    | none => (.error (.url [] "is empty"), [(urlAddr, urlMaxLen)])
    | some url =>
      match UrlLocation.parse url with
      | .error error => (.error error, [(urlAddr, urlMaxLen)])
      | .ok (.loc address length) =>
        ((do
          let xmlBytes ← readMem (turn + 1) address length
          let xmlBytes ← decompressIfZip zip xmlBytes
          fromUtf8 xmlBytes), [(urlAddr, urlMaxLen), (address, length)])
      | .ok .http =>
        (.error (.url url "is an HTTP URL, which is not supported"), [(urlAddr, urlMaxLen)])
      | .ok .file =>
        (.error (.url url "is a file URL, which is not supported"), [(urlAddr, urlMaxLen)])

/-- The first URL's document, or else the second's; the first URL's error is the more
useful one. -/
def fetchAndLoadXml (zip : ZipLibrary) (readMem : ReadMem) :
    Except FetchError Text × List Access :=
  let (first, reads) := fetchFromUrlRegister zip readMem 0 firstUrlAddress
  match first with
  | .ok xml => (.ok xml, reads)
  | .error firstErr =>
    let (second, more) := fetchFromUrlRegister zip readMem reads.length secondUrlAddress
    match second with
    | .ok xml => (.ok xml, reads ++ more)
    | .error _ => (.error firstErr, reads ++ more)

/-- A register's URL says that the document is in the camera's memory. -/
def Names (readMem : ReadMem) (turn urlAddr address length : Nat) : Prop :=
  ∃ urlBytes url, readMem turn urlAddr urlMaxLen = .ok urlBytes ∧
    firstCstring urlBytes = some url ∧ UrlLocation.parse url = .ok (.loc address length)

def Gives (zip : ZipLibrary) (readMem : ReadMem) (turn urlAddr : Nat) (xml : Text) : Prop :=
  ∃ address length data document, Names readMem turn urlAddr address length ∧
    readMem (turn + 1) address length = .ok data ∧
    decompressIfZip zip data = .ok document ∧ fromUtf8 document = .ok xml

/-- The reads made for one register: its own, and the document's if its URL names one. -/
def IsAttempt (readMem : ReadMem) (turn urlAddr : Nat) (reads : List Access) : Prop :=
  (reads = [(urlAddr, urlMaxLen)] ∧
    ∀ address length, ¬ Names readMem turn urlAddr address length) ∨
  ∃ address length, Names readMem turn urlAddr address length ∧
    reads = [(urlAddr, urlMaxLen), (address, length)]

variable (zip : ZipLibrary) (readMem : ReadMem) (turn urlAddr : Nat)

theorem not_names {urlBytes : List UInt8} (hread : readMem turn urlAddr urlMaxLen = .ok urlBytes)
    (hnone : ∀ url address length, firstCstring urlBytes = some url →
      UrlLocation.parse url ≠ .ok (.loc address length)) (address length : Nat) :
    ¬ Names readMem turn urlAddr address length := by
  rintro ⟨bytes, url, hbytes, hurl, hparse⟩
  rw [hread] at hbytes
  cases hbytes
  exact hnone url address length hurl hparse

theorem fetchFromUrlRegister_spec :
    IsAttempt readMem turn urlAddr (fetchFromUrlRegister zip readMem turn urlAddr).2 ∧
      ∀ xml, (fetchFromUrlRegister zip readMem turn urlAddr).1 = .ok xml ↔
        Gives zip readMem turn urlAddr xml := by
  have hfailed : (∃ error, fetchFromUrlRegister zip readMem turn urlAddr =
      (.error error, [(urlAddr, urlMaxLen)])) →
      (∀ address length, ¬ Names readMem turn urlAddr address length) →
      IsAttempt readMem turn urlAddr (fetchFromUrlRegister zip readMem turn urlAddr).2 ∧
        ∀ xml, (fetchFromUrlRegister zip readMem turn urlAddr).1 = .ok xml ↔
          Gives zip readMem turn urlAddr xml := by
    rintro ⟨error, hfetch⟩ hnames
    rw [hfetch]
    refine ⟨.inl ⟨rfl, hnames⟩, fun xml => ⟨fun h => ?_, ?_⟩⟩
    · cases h
    · rintro ⟨address, length, -, -, hnamed, -⟩
      exact absurd hnamed (hnames address length)
  cases hread : readMem turn urlAddr urlMaxLen with
  | error error =>
    apply hfailed ⟨_, by simp only [fetchFromUrlRegister, hread]; rfl⟩
    rintro address length ⟨bytes, -, hbytes, -⟩
    rw [hread] at hbytes
    cases hbytes
  | ok urlBytes =>
    have hnone := @not_names readMem turn urlAddr urlBytes hread
    cases hurl : firstCstring urlBytes with
    | none =>
      refine hfailed ⟨_, by simp only [fetchFromUrlRegister, hread, hurl]; rfl⟩ (hnone ?_)
      intro url address length hsome
      rw [hurl] at hsome
      cases hsome
    | some url =>
      have hother : ∀ outcome, UrlLocation.parse url = outcome →
          (∀ address length, outcome ≠ .ok (.loc address length)) →
          ∀ address length, ¬ Names readMem turn urlAddr address length := by
        intro outcome hparse hne
        apply hnone
        intro found address length hsome
        rw [hurl] at hsome
        cases hsome
        rw [hparse]
        exact hne address length
      cases hparse : UrlLocation.parse url with
      | error error =>
        refine hfailed ⟨_, by simp only [fetchFromUrlRegister, hread, hurl, hparse]; rfl⟩
          (hother _ hparse ?_)
        intro address length h
        cases h
      | ok location =>
        cases location with
        | http =>
          refine hfailed ⟨_, by simp only [fetchFromUrlRegister, hread, hurl, hparse]; rfl⟩
            (hother _ hparse ?_)
          intro address length h
          cases h
        | file =>
          refine hfailed ⟨_, by simp only [fetchFromUrlRegister, hread, hurl, hparse]; rfl⟩
            (hother _ hparse ?_)
          intro address length h
          cases h
        | loc address length =>
          have hnamed : Names readMem turn urlAddr address length :=
            ⟨urlBytes, url, hread, hurl, hparse⟩
          have honly : ∀ a n, Names readMem turn urlAddr a n → a = address ∧ n = length := by
            rintro a n ⟨bytes, text, hbytes, htext, htextParse⟩
            rw [hread] at hbytes
            cases hbytes
            rw [hurl] at htext
            cases htext
            rw [hparse] at htextParse
            cases htextParse
            exact ⟨rfl, rfl⟩
          simp only [fetchFromUrlRegister, hread, hurl, hparse]
          refine ⟨.inr ⟨address, length, hnamed, rfl⟩, fun xml => ⟨?_, ?_⟩⟩
          · intro h
            obtain ⟨data, hdata, h⟩ := FoldM.bind_eq_ok.mp h
            obtain ⟨document, hdocument, h⟩ := FoldM.bind_eq_ok.mp h
            exact ⟨address, length, data, document, hnamed, hdata, hdocument, h⟩
          · rintro ⟨a, n, data, document, hplace, hdata, hdocument, hxml⟩
            obtain ⟨rfl, rfl⟩ := honly a n hplace
            rw [hdata]
            simp only [bind, Except.bind, hdocument, hxml]

/-- How a document is fetched from two registers. -/
structure Fetched (outcome : Except FetchError Text × List Access) : Prop where
  /-- With a document from the first URL, nothing is read for the second. -/
  first : ∀ xml, Gives zip readMem 0 firstUrlAddress xml →
    outcome.1 = .ok xml ∧ IsAttempt readMem 0 firstUrlAddress outcome.2
  second : (∀ xml, ¬ Gives zip readMem 0 firstUrlAddress xml) → ∃ reads more,
    outcome.2 = reads ++ more ∧ IsAttempt readMem 0 firstUrlAddress reads ∧
    IsAttempt readMem reads.length secondUrlAddress more ∧
    (∀ xml, Gives zip readMem reads.length secondUrlAddress xml → outcome.1 = .ok xml) ∧
    ((∀ xml, ¬ Gives zip readMem reads.length secondUrlAddress xml) →
      ∃ firstErr, (fetchFromUrlRegister zip readMem 0 firstUrlAddress).1 = .error firstErr ∧
        outcome.1 = .error firstErr)

theorem fetchAndLoadXml_fetched : Fetched zip readMem (fetchAndLoadXml zip readMem) := by
  obtain ⟨hreads, hgives⟩ := fetchFromUrlRegister_spec zip readMem 0 firstUrlAddress
  unfold fetchAndLoadXml
  generalize hfirst : fetchFromUrlRegister zip readMem 0 firstUrlAddress = attempt
    at hreads hgives
  obtain ⟨first, reads⟩ := attempt
  obtain ⟨hmore, hsecond⟩ := fetchFromUrlRegister_spec zip readMem reads.length secondUrlAddress
  generalize hattempt : fetchFromUrlRegister zip readMem reads.length secondUrlAddress = attempt
    at hmore hsecond
  obtain ⟨second, more⟩ := attempt
  cases first with
  | ok document =>
    refine ⟨fun xml hxml => ⟨?_, hreads⟩, fun hnone => ?_⟩
    · exact (hgives xml).mpr hxml
    · exact absurd ((hgives document).mp rfl) (hnone document)
  | error firstErr =>
    refine ⟨fun xml hxml => ?_, fun _ => ?_⟩
    · cases (hgives xml).mpr hxml
    · dsimp only
      rw [hattempt]
      cases second with
      | ok document =>
        refine ⟨reads, more, rfl, hreads, hmore, fun xml hxml => ?_, fun hnone => ?_⟩
        · exact (hsecond xml).mpr hxml
        · exact absurd ((hsecond document).mp rfl) (hnone document)
      | error secondErr =>
        refine ⟨reads, more, rfl, hreads, hmore, fun xml hxml => ?_, fun _ => ?_⟩
        · cases (hsecond xml).mpr hxml
        · exact ⟨firstErr, congrArg Prod.fst hfirst, rfl⟩

end VivaGenicam.GenapiXml
