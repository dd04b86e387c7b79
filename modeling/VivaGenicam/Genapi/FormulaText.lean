import VivaGenicam.Genapi.Grammar
import VivaGenicam.Library.FoldM

/-!
Formulas as text: every layout of what is written for a tree parses to the tree, and
what parses is such a layout.
-/

namespace VivaGenicam.Genapi

open GenapiXml Library.Descent

/-- The tokens spelled in a row, with white space or none around each. -/
inductive Laid (spells : Token → Text → Prop) : List Token → Text → Prop
  | done {gap : Text} (hgap : IsGap gap) : Laid spells [] gap
  | token {gap s rest : Text} {t : Token} {ts : List Token} (hgap : IsGap gap) (h : spells t s)
      (hrest : Laid spells ts rest) : Laid spells (t :: ts) (gap ++ s ++ rest)

variable {ts : List Token} {text : Text}

theorem Laid.mono {spells more : Token → Text → Prop} (himp : ∀ t s, spells t s → more t s)
    (h : Laid spells ts text) : Laid more ts text := by
  induction h with
  | done hgap => exact .done hgap
  | token hgap h _ ih => exact .token hgap (himp _ _ h) ih

variable {t : Token} {c : Char}

theorem not_glues_space (h : isAsciiWhitespace c = true) : ¬ Glues t c := by
  simp only [isAsciiWhitespace, Bool.or_eq_true, decide_eq_true_eq] at h
  rcases h with (((rfl | rfl) | rfl) | rfl) | rfl
  all_goals
    cases t
    all_goals simp [Glues, isIdentByte]

/-- The first bytes of the symbols: none is part of a word, and those that begin an
operand or close a bracket extend no operator. -/
theorem symbols_first : ∀ entry ∈ symbols, entry.2.head?.all (fun c => !isIdentByte c &&
    (!(entry.1.opens || isRParen entry.1) ||
      !(c = '*' || c = '=' || c = '<' || c = '>' || c = '&' || c = '|'))) = true := by
  decide

/-- The bytes that make one operator the beginning of another. -/
def isExtension (c : Char) : Bool :=
  c = '*' || c = '=' || c = '<' || c = '>' || c = '&' || c = '|'

theorem Glues.kind (h : Glues t c) :
    t.closes = true ∧ isIdentByte c = true ∨ t.closes = false ∧ isExtension c = true := by
  cases t
  case int | float | ident => exact .inl ⟨rfl, h⟩
  case star | eq | bang | amp | pipe =>
    obtain rfl : c = _ := h
    exact .inr ⟨rfl, rfl⟩
  case lt =>
    rcases h with rfl | rfl | rfl
    all_goals exact .inr ⟨rfl, rfl⟩
  case gt =>
    rcases h with rfl | rfl
    all_goals exact .inr ⟨rfl, rfl⟩
  all_goals exact h.elim

theorem not_extension_of_first (h : (c.isDigit || c = '.') = true ∨
    (c.isAlpha || c = '_') = true) : isExtension c = false := by
  cases hext : isExtension c with
  | false => rfl
  | true =>
    simp only [isExtension, Bool.or_eq_true, decide_eq_true_eq] at hext
    rcases hext with ((((rfl | rfl) | rfl) | rfl) | rfl) | rfl
    all_goals exact absurd h (by decide)

theorem Adjacent.endsBefore {parseF64 : Text → Option Float} {next : Token} {s : Text}
    (h : Adjacent t next) (hs : Spells parseF64 next s) (rest : Text) :
    t.EndsBefore (s ++ rest) := by
  obtain ⟨c, more, rfl, hkind⟩ := hs.first
  intro d hd hglues
  obtain rfl : c = d := by simpa using hd
  have hnext : next.isWord = true ∧ isExtension c = false ∨ isIdentByte c = false ∧
      ((next.opens || isRParen next) = true → isExtension c = false) := by
    rcases hkind with ⟨hc, ⟨v, rfl⟩ | ⟨v, rfl⟩⟩ | ⟨hc, -, rfl⟩ | hsymbol
    · exact .inl ⟨rfl, not_extension_of_first (.inl hc)⟩
    · exact .inl ⟨rfl, not_extension_of_first (.inl hc)⟩
    · exact .inl ⟨rfl, not_extension_of_first (.inr hc)⟩
    · have htable := symbols_first _ hsymbol
      simp only [List.head?_cons, Option.all_some, Bool.and_eq_true, Bool.not_eq_true',
        Bool.or_eq_true] at htable
      refine .inr ⟨htable.1, fun hopens => htable.2.resolve_left ?_⟩
      simp [hopens]
  rcases hglues.kind with ⟨hcloses, hident⟩ | ⟨hopen, hext⟩
  · rcases hnext with ⟨hword, -⟩ | ⟨hnot, -⟩
    · rw [h.1 hcloses] at hword
      cases hword
    · rw [hnot] at hident
      cases hident
  · have hfirst : (next.opens || isRParen next) = true := by
      rcases h.2 hopen with hopens | rfl
      · simp [hopens]
      · rfl
    rcases hnext with ⟨-, hnot⟩ | ⟨-, hnot⟩
    · rw [hnot] at hext
      cases hext
    · rw [hnot hfirst] at hext
      cases hext

section Reading

variable {parseF64 : Text → Option Float}

theorem Laid.reads (h : Laid (Spells parseF64) ts text) (hchain : ts.IsChain Adjacent) (pos : Nat) :
    ∃ p q, Parser.ahead parseF64 ⟨text, pos⟩ = .ok p ∧ (cursor parseF64).Reads p ts q ∧
      q.lookahead = .end := by
  induction h generalizing pos with
  | @done gap hgap =>
    let p : Parser := ⟨⟨[], pos + gap.length⟩, .end, pos + gap.length⟩
    exact ⟨p, p, Parser.ahead_eq_ok.mpr ⟨nextToken_end hgap pos, rfl⟩, .nil p, rfl⟩
  | @token gap s rest t ts hgap hspells hrest ih =>
    rw [List.isChain_cons] at hchain
    have hends : t.EndsBefore rest := by
      cases hrest with
      | done hgap' =>
        intro c hc
        exact not_glues_space (hgap' c (List.mem_of_mem_head? hc))
      | @token gap' s' rest' t' ts' hgap' hspells' _ =>
        cases gap' with
        | nil =>
          rw [List.nil_append]
          exact (hchain.1 t' rfl).endsBefore hspells' rest'
        | cons c gap' =>
          intro d hd
          obtain rfl : c = d := by simpa using hd
          exact not_glues_space (hgap' c (by simp))
    have htoken := nextToken_complete hgap hspells hends pos
    obtain ⟨p, q, hahead, hread, hq⟩ := ih hchain.2 (pos + gap.length + s.length)
    let first : Parser := ⟨⟨rest, pos + gap.length + s.length⟩, t, pos + gap.length + s.length⟩
    have hstep : (cursor parseF64).advance first = .ok p := hahead
    exact ⟨first, q, Parser.ahead_eq_ok.mpr ⟨htoken, rfl⟩, .cons hstep hread, hq⟩

theorem laid_of_reads {lexer : Lexer} {p q : Parser}
    (hahead : Parser.ahead parseF64 lexer = .ok p) (hread : (cursor parseF64).Reads p ts q)
    (hq : q.lookahead = .end) (hts : ∀ t ∈ ts, t ≠ .end) :
    Laid (Spells parseF64) ts lexer.rest := by
  induction hread generalizing lexer with
  | nil p =>
    obtain ⟨gap, hgap, ⟨-, hrest, -⟩ | ⟨s, -, -, hspells⟩⟩ :=
      nextToken_sound (Parser.ahead_eq_ok.mp hahead).1
    · rw [hrest]
      exact .done hgap
    · rw [hq] at hspells
      obtain ⟨c, more, -, ⟨-, ⟨v, hv⟩ | ⟨v, hv⟩⟩ | ⟨-, -, hv⟩ | hsymbol⟩ := hspells.first
      · cases hv
      · cases hv
      · cases hv
      · simp [symbols] at hsymbol
  | @cons p p' q ts hstep _ ih =>
    have hrest := ih hstep hq fun t ht => hts t (List.mem_cons_of_mem _ ht)
    have hlive := hts _ List.mem_cons_self
    obtain ⟨gap, hgap, ⟨hend, -, -⟩ | ⟨s, -, htext, hspells⟩⟩ :=
      nextToken_sound (Parser.ahead_eq_ok.mp hahead).1
    · exact absurd hend hlive
    · rw [htext]
      exact .token hgap hspells hrest

end Reading

def IsAscii (text : Text) : Prop := ∀ c ∈ text, c.toNat < 128

theorem asBytes_ascii (h : IsAscii text) : asBytes text = text := by
  induction text with
  | nil => rfl
  | cons c rest ih =>
    have hc := h c (by simp)
    have hencode : String.utf8EncodeChar c = [UInt8.ofNat c.toNat] := by
      have hle : c.val.toNat ≤ 127 := by
        change c.toNat ≤ 127
        omega
      simp only [String.utf8EncodeChar]
      rw [if_pos hle]
      rfl
    rw [asBytes, List.flatMap_cons, ← asBytes, ih fun d hd => h d (List.mem_cons_of_mem c hd),
      hencode]
    have hbyte : (UInt8.ofNat c.toNat).toNat = c.toNat := by
      rw [UInt8.toNat_ofNat']
      omega
    simp [hbyte]

theorem toNat_ofNat_byte {n : Nat} (h : n < 256) : (Char.ofNat n).toNat = n := by
  have hvalid : n.isValidChar := .inl (by omega)
  unfold Char.ofNat
  rw [dif_pos hvalid]
  rfl

theorem isAscii_of_asBytes (h : IsAscii (asBytes text)) : IsAscii text := by
  intro c hc
  by_contra hlarge
  have hfirst : ∃ byte ∈ String.utf8EncodeChar c, 128 ≤ byte.toNat := by
    have hgt : ¬ c.val.toNat ≤ 127 := by
      change ¬ c.toNat ≤ 127
      omega
    simp only [String.utf8EncodeChar]
    rw [if_neg hgt]
    split
    · exact ⟨_, List.mem_cons_self, by rw [UInt8.toNat_ofNat']; omega⟩
    · split
      · exact ⟨_, List.mem_cons_self, by rw [UInt8.toNat_ofNat']; omega⟩
      · exact ⟨_, List.mem_cons_self, by rw [UInt8.toNat_ofNat']; omega⟩
  obtain ⟨byte, hmem, hbyte⟩ := hfirst
  have hlt := h (Char.ofNat byte.toNat) (by
    rw [asBytes, List.mem_flatMap]
    exact ⟨c, hc, List.mem_map_of_mem hmem⟩)
  rw [toNat_ofNat_byte byte.toNat_lt] at hlt
  omega

theorem isAscii_of_isIdentByte (h : isIdentByte c = true) : c.toNat < 128 := by
  simp only [isIdentByte, Char.isAlphanum, Bool.or_eq_true, isAlpha_iff, isDigit_iff,
    decide_eq_true_eq] at h
  rcases h with (((h | h) | h) | rfl) | rfl
  · omega
  · omega
  · omega
  · decide
  · decide

theorem isAscii_append {more : Text} (h : IsAscii text) (hmore : IsAscii more) :
    IsAscii (text ++ more) := by
  intro c hc
  rcases List.mem_append.mp hc with hc | hc
  · exact h c hc
  · exact hmore c hc

theorem isAscii_digits {digits : Text} (h : IsDigits digits) : IsAscii digits := by
  intro c hc
  apply isAscii_of_isIdentByte
  simp [isIdentByte, Char.isAlphanum, h c hc]

theorem isAscii_gap {gap : Text} (h : IsGap gap) : IsAscii gap := by
  intro c hc
  have hspace := h c hc
  simp only [isAsciiWhitespace, Bool.or_eq_true, decide_eq_true_eq] at hspace
  rcases hspace with (((rfl | rfl) | rfl) | rfl) | rfl
  all_goals decide

theorem isAscii_cons (hc : c.toNat < 128) (h : IsAscii text) :
    IsAscii (c :: text) := by
  intro d hd
  rcases List.mem_cons.mp hd with rfl | hd
  · exact hc
  · exact h d hd

theorem Spells.isAscii {parseF64 : Text → Option Float} {s : Text}
    (h : Spells parseF64 t s) : IsAscii s := by
  cases h with
  | printed h =>
    cases h with
    | symbol h =>
      have htable : ∀ entry ∈ symbols, entry.2.all (fun c => c.toNat < 128) = true := by decide
      intro c hc
      simpa using List.all_eq_true.mp (htable _ h) c hc
    | ident h =>
      obtain ⟨c, rest, rfl, hc, hrest⟩ := h
      refine isAscii_cons (isAscii_of_isIdentByte ?_)
        fun d hd => isAscii_of_isIdentByte (hrest d hd)
      rcases hc with hc | rfl
      · simp [isIdentByte, Char.isAlphanum, hc]
      · decide
    | decimal _ h => exact isAscii_digits h
  | hexadecimal hx _ h =>
    refine isAscii_cons (by decide) (isAscii_cons ?_
      fun d hd => isAscii_of_isIdentByte (isIdentByte_of_isHexDigit (h d hd)))
    rcases hx with rfl | rfl
    · decide
    · decide
  | float hwhole hfraction hexponent =>
    have hmark : ∀ e : Char, e = 'e' ∨ e = 'E' → e.toNat < 128 := by
      rintro e (rfl | rfl)
      · decide
      · decide
    refine isAscii_append (isAscii_append (isAscii_digits hwhole) ?_) ?_
    · cases hfraction with
      | none =>
        intro c hc
        cases hc
      | some h => exact isAscii_cons (by decide) (isAscii_digits h)
    · cases hexponent with
      | none =>
        intro c hc
        cases hc
      | plain he _ h => exact isAscii_cons (hmark _ he) (isAscii_digits h)
      | signed he hsign h =>
        refine isAscii_cons (hmark _ he) (isAscii_cons ?_ (isAscii_digits h))
        rcases hsign with rfl | rfl
        · decide
        · decide

theorem Laid.isAscii {parseF64 : Text → Option Float}
    (h : Laid (Spells parseF64) ts text) : IsAscii text := by
  induction h with
  | done hgap => exact isAscii_gap hgap
  | token hgap h _ ih => exact isAscii_append (isAscii_append (isAscii_gap hgap) h.isAscii) ih

theorem Parser.finish_eq_ok {p : Parser} {expr ast : AstNode} :
    p.finish expr = .ok ast ↔ p.lookahead = .end ∧ expr = ast := by
  unfold Parser.finish
  split
  · next hlook => simp [hlook]
  · next hlook =>
    refine ⟨nofun, fun h => absurd h.1 hlook⟩

theorem parseExpression_iff (parseF64 : Text → Option Float) (text : Text) (ast : AstNode) :
    parseExpression parseF64 text = .ok ast ↔
      ∃ ts, Writes (.node 1 ast) ts ∧ Laid (Spells parseF64) ts text := by
  constructor
  · intro h
    obtain ⟨p, hnew, h⟩ := Library.FoldM.bind_eq_ok.mp h
    obtain ⟨⟨expr, q⟩, hparse, h⟩ := Library.FoldM.bind_eq_ok.mp h
    obtain ⟨ts, hts, hread⟩ := parseTernary_sound p expr q hparse
    obtain ⟨hlook, rfl⟩ := Parser.finish_eq_ok.mp h
    have hlaid : Laid (Spells parseF64) ts (asBytes text) :=
      laid_of_reads hnew hread hlook hts.sealed_node.notEnd
    rw [asBytes_ascii (isAscii_of_asBytes hlaid.isAscii)] at hlaid
    exact ⟨ts, hts, hlaid⟩
  · rintro ⟨ts, hts, hlaid⟩
    obtain ⟨p, q, hahead, hread, hlook⟩ := hlaid.reads hts.sealed_node.chain 0
    have hnew : Parser.new parseF64 text = .ok p := by
      rw [Parser.new, asBytes_ascii hlaid.isAscii]
      exact hahead
    have hstop : Stops 1 q.lookahead := stops_separator (.inr (.inr (.inr hlook)))
    have hparse : parseTernary parseF64 (p.size + 1) p = .ok (ast, q) :=
      parseTernary_complete ast ts p q hts hread hstop (Nat.lt_succ_self p.size)
    exact Library.FoldM.bind_eq_ok.mpr ⟨p, hnew, Library.FoldM.bind_eq_ok.mpr
      ⟨(ast, q), hparse, Parser.finish_eq_ok.mpr ⟨hlook, rfl⟩⟩⟩

theorem parseExpression_ends (parseF64 : Text → Option Float) (text : Text) :
    parseExpression parseF64 text ≠ .error .outOfFuel := by
  rw [parseExpression]
  cases hnew : Parser.new parseF64 text with
  | error err =>
    unfold Parser.new Parser.ahead at hnew
    split at hnew
    · cases hnew
    · cases hnew
      exact nofun
  | ok p =>
    have hends : parseTernary parseF64 (p.size + 1) p ≠ .error .outOfFuel :=
      (parseTernary_ends p (Nat.lt_succ_self p.size)).1
    change (parseTernary parseF64 (p.size + 1) p >>= fun x => x.2.finish x.1) ≠ _
    cases hparse : parseTernary parseF64 (p.size + 1) p with
    | error err =>
      rintro ⟨⟩
      exact hends hparse
    | ok result =>
      change result.2.finish result.1 ≠ _
      unfold Parser.finish
      split
      · exact nofun
      · exact nofun

end VivaGenicam.Genapi
