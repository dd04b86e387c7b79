import VivaGenicam.Genapi.FormulaText

/-!
Printing a formula with the fewest brackets, and the round trip through the parser.
-/

namespace VivaGenicam.Genapi

open GenapiXml

def bracketIf (needed : Prop) [Decidable needed] (ts : List Token) : List Token :=
  if needed then .lParen :: (ts ++ [.rParen]) else ts

mutual

/-- The tokens of a tree where an expression of the level is wanted: brackets only around
what is looser. -/
def AstNode.print (level : Nat) : AstNode → List Token
  | .literal (.int value) => [.int value]
  | .literal (.float value) => [.float value]
  | .variable name => [.ident name]
  | .unary op expr => bracketIf (13 < level) (op.token :: expr.print 13)
  | .binary op left right =>
    bracketIf (op.level < level)
      (left.print op.leftLevel ++ op.token :: right.print op.rightLevel)
  | .ternary cond thenExpr elseExpr =>
    bracketIf (1 < level)
      (cond.print 2 ++ .question :: (thenExpr.print 1 ++ .colon :: elseExpr.print 1))
  | .fnCall name args => .ident name :: .lParen :: (printArgs args ++ [.rParen])

def printArgs : List AstNode → List Token
  | [] => []
  | arg :: more => arg.print 1 ++ printMore more

def printMore : List AstNode → List Token
  | [] => []
  | arg :: more => .comma :: (arg.print 1 ++ printMore more)

end

def Phrase.print : Phrase → List Token
  | .node level ast => ast.print level
  | .args list => printArgs list

theorem printMore_append (args : List AstNode) (arg : AstNode) :
    printMore (args ++ [arg]) = printMore args ++ .comma :: arg.print 1 := by
  induction args with
  | nil => simp [printMore]
  | cons first rest ih => simp [printMore, ih]

theorem printArgs_append {args : List AstNode} (h : args ≠ []) (arg : AstNode) :
    printArgs (args ++ [arg]) = printArgs args ++ .comma :: arg.print 1 := by
  obtain ⟨first, rest, rfl⟩ := List.exists_cons_of_ne_nil h
  simp [printArgs, printMore_append]

variable {level : Nat} {ts : List Token}

theorem Writes.looser {tighter : Nat} {expr : AstNode}
    (h : Writes (.node tighter expr) ts) (hlow : 1 ≤ level) (hhigh : tighter ≤ 14)
    (hle : level ≤ tighter) : Writes (.node level expr) ts := by
  induction hle using Nat.decreasingInduction with
  | self => exact h
  | of_succ k hk ih => exact .tighter ⟨by omega, by omega⟩ (ih (by omega))

theorem writes_bracketIf {own : Nat} {expr : AstNode}
    (h : Writes (.node own expr) ts) (hown : 1 ≤ own ∧ own ≤ 14) (hlevel : 1 ≤ level ∧ level ≤ 14) :
    Writes (.node level expr) (bracketIf (own < level) ts) := by
  by_cases hlt : own < level
  · rw [bracketIf, if_pos hlt]
    exact (Writes.brackets (h.looser le_rfl hown.2 hown.1)).looser hlevel.1 le_rfl hlevel.2
  · rw [bracketIf, if_neg hlt]
    exact h.looser hlevel.1 hown.2 (by omega)

theorem BinaryOp.operand_levels (op : BinaryOp) :
    (1 ≤ op.leftLevel ∧ op.leftLevel ≤ 14) ∧ (1 ≤ op.rightLevel ∧ op.rightLevel ≤ 14) := by
  cases op <;> decide

mutual

theorem print_writes (ast : AstNode) (level : Nat) (hlevel : 1 ≤ level ∧ level ≤ 14) :
    Writes (.node level ast) (ast.print level) := by
  match ast with
  | .literal (.int value) =>
    rw [AstNode.print]
    exact (Writes.int value).looser hlevel.1 le_rfl hlevel.2
  | .literal (.float value) =>
    rw [AstNode.print]
    exact (Writes.float value).looser hlevel.1 le_rfl hlevel.2
  | .variable name =>
    rw [AstNode.print]
    exact (Writes.variable name).looser hlevel.1 le_rfl hlevel.2
  | .unary op expr =>
    rw [AstNode.print]
    exact writes_bracketIf (.unary op (print_writes expr 13 (by decide))) (by decide) hlevel
  | .binary op left right =>
    rw [AstNode.print]
    have hbounds := op.level_bounds
    exact writes_bracketIf (.binary op (print_writes left _ op.operand_levels.1)
      (print_writes right _ op.operand_levels.2)) (by omega) hlevel
  | .ternary cond thenExpr elseExpr =>
    rw [AstNode.print]
    exact writes_bracketIf (.ternary (print_writes cond 2 (by decide))
      (print_writes thenExpr 1 (by decide)) (print_writes elseExpr 1 (by decide)))
      (by decide) hlevel
  | .fnCall name args =>
    rw [AstNode.print]
    exact (Writes.fnCall name (printArgs_writes args)).looser hlevel.1 le_rfl hlevel.2

theorem printArgs_writes (args : List AstNode) : Writes (.args args) (printArgs args) := by
  match args with
  | [] =>
    rw [printArgs]
    exact .noArgs
  | arg :: more =>
    rw [printArgs]
    exact printMore_writes more [arg] _ (by simp) (.firstArg (print_writes arg 1 (by decide)))

theorem printMore_writes (more args : List AstNode) (ts : List Token) (hne : args ≠ [])
    (h : Writes (.args args) ts) : Writes (.args (args ++ more)) (ts ++ printMore more) := by
  match more with
  | [] =>
    rw [printMore, List.append_nil, List.append_nil]
    exact h
  | arg :: more =>
    have hnext := printMore_writes more (args ++ [arg]) (ts ++ .comma :: arg.print 1) (by simp)
      (.moreArgs hne h (print_writes arg 1 (by decide)))
    rw [printMore]
    simpa using hnext

end

def Token.isBracket : Token → Bool
  | .lParen | .rParen => true
  | _ => false

/-- `ts` is `fewest` with more brackets, and nothing else. -/
def UpToBrackets (fewest ts : List Token) : Prop :=
  fewest.Sublist ts ∧ fewest.filter (!·.isBracket) = ts.filter (!·.isBracket)

theorem UpToBrackets.refl (ts : List Token) : UpToBrackets ts ts := ⟨.refl ts, rfl⟩

theorem UpToBrackets.append {ts ts' us us' : List Token} (h : UpToBrackets ts ts')
    (h' : UpToBrackets us us') : UpToBrackets (ts ++ us) (ts' ++ us') :=
  ⟨h.1.append h'.1, by rw [List.filter_append, List.filter_append, h.2, h'.2]⟩

theorem UpToBrackets.cons {ts us : List Token} (t : Token) (h : UpToBrackets ts us) :
    UpToBrackets (t :: ts) (t :: us) :=
  (UpToBrackets.refl [t]).append h

theorem UpToBrackets.trans {us vs : List Token} (h : UpToBrackets ts us)
    (h' : UpToBrackets us vs) : UpToBrackets ts vs :=
  ⟨h.1.trans h'.1, h.2.trans h'.2⟩

theorem upToBrackets_bracketed (ts : List Token) : UpToBrackets ts (.lParen :: (ts ++ [.rParen])) :=
  ⟨(List.sublist_append_left ts _).cons _, by simp [Token.isBracket]⟩

theorem bracketIf_false {needed : Prop} [Decidable needed] (h : ¬ needed) (ts : List Token) :
    bracketIf needed ts = ts := if_neg h

theorem bracketIf_mono {weaker needed : Prop} [Decidable weaker] [Decidable needed]
    (himp : weaker → needed) (ts : List Token) :
    UpToBrackets (bracketIf weaker ts) (bracketIf needed ts) := by
  by_cases hneeded : needed
  · by_cases hweaker : weaker
    · rw [bracketIf, bracketIf, if_pos hneeded, if_pos hweaker]
      exact .refl _
    · rw [bracketIf, bracketIf, if_pos hneeded, if_neg hweaker]
      exact upToBrackets_bracketed ts
  · rw [bracketIf, bracketIf, if_neg hneeded, if_neg fun h => hneeded (himp h)]
    exact .refl _

theorem print_mono (ast : AstNode) {tighter : Nat} (hle : level ≤ tighter) :
    UpToBrackets (ast.print level) (ast.print tighter) := by
  cases ast with
  | literal value => cases value <;> simp only [AstNode.print] <;> exact .refl _
  | «variable» name =>
    simp only [AstNode.print]
    exact .refl _
  | unary op expr =>
    simp only [AstNode.print]
    exact bracketIf_mono (by omega) _
  | binary op left right =>
    simp only [AstNode.print]
    exact bracketIf_mono (by omega) _
  | ternary cond thenExpr elseExpr =>
    simp only [AstNode.print]
    exact bracketIf_mono (by omega) _
  | fnCall name args =>
    simp only [AstNode.print]
    exact .refl _

theorem print_tightest (ast : AstNode) (level : Nat) :
    UpToBrackets (ast.print level) (.lParen :: (ast.print 1 ++ [.rParen])) := by
  have hbracket : ∀ (needed : Prop) [Decidable needed] (loosest : Prop) [Decidable loosest]
      (ts : List Token), ¬ loosest →
      UpToBrackets (bracketIf needed ts) (.lParen :: (bracketIf loosest ts ++ [.rParen])) := by
    intro needed _ loosest _ ts hloosest
    rw [bracketIf_false hloosest, bracketIf]
    split
    · exact .refl _
    · exact upToBrackets_bracketed ts
  cases ast with
  | literal value => cases value <;> simp only [AstNode.print] <;> exact upToBrackets_bracketed _
  | «variable» name =>
    simp only [AstNode.print]
    exact upToBrackets_bracketed _
  | unary op expr =>
    simp only [AstNode.print]
    exact hbracket _ _ _ (by omega)
  | binary op left right =>
    have hbounds := op.level_bounds
    simp only [AstNode.print]
    exact hbracket _ _ _ (by omega)
  | ternary cond thenExpr elseExpr =>
    simp only [AstNode.print]
    exact hbracket _ _ _ (by omega)
  | fnCall name args =>
    simp only [AstNode.print]
    exact upToBrackets_bracketed _

theorem Writes.upToBrackets {phrase : Phrase} (h : Writes phrase ts) :
    UpToBrackets phrase.print ts := by
  induction h with
  | int | float | «variable» =>
    simp only [Phrase.print, AstNode.print]
    exact .refl _
  | fnCall name _ ih =>
    simp only [Phrase.print, AstNode.print]
    exact ((ih.append (.refl _)).cons _).cons _
  | @brackets expr ts _ ih =>
    exact (print_tightest expr 14).trans ((ih.append (.refl _)).cons _)
  | unary op _ ih =>
    simp only [Phrase.print, AstNode.print, bracketIf_false (lt_irrefl 13)]
    exact ih.cons _
  | binary op _ _ ihleft ihright =>
    simp only [Phrase.print, AstNode.print, bracketIf_false (lt_irrefl op.level)]
    exact ihleft.append (ihright.cons _)
  | ternary _ _ _ ihcond ihthen ihelse =>
    simp only [Phrase.print, AstNode.print, bracketIf_false (lt_irrefl 1)]
    exact ihcond.append ((ihthen.append (ihelse.cons _)).cons _)
  | @tighter expr ts level _ _ ih => exact (print_mono expr (Nat.le_succ level)).trans ih
  | noArgs => exact .refl _
  | firstArg _ ih =>
    simp only [Phrase.print, printArgs, printMore, List.append_nil]
    exact ih
  | moreArgs hne _ _ ihargs iharg =>
    simp only [Phrase.print]
    rw [printArgs_append hne]
    exact ihargs.append (iharg.cons _)

/-- A text of a tree: the fewest brackets, laid out with any white space. -/
def IsPrint (ast : AstNode) (text : Text) : Prop := Laid Prints (ast.print 1) text

mutual

/-- Trees of non-negative literals and well-formed names. -/
def AstNode.Plain : AstNode → Prop
  | .literal (.int value) => 0 ≤ value.toInt
  | .literal (.float _) => False
  | .variable name => IsIdent name
  | .unary _ expr => expr.Plain
  | .binary _ left right => left.Plain ∧ right.Plain
  | .ternary cond thenExpr elseExpr => cond.Plain ∧ thenExpr.Plain ∧ elseExpr.Plain
  | .fnCall name args => IsIdent name ∧ PlainArgs args

def PlainArgs : List AstNode → Prop
  | [] => True
  | arg :: more => arg.Plain ∧ PlainArgs more

end

theorem exists_numeral (n : Nat) : ∃ digits, digits ≠ [] ∧ IsDigits digits ∧ numeral 10 digits = n := by
  induction n using Nat.strong_induction_on with
  | _ n ih =>
    have hdigit : ∀ d < 10, ∃ c : Char, c.isDigit = true ∧ (digitValue 10 c).getD 0 = d := by
      intro d hd
      interval_cases d
      · exact ⟨'0', by decide⟩
      · exact ⟨'1', by decide⟩
      · exact ⟨'2', by decide⟩
      · exact ⟨'3', by decide⟩
      · exact ⟨'4', by decide⟩
      · exact ⟨'5', by decide⟩
      · exact ⟨'6', by decide⟩
      · exact ⟨'7', by decide⟩
      · exact ⟨'8', by decide⟩
      · exact ⟨'9', by decide⟩
    obtain ⟨c, hc, hvalue⟩ := hdigit (n % 10) (Nat.mod_lt _ (by omega))
    by_cases hsmall : n < 10
    · refine ⟨[c], by simp, fun d hd => ?_, ?_⟩
      · obtain rfl := List.mem_singleton.mp hd
        exact hc
      · simp only [numeral, numeralFrom, hvalue]
        omega
    · obtain ⟨digits, -, hdigits, hnumeral⟩ := ih (n / 10) (by omega)
      refine ⟨digits ++ [c], by simp, fun d hd => ?_, ?_⟩
      · rcases List.mem_append.mp hd with hd | hd
        · exact hdigits d hd
        · obtain rfl := List.mem_singleton.mp hd
          exact hc
      · rw [numeral] at hnumeral
        rw [numeral, numeralFrom_append, hnumeral]
        simp only [numeralFrom, hvalue]
        omega

theorem exists_prints_int {value : Int64} (h : 0 ≤ value.toInt) : ∃ s, Prints (.int value) s := by
  obtain ⟨digits, hne, hdigits, hnumeral⟩ := exists_numeral value.toInt.toNat
  have hlt : value.toInt < 2 ^ 63 := value.toInt_lt
  have hcast : (numeral 10 digits : Int) = value.toInt := by
    rw [hnumeral]
    omega
  refine ⟨digits, ?_⟩
  have hprints := Prints.decimal hne hdigits (by omega)
  rw [hcast, Int64.ofInt_toInt] at hprints
  exact hprints

theorem exists_prints_symbol {t : Token} (h : t ∈ symbols.map Prod.fst) : ∃ s, Prints t s := by
  obtain ⟨⟨t', s⟩, hmem, rfl⟩ := List.mem_map.mp h
  exact ⟨s, .symbol hmem⟩

def Printable (ts : List Token) : Prop := ∀ t ∈ ts, ∃ s, Prints t s

theorem Printable.append {ts us : List Token} (h : Printable ts) (h' : Printable us) :
    Printable (ts ++ us) := by
  intro t ht
  rcases List.mem_append.mp ht with ht | ht
  · exact h t ht
  · exact h' t ht

theorem Printable.cons {t : Token} {ts : List Token} (ht : ∃ s, Prints t s) (h : Printable ts) :
    Printable (t :: ts) := by
  intro u hu
  rcases List.mem_cons.mp hu with rfl | hu
  · exact ht
  · exact h u hu

theorem printable_nil : Printable [] := nofun

theorem prints_lParen : ∃ s, Prints .lParen s := ⟨['('], .symbol (by simp [symbols])⟩

theorem prints_rParen : ∃ s, Prints .rParen s := ⟨[')'], .symbol (by simp [symbols])⟩

theorem Printable.bracketIf (h : Printable ts) (needed : Prop)
    [Decidable needed] : Printable (bracketIf needed ts) := by
  rw [VivaGenicam.Genapi.bracketIf]
  split
  · exact .cons prints_lParen (h.append (.cons prints_rParen printable_nil))
  · exact h

theorem UnaryOp.prints (op : UnaryOp) : ∃ s, Prints op.token s := by
  apply exists_prints_symbol
  cases op <;> simp [symbols, UnaryOp.token]

theorem BinaryOp.prints (op : BinaryOp) : ∃ s, Prints op.token s := by
  apply exists_prints_symbol
  cases op <;> simp [symbols, BinaryOp.token]

mutual

theorem plain_printable (ast : AstNode) (level : Nat) (h : ast.Plain) :
    Printable (ast.print level) := by
  match ast with
  | .literal (.int value) =>
    rw [AstNode.Plain] at h
    rw [AstNode.print]
    exact .cons (exists_prints_int h) printable_nil
  | .literal (.float value) =>
    rw [AstNode.Plain] at h
    exact h.elim
  | .variable name =>
    rw [AstNode.Plain] at h
    rw [AstNode.print]
    exact .cons ⟨name, .ident h⟩ printable_nil
  | .unary op expr =>
    rw [AstNode.Plain] at h
    rw [AstNode.print]
    exact Printable.bracketIf (.cons op.prints (plain_printable expr 13 h)) _
  | .binary op left right =>
    rw [AstNode.Plain] at h
    rw [AstNode.print]
    exact Printable.bracketIf ((plain_printable left _ h.1).append
      (.cons op.prints (plain_printable right _ h.2))) _
  | .ternary cond thenExpr elseExpr =>
    rw [AstNode.Plain] at h
    rw [AstNode.print]
    have hquestion : ∃ s, Prints .question s := ⟨['?'], .symbol (by simp [symbols])⟩
    have hcolon : ∃ s, Prints .colon s := ⟨[':'], .symbol (by simp [symbols])⟩
    exact Printable.bracketIf ((plain_printable cond 2 h.1).append (.cons hquestion
      ((plain_printable thenExpr 1 h.2.1).append
        (.cons hcolon (plain_printable elseExpr 1 h.2.2))))) _
  | .fnCall name args =>
    rw [AstNode.Plain] at h
    rw [AstNode.print]
    exact .cons ⟨name, .ident h.1⟩ (.cons prints_lParen
      ((printArgs_printable args h.2).append (.cons prints_rParen printable_nil)))

theorem printArgs_printable (args : List AstNode) (h : PlainArgs args) :
    Printable (printArgs args) := by
  match args with
  | [] =>
    rw [printArgs]
    exact printable_nil
  | arg :: more =>
    rw [PlainArgs] at h
    rw [printArgs]
    exact (plain_printable arg 1 h.1).append (printMore_printable more h.2)

theorem printMore_printable (args : List AstNode) (h : PlainArgs args) :
    Printable (printMore args) := by
  match args with
  | [] =>
    rw [printMore]
    exact printable_nil
  | arg :: more =>
    rw [PlainArgs] at h
    rw [printMore]
    have hcomma : ∃ s, Prints .comma s := ⟨[','], .symbol (by simp [symbols])⟩
    exact .cons hcomma ((plain_printable arg 1 h.1).append (printMore_printable more h.2))

end

theorem Printable.laid (h : Printable ts) : ∃ text, Laid Prints ts text := by
  induction ts with
  | nil => exact ⟨[], .done nofun⟩
  | cons t ts ih =>
    obtain ⟨s, hs⟩ := h t (by simp)
    obtain ⟨text, htext⟩ := ih fun u hu => h u (List.mem_cons_of_mem t hu)
    exact ⟨[] ++ s ++ text, .token nofun hs htext⟩

/-- Every plain tree has prints, and each of them parses to the tree; and what parses is
the print of the tree it gives, but for redundant brackets and the spelling of numbers. -/
theorem formula_syntax_round_trip (parseF64 : Text → Option Float) (ast : AstNode) :
    (ast.Plain → (∃ text, IsPrint ast text) ∧
      ∀ text, IsPrint ast text → parseExpression parseF64 text = .ok ast) ∧
    ∀ text, parseExpression parseF64 text = .ok ast →
      ∃ ts, UpToBrackets (ast.print 1) ts ∧ Laid (Spells parseF64) ts text := by
  refine ⟨fun hplain => ⟨(plain_printable ast 1 hplain).laid, fun text htext => ?_⟩,
    fun text h => ?_⟩
  · apply (parseExpression_iff parseF64 text ast).mpr
    exact ⟨ast.print 1, print_writes ast 1 (by decide), htext.mono fun _ _ h => .printed h⟩
  · obtain ⟨ts, hts, hlaid⟩ := (parseExpression_iff parseF64 text ast).mp h
    exact ⟨ts, hts.upToBrackets, hlaid⟩

/-- A comparison raised to a power needs its brackets. -/
theorem formula_syntax_round_trip_power :
    parseExpression (fun _ => none) (lit "(a !=1)**2") =
      .ok (.binary .pow (.binary .ne (.variable ['a']) (.literal (.int 1)))
        (.literal (.int 2))) := by
  have ha : IsIdent ['a'] := ⟨'a', [], rfl, .inl rfl, nofun⟩
  have hspace : IsGap [' '] := by
    intro c hc
    obtain rfl := List.mem_singleton.mp hc
    rfl
  have hdigit : ∀ c : Char, c.isDigit = true → IsDigits [c] := by
    intro c hc d hd
    obtain rfl := List.mem_singleton.mp hd
    exact hc
  have hone : Prints (.int 1) ['1'] := .decimal (by simp) (hdigit '1' rfl) (by decide)
  have htwo : Prints (.int 2) ['2'] := .decimal (by simp) (hdigit '2' rfl) (by decide)
  have hsymbol : ∀ t s, (t, s) ∈ symbols → Prints t s := fun t s h => .symbol h
  have hprint : IsPrint (.binary .pow (.binary .ne (.variable ['a']) (.literal (.int 1)))
      (.literal (.int 2))) (lit "(a !=1)**2") :=
    @Laid.token Prints [] ['('] _ _ _ nofun (hsymbol .lParen _ (by simp [symbols]))
      (@Laid.token Prints [] ['a'] _ _ _ nofun (.ident ha)
      (@Laid.token Prints [' '] ['!', '='] _ _ _ hspace (hsymbol .ne _ (by simp [symbols]))
      (@Laid.token Prints [] ['1'] _ _ _ nofun hone
      (@Laid.token Prints [] [')'] _ _ _ nofun (hsymbol .rParen _ (by simp [symbols]))
      (@Laid.token Prints [] ['*', '*'] _ _ _ nofun (hsymbol .starStar _ (by simp [symbols]))
      (@Laid.token Prints [] ['2'] _ _ _ nofun htwo (@Laid.done Prints [] nofun)))))))
  exact ((formula_syntax_round_trip (fun _ => none) _).1
    (by simp [AstNode.Plain, ha])).2 _ hprint

theorem laid_chars {text : Text} (h : Laid Prints ts text)
    (hts : ∀ t ∈ ts, t.isBracket = true ∨ ∃ value, t = .int value) :
    ∀ c ∈ text, isAsciiWhitespace c = true ∨ c = '(' ∨ c = ')' ∨ c.isDigit = true := by
  induction h with
  | done hgap => exact fun c hc => .inl (hgap c hc)
  | @token gap s rest t ts hgap hprints _ ih =>
    intro c hc
    rw [List.append_assoc, List.mem_append, List.mem_append] at hc
    rcases hc with hc | hc | hc
    · exact .inl (hgap c hc)
    · rcases hts t (by simp) with hbracket | ⟨value, rfl⟩
      · cases hprints with
        | symbol hsymbol =>
          have htable : ∀ entry ∈ symbols, (!entry.1.isBracket ||
              entry.2.all fun c => c = '(' || c = ')') = true := by decide
          have hall := htable _ hsymbol
          simp only [hbracket, Bool.not_true, Bool.false_or, List.all_eq_true, Bool.or_eq_true,
            decide_eq_true_eq] at hall
          exact .inr ((hall c hc).imp id .inl)
        | ident | decimal => cases hbracket
      · cases hprints with
        | symbol hsymbol => simp [symbols] at hsymbol
        | decimal _ hdigits => exact .inr (.inr (.inr (hdigits c hc)))
    · exact ih (fun u hu => hts u (List.mem_cons_of_mem t hu)) c hc

/-- `0x10` parses to sixteen, which is not printed so, whatever brackets are added. -/
theorem hexadecimal_not_printed :
    parseExpression (fun _ => none) (lit "0x10") = .ok (.literal (.int 16)) ∧
      ¬ ∃ ts, UpToBrackets ((AstNode.literal (.int 16)).print 1) ts ∧
        Laid Prints ts (lit "0x10") := by
  refine ⟨rfl, ?_⟩
  rintro ⟨ts, ⟨-, hfilter⟩, hlaid⟩
  have hts : ∀ t ∈ ts, t.isBracket = true ∨ ∃ value, t = .int value := by
    intro t ht
    cases hbracket : t.isBracket with
    | true => exact .inl rfl
    | false =>
      have hmem : t ∈ ts.filter (!·.isBracket) := List.mem_filter.mpr ⟨ht, by simp [hbracket]⟩
      rw [← hfilter] at hmem
      exact .inr ⟨16, by simpa [AstNode.print, Token.isBracket] using hmem⟩
  have hx := laid_chars hlaid hts 'x' (by decide)
  exact absurd hx (by decide)

end VivaGenicam.Genapi
