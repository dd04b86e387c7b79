import VivaGenicam.Genapi.Parser

/-!
The language of formulas: how a tree is written at each level of precedence, and that
the parser reads exactly what is written.
-/

namespace VivaGenicam.Genapi

open GenapiXml Library.Descent

/-- The place of an operator in the table: looser operators come first. -/
def BinaryOp.level : BinaryOp → Nat
  | .or => 2
  | .and => 3
  | .bitOr => 4
  | .bitXor => 5
  | .bitAnd => 6
  | .eq | .ne => 7
  | .lt | .le | .gt | .ge => 8
  | .shl | .shr => 9
  | .add | .sub => 10
  | .mul | .div | .mod => 11
  | .pow => 12

/-- The loosest expression an operator takes on its left: only power associates to the right. -/
def BinaryOp.leftLevel : BinaryOp → Nat
  | .pow => 13
  | op => op.level

def BinaryOp.rightLevel : BinaryOp → Nat
  | .pow => 12
  | op => op.level + 1

def BinaryOp.token : BinaryOp → Token
  | .or => .pipePipe
  | .and => .ampAmp
  | .bitOr => .pipe
  | .bitXor => .caret
  | .bitAnd => .amp
  | .eq => .eq
  | .ne => .ne
  | .lt => .lt
  | .le => .le
  | .gt => .gt
  | .ge => .ge
  | .shl => .ltLt
  | .shr => .gtGt
  | .add => .plus
  | .sub => .minus
  | .mul => .star
  | .div => .slash
  | .mod => .percent
  | .pow => .starStar

def UnaryOp.token : UnaryOp → Token
  | .plus => .plus
  | .minus => .minus
  | .not => .bang
  | .bitNot => .tilde

/-- A tree at a level of precedence, or the arguments of a call. -/
inductive Phrase where
  | node (level : Nat) (ast : AstNode)
  | args (args : List AstNode)

/-- The tokens that write a phrase, brackets allowed around any expression. -/
inductive Writes : Phrase → List Token → Prop
  | int (value : Int64) : Writes (.node 14 (.literal (.int value))) [.int value]
  | float (value : Float) : Writes (.node 14 (.literal (.float value))) [.float value]
  | variable (name : Text) : Writes (.node 14 (.variable name)) [.ident name]
  | fnCall {args : List AstNode} {ts : List Token} (name : Text) (hargs : Writes (.args args) ts) :
      Writes (.node 14 (.fnCall name args)) (.ident name :: .lParen :: (ts ++ [.rParen]))
  | brackets {expr : AstNode} {ts : List Token} (hexpr : Writes (.node 1 expr) ts) :
      Writes (.node 14 expr) (.lParen :: (ts ++ [.rParen]))
  | unary {expr : AstNode} {ts : List Token} (op : UnaryOp) (hexpr : Writes (.node 13 expr) ts) :
      Writes (.node 13 (.unary op expr)) (op.token :: ts)
  | binary {left right : AstNode} {ts us : List Token} (op : BinaryOp)
      (hleft : Writes (.node op.leftLevel left) ts)
      (hright : Writes (.node op.rightLevel right) us) :
      Writes (.node op.level (.binary op left right)) (ts ++ op.token :: us)
  | ternary {cond thenExpr elseExpr : AstNode} {ts us vs : List Token}
      (hcond : Writes (.node 2 cond) ts) (hthen : Writes (.node 1 thenExpr) us)
      (helse : Writes (.node 1 elseExpr) vs) :
      Writes (.node 1 (.ternary cond thenExpr elseExpr))
        (ts ++ .question :: (us ++ .colon :: vs))
  | tighter {expr : AstNode} {ts : List Token} {level : Nat} (hlevel : 1 ≤ level ∧ level ≤ 13)
      (hexpr : Writes (.node (level + 1) expr) ts) : Writes (.node level expr) ts
  | noArgs : Writes (.args []) []
  | firstArg {arg : AstNode} {ts : List Token} (harg : Writes (.node 1 arg) ts) :
      Writes (.args [arg]) ts
  | moreArgs {args : List AstNode} {arg : AstNode} {ts us : List Token} (hne : args ≠ [])
      (hargs : Writes (.args args) ts) (harg : Writes (.node 1 arg) us) :
      Writes (.args (args ++ [arg])) (ts ++ .comma :: us)

def Token.isWord : Token → Bool
  | .int _ | .float _ | .ident _ => true
  | _ => false

def Token.opens : Token → Bool
  | .int _ | .float _ | .ident _ | .plus | .minus | .bang | .tilde | .lParen => true
  | _ => false

def Token.closes : Token → Bool
  | .int _ | .float _ | .ident _ | .rParen => true
  | _ => false

/-- No two words in a row, and after an operator only what begins an operand. -/
def Adjacent (t next : Token) : Prop :=
  (t.closes = true → next.isWord = false) ∧
    (t.closes = false → next.opens = true ∨ next = .rParen)

/-- A row of tokens that begins and ends as an expression does. -/
structure Sealed (ts : List Token) : Prop where
  opens : ∃ t rest, ts = t :: rest ∧ t.opens = true
  closes : ∃ init t, ts = init ++ [t] ∧ t.closes = true
  chain : ts.IsChain Adjacent
  notEnd : ∀ t ∈ ts, t ≠ .end

theorem Sealed.head {ts : List Token} (h : Sealed ts) {t : Token} (ht : t ∈ ts.head?) :
    t.opens = true := by
  obtain ⟨t', rest, rfl, hopens⟩ := h.opens
  obtain rfl : t' = t := by simpa using ht
  exact hopens

variable {ts : List Token} {t : Token}

theorem Sealed.last (h : Sealed ts) (ht : t ∈ ts.getLast?) :
    t.closes = true := by
  obtain ⟨init, t', rfl, hcloses⟩ := h.closes
  obtain rfl : t' = t := by simpa using ht
  exact hcloses

theorem sealed_word (h : t.isWord = true) : Sealed [t] where
  opens := ⟨t, [], rfl, by cases t <;> simp_all [Token.isWord, Token.opens]⟩
  closes := ⟨[], t, rfl, by cases t <;> simp_all [Token.isWord, Token.closes]⟩
  chain := .singleton t
  notEnd t' ht := by
    obtain rfl := List.mem_singleton.mp ht
    rintro rfl
    cases h

theorem Sealed.between {us : List Token} (hleft : Sealed ts) (hright : Sealed us)
    (ht : t.isWord = false ∧ t.closes = false ∧ t ≠ .end) : Sealed (ts ++ t :: us) where
  opens := by
    obtain ⟨first, rest, rfl, h⟩ := hleft.opens
    exact ⟨first, rest ++ t :: us, rfl, h⟩
  closes := by
    obtain ⟨init, last, rfl, h⟩ := hright.closes
    exact ⟨ts ++ t :: init, last, by simp, h⟩
  chain := by
    rw [List.isChain_append, List.isChain_cons]
    refine ⟨hleft.chain, ⟨fun next hnext => ?_, hright.chain⟩, fun last hlast next hnext => ?_⟩
    · exact ⟨fun hcloses => absurd hcloses (by simp [ht.2.1]), fun _ => .inl (hright.head hnext)⟩
    · obtain rfl : t = next := by simpa using hnext
      exact ⟨fun _ => ht.1, fun hopen => absurd (hleft.last hlast) (by simp [hopen])⟩
  notEnd t' h := by
    simp only [List.mem_append, List.mem_cons] at h
    rcases h with h | rfl | h
    · exact hleft.notEnd t' h
    · exact ht.2.2
    · exact hright.notEnd t' h

theorem Sealed.after {us : List Token} (h : Sealed us)
    (ht : t.opens = true ∧ t.closes = false) : Sealed (t :: us) where
  opens := ⟨t, us, rfl, ht.1⟩
  closes := by
    obtain ⟨init, last, rfl, hlast⟩ := h.closes
    exact ⟨t :: init, last, rfl, hlast⟩
  chain := by
    rw [List.isChain_cons]
    exact ⟨fun next hnext => ⟨fun hcloses => absurd hcloses (by simp [ht.2]),
      fun _ => .inl (h.head hnext)⟩, h.chain⟩
  notEnd t' hmem := by
    rcases List.mem_cons.mp hmem with rfl | hmem
    · rintro rfl
      exact absurd ht.1 (by decide)
    · exact h.notEnd t' hmem

theorem bracketed_chain (h : ts = [] ∨ Sealed ts) :
    (Token.lParen :: (ts ++ [.rParen])).IsChain Adjacent := by
  have hclose : ∀ t : Token, Adjacent t .rParen := fun t => ⟨fun _ => rfl, fun _ => .inr rfl⟩
  rw [List.isChain_cons]
  rcases h with rfl | h
  · refine ⟨fun next hnext => ?_, .singleton _⟩
    obtain rfl : Token.rParen = next := by simpa using hnext
    exact hclose _
  · refine ⟨fun next hnext => ?_, ?_⟩
    · obtain ⟨t, rest, rfl, hopens⟩ := h.opens
      obtain rfl : t = next := by simpa using hnext
      exact ⟨fun hcloses => absurd hcloses (by decide), fun _ => .inl hopens⟩
    · rw [List.isChain_append]
      refine ⟨h.chain, .singleton _, fun last _ next hnext => ?_⟩
      obtain rfl : Token.rParen = next := by simpa using hnext
      exact hclose _

theorem bracketed_notEnd (h : ts = [] ∨ Sealed ts) :
    ∀ t ∈ Token.lParen :: (ts ++ [.rParen]), t ≠ .end := by
  intro t ht
  simp only [List.mem_cons, List.mem_append, List.not_mem_nil, or_false] at ht
  rcases ht with rfl | ht | rfl
  · intro heq
    cases heq
  · rcases h with rfl | h
    · cases ht
    · exact h.notEnd t ht
  · intro heq
    cases heq

theorem Sealed.brackets {ts : List Token} (h : Sealed ts) :
    Sealed (.lParen :: (ts ++ [.rParen])) where
  opens := ⟨_, _, rfl, rfl⟩
  closes := ⟨.lParen :: ts, .rParen, rfl, rfl⟩
  chain := bracketed_chain (.inr h)
  notEnd := bracketed_notEnd (.inr h)

theorem sealed_call (name : Text) (h : ts = [] ∨ Sealed ts) :
    Sealed (.ident name :: .lParen :: (ts ++ [.rParen])) where
  opens := ⟨_, _, rfl, rfl⟩
  closes := ⟨.ident name :: .lParen :: ts, .rParen, rfl, rfl⟩
  chain := by
    rw [List.isChain_cons]
    refine ⟨fun next hnext => ?_, bracketed_chain h⟩
    obtain rfl : Token.lParen = next := by simpa using hnext
    exact ⟨fun _ => rfl, fun hopen => absurd hopen (by simp [Token.closes])⟩
  notEnd t ht := by
    rcases List.mem_cons.mp ht with rfl | ht
    · exact nofun
    · exact bracketed_notEnd h t ht

theorem BinaryOp.token_plain (op : BinaryOp) :
    op.token.isWord = false ∧ op.token.closes = false ∧ op.token ≠ .end := by
  cases op <;> exact ⟨rfl, rfl, nofun⟩

theorem Writes.sealed {phrase : Phrase} (h : Writes phrase ts) :
    phrase = .args [] ∧ ts = [] ∨ phrase ≠ .args [] ∧ Sealed ts := by
  induction h with
  | int value => exact .inr ⟨nofun, sealed_word rfl⟩
  | float value => exact .inr ⟨nofun, sealed_word rfl⟩
  | «variable» name => exact .inr ⟨nofun, sealed_word rfl⟩
  | fnCall name _ ih => exact .inr ⟨nofun, sealed_call name (ih.imp And.right And.right)⟩
  | brackets _ ih => exact .inr ⟨nofun, (ih.resolve_left nofun).2.brackets⟩
  | unary op _ ih =>
    exact .inr ⟨nofun, (ih.resolve_left nofun).2.after (by cases op <;> exact ⟨rfl, rfl⟩)⟩
  | binary op _ _ ihleft ihright =>
    exact .inr ⟨nofun,
      (ihleft.resolve_left nofun).2.between (ihright.resolve_left nofun).2 op.token_plain⟩
  | ternary _ _ _ ihcond ihthen ihelse =>
    have hbranches := (ihthen.resolve_left nofun).2.between (ihelse.resolve_left nofun).2
      (t := .colon) ⟨rfl, rfl, nofun⟩
    exact .inr ⟨nofun, (ihcond.resolve_left nofun).2.between hbranches ⟨rfl, rfl, nofun⟩⟩
  | tighter _ _ ih => exact .inr ⟨nofun, (ih.resolve_left nofun).2⟩
  | noArgs => exact .inl ⟨rfl, rfl⟩
  | firstArg _ ih => exact .inr ⟨nofun, (ih.resolve_left nofun).2⟩
  | moreArgs hne _ _ ihargs iharg =>
    refine .inr ⟨by simp, ?_⟩
    have hargs := (ihargs.resolve_left fun h => hne (Phrase.args.inj h.1)).2
    exact hargs.between (iharg.resolve_left nofun).2 ⟨rfl, rfl, nofun⟩

variable {expr : AstNode}

theorem Writes.sealed_node {level : Nat} (h : Writes (.node level expr) ts) : Sealed ts :=
  (h.sealed.resolve_left nofun).2

/-- The operators the parser looks for at each level. -/
def operatorAt : Nat → Token → Option BinaryOp
  | 2 => orOperator
  | 3 => andOperator
  | 4 => bitorOperator
  | 5 => bitxorOperator
  | 6 => bitandOperator
  | 7 => equalityOperator
  | 8 => comparisonOperator
  | 9 => shiftOperator
  | 10 => additiveOperator
  | 11 => multiplicativeOperator
  | 12 => powerOperator
  | _ => fun _ => none

theorem operatorAt_level (op : BinaryOp) : operatorAt op.level op.token = some op := by
  cases op <;> rfl

theorem operatorAt_eq_some {level : Nat} {t : Token} {op : BinaryOp}
    (h : operatorAt level t = some op) : op.token = t ∧ op.level = level := by
  unfold operatorAt at h
  split at h
  case h_12 => cases h
  all_goals
    cases t
    all_goals cases h <;> exact ⟨rfl, rfl⟩

theorem BinaryOp.level_bounds (op : BinaryOp) : 2 ≤ op.level ∧ op.level ≤ 12 := by
  cases op <;> decide

/-- A tree at a level, as the languages of the parser have it. -/
def WritesAt (level : Nat) (expr : AstNode) (ts : List Token) : Prop :=
  Writes (.node level expr) ts

theorem BinaryOp.left_associative {op : BinaryOp} (h : op.level ≤ 11) :
    op.leftLevel = op.level ∧ op.rightLevel = op.level + 1 := by
  cases op <;> first | exact ⟨rfl, rfl⟩ | exact absurd h (by decide)

theorem BinaryOp.eq_pow {op : BinaryOp} (h : op.level = 12) : op = .pow := by
  cases op <;> first | rfl | exact absurd h (by decide)

theorem writesAt_iff_leftChain {level : Nat} (hlow : 2 ≤ level) (hhigh : level ≤ 11) :
    WritesAt level expr ts ↔
      LeftChain (operatorAt level) .binary (WritesAt (level + 1)) expr ts := by
  constructor
  · intro h
    unfold WritesAt at h
    generalize hphrase : Phrase.node level expr = phrase at h
    induction h generalizing expr with
    | binary op _ hright ihleft _ =>
      obtain ⟨rfl, rfl⟩ := Phrase.node.inj hphrase
      obtain ⟨hl, hr⟩ := op.left_associative hhigh
      rw [hr] at hright
      exact .step (ihleft (by rw [hl])) (operatorAt_level op) hright
    | tighter _ hexpr _ =>
      obtain ⟨rfl, rfl⟩ := Phrase.node.inj hphrase
      exact .single hexpr
    | int | float | «variable» | fnCall | brackets | unary | ternary =>
      obtain ⟨rfl, -⟩ := Phrase.node.inj hphrase
      omega
    | noArgs | firstArg | moreArgs => cases hphrase
  · intro h
    induction h with
    | single h => exact .tighter ⟨by omega, by omega⟩ h
    | @step left right ts us t op _ hop hright ih =>
      obtain ⟨rfl, rfl⟩ := operatorAt_eq_some hop
      obtain ⟨hl, hr⟩ := op.left_associative hhigh
      exact .binary op (by rw [hl]; exact ih) (by rw [hr]; exact hright)

theorem writesAt_iff_rightChain :
    WritesAt 12 expr ts ↔ RightChain powerOperator .binary (WritesAt 13) expr ts := by
  constructor
  · intro h
    unfold WritesAt at h
    generalize hphrase : Phrase.node 12 expr = phrase at h
    induction h generalizing expr with
    | binary op hleft _ _ ihright =>
      obtain ⟨hlevel, rfl⟩ := Phrase.node.inj hphrase
      obtain rfl := BinaryOp.eq_pow hlevel.symm
      exact .step hleft rfl (ihright rfl)
    | tighter _ hexpr _ =>
      obtain ⟨rfl, rfl⟩ := Phrase.node.inj hphrase
      exact .single hexpr
    | int | float | «variable» | fnCall | brackets | unary | ternary =>
      obtain ⟨hlevel, -⟩ := Phrase.node.inj hphrase
      omega
    | noArgs | firstArg | moreArgs => cases hphrase
  · intro h
    induction h with
    | single h => exact .tighter (by decide) h
    | @step left right ts us t op hleft hop _ ih =>
      obtain ⟨rfl, hlevel⟩ := @operatorAt_eq_some 12 t op hop
      obtain rfl := BinaryOp.eq_pow hlevel
      exact .binary .pow hleft ih

theorem unaryOperator_token (op : UnaryOp) : unaryOperator op.token = some op := by
  cases op <;> rfl

theorem unaryOperator_eq_some {op : UnaryOp} (h : unaryOperator t = some op) :
    t = op.token := by
  cases t
  all_goals cases h <;> rfl

theorem writesAt_iff_prefixChain :
    WritesAt 13 expr ts ↔ PrefixChain unaryOperator .unary (WritesAt 14) expr ts := by
  constructor
  · intro h
    unfold WritesAt at h
    generalize hphrase : Phrase.node 13 expr = phrase at h
    induction h generalizing expr with
    | unary op _ ih =>
      obtain ⟨-, rfl⟩ := Phrase.node.inj hphrase
      exact .step (unaryOperator_token op) (ih rfl)
    | tighter _ hexpr _ =>
      obtain ⟨rfl, rfl⟩ := Phrase.node.inj hphrase
      exact .single hexpr
    | binary op =>
      obtain ⟨hlevel, -⟩ := Phrase.node.inj hphrase
      have hbounds := op.level_bounds
      omega
    | int | float | «variable» | fnCall | brackets | ternary =>
      obtain ⟨hlevel, -⟩ := Phrase.node.inj hphrase
      omega
    | noArgs | firstArg | moreArgs => cases hphrase
  · intro h
    induction h with
    | single h => exact .tighter (by decide) h
    | @step expr ts t op hop _ ih =>
      rw [unaryOperator_eq_some hop]
      exact .unary op ih

theorem writesAt_ternary (h : WritesAt 1 expr ts) :
    WritesAt 2 expr ts ∨ ∃ cond thenExpr elseExpr us vs ws,
      expr = .ternary cond thenExpr elseExpr ∧ ts = us ++ .question :: (vs ++ .colon :: ws) ∧
        WritesAt 2 cond us ∧ WritesAt 1 thenExpr vs ∧ WritesAt 1 elseExpr ws := by
  unfold WritesAt at h
  generalize hphrase : Phrase.node 1 expr = phrase at h
  cases h with
  | ternary hcond hthen helse =>
    obtain ⟨-, rfl⟩ := Phrase.node.inj hphrase
    exact .inr ⟨_, _, _, _, _, _, rfl, rfl, hcond, hthen, helse⟩
  | tighter _ hexpr =>
    obtain ⟨rfl, rfl⟩ := Phrase.node.inj hphrase
    exact .inl hexpr
  | binary op =>
    obtain ⟨hlevel, -⟩ := Phrase.node.inj hphrase
    have hbounds := op.level_bounds
    omega
  | int | float | «variable» | fnCall | brackets | unary =>
    obtain ⟨hlevel, -⟩ := Phrase.node.inj hphrase
    omega
  | noArgs | firstArg | moreArgs => cases hphrase

/-- The arguments of a call as a chain of commas. -/
abbrev ArgsChain : List AstNode → List Token → Prop :=
  LeftChain commaOperator (fun _ args more => args ++ more)
    fun args ts => ∃ arg, args = [arg] ∧ WritesAt 1 arg ts

theorem commaOperator_eq_some {op : Unit} (h : commaOperator t = some op) :
    t = .comma := by
  cases t
  all_goals cases h <;> rfl

variable {args : List AstNode}

theorem ArgsChain.writes (h : ArgsChain args ts) :
    args ≠ [] ∧ Writes (.args args) ts := by
  induction h with
  | single h =>
    obtain ⟨arg, rfl, h⟩ := h
    exact ⟨by simp, .firstArg h⟩
  | @step args more ts us t op _ hop hright ih =>
    obtain ⟨arg, rfl, hright⟩ := hright
    obtain rfl := commaOperator_eq_some hop
    exact ⟨by simp, .moreArgs ih.1 ih.2 hright⟩

theorem argsChain_of_writes
    (h : Writes (.args args) ts) (hne : args ≠ []) : ArgsChain args ts := by
  generalize hphrase : Phrase.args args = phrase at h
  induction h generalizing args with
  | noArgs => exact absurd (Phrase.args.inj hphrase) hne
  | firstArg harg =>
    obtain rfl := Phrase.args.inj hphrase
    exact .single ⟨_, rfl, harg⟩
  | moreArgs hnil _ harg ih =>
    obtain rfl := Phrase.args.inj hphrase
    exact .step (ih hnil rfl) rfl ⟨_, rfl, harg⟩
  | int | float | «variable» | fnCall | brackets | unary | binary | ternary | tighter =>
    cases hphrase

variable {p q : Parser} {wanted : Token → Bool} {msg : String} {name : Text} {next : Parses AstNode}

section Soundness

variable {parseF64 : Text → Option Float} {ternary : Parses AstNode} {fuel : Nat}

theorem reads_cons {r : Parser} (hlook : p.lookahead = t)
    (hstep : (cursor parseF64).step p = .ok ((), q)) (h : (cursor parseF64).Reads q ts r) :
    (cursor parseF64).Reads p (t :: ts) r := by
  rw [← hlook]
  exact .cons (Cursor.step_eq_ok.mp hstep) h

theorem expect_eq_ok {u : Unit} :
    expect parseF64 wanted msg p = .ok (u, q) ↔
      wanted p.lookahead = true ∧ (cursor parseF64).step p = .ok ((), q) := by
  rw [expect]
  cases wanted p.lookahead with
  | true => simp
  | false => simp

theorem isRParen_eq (h : isRParen t = true) : t = .rParen := by
  cases t <;> first | rfl | cases h

theorem isColon_eq (h : isColon t = true) : t = .colon := by
  cases t <;> first | rfl | cases h

theorem parseArgs_sound (hternary : (cursor parseF64).Sound (WritesAt 1) ternary)
    (h : parseArgs parseF64 ternary fuel p = .ok (args, q)) :
    ∃ ts, Writes (.args args) ts ∧ (cursor parseF64).Reads p ts q := by
  have hchain : (cursor parseF64).Sound ArgsChain
      ((cursor parseF64).levelLeft .outOfFuel commaOperator (fun _ args more => args ++ more)
        (do
          let arg ← ternary
          pure [arg]) fuel) := by
    apply Cursor.levelLeft_sound
    intro p args q h
    obtain ⟨arg, p₁, harg, h⟩ := bind_eq_ok.mp h
    obtain ⟨rfl, rfl⟩ := pure_eq_ok.mp h
    obtain ⟨ts, hts, hread⟩ := hternary p arg p₁ harg
    exact ⟨ts, ⟨arg, rfl, hts⟩, hread⟩
  unfold parseArgs at h
  split at h
  · cases h
    exact ⟨[], .noArgs, .nil p⟩
  · obtain ⟨ts, hts, hread⟩ := hchain p args q h
    exact ⟨ts, hts.writes.2, hread⟩

theorem parseCall_sound (hternary : (cursor parseF64).Sound (WritesAt 1) ternary)
        (h : parseCall parseF64 ternary fuel name p = .ok (expr, q)) :
    ∃ ts, WritesAt 14 expr (.ident name :: ts) ∧ (cursor parseF64).Reads p ts q := by
  unfold parseCall at h
  split at h
  · next hlook =>
    obtain ⟨_, p₁, hstep, h⟩ := bind_eq_ok.mp h
    obtain ⟨args, p₂, hargs, h⟩ := bind_eq_ok.mp h
    obtain ⟨_, p₃, hclose, h⟩ := bind_eq_ok.mp h
    obtain ⟨rfl, rfl⟩ := pure_eq_ok.mp h
    obtain ⟨hparen, hlast⟩ := expect_eq_ok.mp hclose
    obtain ⟨ts, hts, hread⟩ := parseArgs_sound hternary hargs
    have hrest := reads_cons (isRParen_eq hparen) hlast (.nil p₃)
    exact ⟨_, .fnCall name hts, reads_cons hlook hstep (hread.append hrest)⟩
  · cases h
    exact ⟨[], .variable name, .nil p⟩

theorem parsePrimary_sound (hternary : (cursor parseF64).Sound (WritesAt 1) ternary) :
    (cursor parseF64).Sound (WritesAt 14) (parsePrimary parseF64 ternary fuel) := by
  intro p expr q h
  unfold parsePrimary at h
  split at h
  · next value hlook =>
    obtain ⟨_, p₁, hstep, h⟩ := bind_eq_ok.mp h
    obtain ⟨rfl, rfl⟩ := pure_eq_ok.mp h
    exact ⟨_, .int value, reads_cons hlook hstep (.nil p₁)⟩
  · next value hlook =>
    obtain ⟨_, p₁, hstep, h⟩ := bind_eq_ok.mp h
    obtain ⟨rfl, rfl⟩ := pure_eq_ok.mp h
    exact ⟨_, .float value, reads_cons hlook hstep (.nil p₁)⟩
  · next name hlook =>
    obtain ⟨_, p₁, hstep, h⟩ := bind_eq_ok.mp h
    obtain ⟨ts, hts, hread⟩ := parseCall_sound hternary h
    exact ⟨_, hts, reads_cons hlook hstep hread⟩
  · next hlook =>
    obtain ⟨_, p₁, hstep, h⟩ := bind_eq_ok.mp h
    obtain ⟨inner, p₂, hinner, h⟩ := bind_eq_ok.mp h
    obtain ⟨_, p₃, hclose, h⟩ := bind_eq_ok.mp h
    obtain ⟨rfl, rfl⟩ := pure_eq_ok.mp h
    obtain ⟨hparen, hlast⟩ := expect_eq_ok.mp hclose
    obtain ⟨ts, hts, hread⟩ := hternary p₁ inner p₂ hinner
    have hrest := reads_cons (isRParen_eq hparen) hlast (.nil p₃)
    exact ⟨_, .brackets hts, reads_cons hlook hstep (hread.append hrest)⟩
  · cases h
  · cases h

theorem binaryLevel_sound (level fuel : Nat) (hlevel : 2 ≤ level ∧ level ≤ 11)
    (h : (cursor parseF64).Sound (WritesAt (level + 1)) next) :
    (cursor parseF64).Sound (WritesAt level)
      (binaryLevel parseF64 (operatorAt level) next fuel) := by
  intro p expr q hread
  obtain ⟨ts, hts, hreads⟩ := Cursor.levelLeft_sound h p expr q hread
  exact ⟨ts, (writesAt_iff_leftChain hlevel.1 hlevel.2).mpr hts, hreads⟩

theorem parseOr_sound (hternary : (cursor parseF64).Sound (WritesAt 1) ternary) :
    (cursor parseF64).Sound (WritesAt 2) (parseOr parseF64 ternary fuel) := by
  have hunary : (cursor parseF64).Sound (WritesAt 13) (parseUnary parseF64 ternary fuel) := by
    intro p expr q h
    obtain ⟨ts, hts, hread⟩ :=
      Cursor.levelPrefixed_sound (parsePrimary_sound hternary) p expr q h
    exact ⟨ts, writesAt_iff_prefixChain.mpr hts, hread⟩
  have hpower : (cursor parseF64).Sound (WritesAt 12) (parsePower parseF64 ternary fuel) := by
    intro p expr q h
    obtain ⟨ts, hts, hread⟩ := Cursor.levelRight_sound hunary p expr q h
    exact ⟨ts, writesAt_iff_rightChain.mpr hts, hread⟩
  have hmultiplicative := binaryLevel_sound 11 fuel (by decide) hpower
  have hadditive := binaryLevel_sound 10 fuel (by decide) hmultiplicative
  have hshift := binaryLevel_sound 9 fuel (by decide) hadditive
  have hcomparison := binaryLevel_sound 8 fuel (by decide) hshift
  have hequality := binaryLevel_sound 7 fuel (by decide) hcomparison
  have hbitand := binaryLevel_sound 6 fuel (by decide) hequality
  have hbitxor := binaryLevel_sound 5 fuel (by decide) hbitand
  have hbitor := binaryLevel_sound 4 fuel (by decide) hbitxor
  have hand := binaryLevel_sound 3 fuel (by decide) hbitor
  exact binaryLevel_sound 2 fuel (by decide) hand

theorem parseTernary_sound :
    (cursor parseF64).Sound (WritesAt 1) (parseTernary parseF64 fuel) := by
  induction fuel with
  | zero => exact fun p expr q h => absurd h throw_ne_ok
  | succ fuel ih =>
    intro p expr q h
    obtain ⟨cond, p₁, hcond, h⟩ := bind_eq_ok.mp h
    obtain ⟨ts, hts, hread⟩ := parseOr_sound ih p cond p₁ hcond
    unfold parseBranches at h
    split at h
    · next hlook =>
      obtain ⟨_, p₂, hstep, h⟩ := bind_eq_ok.mp h
      obtain ⟨thenExpr, p₃, hthen, h⟩ := bind_eq_ok.mp h
      obtain ⟨_, p₄, hcolon, h⟩ := bind_eq_ok.mp h
      obtain ⟨elseExpr, p₅, helse, h⟩ := bind_eq_ok.mp h
      obtain ⟨rfl, rfl⟩ := pure_eq_ok.mp h
      obtain ⟨hmark, hafter⟩ := expect_eq_ok.mp hcolon
      obtain ⟨us, hus, hreadThen⟩ := ih p₂ thenExpr p₃ hthen
      obtain ⟨vs, hvs, hreadElse⟩ := ih p₄ elseExpr p₅ helse
      have hbranches := hreadThen.append (reads_cons (isColon_eq hmark) hafter hreadElse)
      exact ⟨_, .ternary hts hus hvs, hread.append (reads_cons hlook hstep hbranches)⟩
    · cases h
      exact ⟨ts, .tighter (by decide) hts, hread⟩

end Soundness

/-- A token that continues no expression of the level. -/
def Stops (level : Nat) (t : Token) : Prop :=
  t ≠ .lParen ∧ (∀ op : BinaryOp, op.token = t → op.level < level) ∧ (t = .question → 1 < level)

theorem Stops.mono {level tighter : Nat} (h : Stops level t) (hle : level ≤ tighter) :
    Stops tighter t :=
  ⟨h.1, fun op hop => (h.2.1 op hop).trans_le hle, fun hq => (h.2.2 hq).trans_le hle⟩

theorem Stops.operatorAt_eq_none {level : Nat} (h : Stops level t) :
    operatorAt level t = none := by
  cases hop : operatorAt level t with
  | none => rfl
  | some op =>
    obtain ⟨htoken, hlevel⟩ := operatorAt_eq_some hop
    have hlt := h.2.1 op htoken
    omega

theorem stops_operator {level : Nat} {t : Token} {op : BinaryOp}
    (h : operatorAt level t = some op) : Stops (level + 1) t ∧ t ≠ .end := by
  obtain ⟨rfl, rfl⟩ := operatorAt_eq_some h
  refine ⟨⟨?_, ?_, ?_⟩, op.token_plain.2.2⟩
  · cases op <;> exact nofun
  · intro other hother
    have hlevel : other.level = op.level := by
      cases op
      all_goals cases other <;> first | rfl | cases hother
    omega
  · cases op <;> exact nofun

section Completeness

variable {parseF64 : Text → Option Float} {ternary : Parses AstNode} {n fuel : Nat}

theorem reads_step {r : Parser} (h : (cursor parseF64).Reads p (t :: ts) r) :
    ∃ q, p.lookahead = t ∧ (cursor parseF64).step p = .ok ((), q) ∧
      (cursor parseF64).Reads q ts r := by
  obtain ⟨q, hlook, hstep, hread⟩ := h.step
  exact ⟨q, hlook, Cursor.step_eq_ok.mpr hstep, hread⟩

theorem size_step (hlive : p.lookahead ≠ .end)
    (h : (cursor parseF64).step p = .ok ((), q)) : q.size < p.size :=
  Parser.size_advance_lt hlive (Cursor.step_eq_ok.mp h)

theorem size_reads (h : (cursor parseF64).Reads p ts q) : q.size ≤ p.size :=
  h.size_le

theorem stops_separator (h : t = .comma ∨ t = .rParen ∨ t = .colon ∨ t = .end) :
    Stops 1 t := by
  rcases h with rfl | rfl | rfl | rfl
  all_goals exact ⟨nofun, fun op hop => (by cases op <;> cases hop), nofun⟩

theorem parseArgs_complete
    (hternary : (cursor parseF64).Complete (WritesAt 1) (Stops 1) n ternary) (hfuel : n ≤ fuel)
    (h : Writes (.args args) ts)
    (hread : (cursor parseF64).Reads p ts q) (hq : q.lookahead = .rParen) (hp : p.size < n) :
    parseArgs parseF64 ternary fuel p = .ok (args, q) := by
  by_cases hne : args = []
  · subst hne
    obtain rfl : ts = [] := by
      rcases h.sealed with ⟨-, rfl⟩ | ⟨hnot, -⟩
      · rfl
      · exact absurd rfl hnot
    cases hread
    simp only [parseArgs, hq]
  · have hchain : (cursor parseF64).Complete ArgsChain
        (fun t => Stops 1 t ∧ commaOperator t = none) n
        ((cursor parseF64).levelLeft .outOfFuel commaOperator (fun _ args more => args ++ more)
          (do
            let arg ← ternary
            pure [arg]) fuel) := by
      refine Cursor.levelLeft_complete ?_ ?_ hfuel
      · rintro args ts p q ⟨arg, rfl, hts⟩ hread hq hp
        exact bind_ok (hternary arg ts p q hts hread hq hp)
      · intro t op hop
        obtain rfl := commaOperator_eq_some hop
        exact ⟨stops_separator (.inl rfl), nofun⟩
    have hlevel := hchain args ts p q (argsChain_of_writes h hne) hread
      (by
        change Stops 1 q.lookahead ∧ commaOperator q.lookahead = none
        rw [hq]
        exact ⟨stops_separator (.inr (.inl rfl)), rfl⟩) hp
    have hlook : p.lookahead ≠ .rParen := by
      obtain ⟨t, rest, rfl, hopens⟩ :=
        (h.sealed.resolve_left fun hnil => hne (Phrase.args.inj hnil.1)).2.opens
      obtain ⟨_, rfl, -, -⟩ := reads_step hread
      rintro hparen
      rw [hparen] at hopens
      exact absurd hopens (by decide)
    unfold parseArgs
    split
    · next heq => exact absurd heq hlook
    · exact hlevel

theorem expect_ok
    (hwanted : wanted p.lookahead = true) (h : (cursor parseF64).step p = .ok ((), q)) :
    expect parseF64 wanted msg p = .ok ((), q) :=
  expect_eq_ok.mpr ⟨hwanted, h⟩

theorem parseCall_variable (hp : p.lookahead ≠ .lParen) :
    parseCall parseF64 ternary fuel name p = .ok (.variable name, p) := by
  unfold parseCall
  split
  · next hlook => exact absurd hlook hp
  · rfl

theorem parseCall_fnCall (hp : p.lookahead = .lParen) :
    parseCall parseF64 ternary fuel name p =
      (do
        (cursor parseF64).step
        let args ← parseArgs parseF64 ternary fuel
        expect parseF64 isRParen "expected ')' after function arguments"
        pure (AstNode.fnCall name args)) p := by
  simp only [parseCall, hp]

theorem parsePrimary_complete
    (hternary : (cursor parseF64).Complete (WritesAt 1) (Stops 1) n ternary) (hfuel : n ≤ fuel) :
    (cursor parseF64).Complete (WritesAt 14) (Stops 14) (n + 1)
      (parsePrimary parseF64 ternary fuel) := by
  intro expr ts p q h hread hq hp
  replace hp : p.size < n + 1 := hp
  unfold WritesAt at h
  generalize hphrase : Phrase.node 14 expr = phrase at h
  cases h with
  | int value =>
    obtain ⟨-, rfl⟩ := Phrase.node.inj hphrase
    obtain ⟨p₁, hlook, hstep, hread⟩ := reads_step hread
    cases hread
    simp only [parsePrimary, hlook]
    exact bind_ok hstep
  | float value =>
    obtain ⟨-, rfl⟩ := Phrase.node.inj hphrase
    obtain ⟨p₁, hlook, hstep, hread⟩ := reads_step hread
    cases hread
    simp only [parsePrimary, hlook]
    exact bind_ok hstep
  | «variable» name =>
    obtain ⟨-, rfl⟩ := Phrase.node.inj hphrase
    obtain ⟨p₁, hlook, hstep, hread⟩ := reads_step hread
    cases hread
    simp only [parsePrimary, hlook]
    rw [bind_ok hstep]
    exact parseCall_variable hq.1
  | fnCall name hargs =>
    obtain ⟨-, rfl⟩ := Phrase.node.inj hphrase
    obtain ⟨p₁, hlook, hstep, hread⟩ := reads_step hread
    obtain ⟨p₂, hparen, hopen, hread⟩ := reads_step hread
    obtain ⟨p₃, hreadArgs, hread⟩ := hread.split
    obtain ⟨p₄, hclose, hlast, hread⟩ := reads_step hread
    cases hread
    have hlt := size_step (by rw [hlook]; exact nofun) hstep
    have hlt₂ := size_step (by rw [hparen]; exact nofun) hopen
    simp only [parsePrimary, hlook]
    rw [bind_ok hstep, parseCall_fnCall hparen, bind_ok hopen,
      bind_ok (parseArgs_complete hternary hfuel hargs hreadArgs hclose (by omega)),
      bind_ok (expect_ok (by rw [hclose]; rfl) hlast)]
    rfl
  | brackets hexpr =>
    obtain ⟨-, rfl⟩ := Phrase.node.inj hphrase
    obtain ⟨p₁, hlook, hstep, hread⟩ := reads_step hread
    obtain ⟨p₂, hreadExpr, hread⟩ := hread.split
    obtain ⟨p₃, hclose, hlast, hread⟩ := reads_step hread
    cases hread
    have hlt := size_step (by rw [hlook]; exact nofun) hstep
    have hstop : Stops 1 p₂.lookahead := by
      rw [hclose]
      exact stops_separator (.inr (.inl rfl))
    simp only [parsePrimary, hlook]
    rw [bind_ok hstep,
      bind_ok (hternary expr _ p₁ p₂ hexpr hreadExpr hstop (show p₁.size < n by omega)),
      bind_ok (expect_ok (by rw [hclose]; rfl) hlast)]
    rfl
  | tighter hlevel =>
    obtain ⟨rfl, -⟩ := Phrase.node.inj hphrase
    omega
  | binary op =>
    obtain ⟨hlevel, -⟩ := Phrase.node.inj hphrase
    have hbounds := op.level_bounds
    omega
  | unary | ternary =>
    obtain ⟨hlevel, -⟩ := Phrase.node.inj hphrase
    omega
  | noArgs | firstArg | moreArgs => cases hphrase

theorem binaryLevel_complete (level : Nat) (hlevel : 2 ≤ level ∧ level ≤ 11) (hfuel : n ≤ fuel)
    (h : (cursor parseF64).Complete (WritesAt (level + 1)) (Stops (level + 1)) n next) :
    (cursor parseF64).Complete (WritesAt level) (Stops level) n
      (binaryLevel parseF64 (operatorAt level) next fuel) := by
  intro expr ts p q hexpr hread hq hp
  refine Cursor.levelLeft_complete h (fun t op hop => stops_operator hop) hfuel expr ts p q
    ((writesAt_iff_leftChain hlevel.1 hlevel.2).mp hexpr) hread ?_ hp
  exact ⟨hq.mono (by omega), hq.operatorAt_eq_none⟩

theorem not_writesAt_nil {level : Nat} : ¬ WritesAt level expr [] := by
  intro h
  obtain ⟨t, rest, heq, -⟩ := h.sealed_node.opens
  cases heq

theorem primary_head
    (h : WritesAt 14 expr (t :: ts)) : unaryOperator t = none := by
  unfold WritesAt at h
  generalize hphrase : Phrase.node 14 expr = phrase at h
  generalize htokens : t :: ts = tokens at h
  cases h with
  | int | float | «variable» | fnCall | brackets =>
    obtain ⟨rfl, -⟩ := List.cons.inj htokens
    rfl
  | tighter hlevel =>
    obtain ⟨rfl, -⟩ := Phrase.node.inj hphrase
    omega
  | binary op =>
    obtain ⟨hlevel, -⟩ := Phrase.node.inj hphrase
    have hbounds := op.level_bounds
    omega
  | unary | ternary =>
    obtain ⟨hlevel, -⟩ := Phrase.node.inj hphrase
    omega
  | noArgs | firstArg | moreArgs => cases hphrase

theorem parseOr_complete
    (hternary : (cursor parseF64).Complete (WritesAt 1) (Stops 1) n ternary) (hfuel : n + 1 ≤ fuel) :
    (cursor parseF64).Complete (WritesAt 2) (Stops 2) (n + 1) (parseOr parseF64 ternary fuel) := by
  have hunary : (cursor parseF64).Complete (WritesAt 13) (Stops 13) (n + 1)
      (parseUnary parseF64 ternary fuel) := by
    intro expr ts p q hexpr hread hq hp
    exact Cursor.levelPrefixed_complete (parsePrimary_complete hternary (by omega))
      (fun t op hop => by rw [unaryOperator_eq_some hop]; cases op <;> exact nofun)
      (fun _ _ _ h => primary_head h) (fun _ => not_writesAt_nil) hfuel expr ts p q
      (writesAt_iff_prefixChain.mp hexpr) hread (hq.mono (by omega)) hp
  have hpower : (cursor parseF64).Complete (WritesAt 12) (Stops 12) (n + 1)
      (parsePower parseF64 ternary fuel) := by
    intro expr ts p q hexpr hread hq hp
    exact Cursor.levelRight_complete hunary (fun t op hop => @stops_operator 12 t op hop) hfuel
      expr ts p q (writesAt_iff_rightChain.mp hexpr) hread
      ⟨hq.mono (by omega), hq.operatorAt_eq_none⟩ hp
  have hmultiplicative := binaryLevel_complete 11 (by decide) hfuel hpower
  have hadditive := binaryLevel_complete 10 (by decide) hfuel hmultiplicative
  have hshift := binaryLevel_complete 9 (by decide) hfuel hadditive
  have hcomparison := binaryLevel_complete 8 (by decide) hfuel hshift
  have hequality := binaryLevel_complete 7 (by decide) hfuel hcomparison
  have hbitand := binaryLevel_complete 6 (by decide) hfuel hequality
  have hbitxor := binaryLevel_complete 5 (by decide) hfuel hbitand
  have hbitor := binaryLevel_complete 4 (by decide) hfuel hbitxor
  have hand := binaryLevel_complete 3 (by decide) hfuel hbitor
  exact binaryLevel_complete 2 (by decide) hfuel hand

theorem parseBranches_none {cond : AstNode} (hp : p.lookahead ≠ .question) :
    parseBranches parseF64 ternary cond p = .ok (cond, p) := by
  unfold parseBranches
  split
  · next hlook => exact absurd hlook hp
  · rfl

theorem parseTernary_complete :
    (cursor parseF64).Complete (WritesAt 1) (Stops 1) fuel (parseTernary parseF64 fuel) := by
  induction fuel with
  | zero => exact fun _ _ _ _ _ _ _ hp => absurd hp (by omega)
  | succ fuel ih =>
    intro expr ts p q h hread hq hp
    have hor := parseOr_complete ih le_rfl
    rcases writesAt_ternary h with hcond | ⟨cond, thenExpr, elseExpr, us, vs, ws, rfl, rfl, hcond,
      hthen, helse⟩
    · rw [parseTernary, bind_ok (hor expr ts p q hcond hread (hq.mono (by omega)) hp)]
      exact parseBranches_none fun hquestion => absurd (hq.2.2 hquestion) (by omega)
    · obtain ⟨p₁, hreadCond, hread⟩ := hread.split
      obtain ⟨p₂, hlook, hstep, hread⟩ := reads_step hread
      obtain ⟨p₃, hreadThen, hread⟩ := hread.split
      obtain ⟨p₄, hcolon, hafter, hreadElse⟩ := reads_step hread
      have hlt := size_step (by rw [hlook]; exact nofun) hstep
      have hlt₂ := size_step (by rw [hcolon]; exact nofun) hafter
      have hle := size_reads hreadCond
      have hle₂ := size_reads hreadThen
      replace hp : p.size < fuel + 1 := hp
      have hstopCond : Stops 2 p₁.lookahead := by
        rw [hlook]
        exact ⟨nofun, fun op hop => (by cases op <;> cases hop), fun _ => by omega⟩
      have hstopThen : Stops 1 p₃.lookahead := by
        rw [hcolon]
        exact stops_separator (.inr (.inr (.inl rfl)))
      rw [parseTernary, bind_ok (hor cond us p p₁ hcond hreadCond hstopCond hp)]
      simp only [parseBranches, hlook]
      rw [bind_ok hstep,
        bind_ok (ih thenExpr vs p₂ p₃ hthen hreadThen hstopThen (show p₂.size < fuel by omega)),
        bind_ok (expect_ok (by rw [hcolon]; rfl) hafter),
        bind_ok (ih elseExpr ws p₄ q helse hreadElse hq (show p₄.size < fuel by omega))]
      rfl

end Completeness

section Ends

variable {parseF64 : Text → Option Float} {ternary : Parses AstNode} {n fuel : Nat}

theorem cursor_honest : (cursor parseF64).Honest .outOfFuel := by
  intro p h
  change Parser.ahead parseF64 p.lexer = _ at h
  unfold Parser.ahead at h
  split at h
  · cases h
  · cases h

theorem step_spent : (cursor parseF64).step p ≠ .error .outOfFuel :=
  fun h => cursor_honest p (Cursor.step_eq_error.mp h)

theorem expect_spent :
    expect parseF64 wanted msg p ≠ .error .outOfFuel := by
  rw [expect]
  cases wanted p.lookahead with
  | true => exact step_spent
  | false => exact nofun

theorem size_expect {u : Unit}
    (hwanted : wanted .end = false) (h : expect parseF64 wanted msg p = .ok (u, q)) :
    q.size < p.size := by
  obtain ⟨hlook, hstep⟩ := expect_eq_ok.mp h
  refine size_step (fun hend => ?_) hstep
  rw [hend, hwanted] at hlook
  cases hlook

theorem parseArgs_ends (hternary : (cursor parseF64).Ends .outOfFuel n ternary) (hfuel : n ≤ fuel)
    (hp : p.size < n) :
    parseArgs parseF64 ternary fuel p ≠ .error .outOfFuel ∧
      ∀ args q, parseArgs parseF64 ternary fuel p = .ok (args, q) → q.size ≤ p.size := by
  have hsingle : (cursor parseF64).Ends .outOfFuel n (do
      let arg ← ternary
      pure [arg]) := by
    intro p hp
    obtain ⟨hspent, hsize⟩ := hternary p hp
    constructor
    · intro h
      rcases bind_eq_error.mp h with h | ⟨arg, q, -, h⟩
      · exact hspent h
      · exact pure_ne_error h
    · intro args q h
      obtain ⟨arg, p₁, harg, h⟩ := bind_eq_ok.mp h
      obtain ⟨-, rfl⟩ := pure_eq_ok.mp h
      exact hsize arg p₁ harg
  have hchain := @Cursor.levelLeft_ends _ _ _ _ _ (cursor parseF64) .outOfFuel commaOperator
    (fun _ args more => args ++ more) _ n fuel cursor_honest hsingle (fun t op hop => by
      rw [commaOperator_eq_some hop]
      exact nofun) hfuel p hp
  unfold parseArgs
  split
  · refine ⟨nofun, fun args q h => ?_⟩
    cases h
    exact le_rfl
  · exact ⟨hchain.1, fun args q h => (hchain.2 args q h).le⟩

theorem parseCall_ends (hternary : (cursor parseF64).Ends .outOfFuel n ternary) (hfuel : n ≤ fuel)
    (hp : p.size ≤ n) :
    parseCall parseF64 ternary fuel name p ≠ .error .outOfFuel ∧
      ∀ expr q, parseCall parseF64 ternary fuel name p = .ok (expr, q) → q.size ≤ p.size := by
  by_cases hlook : p.lookahead = .lParen
  · rw [parseCall_fnCall hlook]
    have hnext : ∀ q, (cursor parseF64).step p = .ok ((), q) → q.size < p.size :=
      fun q hq => size_step (by rw [hlook]; exact nofun) hq
    constructor
    · intro h
      rcases bind_eq_error.mp h with h | ⟨_, p₁, hstep, h⟩
      · exact step_spent h
      have hlt := hnext p₁ hstep
      have hargs := parseArgs_ends hternary hfuel (show p₁.size < n by omega)
      rcases bind_eq_error.mp h with h | ⟨args, p₂, -, h⟩
      · exact hargs.1 h
      rcases bind_eq_error.mp h with h | ⟨_, p₃, -, h⟩
      · exact expect_spent h
      · exact pure_ne_error h
    · intro expr q h
      obtain ⟨_, p₁, hstep, h⟩ := bind_eq_ok.mp h
      obtain ⟨args, p₂, hargs, h⟩ := bind_eq_ok.mp h
      obtain ⟨_, p₃, hclose, h⟩ := bind_eq_ok.mp h
      obtain ⟨-, rfl⟩ := pure_eq_ok.mp h
      have hlt := hnext p₁ hstep
      have hle := (parseArgs_ends hternary hfuel (show p₁.size < n by omega)).2 args p₂ hargs
      have hlt₂ := size_expect rfl hclose
      omega
  · rw [parseCall_variable hlook]
    refine ⟨nofun, fun expr q h => ?_⟩
    cases h
    exact le_rfl

theorem parsePrimary_ends (hternary : (cursor parseF64).Ends .outOfFuel n ternary)
    (hfuel : n ≤ fuel) :
    (cursor parseF64).Ends .outOfFuel (n + 1) (parsePrimary parseF64 ternary fuel) := by
  intro p hp
  replace hp : p.size < n + 1 := hp
  change _ ∧ ∀ (a : AstNode) (q : Parser), _ → q.size < p.size
  have hnext : p.lookahead ≠ .end → ∀ q, (cursor parseF64).step p = .ok ((), q) → q.size < p.size :=
    fun hlive q hq => size_step hlive hq
  have hliteral : p.lookahead ≠ .end → ∀ expr : AstNode, (do
      (cursor parseF64).step
      pure expr : Parses AstNode) p ≠ .error .outOfFuel ∧ ∀ a q, (do
      (cursor parseF64).step
      pure expr : Parses AstNode) p = .ok (a, q) → q.size < p.size := by
    intro hlive expr
    constructor
    · intro h
      rcases bind_eq_error.mp h with h | ⟨_, p₁, -, h⟩
      · exact step_spent h
      · exact pure_ne_error h
    · intro a q h
      obtain ⟨_, p₁, hstep, h⟩ := bind_eq_ok.mp h
      obtain ⟨-, rfl⟩ := pure_eq_ok.mp h
      exact hnext hlive p₁ hstep
  unfold parsePrimary
  split
  · next hlook => exact hliteral (by rw [hlook]; exact nofun) _
  · next hlook => exact hliteral (by rw [hlook]; exact nofun) _
  · next name hlook =>
    have hlive : p.lookahead ≠ .end := by rw [hlook]; exact nofun
    constructor
    · intro h
      rcases bind_eq_error.mp h with h | ⟨_, p₁, hstep, h⟩
      · exact step_spent h
      · have hlt := hnext hlive p₁ hstep
        exact (parseCall_ends hternary hfuel (show p₁.size ≤ n by omega)).1 h
    · intro expr q h
      obtain ⟨_, p₁, hstep, h⟩ := bind_eq_ok.mp h
      have hlt := hnext hlive p₁ hstep
      have hle := (parseCall_ends hternary hfuel (show p₁.size ≤ n by omega)).2 expr q h
      omega
  · next hlook =>
    have hlive : p.lookahead ≠ .end := by rw [hlook]; exact nofun
    constructor
    · intro h
      rcases bind_eq_error.mp h with h | ⟨_, p₁, hstep, h⟩
      · exact step_spent h
      have hlt := hnext hlive p₁ hstep
      have hends := hternary p₁ (show p₁.size < n by omega)
      rcases bind_eq_error.mp h with h | ⟨expr, p₂, -, h⟩
      · exact hends.1 h
      rcases bind_eq_error.mp h with h | ⟨_, p₃, -, h⟩
      · exact expect_spent h
      · exact pure_ne_error h
    · intro a q h
      obtain ⟨_, p₁, hstep, h⟩ := bind_eq_ok.mp h
      obtain ⟨expr, p₂, hexpr, h⟩ := bind_eq_ok.mp h
      obtain ⟨_, p₃, hclose, h⟩ := bind_eq_ok.mp h
      obtain ⟨-, rfl⟩ := pure_eq_ok.mp h
      have hlt := hnext hlive p₁ hstep
      have hlt₂ : p₂.size < p₁.size :=
        (hternary p₁ (show p₁.size < n by omega)).2 expr p₂ hexpr
      have hlt₃ := size_expect rfl hclose
      omega
  · exact ⟨nofun, nofun⟩
  · exact ⟨nofun, nofun⟩

theorem binaryLevel_ends (level : Nat) (hfuel : n ≤ fuel)
    (h : (cursor parseF64).Ends .outOfFuel n next) :
    (cursor parseF64).Ends .outOfFuel n (binaryLevel parseF64 (operatorAt level) next fuel) :=
  Cursor.levelLeft_ends cursor_honest h (fun _ _ hop => (stops_operator hop).2) hfuel

theorem parseOr_ends (hternary : (cursor parseF64).Ends .outOfFuel n ternary)
    (hfuel : n + 1 ≤ fuel) :
    (cursor parseF64).Ends .outOfFuel (n + 1) (parseOr parseF64 ternary fuel) := by
  have hunary : (cursor parseF64).Ends .outOfFuel (n + 1) (parseUnary parseF64 ternary fuel) :=
    Cursor.levelPrefixed_ends cursor_honest (parsePrimary_ends hternary (by omega))
      (fun t op hop => by rw [unaryOperator_eq_some hop]; cases op <;> exact nofun) hfuel
  have hpower : (cursor parseF64).Ends .outOfFuel (n + 1) (parsePower parseF64 ternary fuel) :=
    Cursor.levelRight_ends cursor_honest hunary (fun _ _ hop => (@stops_operator 12 _ _ hop).2) hfuel
  have hmultiplicative := binaryLevel_ends 11 hfuel hpower
  have hadditive := binaryLevel_ends 10 hfuel hmultiplicative
  have hshift := binaryLevel_ends 9 hfuel hadditive
  have hcomparison := binaryLevel_ends 8 hfuel hshift
  have hequality := binaryLevel_ends 7 hfuel hcomparison
  have hbitand := binaryLevel_ends 6 hfuel hequality
  have hbitxor := binaryLevel_ends 5 hfuel hbitand
  have hbitor := binaryLevel_ends 4 hfuel hbitxor
  have hand := binaryLevel_ends 3 hfuel hbitor
  exact binaryLevel_ends 2 hfuel hand

theorem parseTernary_ends : (cursor parseF64).Ends .outOfFuel fuel (parseTernary parseF64 fuel) := by
  induction fuel with
  | zero => exact fun _ hp => absurd hp (by omega)
  | succ fuel ih =>
    intro p hp
    obtain ⟨hspent, hsize⟩ := parseOr_ends ih le_rfl p hp
    replace hp : p.size < fuel + 1 := hp
    replace hsize : ∀ a q, parseOr parseF64 (parseTernary parseF64 fuel) (fuel + 1) p = .ok (a, q) →
        q.size < p.size := hsize
    change _ ∧ ∀ (a : AstNode) (q : Parser), _ → q.size < p.size
    constructor
    · intro h
      rcases bind_eq_error.mp h with h | ⟨cond, p₁, hcond, h⟩
      · exact hspent h
      have hlt := hsize cond p₁ hcond
      unfold parseBranches at h
      split at h
      · next hlook =>
        rcases bind_eq_error.mp h with h | ⟨_, p₂, hstep, h⟩
        · exact step_spent h
        have hlt₂ := size_step (by rw [hlook]; exact nofun) hstep
        have hthen := ih p₂ (show p₂.size < fuel by omega)
        rcases bind_eq_error.mp h with h | ⟨thenExpr, p₃, hp₃, h⟩
        · exact hthen.1 h
        have hlt₃ : p₃.size < p₂.size := hthen.2 thenExpr p₃ hp₃
        rcases bind_eq_error.mp h with h | ⟨_, p₄, hcolon, h⟩
        · exact expect_spent h
        have hlt₄ := size_expect rfl hcolon
        have helse := ih p₄ (show p₄.size < fuel by omega)
        rcases bind_eq_error.mp h with h | ⟨elseExpr, p₅, -, h⟩
        · exact helse.1 h
        · exact pure_ne_error h
      · cases h
    · intro expr q h
      obtain ⟨cond, p₁, hcond, h⟩ := bind_eq_ok.mp h
      have hlt := hsize cond p₁ hcond
      unfold parseBranches at h
      split at h
      · next hlook =>
        obtain ⟨_, p₂, hstep, h⟩ := bind_eq_ok.mp h
        obtain ⟨thenExpr, p₃, hthen, h⟩ := bind_eq_ok.mp h
        obtain ⟨_, p₄, hcolon, h⟩ := bind_eq_ok.mp h
        obtain ⟨elseExpr, p₅, helse, h⟩ := bind_eq_ok.mp h
        obtain ⟨-, rfl⟩ := pure_eq_ok.mp h
        have hlt₂ := size_step (by rw [hlook]; exact nofun) hstep
        have hlt₃ : p₃.size < p₂.size := (ih p₂ (show p₂.size < fuel by omega)).2 thenExpr p₃ hthen
        have hlt₄ := size_expect rfl hcolon
        have hlt₅ : p₅.size < p₄.size := (ih p₄ (show p₄.size < fuel by omega)).2 elseExpr p₅ helse
        omega
      · cases h
        exact hlt

end Ends

end VivaGenicam.Genapi
