import VivaGenicam.Genapi.Spelling
import VivaGenicam.Library.Descent

/-!
The formula parser: one token of lookahead and fourteen levels of precedence, from the
ternary down to the primary expression that begins again in brackets.
-/

namespace VivaGenicam.Genapi

open GenapiXml Library.Descent

/-- `outOfFuel` bounds the recursion of the model; no text reaches it. -/
inductive ParseStop where
  | error (err : ParseError)
  | outOfFuel

/-- `pos` is where the lookahead ends, as it is taken after the token is read. -/
structure Parser where
  lexer : Lexer
  lookahead : Token
  pos : Nat

abbrev Parses (α : Type) := Parse Parser ParseStop α

/-- As `{:?}` writes the tokens that begin no expression. -/
def Token.debug : Token → String
  | .star => "Star"
  | .slash => "Slash"
  | .percent => "Percent"
  | .starStar => "StarStar"
  | .lt => "Lt"
  | .le => "Le"
  | .gt => "Gt"
  | .ge => "Ge"
  | .eq => "Eq"
  | .ne => "Ne"
  | .ampAmp => "AmpAmp"
  | .pipePipe => "PipePipe"
  | .amp => "Amp"
  | .pipe => "Pipe"
  | .caret => "Caret"
  | .ltLt => "LtLt"
  | .gtGt => "GtGt"
  | .question => "Question"
  | .colon => "Colon"
  | .rParen => "RParen"
  | .comma => "Comma"
  | .plus => "Plus"
  | .minus => "Minus"
  | .bang => "Bang"
  | .tilde => "Tilde"
  | .lParen => "LParen"
  | .int _ => "Int"
  | .float _ => "Float"
  | .ident _ => "Ident"
  | .end => "End"

namespace Parser

variable (parseF64 : Text → Option Float)

/-- A parser whose lookahead is the next token of the lexer. -/
def ahead (lexer : Lexer) : Except ParseStop Parser :=
  match lexer.nextToken parseF64 with
  | .ok (token, lexer) => .ok ⟨lexer, token, lexer.pos⟩
  | .error err => .error (.error err)

def new (input : Text) : Except ParseStop Parser := ahead parseF64 ⟨asBytes input, 0⟩

def advance (parser : Parser) : Except ParseStop Parser := ahead parseF64 parser.lexer

/-- Bytes left, and the token already taken from them. -/
def size (parser : Parser) : Nat :=
  parser.lexer.rest.length +
    match parser.lookahead with
    | .end => 0
    | _ => 1

variable {parseF64}

theorem ahead_eq_ok {lexer : Lexer} {parser : Parser} :
    ahead parseF64 lexer = .ok parser ↔
      lexer.nextToken parseF64 = .ok (parser.lookahead, parser.lexer) ∧
        parser.pos = parser.lexer.pos := by
  obtain ⟨after, token, pos⟩ := parser
  rw [ahead]
  cases lexer.nextToken parseF64 with
  | error err => simp
  | ok found =>
    obtain ⟨token', lexer'⟩ := found
    simp only [Except.ok.injEq, Parser.mk.injEq, Prod.mk.injEq]
    constructor
    · rintro ⟨rfl, rfl, rfl⟩
      exact ⟨⟨rfl, rfl⟩, rfl⟩
    · rintro ⟨⟨rfl, rfl⟩, rfl⟩
      exact ⟨rfl, rfl, rfl⟩

theorem size_ahead_le {lexer : Lexer} {parser : Parser} (h : ahead parseF64 lexer = .ok parser) :
    parser.size ≤ lexer.rest.length := by
  obtain ⟨gap, -, ⟨hend, -, hrest⟩ | ⟨s, hne, hrest, -⟩⟩ := nextToken_sound (ahead_eq_ok.mp h).1
  · rw [size, hend, hrest]
    exact Nat.zero_le _
  · have hs := List.length_pos_iff.mpr hne
    rw [size, hrest]
    simp only [List.length_append]
    split
    · omega
    · omega

theorem size_advance_lt {p q : Parser} (hlive : p.lookahead ≠ .end)
    (h : p.advance parseF64 = .ok q) : q.size < p.size := by
  have hle := size_ahead_le h
  have hp : p.size = p.lexer.rest.length + 1 := by
    rw [size]
    cases hlook : p.lookahead with
    | «end» => exact absurd hlook hlive
    | _ => rfl
  omega

end Parser

section

variable (parseF64 : Text → Option Float)

def cursor : Cursor Parser Token ParseStop where
  head := Parser.lookahead
  advance := Parser.advance parseF64
  size := Parser.size
  Live token := token ≠ .end
  size_advance_le _ _ h := (Parser.size_ahead_le h).trans (Nat.le_add_right _ _)
  size_advance_lt _ _ hlive h := Parser.size_advance_lt hlive h

def orOperator : Token → Option BinaryOp
  | .pipePipe => some .or
  | _ => none

def andOperator : Token → Option BinaryOp
  | .ampAmp => some .and
  | _ => none

def bitorOperator : Token → Option BinaryOp
  | .pipe => some .bitOr
  | _ => none

def bitxorOperator : Token → Option BinaryOp
  | .caret => some .bitXor
  | _ => none

def bitandOperator : Token → Option BinaryOp
  | .amp => some .bitAnd
  | _ => none

def equalityOperator : Token → Option BinaryOp
  | .eq => some .eq
  | .ne => some .ne
  | _ => none

def comparisonOperator : Token → Option BinaryOp
  | .lt => some .lt
  | .le => some .le
  | .gt => some .gt
  | .ge => some .ge
  | _ => none

def shiftOperator : Token → Option BinaryOp
  | .ltLt => some .shl
  | .gtGt => some .shr
  | _ => none

def additiveOperator : Token → Option BinaryOp
  | .plus => some .add
  | .minus => some .sub
  | _ => none

def multiplicativeOperator : Token → Option BinaryOp
  | .star => some .mul
  | .slash => some .div
  | .percent => some .mod
  | _ => none

def powerOperator : Token → Option BinaryOp
  | .starStar => some .pow
  | _ => none

def unaryOperator : Token → Option UnaryOp
  | .plus => some .plus
  | .minus => some .minus
  | .bang => some .not
  | .tilde => some .bitNot
  | _ => none

def commaOperator : Token → Option Unit
  | .comma => some ()
  | _ => none

/-- A token that must stand here, or the error. -/
def expect (wanted : Token → Bool) (msg : String) : Parses Unit := fun p =>
  if wanted p.lookahead then (cursor parseF64).step p else .error (.error ⟨msg, p.pos⟩)

def isRParen : Token → Bool
  | .rParen => true
  | _ => false

def isColon : Token → Bool
  | .colon => true
  | _ => false

/-- `args.push` after each comma. -/
def parseArgs (ternary : Parses AstNode) (fuel : Nat) : Parses (List AstNode) := fun p =>
  match p.lookahead with
  | .rParen => .ok ([], p)
  | _ =>
    (cursor parseF64).levelLeft .outOfFuel commaOperator (fun _ args more => args ++ more)
      (do
        let arg ← ternary
        pure [arg]) fuel p

/-- An identifier is a call when a bracket follows. -/
def parseCall (ternary : Parses AstNode) (fuel : Nat) (name : Text) : Parses AstNode := fun p =>
  match p.lookahead with
  | .lParen =>
    (do
      (cursor parseF64).step
      let args ← parseArgs parseF64 ternary fuel
      expect parseF64 isRParen "expected ')' after function arguments"
      pure (AstNode.fnCall name args)) p
  | _ => .ok (.variable name, p)

def parsePrimary (ternary : Parses AstNode) (fuel : Nat) : Parses AstNode := fun p =>
  match p.lookahead with
  | .int value =>
    (do
      (cursor parseF64).step
      pure (AstNode.literal (.int value))) p
  | .float value =>
    (do
      (cursor parseF64).step
      pure (AstNode.literal (.float value))) p
  | .ident name =>
    (do
      (cursor parseF64).step
      parseCall parseF64 ternary fuel name) p
  | .lParen =>
    (do
      (cursor parseF64).step
      let expr ← ternary
      expect parseF64 isRParen "missing closing ')'"
      pure expr) p
  | .end => .error (.error ⟨"unexpected end of expression", p.pos⟩)
  | other => .error (.error ⟨"unexpected token " ++ other.debug, p.pos⟩)

def parseUnary (ternary : Parses AstNode) (fuel : Nat) : Parses AstNode :=
  (cursor parseF64).levelPrefixed .outOfFuel unaryOperator .unary
    (parsePrimary parseF64 ternary fuel) fuel

def parsePower (ternary : Parses AstNode) (fuel : Nat) : Parses AstNode :=
  (cursor parseF64).levelRight .outOfFuel powerOperator .binary
    (parseUnary parseF64 ternary fuel) fuel

/-- One left-associative level over the next. -/
def binaryLevel (operator : Token → Option BinaryOp) (next : Parses AstNode) (fuel : Nat) :
    Parses AstNode :=
  (cursor parseF64).levelLeft .outOfFuel operator .binary next fuel

def parseMultiplicative (ternary : Parses AstNode) (fuel : Nat) : Parses AstNode :=
  binaryLevel parseF64 multiplicativeOperator (parsePower parseF64 ternary fuel) fuel

def parseAdditive (ternary : Parses AstNode) (fuel : Nat) : Parses AstNode :=
  binaryLevel parseF64 additiveOperator (parseMultiplicative parseF64 ternary fuel) fuel

def parseShift (ternary : Parses AstNode) (fuel : Nat) : Parses AstNode :=
  binaryLevel parseF64 shiftOperator (parseAdditive parseF64 ternary fuel) fuel

def parseComparison (ternary : Parses AstNode) (fuel : Nat) : Parses AstNode :=
  binaryLevel parseF64 comparisonOperator (parseShift parseF64 ternary fuel) fuel

def parseEquality (ternary : Parses AstNode) (fuel : Nat) : Parses AstNode :=
  binaryLevel parseF64 equalityOperator (parseComparison parseF64 ternary fuel) fuel

def parseBitand (ternary : Parses AstNode) (fuel : Nat) : Parses AstNode :=
  binaryLevel parseF64 bitandOperator (parseEquality parseF64 ternary fuel) fuel

def parseBitxor (ternary : Parses AstNode) (fuel : Nat) : Parses AstNode :=
  binaryLevel parseF64 bitxorOperator (parseBitand parseF64 ternary fuel) fuel

def parseBitor (ternary : Parses AstNode) (fuel : Nat) : Parses AstNode :=
  binaryLevel parseF64 bitorOperator (parseBitxor parseF64 ternary fuel) fuel

def parseAnd (ternary : Parses AstNode) (fuel : Nat) : Parses AstNode :=
  binaryLevel parseF64 andOperator (parseBitor parseF64 ternary fuel) fuel

def parseOr (ternary : Parses AstNode) (fuel : Nat) : Parses AstNode :=
  binaryLevel parseF64 orOperator (parseAnd parseF64 ternary fuel) fuel

/-- The branches of a condition already read, when a question mark follows it. -/
def parseBranches (ternary : Parses AstNode) (cond : AstNode) : Parses AstNode := fun p =>
  match p.lookahead with
  | .question =>
    (do
      (cursor parseF64).step
      let thenExpr ← ternary
      expect parseF64 isColon "expected ':' in ternary expression"
      let elseExpr ← ternary
      pure (AstNode.ternary cond thenExpr elseExpr)) p
  | _ => .ok (cond, p)

def parseTernary : Nat → Parses AstNode
  | 0 => throw .outOfFuel
  | fuel + 1 => do
    let cond ← parseOr parseF64 (parseTernary fuel) (fuel + 1)
    parseBranches parseF64 (parseTernary fuel) cond

def Parser.finish (parser : Parser) (expr : AstNode) : Except ParseStop AstNode :=
  match parser.lookahead with
  | .end => .ok expr
  | _ => .error (.error ⟨"unexpected trailing tokens", parser.pos⟩)

def parseExpression (input : Text) : Except ParseStop AstNode := do
  let parser ← Parser.new parseF64 input
  let (expr, parser) ← parseTernary parseF64 (parser.size + 1) parser
  parser.finish expr

end

end VivaGenicam.Genapi
