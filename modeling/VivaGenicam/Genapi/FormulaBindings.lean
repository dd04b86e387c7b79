import VivaGenicam.Genapi.Configuration
import VivaGenicam.Genapi.Getters
import VivaGenicam.Genapi.IntegerFormulas
import VivaGenicam.Genapi.Parser
import Mathlib.Data.Char
import Mathlib.Data.List.Lex

/-!
The constants and expressions a formula names: they are substituted once, when
the node is built, and mean what `let` would make of them.
-/

namespace VivaGenicam.Genapi

open GenapiXml Library.Lines

mutual

/-- Replace variable references with sub-expressions. -/
def AstNode.substitute (bindings : List (Text × AstNode)) : AstNode → AstNode
  | .literal value => .literal value
  | .variable name => (bindings.lookup name).getD (.variable name)
  | .unary op expr => .unary op (expr.substitute bindings)
  | .binary op left right => .binary op (left.substitute bindings) (right.substitute bindings)
  | .ternary cond thenExpr elseExpr =>
    .ternary (cond.substitute bindings) (thenExpr.substitute bindings)
      (elseExpr.substitute bindings)
  | .fnCall name args => .fnCall name (substituteAll bindings args)

def substituteAll (bindings : List (Text × AstNode)) : List AstNode → List AstNode
  | [] => []
  | arg :: rest => arg.substitute bindings :: substituteAll bindings rest

end

mutual

/-- All variable identifiers referenced by the tree. -/
def AstNode.identifiers : AstNode → List Text
  | .literal _ => []
  | .variable name => [name]
  | .unary _ expr => expr.identifiers
  | .binary _ left right => left.identifiers ++ right.identifiers
  | .ternary cond thenExpr elseExpr =>
    cond.identifiers ++ thenExpr.identifiers ++ elseExpr.identifiers
  | .fnCall _ args => identifiersAll args

def identifiersAll : List AstNode → List Text
  | [] => []
  | arg :: rest => arg.identifiers ++ identifiersAll rest

end

/-- Why a formula's node is not built. -/
inductive FormulaError where
  | exprParse (name expr : Text) (source : ParseStop)
  | unknownVariable (name var : Text)
  | unknownVariableExtension (name var extension : Text)

/-- Constants and named expressions, in declaration order. -/
structure FormulaBindings where
  constants : List (Text × Text)
  expressions : List (Text × Text)

structure SwissKnifeDecl where
  name : Text
  nodeMeta : NodeMeta
  expr : Text
  /-- Identifiers and the nodes behind them. -/
  «variables» : List (Text × Text)
  output : SkOutput
  bindings : FormulaBindings
  predicates : PredicateRefs

/-- The text in front of the first `.` and the text behind it. -/
def splitQualified (ident : Text) : Option (Text × Text) := splitOnce '.' ident

/-- The extension behind a variable's name; the keyword in any case, the entry's
name exactly. -/
def VarAttr.parse (extension : Text) : Option VarAttr :=
  let (keyword, rest) :=
    match splitOnce '.' extension with
    | some (keyword, rest) => (keyword, some rest)
    | none => (extension, none)
  let keyword := toAsciiLower keyword
  match rest with
  | none =>
    if keyword = lit "value" then some .value
    else if keyword = lit "min" then some .min
    else if keyword = lit "max" then some .max
    else if keyword = lit "inc" then some .inc
    else none
  | some entryName =>
    if keyword = lit "entry" ∧ entryName ≠ [] ∧ '.' ∉ entryName then some (.entry entryName)
    else none

section

variable (parseF64 : Text → Option Float)

def parseFormula (node text : Text) : Except FormulaError AstNode :=
  (parseExpression parseF64 text).mapError (.exprParse node text)

/-- A formula's constants and named expressions as trees to substitute, the last
of a name first. An expression may refer to what was declared before it. -/
def formulaBindings (node : Text) (declared : FormulaBindings) :
    Except FormulaError (List (Text × AstNode)) := do
  let constants ← declared.constants.foldlM (fun bindings entry => do
    let value ← parseFormula parseF64 node entry.2
    pure ((entry.1, value) :: bindings)) []
  declared.expressions.foldlM (fun bindings entry => do
    let ast ← parseFormula parseF64 node entry.2
    pure ((entry.1, ast.substitute bindings) :: bindings)) constants

/-- A variable whose identifier carries an extension. -/
def qualifiedVar (node var extension provider : Text) : Except FormulaError FormulaVar :=
  match VarAttr.parse extension with
  | some attr => .ok { name := var, provider, attr }
  | none => .error (.unknownVariableExtension node var extension)

def declaredVar (node var provider : Text) : Except FormulaError FormulaVar :=
  match splitQualified var with
  | some (_, extension) => qualifiedVar node var extension provider
  | none => .ok { name := var, provider, attr := .value }

/-- The variable an identifier qualifies, if it is not declared as written. -/
def usedVar (node : Text) (declared : List (Text × Text)) (ident : Text) :
    Except FormulaError (Option FormulaVar) :=
  if declared.any fun entry => entry.1 = ident then .ok none
  else
    match splitQualified ident with
    | none => .ok none
    | some (base, extension) =>
      match declared.find? fun entry => entry.1 = base with
      | none => .ok none
      | some (_, provider) => (qualifiedVar node ident extension provider).map some

/-- The variables a formula reads, declared ones and ones that qualify them. -/
def formulaVars (node : Text) (declared : List (Text × Text)) (asts : List AstNode) :
    Except FormulaError (List FormulaVar) := do
  let vars ← declared.mapM fun entry => declaredVar node entry.1 entry.2
  let used := (identifiersAll asts).eraseDups.mergeSort fun a b => a ≤ b
  let qualified ← used.mapM (usedVar node declared)
  pure (vars ++ qualified.filterMap id)

/-- `build_node` of a SwissKnife. -/
def buildSwissknife (decl : SwissKnifeDecl) : Except FormulaError SkNode := do
  let ast ← parseFormula parseF64 decl.name decl.expr
  let bindings ← formulaBindings parseF64 decl.name decl.bindings
  let ast := ast.substitute bindings
  let vars ← formulaVars decl.name decl.«variables» [ast]
  let unknown := ast.identifiers.find? fun ident =>
    !(vars.any fun var => var.name = ident) && (builtinConstant ident).isNone
  match unknown with
  | some ident => .error (.unknownVariable decl.name ident)
  | none =>
    .ok {
      name := decl.name
      nodeMeta := decl.nodeMeta
      output := decl.output
      ast
      vars
      predicates := decl.predicates }

end

section

variable {σ : Type} (vars : Text → Eval σ Value) (mode : EvalMode)

/-- The environment with `name` bound to what `value` computes. -/
def bindName (env : Text → Eval σ Value) (name : Text) (value : Eval σ Value) :
    Text → Eval σ Value :=
  fun ident => if ident = name then value else env ident

/-- The constants, each bound to the value of its formula over the variables, and
then the expressions, each bound to the value of its formula in the environment
so far. -/
def letEnvironment (constants expressions : List (Text × AstNode)) : Text → Eval σ Value :=
  expressions.foldl (fun env entry => bindName env entry.1 (evaluate env mode entry.2))
    (constants.foldl (fun env entry => bindName env entry.1 (evaluate vars mode entry.2)) vars)

/-- The computation does not end with an unknown variable. -/
def NeverUnknown {α : Type} (computation : Eval σ α) : Prop :=
  ∀ s ident, ((computation.run).run s).1 ≠ .error (.unknownVariable ident)

/-- A name that has a value or is a built-in constant. -/
def Known (name : Text) : Prop := NeverUnknown (resolveName vars name)

end

section

variable {σ : Type} {vars : Text → Eval σ Value} {mode : EvalMode}

theorem neverUnknown_pure {α : Type} (a : α) : NeverUnknown (pure a : Eval σ α) := by
  intro s ident h
  cases h

theorem NeverUnknown.bind {α β : Type} {first : Eval σ α} {next : α → Eval σ β}
    (hfirst : NeverUnknown first) (hnext : ∀ a, NeverUnknown (next a)) :
    NeverUnknown (first >>= next) := by
  intro s ident
  simp only [ExceptT.run_bind, StateT.run_bind]
  have hhead := hfirst s ident
  generalize first.run.run s = outcome at hhead ⊢
  obtain ⟨result, s'⟩ := outcome
  cases result with
  | ok a => exact hnext a s' ident
  | error err =>
    intro h
    change (Except.error err : Except EvalError β) = .error (.unknownVariable ident) at h
    cases h
    exact hhead rfl

theorem neverUnknown_liftExcept {α : Type} {result : Except EvalError α}
    (h : ∀ ident, result ≠ .error (.unknownVariable ident)) :
    NeverUnknown (liftExcept result : Eval σ α) := by
  intro s ident
  cases result with
  | ok a => exact fun h => by cases h
  | error err =>
    intro herr
    cases herr
    exact h ident rfl

theorem evalBinary_known (op : BinaryOp) (lhs rhs : Value) (mode : EvalMode) (ident : Text) :
    evalBinary op lhs rhs mode ≠ .error (.unknownVariable ident) := by
  cases op with
  | div =>
    simp only [evalBinary]
    split
    · split <;> simp
    · split <;> simp
  | mod =>
    simp only [evalBinary]
    split <;> simp
  | pow =>
    simp only [evalBinary]
    split <;> simp
  | _ => simp [evalBinary]

theorem apply_known (function : Function) (args : List Value) (mode : EvalMode) (ident : Text) :
    function.apply mode args ≠ .error (.unknownVariable ident) := by
  fun_cases Function.apply mode function args
  all_goals first | exact evalBinary_known _ _ _ _ _ | simp

theorem evalFunction_known (name : Text) (args : List Value) (mode : EvalMode) (ident : Text) :
    evalFunction name args mode ≠ .error (.unknownVariable ident) := by
  unfold evalFunction
  split
  · simp
  · split
    · simp
    · exact apply_known _ _ _ _

mutual

theorem evaluate_neverUnknown (ast : AstNode) (h : ∀ name ∈ ast.identifiers, Known vars name) :
    NeverUnknown (evaluate vars mode ast) := by
  cases ast with
  | literal value => exact neverUnknown_pure value
  | «variable» name => exact h name (by simp [AstNode.identifiers])
  | unary op expr =>
    exact (evaluate_neverUnknown expr h).bind fun inner => neverUnknown_pure _
  | binary op left right =>
    simp only [AstNode.identifiers, List.mem_append] at h
    have hleft := evaluate_neverUnknown left fun name hname => h name (.inl hname)
    have hright := evaluate_neverUnknown right fun name hname => h name (.inr hname)
    by_cases hand : op = .and
    · subst hand
      refine hleft.bind fun lhs => ?_
      split
      · exact neverUnknown_pure _
      · exact hright.bind fun rhs => neverUnknown_pure _
    by_cases hor : op = .or
    · subst hor
      refine hleft.bind fun lhs => ?_
      split
      · exact neverUnknown_pure _
      · exact hright.bind fun rhs => neverUnknown_pure _
    rw [evaluate_binary hand hor]
    exact hleft.bind fun lhs => hright.bind fun rhs =>
      neverUnknown_liftExcept (evalBinary_known op lhs rhs mode)
  | ternary cond thenExpr elseExpr =>
    simp only [AstNode.identifiers, List.mem_append] at h
    have hcond := evaluate_neverUnknown cond fun name hname => h name (.inl (.inl hname))
    have hthen := evaluate_neverUnknown thenExpr fun name hname => h name (.inl (.inr hname))
    have helse := evaluate_neverUnknown elseExpr fun name hname => h name (.inr hname)
    refine hcond.bind fun value => ?_
    split
    · exact hthen
    · exact helse
  | fnCall name args =>
    exact (evaluateAll_neverUnknown args h).bind fun values =>
      neverUnknown_liftExcept (evalFunction_known name values mode)

theorem evaluateAll_neverUnknown (args : List AstNode)
    (h : ∀ name ∈ identifiersAll args, Known vars name) :
    NeverUnknown (evaluateAll vars mode args) := by
  cases args with
  | nil => exact neverUnknown_pure _
  | cons arg rest =>
    simp only [identifiersAll, List.mem_append] at h
    have harg := evaluate_neverUnknown arg fun name hname => h name (.inl hname)
    have hrest := evaluateAll_neverUnknown rest fun name hname => h name (.inr hname)
    exact harg.bind fun value => hrest.bind fun values => neverUnknown_pure _

end

variable {env : Text → Eval σ Value}

theorem resolveName_of_neverUnknown {name : Text}
    (h : NeverUnknown (env name)) : resolveName env name = env name := by
  refine ExceptT.ext (StateT.ext fun s => ?_)
  have hknown := h s
  simp only [resolveName, ExceptT.run_mk, StateT.run_bind]
  generalize (env name).run.run s = outcome at hknown ⊢
  obtain ⟨result, s'⟩ := outcome
  cases result with
  | ok value => rfl
  | error err =>
    cases err with
    | unknownVariable ident => exact absurd rfl (hknown ident)
    | _ => rfl

/-- The environment has what the bindings stand for, as far as that is known. -/
def Agrees (vars : Text → Eval σ Value) (mode : EvalMode) (bindings : List (Text × AstNode))
    (env : Text → Eval σ Value) : Prop :=
  ∀ name,
    (bindings.lookup name = none → env name = vars name) ∧
      ∀ ast, bindings.lookup name = some ast → (∀ ident ∈ ast.identifiers, Known vars ident) →
        env name = evaluate vars mode ast

theorem resolveName_congr {name : Text} (h : env name = vars name) :
    resolveName env name = resolveName vars name := by
  rw [resolveName, resolveName, h]

mutual

theorem evaluate_substitute {bindings : List (Text × AstNode)} {env : Text → Eval σ Value}
    (hagrees : Agrees vars mode bindings env) (ast : AstNode)
    (h : ∀ name ∈ (ast.substitute bindings).identifiers, Known vars name) :
    evaluate vars mode (ast.substitute bindings) = evaluate env mode ast := by
  cases ast with
  | literal value => rfl
  | «variable» name =>
    cases hlookup : bindings.lookup name with
    | none =>
      simp only [AstNode.substitute, hlookup, Option.getD_none]
      exact (resolveName_congr ((hagrees name).1 hlookup)).symm
    | some replacement =>
      simp only [AstNode.substitute, hlookup, Option.getD_some] at h ⊢
      have henv := (hagrees name).2 replacement hlookup h
      have hnever : NeverUnknown (env name) := by
        rw [henv]
        exact evaluate_neverUnknown replacement h
      exact henv.symm.trans (resolveName_of_neverUnknown hnever).symm
  | unary op expr =>
    have hexpr := evaluate_substitute hagrees expr h
    simp only [AstNode.substitute, evaluate, hexpr]
  | binary op left right =>
    simp only [AstNode.substitute, AstNode.identifiers, List.mem_append] at h
    have hleft := evaluate_substitute hagrees left fun name hname => h name (.inl hname)
    have hright := evaluate_substitute hagrees right fun name hname => h name (.inr hname)
    by_cases hand : op = .and
    · subst hand
      simp only [AstNode.substitute, evaluate, hleft, hright]
    by_cases hor : op = .or
    · subst hor
      simp only [AstNode.substitute, evaluate, hleft, hright]
    simp only [AstNode.substitute, evaluate_binary hand hor, hleft, hright]
  | ternary cond thenExpr elseExpr =>
    simp only [AstNode.substitute, AstNode.identifiers, List.mem_append] at h
    have hcond := evaluate_substitute hagrees cond fun name hname => h name (.inl (.inl hname))
    have hthen := evaluate_substitute hagrees thenExpr fun name hname =>
      h name (.inl (.inr hname))
    have helse := evaluate_substitute hagrees elseExpr fun name hname => h name (.inr hname)
    simp only [AstNode.substitute, evaluate, hcond, hthen, helse]
  | fnCall name args =>
    have hargs := evaluateAll_substitute hagrees args h
    simp only [AstNode.substitute, evaluate, hargs]

theorem evaluateAll_substitute {bindings : List (Text × AstNode)} {env : Text → Eval σ Value}
    (hagrees : Agrees vars mode bindings env) (args : List AstNode)
    (h : ∀ name ∈ identifiersAll (substituteAll bindings args), Known vars name) :
    evaluateAll vars mode (substituteAll bindings args) = evaluateAll env mode args := by
  cases args with
  | nil => rfl
  | cons arg rest =>
    simp only [substituteAll, identifiersAll, List.mem_append] at h
    have harg := evaluate_substitute hagrees arg fun name hname => h name (.inl hname)
    have hrest := evaluateAll_substitute hagrees rest fun name hname => h name (.inr hname)
    simp only [substituteAll, evaluateAll, harg, hrest]

end

variable {bindings : List (Text × AstNode)}

theorem Agrees.bindName (hagrees : Agrees vars mode bindings env) (name : Text) {ast : AstNode}
    {value : Eval σ Value}
    (hvalue : (∀ ident ∈ ast.identifiers, Known vars ident) → value = evaluate vars mode ast) :
    Agrees vars mode ((name, ast) :: bindings) (bindName env name value) := by
  intro other
  unfold Genapi.bindName
  by_cases hname : other = name
  · subst hname
    rw [if_pos rfl, List.lookup_cons_self]
    refine ⟨fun h => (by cases h), fun bound hbound hknown => ?_⟩
    cases hbound
    exact hvalue hknown
  · have hbeq : (other == name) = false := beq_false_of_ne hname
    rw [if_neg hname, List.lookup_cons, hbeq]
    exact hagrees other

theorem agrees_nil : Agrees vars mode [] vars :=
  fun _ => ⟨fun _ => rfl, fun _ h => by cases h⟩

/-- A formula's declared texts and the trees they parse to. -/
def Parsed (parseF64 : Text → Option Float) (node : Text) (declared : List (Text × Text))
    (parsed : List (Text × AstNode)) : Prop :=
  List.Forall₂ (fun text tree => text.1 = tree.1 ∧
    parseFormula parseF64 node text.2 = .ok tree.2) declared parsed

/-- One group of declarations: what each tree becomes when it is bound agrees with
the value it is bound to. -/
theorem foldlM_agrees {parseF64 : Text → Option Float} {node : Text}
    {bound : List (Text × AstNode) → AstNode → AstNode}
    {value : (Text → Eval σ Value) → AstNode → Eval σ Value}
    (hvalue : ∀ bindings env ast, Agrees vars mode bindings env →
      (∀ ident ∈ (bound bindings ast).identifiers, Known vars ident) →
        value env ast = evaluate vars mode (bound bindings ast))
    {declared : List (Text × Text)} {trees : List (Text × AstNode)}
    (htrees : Parsed parseF64 node declared trees) {start bindings : List (Text × AstNode)}
    {env : Text → Eval σ Value} (hstart : Agrees vars mode start env)
    (h : declared.foldlM (fun bindings entry => do
      let ast ← parseFormula parseF64 node entry.2
      pure ((entry.1, bound bindings ast) :: bindings)) start = Except.ok bindings) :
    Agrees vars mode bindings
      (trees.foldl (fun env entry => bindName env entry.1 (value env entry.2)) env) := by
  induction htrees generalizing start env with
  | nil =>
    cases h
    exact hstart
  | @cons text tree declared trees hentry _ ih =>
    obtain ⟨hname, hparse⟩ := hentry
    rw [List.foldlM_cons, hparse] at h
    refine ih ?_ h
    rw [hname]
    exact hstart.bindName tree.1 (hvalue start env tree.2 hstart)

theorem exists_parsed {parseF64 : Text → Option Float} {node : Text}
    {bound : List (Text × AstNode) → AstNode → AstNode} {declared : List (Text × Text)}
    {start : List (Text × AstNode)}
    (h : declared.foldlM (fun bindings entry => do
      let ast ← parseFormula parseF64 node entry.2
      pure ((entry.1, bound bindings ast) :: bindings)) start = Except.ok bindings) :
    ∃ trees, Parsed parseF64 node declared trees := by
  induction declared generalizing start with
  | nil => exact ⟨[], .nil⟩
  | cons entry rest ih =>
    rw [List.foldlM_cons] at h
    cases hparse : parseFormula parseF64 node entry.2 with
    | error err =>
      rw [hparse] at h
      cases h
    | ok ast =>
      rw [hparse] at h
      obtain ⟨trees, htrees⟩ := ih h
      exact ⟨(entry.1, ast) :: trees, .cons ⟨rfl, hparse⟩ htrees⟩

theorem formulaBindings_agrees {parseF64 : Text → Option Float} {node : Text}
    {declared : FormulaBindings} (h : formulaBindings parseF64 node declared = .ok bindings) :
    ∃ constants expressions, Parsed parseF64 node declared.constants constants ∧
      Parsed parseF64 node declared.expressions expressions ∧
      ∀ {σ : Type} (vars : Text → Eval σ Value) (mode : EvalMode),
        Agrees vars mode bindings (letEnvironment vars mode constants expressions) := by
  unfold formulaBindings at h
  cases hconstants : declared.constants.foldlM (fun bindings entry => do
      let value ← parseFormula parseF64 node entry.2
      pure ((entry.1, value) :: bindings)) [] with
  | error err =>
    rw [hconstants] at h
    cases h
  | ok first =>
    rw [hconstants] at h
    obtain ⟨constants, hconstantTrees⟩ := exists_parsed hconstants
    obtain ⟨expressions, hexpressionTrees⟩ := exists_parsed h
    refine ⟨constants, expressions, hconstantTrees, hexpressionTrees, fun vars mode => ?_⟩
    have hfirst := @foldlM_agrees _ vars mode parseF64 node (fun _ ast => ast)
      (fun _ ast => evaluate vars mode ast) (fun _ _ _ _ _ => rfl) _ _ hconstantTrees _ _ _
      agrees_nil hconstants
    exact foldlM_agrees (fun bindings env ast hagrees hknown =>
      (evaluate_substitute hagrees ast hknown).symm) hexpressionTrees hfirst h

end

/-- The formula's variables with the values of `binding`. -/
def resolver {σ : Type} (vars : List FormulaVar) (binding : Text → Value) :
    Text → Eval σ Value :=
  fun ident =>
    if vars.any fun var => var.name = ident then pure (binding ident)
    else throw (.unknownVariable ident)

theorem known_resolver {σ : Type} {vars : List FormulaVar} (binding : Text → Value)
    {ident : Text}
    (h : (vars.any fun var => var.name = ident) = true ∨ (builtinConstant ident).isSome = true) :
    Known (resolver vars binding : Text → Eval σ Value) ident := by
  by_cases hvar : (vars.any fun var => var.name = ident) = true
  · have hpure : (resolver vars binding ident : Eval σ Value) = pure (binding ident) := if_pos hvar
    have hnever : NeverUnknown (resolver vars binding ident : Eval σ Value) := by
      rw [hpure]
      exact neverUnknown_pure _
    unfold Known
    rw [resolveName_of_neverUnknown hnever]
    exact hnever
  · obtain ⟨value, hvalue⟩ := Option.isSome_iff_exists.mp (h.resolve_left hvar)
    have hthrow : (resolver vars binding ident : Eval σ Value) =
        throw (.unknownVariable ident) := if_neg hvar
    have hresolve : (resolveName (resolver vars binding) ident : Eval σ Value) = pure value := by
      simp only [resolveName, hthrow, hvalue]
      rfl
    unfold Known
    rw [hresolve]
    exact neverUnknown_pure value

/-- A built node has parsed its formula and its bindings, and evaluates the formula in
the environment of the constants, each over the variables alone, and the expressions,
each over what is bound before it; and every name it asks for is known. -/
theorem bindings_are_lets (parseF64 : Text → Option Float) (decl : SwissKnifeDecl)
    (node : SkNode) (hbuild : buildSwissknife parseF64 decl = .ok node) :
    ∃ formula constants expressions, parseFormula parseF64 decl.name decl.expr = .ok formula ∧
      Parsed parseF64 decl.name decl.bindings.constants constants ∧
      Parsed parseF64 decl.name decl.bindings.expressions expressions ∧
      ∀ (σ : Type) (binding : Text → Value) (mode : EvalMode),
        (evaluate (resolver node.vars binding) mode node.ast : Eval σ Value) =
            evaluate (letEnvironment (resolver node.vars binding) mode constants expressions) mode
              formula ∧
          NeverUnknown (evaluate (resolver node.vars binding) mode node.ast : Eval σ Value) := by
  unfold buildSwissknife at hbuild
  cases hformula : parseFormula parseF64 decl.name decl.expr with
  | error err =>
    rw [hformula] at hbuild
    cases hbuild
  | ok formula =>
    rw [hformula] at hbuild
    cases hbindings : formulaBindings parseF64 decl.name decl.bindings with
    | error err =>
      simp only [bind, Except.bind, hbindings] at hbuild
      cases hbuild
    | ok bindings =>
      obtain ⟨constants, expressions, hconstants, hexpressions, hagrees⟩ :=
        formulaBindings_agrees hbindings
      simp only [bind, Except.bind, hbindings] at hbuild
      split at hbuild
      · cases hbuild
      rename_i vars hvars
      split at hbuild
      · cases hbuild
      rename_i hnone
      cases hbuild
      refine ⟨formula, constants, expressions, rfl, hconstants, hexpressions,
        fun σ binding mode => ?_⟩
      have hknown : ∀ ident ∈ (formula.substitute bindings).identifiers,
          Known (resolver vars binding : Text → Eval σ Value) ident := by
        intro ident hident
        have hfound := List.find?_eq_none.mp hnone ident hident
        apply known_resolver
        simpa [Option.isSome_iff_ne_none, or_iff_not_imp_left] using hfound
      exact ⟨evaluate_substitute (hagrees _ mode) formula hknown,
        evaluate_neverUnknown _ hknown⟩

def noFloats : Text → Option Float := fun _ => none

def plainMeta : NodeMeta where
  visibility := .beginner
  description := none
  tooltip := none
  displayName := none
  representation := none
  imposedAccess := none
  streamable := false
  cachable := none
  pollingTimeMs := none
  ignored := []

/-- Ten times a sum that has a name, of a constant and a variable. -/
def tenTimes : SwissKnifeDecl where
  name := lit "Example"
  nodeMeta := plainMeta
  expr := lit "TEN * XPLUS"
  «variables» := [(lit "X", lit "Node")]
  output := .integer
  bindings := {
    constants := [(lit "TEN", lit "10")]
    expressions := [(lit "XPLUS", lit "TEN + X")] }
  predicates := {}

def tenTimesNode : SkNode where
  name := lit "Example"
  nodeMeta := plainMeta
  output := .integer
  ast := .binary .mul (.literal (.int 10))
    (.binary .add (.literal (.int 10)) (.variable (lit "X")))
  vars := [⟨lit "X", lit "Node", .value⟩]
  predicates := {}

theorem tenTimes_builds : buildSwissknife noFloats tenTimes = .ok tenTimesNode := by
  have hused : (identifiersAll [tenTimesNode.ast]).eraseDups.mergeSort (fun a b => a ≤ b) =
      [lit "X"] := List.mergeSort_singleton _
  have hvars : formulaVars tenTimes.name tenTimes.«variables» [tenTimesNode.ast] =
      .ok tenTimesNode.vars := by
    unfold formulaVars
    rw [hused]
    rfl
  have hformula : parseFormula noFloats tenTimes.name tenTimes.expr =
      .ok (.binary .mul (.variable (lit "TEN")) (.variable (lit "XPLUS"))) := rfl
  have hbindings : formulaBindings noFloats tenTimes.name tenTimes.bindings =
      .ok [(lit "XPLUS", .binary .add (.literal (.int 10)) (.variable (lit "X"))),
        (lit "TEN", .literal (.int 10))] := rfl
  unfold buildSwissknife
  rw [hformula, hbindings]
  change (formulaVars tenTimes.name tenTimes.«variables» [tenTimesNode.ast] >>= _) = _
  rw [hvars]
  rfl

theorem bindings_are_lets_tenTimes :
    NeverUnknown (evaluate (resolver tenTimesNode.vars fun _ => .int 5) .integer
      tenTimesNode.ast : Eval Unit Value) := by
  obtain ⟨_, _, _, -, -, -, hmeans⟩ :=
    bindings_are_lets noFloats tenTimes tenTimesNode tenTimes_builds
  exact (hmeans Unit (fun _ => .int 5) .integer).2

/-- The environment in which constants, too, see what is bound before them. -/
def chainedEnvironment {σ : Type} (vars : Text → Eval σ Value) (mode : EvalMode)
    (declared : List (Text × AstNode)) : Text → Eval σ Value :=
  declared.foldl (fun env entry => bindName env entry.1 (evaluate env mode entry.2)) vars

/-- The constant `B` names the constant `A`, which hides a variable. -/
def constantOfConstant : SwissKnifeDecl where
  name := lit "Example"
  nodeMeta := plainMeta
  expr := lit "B"
  «variables» := [(lit "A", lit "Node")]
  output := .integer
  bindings := { constants := [(lit "A", lit "10"), (lit "B", lit "A")], expressions := [] }
  predicates := {}

/-- A constant does not see another one: `B` is the variable `A`, not the constant. -/
theorem constant_does_not_see_constant :
    ∃ node formula constants,
      buildSwissknife noFloats constantOfConstant = .ok node ∧
        parseFormula noFloats constantOfConstant.name constantOfConstant.expr = .ok formula ∧
        Parsed noFloats constantOfConstant.name constantOfConstant.bindings.constants constants ∧
        ((evaluate (resolver node.vars fun _ => .int 5) .integer node.ast : Eval Unit Value).run.run
          ()).1 = .ok (.int 5) ∧
        ((evaluate (chainedEnvironment (resolver node.vars fun _ => .int 5) .integer constants)
          .integer formula : Eval Unit Value).run.run ()).1 = .ok (.int 10) := by
  have hused : (identifiersAll [.variable (lit "A")]).eraseDups.mergeSort (fun a b => a ≤ b) =
      [lit "A"] := List.mergeSort_singleton _
  have hvars : formulaVars (lit "Example") [(lit "A", lit "Node")] [.variable (lit "A")] =
      .ok [⟨lit "A", lit "Node", .value⟩] := by
    unfold formulaVars
    rw [hused]
    rfl
  have hformula : parseFormula noFloats constantOfConstant.name constantOfConstant.expr =
      .ok (.variable (lit "B")) := rfl
  have hbindings : formulaBindings noFloats constantOfConstant.name constantOfConstant.bindings =
      .ok [(lit "B", .variable (lit "A")), (lit "A", .literal (.int 10))] := rfl
  have hbuild : buildSwissknife noFloats constantOfConstant =
      .ok ⟨lit "Example", plainMeta, .integer, .variable (lit "A"),
        [⟨lit "A", lit "Node", .value⟩], {}⟩ := by
    unfold buildSwissknife
    rw [hformula, hbindings]
    change (formulaVars (lit "Example") [(lit "A", lit "Node")] [.variable (lit "A")] >>= _) = _
    rw [hvars]
    rfl
  exact ⟨_, .variable (lit "B"), [(lit "A", .literal (.int 10)), (lit "B", .variable (lit "A"))],
    hbuild, rfl, .cons ⟨rfl, rfl⟩ (.cons ⟨rfl, rfl⟩ .nil), rfl, rfl⟩

end VivaGenicam.Genapi
