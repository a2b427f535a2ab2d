/-
  The tree that an S-expression is of. What an S-expression leaves out is left out of the tree as well,
  so the reading of the S-expression of a tree gives the tree without it, if the nodes are lawful and each
  text of a float is that of one float (`exprOf_sexpr`, `typeOf_sexpr`, `statementsOf_sexprs`).

  Nodes are told apart by their first word. Where an item stands with or without something before it, its
  first word tells which: no expression and no type begins with `:`, `type` or `..`.
-/
import JuiceSyntax.Proofs.Tree.Erasure
import JuiceSyntax.Proofs.Tree.Words

namespace JuiceSyntax

open Sexpr (word quote node tagged labelled typed AllPlain)

/-! ## Words with a bang -/

/-- A word without the bang at its end, and whether there was one. -/
def unbanged (text : String) : String × Bool :=
  if text.toList.getLast? = some '!' then (String.ofList text.toList.dropLast, true) else (text, false)

theorem unbanged_ite {text : String} (h : WordText text) (bang : Bool) :
    unbanged (if bang then text ++ "!" else text) = (text, bang) := by
  cases bang with
  | false =>
    refine if_neg fun hlast => ?_
    exact absurd (h.within '!' (List.mem_of_getLast? hlast)) (by decide)
  | true =>
    have htext : (text ++ "!").toList = text.toList ++ ['!'] := String.toList_append
    rw [if_pos rfl, unbanged, htext, List.getLast?_concat, if_pos rfl, List.dropLast_concat, String.ofList_toList]

def fnNameOf (text : String) : FnName := ⟨(unbanged text).1, (unbanged text).2, .point 0⟩

/-! ## Reading -/

def UnaryOp.ofSymbol (symbol : String) : UnaryOp := if symbol = "!" then .not else .neg

def BinaryOp.ofSymbol (symbol : String) : BinaryOp :=
  ([.add, .sub, .bitAnd, .bitOr, .bitXor, .mod, .and, .or, .mul, .div, .pow, .eq, .ne, .lt, .gt, .le, .ge, .shl, .shr].find?
    fun op => op.symbol == symbol).getD .add

section

variable (float : String → Float)

mutual

def exprOf : Sexpr → ExprKind
  | word text => wordExpr float text
  | node (word tag :: items) =>
    match tag, items with
    | "str", items => .str (segmentsOf items) .inline
    | "mstr", items => .str (segmentsOf items) (.lines [])
    | "list", items => .list (exprsOf items)
    | "record", items => .record (recordFieldsOf items)
    | "tuple", items => .tuple (exprsOf items)
    | "group", [inner] => .group ⟨exprOf inner, .point 0⟩
    | "?", [inner] => .attempt ⟨exprOf inner, .point 0⟩
    | ".", [object, member] => .member ⟨exprOf object, .point 0⟩ ⟨exprOf member, .point 0⟩
    | "::", [base, member] => .typeAccess ⟨exprOf base, .point 0⟩ ⟨exprOf member, .point 0⟩
    | "call", callee :: args => .call ⟨exprOf callee, .point 0⟩ (argsOf args)
    | "macro", [word name, node (word "args" :: args)] => .macroCall name (.point 0) true (argsOf args) none
    | "macro", [word name, node [word "body", quote text]] =>
      .macroCall name (.point 0) false [] (some ⟨.point 0, .point 0, text, []⟩)
    | "macro", [word name, node (word "args" :: args), node [word "body", quote text]] =>
      .macroCall name (.point 0) true (argsOf args) (some ⟨.point 0, .point 0, text, []⟩)
    | "macro", [word name] => .macroCall name (.point 0) false [] none
    | "fn", items => .fn (fnOf false none items)
    | "if", [test, node (word "block" :: body)] =>
      .conditional ⟨exprOf test, .point 0⟩ ⟨statementsOf body, .point 0⟩ none
    | "if", [test, node (word "block" :: body), otherwise] =>
      .conditional ⟨exprOf test, .point 0⟩ ⟨statementsOf body, .point 0⟩ (some ⟨exprOf otherwise, .point 0⟩)
    | "match", scrutinee :: arms => .selection ⟨exprOf scrutinee, .point 0⟩ (armsOf arms)
    | "block", items => .block ⟨statementsOf items, .point 0⟩
    | symbol, [operand] => .unary (.ofSymbol symbol) ⟨exprOf operand, .point 0⟩
    | symbol, [left, right] => .binary (.ofSymbol symbol) ⟨exprOf left, .point 0⟩ ⟨exprOf right, .point 0⟩
    | _, _ => .bool false
  | _ => .bool false

def exprsOf : List Sexpr → List Expr
  | [] => []
  | item :: rest => ⟨exprOf item, .point 0⟩ :: exprsOf rest

def segmentsOf : List Sexpr → List Segment
  | [] => []
  | node [word "text", quote text] :: rest => .text text (.point 0) :: segmentsOf rest
  | node [word "esc", quote raw] :: rest => .escape (escapeValue raw) raw (.point 0) :: segmentsOf rest
  | node [word "interp", inner] :: rest => .fragment ⟨exprOf inner, .point 0⟩ (.point 0) :: segmentsOf rest
  | _ => []

def argsOf : List Sexpr → List Arg
  | node [word ":", word label, value] :: rest => ⟨some label, ⟨exprOf value, .point 0⟩, .point 0⟩ :: argsOf rest
  | value :: rest => ⟨none, ⟨exprOf value, .point 0⟩, .point 0⟩ :: argsOf rest
  | [] => []

def recordFieldsOf : List Sexpr → List RecordField
  | [] => []
  | node [word "=", word name, value] :: rest => ⟨name, some ⟨exprOf value, .point 0⟩, .point 0⟩ :: recordFieldsOf rest
  | word name :: rest => ⟨name, none, .point 0⟩ :: recordFieldsOf rest
  | _ => []

def armsOf : List Sexpr → List Arm
  | [] => []
  | node [word "arm", node [word "type", type], body] :: rest =>
    ⟨.type ⟨typeOf type, .point 0⟩, ⟨exprOf body, .point 0⟩, .point 0⟩ :: armsOf rest
  | node [word "arm", value, body] :: rest =>
    ⟨.value ⟨exprOf value, .point 0⟩, ⟨exprOf body, .point 0⟩, .point 0⟩ :: armsOf rest
  | _ => []

def typeOf : Sexpr → TypeKind
  | word text => wordType float text
  | node (word tag :: items) =>
    match tag, items with
    | "str", items => .literal ⟨.str (segmentsOf items) .inline, .point 0⟩
    | "mstr", items => .literal ⟨.str (segmentsOf items) (.lines []), .point 0⟩
    | "list", items => .literal ⟨.list (exprsOf items), .point 0⟩
    | "tcall", word callee :: args => .call callee (.point 0) (typeArgsOf args)
    | "ttuple", items => .tuple (typesOf items)
    | "tgroup", [inner] => .group ⟨typeOf inner, .point 0⟩
    | "|", [left, right] => .binary .union ⟨typeOf left, .point 0⟩ ⟨typeOf right, .point 0⟩
    | "&", [left, right] => .binary .intersection ⟨typeOf left, .point 0⟩ ⟨typeOf right, .point 0⟩
    | _, _ => .tuple []
  | _ => .tuple []

def typesOf : List Sexpr → List TypeExpr
  | [] => []
  | item :: rest => ⟨typeOf item, .point 0⟩ :: typesOf rest

def typeArgsOf : List Sexpr → List TypeArg
  | node [word ":", word label, value] :: rest => ⟨some label, ⟨typeOf value, .point 0⟩, .point 0⟩ :: typeArgsOf rest
  | value :: rest => ⟨none, ⟨typeOf value, .point 0⟩, .point 0⟩ :: typeArgsOf rest
  | [] => []

def paramsOf : List Sexpr → List Param
  | [] => []
  | node [word ":", word name, type] :: rest => ⟨name, some ⟨typeOf type, .point 0⟩, .point 0⟩ :: paramsOf rest
  | word name :: rest => ⟨name, none, .point 0⟩ :: paramsOf rest
  | _ => []

/-- A function, of what follows when it is known whether it is static and what its name is. -/
def fnOf (isStatic : Bool) (name : Option FnName) : List Sexpr → FnDecl
  | word text :: rest =>
    if text = "static" then fnOf true name rest else fnOf isStatic (some (fnNameOf text)) rest
  | [node (word "params" :: params), node (word "block" :: body)] =>
    ⟨isStatic, name, paramsOf params, none, ⟨statementsOf body, .point 0⟩, .point 0⟩
  | [node (word "params" :: params), node [word "ret", type], node (word "block" :: body)] =>
    ⟨isStatic, name, paramsOf params, some ⟨typeOf type, .point 0⟩, ⟨statementsOf body, .point 0⟩, .point 0⟩
  | _ => ⟨isStatic, name, [], none, ⟨[], .point 0⟩, .point 0⟩

def loopOf (element : Option String) : List Sexpr → StatementKind
  | [node (word "block" :: body)] => .loop element .endless ⟨statementsOf body, .point 0⟩
  | [node [word "..", first, last], node (word "block" :: body)] =>
    .loop element (.between ⟨exprOf first, .point 0⟩ ⟨exprOf last, .point 0⟩) ⟨statementsOf body, .point 0⟩
  | [range, node (word "block" :: body)] =>
    .loop element (.over ⟨exprOf range, .point 0⟩) ⟨statementsOf body, .point 0⟩
  | _ => .stop

/-- A statement that is no expression. -/
def statementOf? : Sexpr → Option StatementKind
  | node (word tag :: items) =>
    match tag, items with
    | ":", [word name, type, value] =>
      some (.binding name (.point 0) (some ⟨typeOf type, .point 0⟩) ⟨exprOf value, .point 0⟩)
    | ":=", [word name, value] => some (.binding name (.point 0) none ⟨exprOf value, .point 0⟩)
    | "=", [word name, value] => some (.assignment name (.point 0) ⟨exprOf value, .point 0⟩)
    | "fn", items => some (.fn (fnOf false none items))
    | "for", items => some (loopOf none items)
    | "for-of", word element :: items => some (loopOf (some element) items)
    | "return", [] => some (.leave none)
    | "return", [value] => some (.leave (some ⟨exprOf value, .point 0⟩))
    | "break", _ => some .stop
    | "continue", _ => some .next
    | "block", body => some (.block ⟨statementsOf body, .point 0⟩)
    | _, _ => none
  | _ => none

def statementsOf : List Sexpr → List Statement
  | [] => []
  | item :: rest => ⟨(statementOf? item).getD (.expr ⟨exprOf item, .point 0⟩), .point 0⟩ :: statementsOf rest

end

end

/-! ## First words -/

/-- What the S-expressions of expressions begin with that are no statements. -/
def exprTags : List String :=
  ["str", "mstr", "list", "record", "tuple", "group", "?", ".", "::", "call", "macro", "if", "match", "!", "-", "+", "&", "|",
    "^", "%", "&&", "||", "*", "/", "**", "==", "!=", "<", ">", "<=", ">=", "<<", ">>"]

theorem ExprKind.tag_mem {kind : ExprKind} (hkind : kind.isStatement = false) {tag : String} {items : List Sexpr}
    (h : kind.sexpr = node (word tag :: items)) : tag ∈ exprTags := by
  cases kind with
  | fn => cases hkind
  | block => cases hkind
  | str segments layout => cases layout <;> (cases h; simp [exprTags])
  | unary op operand => cases op <;> (cases h; decide)
  | binary op left right => cases op <;> (cases h; decide)
  | int | float | bool | name | typeName => cases h
  | _ =>
    cases h
    decide

/-- What the S-expressions of types begin with besides. -/
def typeTags : List String := ["tcall", "ttuple", "tgroup", "fn", "block"] ++ exprTags

theorem ExprKind.tag_mem_typeTags {kind : ExprKind} {tag : String} {items : List Sexpr}
    (h : kind.sexpr = node (word tag :: items)) : tag ∈ typeTags := by
  cases hkind : kind.isStatement with
  | false => exact List.mem_append_right _ (tag_mem hkind h)
  | true =>
    cases kind with
    | fn decl =>
      cases decl
      cases h
      decide
    | block body =>
      cases body
      cases h
      decide
    | _ => cases hkind

theorem Expr.sexpr_ne {tag : String} (h : tag ∉ typeTags) (e : Expr) (items : List Sexpr) :
    e.sexpr ≠ node (word tag :: items) := by
  cases e
  exact fun heq => h (ExprKind.tag_mem_typeTags heq)

theorem TypeExpr.sexpr_ne {tag : String} (h : tag ∉ typeTags) (t : TypeExpr) (items : List Sexpr) :
    t.sexpr ≠ node (word tag :: items) := by
  intro heq
  obtain ⟨kind, span⟩ := t
  cases kind with
  | builtin | name | typeName => cases heq
  | literal e => exact e.sexpr_ne h items heq
  | binary op left right => cases op <;> (cases heq; exact h (by decide))
  | _ =>
    cases heq
    exact h (by decide)

section

variable {float : String → Float}

theorem statementOf?_sexpr {e : Expr} (h : e.kind.isStatement = false) : statementOf? float e.sexpr = none := by
  obtain ⟨kind, span⟩ := e
  unfold statementOf?
  split
  · rename_i tag items heq
    have hmem := ExprKind.tag_mem h heq
    split
    all_goals first | rfl | exact absurd hmem (by decide)
  · rfl

/-! ## Readable nodes -/

/-- A lawful node, which is a finite float only if that is the one its text stands for. -/
def Node.Readable (float : String → Float) (n : Node) : Prop :=
  n.Lawful ∧ ∀ x, n.float? = some x → x.isFinite = true ∧ float (floatText x) = x

abbrev Readable (float : String → Float) (nodes : List Node) : Prop := AllNodes (Node.Readable float) nodes

/-! ## Functions -/

theorem fnOf_static (name : Option FnName) (rest : List Sexpr) :
    fnOf float false name (word "static" :: rest) = fnOf float true name rest := by
  rw [fnOf, if_pos rfl]

theorem FnName.written_ne_static {name : FnName} (h : NameText name.text) : name.written ≠ "static" := by
  unfold FnName.written
  split
  · intro heq
    have hlast := congrArg (fun text => text.toList.getLast?) heq
    simp at hlast
  · intro heq
    have hname := h.unreserved
    rw [heq] at hname
    cases hname

theorem fnNameOf_written {name : FnName} (h : NameText name.text) : fnNameOf name.written = name.erased := by
  rw [fnNameOf, FnName.written, unbanged_ite h.word, FnName.erased]

/-- What a function with this head is of its parts. -/
theorem fnOf_head (isStatic : Bool) {name : Option FnName} (h : Readable float (name.toList.map .title)) (rest : List Sexpr) :
    fnOf float false none
        ((if isStatic then [word "static"] else []) ++ (name.map fun name => word name.written).toList ++ rest) =
      fnOf float isStatic (name.map FnName.erased) rest := by
  have named (isStatic : Bool) : fnOf float isStatic none ((name.map fun name => word name.written).toList ++ rest) =
      fnOf float isStatic (name.map FnName.erased) rest := by
    cases name with
    | none => rfl
    | some name =>
      have hname : NameText name.text := h.here.1
      show fnOf float isStatic none (word name.written :: rest) = _
      rw [fnOf, if_neg (FnName.written_ne_static hname), fnNameOf_written hname]
      rfl
  cases isStatic with
  | false => exact named false
  | true =>
    rw [if_pos rfl, List.append_assoc, List.singleton_append, fnOf_static]
    exact named true

/-! ## Trees -/

theorem exprOf_unary (op : UnaryOp) (operand : Sexpr) :
    exprOf float (node [word op.symbol, operand]) = .unary op ⟨exprOf float operand, .point 0⟩ := by
  cases op <;> rfl

theorem exprOf_binary (op : BinaryOp) (left right : Sexpr) :
    exprOf float (node [word op.symbol, left, right]) =
      .binary op ⟨exprOf float left, .point 0⟩ ⟨exprOf float right, .point 0⟩ := by
  cases op <;> rfl

mutual

theorem Expr.read : (e : Expr) → Readable float e.nodes → (⟨exprOf float e.sexpr, .point 0⟩ : Expr) = e.erased
  | ⟨kind, _⟩, h => by rw [Expr.sexpr, Expr.erased, kind.read h]

theorem ExprKind.read : (kind : ExprKind) → Readable float (.expr kind :: kind.nodes) → exprOf float kind.sexpr = kind.erased
  | .int value radix, _ => by rw [ExprKind.sexpr, exprOf, wordExpr_integerText, ExprKind.erased]
  | .float value, h => by
    obtain ⟨hfinite, hfloat⟩ := h.here.2 value rfl
    rw [ExprKind.sexpr, exprOf, wordExpr_floatText hfinite hfloat, ExprKind.erased]
  | .bool value, _ => by rw [ExprKind.sexpr, exprOf, wordExpr_bool, ExprKind.erased]
  | .name text, h => by
    have hname : NameText text := h.here.1
    rw [ExprKind.sexpr, exprOf, hname.wordExpr, ExprKind.erased]
  | .typeName text, h => by
    have hname : TypeText text := h.here.1
    rw [ExprKind.sexpr, exprOf, hname.wordExpr, ExprKind.erased]
  | .str segments .inline, h => by
    rw [ExprKind.sexpr, tagged, exprOf, readSegments segments h.later, ExprKind.erased, Layout.erased]
  | .str segments (.lines markers), h => by
    rw [ExprKind.sexpr, tagged, exprOf, readSegments segments h.later, ExprKind.erased, Layout.erased]
  | .list items, h => by rw [ExprKind.sexpr, tagged, exprOf, readExprs items h.later, ExprKind.erased]
  | .record fields, h => by rw [ExprKind.sexpr, tagged, exprOf, readRecordFields fields h.later, ExprKind.erased]
  | .tuple items, h => by rw [ExprKind.sexpr, tagged, exprOf, readExprs items h.later, ExprKind.erased]
  | .group inner, h => by rw [ExprKind.sexpr, tagged, exprOf, inner.read h.later, ExprKind.erased]
  | .unary op operand, h => by rw [ExprKind.sexpr, tagged, exprOf_unary, operand.read h.later, ExprKind.erased]
  | .binary op left right, h => by
    rw [ExprKind.sexpr, tagged, exprOf_binary, left.read h.later.left, right.read h.later.right, ExprKind.erased]
  | .attempt inner, h => by rw [ExprKind.sexpr, tagged, exprOf, inner.read h.later, ExprKind.erased]
  | .member object member, h => by
    rw [ExprKind.sexpr, tagged, exprOf, object.read h.later.left, member.read h.later.right, ExprKind.erased]
  | .typeAccess base member, h => by
    rw [ExprKind.sexpr, tagged, exprOf, base.read h.later.left, member.read h.later.right, ExprKind.erased]
  | .call callee args, h => by
    rw [ExprKind.sexpr, tagged, exprOf, callee.read h.later.left, readArgs args h.later.right, ExprKind.erased]
  | .macroCall name span parenthesized args body, h => by
    have hargs := readArgs args h.later.later
    have hnone : parenthesized = false → args = [] := h.here.1.1
    cases parenthesized with
    | true =>
      cases body with
      | none =>
        show exprOf float (node [word "macro", word name, node (word "args" :: argSexprs args)]) = _
        rw [exprOf, hargs, ExprKind.erased]
        rfl
      | some body =>
        show exprOf float (node [word "macro", word name, node (word "args" :: argSexprs args),
          node [word "body", quote body.text]]) = _
        rw [exprOf, hargs, ExprKind.erased]
        rfl
    | false =>
      obtain rfl := hnone rfl
      cases body with
      | none =>
        show exprOf float (node [word "macro", word name]) = _
        rw [exprOf, ExprKind.erased]
        rfl
      | some body =>
        show exprOf float (node [word "macro", word name, node [word "body", quote body.text]]) = _
        rw [exprOf, ExprKind.erased]
        rfl
  | .fn decl, h => by
    obtain ⟨items, hitems, hdecl⟩ := decl.read h.later
    rw [ExprKind.sexpr, hitems, exprOf, hdecl, ExprKind.erased]
  | .conditional test ⟨statements, _⟩ none, h => by
    show exprOf float (node [word "if", test.sexpr, node (word "block" :: statementSexprs statements)]) = _
    rw [exprOf, test.read h.later.left.left, readStatements statements h.later.left.right, ExprKind.erased, Block.erased,
      erasedExpr?]
  | .conditional test ⟨statements, _⟩ (some otherwise), h => by
    show exprOf float (node [word "if", test.sexpr, node (word "block" :: statementSexprs statements), otherwise.sexpr]) = _
    rw [exprOf, test.read h.later.left.left, readStatements statements h.later.left.right, otherwise.read h.later.right,
      ExprKind.erased, Block.erased, erasedExpr?]
  | .selection scrutinee arms, h => by
    rw [ExprKind.sexpr, tagged, exprOf, scrutinee.read h.later.left, readArms arms h.later.right, ExprKind.erased]
  | .block ⟨statements, _⟩, h => by
    rw [ExprKind.sexpr, Block.sexpr, tagged, exprOf, readStatements statements h.later, ExprKind.erased, Block.erased]

theorem readExprs : (items : List Expr) → Readable float (exprNodes items) →
    exprsOf float (exprSexprs items) = erasedExprs items
  | [], _ => by rw [exprSexprs, exprsOf, erasedExprs]
  | e :: rest, h => by rw [exprSexprs, exprsOf, erasedExprs, e.read h.left, readExprs rest h.right]

theorem readSegments : (segments : List Segment) → Readable float (segmentNodes segments) →
    segmentsOf float (segmentSexprs segments) = erasedSegments segments
  | [], _ => by rw [segmentSexprs, segmentsOf, erasedSegments]
  | .text text _ :: rest, h => by
    rw [segmentSexprs, Segment.sexpr, tagged, segmentsOf, readSegments rest h, erasedSegments]
  | .escape value raw _ :: rest, h => by
    have hvalue : value = escapeValue raw := h.here.1
    rw [segmentSexprs, Segment.sexpr, tagged, segmentsOf, readSegments rest h.later, erasedSegments, ← hvalue]
  | .fragment e _ :: rest, h => by
    rw [segmentSexprs, Segment.sexpr, tagged, segmentsOf, e.read h.left, readSegments rest h.right, erasedSegments]

theorem readArgs : (args : List Arg) → Readable float (argNodes args) → argsOf float (argSexprs args) = erasedArgs args
  | [], _ => by rw [argSexprs, argsOf, erasedArgs]
  | ⟨some label, value, _⟩ :: rest, h => by
    rw [argSexprs, labelled, tagged, argsOf, value.read h.left.right, readArgs rest h.right, erasedArgs]
  | ⟨none, value, _⟩ :: rest, h => by
    rw [argSexprs, labelled, argsOf, value.read h.left.right, readArgs rest h.right, erasedArgs]
    exact fun _ _ => value.sexpr_ne (by decide) _

theorem readRecordFields : (fields : List RecordField) → Readable float (recordFieldNodes fields) →
    recordFieldsOf float (recordFieldSexprs fields) = erasedFields fields
  | [], _ => by rw [recordFieldSexprs, recordFieldsOf, erasedFields]
  | ⟨name, some value, _⟩ :: rest, h => by
    show recordFieldsOf float (node [word "=", word name, value.sexpr] :: recordFieldSexprs rest) = _
    rw [recordFieldsOf, value.read h.later.left, readRecordFields rest h.later.right, erasedFields, erasedExpr?]
  | ⟨name, none, _⟩ :: rest, h => by
    show recordFieldsOf float (word name :: recordFieldSexprs rest) = _
    rw [recordFieldsOf, readRecordFields rest h.later.right, erasedFields, erasedExpr?]

theorem readArms : (arms : List Arm) → Readable float (armNodes arms) → armsOf float (armSexprs arms) = erasedArms arms
  | [], _ => by rw [armSexprs, armsOf, erasedArms]
  | ⟨.type type, body, _⟩ :: rest, h => by
    show armsOf float (node [word "arm", node [word "type", type.sexpr], body.sexpr] :: armSexprs rest) = _
    rw [armsOf, type.read h.left.left, body.read h.left.right, readArms rest h.right,
      erasedArms, Pattern.erased]
  | ⟨.value value, body, _⟩ :: rest, h => by
    rw [armSexprs, Pattern.sexpr, tagged, armsOf, value.read h.left.left, body.read h.left.right, readArms rest h.right,
      erasedArms, Pattern.erased]
    exact fun _ => value.sexpr_ne (by decide) _

theorem TypeExpr.read : (t : TypeExpr) → Readable float t.nodes → (⟨typeOf float t.sexpr, .point 0⟩ : TypeExpr) = t.erased
  | ⟨kind, _⟩, h => by rw [TypeExpr.sexpr, TypeExpr.erased, kind.read h]

theorem TypeKind.read : (kind : TypeKind) → Readable float (.type kind :: kind.nodes) → typeOf float kind.sexpr = kind.erased
  | .builtin type, _ => by rw [TypeKind.sexpr, typeOf, wordType_builtin, TypeKind.erased]
  | .name text, h => by
    obtain ⟨hname, hother⟩ : NameText text ∧ BuiltinType.ofName? text = none := h.here.1
    rw [TypeKind.sexpr, typeOf, hname.wordType hother, TypeKind.erased]
  | .typeName text, h => by
    have hname : TypeText text := h.here.1
    rw [TypeKind.sexpr, typeOf, hname.wordType, TypeKind.erased]
  | .literal ⟨.int value radix, _⟩, _ => by
    rw [TypeKind.sexpr, Expr.sexpr, ExprKind.sexpr, typeOf, wordType_integerText, TypeKind.erased, Expr.erased, ExprKind.erased]
  | .literal ⟨.float value, _⟩, h => by
    obtain ⟨hfinite, hfloat⟩ := h.later.here.2 value rfl
    rw [TypeKind.sexpr, Expr.sexpr, ExprKind.sexpr, typeOf, wordType_floatText hfinite hfloat, TypeKind.erased, Expr.erased,
      ExprKind.erased]
  | .literal ⟨.bool value, _⟩, _ => by
    rw [TypeKind.sexpr, Expr.sexpr, ExprKind.sexpr, typeOf, wordType_bool, TypeKind.erased, Expr.erased, ExprKind.erased]
  | .literal ⟨.str segments .inline, _⟩, h => by
    show typeOf float (node (word "str" :: segmentSexprs segments)) = _
    rw [typeOf, readSegments segments h.later.later, TypeKind.erased, Expr.erased, ExprKind.erased, Layout.erased]
  | .literal ⟨.str segments (.lines markers), _⟩, h => by
    show typeOf float (node (word "mstr" :: segmentSexprs segments)) = _
    rw [typeOf, readSegments segments h.later.later, TypeKind.erased, Expr.erased, ExprKind.erased, Layout.erased]
  | .literal ⟨.list items, _⟩, h => by
    show typeOf float (node (word "list" :: exprSexprs items)) = _
    rw [typeOf, readExprs items h.later.later, TypeKind.erased, Expr.erased, ExprKind.erased]
  | .literal ⟨.name _, _⟩, h | .literal ⟨.typeName _, _⟩, h | .literal ⟨.record _, _⟩, h | .literal ⟨.tuple _, _⟩, h
  | .literal ⟨.group _, _⟩, h | .literal ⟨.unary _ _, _⟩, h | .literal ⟨.binary _ _ _, _⟩, h | .literal ⟨.attempt _, _⟩, h
  | .literal ⟨.member _ _, _⟩, h | .literal ⟨.typeAccess _ _, _⟩, h | .literal ⟨.call _ _, _⟩, h
  | .literal ⟨.macroCall _ _ _ _ _, _⟩, h | .literal ⟨.fn _, _⟩, h | .literal ⟨.conditional _ _ _, _⟩, h
  | .literal ⟨.selection _ _, _⟩, h | .literal ⟨.block _, _⟩, h => absurd h.here.1 Bool.false_ne_true
  | .call callee _ args, h => by
    rw [TypeKind.sexpr, tagged, typeOf, readTypeArgs args h.later.later, TypeKind.erased]
  | .tuple items, h => by rw [TypeKind.sexpr, tagged, typeOf, readTypes items h.later, TypeKind.erased]
  | .group inner, h => by rw [TypeKind.sexpr, tagged, typeOf, inner.read h.later, TypeKind.erased]
  | .binary .union left right, h => by
    show typeOf float (node [word "|", left.sexpr, right.sexpr]) = _
    rw [typeOf, left.read h.later.left, right.read h.later.right, TypeKind.erased]
  | .binary .intersection left right, h => by
    show typeOf float (node [word "&", left.sexpr, right.sexpr]) = _
    rw [typeOf, left.read h.later.left, right.read h.later.right, TypeKind.erased]

theorem readTypes : (types : List TypeExpr) → Readable float (typeNodes types) →
    typesOf float (typeSexprs types) = erasedTypes types
  | [], _ => by rw [typeSexprs, typesOf, erasedTypes]
  | type :: rest, h => by rw [typeSexprs, typesOf, erasedTypes, type.read h.left, readTypes rest h.right]

theorem readTypeArgs : (args : List TypeArg) → Readable float (typeArgNodes args) →
    typeArgsOf float (typeArgSexprs args) = erasedTypeArgs args
  | [], _ => by rw [typeArgSexprs, typeArgsOf, erasedTypeArgs]
  | ⟨some label, value, _⟩ :: rest, h => by
    rw [typeArgSexprs, labelled, tagged, typeArgsOf, value.read h.left.right, readTypeArgs rest h.right, erasedTypeArgs]
  | ⟨none, value, _⟩ :: rest, h => by
    rw [typeArgSexprs, labelled, typeArgsOf, value.read h.left.right, readTypeArgs rest h.right, erasedTypeArgs]
    exact fun _ _ => value.sexpr_ne (by decide) _

theorem readParams : (params : List Param) → Readable float (paramNodes params) →
    paramsOf float (paramSexprs params) = erasedParams params
  | [], _ => by rw [paramSexprs, paramsOf, erasedParams]
  | ⟨name, some type, _⟩ :: rest, h => by
    rw [paramSexprs, optionalTypeSexpr, typed, tagged, paramsOf, type.read h.later.left, readParams rest h.later.right,
      erasedParams, erasedType?]
  | ⟨name, none, _⟩ :: rest, h => by
    rw [paramSexprs, optionalTypeSexpr, typed, paramsOf, readParams rest h.later.right, erasedParams, erasedType?]

theorem FnDecl.read : (decl : FnDecl) → Readable float decl.nodes →
    ∃ items, decl.sexpr = node (word "fn" :: items) ∧ fnOf float false none items = decl.erased
  | ⟨isStatic, name, params, result, ⟨statements, _⟩, _⟩, h => by
    refine ⟨_, rfl, ?_⟩
    have hparams := readParams params h.left.left.right
    have hbody := readStatements statements h.right
    rw [List.append_assoc, List.append_assoc, fnOf_head isStatic h.left.left.left]
    cases result with
    | none =>
      show fnOf float isStatic _
        [node (word "params" :: paramSexprs params), node (word "block" :: statementSexprs statements)] = _
      rw [fnOf, hparams, hbody, FnDecl.erased, Block.erased, erasedType?]
    | some type =>
      show fnOf float isStatic _ [node (word "params" :: paramSexprs params), node [word "ret", type.sexpr],
        node (word "block" :: statementSexprs statements)] = _
      rw [fnOf, hparams, type.read h.left.right, hbody, FnDecl.erased, Block.erased, erasedType?]

theorem readStatements : (statements : List Statement) → Readable float (statementNodes statements) →
    statementsOf float (statementSexprs statements) = erasedStatements statements
  | [], _ => by rw [statementSexprs, statementsOf, erasedStatements]
  | ⟨kind, _⟩ :: rest, h => by
    rw [statementSexprs, statementsOf, readStatements rest h.right, kind.read h.left, erasedStatements]

theorem StatementKind.read : (kind : StatementKind) → Readable float (.statement kind :: kind.nodes) →
    (statementOf? float kind.sexpr).getD (.expr ⟨exprOf float kind.sexpr, .point 0⟩) = kind.erased
  | .binding name _ (some type) value, h => by
    show ((statementOf? float (node [word ":", word name, type.sexpr, value.sexpr])).getD _) = _
    rw [statementOf?, Option.getD_some, type.read h.later.later.left, value.read h.later.later.right, StatementKind.erased,
      erasedType?]
  | .binding name _ none value, h => by
    show ((statementOf? float (node [word ":=", word name, value.sexpr])).getD _) = _
    rw [statementOf?, Option.getD_some, value.read h.later.later.right, StatementKind.erased, erasedType?]
  | .assignment name _ value, h => by
    show ((statementOf? float (node [word "=", word name, value.sexpr])).getD _) = _
    rw [statementOf?, Option.getD_some, value.read h.later.later, StatementKind.erased]
  | .fn decl, h => by
    obtain ⟨items, hitems, hdecl⟩ := decl.read h.later
    rw [StatementKind.sexpr, hitems, statementOf?, Option.getD_some, hdecl, StatementKind.erased]
  | .loop none range ⟨statements, _⟩, h => by
    show (statementOf? float
      (node (word "for" :: (range.sexprs ++ [node (word "block" :: statementSexprs statements)])))).getD _ = _
    rw [statementOf?, Option.getD_some, readLoop none range _ h.later.left.right, readStatements statements h.later.right,
      StatementKind.erased, Block.erased]
  | .loop (some element) range ⟨statements, _⟩, h => by
    show ((statementOf? float (node (word "for-of" :: word element ::
      (range.sexprs ++ [node (word "block" :: statementSexprs statements)])))).getD _) = _
    rw [statementOf?, Option.getD_some, readLoop (some element) range _ h.later.left.right,
      readStatements statements h.later.right, StatementKind.erased, Block.erased]
  | .leave none, _ => by
    show ((statementOf? float (node [word "return"])).getD _) = _
    rw [statementOf?, Option.getD_some, StatementKind.erased, erasedExpr?]
  | .leave (some value), h => by
    show ((statementOf? float (node [word "return", value.sexpr])).getD _) = _
    rw [statementOf?, Option.getD_some, value.read h.later, StatementKind.erased, erasedExpr?]
  | .stop, _ => by rw [StatementKind.sexpr, tagged, statementOf?, Option.getD_some, StatementKind.erased]
  | .next, _ => by rw [StatementKind.sexpr, tagged, statementOf?, Option.getD_some, StatementKind.erased]
  | .block ⟨statements, _⟩, h => by
    show ((statementOf? float (node (word "block" :: statementSexprs statements))).getD _) = _
    rw [statementOf?, Option.getD_some, readStatements statements h.later, StatementKind.erased, Block.erased]
  | .expr e, h => by
    have hkind : e.kind.isStatement = false := h.here.1
    rw [StatementKind.sexpr, statementOf?_sexpr hkind, Option.getD_none, e.read h.later, StatementKind.erased]

theorem readLoop (element : Option String) : (range : LoopRange) → (body : List Sexpr) → Readable float range.nodes →
    loopOf float element (range.sexprs ++ [node (word "block" :: body)]) =
      .loop element range.erased ⟨statementsOf float body, .point 0⟩
  | .endless, body, _ => by
    show loopOf float element [node (word "block" :: body)] = _
    rw [loopOf, LoopRange.erased]
  | .over e, body, h => by
    show loopOf float element [e.sexpr, node (word "block" :: body)] = _
    rw [loopOf, e.read h, LoopRange.erased]
    exact fun _ _ => e.sexpr_ne (by decide) _
  | .between first last, body, h => by
    show loopOf float element [node [word "..", first.sexpr, last.sexpr], node (word "block" :: body)] = _
    rw [loopOf, first.read h.left, last.read h.right, LoopRange.erased]

end

end

end JuiceSyntax
