/-
  What readers are built of. `Composed` lists the steps that a reader may take; the productions
  of the grammar take no others, and see the position of the cursor only in the spans they
  give. A statement about all readers is proved once for each step here, and then holds of every
  production (`composed_item`, `composed_expr`, ...), however productions are put together.

  Steps look at the tokens ahead, never at those behind. `fine` is a property of token lists
  that those ahead have; a list taken from a string literal has to have it too.
-/
import JuiceSyntax.Grammar.Level

namespace JuiceSyntax

open Reader Grammar

/-- The reader of what a brace can open. -/
def BraceForm.reader : BraceForm → Reader Expr
  | .record => recordLiteral
  | .block => blockExpr

/-- As a step reports it: not fatal, and no text is passed over yet. -/
structure Fault.Fresh (fault : Fault) : Prop where
  mild : fault.isFatal = false
  skipped : fault.skipped = none

/-- Readers built of steps that see only the tokens ahead. -/
inductive Composed (fine : List Token → Prop) : {α : Type} → Reader α → Prop where
  | pure {α : Type} (a : α) : Composed fine (Pure.pure a)
  | bind {α β : Type} {r : Reader α} {k : α → Reader β} (first : Composed fine r)
      (next : ∀ a, Composed fine (k a)) : Composed fine (r >>= k)
  | throw {α : Type} (fault : Fault) (fresh : fault.Fresh) : Composed fine (throw fault : Reader α)
  | cursor {α : Type} {k : Cursor → Reader α} (same : ∀ c c' : Cursor, c.rest = c'.rest → k c = k c')
      (next : ∀ c : Cursor, fine c.rest → Composed fine (k c)) : Composed fine (Reader.cursor >>= k)
  | spanFrom (start : Span) : Composed fine (Reader.spanFrom start)
  | halted : Composed fine Reader.halted
  | sourceText (span : Span) : Composed fine (Grammar.sourceText span)
  | advance : Composed fine Reader.advance
  | skip (n : Nat) : Composed fine (skip n)
  | noteBody (inner : Span) : Composed fine
      (modify fun s => { s with macroBodies := s.macroBodies ++ [inner] } : Reader Unit)
  | record (fault : Fault) (fresh : fault.Fresh) : Composed fine (Reader.record fault)
  | expr (position : Position) : Composed fine (Reader.expr position)
  | operand (position : Position) : Composed fine (Reader.operand position)
  | block : Composed fine Reader.block
  | type : Composed fine Reader.type
  | recordLiteral : Composed fine Reader.recordLiteral
  | speculate {α : Type} {r : Reader α} (tried : Composed fine r) : Composed fine (speculate r)
  | tryBrace (form : BraceForm) (tried : Composed fine form.reader) : Composed fine (tryBrace form form.reader)
  | withTokens {α : Type} {tokens : List Token} {r : Reader α} (inner : fine tokens)
      (read : Composed fine r) : Composed fine (withTokens tokens r)
  | recovering {α : Type} (resume : Resume) (ends : Kind → Bool) {item : Reader α}
      (turn : Composed fine item) : Composed fine (recovering resume ends item)

/-- The fragments of a string literal have the property. -/
def FineKind (fine : List Token → Prop) (kind : Kind) : Prop :=
  ∀ multiline pieces, kind = .str multiline pieces →
    ∀ tokens span, .fragment tokens span ∈ pieces → fine tokens

/-- A property that goes over to what is left of a list and to the fragments in it. -/
structure Inherited (fine : List Token → Prop) : Prop where
  advance : ∀ {c : Cursor}, fine c.rest → fine c.advance.rest
  kind : ∀ {token rest}, fine (token :: rest) → FineKind fine token.kind

theorem inherited_true : Inherited fun _ => True :=
  ⟨fun _ => trivial, fun _ _ _ _ _ _ _ => trivial⟩

variable {fine : List Token → Prop}

theorem Inherited.current (hf : Inherited fine) {c : Cursor} (h : fine c.rest) :
    FineKind fine c.kind := by
  unfold Cursor.kind Cursor.current
  cases hr : c.rest with
  | nil =>
    intro multiline pieces hk
    cases hk
  | cons token rest =>
    rw [hr] at h
    exact hf.kind h

namespace Composed

/-! ## Looking -/

theorem kind : Composed fine Reader.kind :=
  .cursor (fun c c' h => by simp only [Cursor.kind, Cursor.current, h]) fun _ _ => .pure _

/-- What is known of the kind at the cursor may be used in what follows. -/
theorem onKind {α : Type} {k : Kind → Reader α} (hf : Inherited fine)
    (next : ∀ kind, FineKind fine kind → Composed fine (k kind)) : Composed fine (Reader.kind >>= k) :=
  .cursor (k := fun c => k c.kind) (fun c c' h => by simp only [Cursor.kind, Cursor.current, h])
    fun c h => next c.kind (hf.current h)

theorem here : Composed fine Reader.here :=
  .cursor (fun c c' h => by simp only [Cursor.span, Cursor.current, h]) fun _ _ => .pure _

theorem peek (n : Nat) : Composed fine (Reader.peek n) :=
  .cursor (fun c c' h => by simp only [Cursor.peek, h]) fun _ _ => .pure _

theorem atEnd : Composed fine Reader.atEnd :=
  .cursor (fun c c' h => by simp only [Cursor.atEnd, Cursor.kind, Cursor.current, h]) fun _ _ => .pure _

theorem tokensLeft : Composed fine JuiceSyntax.tokensLeft :=
  .cursor (fun c c' h => by simp only [c.left_eq, c'.left_eq, h]) fun _ _ => .pure _

theorem atMark (m : Mark) : Composed fine (Reader.atMark m) := .bind .kind fun _ => .pure _

theorem ite {α : Type} {c : Prop} [Decidable c] {r r' : Reader α} (h : Composed fine r)
    (h' : Composed fine r') : Composed fine (if c then r else r') := by
  split
  · exact h
  · exact h'

/-- Two ways to a value that is then used. -/
theorem iteBind {α β : Type} {c : Prop} [Decidable c] {r r' : Reader α} {k : α → Reader β}
    (h : Composed fine r) (h' : Composed fine r') (next : ∀ a, Composed fine (k a)) :
    Composed fine (if c then r >>= k else r' >>= k) :=
  .ite (.bind h next) (.bind h' next)

/-- A check that fails, or nothing, and what follows. -/
theorem unlessBind {β : Type} {c : Prop} [Decidable c] {r : Reader Unit} {k : Unit → Reader β}
    (h : Composed fine r) (next : ∀ a, Composed fine (k a)) :
    Composed fine (if c then k () else r >>= k) :=
  .ite (next ()) (.bind h next)

theorem whenBind {β : Type} {c : Prop} [Decidable c] {r : Reader Unit} {k : Unit → Reader β}
    (h : Composed fine r) (next : ∀ a, Composed fine (k a)) :
    Composed fine (if c then r >>= k else k ()) :=
  .ite (.bind h next) (next ())

/-- A value read in one of two ways, the first in two steps, and what follows. -/
theorem chooseBind {α β γ : Type} {c : Prop} [Decidable c] {r : Reader α} {f : α → Reader β} {r' : Reader β}
    {k : β → Reader γ} (h : Composed fine r) (hf : ∀ a, Composed fine (f a)) (h' : Composed fine r')
    (next : ∀ b, Composed fine (k b)) :
    Composed fine (if c then r >>= fun a => f a >>= k else r' >>= k) :=
  .ite (.bind h fun a => .bind (hf a) next) (.bind h' next)

/-- A check that fails with what stands at the cursor, or nothing, and what follows. -/
theorem whenHereBind {β : Type} {c : Prop} [Decidable c] {f : Span → Reader Unit} {k : Unit → Reader β}
    (h : ∀ span, Composed fine (f span)) (next : ∀ a, Composed fine (k a)) :
    Composed fine (if c then Reader.here >>= fun span => f span >>= k else k ()) :=
  .ite (.bind .here fun span => .bind (h span) next) (next ())

theorem map {α β : Type} {r : Reader α} (f : α → β) (h : Composed fine r) : Composed fine (f <$> r) :=
  .bind h fun _ => .pure _

/-! ## Consuming -/

theorem takeMark (m : Mark) : Composed fine (Reader.takeMark m) :=
  .bind (.atMark m) fun _ => .ite (.bind .advance fun _ => .pure _) (.pure _)

theorem takeWord (w : Keyword) : Composed fine (Reader.takeWord w) :=
  .bind .kind fun _ => .ite (.bind .advance fun _ => .pure _) (.pure _)

theorem throwUnexpected {α : Type} (wanted : Wanted) (advice : Option Advice) :
    Composed fine (Reader.unexpected wanted advice >>= fun fault => MonadExcept.throw fault : Reader α) := by
  show Composed fine (Reader.here >>= fun span => Reader.kind >>= fun found =>
    MonadExcept.throw (Fault.ofCause span (.unexpected wanted found advice)))
  exact .bind .here fun _ => .bind .kind fun _ => .throw _ ⟨rfl, rfl⟩

theorem failUnexpected {α : Type} (wanted : Wanted) : Composed fine (Reader.failUnexpected wanted : Reader α) :=
  .throwUnexpected wanted none

theorem failAdvised {α : Type} (wanted : Wanted) (advice : Advice) :
    Composed fine (Reader.failAdvised wanted advice : Reader α) :=
  .throwUnexpected wanted (some advice)

theorem needMark (m : Mark) : Composed fine (Reader.needMark m) :=
  .bind (.atMark m) fun _ => .ite (.bind .advance fun _ => .pure _)
    (.bind .here fun _ => .bind .kind fun _ => .throw _ ⟨rfl, rfl⟩)

theorem needWord (w : Keyword) : Composed fine (Reader.needWord w) :=
  .bind .kind fun _ => .ite (.bind .advance fun _ => .pure _)
    (.bind .here fun _ => .bind .kind fun _ => .throw _ ⟨rfl, rfl⟩)

theorem separatedUpTo {α : Type} {item : Reader α} (close : Mark) (h : Composed fine item) (fuel : Nat) :
    Composed fine (JuiceSyntax.separatedUpTo close item fuel) := by
  induction fuel with
  | zero => exact .pure _
  | succ fuel ih =>
    exact .bind (.atMark close) fun _ => .ite (.pure _) (.bind h fun _ => .bind (.takeMark _) fun _ =>
      .ite (.bind ih fun _ => .pure _) (.pure _))

theorem separated {α : Type} {item : Reader α} (close : Mark) (h : Composed fine item) :
    Composed fine (JuiceSyntax.separated close item) :=
  .bind .tokensLeft fun _ => .separatedUpTo close h _

end Composed

namespace Grammar

open Composed

/-! ## Literals -/

theorem composed_fragment {tokens : List Token} (h : fine tokens) (span : Span) :
    Composed fine (fragment tokens span) := by
  unfold fragment
  refine .whenBind (.throw _ ⟨rfl, rfl⟩) fun _ => .withTokens h <| .bind (.expr _) fun _ => .bind .atEnd fun _ => ?_
  exact .unlessBind (.failAdvised _ _) fun _ => .pure _

theorem composed_segments {pieces : List Piece}
    (h : ∀ tokens span, .fragment tokens span ∈ pieces → fine tokens) :
    Composed fine (segments pieces) := by
  induction pieces with
  | nil => exact .pure _
  | cons piece rest ih =>
    have hrest := ih fun tokens span hm => h tokens span (List.mem_cons_of_mem _ hm)
    cases piece with
    | text text span => exact .bind hrest fun _ => .pure _
    | escape value raw span => exact .bind hrest fun _ => .pure _
    | fragment tokens span =>
      exact .bind (composed_fragment (h tokens span List.mem_cons_self) span) fun _ =>
        .bind hrest fun _ => .pure _
    | indent span => exact hrest

theorem composed_stringLiteral {multiline : Bool} {pieces : List Piece}
    (h : FineKind fine (.str multiline pieces)) : Composed fine (stringLiteral multiline pieces) :=
  .bind .advance fun _ => .bind (composed_segments (h multiline pieces rfl)) fun _ => .pure _

theorem composed_listLiteral : Composed fine listLiteral :=
  .bind (.needMark _) fun _ => .bind (.separated _ (.expr _)) fun _ => .bind (.needMark _) fun _ => .pure _

theorem composed_atom (kind : ExprKind) : Composed fine (atom kind) := .bind .advance fun _ => .pure _

theorem composed_argLabel : Composed fine argLabel := by
  refine .bind .kind fun _ => .bind (.peek 1) fun _ => ?_
  split
  · exact .bind (.skip 2) fun _ => .pure _
  · exact .pure _

/-! ## Functions and parameters -/

theorem composed_name : Composed fine name := by
  refine .bind .kind fun _ => ?_
  split
  · exact .bind .advance fun _ => .pure _
  · exact .failUnexpected _

theorem composed_anyName : Composed fine anyName := by
  refine .bind .kind fun _ => ?_
  split
  · exact .bind .advance fun _ => .pure _
  · exact .bind .advance fun _ => .pure _
  · exact .failUnexpected _

theorem composed_param {named : Reader (String × Span)} (h : Composed fine named) :
    Composed fine (param named) :=
  .bind h fun _ => .bind (.takeMark _) fun _ => .ite (.bind .type fun _ => .pure _) (.pure _)

theorem composed_params {named : Reader (String × Span)} (h : Composed fine named) :
    Composed fine (params named) :=
  .bind (.needMark _) fun _ => .bind (.separated _ (composed_param h)) fun _ =>
    .bind (.needMark _) fun _ => .pure _

theorem composed_fnName : Composed fine fnName := by
  refine .bind .kind fun _ => ?_
  split
  · exact .bind .advance fun _ => .pure _
  · exact .bind .advance fun _ => .pure _
  · exact .pure _

theorem composed_fnDecl : Composed fine fnDecl :=
  .bind .here fun _ => .bind (.takeWord _) fun _ => .bind (.needWord _) fun _ =>
    .bind composed_fnName fun _ => .bind (.atMark _) fun _ =>
    .iteBind (composed_params composed_name) (.pure _) fun _ => .bind (.takeMark _) fun _ =>
    .iteBind (.map _ .type) (.pure _) fun _ => .bind .block fun _ => .bind (.spanFrom _) fun _ => .pure _

/-! ## Types -/

theorem composed_typeArg : Composed fine typeArg :=
  .bind .here fun _ => .bind composed_argLabel fun _ => .bind .type fun _ => .pure _

theorem composed_typeCall (callee : String) (calleeSpan : Span) :
    Composed fine (typeCall callee calleeSpan) :=
  .bind (.needMark _) fun _ => .bind (.separated _ composed_typeArg) fun _ =>
    .bind (.needMark _) fun _ => .pure _

theorem composed_typeParens : Composed fine typeParens := by
  unfold typeParens
  refine .bind (.needMark _) fun _ => .bind (.atMark _) fun _ => ?_
  refine .whenBind (.failAdvised _ _) fun _ => .bind .type fun _ => .bind (.takeMark _) fun _ => ?_
  refine .ite (.bind (.atMark _) fun _ => .ite ?_ ?_) (.bind (.needMark _) fun _ => .pure _)
  · exact .bind .advance fun _ => .bind (.record _ ⟨rfl, rfl⟩) fun _ => .pure _
  · exact .bind (.separated _ .type) fun _ => .bind (.needMark _) fun _ => .pure _

theorem composed_typeOfName (text : String) (kind : TypeKind) : Composed fine (typeOfName text kind) :=
  .bind .advance fun _ => .bind (.atMark _) fun _ => .ite (composed_typeCall _ _) (.pure _)

theorem composed_literalType {literal : Reader Expr} (h : Composed fine literal) :
    Composed fine (literalType literal) :=
  .bind h fun _ => .pure _

theorem composed_typeAtom (hf : Inherited fine) : Composed fine typeAtom := by
  refine .onKind hf fun kind h => ?_
  split
  · exact composed_typeOfName _ _
  · exact composed_typeOfName _ _
  · exact composed_literalType (composed_atom _)
  · exact composed_literalType (composed_atom _)
  · exact composed_literalType (composed_atom _)
  · exact composed_literalType (composed_stringLiteral h)
  · exact composed_literalType composed_listLiteral
  · exact composed_typeParens
  · exact .failUnexpected _

theorem composed_typeRestUpTo (hf : Inherited fine) (left : TypeExpr) (fuel : Nat) :
    Composed fine (typeRestUpTo left fuel) := by
  induction fuel generalizing left with
  | zero => exact .pure _
  | succ fuel ih =>
    refine .bind .kind fun _ => ?_
    split
    · exact .bind .advance fun _ => .bind (composed_typeAtom hf) fun _ => ih _
    · exact .pure _

theorem composed_typeExpr (hf : Inherited fine) : Composed fine typeExpr :=
  .bind (composed_typeAtom hf) fun _ => .bind .tokensLeft fun _ => composed_typeRestUpTo hf _ _

/-! ## Arguments, macros and parentheses -/

theorem composed_arg : Composed fine arg :=
  .bind .here fun _ => .bind composed_argLabel fun _ => .bind (.expr _) fun _ => .pure _

theorem composed_args : Composed fine args :=
  .bind (.needMark _) fun _ => .bind (.separated _ composed_arg) fun _ =>
    .bind (.needMark _) fun _ => .pure _

theorem composed_macroBody : Composed fine macroBody := by
  unfold macroBody
  refine .bind (.needMark _) fun _ => .cursor (fun c c' h => by simp only [h]) fun _ _ => ?_
  refine .bind (.skip _) fun _ => .bind .atEnd fun _ => .whenHereBind (fun _ => .throw _ ⟨rfl, rfl⟩) fun _ => ?_
  exact .bind .advance fun _ => .bind (.noteBody _) fun _ => .bind (.sourceText _) fun _ => .pure _

theorem composed_macroCall (text : String) (position : Position) :
    Composed fine (macroCall text position) := by
  refine .bind .advance fun _ => .bind (.atMark _) fun _ => .iteBind composed_args (.pure _) fun _ => ?_
  refine .bind (.atMark _) fun _ => .ite (.bind composed_macroBody fun _ => .pure _) ?_
  exact .ite (.pure _) (.failUnexpected _)

theorem composed_parens : Composed fine parens := by
  unfold parens
  refine .bind (.needMark _) fun _ => .bind (.atMark _) fun _ => ?_
  refine .whenBind (.failAdvised _ _) fun _ => .bind (.expr _) fun _ => .bind (.takeMark _) fun _ => ?_
  refine .ite (.bind (.atMark _) fun _ => .ite ?_ ?_) (.bind (.needMark _) fun _ => .pure _)
  · exact .bind .advance fun _ => .bind (.record _ ⟨rfl, rfl⟩) fun _ => .pure _
  · exact .bind (.separated _ (.expr _)) fun _ => .bind (.needMark _) fun _ => .pure _

/-! ## Braces -/

theorem composed_blockExpr : Composed fine blockExpr := .bind .block fun _ => .pure _

theorem composed_unresolvable : Composed fine unresolvable := by
  refine .bind .here fun _ => .cursor (fun c c' h => by simp only [h]) fun _ _ => ?_
  exact .bind (.skip _) fun _ => .bind (.spanFrom _) fun _ => .bind (.record _ ⟨rfl, rfl⟩) fun _ => .pure _

theorem looksLikeRecord_congr {c c' : Cursor} (h : c.rest = c'.rest) :
    looksLikeRecord c = looksLikeRecord c' := by
  simp only [looksLikeRecord, Cursor.peek, h]

/-- A brace tried as one form and then as something else. -/
theorem composed_tryBrace_else (form : BraceForm) {otherwise : Reader Expr} (h : Composed fine form.reader)
    (ho : Composed fine otherwise) :
    Composed fine (do
      if let some e ← tryBrace form form.reader then
        return e
      otherwise) := by
  refine .bind (.tryBrace form h) fun found => ?_
  split
  · exact .pure _
  · exact ho

theorem composed_braceValue : Composed fine braceValue := by
  refine .cursor (fun c c' h => by simp only [looksLikeRecord_congr h]) fun _ _ => .ite ?_ composed_blockExpr
  exact composed_tryBrace_else .record .recordLiteral
    (composed_tryBrace_else .block composed_blockExpr composed_unresolvable)

theorem composed_armBody : Composed fine armBody := by
  refine .bind (.atMark _) fun _ => .unlessBind (.failUnexpected _) fun _ => ?_
  refine composed_tryBrace_else .block composed_blockExpr ?_
  refine .cursor (fun c c' h => by simp only [looksLikeRecord_congr h]) fun _ _ => .ite ?_ composed_blockExpr
  exact composed_tryBrace_else .record .recordLiteral composed_unresolvable

/-! ## Control flow -/

theorem composed_branch : Composed fine branch :=
  .bind (.needWord _) fun _ => .bind (.expr _) fun _ => .bind .block fun _ => .pure _

theorem composed_elseBranchesUpTo (fuel : Nat) : Composed fine (elseBranchesUpTo fuel) := by
  induction fuel with
  | zero => exact .pure _
  | succ fuel ih =>
    refine .bind (.takeWord _) fun _ => .ite (.bind .kind fun _ => .ite ?_ ?_) (.pure _)
    · exact .bind composed_branch fun _ => .bind ih fun _ => .pure _
    · exact .bind composed_blockExpr fun _ => .pure _

theorem composed_conditional : Composed fine conditional :=
  .bind composed_branch fun _ => .bind .tokensLeft fun _ => .bind (composed_elseBranchesUpTo _) fun _ => .pure _

theorem composed_pattern : Composed fine pattern := by
  refine .bind (.speculate (.bind (.expr _) fun _ => .bind (.atMark _) fun _ => ?_)) fun value => ?_
  · exact .unlessBind (.failUnexpected _) fun _ => .pure _
  · split
    · exact .pure _
    · exact .bind .type fun _ => .pure _

theorem composed_arm : Composed fine arm :=
  .bind composed_pattern fun _ => .bind (.needMark _) fun _ => .bind composed_armBody fun _ => .pure _

theorem composed_selection : Composed fine selection :=
  .bind (.needWord _) fun _ => .bind (.expr _) fun _ => .bind (.needMark _) fun _ =>
    .bind (.recovering _ _ composed_arm) fun _ => .bind (.needMark _) fun _ => .pure _

/-! ## Operands and chains -/

theorem composed_primary (hf : Inherited fine) (position : Position) : Composed fine (primary position) := by
  refine .onKind hf fun kind h => ?_
  split
  · exact composed_atom _
  · exact composed_atom _
  · exact composed_atom _
  · exact composed_atom _
  · exact composed_atom _
  · exact composed_stringLiteral h
  · exact composed_macroCall _ _
  · exact composed_listLiteral
  · exact composed_parens
  · cases position with
    | statement => exact composed_blockExpr
    | value => exact composed_braceValue
    | head => exact .failUnexpected _
  · exact .bind composed_fnDecl fun _ => .pure _
  · exact .bind composed_fnDecl fun _ => .pure _
  · exact composed_conditional
  · exact composed_selection
  · exact .bind .here fun _ => .throw _ ⟨rfl, rfl⟩
  · exact .bind .here fun _ => .throw _ ⟨rfl, rfl⟩
  · exact .failUnexpected _

theorem composed_accessesUpTo (hf : Inherited fine) (position : Position) (base : Expr) (fuel : Nat) :
    Composed fine (accessesUpTo position base fuel) := by
  induction fuel generalizing base with
  | zero => exact .pure _
  | succ fuel ih =>
    exact .bind (.takeMark _) fun _ => .ite (.bind (composed_primary hf _) fun _ => ih _) (.pure _)

/-- What is read after an operand, unless a question mark was read after it before. -/
def onceAttempted (e : Expr) (next : Unit → Reader Expr) : Reader Expr :=
  match e.kind with
  | .attempt _ => failAdvised .operator .secondAttempt >>= next
  | _ => next ()

theorem composed_onceAttempted (e : Expr) {next : Unit → Reader Expr} (h : ∀ a, Composed fine (next a)) :
    Composed fine (onceAttempted e next) := by
  unfold onceAttempted
  split
  · exact .bind (.failAdvised _ _) h
  · exact h ()

theorem composed_attemptOf (e : Expr) : Composed fine (attemptOf e) :=
  composed_onceAttempted e fun _ => .unlessBind (.failAdvised _ _) fun _ => .bind .advance fun _ => .pure _

theorem composed_postfixUpTo (hf : Inherited fine) (position : Position) (e : Expr) (fuel : Nat) :
    Composed fine (postfixUpTo position e fuel) := by
  induction fuel generalizing e with
  | zero => exact .pure _
  | succ fuel ih =>
    refine .bind .kind fun _ => ?_
    split
    · exact .bind composed_args fun _ => ih _
    · exact .bind .advance fun _ => .bind (composed_primary hf _) fun _ => .bind .tokensLeft fun _ =>
        .bind (composed_accessesUpTo hf _ _ _) fun _ => ih _
    · exact .bind .advance fun _ => .bind (composed_primary hf _) fun _ => ih _
    · exact .bind (composed_attemptOf _) fun _ => ih _
    · exact .pure _

theorem composed_postfixExpr (hf : Inherited fine) (position : Position) :
    Composed fine (postfixExpr position) :=
  .bind (composed_primary hf _) fun _ => .bind .tokensLeft fun _ => composed_postfixUpTo hf _ _ _

theorem composed_unaryExpr (hf : Inherited fine) (position : Position) :
    Composed fine (unaryExpr position) := by
  refine .bind .kind fun _ => ?_
  split
  · exact .bind .advance fun _ => .bind (.operand _) fun _ => .pure _
  · exact composed_postfixExpr hf _

theorem composed_chainUpTo (hf : Inherited fine) (level : Nat) (position : Position) (fuel : Nat) :
    Composed fine (chainUpTo level position fuel) := by
  induction fuel with
  | zero => exact .pure _
  | succ fuel ih =>
    refine .bind .kind fun _ => ?_
    split
    · exact .bind .advance fun _ => .bind (composed_unaryExpr hf _) fun _ => .bind ih fun _ => .pure _
    · exact .pure _

theorem composed_chain (hf : Inherited fine) (level : Nat) (position : Position) :
    Composed fine (chain level position) :=
  .bind (composed_unaryExpr hf _) fun _ => .bind .tokensLeft fun _ =>
    .bind (composed_chainUpTo hf _ _ _) fun _ => .pure _

/-! ## Records -/

/-- What follows a record field: a comma, or a place where fields may break. -/
def fieldEnd (field : RecordField) : Reader RecordField := do
  unless ← takeMark .comma do
    match ← kind with
    | .name _ | .mark .rBrace => pure ()
    | _ => failUnexpected .recordBreak
  return field

theorem composed_fieldEnd (field : RecordField) : Composed fine (fieldEnd field) := by
  refine .bind (.takeMark _) fun _ => .ite (.pure _) (.bind .kind fun _ => ?_)
  split
  · exact .pure _
  · exact .pure _
  · exact .bind (.failUnexpected _) fun _ => .pure _

theorem composed_recordField : Composed fine recordField :=
  .bind composed_name fun _ => .bind (.takeMark _) fun _ =>
    .chooseBind (.expr _) (fun _ => .pure _) (.pure _) fun field => composed_fieldEnd field

theorem composed_recordFieldsUpTo (fuel : Nat) : Composed fine (recordFieldsUpTo fuel) := by
  induction fuel with
  | zero => exact .pure _
  | succ fuel ih =>
    exact .bind (.atMark _) fun _ => .ite (.pure _) (.bind composed_recordField fun _ => .bind ih fun _ => .pure _)

theorem composed_recordExpr : Composed fine recordExpr :=
  .bind (.needMark _) fun _ => .bind .tokensLeft fun _ => .bind (composed_recordFieldsUpTo _) fun _ =>
    .bind .advance fun _ => .pure _

/-! ## Statements and blocks -/

theorem startsDeclaration_congr {c c' : Cursor} (h : c.rest = c'.rest) :
    startsDeclaration c = startsDeclaration c' := by
  simp only [startsDeclaration, Cursor.kind, Cursor.current, Cursor.peek, h]

theorem startsAssignment_congr {c c' : Cursor} (h : c.rest = c'.rest) :
    startsAssignment c = startsAssignment c' := by
  simp only [startsAssignment, Cursor.kind, Cursor.current, Cursor.peek, h]

theorem composed_binding : Composed fine binding := by
  refine .bind composed_name fun _ => .bind (.takeMark _) fun _ => .ite ?_ ?_
  · exact .bind .type fun _ => .bind (.takeMark _) fun _ => .unlessBind (.failUnexpected _) fun _ =>
      .bind (.pure _) fun _ => .bind (.expr _) fun _ => .pure _
  · exact .bind (.needMark _) fun _ => .bind (.pure _) fun _ => .bind (.expr _) fun _ => .pure _

theorem composed_assignment : Composed fine assignment :=
  .bind composed_name fun _ => .bind (.needMark _) fun _ => .bind (.expr _) fun _ => .pure _

/-- What follows `for`. -/
def loopRest : Reader StatementKind := do
  if ← atMark .lBrace then
    return .loop none .endless (← block)
  let element ← match ← kind, ← peek 1 with
    | .name text, .word .ofWord => do
      skip 2
      pure (some text)
    | _, _ => pure none
  let first ← expr .head
  let range ← if ← takeMark .dotDot then .between first <$> expr .head else pure (.over first)
  return .loop element range (← block)

theorem composed_loopRest : Composed fine loopRest := by
  unfold loopRest
  refine .bind (.atMark _) fun _ => .ite (.bind .block fun _ => .pure _) ?_
  have ranged (element : Option String) : Composed fine (do
      let first ← expr .head
      let range ← if ← takeMark .dotDot then .between first <$> expr .head else pure (.over first)
      return StatementKind.loop element range (← block)) :=
    .bind (.expr _) fun _ => .bind (.takeMark _) fun _ => .iteBind (.map _ (.expr _)) (.pure _) fun _ =>
      .bind .block fun _ => .pure _
  refine .bind .kind fun _ => .bind (.peek 1) fun _ => ?_
  split
  · exact .bind (.skip 2) fun _ => .bind (.pure _) fun _ => ranged _
  · exact .bind (.pure _) fun _ => ranged _

theorem composed_loop : Composed fine loop :=
  .bind (.needWord _) fun _ => composed_loopRest

/-- What follows `return`. -/
def leaveRest : Reader StatementKind := do
  let c ← cursor
  if startsExpr c.kind && !startsDeclaration c && !startsAssignment c then
    return .leave (some (← expr .value))
  else
    return .leave none

theorem composed_leaveRest : Composed fine leaveRest := by
  refine .cursor (fun c c' h => ?_) fun _ _ => .ite (.bind (.expr _) fun _ => .pure _) (.pure _)
  have hk : c.kind = c'.kind := by simp only [Cursor.kind, Cursor.current, h]
  rw [hk, startsDeclaration_congr h, startsAssignment_congr h]

theorem composed_leave : Composed fine leave :=
  .bind .advance fun _ => composed_leaveRest

theorem composed_statementKind : Composed fine statementKind := by
  refine .bind .kind fun _ => ?_
  split
  · exact composed_leave
  · exact .bind .advance fun _ => .pure _
  · exact .bind .advance fun _ => .pure _
  · exact composed_loop
  · exact .bind composed_fnDecl fun _ => .pure _
  · exact .bind composed_fnDecl fun _ => .pure _
  · exact .bind .block fun _ => .pure _
  · exact .bind .here fun _ => .throw _ ⟨rfl, rfl⟩
  · exact .bind .here fun _ => .throw _ ⟨rfl, rfl⟩
  · exact .failAdvised _ _
  · exact .failAdvised _ _
  · exact .failAdvised _ _
  · exact .failAdvised _ _
  · exact .failAdvised _ _
  · refine .cursor (fun c c' h => ?_) fun _ _ => .ite (.bind composed_binding fun _ => .pure _) ?_
    · simp only [startsDeclaration_congr h, startsAssignment_congr h]
    · exact .ite (.bind composed_assignment fun _ => .pure _) (.bind (.expr _) fun _ => .pure _)
  · exact .bind (.peek 1) fun _ => .ite (.failAdvised _ _) (.bind (.expr _) fun _ => .pure _)
  · exact .bind (.expr _) fun _ => .pure _

theorem composed_statement : Composed fine statement :=
  .bind .here fun _ => .bind composed_statementKind fun _ => .bind (.spanFrom _) fun _ => .pure _

/-- What follows the statements of a block: the closing brace, or the end of the tokens. -/
def blockEnd (opening : Span) (statements : List Statement) : Reader Block := do
  if ← atMark .rBrace then
    let closing := (← advance).span
    return ⟨statements, opening.cover closing⟩
  let fault := .ofCause (← here) (.missing (.mark .rBrace) (← kind) none)
  if (← atEnd) && !(← halted) then
    record fault
    return ⟨statements, opening.cover (← here)⟩
  throw fault

theorem composed_blockEnd (opening : Span) (statements : List Statement) :
    Composed fine (blockEnd opening statements) := by
  refine .bind (.atMark _) fun _ => .ite (.bind .advance fun _ => .pure _) ?_
  refine .bind .here fun _ => .bind .kind fun _ => .bind .atEnd fun _ => .bind .halted fun _ => .ite ?_ (.throw _ ⟨rfl, rfl⟩)
  exact .bind (.record _ ⟨rfl, rfl⟩) fun _ => .bind .here fun _ => .pure _

theorem composed_blockBody : Composed fine blockBody :=
  .bind (.needMark _) fun _ => .bind (.recovering _ _ composed_statement) fun _ => composed_blockEnd _ _

/-! ## Items -/

theorem composed_pathRestUpTo (fuel : Nat) : Composed fine (pathRestUpTo fuel) := by
  induction fuel with
  | zero => exact .pure _
  | succ fuel ih =>
    exact .bind (.takeMark _) fun _ => .ite (.bind composed_anyName fun _ => .bind ih fun _ => .pure _) (.pure _)

theorem composed_exposed : Composed fine exposed := by
  refine .bind .kind fun _ => ?_
  split
  · exact .bind .advance fun _ => .pure _
  · exact .bind .advance fun _ => .pure _
  · exact .bind .advance fun _ => .pure _
  · exact .failUnexpected _

/-- What follows `[foreign] import`. -/
theorem composed_importPath (foreign : Bool) : Composed fine (do
    let relative ← takeMark .dot
    let (first, _) ← anyName
    let rest ← pathRestUpTo (← tokensLeft)
    let renamed ← if ← takeWord .asWord then (some ·.1) <$> anyName else pure none
    let names ←
      if ← takeMark .lParen then do
        let names ← separated .rParen exposed
        let _ ← needMark .rParen
        pure names
      else
        pure []
    return (⟨foreign, relative, first :: rest, renamed, names⟩ : Import)) := by
  refine .bind (.takeMark _) fun _ => .bind composed_anyName fun _ => .bind .tokensLeft fun _ =>
    .bind (composed_pathRestUpTo _) fun _ => .bind (.takeWord _) fun _ => .iteBind (.map _ composed_anyName) (.pure _)
    fun _ => .bind (.takeMark _) fun _ => .ite ?_ (.bind (.pure _) fun _ => .pure _)
  exact .bind (.separated _ composed_exposed) fun _ => .bind (.needMark _) fun _ => .bind (.pure _) fun _ => .pure _

theorem composed_importDecl : Composed fine importDecl :=
  .bind (.takeWord _) fun foreign => .bind (.needWord _) fun _ => composed_importPath foreign

theorem composed_member : Composed fine member := by
  refine .cursor (fun c c' h => ?_) fun c _ => ?_
  · simp only [Cursor.kind, Cursor.span, Cursor.current, Cursor.peek, h]
  · dsimp only
    split
    · exact .bind (.skip 2) fun _ => .bind .type fun _ => .pure _
    · exact .bind (.skip 2) fun _ => .bind .type fun _ => .pure _
    · exact .bind .advance fun _ => .bind (.atMark _) fun _ => .iteBind (composed_params composed_name) (.pure _)
        fun _ => .bind (.spanFrom _) fun _ => .pure _
    · exact .failAdvised _ _

theorem composed_addMember (body : Option TypeBody) (member : Member) :
    Composed fine (addMember body member) := by
  unfold addMember
  split
  · exact .pure _
  · exact .pure _
  · exact .bind (.record _ ⟨rfl, rfl⟩) fun _ => .pure _
  · exact .bind (.record _ ⟨rfl, rfl⟩) fun _ => .pure _
  · exact .pure _
  · exact .pure _

theorem composed_membersUpTo (body : Option TypeBody) (fuel : Nat) : Composed fine (membersUpTo body fuel) := by
  induction fuel generalizing body with
  | zero => exact .pure _
  | succ fuel ih =>
    exact .bind (.atMark _) fun _ => .ite (.pure _) (.bind composed_member fun _ =>
      .bind (composed_addMember _ _) fun _ => .bind (.takeMark _) fun _ => ih _)

theorem composed_members : Composed fine members :=
  .bind (.needMark _) fun _ => .bind .tokensLeft fun _ => .bind (composed_membersUpTo _ _) fun _ =>
    .bind (.needMark _) fun _ => .pure _

theorem composed_declaredType (keyword : Bool) : Composed fine (declaredType keyword) := by
  refine .ite composed_anyName (.bind .kind fun _ => ?_)
  split
  · exact .bind .advance fun _ => .pure _
  · exact .failUnexpected _

theorem composed_typeDecl : Composed fine typeDecl :=
  .bind (.takeWord _) fun _ => .bind (composed_declaredType _) fun _ => .bind (.atMark _) fun _ =>
    .iteBind (composed_params composed_anyName) (.pure _) fun _ => .bind (.needMark _) fun _ =>
    .bind (.atMark _) fun _ => .iteBind composed_members (.map _ .type) fun _ => .pure _

theorem composed_implFn : Composed fine implFn := by
  refine .bind .kind fun _ => ?_
  split
  · exact composed_fnDecl
  · exact composed_fnDecl
  · exact .failUnexpected _

theorem composed_implDecl : Composed fine implDecl :=
  .bind (.needWord _) fun _ => .bind .type fun _ => .bind (.takeWord _) fun _ =>
    .chooseBind .type (fun _ => .pure _) (.pure _) fun _ => .bind (.needMark _) fun _ =>
    .bind (.recovering _ _ composed_implFn) fun _ => .bind (.needMark _) fun _ => .pure _

theorem startsTypeDecl_congr {c c' : Cursor} (h : c.rest = c'.rest) :
    startsTypeDecl c = startsTypeDecl c' := by
  simp only [startsTypeDecl, Cursor.kind, Cursor.current, Cursor.peek, h]

theorem startsExportable_congr {c c' : Cursor} (h : c.rest = c'.rest) :
    startsExportable c = startsExportable c' := by
  simp only [startsExportable, startsTypeDecl_congr h, startsDeclaration_congr h, Cursor.kind, Cursor.current, h]

theorem composed_itemKind : Composed fine itemKind := by
  refine .cursor (fun c c' h => ?_) fun c _ => ?_
  · simp only [startsDeclaration_congr h, startsAssignment_congr h, startsTypeDecl_congr h, Cursor.kind,
      Cursor.span, Cursor.current, Cursor.peek, Cursor.peekSpan, h]
  · split
    · exact .bind composed_importDecl fun _ => .pure _
    · exact .bind composed_importDecl fun _ => .pure _
    · exact .bind composed_fnDecl fun _ => .pure _
    · exact .bind composed_fnDecl fun _ => .pure _
    · exact .bind composed_typeDecl fun _ => .pure _
    · exact .bind composed_implDecl fun _ => .pure _
    · exact .throw _ ⟨rfl, rfl⟩
    · exact .throw _ ⟨rfl, rfl⟩
    · refine .ite (.bind composed_binding fun _ => .pure _) ?_
      exact .ite (.bind composed_assignment fun _ => .pure _) (.throw _ ⟨rfl, rfl⟩)
    · exact .ite (.bind composed_typeDecl fun _ => .pure _) (.failUnexpected _)

/-- What follows `[export]`. -/
theorem composed_exported (start : Span) (exported : Bool) : Composed fine (do
    let c ← cursor
    if exported && !startsExportable c then
      throw (.ofCause (start.cover c.span) (.exportWithoutDeclaration c.kind))
    let content ← itemKind
    return (⟨content, exported, ← spanFrom start⟩ : Item)) := by
  refine .cursor (fun c c' h => ?_) fun _ _ => ?_
  · simp only [startsExportable_congr h, Cursor.kind, Cursor.span, Cursor.current, h]
  · refine .whenBind (.throw _ ⟨rfl, rfl⟩) fun _ => .bind composed_itemKind fun _ => .bind (.spanFrom _) fun _ => .pure _

theorem composed_item : Composed fine item :=
  .bind .here fun start => .bind (.takeWord _) fun exported => composed_exported start exported

end Grammar

theorem composed_items : Composed fine items := .recovering _ _ Grammar.composed_item

end JuiceSyntax
