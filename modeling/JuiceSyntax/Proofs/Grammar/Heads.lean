/-
  What is read as an operand, and what is read as a head. An atom is nothing that an operator, an access or a
  call was put around (`Atomic`); a head is put together from atoms without braces.

  `level_heads`: so a head is braceless, at every level.
-/
import JuiceSyntax.Proofs.Grammar.Climbing
import JuiceSyntax.Proofs.Grammar.Giving
import JuiceSyntax.Proofs.Tree.Heads

namespace JuiceSyntax

open Reader Grammar

/-! ## Atoms -/

/-- What `primary` gives. -/
structure Atomic (position : Position) (e : Expr) : Prop where
  closed : e.kind.openParts = []
  braceless : position = .head → e.kind.hasBraces = false

/-- Put together by an operator. -/
def ExprKind.isJoined : ExprKind → Bool
  | .unary _ _ | .binary _ _ _ => true
  | _ => false

theorem Atomic.not_joined {position : Position} {e : Expr} (h : Atomic position e) : e.kind.isJoined = false := by
  have hclosed := h.closed
  unfold ExprKind.isJoined
  split
  · rename_i heq
    rw [heq] at hclosed
    cases hclosed
  · rename_i heq
    rw [heq] at hclosed
    cases hclosed
  · rfl

theorem Atomic.head {e : Expr} (h : Atomic .head e) : e.Braceless := by
  refine .of_parts (h.braceless rfl) ?_
  rw [h.closed]
  exact List.forall_mem_nil _

/-- Where braces cannot be meant as its own. -/
theorem Atomic.of {position : Position} {kind : ExprKind} {span : Span} (h : kind.openParts = []) (h' : kind.hasBraces = false) :
    Atomic position ⟨kind, span⟩ :=
  ⟨h, fun _ => h'⟩

variable {L : Level} {position : Position}

namespace Grammar

theorem atomic_atom {kind : ExprKind} (h : kind.openParts = []) (h' : kind.hasBraces = false) :
    Always L (atom kind) (Atomic position) :=
  .after fun _ => .pure (.of h h')

theorem atomic_macroCall (text : String) : Always L (macroCall text position) (Atomic position) := by
  refine .after fun _ => .look (.atMark _) fun parenthesized => ?_
  have called (span : Span) (result : List Arg × Span) : Always L (do
      if (← atMark .lBrace) && position != .head then
        let body ← macroBody
        return ⟨.macroCall text span parenthesized result.1 (some body), span.cover body.span⟩
      else if parenthesized then
        return ⟨.macroCall text span true result.1 none, span.cover result.2⟩
      else
        failUnexpected .macroArguments) (Atomic position) := by
    refine .look (.atMark _) fun _ => .ite (fun hbody => .after fun _ => .pure ⟨rfl, fun hhead => ?_⟩) fun _ => ?_
    · rw [hhead, Bool.and_eq_true_iff] at hbody
      exact absurd hbody.2 (by decide)
    · exact .ite (fun _ => .pure (.of rfl rfl)) fun _ => .failUnexpected _
  exact .ite (fun _ => .after fun result => called _ result) fun _ => .known (called _ ([], _))

theorem atomic_parens : Always L parens (Atomic position) := by
  unfold parens
  refine .after fun _ => .look (.atMark _) fun _ => .ite (fun _ => .failAdvisedThen _ _) fun _ => .after fun _ => .after fun _ => ?_
  refine .ite (fun _ => .look (.atMark _) fun _ => .ite (fun _ => ?_) fun _ => ?_) fun _ => .after fun _ => .pure (.of rfl rfl)
  · exact .after fun _ => .after fun _ => .pure (.of rfl rfl)
  · exact .after fun _ => .after fun _ => .pure (.of rfl rfl)

/-- A brace is read as a record or a block. -/
theorem atomic_braceValue (hL : L.Grows) (hrecord : Always L recordLiteral fun e => e.kind.openParts = []) :
    Always L braceValue (Atomic .value) := by
  have block : Always L blockExpr (Atomic .value) := .after fun _ => .pure ⟨rfl, nofun⟩
  have unresolvable : Always L unresolvable (Atomic .value) := by
    unfold unresolvable
    exact .after fun _ => .after fun _ => .after fun _ => .after fun _ => .after fun _ => .pure ⟨rfl, nofun⟩
  have tried (form : BraceForm) (composed : Composed (fun _ => True) form.reader)
      (h : Always L form.reader fun e => e.kind.openParts = []) {next : Option Expr → Reader Expr}
      (hfound : ∀ e, Atomic .value e → Always L (next (some e)) (Atomic .value))
      (hnone : Always L (next none) (Atomic .value)) : Always L (tryBrace form form.reader >>= next) (Atomic .value) := by
    refine .bindOf (.tryBrace (.always hL) composed h) fun found hpost => ?_
    cases found with
    | none => exact hnone
    | some e => exact hfound e ⟨hpost e rfl, nofun⟩
  refine .look .cursor fun _ => .ite (fun _ => ?_) fun _ => block
  refine tried .record .recordLiteral hrecord (fun e he => .pure he) ?_
  exact tried .block composed_blockExpr (.after fun _ => .pure rfl) (fun e he => .pure he) unresolvable

theorem atomic_primary (hL : L.Grows) (hrecord : Always L recordLiteral fun e => e.kind.openParts = []) :
    Always L (primary position) (Atomic position) := by
  have fnExpr : Always L (do
      let decl ← fnDecl
      return (⟨.fn decl, decl.span⟩ : Expr)) (Atomic position) := .after fun _ => .pure (.of rfl rfl)
  refine .look .kind fun kind => ?_
  split
  · exact atomic_atom rfl rfl
  · exact atomic_atom rfl rfl
  · exact atomic_atom rfl rfl
  · exact atomic_atom rfl rfl
  · exact atomic_atom rfl rfl
  · exact .after fun _ => .after fun _ => .pure (.of rfl rfl)
  · exact atomic_macroCall _
  · exact .after fun _ => .after fun _ => .after fun _ => .pure (.of rfl rfl)
  · exact atomic_parens
  · cases position with
    | statement => exact .after fun _ => .pure ⟨rfl, nofun⟩
    | value => exact atomic_braceValue hL hrecord
    | head => exact .failUnexpected _
  · exact fnExpr
  · exact fnExpr
  · exact .after fun _ => .after fun _ => .after fun _ => .pure (.of rfl rfl)
  · exact .after fun _ => .after fun _ => .after fun _ => .after fun _ => .after fun _ => .pure (.of rfl rfl)
  · exact .after fun _ => .throw
  · exact .after fun _ => .throw
  · exact .failUnexpected _

end Grammar

/-- At every level a record is read as one. -/
theorem level_record (setting : Setting) (n : Nat) :
    Always (level setting n) recordLiteral fun e => e.kind.openParts = [] := by
  refine ⟨fun _ _ => trivial, fun {s e t} hr _ => ?_⟩
  cases n with
  | zero => cases hr
  | succ n =>
    have h : Always (level setting n) recordExpr fun e => e.kind.openParts = [] :=
      .after fun _ => .after fun _ => .after fun _ => .after fun _ => .pure rfl
    exact h.gives hr trivial

theorem level_primary (setting : Setting) (n : Nat) (position : Position) :
    Always (level setting n) (primary position) (Atomic position) :=
  atomic_primary (level_grows setting n) (level_record setting n)

/-! ## Operands -/

namespace Grammar

theorem always_attemptOf {post : Expr → Prop} {e : Expr} (h : ∀ span, post ⟨.attempt e, span⟩) :
    Always L (attemptOf e) post := by
  have once {next : Unit → Reader Expr} (hnext : Always L (next ()) post) : Always L (onceAttempted e next) post := by
    unfold onceAttempted
    split
    · exact .failAdvisedThen _ _
    · exact hnext
  exact once (.ite (fun _ => .after fun _ => .pure (h _)) fun _ => .failAdvisedThen _ _)

/-- Calls, accesses and question marks give operands, whatever they are put around. -/
theorem operand_postfixUpTo {e : Expr} (h : e.kind.isJoined = false) (fuel : Nat) :
    Always L (postfixUpTo position e fuel) fun e => e.kind.isJoined = false := by
  induction fuel generalizing e with
  | zero => exact .pure h
  | succ fuel ih =>
    refine .look .kind fun kind => ?_
    split
    · exact .after fun _ => ih rfl
    · exact .after fun _ => .after fun _ => .after fun _ => .after fun _ => ih rfl
    · exact .after fun _ => .after fun _ => ih rfl
    · have attempted : Always L (attemptOf e) fun e => e.kind.isJoined = false := always_attemptOf fun _ => rfl
      exact .bindOf attempted fun _ => ih
    · exact .pure h

/-! ## Heads -/

theorem head_accessesUpTo (hprimary : Always L (primary .head) (Atomic .head)) {base : Expr} (h : base.Braceless) (fuel : Nat) :
    Always L (accessesUpTo .head base fuel) Expr.Braceless := by
  induction fuel generalizing base with
  | zero => exact .pure h
  | succ fuel ih =>
    refine .after fun _ => .ite (fun _ => .bindOf hprimary fun member hmember => ?_) fun _ => .pure h
    exact ih (.of_parts rfl (List.forall_mem_cons.2 ⟨h, List.forall_mem_singleton.2 hmember.head⟩))

theorem head_postfixUpTo (hprimary : Always L (primary .head) (Atomic .head)) {e : Expr} (h : e.Braceless) (fuel : Nat) :
    Always L (postfixUpTo .head e fuel) Expr.Braceless := by
  have two {left right : Expr} (hleft : left.Braceless) (hright : right.Braceless) : ∀ e ∈ [left, right], e.Braceless :=
    List.forall_mem_cons.2 ⟨hleft, List.forall_mem_singleton.2 hright⟩
  induction fuel generalizing e with
  | zero => exact .pure h
  | succ fuel ih =>
    refine .look .kind fun kind => ?_
    split
    · exact .after fun _ => ih (.of_parts rfl (List.forall_mem_singleton.2 h))
    · refine .after fun _ => .bindOf hprimary fun first hfirst => .look .tokensLeft fun _ => ?_
      exact .bindOf (head_accessesUpTo hprimary hfirst.head _) fun member hmember => ih (.of_parts rfl (two h hmember))
    · exact .after fun _ => .bindOf hprimary fun member hmember => ih (.of_parts rfl (two h hmember.head))
    · exact .bindOf (always_attemptOf fun _ => .of_parts rfl (List.forall_mem_singleton.2 h)) fun _ => ih
    · exact .pure h

theorem head_unaryExpr (hprimary : Always L (primary .head) (Atomic .head))
    (hoperand : Always L (operand .head) Expr.Braceless) : Always L (unaryExpr .head) Expr.Braceless := by
  refine .look .kind fun kind => ?_
  split
  · exact .after fun _ => .bindOf hoperand fun inner hinner => .pure (.of_parts rfl (List.forall_mem_singleton.2 hinner))
  · exact .bindOf hprimary fun first hfirst => .look .tokensLeft fun _ => head_postfixUpTo hprimary hfirst.head _

theorem head_chainUpTo (hunary : Always L (unaryExpr .head) Expr.Braceless) (least fuel : Nat) :
    Always L (chainUpTo least .head fuel) fun links => ∀ link ∈ links, link.2.Braceless := by
  induction fuel with
  | zero => exact .pure (List.forall_mem_nil _)
  | succ fuel ih =>
    refine .look .kind fun kind => ?_
    split
    · exact .after fun _ => .bindOf hunary fun next hnext => .bindOf ih fun rest hrest =>
        .pure (List.forall_mem_cons.2 ⟨hnext, hrest⟩)
    · exact .pure (List.forall_mem_nil _)

theorem head_chain (hprimary : Always L (primary .head) (Atomic .head))
    (hoperand : Always L (operand .head) Expr.Braceless) (least : Nat) : Always L (chain least .head) Expr.Braceless := by
  have hunary := head_unaryExpr hprimary hoperand
  have hjoin (op : BinaryOp) (left right : Expr) (hleft : left.Braceless) (hright : right.Braceless) :
      (binaryExpr op left right).Braceless :=
    .of_parts rfl (List.forall_mem_cons.2 ⟨hleft, List.forall_mem_singleton.2 hright⟩)
  refine .bindOf hunary fun first hfirst => .look .tokensLeft fun _ => .bindOf (head_chainUpTo hunary least _) fun rest hrest => ?_
  exact .pure (climb_all hjoin (List.forall_mem_nil _) hfirst hrest)

end Grammar

theorem level_operand {setting : Setting} {n : Nat} {position : Position} {s t : State} {e : Expr}
    (h : postfixExpr position (level setting n) s = .ok e t) : e.kind.isJoined = false := by
  have hoperand : Always (level setting n) (postfixExpr position) fun e => e.kind.isJoined = false :=
    .bindOf (level_primary setting n position) fun first hfirst => .look .tokensLeft fun _ =>
      operand_postfixUpTo hfirst.not_joined _
  exact hoperand.gives h trivial

/-- Heads are braceless, and so are the operands of prefix operators in them. -/
theorem level_heads (setting : Setting) (n : Nat) :
    Always (level setting n) (expr .head) Expr.Braceless ∧ Always (level setting n) (operand .head) Expr.Braceless := by
  induction n with
  | zero => exact ⟨.never nofun, .never nofun⟩
  | succ n ih =>
    have below {r : Reader Expr} {least : Nat} (h : r (level setting (n + 1)) = chain least .head (level setting n)) :
        Always (level setting (n + 1)) r Expr.Braceless := by
      refine ⟨fun _ _ => trivial, fun hr ht => ?_⟩
      rw [h] at hr
      exact (head_chain (level_primary setting n .head) ih.2 least).gives hr ht
    exact ⟨below rfl, below rfl⟩

end JuiceSyntax
