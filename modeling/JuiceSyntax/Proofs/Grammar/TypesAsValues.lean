/-
  Types read as values. What is written as a type is written as a value too: names, literals, calls, groups,
  tuples, and the operators between them. `Follows` says of two readers that where the first one ends, and
  what comes next could not go on, the second one ends in the same state.

  `level_follows`: so the readers of types are followed by those of expressions, level by level.
-/
import JuiceSyntax.Proofs.Grammar.Precedence
import JuiceSyntax.Proofs.Grammar.TypeGrammar

namespace JuiceSyntax

open Reader Grammar

/-- Nothing that would go on with an operand, and no binary operator. -/
structure Kind.EndsValue (kind : Kind) : Prop where
  operand : kind.EndsOperand
  unjoined : BinaryOp.ofKind? kind = none

theorem endsValue_of_isMark {kind : Kind} {mark : Mark} (h : kind.isMark mark = true)
    (hmark : mark = .comma ∨ mark = .rParen ∨ mark = .arrow) : kind.EndsValue := by
  rw [eq_of_isMark h]
  obtain rfl | rfl | rfl := hmark <;> exact ⟨⟨nofun, nofun, nofun, nofun⟩, rfl⟩

/-- Where the first reader ends before such a token, the second one ends alike. -/
def Follows (L : Level) (ends : Kind → Prop) {α β : Type} (r : Reader α) (r' : Reader β) : Prop :=
  ∀ ⦃s a t⦄, r L s = .ok a t → ends t.cursor.kind → ∃ b, r' L s = .ok b t

variable {L : Level} {s t : State} {position : Position}

/-! ## Operands -/

/-- An operand that nothing goes on with. -/
theorem unaryExpr_of_primary {e : Expr} (hsign : UnaryOp.ofKind? s.cursor.kind = none) (h : primary position L s = .ok e t)
    (hend : t.cursor.kind.EndsOperand) : ∃ e, unaryExpr position L s = .ok e t := by
  refine ⟨e, ?_⟩
  rw [unaryExpr_of_operand hsign, postfixExpr, bind_apply, h, Ending.andThen_ok]
  exact postfixUpTo_of_end hend e _

/-! ## Lists -/

theorem follows_separatedUpTo {α β : Type} {item : Reader α} {item' : Reader β} (h : Follows L Kind.EndsValue item item')
    (fuel : Nat) : Follows L (·.isMark .rParen = true) (separatedUpTo .rParen item fuel) (separatedUpTo .rParen item' fuel) := by
  induction fuel with
  | zero =>
    intro s items t hr _
    cases hr
    exact ⟨[], rfl⟩
  | succ fuel ih =>
    intro s items t hr hend
    rw [separatedUpTo_succ_apply] at hr
    rw [separatedUpTo_succ_apply]
    split at hr
    · rename_i hclose
      rw [if_pos hclose]
      cases hr
      exact ⟨[], rfl⟩
    · rename_i hopen
      rw [if_neg hopen]
      obtain ⟨first, u, hfirst, hr⟩ := Ending.ok_of_andThen hr
      split at hr
      · rename_i hcomma
        obtain ⟨rest, u', hrest, hr⟩ := Ending.ok_of_andThen hr
        cases hr
        obtain ⟨first', hfirst'⟩ := h hfirst (endsValue_of_isMark hcomma (.inl rfl))
        obtain ⟨rest', hrest'⟩ := ih hrest hend
        refine ⟨first' :: rest', ?_⟩
        rw [hfirst', Ending.andThen_ok, if_pos hcomma, hrest']
        rfl
      · rename_i hlast
        cases hr
        obtain ⟨first', hfirst'⟩ := h hfirst (endsValue_of_isMark hend (.inr (.inl rfl)))
        refine ⟨[first'], ?_⟩
        rw [hfirst', Ending.andThen_ok, if_neg hlast]

/-! ## Calls -/

theorem arg_apply (L : Level) (s : State) :
    arg L s = Ending.andThen (argLabel L s) fun label t => Ending.andThen (Reader.expr .value L t) fun value =>
      .ok ⟨label, value, s.cursor.span.cover value.span⟩ := by
  simp only [arg, here, bind_apply, cursor_apply, pure_apply, Ending.andThen_ok]

theorem follows_arg (h : Follows L Kind.EndsValue Reader.type (Reader.expr .value)) :
    Follows L Kind.EndsValue typeArg arg := by
  intro s result t hr hend
  rw [typeArg_apply] at hr
  obtain ⟨label, u, hlabel, hr⟩ := Ending.ok_of_andThen hr
  obtain ⟨type, u', htype, hr⟩ := Ending.ok_of_andThen hr
  cases hr
  obtain ⟨value, hvalue⟩ := h htype hend
  refine ⟨⟨label, value, s.cursor.span.cover value.span⟩, ?_⟩
  rw [arg_apply, hlabel, Ending.andThen_ok, hvalue]
  rfl

theorem args_apply (h : s.cursor.kind.isMark .lParen = true) :
    args L s = Ending.andThen (separatedUpTo .rParen arg (s.skipped 1).cursor.left L (s.skipped 1)) fun items t =>
      closed t fun closing => (items, closing) := by
  simp only [args, bind_apply, needMark_apply, h, if_true, separated, tokensLeft, cursor_apply, pure_apply,
    Ending.andThen_ok]
  refine congrArg (Ending.andThen _) (funext fun items => funext fun t => ?_)
  unfold closed
  cases t.cursor.kind.isMark .rParen <;> rfl

theorem closed_of_ok {α β : Type} {result : Span → α} {a : α} (h : closed s result = .ok a t) (result' : Span → β) :
    s.cursor.kind.isMark .rParen = true ∧ closed s result' = .ok (result' s.cursor.span) t := by
  unfold closed at h
  split at h
  · rename_i hclose
    cases h
    exact ⟨hclose, if_pos hclose⟩
  · cases h

theorem primary_of_typeName {text : String} (h : s.cursor.kind = .typeName text) :
    primary position L s = .ok ⟨.typeName text, s.cursor.span⟩ (s.skipped 1) := by
  simp only [primary, Reader.kind, bind_apply, cursor_apply, pure_apply, Ending.andThen_ok, h, atom, advance_apply]
  rfl

/-- A name alone, or a call of it. -/
theorem unaryExpr_of_typeOfName (h : Follows L Kind.EndsValue Reader.type (Reader.expr .value))
    (hsign : UnaryOp.ofKind? s.cursor.kind = none) {callee : Expr} (hcallee : primary position L s = .ok callee (s.skipped 1))
    {text : String} {kind : TypeKind} {type : TypeExpr} (hr : typeOfName text kind L s = .ok type t)
    (hend : t.cursor.kind.EndsOperand) : ∃ e, unaryExpr position L s = .ok e t := by
  rw [typeOfName_apply] at hr
  split at hr
  · rename_i hcalled
    obtain ⟨items, u, hitems, hr⟩ := Ending.ok_of_andThen hr
    obtain ⟨hclosing, hclosed⟩ := closed_of_ok hr fun closing => closing
    obtain ⟨items', hitems'⟩ := follows_separatedUpTo (follows_arg h) _ hitems hclosing
    have hargs : args L (s.skipped 1) = .ok (items', u.cursor.span) t := by
      rw [args_apply hcalled, State.skipped_skipped, hitems']
      exact (closed_of_ok hr fun closing => (items', closing)).2
    have hcall (fuel : Nat) : postfixUpTo position.operand callee (fuel + 1) L (s.skipped 1) =
        .ok ⟨.call callee items', callee.span.cover u.cursor.span⟩ t := by
      simp only [postfixUpTo, Reader.kind, bind_apply, cursor_apply, pure_apply, Ending.andThen_ok, eq_of_isMark hcalled,
        hargs]
      exact postfixUpTo_of_end hend _ fuel
    obtain ⟨left, hleft⟩ : ∃ left, (s.skipped 1).cursor.left = left + 1 := by
      rw [← Cursor.length_kinds, kinds_skipped_of_isMark hcalled]
      exact ⟨_, rfl⟩
    refine ⟨⟨.call callee items', callee.span.cover u.cursor.span⟩, ?_⟩
    rw [unaryExpr_of_operand hsign, postfixExpr, bind_apply, hcallee, Ending.andThen_ok]
    show postfixUpTo position.operand callee (s.skipped 1).cursor.left L (s.skipped 1) = _
    rw [hleft]
    exact hcall left
  · cases hr
    exact unaryExpr_of_primary hsign hcallee hend

/-! ## Groups and tuples -/

theorem parens_of_typeParens (h : Follows L Kind.EndsValue Reader.type (Reader.expr .value)) {type : TypeExpr}
    (hr : typeParens L s = .ok type t) : ∃ e, parens L s = .ok e t := by
  rw [typeParens_eq] at hr
  obtain ⟨hopening, hnonempty⟩ := parensOf_begins hr
  rw [parensOf_apply hopening hnonempty] at hr
  rw [parens_eq, parensOf_apply hopening hnonempty]
  obtain ⟨first, u, hfirst, hr⟩ := Ending.ok_of_andThen hr
  split at hr
  · rename_i hcomma
    obtain ⟨first', hfirst'⟩ := h hfirst (endsValue_of_isMark hcomma (.inl rfl))
    rw [hfirst', Ending.andThen_ok, if_pos hcomma]
    split at hr
    · rename_i hsingle
      cases hr
      rw [if_pos hsingle]
      exact ⟨_, rfl⟩
    · rename_i hmore
      obtain ⟨rest, u', hrest, hr⟩ := Ending.ok_of_andThen hr
      obtain ⟨rest', hrest'⟩ := follows_separatedUpTo h _ hrest (closed_of_ok hr fun closing => closing).1
      rw [if_neg hmore, hrest', Ending.andThen_ok]
      exact ⟨_, (closed_of_ok hr _).2⟩
  · rename_i hlast
    obtain ⟨first', hfirst'⟩ := h hfirst (endsValue_of_isMark (closed_of_ok hr fun closing => closing).1 (.inr (.inl rfl)))
    rw [hfirst', Ending.andThen_ok, if_neg hlast]
    exact ⟨_, (closed_of_ok hr _).2⟩

/-! ## Types -/

theorem follows_typeAtom (h : Follows L Kind.EndsValue Reader.type (Reader.expr .value)) (position : Position) :
    Follows L Kind.EndsOperand typeAtom (unaryExpr position) := by
  intro s type t hr hend
  have literal {r : Reader Expr} (hsign : UnaryOp.ofKind? s.cursor.kind = none) (hprimary : primary position L s = r L s)
      (hr : literalType r L s = .ok type t) : ∃ e, unaryExpr position L s = .ok e t := by
    obtain ⟨value, hvalue⟩ := literalType_ok hr
    exact unaryExpr_of_primary hsign (hprimary.trans hvalue) hend
  have hatom := hr
  simp only [typeAtom, Reader.kind, bind_apply, cursor_apply, pure_apply, Ending.andThen_ok] at hatom
  cases hkind : s.cursor.kind with
  | name text =>
    rw [typeAtom_of_name hkind] at hr
    exact unaryExpr_of_typeOfName h (by rw [hkind]; rfl) (primary_of_name hkind) hr hend
  | typeName text =>
    rw [typeAtom_of_typeName hkind] at hr
    exact unaryExpr_of_typeOfName h (by rw [hkind]; rfl) (primary_of_typeName hkind) hr hend
  | int | float | bool | str =>
    rw [hkind] at hatom
    refine literal (by rw [hkind]; rfl) ?_ hatom
    simp only [primary, Reader.kind, bind_apply, cursor_apply, pure_apply, Ending.andThen_ok, hkind]
  | mark mark =>
    by_cases hparens : mark = .lParen
    · rw [hparens] at hkind
      rw [typeAtom_of_lParen hkind] at hr
      obtain ⟨e, he⟩ := parens_of_typeParens h hr
      refine unaryExpr_of_primary (by rw [hkind]; rfl) (e := e) ?_ hend
      simp only [primary, Reader.kind, bind_apply, cursor_apply, pure_apply, Ending.andThen_ok, hkind, he]
    by_cases hlist : mark = .lBracket
    · rw [hlist] at hkind
      rw [typeAtom_of_lBracket hkind] at hr
      refine literal (by rw [hkind]; rfl) ?_ hr
      simp only [primary, Reader.kind, bind_apply, cursor_apply, pure_apply, Ending.andThen_ok, hkind]
    · rw [typeAtom_of_mark hkind hlist hparens] at hr
      cases hr
  | macroName | word | done =>
    rw [hkind] at hatom
    cases hatom

/-- Operators of types are operators of values. -/
theorem binaryOp_of_typeOp {kind : Kind} {op : TypeOp} (h : TypeOp.ofKind? kind = some op) :
    ∃ op', BinaryOp.ofKind? kind = some op' ∧ 1 ≤ op'.level := by
  rw [kind_of_typeOp h]
  cases op
  · exact ⟨.bitOr, rfl, Nat.le_refl 1⟩
  · exact ⟨.bitAnd, rfl, Nat.le_refl 1⟩

/-- Before more operators, or the end of the type, an operand ends. -/
theorem endsOperand_of_typeRestUpTo {left type : TypeExpr} {fuel : Nat} (hr : typeRestUpTo left fuel L s = .ok type t)
    (hend : t.cursor.kind.EndsValue) : s.cursor.kind.EndsOperand := by
  cases fuel with
  | zero =>
    cases hr
    exact hend.operand
  | succ fuel =>
    rw [typeRestUpTo_succ_apply] at hr
    cases hop : TypeOp.ofKind? s.cursor.kind with
    | none =>
      rw [hop] at hr
      cases hr
      exact hend.operand
    | some op =>
      rw [kind_of_typeOp hop]
      cases op <;> exact ⟨nofun, nofun, nofun, nofun⟩

theorem follows_typeRestUpTo (h : Follows L Kind.EndsValue Reader.type (Reader.expr .value)) (position : Position)
    (left : TypeExpr) (fuel : Nat) :
    Follows L Kind.EndsValue (typeRestUpTo left fuel) (chainUpTo 1 position fuel) := by
  induction fuel generalizing left with
  | zero =>
    intro s type t hr _
    cases hr
    exact ⟨[], rfl⟩
  | succ fuel ih =>
    intro s type t hr hend
    rw [typeRestUpTo_succ_apply] at hr
    cases hop : TypeOp.ofKind? s.cursor.kind with
    | none =>
      rw [hop] at hr
      cases hr
      refine ⟨[], chainUpTo_of_end (fun op hop => ?_) _⟩
      rw [hend.unjoined] at hop
      cases hop
    | some op =>
      rw [hop] at hr
      obtain ⟨op', hop', hle⟩ := binaryOp_of_typeOp hop
      obtain ⟨right, u, hright, hrest⟩ := Ending.ok_of_andThen hr
      obtain ⟨right', hright'⟩ := follows_typeAtom h position hright (endsOperand_of_typeRestUpTo hrest hend)
      obtain ⟨rest', hrest'⟩ := ih _ hrest hend
      refine ⟨(op', right') :: rest', ?_⟩
      rw [chainUpTo_of_join hop' hle, hright', Ending.andThen_ok, hrest']
      rfl

theorem follows_typeExpr (h : Follows L Kind.EndsValue Reader.type (Reader.expr .value)) (position : Position) :
    Follows L Kind.EndsValue typeExpr (chain 1 position) := by
  intro s type t hr hend
  obtain ⟨first, u, hfirst, hr⟩ := ok_of_bind hr
  obtain ⟨fuel, u', hleft, hrest⟩ := ok_of_bind hr
  cases hleft
  obtain ⟨first', hfirst'⟩ := follows_typeAtom h position hfirst (endsOperand_of_typeRestUpTo hrest hend)
  obtain ⟨rest', hrest'⟩ := follows_typeRestUpTo h position.operand first _ hrest hend
  refine ⟨climb [] first' rest', ?_⟩
  rw [chain_apply, hfirst', Ending.andThen_ok, hrest']
  rfl

/-- With as many levels below them, expressions are read as far as types are. -/
theorem level_follows (setting : Setting) (n : Nat) (position : Position) :
    Follows (level setting n) Kind.EndsValue Reader.type (Reader.expr position) := by
  induction n generalizing position with
  | zero => exact fun s type t hr => nomatch hr
  | succ n ih => exact fun s type t hr hend => follows_typeExpr (ih .value) position hr hend

end JuiceSyntax
