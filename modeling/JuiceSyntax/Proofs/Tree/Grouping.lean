/-
  How a chain of operands groups. A `Grouping` is a tree over the operands of a chain; its `reading` is
  the chain, from left to right. `Grouped` says by the levels of operators which of the trees with one
  reading is meant.

  `Grouped.unique`: there is only one. Every grouped tree is that of a shorter chain with one operator
  and its operand added at the end (`Grouping.snoc`), and the reading says which.
-/
import JuiceSyntax.Grammar.Expression

namespace JuiceSyntax

open Grammar

/-- What a chain is made of. -/
inductive Symbol where
  /-- A prefix operator with its place. -/
  | sign (op : UnaryOp) (span : Span)
  | operand (e : Expr)
  | join (op : BinaryOp)

/-- A tree over the operands of a chain. -/
inductive Grouping where
  | operand (e : Expr)
  | unary (op : UnaryOp) (span : Span) (inner : Grouping)
  | binary (op : BinaryOp) (left right : Grouping)

theorem BinaryOp.one_le_level (op : BinaryOp) : 1 ≤ op.level := by
  cases op <;> decide

namespace Grouping

/-- The expression with this shape. -/
def toExpr : Grouping → Expr
  | operand e => e
  | unary op span inner => ⟨.unary op inner.toExpr, span.cover inner.toExpr.span⟩
  | binary op left right => binaryExpr op left.toExpr right.toExpr

/-- The tree in order. -/
def reading : Grouping → List Symbol
  | operand e => [.operand e]
  | unary op span inner => .sign op span :: inner.reading
  | binary op left right => left.reading ++ .join op :: right.reading

/-- The level of the binary operator at the root. -/
def level? : Grouping → Option Nat
  | operand _ | unary _ _ _ => none
  | binary op _ _ => some op.level

/-- Following right operands of binary operators one comes to a prefix operator. -/
def endsUnary : Grouping → Bool
  | operand _ => false
  | unary _ _ _ => true
  | binary _ _ right => right.endsUnary

/-- Left operands bind at least as tightly as the operator, right ones more tightly; the operand of a
prefix operator is no looser than level 2, and after a prefix operator only level 1 does not go into its
operand. -/
inductive Grouped : Grouping → Prop where
  | operand (e : Expr) : Grouped (operand e)
  | unary (op : UnaryOp) (span : Span) {inner : Grouping} (grouped : Grouped inner)
      (tight : ∀ level, inner.level? = some level → 2 ≤ level) : Grouped (unary op span inner)
  | binary {op : BinaryOp} {left right : Grouping} (front : Grouped left) (back : Grouped right)
      (atLeast : ∀ level, left.level? = some level → op.level ≤ level)
      (above : ∀ level, right.level? = some level → op.level < level)
      (loose : left.endsUnary = true → op.level = 1) : Grouped (binary op left right)

/-- Only prefix operators in front of an operand. -/
def IsTerm : Grouping → Prop
  | operand _ => True
  | unary _ _ inner => inner.IsTerm
  | binary _ _ _ => False

/-- The chain with one operator and its operand more: they go to the right as far as the operator binds
more tightly, or into the operand of a prefix operator that they follow. -/
def snoc (tree : Grouping) (op : BinaryOp) (last : Grouping) : Grouping :=
  match tree with
  | operand e => binary op (operand e) last
  | unary op' span inner =>
    if 2 ≤ op.level then unary op' span (inner.snoc op last) else binary op (unary op' span inner) last
  | binary op' left right =>
    if op'.level < op.level ∨ (2 ≤ op.level ∧ right.endsUnary = true) then binary op' left (right.snoc op last)
    else binary op (binary op' left right) last

/-! ## Readings -/

theorem reading_snoc (tree : Grouping) (op : BinaryOp) (last : Grouping) :
    (tree.snoc op last).reading = tree.reading ++ .join op :: last.reading := by
  induction tree with
  | operand e => rfl
  | unary op' span inner ih =>
    unfold snoc
    split
    · simp only [reading, ih, List.cons_append]
    · rfl
  | binary op' left right _ ih =>
    unfold snoc
    split
    · simp only [reading, ih, List.append_assoc, List.cons_append]
    · rfl

theorem level?_mem {tree : Grouping} {level : Nat} (h : tree.level? = some level) :
    ∃ op, .join op ∈ tree.reading ∧ op.level = level := by
  cases tree with
  | operand | unary => cases h
  | binary op left right =>
    cases h
    exact ⟨op, List.mem_append_right _ List.mem_cons_self, rfl⟩

/-- There is no binary operator in it. -/
def Joinless (symbols : List Symbol) : Prop := ∀ op, .join op ∉ symbols

theorem IsTerm.joinless {tree : Grouping} (h : tree.IsTerm) : Joinless tree.reading := by
  intro op hmem
  induction tree with
  | operand e => simp [reading] at hmem
  | unary op' span inner ih =>
    rw [reading, List.mem_cons] at hmem
    obtain hsign | hinner := hmem
    · cases hsign
    · exact ih h hinner
  | binary => exact h

/-- What stands in front of an operand says everything of a term. -/
theorem IsTerm.unique {tree tree' : Grouping} (h : tree.IsTerm) (h' : tree'.IsTerm)
    (heq : tree.reading = tree'.reading) : tree = tree' := by
  induction tree generalizing tree' with
  | operand e =>
    cases tree' with
    | operand e' =>
      simp only [reading, List.cons.injEq, Symbol.operand.injEq, and_true] at heq
      rw [heq]
    | unary => simp [reading] at heq
    | binary => exact h'.elim
  | unary op span inner ih =>
    cases tree' with
    | operand => simp [reading] at heq
    | unary op' span' inner' =>
      simp only [reading, List.cons.injEq, Symbol.sign.injEq] at heq
      obtain ⟨⟨rfl, rfl⟩, hinner⟩ := heq
      have hterm : inner'.IsTerm := h'
      rw [ih h hterm hinner]
    | binary => exact h'.elim
  | binary => exact h.elim

/-- A chain is split at its last operator in one way. -/
theorem split_last {front front' back back' : List Symbol} {op op' : BinaryOp} (h : Joinless back)
    (h' : Joinless back') (heq : front ++ .join op :: back = front' ++ .join op' :: back') :
    front = front' ∧ op = op' ∧ back = back' := by
  obtain ⟨between, hfront, hback⟩ | ⟨between, hfront, hback⟩ := List.append_eq_append_iff.1 heq
  · cases between with
    | nil =>
      rw [List.nil_append, List.cons.injEq, Symbol.join.injEq] at hback
      exact ⟨by rw [hfront, List.append_nil], hback⟩
    | cons first rest =>
      rw [List.cons_append, List.cons.injEq] at hback
      exact absurd (hback.2 ▸ List.mem_append_right _ List.mem_cons_self) (h op')
  · cases between with
    | nil =>
      rw [List.nil_append, List.cons.injEq, Symbol.join.injEq] at hback
      exact ⟨by rw [hfront, List.append_nil], hback.1.symm, hback.2.symm⟩
    | cons first rest =>
      rw [List.cons_append, List.cons.injEq] at hback
      exact absurd (hback.2 ▸ List.mem_append_right _ List.mem_cons_self) (h' op)

/-! ## The operator at the end -/

/-- The new operator is at the root, where everything before it binds at least as tightly and it does not
follow a prefix operator; or it is further to the right. -/
theorem snoc_cases (tree : Grouping) (op : BinaryOp) (last : Grouping) :
    (tree.snoc op last = binary op tree last ∧ ¬(2 ≤ op.level ∧ tree.endsUnary = true) ∧
      ∀ level, tree.level? = some level → op.level ≤ level) ∨
    ((tree.snoc op last).level? = tree.level? ∧
      ((2 ≤ op.level ∧ tree.endsUnary = true) ∨ ∃ level, tree.level? = some level ∧ level < op.level)) := by
  cases tree with
  | operand e => exact .inl ⟨rfl, by simp [endsUnary], by simp [level?]⟩
  | unary op' span inner =>
    by_cases htight : 2 ≤ op.level
    · refine .inr ⟨?_, .inl ⟨htight, rfl⟩⟩
      rw [snoc, if_pos htight]
      rfl
    · refine .inl ⟨?_, fun h => htight h.1, by simp [level?]⟩
      rw [snoc, if_neg htight]
  | binary op' left right =>
    by_cases hright : op'.level < op.level ∨ (2 ≤ op.level ∧ right.endsUnary = true)
    · refine .inr ⟨?_, ?_⟩
      · rw [snoc, if_pos hright]
        rfl
      · obtain hlevel | hunary := hright
        · exact .inr ⟨op'.level, rfl, hlevel⟩
        · exact .inl hunary
    · rw [not_or] at hright
      refine .inl ⟨?_, hright.2, ?_⟩
      · rw [snoc, if_neg (not_or.2 hright)]
      · intro level hlevel
        cases hlevel
        exact Nat.le_of_not_lt hright.1

theorem snoc_eq_binary {op : BinaryOp} {left right : Grouping} (h : (binary op left right).Grouped) :
    left.snoc op right = binary op left right := by
  cases h with
  | binary front back atLeast above loose =>
    obtain ⟨heq, -, -⟩ | ⟨-, ⟨htight, hunary⟩ | ⟨level, hlevel, hlt⟩⟩ := snoc_cases left op right
    · exact heq
    · have := loose hunary
      omega
    · have := atLeast level hlevel
      omega

theorem Grouped.snoc {tree last : Grouping} {op : BinaryOp} (h : tree.Grouped) (hlast : last.Grouped)
    (hroot : last.level? = none) : (tree.snoc op last).Grouped := by
  have hnone (level : Nat) : last.level? = some level → op.level < level := by
    rw [hroot]
    exact nofun
  induction h with
  | operand e => exact .binary (.operand e) hlast (by simp [level?]) hnone (by simp [endsUnary])
  | @unary op' span inner grouped tight ih =>
    unfold Grouping.snoc
    split
    · rename_i htight
      refine .unary op' span ih fun level hlevel => ?_
      obtain ⟨heq, -, -⟩ | ⟨heq, -⟩ := snoc_cases inner op last
      · rw [heq] at hlevel
        cases hlevel
        exact htight
      · exact tight level (heq.symm.trans hlevel)
    · rename_i hloose
      have hone := op.one_le_level
      exact .binary (.unary op' span grouped tight) hlast (by simp [level?]) hnone fun _ => by omega
  | @binary op' left right front back atLeast above loose _ ih =>
    unfold Grouping.snoc
    split
    · rename_i hright
      refine .binary front ih atLeast (fun level hlevel => ?_) loose
      obtain ⟨heq, hnot, -⟩ | ⟨heq, -⟩ := snoc_cases right op last
      · rw [heq] at hlevel
        cases hlevel
        obtain hlt | hunary := hright
        · exact hlt
        · exact absurd hunary hnot
      · exact above level (heq.symm.trans hlevel)
    · rename_i hleft
      rw [not_or] at hleft
      have hone := op.one_le_level
      refine .binary (.binary front back atLeast above loose) hlast (fun level hlevel => ?_) hnone fun hunary => ?_
      · cases hlevel
        exact Nat.le_of_not_lt hleft.1
      · rcases Nat.lt_or_ge op.level 2 with hloose | htight
        · omega
        · exact absurd ⟨htight, hunary⟩ hleft.2

/-- A grouped tree is a term, or a grouped tree with one operator and a term more. -/
theorem Grouped.cases_snoc {tree : Grouping} (h : tree.Grouped) :
    tree.IsTerm ∨ ∃ (front : Grouping) (op : BinaryOp) (last : Grouping), front.Grouped ∧ last.IsTerm ∧ tree = front.snoc op last := by
  induction h with
  | operand e => exact .inl trivial
  | @unary op' span inner grouped tight ih =>
    obtain hterm | ⟨front, op, last, hfront, hlast, rfl⟩ := ih
    · exact .inl hterm
    refine .inr ⟨.unary op' span front, op, last, ?_, hlast, ?_⟩
    · refine .unary op' span hfront fun level hlevel => ?_
      obtain ⟨heq, -, hle⟩ | ⟨heq, -⟩ := snoc_cases front op last
      · have := tight op.level (by rw [heq]; rfl)
        have := hle level hlevel
        omega
      · exact tight level (heq.trans hlevel)
    · have htight : 2 ≤ op.level := by
        obtain ⟨heq, -, -⟩ | ⟨heq, ⟨htight, -⟩ | ⟨level, hlevel, hlt⟩⟩ := snoc_cases front op last
        · exact tight op.level (by rw [heq]; rfl)
        · exact htight
        · have := tight level (heq.trans hlevel)
          omega
      rw [Grouping.snoc, if_pos htight]
  | @binary op' left right front back atLeast above loose _ ih =>
    obtain hterm | ⟨inner, op, last, hinner, hlast, rfl⟩ := ih
    · exact .inr ⟨left, op', right, front, hterm, (snoc_eq_binary (.binary front back atLeast above loose)).symm⟩
    refine .inr ⟨.binary op' left inner, op, last, ?_, hlast, ?_⟩
    · refine .binary front hinner atLeast (fun level hlevel => ?_) loose
      obtain ⟨heq, -, hle⟩ | ⟨heq, -⟩ := snoc_cases inner op last
      · have := above op.level (by rw [heq]; rfl)
        have := hle level hlevel
        omega
      · exact above level (heq.trans hlevel)
    · have hright : op'.level < op.level ∨ (2 ≤ op.level ∧ inner.endsUnary = true) := by
        obtain ⟨heq, -, -⟩ | ⟨heq, hunary | ⟨level, hlevel, hlt⟩⟩ := snoc_cases inner op last
        · exact .inl (above op.level (by rw [heq]; rfl))
        · exact .inr hunary
        · have := above level (heq.trans hlevel)
          exact .inl (by omega)
      rw [Grouping.snoc, if_pos hright]

/-- Of all trees with one reading one is grouped. -/
theorem Grouped.unique {tree tree' : Grouping} (h : tree.Grouped) (h' : tree'.Grouped)
    (heq : tree.reading = tree'.reading) : tree = tree' := by
  induction hn : tree.reading.length using Nat.strongRecOn generalizing tree tree' with
  | ind n ih =>
  obtain hterm | ⟨front, op, last, hfront, hlast, rfl⟩ := h.cases_snoc
  · obtain hterm' | ⟨front', op', last', -, -, rfl⟩ := h'.cases_snoc
    · exact hterm.unique hterm' heq
    · rw [reading_snoc] at heq
      exact absurd (heq ▸ List.mem_append_right _ List.mem_cons_self) (hterm.joinless op')
  · obtain hterm' | ⟨front', op', last', hfront', hlast', rfl⟩ := h'.cases_snoc
    · rw [reading_snoc] at heq
      exact absurd (heq ▸ List.mem_append_right _ List.mem_cons_self) (hterm'.joinless op)
    · rw [reading_snoc, reading_snoc] at heq
      obtain ⟨hfronts, rfl, hlasts⟩ := split_last hlast.joinless hlast'.joinless heq
      have hlt : front.reading.length < n := by
        rw [← hn, reading_snoc, List.length_append, List.length_cons]
        omega
      rw [ih _ hlt hfront hfront' hfronts rfl, hlast.unique hlast' hlasts]

end Grouping

end JuiceSyntax
