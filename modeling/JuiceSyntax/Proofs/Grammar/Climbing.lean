/-
  What `climb` makes of a chain. The operands that wait have operators of lower and lower level; with the
  last one they are the right spine of a tree (`spine`), and each turn adds one operator at its end.

  `climb_eq_addLinks`: a chain groups as if its operators came one after the other, each with its operand, as
  long as none but a loose operator follows a prefix operator.
-/
import JuiceSyntax.Proofs.Tree.Grouping

namespace JuiceSyntax

open Grammar Grouping

/-! ## Operands -/

section

variable {P : Expr → Prop} (hjoin : ∀ op left right, P left → P right → P (binaryExpr op left right))

include hjoin

/-- What an operator keeps that joins two operands, it keeps when it settles. -/
theorem settle_all (level : Nat) {waiting : List (Expr × BinaryOp)} (h : ∀ w ∈ waiting, P w.1) {right : Expr}
    (hright : P right) :
    (∀ w ∈ (settle level waiting right).1, P w.1) ∧ P (settle level waiting right).2 := by
  induction waiting generalizing right with
  | nil => exact ⟨h, hright⟩
  | cons w waiting ih =>
    unfold settle
    split
    · obtain ⟨hw, hwaiting⟩ := List.forall_mem_cons.1 h
      exact ih hwaiting (hjoin _ _ _ hw hright)
    · exact ⟨h, hright⟩

theorem climb_all {waiting : List (Expr × BinaryOp)} (h : ∀ w ∈ waiting, P w.1) {last : Expr} (hlast : P last)
    {rest : List (BinaryOp × Expr)} (hrest : ∀ link ∈ rest, P link.2) : P (climb waiting last rest) := by
  induction rest generalizing waiting last with
  | nil => exact (settle_all hjoin 0 h hlast).2
  | cons link rest ih =>
    obtain ⟨hlink, hrest⟩ := List.forall_mem_cons.1 hrest
    have hsettled := settle_all hjoin link.1.level h hlast
    exact ih (List.forall_mem_cons.2 ⟨hsettled.2, hsettled.1⟩) hlink hrest

end

/-! ## The right spine -/

/-- An operator of a chain and the operand after it. -/
abbrev Link := BinaryOp × Grouping

def Link.toExpr (link : Link) : BinaryOp × Expr := (link.1, link.2.toExpr)

/-- An operand that waits, and its operator. -/
abbrev Waiter := Grouping × BinaryOp

def Waiter.toExpr (waiter : Waiter) : Expr × BinaryOp := (waiter.1.toExpr, waiter.2)

/-- The tree of the operands that wait, from the last, and the one they wait for. -/
def spine : List Waiter → Grouping → Grouping
  | [], right => right
  | (left, op) :: waiting, right => spine waiting (binary op left right)

/-- The operators have lower and lower level. -/
def Falling (waiting : List Waiter) : Prop := waiting.Pairwise fun inner outer => outer.2.level < inner.2.level

/-- Below looser operators an operator goes to the right. -/
theorem snoc_spine {waiting : List Waiter} {op : BinaryOp} (h : ∀ waiter ∈ waiting, waiter.2.level < op.level)
    (right last : Grouping) : (spine waiting right).snoc op last = spine waiting (right.snoc op last) := by
  induction waiting generalizing right with
  | nil => rfl
  | cons waiter waiting ih =>
    obtain ⟨hlevel, hrest⟩ := List.forall_mem_cons.1 h
    rw [spine, ih hrest, snoc, if_pos (.inl hlevel), spine]

theorem settle_zero_spine (waiting : List Waiter) (right : Grouping) :
    (settle 0 (waiting.map Waiter.toExpr) right.toExpr).2 = (spine waiting right).toExpr := by
  induction waiting generalizing right with
  | nil => rfl
  | cons waiter waiting ih =>
    have hstep : (settle 0 ((waiter :: waiting).map Waiter.toExpr) right.toExpr).2 =
        (settle 0 (waiting.map Waiter.toExpr) (binary waiter.2 waiter.1 right).toExpr).2 := by
      rw [List.map_cons, Waiter.toExpr, settle, if_pos (Nat.zero_le _)]
      rfl
    rw [hstep, ih, spine]

/-- Where an operator settles: the operands left of it are joined as far as it does not bind more tightly
than what they wait for, and it has those for its left operand. -/
theorem settle_spine {op : BinaryOp} {last : Grouping} (waiting : List Waiter) (right : Grouping)
    (hfalling : Falling waiting) (hunary : ¬(2 ≤ op.level ∧ right.endsUnary = true))
    (hroot : right.snoc op last = binary op right last) :
    ∃ waiting' left, settle op.level (waiting.map Waiter.toExpr) right.toExpr = (waiting'.map Waiter.toExpr, left.toExpr) ∧
      (spine waiting right).snoc op last = spine ((left, op) :: waiting') last ∧ Falling ((left, op) :: waiting') := by
  induction waiting generalizing right with
  | nil => exact ⟨[], right, rfl, hroot, List.pairwise_singleton _ _⟩
  | cons waiter waiting ih =>
    obtain ⟨left, op'⟩ := waiter
    obtain ⟨hlower, hrest⟩ := List.pairwise_cons.1 hfalling
    rw [List.map_cons, Waiter.toExpr, settle]
    by_cases hle : op.level ≤ op'.level
    · rw [if_pos hle]
      refine ih (binary op' left right) hrest hunary ?_
      rw [snoc, if_neg (not_or.2 ⟨Nat.not_lt.2 hle, hunary⟩)]
    · rw [if_neg hle]
      have hlevels : ∀ waiter ∈ (left, op') :: waiting, waiter.2.level < op.level := by
        refine List.forall_mem_cons.2 ⟨Nat.lt_of_not_le hle, fun waiter hmem => ?_⟩
        have := hlower waiter hmem
        dsimp only at this
        omega
      refine ⟨(left, op') :: waiting, right, rfl, ?_, List.pairwise_cons.2 ⟨hlevels, hfalling⟩⟩
      rw [snoc_spine hlevels, hroot]
      rfl

/-- Operands as a chain may have them: none is joined by a binary operator of its own, and after a prefix
operator comes only an operator that is loose. -/
inductive Linked : Grouping → List Link → Prop where
  | nil {last : Grouping} (alone : last.level? = none) : Linked last []
  | cons {last next : Grouping} {op : BinaryOp} {rest : List Link} (alone : last.level? = none)
      (loose : last.endsUnary = true → op.level = 1) (linked : Linked next rest) : Linked last ((op, next) :: rest)

/-- The links one after the other. -/
def addLinks (tree : Grouping) (links : List Link) : Grouping := links.foldl (fun tree link => tree.snoc link.1 link.2) tree

theorem climb_spine {last : Grouping} {links : List Link} (h : Linked last links) (waiting : List Waiter)
    (hfalling : Falling waiting) :
    climb (waiting.map Waiter.toExpr) last.toExpr (links.map Link.toExpr) = (addLinks (spine waiting last) links).toExpr := by
  induction h generalizing waiting with
  | nil => exact settle_zero_spine waiting _
  | @cons last next op rest alone loose _ ih =>
    have hunary : ¬(2 ≤ op.level ∧ last.endsUnary = true) := by
      rintro ⟨htight, hends⟩
      have := loose hends
      omega
    have hroot : last.snoc op next = binary op last next := by
      obtain ⟨heq, -⟩ | ⟨-, htight | ⟨level, hlevel, -⟩⟩ := snoc_cases last op next
      · exact heq
      · exact absurd htight hunary
      · rw [alone] at hlevel
        cases hlevel
    obtain ⟨waiting', left, hsettle, hspine, hfalling'⟩ := settle_spine waiting last hfalling hunary hroot
    rw [List.map_cons, Link.toExpr, climb, hsettle]
    have hclimb := ih _ hfalling'
    rw [← hspine] at hclimb
    exact hclimb

theorem climb_eq_addLinks {first : Grouping} {links : List Link} (h : Linked first links) :
    climb [] first.toExpr (links.map Link.toExpr) = (addLinks first links).toExpr :=
  climb_spine h [] List.Pairwise.nil

/-! ## The whole chain -/

/-- The symbols of the links. -/
def linkReading (links : List Link) : List Symbol := links.flatMap fun link => .join link.1 :: link.2.reading

theorem reading_addLinks (tree : Grouping) (links : List Link) :
    (addLinks tree links).reading = tree.reading ++ linkReading links := by
  induction links generalizing tree with
  | nil => rw [linkReading, List.flatMap_nil, List.append_nil]; rfl
  | cons link links ih =>
    have hstep : addLinks tree (link :: links) = addLinks (tree.snoc link.1 link.2) links := rfl
    rw [hstep, ih, reading_snoc, linkReading, linkReading, List.flatMap_cons, List.append_assoc]

theorem grouped_addLinks {tree : Grouping} {links : List Link} (h : tree.Grouped)
    (hlinks : ∀ link ∈ links, link.2.Grouped ∧ link.2.level? = none) : (addLinks tree links).Grouped := by
  induction links generalizing tree with
  | nil => exact h
  | cons link links ih =>
    obtain ⟨⟨hgrouped, hroot⟩, hrest⟩ := List.forall_mem_cons.1 hlinks
    exact ih (h.snoc hgrouped hroot) hrest

end JuiceSyntax
