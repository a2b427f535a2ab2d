/-
  How chains of operands are read. A chain is a run of single steps (`ChainStep`): a prefix operator, an
  operand with what follows it, a binary operator. A prefix operator goes one level deeper, and the next
  loose operator comes back to where the chain began.

  `chain_groups`: the reader of expressions reads a chain as the one grouped tree over it.
-/
import JuiceSyntax.Proofs.Grammar.Climbing
import JuiceSyntax.Proofs.Grammar.Consuming
import JuiceSyntax.Proofs.Grammar.Heads
import JuiceSyntax.Proofs.Grammar.Progress

namespace JuiceSyntax

open Reader Grammar Grouping

/-! ## Chains -/

/-- Where the reading of a chain stands: before an operand that is due, or behind one, with so many levels
below it. -/
structure ChainPoint where
  due : Bool
  depth : Nat
  position : Position
  state : State

inductive ChainStep (setting : Setting) (base : Nat) : ChainPoint → Symbol → ChainPoint → Prop where
  | sign {depth : Nat} {position : Position} {s : State} {op : UnaryOp}
      (ahead : UnaryOp.ofKind? s.cursor.kind = some op) :
      ChainStep setting base ⟨true, depth + 1, position, s⟩ (.sign op s.cursor.span)
        ⟨true, depth, position.operand, s.skipped 1⟩
  | operand {depth : Nat} {position : Position} {s t : State} {e : Expr}
      (ahead : UnaryOp.ofKind? s.cursor.kind = none) (read : postfixExpr position (level setting depth) s = .ok e t) :
      ChainStep setting base ⟨true, depth, position, s⟩ (.operand e) ⟨false, depth, position.operand, t⟩
  | tight {depth : Nat} {position : Position} {s : State} {op : BinaryOp}
      (ahead : BinaryOp.ofKind? s.cursor.kind = some op) (tight : 2 ≤ op.level) :
      ChainStep setting base ⟨false, depth, position, s⟩ (.join op) ⟨true, depth, position, s.skipped 1⟩
  | loose {depth : Nat} {position : Position} {s : State} {op : BinaryOp}
      (ahead : BinaryOp.ofKind? s.cursor.kind = some op) (loose : op.level = 1) :
      ChainStep setting base ⟨false, depth, position, s⟩ (.join op) ⟨true, base, position, s.skipped 1⟩

inductive ChainRun (setting : Setting) (base : Nat) : ChainPoint → List Symbol → ChainPoint → Prop where
  | nil (point : ChainPoint) : ChainRun setting base point [] point
  | cons {point next last : ChainPoint} {symbol : Symbol} {symbols : List Symbol}
      (step : ChainStep setting base point symbol next) (run : ChainRun setting base next symbols last) :
      ChainRun setting base point (symbol :: symbols) last

/-- A run to a place behind an operand, where the state is `t`. -/
def ChainTo (setting : Setting) (base : Nat) (point : ChainPoint) (symbols : List Symbol) (t : State) : Prop :=
  ∃ depth position, ChainRun setting base point symbols ⟨false, depth, position, t⟩

/-- From `s` to `t` stands a chain of these symbols, with `depth` levels below its operands where no prefix
operator is in front of them. -/
structure IsChain (setting : Setting) (depth : Nat) (position : Position) (s : State) (symbols : List Symbol)
    (t : State) : Prop where
  run : ChainTo setting depth ⟨true, depth, position, s⟩ symbols t
  ends : BinaryOp.ofKind? t.cursor.kind = none

theorem operand_operand (position : Position) : position.operand.operand = position.operand := by
  cases position <;> rfl

/-! ## Readers -/

variable {setting : Setting} {base depth depth' n : Nat} {position position' : Position} {s t : State} {L : Level}

theorem unaryExpr_of_sign {op : UnaryOp} (h : UnaryOp.ofKind? s.cursor.kind = some op) (L : Level) :
    unaryExpr position L s = Ending.andThen (operand position.operand L (s.skipped 1)) fun inner t =>
      .ok ⟨.unary op inner, s.cursor.span.cover inner.span⟩ t := by
  simp only [unaryExpr, Reader.kind, bind_apply, cursor_apply, pure_apply, Ending.andThen_ok, h, advance_apply]
  rfl

theorem operand_level (depth : Nat) :
    operand position (level setting (depth + 1)) = chain operandLevel position (level setting depth) := rfl

theorem unaryExpr_of_operand (h : UnaryOp.ofKind? s.cursor.kind = none) :
    unaryExpr position L s = postfixExpr position L s := by
  simp only [unaryExpr, Reader.kind, bind_apply, cursor_apply, pure_apply, Ending.andThen_ok, h]

theorem chainUpTo_of_join {op : BinaryOp} {least : Nat} (h : BinaryOp.ofKind? s.cursor.kind = some op)
    (hle : least ≤ op.level) (fuel : Nat) :
    chainUpTo least position (fuel + 1) L s =
      Ending.andThen (unaryExpr position L (s.skipped 1)) fun next t =>
        Ending.andThen (chainUpTo least position fuel L t) fun rest => .ok ((op, next) :: rest) := by
  have hfilter : (BinaryOp.ofKind? s.cursor.kind).filter (fun op => decide (least ≤ op.level)) = some op := by
    rw [h, Option.filter_some, if_pos (decide_eq_true hle)]
  simp only [chainUpTo, Reader.kind, bind_apply, cursor_apply, pure_apply, Ending.andThen_ok, hfilter, advance_apply]
  rfl

theorem chainUpTo_of_end {least : Nat} (h : ∀ op, BinaryOp.ofKind? s.cursor.kind = some op → op.level < least)
    (fuel : Nat) : chainUpTo least position fuel L s = .ok [] s := by
  have hfilter : (BinaryOp.ofKind? s.cursor.kind).filter (fun op => decide (least ≤ op.level)) = none := by
    cases hop : BinaryOp.ofKind? s.cursor.kind with
    | none => rfl
    | some op => rw [Option.filter_some, if_neg (by simpa using h op hop)]
  cases fuel with
  | zero => rfl
  | succ fuel =>
    simp only [chainUpTo, Reader.kind, bind_apply, cursor_apply, pure_apply, Ending.andThen_ok, hfilter]

theorem chain_apply (least : Nat) (position : Position) (L : Level) (s : State) :
    chain least position L s =
      Ending.andThen (unaryExpr position L s) fun first t =>
        Ending.andThen (chainUpTo least position.operand t.cursor.left L t) fun rest => .ok (climb [] first rest) := by
  simp only [chain, tokensLeft, bind_apply, cursor_apply, pure_apply, Ending.andThen_ok]

/-! ## Runs -/

/-- All binary operators are of level 2 at least. -/
def Tightly (symbols : List Symbol) : Prop := ∀ op, .join op ∈ symbols → 2 ≤ op.level

/-- Whatever follows is nothing, or a loose operator. -/
def Loosely (symbols : List Symbol) : Prop := ∀ op rest, symbols = .join op :: rest → op.level = 1

theorem Tightly.append {front rest : List Symbol} (h : Tightly (front ++ rest)) : Tightly front ∧ Tightly rest :=
  ⟨fun op hmem => h op (List.mem_append_left _ hmem), fun op hmem => h op (List.mem_append_right _ hmem)⟩

theorem loosely_of_cases {symbols : List Symbol}
    (h : symbols = [] ∨ ∃ op rest, symbols = .join op :: rest ∧ op.level = 1) : Loosely symbols := by
  rintro op rest rfl
  obtain h | ⟨op', rest', heq, hloose⟩ := h
  · cases h
  · cases heq
    exact hloose

/-- A run up to its first loose operator. -/
theorem ChainRun.split {point last : ChainPoint} {symbols : List Symbol} (h : ChainRun setting base point symbols last)
    (hlast : last.due = false) :
    ∃ front rest middle, symbols = front ++ rest ∧ ChainRun setting base point front middle ∧ middle.due = false ∧
      Tightly front ∧ ChainRun setting base middle rest last ∧
      (rest = [] ∨ ∃ op symbols, rest = .join op :: symbols ∧ op.level = 1) := by
  induction h with
  | nil point =>
    exact ⟨[], [], point, rfl, .nil point, hlast, fun op hmem => absurd hmem List.not_mem_nil, .nil point, .inl rfl⟩
  | @cons point next last symbol symbols step run ih =>
    obtain ⟨front, rest, middle, rfl, hfront, hmiddle, htight, hrest, hends⟩ := ih hlast
    have hnext (hsymbol : ∀ op, symbol = .join op → 2 ≤ op.level) : Tightly (symbol :: front) := by
      intro op hmem
      obtain hhead | htail := List.mem_cons.1 hmem
      · exact hsymbol op hhead.symm
      · exact htight op htail
    cases step with
    | sign ahead => exact ⟨_ :: front, rest, middle, rfl, .cons (.sign ahead) hfront, hmiddle, hnext nofun, hrest, hends⟩
    | operand ahead read =>
      exact ⟨_ :: front, rest, middle, rfl, .cons (.operand ahead read) hfront, hmiddle, hnext nofun, hrest, hends⟩
    | tight ahead tight =>
      refine ⟨_ :: front, rest, middle, rfl, .cons (.tight ahead tight) hfront, hmiddle, hnext fun op heq => ?_, hrest, hends⟩
      cases heq
      exact tight
    | loose ahead loose =>
      exact ⟨[], _ :: (front ++ rest), _, rfl, .nil _, rfl, fun op hmem => absurd hmem List.not_mem_nil,
        .cons (.loose ahead loose) run, .inr ⟨_, _, rfl, loose⟩⟩

/-- Only the first operand stands where the chain does. -/
theorem ChainRun.position_eq {point last : ChainPoint} {symbols : List Symbol}
    (h : ChainRun setting base point symbols last) (hlast : last.due = false)
    (hpoint : point.due = false → point.position.operand = point.position) :
    last.position = point.position.operand := by
  induction h with
  | nil point => exact (hpoint hlast).symm
  | cons step run ih =>
    cases step with
    | sign ahead => exact (ih hlast nofun).trans (operand_operand _)
    | operand ahead read => exact (ih hlast fun _ => operand_operand _).trans (operand_operand _)
    | tight ahead tight => exact ih hlast nofun
    | loose ahead loose => exact ih hlast nofun

/-- Before a loose operator it makes no difference how deep the last operand was. -/
theorem ChainRun.rebase {last : ChainPoint} {symbols : List Symbol}
    (h : ChainRun setting base ⟨false, depth, position, s⟩ symbols last) (hlast : last.due = false)
    (hends : symbols = [] ∨ ∃ op rest, symbols = .join op :: rest ∧ op.level = 1) (depth' : Nat) :
    ChainTo setting base ⟨false, depth', position, s⟩ symbols last.state := by
  obtain rfl | ⟨op, rest, rfl, hloose⟩ := hends
  · cases h
    exact ⟨depth', position, .nil _⟩
  · obtain ⟨due, depth'', position', t⟩ := last
    cases hlast
    cases h with
    | cons step run =>
      cases step with
      | tight ahead tight => omega
      | loose ahead loose => exact ⟨depth'', position', .cons (.loose ahead loose) run⟩

/-- Where a chain is read by `chain least`: loose operators only at the level at which it began. -/
def Within (base least depth : Nat) (symbols : List Symbol) : Prop :=
  (least = 1 ∧ depth = base) ∨ (least = 2 ∧ Tightly symbols)

theorem Within.append {least : Nat} {front rest : List Symbol} (h : Within base least depth (front ++ rest)) :
    Within base least depth rest := by
  obtain h | ⟨hleast, htight⟩ := h
  · exact .inl h
  · exact .inr ⟨hleast, htight.append.2⟩

/-- No operator that the chain goes on with. -/
def Stops (least : Nat) (s : State) : Prop := ∀ op, BinaryOp.ofKind? s.cursor.kind = some op → op.level < least

/-- Chains without loose operators, of less than so many symbols, are read as they group. -/
def TightReads (setting : Setting) (base bound : Nat) : Prop :=
  ∀ (depth : Nat) (position : Position) (s t : State) (symbols : List Symbol), symbols.length < bound →
    ChainTo setting base ⟨true, depth, position, s⟩ symbols t → Tightly symbols → Stops operandLevel t →
    ∃ tree : Grouping, tree.Grouped ∧ tree.reading = symbols ∧
      chain operandLevel position (level setting depth) s = .ok tree.toExpr t

section

variable {bound least : Nat} {symbols : List Symbol}

theorem ChainStep.join {next : ChainPoint} {symbol : Symbol}
    (h : ChainStep setting base ⟨false, depth, position, s⟩ symbol next) :
    ∃ op depth', BinaryOp.ofKind? s.cursor.kind = some op ∧ symbol = .join op ∧
      next = ⟨true, depth', position, s.skipped 1⟩ ∧
      ((2 ≤ op.level ∧ depth' = depth) ∨ (op.level = 1 ∧ depth' = base)) := by
  cases h with
  | tight ahead tight => exact ⟨_, _, ahead, rfl, rfl, .inl ⟨tight, rfl⟩⟩
  | loose ahead loose => exact ⟨_, _, ahead, rfl, rfl, .inr ⟨loose, rfl⟩⟩

theorem not_atEnd_of_join {op : BinaryOp} (h : BinaryOp.ofKind? s.cursor.kind = some op) : s.cursor.atEnd = false := by
  unfold Cursor.atEnd
  cases hkind : s.cursor.kind with
  | done =>
    rw [hkind] at h
    cases h
  | _ => rfl

/-- One operand with the prefix operators in front of it. The operand of a prefix operator goes on to the next
loose operator, or to the end. -/
theorem unit_reads (ih : TightReads setting base bound) (hlength : symbols.length ≤ bound)
    (hrun : ChainTo setting base ⟨true, depth, position, s⟩ symbols t) (hleast : least ≤ 2) (hstops : Stops least t) :
    ∃ (unit : Grouping) (front rest : List Symbol) (u : State), symbols = front ++ rest ∧ unit.Grouped ∧
      unit.level? = none ∧ unit.reading = front ∧ (unit.endsUnary = true → Loosely rest) ∧
      unaryExpr position (level setting depth) s = .ok unit.toExpr u ∧
      ChainTo setting base ⟨false, depth, position.operand, u⟩ rest t := by
  obtain ⟨depth', position', hrun⟩ := hrun
  cases hrun with
  | cons step run =>
    cases step with
    | @operand _ _ _ u e ahead read =>
      refine ⟨.operand e, [.operand e], _, u, rfl, .operand e, rfl, rfl, nofun, ?_, ⟨_, _, run⟩⟩
      rw [unaryExpr_of_operand ahead, read]
      rfl
    | @sign depth _ _ op ahead =>
      obtain ⟨front, rest, ⟨due, depth₁, position₁, u⟩, rfl, hfront, hdue, htight, hrest, hends⟩ := run.split rfl
      cases hdue
      have hposition : position₁ = position.operand := (hfront.position_eq rfl nofun).trans (operand_operand _)
      have hnext : Stops operandLevel u := by
        intro op' hop
        obtain rfl | ⟨op, rest, rfl, hloose⟩ := hends
        · cases hrest
          exact Nat.lt_of_lt_of_le (hstops op' hop) hleast
        · cases hrest with
          | cons step _ =>
            cases step with
            | tight _ tight => omega
            | loose ahead _ =>
              cases ahead.symm.trans hop
              rw [hloose]
              decide
      have hlt : front.length < bound := by
        simp only [List.length_cons, List.length_append] at hlength
        omega
      obtain ⟨tree, hgrouped, hreading, hread⟩ := ih depth position.operand _ u front hlt ⟨_, _, hfront⟩ htight hnext
      refine ⟨.unary op s.cursor.span tree, .sign op s.cursor.span :: front, rest, u, rfl, ?_, rfl, ?_,
        fun _ => loosely_of_cases hends, ?_, ?_⟩
      · refine .unary op _ hgrouped fun level hlevel => ?_
        obtain ⟨op', hmem, rfl⟩ := tree.level?_mem hlevel
        rw [hreading] at hmem
        exact htight op' hmem
      · rw [reading, hreading]
      · rw [unaryExpr_of_sign ahead, operand_level, hread]
        rfl
      · rw [← hposition]
        exact hrest.rebase rfl hends (depth + 1)

/-- The operators with their operands, to the end of the chain. -/
theorem links_read (ih : TightReads setting base bound) (hleast : least ≤ 2) (hstops : Stops least t)
    (hposition : position.operand = position) (fuel : Nat) :
    ∀ {s : State} {symbols : List Symbol}, symbols.length ≤ bound →
      ChainTo setting base ⟨false, depth, position, s⟩ symbols t → Within base least depth symbols →
      s.cursor.left ≤ fuel →
      ∃ links : List Link,
        chainUpTo least position fuel (level setting depth) s = .ok (links.map Link.toExpr) t ∧
        linkReading links = symbols ∧ (∀ link ∈ links, link.2.Grouped ∧ link.2.level? = none) ∧
        ∀ first : Grouping, first.level? = none → (first.endsUnary = true → Loosely symbols) → Linked first links := by
  induction fuel with
  | zero =>
    intro s symbols hlength hrun hwithin hfuel
    obtain ⟨depth', position', hrun⟩ := hrun
    cases hrun with
    | nil => exact ⟨[], chainUpTo_of_end hstops 0, rfl, List.forall_mem_nil _, fun first hroot _ => .nil hroot⟩
    | cons step run =>
      obtain ⟨op, depth₁, ahead, -⟩ := step.join
      have hleft := Cursor.left_advance (not_atEnd_of_join ahead)
      omega
  | succ fuel ihfuel =>
    intro s symbols hlength hrun hwithin hfuel
    obtain ⟨depth', position', hrun⟩ := hrun
    cases hrun with
    | nil => exact ⟨[], chainUpTo_of_end hstops _, rfl, List.forall_mem_nil _, fun first hroot _ => .nil hroot⟩
    | @cons _ _ _ _ symbols step run =>
      obtain ⟨op, depth₁, ahead, rfl, rfl, hcases⟩ := step.join
      obtain ⟨hle, hdepth⟩ : least ≤ op.level ∧ depth₁ = depth := by
        have hone := op.one_le_level
        obtain ⟨rfl, hbase⟩ | ⟨rfl, htight⟩ := hwithin
        · exact ⟨hone, hcases.elim And.right fun h => h.2.trans hbase.symm⟩
        · have := htight op List.mem_cons_self
          exact ⟨this, hcases.elim And.right fun h => by omega⟩
      rw [hdepth] at run
      have hlength' : symbols.length ≤ bound := by
        rw [List.length_cons] at hlength
        omega
      obtain ⟨unit, front, rest, u, rfl, hgrouped, hroot, hreading, hloosely, hunary, hrest⟩ :=
        unit_reads ih hlength' ⟨depth', position', run⟩ hleast hstops
      rw [hposition] at hrest
      rw [List.length_append] at hlength'
      have hfuel' : u.cursor.left ≤ fuel := by
        have hgrows : Grows (s.skipped 1) u := (composed_unaryExpr inherited_true position).onward hunary
        have hleft : (s.skipped 1).cursor.left + 1 = s.cursor.left := Cursor.left_advance (not_atEnd_of_join ahead)
        have := hgrows.left_le
        omega
      rw [← List.singleton_append] at hwithin
      have hwithin' : Within base least depth rest := hwithin.append.append
      obtain ⟨links, hlinks, hlinkReading, hvalid, hlinked⟩ := ihfuel (by omega) hrest hwithin' hfuel'
      refine ⟨(op, unit) :: links, ?_, ?_, List.forall_mem_cons.2 ⟨⟨hgrouped, hroot⟩, hvalid⟩, fun first hfirst hunary => ?_⟩
      · rw [chainUpTo_of_join ahead hle, hunary, Ending.andThen_ok, hlinks]
        rfl
      · rw [linkReading, List.flatMap_cons, ← linkReading, hlinkReading, hreading]
        rfl
      · exact .cons hfirst (fun hends => hunary hends op _ rfl) (hlinked unit hroot hloosely)

/-- A whole chain. -/
theorem chain_of_run (ih : TightReads setting base bound) (hlength : symbols.length ≤ bound)
    (hrun : ChainTo setting base ⟨true, depth, position, s⟩ symbols t) (hleast : least ≤ 2)
    (hwithin : Within base least depth symbols) (hstops : Stops least t) :
    ∃ tree : Grouping, tree.Grouped ∧ tree.reading = symbols ∧
      chain least position (level setting depth) s = .ok tree.toExpr t := by
  obtain ⟨unit, front, rest, u, rfl, hgrouped, hroot, hreading, hloosely, hunary, hrest⟩ :=
    unit_reads ih hlength hrun hleast hstops
  have hlength' : rest.length ≤ bound := by
    rw [List.length_append] at hlength
    omega
  obtain ⟨links, hlinks, hlinkReading, hvalid, hlinked⟩ :=
    links_read ih hleast hstops (operand_operand position) u.cursor.left hlength' hrest hwithin.append (Nat.le_refl _)
  refine ⟨addLinks unit links, grouped_addLinks hgrouped hvalid, ?_, ?_⟩
  · rw [reading_addLinks, hreading, hlinkReading]
  · rw [chain_apply, hunary, Ending.andThen_ok, hlinks, Ending.andThen_ok, climb_eq_addLinks (hlinked unit hroot hloosely)]

theorem tightReads (setting : Setting) (base bound : Nat) : TightReads setting base bound := by
  induction bound with
  | zero => exact fun depth position s t symbols hlt => absurd hlt (Nat.not_lt_zero _)
  | succ bound ih =>
    intro depth position s t symbols hlt hrun htight hstops
    exact chain_of_run ih (Nat.le_of_lt_succ hlt) hrun (Nat.le_refl 2) (.inr ⟨rfl, htight⟩) hstops

end

/-! ## Chains as expressions -/

/-- What stands between the operators was put together by none. -/
theorem ChainRun.operands {point last : ChainPoint} {symbols : List Symbol} (h : ChainRun setting base point symbols last) {e : Expr}
    (hmem : .operand e ∈ symbols) : e.kind.isJoined = false := by
  induction h with
  | nil => exact absurd hmem List.not_mem_nil
  | cons step run ih =>
    obtain heq | hmem := List.mem_cons.1 hmem
    · cases step with
      | operand ahead read =>
        cases heq
        exact level_operand read
      | _ => cases heq
    · exact ih hmem

/-- A chain is read as the one grouped tree over it, if there are levels enough for its prefix operators. -/
theorem chain_groups {symbols : List Symbol} (h : IsChain setting n position s symbols t) :
    (∀ e, .operand e ∈ symbols → e.kind.isJoined = false) ∧
      ∃ tree : Grouping, tree.Grouped ∧ tree.reading = symbols ∧
        expr position (level setting (n + 1)) s = .ok tree.toExpr t ∧
        ∀ other : Grouping, other.Grouped → other.reading = symbols → other = tree := by
  have hstops : Stops 1 t := by
    intro op hop
    rw [h.ends] at hop
    cases hop
  obtain ⟨tree, hgrouped, hreading, hread⟩ :=
    chain_of_run (tightReads setting n symbols.length) (Nat.le_refl _) h.run (by decide) (.inl ⟨rfl, rfl⟩) hstops
  refine ⟨fun e hmem => ?_, tree, hgrouped, hreading, hread, fun other hother hsame => ?_⟩
  · obtain ⟨depth, position', hrun⟩ := h.run
    exact hrun.operands hmem
  · exact hother.unique hgrouped (hsame.trans hreading.symm)

/-- `-a * b + c` is read as `(-(a * b)) + c`. -/
theorem chain_groups_negated :
    let tokens : List Token :=
      [⟨.mark .minus, ⟨0, 1⟩⟩, ⟨.name "a", ⟨1, 2⟩⟩, ⟨.mark .star, ⟨3, 4⟩⟩, ⟨.name "b", ⟨5, 6⟩⟩, ⟨.mark .plus, ⟨7, 8⟩⟩,
        ⟨.name "c", ⟨9, 10⟩⟩, ⟨.done, ⟨10, 10⟩⟩]
    let s : State := .ofTokens tokens
    let a : Expr := ⟨.name "a", ⟨1, 2⟩⟩
    let b : Expr := ⟨.name "b", ⟨5, 6⟩⟩
    let c : Expr := ⟨.name "c", ⟨9, 10⟩⟩
    IsChain ⟨[], .standard, true⟩ 255 .value s
        [.sign .neg ⟨0, 1⟩, .operand a, .join .mul, .operand b, .join .add, .operand c] (s.skipped 6) ∧
      expr .value (level ⟨[], .standard, true⟩ 256) s =
        .ok (Grouping.binary .add (.unary .neg ⟨0, 1⟩ (.binary .mul (.operand a) (.operand b))) (.operand c)).toExpr
          (s.skipped 6) := by
  intro tokens s a b c
  have hchain : IsChain ⟨[], .standard, true⟩ 255 .value s
      [.sign .neg ⟨0, 1⟩, .operand a, .join .mul, .operand b, .join .add, .operand c] (s.skipped 6) := by
    refine ⟨⟨255, .value, ?_⟩, rfl⟩
    exact .cons (.sign rfl) (.cons (.operand rfl rfl) (.cons (.tight rfl (by decide)) (.cons (.operand rfl rfl)
      (.cons (.loose rfl rfl) (.cons (.operand rfl rfl) (.nil _))))))
  obtain ⟨-, tree, -, -, hread, hunique⟩ := chain_groups hchain
  have hgrouped : (Grouping.binary .add (.unary .neg ⟨0, 1⟩ (.binary .mul (.operand a) (.operand b))) (.operand c)).Grouped := by
    refine .binary (.unary _ _ (.binary (.operand a) (.operand b) nofun nofun nofun) fun level hlevel => ?_) (.operand c) nofun nofun
      fun _ => rfl
    cases hlevel
    decide
  refine ⟨hchain, ?_⟩
  rw [hunique _ hgrouped rfl, hread]

/-! ## Too many prefix operators -/

/-- A sign is not the end of the tokens. -/
theorem isDone_of_sign {kind : Kind} {op : UnaryOp} (h : UnaryOp.ofKind? kind = some op) : kind.isDone = false := by
  cases kind with
  | done => cases h
  | _ => rfl

/-- Every prefix operator takes a level, and below a chain there may be fewer of them. -/
theorem chain_of_signs {least : Nat} {signs rest : List Token} {op : UnaryOp} (h : s.cursor.rest = signs ++ rest)
    (hsigns : ∀ token ∈ signs, UnaryOp.ofKind? token.kind = some op) (hlt : n < signs.length) :
    chain least position (level setting n) s =
      .error (.ofCause (s.skipped (n + 1)).cursor.span (.nestingTooDeep setting.options.maxDepth)) (s.skipped (n + 1)) := by
  induction n generalizing least position s signs with
  | zero =>
    cases signs with
    | nil => exact absurd hlt (Nat.not_lt_zero _)
    | cons token signs =>
      have ahead : UnaryOp.ofKind? s.cursor.kind = some op := by
        rw [Cursor.kind_of_rest h]
        exact hsigns token List.mem_cons_self
      rw [chain_apply, unaryExpr_of_sign ahead]
      rfl
  | succ n ih =>
    cases signs with
    | nil => exact absurd hlt (Nat.not_lt_zero _)
    | cons token signs =>
      obtain ⟨hsign, hsigns⟩ := List.forall_mem_cons.1 hsigns
      have hrest : (s.skipped 1).cursor.rest = signs ++ rest := Cursor.rest_advance_of_rest h (isDone_of_sign hsign)
      have ahead : UnaryOp.ofKind? s.cursor.kind = some op := by
        rw [Cursor.kind_of_rest h]
        exact hsign
      rw [chain_apply, unaryExpr_of_sign ahead, operand_level, ih hrest hsigns (Nat.lt_of_succ_lt_succ hlt),
        State.skipped_skipped, Nat.add_comm 1]
      rfl

/-- With levels enough they are the chain of a tree. -/
theorem chainTo_of_signs {signs rest : List Token} {op : UnaryOp} {e : Expr} (h : s.cursor.rest = signs ++ rest)
    (hsigns : ∀ token ∈ signs, UnaryOp.ofKind? token.kind = some op)
    (hlast : UnaryOp.ofKind? (s.skipped signs.length).cursor.kind = none)
    (hread : postfixExpr .value (level setting depth) (s.skipped signs.length) = .ok e t) :
    ∃ tree : Grouping, tree.Grouped ∧ tree.level? = none ∧
      ChainTo setting base ⟨true, depth + signs.length, .value, s⟩ tree.reading t := by
  induction signs generalizing s with
  | nil => exact ⟨.operand e, .operand e, rfl, depth, .value, .cons (.operand hlast hread) (.nil _)⟩
  | cons token signs ih =>
    obtain ⟨hsign, hsigns⟩ := List.forall_mem_cons.1 hsigns
    have hrest : (s.skipped 1).cursor.rest = signs ++ rest := Cursor.rest_advance_of_rest h (isDone_of_sign hsign)
    have hskipped : s.skipped (token :: signs).length = (s.skipped 1).skipped signs.length := by
      rw [State.skipped_skipped, List.length_cons, Nat.add_comm]
    rw [hskipped] at hlast hread
    obtain ⟨tree, hgrouped, hroot, depth', position', hrun⟩ := ih hrest hsigns hlast hread
    have ahead : UnaryOp.ofKind? s.cursor.kind = some op := by
      rw [Cursor.kind_of_rest h]
      exact hsign
    refine ⟨.unary op s.cursor.span tree, .unary _ _ hgrouped fun level hlevel => ?_, rfl, depth', position', .cons (.sign ahead) hrun⟩
    rw [hroot] at hlevel
    cases hlevel

/-- No call, access or question mark that would go on with an operand. -/
def Kind.EndsOperand (kind : Kind) : Prop :=
  kind ≠ .mark .lParen ∧ kind ≠ .mark .dot ∧ kind ≠ .mark .colonColon ∧ kind ≠ .mark .question

theorem postfixUpTo_of_end (h : s.cursor.kind.EndsOperand) (e : Expr) (fuel : Nat) :
    postfixUpTo position e fuel L s = .ok e s := by
  obtain ⟨hcall, hmember, haccess, hattempt⟩ := h
  cases fuel with
  | zero => rfl
  | succ fuel =>
    simp only [postfixUpTo, Reader.kind, bind_apply, cursor_apply, pure_apply, Ending.andThen_ok]

theorem primary_of_name {text : String} (h : s.cursor.kind = .name text) :
    primary position L s = .ok ⟨.name text, s.cursor.span⟩ (s.skipped 1) := by
  simp only [primary, Reader.kind, bind_apply, cursor_apply, pure_apply, Ending.andThen_ok, h, atom, advance_apply]
  rfl

/-- A name alone is an operand. -/
theorem postfixExpr_of_name {text : String} (h : s.cursor.kind = .name text) (hend : (s.skipped 1).cursor.kind = .done) :
    postfixExpr position L s = .ok ⟨.name text, s.cursor.span⟩ (s.skipped 1) := by
  rw [postfixExpr, bind_apply, primary_of_name h, Ending.andThen_ok]
  refine postfixUpTo_of_end ?_ _ _
  rw [hend]
  exact ⟨nofun, nofun, nofun, nofun⟩

/-- The tokens of `--...-a`. -/
def negations (n : Nat) : List Token :=
  (List.range n).map (fun i => ⟨.mark .minus, ⟨i, i + 1⟩⟩) ++ [⟨.name "a", ⟨n, n + 1⟩⟩, ⟨.done, ⟨n + 1, n + 1⟩⟩]

theorem negations_split (n : Nat) : ∃ signs : List Token,
    (State.ofTokens (negations n)).cursor.rest = signs ++ [⟨.name "a", ⟨n, n + 1⟩⟩, ⟨.done, ⟨n + 1, n + 1⟩⟩] ∧
      signs.length = n ∧ ∀ token ∈ signs, UnaryOp.ofKind? token.kind = some .neg := by
  refine ⟨(List.range n).map fun i => ⟨.mark .minus, ⟨i, i + 1⟩⟩, rfl, ?_, fun token hmem => ?_⟩
  · rw [List.length_map, List.length_range]
  · obtain ⟨i, -, rfl⟩ := List.mem_map.1 hmem
    rfl

theorem rest_skipped_negations (n : Nat) :
    ((State.ofTokens (negations n)).skipped n).cursor.rest = [⟨.name "a", ⟨n, n + 1⟩⟩, ⟨.done, ⟨n + 1, n + 1⟩⟩] := by
  obtain ⟨signs, hsplit, hlength, hsigns⟩ := negations_split n
  have hundone : Undone signs := fun token hmem => isDone_of_sign (hsigns token hmem)
  have hskip := Cursor.rest_skip hsplit hundone (Nat.le_refl signs.length)
  rw [List.drop_length, List.nil_append, hlength] at hskip
  exact hskip

theorem isChain_negations (setting : Setting) (n : Nat) : ∃ (tree : Grouping) (t : State), tree.Grouped ∧
    IsChain setting n .value (.ofTokens (negations n)) tree.reading t := by
  obtain ⟨signs, hsplit, hlength, hsigns⟩ := negations_split n
  subst hlength
  have hrest := rest_skipped_negations signs.length
  have hkind := Cursor.kind_of_rest hrest
  have hend := Cursor.kind_of_rest (Cursor.rest_advance_of_rest hrest rfl)
  have hread : postfixExpr .value (level setting 0) ((State.ofTokens (negations signs.length)).skipped signs.length) = _ :=
    postfixExpr_of_name hkind hend
  obtain ⟨tree, hgrouped, -, hrun⟩ := chainTo_of_signs hsplit hsigns (by rw [hkind]; rfl) hread
  rw [Nat.zero_add] at hrun
  refine ⟨tree, _, hgrouped, hrun, ?_⟩
  have hdone : BinaryOp.ofKind? Kind.done = none := rfl
  exact (congrArg BinaryOp.ofKind? hend).trans hdone

/-- Where the prefix operators are as many as the levels, no expression is read. -/
theorem readExpr_negations (setting : Setting) {n : Nat} (h : setting.options.maxDepth = n + 1) :
    (readExpr setting (negations (n + 1))).value = none ∧
      (readExpr setting (negations (n + 1))).faults = [.ofCause ⟨n + 1, n + 2⟩ (.nestingTooDeep (n + 1))] := by
  obtain ⟨signs, hsplit, hlength, hsigns⟩ := negations_split (n + 1)
  have hspan := Cursor.span_of_rest (rest_skipped_negations (n + 1))
  have hread : chain 1 .value (level setting n) (.ofTokens (negations (n + 1))) = _ :=
    chain_of_signs hsplit hsigns (by omega)
  rw [hspan, h] at hread
  have hexpr : (level setting (n + 1)).expr .value (.ofTokens (negations (n + 1))) = _ := hread
  have hwhole := wholeExpr_apply (level setting setting.options.maxDepth) (.ofTokens (negations (n + 1)))
  rw [h, hexpr] at hwhole
  have hrun : (readExpr setting (negations (n + 1))) = ⟨none, [.ofCause ⟨n + 1, n + 2⟩ (.nestingTooDeep (n + 1))], []⟩ := by
    unfold readExpr Reader.run
    rw [h, hwhole]
    rfl
  rw [hrun]
  exact ⟨rfl, rfl⟩

/-- With as many prefix operators as the standard limit has levels there is a grouped tree over the chain, and no
expression is read. -/
theorem negations_too_deep :
    (∃ (tree : Grouping) (t : State), tree.Grouped ∧
      IsChain ⟨[], .standard, true⟩ 256 .value (.ofTokens (negations 256)) tree.reading t) ∧
      (readExpr ⟨[], .standard, true⟩ (negations 256)).value = none ∧
      (readExpr ⟨[], .standard, true⟩ (negations 256)).faults = [.ofCause ⟨256, 257⟩ (.nestingTooDeep 256)] :=
  ⟨isChain_negations ⟨[], .standard, true⟩ 256, readExpr_negations ⟨[], .standard, true⟩ rfl⟩

end JuiceSyntax
