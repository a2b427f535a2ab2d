/-
  Braces of a token list. `Closes depth tokens` says that the list closes `depth` braces that are
  open before it, and otherwise just those it opens. A balanced list closes none
  (`Balanced.closes`).

  The searches of the grammar count the braces they pass. As long as they count no more of them
  than are open they end within the list, whatever follows it: at the brace that closes the
  group (`innerLength_leaves`, `groupLength_leaves`), where reading can resume in a group
  (`distance_leaves`), or at the end of the list if an item begins there
  (`distance_leaves_of_stop`).
-/
import JuiceSyntax.Grammar.Recovery

namespace JuiceSyntax

/-- How many of the tokens are this mark. -/
def countMark (m : Mark) (tokens : List Token) : Nat := tokens.countP (·.kind.isMark m)

/-- No prefix has more closing braces than opening ones, and in all there are as many of both. -/
structure Balanced (tokens : List Token) : Prop where
  prefixes : ∀ front, front <+: tokens → countMark .rBrace front ≤ countMark .lBrace front
  total : countMark .rBrace tokens = countMark .lBrace tokens

theorem balanced_iff {tokens : List Token} :
    Balanced tokens ↔
      (∀ n < tokens.length + 1, countMark .rBrace (tokens.take n) ≤ countMark .lBrace (tokens.take n)) ∧
        countMark .rBrace tokens = countMark .lBrace tokens := by
  constructor
  · intro h
    exact ⟨fun n _ => h.prefixes _ (List.take_prefix n tokens), h.total⟩
  · rintro ⟨htake, htotal⟩
    refine ⟨fun front hfront => ?_, htotal⟩
    rw [List.prefix_iff_eq_take.1 hfront]
    exact htake _ (Nat.lt_succ_of_le hfront.length_le)

instance (tokens : List Token) : Decidable (Balanced tokens) := decidable_of_iff _ balanced_iff.symm

/-- Closes `depth` braces that are open before, and otherwise those that it opens. -/
inductive Closes : Nat → List Token → Prop
  | nil : Closes 0 []
  | opening {depth : Nat} {token : Token} {rest : List Token} (brace : token.kind.isMark .lBrace = true)
    (h : Closes (depth + 1) rest) : Closes depth (token :: rest)
  | closing {depth : Nat} {token : Token} {rest : List Token} (brace : token.kind.isMark .rBrace = true)
    (h : Closes depth rest) : Closes (depth + 1) (token :: rest)
  | other {depth : Nat} {token : Token} {rest : List Token} (left : token.kind.isMark .lBrace = false)
    (right : token.kind.isMark .rBrace = false) (h : Closes depth rest) : Closes depth (token :: rest)

theorem isDone_of_isMark {m : Mark} {kind : Kind} (h : kind.isMark m = true) : kind.isDone = false := by
  cases kind with
  | done => exact absurd h Bool.false_ne_true
  | _ => rfl

/-- A kind is at most one mark. -/
theorem isMark_of_ne {m : Mark} {kind : Kind} (h : kind.isMark m = true) (m' : Mark) (hne : m ≠ m') :
    kind.isMark m' = false := by
  cases kind with
  | mark m'' =>
    simp only [Kind.isMark, beq_iff_eq, beq_eq_false_iff_ne] at h ⊢
    exact h ▸ hne.symm
  | _ => rfl

theorem countMark_cons (m : Mark) (token : Token) (rest : List Token) :
    countMark m (token :: rest) = countMark m rest + if token.kind.isMark m then 1 else 0 := by
  unfold countMark
  rw [List.countP_cons]

theorem closes_of_count {depth : Nat} {tokens : List Token}
    (h : ∀ front, front <+: tokens → countMark .rBrace front ≤ countMark .lBrace front + depth)
    (htotal : countMark .rBrace tokens = countMark .lBrace tokens + depth) : Closes depth tokens := by
  induction tokens generalizing depth with
  | nil =>
    have hdepth : depth = 0 := by simpa [countMark] using htotal.symm
    rw [hdepth]
    exact .nil
  | cons token rest ih =>
    have hfront (front : List Token) (hf : front <+: rest) := h (token :: front) (List.cons_prefix_cons.2 ⟨rfl, hf⟩)
    simp only [countMark_cons] at hfront htotal
    cases hl : token.kind.isMark .lBrace with
    | true =>
      have hr := isMark_of_ne hl .rBrace (by decide)
      simp only [hl, hr, if_true, Bool.false_eq_true, if_false] at hfront htotal
      refine .opening hl (ih (fun front hf => ?_) (by omega))
      have := hfront front hf
      omega
    | false =>
      cases hr : token.kind.isMark .rBrace with
      | true =>
        simp only [hl, hr, if_true, Bool.false_eq_true, if_false] at hfront htotal
        have hopen := hfront [] List.nil_prefix
        simp only [countMark, List.countP_nil] at hopen
        obtain ⟨depth, rfl⟩ : ∃ d, depth = d + 1 := ⟨depth - 1, by omega⟩
        refine .closing hr (ih (fun front hf => ?_) (by omega))
        have := hfront front hf
        omega
      | false =>
        simp only [hl, hr, Bool.false_eq_true, if_false] at hfront htotal
        exact .other hl hr (ih (fun front hf => by have := hfront front hf; omega) (by omega))

theorem Balanced.closes {tokens : List Token} (h : Balanced tokens) : Closes 0 tokens :=
  closes_of_count h.prefixes h.total

/-- Open braces are closed by some token. -/
theorem Closes.ne_nil {depth : Nat} {tokens : List Token} (h : Closes depth tokens) (hd : 0 < depth) :
    tokens ≠ [] := by
  intro hnil
  rw [hnil] at h
  cases h
  exact absurd hd (by decide)

/-! ## Searches -/

/-- The first `n` tokens passed, what is left of the list closes `depth` braces. -/
structure Leaves (n depth : Nat) (tokens : List Token) : Prop where
  le : n ≤ tokens.length
  closes : Closes depth (tokens.drop n)

namespace Leaves

variable {n depth : Nat} {token : Token} {tokens rest : List Token}

theorem none (h : Closes depth tokens) : Leaves 0 depth tokens := ⟨Nat.zero_le _, h⟩

theorem one (h : Closes depth rest) : Leaves 1 depth (token :: rest) := ⟨Nat.le_add_left 1 _, h⟩

theorem succ (h : Leaves n depth rest) : Leaves (n + 1) depth (token :: rest) :=
  ⟨Nat.succ_le_succ h.le, h.closes⟩

end Leaves

/-- No token is the end of the tokens. -/
def Undone (tokens : List Token) : Prop := ∀ token ∈ tokens, token.kind.isDone = false

theorem Undone.tail {token : Token} {rest : List Token} (h : Undone (token :: rest)) : Undone rest :=
  fun _ ht => h _ (List.mem_cons_of_mem _ ht)

variable {depth : Nat} {tokens : List Token}

theorem innerLength_leaves (h : Closes depth tokens) (hdone : Undone tokens) {k : Nat} (hk : k < depth)
    (after : List Token) : Leaves (innerLength k (tokens ++ after)) (depth - k) tokens := by
  induction h generalizing k with
  | nil => omega
  | opening brace h ih =>
    have hrest := ih hdone.tail (k := k + 1) (by omega)
    rw [Nat.add_sub_add_right] at hrest
    simp only [List.cons_append, innerLength, isDone_of_isMark brace, brace, Bool.false_eq_true, if_false, if_true]
    exact hrest.succ
  | closing brace h ih =>
    have hl := isMark_of_ne brace .lBrace (by decide)
    simp only [List.cons_append, innerLength, isDone_of_isMark brace, brace, hl, Bool.false_eq_true, if_false, if_true]
    cases k with
    | zero => exact .none (.closing brace h)
    | succ k =>
      rw [Nat.add_sub_add_right]
      exact (ih hdone.tail (by omega)).succ
  | other left right h ih =>
    simp only [List.cons_append, innerLength, hdone _ List.mem_cons_self, left, right, Bool.false_eq_true, if_false]
    exact (ih hdone.tail hk).succ

theorem groupLength_leaves (h : Closes depth tokens) (hdone : Undone tokens) {k : Nat} (hk : 0 < k) (hk' : k ≤ depth)
    (after : List Token) : Leaves (groupLength k (tokens ++ after)) (depth - k) tokens := by
  induction h generalizing k with
  | nil => omega
  | opening brace h ih =>
    have hrest := ih hdone.tail (k := k + 1) (by omega) (by omega)
    rw [Nat.add_sub_add_right] at hrest
    simp only [List.cons_append, groupLength, isDone_of_isMark brace, brace, Bool.false_eq_true, if_false, if_true]
    exact hrest.succ
  | closing brace h ih =>
    have hl := isMark_of_ne brace .lBrace (by decide)
    simp only [List.cons_append, groupLength, isDone_of_isMark brace, brace, hl, Bool.false_eq_true, if_false, if_true]
    by_cases hone : k ≤ 1
    · rw [if_pos hone, show k = 1 by omega]
      exact .one h
    · obtain ⟨k, rfl⟩ : ∃ k', k = k' + 1 := ⟨k - 1, by omega⟩
      have hrest := ih hdone.tail (k := k) (by omega) (by omega)
      rw [if_neg hone, Nat.add_sub_cancel, Nat.add_sub_add_right]
      exact hrest.succ
  | other left right h ih =>
    simp only [List.cons_append, groupLength, hdone _ List.mem_cons_self, left, right, Bool.false_eq_true, if_false]
    exact (ih hdone.tail hk hk').succ

/-- Inside a group the brace that closes it ends the search at the latest. -/
theorem distance_leaves {resume : Resume} (hclose : resume.atClose = true) (h : Closes depth tokens)
    (hdone : Undone tokens) {k : Nat} (hk : k < depth) (after : List Token) :
    Leaves (resume.distance k (tokens ++ after)) (depth - k) tokens := by
  induction h generalizing k with
  | nil => omega
  | opening brace h ih =>
    have hrest := ih hdone.tail (k := k + 1) (by omega)
    rw [Nat.add_sub_add_right] at hrest
    simp only [List.cons_append, Resume.distance, isDone_of_isMark brace, brace, Bool.false_eq_true, if_false, if_true]
    exact hrest.succ
  | closing brace h ih =>
    have hl := isMark_of_ne brace .lBrace (by decide)
    have hrest {k : Nat} := ih hdone.tail (k := k)
    simp only [List.cons_append, Resume.distance, isDone_of_isMark brace, brace, hl, Bool.false_eq_true, if_false,
      if_true]
    obtain _ | _ | k := k
    · rw [if_pos hclose]
      exact .none (.closing brace h)
    · dsimp only
      split
      · exact .one h
      · exact (hrest (k := 0) (by omega)).succ
    · rw [Nat.add_sub_add_right]
      exact (hrest (by omega)).succ
  | other left right h ih =>
    simp only [List.cons_append, Resume.distance, hdone _ List.mem_cons_self, left, right, Bool.false_eq_true,
      if_false]
    split
    · rename_i hstop
      have hzero : k = 0 := by simpa using (Bool.and_eq_true_iff.1 hstop).1
      rw [hzero]
      exact .none (.other left right h)
    · exact (ih hdone.tail hk).succ

/-- Also a search that passes closing braces ends at what follows the list, if reading can
resume there. -/
theorem distance_leaves_of_stop {resume : Resume} (hclose : resume.atClose = false) {after : List Token}
    (hstop : resume.distance 0 after = 0) (h : Closes depth tokens) (hdone : Undone tokens) {k : Nat}
    (hk : k ≤ depth) : ∃ depth', Leaves (resume.distance k (tokens ++ after)) depth' tokens := by
  induction h generalizing k with
  | nil =>
    rw [Nat.le_zero.1 hk, List.nil_append, hstop]
    exact ⟨0, .none .nil⟩
  | opening brace h ih =>
    obtain ⟨depth', hrest⟩ := ih hdone.tail (k := k + 1) (by omega)
    simp only [List.cons_append, Resume.distance, isDone_of_isMark brace, brace, Bool.false_eq_true, if_false, if_true]
    exact ⟨depth', hrest.succ⟩
  | closing brace h ih =>
    have hl := isMark_of_ne brace .lBrace (by decide)
    have hrest {k : Nat} := ih hdone.tail (k := k)
    simp only [List.cons_append, Resume.distance, isDone_of_isMark brace, brace, hl, hclose, Bool.false_eq_true,
      if_false, if_true]
    obtain _ | _ | k := k
    · obtain ⟨depth', hrest⟩ := hrest (k := 0) (by omega)
      exact ⟨depth', hrest.succ⟩
    · dsimp only
      split
      · exact ⟨_, .one h⟩
      · obtain ⟨depth', hrest⟩ := hrest (k := 0) (by omega)
        exact ⟨depth', hrest.succ⟩
    · obtain ⟨depth', hrest⟩ := hrest (k := k + 1) (by omega)
      exact ⟨depth', hrest.succ⟩
  | other left right h ih =>
    simp only [List.cons_append, Resume.distance, hdone _ List.mem_cons_self, left, right, Bool.false_eq_true,
      if_false]
    split
    · exact ⟨_, .none (.other left right h)⟩
    · obtain ⟨depth', hrest⟩ := ih hdone.tail hk
      exact ⟨depth', hrest.succ⟩

end JuiceSyntax
