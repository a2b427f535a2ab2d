/-
  The brace that matches a brace. `Matched place opening closing` says that a place in a token list
  begins with an opening brace at `opening` and that the brace which closes it is the one at
  `closing`; what is between them closes the braces that it opens and no others. There is at most
  one such brace, and `matching?` finds it.

  What is read within a pair of braces and is balanced ends before the closing one
  (`Closes.within`), and so do the searches of the grammar (`innerLength_closes`,
  `groupLength_closes`, `distance_closes`).
-/
import JuiceSyntax.Proofs.Grammar.Wall

namespace JuiceSyntax

variable {depth : Nat} {front inner rest after : List Token}

/-! ## Balanced stretches -/

theorem Closes.append {depth' : Nat} (h : Closes depth front) (h' : Closes depth' rest) :
    Closes (depth + depth') (front ++ rest) := by
  induction h with
  | nil => rwa [Nat.zero_add, List.nil_append]
  | opening brace h ih =>
    rw [Nat.add_right_comm] at ih
    exact .opening brace ih
  | closing brace h ih =>
    rw [Nat.add_right_comm]
    exact .closing brace ih
  | other left right h ih => exact .other left right ih

namespace Closes

variable {token : Token}

theorem after_opening (h : Closes depth (token :: rest)) (brace : token.kind.isMark .lBrace = true) :
    Closes (depth + 1) rest := by
  cases h with
  | opening _ h => exact h
  | closing brace' _ => exact absurd (isMark_of_ne brace .rBrace (by decide)) (by rw [brace']; decide)
  | other left _ _ => exact absurd brace (by rw [left]; decide)

theorem after_closing (h : Closes depth (token :: rest)) (brace : token.kind.isMark .rBrace = true) :
    ∃ d, depth = d + 1 ∧ Closes d rest := by
  cases h with
  | opening brace' _ => exact absurd (isMark_of_ne brace .lBrace (by decide)) (by rw [brace']; decide)
  | closing _ h => exact ⟨_, rfl, h⟩
  | other _ right _ => exact absurd brace (by rw [right]; decide)

theorem after_other (h : Closes depth (token :: rest)) (left : token.kind.isMark .lBrace = false)
    (right : token.kind.isMark .rBrace = false) : Closes depth rest := by
  cases h with
  | opening brace _ => exact absurd brace (by rw [left]; decide)
  | closing brace _ => exact absurd brace (by rw [right]; decide)
  | other _ _ h => exact h

end Closes

/-- What follows a stretch closes the braces that the stretch leaves open. -/
theorem Closes.of_append {depth' : Nat} (h : Closes depth front) (h' : Closes (depth + depth') (front ++ rest)) :
    Closes depth' rest := by
  induction h with
  | nil => rwa [Nat.zero_add] at h'
  | opening brace h ih =>
    refine ih ?_
    rw [Nat.add_right_comm]
    exact h'.after_opening brace
  | closing brace h ih =>
    obtain ⟨d, hd, h'⟩ := h'.after_closing brace
    rw [Nat.add_right_comm] at hd
    rw [Nat.succ.inj hd] at ih
    exact ih h'
  | other left right h ih => exact ih (h'.after_other left right)

theorem Closes.singleton {token : Token} (left : token.kind.isMark .lBrace = false)
    (right : token.kind.isMark .rBrace = false) : Closes 0 [token] :=
  .other left right .nil

/-- No closing brace comes first where none is open. -/
theorem not_closes_closing {token : Token} (h : token.kind.isMark .rBrace = true) : ¬Closes 0 (token :: rest) := by
  intro hcloses
  obtain ⟨d, hd, -⟩ := hcloses.after_closing h
  exact absurd hd.symm (Nat.succ_ne_zero d)

/-- A balanced stretch that begins within braces ends within them. -/
theorem Closes.within {close : Token} (hclose : close.kind.isMark .rBrace = true) (h : Closes 0 inner)
    (hfront : Closes 0 front) (heq : inner ++ close :: after = front ++ rest) :
    ∃ inner', inner = front ++ inner' ∧ rest = inner' ++ close :: after ∧ Closes 0 inner' := by
  obtain ⟨past, hpast, hafter⟩ | ⟨inner', hinner, hrest⟩ := List.append_eq_append_iff.1 heq
  · cases past with
    | nil =>
      rw [List.append_nil] at hpast
      exact ⟨[], by rw [hpast, List.append_nil], hafter.symm, .nil⟩
    | cons token past =>
      obtain ⟨rfl, -⟩ := List.cons.inj hafter
      rw [hpast] at hfront
      exact absurd (h.of_append (by rwa [Nat.zero_add])) (not_closes_closing hclose)
  · refine ⟨inner', hinner, hrest, ?_⟩
    rw [hinner] at h
    exact hfront.of_append (by rwa [Nat.zero_add])

/-! ## Searches that end with the braces -/

theorem Undone.of_append (h : Undone (front ++ rest)) : Undone rest :=
  fun token hmem => h token (List.mem_append_right _ hmem)

theorem innerLength_closes (h : Closes depth inner) (hdone : Undone inner) (after : List Token) :
    innerLength depth (inner ++ after) = inner.length + innerLength 0 after := by
  induction h with
  | nil => rw [List.nil_append, List.length_nil, Nat.zero_add]
  | opening brace h ih =>
    simp only [List.cons_append, innerLength, isDone_of_isMark brace, brace, Bool.false_eq_true, if_false, if_true,
      ih hdone.tail, List.length_cons]
    omega
  | closing brace h ih =>
    have hl := isMark_of_ne brace .lBrace (by decide)
    simp only [List.cons_append, innerLength, isDone_of_isMark brace, brace, hl, Bool.false_eq_true, if_false, if_true,
      ih hdone.tail, List.length_cons]
    omega
  | other left right h ih =>
    simp only [List.cons_append, innerLength, hdone _ List.mem_cons_self, left, right, Bool.false_eq_true, if_false,
      ih hdone.tail, List.length_cons]
    omega

theorem groupLength_closes (h : Closes depth inner) (hdone : Undone inner) (after : List Token) :
    groupLength (depth + 1) (inner ++ after) = inner.length + groupLength 1 after := by
  induction h with
  | nil => rw [List.nil_append, List.length_nil, Nat.zero_add, Nat.zero_add]
  | opening brace h ih =>
    simp only [List.cons_append, groupLength, isDone_of_isMark brace, brace, Bool.false_eq_true, if_false, if_true,
      ih hdone.tail, List.length_cons]
    omega
  | closing brace h ih =>
    have hl := isMark_of_ne brace .lBrace (by decide)
    simp only [List.cons_append, groupLength, isDone_of_isMark brace, brace, hl, Bool.false_eq_true, if_false, if_true,
      Nat.add_sub_cancel, ih hdone.tail, List.length_cons]
    rw [if_neg (by omega)]
    omega
  | other left right h ih =>
    simp only [List.cons_append, groupLength, hdone _ List.mem_cons_self, left, right, Bool.false_eq_true, if_false,
      ih hdone.tail, List.length_cons]
    omega

/-- In a group a search ends at the brace that closes it. -/
theorem distance_closing {resume : Resume} (hresume : resume.atClose = true) {close : Token}
    (hclose : close.kind.isMark .rBrace = true) (after : List Token) : resume.distance 0 (close :: after) = 0 := by
  have hl := isMark_of_ne hclose .lBrace (by decide)
  simp only [Resume.distance, isDone_of_isMark hclose, hclose, hl, hresume, Bool.false_eq_true, if_false, if_true]

/-- A search for a place to resume at passes a balanced stretch, and ends before what follows if
reading can resume there. -/
theorem distance_closes {resume : Resume} (h : Closes depth inner) (hdone : Undone inner)
    (hstop : resume.distance 0 after = 0) :
    resume.distance depth (inner ++ after) ≤ inner.length ∧
      Closes depth (inner.take (resume.distance depth (inner ++ after))) := by
  have step {n : Nat} {token : Token} {tokens : List Token} (h : n ≤ tokens.length) :
      n + 1 ≤ (token :: tokens).length ∧ (token :: tokens).take (n + 1) = token :: tokens.take n :=
    ⟨Nat.succ_le_succ h, rfl⟩
  induction h with
  | nil =>
    rw [List.nil_append, hstop]
    exact ⟨Nat.le_refl _, .nil⟩
  | opening brace h ih =>
    obtain ⟨hle, hcloses⟩ := ih hdone.tail
    simp only [List.cons_append, Resume.distance, isDone_of_isMark brace, brace, Bool.false_eq_true, if_false, if_true]
    exact ⟨(step hle).1, .opening brace hcloses⟩
  | @closing d _ _ brace h ih =>
    have hl := isMark_of_ne brace .lBrace (by decide)
    obtain ⟨hle, hcloses⟩ := ih hdone.tail
    simp only [List.cons_append, Resume.distance, isDone_of_isMark brace, brace, hl, Bool.false_eq_true, if_false,
      if_true]
    cases d with
    | zero =>
      dsimp only
      split
      · exact ⟨Nat.le_add_left 1 _, .closing brace .nil⟩
      · exact ⟨(step hle).1, .closing brace hcloses⟩
    | succ d => exact ⟨(step hle).1, .closing brace hcloses⟩
  | other left right h ih =>
    obtain ⟨hle, hcloses⟩ := ih hdone.tail
    simp only [List.cons_append, Resume.distance, hdone _ List.mem_cons_self, left, right, Bool.false_eq_true,
      if_false]
    split
    · rename_i hstop
      have hzero := (Bool.and_eq_true_iff.1 hstop).1
      rw [beq_iff_eq] at hzero
      rw [hzero]
      exact ⟨Nat.zero_le _, .nil⟩
    · exact ⟨(step hle).1, .other left right hcloses⟩

/-! ## Pairs of braces -/

/-- The opening brace at a place and the one that closes it. -/
inductive Matched : List Token → Span → Span → Prop
  | intro {inner after : List Token} (opening closing : Span) (closes : Closes 0 inner) (undone : Undone inner) :
    Matched (⟨.mark .lBrace, opening⟩ :: (inner ++ ⟨.mark .rBrace, closing⟩ :: after)) opening closing

theorem Span.cover_eq {a b : Span} (hstart : a.start ≤ b.start) (hstop : a.stop ≤ b.stop) :
    a.cover b = ⟨a.start, b.stop⟩ := by
  rw [Span.cover, Nat.min_eq_left hstart, Nat.max_eq_right hstop]

/-- Tokens lie in their order, those of a pair too. -/
theorem Laid.matched {lo hi : Nat} {place : List Token} {opening closing : Span} (h : Laid lo place hi)
    (hmatched : Matched place opening closing) :
    lo ≤ opening.start ∧ opening.start < opening.stop ∧ opening.stop ≤ closing.start ∧
      closing.start < closing.stop := by
  obtain ⟨opening, closing, hcloses, hundone⟩ := hmatched
  cases h with
  | cons mid after wide inner following =>
    cases following.of_append.1 with
    | cons mid' after' wide' inner' following' => exact ⟨after, wide, after', wide'⟩

/-- The braces of a pair that begins here. -/
def matching? : List Token → Option (Span × Span)
  | ⟨.mark .lBrace, opening⟩ :: rest =>
    match rest.drop (innerLength 0 rest) with
    | ⟨.mark .rBrace, closing⟩ :: _ => some (opening, closing)
    | _ => none
  | _ => none

/-- A search for the end of the braces passes what they close, if it comes to a closing brace. -/
theorem closes_take_innerLength {close : Token} (hclose : close.kind.isMark .rBrace = true) {tokens : List Token}
    (h : tokens.drop (innerLength depth tokens) = close :: after) :
    Closes depth (tokens.take (innerLength depth tokens)) ∧ Undone (tokens.take (innerLength depth tokens)) := by
  have undone {token : Token} {rest : List Token} (hdone : token.kind.isDone = false) (h : Undone rest) :
      Undone (token :: rest) := fun t hmem => (List.mem_cons.1 hmem).elim (fun heq => heq ▸ hdone) (h t)
  induction tokens generalizing depth with
  | nil =>
    rw [List.drop_nil] at h
    cases h
  | cons token rest ih =>
    have hstuck (hn : innerLength depth (token :: rest) = 0) : token = close := by
      rw [hn, List.drop_zero] at h
      exact (List.cons.inj h).1
    cases hdone : token.kind.isDone with
    | true =>
      have hn : innerLength depth (token :: rest) = 0 := by simp only [innerLength, hdone, if_true]
      rw [← hstuck hn] at hclose
      exact absurd hdone (by rw [isDone_of_isMark hclose]; decide)
    | false =>
      cases hl : token.kind.isMark .lBrace with
      | true =>
        have hn : innerLength depth (token :: rest) = innerLength (depth + 1) rest + 1 := by
          simp only [innerLength, hdone, hl, Bool.false_eq_true, if_false, if_true]
        rw [hn] at h ⊢
        obtain ⟨hcloses, hundone⟩ := ih h
        exact ⟨.opening hl hcloses, undone hdone hundone⟩
      | false =>
        cases hr : token.kind.isMark .rBrace with
        | true =>
          cases depth with
          | zero =>
            have hn : innerLength 0 (token :: rest) = 0 := by
              simp only [innerLength, hdone, hl, hr, Bool.false_eq_true, if_false, if_true]
            rw [hn]
            exact ⟨.nil, fun _ hmem => absurd hmem List.not_mem_nil⟩
          | succ depth =>
            have hn : innerLength (depth + 1) (token :: rest) = innerLength depth rest + 1 := by
              simp only [innerLength, hdone, hl, hr, Bool.false_eq_true, if_false, if_true]
            rw [hn] at h ⊢
            obtain ⟨hcloses, hundone⟩ := ih h
            exact ⟨.closing hr hcloses, undone hdone hundone⟩
        | false =>
          have hn : innerLength depth (token :: rest) = innerLength depth rest + 1 := by
            simp only [innerLength, hdone, hl, hr, Bool.false_eq_true, if_false]
          rw [hn] at h ⊢
          obtain ⟨hcloses, hundone⟩ := ih h
          exact ⟨.other hl hr hcloses, undone hdone hundone⟩

theorem matching?_eq_some_iff {place : List Token} {opening closing : Span} :
    matching? place = some (opening, closing) ↔ Matched place opening closing := by
  constructor
  · intro h
    unfold matching? at h
    split at h
    · rename_i opening' rest
      split at h
      · rename_i closing' after hdrop
        cases h
        obtain ⟨hcloses, hundone⟩ := closes_take_innerLength rfl hdrop
        rw [← List.take_append_drop (innerLength 0 rest) rest, hdrop]
        exact .intro opening closing hcloses hundone
      · cases h
    · cases h
  · rintro ⟨opening, closing, hcloses, hundone⟩
    rename_i inner after
    have hn : innerLength 0 (inner ++ ⟨.mark .rBrace, closing⟩ :: after) = inner.length := by
      rw [innerLength_closes hcloses hundone]
      rfl
    rw [matching?, hn, List.drop_left]

/-- The braces that are open are closed one after another, the last of them first. -/
theorem Closes.exists_closing {tokens : List Token} (h : Closes depth tokens) {k : Nat} (hk : k < depth) :
    ∃ inner close after, tokens = inner ++ close :: after ∧ close.kind.isMark .rBrace = true ∧ Closes k inner := by
  induction h generalizing k with
  | nil => exact absurd hk (Nat.not_lt_zero k)
  | @opening _ token _ brace h ih =>
    obtain ⟨inner, close, after, rfl, hclose, hinner⟩ := ih (Nat.succ_lt_succ hk)
    exact ⟨token :: inner, close, after, rfl, hclose, .opening brace hinner⟩
  | @closing _ token rest brace h ih =>
    cases k with
    | zero => exact ⟨[], token, rest, rfl, brace, .nil⟩
    | succ k =>
      obtain ⟨inner, close, after, rfl, hclose, hinner⟩ := ih (Nat.lt_of_succ_lt_succ hk)
      exact ⟨token :: inner, close, after, rfl, hclose, .closing brace hinner⟩
  | @other _ token _ left right h ih =>
    obtain ⟨inner, close, after, rfl, hclose, hinner⟩ := ih hk
    exact ⟨token :: inner, close, after, rfl, hclose, .other left right hinner⟩

theorem Closes.exists_suffix (h : Closes depth (front ++ rest)) : ∃ depth', Closes depth' rest := by
  induction front generalizing depth with
  | nil => exact ⟨depth, h⟩
  | cons token front ih =>
    cases h with
    | opening _ h | closing _ h | other _ _ h => exact ih h

/-- In a balanced list that lies in a document every opening brace is closed. -/
theorem Laid.exists_matched {lo hi : Nat} {token : Token} (hlaid : Laid lo (front ++ token :: rest) hi)
    (h : Closes 0 (front ++ token :: rest)) (hbrace : token.kind.isMark .lBrace = true) :
    ∃ opening closing, Matched (token :: rest) opening closing := by
  obtain ⟨depth, hrest⟩ := h.exists_suffix
  obtain ⟨inner, ⟨kind, closing⟩, after, rfl, hclose, hinner⟩ := (hrest.after_opening hbrace).exists_closing (Nat.succ_pos depth)
  obtain ⟨kind', opening⟩ := token
  obtain rfl := eq_of_isMark hbrace
  obtain rfl := eq_of_isMark hclose
  rw [List.append_cons, ← List.append_assoc] at hlaid
  exact ⟨opening, closing, .intro opening closing hinner hlaid.of_append.2.1.of_append⟩

/-- Every opening brace is closed, also in the fragments of strings. -/
def BracesMatch (tokens : List Token) : Prop :=
  ∀ place ∈ places tokens, (firstToken place).kind.isMark .lBrace = true →
    ∃ opening closing, Matched place opening closing

theorem bracesMatch_iff {tokens : List Token} :
    BracesMatch tokens ↔
      ∀ place ∈ places tokens, (firstToken place).kind.isMark .lBrace = true → (matching? place).isSome = true := by
  refine forall_congr' fun place => forall_congr' fun _ => forall_congr' fun _ => ?_
  simp only [Option.isSome_iff_exists, Prod.exists, matching?_eq_some_iff]

instance (tokens : List Token) : Decidable (BracesMatch tokens) := decidable_of_iff _ bracesMatch_iff.symm

/-- So it is in a balanced list, if it is in the fragments of its strings. -/
theorem Laid.bracesMatch {lo hi : Nat} {tokens : List Token} (hlaid : Laid lo tokens hi) (h : Closes 0 tokens)
    (hinner : ∀ token ∈ tokens, ∀ multiline pieces, token.kind = .str multiline pieces →
      ∀ inner span, .fragment inner span ∈ pieces → BracesMatch inner) : BracesMatch tokens := by
  intro place hplace hbrace
  obtain ⟨front, token, rest, rfl, rfl⟩ | ⟨token, hmem, hplace⟩ := mem_places hplace
  · exact hlaid.exists_matched h hbrace
  · obtain ⟨multiline, pieces, inner, span, hkind, hpiece, hplace⟩ := mem_places_kind hplace
    exact hinner token hmem multiline pieces hkind inner span hpiece place hplace hbrace

end JuiceSyntax
