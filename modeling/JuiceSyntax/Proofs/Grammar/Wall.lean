/-
  A wall in the token list: balanced tokens before it, and after it an item or a statement that
  begins with a word of its own. A reading that is before the wall is also below as many braces as the
  rest of the tokens before the wall closes (`Wall.Holds`), and each step keeps it there: a token is
  consumed on sight of what it is (`Wall.Holds.advance`), the searches end at closing braces that
  come before the wall (`skip_inner`, `skip_group`, `skip_distance`), and recovery of the program's
  items stops at the wall at the latest (`resumeFrom_item`).
-/
import JuiceSyntax.Proofs.Grammar.Progress
import JuiceSyntax.Proofs.Token.Places

namespace JuiceSyntax

open Reader Grammar

/-! ## Cursors at a token -/

theorem Cursor.kind_of_rest {c : Cursor} {token : Token} {rest : List Token} (h : c.rest = token :: rest) :
    c.kind = token.kind := by
  simp only [Cursor.kind, Cursor.current, h, List.headD_cons]

theorem Cursor.span_of_rest {c : Cursor} {token : Token} {rest : List Token} (h : c.rest = token :: rest) :
    c.span = token.span := by
  simp only [Cursor.span, Cursor.current, h, List.headD_cons]

theorem Cursor.rest_advance_of_rest {c : Cursor} {token : Token} {rest : List Token} (h : c.rest = token :: rest)
    (mid : token.kind.isDone = false) : c.advance.rest = rest := by
  rw [Cursor.rest_advance, Cursor.atEnd, Cursor.kind_of_rest h, mid, if_neg (by decide), h, List.tail_cons]

theorem Cursor.rest_skip {c : Cursor} {tokens after : List Token} (h : c.rest = tokens ++ after)
    (hdone : Undone tokens) {n : Nat} (hn : n ≤ tokens.length) : (c.skip n).rest = tokens.drop n ++ after := by
  induction n generalizing c tokens with
  | zero => exact h
  | succ n ih =>
    cases tokens with
    | nil => exact absurd hn (by simp)
    | cons token rest =>
      exact ih (Cursor.rest_advance_of_rest h (hdone _ List.mem_cons_self)) hdone.tail (Nat.le_of_succ_le_succ hn)

/-- Behind a token stands the next one. -/
theorem Cursor.kind_advance {c : Cursor} (h : c.atEnd = false) : c.advance.kind = c.peek 1 := by
  have hrest := (Cursor.advance_of_mid h).2.2
  simp only [Cursor.kind, Cursor.current, Cursor.peek, hrest]
  cases c.rest with
  | nil => rfl
  | cons first rest => cases rest <;> rfl

/-! ## Stretches of the document -/

/-- Laid up to `hi`. -/
def Early (hi : Nat) (tokens : List Token) : Prop := ∃ lo, Laid lo tokens hi

/-- Laid from `lo` on. -/
def Late (lo : Nat) (tokens : List Token) : Prop := ∃ hi, Laid lo tokens hi

theorem Laid.advance {lo hi : Nat} {c : Cursor} (h : Laid lo c.rest hi) :
    Laid lo c.advance.rest hi ∧ lo ≤ c.span.start ∧ c.span.start ≤ hi := by
  obtain ⟨token, rest, hrest⟩ : ∃ token rest, c.rest = token :: rest := by
    cases hrest : c.rest with
    | nil =>
      rw [hrest] at h
      cases h
    | cons token rest => exact ⟨token, rest, rfl⟩
  rw [Cursor.rest_advance, Cursor.atEnd, Cursor.kind_of_rest hrest, Cursor.span_of_rest hrest]
  rw [hrest] at h ⊢
  cases h with
  | done after before => exact ⟨.done after before, after, before⟩
  | cons mid after wide inner following =>
    have hle := following.le
    rw [mid, if_neg (by decide)]
    exact ⟨following.mono (by omega) (Nat.le_refl _), after, by omega⟩

/-- A token that is not the end begins before the end. -/
theorem Laid.start_lt {lo hi : Nat} {c : Cursor} (h : Laid lo c.rest hi) (mid : c.atEnd = false) : c.span.start < hi := by
  cases hrest : c.rest with
  | nil =>
    rw [hrest] at h
    cases h
  | cons token rest =>
    rw [Cursor.atEnd, Cursor.kind_of_rest hrest] at mid
    rw [Cursor.span_of_rest hrest]
    rw [hrest] at h
    cases h with
    | done after before => cases mid
    | cons mid after wide inner following => exact Nat.lt_of_lt_of_le wide following.le

theorem Laid.kind {lo hi : Nat} {token : Token} {rest : List Token} (h : Laid lo (token :: rest) hi) :
    FineKind (fun tokens => Laid lo tokens hi) token.kind := by
  intro multiline pieces hk tokens span hmem
  cases h with
  | done after before => cases hk
  | cons mid after wide inner following =>
    exact (inner multiline pieces hk tokens span hmem).mono after following.le

theorem Laid.of_append {lo hi : Nat} {front rest : List Token} {token : Token}
    (h : Laid lo (front ++ token :: rest) hi) :
    Laid lo (token :: rest) hi ∧ Undone front ∧
      ∀ t ∈ front, t.span.start ≤ token.span.start ∧ FineKind (Early token.span.start) t.kind := by
  induction front generalizing lo with
  | nil => exact ⟨h, fun _ hmem => absurd hmem List.not_mem_nil, fun _ hmem => absurd hmem List.not_mem_nil⟩
  | cons t front ih =>
    generalize hall : t :: front ++ token :: rest = all at h
    cases h with
    | done after before => exact absurd (congrArg List.length hall) (by simp)
    | @cons _ _ t' _ mid after wide inner following =>
      obtain ⟨rfl, rfl⟩ := List.cons.inj hall
      obtain ⟨hlaid, hundone, hearly⟩ := ih following
      have hbelow : t.span.stop ≤ token.span.start := by
        cases hlaid with
        | done after before => exact after
        | cons mid after wide inner following => exact after
      refine ⟨hlaid.mono (by omega) (Nat.le_refl _), fun t' hmem => ?_, fun t' hmem => ?_⟩
      · obtain rfl | hrest := List.mem_cons.1 hmem
        · exact mid
        · exact hundone t' hrest
      · obtain rfl | hrest := List.mem_cons.1 hmem
        · exact ⟨by omega, fun multiline pieces hk tokens span hpiece =>
            ⟨_, (inner multiline pieces hk tokens span hpiece).mono (Nat.le_refl _) hbelow⟩⟩
        · exact hearly t' hrest

/-- What follows a token is later. -/
theorem Laid.late {lo hi : Nat} {token : Token} {rest : List Token} (h : Laid lo (token :: rest) hi)
    (mid : token.kind.isDone = false) : Late (token.span.start + 1) rest := by
  cases h with
  | done after before => cases mid
  | cons mid after wide inner following => exact ⟨hi, following.mono wide (Nat.le_refl _)⟩

theorem inherited_laid (lo hi : Nat) : Inherited fun tokens => Laid lo tokens hi where
  advance h := h.advance.1
  kind h := h.kind

theorem inherited_early (hi : Nat) : Inherited (Early hi) where
  advance h := h.imp fun _ h => h.advance.1
  kind h multiline pieces hk tokens span hmem := h.imp fun _ h => h.kind multiline pieces hk tokens span hmem

theorem inherited_late (lo : Nat) : Inherited (Late lo) where
  advance h := h.imp fun _ h => h.advance.1
  kind h multiline pieces hk tokens span hmem := h.imp fun _ h => h.kind multiline pieces hk tokens span hmem

/-- The tokens are a place of the document. -/
def Stands (doc tokens : List Token) : Prop := tokens ∈ places doc ∧ ∃ lo hi, Laid lo tokens hi

theorem Laid.ne_nil {lo hi : Nat} {tokens : List Token} (h : Laid lo tokens hi) : tokens ≠ [] := by
  cases h with
  | done after before => nofun
  | cons mid after wide inner following => nofun

theorem stands_self {tokens : List Token} (h : ∃ lo hi, Laid lo tokens hi) : Stands tokens tokens := by
  obtain ⟨lo, hi, hlaid⟩ := h
  exact ⟨(placed_self _).resolve_left hlaid.ne_nil, lo, hi, hlaid⟩

theorem stands_lex (source : String) : Stands (lex source).tokens (lex source).tokens := stands_self (lex_laid source)

theorem inherited_stands (doc : List Token) : Inherited (Stands doc) where
  advance {c} h := by
    obtain ⟨hmem, lo, hi, hlaid⟩ := h
    refine ⟨?_, lo, hi, hlaid.advance.1⟩
    rw [Cursor.rest_advance]
    split
    · exact hmem
    · rename_i hmid
      cases hrest : c.rest with
      | nil => exact absurd hrest hlaid.ne_nil
      | cons token rest =>
        rw [hrest] at hmem
        have hne := hlaid.advance.1.ne_nil
        rw [Cursor.rest_advance, if_neg hmid, hrest] at hne
        exact (closedPlaces doc token rest hmem).1.resolve_left hne
  kind {token rest} h multiline pieces hk tokens span hpiece := by
    obtain ⟨hmem, lo, hi, hlaid⟩ := h
    have hinner := hlaid.kind multiline pieces hk tokens span hpiece
    exact ⟨((closedPlaces doc token rest hmem).2 multiline pieces hk tokens span hpiece).resolve_left hinner.ne_nil,
      lo, hi, hinner⟩

/-! ## Walls -/

/-- A word that begins an item and stands nowhere else but behind `export` or `foreign` -/
def opensItem : Kind → Bool
  | .word .importWord | .word .foreignWord | .word .typeWord | .word .implWord | .word .exportWord => true
  | _ => false

theorem opensItem_cases {kind : Kind} (h : opensItem kind = true) :
    kind = .word .importWord ∨ kind = .word .foreignWord ∨ kind = .word .typeWord ∨ kind = .word .implWord ∨
      kind = .word .exportWord := by
  unfold opensItem at h
  split at h
  · exact .inl rfl
  · exact .inr (.inl rfl)
  · exact .inr (.inr (.inl rfl))
  · exact .inr (.inr (.inr (.inl rfl)))
  · exact .inr (.inr (.inr (.inr rfl)))
  · cases h

/-- A word that begins a statement and stands nowhere else but in the `for` of an `impl` -/
def opensStatement : Kind → Bool
  | .word .returnWord | .word .breakWord | .word .continueWord | .word .forWord => true
  | _ => false

theorem opensStatement_cases {kind : Kind} (h : opensStatement kind = true) :
    kind = .word .returnWord ∨ kind = .word .breakWord ∨ kind = .word .continueWord ∨ kind = .word .forWord := by
  unfold opensStatement at h
  split at h
  · exact .inl rfl
  · exact .inr (.inl rfl)
  · exact .inr (.inr (.inl rfl))
  · exact .inr (.inr (.inr rfl))
  · cases h

/-- A word of either kind. -/
def standsFirst (kind : Kind) : Bool := opensItem kind || opensStatement kind

structure Wall where
  before : List Token
  first : Token
  after : List Token
  opens : standsFirst first.kind = true
  undone : Undone before
  /-- Neither word goes on with an item word after it. -/
  last : opensItem first.kind = true → ∀ token ∈ before.getLast?,
    token.kind.isWord .exportWord = false ∧ token.kind.isWord .foreignWord = false
  early : ∀ token ∈ before, token.span.start ≤ first.span.start ∧ FineKind (Early first.span.start) token.kind

namespace Wall

/-- The tokens from the wall on. -/
def tail (w : Wall) : List Token := w.first :: w.after

/-- Where the wall stands in the document. -/
def offset (w : Wall) : Nat := w.first.span.start

/-- Before the wall or at it, below at least `depth` braces that are closed before it. -/
def Holds (w : Wall) (depth : Nat) (c : Cursor) : Prop :=
  ∃ front d, front <:+ w.before ∧ c.rest = front ++ w.tail ∧ depth ≤ d ∧ Closes d front

/-- The wall is not reached. -/
def Ahead (w : Wall) (c : Cursor) : Prop := c.rest ≠ w.tail

/-- A token that may be consumed below the same braces. -/
structure Passable (w : Wall) (c : Cursor) : Prop where
  ahead : w.Ahead c
  left : c.kind.isMark .lBrace = false
  right : c.kind.isMark .rBrace = false

end Wall

/-- Between balanced tokens and an item or a statement, as they lie in a document, there is a wall. -/
def Wall.ofLaid {before after : List Token} {first : Token} {lo hi : Nat} (hlaid : Laid lo (before ++ first :: after) hi)
    (hfirst : standsFirst first.kind = true)
    (hlast : opensItem first.kind = true → ∀ token ∈ before.getLast?,
      token.kind.isWord .exportWord = false ∧ token.kind.isWord .foreignWord = false) : Wall :=
  ⟨before, first, after, hfirst, hlaid.of_append.2.1, hlast, hlaid.of_append.2.2⟩

/-- A kind that is neither a brace nor a word that begins an item or a statement. -/
def isPlain (kind : Kind) : Bool := !kind.isMark .lBrace && !kind.isMark .rBrace && !standsFirst kind

variable {w : Wall} {depth : Nat} {c : Cursor}

theorem Wall.kind_tail (h : c.rest = w.tail) : c.kind = w.first.kind := by
  simp only [Cursor.kind, Cursor.current, h, Wall.tail, List.headD_cons]

theorem Wall.ahead_of_kind (h : standsFirst c.kind = false) : w.Ahead c := by
  intro hrest
  rw [Wall.kind_tail hrest, w.opens] at h
  exact absurd h (by decide)

theorem standsFirst_of_isMark {m : Mark} {kind : Kind} (h : kind.isMark m = true) : standsFirst kind = false := by
  cases kind with
  | mark m' => rfl
  | _ => exact absurd h Bool.false_ne_true

theorem Wall.passable_of_kind {kind : Kind} (h : c.kind = kind) (hk : isPlain kind = true) : w.Passable c := by
  rw [← h] at hk
  simp only [isPlain, Bool.and_eq_true, Bool.not_eq_true'] at hk
  exact ⟨Wall.ahead_of_kind hk.2, hk.1.1, hk.1.2⟩

theorem eq_of_isMark {m : Mark} {kind : Kind} (h : kind.isMark m = true) : kind = .mark m := by
  cases kind with
  | mark m' => rw [beq_iff_eq.1 h]
  | _ => exact absurd h Bool.false_ne_true

theorem eq_of_isWord {word : Keyword} {kind : Kind} (h : kind.isWord word = true) : kind = .word word := by
  cases kind with
  | word word' => rw [beq_iff_eq.1 h]
  | _ => exact absurd h Bool.false_ne_true

/-- A word before the wall. -/
theorem Wall.passable_of_word {word : Keyword} (h : c.kind.isWord word = true) (ha : w.Ahead c) : w.Passable c := by
  refine ⟨ha, ?_, ?_⟩
  · rw [eq_of_isWord h]
    rfl
  · rw [eq_of_isWord h]
    rfl

/-- No token list ends at the wall. -/
theorem Wall.isDone_first (w : Wall) : w.first.kind.isDone = false := by
  obtain ⟨before, ⟨kind, span⟩, after, opens, -⟩ := w
  cases kind with
  | done => exact absurd opens Bool.false_ne_true
  | _ => rfl

/-- Reading can resume at the wall, in a block. -/
theorem Wall.distance_statement (w : Wall) : Resume.statement.distance 0 w.tail = 0 := by
  obtain ⟨before, ⟨kind, span⟩, after, opens, -⟩ := w
  cases kind with
  | word word => cases word <;> first | rfl | exact absurd opens Bool.false_ne_true
  | _ => exact absurd opens Bool.false_ne_true

/-- So it can among the items, if the wall is one. -/
theorem Wall.distance_tail (w : Wall) (hopens : opensItem w.first.kind = true) : Resume.item.distance 0 w.tail = 0 := by
  obtain hk | hk | hk | hk | hk := opensItem_cases hopens
  all_goals rw [Wall.tail, Resume.distance, hk]; rfl

theorem Wall.undone_of_suffix {front : List Token} (h : front <:+ w.before) : Undone front :=
  fun token hmem => w.undone token (h.subset hmem)

namespace Wall.Holds

theorem mono {depth' : Nat} (h : w.Holds depth c) (hle : depth' ≤ depth) : w.Holds depth' c := by
  obtain ⟨front, d, hfront, hrest, hd, hclose⟩ := h
  exact ⟨front, d, hfront, hrest, by omega, hclose⟩

/-- Below a brace the wall is not reached. -/
theorem ahead (h : w.Holds (depth + 1) c) : w.Ahead c := by
  obtain ⟨front, d, -, hrest, hd, hclose⟩ := h
  intro heq
  rw [hrest, List.append_left_eq_self] at heq
  exact hclose.ne_nil (by omega) heq

/-- Tokens before the wall are passed. -/
theorem skip {front : List Token} (hfront : front <:+ w.before) (hrest : c.rest = front ++ w.tail) {n d : Nat}
    (h : Leaves n d front) (hd : depth ≤ d) : w.Holds depth (c.skip n) :=
  ⟨front.drop n, d, (List.drop_suffix n front).trans hfront,
    Cursor.rest_skip hrest (Wall.undone_of_suffix hfront) h.le, hd, h.closes⟩

/-- The token at the cursor, if it is before the wall, and what its consumption does. -/
theorem step (h : w.Holds depth c) (ha : w.Ahead c) :
    ∃ token ∈ w.before, c.current = token ∧
      ((c.kind.isMark .lBrace = true ∧ w.Holds (depth + 1) c.advance) ∨
       (c.kind.isMark .rBrace = true ∧ w.Holds (depth - 1) c.advance) ∨
       (c.kind.isMark .lBrace = false ∧ c.kind.isMark .rBrace = false ∧ w.Holds depth c.advance)) := by
  obtain ⟨front, d, hfront, hrest, hd, hclose⟩ := h
  cases front with
  | nil => exact absurd hrest ha
  | cons token rest =>
    have hmem : token ∈ w.before := hfront.subset List.mem_cons_self
    have hkind := Cursor.kind_of_rest hrest
    have hadvance := Cursor.rest_advance_of_rest hrest (w.undone token hmem)
    have hrest' : rest <:+ w.before := (List.suffix_cons token rest).trans hfront
    refine ⟨token, hmem, by simp only [Cursor.current, hrest, List.cons_append, List.headD_cons], ?_⟩
    rw [hkind]
    cases hclose with
    | opening brace hclose => exact .inl ⟨brace, rest, d + 1, hrest', hadvance, by omega, hclose⟩
    | @closing d _ _ brace hclose => exact .inr (.inl ⟨brace, rest, d, hrest', hadvance, by omega, hclose⟩)
    | other left right hclose => exact .inr (.inr ⟨left, right, rest, d, hrest', hadvance, hd, hclose⟩)

theorem atEnd (h : w.Holds depth c) (ha : w.Ahead c) : c.atEnd = false := by
  obtain ⟨token, hmem, hcurrent, -⟩ := h.step ha
  rw [Cursor.atEnd, Cursor.kind, hcurrent]
  exact w.undone token hmem

theorem advance (h : w.Holds depth c) (hp : w.Passable c) : w.Holds depth c.advance := by
  obtain ⟨token, -, -, ⟨hl, -⟩ | ⟨hr, -⟩ | ⟨-, -, hnext⟩⟩ := h.step hp.ahead
  · exact absurd (hl.symm.trans hp.left) (by decide)
  · exact absurd (hr.symm.trans hp.right) (by decide)
  · exact hnext

/-- The words `export` and `foreign` are not the last before an item. -/
theorem ahead_advance (h : w.Holds depth c) (hopens : opensItem w.first.kind = true) (ha : w.Ahead c)
    (hword : c.kind.isWord .exportWord = true ∨ c.kind.isWord .foreignWord = true) : w.Ahead c.advance := by
  obtain ⟨front, d, hfront, hrest, hd, hclose⟩ := h
  cases front with
  | nil => exact absurd hrest ha
  | cons token rest =>
    have hmem : token ∈ w.before := hfront.subset List.mem_cons_self
    have hadvance : c.advance.rest = rest ++ w.tail := Cursor.rest_advance_of_rest hrest (w.undone token hmem)
    intro heq
    rw [hadvance, List.append_left_eq_self] at heq
    obtain ⟨others, hothers⟩ := hfront
    have hlast : token ∈ w.before.getLast? := by rw [← hothers, heq, List.getLast?_concat]; rfl
    obtain ⟨hexport, hforeign⟩ := w.last hopens token hlast
    rw [Cursor.kind_of_rest hrest] at hword
    obtain hw | hw := hword
    · exact absurd (hw.symm.trans hexport) (by decide)
    · exact absurd (hw.symm.trans hforeign) (by decide)

theorem advance_opening (h : w.Holds depth c) (hl : c.kind.isMark .lBrace = true) : w.Holds (depth + 1) c.advance := by
  obtain ⟨token, -, -, ⟨-, hnext⟩ | ⟨hr, -⟩ | ⟨hl', -⟩⟩ := h.step (Wall.ahead_of_kind (standsFirst_of_isMark hl))
  · exact hnext
  · exact absurd (hr.symm.trans (isMark_of_ne hl .rBrace (by decide))) (by decide)
  · exact absurd (hl.symm.trans hl') (by decide)

/-- Below a brace any token may be consumed, the one that closes it too. -/
theorem advance_inner (h : w.Holds (depth + 1) c) : w.Holds depth c.advance := by
  obtain ⟨token, -, -, ⟨-, hnext⟩ | ⟨-, hnext⟩ | ⟨-, -, hnext⟩⟩ := h.step h.ahead
  · exact hnext.mono (by omega)
  · exact hnext
  · exact hnext.mono (by omega)

/-- What stands at the cursor begins no later than the wall. -/
theorem span_le (h : w.Holds depth c) : c.span.start ≤ w.offset := by
  by_cases hne : c.rest = w.tail
  · rw [Cursor.span_of_rest hne]
    exact Nat.le_refl _
  · obtain ⟨token, hmem, hcurrent, -⟩ := h.step hne
    rw [Cursor.span, hcurrent]
    exact (w.early token hmem).1

theorem fineKind (h : w.Holds depth c) : FineKind (Early w.offset) c.kind := by
  by_cases hne : c.rest = w.tail
  · intro multiline pieces hk
    have hopens := w.opens
    rw [← Wall.kind_tail hne, hk] at hopens
    exact absurd hopens Bool.false_ne_true
  · obtain ⟨token, hmem, hcurrent, -⟩ := h.step hne
    rw [Cursor.kind, hcurrent]
    exact (w.early token hmem).2

/-! ## Searches -/

/-- The tokens of a macro body are passed up to the brace that closes it. -/
theorem skip_inner (h : w.Holds (depth + 1) c) : w.Holds (depth + 1) (c.skip (innerLength 0 c.rest)) := by
  obtain ⟨front, d, hfront, hrest, hd, hclose⟩ := h
  have hleaves := innerLength_leaves hclose (Wall.undone_of_suffix hfront) (k := 0) (by omega) w.tail
  rw [← hrest] at hleaves
  exact skip hfront hrest hleaves (by omega)

/-- A group is passed with the brace that closes it. -/
theorem skip_group (h : w.Holds depth c) (hl : c.kind.isMark .lBrace = true) :
    w.Holds depth (c.skip (groupLength 0 c.rest)) := by
  have ha : w.Ahead c := Wall.ahead_of_kind (standsFirst_of_isMark hl)
  obtain ⟨front, d, hfront, hrest, hd, hclose⟩ := h
  cases front with
  | nil => exact absurd hrest ha
  | cons token rest =>
    rw [Cursor.kind_of_rest hrest] at hl
    have hr := isMark_of_ne hl .rBrace (by decide)
    cases hclose with
    | opening brace hclose =>
      have hundone := (Wall.undone_of_suffix hfront).tail
      have hleaves := groupLength_leaves hclose hundone (k := 1) (by omega) (by omega) w.tail
      refine skip hfront hrest (n := groupLength 0 c.rest) ?_ (show depth ≤ d + 1 - 1 by omega)
      rw [hrest, List.cons_append, groupLength, isDone_of_isMark hl, hl, if_neg (by decide), if_pos rfl]
      exact hleaves.succ
    | closing brace => exact absurd (brace.symm.trans hr) (by decide)
    | other left => exact absurd (hl.symm.trans left) (by decide)

theorem skip_distance {resume : Resume} (hclose : resume.atClose = true) (h : w.Holds (depth + 1) c) :
    w.Holds (depth + 1) (c.skip (resume.distance 0 c.rest)) := by
  obtain ⟨front, d, hfront, hrest, hd, hcloses⟩ := h
  have hleaves := distance_leaves hclose hcloses (Wall.undone_of_suffix hfront) (k := 0) (by omega) w.tail
  rw [← hrest] at hleaves
  exact skip hfront hrest hleaves (by omega)

/-- Recovery in a group goes on in that group or in one inside it. -/
theorem resumeFrom {resume : Resume} (hclose : resume.atClose = true) {start : Cursor} (h : w.Holds (depth + 1) c) :
    w.Holds (depth + 1) (JuiceSyntax.resumeFrom start resume c) := by
  unfold JuiceSyntax.resumeFrom
  dsimp only
  split
  · rename_i hstuck
    refine skip_distance hclose ?_
    have hr : c.kind.isMark .rBrace = false := by
      have := (Bool.and_eq_true_iff.1 hstuck).2
      simpa using this
    obtain ⟨token, -, -, ⟨-, hnext⟩ | ⟨hr', -⟩ | ⟨-, -, hnext⟩⟩ := h.step h.ahead
    · exact hnext.mono (by omega)
    · exact absurd (hr'.symm.trans hr) (by decide)
    · exact hnext
  · exact skip_distance hclose h

theorem skip_distance_item (hopens : opensItem w.first.kind = true) (h : w.Holds 0 c) : w.Holds 0 (c.skip (Resume.item.distance 0 c.rest)) := by
  obtain ⟨front, d, hfront, hrest, hd, hcloses⟩ := h
  obtain ⟨d', hleaves⟩ :=
    distance_leaves_of_stop rfl (w.distance_tail hopens) hcloses (Wall.undone_of_suffix hfront) (k := 0) (by omega)
  rw [← hrest] at hleaves
  exact skip hfront hrest hleaves (Nat.zero_le _)

/-- Recovery of the program's items does not pass the wall. -/
theorem resumeFrom_item (hopens : opensItem w.first.kind = true) {start : Cursor} (hstart : w.Holds 0 start) (ha : w.Ahead start) (h : w.Holds 0 c)
    (hc : ∃ n, c = start.skip n) : w.Holds 0 (JuiceSyntax.resumeFrom start .item c) := by
  unfold JuiceSyntax.resumeFrom
  dsimp only
  split
  · rename_i hstuck
    refine skip_distance_item hopens ?_
    -- A reading that is stuck is still where it began, and that is before the wall.
    have hahead : w.Ahead c := by
      have hpos : c.pos = start.pos := by simpa using (Bool.and_eq_true_iff.1 (Bool.and_eq_true_iff.1 hstuck).1).1
      obtain ⟨front, -, -, hrest, -⟩ := hstart
      obtain ⟨n, rfl⟩ := hc
      have hleft := start.pos_add_left_skip n
      rw [hpos, (start.skip n).left_eq, start.left_eq] at hleft
      intro heq
      rw [heq, hrest, List.length_append] at hleft
      have hnil : front = [] := List.length_eq_zero_iff.1 (by omega)
      rw [hnil] at hrest
      exact ha hrest
    obtain ⟨token, -, -, ⟨-, hnext⟩ | ⟨-, hnext⟩ | ⟨-, -, hnext⟩⟩ := h.step hahead
    · exact hnext.mono (Nat.zero_le _)
    · exact hnext
    · exact hnext
  · exact skip_distance_item hopens h

end Wall.Holds

end JuiceSyntax
