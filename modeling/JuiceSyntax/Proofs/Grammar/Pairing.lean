/-
  Braces in a text that reads well. `Pairs L p depth r` says of a reader `r` that begins where `p`
  holds: what it consumes, if it ends without a fault, closes `depth` braces that are open before
  it, and otherwise just those that it opens. Here the braces of the tokens are not known to match;
  that a reading comes through without a fault shows it.

  `level_pairs`: so what an expression without faults was read from is balanced.
-/
import JuiceSyntax.Proofs.Grammar.BraceFidelity
import JuiceSyntax.Proofs.Grammar.Leaves

namespace JuiceSyntax

open Reader Grammar

/-! ## The judgement -/

/-- What is between two places closes `depth` braces that are open before. -/
def Crosses (depth : Nat) (c c' : Cursor) : Prop := ∃ tokens, c.rest = tokens ++ c'.rest ∧ Closes depth tokens

theorem Even.crosses {depth : Nat} {c c' c'' : Cursor} (h : Even c c') (h' : Crosses depth c' c'') :
    Crosses depth c c'' := by
  obtain ⟨tokens, hrest, hcloses⟩ := h
  obtain ⟨tokens', hrest', hcloses'⟩ := h'
  refine ⟨tokens ++ tokens', by rw [hrest, hrest', List.append_assoc], ?_⟩
  have happend := hcloses.append hcloses'
  rwa [Nat.zero_add] at happend

/-- A brace is consumed. -/
theorem Cursor.rest_of_isMark {c : Cursor} {m : Mark} (h : c.kind.isMark m = true) :
    ∃ token, token.kind.isMark m = true ∧ c.rest = token :: c.advance.rest := by
  cases hrest : c.rest with
  | nil =>
    simp only [Cursor.kind, Cursor.current, hrest, List.headD_nil, Kind.isMark] at h
    exact absurd h (by decide)
  | cons token rest =>
    rw [Cursor.kind_of_rest hrest] at h
    exact ⟨token, h, by rw [Cursor.rest_advance_of_rest hrest (isDone_of_isMark h)]⟩

theorem crosses_opening {depth : Nat} {c c' : Cursor} (hbrace : c.kind.isMark .lBrace = true)
    (h : Crosses (depth + 1) c.advance c') : Crosses depth c c' := by
  obtain ⟨token, htoken, hrest⟩ := Cursor.rest_of_isMark hbrace
  obtain ⟨tokens, hafter, hcloses⟩ := h
  exact ⟨token :: tokens, by rw [hrest, hafter, List.cons_append], .opening htoken hcloses⟩

theorem crosses_closing {depth : Nat} {c c' : Cursor} (hbrace : c.kind.isMark .rBrace = true)
    (h : Crosses depth c.advance c') : Crosses (depth + 1) c c' := by
  obtain ⟨token, htoken, hrest⟩ := Cursor.rest_of_isMark hbrace
  obtain ⟨tokens, hafter, hcloses⟩ := h
  exact ⟨token :: tokens, by rw [hrest, hafter, List.cons_append], .closing htoken hcloses⟩

structure Pairs (L : Level) (p : Cursor → Prop) (depth : Nat) {α : Type} (r : Reader α) : Prop where
  clear : ∀ {s a t}, r L s = .ok a t → t.Clear → s.Clear
  closes : ∀ {s a t lo hi}, p s.cursor → Laid lo s.cursor.rest hi → r L s = .ok a t → t.Clear →
    Laid lo t.cursor.rest hi ∧ Crosses depth s.cursor t.cursor

variable {L : Level} {p : Cursor → Prop} {depth : Nat} {α β : Type}

namespace Pairs

/-! ## Steps -/

theorem pure {a : α} : Pairs L p 0 (Pure.pure a) where
  clear hr ht := by
    cases hr
    exact ht
  closes _ hs hr _ := by
    cases hr
    exact ⟨hs, Even.refl _⟩

theorem never {r : Reader α} (h : Blots L r) : Pairs L p depth r where
  clear hr ht := absurd ht (h _ _ _ hr)
  closes _ _ hr ht := absurd ht (h _ _ _ hr)

theorem throw {fault : Fault} : Pairs L p depth (throw fault : Reader α) := never fun _ _ _ hr => nomatch hr

theorem failUnexpected (wanted : Wanted) : Pairs L p depth (Reader.failUnexpected wanted : Reader α) :=
  never fun _ _ _ hr => nomatch hr

theorem failAdvised (wanted : Wanted) (advice : Advice) :
    Pairs L p depth (Reader.failAdvised wanted advice : Reader α) :=
  never fun _ _ _ hr => nomatch hr

theorem failThen (wanted : Wanted) {k : β → Reader α} : Pairs L p depth (Reader.failUnexpected wanted >>= k) :=
  never fun _ _ _ hr => nomatch hr

theorem failAdvisedThen (wanted : Wanted) (advice : Advice) {k : β → Reader α} :
    Pairs L p depth (Reader.failAdvised wanted advice >>= k) :=
  never fun _ _ _ hr => nomatch hr

theorem throwThen (fault : Fault) {k : β → Reader α} :
    Pairs L p depth ((MonadExcept.throw fault : Reader β) >>= k) :=
  never fun _ _ _ hr => nomatch hr

/-- A balanced step, and what follows where it ends. -/
theorem bindTo {q : α → Cursor → Prop} {r : Reader α} {k : α → Reader β} (h : Pairs L p 0 r)
    (hq : ∀ {s a t lo hi}, p s.cursor → Laid lo s.cursor.rest hi → r L s = .ok a t → q a t.cursor)
    (h' : ∀ a, Pairs L (q a) depth (k a)) : Pairs L p depth (r >>= k) where
  clear hr hu := by
    obtain ⟨a, t, hfirst, hk⟩ := ok_of_bind hr
    exact h.clear hfirst ((h' a).clear hk hu)
  closes hp hs hr hu := by
    obtain ⟨a, t, hfirst, hk⟩ := ok_of_bind hr
    obtain ⟨ht, heven⟩ := h.closes hp hs hfirst ((h' a).clear hk hu)
    obtain ⟨hu', hcrosses⟩ := (h' a).closes (hq hp hs hfirst) ht hk hu
    exact ⟨hu', Even.crosses heven hcrosses⟩

theorem bind {r : Reader α} {k : α → Reader β} (h : Pairs L p 0 r) (h' : ∀ a, Pairs L (fun _ => True) depth (k a)) :
    Pairs L p depth (r >>= k) :=
  h.bindTo (fun _ _ _ => trivial) h'

/-- A value at hand, and what follows. -/
theorem known {a : α} {k : α → Reader β} (h : Pairs L p depth (k a)) : Pairs L p depth (Pure.pure a >>= k) :=
  ⟨h.clear, h.closes⟩

/-- A look, after which the reading still stands where it stood. -/
theorem look {r : Reader α} {k : α → Reader β} (h : Looks L r) (h' : ∀ a, Pairs L p depth (k a)) :
    Pairs L p depth (r >>= k) where
  clear {s _ _} hr ht := by
    obtain ⟨a, heq⟩ := h s
    rw [bind_apply, heq] at hr
    exact (h' a).clear hr ht
  closes {s _ _ _ _} hp hs hr ht := by
    obtain ⟨a, heq⟩ := h s
    rw [bind_apply, heq] at hr
    exact (h' a).closes hp hs hr ht

/-- A look at the cursor, with what it says of it. -/
theorem lookAt {r : Reader α} {f : Cursor → α} (hr : ∀ s, r L s = .ok (f s.cursor) s) {k : α → Reader β}
    (h : ∀ a, Pairs L (fun c => p c ∧ f c = a) depth (k a)) : Pairs L p depth (r >>= k) where
  clear hk ht := by
    rw [bind_apply, hr] at hk
    exact (h _).clear hk ht
  closes hp hs hk ht := by
    rw [bind_apply, hr] at hk
    exact (h _).closes ⟨hp, rfl⟩ hs hk ht

theorem onKind {k : Kind → Reader β} (h : ∀ kind, Pairs L (fun c => p c ∧ c.kind = kind) depth (k kind)) :
    Pairs L p depth (Reader.kind >>= k) :=
  lookAt (fun _ => rfl) h

theorem onPeek (n : Nat) {k : Kind → Reader β} (h : ∀ kind, Pairs L (fun c => p c ∧ c.peek n = kind) depth (k kind)) :
    Pairs L p depth (Reader.peek n >>= k) :=
  lookAt (fun _ => rfl) h

theorem onCursor {k : Cursor → Reader β} (h : ∀ c, Pairs L (fun c' => p c' ∧ c' = c) depth (k c)) :
    Pairs L p depth (Reader.cursor >>= k) :=
  lookAt (f := id) (fun _ => rfl) h

theorem ite {c : Prop} [Decidable c] {r r' : Reader α} (h : Pairs L p depth r) (h' : Pairs L p depth r') :
    Pairs L p depth (if c then r else r') := by
  split
  · exact h
  · exact h'

/-- Two ways to a value that is then used. -/
theorem iteBind {c : Prop} [Decidable c] {r r' : Reader α} {k : α → Reader β} (h : Pairs L p 0 r) (h' : Pairs L p 0 r')
    (next : ∀ a, Pairs L (fun _ => True) depth (k a)) : Pairs L p depth (if c then r >>= k else r' >>= k) :=
  .ite (.bind h next) (.bind h' next)

theorem map {r : Reader α} (f : α → β) (h : Pairs L p 0 r) : Pairs L p 0 (f <$> r) := .bind h fun _ => .pure

/-! ## Consuming -/

theorem advance (h : ∀ c, p c → c.kind.isBrace = false) : Pairs L p 0 Reader.advance where
  clear hr ht := by
    cases hr
    exact ⟨ht.faults, ht.halted⟩
  closes hp hs hr _ := by
    cases hr
    exact ⟨hs.advance.1, Even.advance (h _ hp)⟩

/-- A token of a kind that is known. -/
theorem advanceAt {kind : Kind} (h : ∀ c, p c → c.kind = kind) (hk : kind.isBrace = false) :
    Pairs L p 0 Reader.advance :=
  advance fun c hc => by rw [h c hc, hk]

/-- Two tokens of kinds that are known. -/
theorem skipTwo {kind kind' : Kind} (h : ∀ c, p c → c.kind = kind ∧ c.peek 1 = kind') (hdone : kind.isDone = false)
    (hk : kind.isBrace = false) (hk' : kind'.isBrace = false) : Pairs L p 0 (JuiceSyntax.skip 2) where
  clear hr ht := by
    cases hr
    exact ⟨ht.faults, ht.halted⟩
  closes {s _ _ _ _} hp hs hr _ := by
    cases hr
    obtain ⟨hkind, hpeek⟩ := h _ hp
    have hmid : s.cursor.atEnd = false := by rw [Cursor.atEnd, hkind, hdone]
    refine ⟨hs.advance.1.advance.1, ?_⟩
    exact (Even.advance (by rw [hkind, hk])).trans (Even.advance (by rw [Cursor.kind_advance hmid, hpeek, hk']))

/-- What is consumed on sight, if it is no brace. -/
theorem takeIf {f : Kind → Bool} (h : ∀ kind, f kind = true → kind.isBrace = false) :
    Pairs L p 0 (do
      if f (← Reader.kind) then
        let _ ← Reader.advance
        return true
      else
        return false) := by
  refine .onKind fun kind => ?_
  split
  · rename_i hfound
    exact .bind (.advanceAt (fun _ hc => hc.2) (h kind hfound)) fun _ => .pure
  · exact .pure

theorem takeMark (m : Mark) (h : (Kind.mark m).isBrace = false) : Pairs L p 0 (Reader.takeMark m) :=
  takeIf (f := fun kind => kind.isMark m) fun kind hm => by rw [eq_of_isMark hm, h]

theorem takeWord (w : Keyword) : Pairs L p 0 (Reader.takeWord w) :=
  takeIf (f := fun kind => kind.isWord w) fun kind hw => by rw [eq_of_isWord hw]; rfl

theorem needIf {f : Kind → Bool} {cause : Kind → Cause} (h : ∀ kind, f kind = true → kind.isBrace = false) :
    Pairs L p 0 (do
      if f (← Reader.kind) then
        return (← Reader.advance).span
      else
        MonadExcept.throw (.ofCause (← Reader.here) (cause (← Reader.kind)))) := by
  refine .onKind fun kind => ?_
  split
  · rename_i hfound
    exact .bind (.advanceAt (fun _ hc => hc.2) (h kind hfound)) fun _ => .pure
  · exact .look .here fun _ => .look .kind fun _ => .throw

theorem needMark (m : Mark) (h : (Kind.mark m).isBrace = false) : Pairs L p 0 (Reader.needMark m) :=
  needIf (f := fun kind => kind.isMark m) fun kind hm => by rw [eq_of_isMark hm, h]

theorem needWord (w : Keyword) : Pairs L p 0 (Reader.needWord w) :=
  needIf (f := fun kind => kind.isWord w) fun kind hw => by rw [eq_of_isWord hw]; rfl

/-! ## Braces -/

/-- A brace that has to be there, and what follows it. -/
theorem brace {m : Mark} {depth' : Nat} (hcross : ∀ {c c' : Cursor}, c.kind.isMark m = true →
      Crosses depth' c.advance c' → Crosses depth c c') {k : Span → Reader β}
    (h : ∀ span, Pairs L (fun _ => True) depth' (k span)) : Pairs L p depth (Reader.needMark m >>= k) where
  clear {s b u} hr hu := by
    obtain ⟨span, t, hmark, hk⟩ := ok_of_bind hr
    have ht := (h span).clear hk hu
    rw [needMark_apply] at hmark
    split at hmark
    · cases hmark
      exact ⟨ht.faults, ht.halted⟩
    · cases hmark
  closes {s b u lo hi} _ hs hr hu := by
    obtain ⟨span, t, hmark, hk⟩ := ok_of_bind hr
    rw [needMark_apply] at hmark
    split at hmark
    · rename_i hbrace
      cases hmark
      obtain ⟨hlaid, hcrosses⟩ := (h _).closes trivial hs.advance.1 hk hu
      exact ⟨hlaid, hcross hbrace hcrosses⟩
    · cases hmark

theorem opening {k : Span → Reader β} (h : ∀ span, Pairs L (fun _ => True) (depth + 1) (k span)) :
    Pairs L p depth (Reader.needMark .lBrace >>= k) :=
  brace crosses_opening h

theorem closing {k : Span → Reader β} (h : ∀ span, Pairs L (fun _ => True) depth (k span)) :
    Pairs L p (depth + 1) (Reader.needMark .rBrace >>= k) :=
  brace crosses_closing h

/-- A closing brace that is known to be there. -/
theorem closingAt {k : Token → Reader β} (hp : ∀ c lo hi, p c → Laid lo c.rest hi → c.kind.isMark .rBrace = true)
    (h : ∀ token, Pairs L (fun _ => True) depth (k token)) : Pairs L p (depth + 1) (Reader.advance >>= k) where
  clear hr hu := by
    have ht := (h _).clear hr hu
    exact ⟨ht.faults, ht.halted⟩
  closes hc hs hr hu := by
    obtain ⟨hlaid, hcrosses⟩ := (h _).closes trivial hs.advance.1 hr hu
    exact ⟨hlaid, crosses_closing (hp _ _ _ hc hs) hcrosses⟩

/-! ## Attempts -/

/-- What is given up consumes nothing. -/
theorem speculated {r : Reader α} (hgrows : ∀ s, Grows s (Ending.state (r L s))) (h : Pairs L p 0 r) {s t : State}
    {found : Option α} (hr : JuiceSyntax.speculated s (r L s) = .ok found t) :
    (t.Clear → s.Clear) ∧ (∀ {lo hi}, p s.cursor → Laid lo s.cursor.rest hi → t.Clear →
      Laid lo t.cursor.rest hi ∧ Crosses 0 s.cursor t.cursor) := by
  obtain ⟨fault, -, h'⟩ | ⟨a, t', hread, -, h'⟩ | h' := speculated_cases s (r L s)
  · rw [h'] at hr
    cases hr
  · rw [h'] at hr
    cases hr
    exact ⟨h.clear hread, fun hp hs ht => h.closes hp hs hread ht⟩
  · rw [h', rewind_eq (hgrows s)] at hr
    cases hr
    exact ⟨fun ht => ⟨ht.faults, ht.halted⟩, fun _ hs _ => ⟨hs, Even.refl _⟩⟩

theorem speculate {r : Reader α} (hgrows : ∀ s, Grows s (Ending.state (r L s))) (h : Pairs L p 0 r) :
    Pairs L p 0 (JuiceSyntax.speculate r) where
  clear hr := by
    rw [speculate_apply] at hr
    exact (h.speculated hgrows hr).1
  closes hp hs hr ht := by
    rw [speculate_apply] at hr
    exact (h.speculated hgrows hr).2 hp hs ht

theorem tryBrace {form : BraceForm} {r : Reader Expr} (hgrows : ∀ s, Grows s (Ending.state (r L s)))
    (h : Pairs L p 0 r) : Pairs L p 0 (Grammar.tryBrace form r) := by
  have tried {s t : State} {found : Option Expr} (hr : Grammar.tryBrace form r L s = .ok found t) :
      (t.Clear → s.Clear) ∧ (∀ {lo hi}, p s.cursor → Laid lo s.cursor.rest hi → t.Clear →
        Laid lo t.cursor.rest hi ∧ Crosses 0 s.cursor t.cursor) := by
    rw [tryBrace_apply] at hr
    split at hr
    · cases hr
      exact ⟨id, fun _ hs _ => ⟨hs, Even.refl _⟩⟩
    · cases hspeculated : JuiceSyntax.speculated s (r L s) with
      | error fault t' =>
        rw [hspeculated] at hr
        cases hr
      | ok found' t' =>
        obtain ⟨hclear, hcloses⟩ := h.speculated hgrows hspeculated
        rw [hspeculated] at hr
        cases found' with
        | some e =>
          cases hr
          exact ⟨hclear, hcloses⟩
        | none =>
          cases hr
          cases form with
          | record => exact ⟨fun ht => hclear ⟨ht.faults, ht.halted⟩, fun hp hs ht => hcloses hp hs ⟨ht.faults, ht.halted⟩⟩
          | block => exact ⟨fun ht => hclear ⟨ht.faults, ht.halted⟩, fun hp hs ht => hcloses hp hs ⟨ht.faults, ht.halted⟩⟩
  exact ⟨fun hr => (tried hr).1, fun hp hs hr => (tried hr).2 hp hs⟩

/-- A reading of tokens of its own consumes nothing. -/
theorem withTokens {tokens : List Token} {r : Reader α} (h : Pairs L (fun _ => True) 0 r) :
    Pairs L p 0 (JuiceSyntax.withTokens tokens r) := by
  have read {s t : State} {a : α} (hr : JuiceSyntax.withTokens tokens r L s = .ok a t) :
      ∃ u, r L { s with cursor := .ofTokens tokens } = .ok a u ∧ t = { u with cursor := s.cursor } := by
    rw [withTokens_apply] at hr
    cases hread : r L { s with cursor := .ofTokens tokens } with
    | error fault u =>
      rw [hread] at hr
      cases hr
    | ok a' u =>
      rw [hread] at hr
      cases hr
      exact ⟨u, rfl, rfl⟩
  refine ⟨fun {s a t} hr ht => ?_, fun {s a t lo hi} _ hs hr ht => ?_⟩
  · obtain ⟨u, hread, rfl⟩ := read hr
    have hs := h.clear hread ⟨ht.faults, ht.halted⟩
    exact ⟨hs.faults, hs.halted⟩
  · obtain ⟨u, -, rfl⟩ := read hr
    exact ⟨hs, Even.refl _⟩

/-! ## Loops -/

/-- A turn that fails shows. -/
theorem recoveringUpTo {item : Reader α} (h : Pairs L (fun _ => True) 0 item) (resume : Resume) (ends : Kind → Bool)
    (fuel : Nat) : Pairs L p 0 (JuiceSyntax.recoveringUpTo resume ends item fuel) := by
  induction fuel generalizing p with
  | zero => exact .pure
  | succ fuel ih =>
    have hitem : Pairs L (fun _ => True) 0 (item >>= fun _ => JuiceSyntax.recoveringUpTo resume ends item fuel) :=
      h.bind fun _ => ih
    refine ⟨fun {s items t} hr ht => ?_, fun {s items t lo hi} _ hs hr ht => ?_⟩
    · obtain ⟨-, -, rfl⟩ | ⟨-, first, rest, u, hfirst, hrest, -⟩ | ⟨-, fault, u, -, hrest⟩ := recoveringUpTo_cases hr
      · exact ht
      · exact h.clear hfirst ((ih (p := p)).clear hrest ht)
      · exact absurd ((ih (p := p)).clear hrest ht) (not_clear_resumed _ _ _ _ _)
    · obtain ⟨-, -, rfl⟩ | ⟨-, first, rest, u, hfirst, hrest, -⟩ | ⟨-, fault, u, -, hrest⟩ := recoveringUpTo_cases hr
      · exact ⟨hs, Even.refl _⟩
      · have hboth : (item >>= fun _ => JuiceSyntax.recoveringUpTo resume ends item fuel) L s = .ok rest t := by
          rw [bind_apply, hfirst, Ending.andThen_ok, hrest]
        exact hitem.closes trivial hs hboth ht
      · exact absurd ((ih (p := p)).clear hrest ht) (not_clear_resumed _ _ _ _ _)

theorem recovering {item : Reader α} (h : Pairs L (fun _ => True) 0 item) (resume : Resume) (ends : Kind → Bool) :
    Pairs L p 0 (JuiceSyntax.recovering resume ends item) :=
  .look .tokensLeft fun _ => h.recoveringUpTo resume ends _

theorem separatedUpTo {item : Reader α} (close : Mark) (h : ∀ {p}, Pairs L p 0 item) (fuel : Nat) :
    Pairs L p 0 (JuiceSyntax.separatedUpTo close item fuel) := by
  induction fuel generalizing p with
  | zero => exact .pure
  | succ fuel ih =>
    refine .look (.atMark close) fun _ => .ite .pure (.bind h fun _ => .bind (.takeMark _ rfl) fun _ => .ite ?_ .pure)
    exact .bind ih fun _ => .pure

theorem separated {item : Reader α} (close : Mark) (h : ∀ {p}, Pairs L p 0 item) :
    Pairs L p 0 (JuiceSyntax.separated close item) :=
  .look .tokensLeft fun _ => .separatedUpTo close h _

end Pairs

/-- The readers of a level consume what is balanced. -/
structure Level.Pairs (L : Level) : Prop where
  grows : L.Grows
  expr : ∀ {p} position, JuiceSyntax.Pairs L p 0 (Reader.expr position)
  operand : ∀ {p} position, JuiceSyntax.Pairs L p 0 (Reader.operand position)
  block : ∀ {p}, JuiceSyntax.Pairs L p 0 Reader.block
  type : ∀ {p}, JuiceSyntax.Pairs L p 0 Reader.type
  record : ∀ {p}, JuiceSyntax.Pairs L p 0 Reader.recordLiteral

namespace Grammar

open Pairs

/-! ## Literals -/

theorem pairs_fragment (hL : L.Pairs) (tokens : List Token) (span : Span) : Pairs L p 0 (fragment tokens span) := by
  unfold fragment
  refine .ite (.throwThen _) (.withTokens (.bind (hL.expr _) fun _ => .look .atEnd fun _ => ?_))
  exact .ite .pure (.failAdvisedThen _ _)

theorem pairs_segments (hL : L.Pairs) (pieces : List Piece) : Pairs L p 0 (segments pieces) := by
  induction pieces generalizing p with
  | nil => exact .pure
  | cons piece rest ih =>
    cases piece with
    | text text span => exact .bind ih fun _ => .pure
    | escape value raw span => exact .bind ih fun _ => .pure
    | fragment tokens span => exact .bind (pairs_fragment hL tokens span) fun _ => .bind ih fun _ => .pure
    | indent span => exact ih

theorem pairs_stringLiteral (hL : L.Pairs) {multiline : Bool} {pieces : List Piece}
    (h : ∀ c, p c → c.kind = .str multiline pieces) : Pairs L p 0 (stringLiteral multiline pieces) :=
  .bind (.advanceAt h rfl) fun _ => .bind (pairs_segments hL pieces) fun _ => .pure

theorem pairs_listLiteral (hL : L.Pairs) : Pairs L p 0 listLiteral :=
  .bind (.needMark _ rfl) fun _ => .bind (.separated _ (hL.expr _)) fun _ => .bind (.needMark _ rfl) fun _ => .pure

theorem pairs_atom {kind : Kind} (h : ∀ c, p c → c.kind = kind) (hk : kind.isBrace = false) (content : ExprKind) :
    Pairs L p 0 (atom content) :=
  .bind (.advanceAt h hk) fun _ => .pure

/-- What can be a label is no brace, and neither is the colon after it. -/
theorem pairs_argLabel : Pairs L p 0 argLabel := by
  refine .onKind fun kind => .onPeek 1 fun second => ?_
  have labeled {q : Cursor → Prop} {label : Option String} {kind : Kind}
      (hq : ∀ c, q c → c.kind = kind ∧ c.peek 1 = .mark .colon) (hk : kind.isBrace = false)
      (hdone : kind.isDone = false) : Pairs L q 0 (JuiceSyntax.skip 2 >>= fun _ => Pure.pure label) :=
    .bind (.skipTwo hq hdone hk rfl) fun _ => .pure
  split
  · rename_i label hlabel
    cases kind with
    | name text => exact labeled (fun c hc => ⟨hc.1.2, hc.2⟩) rfl rfl
    | typeName text => exact labeled (fun c hc => ⟨hc.1.2, hc.2⟩) rfl rfl
    | word w => exact labeled (fun c hc => ⟨hc.1.2, hc.2⟩) rfl rfl
    | _ => cases hlabel
  · exact .pure

/-! ## Functions and parameters -/

theorem pairs_name : Pairs L p 0 name := by
  refine .onKind fun kind => ?_
  split
  · exact .bind (.advanceAt (fun _ hc => hc.2) rfl) fun _ => .pure
  · exact .failUnexpected _

theorem pairs_param (hL : L.Pairs) {named : Reader (String × Span)} (h : Pairs L p 0 named) : Pairs L p 0 (param named) :=
  .bind h fun _ => .bind (.takeMark _ rfl) fun _ => .ite (.bind hL.type fun _ => .pure) .pure

theorem pairs_params (hL : L.Pairs) : Pairs L p 0 (params name) :=
  .bind (.needMark _ rfl) fun _ => .bind (.separated _ (pairs_param hL pairs_name)) fun _ =>
    .bind (.needMark _ rfl) fun _ => .pure

theorem pairs_fnName : Pairs L p 0 fnName := by
  refine .onKind fun kind => ?_
  split
  · exact .bind (.advanceAt (fun _ hc => hc.2) rfl) fun _ => .pure
  · exact .bind (.advanceAt (fun _ hc => hc.2) rfl) fun _ => .pure
  · exact .pure

theorem pairs_fnDecl (hL : L.Pairs) : Pairs L p 0 fnDecl :=
  .look .here fun _ => .bind (.takeWord _) fun _ => .bind (.needWord _) fun _ => .bind pairs_fnName fun _ =>
    .look (.atMark _) fun _ => .iteBind (pairs_params hL) .pure fun _ => .bind (.takeMark _ rfl) fun _ =>
    .iteBind (.map _ hL.type) .pure fun _ => .bind hL.block fun _ => .look (.spanFrom _) fun _ => .pure

/-! ## Types -/

theorem pairs_typeArg (hL : L.Pairs) : Pairs L p 0 typeArg :=
  .look .here fun _ => .bind pairs_argLabel fun _ => .bind hL.type fun _ => .pure

theorem pairs_typeCall (hL : L.Pairs) (callee : String) (calleeSpan : Span) : Pairs L p 0 (typeCall callee calleeSpan) :=
  .bind (.needMark _ rfl) fun _ => .bind (.separated _ (pairs_typeArg hL)) fun _ => .bind (.needMark _ rfl) fun _ => .pure

theorem pairs_typeParens (hL : L.Pairs) : Pairs L p 0 typeParens := by
  unfold typeParens
  refine .bind (.needMark _ rfl) fun _ => .look (.atMark _) fun _ => .ite (.failAdvisedThen _ _) ?_
  refine .bind hL.type fun _ => .bind (.takeMark _ rfl) fun _ => ?_
  refine .ite (.look (.atMark _) fun _ => .ite ?_ ?_) (.bind (.needMark _ rfl) fun _ => .pure)
  · exact .never (.after fun _ => .record fun _ => ⟨_, rfl⟩)
  · exact .bind (.separated _ hL.type) fun _ => .bind (.needMark _ rfl) fun _ => .pure

theorem pairs_typeOfName (hL : L.Pairs) {kind : Kind} (h : ∀ c, p c → c.kind = kind) (hk : kind.isBrace = false)
    (text : String) (content : TypeKind) : Pairs L p 0 (typeOfName text content) :=
  .bind (.advanceAt h hk) fun _ => .look (.atMark _) fun _ => .ite (pairs_typeCall hL _ _) .pure

theorem pairs_literalType {literal : Reader Expr} (h : Pairs L p 0 literal) : Pairs L p 0 (literalType literal) :=
  .bind h fun _ => .pure

theorem pairs_typeAtom (hL : L.Pairs) : Pairs L p 0 typeAtom := by
  refine .onKind fun kind => ?_
  split
  · exact pairs_typeOfName hL (fun _ hc => hc.2) rfl _ _
  · exact pairs_typeOfName hL (fun _ hc => hc.2) rfl _ _
  · exact pairs_literalType (pairs_atom (fun _ hc => hc.2) rfl _)
  · exact pairs_literalType (pairs_atom (fun _ hc => hc.2) rfl _)
  · exact pairs_literalType (pairs_atom (fun _ hc => hc.2) rfl _)
  · exact pairs_literalType (pairs_stringLiteral hL fun _ hc => hc.2)
  · exact pairs_literalType (pairs_listLiteral hL)
  · exact pairs_typeParens hL
  · exact .failUnexpected _

theorem pairs_typeRestUpTo (hL : L.Pairs) (left : TypeExpr) (fuel : Nat) : Pairs L p 0 (typeRestUpTo left fuel) := by
  induction fuel generalizing left p with
  | zero => exact .pure
  | succ fuel ih =>
    refine .onKind fun kind => ?_
    split
    · rename_i op hop
      exact .bind (.advanceAt (fun _ hc => hc.2) (isBrace_of_some rfl rfl hop)) fun _ =>
        .bind (pairs_typeAtom hL) fun _ => ih _
    · exact .pure

theorem pairs_typeExpr (hL : L.Pairs) : Pairs L p 0 typeExpr :=
  .bind (pairs_typeAtom hL) fun _ => .look .tokensLeft fun _ => pairs_typeRestUpTo hL _ _

/-! ## Arguments, macros and parentheses -/

theorem pairs_arg (hL : L.Pairs) : Pairs L p 0 arg :=
  .look .here fun _ => .bind pairs_argLabel fun _ => .bind (hL.expr _) fun _ => .pure

theorem pairs_args (hL : L.Pairs) : Pairs L p 0 args :=
  .bind (.needMark _ rfl) fun _ => .bind (.separated _ (pairs_arg hL)) fun _ => .bind (.needMark _ rfl) fun _ => .pure

/-- The search for the brace that closes a body passes what is balanced, if it comes to one. -/
theorem crosses_innerLength {c : Cursor} (h : (c.skip (innerLength 0 c.rest)).atEnd = false) :
    Crosses 1 c (c.skip (innerLength 0 c.rest)).advance := by
  have hrest := rest_skip_innerLength c
  cases hdrop : c.rest.drop (innerLength 0 c.rest) with
  | nil =>
    rw [hdrop] at hrest
    simp [Cursor.atEnd, Cursor.kind, Cursor.current, hrest, Kind.isDone] at h
  | cons close after =>
    rw [hdrop] at hrest
    have hkind := Cursor.kind_of_rest hrest
    rw [Cursor.atEnd, hkind] at h
    have hclose := (head_drop_innerLength _ _ hdrop).resolve_left (by rw [h]; decide)
    have heven : Even c (c.skip (innerLength 0 c.rest)) :=
      ⟨_, by rw [hrest, ← hdrop, List.take_append_drop], (closes_take_innerLength hclose hdrop).1⟩
    exact heven.crosses (crosses_closing (by rw [hkind, hclose]) (Even.refl _))

theorem pairs_macroBody : Pairs L p 0 macroBody := by
  refine .opening fun opening => .onCursor fun c => ?_
  have read {s t : State} {body : MacroBody} (hr : (do
      let following := c.rest
      let n := innerLength 0 following
      JuiceSyntax.skip n
      if ← Reader.atEnd then
        throw (.ofCause (← Reader.here) (.missing (.mark .rBrace) .done (some .openMacroBody)))
      let closing := (← Reader.advance).span
      let inner : Span := ⟨opening.stop, closing.start⟩
      modify fun s => { s with macroBodies := s.macroBodies ++ [inner] }
      let text ← sourceText inner
      return (⟨opening.cover closing, inner, String.ofList (trim text), following.take n⟩ : MacroBody) : Reader MacroBody) L s =
        .ok body t) :
      (s.cursor.skip (innerLength 0 c.rest)).atEnd = false ∧
        t = { s with cursor := t.cursor, macroBodies := t.macroBodies } ∧
        t.cursor = (s.cursor.skip (innerLength 0 c.rest)).advance := by
    have hskip (s' : State) (n : Nat) : JuiceSyntax.skip n L s' = .ok () { s' with cursor := s'.cursor.skip n } := rfl
    have hlook (s' : State) : Reader.atEnd L s' = .ok s'.cursor.atEnd s' := rfl
    simp only [bind_apply, hskip, hlook, Ending.andThen_ok, choose_apply] at hr
    split at hr
    · cases hr
    · rename_i hend
      cases hr
      exact ⟨by simpa using hend, rfl, rfl⟩
  refine ⟨fun {s body t} hr ht => ?_, fun {s body t lo hi} hp hs hr ht => ?_⟩
  · obtain ⟨-, hsame, -⟩ := read hr
    rw [hsame] at ht
    exact ⟨ht.faults, ht.halted⟩
  · obtain ⟨-, rfl⟩ := hp
    obtain ⟨hend, -, hcursor⟩ := read hr
    rw [hcursor]
    exact ⟨(inherited_laid lo hi).advance ((inherited_laid lo hi).skip hs _), crosses_innerLength hend⟩

theorem pairs_macroCall (hL : L.Pairs) {text : String} (h : ∀ c, p c → c.kind = .macroName text) (position : Position) :
    Pairs L p 0 (macroCall text position) := by
  refine .bind (.advanceAt h rfl) fun _ => .look (.atMark _) fun _ => .iteBind (pairs_args hL) .pure fun _ =>
    .look (.atMark _) fun _ => .ite (.bind pairs_macroBody fun _ => .pure) ?_
  exact .ite .pure (.failUnexpected _)

theorem pairs_parens (hL : L.Pairs) : Pairs L p 0 parens := by
  unfold parens
  refine .bind (.needMark _ rfl) fun _ => .look (.atMark _) fun _ => .ite (.failAdvisedThen _ _) ?_
  refine .bind (hL.expr _) fun _ => .bind (.takeMark _ rfl) fun _ => ?_
  refine .ite (.look (.atMark _) fun _ => .ite ?_ ?_) (.bind (.needMark _ rfl) fun _ => .pure)
  · exact .never (.after fun _ => .record fun _ => ⟨_, rfl⟩)
  · exact .bind (.separated _ (hL.expr _)) fun _ => .bind (.needMark _ rfl) fun _ => .pure

/-! ## Braces -/

theorem pairs_blockExpr (hL : L.Pairs) : Pairs L p 0 blockExpr := .bind hL.block fun _ => .pure

theorem pairs_unresolvable : Pairs L p 0 unresolvable :=
  .never (.after fun _ => .after fun _ => .after fun _ => .after fun _ => .record fun _ => ⟨_, rfl⟩)

/-- A brace tried as one form and then as something else. -/
theorem pairs_tryBrace_else (form : BraceForm) {r otherwise : Reader Expr} (hgrows : ∀ s, Grows s (Ending.state (r L s)))
    (h : Pairs L p 0 r) (ho : Pairs L (fun _ => True) 0 otherwise) :
    Pairs L p 0 (do
      if let some e ← tryBrace form r then
        return e
      otherwise) := by
  refine .bind (.tryBrace hgrows h) fun found => ?_
  cases found with
  | some e => exact .pure
  | none => exact ho

theorem pairs_tryRecord_else (hL : L.Pairs) {otherwise : Reader Expr} (h : Pairs L (fun _ => True) 0 otherwise) :
    Pairs L p 0 (do
      if let some e ← tryRecord then
        return e
      otherwise) :=
  pairs_tryBrace_else .record (fun s => hL.grows.record s trivial) hL.record h

theorem pairs_tryBlock_else (hL : L.Pairs) {otherwise : Reader Expr} (h : Pairs L (fun _ => True) 0 otherwise) :
    Pairs L p 0 (do
      if let some e ← tryBlock then
        return e
      otherwise) :=
  pairs_tryBrace_else .block (fun s => composed_blockExpr.grows inherited_true hL.grows s trivial) (pairs_blockExpr hL) h

theorem pairs_braceValue (hL : L.Pairs) : Pairs L p 0 braceValue :=
  .look .cursor fun _ => .ite (pairs_tryRecord_else hL (pairs_tryBlock_else hL pairs_unresolvable)) (pairs_blockExpr hL)

theorem pairs_armBody (hL : L.Pairs) : Pairs L p 0 armBody := by
  refine .look (.atMark _) fun _ => .ite ?_ (.failThen _)
  exact pairs_tryBlock_else hL
    (.look .cursor fun _ => .ite (pairs_tryRecord_else hL pairs_unresolvable) (pairs_blockExpr hL))

/-! ## Control flow -/

theorem pairs_branch (hL : L.Pairs) : Pairs L p 0 branch :=
  .bind (.needWord _) fun _ => .bind (hL.expr _) fun _ => .bind hL.block fun _ => .pure

theorem pairs_elseBranchesUpTo (hL : L.Pairs) (fuel : Nat) : Pairs L p 0 (elseBranchesUpTo fuel) := by
  induction fuel generalizing p with
  | zero => exact .pure
  | succ fuel ih =>
    refine .bind (.takeWord _) fun _ => .ite (.look .kind fun _ => .ite ?_ ?_) .pure
    · exact .bind (pairs_branch hL) fun _ => .bind ih fun _ => .pure
    · exact .bind (pairs_blockExpr hL) fun _ => .pure

theorem pairs_conditional (hL : L.Pairs) : Pairs L p 0 conditional :=
  .bind (pairs_branch hL) fun _ => .look .tokensLeft fun _ => .bind (pairs_elseBranchesUpTo hL _) fun _ => .pure

theorem pairs_pattern (hL : L.Pairs) : Pairs L p 0 pattern := by
  have value : Pairs L p 0 (do
      let value ← expr .head
      unless ← Reader.atMark .arrow do
        Reader.failUnexpected (.mark .arrow)
      return value) :=
    .bind (hL.expr _) fun _ => .look (.atMark _) fun _ => .ite .pure (.failThen _)
  have composed : Composed (fun _ => True) (do
      let value ← expr .head
      unless ← Reader.atMark .arrow do
        Reader.failUnexpected (.mark .arrow)
      return value) :=
    .bind (.expr _) fun _ => .bind (.atMark _) fun _ => .unlessBind (.failUnexpected _) fun _ => .pure _
  refine .bind (.speculate (fun s => composed.grows inherited_true hL.grows s trivial) value) fun found => ?_
  cases found with
  | some value => exact .pure
  | none => exact .bind hL.type fun _ => .pure

theorem pairs_arm (hL : L.Pairs) : Pairs L p 0 arm :=
  .bind (pairs_pattern hL) fun _ => .bind (.needMark _ rfl) fun _ => .bind (pairs_armBody hL) fun _ => .pure

theorem pairs_selection (hL : L.Pairs) : Pairs L p 0 selection :=
  .bind (.needWord _) fun _ => .bind (hL.expr _) fun _ => .opening fun _ => .bind (.recovering (pairs_arm hL) _ _) fun _ =>
    .closing fun _ => .pure

/-! ## Operands and chains -/

theorem pairs_primary (hL : L.Pairs) (position : Position) : Pairs L p 0 (primary position) := by
  refine .onKind fun kind => ?_
  split
  · exact pairs_atom (fun _ hc => hc.2) rfl _
  · exact pairs_atom (fun _ hc => hc.2) rfl _
  · exact pairs_atom (fun _ hc => hc.2) rfl _
  · exact pairs_atom (fun _ hc => hc.2) rfl _
  · exact pairs_atom (fun _ hc => hc.2) rfl _
  · exact pairs_stringLiteral hL fun _ hc => hc.2
  · exact pairs_macroCall hL (fun _ hc => hc.2) _
  · exact pairs_listLiteral hL
  · exact pairs_parens hL
  · cases position with
    | statement => exact pairs_blockExpr hL
    | value => exact pairs_braceValue hL
    | head => exact .failUnexpected _
  · exact .bind (pairs_fnDecl hL) fun _ => .pure
  · exact .bind (pairs_fnDecl hL) fun _ => .pure
  · exact pairs_conditional hL
  · exact pairs_selection hL
  · exact .look .here fun _ => .throw
  · exact .look .here fun _ => .throw
  · exact .failUnexpected _

theorem pairs_accessesUpTo (hL : L.Pairs) (position : Position) (base : Expr) (fuel : Nat) :
    Pairs L p 0 (accessesUpTo position base fuel) := by
  induction fuel generalizing base p with
  | zero => exact .pure
  | succ fuel ih => exact .bind (.takeMark _ rfl) fun _ => .ite (.bind (pairs_primary hL _) fun _ => ih _) .pure

theorem pairs_onceAttempted (e : Expr) {next : Unit → Reader Expr} (h : Pairs L p 0 (next ())) :
    Pairs L p 0 (onceAttempted e next) := by
  unfold onceAttempted
  split
  · exact .failAdvisedThen _ _
  · exact h

theorem pairs_attemptOf {e : Expr} (h : ∀ c, p c → c.kind = .mark .question) : Pairs L p 0 (attemptOf e) :=
  pairs_onceAttempted e (.ite (.bind (.advanceAt h rfl) fun _ => .pure) (.failAdvisedThen _ _))

theorem pairs_postfixUpTo (hL : L.Pairs) (position : Position) (e : Expr) (fuel : Nat) :
    Pairs L p 0 (postfixUpTo position e fuel) := by
  induction fuel generalizing e p with
  | zero => exact .pure
  | succ fuel ih =>
    refine .onKind fun kind => ?_
    split
    · exact .bind (pairs_args hL) fun _ => ih _
    · exact .bind (.advanceAt (fun _ hc => hc.2) rfl) fun _ => .bind (pairs_primary hL _) fun _ =>
        .look .tokensLeft fun _ => .bind (pairs_accessesUpTo hL _ _ _) fun _ => ih _
    · exact .bind (.advanceAt (fun _ hc => hc.2) rfl) fun _ => .bind (pairs_primary hL _) fun _ => ih _
    · exact .bind (pairs_attemptOf fun _ hc => hc.2) fun _ => ih _
    · exact .pure

theorem pairs_postfixExpr (hL : L.Pairs) (position : Position) : Pairs L p 0 (postfixExpr position) :=
  .bind (pairs_primary hL _) fun _ => .look .tokensLeft fun _ => pairs_postfixUpTo hL _ _ _

theorem pairs_unaryExpr (hL : L.Pairs) (position : Position) : Pairs L p 0 (unaryExpr position) := by
  refine .onKind fun kind => ?_
  split
  · rename_i op hop
    exact .bind (.advanceAt (fun _ hc => hc.2) (isBrace_of_some rfl rfl hop)) fun _ =>
      .bind (hL.operand _) fun _ => .pure
  · exact pairs_postfixExpr hL _

theorem pairs_chainUpTo (hL : L.Pairs) (level : Nat) (position : Position) (fuel : Nat) :
    Pairs L p 0 (chainUpTo level position fuel) := by
  induction fuel generalizing p with
  | zero => exact .pure
  | succ fuel ih =>
    refine .onKind fun kind => ?_
    split
    · rename_i op hop
      have hkind := isBrace_of_some (f := BinaryOp.ofKind?) rfl rfl (Option.filter_eq_some_iff.1 hop).1
      exact .bind (.advanceAt (fun _ hc => hc.2) hkind) fun _ => .bind (pairs_unaryExpr hL _) fun _ =>
        .bind ih fun _ => .pure
    · exact .pure

theorem pairs_chain (hL : L.Pairs) (level : Nat) (position : Position) : Pairs L p 0 (chain level position) :=
  .bind (pairs_unaryExpr hL _) fun _ => .look .tokensLeft fun _ => .bind (pairs_chainUpTo hL _ _ _) fun _ => .pure

/-! ## Records -/

theorem pairs_fieldEnd (field : RecordField) : Pairs L p 0 (fieldEnd field) := by
  refine .bind (.takeMark _ rfl) fun _ => .ite .pure (.look .kind fun _ => ?_)
  split
  · exact .pure
  · exact .pure
  · exact .failThen _

theorem pairs_recordField (hL : L.Pairs) : Pairs L p 0 recordField := by
  refine .bind pairs_name fun _ => .bind (.takeMark _ rfl) fun _ => ?_
  exact .ite (.bind (hL.expr _) fun _ => .known (pairs_fieldEnd _)) (.known (pairs_fieldEnd _))

theorem pairs_recordFieldsUpTo (hL : L.Pairs) (fuel : Nat) : Pairs L p 0 (recordFieldsUpTo fuel) := by
  induction fuel generalizing p with
  | zero => exact .pure
  | succ fuel ih => exact .look (.atMark _) fun _ => .ite .pure (.bind (pairs_recordField hL) fun _ => .bind ih fun _ => .pure)

/-- The fields end before a closing brace, in a list that has an end. -/
theorem recordFieldsUpTo_closed (hL : L.Grows) {fuel lo hi : Nat} {s t : State} {fields : List RecordField}
    (hs : Laid lo s.cursor.rest hi) (h : s.cursor.left ≤ fuel) (hr : recordFieldsUpTo fuel L s = .ok fields t) :
    t.cursor.kind.isMark .rBrace = true := by
  induction fuel generalizing s fields with
  | zero =>
    have hnil : s.cursor.rest = [] := List.length_eq_zero_iff.1 (s.cursor.left_eq.symm.trans (Nat.le_zero.1 h))
    exact absurd hnil hs.ne_nil
  | succ fuel ih =>
    rw [recordFieldsUpTo, bind_apply, atMark_apply, Ending.andThen_ok] at hr
    split at hr
    · rename_i hclose
      cases hr
      exact hclose
    · obtain ⟨first, u, hfirst, hr⟩ := ok_of_bind hr
      obtain ⟨rest, v, hrest, hr⟩ := ok_of_bind hr
      cases hr
      have hlt := takes_recordField hL s first u hfirst
      have hgrows := composed_recordField.grows inherited_true hL s trivial
      rw [hfirst, Ending.state_ok] at hgrows
      exact ih ((inherited_laid lo hi).grows hgrows hs) (by omega) hrest

theorem pairs_recordExpr (hL : L.Pairs) : Pairs L p 0 recordExpr := by
  refine .opening fun _ => .lookAt (f := Cursor.left) (fun _ => rfl) fun left => ?_
  refine .bindTo (q := fun _ c => c.kind.isMark .rBrace = true) (pairs_recordFieldsUpTo hL left)
    (fun hp hs hr => recordFieldsUpTo_closed hL.grows hs (Nat.le_of_eq hp.2) hr) fun fields => ?_
  exact .closingAt (fun _ _ _ hc _ => hc) fun _ => .pure

/-! ## Statements and blocks -/

theorem pairs_binding (hL : L.Pairs) : Pairs L p 0 binding := by
  refine .bind pairs_name fun _ => .bind (.takeMark _ rfl) fun _ => .ite ?_ ?_
  · exact .bind hL.type fun _ => .bind (.takeMark _ rfl) fun _ => .ite
      (.known (.bind (hL.expr _) fun _ => .pure)) (.failThen _)
  · exact .bind (.needMark _ rfl) fun _ => .known (.bind (hL.expr _) fun _ => .pure)

theorem pairs_assignment (hL : L.Pairs) : Pairs L p 0 assignment :=
  .bind pairs_name fun _ => .bind (.needMark _ rfl) fun _ => .bind (hL.expr _) fun _ => .pure

theorem pairs_loop (hL : L.Pairs) : Pairs L p 0 loop := by
  unfold loop
  refine .bind (.needWord _) fun _ => .look (.atMark _) fun _ => .ite (.bind hL.block fun _ => .pure) ?_
  have ranged {q : Cursor → Prop} (element : Option String) : Pairs L q 0 (do
      let first ← expr .head
      let range ← if ← Reader.takeMark .dotDot then .between first <$> expr .head else pure (.over first)
      return StatementKind.loop element range (← block)) :=
    .bind (hL.expr _) fun _ => .bind (.takeMark _ rfl) fun _ => .iteBind (.map _ (hL.expr _)) .pure fun _ =>
      .bind hL.block fun _ => .pure
  refine .onKind fun kind => .onPeek 1 fun second => ?_
  split
  · exact .bind (.skipTwo (fun _ hc => ⟨hc.1.2, hc.2⟩) rfl rfl rfl) fun _ => .known (ranged _)
  · exact .known (ranged none)

theorem pairs_leave (hL : L.Pairs) (h : ∀ c, p c → c.kind = .word .returnWord) : Pairs L p 0 leave :=
  .bind (.advanceAt h rfl) fun _ => .look .cursor fun _ => .ite (.bind (hL.expr _) fun _ => .pure) .pure

theorem pairs_statementKind (hL : L.Pairs) : Pairs L p 0 statementKind := by
  refine .onKind fun kind => ?_
  split
  · exact pairs_leave hL fun _ hc => hc.2
  · exact .bind (.advanceAt (fun _ hc => hc.2) rfl) fun _ => .pure
  · exact .bind (.advanceAt (fun _ hc => hc.2) rfl) fun _ => .pure
  · exact pairs_loop hL
  · exact .bind (pairs_fnDecl hL) fun _ => .pure
  · exact .bind (pairs_fnDecl hL) fun _ => .pure
  · exact .bind hL.block fun _ => .pure
  · exact .look .here fun _ => .throw
  · exact .look .here fun _ => .throw
  · exact .failAdvised _ _
  · exact .failAdvised _ _
  · exact .failAdvised _ _
  · exact .failAdvised _ _
  · exact .failAdvised _ _
  · refine .look .cursor fun _ => .ite (.bind (pairs_binding hL) fun _ => .pure) ?_
    exact .ite (.bind (pairs_assignment hL) fun _ => .pure) (.bind (hL.expr _) fun _ => .pure)
  · exact .look (.peek 1) fun _ => .ite (.failAdvised _ _) (.bind (hL.expr _) fun _ => .pure)
  · exact .bind (hL.expr _) fun _ => .pure

theorem pairs_statement (hL : L.Pairs) : Pairs L p 0 statement :=
  .look .here fun _ => .bind (pairs_statementKind hL) fun _ => .look (.spanFrom _) fun _ => .pure

/-- At the end of the tokens the missing brace shows. -/
theorem pairs_blockBody (hL : L.Pairs) : Pairs L p 0 blockBody := by
  refine .opening fun _ => .bind (.recovering (pairs_statement hL) _ _) fun statements => ?_
  refine .lookAt (f := fun c => c.kind.isMark .rBrace) (fun _ => rfl) fun closed => ?_
  split
  · rename_i hclosed
    exact .closingAt (fun _ _ _ hc _ => hc.2.trans hclosed) fun _ => .pure
  · refine .look .here fun _ => .look .kind fun _ => .look .atEnd fun _ => .look .halted fun _ => .ite ?_ .throw
    exact .never (.record fun _ => ⟨_, rfl⟩)

end Grammar

/-! ## Levels -/

theorem tooDeep_pairs {setting : Setting} {r : Reader α} (h : r (level setting 0) = tooDeep setting.options.maxDepth) :
    Pairs (level setting 0) p 0 r :=
  .never fun s a t hr => by
    rw [h] at hr
    cases hr

theorem level_pairs (setting : Setting) (n : Nat) : (level setting n).Pairs := by
  induction n with
  | zero => exact ⟨level_grows setting 0, fun _ => tooDeep_pairs rfl, fun _ => tooDeep_pairs rfl, tooDeep_pairs rfl,
      tooDeep_pairs rfl, tooDeep_pairs rfl⟩
  | succ n ih =>
    have lift {β : Type} {q : Cursor → Prop} {r r' : Reader β} (h : Pairs (level setting n) q 0 r)
        (heq : r' (level setting (n + 1)) = r (level setting n)) : Pairs (level setting (n + 1)) q 0 r' := by
      refine ⟨?_, ?_⟩
      · rw [heq]
        exact h.clear
      · rw [heq]
        exact h.closes
    exact ⟨level_grows setting (n + 1), fun position => lift (pairs_chain ih 1 position) rfl,
      fun position => lift (pairs_chain ih operandLevel position) rfl, lift (pairs_blockBody ih) rfl,
      lift (pairs_typeExpr ih) rfl, lift (pairs_recordExpr ih) rfl⟩

end JuiceSyntax
