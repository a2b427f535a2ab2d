/-
  A reading in another place. A `Move` takes offsets of one document to offsets of another, in
  their order; the depth limit may be another one there. `State.moved` is a state of a reading in
  the other document, all of it moved.

  `ReadsMoved m L L' g r r'`: from a state moved, `r'` ends as `r` does, with the state moved and
  with the result that `g` makes of the result of `r`. Here is one rule for each step that readers
  take. Readers see offsets only to put them in spans, to compare them, and to take text between
  them, so nothing else has to be known of the two documents.
-/
import JuiceSyntax.Proofs.Grammar.Wall
import JuiceSyntax.Proofs.Tree.Bare
import JuiceSyntax.Proofs.Tree.Moving

namespace JuiceSyntax

open Reader Grammar

/-- How one document lies in another. -/
structure Move where
  /-- The offset in the other document. -/
  offset : Nat → Nat
  monotone : ∀ {a b : Nat}, a ≤ b → offset a ≤ offset b
  /-- Where tokens may begin. -/
  begins : Nat → Prop
  injective : ∀ {a b : Nat}, begins a → begins b → offset a = offset b → a = b
  /-- The depth limit there. -/
  limit : Nat
  /-- The end of what is moved. -/
  stop : Nat

theorem Move.cover (m : Move) (a b : Span) :
    (a.cover b).moved m.offset = (a.moved m.offset).cover (b.moved m.offset) := by
  have hmin (a b : Nat) : m.offset (min a b) = min (m.offset a) (m.offset b) := by
    obtain h | h := Nat.le_total a b
    · rw [Nat.min_eq_left h, Nat.min_eq_left (m.monotone h)]
    · rw [Nat.min_eq_right h, Nat.min_eq_right (m.monotone h)]
  have hmax (a b : Nat) : m.offset (max a b) = max (m.offset a) (m.offset b) := by
    obtain h | h := Nat.le_total a b
    · rw [Nat.max_eq_right h, Nat.max_eq_right (m.monotone h)]
    · rw [Nat.max_eq_left h, Nat.max_eq_left (m.monotone h)]
  simp only [Span.cover, Span.moved, hmin, hmax]

/-! ## Kinds -/

mutual

theorem Kind.bare_moved (f : Nat → Nat) : (kind : Kind) → (kind.moved f).bare = kind.bare
  | .str _ pieces => by simp only [Kind.moved, Kind.bare, barePieces_moved f pieces]
  | .int _ _ | .float _ | .bool _ | .name _ | .typeName _ | .macroName _ | .word _ | .mark _ | .done => rfl

theorem barePieces_moved (f : Nat → Nat) : (pieces : List Piece) → barePieces (movedPieces f pieces) = barePieces pieces
  | [] => rfl
  | .text _ _ :: rest | .escape _ _ _ :: rest | .indent _ :: rest => by
    simp only [movedPieces, barePieces, barePieces_moved f rest]
  | .fragment tokens _ :: rest => by
    simp only [movedPieces, barePieces, bareTokens_moved f tokens, barePieces_moved f rest]

theorem bareTokens_moved (f : Nat → Nat) : (tokens : List Token) → bareTokens (movedTokens f tokens) = bareTokens tokens
  | [] => rfl
  | ⟨kind, _⟩ :: rest => by simp only [movedTokens, bareTokens, kind.bare_moved f, bareTokens_moved f rest]

end

namespace Kind

variable (f : Nat → Nat) (kind : Kind)

@[simp] theorem isMark_moved (mark : Mark) : (kind.moved f).isMark mark = kind.isMark mark := by
  rw [← isMark_bare, bare_moved, isMark_bare]

@[simp] theorem isWord_moved (word : Keyword) : (kind.moved f).isWord word = kind.isWord word := by
  rw [← isWord_bare, bare_moved, isWord_bare]

@[simp] theorem isDone_moved : (kind.moved f).isDone = kind.isDone := by
  rw [← isDone_bare, bare_moved, isDone_bare]

/-- A kind without pieces has no offsets. -/
theorem moved_cases : kind.moved f = kind ∨ ∃ multiline pieces, kind = .str multiline pieces := by
  cases kind with
  | str multiline pieces => exact .inr ⟨multiline, pieces, rfl⟩
  | _ => exact .inl rfl

end Kind

/-! ## Cursors -/

namespace Cursor

def moved (f : Nat → Nat) (c : Cursor) : Cursor :=
  ⟨c.pos, c.last.map (·.moved f), movedTokens f c.rest, c.left, by
    rw [c.left_eq, movedTokens_eq_map, List.length_map]⟩

variable (f : Nat → Nat) (c : Cursor)

theorem moved_ofTokens (tokens : List Token) : (ofTokens tokens).moved f = ofTokens (movedTokens f tokens) := by
  simp only [moved, ofTokens, movedTokens_eq_map, List.length_map, Option.map_none]

theorem peek_moved (n : Nat) : (c.moved f).peek n = (c.peek n).moved f := by
  simp only [peek, moved, movedTokens_eq_map, List.getElem?_map]
  cases c.rest[n]? <;> rfl

theorem kind_moved : (c.moved f).kind = c.kind.moved f := by
  obtain ⟨pos, last, rest, left, hleft⟩ := c
  cases rest with
  | nil => rfl
  | cons token rest => cases token; rfl

theorem atEnd_moved : (c.moved f).atEnd = c.atEnd := by
  rw [atEnd, atEnd, kind_moved, Kind.isDone_moved]

theorem advance_moved : (c.moved f).advance = c.advance.moved f := by
  obtain ⟨pos, last, rest, left, hleft⟩ := c
  cases rest with
  | nil => rfl
  | cons token rest =>
    obtain ⟨kind, span⟩ := token
    simp only [advance, moved, movedTokens, Kind.isDone_moved]
    split <;> rfl

theorem skip_moved (n : Nat) : (c.moved f).skip n = (c.skip n).moved f := by
  induction n generalizing c with
  | zero => rfl
  | succ n ih => rw [skip, skip, advance_moved, ih]

variable {c}

theorem current_moved (h : c.rest ≠ []) : (c.moved f).current = c.current.moved f := by
  obtain ⟨pos, last, rest, left, hleft⟩ := c
  cases rest with
  | nil => exact absurd rfl h
  | cons token rest => cases token; rfl

theorem span_moved (h : c.rest ≠ []) : (c.moved f).span = c.span.moved f := by
  rw [span, span, current_moved f h, Token.moved]

theorem previous_moved (h : c.rest ≠ []) : (c.moved f).previous = c.previous.moved f := by
  rw [previous, previous, span_moved f h, moved]
  cases c.last <;> rfl

end Cursor

theorem Resume.Blind.distance_moved {resume : Resume} (h : resume.Blind) (f : Nat → Nat) (tokens : List Token) :
    resume.distance 0 (movedTokens f tokens) = resume.distance 0 tokens := by
  rw [← h.distance, bareTokens_moved, h.distance]

theorem resumeFrom_moved (f : Nat → Nat) {resume : Resume} (h : resume.Blind) (start here : Cursor) :
    resumeFrom (start.moved f) resume (here.moved f) = (resumeFrom start resume here).moved f := by
  have hskip (c : Cursor) : (c.moved f).skip (resume.distance 0 (c.moved f).rest) =
      (c.skip (resume.distance 0 c.rest)).moved f := by
    rw [← Cursor.skip_moved, Cursor.moved, h.distance_moved]
  have hpos (c : Cursor) : (c.moved f).pos = c.pos := rfl
  unfold resumeFrom
  simp only [hpos, Cursor.atEnd_moved, Cursor.kind_moved, Kind.isMark_moved, Cursor.advance_moved]
  split
  · exact hskip _
  · exact hskip _

/-! ## Faults and states -/

/-- The cause in another place, where the depth limit is `limit`. -/
def Cause.moved (f : Nat → Nat) (limit : Nat) : Cause → Cause
  | .unexpected wanted found advice => .unexpected wanted (found.moved f) advice
  | .missing wanted found advice => .missing wanted (found.moved f) advice
  | .exportWithoutDeclaration found => .exportWithoutDeclaration (found.moved f)
  | .nestingTooDeep _ => .nestingTooDeep limit
  | cause => cause

def Fault.moved (m : Move) (fault : Fault) : Fault :=
  ⟨fault.cause.moved m.offset m.limit, fault.span.moved m.offset, fault.skipped.map (·.moved m.offset)⟩

def State.moved (m : Move) (s : State) : State :=
  ⟨s.cursor.moved m.offset, s.faults.map (·.moved m), s.halted, s.macroBodies.map (·.moved m.offset),
    s.failedRecords.map m.offset, s.failedBlocks.map m.offset⟩

section

variable (m : Move)

@[simp] theorem Fault.isFatal_moved (fault : Fault) : (fault.moved m).isFatal = fault.isFatal := by
  cases fault with
  | mk cause => cases cause <;> rfl

@[simp] theorem Fault.isStructural_moved (fault : Fault) : (fault.moved m).isStructural = fault.isStructural := by
  cases fault with
  | mk cause => cases cause <;> rfl

theorem State.moved_ofTokens (tokens : List Token) :
    (State.ofTokens tokens).moved m = .ofTokens (movedTokens m.offset tokens) := by
  rw [State.moved, State.ofTokens, Cursor.moved_ofTokens]
  rfl

theorem State.failed_moved (s : State) (form : BraceForm) : (s.moved m).failed form = (s.failed form).map m.offset := by
  cases form <;> rfl

theorem State.noteFailed_moved (s : State) (offset : Nat) (form : BraceForm) :
    (s.moved m).noteFailed (m.offset offset) form = (s.noteFailed offset form).moved m := by
  cases form <;> rfl

theorem State.rewind_moved (before after : State) :
    (before.moved m).rewind (after.moved m) = (before.rewind after).moved m := by
  simp only [State.rewind, State.moved, List.length_map, List.map_take]

theorem State.withFault_moved {options : Options} (fault : Fault) {s : State} (h : s.cursor.rest ≠ []) :
    (s.moved m).withFault (options.withMaxDepth m.limit) (fault.moved m) = (s.withFault options fault).moved m := by
  have hspan : (s.moved m).cursor.span = s.cursor.span.moved m.offset := Cursor.span_moved _ h
  have hlimit : (Fault.ofCause s.cursor.span (.tooManyFaults options.maxFaults)).moved m =
      .ofCause (s.cursor.span.moved m.offset) (.tooManyFaults options.maxFaults) := rfl
  unfold State.withFault
  rw [hspan]
  simp only [State.moved, Options.withMaxDepth, Fault.isFatal_moved, List.length_map]
  split
  · rfl
  · split
    · simp only [List.map_append, List.map_cons, List.map_nil]
    · split
      · simp only [List.map_append, List.map_cons, List.map_nil, hlimit]
      · simp only [List.map_append, List.map_cons, List.map_nil]

theorem noteSkipped_moved (span : Span) (faults : List Fault) :
    noteSkipped (span.moved m.offset) (faults.map (·.moved m)) = (noteSkipped span faults).map (·.moved m) := by
  induction faults with
  | nil => rfl
  | cons fault rest ih =>
    cases rest with
    | nil =>
      simp only [noteSkipped, List.map_cons, List.map_nil, Fault.moved]
      cases fault.skipped <;> rfl
    | cons second rest =>
      simp only [List.map_cons] at ih ⊢
      simp only [noteSkipped, ih, List.map_cons]

theorem State.recovered_moved {resume : Resume} (hblind : resume.Blind) {start : Cursor} {s : State}
    (hstart : start.rest ≠ []) (h : (resumeFrom start resume s.cursor).rest ≠ []) :
    (s.moved m).recovered (start.moved m.offset) resume = (s.recovered start resume).moved m := by
  have hspan : (start.moved m.offset).span.cover ((resumeFrom start resume s.cursor).moved m.offset).previous =
      (start.span.cover (resumeFrom start resume s.cursor).previous).moved m.offset := by
    rw [m.cover, Cursor.span_moved _ hstart, Cursor.previous_moved _ h]
  have hpos (c : Cursor) : (c.moved m.offset).pos = c.pos := rfl
  unfold State.recovered
  simp only [State.moved, resumeFrom_moved m.offset hblind, hpos, hspan, noteSkipped_moved]
  split
  · rfl
  · split <;> rfl

end

/-! ## Endings -/

/-- The same ending in another place, its result as `g` makes it. -/
def Ending.moved {α β : Type} (m : Move) (g : α → β) : Ending α → Ending β
  | .ok a s => .ok (g a) (s.moved m)
  | .error fault s => .error (fault.moved m) (s.moved m)

/-- Tokens that are moved: they end in time and begin where tokens may, in fragments too. -/
structure Move.Holds (m : Move) (tokens : List Token) : Prop where
  early : Early m.stop tokens
  begins : ∀ place ∈ places tokens, m.begins (startOf place)

theorem Move.Holds.ne_nil {m : Move} {tokens : List Token} (h : m.Holds tokens) : tokens ≠ [] := by
  obtain ⟨lo, hlaid⟩ := h.early
  exact hlaid.ne_nil

theorem Move.inherited_holds (m : Move) : Inherited m.Holds where
  advance {c} h := by
    refine ⟨(inherited_early m.stop).advance h.early, ?_⟩
    rw [Cursor.rest_advance]
    split
    · exact h.begins
    · cases hrest : c.rest with
      | nil => exact absurd hrest h.ne_nil
      | cons token rest =>
        have hbegins := h.begins
        rw [hrest, places_cons] at hbegins
        exact fun place hmem => hbegins place (List.mem_cons_of_mem _ (List.mem_append_right _ hmem))
  kind {token rest} h multiline pieces hk tokens span hpiece := by
    refine ⟨(inherited_early m.stop).kind h.early multiline pieces hk tokens span hpiece, fun place hmem => ?_⟩
    have hbegins := h.begins
    rw [places_cons, hk, Kind.places] at hbegins
    exact hbegins place (List.mem_cons_of_mem _ (List.mem_append_left _ (places_subset_piecePlaces hpiece hmem)))

/-- A state that is moved: what is left to read is, and so are the braces remembered. -/
structure Move.Fits (m : Move) (s : State) : Prop where
  holds : m.Holds s.cursor.rest
  remembered : ∀ form, ∀ offset ∈ s.failed form, m.begins offset

theorem Move.Fits.ne_nil {m : Move} {s : State} (h : m.Fits s) : s.cursor.rest ≠ [] := h.holds.ne_nil

/-- The token at the cursor begins where a token may. -/
theorem Move.Fits.begins {m : Move} {s : State} (h : m.Fits s) : m.begins s.cursor.span.start := by
  cases hrest : s.cursor.rest with
  | nil => exact absurd hrest h.ne_nil
  | cons token rest =>
    have hbegins := h.holds.begins
    rw [hrest, places_cons] at hbegins
    rw [Cursor.span_of_rest hrest]
    exact hbegins _ List.mem_cons_self

theorem Move.fits_ofTokens {m : Move} {tokens : List Token} (h : m.Holds tokens) : m.Fits (.ofTokens tokens) :=
  ⟨h, fun form offset hmem => by cases form <;> exact absurd hmem List.not_mem_nil⟩

section

variable {m : Move} {s t : State}

theorem Move.Fits.at (h : m.Fits s) {c : Cursor} (hc : m.Holds c.rest) : m.Fits { s with cursor := c } :=
  ⟨hc, h.remembered⟩

theorem Move.Fits.advance (h : m.Fits s) : m.Fits { s with cursor := s.cursor.advance } :=
  h.at (m.inherited_holds.advance h.holds)

theorem Move.Fits.skip (h : m.Fits s) (n : Nat) : m.Fits { s with cursor := s.cursor.skip n } :=
  h.at (m.inherited_holds.skip h.holds n)

theorem Move.Fits.rewind (h : m.Fits s) (h' : m.Fits t) : m.Fits (s.rewind t) :=
  ⟨h.holds, h'.remembered⟩

theorem Move.Fits.noteFailed (h : m.Fits s) {offset : Nat} (ho : m.begins offset) (form : BraceForm) :
    m.Fits (s.noteFailed offset form) := by
  cases form with
  | record =>
    refine ⟨h.holds, fun form => ?_⟩
    cases form with
    | record => exact List.forall_mem_cons.2 ⟨ho, h.remembered .record⟩
    | block => exact h.remembered .block
  | block =>
    refine ⟨h.holds, fun form => ?_⟩
    cases form with
    | record => exact h.remembered .record
    | block => exact List.forall_mem_cons.2 ⟨ho, h.remembered .block⟩

theorem Move.Fits.withFault (h : m.Fits s) (options : Options) (fault : Fault) : m.Fits (s.withFault options fault) := by
  unfold State.withFault
  split
  · exact h
  · split
    · exact ⟨h.holds, h.remembered⟩
    · split
      · exact ⟨h.holds, h.remembered⟩
      · exact ⟨h.holds, h.remembered⟩

theorem Move.Fits.recovered (h : m.Fits s) {start : Cursor} {resume : Resume}
    (hresumed : m.Holds (resumeFrom start resume s.cursor).rest) : m.Fits (s.recovered start resume) := by
  unfold State.recovered
  split
  · exact h
  · exact ⟨hresumed, h.remembered⟩

end

/-- The second ending is the first in another place, and what is left is still moved. -/
structure Carries (m : Move) {α β : Type} (g : α → β) (ending : Ending α) (ending' : Ending β) : Prop where
  eq : ending' = ending.moved m g
  fits : m.Fits (Ending.state ending)

section

variable {m : Move} {α β γ δ : Type} {g : α → β} {h : γ → δ} {s : State}

theorem Carries.ok {a : α} {b : β} (heq : b = g a) (hs : m.Fits s) :
    Carries m g (.ok a s) (.ok b (s.moved m)) := by
  subst heq
  exact ⟨rfl, hs⟩

theorem Carries.error {fault fault' : Fault} (heq : fault' = fault.moved m) (hs : m.Fits s) :
    Carries m g (.error fault s) (.error fault' (s.moved m)) := by
  subst heq
  exact ⟨rfl, hs⟩

theorem Carries.andThen {ending : Ending α} {ending' : Ending β} {next : α → State → Ending γ}
    {next' : β → State → Ending δ} (first : Carries m g ending ending')
    (rest : ∀ a t, m.Fits t → Carries m h (next a t) (next' (g a) (t.moved m))) :
    Carries m h (Ending.andThen ending next) (Ending.andThen ending' next') := by
  obtain ⟨rfl, hfits⟩ := first
  cases ending with
  | ok a t => exact rest a t hfits
  | error fault t => exact .error rfl hfits

theorem Carries.placed {ending : Ending α} {ending' : Ending β} (c : Cursor) (hc : m.Holds c.rest)
    (inner : Carries m g ending ending') :
    Carries m g (Ending.placed c ending) (Ending.placed (c.moved m.offset) ending') := by
  obtain ⟨rfl, hfits⟩ := inner
  cases ending with
  | ok a t => exact ⟨rfl, hc, hfits.remembered⟩
  | error fault t => exact ⟨rfl, hc, hfits.remembered⟩

theorem Carries.speculated {ending : Ending α} {ending' : Ending β} (hs : m.Fits s)
    (tried : Carries m g ending ending') :
    Carries m (Option.map g) (JuiceSyntax.speculated s ending) (JuiceSyntax.speculated (s.moved m) ending') := by
  obtain ⟨rfl, hfits⟩ := tried
  have hrecorded (t : State) : (t.moved m).faults.drop (s.moved m).faults.length =
      (t.faults.drop s.faults.length).map (·.moved m) := by
    simp only [State.moved, List.length_map, List.map_drop]
  have hfind (faults : List Fault) :
      (faults.map (·.moved m)).find? (·.isFatal) = (faults.find? (·.isFatal)).map (·.moved m) := by
    simp only [List.find?_map, Function.comp_def, Fault.isFatal_moved]
  have hall (faults : List Fault) : (faults.map (·.moved m)).all (·.isStructural) = faults.all (·.isStructural) := by
    simp only [List.all_map, Function.comp_def, Fault.isStructural_moved]
  cases ending with
  | ok a t =>
    simp only [Ending.moved, speculated_ok, hrecorded, hfind, hall]
    cases (t.faults.drop s.faults.length).find? (·.isFatal) with
    | some fault => exact .error rfl hfits
    | none =>
      simp only [Option.map_none]
      split
      · exact .ok rfl hfits
      · rw [State.rewind_moved]
        exact .ok rfl (hs.rewind hfits)
  | error fault t =>
    simp only [Ending.moved, speculated_error, hrecorded, hfind, Fault.isFatal_moved]
    cases (t.faults.drop s.faults.length).find? (·.isFatal) with
    | some fault => exact .error rfl hfits
    | none =>
      simp only [Option.map_none]
      split
      · exact .error rfl hfits
      · rw [State.rewind_moved]
        exact .ok rfl (hs.rewind hfits)

theorem Carries.noted (form : BraceForm) {offset : Nat} (ho : m.begins offset) {ending : Ending (Option α)}
    {ending' : Ending (Option β)} (tried : Carries m (Option.map g) ending ending') :
    Carries m (Option.map g) (JuiceSyntax.noted form offset ending) (JuiceSyntax.noted form (m.offset offset) ending') := by
  obtain ⟨rfl, hfits⟩ := tried
  cases ending with
  | error fault t => exact .error rfl hfits
  | ok found t =>
    cases found with
    | some a => exact .ok rfl hfits
    | none =>
      simp only [Ending.moved, Option.map_none, JuiceSyntax.noted, State.noteFailed_moved]
      exact .ok rfl (hfits.noteFailed ho form)

end

/-! ## Readers -/

/-- The readers of two levels, the second in another place. -/
structure Level.Moves (m : Move) (L L' : Level) : Prop where
  source : ∀ {span : Span}, m.begins span.stop → span.stop < m.stop →
    slice? L'.source (span.moved m.offset) = slice? L.source span
  options : L'.options = L.options.withMaxDepth m.limit
  remember : L'.remember = L.remember
  expr : ∀ position s, m.Fits s →
    Carries m (Expr.moved m.offset) (L.expr position s) (L'.expr position (s.moved m))
  operand : ∀ position s, m.Fits s →
    Carries m (Expr.moved m.offset) (L.operand position s) (L'.operand position (s.moved m))
  block : ∀ s, m.Fits s → Carries m (Block.moved m.offset) (L.block s) (L'.block (s.moved m))
  type : ∀ s, m.Fits s → Carries m (TypeExpr.moved m.offset) (L.type s) (L'.type (s.moved m))
  record : ∀ s, m.Fits s → Carries m (Expr.moved m.offset) (L.record s) (L'.record (s.moved m))

def ReadsMoved (m : Move) (L L' : Level) {α β : Type} (g : α → β) (r : Reader α) (r' : Reader β) : Prop :=
  ∀ s : State, m.Fits s → Carries m g (r L s) (r' L' (s.moved m))

namespace ReadsMoved

variable {m : Move} {L L' : Level} {α β γ δ : Type} {g : α → β} {h : γ → δ}

theorem pure {a : α} {b : β} (heq : b = g a) : ReadsMoved m L L' g (Pure.pure a) (Pure.pure b) :=
  fun _ hs => .ok heq hs

theorem bind {r : Reader α} {r' : Reader β} {k : α → Reader γ} {k' : β → Reader δ} (first : ReadsMoved m L L' g r r')
    (next : ∀ a, ReadsMoved m L L' h (k a) (k' (g a))) : ReadsMoved m L L' h (r >>= k) (r' >>= k') := by
  intro s hs
  rw [bind_apply, bind_apply]
  exact (first s hs).andThen fun a t ht => next a t ht

theorem map {r : Reader α} {r' : Reader β} {f : α → γ} {f' : β → δ} (first : ReadsMoved m L L' g r r')
    (heq : ∀ a, f' (g a) = h (f a)) : ReadsMoved m L L' h (f <$> r) (f' <$> r') := by
  rw [← bind_pure_comp, ← bind_pure_comp]
  exact first.bind fun a => .pure (heq a)

theorem throw {fault fault' : Fault} (heq : fault' = fault.moved m) :
    ReadsMoved m L L' g (MonadExcept.throw fault) (MonadExcept.throw fault') :=
  fun _ hs => .error heq hs

/-- What would follow a fault does not matter. -/
theorem throwBind {fault fault' : Fault} {k : α → Reader γ} {k' : β → Reader δ} (heq : fault' = fault.moved m) :
    ReadsMoved m L L' h (MonadExcept.throw fault >>= k) (MonadExcept.throw fault' >>= k') :=
  fun _ hs => .error heq hs

theorem ite {c : Prop} [Decidable c] {r q : Reader α} {r' q' : Reader β} (first : ReadsMoved m L L' g r r')
    (second : ReadsMoved m L L' g q q') : ReadsMoved m L L' g (if c then r else q) (if c then r' else q') := by
  split
  · exact first
  · exact second

/-- Two ways to a value that is then used. -/
theorem iteBind {c : Prop} [Decidable c] {r q : Reader α} {r' q' : Reader β} {k : α → Reader γ} {k' : β → Reader δ}
    (first : ReadsMoved m L L' g r r') (second : ReadsMoved m L L' g q q')
    (next : ∀ a, ReadsMoved m L L' h (k a) (k' (g a))) :
    ReadsMoved m L L' h (if c then r >>= k else q >>= k) (if c then r' >>= k' else q' >>= k') :=
  .ite (first.bind next) (second.bind next)

/-- A check that fails, or nothing, and what follows. -/
theorem unlessBind {c : Prop} [Decidable c] {r r' : Reader Unit} {k : Unit → Reader γ} {k' : Unit → Reader δ}
    (fails : ReadsMoved m L L' id r r') (next : ∀ a, ReadsMoved m L L' h (k a) (k' a)) :
    ReadsMoved m L L' h (if c then k () else r >>= k) (if c then k' () else r' >>= k') :=
  .ite (next ()) (fails.bind next)

theorem whenBind {c : Prop} [Decidable c] {r r' : Reader Unit} {k : Unit → Reader γ} {k' : Unit → Reader δ}
    (fails : ReadsMoved m L L' id r r') (next : ∀ a, ReadsMoved m L L' h (k a) (k' a)) :
    ReadsMoved m L L' h (if c then r >>= k else k ()) (if c then r' >>= k' else k' ()) :=
  .ite (fails.bind next) (next ())

theorem cursor {k : Cursor → Reader α} {k' : Cursor → Reader β}
    (next : ∀ c, m.Holds c.rest → ReadsMoved m L L' g (k c) (k' (c.moved m.offset))) :
    ReadsMoved m L L' g (Reader.cursor >>= k) (Reader.cursor >>= k') :=
  fun s hs => next s.cursor hs.holds s hs

theorem here : ReadsMoved m L L' (Span.moved m.offset) Reader.here Reader.here :=
  fun _ hs => .ok (Cursor.span_moved _ hs.ne_nil) hs

theorem spanFrom (start : Span) : ReadsMoved m L L' (Span.moved m.offset) (Reader.spanFrom start)
    (Reader.spanFrom (start.moved m.offset)) := by
  intro s hs
  rw [spanFrom_apply, spanFrom_apply]
  refine .ok ?_ hs
  rw [m.cover]
  exact congrArg _ (Cursor.previous_moved _ hs.ne_nil)

theorem halted : ReadsMoved m L L' id Reader.halted Reader.halted := fun _ hs => .ok rfl hs

theorem noteBody (inner : Span) : ReadsMoved m L L' id
    (modify fun s => { s with macroBodies := s.macroBodies ++ [inner] })
    (modify fun s => { s with macroBodies := s.macroBodies ++ [inner.moved m.offset] }) := by
  intro s hs
  refine ⟨?_, hs.holds, hs.remembered⟩
  rw [noteBody_apply, noteBody_apply]
  simp only [Ending.moved, State.moved, List.map_append, List.map_cons, List.map_nil, id]

theorem kind : ReadsMoved m L L' (Kind.moved m.offset) Reader.kind Reader.kind :=
  fun s hs => .ok (s.cursor.kind_moved m.offset) hs

/-- The kind at the cursor: one without pieces, or a string. -/
theorem onKind {k : Kind → Reader α} {k' : Kind → Reader β}
    (plain : ∀ kind, (∀ multiline pieces, kind ≠ .str multiline pieces) → ReadsMoved m L L' g (k kind) (k' kind))
    (str : ∀ multiline pieces, FineKind m.Holds (.str multiline pieces) →
      ReadsMoved m L L' g (k (.str multiline pieces)) (k' (.str multiline (movedPieces m.offset pieces)))) :
    ReadsMoved m L L' g (Reader.kind >>= k) (Reader.kind >>= k') := by
  intro s hs
  show Carries m g (k s.cursor.kind L s) (k' (s.moved m).cursor.kind L' (s.moved m))
  have hkind : (s.moved m).cursor.kind = s.cursor.kind.moved m.offset := s.cursor.kind_moved m.offset
  have hfine := m.inherited_holds.current hs.holds
  rw [hkind]
  generalize s.cursor.kind = kind at hfine ⊢
  cases kind with
  | str multiline pieces => exact str multiline pieces hfine s hs
  | _ => exact plain _ (by nofun) s hs

theorem peek (n : Nat) : ReadsMoved m L L' (Kind.moved m.offset) (Reader.peek n) (Reader.peek n) :=
  fun s hs => .ok (s.cursor.peek_moved m.offset n) hs

theorem atEnd : ReadsMoved m L L' id Reader.atEnd Reader.atEnd := fun s hs => .ok (s.cursor.atEnd_moved m.offset) hs

theorem atMark (mark : Mark) : ReadsMoved m L L' id (Reader.atMark mark) (Reader.atMark mark) := by
  intro s hs
  refine .ok ?_ hs
  show (s.cursor.moved m.offset).kind.isMark mark = s.cursor.kind.isMark mark
  rw [Cursor.kind_moved, Kind.isMark_moved]

theorem tokensLeft : ReadsMoved m L L' id JuiceSyntax.tokensLeft JuiceSyntax.tokensLeft := fun _ hs => .ok rfl hs

theorem advance : ReadsMoved m L L' (Token.moved m.offset) Reader.advance Reader.advance := by
  intro s hs
  refine ⟨?_, hs.advance⟩
  rw [advance_apply, advance_apply]
  simp only [Ending.moved, State.moved, Cursor.advance_moved, Cursor.current_moved _ hs.ne_nil]

/-- The end is a fault. Any other token begins before the end of what is moved. -/
theorem unlessEnd {fail : Reader α} {fail' : Reader β} {k : Token → Reader α} {k' : Token → Reader β}
    (failing : ReadsMoved m L L' g fail fail')
    (next : ∀ token, m.begins token.span.start → token.span.start < m.stop →
      ReadsMoved m L L' g (k token) (k' (token.moved m.offset))) :
    ReadsMoved m L L' g (Reader.atEnd >>= fun ended => if ended = true then fail else Reader.advance >>= k)
      (Reader.atEnd >>= fun ended => if ended = true then fail' else Reader.advance >>= k') := by
  intro s hs
  have hatEnd (L : Level) (s : State) : Reader.atEnd L s = .ok s.cursor.atEnd s := rfl
  have hsame : (s.moved m).cursor.atEnd = s.cursor.atEnd := s.cursor.atEnd_moved m.offset
  rw [bind_apply, bind_apply, hatEnd, hatEnd, Ending.andThen_ok, Ending.andThen_ok, hsame, choose_apply, choose_apply]
  split
  · exact failing s hs
  · rename_i hmid
    have hbound : s.cursor.current.span.start < m.stop := by
      obtain ⟨lo, hlaid⟩ := hs.holds.early
      exact hlaid.start_lt (Bool.eq_false_iff.2 hmid)
    have hadvance : ReadsMoved m L L' (Token.moved m.offset) Reader.advance Reader.advance := advance
    obtain ⟨heq, hfits⟩ := hadvance s hs
    rw [bind_apply, bind_apply, heq, advance_apply]
    exact next _ hs.begins hbound _ hfits

theorem skip (n : Nat) : ReadsMoved m L L' id (JuiceSyntax.skip n) (JuiceSyntax.skip n) := by
  intro s hs
  refine ⟨?_, hs.skip n⟩
  show EStateM.Result.ok () { s.moved m with cursor := (s.cursor.moved m.offset).skip n } =
    .ok () (State.moved m { s with cursor := s.cursor.skip n })
  rw [Cursor.skip_moved]
  rfl

theorem takeMark (mark : Mark) : ReadsMoved m L L' id (Reader.takeMark mark) (Reader.takeMark mark) :=
  .bind (.atMark mark) fun _ => .ite (.bind .advance fun _ => .pure rfl) (.pure rfl)

theorem takeWord (word : Keyword) : ReadsMoved m L L' id (Reader.takeWord word) (Reader.takeWord word) :=
  .bind .kind fun kind => by
    rw [Kind.isWord_moved]
    exact .ite (.bind .advance fun _ => .pure rfl) (.pure rfl)

theorem unexpected (wanted : Wanted) (advice : Option Advice) : ReadsMoved m L L' (Fault.moved m)
    (Reader.unexpected wanted advice) (Reader.unexpected wanted advice) :=
  .bind .here fun _ => .bind .kind fun _ => .pure rfl

theorem failUnexpected (wanted : Wanted) :
    ReadsMoved m L L' g (Reader.failUnexpected wanted) (Reader.failUnexpected wanted) :=
  .bind (.unexpected wanted none) fun _ => .throw rfl

theorem failAdvised (wanted : Wanted) (advice : Advice) :
    ReadsMoved m L L' g (Reader.failAdvised wanted advice) (Reader.failAdvised wanted advice) :=
  .bind (.unexpected wanted (some advice)) fun _ => .throw rfl

theorem needMark (mark : Mark) :
    ReadsMoved m L L' (Span.moved m.offset) (Reader.needMark mark) (Reader.needMark mark) :=
  .bind (.atMark mark) fun _ => .ite (.bind .advance fun _ => .pure rfl)
    (.bind .here fun _ => .bind .kind fun _ => .throw rfl)

theorem needWord (word : Keyword) :
    ReadsMoved m L L' (Span.moved m.offset) (Reader.needWord word) (Reader.needWord word) :=
  .bind .kind fun kind => by
    rw [Kind.isWord_moved]
    exact .ite (.bind .advance fun _ => .pure rfl) (.bind .here fun _ => .bind .kind fun _ => .throw rfl)

section

variable (H : Level.Moves m L L')
include H

theorem sourceText {span : Span} (hbegins : m.begins span.stop) (hstop : span.stop < m.stop) :
    ReadsMoved m L L' id (Grammar.sourceText span) (Grammar.sourceText (span.moved m.offset)) := by
  intro s hs
  rw [sourceText_apply, sourceText_apply, H.source hbegins hstop]
  exact .ok rfl hs

theorem record {fault fault' : Fault} (heq : fault' = fault.moved m) :
    ReadsMoved m L L' id (Reader.record fault) (Reader.record fault') := by
  intro s hs
  rw [record_apply, record_apply, H.options, heq, State.withFault_moved m fault hs.ne_nil]
  exact .ok rfl (hs.withFault _ _)

/-- A fault at a span put together from two. -/
theorem recordCover {a b : Span} {cause cause' : Cause} (heq : cause' = cause.moved m.offset m.limit) :
    ReadsMoved m L L' id (Reader.record (.ofCause (a.cover b) cause))
      (Reader.record (.ofCause ((a.moved m.offset).cover (b.moved m.offset)) cause')) := by
  rw [← m.cover, heq]
  exact record H rfl

theorem expr (position : Position) :
    ReadsMoved m L L' (Expr.moved m.offset) (Reader.expr position) (Reader.expr position) :=
  fun s hs => H.expr position s hs

theorem operand (position : Position) :
    ReadsMoved m L L' (Expr.moved m.offset) (Reader.operand position) (Reader.operand position) :=
  fun s hs => H.operand position s hs

theorem block : ReadsMoved m L L' (Block.moved m.offset) Reader.block Reader.block := fun s hs => H.block s hs

theorem type : ReadsMoved m L L' (TypeExpr.moved m.offset) Reader.type Reader.type := fun s hs => H.type s hs

theorem recordLiteral : ReadsMoved m L L' (Expr.moved m.offset) Reader.recordLiteral Reader.recordLiteral :=
  fun s hs => H.record s hs

end

theorem withTokens {tokens : List Token} (htokens : m.Holds tokens) {r : Reader α} {r' : Reader β}
    (inner : ReadsMoved m L L' g r r') :
    ReadsMoved m L L' g (JuiceSyntax.withTokens tokens r)
      (JuiceSyntax.withTokens (movedTokens m.offset tokens) r') := by
  intro s hs
  have hplaced : ({ s.moved m with cursor := .ofTokens (movedTokens m.offset tokens) } : State) =
      State.moved m { s with cursor := .ofTokens tokens } := by
    rw [← Cursor.moved_ofTokens]
    rfl
  rw [withTokens_apply, withTokens_apply, hplaced]
  exact (inner _ (hs.at htokens)).placed s.cursor hs.holds

theorem speculate {r : Reader α} {r' : Reader β} (tried : ReadsMoved m L L' g r r') :
    ReadsMoved m L L' (Option.map g) (JuiceSyntax.speculate r) (JuiceSyntax.speculate r') := by
  intro s hs
  rw [speculate_apply, speculate_apply]
  exact (tried s hs).speculated hs

theorem tryBrace (H : Level.Moves m L L') (form : BraceForm) {r r' : Reader Expr}
    (tried : ReadsMoved m L L' (Expr.moved m.offset) r r') :
    ReadsMoved m L L' (Option.map (Expr.moved m.offset)) (Grammar.tryBrace form r) (Grammar.tryBrace form r') := by
  intro s hs
  have hstart : (s.moved m).cursor.span.start = m.offset s.cursor.span.start :=
    congrArg Span.start (Cursor.span_moved m.offset hs.ne_nil)
  have hcontains : ((s.moved m).failed form).contains (m.offset s.cursor.span.start) =
      (s.failed form).contains s.cursor.span.start := by
    rw [State.failed_moved, Bool.eq_iff_iff]
    simp only [List.contains_iff_mem, List.mem_map]
    refine ⟨?_, fun hmem => ⟨_, hmem, rfl⟩⟩
    rintro ⟨offset, hmem, heq⟩
    rwa [← m.injective (hs.remembered form offset hmem) hs.begins heq]
  rw [tryBrace_apply, tryBrace_apply, H.remember, hstart, hcontains]
  split
  · exact .ok rfl hs
  · exact ((tried s hs).speculated hs).noted form hs.begins

theorem separatedUpTo (close : Mark) {item : Reader α} {item' : Reader β} (one : ReadsMoved m L L' g item item')
    (fuel : Nat) : ReadsMoved m L L' (List.map g) (JuiceSyntax.separatedUpTo close item fuel)
      (JuiceSyntax.separatedUpTo close item' fuel) := by
  induction fuel with
  | zero => exact .pure rfl
  | succ fuel ih =>
    exact .bind (.atMark close) fun _ => .ite (.pure rfl) (.bind one fun _ => .bind (.takeMark _) fun _ =>
      .ite (.bind ih fun _ => .pure rfl) (.pure rfl))

theorem separated (close : Mark) {item : Reader α} {item' : Reader β} (one : ReadsMoved m L L' g item item') :
    ReadsMoved m L L' (List.map g) (JuiceSyntax.separated close item) (JuiceSyntax.separated close item') :=
  .bind .tokensLeft fun _ => .separatedUpTo close one _

theorem recoveringUpTo (H : Level.Moves m L L') {resume : Resume} (hblind : resume.Blind) (close : Mark)
    {item : Reader α} {item' : Reader β} (one : ReadsMoved m L L' g item item') (fuel : Nat) :
    ReadsMoved m L L' (List.map g) (JuiceSyntax.recoveringUpTo resume (·.isMark close) item fuel)
      (JuiceSyntax.recoveringUpTo resume (·.isMark close) item' fuel) := by
  induction fuel with
  | zero => exact .pure rfl
  | succ fuel ih =>
    intro s hs
    have hcursor : (s.moved m).cursor = s.cursor.moved m.offset := rfl
    have hhalted : (s.moved m).halted = s.halted := rfl
    rw [recoveringUpTo_succ, recoveringUpTo_succ, hhalted, hcursor, Cursor.kind_moved, Kind.isMark_moved,
      Cursor.atEnd_moved]
    split
    · exact .ok rfl hs
    · obtain ⟨hone, hfits⟩ := one s hs
      rw [hone]
      generalize item L s = ending at hfits ⊢
      cases ending with
      | ok first t =>
        simp only [Ending.moved, Ending.caught, Ending.andThen_ok, turned]
        exact (ih t hfits).andThen fun rest u hu => .ok rfl hu
      | error fault t =>
        have hfits : m.Fits t := hfits
        have hresumed : m.Holds (resumeFrom s.cursor resume t.cursor).rest := by
          obtain ⟨n, hn⟩ := resumeFrom_eq_skip s.cursor resume t.cursor
          rw [hn]
          exact m.inherited_holds.skip hfits.holds n
        have hwith : (t.withFault L.options fault).cursor = t.cursor := cursor_withFault _ _ _
        simp only [Ending.moved, Ending.caught, Ending.andThen_ok, turned, State.resumed]
        rw [H.options, State.withFault_moved m fault hfits.ne_nil,
          State.recovered_moved m hblind hs.ne_nil (by rw [hwith]; exact hresumed.ne_nil)]
        exact ih _ ((hfits.withFault L.options fault).recovered (by rw [hwith]; exact hresumed))

theorem recovering (H : Level.Moves m L L') {resume : Resume} (hblind : resume.Blind) (close : Mark)
    {item : Reader α} {item' : Reader β} (one : ReadsMoved m L L' g item item') :
    ReadsMoved m L L' (List.map g) (JuiceSyntax.recovering resume (·.isMark close) item)
      (JuiceSyntax.recovering resume (·.isMark close) item') :=
  .bind .tokensLeft fun _ => .recoveringUpTo H hblind close one _

end ReadsMoved

end JuiceSyntax
