/-
  Two readings of documents that differ in layout only. `State.Alike` relates their states: the
  cursors stand at the same token, counted and by its place, the faults are the same but for
  spans, and the braces remembered are the same braces, whatever their offsets.

  `ReadsAlike view r r'`: from such states `r` and `r'` end alike, with results that look the same
  through `view`. Here is one rule for each step that readers take.
-/
import JuiceSyntax.Proofs.Grammar.Growth
import JuiceSyntax.Proofs.Tree.Bare
import Mathlib.Data.List.Forall2

namespace JuiceSyntax

open Reader Grammar

/-! ## Cursors -/

/-- Cursors at the same token of two documents. -/
structure Cursor.Alike (doc doc' : List Token) (c c' : Cursor) : Prop where
  pos : c.pos = c'.pos
  rest : SamePlace doc doc' c.rest c'.rest

namespace Cursor

/-- The kinds ahead, without what strings hold. -/
theorem peek_bare (c : Cursor) (n : Nat) : (c.peek n).bare = ((bareTokens c.rest)[n]?).elim .done Token.kind := by
  rw [Cursor.peek, bareTokens_eq_map, List.getElem?_map]
  cases c.rest[n]? with
  | none => rw [Option.map_none, Option.elim_none, Kind.bare]
  | some token => rfl

theorem kind_eq_peek (c : Cursor) : c.kind = c.peek 0 := by
  unfold Cursor.kind Cursor.current Cursor.peek
  cases c.rest with
  | nil => rfl
  | cons token rest => rfl

namespace Alike

variable {doc doc' : List Token} {c c' : Cursor}

theorem peek (hdoc : bareTokens doc = bareTokens doc') (h : c.Alike doc doc' c') (n : Nat) :
    (c.peek n).bare = (c'.peek n).bare := by
  rw [peek_bare, peek_bare, h.rest.bare hdoc]

theorem kind (hdoc : bareTokens doc = bareTokens doc') (h : c.Alike doc doc' c') : c.kind.bare = c'.kind.bare := by
  rw [kind_eq_peek, kind_eq_peek]
  exact h.peek hdoc 0

theorem isMark (hdoc : bareTokens doc = bareTokens doc') (h : c.Alike doc doc' c') (m : Mark) :
    c.kind.isMark m = c'.kind.isMark m := by
  rw [← Kind.isMark_bare, h.kind hdoc, Kind.isMark_bare]

theorem isWord (hdoc : bareTokens doc = bareTokens doc') (h : c.Alike doc doc' c') (w : Keyword) :
    c.kind.isWord w = c'.kind.isWord w := by
  rw [← Kind.isWord_bare, h.kind hdoc, Kind.isWord_bare]

theorem atEnd (hdoc : bareTokens doc = bareTokens doc') (h : c.Alike doc doc' c') : c.atEnd = c'.atEnd := by
  rw [Cursor.atEnd, Cursor.atEnd, ← Kind.isDone_bare, h.kind hdoc, Kind.isDone_bare]

theorem left (hdoc : bareTokens doc = bareTokens doc') (h : c.Alike doc doc' c') : c.left = c'.left := by
  rw [c.left_eq, c'.left_eq, ← length_bareTokens c.rest, h.rest.bare hdoc, length_bareTokens]

theorem advance (hdoc : bareTokens doc = bareTokens doc') (h : c.Alike doc doc' c') :
    c.advance.Alike doc doc' c'.advance := by
  cases hend : c.atEnd with
  | true =>
    have hend' : c'.atEnd = true := (h.atEnd hdoc).symm.trans hend
    rw [Cursor.advance_of_atEnd hend, Cursor.advance_of_atEnd hend']
    exact h
  | false =>
    obtain ⟨hpos, -, hrest⟩ := Cursor.advance_of_mid hend
    obtain ⟨hpos', -, hrest'⟩ := Cursor.advance_of_mid ((h.atEnd hdoc).symm.trans hend)
    refine ⟨by rw [hpos, hpos', h.pos], ?_⟩
    rw [hrest, hrest']
    have hside := h.rest
    have hlen := congrArg List.length (hside.bare hdoc)
    rw [length_bareTokens, length_bareTokens] at hlen
    cases hr : c.rest with
    | nil =>
      rw [hr] at hlen
      rw [List.length_eq_zero_iff.1 hlen.symm]
      exact .inl ⟨rfl, rfl⟩
    | cons token rest =>
      cases hr' : c'.rest with
      | nil =>
        rw [hr, hr'] at hlen
        exact absurd hlen (by simp)
      | cons token' rest' =>
        rw [hr, hr'] at hside
        exact hside.tail hdoc

theorem skip (hdoc : bareTokens doc = bareTokens doc') (h : c.Alike doc doc' c') (n : Nat) :
    (c.skip n).Alike doc doc' (c'.skip n) := by
  induction n generalizing c c' with
  | zero => exact h
  | succ n ih => exact ih (h.advance hdoc)

theorem resumeFrom (hdoc : bareTokens doc = bareTokens doc') {start start' : Cursor} {resume : Resume}
    (hblind : resume.Blind) (hstart : start.pos = start'.pos) (h : c.Alike doc doc' c') :
    (JuiceSyntax.resumeFrom start resume c).Alike doc doc' (JuiceSyntax.resumeFrom start' resume c') := by
  have hmoved {d d' : Cursor} (hd : d.Alike doc doc' d') :
      (d.skip (resume.distance 0 d.rest)).Alike doc doc' (d'.skip (resume.distance 0 d'.rest)) := by
    rw [← hblind.distance 0 d.rest, hd.rest.bare hdoc, hblind.distance]
    exact hd.skip hdoc _
  unfold JuiceSyntax.resumeFrom
  dsimp only
  rw [h.pos, hstart, h.atEnd hdoc, h.isMark hdoc]
  split
  · exact hmoved (h.advance hdoc)
  · exact hmoved h

/-- The offsets of the token at the cursors. -/
theorem offsets (hdoc : bareTokens doc = bareTokens doc') (h : c.Alike doc doc' c') (hend : c.atEnd = false) :
    SameOffset doc doc' c.span.start c'.span.start :=
  ⟨c.rest, c'.rest, h.rest, hend, (h.atEnd hdoc).symm.trans hend, rfl, rfl⟩

end Alike

end Cursor

/-- The kind of a token in two documents: one kind, or strings with the same pieces. -/
inductive SameKind (doc doc' : List Token) : Kind → Kind → Prop where
  | same {kind : Kind} (h : ∀ multiline pieces, kind ≠ .str multiline pieces) : SameKind doc doc' kind kind
  | str (multiline : Bool) {pieces pieces' : List Piece} (h : SamePieces doc doc' pieces pieces') :
    SameKind doc doc' (.str multiline pieces) (.str multiline pieces')

theorem Cursor.Alike.sameKind {doc doc' : List Token} {c c' : Cursor} (hdoc : bareTokens doc = bareTokens doc')
    (h : c.Alike doc doc' c') : SameKind doc doc' c.kind c'.kind := by
  obtain ⟨heq, hne⟩ | ⟨multiline, pieces, pieces', hk, hk'⟩ := Kind.cases_of_bare (h.kind hdoc)
  · rw [← heq]
    exact .same hne
  · rw [hk, hk']
    have hside := h.rest
    rw [Cursor.kind, Cursor.current] at hk hk'
    cases hr : c.rest with
    | nil =>
      rw [hr] at hk
      cases hk
    | cons token rest =>
      cases hr' : c'.rest with
      | nil =>
        rw [hr'] at hk'
        cases hk'
      | cons token' rest' =>
        rw [hr] at hk hside
        rw [hr'] at hk' hside
        exact .str multiline (hside.pieces hdoc hk hk')

/-! ## States -/

structure State.Alike (doc doc' : List Token) (s s' : State) : Prop where
  cursor : s.cursor.Alike doc doc' s'.cursor
  faults : s.faults.map Fault.bare = s'.faults.map Fault.bare
  halted : s.halted = s'.halted
  failed : ∀ form, List.Forall₂ (SameOffset doc doc') (s.failed form) (s'.failed form)

theorem State.Alike.ofTokens {doc doc' : List Token} (h : bareTokens doc = bareTokens doc') :
    State.Alike doc doc' (.ofTokens doc) (.ofTokens doc') where
  cursor := ⟨rfl, samePlace_self h⟩
  faults := rfl
  halted := rfl
  failed form := by cases form <;> exact .nil

/-- How two readings end alike; their results look the same through `view`. -/
inductive EndsAlike (doc doc' : List Token) {α β : Type} (view : α → β) : Ending α → Ending α → Prop where
  | ok {a a' : α} {s s' : State} (same : view a = view a') (states : s.Alike doc doc' s') :
    EndsAlike doc doc' view (.ok a s) (.ok a' s')
  | error {fault fault' : Fault} {s s' : State} (same : fault.bare = fault'.bare) (states : s.Alike doc doc' s') :
    EndsAlike doc doc' view (.error fault s) (.error fault' s')

theorem Fault.isFatal_of_bare {fault fault' : Fault} (h : fault.bare = fault'.bare) :
    fault.isFatal = fault'.isFatal := by
  have hcause : fault.cause.bare = fault'.cause.bare := congrArg Fault.cause h
  rw [Fault.isFatal, Fault.isFatal, ← Cause.isFatal_bare, hcause, Cause.isFatal_bare]

theorem Fault.isStructural_of_bare {fault fault' : Fault} (h : fault.bare = fault'.bare) :
    fault.isStructural = fault'.isStructural := by
  have hcause : fault.cause.bare = fault'.cause.bare := congrArg Fault.cause h
  rw [Fault.isStructural, Fault.isStructural, ← Cause.isStructural_bare, hcause, Cause.isStructural_bare]

/-- Faults alike are found alike. -/
theorem find?_isFatal_of_bare {faults faults' : List Fault} (h : faults.map Fault.bare = faults'.map Fault.bare) :
    (faults.find? (·.isFatal)).map Fault.bare = (faults'.find? (·.isFatal)).map Fault.bare := by
  induction faults generalizing faults' with
  | nil => rw [List.map_eq_nil_iff.1 h.symm]
  | cons fault rest ih =>
    cases faults' with
    | nil => exact absurd h (by simp)
    | cons fault' rest' =>
      rw [List.map_cons, List.map_cons, List.cons.injEq] at h
      obtain ⟨hfault, hrest⟩ := h
      rw [List.find?_cons, List.find?_cons, Fault.isFatal_of_bare hfault]
      split
      · rw [Option.map_some, Option.map_some, hfault]
      · exact ih hrest

theorem all_isStructural_of_bare {faults faults' : List Fault}
    (h : faults.map Fault.bare = faults'.map Fault.bare) :
    faults.all (·.isStructural) = faults'.all (·.isStructural) := by
  induction faults generalizing faults' with
  | nil => rw [List.map_eq_nil_iff.1 h.symm]
  | cons fault rest ih =>
    cases faults' with
    | nil => exact absurd h (by simp)
    | cons fault' rest' =>
      rw [List.map_cons, List.map_cons, List.cons.injEq] at h
      rw [List.all_cons, List.all_cons, Fault.isStructural_of_bare h.1, ih h.2]

section

variable {doc doc' : List Token} {α β γ δ : Type} {s s' : State}

theorem State.Alike.at (h : s.Alike doc doc' s') {c c' : Cursor} (hc : c.Alike doc doc' c') :
    State.Alike doc doc' { s with cursor := c } { s' with cursor := c' } :=
  ⟨hc, h.faults, h.halted, h.failed⟩

theorem State.Alike.length (h : s.Alike doc doc' s') : s.faults.length = s'.faults.length := by
  simpa using congrArg List.length h.faults

theorem State.Alike.noteFailed (h : s.Alike doc doc' s') {offset offset' : Nat}
    (ho : SameOffset doc doc' offset offset') (form : BraceForm) :
    (s.noteFailed offset form).Alike doc doc' (s'.noteFailed offset' form) := by
  cases form with
  | record =>
    refine ⟨h.cursor, h.faults, h.halted, fun form => ?_⟩
    cases form with
    | record => exact .cons ho (h.failed .record)
    | block => exact h.failed .block
  | block =>
    refine ⟨h.cursor, h.faults, h.halted, fun form => ?_⟩
    cases form with
    | record => exact h.failed .record
    | block => exact .cons ho (h.failed .block)

theorem State.Alike.withFault (h : s.Alike doc doc' s') (options : Options) {fault fault' : Fault}
    (hfault : fault.bare = fault'.bare) :
    (s.withFault options fault).Alike doc doc' (s'.withFault options fault') := by
  unfold State.withFault
  rw [h.halted, Fault.isFatal_of_bare hfault, h.length]
  split
  · exact h
  · split
    · exact ⟨h.cursor, by simp only [List.map_append, List.map_cons, List.map_nil, h.faults, hfault], rfl, h.failed⟩
    · split
      · refine ⟨h.cursor, ?_, rfl, h.failed⟩
        simp only [List.map_append, List.map_cons, List.map_nil, h.faults, hfault]
        rfl
      · exact ⟨h.cursor, by simp only [List.map_append, List.map_cons, List.map_nil, h.faults, hfault], rfl, h.failed⟩

theorem noteSkipped_bare (span span' : Span) {faults faults' : List Fault}
    (h : faults.map Fault.bare = faults'.map Fault.bare) :
    (noteSkipped span faults).map Fault.bare = (noteSkipped span' faults').map Fault.bare := by
  have hlast {fault fault' : Fault} (hfault : fault.bare = fault'.bare) :
      Fault.bare { fault with skipped := fault.skipped.or (some span) } =
        Fault.bare { fault' with skipped := fault'.skipped.or (some span') } := by
    have hcause : fault.cause.bare = fault'.cause.bare := congrArg Fault.cause hfault
    simp only [Fault.bare, hcause]
    cases fault.skipped <;> cases fault'.skipped <;> rfl
  induction faults generalizing faults' with
  | nil => rw [List.map_eq_nil_iff.1 h.symm]; rfl
  | cons fault rest ih =>
    cases faults' with
    | nil => exact absurd h (by simp)
    | cons fault' rest' =>
      rw [List.map_cons, List.map_cons, List.cons.injEq] at h
      obtain ⟨hfault, hrest⟩ := h
      have hih := ih hrest
      cases rest with
      | nil =>
        rw [List.map_eq_nil_iff.1 hrest.symm]
        simp only [noteSkipped, List.map_cons, List.map_nil, hlast hfault]
      | cons second rest =>
        cases rest' with
        | nil => exact absurd hrest (by simp)
        | cons second' rest' =>
          simp only [noteSkipped, List.map_cons, List.cons.injEq] at hih ⊢
          exact ⟨hfault, hih⟩

theorem State.Alike.recovered (hdoc : bareTokens doc = bareTokens doc') {resume : Resume} (hblind : resume.Blind)
    {start start' : Cursor} (hstart : start.pos = start'.pos) (h : s.Alike doc doc' s') :
    (s.recovered start resume).Alike doc doc' (s'.recovered start' resume) := by
  have hcursor := h.cursor.resumeFrom hdoc hblind hstart
  unfold State.recovered
  dsimp only
  rw [h.halted, hstart, hcursor.pos]
  split
  · exact h
  · refine ⟨hcursor, ?_, rfl, h.failed⟩
    dsimp only
    split
    · exact noteSkipped_bare _ _ h.faults
    · exact h.faults

/-! ## Endings -/

namespace EndsAlike

variable {view : α → β} {view' : γ → δ} {ending ending' : Ending α}

theorem andThen {next next' : α → State → Ending γ} (h : EndsAlike doc doc' view ending ending')
    (hnext : ∀ a a' t t', view a = view a' → t.Alike doc doc' t' → EndsAlike doc doc' view' (next a t) (next' a' t')) :
    EndsAlike doc doc' view' (Ending.andThen ending next) (Ending.andThen ending' next') := by
  cases h with
  | ok same states => exact hnext _ _ _ _ same states
  | error same states => exact .error same states

theorem placed {c c' : Cursor} (hc : c.Alike doc doc' c') (h : EndsAlike doc doc' view ending ending') :
    EndsAlike doc doc' view (Ending.placed c ending) (Ending.placed c' ending') := by
  cases h with
  | ok same states => exact .ok same (states.at hc)
  | error same states => exact .error same (states.at hc)

theorem speculated (hs : s.Alike doc doc' s') (h : EndsAlike doc doc' view ending ending') :
    EndsAlike doc doc' (Option.map view) (JuiceSyntax.speculated s ending) (JuiceSyntax.speculated s' ending') := by
  have hrecorded {t t' : State} (ht : t.Alike doc doc' t') :
      (t.faults.drop s.faults.length).map Fault.bare = (t'.faults.drop s'.faults.length).map Fault.bare := by
    rw [List.map_drop, List.map_drop, ht.faults, hs.length]
  have hback {t t' : State} (ht : t.Alike doc doc' t') : (s.rewind t).Alike doc doc' (s'.rewind t') := by
    refine ⟨hs.cursor, ?_, hs.halted, fun form => ?_⟩
    · simp only [State.rewind, List.map_take, ht.faults, hs.length]
    · cases form with
      | record => exact ht.failed .record
      | block => exact ht.failed .block
  -- a fatal fault among the new ones is found in both or in neither
  have hfatal {t t' : State} (ht : t.Alike doc doc' t') :
      ((t.faults.drop s.faults.length).find? (·.isFatal) = none ∧
          (t'.faults.drop s'.faults.length).find? (·.isFatal) = none) ∨
        ∃ fault fault', (t.faults.drop s.faults.length).find? (·.isFatal) = some fault ∧
          (t'.faults.drop s'.faults.length).find? (·.isFatal) = some fault' ∧ fault.bare = fault'.bare := by
    have hfound := find?_isFatal_of_bare (hrecorded ht)
    cases hf : (t.faults.drop s.faults.length).find? (·.isFatal) with
    | none =>
      rw [hf, Option.map_none] at hfound
      exact .inl ⟨rfl, Option.map_eq_none_iff.1 hfound.symm⟩
    | some fault =>
      rw [hf, Option.map_some] at hfound
      obtain ⟨fault', hf', hbare⟩ := Option.map_eq_some_iff.1 hfound.symm
      exact .inr ⟨fault, fault', rfl, hf', hbare.symm⟩
  cases h with
  | ok same states =>
    rw [speculated_ok, speculated_ok]
    obtain ⟨hnone, hnone'⟩ | ⟨fault, fault', hsome, hsome', hbare⟩ := hfatal states
    · rw [hnone, hnone', all_isStructural_of_bare (hrecorded states)]
      dsimp only
      split
      · exact .ok (congrArg some same) states
      · exact .ok rfl (hback states)
    · rw [hsome, hsome']
      exact .error hbare states
  | error same states =>
    rw [speculated_error, speculated_error]
    obtain ⟨hnone, hnone'⟩ | ⟨fault, fault', hsome, hsome', hbare⟩ := hfatal states
    · rw [hnone, hnone', Fault.isFatal_of_bare same]
      dsimp only
      split
      · exact .error same states
      · exact .ok rfl (hback states)
    · rw [hsome, hsome']
      exact .error hbare states

theorem noted {ending ending' : Ending (Option α)} (h : EndsAlike doc doc' (Option.map view) ending ending')
    {offset offset' : Nat} (ho : SameOffset doc doc' offset offset') (form : BraceForm) :
    EndsAlike doc doc' (Option.map view) (JuiceSyntax.noted form offset ending)
      (JuiceSyntax.noted form offset' ending') := by
  cases h with
  | error same states => exact .error same states
  | @ok found found' t t' same states =>
    cases found with
    | none =>
      rw [Option.map_none] at same
      rw [Option.map_eq_none_iff.1 same.symm]
      exact .ok rfl (states.noteFailed ho form)
    | some a =>
      obtain ⟨a', rfl, -⟩ := Option.map_eq_some_iff.1 same.symm
      exact .ok same states

end EndsAlike

end

/-! ## Readers -/

/-- The readers of two levels end alike from states alike. -/
structure Level.Alike (doc doc' : List Token) (L L' : Level) : Prop where
  bare : bareTokens doc = bareTokens doc'
  offsets : ∀ {a a' b b' : Nat}, SameOffset doc doc' a a' → SameOffset doc doc' b b' → (a = b ↔ a' = b')
  options : L.options = L'.options
  remember : L.remember = L'.remember
  expr : ∀ position {s s'}, State.Alike doc doc' s s' →
    EndsAlike doc doc' Expr.bare (L.expr position s) (L'.expr position s')
  operand : ∀ position {s s'}, State.Alike doc doc' s s' →
    EndsAlike doc doc' Expr.bare (L.operand position s) (L'.operand position s')
  block : ∀ {s s'}, State.Alike doc doc' s s' → EndsAlike doc doc' Block.bare (L.block s) (L'.block s')
  type : ∀ {s s'}, State.Alike doc doc' s s' → EndsAlike doc doc' TypeExpr.bare (L.type s) (L'.type s')
  record : ∀ {s s'}, State.Alike doc doc' s s' → EndsAlike doc doc' Expr.bare (L.record s) (L'.record s')

/-- From states alike the readers end alike; their results look the same through `view`. -/
def ReadsAlike (doc doc' : List Token) (L L' : Level) {α β : Type} (view : α → β) (r r' : Reader α) : Prop :=
  ∀ s s' : State, s.Alike doc doc' s' → EndsAlike doc doc' view (r L s) (r' L' s')

/-- What is seen of a span. -/
def unseen {α : Type} (_ : α) : Unit := ()

/-- The same at a token that is not the end. -/
def ReadsAlikeMid (doc doc' : List Token) (L L' : Level) {α β : Type} (view : α → β) (r r' : Reader α) : Prop :=
  ∀ s s' : State, s.Alike doc doc' s' → s.cursor.atEnd = false → EndsAlike doc doc' view (r L s) (r' L' s')

namespace ReadsAlike

variable {doc doc' : List Token} {L L' : Level} {α β γ δ : Type} {v : α → β} {w : γ → δ}

theorem pure {a a' : α} (h : v a = v a') : ReadsAlike doc doc' L L' v (Pure.pure a) (Pure.pure a') :=
  fun _ _ hs => .ok h hs

theorem mid {r r' : Reader α} (h : ReadsAlike doc doc' L L' v r r') : ReadsAlikeMid doc doc' L L' v r r' :=
  fun s s' hs _ => h s s' hs

theorem bind {r r' : Reader α} {k k' : α → Reader γ} (first : ReadsAlike doc doc' L L' v r r')
    (next : ∀ a a', v a = v a' → ReadsAlike doc doc' L L' w (k a) (k' a')) :
    ReadsAlike doc doc' L L' w (r >>= k) (r' >>= k') := by
  intro s s' hs
  rw [bind_apply, bind_apply]
  exact (first s s' hs).andThen fun a a' t t' same states => next a a' same t t' states

/-- A result that looks like itself only goes on as one. -/
theorem bindSame {r r' : Reader α} {k k' : α → Reader γ} (first : ReadsAlike doc doc' L L' id r r')
    (next : ∀ a, ReadsAlike doc doc' L L' w (k a) (k' a)) : ReadsAlike doc doc' L L' w (r >>= k) (r' >>= k') :=
  first.bind fun a a' same => by
    obtain rfl : a = a' := same
    exact next a

theorem map {r r' : Reader α} {f f' : α → γ} (first : ReadsAlike doc doc' L L' v r r')
    (h : ∀ a a', v a = v a' → w (f a) = w (f' a')) :
    ReadsAlike doc doc' L L' w (f <$> r) (f' <$> r') := by
  rw [← bind_pure_comp, ← bind_pure_comp]
  exact first.bind fun a a' same => .pure (h a a' same)

theorem throw {fault fault' : Fault} (h : fault.bare = fault'.bare) :
    ReadsAlike doc doc' L L' v (MonadExcept.throw fault) (MonadExcept.throw fault') :=
  fun _ _ hs => .error h hs

/-- What would follow a fault does not matter. -/
theorem throwBind {fault fault' : Fault} {k k' : α → Reader γ} (h : fault.bare = fault'.bare) :
    ReadsAlike doc doc' L L' w (MonadExcept.throw fault >>= k) (MonadExcept.throw fault' >>= k') :=
  fun _ _ hs => .error h hs

theorem ite {c : Prop} [Decidable c] {r r' q q' : Reader α} (first : ReadsAlike doc doc' L L' v r r')
    (second : ReadsAlike doc doc' L L' v q q') :
    ReadsAlike doc doc' L L' v (if c then r else q) (if c then r' else q') := by
  split
  · exact first
  · exact second

/-- Two ways to a value that is then used. -/
theorem iteBind {c : Prop} [Decidable c] {r r' q q' : Reader α} {k k' : α → Reader γ}
    (first : ReadsAlike doc doc' L L' v r r') (second : ReadsAlike doc doc' L L' v q q')
    (next : ∀ a a', v a = v a' → ReadsAlike doc doc' L L' w (k a) (k' a')) :
    ReadsAlike doc doc' L L' w (if c then r >>= k else q >>= k) (if c then r' >>= k' else q' >>= k') :=
  .ite (first.bind next) (second.bind next)

/-- A check that fails, or nothing, and what follows. -/
theorem unlessBind {c : Prop} [Decidable c] {r r' : Reader Unit} {k k' : Unit → Reader γ}
    (fails : ReadsAlike doc doc' L L' id r r') (next : ∀ a, ReadsAlike doc doc' L L' w (k a) (k' a)) :
    ReadsAlike doc doc' L L' w (if c then k () else r >>= k) (if c then k' () else r' >>= k') :=
  .ite (next ()) (fails.bindSame next)

theorem whenBind {c : Prop} [Decidable c] {r r' : Reader Unit} {k k' : Unit → Reader γ}
    (fails : ReadsAlike doc doc' L L' id r r') (next : ∀ a, ReadsAlike doc doc' L L' w (k a) (k' a)) :
    ReadsAlike doc doc' L L' w (if c then r >>= k else k ()) (if c then r' >>= k' else k' ()) :=
  .ite (fails.bindSame next) (next ())

theorem cursor {k k' : Cursor → Reader α}
    (next : ∀ c c', c.Alike doc doc' c' → ReadsAlike doc doc' L L' v (k c) (k' c')) :
    ReadsAlike doc doc' L L' v (Reader.cursor >>= k) (Reader.cursor >>= k') :=
  fun s s' hs => next s.cursor s'.cursor hs.cursor s s' hs

theorem here : ReadsAlike doc doc' L L' unseen Reader.here Reader.here := fun _ _ hs => .ok rfl hs

theorem spanFrom (start start' : Span) :
    ReadsAlike doc doc' L L' unseen (Reader.spanFrom start) (Reader.spanFrom start') :=
  fun _ _ hs => .ok rfl hs

theorem sourceText (span span' : Span) :
    ReadsAlike doc doc' L L' unseen (Grammar.sourceText span) (Grammar.sourceText span') :=
  fun _ _ hs => .ok rfl hs

theorem halted : ReadsAlike doc doc' L L' id Reader.halted Reader.halted := fun _ _ hs => .ok hs.halted hs

theorem noteBody (inner inner' : Span) : ReadsAlike doc doc' L L' id
    (modify fun s => { s with macroBodies := s.macroBodies ++ [inner] })
    (modify fun s => { s with macroBodies := s.macroBodies ++ [inner'] }) :=
  fun _ _ hs => .ok rfl ⟨hs.cursor, hs.faults, hs.halted, hs.failed⟩

section

variable (H : Level.Alike doc doc' L L')
include H

theorem kind : ReadsAlike doc doc' L L' Kind.bare Reader.kind Reader.kind :=
  fun _ _ hs => .ok (hs.cursor.kind H.bare) hs

/-- The kind at the cursor, with what strings hold. -/
theorem onKind {k k' : Kind → Reader α}
    (next : ∀ kind kind', SameKind doc doc' kind kind' → ReadsAlike doc doc' L L' v (k kind) (k' kind')) :
    ReadsAlike doc doc' L L' v (Reader.kind >>= k) (Reader.kind >>= k') :=
  fun s s' hs => next _ _ (hs.cursor.sameKind H.bare) s s' hs

theorem peek (n : Nat) : ReadsAlike doc doc' L L' Kind.bare (Reader.peek n) (Reader.peek n) :=
  fun _ _ hs => .ok (hs.cursor.peek H.bare n) hs

theorem atEnd : ReadsAlike doc doc' L L' id Reader.atEnd Reader.atEnd := fun _ _ hs => .ok (hs.cursor.atEnd H.bare) hs

theorem atMark (m : Mark) : ReadsAlike doc doc' L L' id (Reader.atMark m) (Reader.atMark m) :=
  fun _ _ hs => .ok (hs.cursor.isMark H.bare m) hs

theorem tokensLeft : ReadsAlike doc doc' L L' id JuiceSyntax.tokensLeft JuiceSyntax.tokensLeft :=
  fun _ _ hs => .ok (hs.cursor.left H.bare) hs

theorem advance : ReadsAlike doc doc' L L' unseen Reader.advance Reader.advance :=
  fun _ _ hs => .ok rfl (hs.at (hs.cursor.advance H.bare))

theorem skip (n : Nat) : ReadsAlike doc doc' L L' id (JuiceSyntax.skip n) (JuiceSyntax.skip n) :=
  fun _ _ hs => .ok rfl (hs.at (hs.cursor.skip H.bare n))

theorem takeMark (m : Mark) : ReadsAlike doc doc' L L' id (Reader.takeMark m) (Reader.takeMark m) :=
  .bindSame (.atMark H m) fun _ => .ite (.bind (.advance H) fun _ _ _ => .pure rfl) (.pure rfl)

theorem record {fault fault' : Fault} (h : fault.bare = fault'.bare) :
    ReadsAlike doc doc' L L' id (Reader.record fault) (Reader.record fault') := by
  intro s s' hs
  rw [record_apply, record_apply, H.options]
  exact .ok rfl (hs.withFault _ h)

theorem takeWord (w : Keyword) : ReadsAlike doc doc' L L' id (Reader.takeWord w) (Reader.takeWord w) := by
  intro s s' hs
  rw [takeWord_apply, takeWord_apply, hs.cursor.isWord H.bare w]
  split
  · exact .ok rfl (hs.at (hs.cursor.advance H.bare))
  · exact .ok rfl hs

theorem needMark (m : Mark) : ReadsAlike doc doc' L L' unseen (Reader.needMark m) (Reader.needMark m) := by
  intro s s' hs
  rw [needMark_apply, needMark_apply, hs.cursor.isMark H.bare m]
  split
  · exact .ok rfl (hs.at (hs.cursor.advance H.bare))
  · refine .error ?_ hs
    simp only [Fault.bare, Fault.ofCause, Cause.bare, hs.cursor.kind H.bare]

theorem needWord (w : Keyword) : ReadsAlike doc doc' L L' unseen (Reader.needWord w) (Reader.needWord w) := by
  intro s s' hs
  rw [needWord_apply, needWord_apply, hs.cursor.isWord H.bare w]
  split
  · exact .ok rfl (hs.at (hs.cursor.advance H.bare))
  · refine .error ?_ hs
    simp only [Fault.bare, Fault.ofCause, Cause.bare, hs.cursor.kind H.bare]

theorem unexpected (wanted : Wanted) (advice : Option Advice) :
    ReadsAlike doc doc' L L' Fault.bare (Reader.unexpected wanted advice) (Reader.unexpected wanted advice) := by
  refine .bind .here fun _ _ _ => .bind (.kind H) fun kind kind' same => .pure ?_
  simp only [Fault.bare, Fault.ofCause, Cause.bare, same]

theorem failUnexpected (wanted : Wanted) :
    ReadsAlike doc doc' L L' v (Reader.failUnexpected wanted) (Reader.failUnexpected wanted) :=
  .bind (.unexpected H wanted none) fun _ _ same => .throw same

theorem failAdvised (wanted : Wanted) (advice : Advice) :
    ReadsAlike doc doc' L L' v (Reader.failAdvised wanted advice) (Reader.failAdvised wanted advice) :=
  .bind (.unexpected H wanted (some advice)) fun _ _ same => .throw same

/-- What would follow a fault at the cursor does not matter either. -/
theorem failBind {wanted : Wanted} {advice : Option Advice} {k k' : α → Reader γ} :
    ReadsAlike doc doc' L L' w ((do MonadExcept.throw (← Reader.unexpected wanted advice)) >>= k)
      ((do MonadExcept.throw (← Reader.unexpected wanted advice)) >>= k') := by
  intro s s' hs
  refine .error ?_ hs
  simp only [Fault.bare, Fault.ofCause, Cause.bare]
  exact congrArg (fun kind => Fault.mk (.unexpected wanted kind advice) (.point 0) none) (hs.cursor.kind H.bare)

theorem expr (position : Position) :
    ReadsAlike doc doc' L L' Expr.bare (Reader.expr position) (Reader.expr position) :=
  fun _ _ hs => H.expr position hs

theorem operand (position : Position) :
    ReadsAlike doc doc' L L' Expr.bare (Reader.operand position) (Reader.operand position) :=
  fun _ _ hs => H.operand position hs

theorem block : ReadsAlike doc doc' L L' Block.bare Reader.block Reader.block := fun _ _ hs => H.block hs

theorem type : ReadsAlike doc doc' L L' TypeExpr.bare Reader.type Reader.type := fun _ _ hs => H.type hs

theorem recordLiteral : ReadsAlike doc doc' L L' Expr.bare Reader.recordLiteral Reader.recordLiteral :=
  fun _ _ hs => H.record hs

end

theorem withTokens {tokens tokens' : List Token} (h : SamePlace doc doc' tokens tokens') {r r' : Reader α}
    (inner : ReadsAlike doc doc' L L' v r r') :
    ReadsAlike doc doc' L L' v (JuiceSyntax.withTokens tokens r) (JuiceSyntax.withTokens tokens' r') := by
  intro s s' hs
  have hstart : (Cursor.ofTokens tokens).Alike doc doc' (.ofTokens tokens') := ⟨rfl, h⟩
  rw [withTokens_apply, withTokens_apply]
  exact (inner _ _ (hs.at hstart)).placed hs.cursor

theorem speculate {r r' : Reader α} (tried : ReadsAlike doc doc' L L' v r r') :
    ReadsAlike doc doc' L L' (Option.map v) (JuiceSyntax.speculate r) (JuiceSyntax.speculate r') := by
  intro s s' hs
  rw [speculate_apply, speculate_apply]
  exact (tried s s' hs).speculated hs

/-- The braces remembered are the same ones. -/
theorem contains_failed (H : Level.Alike doc doc' L L') {s s' : State} (hs : s.Alike doc doc' s')
    (hend : s.cursor.atEnd = false) (form : BraceForm) :
    (s.failed form).contains s.cursor.span.start = (s'.failed form).contains s'.cursor.span.start := by
  have ho := hs.cursor.offsets H.bare hend
  have hfailed := hs.failed form
  generalize s.failed form = offsets at hfailed ⊢
  generalize s'.failed form = offsets' at hfailed ⊢
  induction hfailed with
  | nil => rfl
  | cons hfirst hrest ih =>
    rw [List.contains_cons, List.contains_cons, ih]
    congr 1
    rw [Bool.eq_iff_iff, beq_iff_eq, beq_iff_eq]
    exact H.offsets ho hfirst

theorem tryBrace (H : Level.Alike doc doc' L L') (form : BraceForm) {r r' : Reader Expr}
    (tried : ReadsAlike doc doc' L L' Expr.bare r r') : ReadsAlikeMid doc doc' L L' (Option.map Expr.bare)
      (Grammar.tryBrace form r) (Grammar.tryBrace form r') := by
  intro s s' hs hend
  rw [tryBrace_apply, tryBrace_apply, H.remember, contains_failed H hs hend]
  split
  · exact .ok rfl hs
  · exact ((tried s s' hs).speculated hs).noted (hs.cursor.offsets H.bare hend) form

theorem separatedUpTo (H : Level.Alike doc doc' L L') (close : Mark) {item item' : Reader α}
    (one : ReadsAlike doc doc' L L' v item item') (fuel : Nat) :
    ReadsAlike doc doc' L L' (List.map v) (JuiceSyntax.separatedUpTo close item fuel)
      (JuiceSyntax.separatedUpTo close item' fuel) := by
  induction fuel with
  | zero => exact .pure rfl
  | succ fuel ih =>
    refine .bindSame (.atMark H close) fun _ => .ite (.pure rfl) (.bind one fun first first' hfirst => ?_)
    refine .bindSame (.takeMark H .comma) fun _ => .ite (.bind ih fun rest rest' hrest => .pure ?_) (.pure ?_)
    · rw [List.map_cons, List.map_cons, hfirst, hrest]
    · rw [List.map_cons, List.map_cons, hfirst, List.map_nil]

theorem separated (H : Level.Alike doc doc' L L') (close : Mark) {item item' : Reader α}
    (one : ReadsAlike doc doc' L L' v item item') :
    ReadsAlike doc doc' L L' (List.map v) (JuiceSyntax.separated close item) (JuiceSyntax.separated close item') :=
  .bindSame (.tokensLeft H) fun _ => .separatedUpTo H close one _

theorem recoveringUpTo (H : Level.Alike doc doc' L L') {resume : Resume} (hblind : resume.Blind) {ends : Kind → Bool}
    (hends : ∀ kind, ends kind.bare = ends kind) {item item' : Reader α}
    (one : ReadsAlike doc doc' L L' v item item') (fuel : Nat) :
    ReadsAlike doc doc' L L' (List.map v) (JuiceSyntax.recoveringUpTo resume ends item fuel)
      (JuiceSyntax.recoveringUpTo resume ends item' fuel) := by
  induction fuel with
  | zero => exact .pure rfl
  | succ fuel ih =>
    intro s s' hs
    rw [recoveringUpTo_succ, recoveringUpTo_succ, ← hends s.cursor.kind, hs.cursor.kind H.bare, hends,
      hs.cursor.atEnd H.bare, hs.halted]
    split
    · exact .ok rfl hs
    · have hone := one s s' hs
      generalize item L s = ending at hone ⊢
      generalize item' L' s' = ending' at hone ⊢
      cases hone with
      | ok same states =>
        simp only [Ending.caught, Ending.andThen_ok, turned]
        refine (ih _ _ states).andThen fun rest rest' t t' hrest ht => .ok ?_ ht
        rw [List.map_cons, List.map_cons, same, hrest]
      | error same states =>
        simp only [Ending.caught, Ending.andThen_ok, turned, State.resumed]
        rw [H.options]
        exact ih _ _ ((states.withFault _ same).recovered H.bare hblind hs.cursor.pos)

theorem recovering (H : Level.Alike doc doc' L L') {resume : Resume} (hblind : resume.Blind) {ends : Kind → Bool}
    (hends : ∀ kind, ends kind.bare = ends kind) {item item' : Reader α}
    (one : ReadsAlike doc doc' L L' v item item') :
    ReadsAlike doc doc' L L' (List.map v) (JuiceSyntax.recovering resume ends item)
      (JuiceSyntax.recovering resume ends item') :=
  .bindSame (.tokensLeft H) fun _ => .recoveringUpTo H hblind hends one _

end ReadsAlike

end JuiceSyntax
