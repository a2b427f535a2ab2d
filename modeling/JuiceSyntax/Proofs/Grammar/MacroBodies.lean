/-
  Macro bodies are noted as they are read. A reading that comes through without a fault notes
  exactly the bodies in what it gives, in their order: what speculations noted is taken back
  with them. `Notes L pre r bodies` says so of a reader `r` whose result holds the bodies
  `pre`, which were noted before, and those that `r` notes, which stand in the tokens that it
  consumes.

  `readItems_notes`, `readExpr_notes`: for a program or an expression without faults the notes are
  the macro bodies of the tree, and these stand in its tokens.
-/
import JuiceSyntax.Proofs.Grammar.Embedding
import JuiceSyntax.Proofs.Tree.MacroBodies

namespace JuiceSyntax

open Reader Grammar

/-- Without a fault, `r` adds to the notes what its result holds after `pre`. Where these bodies are, from
the place where `r` begins to that where it ends, is said by `how`. -/
structure NotesBy (how : Cursor → List MacroBody → Cursor → Prop) (L : Level) (pre : List MacroBody) {α : Type}
    (r : Reader α) (bodies : α → List MacroBody) : Prop where
  grows : ∀ s, Grows s (Ending.state (r L s))
  notes : ∀ {s a s'}, s.halted = false → r L s = .ok a s' → s'.faults = s.faults →
    ∃ new, bodies a = pre ++ new ∧ s'.macroBodies = s.macroBodies ++ new.map (·.inner) ∧ how s.cursor new s'.cursor

/-- The bodies that are added stand in the tokens that are consumed. -/
abbrev Notes (L : Level) (pre : List MacroBody) {α : Type} (r : Reader α) (bodies : α → List MacroBody) : Prop :=
  NotesBy Consumed L pre r bodies

/-- A reader whose result holds no bodies. -/
abbrev Quiet (L : Level) {α : Type} (r : Reader α) : Prop := Notes L [] r fun _ => []

variable {L : Level} {pre : List MacroBody} {α β : Type} {how how' how'' : Cursor → List MacroBody → Cursor → Prop}

/-- Between two states with the same faults a reading is not halted and adds none. -/
theorem Grows.between {s t u : State} (h : Grows s t) (h' : Grows t u) (hs : s.halted = false)
    (heq : u.faults = s.faults) : t.halted = false ∧ t.faults = s.faults ∧ u.faults = t.faults := by
  have hle := h.faults.length_le
  have hle' := h'.faults.length_le
  rw [heq] at hle'
  have ht : t.faults = s.faults := (h.faults.eq_of_length (by omega)).symm
  refine ⟨?_, ht, heq.trans ht.symm⟩
  cases hh : t.halted with
  | false => rfl
  | true =>
    obtain h | hlt := h.halting hh
    · exact absurd (hs.symm.trans h) (by decide)
    · omega

namespace NotesBy

/-! ## Wherever the bodies are -/

theorem throw {fault : Fault} {bodies : α → List MacroBody} : NotesBy how L pre (throw fault : Reader α) bodies where
  grows := .refl
  notes _ hr _ := nomatch hr

theorem throwThen {fault : Fault} {k : β → Reader α} {bodies : α → List MacroBody} :
    NotesBy how L pre ((MonadExcept.throw fault : Reader β) >>= k) bodies where
  grows := .refl
  notes _ hr _ := nomatch hr

theorem ite {c : Prop} [Decidable c] {r r' : Reader α} {bodies : α → List MacroBody} (h : NotesBy how L pre r bodies)
    (h' : NotesBy how L pre r' bodies) : NotesBy how L pre (if c then r else r') bodies := by
  split
  · exact h
  · exact h'

theorem imp {r : Reader α} {bodies : α → List MacroBody} (h : NotesBy how L pre r bodies)
    (himp : ∀ {c new d}, how c new d → how' c new d) : NotesBy how' L pre r bodies where
  grows := h.grows
  notes hs hr heq := by
    obtain ⟨new, hnew, hbodies, hhow⟩ := h.notes hs hr heq
    exact ⟨new, hnew, hbodies, himp hhow⟩

/-- A step whose result holds `mid`, noted before, and what follows a result it can give. -/
theorem compose {r : Reader α} {k : α → Reader β} {mid : List MacroBody} {first : α → List MacroBody}
    {bodies : β → List MacroBody} (h : NotesBy how L mid r first)
    (hcomp : ∀ {c d e new new'}, how c new d → how' d new' e → how'' c (new ++ new') e)
    (h' : ∀ a s t, r L s = .ok a t → NotesBy how' L (pre ++ first a) (k a) bodies) :
    NotesBy how'' L (pre ++ mid) (r >>= k) bodies where
  grows s := by
    rw [bind_apply]
    have hgrows := h.grows s
    cases hfirst : r L s with
    | error fault t =>
      rw [hfirst] at hgrows
      exact hgrows
    | ok a t =>
      rw [hfirst] at hgrows
      exact hgrows.trans ((h' a s t hfirst).grows t)
  notes {s b u} hs hr heq := by
    obtain ⟨a, t, hfirst, hr⟩ := ok_of_bind hr
    have hk := h' a s t hfirst
    have hgrows := h.grows s
    have hgrows' := hk.grows t
    rw [hfirst, Ending.state_ok] at hgrows
    rw [hr, Ending.state_ok] at hgrows'
    obtain ⟨ht, htf, huf⟩ := hgrows.between hgrows' hs heq
    obtain ⟨new, hnew, hbodies, hhow⟩ := h.notes hs hfirst htf
    obtain ⟨new', hnew', hbodies', hhow'⟩ := hk.notes ht hr huf
    refine ⟨new ++ new', ?_, ?_, hcomp hhow hhow'⟩
    · rw [hnew', hnew, List.append_assoc, List.append_assoc, List.append_assoc]
    · rw [hbodies', hbodies, List.map_append, List.append_assoc]

/-- A step, and what follows. -/
theorem thenBy {r : Reader α} {k : α → Reader β} {first : α → List MacroBody} {bodies : β → List MacroBody}
    (h : NotesBy how L [] r first) (hcomp : ∀ {c d e new new'}, how c new d → how' d new' e → how'' c (new ++ new') e)
    (h' : ∀ a, NotesBy how' L (pre ++ first a) (k a) bodies) : NotesBy how'' L pre (r >>= k) bodies := by
  have hcompose : NotesBy how'' L (pre ++ []) (r >>= k) bodies := h.compose hcomp fun a _ _ _ => h' a
  rwa [List.append_nil] at hcompose

/-- A value at hand, for which nothing is read. -/
theorem idle {a : α} {bodies : α → List MacroBody} (h : bodies a = pre) :
    NotesBy (fun c new d => new = [] ∧ d = c) L pre (Pure.pure a) bodies where
  grows := .refl
  notes _ hr _ := by
    cases hr
    exact ⟨[], by rw [h, List.append_nil], by rw [List.map_nil, List.append_nil], rfl, rfl⟩

/-- A value that is made of a result, with the bodies of that. -/
theorem giving {r : Reader α} (f : α → β) {first : α → List MacroBody} {bodies : β → List MacroBody}
    (h : NotesBy how L [] r first) (heq : ∀ a, bodies (f a) = pre ++ first a) :
    NotesBy how L pre (r >>= fun a => Pure.pure (f a)) bodies := by
  refine h.thenBy ?_ fun a => .idle (heq a)
  rintro c d _ new _ hhow ⟨rfl, rfl⟩
  rwa [List.append_nil]

/-- A fault that is recorded shows; nothing is said of what follows. -/
theorem record {fault : Fault} {k : Unit → Reader α} {bodies : α → List MacroBody}
    (h : ∀ s, Grows s (Ending.state (k () L s))) : NotesBy how L pre (Reader.record fault >>= k) bodies where
  grows s := by
    rw [bind_apply, record_apply]
    exact (Grows.withFault L.options fault s).trans (h _)
  notes {s a s'} hs hr heq := by
    rw [bind_apply, record_apply, Ending.andThen_ok] at hr
    have hgrows := h (s.withFault L.options fault)
    rw [hr] at hgrows
    have hlt := length_lt_withFault L.options fault hs
    have hle := hgrows.faults.length_le
    rw [Ending.state_ok, heq] at hle
    omega

/-- The current token is consumed. -/
theorem advances : NotesBy (fun c new d => new = [] ∧ d = c.advance) L [] Reader.advance fun _ => [] where
  grows s := .skip s 1
  notes _ hr _ := by
    cases hr
    exact ⟨[], rfl, by rw [List.map_nil, List.append_nil], rfl, rfl⟩

/-! ## Steps -/

theorem pure {a : α} {bodies : α → List MacroBody} (h : bodies a = pre) : Notes L pre (Pure.pure a) bodies := by
  refine (idle h).imp ?_
  rintro c new d ⟨rfl, rfl⟩
  exact .refl _

theorem extendOf {r : Reader α} {k : α → Reader β} {mid : List MacroBody} {first : α → List MacroBody}
    {bodies : β → List MacroBody} (h : Notes L mid r first)
    (h' : ∀ a s t, r L s = .ok a t → Notes L (pre ++ first a) (k a) bodies) :
    Notes L (pre ++ mid) (r >>= k) bodies :=
  h.compose Consumed.trans h'

theorem extend {r : Reader α} {k : α → Reader β} {mid : List MacroBody} {first : α → List MacroBody}
    {bodies : β → List MacroBody} (h : Notes L mid r first) (h' : ∀ a, Notes L (pre ++ first a) (k a) bodies) :
    Notes L (pre ++ mid) (r >>= k) bodies :=
  h.extendOf fun a _ _ _ => h' a

theorem bind {r : Reader α} {k : α → Reader β} {first : α → List MacroBody} {bodies : β → List MacroBody}
    (h : Notes L [] r first) (h' : ∀ a, Notes L (pre ++ first a) (k a) bodies) : Notes L pre (r >>= k) bodies :=
  h.thenBy Consumed.trans h'

/-- A step without bodies, and what follows. -/
theorem next {r : Reader α} {k : α → Reader β} {bodies : β → List MacroBody} (h : Quiet L r)
    (h' : ∀ a, Notes L pre (k a) bodies) : Notes L pre (r >>= k) bodies :=
  bind h fun a => by simpa using h' a

/-- A value at hand, and what follows. -/
theorem known {a : α} {k : α → Reader β} {bodies : β → List MacroBody} (h : Notes L pre (k a) bodies) :
    Notes L pre (Pure.pure a >>= k) bodies :=
  ⟨h.grows, h.notes⟩

theorem cursor {k : Cursor → Reader α} {bodies : α → List MacroBody} (h : ∀ c, Notes L pre (k c) bodies) :
    Notes L pre (Reader.cursor >>= k) bodies where
  grows s := (h s.cursor).grows s
  notes {s _ _} hs hr heq := (h s.cursor).notes hs hr heq

/-- A look at the current token; of a string it is known where its pieces are read. -/
theorem onString {k : Kind → Reader β} {bodies : β → List MacroBody}
    (hstring : ∀ multiline pieces, NotesBy (fun c new d => c.kind = .str multiline pieces → Consumed c new d) L pre
      (k (.str multiline pieces)) bodies)
    (hother : ∀ kind, (∀ multiline pieces, kind ≠ .str multiline pieces) → Notes L pre (k kind) bodies) :
    Notes L pre (Reader.kind >>= k) bodies := by
  have here (c : Cursor) : NotesBy (fun c' new d => c' = c → Consumed c' new d) L pre (k c.kind) bodies := by
    by_cases hkind : ∃ multiline pieces, c.kind = .str multiline pieces
    · obtain ⟨multiline, pieces, hkind⟩ := hkind
      have hbodies := hstring multiline pieces
      rw [← hkind] at hbodies
      exact hbodies.imp fun hconsumed heq => hconsumed (by rw [heq, hkind])
    · have hbodies := hother c.kind fun multiline pieces heq => hkind ⟨multiline, pieces, heq⟩
      exact hbodies.imp fun hconsumed _ => hconsumed
  refine ⟨fun s => (here s.cursor).grows s, fun {s _ _} hs hr heq => ?_⟩
  obtain ⟨new, hnew, hnotes, hconsumed⟩ := (here s.cursor).notes hs hr heq
  exact ⟨new, hnew, hnotes, hconsumed rfl⟩

/-- A step that leaves faults and notes as they are. -/
theorem still {r : Reader α} (h : ∀ s, ∃ a n, r L s = .ok a { s with cursor := s.cursor.skip n }) : Quiet L r where
  grows s := by
    obtain ⟨a, n, hr⟩ := h s
    rw [hr]
    exact .skip s n
  notes {s _ _} _ hr _ := by
    obtain ⟨a, n, hr'⟩ := h s
    rw [hr'] at hr
    cases hr
    exact ⟨[], rfl, by rw [List.map_nil, List.append_nil], .skip _ n⟩

theorem advance : Quiet L Reader.advance := still fun _ => ⟨_, 1, rfl⟩

theorem skip (n : Nat) : Quiet L (JuiceSyntax.skip n) := still fun _ => ⟨_, n, rfl⟩

theorem spanFrom (start : Span) : Quiet L (Reader.spanFrom start) := still fun _ => ⟨_, 0, rfl⟩

theorem halted : Quiet L Reader.halted := still fun _ => ⟨_, 0, rfl⟩

theorem kind : Quiet L Reader.kind := still fun _ => ⟨_, 0, rfl⟩

theorem here : Quiet L Reader.here := still fun _ => ⟨_, 0, rfl⟩

theorem peek (n : Nat) : Quiet L (Reader.peek n) := still fun _ => ⟨_, 0, rfl⟩

theorem atEnd : Quiet L Reader.atEnd := still fun _ => ⟨_, 0, rfl⟩

theorem atMark (m : Mark) : Quiet L (Reader.atMark m) := still fun _ => ⟨_, 0, rfl⟩

theorem tokensLeft : Quiet L JuiceSyntax.tokensLeft := still fun _ => ⟨_, 0, rfl⟩

/-- What is given up leaves no note. -/
theorem speculated {r : Reader α} {bodies : α → List MacroBody} (h : Notes L [] r bodies) {s s' : State}
    {found : Option α} (hs : s.halted = false) (hr : JuiceSyntax.speculated s (r L s) = .ok found s')
    (heq : s'.faults = s.faults) :
    ∃ new, found.elim [] bodies = [] ++ new ∧ s'.macroBodies = s.macroBodies ++ new.map (·.inner) ∧
      Consumed s.cursor new s'.cursor := by
  obtain ⟨fault, -, h'⟩ | ⟨a, t, hread, -, h'⟩ | h' := speculated_cases s (r L s)
  · rw [h'] at hr
    cases hr
  · rw [h'] at hr
    cases hr
    exact h.notes hs hread heq
  · rw [h', rewind_eq (h.grows s)] at hr
    cases hr
    exact ⟨[], rfl, by rw [List.map_nil, List.append_nil], .refl _⟩

theorem speculate {r : Reader α} {bodies : α → List MacroBody} (h : Notes L [] r bodies) :
    Notes L [] (JuiceSyntax.speculate r) fun found => found.elim [] bodies where
  grows s := by
    rw [speculate_apply]
    exact (grows_steady inherited_true L.options).speculated (h.grows s)
  notes {s a s'} hs hr heq := by
    rw [speculate_apply] at hr
    exact h.speculated hs hr heq

theorem tryBrace {form : BraceForm} {r : Reader Expr} (h : Notes L [] r Expr.macroBodies) :
    Notes L [] (Grammar.tryBrace form r) optionalExprBodies where
  grows s := by
    rw [tryBrace_apply]
    split
    · exact .refl s
    · exact (grows_steady inherited_true L.options).noted form (h.grows s) trivial
  notes {s found s'} hs hr heq := by
    rw [tryBrace_apply] at hr
    split at hr
    · cases hr
      exact ⟨[], rfl, by rw [List.map_nil, List.append_nil], .refl _⟩
    · cases ht : JuiceSyntax.speculated s (r L s) with
      | error fault t =>
        rw [ht] at hr
        cases hr
      | ok found' t =>
        rw [ht] at hr
        cases found' with
        | some e =>
          cases hr
          exact h.speculated hs ht heq
        | none =>
          cases hr
          cases form with
          | record => exact h.speculated hs ht heq
          | block => exact h.speculated hs ht heq

theorem withTokens {tokens : List Token} {r : Reader α} {bodies : α → List MacroBody} (h : Notes L [] r bodies) :
    NotesBy (Staying (FoundIn tokens)) L [] (JuiceSyntax.withTokens tokens r) bodies where
  grows s := by
    rw [withTokens_apply, Ending.state_placed]
    exact (h.grows _).inTokens
  notes {s a s'} hs hr heq := by
    rw [withTokens_apply] at hr
    cases ht : r L { s with cursor := .ofTokens tokens } with
    | error fault t =>
      rw [ht] at hr
      cases hr
    | ok a' t =>
      rw [ht] at hr
      cases hr
      obtain ⟨new, hnew, hnotes, hconsumed⟩ :=
        h.notes (show ({ s with cursor := .ofTokens tokens } : State).halted = false from hs) ht heq
      exact ⟨new, hnew, hnotes, rfl, hconsumed.foundIn⟩

/-- A turn that fails shows among the faults. -/
theorem recoveringUpTo {item : Reader α} {bodies : α → List MacroBody} (h : Notes L [] item bodies)
    (resume : Resume) (ends : Kind → Bool) (fuel : Nat) :
    Notes L [] (JuiceSyntax.recoveringUpTo resume ends item fuel) fun items => items.flatMap bodies := by
  induction fuel with
  | zero => exact .pure rfl
  | succ fuel ih =>
    have hgrows := recoveringUpTo_steady (grows_steady inherited_true L.options) (fun s _ => h.grows s) resume ends
    refine ⟨fun s => hgrows (fuel + 1) s trivial, fun {s items s'} hs hr heq => ?_⟩
    rw [recoveringUpTo_succ] at hr
    split at hr
    · cases hr
      exact ⟨[], rfl, by rw [List.map_nil, List.append_nil], .refl _⟩
    have hgrows := h.grows s
    cases hitem : item L s with
    | error fault t =>
      rw [hitem] at hr hgrows
      rw [Ending.state_error] at hgrows
      have hresumed := Grows.resumed L.options s.cursor resume fault t
      have hrest := ih.grows (t.resumed L.options s.cursor resume fault)
      simp only [Ending.caught, Ending.andThen_ok, turned] at hr
      rw [hr] at hrest
      obtain ⟨ht, htf, hlast⟩ := hgrows.between (hresumed.trans hrest) hs heq
      have hlt := length_lt_resumed L.options s.cursor resume fault ht
      have hle := hrest.faults.length_le
      rw [hlast] at hle
      omega
    | ok first t =>
      have hseq : Notes L [] (item >>= fun first => JuiceSyntax.recoveringUpTo resume ends item fuel >>= fun rest =>
          Pure.pure (first :: rest)) fun items => items.flatMap bodies :=
        h.bind fun first => ih.bind fun rest => .pure (by simp)
      refine hseq.notes hs ?_ heq
      rw [hitem] at hr
      simp only [bind_apply, hitem, Ending.andThen_ok, pure_apply]
      exact hr

theorem recovering {item : Reader α} {bodies : α → List MacroBody} (h : Notes L [] item bodies)
    (resume : Resume) (ends : Kind → Bool) :
    Notes L [] (JuiceSyntax.recovering resume ends item) fun items => items.flatMap bodies :=
  next tokensLeft fun _ => h.recoveringUpTo resume ends _

/-! ## Forms -/

theorem cast {r : Reader α} {pre' : List MacroBody} {bodies : α → List MacroBody} (h : Notes L pre' r bodies)
    (heq : pre' = pre) : Notes L pre r bodies :=
  heq ▸ h

theorem relabel {r : Reader α} {bodies bodies' : α → List MacroBody} (h : Notes L pre r bodies)
    (heq : ∀ a, bodies' a = bodies a) : Notes L pre r bodies' :=
  (funext heq : bodies' = bodies) ▸ h

/-- Two ways to a value that is then used. -/
theorem iteBind {c : Prop} [Decidable c] {r r' : Reader α} {k : α → Reader β} {first : α → List MacroBody}
    {bodies : β → List MacroBody} (h : Notes L [] r first) (h' : Notes L [] r' first)
    (next : ∀ a, Notes L (pre ++ first a) (k a) bodies) :
    Notes L pre (if c then r >>= k else r' >>= k) bodies :=
  .ite (.bind h next) (.bind h' next)

/-- A check that fails, or nothing, and what follows. -/
theorem unlessBind {c : Prop} [Decidable c] {r : Reader Unit} {k : Unit → Reader β} {bodies : β → List MacroBody}
    (h : Quiet L r) (next : ∀ a, Notes L pre (k a) bodies) :
    Notes L pre (if c then k () else r >>= k) bodies :=
  .ite (next ()) (.next h next)

theorem whenBind {c : Prop} [Decidable c] {r : Reader Unit} {k : Unit → Reader β} {bodies : β → List MacroBody}
    (h : Quiet L r) (next : ∀ a, Notes L pre (k a) bodies) :
    Notes L pre (if c then r >>= k else k ()) bodies :=
  .ite (.next h next) (next ())

theorem map {r : Reader α} (f : α → β) {first : α → List MacroBody} {bodies : β → List MacroBody}
    (h : Notes L [] r first) (heq : ∀ a, bodies (f a) = pre ++ first a) : Notes L pre (f <$> r) bodies :=
  h.giving f heq

theorem takeMark (m : Mark) : Quiet L (Reader.takeMark m) :=
  .next (.atMark m) fun _ => .ite (.next .advance fun _ => .pure rfl) (.pure rfl)

theorem takeWord (w : Keyword) : Quiet L (Reader.takeWord w) :=
  .next .kind fun _ => .ite (.next .advance fun _ => .pure rfl) (.pure rfl)

theorem unexpected (wanted : Wanted) (advice : Option Advice) : Quiet L (Reader.unexpected wanted advice) :=
  .next .here fun _ => .next .kind fun _ => .pure rfl

theorem failUnexpected {bodies : α → List MacroBody} (wanted : Wanted) :
    Notes L pre (Reader.failUnexpected wanted) bodies :=
  .next (.unexpected wanted none) fun _ => .throw

theorem failAdvised {bodies : α → List MacroBody} (wanted : Wanted) (advice : Advice) :
    Notes L pre (Reader.failAdvised wanted advice) bodies :=
  .next (.unexpected wanted advice) fun _ => .throw

theorem needMark (m : Mark) : Quiet L (Reader.needMark m) :=
  .next (.atMark m) fun _ => .ite (.next .advance fun _ => .pure rfl)
    (.next .here fun _ => .next .kind fun _ => .throw)

theorem needWord (w : Keyword) : Quiet L (Reader.needWord w) :=
  .next .kind fun _ => .ite (.next .advance fun _ => .pure rfl)
    (.next .here fun _ => .next .kind fun _ => .throw)

theorem separatedUpTo {item : Reader α} {bodies : α → List MacroBody} (close : Mark) (h : Notes L [] item bodies)
    (fuel : Nat) : Notes L [] (JuiceSyntax.separatedUpTo close item fuel) fun items => items.flatMap bodies := by
  induction fuel with
  | zero => exact .pure rfl
  | succ fuel ih =>
    refine .next (.atMark close) fun _ => .ite (.pure rfl) (.bind h fun _ => .next (.takeMark _) fun _ => .ite ?_ ?_)
    · exact .bind ih fun _ => .pure (by simp)
    · exact .pure (by simp)

theorem separated {item : Reader α} {bodies : α → List MacroBody} (close : Mark) (h : Notes L [] item bodies) :
    Notes L [] (JuiceSyntax.separated close item) fun items => items.flatMap bodies :=
  .next .tokensLeft fun _ => .separatedUpTo close h _

end NotesBy

/-- The readers of a level note what they give. -/
structure Level.Notes (L : Level) : Prop where
  expr : ∀ position, JuiceSyntax.Notes L [] (Reader.expr position) Expr.macroBodies
  operand : ∀ position, JuiceSyntax.Notes L [] (Reader.operand position) Expr.macroBodies
  block : JuiceSyntax.Notes L [] Reader.block Block.macroBodies
  type : JuiceSyntax.Notes L [] Reader.type TypeExpr.macroBodies
  record : JuiceSyntax.Notes L [] Reader.recordLiteral Expr.macroBodies

theorem Level.Notes.levelGrows (hL : L.Notes) : L.Grows :=
  ⟨fun position s _ => (hL.expr position).grows s, fun position s _ => (hL.operand position).grows s,
    fun s _ => hL.block.grows s, fun s _ => hL.type.grows s, fun s _ => hL.record.grows s⟩

namespace Grammar

open NotesBy

/-! ## Literals -/

/-- The bodies in a fragment stand in its tokens. -/
theorem notes_fragment (hL : L.Notes) (tokens : List Token) (span : Span) :
    NotesBy (Staying (FoundIn tokens)) L [] (fragment tokens span) Expr.macroBodies := by
  unfold fragment
  refine .ite .throwThen (.withTokens (.bind (hL.expr _) fun _ => .next .atEnd fun _ => ?_))
  exact .unlessBind (.failAdvised _ _) fun _ => .pure rfl

theorem notes_segments (hL : L.Notes) (pieces : List Piece) :
    NotesBy (Staying (Embedded (.pieces pieces))) L [] (segments pieces) segmentBodies := by
  induction pieces with
  | nil =>
    have hidle : NotesBy (fun c new d => new = [] ∧ d = c) L [] (segments []) segmentBodies := .idle rfl
    refine hidle.imp ?_
    rintro c new d ⟨rfl, rfl⟩
    exact ⟨rfl, .nil _⟩
  | cons piece rest ih =>
    have hrest : NotesBy (Staying (Embedded (.pieces (piece :: rest)))) L [] (segments rest) segmentBodies :=
      ih.imp fun hfound => ⟨hfound.1, .piece piece hfound.2⟩
    cases piece with
    | text text span => exact hrest.giving _ fun _ => rfl
    | escape value raw span => exact hrest.giving _ fun _ => rfl
    | fragment tokens span =>
      refine (notes_fragment hL tokens span).thenBy ?_ fun inner => ih.giving _ fun _ => rfl
      rintro c d e new new' ⟨rfl, range, back, rfl, hundone, hfound⟩ ⟨rfl, hfound'⟩
      exact ⟨rfl, .fragment span hundone hfound hfound'⟩
    | indent span => exact hrest

/-- Where a string is read, the bodies in it stand in its pieces. -/
theorem notes_stringLiteral (hL : L.Notes) (multiline : Bool) (pieces : List Piece) :
    NotesBy (fun c new d => c.kind = .str multiline pieces → Consumed c new d) L [] (stringLiteral multiline pieces)
      Expr.macroBodies := by
  refine NotesBy.thenBy .advances ?_ fun token => (notes_segments hL pieces).giving _ fun _ => rfl
  rintro c d e _ new ⟨rfl, rfl⟩ ⟨rfl, hfound⟩ hkind
  exact .of_pieces hkind hfound

theorem notes_listLiteral (hL : L.Notes) : Notes L [] listLiteral Expr.macroBodies :=
  .next (.needMark _) fun _ => .bind (.separated _ (hL.expr _)) fun items => .next (.needMark _) fun _ =>
    .pure (exprBodies_eq_flatMap items)

theorem notes_atom {kind : ExprKind} (h : kind.macroBodies = []) : Notes L [] (atom kind) Expr.macroBodies :=
  .next .advance fun _ => .pure h

theorem quiet_argLabel : Quiet L argLabel := by
  refine .next .kind fun _ => .next (.peek 1) fun _ => ?_
  split
  · exact .next (.skip 2) fun _ => .pure rfl
  · exact .pure rfl

/-! ## Functions and parameters -/

theorem quiet_name : Quiet L name := by
  refine .next .kind fun _ => ?_
  split
  · exact .next .advance fun _ => .pure rfl
  · exact .failUnexpected _

theorem quiet_anyName : Quiet L anyName := by
  refine .next .kind fun _ => ?_
  split
  · exact .next .advance fun _ => .pure rfl
  · exact .next .advance fun _ => .pure rfl
  · exact .failUnexpected _

theorem notes_param (hL : L.Notes) {named : Reader (String × Span)} (h : Quiet L named) :
    Notes L [] (param named) Param.macroBodies :=
  .next h fun _ => .next (.takeMark _) fun _ => .ite (.bind hL.type fun _ => .pure rfl) (.pure rfl)

theorem notes_params (hL : L.Notes) {named : Reader (String × Span)} (h : Quiet L named) :
    Notes L [] (params named) paramBodies :=
  .next (.needMark _) fun _ => .bind (.separated _ (notes_param hL h)) fun items => .next (.needMark _) fun _ =>
    .pure (paramBodies_eq_flatMap items)

theorem quiet_fnName : Quiet L fnName := by
  refine .next .kind fun _ => ?_
  split
  · exact .next .advance fun _ => .pure rfl
  · exact .next .advance fun _ => .pure rfl
  · exact .pure rfl

theorem notes_fnDecl (hL : L.Notes) : Notes L [] fnDecl FnDecl.macroBodies :=
  .next .here fun _ => .next (.takeWord _) fun _ => .next (.needWord _) fun _ => .next quiet_fnName fun _ =>
    .next (.atMark _) fun _ => .iteBind (notes_params hL quiet_name) (.pure rfl) fun _ =>
    .next (.takeMark _) fun _ => .iteBind (.map _ hL.type fun _ => rfl) (.pure rfl) fun _ =>
    .bind hL.block fun _ => .next (.spanFrom _) fun _ => .pure rfl

/-! ## Types -/

theorem notes_typeArg (hL : L.Notes) : Notes L [] typeArg TypeArg.macroBodies :=
  .next .here fun _ => .next quiet_argLabel fun _ => .bind hL.type fun _ => .pure rfl

theorem notes_typeCall (hL : L.Notes) (callee : String) (calleeSpan : Span) :
    Notes L [] (typeCall callee calleeSpan) TypeExpr.macroBodies :=
  .next (.needMark _) fun _ => .bind (.separated _ (notes_typeArg hL)) fun args => .next (.needMark _) fun _ =>
    .pure (typeArgBodies_eq_flatMap args)

theorem notes_typeParens (hL : L.Notes) : Notes L [] typeParens TypeExpr.macroBodies := by
  unfold typeParens
  refine .next (.needMark _) fun _ => .next (.atMark _) fun _ => ?_
  refine .whenBind (.failAdvised _ _) fun _ => .bind hL.type fun first => .next (.takeMark _) fun _ => ?_
  refine .ite (.next (.atMark _) fun _ => .ite ?_ ?_) (.next (.needMark _) fun _ => .pure rfl)
  · exact .next .advance fun _ => .record .refl
  · refine .bind (.separated _ hL.type) fun rest => .next (.needMark _) fun _ => .pure ?_
    exact congrArg (first.macroBodies ++ ·) (typeBodies_eq_flatMap rest)

theorem notes_typeOfName (hL : L.Notes) (text : String) {kind : TypeKind} (h : kind.macroBodies = []) :
    Notes L [] (typeOfName text kind) TypeExpr.macroBodies :=
  .next .advance fun _ => .next (.atMark _) fun _ => .ite (notes_typeCall hL _ _) (.pure h)

theorem notes_literalType {literal : Reader Expr} (h : Notes L [] literal Expr.macroBodies) :
    Notes L [] (literalType literal) TypeExpr.macroBodies :=
  .bind h fun _ => .pure rfl

theorem notes_typeAtom (hL : L.Notes) : Notes L [] typeAtom TypeExpr.macroBodies := by
  refine .onString (fun multiline pieces => (notes_stringLiteral hL multiline pieces).giving _ fun _ => rfl)
    fun kind hother => ?_
  split
  · refine notes_typeOfName hL _ ?_
    cases BuiltinType.ofName? _ <;> rfl
  · exact notes_typeOfName hL _ rfl
  · exact notes_literalType (notes_atom rfl)
  · exact notes_literalType (notes_atom rfl)
  · exact notes_literalType (notes_atom rfl)
  · exact absurd rfl (hother _ _)
  · exact notes_literalType (notes_listLiteral hL)
  · exact notes_typeParens hL
  · exact .failUnexpected _

theorem notes_typeRestUpTo (hL : L.Notes) (left : TypeExpr) (fuel : Nat) :
    Notes L left.macroBodies (typeRestUpTo left fuel) TypeExpr.macroBodies := by
  induction fuel generalizing left with
  | zero => exact .pure rfl
  | succ fuel ih =>
    refine .next .kind fun _ => ?_
    split
    · exact .next .advance fun _ => .bind (notes_typeAtom hL) fun _ => (ih _).cast rfl
    · exact .pure rfl

theorem notes_typeExpr (hL : L.Notes) : Notes L [] typeExpr TypeExpr.macroBodies :=
  .bind (notes_typeAtom hL) fun _ => .next .tokensLeft fun _ => notes_typeRestUpTo hL _ _

/-! ## Arguments, macros and parentheses -/

theorem notes_arg (hL : L.Notes) : Notes L [] arg Arg.macroBodies :=
  .next .here fun _ => .next quiet_argLabel fun _ => .bind (hL.expr _) fun _ => .pure rfl

theorem notes_args (hL : L.Notes) : Notes L [] args fun result => argBodies result.1 :=
  .next (.needMark _) fun _ => .bind (.separated _ (notes_arg hL)) fun items => .next (.needMark _) fun _ =>
    .pure (argBodies_eq_flatMap items)

/-- The one reader that notes a body gives it. -/
theorem notes_macroBody (hL : L.Notes) : Notes L [] macroBody fun body => [body] where
  grows s := composed_macroBody.steady (grows_steady inherited_true L.options) hL.levelGrows s trivial
  notes {_ body _} _ hr _ := by
    obtain ⟨hconsumed, hnoted⟩ := macroBody_ok hr
    exact ⟨[body], rfl, hnoted, hconsumed⟩

theorem notes_macroCall (hL : L.Notes) (text : String) (position : Position) :
    Notes L [] (macroCall text position) Expr.macroBodies := by
  refine .next .advance fun _ => .next (.atMark _) fun _ =>
    .iteBind (notes_args hL) (.pure rfl) fun _ => .next (.atMark _) fun _ => .ite ?_ ?_
  · exact .bind (notes_macroBody hL) fun _ => .pure rfl
  · exact .ite (.pure (List.append_nil _)) (.failUnexpected _)

theorem notes_parens (hL : L.Notes) : Notes L [] parens Expr.macroBodies := by
  unfold parens
  refine .next (.needMark _) fun _ => .next (.atMark _) fun _ => ?_
  refine .whenBind (.failAdvised _ _) fun _ => .bind (hL.expr _) fun first => .next (.takeMark _) fun _ => ?_
  refine .ite (.next (.atMark _) fun _ => .ite ?_ ?_) (.next (.needMark _) fun _ => .pure rfl)
  · exact .next .advance fun _ => .record .refl
  · refine .bind (.separated _ (hL.expr _)) fun rest => .next (.needMark _) fun _ => .pure ?_
    exact congrArg (first.macroBodies ++ ·) (exprBodies_eq_flatMap rest)

/-! ## Braces -/

theorem notes_blockExpr (hL : L.Notes) : Notes L [] blockExpr Expr.macroBodies := .bind hL.block fun _ => .pure rfl

theorem notes_unresolvable : Notes L [] unresolvable Expr.macroBodies :=
  .next .here fun _ => .cursor fun _ => .next (.skip _) fun _ => .next (.spanFrom _) fun _ => .record .refl

/-- A brace tried as one form and then as something else. -/
theorem notes_tryBrace_else (form : BraceForm) {r otherwise : Reader Expr} (h : Notes L [] r Expr.macroBodies)
    (ho : Notes L [] otherwise Expr.macroBodies) :
    Notes L [] (do
      if let some e ← tryBrace form r then
        return e
      otherwise) Expr.macroBodies := by
  refine .bind (.tryBrace h) fun found => ?_
  cases found with
  | some e => exact .pure rfl
  | none => exact ho

theorem notes_braceValue (hL : L.Notes) : Notes L [] braceValue Expr.macroBodies := by
  refine .cursor fun _ => .ite ?_ (notes_blockExpr hL)
  exact notes_tryBrace_else .record hL.record (notes_tryBrace_else .block (notes_blockExpr hL) notes_unresolvable)

theorem notes_armBody (hL : L.Notes) : Notes L [] armBody Expr.macroBodies := by
  refine .next (.atMark _) fun _ => .unlessBind (.failUnexpected _) fun _ => ?_
  refine notes_tryBrace_else .block (notes_blockExpr hL) (.cursor fun _ => .ite ?_ (notes_blockExpr hL))
  exact notes_tryBrace_else .record hL.record notes_unresolvable

/-! ## Control flow -/

def Branch.macroBodies (branch : Branch) : List MacroBody := branch.test.macroBodies ++ branch.body.macroBodies

theorem macroBodies_toExpr (branch : Branch) (otherwise : Option Expr) :
    (branch.toExpr otherwise).macroBodies = branch.macroBodies ++ optionalExprBodies otherwise := rfl

theorem notes_branch (hL : L.Notes) : Notes L [] branch Branch.macroBodies :=
  .next (.needWord _) fun _ => .bind (hL.expr _) fun _ => .bind hL.block fun _ => .pure rfl

theorem notes_elseBranchesUpTo (hL : L.Notes) (fuel : Nat) :
    Notes L [] (elseBranchesUpTo fuel) fun result =>
      result.1.flatMap Branch.macroBodies ++ optionalExprBodies result.2 := by
  induction fuel with
  | zero => exact .pure rfl
  | succ fuel ih =>
    refine .next (.takeWord _) fun _ => .ite (.next .kind fun _ => .ite ?_ ?_) (.pure rfl)
    · exact .bind (notes_branch hL) fun _ => .bind ih fun _ => .pure (List.append_assoc _ _ _)
    · exact .bind (notes_blockExpr hL) fun _ => .pure rfl

/-- Branches folded into one conditional keep their order. -/
theorem optionalExprBodies_foldr (branches : List Branch) (last : Option Expr) :
    optionalExprBodies (branches.foldr (fun b otherwise => some (b.toExpr otherwise)) last) =
      branches.flatMap Branch.macroBodies ++ optionalExprBodies last := by
  induction branches with
  | nil => rfl
  | cons branch rest ih =>
    rw [List.foldr_cons, optionalExprBodies, macroBodies_toExpr, ih, List.flatMap_cons, List.append_assoc]

theorem notes_conditional (hL : L.Notes) : Notes L [] conditional Expr.macroBodies :=
  .bind (notes_branch hL) fun first => .next .tokensLeft fun _ => .bind (notes_elseBranchesUpTo hL _) fun others =>
    .pure (congrArg (first.macroBodies ++ ·) (optionalExprBodies_foldr others.1 others.2))

theorem notes_pattern (hL : L.Notes) : Notes L [] pattern Pattern.macroBodies := by
  have value : Notes L [] (do
      let value ← expr .head
      unless ← Reader.atMark .arrow do
        Reader.failUnexpected (.mark .arrow)
      return value) Expr.macroBodies :=
    .bind (hL.expr _) fun _ => .next (.atMark _) fun _ => .unlessBind (.failUnexpected _) fun _ => .pure rfl
  refine .bind (.speculate value) fun found => ?_
  cases found with
  | some value => exact .pure rfl
  | none => exact .bind hL.type fun _ => .pure rfl

theorem notes_arm (hL : L.Notes) : Notes L [] arm Arm.macroBodies :=
  .bind (notes_pattern hL) fun _ => .next (.needMark _) fun _ => .bind (notes_armBody hL) fun _ => .pure rfl

theorem notes_selection (hL : L.Notes) : Notes L [] selection Expr.macroBodies := by
  refine .next (.needWord _) fun _ => .bind (hL.expr _) fun scrutinee => .next (.needMark _) fun _ =>
    .bind (.recovering (notes_arm hL) _ _) fun arms => .next (.needMark _) fun _ => .pure ?_
  exact congrArg (scrutinee.macroBodies ++ ·) (armBodies_eq_flatMap arms)

/-! ## Operands and chains -/

theorem notes_primary (hL : L.Notes) (position : Position) : Notes L [] (primary position) Expr.macroBodies := by
  refine .onString (notes_stringLiteral hL) fun kind hother => ?_
  split
  · exact notes_atom rfl
  · exact notes_atom rfl
  · exact notes_atom rfl
  · exact notes_atom rfl
  · exact notes_atom rfl
  · exact absurd rfl (hother _ _)
  · exact notes_macroCall hL _ _
  · exact notes_listLiteral hL
  · exact notes_parens hL
  · cases position with
    | statement => exact notes_blockExpr hL
    | value => exact notes_braceValue hL
    | head => exact .failUnexpected _
  · exact .bind (notes_fnDecl hL) fun _ => .pure rfl
  · exact .bind (notes_fnDecl hL) fun _ => .pure rfl
  · exact notes_conditional hL
  · exact notes_selection hL
  · exact .next .here fun _ => .throw
  · exact .next .here fun _ => .throw
  · exact .failUnexpected _

theorem notes_accessesUpTo (hL : L.Notes) (position : Position) (base : Expr) (fuel : Nat) :
    Notes L base.macroBodies (accessesUpTo position base fuel) Expr.macroBodies := by
  induction fuel generalizing base with
  | zero => exact .pure rfl
  | succ fuel ih =>
    exact .next (.takeMark _) fun _ => .ite (.bind (notes_primary hL _) fun _ => (ih _).cast rfl) (.pure rfl)

theorem notes_onceAttempted (e : Expr) {next : Unit → Reader Expr}
    (h : ∀ a, Notes L e.macroBodies (next a) Expr.macroBodies) :
    Notes L e.macroBodies (onceAttempted e next) Expr.macroBodies := by
  unfold onceAttempted
  split
  · exact .next (.failAdvised _ _) h
  · exact h ()

theorem notes_attemptOf (e : Expr) : Notes L e.macroBodies (attemptOf e) Expr.macroBodies :=
  notes_onceAttempted e fun _ => .unlessBind (.failAdvised _ _) fun _ => .next .advance fun _ => .pure rfl

theorem notes_postfixUpTo (hL : L.Notes) (position : Position) (e : Expr) (fuel : Nat) :
    Notes L e.macroBodies (postfixUpTo position e fuel) Expr.macroBodies := by
  induction fuel generalizing e with
  | zero => exact .pure rfl
  | succ fuel ih =>
    refine .next .kind fun _ => ?_
    split
    · exact .bind (notes_args hL) fun _ => (ih _).cast rfl
    · exact .next .advance fun _ => .bind (notes_primary hL _) fun first => .next .tokensLeft fun _ =>
        (notes_accessesUpTo hL _ _ _).extend fun _ => (ih _).cast rfl
    · exact .next .advance fun _ => .bind (notes_primary hL _) fun _ => (ih _).cast rfl
    · have h := (notes_attemptOf e).extend fun inner => (ih inner).cast (List.nil_append _).symm
      exact h
    · exact .pure rfl

theorem notes_postfixExpr (hL : L.Notes) (position : Position) :
    Notes L [] (postfixExpr position) Expr.macroBodies :=
  .bind (notes_primary hL _) fun _ => .next .tokensLeft fun _ => notes_postfixUpTo hL _ _ _

theorem notes_unaryExpr (hL : L.Notes) (position : Position) : Notes L [] (unaryExpr position) Expr.macroBodies := by
  refine .next .kind fun _ => ?_
  split
  · exact .next .advance fun _ => .bind (hL.operand _) fun _ => .pure rfl
  · exact notes_postfixExpr hL _

theorem notes_chainUpTo (hL : L.Notes) (level : Nat) (position : Position) (fuel : Nat) :
    Notes L [] (chainUpTo level position fuel) fun rest => rest.flatMap fun next => next.2.macroBodies := by
  induction fuel with
  | zero => exact .pure rfl
  | succ fuel ih =>
    refine .next .kind fun _ => ?_
    split
    · exact .next .advance fun _ => .bind (notes_unaryExpr hL _) fun _ => .bind ih fun _ => .pure rfl
    · exact .pure rfl

/-- Joining an operand to those that wait for it keeps the order. -/
theorem macroBodies_settle (level : Nat) (waiting : List (Expr × BinaryOp)) (right : Expr) :
    ((settle level waiting right).1.reverse.flatMap fun w => w.1.macroBodies) ++
        (settle level waiting right).2.macroBodies =
      (waiting.reverse.flatMap fun w => w.1.macroBodies) ++ right.macroBodies := by
  induction waiting generalizing right with
  | nil => rfl
  | cons w waiting ih =>
    unfold settle
    split
    · rw [ih]
      simp [binaryExpr, Expr.macroBodies, ExprKind.macroBodies]
    · rfl

theorem macroBodies_climb (waiting : List (Expr × BinaryOp)) (last : Expr) (rest : List (BinaryOp × Expr)) :
    (climb waiting last rest).macroBodies =
      (waiting.reverse.flatMap fun w => w.1.macroBodies) ++ last.macroBodies ++
        rest.flatMap fun next => next.2.macroBodies := by
  induction rest generalizing waiting last with
  | nil =>
    have h := macroBodies_settle 0 waiting last
    rw [settle_zero] at h
    rw [climb, List.flatMap_nil, List.append_nil]
    exact h
  | cons next rest ih =>
    obtain ⟨op, e⟩ := next
    have h := macroBodies_settle op.level waiting last
    simp only [climb]
    rw [ih, List.reverse_cons, List.flatMap_append, List.flatMap_cons, ← h]
    simp

theorem notes_chain (hL : L.Notes) (level : Nat) (position : Position) :
    Notes L [] (chain level position) Expr.macroBodies :=
  .bind (notes_unaryExpr hL _) fun first => .next .tokensLeft fun _ => .bind (notes_chainUpTo hL _ _ _) fun rest =>
    .pure (macroBodies_climb [] first rest)

/-! ## Records -/

theorem notes_fieldEnd (field : RecordField) : Notes L field.macroBodies (fieldEnd field) RecordField.macroBodies := by
  refine .next (.takeMark _) fun _ => .ite (.pure rfl) (.next .kind fun _ => ?_)
  split
  · exact .pure rfl
  · exact .pure rfl
  · exact .next (.failUnexpected _) fun _ => .pure rfl

theorem notes_recordField (hL : L.Notes) : Notes L [] recordField RecordField.macroBodies := by
  refine .next quiet_name fun _ => .next (.takeMark _) fun _ => ?_
  exact .ite (.bind (hL.expr _) fun _ => .known ((notes_fieldEnd _).cast rfl)) (.known ((notes_fieldEnd _).cast rfl))

theorem notes_recordFieldsUpTo (hL : L.Notes) (fuel : Nat) :
    Notes L [] (recordFieldsUpTo fuel) fun fields => fields.flatMap RecordField.macroBodies := by
  induction fuel with
  | zero => exact .pure rfl
  | succ fuel ih =>
    exact .next (.atMark _) fun _ => .ite (.pure rfl) (.bind (notes_recordField hL) fun _ => .bind ih fun _ => .pure rfl)

theorem notes_recordExpr (hL : L.Notes) : Notes L [] recordExpr Expr.macroBodies :=
  .next (.needMark _) fun _ => .next .tokensLeft fun _ => .bind (notes_recordFieldsUpTo hL _) fun fields =>
    .next .advance fun _ => .pure (recordFieldBodies_eq_flatMap fields)

/-! ## Statements and blocks -/

def Binding.macroBodies (binding : Binding) : List MacroBody :=
  optionalTypeBodies binding.type ++ binding.value.macroBodies

theorem notes_binding (hL : L.Notes) : Notes L [] binding Binding.macroBodies := by
  refine .next quiet_name fun _ => .next (.takeMark _) fun _ => .ite ?_ ?_
  · exact .bind hL.type fun _ => .next (.takeMark _) fun _ => .unlessBind (.failUnexpected _) fun _ =>
      .known (.bind (hL.expr _) fun _ => .pure rfl)
  · exact .next (.needMark _) fun _ => .known (.bind (hL.expr _) fun _ => .pure rfl)

theorem notes_assignment (hL : L.Notes) : Notes L [] assignment fun binding => binding.value.macroBodies :=
  .next quiet_name fun _ => .next (.needMark _) fun _ => .bind (hL.expr _) fun _ => .pure rfl

theorem notes_loop (hL : L.Notes) : Notes L [] loop StatementKind.macroBodies := by
  unfold loop
  refine .next (.needWord _) fun _ => .next (.atMark _) fun _ => .ite (.bind hL.block fun _ => .pure rfl) ?_
  have ranged (element : Option String) : Notes L [] (do
      let first ← expr .head
      let range ← if ← Reader.takeMark .dotDot then .between first <$> expr .head else pure (.over first)
      return StatementKind.loop element range (← block)) StatementKind.macroBodies :=
    .bind (hL.expr _) fun _ => .next (.takeMark _) fun _ => .ite
      (.extend (.map _ (hL.expr _) fun _ => rfl) fun _ => .bind hL.block fun _ => .pure rfl)
      (.known (.bind hL.block fun _ => .pure rfl))
  refine .next .kind fun _ => .next (.peek 1) fun _ => ?_
  split
  · exact .next (.skip 2) fun _ => .known (ranged _)
  · exact .known (ranged _)

theorem notes_leave (hL : L.Notes) : Notes L [] leave StatementKind.macroBodies :=
  .next .advance fun _ => .cursor fun _ => .ite (.bind (hL.expr _) fun _ => .pure rfl) (.pure rfl)

theorem notes_statementKind (hL : L.Notes) : Notes L [] statementKind StatementKind.macroBodies := by
  refine .next .kind fun _ => ?_
  split
  · exact notes_leave hL
  · exact .next .advance fun _ => .pure rfl
  · exact .next .advance fun _ => .pure rfl
  · exact notes_loop hL
  · exact .bind (notes_fnDecl hL) fun _ => .pure rfl
  · exact .bind (notes_fnDecl hL) fun _ => .pure rfl
  · exact .bind hL.block fun _ => .pure rfl
  · exact .next .here fun _ => .throw
  · exact .next .here fun _ => .throw
  · exact .failAdvised _ _
  · exact .failAdvised _ _
  · exact .failAdvised _ _
  · exact .failAdvised _ _
  · exact .failAdvised _ _
  · refine .cursor fun _ => .ite (.bind (notes_binding hL) fun _ => .pure rfl) ?_
    exact .ite (.bind (notes_assignment hL) fun _ => .pure rfl) (.bind (hL.expr _) fun _ => .pure rfl)
  · exact .next (.peek 1) fun _ => .ite (.failAdvised _ _) (.bind (hL.expr _) fun _ => .pure rfl)
  · exact .bind (hL.expr _) fun _ => .pure rfl

theorem notes_statement (hL : L.Notes) : Notes L [] statement Statement.macroBodies :=
  .next .here fun _ => .bind (notes_statementKind hL) fun _ => .next (.spanFrom _) fun _ => .pure rfl

theorem notes_blockBody (hL : L.Notes) : Notes L [] blockBody Block.macroBodies := by
  refine .next (.needMark _) fun _ => .bind (.recovering (notes_statement hL) _ _) fun statements =>
    .next (.atMark _) fun _ => ?_
  refine .ite (.next .advance fun _ => .pure (statementBodies_eq_flatMap statements)) ?_
  refine .next .here fun _ => .next .kind fun _ => .next .atEnd fun _ => .next .halted fun _ => .ite ?_ .throw
  exact .record fun s => .refl s

/-! ## Items -/

theorem quiet_pathRestUpTo (fuel : Nat) : Quiet L (pathRestUpTo fuel) := by
  induction fuel with
  | zero => exact .pure rfl
  | succ fuel ih =>
    exact .next (.takeMark _) fun _ => .ite (.next quiet_anyName fun _ => .next ih fun _ => .pure rfl) (.pure rfl)

theorem quiet_exposed : Quiet L exposed := by
  refine .next .kind fun _ => ?_
  split
  · exact .next .advance fun _ => .pure rfl
  · exact .next .advance fun _ => .pure rfl
  · exact .next .advance fun _ => .pure rfl
  · exact .failUnexpected _

theorem quiet_importDecl : Quiet L importDecl := by
  have names : Quiet L (JuiceSyntax.separated .rParen exposed) :=
    (NotesBy.separated _ quiet_exposed).relabel fun items => by simp
  refine .next (.takeWord _) fun _ => .next (.needWord _) fun _ => .next (.takeMark _) fun _ =>
    .next quiet_anyName fun _ => .next .tokensLeft fun _ => .next (quiet_pathRestUpTo _) fun _ =>
    .next (.takeWord _) fun _ => .iteBind (.map _ quiet_anyName fun _ => rfl) (.pure rfl) fun _ =>
    .next (.takeMark _) fun _ => .ite ?_ (.known (.pure rfl))
  exact .next names fun _ => .next (.needMark _) fun _ => .known (.pure rfl)

def Member.macroBodies : Member → List MacroBody
  | .field f => f.macroBodies
  | .constructor c => c.macroBodies

theorem notes_member (hL : L.Notes) : Notes L [] member Member.macroBodies := by
  refine .cursor fun c => ?_
  dsimp only
  split
  · exact .next (.skip 2) fun _ => .bind hL.type fun _ => .pure rfl
  · exact .next (.skip 2) fun _ => .bind hL.type fun _ => .pure rfl
  · exact .next .advance fun _ => .next (.atMark _) fun _ => .iteBind (notes_params hL quiet_name) (.pure rfl)
      fun _ => .next (.spanFrom _) fun _ => .pure rfl
  · exact .failAdvised _ _

def optionalTypeBody : Option TypeBody → List MacroBody
  | none => []
  | some body => body.macroBodies

theorem notes_addMember {body : Option TypeBody} (h : OfMembers body) (member : Member) :
    Notes L (optionalTypeBody body ++ member.macroBodies) (addMember body member) optionalTypeBody := by
  have added (fs : List Field) (f : Field) :
      (TypeBody.fields (fs ++ [f])).macroBodies = (TypeBody.fields fs).macroBodies ++ f.macroBodies := by
    simp [TypeBody.macroBodies]
  have added' (cs : List Constructor) (c : Constructor) :
      (TypeBody.constructors (cs ++ [c])).macroBodies = (TypeBody.constructors cs).macroBodies ++ c.macroBodies := by
    simp [TypeBody.macroBodies]
  match body, member with
  | some (.fields fs), .field f => exact .pure (added fs f)
  | some (.constructors cs), .constructor c => exact .pure (added' cs c)
  | some (.fields _), .constructor _ => exact .record .refl
  | some (.constructors _), .field _ => exact .record .refl
  | none, .field f => exact .pure (added [] f)
  | none, .constructor c => exact .pure (added' [] c)
  | some (.synonym type), _ => exact absurd rfl (h type)

theorem notes_membersUpTo (hL : L.Notes) {body : Option TypeBody} (h : OfMembers body) (fuel : Nat) :
    Notes L (optionalTypeBody body) (membersUpTo body fuel) optionalTypeBody := by
  induction fuel generalizing body with
  | zero => exact .pure rfl
  | succ fuel ih =>
    refine .next (.atMark _) fun _ => .ite (.pure rfl) (.bind (notes_member hL) fun member => ?_)
    have hnext := (notes_addMember (L := L) h member).extendOf fun body' s t hr =>
      .next (.takeMark .comma) fun _ => (ih (addMember_ofMembers hr)).cast (List.nil_append _).symm
    exact hnext

theorem notes_members (hL : L.Notes) : Notes L [] members TypeBody.macroBodies :=
  .next (.needMark _) fun _ => .next .tokensLeft fun _ => .bind ((notes_membersUpTo hL ofMembers_none _).cast rfl) fun body =>
    .next (.needMark _) fun _ => .pure (by cases body <;> rfl)

theorem quiet_declaredType (keyword : Bool) : Quiet L (declaredType keyword) := by
  refine .ite quiet_anyName (.next .kind fun _ => ?_)
  split
  · exact .next .advance fun _ => .pure rfl
  · exact .failUnexpected _

theorem notes_typeDecl (hL : L.Notes) : Notes L [] typeDecl TypeDecl.macroBodies :=
  .next (.takeWord _) fun _ => .next (quiet_declaredType _) fun _ => .next (.atMark _) fun _ =>
    .iteBind (notes_params hL quiet_anyName) (.pure rfl) fun _ => .next (.needMark _) fun _ =>
    .next (.atMark _) fun _ => .iteBind (notes_members hL) (.map _ hL.type fun _ => rfl) fun _ => .pure rfl

theorem notes_implFn (hL : L.Notes) : Notes L [] implFn FnDecl.macroBodies := by
  refine .next .kind fun _ => ?_
  split
  · exact notes_fnDecl hL
  · exact notes_fnDecl hL
  · exact .failUnexpected _

theorem notes_implDecl (hL : L.Notes) : Notes L [] implDecl Impl.macroBodies := by
  refine .next (.needWord _) fun _ => .bind hL.type fun _ => .next (.takeWord _) fun _ => .ite ?_ ?_
  · exact .bind hL.type fun _ => .known (.next (.needMark _) fun _ =>
      .bind (.recovering (notes_implFn hL) _ _) fun _ => .next (.needMark _) fun _ => .pure rfl)
  · exact .known (.next (.needMark _) fun _ =>
      .bind (.recovering (notes_implFn hL) _ _) fun _ => .next (.needMark _) fun _ => .pure rfl)

theorem notes_itemKind (hL : L.Notes) : Notes L [] itemKind ItemKind.macroBodies := by
  refine .cursor fun c => ?_
  split
  · exact .next quiet_importDecl fun _ => .pure rfl
  · exact .next quiet_importDecl fun _ => .pure rfl
  · exact .bind (notes_fnDecl hL) fun _ => .pure rfl
  · exact .bind (notes_fnDecl hL) fun _ => .pure rfl
  · exact .bind (notes_typeDecl hL) fun _ => .pure rfl
  · exact .bind (notes_implDecl hL) fun _ => .pure rfl
  · exact .throw
  · exact .throw
  · refine .ite (.bind (notes_binding hL) fun _ => .pure rfl) ?_
    exact .ite (.bind (notes_assignment hL) fun _ => .pure rfl) .throw
  · exact .ite (.bind (notes_typeDecl hL) fun _ => .pure rfl) (.failUnexpected _)

theorem notes_item (hL : L.Notes) : Notes L [] item Item.macroBodies := by
  unfold item
  refine .next .here fun _ => .next (.takeWord _) fun _ => .cursor fun _ => .whenBind .throw fun _ => ?_
  exact .bind (notes_itemKind hL) fun _ => .next (.spanFrom _) fun _ => .pure rfl

end Grammar

/-! ## Programs -/

theorem tooDeep_notes {setting : Setting} {r : Reader α} {bodies : α → List MacroBody}
    (h : r (level setting 0) = tooDeep setting.options.maxDepth) : Notes (level setting 0) [] r bodies where
  grows s := by
    rw [h]
    exact .refl s
  notes _ hr _ := by
    rw [h] at hr
    cases hr

theorem level_notes (setting : Setting) (n : Nat) : (level setting n).Notes := by
  induction n with
  | zero => exact ⟨fun _ => tooDeep_notes rfl, fun _ => tooDeep_notes rfl, tooDeep_notes rfl, tooDeep_notes rfl,
      tooDeep_notes rfl⟩
  | succ n ih =>
    have lift {β : Type} {r r' : Reader β} {bodies : β → List MacroBody} (h : Notes (level setting n) [] r bodies)
        (heq : r' (level setting (n + 1)) = r (level setting n)) : Notes (level setting (n + 1)) [] r' bodies := by
      refine ⟨?_, ?_⟩
      · rw [heq]
        exact h.grows
      · rw [heq]
        exact h.notes
    exact ⟨fun position => lift (notes_chain ih 1 position) rfl,
      fun position => lift (notes_chain ih operandLevel position) rfl, lift (notes_blockBody ih) rfl,
      lift (notes_typeExpr ih) rfl, lift (notes_recordExpr ih) rfl⟩

/-- What is read from the beginning without a fault notes its bodies, and nothing else. -/
theorem NotesBy.ofTokens {r : Reader α} {bodies : α → List MacroBody} (h : Notes L [] r bodies) {tokens : List Token}
    {a : α} {s : State} (hr : r L (.ofTokens tokens) = .ok a s) (hfaults : s.faults = []) :
    s.macroBodies = (bodies a).map (·.inner) ∧ FoundIn tokens (bodies a) := by
  obtain ⟨new, hnew, hnotes, hconsumed⟩ := h.notes rfl hr hfaults
  have hempty : (State.ofTokens tokens).macroBodies = [] := rfl
  rw [List.nil_append] at hnew
  rw [hempty, List.nil_append, ← hnew] at hnotes
  rw [← hnew] at hconsumed
  exact ⟨hnotes, hconsumed.foundIn⟩

theorem readItems_notes {setting : Setting} {tokens : List Token} (h : (readItems setting tokens).faults = []) :
    (readItems setting tokens).macroBodies =
        ((readItems setting tokens).value.flatMap Item.macroBodies).map (·.inner) ∧
      FoundIn tokens ((readItems setting tokens).value.flatMap Item.macroBodies) := by
  rw [readItems_eq] at h ⊢
  obtain ⟨value, s, hread⟩ := itemsEnding_ok setting tokens
  rw [hread] at h ⊢
  exact ((notes_item (level_notes setting _)).recovering _ _).ofTokens hread h

/-- Without faults an expression is read, from all of the tokens. -/
theorem readExpr_clear {setting : Setting} {tokens : List Token} (h : (readExpr setting tokens).faults = []) :
    ∃ e t, Reader.expr .value (level setting setting.options.maxDepth) (.ofTokens tokens) = .ok e t ∧ t.faults = [] ∧
      readExpr setting tokens = ⟨some e, t.faults, t.macroBodies⟩ := by
  have hgrows := (level_grows setting setting.options.maxDepth).expr .value (.ofTokens tokens) trivial
  have hexpr : Reader.expr .value (level setting setting.options.maxDepth) (.ofTokens tokens) =
      (level setting setting.options.maxDepth).expr .value (.ofTokens tokens) := rfl
  -- A fault that is recorded at the end would be among those of the whole.
  have hrecorded {fault : Fault} {t : State} (ht : Grows (.ofTokens tokens) t) :
      (t.withFault (level setting setting.options.maxDepth).options fault).faults ≠ [] := by
    intro hfaults
    exact not_clear_withFault _ _ _ ((ht.trans (.withFault _ fault t)).clear_of_faults rfl hfaults)
  simp only [readExpr, Reader.run, wholeExpr_apply] at h ⊢
  rw [hexpr]
  cases hread : (level setting setting.options.maxDepth).expr .value (.ofTokens tokens) with
  | error fault t =>
    rw [hread] at h hgrows
    exact absurd h (hrecorded hgrows)
  | ok e t =>
    rw [hread] at h hgrows
    dsimp only at h ⊢
    cases hend : t.cursor.atEnd with
    | true =>
      rw [hend] at h
      exact ⟨e, t, rfl, h, rfl⟩
    | false =>
      rw [hend] at h
      exact absurd h (hrecorded hgrows)

theorem readExpr_notes {setting : Setting} {tokens : List Token} (h : (readExpr setting tokens).faults = []) :
    ∃ e, (readExpr setting tokens).value = some e ∧
      (readExpr setting tokens).macroBodies = e.macroBodies.map (·.inner) ∧ FoundIn tokens e.macroBodies := by
  obtain ⟨e, t, hread, hfaults, heq⟩ := readExpr_clear h
  rw [heq]
  exact ⟨e, rfl, ((level_notes setting _).expr .value).ofTokens hread hfaults⟩

/-- The notes of a program without faults are the macro bodies of its items, in their order. -/
theorem readItems_macroBodies {setting : Setting} {tokens : List Token}
    (h : (readItems setting tokens).faults = []) :
    (readItems setting tokens).macroBodies =
      ((readItems setting tokens).value.flatMap Item.macroBodies).map (·.inner) :=
  (readItems_notes h).1

end JuiceSyntax
