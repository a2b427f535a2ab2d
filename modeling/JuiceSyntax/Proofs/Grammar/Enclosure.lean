/-
  Readers before a wall. `Stays w L pre j r k` says of a reader `r` that begins before the wall
  `w`, below `j` braces and at a cursor with `pre`, that it ends before the wall: with a result
  below `k` braces, or in a fault, which may have come from any depth, below none. There is one rule
  for each step and one lemma for each production.

  `stays_item`: an item that begins before the wall ends before it, however it ends.
-/
import JuiceSyntax.Proofs.Grammar.Wall

namespace JuiceSyntax

open Reader Grammar

/-! ## Braces remembered -/

/-- The braces that are remembered are before the wall. -/
def Wall.Remembers (w : Wall) (s : State) : Prop := ∀ form, ∀ offset ∈ s.failed form, offset ≤ w.offset

theorem Wall.Remembers.congr {w : Wall} {s t : State} (h : w.Remembers s) (heq : ∀ form, t.failed form = s.failed form) :
    w.Remembers t := by
  intro form
  rw [heq]
  exact h form

theorem Wall.Remembers.noteFailed {w : Wall} {s : State} (h : w.Remembers s) {offset : Nat} (ho : offset ≤ w.offset)
    (form : BraceForm) : w.Remembers (s.noteFailed offset form) := by
  have hcons (offsets : List Nat) (hmem : ∀ o ∈ offsets, o ≤ w.offset) : ∀ o ∈ offset :: offsets, o ≤ w.offset := by
    intro o hmem'
    obtain rfl | hrest := List.mem_cons.1 hmem'
    · exact ho
    · exact hmem o hrest
  intro form'
  cases form with
  | record =>
    cases form' with
    | record => exact hcons _ (h .record)
    | block => exact h .block
  | block =>
    cases form' with
    | record => exact h .record
    | block => exact hcons _ (h .block)

theorem failed_withFault (options : Options) (fault : Fault) (s : State) (form : BraceForm) :
    (s.withFault options fault).failed form = s.failed form := by
  obtain ⟨-, h⟩ | ⟨-, -, h⟩ | ⟨-, -, -, -, h⟩ | ⟨-, -, -, -, h⟩ := withFault_cases options fault s
  all_goals rw [h]
  all_goals cases form <;> rfl

theorem failed_resumed (options : Options) (start : Cursor) (resume : Resume) (fault : Fault) (s : State)
    (form : BraceForm) : (s.resumed options start resume fault).failed form = s.failed form := by
  obtain ⟨-, h⟩ | ⟨-, -, -, -, h⟩ := resumed_cases options start resume fault s
  · rw [h]
    exact failed_withFault options fault s form
  · rw [h]
    cases form <;> rfl

theorem failed_rewind (before after : State) (form : BraceForm) :
    (before.rewind after).failed form = after.failed form := by
  cases form <;> rfl

theorem failed_placed (s : State) (c : Cursor) (form : BraceForm) :
    ({ s with cursor := c } : State).failed form = s.failed form := by
  cases form <;> rfl

theorem failed_noteBody (s : State) (inner : Span) (form : BraceForm) :
    ({ s with macroBodies := s.macroBodies ++ [inner] } : State).failed form = s.failed form := by
  cases form <;> rfl

/-- What is remembered while tokens from before the wall are read is before the wall. -/
theorem remembers_steady (w : Wall) (options : Options) :
    Steady (Early w.offset) options fun s t => Grows s t ∧ (w.Remembers s → w.Remembers t) where
  refl s := ⟨.refl s, id⟩
  trans h h' := ⟨h.1.trans h'.1, h'.2 ∘ h.2⟩
  skip s n := ⟨.skip s n, fun h => h.congr (failed_placed s _)⟩
  noteBody s inner := ⟨(grows_steady inherited_true options).noteBody s inner, fun h => h.congr (failed_noteBody s inner)⟩
  withFault s fault := ⟨.withFault options fault s, fun h => h.congr (failed_withFault options fault s)⟩
  resumed s start resume fault :=
    ⟨.resumed options start resume fault s, fun h => h.congr (failed_resumed options start resume fault s)⟩
  rewind h := ⟨h.1.rewind, fun hs => (h.2 hs).congr (failed_rewind _ _)⟩
  noteFailed s form hs := by
    obtain ⟨lo, hlaid⟩ := hs
    exact ⟨.noteFailed form _ s, fun h => h.noteFailed hlaid.advance.2.2 form⟩
  inTokens _ h := ⟨h.1.inTokens, fun hs => (h.2 (hs.congr (failed_placed _ _))).congr (failed_placed _ _)⟩
  fine h := (inherited_early w.offset).grows h.1

/-! ## States before the wall -/

/-- The state is before the wall, below at least `depth` braces. -/
structure Wall.Inside (w : Wall) (depth : Nat) (s : State) : Prop where
  cursor : w.Holds depth s.cursor
  failed : w.Remembers s

theorem Wall.Inside.mono {w : Wall} {depth depth' : Nat} {s : State} (h : w.Inside depth s) (hle : depth' ≤ depth) :
    w.Inside depth' s :=
  ⟨h.cursor.mono hle, h.failed⟩

/-- The cursor may be put elsewhere before the wall. -/
theorem Wall.Inside.at {w : Wall} {depth depth' : Nat} {s : State} (h : w.Inside depth s) {c : Cursor}
    (hc : w.Holds depth' c) : w.Inside depth' { s with cursor := c } :=
  ⟨hc, h.failed.congr (failed_placed s c)⟩

/-- A result `k` braces deeper than the fault might be. -/
def Wall.Keeps (w : Wall) (depth k : Nat) {α : Type} : Ending α → Prop
  | .ok _ s => w.Inside (depth + k) s
  | .error _ s => w.Inside depth s

theorem Wall.Keeps.inside {w : Wall} {depth k : Nat} {α : Type} {ending : Ending α} (h : w.Keeps depth k ending) :
    w.Inside depth (Ending.state ending) := by
  cases ending with
  | ok a t => exact Wall.Inside.mono h (Nat.le_add_right _ _)
  | error fault t => exact h

/-- Read below `j` braces, at a cursor with `pre`, the reader ends below `k` of them or in a fault. -/
def Stays (w : Wall) (L : Level) (pre : Cursor → Prop) (j : Nat) {α : Type} (r : Reader α) (k : Nat) : Prop :=
  ∀ depth s, w.Inside (depth + j) s → pre s.cursor → w.Keeps depth k (r L s)

/-- The readers of a level stay before the wall. -/
structure Level.Stays (w : Wall) (L : Level) : Prop where
  steady : L.Steady (Early w.offset) fun s t => JuiceSyntax.Grows s t ∧ (w.Remembers s → w.Remembers t)
  expr : ∀ position pre j, JuiceSyntax.Stays w L pre j (Reader.expr position) j
  operand : ∀ position pre j, JuiceSyntax.Stays w L pre j (Reader.operand position) j
  block : ∀ pre j, JuiceSyntax.Stays w L pre j Reader.block j
  type : ∀ pre j, JuiceSyntax.Stays w L pre j Reader.type j
  record : ∀ pre j, JuiceSyntax.Stays w L pre j Reader.recordLiteral j

theorem resumed_inside {w : Wall} {options : Options} {resume : Resume} (hclose : resume.atClose = true) (start : Cursor)
    (fault : Fault) {depth : Nat} {s : State} (hs : w.Inside (depth + 1) s) :
    w.Inside (depth + 1) (s.resumed options start resume fault) := by
  refine ⟨?_, hs.failed.congr (failed_resumed options start resume fault s)⟩
  obtain ⟨-, heq⟩ | ⟨-, -, -, -, heq⟩ := resumed_cases options start resume fault s
  · rw [heq, cursor_withFault]
    exact hs.cursor
  · rw [heq]
    exact hs.cursor.resumeFrom hclose

variable {w : Wall} {L : Level} {pre : Cursor → Prop} {j k m : Nat} {α β : Type}

namespace Stays

theorem pure (a : α) : Stays w L pre j (Pure.pure a) j := fun _ _ hs _ => hs

theorem throw (fault : Fault) : Stays w L pre j (throw fault : Reader α) k :=
  fun _ _ hs _ => hs.mono (Nat.le_add_right _ _)

/-- What follows a fault is not read. -/
theorem throwThen (fault : Fault) {f : α → Reader β} : Stays w L pre j ((MonadExcept.throw fault : Reader α) >>= f) k :=
  fun _ _ hs _ => hs.mono (Nat.le_add_right _ _)

/-- The braces that are left open do not matter. -/
theorem lower {r : Reader α} (h : Stays w L pre j r k) (hle : m ≤ k) : Stays w L pre j r m := by
  intro depth s hs hp
  have hr := h depth s hs hp
  cases hend : r L s with
  | ok a t =>
    rw [hend] at hr
    exact Wall.Inside.mono hr (by omega)
  | error fault t =>
    rw [hend] at hr
    exact hr

theorem bind {r : Reader α} {f : α → Reader β} (h : Stays w L pre j r k)
    (h' : ∀ a, Stays w L (fun _ => True) k (f a) m) : Stays w L pre j (r >>= f) m := by
  intro depth s hs hp
  rw [bind_apply]
  have hr := h depth s hs hp
  cases hend : r L s with
  | ok a t =>
    rw [hend] at hr
    exact h' a depth t hr trivial
  | error fault t =>
    rw [hend] at hr
    exact hr

theorem ite {c : Prop} [Decidable c] {r r' : Reader α} (h : Stays w L pre j r k) (h' : Stays w L pre j r' k) :
    Stays w L pre j (if c then r else r') k := by
  split
  · exact h
  · exact h'

/-! ## Looking -/

/-- What is seen at the cursor is known of it in what follows. -/
theorem look {r : Reader α} {f : Cursor → α} (hr : ∀ L s, r L s = .ok (f s.cursor) s) {g : α → Reader β}
    (h : ∀ a, Stays w L (fun c => pre c ∧ f c = a) j (g a) k) : Stays w L pre j (r >>= g) k := by
  intro depth s hs hp
  rw [bind_apply, hr]
  exact h (f s.cursor) depth s hs ⟨hp, rfl⟩

theorem onCursor {g : Cursor → Reader β} (h : ∀ c, Stays w L (fun c' => pre c' ∧ c' = c) j (g c) k) :
    Stays w L pre j (Reader.cursor >>= g) k :=
  look (f := id) (fun _ _ => rfl) h

/-- The fragments of a string at the cursor are before the wall. -/
theorem onKind {g : Kind → Reader β}
    (h : ∀ kind, FineKind (Early w.offset) kind → Stays w L (fun c => pre c ∧ c.kind = kind) j (g kind) k) :
    Stays w L pre j (Reader.kind >>= g) k :=
  fun depth s hs hp => h s.cursor.kind hs.cursor.fineKind depth s hs ⟨hp, rfl⟩

theorem onPeek (n : Nat) {g : Kind → Reader β} (h : ∀ kind, Stays w L (fun c => pre c ∧ c.peek n = kind) j (g kind) k) :
    Stays w L pre j (Reader.peek n >>= g) k :=
  look (fun _ _ => rfl) h

theorem onHere {g : Span → Reader β} (h : ∀ span, Stays w L (fun c => pre c ∧ c.span = span) j (g span) k) :
    Stays w L pre j (Reader.here >>= g) k :=
  look (fun _ _ => rfl) h

theorem here : Stays w L pre j Reader.here j := fun _ _ hs _ => hs

theorem kind : Stays w L pre j Reader.kind j := fun _ _ hs _ => hs

theorem peek (n : Nat) : Stays w L pre j (Reader.peek n) j := fun _ _ hs _ => hs

theorem atEnd : Stays w L pre j Reader.atEnd j := fun _ _ hs _ => hs

theorem atMark (mark : Mark) : Stays w L pre j (Reader.atMark mark) j := fun _ _ hs _ => hs

theorem halted : Stays w L pre j Reader.halted j := fun _ _ hs _ => hs

theorem tokensLeft : Stays w L pre j JuiceSyntax.tokensLeft j := fun _ _ hs _ => hs

theorem spanFrom (start : Span) : Stays w L pre j (Reader.spanFrom start) j := fun _ _ hs _ => hs

theorem sourceText (span : Span) : Stays w L pre j (Grammar.sourceText span) j := fun _ _ hs _ => hs

/-! ## Consuming -/

theorem advance (h : ∀ c, pre c → w.Passable c) : Stays w L pre j Reader.advance j :=
  fun _ s hs hp => hs.at (hs.cursor.advance (h s.cursor hp))

/-- Below a brace any token may be consumed. -/
theorem advanceInner : Stays w L pre (j + 1) Reader.advance j :=
  fun _ _ hs _ => hs.at hs.cursor.advance_inner

theorem takeMark (mark : Mark) (hm : isPlain (.mark mark) = true) :
    Stays w L pre j (Reader.takeMark mark) j := by
  intro depth s hs hp
  rw [takeMark_apply]
  split
  · rename_i hmark
    exact hs.at (hs.cursor.advance (Wall.passable_of_kind (eq_of_isMark hmark) hm))
  · exact hs

theorem takeWord (word : Keyword) (hw : isPlain (.word word) = true) :
    Stays w L pre j (Reader.takeWord word) j := by
  intro depth s hs hp
  rw [takeWord_apply]
  split
  · rename_i hword
    exact hs.at (hs.cursor.advance (Wall.passable_of_kind (eq_of_isWord hword) hw))
  · exact hs

theorem needMark (mark : Mark) (hm : isPlain (.mark mark) = true) :
    Stays w L pre j (Reader.needMark mark) j := by
  intro depth s hs hp
  rw [needMark_apply]
  split
  · rename_i hmark
    exact hs.at (hs.cursor.advance (Wall.passable_of_kind (eq_of_isMark hmark) hm))
  · exact hs.mono (Nat.le_add_right _ _)

theorem needWord (word : Keyword) (hw : isPlain (.word word) = true) :
    Stays w L pre j (Reader.needWord word) j := by
  intro depth s hs hp
  rw [needWord_apply]
  split
  · rename_i hword
    exact hs.at (hs.cursor.advance (Wall.passable_of_kind (eq_of_isWord hword) hw))
  · exact hs.mono (Nat.le_add_right _ _)

/-- A word that is not the one at the wall. -/
theorem takeWordAt (word : Keyword) (ha : ∀ c, c.kind.isWord word = true → w.Ahead c) :
    Stays w L pre j (Reader.takeWord word) j := by
  intro depth s hs hp
  rw [takeWord_apply]
  split
  · rename_i hword
    exact hs.at (hs.cursor.advance (Wall.passable_of_word hword (ha s.cursor hword)))
  · exact hs

/-- Ahead of the wall any word may be consumed. -/
theorem takeWordAhead (word : Keyword) (ha : ∀ c, pre c → w.Ahead c) : Stays w L pre j (Reader.takeWord word) j := by
  intro depth s hs hp
  rw [takeWord_apply]
  split
  · rename_i hword
    exact hs.at (hs.cursor.advance (Wall.passable_of_word hword (ha s.cursor hp)))
  · exact hs

theorem needWordAhead (word : Keyword) (ha : ∀ c, pre c → w.Ahead c) : Stays w L pre j (Reader.needWord word) j := by
  intro depth s hs hp
  rw [needWord_apply]
  split
  · rename_i hword
    exact hs.at (hs.cursor.advance (Wall.passable_of_word hword (ha s.cursor hp)))
  · exact hs.mono (Nat.le_add_right _ _)

/-- Behind `export` and `foreign` the wall is not reached yet. -/
theorem takeWordThen {word : Keyword} (hopens : opensItem w.first.kind = true)
    (hw : word = .exportWord ∨ word = .foreignWord) (ha : ∀ c, pre c → w.Ahead c)
    {f : Bool → Reader β} (next : ∀ found, Stays w L w.Ahead j (f found) k) :
    Stays w L pre j (Reader.takeWord word >>= f) k := by
  intro depth s hs hp
  have hahead := ha s.cursor hp
  rw [bind_apply, takeWord_apply]
  split
  · rename_i hword
    have hnext : w.Ahead s.cursor.advance := by
      refine hs.cursor.ahead_advance hopens hahead ?_
      obtain rfl | rfl := hw
      · exact .inl hword
      · exact .inr hword
    exact next true depth _ (hs.at (hs.cursor.advance (Wall.passable_of_word hword hahead))) hnext
  · exact next false depth s hs hahead

/-- An opening brace. -/
theorem opening : Stays w L pre j (Reader.needMark .lBrace) (j + 1) := by
  intro depth s hs hp
  rw [needMark_apply]
  split
  · rename_i hmark
    exact hs.at (hs.cursor.advance_opening hmark)
  · exact hs.mono (Nat.le_add_right _ _)

/-- A closing brace. -/
theorem closing : Stays w L pre (j + 1) (Reader.needMark .rBrace) j := by
  intro depth s hs hp
  rw [needMark_apply]
  split
  · exact hs.at hs.cursor.advance_inner
  · exact hs.mono (Nat.le_add_right _ _)

/-- Two tokens at once. -/
theorem skipTwo (h : ∀ c, pre c → isPlain c.kind = true ∧ isPlain (c.peek 1) = true) :
    Stays w L pre j (JuiceSyntax.skip 2) j := by
  intro depth s hs hp
  obtain ⟨hfirst, hsecond⟩ := h s.cursor hp
  have hp := Wall.passable_of_kind rfl hfirst (w := w)
  have hkind := Cursor.kind_advance (hs.cursor.atEnd hp.ahead)
  exact hs.at ((hs.cursor.advance hp).advance (Wall.passable_of_kind hkind hsecond))

theorem unexpected (wanted : Wanted) (advice : Option Advice) : Stays w L pre j (Reader.unexpected wanted advice) j :=
  .bind .here fun _ => .bind .kind fun _ => .pure _

theorem failUnexpected (wanted : Wanted) : Stays w L pre j (Reader.failUnexpected wanted : Reader α) k :=
  .bind (.unexpected wanted none) fun _ => .throw _

/-- What follows a failure is not read. -/
theorem failThen (wanted : Wanted) {f : α → Reader β} :
    Stays w L pre j (Reader.failUnexpected wanted >>= f) k :=
  fun _ _ hs _ => hs.mono (Nat.le_add_right _ _)

theorem failAdvisedThen (wanted : Wanted) (advice : Advice) {f : α → Reader β} :
    Stays w L pre j (Reader.failAdvised wanted advice >>= f) k :=
  fun _ _ hs _ => hs.mono (Nat.le_add_right _ _)

theorem failAdvised (wanted : Wanted) (advice : Advice) :
    Stays w L pre j (Reader.failAdvised wanted advice : Reader α) k :=
  .bind (.unexpected wanted advice) fun _ => .throw _

/-! ## Readers run by others -/

theorem record (fault : Fault) : Stays w L pre j (Reader.record fault) j := by
  intro depth s hs hp
  rw [record_apply]
  refine ⟨?_, hs.failed.congr (failed_withFault _ _ s)⟩
  rw [cursor_withFault]
  exact hs.cursor

theorem noteBody (inner : Span) :
    Stays w L pre j (modify fun s => { s with macroBodies := s.macroBodies ++ [inner] } : Reader Unit) j :=
  fun _ s hs _ => ⟨hs.cursor, hs.failed.congr (failed_noteBody s inner)⟩

/-- What is given up leaves the cursor where it was. -/
theorem speculated {depth : Nat} {s : State} {ending : Ending α} (hs : w.Inside (depth + j) s)
    (h : w.Keeps depth j ending) : w.Keeps depth j (JuiceSyntax.speculated s ending) := by
  obtain ⟨fault, -, heq⟩ | ⟨a, t, rfl, -, heq⟩ | heq := speculated_cases s ending
  · rw [heq]
    exact h.inside
  · rw [heq]
    exact h
  · rw [heq]
    exact ⟨hs.cursor, h.inside.failed.congr (failed_rewind s _)⟩

theorem speculate {r : Reader α} (h : Stays w L pre j r j) : Stays w L pre j (JuiceSyntax.speculate r) j := by
  intro depth s hs hp
  rw [speculate_apply]
  exact speculated hs (h depth s hs hp)

/-- A brace that does not open the form is still at the cursor. -/
theorem tryBrace (form : BraceForm) {r : Reader Expr} {f : Option Expr → Reader β} (h : Stays w L pre j r j)
    (hsome : ∀ e, Stays w L (fun _ => True) j (f (some e)) m) (hnone : Stays w L pre j (f none) m) :
    Stays w L pre j (Grammar.tryBrace form r >>= f) m := by
  intro depth s hs hp
  rw [bind_apply, tryBrace_apply]
  split
  · exact hnone depth s hs hp
  · have hr := h depth s hs hp
    obtain ⟨fault, -, heq⟩ | ⟨a, t, hend, -, heq⟩ | heq := speculated_cases s (r L s)
    · rw [heq]
      exact hr.inside
    · rw [heq]
      rw [hend] at hr
      exact hsome a depth t hr trivial
    · rw [heq]
      have hfailed : w.Remembers (s.rewind (Ending.state (r L s))) := hr.inside.failed.congr (failed_rewind s _)
      refine hnone depth _ ⟨?_, hfailed.noteFailed hs.cursor.span_le form⟩ ?_
      · cases form <;> exact hs.cursor
      · cases form <;> exact hp

theorem withTokens {tokens : List Token} {r : Reader α} (hL : L.Stays w) (htokens : Early w.offset tokens)
    (h : Composed (Early w.offset) r) : Stays w L pre j (JuiceSyntax.withTokens tokens r) j := by
  intro depth s hs hp
  have hr := (h.steady (remembers_steady w L.options) hL.steady { s with cursor := .ofTokens tokens } htokens).2
    (hs.failed.congr (failed_placed s _))
  rw [withTokens_apply]
  cases hend : r L { s with cursor := .ofTokens tokens } with
  | ok a t =>
    rw [hend] at hr
    exact ⟨hs.cursor, hr.congr (failed_placed t _)⟩
  | error fault t =>
    rw [hend] at hr
    exact ⟨hs.cursor.mono (Nat.le_add_right _ _), hr.congr (failed_placed t _)⟩

/-- A loop below a brace: after a fault reading resumes below it. -/
theorem recoveringUpTo {resume : Resume} (hclose : resume.atClose = true) (ends : Kind → Bool) {item : Reader α}
    (h : Stays w L w.Ahead 0 item 0) (fuel : Nat) {depth : Nat} {s : State} (hs : w.Inside (depth + 1) s) :
    ∃ items t, JuiceSyntax.recoveringUpTo resume ends item fuel L s = .ok items t ∧ w.Inside (depth + 1) t := by
  induction fuel generalizing s with
  | zero => exact ⟨_, _, rfl, hs⟩
  | succ fuel ih =>
    rw [recoveringUpTo_succ]
    split
    · exact ⟨_, _, rfl, hs⟩
    have hitem := h (depth + 1) s hs hs.cursor.ahead
    cases hend : item L s with
    | ok first t =>
      rw [hend] at hitem
      obtain ⟨items, u, hloop, hu⟩ := ih hitem
      refine ⟨first :: items, u, ?_, hu⟩
      simp only [Ending.caught, Ending.andThen_ok, turned, hloop]
    | error fault t =>
      rw [hend] at hitem
      exact ih (resumed_inside hclose s.cursor fault hitem)

theorem recovering {resume : Resume} (hclose : resume.atClose = true) (ends : Kind → Bool) {item : Reader α}
    (h : Stays w L w.Ahead 0 item 0) :
    Stays w L pre (j + 1) (JuiceSyntax.recovering resume ends item) (j + 1) := by
  intro depth s hs hp
  rw [recovering_apply]
  obtain ⟨items, t, hloop, ht⟩ := recoveringUpTo hclose ends h s.cursor.left hs
  rw [hloop]
  exact ht

/-! ## Searches -/

/-- The tokens of a macro body are passed up to the brace that closes it. -/
theorem skipInner {c : Cursor} (h : ∀ c', pre c' → c' = c) :
    Stays w L pre (j + 1) (JuiceSyntax.skip (innerLength 0 c.rest)) (j + 1) := by
  intro depth s hs hp
  obtain rfl := h s.cursor hp
  exact hs.at (Wall.Holds.skip_inner hs.cursor)

/-- A group is passed with the brace that closes it. -/
theorem skipGroup {c : Cursor} (h : ∀ c', pre c' → c' = c ∧ c'.kind.isMark .lBrace = true) :
    Stays w L pre j (JuiceSyntax.skip (groupLength 0 c.rest)) j := by
  intro depth s hs hp
  obtain ⟨rfl, hl⟩ := h s.cursor hp
  exact hs.at (hs.cursor.skip_group hl)

/-! ## Forms -/

theorem map {r : Reader α} (f : α → β) (h : Stays w L pre j r k) : Stays w L pre j (f <$> r) k :=
  .bind h fun _ => .pure _

/-- Two ways to a value that is then used. -/
theorem iteBind {c : Prop} [Decidable c] {r r' : Reader α} {f : α → Reader β} (h : Stays w L pre j r k)
    (h' : Stays w L pre j r' k) (next : ∀ a, Stays w L (fun _ => True) k (f a) m) :
    Stays w L pre j (if c then r >>= f else r' >>= f) m :=
  .ite (.bind h next) (.bind h' next)

/-- A check that fails, or nothing, and what follows. -/
theorem unlessBind {c : Prop} [Decidable c] {r : Reader Unit} {f : Unit → Reader β} (h : Stays w L pre j r j)
    (next : ∀ a pre, Stays w L pre j (f a) k) : Stays w L pre j (if c then f () else r >>= f) k :=
  .ite (next () _) (.bind h fun a => next a _)

theorem whenBind {c : Prop} [Decidable c] {r : Reader Unit} {f : Unit → Reader β} (h : Stays w L pre j r j)
    (next : ∀ a pre, Stays w L pre j (f a) k) : Stays w L pre j (if c then r >>= f else f ()) k :=
  .ite (.bind h fun a => next a _) (next () _)

/-- A check that fails with what stands at the cursor, or nothing, and what follows. -/
theorem whenHereBind {c : Prop} [Decidable c] {g : Span → Reader Unit} {f : Unit → Reader β}
    (h : ∀ span, Stays w L (fun _ => True) j (g span) j) (next : ∀ a pre, Stays w L pre j (f a) k) :
    Stays w L pre j (if c then Reader.here >>= fun span => g span >>= f else f ()) k :=
  .ite (.bind .here fun span => .bind (h span) fun a => next a _) (next () _)

/-- A mark seen at the cursor is still there in what follows. -/
theorem ifMark (mark : Mark) {r r' : Reader α} (h : Stays w L (fun c => pre c ∧ c.kind.isMark mark = true) j r k)
    (h' : Stays w L pre j r' k) : Stays w L pre j (Reader.atMark mark >>= fun found => if found then r else r') k := by
  intro depth s hs hp
  rw [bind_apply, atMark_apply, Ending.andThen_ok]
  split
  · rename_i hmark
    exact h depth s hs ⟨hp, hmark⟩
  · exact h' depth s hs hp

theorem separatedUpTo {item : Reader α} (close : Mark) (h : Stays w L (fun _ => True) j item j) (fuel : Nat) :
    Stays w L (fun _ => True) j (JuiceSyntax.separatedUpTo close item fuel) j := by
  induction fuel with
  | zero => exact .pure _
  | succ fuel ih =>
    exact .bind (.atMark close) fun _ => .ite (.pure _) (.bind h fun _ => .bind (.takeMark _ rfl) fun _ =>
      .ite (.bind ih fun _ => .pure _) (.pure _))

theorem separated {item : Reader α} (close : Mark) (h : Stays w L (fun _ => True) j item j) :
    Stays w L pre j (JuiceSyntax.separated close item) j :=
  .bind .tokensLeft fun _ => .separatedUpTo close h _

end Stays

namespace Grammar

open Stays

/-! ## Literals -/

theorem stays_fragment (hL : L.Stays w) {tokens : List Token} (h : Early w.offset tokens) (span : Span) :
    Stays w L pre j (fragment tokens span) j := by
  unfold fragment
  refine .whenBind (.throw _) fun _ _ => .withTokens hL h <| .bind (.expr _) fun _ => .bind .atEnd fun _ => ?_
  exact .unlessBind (.failAdvised _ _) fun _ => .pure _

theorem stays_segments (hL : L.Stays w) {pieces : List Piece}
    (h : ∀ tokens span, .fragment tokens span ∈ pieces → Early w.offset tokens) :
    Stays w L pre j (segments pieces) j := by
  induction pieces generalizing pre with
  | nil => exact .pure _
  | cons piece rest ih =>
    have hrest (pre : Cursor → Prop) : Stays w L pre j (segments rest) j :=
      ih fun tokens span hm => h tokens span (List.mem_cons_of_mem _ hm)
    cases piece with
    | text text span => exact .bind (hrest _) fun _ => .pure _
    | escape value raw span => exact .bind (hrest _) fun _ => .pure _
    | fragment tokens span =>
      exact .bind (stays_fragment hL (h tokens span List.mem_cons_self) span) fun _ => .bind (hrest _) fun _ => .pure _
    | indent span => exact hrest _

theorem stays_stringLiteral (hL : L.Stays w) (hp : ∀ c, pre c → w.Passable c) {multiline : Bool} {pieces : List Piece}
    (h : FineKind (Early w.offset) (.str multiline pieces)) : Stays w L pre j (stringLiteral multiline pieces) j :=
  .bind (.advance hp) fun _ => .bind (stays_segments hL (h multiline pieces rfl)) fun _ => .pure _

theorem stays_listLiteral (hL : L.Stays w) : Stays w L pre j listLiteral j :=
  .bind (.needMark _ rfl) fun _ => .bind (.separated _ (hL.expr _ _ _)) fun _ => .bind (.needMark _ rfl) fun _ => .pure _

theorem stays_atom (hp : ∀ c, pre c → w.Passable c) (kind : ExprKind) : Stays w L pre j (atom kind) j :=
  .bind (.advance hp) fun _ => .pure _

/-- A cursor at this kind is at a token that may be consumed. -/
theorem passable {kind : Kind} (hk : isPlain kind = true) (c : Cursor) (h : pre c ∧ c.kind = kind) : w.Passable c :=
  Wall.passable_of_kind h.2 hk

theorem stays_argLabel : Stays w L pre j argLabel j := by
  refine .onKind fun kind _ => .onPeek 1 fun next => ?_
  split
  · rename_i label hlabel
    have hk : isPlain kind = true := by
      split at hlabel
      · rfl
      · rfl
      · rfl
      · rfl
      · cases hlabel
    exact .bind (.skipTwo fun c hc => by rw [hc.1.2, hc.2]; exact ⟨hk, rfl⟩) fun _ => .pure _
  · exact .pure _

/-! ## Functions and parameters -/

theorem stays_name : Stays w L pre j name j := by
  refine .onKind fun kind _ => ?_
  split
  · exact .bind (.advance (passable rfl)) fun _ => .pure _
  · exact .failUnexpected _

theorem stays_anyName : Stays w L pre j anyName j := by
  refine .onKind fun kind _ => ?_
  split
  · exact .bind (.advance (passable rfl)) fun _ => .pure _
  · exact .bind (.advance (passable rfl)) fun _ => .pure _
  · exact .failUnexpected _

theorem stays_param (hL : L.Stays w) {named : Reader (String × Span)} (h : Stays w L (fun _ => True) j named j) :
    Stays w L (fun _ => True) j (param named) j :=
  .bind h fun _ => .bind (.takeMark _ rfl) fun _ => .ite (.bind (hL.type _ _) fun _ => .pure _) (.pure _)

theorem stays_params (hL : L.Stays w) {named : Reader (String × Span)} (h : Stays w L (fun _ => True) j named j) :
    Stays w L pre j (params named) j :=
  .bind (.needMark _ rfl) fun _ => .bind (.separated _ (stays_param hL h)) fun _ => .bind (.needMark _ rfl) fun _ => .pure _

theorem stays_fnName : Stays w L pre j fnName j := by
  refine .onKind fun kind _ => ?_
  split
  · exact .bind (.advance (passable rfl)) fun _ => .pure _
  · exact .bind (.advance (passable rfl)) fun _ => .pure _
  · exact .pure _

theorem stays_fnDecl (hL : L.Stays w) : Stays w L pre j fnDecl j :=
  .bind .here fun _ => .bind (.takeWord _ rfl) fun _ => .bind (.needWord _ rfl) fun _ => .bind stays_fnName fun _ =>
    .bind (.atMark _) fun _ => .iteBind (stays_params hL stays_name) (.pure _) fun _ => .bind (.takeMark _ rfl) fun _ =>
    .iteBind (.map _ (hL.type _ _)) (.pure _) fun _ => .bind (hL.block _ _) fun _ => .bind (.spanFrom _) fun _ => .pure _

/-! ## Types -/

theorem stays_typeArg (hL : L.Stays w) : Stays w L pre j typeArg j :=
  .bind .here fun _ => .bind stays_argLabel fun _ => .bind (hL.type _ _) fun _ => .pure _

theorem stays_typeCall (hL : L.Stays w) (callee : String) (calleeSpan : Span) :
    Stays w L pre j (typeCall callee calleeSpan) j :=
  .bind (.needMark _ rfl) fun _ => .bind (.separated _ (stays_typeArg hL)) fun _ => .bind (.needMark _ rfl) fun _ => .pure _

theorem stays_typeParens (hL : L.Stays w) : Stays w L pre j typeParens j := by
  unfold typeParens
  refine .bind (.needMark _ rfl) fun _ => .bind (.atMark _) fun _ => ?_
  refine .whenBind (.failAdvised _ _) fun _ _ => .bind (hL.type _ _) fun _ => .bind (.takeMark _ rfl) fun _ => ?_
  refine .ite (.ifMark _ ?_ ?_) (.bind (.needMark _ rfl) fun _ => .pure _)
  · exact .bind (.advance fun c hc => Wall.passable_of_kind (eq_of_isMark hc.2) rfl) fun _ =>
      .bind (.record _) fun _ => .pure _
  · exact .bind (.separated _ (hL.type _ _)) fun _ => .bind (.needMark _ rfl) fun _ => .pure _

theorem stays_typeOfName (hL : L.Stays w) (hp : ∀ c, pre c → w.Passable c) (text : String) (kind : TypeKind) :
    Stays w L pre j (typeOfName text kind) j :=
  .bind (.advance hp) fun _ => .bind (.atMark _) fun _ => .ite (stays_typeCall hL _ _) (.pure _)

theorem stays_literalType {literal : Reader Expr} (h : Stays w L pre j literal j) :
    Stays w L pre j (literalType literal) j :=
  .bind h fun _ => .pure _

theorem stays_typeAtom (hL : L.Stays w) : Stays w L pre j typeAtom j := by
  refine .onKind fun kind h => ?_
  split
  · exact stays_typeOfName hL (passable rfl) _ _
  · exact stays_typeOfName hL (passable rfl) _ _
  · exact stays_literalType (stays_atom (passable rfl) _)
  · exact stays_literalType (stays_atom (passable rfl) _)
  · exact stays_literalType (stays_atom (passable rfl) _)
  · exact stays_literalType (stays_stringLiteral hL (passable rfl) h)
  · exact stays_literalType (stays_listLiteral hL)
  · exact stays_typeParens hL
  · exact .failUnexpected _

theorem isPlain_of_typeOp {kind : Kind} {op : TypeOp} (h : TypeOp.ofKind? kind = some op) : isPlain kind = true := by
  unfold TypeOp.ofKind? at h
  split at h
  · rfl
  · rfl
  · cases h

theorem stays_typeRestUpTo (hL : L.Stays w) (left : TypeExpr) (fuel : Nat) :
    Stays w L (fun _ => True) j (typeRestUpTo left fuel) j := by
  induction fuel generalizing left with
  | zero => exact .pure _
  | succ fuel ih =>
    refine .onKind fun kind _ => ?_
    split
    · rename_i op hop
      exact .bind (.advance (passable (isPlain_of_typeOp hop))) fun _ => .bind (stays_typeAtom hL) fun _ => ih _
    · exact .pure _

theorem stays_typeExpr (hL : L.Stays w) : Stays w L pre j typeExpr j :=
  .bind (stays_typeAtom hL) fun _ => .bind .tokensLeft fun _ => stays_typeRestUpTo hL _ _

/-! ## Arguments, macros and parentheses -/

theorem stays_arg (hL : L.Stays w) : Stays w L pre j arg j :=
  .bind .here fun _ => .bind stays_argLabel fun _ => .bind (hL.expr _ _ _) fun _ => .pure _

theorem stays_args (hL : L.Stays w) : Stays w L pre j args j :=
  .bind (.needMark _ rfl) fun _ => .bind (.separated _ (stays_arg hL)) fun _ => .bind (.needMark _ rfl) fun _ => .pure _

theorem stays_macroBody : Stays w L pre j macroBody j := by
  unfold macroBody
  refine .bind .opening fun _ => .onCursor fun c => .bind (.skipInner fun _ hc => hc.2) fun _ => .bind .atEnd fun _ => ?_
  refine .whenHereBind (fun _ => .throw _) fun _ _ => ?_
  exact .bind .advanceInner fun _ => .bind (.noteBody _) fun _ => .bind (.sourceText _) fun _ => .pure _

theorem stays_macroCall (hL : L.Stays w) (hp : ∀ c, pre c → w.Passable c) (text : String) (position : Position) :
    Stays w L pre j (macroCall text position) j := by
  refine .bind (.advance hp) fun _ => .bind (.atMark _) fun _ => .iteBind (stays_args hL) (.pure _) fun _ => ?_
  refine .bind (.atMark _) fun _ => .ite (.bind stays_macroBody fun _ => .pure _) ?_
  exact .ite (.pure _) (.failUnexpected _)

theorem stays_parens (hL : L.Stays w) : Stays w L pre j parens j := by
  unfold parens
  refine .bind (.needMark _ rfl) fun _ => .bind (.atMark _) fun _ => ?_
  refine .whenBind (.failAdvised _ _) fun _ _ => .bind (hL.expr _ _ _) fun _ => .bind (.takeMark _ rfl) fun _ => ?_
  refine .ite (.ifMark _ ?_ ?_) (.bind (.needMark _ rfl) fun _ => .pure _)
  · exact .bind (.advance fun c hc => Wall.passable_of_kind (eq_of_isMark hc.2) rfl) fun _ =>
      .bind (.record _) fun _ => .pure _
  · exact .bind (.separated _ (hL.expr _ _ _)) fun _ => .bind (.needMark _ rfl) fun _ => .pure _

/-! ## Braces -/

theorem stays_blockExpr (hL : L.Stays w) : Stays w L pre j blockExpr j := .bind (hL.block _ _) fun _ => .pure _

/-- A group is passed only where a brace opens one. -/
theorem stays_unresolvable (hp : ∀ c, pre c → c.kind.isMark .lBrace = true) : Stays w L pre j unresolvable j := by
  refine .onHere fun _ => .onCursor fun c => ?_
  exact .bind (.skipGroup fun c' hc => ⟨hc.2, hp c' hc.1.1⟩) fun _ => .bind (.spanFrom _) fun _ =>
    .bind (.record _) fun _ => .pure _

/-- A brace tried as one form and then as something else. -/
theorem stays_tryBrace_else (form : BraceForm) {r otherwise : Reader Expr} (h : Stays w L pre j r j)
    (ho : Stays w L pre j otherwise j) :
    Stays w L pre j (do
      if let some e ← tryBrace form r then
        return e
      otherwise) j :=
  .tryBrace form h (fun _ => .pure _) ho

theorem stays_braceValue (hL : L.Stays w) (hp : ∀ c, pre c → c.kind.isMark .lBrace = true) :
    Stays w L pre j braceValue j := by
  refine .onCursor fun _ => .ite ?_ (stays_blockExpr hL)
  refine stays_tryBrace_else .record (hL.record _ _) (stays_tryBrace_else .block (stays_blockExpr hL) ?_)
  exact stays_unresolvable fun c hc => hp c hc.1

theorem stays_armBody (hL : L.Stays w) : Stays w L pre j armBody j := by
  refine .ifMark _ ?_ (.failThen _)
  refine stays_tryBrace_else .block (stays_blockExpr hL) (.onCursor fun _ => .ite ?_ (stays_blockExpr hL))
  refine stays_tryBrace_else .record (hL.record _ _) ?_
  exact stays_unresolvable fun c hc => hc.1.2

/-! ## Control flow -/

theorem stays_branch (hL : L.Stays w) : Stays w L pre j branch j :=
  .bind (.needWord _ rfl) fun _ => .bind (hL.expr _ _ _) fun _ => .bind (hL.block _ _) fun _ => .pure _

theorem stays_elseBranchesUpTo (hL : L.Stays w) (fuel : Nat) :
    Stays w L (fun _ => True) j (elseBranchesUpTo fuel) j := by
  induction fuel with
  | zero => exact .pure _
  | succ fuel ih =>
    refine .bind (.takeWord _ rfl) fun _ => .ite (.bind .kind fun _ => .ite ?_ ?_) (.pure _)
    · exact .bind (stays_branch hL) fun _ => .bind ih fun _ => .pure _
    · exact .bind (stays_blockExpr hL) fun _ => .pure _

theorem stays_conditional (hL : L.Stays w) : Stays w L pre j conditional j :=
  .bind (stays_branch hL) fun _ => .bind .tokensLeft fun _ => .bind (stays_elseBranchesUpTo hL _) fun _ => .pure _

theorem stays_pattern (hL : L.Stays w) : Stays w L pre j pattern j := by
  refine .bind (.speculate (.bind (hL.expr _ _ _) fun _ => .bind (.atMark _) fun _ => ?_)) fun value => ?_
  · exact .unlessBind (.failUnexpected _) fun _ _ => .pure _
  · split
    · exact .pure _
    · exact .bind (hL.type _ _) fun _ => .pure _

theorem stays_arm (hL : L.Stays w) : Stays w L pre j arm j :=
  .bind (stays_pattern hL) fun _ => .bind (.needMark _ rfl) fun _ => .bind (stays_armBody hL) fun _ => .pure _

theorem stays_selection (hL : L.Stays w) : Stays w L pre j selection j :=
  .bind (.needWord _ rfl) fun _ => .bind (hL.expr _ _ _) fun _ => .bind .opening fun _ =>
    .bind (.recovering rfl _ (stays_arm hL)) fun _ => .bind .closing fun _ => .pure _

/-! ## Operands and chains -/

theorem stays_primary (hL : L.Stays w) (position : Position) : Stays w L pre j (primary position) j := by
  refine .onKind fun kind h => ?_
  split
  · exact stays_atom (passable rfl) _
  · exact stays_atom (passable rfl) _
  · exact stays_atom (passable rfl) _
  · exact stays_atom (passable rfl) _
  · exact stays_atom (passable rfl) _
  · exact stays_stringLiteral hL (passable rfl) h
  · exact stays_macroCall hL (passable rfl) _ _
  · exact stays_listLiteral hL
  · exact stays_parens hL
  · cases position with
    | statement => exact stays_blockExpr hL
    | value => exact stays_braceValue hL fun c hc => by rw [hc.2]; rfl
    | head => exact .failUnexpected _
  · exact .bind (stays_fnDecl hL) fun _ => .pure _
  · exact .bind (stays_fnDecl hL) fun _ => .pure _
  · exact stays_conditional hL
  · exact stays_selection hL
  · exact .bind .here fun _ => .throw _
  · exact .bind .here fun _ => .throw _
  · exact .failUnexpected _

theorem stays_accessesUpTo (hL : L.Stays w) (position : Position) (base : Expr) (fuel : Nat) :
    Stays w L (fun _ => True) j (accessesUpTo position base fuel) j := by
  induction fuel generalizing base with
  | zero => exact .pure _
  | succ fuel ih =>
    exact .bind (.takeMark _ rfl) fun _ => .ite (.bind (stays_primary hL _) fun _ => ih _) (.pure _)

theorem stays_onceAttempted (e : Expr) {next : Unit → Reader Expr} (h : Stays w L pre j (next ()) j) :
    Stays w L pre j (onceAttempted e next) j := by
  unfold onceAttempted
  split
  · exact .failAdvisedThen _ _
  · exact h

theorem stays_attemptOf (hp : ∀ c, pre c → w.Passable c) (e : Expr) : Stays w L pre j (attemptOf e) j :=
  stays_onceAttempted e (.ite (.bind (.advance hp) fun _ => .pure _) (.failAdvisedThen _ _))

theorem stays_postfixUpTo (hL : L.Stays w) (position : Position) (e : Expr) (fuel : Nat) :
    Stays w L (fun _ => True) j (postfixUpTo position e fuel) j := by
  induction fuel generalizing e with
  | zero => exact .pure _
  | succ fuel ih =>
    refine .onKind fun kind _ => ?_
    split
    · exact .bind (stays_args hL) fun _ => ih _
    · exact .bind (.advance (passable rfl)) fun _ => .bind (stays_primary hL _) fun _ => .bind .tokensLeft fun _ =>
        .bind (stays_accessesUpTo hL _ _ _) fun _ => ih _
    · exact .bind (.advance (passable rfl)) fun _ => .bind (stays_primary hL _) fun _ => ih _
    · exact .bind (stays_attemptOf (passable rfl) _) fun _ => ih _
    · exact .pure _

theorem stays_postfixExpr (hL : L.Stays w) (position : Position) : Stays w L pre j (postfixExpr position) j :=
  .bind (stays_primary hL _) fun _ => .bind .tokensLeft fun _ => stays_postfixUpTo hL _ _ _

theorem isPlain_of_unaryOp {kind : Kind} {op : UnaryOp} (h : UnaryOp.ofKind? kind = some op) : isPlain kind = true := by
  unfold UnaryOp.ofKind? at h
  split at h
  · rfl
  · rfl
  · cases h

theorem isPlain_of_binaryOp {kind : Kind} {op : BinaryOp} (h : BinaryOp.ofKind? kind = some op) :
    isPlain kind = true := by
  cases kind with
  | mark mark =>
    cases mark with
    | lBrace => cases h
    | rBrace => cases h
    | _ => rfl
  | _ => cases h

theorem stays_unaryExpr (hL : L.Stays w) (position : Position) : Stays w L pre j (unaryExpr position) j := by
  refine .onKind fun kind _ => ?_
  split
  · rename_i op hop
    exact .bind (.advance (passable (isPlain_of_unaryOp hop))) fun _ => .bind (hL.operand _ _ _) fun _ => .pure _
  · exact stays_postfixExpr hL _

theorem stays_chainUpTo (hL : L.Stays w) (level : Nat) (position : Position) (fuel : Nat) :
    Stays w L (fun _ => True) j (chainUpTo level position fuel) j := by
  induction fuel with
  | zero => exact .pure _
  | succ fuel ih =>
    refine .onKind fun kind _ => ?_
    split
    · rename_i op hop
      have hk := isPlain_of_binaryOp (Option.eq_some_of_filter_eq_some hop)
      exact .bind (.advance (passable hk)) fun _ => .bind (stays_unaryExpr hL _) fun _ => .bind ih fun _ => .pure _
    · exact .pure _

theorem stays_chain (hL : L.Stays w) (level : Nat) (position : Position) : Stays w L pre j (chain level position) j :=
  .bind (stays_unaryExpr hL _) fun _ => .bind .tokensLeft fun _ => .bind (stays_chainUpTo hL _ _ _) fun _ => .pure _

/-! ## Records -/

theorem stays_fieldEnd (field : RecordField) : Stays w L pre j (fieldEnd field) j := by
  refine .bind (.takeMark _ rfl) fun _ => .ite (.pure _) (.bind .kind fun _ => ?_)
  split
  · exact .pure _
  · exact .pure _
  · exact .failThen _

theorem stays_recordField (hL : L.Stays w) : Stays w L pre j recordField j :=
  .bind stays_name fun _ => .bind (.takeMark _ rfl) fun _ => .ite
    (.bind (hL.expr _ _ _) fun _ => .bind (.pure _) fun field => stays_fieldEnd field)
    (.bind (.pure _) fun field => stays_fieldEnd field)

theorem stays_recordFieldsUpTo (hL : L.Stays w) (fuel : Nat) :
    Stays w L (fun _ => True) j (recordFieldsUpTo fuel) j := by
  induction fuel with
  | zero => exact .pure _
  | succ fuel ih =>
    exact .bind (.atMark _) fun _ => .ite (.pure _) (.bind (stays_recordField hL) fun _ => .bind ih fun _ => .pure _)

/-- The last token of a record is consumed unseen. -/
theorem stays_recordExpr (hL : L.Stays w) : Stays w L pre j recordExpr j :=
  .bind .opening fun _ => .bind .tokensLeft fun _ => .bind (stays_recordFieldsUpTo hL _) fun _ =>
    .bind .advanceInner fun _ => .pure _

/-! ## Statements and blocks -/

theorem stays_binding (hL : L.Stays w) : Stays w L pre j binding j := by
  refine .bind stays_name fun _ => .bind (.takeMark _ rfl) fun _ => .ite ?_ ?_
  · exact .bind (hL.type _ _) fun _ => .bind (.takeMark _ rfl) fun _ => .unlessBind (.failUnexpected _) fun _ _ =>
      .bind (.pure _) fun _ => .bind (hL.expr _ _ _) fun _ => .pure _
  · exact .bind (.needMark _ rfl) fun _ => .bind (.pure _) fun _ => .bind (hL.expr _ _ _) fun _ => .pure _

theorem stays_assignment (hL : L.Stays w) : Stays w L pre j assignment j :=
  .bind stays_name fun _ => .bind (.needMark _ rfl) fun _ => .bind (hL.expr _ _ _) fun _ => .pure _

theorem stays_loop (hL : L.Stays w) (ha : ∀ c, pre c → w.Ahead c) : Stays w L pre j loop j := by
  unfold loop
  refine .bind (.needWordAhead _ ha) fun _ => .bind (.atMark _) fun _ => .ite (.bind (hL.block _ _) fun _ => .pure _) ?_
  have ranged (element : Option String) : Stays w L (fun _ => True) j (do
      let first ← expr .head
      let range ← if ← takeMark .dotDot then .between first <$> expr .head else pure (.over first)
      return StatementKind.loop element range (← block)) j :=
    .bind (hL.expr _ _ _) fun _ => .bind (.takeMark _ rfl) fun _ => .iteBind (.map _ (hL.expr _ _ _)) (.pure _) fun _ =>
      .bind (hL.block _ _) fun _ => .pure _
  refine .onKind fun kind _ => .onPeek 1 fun next => ?_
  split
  · exact .bind (.skipTwo fun c hc => by rw [hc.1.2, hc.2]; exact ⟨rfl, rfl⟩) fun _ => .bind (.pure _) fun _ => ranged _
  · exact .bind (.pure _) fun _ => ranged _

theorem stays_leave (hL : L.Stays w) (hp : ∀ c, pre c → w.Passable c) : Stays w L pre j leave j :=
  .bind (.advance hp) fun _ => .onCursor fun _ => .ite (.bind (hL.expr _ _ _) fun _ => .pure _) (.pure _)

theorem stays_statementKind (hL : L.Stays w) (ha : ∀ c, pre c → w.Ahead c) : Stays w L pre j statementKind j := by
  refine .onKind fun kind _ => ?_
  have atWord {word : Keyword} (c : Cursor) (h : pre c ∧ c.kind = .word word) : w.Passable c := by
    have hword : c.kind.isWord word = true := by rw [h.2, Kind.isWord, beq_self_eq_true]
    exact Wall.passable_of_word hword (ha c h.1)
  split
  · exact stays_leave hL atWord
  · exact .bind (.advance atWord) fun _ => .pure _
  · exact .bind (.advance atWord) fun _ => .pure _
  · exact stays_loop hL fun c h => ha c h.1
  · exact .bind (stays_fnDecl hL) fun _ => .pure _
  · exact .bind (stays_fnDecl hL) fun _ => .pure _
  · exact .bind (hL.block _ _) fun _ => .pure _
  · exact .bind .here fun _ => .throw _
  · exact .bind .here fun _ => .throw _
  · exact .failAdvised _ _
  · exact .failAdvised _ _
  · exact .failAdvised _ _
  · exact .failAdvised _ _
  · exact .failAdvised _ _
  · refine .onCursor fun _ => .ite (.bind (stays_binding hL) fun _ => .pure _) ?_
    exact .ite (.bind (stays_assignment hL) fun _ => .pure _) (.bind (hL.expr _ _ _) fun _ => .pure _)
  · exact .bind (.peek 1) fun _ => .ite (.failAdvised _ _) (.bind (hL.expr _ _ _) fun _ => .pure _)
  · exact .bind (hL.expr _ _ _) fun _ => .pure _

/-- A statement that begins before the wall ends before it. -/
theorem stays_statement (hL : L.Stays w) : Stays w L w.Ahead j statement j :=
  .onHere fun _ => .bind (stays_statementKind hL fun _ h => h.1) fun _ => .bind (.spanFrom _) fun _ => .pure _

theorem stays_blockBody (hL : L.Stays w) : Stays w L pre j blockBody j := by
  refine .bind .opening fun _ => .bind (.recovering rfl _ (stays_statement hL)) fun _ => .bind (.atMark _) fun _ => ?_
  refine .ite (.bind .advanceInner fun _ => .pure _) (.bind .here fun _ => .bind .kind fun _ => ?_)
  refine .bind .atEnd fun _ => .bind .halted fun _ => .ite ?_ (.throw _)
  exact .bind (.record _) fun _ => .bind .here fun _ => .lower (.pure _) (Nat.le_succ j)

/-! ## Items -/

theorem stays_pathRestUpTo (fuel : Nat) : Stays w L (fun _ => True) j (pathRestUpTo fuel) j := by
  induction fuel with
  | zero => exact .pure _
  | succ fuel ih =>
    exact .bind (.takeMark _ rfl) fun _ => .ite (.bind stays_anyName fun _ => .bind ih fun _ => .pure _) (.pure _)

theorem stays_exposed : Stays w L pre j exposed j := by
  refine .onKind fun kind _ => ?_
  split
  · exact .bind (.advance (passable rfl)) fun _ => .pure _
  · exact .bind (.advance (passable rfl)) fun _ => .pure _
  · exact .bind (.advance (passable rfl)) fun _ => .pure _
  · exact .failUnexpected _

theorem stays_importDecl (hopens : opensItem w.first.kind = true) (ha : ∀ c, pre c → w.Ahead c) :
    Stays w L pre j importDecl j := by
  refine .takeWordThen hopens (.inr rfl) ha fun _ => .bind (.needWordAhead _ fun _ h => h) fun _ => .bind (.takeMark _ rfl) fun _ =>
    .bind stays_anyName fun _ => .bind .tokensLeft fun _ => .bind (stays_pathRestUpTo _) fun _ =>
    .bind (.takeWord _ rfl) fun _ => .iteBind (.map _ stays_anyName) (.pure _) fun _ =>
    .bind (.takeMark _ rfl) fun _ => .ite ?_ (.bind (.pure _) fun _ => .pure _)
  exact .bind (.separated _ stays_exposed) fun _ => .bind (.needMark _ rfl) fun _ => .bind (.pure _) fun _ => .pure _

theorem stays_member (hL : L.Stays w) : Stays w L pre j member j := by
  refine .onCursor fun c => ?_
  dsimp only
  split
  · rename_i hkind hnext
    exact .bind (.skipTwo fun c' hc => by rw [hc.2, hkind, hnext]; exact ⟨rfl, rfl⟩) fun _ =>
      .bind (hL.type _ _) fun _ => .pure _
  · rename_i hkind hnext
    exact .bind (.skipTwo fun c' hc => by rw [hc.2, hkind, hnext]; exact ⟨rfl, rfl⟩) fun _ =>
      .bind (hL.type _ _) fun _ => .pure _
  · rename_i hkind _
    exact .bind (.advance fun c' hc => Wall.passable_of_kind (hc.2 ▸ hkind) rfl) fun _ => .bind (.atMark _) fun _ =>
      .iteBind (stays_params hL stays_name) (.pure _) fun _ => .bind (.spanFrom _) fun _ => .pure _
  · exact .failAdvised _ _

theorem stays_addMember (body : Option TypeBody) (member : Member) : Stays w L pre j (addMember body member) j := by
  unfold addMember
  split
  · exact .pure _
  · exact .pure _
  · exact .bind (.record _) fun _ => .pure _
  · exact .bind (.record _) fun _ => .pure _
  · exact .pure _
  · exact .pure _

theorem stays_membersUpTo (hL : L.Stays w) (body : Option TypeBody) (fuel : Nat) :
    Stays w L (fun _ => True) j (membersUpTo body fuel) j := by
  induction fuel generalizing body with
  | zero => exact .pure _
  | succ fuel ih =>
    exact .bind (.atMark _) fun _ => .ite (.pure _) (.bind (stays_member hL) fun _ =>
      .bind (stays_addMember _ _) fun _ => .bind (.takeMark _ rfl) fun _ => ih _)

theorem stays_members (hL : L.Stays w) : Stays w L pre j members j :=
  .bind .opening fun _ => .bind .tokensLeft fun _ => .bind (stays_membersUpTo hL _ _) fun _ =>
    .bind .closing fun _ => .pure _

theorem stays_declaredType (keyword : Bool) : Stays w L pre j (declaredType keyword) j := by
  refine .ite stays_anyName (.onKind fun kind _ => ?_)
  split
  · exact .bind (.advance (passable rfl)) fun _ => .pure _
  · exact .failUnexpected _

theorem stays_typeDecl (hL : L.Stays w) (ha : ∀ c, pre c → w.Ahead c) : Stays w L pre j typeDecl j :=
  .bind (.takeWordAhead _ ha) fun _ => .bind (stays_declaredType _) fun _ => .bind (.atMark _) fun _ =>
    .iteBind (stays_params hL stays_anyName) (.pure _) fun _ => .bind (.needMark _ rfl) fun _ =>
    .bind (.atMark _) fun _ => .iteBind (stays_members hL) (.map _ (hL.type _ _)) fun _ => .pure _

theorem stays_implFn (hL : L.Stays w) : Stays w L pre j implFn j := by
  refine .bind .kind fun _ => ?_
  split
  · exact stays_fnDecl hL
  · exact stays_fnDecl hL
  · exact .failUnexpected _

theorem stays_implDecl (hL : L.Stays w) (hopens : opensItem w.first.kind = true) (ha : ∀ c, pre c → w.Ahead c) :
    Stays w L pre j implDecl j := by
  have body (traitType : Option TypeExpr) (selfType : TypeExpr) : Stays w L (fun _ => True) j (do
      let _ ← needMark .lBrace
      let fns ← recovering .fn (·.isMark .rBrace) implFn
      let _ ← needMark .rBrace
      return (⟨traitType, selfType, fns⟩ : Impl)) j :=
    .bind .opening fun _ => .bind (.recovering rfl _ (stays_implFn hL)) fun _ => .bind .closing fun _ => .pure _
  have hfor (c : Cursor) : c.kind.isWord .forWord = true → w.Ahead c := fun hword hrest => by
    rw [Wall.kind_tail hrest] at hword
    rw [eq_of_isWord hword] at hopens
    exact absurd hopens Bool.false_ne_true
  exact .bind (.needWordAhead _ ha) fun _ => .bind (hL.type _ _) fun _ => .bind (.takeWordAt _ hfor) fun _ =>
    .ite (.bind (hL.type _ _) fun _ => .bind (.pure _) fun _ => body _ _) (.bind (.pure _) fun _ => body _ _)

theorem stays_itemKind (hL : L.Stays w) (hopens : opensItem w.first.kind = true) (ha : ∀ c, pre c → w.Ahead c) :
    Stays w L pre j itemKind j := by
  refine .onCursor fun c => ?_
  have here (c' : Cursor) (h : pre c' ∧ c' = c) : w.Ahead c' := ha c' h.1
  split
  · exact .bind (stays_importDecl hopens here) fun _ => .pure _
  · exact .bind (stays_importDecl hopens here) fun _ => .pure _
  · exact .bind (stays_fnDecl hL) fun _ => .pure _
  · exact .bind (stays_fnDecl hL) fun _ => .pure _
  · exact .bind (stays_typeDecl hL here) fun _ => .pure _
  · exact .bind (stays_implDecl hL hopens here) fun _ => .pure _
  · exact .throw _
  · exact .throw _
  · refine .ite (.bind (stays_binding hL) fun _ => .pure _) ?_
    exact .ite (.bind (stays_assignment hL) fun _ => .pure _) (.throw _)
  · exact .ite (.bind (stays_typeDecl hL here) fun _ => .pure _) (.failUnexpected _)

/-- An item that begins before the wall ends before it. -/
theorem stays_item (hL : L.Stays w) (hopens : opensItem w.first.kind = true) : Stays w L w.Ahead j item j := by
  unfold item
  refine .onHere fun _ => .takeWordThen hopens (.inl rfl) (fun _ h => h.1) fun _ => .onCursor fun _ => .ite ?_ ?_
  · exact .throwThen _
  · exact .bind (stays_itemKind hL hopens fun _ h => h.1) fun _ => .bind (.spanFrom _) fun _ => .pure _

end Grammar

/-! ## Levels -/

theorem level_stays (w : Wall) (setting : Setting) (n : Nat) : (level setting n).Stays w := by
  have hsteady := level_steady (inherited_early w.offset) (remembers_steady w setting.options)
  induction n with
  | zero =>
    have deep {α : Type} {pre : Cursor → Prop} {j : Nat} {r : Reader α}
        (h : r (level setting 0) = tooDeep setting.options.maxDepth) : Stays w (level setting 0) pre j r j := by
      intro depth s hs hp
      rw [h]
      exact hs.mono (Nat.le_add_right _ _)
    exact ⟨hsteady 0, fun _ _ _ => deep rfl, fun _ _ _ => deep rfl, fun _ _ => deep rfl, fun _ _ => deep rfl,
      fun _ _ => deep rfl⟩
  | succ n ih =>
    have lift {α : Type} {pre : Cursor → Prop} {j : Nat} {r r' : Reader α} (h : Stays w (level setting n) pre j r j)
        (heq : r' (level setting (n + 1)) = r (level setting n)) : Stays w (level setting (n + 1)) pre j r' j := by
      intro depth s hs hp
      rw [heq]
      exact h depth s hs hp
    exact ⟨hsteady (n + 1), fun position _ _ => lift (stays_chain ih 1 position) rfl,
      fun position _ _ => lift (stays_chain ih operandLevel position) rfl, fun _ _ => lift (stays_blockBody ih) rfl,
      fun _ _ => lift (stays_typeExpr ih) rfl, fun _ _ => lift (stays_recordExpr ih) rfl⟩

end JuiceSyntax
