/-
  What a reader builds, whether it gives a result or ends in a fault. `good` is a property of spans that
  the tokens of some lists have, and that goes over to spans made from others (`Ground`). A state is
  anchored if every span that it keeps is good: that of the last token, those of faults and of the text
  passed over, and those of macro bodies.

  `Builds p r post`: a reader `r` that begins in an anchored state where `p` holds ends in an anchored
  state, with a result for which `post` holds or with a fault whose span is good. A production is followed
  step by step, as in `Builds.bind`.
-/
import JuiceSyntax.Proofs.Grammar.Balance
import JuiceSyntax.Proofs.Grammar.Growth
import JuiceSyntax.Proofs.Tree.Elements

namespace JuiceSyntax

open Reader Grammar

/-! ## Good spans -/

/-- The spans of fair token lists are good, and so is what readers make of good ones. -/
structure Ground (good : Span → Prop) (fair : List Token → Prop) : Prop where
  inherited : Inherited fair
  tokens : ∀ {tokens}, fair tokens → ∀ span ∈ tokenSpans tokens, good span
  /-- Where the cursor of an empty list stands. -/
  origin : good (.point 0)
  point : ∀ {span}, good span → good (.point span.start)
  cover : ∀ {a b}, good a → good b → good (a.cover b)
  /-- From the end of a token to the start of a later one. -/
  between : ∀ {opening rest closing}, fair (opening :: rest) → closing ∈ rest → good ⟨opening.span.stop, closing.span.start⟩

structure Fault.Anchored (good : Span → Prop) (fault : Fault) : Prop where
  span : good fault.span
  skipped : ∀ span, fault.skipped = some span → good span

theorem Fault.Anchored.ofCause {good : Span → Prop} {span : Span} (h : good span) (cause : Cause) :
    (Fault.ofCause span cause).Anchored good :=
  ⟨h, nofun⟩

structure Cursor.Anchored (good : Span → Prop) (fair : List Token → Prop) (c : Cursor) : Prop where
  ahead : fair c.rest
  last : ∀ span, c.last = some span → good span

structure State.Anchored (good : Span → Prop) (fair : List Token → Prop) (s : State) : Prop where
  cursor : s.cursor.Anchored good fair
  faults : ∀ fault ∈ s.faults, fault.Anchored good
  macroBodies : ∀ span ∈ s.macroBodies, good span

variable {good : Span → Prop} {fair : List Token → Prop}

/-! ## Cursors -/

theorem Cursor.Anchored.ofTokens {tokens : List Token} (h : fair tokens) : (Cursor.ofTokens tokens).Anchored good fair :=
  ⟨h, nofun⟩

theorem State.Anchored.ofTokens {tokens : List Token} (h : fair tokens) : (State.ofTokens tokens).Anchored good fair :=
  ⟨.ofTokens h, fun _ hmem => absurd hmem List.not_mem_nil, fun _ hmem => absurd hmem List.not_mem_nil⟩

namespace Ground

variable (hg : Ground good fair) {c : Cursor}

include hg

theorem span (hc : c.Anchored good fair) : good c.span := by
  have hahead := hc.ahead
  unfold Cursor.span Cursor.current
  cases hrest : c.rest with
  | nil => exact hg.origin
  | cons token rest =>
    rw [hrest] at hahead
    exact hg.tokens hahead _ (span_mem_tokenSpans List.mem_cons_self)

/-- The spans inside the token at the cursor. -/
theorem kind (hc : c.Anchored good fair) : ∀ span ∈ c.kind.spans, good span := by
  have hahead := hc.ahead
  unfold Cursor.kind Cursor.current
  cases hrest : c.rest with
  | nil =>
    intro span hmem
    exact absurd hmem List.not_mem_nil
  | cons token rest =>
    intro span hmem
    rw [hrest] at hahead
    refine hg.tokens hahead span ?_
    rw [tokenSpans_cons]
    exact List.mem_append_left _ (List.mem_cons_of_mem _ hmem)

theorem peekSpan (hc : c.Anchored good fair) (n : Nat) : good (c.peekSpan n) := by
  unfold Cursor.peekSpan
  cases htoken : c.rest[n]? with
  | none => exact hg.span hc
  | some token => exact hg.tokens hc.ahead _ (span_mem_tokenSpans (List.mem_of_getElem? htoken))

theorem previous (hc : c.Anchored good fair) : good c.previous := by
  unfold Cursor.previous
  cases hlast : c.last with
  | none => exact hg.point (hg.span hc)
  | some span => exact hc.last span hlast

theorem advance (hc : c.Anchored good fair) : c.advance.Anchored good fair := by
  refine ⟨hg.inherited.advance hc.ahead, ?_⟩
  by_cases hend : c.atEnd = true
  · rw [Cursor.advance_of_atEnd hend]
    exact hc.last
  · intro span hlast
    rw [(Cursor.advance_of_mid (by simpa using hend)).2.1] at hlast
    cases hlast
    exact hg.span hc

theorem skip (hc : c.Anchored good fair) (n : Nat) : (c.skip n).Anchored good fair := by
  induction n generalizing c with
  | zero => exact hc
  | succ n ih => exact ih (hg.advance hc)

end Ground

/-! ## States -/

namespace State.Anchored

variable {s t : State}

theorem atCursor (h : s.Anchored good fair) {c : Cursor} (hc : c.Anchored good fair) :
    State.Anchored good fair { s with cursor := c } :=
  ⟨hc, h.faults, h.macroBodies⟩

theorem withFault (hg : Ground good fair) (h : s.Anchored good fair) (options : Options) {fault : Fault}
    (hfault : fault.Anchored good) : (s.withFault options fault).Anchored good fair := by
  have added : ∀ fault' ∈ s.faults ++ [fault], fault'.Anchored good := by
    intro fault' hmem
    obtain hmem | hmem := List.mem_append.1 hmem
    · exact h.faults fault' hmem
    · rw [List.mem_singleton.1 hmem]
      exact hfault
  obtain ⟨-, h'⟩ | ⟨-, -, h'⟩ | ⟨-, -, -, -, h'⟩ | ⟨-, -, -, -, h'⟩ := withFault_cases options fault s
  · rw [h']
    exact h
  · rw [h']
    exact ⟨h.cursor, added, h.macroBodies⟩
  · rw [h']
    refine ⟨h.cursor, fun fault' hmem => ?_, h.macroBodies⟩
    obtain hmem | hmem := List.mem_append.1 hmem
    · exact added fault' hmem
    · rw [List.mem_singleton.1 hmem]
      exact .ofCause (hg.span h.cursor) _
  · rw [h']
    exact ⟨h.cursor, added, h.macroBodies⟩

/-- What recovery passes over lies between good spans. -/
theorem resumed (hg : Ground good fair) (h : s.Anchored good fair) (options : Options) {start : Cursor}
    (hstart : start.Anchored good fair) (resume : Resume) {fault : Fault} (hfault : fault.Anchored good) :
    (s.resumed options start resume fault).Anchored good fair := by
  obtain ⟨-, h'⟩ | ⟨-, -, -, -, h'⟩ := resumed_cases options start resume fault s
  · rw [h']
    exact h.withFault hg options hfault
  · obtain ⟨n, hskip⟩ := resumeFrom_eq_skip start resume s.cursor
    have hcursor : (resumeFrom start resume s.cursor).Anchored good fair := hskip ▸ hg.skip h.cursor n
    rw [h']
    refine ⟨hcursor, fun fault' hmem => ?_, h.macroBodies⟩
    obtain hmem | hmem := List.mem_append.1 hmem
    · exact h.faults fault' hmem
    rw [List.mem_singleton.1 hmem]
    unfold Fault.passed
    split
    · refine ⟨hfault.span, fun span hspan => ?_⟩
      dsimp only at hspan
      cases hskipped : fault.skipped with
      | some passed =>
        rw [hskipped] at hspan
        cases hspan
        exact hfault.skipped _ hskipped
      | none =>
        rw [hskipped] at hspan
        cases hspan
        exact hg.cover (hg.span hstart) (hg.previous hcursor)
    · exact hfault

theorem rewind (h : s.Anchored good fair) (h' : t.Anchored good fair) : (s.rewind t).Anchored good fair where
  cursor := h.cursor
  faults fault hmem := h'.faults fault (List.mem_of_mem_take hmem)
  macroBodies span hmem := h'.macroBodies span (List.mem_of_mem_take hmem)

theorem noteFailed (h : s.Anchored good fair) (offset : Nat) (form : BraceForm) : (s.noteFailed offset form).Anchored good fair := by
  cases form with
  | record => exact ⟨h.cursor, h.faults, h.macroBodies⟩
  | block => exact ⟨h.cursor, h.faults, h.macroBodies⟩

end State.Anchored

/-! ## The judgement -/

/-- An ending in an anchored state. -/
def Ending.Anchored (good : Span → Prop) (fair : List Token → Prop) {α : Type} (post : α → Prop) : Ending α → Prop
  | .ok a s => s.Anchored good fair ∧ post a
  | .error fault s => s.Anchored good fair ∧ fault.Anchored good

structure Builds (good : Span → Prop) (fair : List Token → Prop) (L : Level) (p : Cursor → Prop) {α : Type} (r : Reader α)
    (post : α → Prop) : Prop where
  builds : ∀ {s}, p s.cursor → s.Anchored good fair → Ending.Anchored good fair post (r L s)

variable {L : Level} {p : Cursor → Prop} {α β : Type}

theorem Ending.Anchored.andThen {mid : α → Prop} {post : β → Prop} {ending : Ending α} {k : α → State → Ending β}
    (h : Ending.Anchored good fair mid ending)
    (h' : ∀ a s, mid a → s.Anchored good fair → Ending.Anchored good fair post (k a s)) :
    Ending.Anchored good fair post (Ending.andThen ending k) := by
  cases ending with
  | ok a s => exact h' a s h.2 h.1
  | error fault s => exact h

theorem Ending.Anchored.imp {post post' : α → Prop} {ending : Ending α} (h : Ending.Anchored good fair post' ending)
    (h' : ∀ a, post' a → post a) : Ending.Anchored good fair post ending := by
  cases ending with
  | ok a s => exact ⟨h.1, h' a h.2⟩
  | error fault s => exact h

theorem Ending.Anchored.state {post : α → Prop} {ending : Ending α} (h : Ending.Anchored good fair post ending) :
    (Ending.state ending).Anchored good fair := by
  cases ending with
  | ok a s => exact h.1
  | error fault s => exact h.1

/-- A speculation keeps the ending of what it tries, or takes it all back. -/
theorem Ending.Anchored.speculated {post : α → Prop} {before : State} (hbefore : before.Anchored good fair) {ending : Ending α}
    (h : Ending.Anchored good fair post ending) :
    Ending.Anchored good fair (fun found => ∀ a, found = some a → post a) (speculated before ending) := by
  have recorded {s : State} {fault : Fault} (hs : s.Anchored good fair)
      (hfound : (s.faults.drop before.faults.length).find? (·.isFatal) = some fault) : fault.Anchored good :=
    hs.faults fault (List.mem_of_mem_drop (List.mem_of_find?_eq_some hfound))
  cases ending with
  | ok a s =>
    rw [speculated_ok]
    split
    · rename_i fault hfound
      exact ⟨h.1, recorded h.1 hfound⟩
    · split
      · refine ⟨h.1, ?_⟩
        rintro _ ⟨⟩
        exact h.2
      · exact ⟨hbefore.rewind h.1, nofun⟩
  | error fault s =>
    rw [speculated_error]
    split
    · rename_i fault' hfound
      exact ⟨h.1, recorded h.1 hfound⟩
    · split
      · exact h
      · exact ⟨hbefore.rewind h.1, nofun⟩

namespace Builds

/-! ## Steps -/

theorem pure {a : α} {post : α → Prop} (h : post a) : Builds good fair L p (Pure.pure a) post := ⟨fun _ hs => ⟨hs, h⟩⟩

theorem throw {fault : Fault} {post : α → Prop} (h : fault.Anchored good) :
    Builds good fair L p (MonadExcept.throw fault : Reader α) post :=
  ⟨fun _ hs => ⟨hs, h⟩⟩

theorem bind {r : Reader α} {k : α → Reader β} {mid : α → Prop} {post : β → Prop} (h : Builds good fair L p r mid)
    (h' : ∀ a, mid a → Builds good fair L (fun _ => True) (k a) post) : Builds good fair L p (r >>= k) post where
  builds hp hs := by
    rw [bind_apply]
    exact (h.builds hp hs).andThen fun a s hmid hs' => (h' a hmid).builds trivial hs'

/-- A value at hand, and what follows. -/
theorem known {a : α} {k : α → Reader β} {post : β → Prop} (h : Builds good fair L p (k a) post) :
    Builds good fair L p (Pure.pure a >>= k) post :=
  ⟨h.builds⟩

theorem imp {r : Reader α} {post post' : α → Prop} (h : Builds good fair L p r post') (h' : ∀ a, post' a → post a) :
    Builds good fair L p r post :=
  ⟨fun hp hs => (h.builds hp hs).imp h'⟩

theorem ite {c : Prop} [Decidable c] {r r' : Reader α} {post : α → Prop} (h : c → Builds good fair L p r post)
    (h' : ¬c → Builds good fair L p r' post) : Builds good fair L p (if c then r else r') post := by
  split
  · rename_i hc
    exact h hc
  · rename_i hc
    exact h' hc

/-- Two ways to a value that is then used. -/
theorem iteBind {c : Prop} [Decidable c] {r r' : Reader α} {k : α → Reader β} {mid : α → Prop} {post : β → Prop}
    (h : Builds good fair L p r mid) (h' : Builds good fair L p r' mid)
    (next : ∀ a, mid a → Builds good fair L (fun _ => True) (k a) post) :
    Builds good fair L p (if c then r >>= k else r' >>= k) post :=
  .ite (fun _ => .bind h next) fun _ => .bind h' next

theorem map {r : Reader α} (f : α → β) {mid : α → Prop} {post : β → Prop} (h : Builds good fair L p r mid)
    (h' : ∀ a, mid a → post (f a)) : Builds good fair L p (f <$> r) post :=
  .bind h fun a hmid => .pure (h' a hmid)

/-! ## Looking -/

/-- A look, after which the reading still stands where it stood. -/
theorem look {r : Reader α} {k : α → Reader β} {post : β → Prop} (h : Looks L r)
    (h' : ∀ a, Builds good fair L p (k a) post) : Builds good fair L p (r >>= k) post where
  builds {s} hp hs := by
    obtain ⟨a, heq⟩ := h s
    rw [bind_apply, heq]
    exact (h' a).builds hp hs

/-- A step that depends on the cursor alone and moves it. -/
theorem stepAt {r : Reader α} {f : Cursor → α} {g : Cursor → Cursor}
    (hr : ∀ s, r L s = .ok (f s.cursor) { s with cursor := g s.cursor })
    (hsafe : ∀ c, c.Anchored good fair → (g c).Anchored good fair) {k : α → Reader β} {post : β → Prop}
    (h : ∀ c, p c → c.Anchored good fair → Builds good fair L (fun c' => c' = g c) (k (f c)) post) :
    Builds good fair L p (r >>= k) post where
  builds {s} hp hs := by
    rw [bind_apply, hr]
    exact (h s.cursor hp hs.cursor).builds rfl (hs.atCursor (hsafe _ hs.cursor))

theorem onCursor {k : Cursor → Reader β} {post : β → Prop}
    (h : ∀ c, p c → c.Anchored good fair → Builds good fair L (fun c' => c' = c) (k c) post) :
    Builds good fair L p (Reader.cursor >>= k) post :=
  stepAt (f := id) (g := id) (fun _ => rfl) (fun _ => id) h

theorem onMark {m : Mark} {k : Bool → Reader β} {post : β → Prop}
    (h : ∀ b, Builds good fair L (fun c => p c ∧ c.kind.isMark m = b) (k b) post) :
    Builds good fair L p (Reader.atMark m >>= k) post where
  builds {_} hp hs := (h _).builds ⟨hp, rfl⟩ hs

theorem onHere (hg : Ground good fair) {k : Span → Reader β} {post : β → Prop}
    (h : ∀ span, good span → Builds good fair L p (k span) post) : Builds good fair L p (Reader.here >>= k) post where
  builds {_} hp hs := (h _ (hg.span hs.cursor)).builds hp hs

/-- The kind at the cursor, whose fragments are fair and whose spans are good. -/
theorem onKind (hg : Ground good fair) {k : Kind → Reader β} {post : β → Prop}
    (h : ∀ kind, FineKind fair kind → (∀ span ∈ kind.spans, good span) → Builds good fair L p (k kind) post) :
    Builds good fair L p (Reader.kind >>= k) post where
  builds {_} hp hs := (h _ (hg.inherited.current hs.cursor.ahead) (hg.kind hs.cursor)).builds hp hs

theorem spanFrom (hg : Ground good fair) {start : Span} (h : good start) : Builds good fair L p (Reader.spanFrom start) good :=
  ⟨fun _ hs => ⟨hs, hg.cover h (hg.previous hs.cursor)⟩⟩

/-! ## Consuming -/

theorem advance (hg : Ground good fair) : Builds good fair L p Reader.advance fun token => good token.span :=
  ⟨fun _ hs => ⟨hs.atCursor (hg.advance hs.cursor), hg.span hs.cursor⟩⟩

theorem skip (hg : Ground good fair) (n : Nat) : Builds good fair L p (JuiceSyntax.skip n) fun _ => True :=
  ⟨fun _ hs => ⟨hs.atCursor (hg.skip hs.cursor n), trivial⟩⟩

theorem takeMark (hg : Ground good fair) (m : Mark) : Builds good fair L p (Reader.takeMark m) fun _ => True :=
  .look (.atMark m) fun _ => .ite (fun _ => .bind (.advance hg) fun _ _ => .pure trivial) fun _ => .pure trivial

theorem takeWord (hg : Ground good fair) (w : Keyword) : Builds good fair L p (Reader.takeWord w) fun _ => True :=
  .look .kind fun _ => .ite (fun _ => .bind (.advance hg) fun _ _ => .pure trivial) fun _ => .pure trivial

/-! ## Faults -/

theorem unexpected (hg : Ground good fair) (wanted : Wanted) (advice : Option Advice) :
    Builds good fair L p (Reader.unexpected wanted advice) (Fault.Anchored good) :=
  .onHere hg fun _ hspan => .look .kind fun _ => .pure (.ofCause hspan _)

theorem failUnexpected (hg : Ground good fair) {post : α → Prop} (wanted : Wanted) :
    Builds good fair L p (Reader.failUnexpected wanted) post :=
  .bind (.unexpected hg wanted none) fun _ hfault => .throw hfault

theorem failAdvised (hg : Ground good fair) {post : α → Prop} (wanted : Wanted) (advice : Advice) :
    Builds good fair L p (Reader.failAdvised wanted advice) post :=
  .bind (.unexpected hg wanted (some advice)) fun _ hfault => .throw hfault

theorem throwThen {fault : Fault} (h : fault.Anchored good) {k : α → Reader β} {post : β → Prop} :
    Builds good fair L p ((MonadExcept.throw fault : Reader α) >>= k) post :=
  ⟨fun _ hs => ⟨hs, h⟩⟩

theorem failThen (hg : Ground good fair) (wanted : Wanted) {k : α → Reader β} {post : β → Prop} :
    Builds good fair L p (Reader.failUnexpected wanted >>= k) post := by
  have hfail : Builds good fair L p (Reader.failUnexpected wanted : Reader α) fun _ => False := .failUnexpected hg wanted
  exact .bind hfail fun _ hfalse => hfalse.elim

theorem failAdvisedThen (hg : Ground good fair) (wanted : Wanted) (advice : Advice) {k : α → Reader β} {post : β → Prop} :
    Builds good fair L p (Reader.failAdvised wanted advice >>= k) post := by
  have hfail : Builds good fair L p (Reader.failAdvised wanted advice : Reader α) fun _ => False := .failAdvised hg wanted advice
  exact .bind hfail fun _ hfalse => hfalse.elim

theorem needMark (hg : Ground good fair) (m : Mark) : Builds good fair L p (Reader.needMark m) good :=
  .look (.atMark m) fun _ => .ite (fun _ => .bind (.advance hg) fun _ hspan => .pure hspan) fun _ =>
    .onHere hg fun _ hspan => .look .kind fun _ => .throw (.ofCause hspan _)

theorem needWord (hg : Ground good fair) (w : Keyword) : Builds good fair L p (Reader.needWord w) good :=
  .look .kind fun _ => .ite (fun _ => .bind (.advance hg) fun _ hspan => .pure hspan) fun _ =>
    .onHere hg fun _ hspan => .look .kind fun _ => .throw (.ofCause hspan _)

/-- The token that is the mark, and what then is ahead. -/
theorem onMarkTaken (hg : Ground good fair) (m : Mark) {k : Span → Reader β} {post : β → Prop}
    (h : ∀ token, good token.span → Builds good fair L (fun c => fair (token :: c.rest)) (k token.span) post) :
    Builds good fair L p (Reader.needMark m >>= k) post where
  builds {s} _ hs := by
    rw [bind_apply, needMark_apply]
    split
    · rename_i hmark
      have hcurrent : s.cursor.rest = s.cursor.current :: s.cursor.advance.rest := by
        have hmid : s.cursor.atEnd = false := isDone_of_isMark hmark
        have hrest := (Cursor.advance_of_mid hmid).2.2
        unfold Cursor.current
        cases htokens : s.cursor.rest with
        | nil => simp [Cursor.atEnd, Cursor.kind, Cursor.current, htokens, Kind.isDone] at hmid
        | cons token rest => rw [hrest, htokens]; rfl
      have hahead : fair (s.cursor.current :: s.cursor.advance.rest) := hcurrent ▸ hs.cursor.ahead
      exact (h s.cursor.current (hg.span hs.cursor)).builds hahead (hs.atCursor (hg.advance hs.cursor))
    · exact ⟨hs, .ofCause (hg.span hs.cursor) _⟩

/-- A macro body is noted. -/
theorem noteBody {inner : Span} (h : good inner) :
    Builds good fair L p (modify fun s => { s with macroBodies := s.macroBodies ++ [inner] } : Reader Unit) fun _ => True where
  builds {s} _ hs := by
    rw [noteBody_apply]
    refine ⟨⟨hs.cursor, hs.faults, fun span hmem => ?_⟩, trivial⟩
    obtain hmem | hmem := List.mem_append.1 hmem
    · exact hs.macroBodies span hmem
    · exact List.mem_singleton.1 hmem ▸ h

theorem record (hg : Ground good fair) {fault : Fault} (h : fault.Anchored good) :
    Builds good fair L p (Reader.record fault) fun _ => True where
  builds _ hs := by
    rw [record_apply]
    exact ⟨hs.withFault hg _ h, trivial⟩

/-! ## Readers run by others -/

theorem attempt {r : Reader α} {post : α → Prop} (h : Builds good fair L p r post) :
    Builds good fair L p (JuiceSyntax.attempt r) fun result =>
      match result with
      | .ok a => post a
      | .error fault => fault.Anchored good where
  builds {s} hp hs := by
    have hending := h.builds hp hs
    rw [attempt_apply]
    cases hr : r L s with
    | ok a t =>
      rw [hr] at hending
      exact hending
    | error fault t =>
      rw [hr] at hending
      exact hending

theorem speculate {r : Reader α} {post : α → Prop} (h : Builds good fair L p r post) :
    Builds good fair L p (JuiceSyntax.speculate r) fun found => ∀ a, found = some a → post a where
  builds hp hs := by
    rw [speculate_apply]
    exact .speculated hs (h.builds hp hs)

theorem tryBrace (form : BraceForm) {r : Reader Expr} {post : Expr → Prop}
    (h : Builds good fair L p r post) :
    Builds good fair L p (Grammar.tryBrace form r) fun found => ∀ e, found = some e → post e where
  builds {s} hp hs := by
    have hending := Ending.Anchored.speculated hs (h.builds hp hs)
    rw [tryBrace_apply]
    split
    · exact ⟨hs, nofun⟩
    · cases hspeculated : speculated s (r L s) with
      | error fault t =>
        rw [hspeculated] at hending
        exact hending
      | ok found t =>
        rw [hspeculated] at hending
        cases found with
        | none => exact ⟨hending.1.noteFailed _ _, nofun⟩
        | some e => exact hending

theorem withTokens {tokens : List Token} (htokens : fair tokens) {r : Reader α} {post : α → Prop}
    (h : Builds good fair L (fun _ => True) r post) : Builds good fair L p (JuiceSyntax.withTokens tokens r) post where
  builds {s} _ hs := by
    have hending := h.builds trivial (hs.atCursor (.ofTokens htokens))
    rw [withTokens_apply]
    cases hr : r L { s with cursor := .ofTokens tokens } with
    | ok a t =>
      rw [hr] at hending
      exact ⟨hending.1.atCursor hs.cursor, hending.2⟩
    | error fault t =>
      rw [hr] at hending
      exact ⟨hending.1.atCursor hs.cursor, hending.2⟩

/-! ## Loops -/

theorem recoveringUpTo (hg : Ground good fair) {item : Reader α} {post : α → Prop}
    (h : Builds good fair L (fun _ => True) item post) (resume : Resume) (ends : Kind → Bool) (fuel : Nat) :
    Builds good fair L p (JuiceSyntax.recoveringUpTo resume ends item fuel) fun items => ∀ a ∈ items, post a := by
  induction fuel generalizing p with
  | zero => exact .pure nofun
  | succ fuel ih =>
    refine ⟨fun {s} _ hs => ?_⟩
    have hitem := h.builds trivial hs
    rw [recoveringUpTo_succ]
    split
    · exact ⟨hs, nofun⟩
    · cases hread : item L s with
      | error fault t =>
        rw [hread] at hitem
        exact (ih (p := fun _ => True)).builds trivial (hitem.1.resumed hg _ hs.cursor _ hitem.2)
      | ok first t =>
        rw [hread] at hitem
        refine ((ih (p := fun _ => True)).builds trivial hitem.1).andThen fun rest u hrest hu => ?_
        exact ⟨hu, List.forall_mem_cons.2 ⟨hitem.2, hrest⟩⟩

theorem recovering (hg : Ground good fair) {item : Reader α} {post : α → Prop}
    (h : Builds good fair L (fun _ => True) item post) (resume : Resume) (ends : Kind → Bool) :
    Builds good fair L p (JuiceSyntax.recovering resume ends item) fun items => ∀ a ∈ items, post a :=
  .look .tokensLeft fun _ => h.recoveringUpTo hg resume ends _

theorem separatedUpTo (hg : Ground good fair) (close : Mark) {item : Reader α} {post : α → Prop}
    (h : Builds good fair L (fun _ => True) item post) (fuel : Nat) :
    Builds good fair L p (JuiceSyntax.separatedUpTo close item fuel) fun items => ∀ a ∈ items, post a := by
  induction fuel generalizing p with
  | zero => exact .pure nofun
  | succ fuel ih =>
    refine .look (.atMark close) fun _ => .ite (fun _ => .pure nofun) fun _ => ?_
    refine .bind (.imp ⟨fun _ hs => h.builds trivial hs⟩ fun _ => id) fun first hfirst => ?_
    refine .bind (.takeMark hg _) fun _ _ => .ite (fun _ => ?_) fun _ => .pure (List.forall_mem_singleton.2 hfirst)
    exact .bind ih fun rest hrest => .pure (List.forall_mem_cons.2 ⟨hfirst, hrest⟩)

theorem separated (hg : Ground good fair) (close : Mark) {item : Reader α} {post : α → Prop}
    (h : Builds good fair L (fun _ => True) item post) :
    Builds good fair L p (JuiceSyntax.separated close item) fun items => ∀ a ∈ items, post a :=
  .look .tokensLeft fun _ => .separatedUpTo hg close h _

theorem separatedUpTo_succ (hg : Ground good fair) {close : Mark} {item : Reader α} {post : α → Prop}
    (h : Builds good fair L (fun _ => True) item post) (hp : ∀ c, p c → c.kind.isMark close = false) (fuel : Nat) :
    Builds good fair L p (JuiceSyntax.separatedUpTo close item (fuel + 1)) fun items =>
      items ≠ [] ∧ ∀ a ∈ items, post a := by
  refine .onMark fun closed => .ite (fun hclosed => ?_) fun _ => ?_
  · subst hclosed
    exact ⟨fun hs _ => absurd ((hp _ hs.1).symm.trans hs.2) (by decide)⟩
  · refine .bind ⟨fun _ hs => h.builds trivial hs⟩ fun first hfirst => .bind (.takeMark hg _) fun _ _ => ?_
    refine .ite (fun _ => ?_) fun _ => .pure ⟨List.cons_ne_nil _ _, List.forall_mem_singleton.2 hfirst⟩
    exact .bind (.separatedUpTo hg close h fuel) fun rest hrest =>
      .pure ⟨List.cons_ne_nil _ _, List.forall_mem_cons.2 ⟨hfirst, hrest⟩⟩

/-- Where the closing mark does not stand yet there is an item before it. -/
theorem separatedBefore (hg : Ground good fair) {close : Mark} {item : Reader α} {post : α → Prop}
    (h : Builds good fair L (fun _ => True) item post) (hp : ∀ c, p c → c.kind.isMark close = false)
    {k : List α → Span → Reader β} {post' : β → Prop}
    (next : ∀ items span, items ≠ [] → (∀ a ∈ items, post a) → good span → Builds good fair L (fun _ => True) (k items span) post') :
    Builds good fair L p (JuiceSyntax.separated close item >>= fun items => Reader.needMark close >>= k items) post' where
  builds {s} hs hanchored := by
    rw [bind_apply]
    change Ending.Anchored good fair post' (Ending.andThen (JuiceSyntax.separatedUpTo close item s.cursor.left L s) _)
    cases s.cursor.left with
    | zero =>
      -- No tokens are left, and so no closing mark.
      change Ending.Anchored good fair post' ((Reader.needMark close >>= k []) L s)
      rw [bind_apply, needMark_apply, hp _ hs]
      exact ⟨hanchored, .ofCause (hg.span hanchored.cursor) _⟩
    | succ fuel =>
      refine ((separatedUpTo_succ hg h hp fuel).builds hs hanchored).andThen fun items t hitems ht => ?_
      have hclosed : Builds good fair L (fun _ => True) (Reader.needMark close >>= k items) post' :=
        .bind (.needMark hg close) fun span hspan => next items span hitems.1 hitems.2 hspan
      exact hclosed.builds trivial ht

end Builds

end JuiceSyntax
