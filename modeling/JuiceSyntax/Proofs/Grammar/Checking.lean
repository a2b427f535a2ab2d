/-
  Runs of a reader in which no step is left unchecked. They are the runs with a counter for the nesting, made in a
  list of tokens: every plain step is begun where the cursor stands in that list and the tokens ahead are in their
  places in the document, and the steps that could fail are made as they are where they could (`recover?`,
  `speculated?`), as is the counting down after a call of the level below.

  `Checkable.checked_iff`: every reader has just one such run from where it stands, which ends as the reader does.
-/
import JuiceSyntax.Proofs.Grammar.Indexing
import JuiceSyntax.Proofs.Grammar.Running

namespace JuiceSyntax

open Reader Grammar

/-! ## Checked runs -/

/-- Steps that can always be made: they look at tokens if there are any, take the token at the cursor, and add to
what is recorded. -/
inductive PlainStep : {α : Type} → Reader α → Prop
  | pure {α : Type} (a : α) : PlainStep (Pure.pure a : Reader α)
  | throw {α : Type} (fault : Fault) : PlainStep (throw fault : Reader α)
  | cursor : PlainStep Reader.cursor
  | spanFrom (start : Span) : PlainStep (Reader.spanFrom start)
  | halted : PlainStep Reader.halted
  | sourceText (span : Span) : PlainStep (Grammar.sourceText span)
  | advance : PlainStep Reader.advance
  | skip (n : Nat) : PlainStep (skip n)
  | noteBody (inner : Span) : PlainStep (modify fun s => { s with macroBodies := s.macroBodies ++ [inner] } : Reader Unit)
  | record (fault : Fault) : PlainStep (Reader.record fault)

/-- It calls nothing. -/
theorem PlainStep.same {α : Type} {r : Reader α} (h : PlainStep r) (setting : Setting) (n : Nat) :
    r (level setting n) = r (level setting 0) := by
  cases h with
  | sourceText span =>
    exact funext fun s => by rw [sourceText_apply, sourceText_apply, source_level, source_level]
  | record fault => exact funext fun s => by rw [record_apply, record_apply, options_level, options_level]
  | _ => rfl

/-- `Checked source options tokens r depth s ending depth'`: begun in the state `s` in the list `tokens`, with the
counter for the nesting at `depth`, the reader makes every step with its checks and ends as `ending`, with the
counter at `depth'`. -/
inductive Checked (source : String) (options : Options) :
    List Token → {α : Type} → Reader α → Nat → State → Ending α → Nat → Prop
  | plain {α : Type} {tokens : List Token} {r : Reader α} (step : PlainStep r) (depth : Nat) {s : State}
    (stands : s.Stands source tokens) :
    Checked source options tokens r depth s (r (level (.ofSource source options) 0) s) depth
  | ok {α β : Type} {tokens : List Token} {r : Reader α} {k : α → Reader β} {depth depth' depth'' : Nat} {s t : State} {a : α}
    {ending : Ending β} (first : Checked source options tokens r depth s (.ok a t) depth')
    (next : Checked source options tokens (k a) depth' t ending depth'') :
    Checked source options tokens (r >>= k) depth s ending depth''
  | error {α β : Type} {tokens : List Token} {r : Reader α} {k : α → Reader β} {depth depth' : Nat} {s t : State}
    {fault : Fault} (first : Checked source options tokens r depth s (.error fault t) depth') :
    Checked source options tokens (r >>= k) depth s (.error fault t) depth'
  | attempt {α : Type} {tokens : List Token} {r : Reader α} {depth depth' : Nat} {s : State} {ending : Ending α}
    (tried : Checked source options tokens r depth s ending depth') :
    Checked source options tokens (attempt r) depth s (Ending.caught ending) depth'
  /-- What the try recorded is taken from the number of faults on that there were before it. -/
  | speculate {α : Type} {tokens : List Token} {r : Reader α} {depth depth' : Nat} {s : State} {ending : Ending α}
    {ending' : Ending (Option α)} (tried : Checked source options tokens r depth s ending depth')
    (kept : speculated? s ending = some ending') :
    Checked source options tokens (speculate r) depth s ending' depth'
  | passed {tokens : List Token} {r : Reader Expr} (form : BraceForm) (depth : Nat) {s : State}
    (stands : s.Stands source tokens) (known : (s.failed form).contains s.cursor.span.start = true) :
    Checked source options tokens (tryBrace form r) depth s (.ok none s) depth
  | tried {tokens : List Token} {r : Reader Expr} (form : BraceForm) {depth depth' : Nat} {s : State} {ending : Ending Expr}
    {ending' : Ending (Option Expr)} (unknown : (s.failed form).contains s.cursor.span.start = false)
    (tried : Checked source options tokens r depth s ending depth') (kept : speculated? s ending = some ending') :
    Checked source options tokens (tryBrace form r) depth s (noted form s.cursor.span.start ending') depth'
  /-- The numbers of tokens are those of the inner list, until it is left. -/
  | withTokens {α : Type} {tokens inner : List Token} {r : Reader α} {depth depth' : Nat} {s : State} {ending : Ending α}
    (read : Checked source options inner r depth { s with cursor := .ofTokens inner } ending depth') :
    Checked source options tokens (withTokens inner r) depth s (Ending.placed s.cursor ending) depth'
  /-- The reading that failed began at a number in the same list. -/
  | recover {tokens : List Token} {start : Cursor} (resume : Resume) (depth : Nat) {s t : State}
    (begun : start.Indexed tokens) (stands : s.Stands source tokens)
    (found : recover? tokens start.pos resume s = some t) :
    Checked source options tokens (recover start resume) depth s (.ok () t) depth
  | refused {α : Type} {tokens : List Token} (call : Call α) {depth : Nat} {s : State} (stands : s.Stands source tokens)
    (deep : options.maxDepth ≤ depth) :
    Checked source options tokens call.reader depth s (tooDeep options.maxDepth s) depth
  /-- The counter that goes up before the body goes down behind it. -/
  | nested {α : Type} {tokens : List Token} (call : Call α) {depth depth' deeper : Nat} {s : State} {ending : Ending α}
    (below : depth < options.maxDepth) (body : Checked source options tokens call.body (depth + 1) s ending deeper)
    (back : fewer? deeper = some depth') : Checked source options tokens call.reader depth s ending depth'

theorem fewer?_eq_some {n m : Nat} (h : fewer? n = some m) : n = m + 1 := by
  cases n with
  | zero => cases h
  | succ n => exact congrArg Nat.succ (Option.some.inj h)

section

variable {source : String} {options : Options} {tokens : List Token} {α β : Type}

/-- Checked runs are runs. -/
theorem Checked.runs {r : Reader α} {depth depth' : Nat} {s : State} {ending : Ending α}
    (h : Checked source options tokens r depth s ending depth') :
    Runs (.ofSource source options) r depth s ending depth' := by
  induction h with
  | plain step depth stands => exact .plain (step.same _) depth _
  | ok first next ih ih' => exact .ok ih ih'
  | error first ih => exact .error ih
  | attempt tried ih => exact .attempt ih
  | speculate tried kept ih =>
    rw [speculated_of_some kept]
    exact .speculate ih
  | passed form depth stands known => exact .passed form depth (by rw [known]; rfl)
  | tried form unknown tried kept ih =>
    rw [speculated_of_some kept]
    exact .tried form (by rw [unknown]; rfl) ih
  | withTokens read ih => exact .withTokens ih
  | @recover tokens start resume depth s t begun stands found =>
    rw [recover?_eq resume begun stands.indexed] at found
    rw [← Option.some.inj found, ← recover_apply (level (.ofSource source options) 0)]
    exact .plain (fun n => funext fun s => by rw [recover_apply, recover_apply]) depth s
  | refused call stands deep => exact .refused call _ deep
  | nested call below body back ih =>
    rw [fewer?_eq_some back] at ih
    exact .nested call below ih

theorem State.Stands.ofTokens (h : Fair source tokens) : (State.ofTokens tokens).Stands source tokens :=
  ⟨.ofTokens tokens, h⟩

/-- What only goes forward still stands in the list. -/
theorem State.Stands.grows {s t : State} (h : s.Stands source tokens) (hgrows : Grows s t) : t.Stands source tokens := by
  refine ⟨?_, (inherited_fair source).grows hgrows h.ahead⟩
  obtain ⟨n, hn⟩ := hgrows.cursor
  exact hn ▸ h.indexed.skip n

/-- The reader has a checked run from this state, which ends as the reader does and leaves the counter where it
was. -/
def Checks (source : String) (options : Options) (tokens : List Token) (depth : Nat) {α : Type} (r : Reader α) (s : State) :
    Prop :=
  Checked source options tokens r depth s (r (levelAt (.ofSource source options) depth) s) depth

/-- From wherever it stands. -/
def Checkable (source : String) (options : Options) (depth : Nat) {α : Type} (r : Reader α) : Prop :=
  ∀ tokens s, s.Stands source tokens → Checks source options tokens depth r s

variable {depth : Nat}

theorem PlainStep.checks {r : Reader α} (step : PlainStep r) {s : State} (stands : s.Stands source tokens) :
    Checks source options tokens depth r s := by
  have h : Checked source options tokens r depth s (r (level (.ofSource source options) 0) s) depth :=
    .plain step depth stands
  rwa [← step.same (.ofSource source options) (options.maxDepth - depth)] at h

theorem Checks.bind {r : Reader α} {k : α → Reader β} {s : State} (h : Checks source options tokens depth r s)
    (h' : ∀ a t, r (levelAt (.ofSource source options) depth) s = .ok a t → Checks source options tokens depth (k a) t) :
    Checks source options tokens depth (r >>= k) s := by
  unfold Checks at h ⊢
  rw [bind_apply]
  cases hr : r (levelAt (.ofSource source options) depth) s with
  | ok a t =>
    rw [hr] at h
    exact .ok h (h' a t hr)
  | error fault t =>
    rw [hr] at h
    exact .error h

theorem Checks.ite {c : Prop} [Decidable c] {r r' : Reader α} {s : State} (h : Checks source options tokens depth r s)
    (h' : Checks source options tokens depth r' s) : Checks source options tokens depth (if c then r else r') s := by
  split
  · exact h
  · exact h'

/-- What a reader leaves stands in the list. -/
theorem Composed.stands {r : Reader α} (h : Composed (Fair source) r) (setting : Setting) (depth : Nat) {s : State}
    (stands : s.Stands source tokens) : (Ending.state (r (levelAt setting depth) s)).Stands source tokens :=
  stands.grows (h.grows (inherited_fair source) (level_grows setting _) s stands.ahead)

/-- So does what a list leaves that goes on after faults. -/
theorem Composed.stands_recovering {item : Reader α} (h : Composed (Fair source) item) (resume : Resume) (ends : Kind → Bool)
    (n : Nat) (setting : Setting) (depth : Nat) {s : State} (stands : s.Stands source tokens) :
    (Ending.state (recoveringUpTo resume ends item n (levelAt setting depth) s)).Stands source tokens :=
  stands.grows (recoveringUpTo_steady (grows_steady (inherited_fair source) _)
    (fun s hs => h.grows (inherited_fair source) (level_grows setting _) s hs) resume ends n s stands.ahead)

/-- A try only adds to the faults. -/
theorem Composed.kept {r : Reader α} (h : Composed (Fair source) r) (setting : Setting) (depth : Nat) {s : State}
    (stands : s.Stands source tokens) :
    speculated? s (r (levelAt setting depth) s) = some (speculated s (r (levelAt setting depth) s)) :=
  speculated?_eq (h.grows (inherited_fair source) (level_grows setting _) s stands.ahead).faults.length_le

namespace Checkable

theorem bind {r : Reader α} {k : α → Reader β} (hr : Composed (Fair source) r) (h : Checkable source options depth r)
    (h' : ∀ a, Checkable source options depth (k a)) : Checkable source options depth (r >>= k) := by
  intro tokens s stands
  refine (h tokens s stands).bind fun a t hok => h' a tokens t ?_
  have hstands := hr.stands (.ofSource source options) depth stands
  rwa [hok] at hstands

theorem speculate {r : Reader α} (hr : Composed (Fair source) r) (h : Checkable source options depth r) :
    Checkable source options depth (JuiceSyntax.speculate r) := by
  intro tokens s stands
  unfold Checks
  rw [speculate_apply]
  exact .speculate (h tokens s stands) (hr.kept _ _ stands)

theorem tryBrace (form : BraceForm) {r : Reader Expr} (hr : Composed (Fair source) r)
    (h : Checkable source options depth r) : Checkable source options depth (Grammar.tryBrace form r) := by
  intro tokens s stands
  unfold Checks
  rw [tryBrace_apply, levelAt, remember_level]
  split
  · rename_i hknown
    exact .passed form depth stands hknown
  · rename_i hknown
    exact .tried form (by simpa [Setting.ofSource] using hknown) (h tokens s stands) (hr.kept _ _ stands)

theorem withTokens {inner : List Token} {r : Reader α} (hinner : Fair source inner) (h : Checkable source options depth r) :
    Checkable source options depth (JuiceSyntax.withTokens inner r) := by
  intro tokens s stands
  unfold Checks
  rw [withTokens_apply]
  exact .withTokens (h inner _ ⟨.ofTokens inner, hinner⟩)

theorem recover {start : Cursor} (resume : Resume) {s : State} (begun : start.Indexed tokens)
    (stands : s.Stands source tokens) : Checks source options tokens depth (JuiceSyntax.recover start resume) s := by
  unfold Checks
  rw [recover_apply]
  exact .recover resume depth begun stands (recover?_eq resume begun stands.indexed)

/-- A fault is recorded, and nothing more is read. -/
theorem recordLast (fault : Fault) (a : α) : Checkable source options depth (Reader.record fault >>= fun _ => Pure.pure a) := by
  intro tokens s stands
  refine ((PlainStep.record fault).checks stands).bind fun _ t hok => (PlainStep.pure _).checks ?_
  rw [record_apply] at hok
  cases hok
  exact stands.grows (.withFault _ fault s)

/-- A fault does not end what goes on after an attempt. -/
theorem attempt {r : Reader α} (hr : Composed (Fair source) r) (h : Checkable source options depth r) {s : State}
    (stands : s.Stands source tokens) {k : Except Fault α → Reader β}
    (next : ∀ outcome t, t.Stands source tokens → Checks source options tokens depth (k outcome) t) :
    Checks source options tokens depth (JuiceSyntax.attempt r >>= k) s := by
  have attempted : Checks source options tokens depth (JuiceSyntax.attempt r) s := by
    unfold Checks
    rw [attempt_apply]
    exact .attempt (h tokens s stands)
  refine attempted.bind fun outcome t hok => next outcome t ?_
  have hstands := hr.stands (.ofSource source options) depth stands
  rwa [← Ending.state_caught, ← attempt_apply, hok] at hstands

theorem recoveringUpTo (resume : Resume) (ends : Kind → Bool) {item : Reader α} (hr : Composed (Fair source) item)
    (h : Checkable source options depth item) (n : Nat) :
    Checkable source options depth (JuiceSyntax.recoveringUpTo resume ends item n) := by
  induction n with
  | zero => exact fun tokens s stands => (PlainStep.pure _).checks stands
  | succ n ih =>
    intro tokens s stands
    refine (PlainStep.cursor.checks stands).bind fun start t hok => ?_
    cases hok
    refine (PlainStep.halted.checks stands).bind fun ended t hok => ?_
    cases hok
    refine .ite ((PlainStep.pure _).checks stands) (attempt hr h stands fun outcome t hstands => ?_)
    cases outcome with
    | ok first =>
      refine (ih tokens t hstands).bind fun rest u hok => (PlainStep.pure _).checks ?_
      have hleft := hr.stands_recovering resume ends n (.ofSource source options) depth hstands
      rwa [hok] at hleft
    | error fault =>
      have hrecorded := hstands.grows (.withFault (levelAt (.ofSource source options) depth).options fault t)
      refine ((PlainStep.record fault).checks hstands).bind fun _ u hok => ?_
      rw [record_apply] at hok
      cases hok
      refine (recover resume stands.indexed hrecorded).bind fun _ u hok => ih tokens u ?_
      rw [recover_apply] at hok
      cases hok
      exact hstands.grows (.resumed _ s.cursor resume fault t)

end Checkable

/-- Readers have checked runs, if the calls of the level below have. -/
theorem Composed.checkable_of {r : Reader α} (h : Composed (Fair source) r)
    (hcall : ∀ {β : Type} (call : Call β), Checkable source options depth call.reader) :
    Checkable source options depth r := by
  induction h with
  | pure a => exact fun _ _ stands => (PlainStep.pure a).checks stands
  | bind first next ih ih' => exact .bind first ih ih'
  | throw fault fresh => exact fun _ _ stands => (PlainStep.throw fault).checks stands
  | cursor same next ih =>
    intro tokens s stands
    refine (PlainStep.cursor.checks stands).bind fun c t hok => ?_
    cases hok
    exact ih s.cursor stands.ahead tokens s stands
  | spanFrom start => exact fun _ _ stands => (PlainStep.spanFrom start).checks stands
  | halted => exact fun _ _ stands => PlainStep.halted.checks stands
  | sourceText span => exact fun _ _ stands => (PlainStep.sourceText span).checks stands
  | advance => exact fun _ _ stands => PlainStep.advance.checks stands
  | skip n => exact fun _ _ stands => (PlainStep.skip n).checks stands
  | noteBody inner => exact fun _ _ stands => (PlainStep.noteBody inner).checks stands
  | record fault fresh => exact fun _ _ stands => (PlainStep.record fault).checks stands
  | expr position => exact hcall (.expr position)
  | operand position => exact hcall (.operand position)
  | block => exact hcall .block
  | type => exact hcall .type
  | recordLiteral => exact hcall .record
  | speculate tried ih => exact .speculate tried ih
  | tryBrace form tried ih => exact .tryBrace form tried ih
  | withTokens inner read ih => exact .withTokens inner ih
  | recovering resume ends turn ih =>
    intro tokens s stands
    have hleft : Checks source options tokens depth JuiceSyntax.tokensLeft s := by
      refine (PlainStep.cursor.checks stands).bind fun c t hok => ?_
      cases hok
      exact (PlainStep.pure _).checks stands
    refine hleft.bind fun n t hok => ?_
    cases hok
    exact Checkable.recoveringUpTo resume ends turn ih _ tokens s stands

/-- By induction on how far the counter is from the limit. -/
theorem Call.checkable {α : Type} (call : Call α) (depth : Nat) : Checkable source options depth call.reader := by
  obtain ⟨left, hleft⟩ : ∃ left, options.maxDepth - depth = left := ⟨_, rfl⟩
  have hlevel : levelAt (.ofSource source options) depth = level (.ofSource source options) left := by
    rw [← hleft]
    rfl
  induction left generalizing α depth with
  | zero =>
    intro tokens s stands
    unfold Checks
    rw [hlevel, call.reader_zero]
    exact .refused call stands (Nat.sub_eq_zero_iff_le.1 hleft)
  | succ left ih =>
    intro tokens s stands
    have hdeeper : options.maxDepth - (depth + 1) = left := by omega
    have hbelow : levelAt (.ofSource source options) (depth + 1) = level (.ofSource source options) left := by
      rw [← hdeeper]
      rfl
    have hbody := (call.composed_body (inherited_fair source)).checkable_of
      (fun call' => ih call' (depth + 1) hdeeper hbelow) tokens s stands
    unfold Checks at hbody ⊢
    rw [hlevel, call.reader_succ, ← hbelow]
    exact .nested call (by omega) hbody rfl

theorem Composed.checkable {r : Reader α} (h : Composed (Fair source) r) (options : Options) (depth : Nat) :
    Checkable source options depth r :=
  h.checkable_of fun call => call.checkable depth

theorem wholeExpr_checkable (source : String) (options : Options) (depth : Nat) :
    Checkable source options depth wholeExpr := by
  intro tokens s stands
  refine Checkable.attempt (.expr .value) (Call.checkable (.expr .value) depth) stands fun outcome t hstands => ?_
  cases outcome with
  | ok e =>
    have hend : Composed (Fair source) Reader.atEnd := .atEnd
    have hfault : Composed (Fair source) (unexpected .endOfInput none) := .bind .here fun _ => .bind .kind fun _ => .pure _
    refine Checkable.bind hend (hend.checkable options depth) (fun ended => ?_) tokens t hstands
    cases ended with
    | true => exact fun _ _ stands => (PlainStep.pure _).checks stands
    | false => exact .bind hfault (hfault.checkable options depth) fun fault => .recordLast fault _
  | error fault => exact Checkable.recordLast fault _ tokens t hstands

/-- It is its only one. -/
theorem Checkable.checked_iff {r : Reader α} (h : Checkable source options depth r) {s : State}
    (stands : s.Stands source tokens) (ending : Ending α) (depth' : Nat) :
    Checked source options tokens r depth s ending depth' ↔
      ending = r (levelAt (.ofSource source options) depth) s ∧ depth' = depth := by
  constructor
  · exact fun hchecked => ⟨hchecked.runs.ending_eq, hchecked.runs.restores⟩
  · rintro ⟨rfl, rfl⟩
    exact h tokens s stands

end

end JuiceSyntax
