/-
  What an attempt that is given up leaves. A `Machine` reads as the readers do, but all that it works on is in one
  place and is changed there: the list that is read and the number of the token in it, a counter for the nesting,
  and the faults, of which recovery marks the last. A list of its own, the counter and the number of the token
  are put back by whoever changed them. Before an attempt the machine saves four things, none of them a list
  (`Snapshot`), and giving up goes back to these.

  `Composed.run_iff`: every production has just one run of the machine from wherever it is, and the run ends as the
  production reads. `Machine.Run.restore_snapshot`: four things are enough, since whatever is read the list and the
  depth are put back, and what was recorded before stays in front of what is added.

  `speculate_rolls_back`: so an attempt that gives no result leaves the machine as it was, but for more braces
  remembered, and one that gives a result has added structural faults alone, behind those before.
-/
import JuiceSyntax.Proofs.Grammar.Checking

namespace JuiceSyntax

open Reader Grammar

/-! ## Numbers in place of cursors -/

/-- The cursor behind so many tokens of a list. -/
def Cursor.behind (tokens : List Token) (n : Nat) : Cursor :=
  ⟨n, (fewer? n).bind fun k => tokens[k]?.map Token.span, tokens.drop n, tokens.length - n, by rw [List.length_drop]⟩

theorem Cursor.behind_indexed {tokens : List Token} {n : Nat} (h : n ≤ tokens.length) :
    (Cursor.behind tokens n).Indexed tokens := ⟨h, rfl, rfl⟩

theorem Cursor.Indexed.eq_behind {tokens : List Token} {c : Cursor} (h : c.Indexed tokens) :
    c = .behind tokens c.pos := by
  obtain ⟨pos, last, rest, left, hleft⟩ := c
  obtain ⟨-, hrest, hlast⟩ := h
  dsimp only at hrest hlast
  subst hrest hlast
  rw [List.length_drop] at hleft
  subst hleft
  rfl

theorem Cursor.skip_of_atEnd {c : Cursor} (h : c.atEnd = true) (n : Nat) : c.skip n = c := by
  induction n with
  | zero => rfl
  | succ n ih => rw [Cursor.skip, Cursor.advance_of_atEnd h, ih]

/-- Going forward only changes the number. -/
theorem Cursor.skip_behind (tokens : List Token) (n k : Nat) :
    (Cursor.behind tokens n).skip k = .behind tokens ((Cursor.behind tokens n).skip k).pos := by
  by_cases hn : n ≤ tokens.length
  · exact ((Cursor.behind_indexed hn).skip k).eq_behind
  -- Past the end there is no token to take.
  · have hrest : tokens.drop n = [] := List.drop_eq_nil_of_le (by omega)
    have hend : (Cursor.behind tokens n).atEnd = true := by
      simp [Cursor.atEnd, Cursor.kind, Cursor.current, Cursor.behind, hrest, Kind.isDone]
    rw [Cursor.skip_of_atEnd hend]
    rfl

/-- Steps that can always be made go forward, or nowhere. -/
theorem PlainStep.skips {α : Type} {r : Reader α} (step : PlainStep r) (L : Level) (s : State) :
    ∃ n, (Ending.state (r L s)).cursor = s.cursor.skip n := by
  cases step with
  | advance => exact ⟨1, rfl⟩
  | skip n => exact ⟨n, rfl⟩
  | record fault => exact ⟨0, by rw [record_apply, Ending.state_ok, cursor_withFault]; rfl⟩
  | _ => exact ⟨0, rfl⟩

theorem State.recovered_skips (s : State) (start : Cursor) (resume : Resume) :
    ∃ n, (s.recovered start resume).cursor = s.cursor.skip n := by
  unfold State.recovered
  split
  · exact ⟨0, rfl⟩
  · exact resumeFrom_eq_skip start resume s.cursor

/-! ## Machines -/

/-- A step that came to this result and left this state. -/
def Ending.ofResult {α : Type} (result : Except Fault α) (s : State) : Ending α :=
  match result with
  | .ok a => .ok a s
  | .error fault => .error fault s

theorem Ending.state_ofResult {α : Type} (result : Except Fault α) (s : State) :
    Ending.state (Ending.ofResult result s) = s := by
  cases result <;> rfl

theorem Ending.exists_ofResult {α : Type} (ending : Ending α) :
    ∃ result, ending = Ending.ofResult result (Ending.state ending) := by
  cases ending with
  | ok a s => exact ⟨.ok a, rfl⟩
  | error fault s => exact ⟨.error fault, rfl⟩

theorem Ending.ofResult_inj {α : Type} {result result' : Except Fault α} {s s' : State}
    (h : Ending.ofResult result s = Ending.ofResult result' s') : result = result' ∧ s = s' := by
  cases result <;> cases result' <;> cases h <;> exact ⟨rfl, rfl⟩

/-- All that a reading works on, in one place. -/
structure Machine where
  /-- The list that is read. -/
  tokens : List Token
  /-- How many of its tokens are consumed. -/
  pos : Nat
  /-- How many calls of the level below are under way. -/
  depth : Nat
  faults : List Fault
  halted : Bool
  macroBodies : List Span
  failedRecords : List Nat
  failedBlocks : List Nat

/-- What is saved before an attempt. -/
structure Snapshot where
  pos : Nat
  /-- How many faults there are. -/
  faults : Nat
  /-- How many bodies of macros are noted. -/
  macroBodies : Nat
  halted : Bool

namespace Machine

def ofTokens (tokens : List Token) : Machine := ⟨tokens, 0, 0, [], false, [], [], []⟩

def cursor (m : Machine) : Cursor := .behind m.tokens m.pos

/-- What a reader sees of the machine. -/
def state (m : Machine) : State :=
  ⟨m.cursor, m.faults, m.halted, m.macroBodies, m.failedRecords, m.failedBlocks⟩

/-- The machine after a step in its list that leaves this state. -/
def after (m : Machine) (s : State) : Machine :=
  { m with
    pos := s.cursor.pos
    faults := s.faults
    halted := s.halted
    macroBodies := s.macroBodies
    failedRecords := s.failedRecords
    failedBlocks := s.failedBlocks }

def snapshot (m : Machine) : Snapshot := ⟨m.pos, m.faults.length, m.macroBodies.length, m.halted⟩

/-- Goes back to what was saved, in the list that is read now and as deep as the reading is now. -/
def restore (m : Machine) (saved : Snapshot) : Machine :=
  { m with
    pos := saved.pos
    faults := m.faults.take saved.faults
    macroBodies := m.macroBodies.take saved.macroBodies
    halted := saved.halted }

/-- What comes of an attempt for which this was saved, and which came to `result` and left the machine so. -/
def settle {α : Type} (saved : Snapshot) (result : Except Fault α) (m : Machine) : Except Fault (Option α) × Machine :=
  let recorded := m.faults.drop saved.faults
  match recorded.find? (·.isFatal), result with
  | some fault, _ => (.error fault, m)
  | none, .ok a => if recorded.all (·.isStructural) then (.ok (some a), m) else (.ok none, m.restore saved)
  | none, .error fault => if fault.isFatal then (.error fault, m) else (.ok none, m.restore saved)

/-- Remembers of a failed attempt that the brace does not open this form. -/
def noted {α : Type} (form : BraceForm) (offset : Nat) : Except Fault (Option α) → Machine → Machine
  | .ok none, m => m.after (m.state.noteFailed offset form)
  | _, m => m

/-- `Run setting r m result m'`: from `m` on the machine reads as `r` says, comes to `result` and is left as `m'`. -/
inductive Run (setting : Setting) : {α : Type} → Reader α → Machine → Except Fault α → Machine → Prop
  | plain {α : Type} {r : Reader α} (step : PlainStep r) {m : Machine} {result : Except Fault α} {s : State}
    (made : r (level setting 0) m.state = Ending.ofResult result s) : Run setting r m result (m.after s)
  | ok {α β : Type} {r : Reader α} {k : α → Reader β} {m m' m'' : Machine} {a : α} {result : Except Fault β}
    (first : Run setting r m (.ok a) m') (next : Run setting (k a) m' result m'') : Run setting (r >>= k) m result m''
  | error {α β : Type} {r : Reader α} {k : α → Reader β} {m m' : Machine} {fault : Fault}
    (first : Run setting r m (.error fault) m') : Run setting (r >>= k) m (.error fault) m'
  | attempt {α : Type} {r : Reader α} {m m' : Machine} {result : Except Fault α} (tried : Run setting r m result m') :
    Run setting (attempt r) m (.ok result) m'
  /-- The passed text is noted on whatever fault is the last. -/
  | recover (start : Cursor) (resume : Resume) (m : Machine) :
    Run setting (recover start resume) m (.ok ()) (m.after (m.state.recovered start resume))
  | speculate {α : Type} {r : Reader α} {m m' : Machine} {result : Except Fault α} (tried : Run setting r m result m') :
    Run setting (speculate r) m (settle m.snapshot result m').1 (settle m.snapshot result m').2
  /-- A brace that failed before as this form. -/
  | passed {r : Reader Expr} (form : BraceForm) {m : Machine}
    (known : (setting.remember && (m.state.failed form).contains m.cursor.span.start) = true) :
    Run setting (tryBrace form r) m (.ok none) m
  | tried {r : Reader Expr} (form : BraceForm) {m m' : Machine} {result : Except Fault Expr}
    (unknown : (setting.remember && (m.state.failed form).contains m.cursor.span.start) = false)
    (tried : Run setting r m result m') :
    Run setting (tryBrace form r) m (settle m.snapshot result m').1
      (noted form m.cursor.span.start (settle m.snapshot result m').1 (settle m.snapshot result m').2)
  /-- Another list is read from its beginning, and then the first one again from where it was left. -/
  | withTokens {α : Type} {r : Reader α} {tokens : List Token} {m m' : Machine} {result : Except Fault α}
    (inner : Run setting r { m with tokens := tokens, pos := 0 } result m') :
    Run setting (withTokens tokens r) m result { m' with tokens := m.tokens, pos := m.pos }
  /-- A call at the limit. -/
  | refused {α : Type} (call : Call α) {m : Machine} (deep : setting.options.maxDepth ≤ m.depth) :
    Run setting call.reader m (.error (.ofCause m.cursor.span (.nestingTooDeep setting.options.maxDepth))) m
  /-- The body is run with the counter one up, and after it the counter goes one down. -/
  | nested {α : Type} (call : Call α) {m m' : Machine} {result : Except Fault α}
    (below : m.depth < setting.options.maxDepth) (body : Run setting call.body { m with depth := m.depth + 1 } result m') :
    Run setting call.reader m result { m' with depth := m'.depth - 1 }

variable {setting : Setting} {α β : Type}

/-! ## Views -/

theorem state_ofTokens (tokens : List Token) : (ofTokens tokens).state = .ofTokens tokens := rfl

theorem cursor_state (m : Machine) : m.state.cursor = m.cursor := rfl

/-- Going forward in its list is what a step does to the machine. -/
theorem state_after {m : Machine} {s : State} (h : ∃ n, s.cursor = m.cursor.skip n) : (m.after s).state = s := by
  obtain ⟨n, hn⟩ := h
  have hcursor : s.cursor = .behind m.tokens s.cursor.pos := by
    rw [hn]
    exact Cursor.skip_behind m.tokens m.pos n
  show (⟨.behind m.tokens s.cursor.pos, s.faults, s.halted, s.macroBodies, s.failedRecords, s.failedBlocks⟩ : State) = s
  rw [← hcursor]

/-- What is not seen of a machine are its list and its depth. -/
theorem eq_of_state {m m' : Machine} (hstate : m.state = m'.state) (htokens : m.tokens = m'.tokens)
    (hdepth : m.depth = m'.depth) : m = m' := by
  have hpos : m.pos = m'.pos := congrArg (fun s => s.cursor.pos) hstate
  obtain ⟨tokens, pos, depth, faults, halted, bodies, records, blocks⟩ := m
  obtain ⟨tokens', pos', depth', faults', halted', bodies', records', blocks'⟩ := m'
  simp only [state, State.mk.injEq] at hstate
  simp_all

theorem eq_of_ending {m m' : Machine} {result result' : Except Fault α}
    (hending : Ending.ofResult result m.state = Ending.ofResult result' m'.state) (htokens : m.tokens = m'.tokens)
    (hdepth : m.depth = m'.depth) : result = result' ∧ m = m' := by
  obtain ⟨hresult, hstate⟩ := Ending.ofResult_inj hending
  exact ⟨hresult, eq_of_state hstate htokens hdepth⟩

theorem settle_unwound (saved : Snapshot) (result : Except Fault α) (m : Machine) :
    (settle saved result m).2.tokens = m.tokens ∧ (settle saved result m).2.depth = m.depth := by
  unfold settle
  dsimp only
  split
  · exact ⟨rfl, rfl⟩
  · split <;> exact ⟨rfl, rfl⟩
  · split <;> exact ⟨rfl, rfl⟩

theorem noted_unwound (form : BraceForm) (offset : Nat) (result : Except Fault (Option α)) (m : Machine) :
    (noted form offset result m).tokens = m.tokens ∧ (noted form offset result m).depth = m.depth := by
  unfold noted
  split <;> exact ⟨rfl, rfl⟩

/-- In its list a machine goes back to where it was. -/
theorem state_restore {m m' : Machine} (h : m'.tokens = m.tokens) :
    (m'.restore m.snapshot).state = m.state.rewind m'.state := by
  have hcursor : (m'.restore m.snapshot).cursor = m.cursor := by
    show Cursor.behind m'.tokens m.pos = .behind m.tokens m.pos
    rw [h]
  rw [state, hcursor]
  rfl

theorem state_settle {m m' : Machine} (h : m'.tokens = m.tokens) (result : Except Fault α) :
    speculated m.state (Ending.ofResult result m'.state) =
      Ending.ofResult (settle m.snapshot result m').1 (settle m.snapshot result m').2.state := by
  have hfaults : m'.state.faults.drop m.state.faults.length = m'.faults.drop m.snapshot.faults := rfl
  unfold settle
  cases result with
  | ok a =>
    rw [Ending.ofResult, speculated_ok, hfaults]
    dsimp only
    cases (m'.faults.drop m.snapshot.faults).find? (·.isFatal) with
    | some fault => rfl
    | none =>
      dsimp only
      split
      · rfl
      · rw [Ending.ofResult, state_restore h]
  | error fault =>
    rw [Ending.ofResult, speculated_error, hfaults]
    dsimp only
    cases (m'.faults.drop m.snapshot.faults).find? (·.isFatal) with
    | some fault => rfl
    | none =>
      dsimp only
      split
      · rfl
      · rw [Ending.ofResult, state_restore h]

theorem state_noted (form : BraceForm) (offset : Nat) (result : Except Fault (Option α)) (m : Machine) :
    JuiceSyntax.noted form offset (Ending.ofResult result m.state) =
      Ending.ofResult result (noted form offset result m).state := by
  cases result with
  | error fault => rfl
  | ok found =>
    cases found with
    | some a => rfl
    | none => cases form <;> rfl

/-! ## Runs -/

namespace Run

variable {r : Reader α} {m m' : Machine} {result : Except Fault α}

/-- Whatever comes of a reading, the machine is left in the list and as deep as it was begun. -/
theorem unwound (h : Run setting r m result m') : m'.tokens = m.tokens ∧ m'.depth = m.depth := by
  induction h with
  | plain step made => exact ⟨rfl, rfl⟩
  | ok first next ih ih' => exact ⟨ih'.1.trans ih.1, ih'.2.trans ih.2⟩
  | error first ih => exact ih
  | attempt tried ih => exact ih
  | recover start resume m => exact ⟨rfl, rfl⟩
  | @speculate _ r m m' result tried ih =>
    obtain ⟨htokens, hdepth⟩ := settle_unwound m.snapshot result m'
    exact ⟨htokens.trans ih.1, hdepth.trans ih.2⟩
  | passed form known => exact ⟨rfl, rfl⟩
  | @tried r form m m' result unknown tried ih =>
    obtain ⟨htokens, hdepth⟩ := settle_unwound m.snapshot result m'
    obtain ⟨htokens', hdepth'⟩ := noted_unwound form m.cursor.span.start (settle m.snapshot result m').1
      (settle m.snapshot result m').2
    exact ⟨htokens'.trans (htokens.trans ih.1), hdepth'.trans (hdepth.trans ih.2)⟩
  | withTokens inner ih => exact ⟨rfl, ih.2⟩
  | refused call deep => exact ⟨rfl, rfl⟩
  | nested call below body ih => exact ⟨ih.1, congrArg Nat.pred ih.2⟩

/-- A run ends as the reader does at the level that the depth leaves to it. -/
theorem ends (h : Run setting r m result m') :
    r (levelAt setting m.depth) m.state = Ending.ofResult result m'.state := by
  induction h with
  | @plain _ r step m result s made =>
    have hskips := step.skips (level setting 0) m.state
    rw [made, Ending.state_ofResult] at hskips
    rw [levelAt, step.same, made, state_after hskips]
  | ok first next ih ih' =>
    rw [bind_apply, ih, Ending.ofResult, Ending.andThen_ok, ← first.unwound.2, ih']
  | error first ih => rw [bind_apply, ih, Ending.ofResult, Ending.andThen_error, Ending.ofResult]
  | @attempt _ r m m' result tried ih =>
    rw [attempt_apply, ih]
    cases result <;> rfl
  | recover start resume m =>
    rw [recover_apply, state_after (m.state.recovered_skips start resume), Ending.ofResult]
  | speculate tried ih => rw [speculate_apply, ih, state_settle tried.unwound.1]
  | passed form known =>
    rw [tryBrace_apply, levelAt, remember_level, cursor_state, if_pos known, Ending.ofResult]
  | tried form unknown tried ih =>
    rw [tryBrace_apply, ih, levelAt, remember_level, cursor_state, if_neg (by rw [unknown]; decide),
      state_settle tried.unwound.1, state_noted]
  | @withTokens _ r tokens m m' result inner ih =>
    rw [withTokens_apply]
    -- The state inside is that of the machine at the first token of the other list.
    show Ending.placed m.cursor (r (levelAt setting m.depth) (Machine.state { m with tokens := tokens, pos := 0 })) = _
    rw [ih]
    cases result <;> rfl
  | refused call deep =>
    rw [levelAt, Nat.sub_eq_zero_of_le deep, call.reader_zero]
    rfl
  | @nested _ call m m' result below body ih =>
    have hbelow : setting.options.maxDepth - m.depth = setting.options.maxDepth - (m.depth + 1) + 1 := by omega
    rw [levelAt, hbelow, call.reader_succ]
    exact ih

theorem unique {m'' : Machine} {result' : Except Fault α} (h : Run setting r m result m')
    (h' : Run setting r m result' m'') : result = result' ∧ m' = m'' :=
  eq_of_ending (h.ends.symm.trans h'.ends) (h.unwound.1.trans h'.unwound.1.symm) (h.unwound.2.trans h'.unwound.2.symm)

end Run

/-- From wherever the machine is as deep as this, the reader has a run. -/
def Runnable (setting : Setting) (depth : Nat) (r : Reader α) : Prop :=
  ∀ m, m.depth = depth → ∃ result m', Run setting r m result m'

namespace Runnable

variable {depth : Nat}

theorem plain {r : Reader α} (step : PlainStep r) : Runnable setting depth r := by
  intro m _
  obtain ⟨result, hmade⟩ := Ending.exists_ofResult (r (level setting 0) m.state)
  exact ⟨result, _, .plain step hmade⟩

theorem bind {r : Reader α} {k : α → Reader β} (h : Runnable setting depth r)
    (h' : ∀ a, Runnable setting depth (k a)) : Runnable setting depth (r >>= k) := by
  intro m hdepth
  obtain ⟨result, m', hfirst⟩ := h m hdepth
  cases result with
  | ok a =>
    obtain ⟨result, m'', hnext⟩ := h' a m' (hfirst.unwound.2.trans hdepth)
    exact ⟨result, m'', .ok hfirst hnext⟩
  | error fault => exact ⟨.error fault, m', .error hfirst⟩

theorem ite {c : Prop} [Decidable c] {r r' : Reader α} (h : Runnable setting depth r) (h' : Runnable setting depth r') :
    Runnable setting depth (if c then r else r') := by
  split
  · exact h
  · exact h'

theorem attempt {r : Reader α} (h : Runnable setting depth r) : Runnable setting depth (JuiceSyntax.attempt r) := by
  intro m hdepth
  obtain ⟨result, m', htried⟩ := h m hdepth
  exact ⟨.ok result, m', .attempt htried⟩

theorem recover (start : Cursor) (resume : Resume) : Runnable setting depth (JuiceSyntax.recover start resume) :=
  fun m _ => ⟨.ok (), _, .recover start resume m⟩

theorem speculate {r : Reader α} (h : Runnable setting depth r) : Runnable setting depth (JuiceSyntax.speculate r) := by
  intro m hdepth
  obtain ⟨result, m', htried⟩ := h m hdepth
  exact ⟨_, _, .speculate htried⟩

theorem tryBrace (form : BraceForm) {r : Reader Expr} (h : Runnable setting depth r) :
    Runnable setting depth (Grammar.tryBrace form r) := by
  intro m hdepth
  cases hknown : setting.remember && (m.state.failed form).contains m.cursor.span.start with
  | true => exact ⟨_, _, .passed form hknown⟩
  | false =>
    obtain ⟨result, m', htried⟩ := h m hdepth
    exact ⟨_, _, .tried form hknown htried⟩

theorem withTokens {r : Reader α} (tokens : List Token) (h : Runnable setting depth r) :
    Runnable setting depth (JuiceSyntax.withTokens tokens r) := by
  intro m hdepth
  obtain ⟨result, m', hinner⟩ := h { m with tokens := tokens, pos := 0 } hdepth
  exact ⟨result, _, .withTokens hinner⟩

theorem recoveringUpTo (resume : Resume) (ends : Kind → Bool) {item : Reader α} (h : Runnable setting depth item)
    (n : Nat) : Runnable setting depth (JuiceSyntax.recoveringUpTo resume ends item n) := by
  induction n with
  | zero => exact .plain (.pure _)
  | succ n ih =>
    refine .bind (.plain .cursor) fun start => .bind (.plain .halted) fun ended => .ite (.plain (.pure _)) ?_
    refine .bind (.attempt h) fun outcome => ?_
    cases outcome with
    | ok first => exact .bind ih fun _ => .plain (.pure _)
    | error fault => exact .bind (.plain (.record fault)) fun _ => .bind (.recover start resume) fun _ => ih

end Runnable

end Machine

section

variable {setting : Setting} {α : Type} {r : Reader α}

/-- Readers have runs of the machine, if the calls of the level below have. -/
theorem Composed.machine_runnable_of {depth : Nat} (h : Composed (fun _ => True) r)
    (hcall : ∀ {β : Type} (call : Call β), Machine.Runnable setting depth call.reader) :
    Machine.Runnable setting depth r := by
  induction h with
  | pure a => exact .plain (.pure a)
  | bind first next ih ih' => exact .bind ih ih'
  | throw fault fresh => exact .plain (.throw fault)
  | cursor same next ih => exact .bind (.plain .cursor) fun c => ih c trivial
  | spanFrom start => exact .plain (.spanFrom start)
  | halted => exact .plain .halted
  | sourceText span => exact .plain (.sourceText span)
  | advance => exact .plain .advance
  | skip n => exact .plain (.skip n)
  | noteBody inner => exact .plain (.noteBody inner)
  | record fault fresh => exact .plain (.record fault)
  | expr position => exact hcall (.expr position)
  | operand position => exact hcall (.operand position)
  | block => exact hcall .block
  | type => exact hcall .type
  | recordLiteral => exact hcall .record
  | speculate tried ih => exact .speculate ih
  | tryBrace form tried ih => exact .tryBrace form ih
  | withTokens inner read ih => exact .withTokens _ ih
  | recovering resume ends turn ih =>
    have hleft : Machine.Runnable setting depth JuiceSyntax.tokensLeft := .bind (.plain .cursor) fun c => .plain (.pure _)
    exact .bind hleft fun n => .recoveringUpTo resume ends ih n

/-- By induction on how far the counter is from the limit. -/
theorem Call.machine_runnable (call : Call α) (setting : Setting) (depth : Nat) :
    Machine.Runnable setting depth call.reader := by
  obtain ⟨left, hleft⟩ : ∃ left, setting.options.maxDepth - depth = left := ⟨_, rfl⟩
  induction left generalizing α depth with
  | zero =>
    rintro m rfl
    exact ⟨_, _, .refused call (Nat.sub_eq_zero_iff_le.1 hleft)⟩
  | succ left ih =>
    rintro m rfl
    have hdeeper : setting.options.maxDepth - (m.depth + 1) = left := by omega
    obtain ⟨result, m', hbody⟩ := (call.composed_body inherited_true).machine_runnable_of
      (fun call' => ih call' (m.depth + 1) hdeeper) { m with depth := m.depth + 1 } rfl
    exact ⟨result, _, .nested call (by omega) hbody⟩

theorem Composed.exists_run (h : Composed (fun _ => True) r) (setting : Setting) (m : Machine) :
    ∃ result m', Machine.Run setting r m result m' :=
  h.machine_runnable_of (fun call => call.machine_runnable setting m.depth) m rfl

/-- It is its only one. -/
theorem Composed.run_iff (h : Composed (fun _ => True) r) (setting : Setting) (m : Machine) (result : Except Fault α)
    (m' : Machine) :
    Machine.Run setting r m result m' ↔
      r (levelAt setting m.depth) m.state = Ending.ofResult result m'.state ∧ m'.tokens = m.tokens ∧ m'.depth = m.depth := by
  constructor
  · exact fun hrun => ⟨hrun.ends, hrun.unwound⟩
  · rintro ⟨hends, htokens, hdepth⟩
    obtain ⟨result', m'', hrun⟩ := h.exists_run setting m
    obtain ⟨rfl, rfl⟩ := Machine.eq_of_ending (hends.symm.trans hrun.ends) (htokens.trans hrun.unwound.1.symm)
      (hdepth.trans hrun.unwound.2.symm)
    exact hrun

end

/-- A program is read by a machine that begins at its first token. -/
theorem exists_run_items (setting : Setting) (tokens : List Token) :
    ∃ program m, Machine.Run setting items (.ofTokens tokens) (.ok program) m ∧
      readItems setting tokens = ⟨program, m.faults, m.macroBodies⟩ := by
  obtain ⟨result, m, hrun⟩ := composed_items.exists_run setting (.ofTokens tokens)
  have hends : itemsEnding setting tokens = Ending.ofResult result m.state := by
    rw [← hrun.ends, Machine.state_ofTokens]
    rfl
  obtain ⟨program, s, hok⟩ := itemsEnding_ok setting tokens
  have hboth : Ending.ofResult (.ok program) s = Ending.ofResult result m.state := hok.symm.trans hends
  obtain ⟨rfl, -⟩ := Ending.ofResult_inj hboth
  refine ⟨program, m, hrun, ?_⟩
  rw [readItems_eq, hends]
  rfl

/-! ## Attempts -/

namespace Machine

section

variable {setting : Setting} {α : Type} {r : Reader α} {m m' : Machine} {result : Except Fault α}

/-- A run only adds behind what is recorded. Recovery marks the last fault just after it recorded one, so it marks none that
was there before. -/
theorem Run.grows (hr : Composed (fun _ => True) r) (h : Run setting r m result m') : Grows m.state m'.state := by
  have hgrows := hr.grows inherited_true (level_grows setting (setting.options.maxDepth - m.depth)) m.state trivial
  have hends : r (level setting (setting.options.maxDepth - m.depth)) m.state = _ := h.ends
  rwa [hends, Ending.state_ofResult] at hgrows

/-- Going back to what was saved brings all back but the braces remembered: cut to their old lengths, the faults and the
bodies are the old ones. -/
theorem Run.restore_snapshot (hr : Composed (fun _ => True) r) (h : Run setting r m result m') :
    m'.restore m.snapshot = { m with failedRecords := m'.failedRecords, failedBlocks := m'.failedBlocks } := by
  obtain ⟨htokens, hdepth⟩ := h.unwound
  refine eq_of_state ?_ htokens hdepth
  rw [state_restore htokens, rewind_eq (h.grows hr)]
  rfl

/-- What comes of an attempt: it is over for good, it is kept, or it is given up. -/
theorem settle_cases (saved : Snapshot) (result : Except Fault α) (m : Machine) :
    (∃ fault, settle saved result m = (.error fault, m)) ∨
    (∃ a, settle saved result m = (.ok (some a), m) ∧ (m.faults.drop saved.faults).all (·.isStructural) = true) ∨
    settle saved result m = (.ok none, m.restore saved) := by
  unfold settle
  dsimp only
  cases (m.faults.drop saved.faults).find? (·.isFatal) with
  | some fault => exact .inl ⟨fault, rfl⟩
  | none =>
    cases result with
    | ok a =>
      by_cases hall : (m.faults.drop saved.faults).all (·.isStructural) = true
      · exact .inr (.inl ⟨a, if_pos hall, hall⟩)
      · exact .inr (.inr (if_neg hall))
    | error fault =>
      by_cases hfatal : fault.isFatal = true
      · exact .inl ⟨fault, if_pos hfatal⟩
      · exact .inr (.inr (if_neg hfatal))

/-- Every attempt is a run that is settled. -/
theorem run_speculate_iff (hr : Composed (fun _ => True) r) {result : Except Fault (Option α)} :
    Run setting (speculate r) m result m' ↔
      ∃ tried m₁, Run setting r m tried m₁ ∧ settle m.snapshot tried m₁ = (result, m') := by
  constructor
  -- By which rule a run was made is not to be seen on the reader, so it is compared with the run that there is.
  · intro h
    obtain ⟨tried, m₁, htried⟩ := hr.exists_run setting m
    obtain ⟨hresult, hm⟩ := h.unique (.speculate htried)
    exact ⟨tried, m₁, htried, Prod.ext hresult.symm hm.symm⟩
  · rintro ⟨tried, m₁, htried, hsettled⟩
    have h := Run.speculate htried
    rwa [hsettled] at h

end

end Machine

/-- What an attempt at `r`, begun in `m`, has come to and left. -/
structure RollsBack (setting : Setting) {α : Type} (r : Reader α) (m : Machine) (result : Except Fault (Option α))
    (m' : Machine) : Prop where
  /-- The readers make the same of it. -/
  ends : speculate r (levelAt setting m.depth) m.state = Ending.ofResult result m'.state
  /-- Whatever it comes to, other lists and calls are left again. -/
  unwound : m'.tokens = m.tokens ∧ m'.depth = m.depth
  /-- If it is given up, then more braces may be remembered. The rest is as it was. -/
  givenUp : result = .ok none → ∃ records blocks,
    m' = { m with failedRecords := records ++ m.failedRecords, failedBlocks := blocks ++ m.failedBlocks }
  /-- If it is kept, then all that is recorded is structural, behind what was recorded before. -/
  kept : ∀ a, result = .ok (some a) → ∃ recorded,
    m'.faults = m.faults ++ recorded ∧ ∀ fault ∈ recorded, fault.isStructural = true

/-- Whether a result is given, if an attempt is not over for good. -/
def Ending.given? {α : Type} : Ending (Option α) → Option Bool
  | .ok found _ => some found.isSome
  | .error _ _ => none

theorem RollsBack.eq_ok {setting : Setting} {α : Type} {r : Reader α} {m m' : Machine} {result : Except Fault (Option α)}
    (h : RollsBack setting r m result m') (given : Bool)
    (hgiven : Ending.given? (speculate r (levelAt setting m.depth) m.state) = some given) :
    ∃ found, result = .ok found ∧ found.isSome = given := by
  rw [h.ends] at hgiven
  cases result with
  | error fault => cases hgiven
  | ok found => exact ⟨found, rfl, Option.some.inj hgiven⟩

/-- Wherever a machine stands, an attempt at anything that is composed of the steps, as are all productions of the grammar
(`composed_item`, `composed_blockBody`, `composed_chain` and so on), comes to an end. In all that it comes to it rolls back. -/
theorem speculate_rolls_back (setting : Setting) {α : Type} {r : Reader α} (hr : Composed (fun _ => True) r) (m : Machine) :
    (∃ result m', Machine.Run setting (speculate r) m result m') ∧
      ∀ result m', Machine.Run setting (speculate r) m result m' → RollsBack setting r m result m' := by
  refine ⟨(Composed.speculate hr).exists_run setting m, fun result m' h => ?_⟩
  obtain ⟨tried, m₁, htried, hsettled⟩ := (Machine.run_speculate_iff hr).1 h
  have hgrows := htried.grows hr
  obtain ⟨fault, hcase⟩ | ⟨a, hcase, hall⟩ | hcase := Machine.settle_cases m.snapshot tried m₁
  all_goals
    obtain ⟨rfl, rfl⟩ := Prod.mk.inj (hcase.symm.trans hsettled)
  · exact ⟨h.ends, h.unwound, nofun, nofun⟩
  · refine ⟨h.ends, h.unwound, nofun, fun _ _ => ?_⟩
    obtain ⟨recorded, hfaults⟩ : m.faults <+: m₁.faults := hgrows.faults
    refine ⟨recorded, hfaults.symm, ?_⟩
    have hdrop : m₁.faults.drop m.snapshot.faults = recorded := by
      rw [← hfaults]
      exact List.drop_left
    rwa [hdrop, List.all_eq_true] at hall
  · refine ⟨h.ends, h.unwound, fun _ => ?_, nofun⟩
    obtain ⟨records, hrecords⟩ : m.failedRecords <:+ m₁.failedRecords := hgrows.memo .record
    obtain ⟨blocks, hblocks⟩ : m.failedBlocks <:+ m₁.failedBlocks := hgrows.memo .block
    refine ⟨records, blocks, ?_⟩
    rw [htried.restore_snapshot hr, hrecords, hblocks]

/-- `x := { a = "${m!{y}}" b = { c = 1; f() } d = { e ) } f() }`: no record, for there is a call among its fields. Before
that is seen the body of the macro is noted, the brace of `b` remembered as no record, and a fault recorded at `)`. -/
def callAmongFields : String :=
  "x := \x7b a = \"$\x7bm!\x7by\x7d\x7d\" b = \x7b c = 1; f() \x7d d = \x7b e ) \x7d f() \x7d"

/-- `x := { a = "${m!{y}}" b = (1,) }`: a record, but for a tuple of one. -/
def tupleAmongFields : String := "x := \x7b a = \"$\x7bm!\x7by\x7d\x7d\" b = (1,) \x7d"

/-- At the brace of these, in a first call, with something recorded. -/
def Machine.atRecord (source : String) : Machine :=
  { ofTokens (lex source).tokens with
    pos := 2
    depth := 1
    faults := [.ofCause ⟨0, 1⟩ .unresolvable]
    macroBodies := [⟨0, 1⟩] }

/-- The one attempt is given up, the other is kept. -/
theorem speculate_record :
    (∃ m', Machine.Run (.ofSource callAmongFields .standard) (speculate recordLiteral) (.atRecord callAmongFields) (.ok none) m' ∧
      ∃ records blocks, m' = { Machine.atRecord callAmongFields with failedRecords := records, failedBlocks := blocks }) ∧
    ∃ e m', Machine.Run (.ofSource tupleAmongFields .standard) (speculate recordLiteral) (.atRecord tupleAmongFields)
        (.ok (some e)) m' ∧
      ∃ recorded, m'.faults = .ofCause ⟨0, 1⟩ .unresolvable :: recorded ∧ ∀ fault ∈ recorded, fault.isStructural = true := by
  constructor
  · obtain ⟨⟨result, m', hrun⟩, hall⟩ :=
      speculate_rolls_back (.ofSource callAmongFields .standard) .recordLiteral (.atRecord callAmongFields)
    have hrolls := hall result m' hrun
    obtain ⟨found, rfl, hfound⟩ := hrolls.eq_ok false (by decide +kernel)
    obtain rfl := Option.isNone_iff_eq_none.1 (Option.isSome_eq_false_iff.1 hfound)
    obtain ⟨records, blocks, hm'⟩ := hrolls.givenUp rfl
    exact ⟨m', hrun, _, _, hm'⟩
  · obtain ⟨⟨result, m', hrun⟩, hall⟩ :=
      speculate_rolls_back (.ofSource tupleAmongFields .standard) .recordLiteral (.atRecord tupleAmongFields)
    have hrolls := hall result m' hrun
    obtain ⟨found, rfl, hfound⟩ := hrolls.eq_ok true (by decide +kernel)
    obtain ⟨e, rfl⟩ := Option.isSome_iff_exists.1 hfound
    exact ⟨e, m', hrun, hrolls.kept e rfl⟩

end JuiceSyntax
