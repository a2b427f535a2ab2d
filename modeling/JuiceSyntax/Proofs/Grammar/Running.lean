/-
  Runs of a reader with a counter for the nesting. A call of the level below is refused where the counter has
  reached the limit; otherwise the counter goes up by one, the body of the call is run, and whatever comes of it
  the counter goes down by one. Nothing else touches it.

  `Runnable.runs_iff`: every reader has just one run from a state. It ends as the reader does at the level that
  the counter leaves to it, and with the counter where it began.
-/
import JuiceSyntax.Proofs.Grammar.Growth

namespace JuiceSyntax

open Reader Grammar

/-- The calls of the level below. -/
inductive Call : Type → Type
  | expr (position : Position) : Call Expr
  | operand (position : Position) : Call Expr
  | block : Call Block
  | type : Call TypeExpr
  | record : Call Expr

namespace Call

variable {α : Type}

def reader : Call α → Reader α
  | .expr position => Reader.expr position
  | .operand position => Reader.operand position
  | .block => Reader.block
  | .type => Reader.type
  | .record => recordLiteral

/-- What a call reads one level deeper. -/
def body : Call α → Reader α
  | .expr position => chain 1 position
  | .operand position => chain operandLevel position
  | .block => blockBody
  | .type => typeExpr
  | .record => recordExpr

theorem reader_zero (call : Call α) (setting : Setting) (s : State) :
    call.reader (level setting 0) s = tooDeep setting.options.maxDepth s := by
  cases call <;> rfl

theorem reader_succ (call : Call α) (setting : Setting) (n : Nat) (s : State) :
    call.reader (level setting (n + 1)) s = call.body (level setting n) s := by
  cases call <;> rfl

theorem composed_body {fine : List Token → Prop} (hf : Inherited fine) (call : Call α) : Composed fine call.body := by
  cases call with
  | expr position => exact composed_chain hf _ _
  | operand position => exact composed_chain hf _ _
  | block => exact composed_blockBody
  | type => exact composed_typeExpr hf
  | record => exact composed_recordExpr

end Call

/-- `Runs setting r depth s ending depth'`: begun in the state `s` with the counter at `depth`, the reader ends
as `ending` with the counter at `depth'`. -/
inductive Runs (setting : Setting) : {α : Type} → Reader α → Nat → State → Ending α → Nat → Prop
  /-- A step that calls nothing. -/
  | plain {α : Type} {r : Reader α} (same : ∀ n, r (level setting n) = r (level setting 0)) (depth : Nat) (s : State) :
    Runs setting r depth s (r (level setting 0) s) depth
  | ok {α β : Type} {r : Reader α} {k : α → Reader β} {depth depth' depth'' : Nat} {s t : State} {a : α}
    {ending : Ending β} (first : Runs setting r depth s (.ok a t) depth')
    (next : Runs setting (k a) depth' t ending depth'') : Runs setting (r >>= k) depth s ending depth''
  | error {α β : Type} {r : Reader α} {k : α → Reader β} {depth depth' : Nat} {s t : State} {fault : Fault}
    (first : Runs setting r depth s (.error fault t) depth') : Runs setting (r >>= k) depth s (.error fault t) depth'
  | attempt {α : Type} {r : Reader α} {depth depth' : Nat} {s : State} {ending : Ending α}
    (tried : Runs setting r depth s ending depth') :
    Runs setting (attempt r) depth s (Ending.caught ending) depth'
  | speculate {α : Type} {r : Reader α} {depth depth' : Nat} {s : State} {ending : Ending α}
    (tried : Runs setting r depth s ending depth') :
    Runs setting (speculate r) depth s (speculated s ending) depth'
  /-- A brace that failed before as this form. -/
  | passed {r : Reader Expr} (form : BraceForm) (depth : Nat) {s : State}
    (known : (setting.remember && (s.failed form).contains s.cursor.span.start) = true) :
    Runs setting (tryBrace form r) depth s (.ok none s) depth
  | tried {r : Reader Expr} (form : BraceForm) {depth depth' : Nat} {s : State} {ending : Ending Expr}
    (unknown : (setting.remember && (s.failed form).contains s.cursor.span.start) = false)
    (tried : Runs setting r depth s ending depth') :
    Runs setting (tryBrace form r) depth s (noted form s.cursor.span.start (speculated s ending)) depth'
  | withTokens {α : Type} {r : Reader α} {tokens : List Token} {depth depth' : Nat} {s : State} {ending : Ending α}
    (inner : Runs setting r depth { s with cursor := .ofTokens tokens } ending depth') :
    Runs setting (withTokens tokens r) depth s (Ending.placed s.cursor ending) depth'
  /-- A call at the limit. -/
  | refused {α : Type} (call : Call α) {depth : Nat} (s : State) (deep : setting.options.maxDepth ≤ depth) :
    Runs setting call.reader depth s (tooDeep setting.options.maxDepth s) depth
  /-- The body is run with the counter one up, and after it the counter goes one down. -/
  | nested {α : Type} (call : Call α) {depth depth' : Nat} {s : State} {ending : Ending α}
    (below : depth < setting.options.maxDepth) (inner : Runs setting call.body (depth + 1) s ending (depth' + 1)) :
    Runs setting call.reader depth s ending depth'

/-- The level at which a reader runs with the counter at `depth`. -/
def levelAt (setting : Setting) (depth : Nat) : Level := level setting (setting.options.maxDepth - depth)

namespace Runs

variable {setting : Setting} {α β : Type}

theorem restores {r : Reader α} {depth depth' : Nat} {s : State} {ending : Ending α}
    (h : Runs setting r depth s ending depth') : depth' = depth := by
  induction h with
  | plain same depth s => rfl
  | ok first next ih ih' => rw [ih', ih]
  | error first ih => exact ih
  | attempt tried ih => exact ih
  | speculate tried ih => exact ih
  | passed form depth known => rfl
  | tried form unknown tried ih => exact ih
  | withTokens inner ih => exact ih
  | refused call s deep => rfl
  | nested call below inner ih => exact Nat.succ.inj ih

theorem ending_eq {r : Reader α} {depth depth' : Nat} {s : State} {ending : Ending α}
    (h : Runs setting r depth s ending depth') : ending = r (levelAt setting depth) s := by
  induction h with
  | plain same depth s => exact congrFun (same (setting.options.maxDepth - depth)).symm s
  | ok first next ih ih' =>
    rw [bind_apply, ← ih, Ending.andThen_ok, ih', first.restores]
  | error first ih => rw [bind_apply, ← ih, Ending.andThen_error]
  | attempt tried ih => rw [attempt_apply, ← ih]
  | speculate tried ih => rw [speculate_apply, ← ih]
  | passed form depth known => rw [tryBrace_apply, levelAt, remember_level, if_pos known]
  | tried form unknown tried ih => rw [tryBrace_apply, ← ih, levelAt, remember_level, if_neg (by rw [unknown]; decide)]
  | withTokens inner ih => rw [withTokens_apply, ← ih]
  | refused call s deep => rw [levelAt, Nat.sub_eq_zero_of_le deep, call.reader_zero]
  | @nested _ call depth _ _ _ below inner ih =>
    rw [ih, levelAt, levelAt, ← call.reader_succ]
    congr 2
    omega

end Runs

/-- Whatever the state and the counter, the reader has a run, which ends as the reader does and leaves the
counter where it was. -/
def Runnable (setting : Setting) (depth : Nat) {α : Type} (r : Reader α) : Prop :=
  ∀ s, Runs setting r depth s (r (levelAt setting depth) s) depth

namespace Runnable

variable {setting : Setting} {depth : Nat} {α β : Type}

theorem plain {r : Reader α} (same : ∀ n, r (level setting n) = r (level setting 0)) : Runnable setting depth r := by
  intro s
  have h := Runs.plain same depth s
  rwa [← same (setting.options.maxDepth - depth)] at h

theorem bind {r : Reader α} {k : α → Reader β} (h : Runnable setting depth r)
    (h' : ∀ a, Runnable setting depth (k a)) : Runnable setting depth (r >>= k) := by
  intro s
  have hfirst := h s
  rw [bind_apply]
  cases hr : r (levelAt setting depth) s with
  | ok a t =>
    rw [hr] at hfirst
    exact .ok hfirst (h' a t)
  | error fault t =>
    rw [hr] at hfirst
    exact .error hfirst

theorem ite {c : Prop} [Decidable c] {r r' : Reader α} (h : Runnable setting depth r) (h' : Runnable setting depth r') :
    Runnable setting depth (if c then r else r') := by
  split
  · exact h
  · exact h'

theorem attempt {r : Reader α} (h : Runnable setting depth r) : Runnable setting depth (JuiceSyntax.attempt r) := by
  intro s
  rw [attempt_apply]
  exact .attempt (h s)

theorem record (fault : Fault) : Runnable setting depth (Reader.record fault) :=
  .plain fun n => funext fun s => by rw [record_apply, record_apply, options_level, options_level]

theorem recover (start : Cursor) (resume : Resume) : Runnable setting depth (JuiceSyntax.recover start resume) :=
  .plain fun n => funext fun s => by rw [recover_apply, recover_apply]

theorem tryBrace (form : BraceForm) {r : Reader Expr} (h : Runnable setting depth r) :
    Runnable setting depth (JuiceSyntax.Grammar.tryBrace form r) := by
  intro s
  rw [tryBrace_apply, levelAt, remember_level]
  split
  · rename_i hknown
    exact .passed form depth hknown
  · rename_i hknown
    exact .tried form (by simpa using hknown) (h s)

theorem recoveringUpTo (resume : Resume) (ends : Kind → Bool) {item : Reader α} (h : Runnable setting depth item)
    (n : Nat) : Runnable setting depth (JuiceSyntax.recoveringUpTo resume ends item n) := by
  induction n with
  | zero => exact .plain fun _ => rfl
  | succ n ih =>
    refine .bind (.plain fun _ => rfl) fun start => .bind (.plain fun _ => rfl) fun ended => .ite (.plain fun _ => rfl) ?_
    refine .bind (.attempt h) fun outcome => ?_
    cases outcome with
    | ok first => exact .bind ih fun _ => .plain fun _ => rfl
    | error fault => exact .bind (.record fault) fun _ => .bind (.recover start resume) fun _ => ih

end Runnable

/-- Readers have runs, if the calls of the level below have. -/
theorem Composed.runnable_of {setting : Setting} {depth : Nat} {α : Type} {r : Reader α}
    (h : Composed (fun _ => True) r) (hcall : ∀ {β : Type} (call : Call β), Runnable setting depth call.reader) :
    Runnable setting depth r := by
  induction h with
  | pure a => exact .plain fun _ => rfl
  | bind first next ih ih' => exact .bind ih ih'
  | throw fault fresh => exact .plain fun _ => rfl
  | cursor same next ih => exact .bind (.plain fun _ => rfl) fun c => ih c trivial
  | spanFrom start => exact .plain fun _ => rfl
  | halted => exact .plain fun _ => rfl
  | sourceText span =>
    exact .plain fun n => funext fun s => by rw [sourceText_apply, sourceText_apply, source_level, source_level]
  | advance => exact .plain fun _ => rfl
  | skip n => exact .plain fun _ => rfl
  | noteBody inner => exact .plain fun _ => rfl
  | record fault fresh => exact .record fault
  | expr position => exact hcall (.expr position)
  | operand position => exact hcall (.operand position)
  | block => exact hcall .block
  | type => exact hcall .type
  | recordLiteral => exact hcall .record
  | speculate tried ih =>
    intro s
    rw [speculate_apply]
    exact .speculate (ih s)
  | tryBrace form tried ih => exact .tryBrace form ih
  | withTokens inner read ih =>
    intro s
    rw [withTokens_apply]
    exact .withTokens (ih _)
  | recovering resume ends turn ih => exact .bind (.plain fun _ => rfl) fun n => .recoveringUpTo resume ends ih n

/-- By induction on how far the counter is from the limit. -/
theorem Call.runnable {α : Type} (call : Call α) (setting : Setting) (depth : Nat) :
    Runnable setting depth call.reader := by
  obtain ⟨left, hleft⟩ : ∃ left, setting.options.maxDepth - depth = left := ⟨_, rfl⟩
  induction left generalizing α depth with
  | zero =>
    intro s
    rw [levelAt, hleft, call.reader_zero]
    exact .refused call s (Nat.sub_eq_zero_iff_le.1 hleft)
  | succ left ih =>
    intro s
    have hdeeper : setting.options.maxDepth - (depth + 1) = left := by omega
    have hbody := (call.composed_body inherited_true).runnable_of (fun call' => ih call' (depth + 1) hdeeper) s
    rw [levelAt, hleft, call.reader_succ, ← hdeeper]
    exact .nested call (by omega) hbody

theorem Composed.runnable {α : Type} {r : Reader α} (h : Composed (fun _ => True) r) (setting : Setting)
    (depth : Nat) : Runnable setting depth r :=
  h.runnable_of fun call => call.runnable setting depth

theorem wholeExpr_runnable (setting : Setting) (depth : Nat) : Runnable setting depth wholeExpr := by
  refine .bind (.attempt (Call.runnable (.expr .value) setting depth)) fun outcome => ?_
  cases outcome with
  | ok e =>
    refine .bind (.plain fun _ => rfl) fun ended => .ite (.plain fun _ => rfl) ?_
    exact .bind (.plain fun _ => rfl) fun fault => .bind (.record fault) fun _ => .plain fun _ => rfl
  | error fault => exact .bind (.record fault) fun _ => .plain fun _ => rfl

theorem Runnable.runs_iff {setting : Setting} {depth : Nat} {α : Type} {r : Reader α} (h : Runnable setting depth r)
    (s : State) (ending : Ending α) (depth' : Nat) :
    Runs setting r depth s ending depth' ↔ ending = r (levelAt setting depth) s ∧ depth' = depth := by
  constructor
  · exact fun hruns => ⟨hruns.ending_eq, hruns.restores⟩
  · rintro ⟨rfl, rfl⟩
    exact h s

end JuiceSyntax
