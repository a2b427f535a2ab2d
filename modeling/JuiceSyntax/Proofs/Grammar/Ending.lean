/-
  What the single steps of a reading do to the state. A step ends with a result or in a fault,
  and leaves a state either way (`Ending.state`).

  Every step has its equation here, and what is proved of readings elsewhere uses these and
  opens no step.
-/
import JuiceSyntax.Document

namespace JuiceSyntax

open Reader Grammar

/-- How a step ends. -/
abbrev Ending (α : Type) := EStateM.Result Fault State α

/-- The state that is left. -/
def Ending.state {α : Type} : Ending α → State
  | .ok _ s | .error _ s => s

@[simp] theorem Ending.state_ok {α : Type} (a : α) (s : State) :
    Ending.state (.ok a s : Ending α) = s := rfl

@[simp] theorem Ending.state_error {α : Type} (fault : Fault) (s : State) :
    Ending.state (.error fault s : Ending α) = s := rfl

/-- Goes on from a result; a fault stays. -/
def Ending.andThen {α β : Type} (ending : Ending α) (next : α → State → Ending β) : Ending β :=
  match ending with
  | .ok a s => next a s
  | .error fault s => .error fault s

@[simp] theorem Ending.andThen_ok {α β : Type} (a : α) (s : State) (next : α → State → Ending β) :
    Ending.andThen (.ok a s) next = next a s := rfl

@[simp] theorem Ending.andThen_error {α β : Type} (fault : Fault) (s : State) (next : α → State → Ending β) :
    Ending.andThen (.error fault s) next = .error fault s := rfl

variable {α β : Type} (L : Level) (s : State)

/-! ## Plain steps -/

theorem pure_apply (a : α) : (pure a : Reader α) L s = .ok a s := rfl

theorem throw_apply (fault : Fault) : (throw fault : Reader α) L s = .error fault s := rfl

theorem bind_apply (r : Reader α) (k : α → Reader β) :
    (r >>= k) L s = Ending.andThen (r L s) fun a s' => k a L s' := by
  simp only [bind, ReaderT.bind, EStateM.bind]
  cases r L s <;> rfl

theorem cursor_apply : Reader.cursor L s = .ok s.cursor s := rfl

theorem cursor_bind_apply (k : Cursor → Reader α) : (Reader.cursor >>= k) L s = k s.cursor L s := rfl

theorem halted_apply : Reader.halted L s = .ok s.halted s := rfl

theorem spanFrom_apply (start : Span) : Reader.spanFrom start L s = .ok (start.cover s.cursor.previous) s := rfl

theorem sourceText_apply (span : Span) : sourceText span L s = .ok ((slice? L.source span).getD []) s := rfl

theorem advance_apply : Reader.advance L s = .ok s.cursor.current { s with cursor := s.cursor.advance } := rfl

theorem noteBody_apply (inner : Span) :
    (modify fun s => { s with macroBodies := s.macroBodies ++ [inner] } : Reader Unit) L s =
      .ok () { s with macroBodies := s.macroBodies ++ [inner] } := rfl

theorem choose_apply {c : Prop} [Decidable c] (r r' : Reader α) :
    (if c then r else r') L s = if c then r L s else r' L s := by
  split <;> rfl

theorem get_apply : (get : Reader State) L s = .ok s s := rfl

theorem set_apply (s' : State) : (set s' : Reader PUnit) L s = .ok () s' := rfl

theorem read_apply : (read : Reader Level) L s = .ok L s := rfl

/-- A result of two readers one after the other. -/
theorem ok_of_bind {L : Level} {r : Reader α} {k : α → Reader β} {s u : State} {b : β}
    (h : (r >>= k) L s = .ok b u) : ∃ a t, r L s = .ok a t ∧ k a L t = .ok b u := by
  rw [bind_apply] at h
  cases hfirst : r L s with
  | error fault t =>
    rw [hfirst] at h
    cases h
  | ok a t =>
    rw [hfirst] at h
    exact ⟨a, t, rfl, h⟩

/-! ## Marks and words -/

theorem atMark_apply (m : Mark) : atMark m L s = .ok (s.cursor.kind.isMark m) s := rfl

theorem takeMark_apply (m : Mark) :
    takeMark m L s =
      if s.cursor.kind.isMark m then .ok true { s with cursor := s.cursor.advance } else .ok false s := by
  simp only [takeMark, bind_apply, atMark_apply, choose_apply, advance_apply, pure_apply, Ending.andThen_ok]

theorem takeWord_apply (w : Keyword) :
    takeWord w L s =
      if s.cursor.kind.isWord w then .ok true { s with cursor := s.cursor.advance } else .ok false s := by
  simp only [takeWord, kind, bind_apply, cursor_apply, choose_apply, advance_apply, pure_apply, Ending.andThen_ok]

theorem needMark_apply (m : Mark) :
    needMark m L s =
      if s.cursor.kind.isMark m then .ok s.cursor.span { s with cursor := s.cursor.advance }
      else .error (.ofCause s.cursor.span (.missing (.mark m) s.cursor.kind none)) s := by
  simp only [needMark, kind, here, bind_apply, cursor_apply, atMark_apply, choose_apply, advance_apply, pure_apply,
    throw_apply, Ending.andThen_ok]
  rfl

theorem needWord_apply (w : Keyword) :
    needWord w L s =
      if s.cursor.kind.isWord w then .ok s.cursor.span { s with cursor := s.cursor.advance }
      else .error (.ofCause s.cursor.span (.missing (.word w) s.cursor.kind none)) s := by
  simp only [needWord, kind, here, bind_apply, cursor_apply, choose_apply, advance_apply, pure_apply, throw_apply,
    Ending.andThen_ok]
  rfl

/-! ## Faults -/

/-- The state with one fault more, and the limit fault after it if that was the last one
allowed. -/
def State.withFault (options : Options) (fault : Fault) (s : State) : State :=
  if s.halted then s
  else if fault.isFatal || options.strict then { s with faults := s.faults ++ [fault], halted := true }
  else if options.maxFaults ≤ s.faults.length + 1 then
    { s with
      faults := s.faults ++ [fault] ++ [.ofCause s.cursor.span (.tooManyFaults options.maxFaults)]
      halted := true }
  else { s with faults := s.faults ++ [fault] }

theorem record_apply (fault : Fault) : record fault L s = .ok () (s.withFault L.options fault) := by
  simp only [record, bind_apply, get_apply, read_apply, choose_apply, set_apply, pure_apply, State.withFault,
    Ending.andThen_ok, List.length_append, List.length_singleton]
  by_cases hs : s.halted = true
  · rw [if_pos hs, if_pos hs]
  · rw [if_neg hs, if_neg hs]
    split
    · rfl
    · split
      · rfl
      · rfl

/-- The state after a turn of a loop that failed, having begun at `start`. -/
def State.recovered (start : Cursor) (resume : Resume) (s : State) : State :=
  if s.halted then s
  else
    let cursor := resumeFrom start resume s.cursor
    { s with
      cursor
      faults :=
        if start.pos < cursor.pos then noteSkipped (start.span.cover cursor.previous) s.faults else s.faults }

theorem recover_apply (start : Cursor) (resume : Resume) :
    recover start resume L s = .ok () (s.recovered start resume) := by
  simp only [recover, bind_apply, get_apply, choose_apply, set_apply, pure_apply, State.recovered,
    Ending.andThen_ok]
  split
  · rfl
  · rfl

/-! ## Readers run by others -/

/-- A fault as a result. -/
def Ending.caught : Ending α → Ending (Except Fault α)
  | .ok a s => .ok (.ok a) s
  | .error fault s => .ok (.error fault) s

/-- The same, with the cursor here. -/
def Ending.placed (c : Cursor) : Ending α → Ending α
  | .ok a s => .ok a { s with cursor := c }
  | .error fault s => .error fault { s with cursor := c }

@[simp] theorem Ending.state_caught (ending : Ending α) :
    Ending.state (Ending.caught ending) = Ending.state ending := by
  cases ending <;> rfl

@[simp] theorem Ending.state_placed (c : Cursor) (ending : Ending α) :
    Ending.state (Ending.placed c ending) = { Ending.state ending with cursor := c } := by
  cases ending <;> rfl

theorem attempt_apply (r : Reader α) : attempt r L s = Ending.caught (r L s) := by
  rw [attempt]
  cases r L s <;> rfl

theorem withTokens_apply (tokens : List Token) (r : Reader α) :
    withTokens tokens r L s = Ending.placed s.cursor (r L { s with cursor := .ofTokens tokens }) := by
  rw [withTokens]
  cases r L { s with cursor := .ofTokens tokens } <;> rfl

/-- A speculation that ends in `ending`. -/
def speculated (before : State) (ending : Ending α) : Ending (Option α) :=
  let recorded := (Ending.state ending).faults.drop before.faults.length
  match recorded.find? (·.isFatal), ending with
  | some fault, _ => .error fault (Ending.state ending)
  | none, .ok a s => if recorded.all (·.isStructural) then .ok (some a) s else .ok none (before.rewind s)
  | none, .error fault s => if fault.isFatal then .error fault s else .ok none (before.rewind s)

theorem speculate_apply (r : Reader α) : speculate r L s = speculated s (r L s) := by
  unfold speculate speculated
  cases r L s with
  | ok a s' =>
    dsimp only [Ending.state]
    cases (s'.faults.drop s.faults.length).find? (·.isFatal) <;> rfl
  | error fault s' =>
    dsimp only [Ending.state]
    cases (s'.faults.drop s.faults.length).find? (·.isFatal) <;> rfl

theorem speculated_ok (before : State) (a : α) :
    speculated before (.ok a s) =
      match (s.faults.drop before.faults.length).find? (·.isFatal) with
      | some fault => .error fault s
      | none =>
        if (s.faults.drop before.faults.length).all (·.isStructural) then .ok (some a) s
        else .ok none (before.rewind s) := by
  unfold speculated
  dsimp only [Ending.state]
  cases (s.faults.drop before.faults.length).find? (·.isFatal) <;> rfl

theorem speculated_error (before : State) (fault : Fault) :
    speculated before (.error fault s : Ending α) =
      match (s.faults.drop before.faults.length).find? (·.isFatal) with
      | some fault => .error fault s
      | none => if fault.isFatal then .error fault s else .ok none (before.rewind s) := by
  unfold speculated
  dsimp only [Ending.state]
  cases (s.faults.drop before.faults.length).find? (·.isFatal) <;> rfl

/-- Remembers of a failed try that the brace does not open this form. -/
def noted (form : BraceForm) (offset : Nat) : Ending (Option α) → Ending (Option α)
  | .ok none s => .ok none (s.noteFailed offset form)
  | ending => ending

theorem tryBrace_apply (form : BraceForm) (r : Reader Expr) :
    tryBrace form r L s =
      if L.remember && (s.failed form).contains s.cursor.span.start then .ok none s
      else noted form s.cursor.span.start (speculated s (r L s)) := by
  simp only [tryBrace, here, bind_apply, cursor_apply, pure_apply, read_apply, get_apply, choose_apply,
    Ending.andThen_ok]
  split
  · rfl
  · rw [speculate_apply]
    cases speculated s (r L s) with
    | ok found s' => cases found <;> rfl
    | error fault s' => rfl

/-- A try that gives nothing leaves the cursor where it was. -/
theorem cursor_of_tryBrace {L : Level} {form : BraceForm} {r : Reader Expr} {s t : State}
    (h : tryBrace form r L s = .ok none t) : t.cursor = s.cursor := by
  have hback {ending : Ending Expr} {u : State} (hu : speculated s ending = .ok none u) : u.cursor = s.cursor := by
    unfold speculated at hu
    dsimp only at hu
    split at hu
    · cases hu
    · split at hu <;> cases hu
      rfl
    · split at hu <;> cases hu
      rfl
  rw [tryBrace_apply] at h
  split at h
  · cases h
    rfl
  · cases hu : speculated s (r L s) with
    | error fault u =>
      rw [hu] at h
      cases h
    | ok found u =>
      rw [hu] at h
      cases found with
      | some e => cases h
      | none =>
        cases h
        have hcursor := hback hu
        cases form <;> exact hcursor

/-- The state after a turn of a loop that failed with this fault, having begun at `start`. -/
def State.resumed (options : Options) (start : Cursor) (resume : Resume) (fault : Fault) (s : State) : State :=
  (s.withFault options fault).recovered start resume

/-- What `loop` adds to a turn that began at `start`. -/
def turned (options : Options) (start : Cursor) (resume : Resume) (loop : State → Ending (List α)) :
    Except Fault α → State → Ending (List α)
  | .ok first, s => Ending.andThen (loop s) fun rest => .ok (first :: rest)
  | .error fault, s => loop (s.resumed options start resume fault)

theorem recoveringUpTo_succ (resume : Resume) (ends : Kind → Bool) (item : Reader α) (fuel : Nat) :
    recoveringUpTo resume ends item (fuel + 1) L s =
      if ends s.cursor.kind || s.cursor.atEnd || s.halted then .ok [] s
      else Ending.andThen (Ending.caught (item L s))
        (turned L.options s.cursor resume (recoveringUpTo resume ends item fuel L)) := by
  simp only [recoveringUpTo, bind_apply, cursor_apply, halted_apply, choose_apply, pure_apply, attempt_apply,
    Ending.andThen_ok]
  split
  · rfl
  · cases item L s with
    | ok first s' => simp only [Ending.caught, Ending.andThen_ok, bind_apply, pure_apply, turned]
    | error fault s' =>
      simp only [Ending.caught, Ending.andThen_ok, bind_apply, record_apply, recover_apply, turned, State.resumed]

theorem recovering_apply (resume : Resume) (ends : Kind → Bool) (item : Reader α) :
    recovering resume ends item L s = recoveringUpTo resume ends item s.cursor.left L s := rfl

/-- A loop that recovers ends in no fault of its own. -/
theorem recoveringUpTo_ok {L : Level} {resume : Resume} {ends : Kind → Bool} {item : Reader α} (fuel : Nat)
    (s : State) : ∃ items s', recoveringUpTo resume ends item fuel L s = .ok items s' := by
  induction fuel generalizing s with
  | zero => exact ⟨_, _, rfl⟩
  | succ fuel ih =>
    rw [recoveringUpTo_succ]
    split
    · exact ⟨_, _, rfl⟩
    · cases item L s with
      | ok first t =>
        obtain ⟨items, s', h⟩ := ih t
        simp only [Ending.caught, Ending.andThen_ok, turned, h]
        exact ⟨_, _, rfl⟩
      | error fault t =>
        simp only [Ending.caught, Ending.andThen_ok, turned]
        exact ih _

/-- A turn of a loop: the loop has ended, or an item is read, or the reading recovers. -/
theorem recoveringUpTo_cases {L : Level} {resume : Resume} {ends : Kind → Bool} {item : Reader α} {fuel : Nat}
    {s t : State} {items : List α} (h : recoveringUpTo resume ends item (fuel + 1) L s = .ok items t) :
    ((ends s.cursor.kind || s.cursor.atEnd || s.halted) = true ∧ items = [] ∧ t = s) ∨
    ((ends s.cursor.kind || s.cursor.atEnd || s.halted) = false ∧ ∃ first rest u, item L s = .ok first u ∧
      recoveringUpTo resume ends item fuel L u = .ok rest t ∧ items = first :: rest) ∨
    ((ends s.cursor.kind || s.cursor.atEnd || s.halted) = false ∧ ∃ fault u, item L s = .error fault u ∧
      recoveringUpTo resume ends item fuel L (u.resumed L.options s.cursor resume fault) = .ok items t) := by
  rw [recoveringUpTo_succ] at h
  split at h
  · rename_i hended
    cases h
    exact .inl ⟨hended, rfl, rfl⟩
  · rename_i hgoes
    rw [Bool.not_eq_true] at hgoes
    cases hfirst : item L s with
    | ok first u =>
      obtain ⟨rest, t', hrest⟩ : ∃ rest t', recoveringUpTo resume ends item fuel L u = .ok rest t' :=
        recoveringUpTo_ok fuel u
      simp only [hfirst, Ending.caught, Ending.andThen_ok, turned, hrest] at h
      cases h
      exact .inr (.inl ⟨hgoes, first, rest, u, rfl, hrest, rfl⟩)
    | error fault u =>
      simp only [hfirst, Ending.caught, Ending.andThen_ok, turned] at h
      exact .inr (.inr ⟨hgoes, fault, u, rfl, h⟩)

/-! ## Looking -/

/-- A reader that only looks. -/
def Looks (L : Level) {α : Type} (r : Reader α) : Prop := ∀ s, ∃ a, r L s = .ok a s

namespace Looks

variable {L : Level}

theorem here : Looks L Reader.here := fun _ => ⟨_, rfl⟩

theorem kind : Looks L Reader.kind := fun _ => ⟨_, rfl⟩

theorem cursor : Looks L Reader.cursor := fun _ => ⟨_, rfl⟩

theorem peek (n : Nat) : Looks L (Reader.peek n) := fun _ => ⟨_, rfl⟩

theorem atEnd : Looks L Reader.atEnd := fun _ => ⟨_, rfl⟩

theorem atMark (m : Mark) : Looks L (Reader.atMark m) := fun _ => ⟨_, rfl⟩

theorem halted : Looks L Reader.halted := fun _ => ⟨_, rfl⟩

theorem tokensLeft : Looks L JuiceSyntax.tokensLeft := fun _ => ⟨_, rfl⟩

theorem spanFrom (start : Span) : Looks L (Reader.spanFrom start) := fun _ => ⟨_, rfl⟩

theorem sourceText (span : Span) : Looks L (Grammar.sourceText span) := fun _ => ⟨_, rfl⟩

end Looks

/-! ## Members of types -/

/-- Not a synonym, which no member can be added to. -/
def OfMembers (body : Option TypeBody) : Prop := ∀ type, body ≠ some (.synonym type)

theorem ofMembers_none : OfMembers none := fun _ => nofun

theorem addMember_ofMembers {L : Level} {body body' : Option TypeBody} {member : Member} {s t : State}
    (h : addMember body member L s = .ok body' t) : OfMembers body' := by
  intro type
  unfold addMember at h
  split at h
  · cases h
    exact nofun
  · cases h
    exact nofun
  · rw [bind_apply, record_apply] at h
    cases h
    exact nofun
  · rw [bind_apply, record_apply] at h
    cases h
    exact nofun
  · cases h
    exact nofun
  · cases h
    exact nofun

/-! ## Bodies of macros -/

theorem macroBody_apply :
    macroBody L s =
      if s.cursor.kind.isMark .lBrace then
        let first := s.cursor.advance
        let stop := first.skip (innerLength 0 first.rest)
        let inner : Span := ⟨s.cursor.span.stop, stop.span.start⟩
        if stop.atEnd then
          .error (.ofCause stop.span (.missing (.mark .rBrace) .done (some .openMacroBody))) { s with cursor := stop }
        else
          .ok ⟨s.cursor.span.cover stop.span, inner, String.ofList (trim ((slice? L.source inner).getD [])),
              first.rest.take (innerLength 0 first.rest)⟩
            { s with cursor := stop.advance, macroBodies := s.macroBodies ++ [inner] }
      else .error (.ofCause s.cursor.span (.missing (.mark .lBrace) s.cursor.kind none)) s := by
  have hskip (n : Nat) (s : State) : skip n L s = .ok () { s with cursor := s.cursor.skip n } := rfl
  simp only [macroBody, Reader.atEnd, Reader.here, bind_apply, needMark_apply, cursor_apply, choose_apply, advance_apply, pure_apply,
    noteBody_apply, sourceText_apply, throw_apply]
  split
  · simp only [Ending.andThen_ok, hskip]
    split <;> rfl
  · rfl

/-! ## Expressions -/

theorem wholeExpr_apply (L : Level) (s : State) : wholeExpr L s =
    match L.expr .value s with
    | .ok e t =>
      if t.cursor.atEnd then .ok (some e) t
      else .ok none (t.withFault L.options (.ofCause t.cursor.span (.unexpected .endOfInput t.cursor.kind none)))
    | .error fault t => .ok none (t.withFault L.options fault) := by
  have hat (t : State) : Reader.atEnd L t = .ok t.cursor.atEnd t := rfl
  have hexpr : Reader.expr .value L s = L.expr .value s := rfl
  rw [wholeExpr, bind_apply, attempt_apply, hexpr]
  cases L.expr .value s with
  | error fault t =>
    simp only [Ending.caught, Ending.andThen_ok, bind_apply, record_apply, pure_apply]
  | ok e t =>
    simp only [Ending.caught, Ending.andThen_ok, bind_apply, hat, choose_apply, pure_apply, unexpected, here, kind,
      cursor_apply, record_apply]

/-! ## Programs -/

/-- How the reading of a program ends. -/
def itemsEnding (setting : Setting) (tokens : List Token) : Ending (List Item) :=
  items (level setting setting.options.maxDepth) (.ofTokens tokens)

/-- Programs are read to their end. -/
theorem itemsEnding_ok (setting : Setting) (tokens : List Token) :
    ∃ items s, itemsEnding setting tokens = .ok items s :=
  recoveringUpTo_ok _ _

/-- What a program is read as. -/
def Ending.reading : Ending (List Item) → Reading (List Item)
  | .ok value s => ⟨value, s.faults, s.macroBodies⟩
  | .error _ s => ⟨[], s.faults, s.macroBodies⟩

theorem readItems_eq (setting : Setting) (tokens : List Token) :
    readItems setting tokens = Ending.reading (itemsEnding setting tokens) := by
  unfold readItems Reader.run itemsEnding
  cases items (level setting setting.options.maxDepth) (.ofTokens tokens) <;> rfl

theorem Ending.faults_reading (ending : Ending (List Item)) :
    (Ending.reading ending).faults = (Ending.state ending).faults := by
  cases ending <;> rfl

/-- The document that a reading of its items makes. -/
def Document.ofReading (source : String) (reading : Reading (List Item)) : Document :=
  let lexed := lex source
  ⟨⟨lexed.shebang, reading.value, ⟨0, source.utf8ByteSize⟩⟩, lexed.tokens, lexed.comments,
    outsideBodies reading.macroBodies lexed.faults, reading.faults⟩

@[simp] theorem Document.faults_ofReading (source : String) (reading : Reading (List Item)) :
    (Document.ofReading source reading).faults = reading.faults := rfl

theorem read_eq (source : String) {options : Options} (h : options.strict = false) :
    Document.read source options =
      .ofReading source (readItems (.ofSource source options) (lex source).tokens) := by
  simp only [Document.read, h, Bool.false_and, Document.ofReading]
  rfl

end JuiceSyntax
