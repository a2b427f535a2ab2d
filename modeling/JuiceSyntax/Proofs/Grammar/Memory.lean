/-
  What a reading remembers of braces saves work and changes nothing. A brace that is remembered
  failed in a reading that had some number of levels below it and faults before it, and is passed
  over in one that may have others. It would fail there again: two readings from the same place,
  with whatever room, end alike unless one of them is doomed, that is, ends in a fatal fault
  (`Composed.agrees`). So a brace that failed in one of them opens that form in no other
  (`Refuses`), and what is remembered says only such things (`State.Sound`).

  `readItems_remember`: a reading that remembers gives the same as the plain one, unless the
  plain one ends in a fatal fault.
-/
import JuiceSyntax.Proofs.Grammar.Enclosure
import JuiceSyntax.Proofs.Grammar.FatalFault

namespace JuiceSyntax

open Reader Grammar

/-! ## Doomed readings -/

/-- Ends in a fatal fault, or halted. -/
def Ending.Doomed {α : Type} : Ending α → Prop
  | .ok _ s => s.halted = true
  | .error fault s => fault.isFatal = true ∨ s.halted = true

/-- A reading that is halted on the way has a new fatal fault. -/
def FatalHalt (s t : State) : Prop :=
  s.halted = false → t.halted = true → ∃ fault ∈ t.faults.drop s.faults.length, fault.isFatal = true

theorem Composed.fatalHalt {fine : List Token → Prop} (hf : Inherited fine) {α : Type} {r : Reader α}
    (h : Composed fine r) {setting : Setting} (hstrict : setting.options.strict = false) (n : Nat) (s : State)
    (hs : fine s.cursor.rest) : FatalHalt s (Ending.state (r (level setting n) s)) :=
  (h.goesToFatal hf hstrict n s hs).2.exists_of_halted

section

variable {α β : Type} {s : State} {ending : Ending α}

/-- A doomed reading stays so in what follows. -/
theorem Ending.Doomed.andThen {next : α → State → Ending β} (h : Ending.Doomed ending)
    (hnext : ∀ a t, ending = .ok a t → Grows t (Ending.state (next a t))) :
    Ending.Doomed (Ending.andThen ending next) := by
  cases ending with
  | error fault t => exact h
  | ok a t =>
    have hhalted := ((hnext a t rfl).halted h).1
    rw [Ending.andThen_ok]
    cases hend : next a t with
    | ok b u =>
      rw [hend] at hhalted
      exact hhalted
    | error fault u =>
      rw [hend] at hhalted
      exact .inr hhalted

/-- Without a new fatal fault a reading is not halted. -/
theorem FatalHalt.goes {t : State} (h : FatalHalt s t) (hs : s.halted = false)
    (hnone : (t.faults.drop s.faults.length).find? (·.isFatal) = none) : t.halted = false := by
  cases hh : t.halted with
  | false => rfl
  | true =>
    obtain ⟨fault, hmem, hfatal⟩ := h hs hh
    exact absurd hfatal (by simpa using List.find?_eq_none.1 hnone fault hmem)

/-- A speculation gives up on faults, but not on fatal ones. -/
theorem Ending.Doomed.speculated (h : Ending.Doomed ending) (hs : s.halted = false)
    (hfatal : FatalHalt s (Ending.state ending)) : Ending.Doomed (speculated s ending) := by
  cases ending with
  | ok a t =>
    rw [speculated_ok]
    split
    · rename_i hfound
      exact .inl (List.find?_some hfound)
    · rename_i hnone
      exact absurd (h.symm.trans (hfatal.goes hs hnone)) (by decide)
  | error fault t =>
    rw [speculated_error]
    split
    · rename_i hfound
      exact .inl (List.find?_some hfound)
    · rename_i hnone
      obtain hf | hh := h
      · rw [if_pos hf]
        exact .inl hf
      · exact absurd (hh.symm.trans (hfatal.goes hs hnone)) (by decide)

/-- A kept speculation is not doomed. -/
theorem not_doomed_of_kept {a : α} {t : State} (hs : s.halted = false) (hfatal : FatalHalt s (Ending.state ending))
    (h : speculated s ending = .ok (some a) t) : ending = .ok a t ∧ ¬Ending.Doomed ending := by
  cases ending with
  | ok b u =>
    rw [speculated_ok] at h
    split at h
    · cases h
    · rename_i hnone
      split at h
      · cases h
        refine ⟨rfl, fun hh => ?_⟩
        exact absurd (hh.symm.trans (hfatal.goes hs hnone)) (by decide)
      · cases h
  | error fault u =>
    rw [speculated_error] at h
    split at h
    · cases h
    · split at h
      · cases h
      · cases h

end

/-! ## Readings from the same place -/

/-- Cursors at the same tokens, which are the `n`-th in one count and the `n'`-th in the other. -/
structure Cursor.Beside (n n' : Nat) (c c' : Cursor) : Prop where
  pos : c.pos + n' = c'.pos + n
  rest : c.rest = c'.rest
  last : c.last = c'.last

namespace Cursor.Beside

variable {n n' : Nat} {c c' : Cursor}

theorem current (h : c.Beside n n' c') : c.current = c'.current := by
  simp only [Cursor.current, h.rest]

theorem span (h : c.Beside n n' c') : c.span = c'.span := by
  simp only [Cursor.span, h.current]

theorem kind (h : c.Beside n n' c') : c.kind = c'.kind := by
  simp only [Cursor.kind, h.current]

theorem atEnd (h : c.Beside n n' c') : c.atEnd = c'.atEnd := by
  simp only [Cursor.atEnd, h.kind]

theorem left (h : c.Beside n n' c') : c.left = c'.left := by
  rw [c.left_eq, c'.left_eq, h.rest]

theorem previous (h : c.Beside n n' c') : c.previous = c'.previous := by
  simp only [Cursor.previous, h.last, h.span]

theorem advance (h : c.Beside n n' c') : c.advance.Beside n n' c'.advance := by
  cases hend : c'.atEnd with
  | true =>
    rw [Cursor.advance_of_atEnd hend, Cursor.advance_of_atEnd (h.atEnd.trans hend)]
    exact h
  | false =>
    obtain ⟨hpos, hlast, hrest⟩ := Cursor.advance_of_mid (h.atEnd.trans hend)
    obtain ⟨hpos', hlast', hrest'⟩ := Cursor.advance_of_mid hend
    have hsame := h.pos
    refine ⟨by omega, ?_, ?_⟩
    · rw [hrest, hrest', h.rest]
    · rw [hlast, hlast', h.span]

theorem skip (h : c.Beside n n' c') (m : Nat) : (c.skip m).Beside n n' (c'.skip m) := by
  induction m generalizing c c' with
  | zero => exact h
  | succ m ih => exact ih h.advance

theorem resumeFrom {start start' : Cursor} (hstart : start.Beside n n' start') (resume : Resume)
    (h : c.Beside n n' c') :
    (JuiceSyntax.resumeFrom start resume c).Beside n n' (JuiceSyntax.resumeFrom start' resume c') := by
  have hpos : (c.pos == start.pos) = (c'.pos == start'.pos) := by
    have hsame := h.pos
    have hsame' := hstart.pos
    rw [Bool.eq_iff_iff, beq_iff_eq, beq_iff_eq]
    omega
  have hmoved {d d' : Cursor} (hd : d.Beside n n' d') :
      (d.skip (resume.distance 0 d.rest)).Beside n n' (d'.skip (resume.distance 0 d'.rest)) := by
    rw [hd.rest]
    exact hd.skip _
  unfold JuiceSyntax.resumeFrom
  dsimp only
  rw [hpos, h.atEnd, h.kind]
  split
  · exact hmoved h.advance
  · exact hmoved h

theorem passed {start start' : Cursor} (hstart : start.Beside n n' start') (h : c.Beside n n' c') (fault : Fault) :
    fault.passed start c = fault.passed start' c' := by
  have hpos : (start.pos < c.pos) = (start'.pos < c'.pos) := by
    have hsame := h.pos
    have hsame' := hstart.pos
    exact propext ⟨fun hlt => by omega, fun hlt => by omega⟩
  simp only [Fault.passed, hpos, hstart.span, h.previous]

end Cursor.Beside

/-- What two readings had before they came to the same place. -/
structure Past where
  pos : Nat × Nat
  faults : List Fault × List Fault
  macroBodies : List Span × List Span

/-- Two readings that go on, at the same place, and have the same faults and bodies since they came
there. What they remember may differ. -/
structure Twins (past : Past) (s s' : State) : Prop where
  cursor : s.cursor.Beside past.pos.1 past.pos.2 s'.cursor
  faults : ∃ new, s.faults = past.faults.1 ++ new ∧ s'.faults = past.faults.2 ++ new
  macroBodies : ∃ new, s.macroBodies = past.macroBodies.1 ++ new ∧ s'.macroBodies = past.macroBodies.2 ++ new
  goes : s.halted = false
  goes' : s'.halted = false

inductive Ending.Twins (past : Past) {α : Type} : Ending α → Ending α → Prop
  | ok (a : α) {s s' : State} (h : JuiceSyntax.Twins past s s') : Ending.Twins past (.ok a s) (.ok a s')
  | error {fault : Fault} (mild : fault.isFatal = false) {s s' : State} (h : JuiceSyntax.Twins past s s') :
    Ending.Twins past (.error fault s) (.error fault s')

section

variable {past : Past} {s s' t t' : State} {α : Type} {ending ending' : Ending α}

theorem Ending.Twins.not_doomed (h : Ending.Twins past ending ending') : ¬Ending.Doomed ending := by
  cases h with
  | ok a h => exact fun hh => absurd (h.goes.symm.trans hh) (by decide)
  | error mild h =>
    rintro (hf | hh)
    · exact absurd (mild.symm.trans hf) (by decide)
    · exact absurd (h.goes.symm.trans hh) (by decide)

/-- Nor is the other one. -/
theorem Ending.Twins.not_doomed' (h : Ending.Twins past ending ending') : ¬Ending.Doomed ending' := by
  cases h with
  | ok a h => exact fun hh => absurd (h.goes'.symm.trans hh) (by decide)
  | error mild h =>
    rintro (hf | hh)
    · exact absurd (mild.symm.trans hf) (by decide)
    · exact absurd (h.goes'.symm.trans hh) (by decide)

/-- The cursors may be put elsewhere. -/
theorem Twins.at (h : Twins past s s') (pos : Nat × Nat) {c c' : Cursor} (hc : c.Beside pos.1 pos.2 c') :
    Twins { past with pos } { s with cursor := c } { s' with cursor := c' } :=
  ⟨hc, h.faults, h.macroBodies, h.goes, h.goes'⟩

/-- What is remembered may be something else. -/
theorem Twins.remembering (h : Twins past s s') {records blocks records' blocks' : List Nat} :
    Twins past { s with failedRecords := records, failedBlocks := blocks }
      { s' with failedRecords := records', failedBlocks := blocks' } :=
  ⟨h.cursor, h.faults, h.macroBodies, h.goes, h.goes'⟩

theorem Twins.recorded (h : Twins past s s') (ht : Twins past t t') :
    t.faults.drop s.faults.length = t'.faults.drop s'.faults.length := by
  obtain ⟨new, hnew, hnew'⟩ := h.faults
  obtain ⟨more, hmore, hmore'⟩ := ht.faults
  have hdrop (before : List Fault) : (before ++ more).drop (before ++ new).length = more.drop new.length := by
    rw [List.length_append, List.drop_append, List.drop_of_length_le (by omega)]
    simp
  rw [hnew, hnew', hmore, hmore', hdrop, hdrop]

theorem Ending.Twins.speculated (hs : JuiceSyntax.Twins past s s') (hg : Grows s (Ending.state ending))
    (hg' : Grows s' (Ending.state ending')) (h : Ending.Twins past ending ending')
    (hdoom : ¬Ending.Doomed (JuiceSyntax.speculated s' ending')) :
    Ending.Twins past (JuiceSyntax.speculated s ending) (JuiceSyntax.speculated s' ending') := by
  have hback {t t' : State} (hgt : Grows s t) (hgt' : Grows s' t') :
      JuiceSyntax.Twins past (s.rewind t) (s'.rewind t') := by
    rw [rewind_eq hgt, rewind_eq hgt']
    exact hs.remembering
  cases h with
  | ok a h =>
    rw [speculated_ok] at hdoom ⊢
    rw [speculated_ok, hs.recorded h]
    split
    · rename_i hfound
      rw [hfound] at hdoom
      exact absurd (.inl (List.find?_some hfound)) hdoom
    · split
      · exact .ok _ h
      · exact .ok _ (hback hg hg')
  | error mild h =>
    rw [speculated_error] at hdoom ⊢
    rw [speculated_error, hs.recorded h]
    split
    · rename_i hfound
      rw [hfound] at hdoom
      exact absurd (.inl (List.find?_some hfound)) hdoom
    · rw [mild, if_neg (by decide), if_neg (by decide)]
      exact .ok _ (hback hg hg')

theorem noted_twins {form : BraceForm} {offset offset' : Nat} {ending ending' : Ending (Option α)}
    (h : Ending.Twins past ending ending') :
    Ending.Twins past (noted form offset ending) (noted form offset' ending') := by
  cases h with
  | error mild h => exact .error mild h
  | ok found h =>
    cases found with
    | some a => exact .ok _ h
    | none =>
      refine .ok _ ?_
      cases form
      · exact h.remembering
      · exact h.remembering

end

/-! ## Braces that do not open a form -/

/-- A setting in which nothing is remembered. -/
structure Setting.Plain (setting : Setting) (source : List Char) : Prop where
  source : setting.source = source
  strict : setting.options.strict = false
  remember : setting.remember = false

/-- No plain reading, whatever its levels and faults, reads the form from these tokens. -/
def Refuses (source : List Char) (form : BraceForm) (tokens : List Token) : Prop :=
  ∀ (setting : Setting) (n : Nat) (s : State), setting.Plain source → s.halted = false → s.cursor.rest = tokens →
    ∀ e t, speculated s (form.reader (level setting n) s) ≠ .ok (some e) t

theorem Cursor.advance_congr {c c' : Cursor} (hrest : c.rest = c'.rest) (hpos : c.pos = c'.pos)
    (hmid : c.atEnd = false) : c.advance = c'.advance := by
  have hmid' : c'.atEnd = false := by
    rw [← hmid]
    simp only [Cursor.atEnd, Cursor.kind, Cursor.current, hrest]
  obtain ⟨hp, hl, hr⟩ := Cursor.advance_of_mid hmid
  obtain ⟨hp', hl', hr'⟩ := Cursor.advance_of_mid hmid'
  have hspan : c.span = c'.span := by simp only [Cursor.span, Cursor.current, hrest]
  have hleft := c.advance.left_eq
  have hleft' := c'.advance.left_eq
  rw [hr, hrest, ← hr', ← hleft'] at hleft
  rw [hpos, ← hp'] at hp
  rw [hspan, ← hl'] at hl
  rw [hrest, ← hr'] at hr
  cases hc : c.advance
  cases hc' : c'.advance
  rw [hc, hc'] at hp hl hr hleft
  cases hp
  cases hl
  cases hr
  cases hleft
  rfl

/-- Whatever is read of a form comes after its brace. -/
theorem reader_level (form : BraceForm) (setting : Setting) (n : Nat) :
    ∃ next : Span → Reader Expr, ∀ s,
      form.reader (level setting (n + 1)) s = (needMark .lBrace >>= next) (level setting n) s := by
  cases form with
  | record => exact ⟨_, fun s => rfl⟩
  | block =>
    obtain ⟨body, hbody⟩ : ∃ body : Span → Reader Block, blockBody = needMark .lBrace >>= body := ⟨_, rfl⟩
    refine ⟨fun opening => body opening >>= fun block => pure ⟨.block block, block.span⟩, fun s => ?_⟩
    have hblock : BraceForm.block.reader (level setting (n + 1)) s =
        Ending.andThen (blockBody (level setting n) s) fun block t => .ok ⟨.block block, block.span⟩ t := by
      show (Reader.block >>= fun body => pure ⟨.block body, body.span⟩ : Reader Expr) _ s = _
      rw [bind_apply]
      rfl
    rw [hblock, hbody, bind_apply, bind_apply]
    cases needMark .lBrace (level setting n) s with
    | error fault t => rfl
    | ok opening t =>
      rw [Ending.andThen_ok, Ending.andThen_ok, bind_apply]
      rfl

/-- Without a brace no form is read. -/
theorem reader_of_not_brace (form : BraceForm) (setting : Setting) (n : Nat) {s : State}
    (h : s.cursor.kind.isMark .lBrace = false) : ∃ fault, form.reader (level setting n) s = .error fault s := by
  cases n with
  | zero =>
    cases form with
    | record => exact ⟨_, rfl⟩
    | block => exact ⟨_, rfl⟩
  | succ n =>
    obtain ⟨next, hnext⟩ := reader_level form setting n
    rw [hnext, bind_apply, needMark_apply, h, if_neg (by decide)]
    exact ⟨_, rfl⟩

/-- An ending in a fault is not kept. -/
theorem speculated_error_ne {α : Type} (before s : State) (fault : Fault) (a : α) (t : State) :
    speculated before (.error fault s : Ending α) ≠ .ok (some a) t := by
  rw [speculated_error]
  split
  · nofun
  · split
    · nofun
    · nofun

theorem refuses_of_not_brace (source : List Char) (form : BraceForm) {tokens : List Token}
    (h : (firstToken tokens).kind.isMark .lBrace = false) : Refuses source form tokens := by
  intro setting n s _ _ hrest e t
  have hkind : s.cursor.kind.isMark .lBrace = false := by
    rw [← h, ← hrest]
    rfl
  obtain ⟨fault, heq⟩ := reader_of_not_brace form setting n hkind
  rw [heq]
  exact speculated_error_ne s s fault e t

/-- Whatever token comes before the brace, the form is read alike. -/
theorem reader_behind (form : BraceForm) (setting : Setting) (n : Nat) {s : State} (hbrace : s.cursor.kind.isMark .lBrace = true)
    {c : Cursor} (hrest : c.rest = s.cursor.rest) (hpos : c.pos = s.cursor.pos) :
    form.reader (level setting (n + 1)) { s with cursor := c } = form.reader (level setting (n + 1)) s := by
  have hkind : c.kind = s.cursor.kind := by simp only [Cursor.kind, Cursor.current, hrest]
  have hspan : c.span = s.cursor.span := by simp only [Cursor.span, Cursor.current, hrest]
  have hmid : c.atEnd = false := by
    rw [Cursor.atEnd, hkind]
    exact isDone_of_isMark hbrace
  obtain ⟨next, hnext⟩ := reader_level form setting n
  rw [hnext, hnext, bind_apply, bind_apply, needMark_apply, needMark_apply, hkind, hspan, hbrace, if_pos rfl,
    if_pos rfl, Cursor.advance_congr hrest hpos hmid]

/-- So is a form that was read. -/
theorem reader_elsewhere {form : BraceForm} {setting : Setting} {n : Nat} {s t : State} {e : Expr}
    (h : speculated s (form.reader (level setting n) s) = .ok (some e) t) {c : Cursor} (hrest : c.rest = s.cursor.rest)
    (hpos : c.pos = s.cursor.pos) :
    form.reader (level setting n) { s with cursor := c } = form.reader (level setting n) s := by
  cases hbrace : s.cursor.kind.isMark .lBrace with
  | false =>
    obtain ⟨fault, heq⟩ := reader_of_not_brace form setting n hbrace
    rw [heq] at h
    exact absurd h (speculated_error_ne s s fault e t)
  | true =>
    cases n with
    | zero =>
      obtain ⟨fault, heq⟩ : ∃ fault, form.reader (level setting 0) s = .error fault s := by
        cases form with
        | record => exact ⟨_, rfl⟩
        | block => exact ⟨_, rfl⟩
      rw [heq] at h
      exact absurd h (speculated_error_ne s s fault e t)
    | succ n => exact reader_behind form setting n hbrace hrest hpos

/-! ## What is remembered -/

/-- This holds of the braces that are remembered, with the form that each was tried as. -/
def State.Says (doc : List Token) (what : BraceForm → List Token → Prop) (s : State) : Prop :=
  ∀ form, ∀ offset ∈ s.failed form, ∀ tokens ∈ places doc, startOf tokens = offset → what form tokens

theorem State.Says.congr {doc : List Token} {what : BraceForm → List Token → Prop} {s t : State} (h : s.Says doc what)
    (heq : ∀ form, t.failed form = s.failed form) : t.Says doc what := by
  intro form
  rw [heq]
  exact h form

theorem State.Says.noteFailed {doc : List Token} {what : BraceForm → List Token → Prop} {s : State} (h : s.Says doc what)
    {form : BraceForm} {offset : Nat} (hnew : ∀ tokens ∈ places doc, startOf tokens = offset → what form tokens) :
    (s.noteFailed offset form).Says doc what := by
  intro form' o ho
  cases form with
  | record =>
    cases form' with
    | record =>
      obtain rfl | ho := List.mem_cons.1 ho
      · exact hnew
      · exact h .record o ho
    | block => exact h .block o ho
  | block =>
    cases form' with
    | record => exact h .record o ho
    | block =>
      obtain rfl | ho := List.mem_cons.1 ho
      · exact hnew
      · exact h .block o ho

/-- The braces that are remembered do not open the form that is said of them. -/
def State.Sound (source : List Char) (doc : List Token) (s : State) : Prop := s.Says doc (Refuses source)

/-! ## Agreement -/

/-- The first reading has at least the room of the second one, in levels and in faults. -/
structure Room (setting : Setting) (n : Nat) (setting' : Setting) (n' : Nat) (past : Past) : Prop where
  levels : n' ≤ n
  faults : setting'.options.maxFaults + past.faults.1.length ≤ setting.options.maxFaults + past.faults.2.length

/-- With `n` levels, a reading that is not doomed keeps its memory sound, and ends like every plain
one from the same place that is not doomed either. With enough room it is not doomed if the plain
one is not. -/
def Agrees (doc : List Token) (setting : Setting) (n : Nat) {α : Type} (r : Reader α) : Prop :=
  ∀ s, s.halted = false → Stands doc s.cursor.rest → s.Sound setting.source doc →
    (¬Ending.Doomed (r (level setting n) s) → (Ending.state (r (level setting n) s)).Sound setting.source doc) ∧
    ∀ setting' n' past s', setting'.Plain setting.source → Twins past s s' →
      ¬Ending.Doomed (r (level setting' n') s') →
      ¬Ending.Doomed (r (level setting n) s) ∨ Room setting n setting' n' past →
      Ending.Twins past (r (level setting n) s) (r (level setting' n') s')

structure LevelAgrees (doc : List Token) (setting : Setting) (n : Nat) : Prop where
  expr : ∀ position, Agrees doc setting n (Reader.expr position)
  operand : ∀ position, Agrees doc setting n (Reader.operand position)
  block : Agrees doc setting n Reader.block
  type : Agrees doc setting n Reader.type
  record : Agrees doc setting n Reader.recordLiteral

section

variable {doc : List Token} {setting setting' : Setting} {n n' : Nat} {past : Past} {s s' : State} {α β : Type}

/-- A step that always gives the same and at most moves the cursor. -/
theorem agrees_still {r : Reader α} (f : Cursor → α) (k : Nat)
    (hr : ∀ L s, L.source = setting.source → r L s = .ok (f s.cursor) { s with cursor := s.cursor.skip k })
    (hf : ∀ m m' c c', Cursor.Beside m m' c c' → f c = f c') : Agrees doc setting n r := by
  intro s hs _ hsound
  rw [hr _ s (source_level setting n)]
  refine ⟨fun _ => hsound.congr (failed_placed s _), fun setting' n' past s' hplain htwins _ _ => ?_⟩
  rw [hr _ s' ((source_level setting' n').trans hplain.source), hf _ _ _ _ htwins.cursor]
  exact .ok _ (htwins.at past.pos (htwins.cursor.skip k))

theorem Twins.length (h : Twins past s s') :
    s.faults.length + past.faults.2.length = s'.faults.length + past.faults.1.length := by
  obtain ⟨new, hnew, hnew'⟩ := h.faults
  rw [hnew, hnew', List.length_append, List.length_append]
  omega

/-- A fault that is recorded without an end to the reading is recorded in the other one too, if
that goes on or has the room. -/
theorem withFault_twins (hstrict : setting.options.strict = false) (h : Twins past s s') (fault : Fault)
    (hgoes' : (s'.withFault setting'.options fault).halted = false)
    (hgoes : (s.withFault setting.options fault).halted = false ∨ Room setting n setting' n' past) :
    Twins past (s.withFault setting.options fault) (s'.withFault setting'.options fault) := by
  have hlength := h.length
  obtain ⟨hh, -⟩ | ⟨-, -, heq⟩ | ⟨-, -, -, -, heq⟩ | ⟨-, hmild, -, hlt, heq'⟩ :=
    withFault_cases setting'.options fault s'
  · exact absurd (h.goes'.symm.trans hh) (by decide)
  · rw [heq] at hgoes'
    cases hgoes'
  · rw [heq] at hgoes'
    cases hgoes'
  have hroom : s.faults.length + 1 < setting.options.maxFaults := by
    obtain hgoes | hroom := hgoes
    · obtain ⟨hh, -⟩ | ⟨-, -, heq⟩ | ⟨-, -, -, -, heq⟩ | ⟨-, -, -, hlt, -⟩ :=
        withFault_cases setting.options fault s
      · exact absurd (h.goes.symm.trans hh) (by decide)
      · rw [heq] at hgoes
        cases hgoes
      · rw [heq] at hgoes
        cases hgoes
      · exact hlt
    · have := hroom.faults
      omega
  have heq : s.withFault setting.options fault = { s with faults := s.faults ++ [fault] } := by
    rw [State.withFault, h.goes, if_neg (by decide), hmild, hstrict, if_neg (by decide), if_neg (by omega)]
  obtain ⟨new, hnew, hnew'⟩ := h.faults
  rw [heq, heq']
  refine ⟨h.cursor, ⟨new ++ [fault], ?_, ?_⟩, h.macroBodies, h.goes, h.goes'⟩
  · rw [hnew, List.append_assoc]
  · rw [hnew', List.append_assoc]

/-- Recovery does not undo a halt. -/
theorem halted_resumed (options : Options) (start : Cursor) (resume : Resume) (fault : Fault) (s : State) :
    (s.resumed options start resume fault).halted = (s.withFault options fault).halted := by
  unfold State.resumed State.recovered
  split
  · rfl
  · rfl

theorem resumed_twins (hstrict : setting.options.strict = false) {start start' : Cursor}
    (hstart : start.Beside past.pos.1 past.pos.2 start') (resume : Resume) (h : Twins past s s') (fault : Fault)
    (hgoes' : (s'.resumed setting'.options start' resume fault).halted = false)
    (hgoes : (s.resumed setting.options start resume fault).halted = false ∨ Room setting n setting' n' past) :
    Twins past (s.resumed setting.options start resume fault) (s'.resumed setting'.options start' resume fault) := by
  rw [halted_resumed] at hgoes hgoes'
  have htwins := withFault_twins hstrict h fault hgoes' hgoes
  obtain ⟨hh, -⟩ | ⟨-, -, -, -, heq⟩ := resumed_cases setting.options start resume fault s
  · exact absurd (htwins.goes.symm.trans hh) (by decide)
  obtain ⟨hh, -⟩ | ⟨-, -, -, -, heq'⟩ := resumed_cases setting'.options start' resume fault s'
  · exact absurd (htwins.goes'.symm.trans hh) (by decide)
  have hcursor := Cursor.Beside.resumeFrom hstart resume h.cursor
  obtain ⟨new, hnew, hnew'⟩ := h.faults
  rw [heq, heq', hstart.passed hcursor]
  refine ⟨hcursor, ⟨new ++ [fault.passed start' (resumeFrom start' resume s'.cursor)], ?_, ?_⟩, h.macroBodies, h.goes,
    h.goes'⟩
  · rw [hnew, List.append_assoc]
  · rw [hnew', List.append_assoc]

theorem Ending.goes_of_not_doomed {a : α} {t : State} (h : ¬Ending.Doomed (.ok a t : Ending α)) : t.halted = false := by
  simpa [Ending.Doomed] using h

/-- At every level the reader only goes forward. -/
def Forward (doc : List Token) (r : Reader α) : Prop :=
  ∀ setting n s, Stands doc s.cursor.rest → Grows s (Ending.state (r (level setting n) s))

theorem Composed.forward {r : Reader α} (h : Composed (Stands doc) r) : Forward doc r :=
  fun setting n => h.grows (inherited_stands doc) (level_grows setting n)

theorem Forward.thenPure {r : Reader α} (h : Forward doc r) (f : α → β) :
    Forward doc (r >>= fun a => Pure.pure (f a)) := by
  intro setting n s hs
  have hgrows := h setting n s hs
  rw [bind_apply]
  cases hend : r (level setting n) s with
  | ok a t =>
    rw [hend] at hgrows
    exact hgrows
  | error fault t =>
    rw [hend] at hgrows
    exact hgrows

theorem Agrees.pure (a : α) : Agrees doc setting n (Pure.pure a) :=
  fun _ _ _ hsound => ⟨fun _ => hsound, fun _ _ _ _ _ htwins _ _ => .ok a htwins⟩

/-- One step and what follows it. -/
theorem agrees_andThen {r : Reader α} {k : α → Reader β} (hr : Forward doc r) (hk : ∀ a, Forward doc (k a))
    (h : Agrees doc setting n r) (h' : ∀ a, Agrees doc setting n (k a)) : Agrees doc setting n (r >>= k) := by
  have hf := inherited_stands doc
  have hlater (setting : Setting) (n : Nat) (s : State) (hs : Stands doc s.cursor.rest) (a : α) (t : State)
      (ht : r (level setting n) s = .ok a t) :
      Stands doc t.cursor.rest ∧ Grows t (Ending.state (k a (level setting n) t)) := by
    have hfirst := hr setting n s hs
    rw [ht] at hfirst
    have hstands := hf.grows hfirst hs
    exact ⟨hstands, hk a setting n t hstands⟩
  intro s hgoes hstands hsound
  obtain ⟨hkept, htwins⟩ := h s hgoes hstands hsound
  have hfirst (hdoom : ¬Ending.Doomed ((r >>= k) (level setting n) s)) : ¬Ending.Doomed (r (level setting n) s) := by
    rw [bind_apply] at hdoom
    exact fun hd => hdoom (hd.andThen fun a t ht => (hlater setting n s hstands a t ht).2)
  refine ⟨fun hdoom => ?_, fun setting' n' past s' hplain hs hdoom' hdoom => ?_⟩
  · have hkept := hkept (hfirst hdoom)
    have hgoes := hfirst hdoom
    rw [bind_apply] at hdoom ⊢
    cases hend : r (level setting n) s with
    | error fault t =>
      rw [hend] at hkept
      exact hkept
    | ok a t =>
      rw [hend] at hdoom hkept hgoes
      exact (h' a t (Ending.goes_of_not_doomed hgoes) (hlater setting n s hstands a t hend).1 hkept).1 hdoom
  · have hstands' : Stands doc s'.cursor.rest := hs.cursor.rest ▸ hstands
    have hfirst' : ¬Ending.Doomed (r (level setting' n') s') := by
      rw [bind_apply] at hdoom'
      exact fun hd => hdoom' (hd.andThen fun a t ht => (hlater setting' n' s' hstands' a t ht).2)
    have hends := htwins setting' n' past s' hplain hs hfirst' (hdoom.imp_left hfirst)
    have hkept := hkept hends.not_doomed
    rw [bind_apply] at hdoom hdoom' ⊢
    rw [bind_apply]
    cases hend : r (level setting n) s with
    | error fault t =>
      rw [hend] at hends
      cases hend' : r (level setting' n') s' with
      | error fault' t' =>
        rw [hend'] at hends
        cases hends with
        | error mild ht => exact .error mild ht
      | ok a t' =>
        rw [hend'] at hends
        cases hends
    | ok a t =>
      rw [hend] at hends hdoom hkept
      cases hend' : r (level setting' n') s' with
      | error fault' t' =>
        rw [hend'] at hends
        cases hends
      | ok a' t' =>
        rw [hend'] at hends hdoom'
        cases hends with
        | ok _ ht =>
          exact (h' a t ht.goes (hlater setting n s hstands a t hend).1 hkept).2 setting' n' past t' hplain ht hdoom' hdoom

theorem Ending.doomed_of_halted {ending : Ending α} (hs : s.halted = true) (h : Grows s (Ending.state ending)) :
    Ending.Doomed ending := by
  have hhalted := (h.halted hs).1
  cases ending with
  | ok a t => exact hhalted
  | error fault t => exact .inr hhalted

/-- A doomed turn dooms the loop. -/
theorem Ending.Doomed.turned {options : Options} {start : Cursor} {resume : Resume} {loop : State → Ending (List α)}
    {ending : Ending α} (h : Ending.Doomed ending) (hstands : Stands doc (Ending.state ending).cursor.rest)
    (hloop : ∀ t, Stands doc t.cursor.rest → Grows t (Ending.state (loop t))) :
    Ending.Doomed (Ending.andThen (Ending.caught ending) (turned options start resume loop)) := by
  cases ending with
  | ok a t =>
    have hdoomed := Ending.doomed_of_halted h (hloop t hstands)
    exact hdoomed.andThen fun rest u _ => .refl u
  | error fault t =>
    have hresumed := (inherited_stands doc).grows (.resumed options start resume fault t) hstands
    refine Ending.doomed_of_halted ?_ (hloop (t.resumed options start resume fault) hresumed)
    rw [halted_resumed]
    obtain ⟨hh, heq⟩ | ⟨-, -, heq⟩ | ⟨-, -, -, -, heq⟩ | ⟨hh, hmild, -, -, heq⟩ := withFault_cases options fault t
    · rw [heq]
      exact hh
    · rw [heq]
    · rw [heq]
    · obtain hfatal | hhalted := h
      · exact absurd (hmild.symm.trans hfatal) (by decide)
      · exact absurd (hh.symm.trans hhalted) (by decide)

/-! ### Turns of a loop -/

section

variable {item : Reader α} {resume : Resume} {ends : Kind → Bool} {fuel : Nat}

/-- A turn that gives a result is a step before the loop. -/
theorem recoveringUpTo_of_ok {first : α} (hmid : ¬(ends s.cursor.kind || s.cursor.atEnd || s.halted) = true)
    (ht : item (level setting n) s = .ok first t) :
    recoveringUpTo resume ends item (fuel + 1) (level setting n) s =
      (item >>= fun first => recoveringUpTo resume ends item fuel >>= fun rest => Pure.pure (first :: rest))
        (level setting n) s := by
  rw [recoveringUpTo_succ, if_neg hmid, bind_apply, ht]
  simp only [Ending.caught, Ending.andThen_ok, turned, bind_apply, pure_apply]

/-- After a fault the loop resumes elsewhere. -/
theorem recoveringUpTo_of_error {fault : Fault} (hmid : ¬(ends s.cursor.kind || s.cursor.atEnd || s.halted) = true)
    (ht : item (level setting n) s = .error fault t) :
    recoveringUpTo resume ends item (fuel + 1) (level setting n) s =
      recoveringUpTo resume ends item fuel (level setting n) (t.resumed setting.options s.cursor resume fault) := by
  rw [recoveringUpTo_succ, if_neg hmid, ht, options_level]
  rfl

theorem forward_recoveringUpTo (hitem : Forward doc item) (resume : Resume) (ends : Kind → Bool) (fuel : Nat) :
    Forward doc (recoveringUpTo resume ends item fuel) := fun setting n =>
  recoveringUpTo_steady (grows_steady (inherited_stands doc) _) (hitem setting n) resume ends fuel

theorem not_doomed_turn (hitem : Forward doc item) (hmid : ¬(ends s.cursor.kind || s.cursor.atEnd || s.halted) = true)
    (hstands : Stands doc s.cursor.rest)
    (hdoom : ¬Ending.Doomed (recoveringUpTo resume ends item (fuel + 1) (level setting n) s)) :
    ¬Ending.Doomed (item (level setting n) s) := by
  rw [recoveringUpTo_succ, if_neg hmid] at hdoom
  refine fun hd => hdoom (hd.turned ?_ (forward_recoveringUpTo hitem resume ends fuel setting n))
  exact (inherited_stands doc).grows (hitem setting n s hstands) hstands

/-- Where the loop resumes, if it is not doomed. -/
theorem resumed_of_not_doomed (hitem : Forward doc item) {fault : Fault} (hstands : Stands doc s.cursor.rest)
    (ht : item (level setting n) s = .error fault t)
    (hdoom : ¬Ending.Doomed (recoveringUpTo resume ends item fuel (level setting n)
      (t.resumed setting.options s.cursor resume fault))) :
    Stands doc (t.resumed setting.options s.cursor resume fault).cursor.rest ∧
      (t.resumed setting.options s.cursor resume fault).halted = false := by
  have hgrows := hitem setting n s hstands
  rw [ht, Ending.state_error] at hgrows
  have hstands := (inherited_stands doc).grows (hgrows.trans (.resumed setting.options s.cursor resume fault t)) hstands
  refine ⟨hstands, ?_⟩
  cases hh : (t.resumed setting.options s.cursor resume fault).halted with
  | false => rfl
  | true => exact absurd (Ending.doomed_of_halted hh (forward_recoveringUpTo hitem resume ends fuel setting n _ hstands)) hdoom

end

theorem agrees_recoveringUpTo (hstrict : setting.options.strict = false) {item : Reader α}
    (hitem : Forward doc item) (h : Agrees doc setting n item) (resume : Resume) (ends : Kind → Bool)
    (fuel : Nat) : Agrees doc setting n (recoveringUpTo resume ends item fuel) := by
  have hf := inherited_stands doc
  induction fuel with
  | zero => exact fun s _ _ hsound => ⟨fun _ => hsound, fun _ _ _ _ _ htwins _ _ => .ok [] htwins⟩
  | succ fuel ih =>
    have hloop := forward_recoveringUpTo hitem resume ends fuel
    -- A turn that gives a result is a step before the loop.
    have hseq : Agrees doc setting n (item >>= fun first => recoveringUpTo resume ends item fuel >>= fun rest =>
        Pure.pure (first :: rest)) :=
      agrees_andThen hitem (fun _ => hloop.thenPure _) h
        fun _ => agrees_andThen hloop (fun _ _ _ t _ => .refl t) ih fun _ => .pure _
    intro s hgoes hstands hsound
    by_cases hend : (ends s.cursor.kind || s.cursor.atEnd || s.halted) = true
    · rw [recoveringUpTo_succ, if_pos hend]
      refine ⟨fun _ => hsound, fun setting' n' past s' _ htwins _ _ => ?_⟩
      rw [htwins.cursor.kind, htwins.cursor.atEnd, htwins.goes, ← htwins.goes'] at hend
      rw [recoveringUpTo_succ, if_pos hend]
      exact .ok [] htwins
    obtain ⟨hkept, htwins⟩ := h s hgoes hstands hsound
    refine ⟨fun hdoom => ?_, fun setting' n' past s' hplain hs hdoom' hdoom => ?_⟩
    · have hkept := hkept (not_doomed_turn hitem hend hstands hdoom)
      cases hread : item (level setting n) s with
      | ok first t =>
        rw [recoveringUpTo_of_ok hend hread] at hdoom ⊢
        exact (hseq s hgoes hstands hsound).1 hdoom
      | error fault t =>
        rw [hread] at hkept
        rw [recoveringUpTo_of_error hend hread] at hdoom ⊢
        obtain ⟨hstands, hgoes⟩ := resumed_of_not_doomed hitem hstands hread hdoom
        exact (ih _ hgoes hstands (hkept.congr (failed_resumed _ _ _ _ _))).1 hdoom
    · have hend' : ¬(ends s'.cursor.kind || s'.cursor.atEnd || s'.halted) = true := by
        rwa [← hs.cursor.kind, ← hs.cursor.atEnd, hs.goes', ← hs.goes]
      have hstands' : Stands doc s'.cursor.rest := hs.cursor.rest ▸ hstands
      have hends := htwins setting' n' past s' hplain hs (not_doomed_turn hitem hend' hstands' hdoom')
        (hdoom.imp_left (not_doomed_turn hitem hend hstands))
      have hkept := hkept hends.not_doomed
      cases hread : item (level setting n) s with
      | ok first t =>
        cases hread' : item (level setting' n') s' with
        | ok first' t' =>
          rw [recoveringUpTo_of_ok hend hread] at hdoom ⊢
          rw [recoveringUpTo_of_ok hend' hread'] at hdoom' ⊢
          exact (hseq s hgoes hstands hsound).2 setting' n' past s' hplain hs hdoom' hdoom
        | error fault' t' =>
          rw [hread, hread'] at hends
          cases hends
      | error fault t =>
        cases hread' : item (level setting' n') s' with
        | ok first' t' =>
          rw [hread, hread'] at hends
          cases hends
        | error fault' t' =>
          rw [hread, hread'] at hends
          rw [hread] at hkept
          rw [recoveringUpTo_of_error hend hread] at hdoom ⊢
          rw [recoveringUpTo_of_error hend' hread'] at hdoom' ⊢
          cases hends with
          | error mild ht =>
            have hgoes' := (resumed_of_not_doomed hitem hstands' hread' hdoom').2
            have hgoes := hdoom.imp_left fun hd => (resumed_of_not_doomed hitem hstands hread hd).2
            have hresumed := resumed_twins hstrict hs.cursor resume ht fault hgoes' hgoes
            have hgrows := hitem setting n s hstands
            rw [hread, Ending.state_error] at hgrows
            have hstands := hf.grows (hgrows.trans (.resumed setting.options s.cursor resume fault t)) hstands
            exact (ih _ hresumed.goes hstands (hkept.congr (failed_resumed _ _ _ _ _))).2 setting' n' past _ hplain
              hresumed hdoom' hdoom

theorem speculated_sound {ending : Ending α} (h : (Ending.state ending).Sound setting.source doc) :
    (Ending.state (speculated s ending)).Sound setting.source doc := by
  obtain ⟨fault, -, heq⟩ | ⟨a, t, rfl, -, heq⟩ | heq := speculated_cases s ending
  · rw [heq]
    exact h
  · rw [heq]
    exact h
  · rw [heq]
    exact h.congr (failed_rewind s _)

/-- Two speculations whose readings agree. -/
theorem agrees_speculated (hstrict : setting.options.strict = false) {r : Reader α} (hr : Composed (Stands doc) r)
    (h : Agrees doc setting n r) (hgoes : s.halted = false) (hstands : Stands doc s.cursor.rest)
    (hsound : s.Sound setting.source doc) :
    (¬Ending.Doomed (speculated s (r (level setting n) s)) →
      ¬Ending.Doomed (r (level setting n) s) ∧
        (Ending.state (speculated s (r (level setting n) s))).Sound setting.source doc) ∧
    ∀ setting' n' past s', setting'.Plain setting.source → Twins past s s' →
      ¬Ending.Doomed (speculated s' (r (level setting' n') s')) →
      ¬Ending.Doomed (speculated s (r (level setting n) s)) ∨ Room setting n setting' n' past →
      Ending.Twins past (speculated s (r (level setting n) s)) (speculated s' (r (level setting' n') s')) := by
  have hf := inherited_stands doc
  obtain ⟨hkept, htwins⟩ := h s hgoes hstands hsound
  have hinner (hdoom : ¬Ending.Doomed (speculated s (r (level setting n) s))) :
      ¬Ending.Doomed (r (level setting n) s) :=
    fun hd => hdoom (hd.speculated hgoes (hr.fatalHalt hf hstrict n s hstands))
  refine ⟨fun hdoom => ⟨hinner hdoom, speculated_sound (hkept (hinner hdoom))⟩,
    fun setting' n' past s' hplain hs hdoom' hdoom => ?_⟩
  have hstands' : Stands doc s'.cursor.rest := hs.cursor.rest ▸ hstands
  have hinner' : ¬Ending.Doomed (r (level setting' n') s') :=
    fun hd => hdoom' (hd.speculated hs.goes' (hr.fatalHalt hf hplain.strict n' s' hstands'))
  have hends := htwins setting' n' past s' hplain hs hinner' (hdoom.imp_left hinner)
  exact hends.speculated hs (hr.forward setting n s hstands) (hr.forward setting' n' s' hstands') hdoom'

/-- Readings that come to the same tokens have a past each, and may go on as twins. -/
theorem twins_elsewhere (hs : s.halted = false) (hs' : s'.halted = false) (hrest : s'.cursor.rest = s.cursor.rest) :
    Twins ⟨(s.cursor.pos, s'.cursor.pos), (s.faults, s'.faults), (s.macroBodies, s'.macroBodies)⟩ s
      { s' with cursor := { s'.cursor with last := s.cursor.last } } :=
  ⟨⟨Nat.add_comm _ _, hrest.symm, rfl⟩, ⟨[], by simp, by simp⟩, ⟨[], by simp, by simp⟩, hs, hs'⟩

/-- A form that was not read, in a reading that is not doomed, is read in no other. -/
theorem refuses_of_given_up {form : BraceForm} (hr : Composed (Stands doc) form.reader)
    (h : Agrees doc setting n form.reader) (hgoes : s.halted = false) (hstands : Stands doc s.cursor.rest)
    (hsound : s.Sound setting.source doc) (hdoom : ¬Ending.Doomed (form.reader (level setting n) s))
    (hnone : ∀ e t, speculated s (form.reader (level setting n) s) ≠ .ok (some e) t) :
    Refuses setting.source form s.cursor.rest := by
  intro setting' n' s' hplain hgoes' hrest e t hkept
  have hstands' : Stands doc s'.cursor.rest := hrest.symm ▸ hstands
  -- The token before the brace may be another one there, but nothing is read of it.
  have hsame := reader_elsewhere hkept (c := { s'.cursor with last := s.cursor.last }) rfl rfl
  obtain ⟨hend', hdoom'⟩ :=
    not_doomed_of_kept hgoes' (hr.fatalHalt (inherited_stands doc) hplain.strict n' s' hstands') hkept
  have htwins := twins_elsewhere hgoes hgoes' hrest
  have hends := (h s hgoes hstands hsound).2 setting' n' _ _ hplain htwins (by rwa [hsame]) (.inl hdoom)
  rw [hsame, hend'] at hends
  cases hend : form.reader (level setting n) s with
  | error fault u =>
    rw [hend] at hends
    cases hends
  | ok e' u =>
    rw [hend] at hends hnone
    cases hends with
    | ok _ hu =>
      refine hnone e u ?_
      rw [hend', speculated_ok] at hkept
      have hrecorded := htwins.recorded hu
      rw [speculated_ok, hrecorded]
      dsimp only
      split at hkept
      · cases hkept
      · split at hkept
        · rename_i hall
          exact if_pos hall
        · cases hkept

/-- A reading that remembers nothing tries every brace. -/
theorem Setting.Plain.tryBrace {source : List Char} (h : setting.Plain source) (form : BraceForm) (r : Reader Expr) (n : Nat)
    (s : State) : tryBrace form r (level setting n) s = noted form s.cursor.span.start (speculated s (r (level setting n) s)) := by
  rw [tryBrace_apply, remember_level, h.remember, Bool.false_and, if_neg (by decide)]

/-- What is noted does not matter. -/
theorem Ending.doomed_noted {form : BraceForm} {offset : Nat} {ending : Ending (Option α)} :
    Ending.Doomed (noted form offset ending) ↔ Ending.Doomed ending := by
  cases ending with
  | error fault t => exact Iff.rfl
  | ok found t =>
    cases found with
    | some e => exact Iff.rfl
    | none => cases form <;> exact Iff.rfl

theorem agrees_tryBrace {lo hi : Nat} (hspread : Spread lo (places doc) hi) (hstrict : setting.options.strict = false)
    {form : BraceForm} (hr : Composed (Stands doc) form.reader) (h : Agrees doc setting n form.reader) :
    Agrees doc setting n (tryBrace form form.reader) := by
  intro s hgoes hstands hsound
  obtain ⟨hkept, htwins⟩ := agrees_speculated hstrict hr h hgoes hstands hsound
  by_cases hskip : ((level setting n).remember && (s.failed form).contains s.cursor.span.start) = true
  · rw [tryBrace_apply, if_pos hskip]
    refine ⟨fun _ => hsound, fun setting' n' past s' hplain hs hdoom' _ => ?_⟩
    -- The plain reading tries the brace, and in vain.
    have hmem : s.cursor.span.start ∈ s.failed form := List.contains_iff_mem.1 (Bool.and_eq_true_iff.1 hskip).2
    have hrefuses := hsound form _ hmem s.cursor.rest hstands.1 rfl
    have hnone := hrefuses setting' n' s' hplain hs.goes' hs.cursor.rest.symm
    rw [hplain.tryBrace] at hdoom' ⊢
    have hstands' : Stands doc s'.cursor.rest := hs.cursor.rest ▸ hstands
    have hgrows := hr.forward setting' n' s' hstands'
    obtain ⟨fault, hfatal, heq⟩ | ⟨e, t, -, -, heq⟩ | heq := speculated_cases s' (form.reader (level setting' n') s')
    · rw [heq] at hdoom'
      exact absurd (.inl hfatal) hdoom'
    · exact absurd heq (hnone e t)
    · rw [heq, rewind_eq hgrows]
      refine .ok none ?_
      cases form
      · exact hs.remembering
      · exact hs.remembering
  · rw [tryBrace_apply, if_neg hskip]
    refine ⟨fun hdoom => ?_, fun setting' n' past s' hplain hs hdoom' hdoom => ?_⟩
    · obtain ⟨hinner, hkept⟩ := hkept (mt Ending.doomed_noted.2 hdoom)
      cases hend : speculated s (form.reader (level setting n) s) with
      | error fault t =>
        rw [hend] at hkept
        exact hkept
      | ok found t =>
        rw [hend] at hkept
        cases found with
        | some e => exact hkept
        | none =>
          refine hkept.noteFailed fun tokens hmem hstart => ?_
          have hrefuses := refuses_of_given_up hr h hgoes hstands hsound hinner fun e u heq => by
            rw [hend] at heq
            cases heq
          cases hbrace : (firstToken tokens).kind.isMark .lBrace with
          | false => exact refuses_of_not_brace setting.source form hbrace
          | true =>
            have hsame : tokens = s.cursor.rest :=
              hspread.eq_of_startOf hmem hstands.1 (isDone_of_isMark hbrace) hstart
            rw [hsame]
            exact hrefuses
    · rw [hplain.tryBrace] at hdoom' ⊢
      exact noted_twins (htwins setting' n' past s' hplain hs (mt Ending.doomed_noted.2 hdoom') (hdoom.imp_left (mt Ending.doomed_noted.2)))

theorem Ending.doomed_placed {c : Cursor} {ending : Ending α} :
    Ending.Doomed (Ending.placed c ending) ↔ Ending.Doomed ending := by
  cases ending <;> exact Iff.rfl

theorem Ending.Twins.placed {pos : Nat × Nat} {ending ending' : Ending α}
    (h : Ending.Twins { past with pos } ending ending') {c c' : Cursor} (hc : c.Beside past.pos.1 past.pos.2 c') :
    Ending.Twins past (Ending.placed c ending) (Ending.placed c' ending') := by
  cases h with
  | ok a h => exact .ok a (h.at past.pos hc)
  | error mild h => exact .error mild (h.at past.pos hc)

/-- In the tokens of a fragment all readings begin alike. -/
theorem agrees_withTokens {tokens : List Token} {r : Reader α} (hinner : Stands doc tokens)
    (h : Agrees doc setting n r) : Agrees doc setting n (withTokens tokens r) := by
  intro s hgoes _ hsound
  obtain ⟨hkept, htwins⟩ :=
    h { s with cursor := .ofTokens tokens } hgoes hinner (hsound.congr (failed_placed s _))
  rw [withTokens_apply]
  refine ⟨fun hdoom => ?_, fun setting' n' past s' hplain hs hdoom' hdoom => ?_⟩
  · rw [Ending.doomed_placed] at hdoom
    rw [Ending.state_placed]
    exact (hkept hdoom).congr (failed_placed _ _)
  · rw [withTokens_apply, Ending.doomed_placed] at hdoom'
    rw [Ending.doomed_placed] at hdoom
    rw [withTokens_apply]
    have hbegin : Cursor.Beside 0 0 (.ofTokens tokens) (.ofTokens tokens) := ⟨rfl, rfl, rfl⟩
    have hroom (hroom : Room setting n setting' n' past) : Room setting n setting' n' { past with pos := (0, 0) } :=
      ⟨hroom.levels, hroom.faults⟩
    exact (htwins setting' n' _ _ hplain (hs.at (0, 0) hbegin) hdoom' (hdoom.imp_right hroom)).placed hs.cursor

/-- Readers agree with plain ones from the same place, if those of their level do. -/
theorem Composed.agrees {lo hi : Nat} (hspread : Spread lo (places doc) hi) (hstrict : setting.options.strict = false)
    {r : Reader α} (h : Composed (Stands doc) r) (hL : LevelAgrees doc setting n) : Agrees doc setting n r := by
  induction h with
  | pure a => exact .pure a
  | bind first next ih ihk => exact agrees_andThen first.forward (fun a => (next a).forward) ih ihk
  | throw fault =>
    refine fun s _ _ hsound => ⟨fun _ => hsound, fun _ _ _ _ _ htwins hdoom' _ => ?_⟩
    refine .error ?_ htwins
    simpa using fun hfatal => hdoom' (.inl hfatal)
  | cursor same next ih =>
    intro s hgoes hstands hsound
    obtain ⟨hkept, htwins⟩ := ih s.cursor hstands s hgoes hstands hsound
    refine ⟨hkept, fun setting' n' past s' hplain hs hdoom' hdoom => ?_⟩
    have hsame := same s'.cursor s.cursor hs.cursor.rest.symm
    rw [cursor_bind_apply, hsame] at hdoom'
    rw [cursor_bind_apply, cursor_bind_apply, hsame]
    exact htwins setting' n' past s' hplain hs hdoom' hdoom
  | spanFrom start =>
    exact agrees_still (fun c => start.cover c.previous) 0 (fun _ _ _ => rfl) fun _ _ _ _ hc => by rw [hc.previous]
  | halted =>
    refine fun s hgoes _ hsound => ⟨fun _ => hsound, fun _ _ _ s' _ hs _ _ => ?_⟩
    rw [halted_apply, halted_apply, hs.goes, hs.goes']
    exact .ok _ hs
  | sourceText span =>
    exact agrees_still (fun _ => (slice? setting.source span).getD []) 0
      (fun L s hsource => by rw [sourceText_apply, hsource]; rfl) fun _ _ _ _ _ => rfl
  | advance => exact agrees_still Cursor.current 1 (fun _ _ _ => rfl) fun _ _ _ _ hc => hc.current
  | skip k => exact agrees_still (fun _ => ()) k (fun _ _ _ => rfl) fun _ _ _ _ _ => rfl
  | noteBody inner =>
    refine fun s hgoes _ hsound => ⟨fun _ => hsound.congr (failed_noteBody s inner), fun _ _ _ s' _ hs _ _ => ?_⟩
    obtain ⟨new, hnew, hnew'⟩ := hs.macroBodies
    refine .ok () ⟨hs.cursor, hs.faults, ⟨new ++ [inner], ?_, ?_⟩, hs.goes, hs.goes'⟩
    · simp only [hnew, List.append_assoc]
    · simp only [hnew', List.append_assoc]
  | record fault =>
    intro s hgoes _ hsound
    rw [record_apply, options_level]
    refine ⟨fun _ => hsound.congr (failed_withFault _ fault s), fun setting' n' past s' hplain hs hdoom' hdoom => ?_⟩
    rw [record_apply, options_level] at hdoom' ⊢
    exact .ok () (withFault_twins hstrict hs fault (Ending.goes_of_not_doomed hdoom')
      (hdoom.imp_left Ending.goes_of_not_doomed))
  | expr position => exact hL.expr position
  | operand position => exact hL.operand position
  | block => exact hL.block
  | type => exact hL.type
  | recordLiteral => exact hL.record
  | speculate tried ih =>
    intro s hgoes hstands hsound
    obtain ⟨hkept, htwins⟩ := agrees_speculated hstrict tried ih hgoes hstands hsound
    rw [speculate_apply]
    refine ⟨fun hdoom => (hkept hdoom).2, fun setting' n' past s' hplain hs hdoom' hdoom => ?_⟩
    rw [speculate_apply] at hdoom' ⊢
    exact htwins setting' n' past s' hplain hs hdoom' hdoom
  | tryBrace form tried ih => exact agrees_tryBrace hspread hstrict tried ih
  | withTokens inner read ih => exact agrees_withTokens inner ih
  | recovering resume ends turn ih =>
    intro s hgoes hstands hsound
    obtain ⟨hkept, htwins⟩ := agrees_recoveringUpTo hstrict turn.forward ih resume ends s.cursor.left s hgoes hstands hsound
    refine ⟨hkept, fun setting' n' past s' hplain hs hdoom' hdoom => ?_⟩
    rw [recovering_apply, ← hs.cursor.left] at hdoom'
    rw [recovering_apply, recovering_apply, ← hs.cursor.left]
    exact htwins setting' n' past s' hplain hs hdoom' hdoom

/-- At the innermost level every reading is doomed. -/
theorem doomed_tooDeep (limit : Nat) (s : State) : Ending.Doomed (tooDeep limit s : Ending α) := .inl rfl

/-- A reader of the level is one of the level below. -/
theorem agrees_below {r r' : Reader α} (h : Agrees doc setting n r')
    (hbelow : ∀ setting n s, r (level setting (n + 1)) s = r' (level setting n) s)
    (hinnermost : ∀ setting s, Ending.Doomed (r (level setting 0) s)) : Agrees doc setting (n + 1) r := by
  intro s hgoes hstands hsound
  obtain ⟨hkept, htwins⟩ := h s hgoes hstands hsound
  rw [hbelow]
  refine ⟨hkept, fun setting' n' past s' hplain hs hdoom' hdoom => ?_⟩
  cases n' with
  | zero => exact absurd (hinnermost setting' s') hdoom'
  | succ n' =>
    rw [hbelow] at hdoom' ⊢
    exact htwins setting' n' past s' hplain hs hdoom'
      (hdoom.imp_right fun hroom => ⟨Nat.le_of_succ_le_succ hroom.levels, hroom.faults⟩)

theorem agrees_innermost {r : Reader α} (hinnermost : ∀ setting s, Ending.Doomed (r (level setting 0) s)) :
    Agrees doc setting 0 r := by
  intro s _ _ _
  refine ⟨fun hdoom => absurd (hinnermost setting s) hdoom, fun setting' n' past s' _ _ hdoom' hdoom => ?_⟩
  obtain hdoom | hroom := hdoom
  · exact absurd (hinnermost setting s) hdoom
  · obtain rfl := Nat.le_zero.1 hroom.levels
    exact absurd (hinnermost setting' s') hdoom'

theorem level_agrees {lo hi : Nat} (hspread : Spread lo (places doc) hi) (hstrict : setting.options.strict = false)
    (n : Nat) : LevelAgrees doc setting n := by
  have hf := inherited_stands doc
  induction n with
  | zero =>
    exact ⟨fun _ => agrees_innermost fun _ => doomed_tooDeep _, fun _ => agrees_innermost fun _ => doomed_tooDeep _,
      agrees_innermost fun _ => doomed_tooDeep _, agrees_innermost fun _ => doomed_tooDeep _,
      agrees_innermost fun _ => doomed_tooDeep _⟩
  | succ n ih =>
    have hbelow {γ : Type} {r : Reader γ} (h : Composed (Stands doc) r) := h.agrees hspread hstrict ih
    exact ⟨fun position => agrees_below (hbelow (composed_chain hf 1 position)) (fun _ _ _ => rfl) fun _ => doomed_tooDeep _,
      fun position => agrees_below (hbelow (composed_chain hf operandLevel position)) (fun _ _ _ => rfl)
        fun _ => doomed_tooDeep _,
      agrees_below (hbelow composed_blockBody) (fun _ _ _ => rfl) fun _ => doomed_tooDeep _,
      agrees_below (hbelow (composed_typeExpr hf)) (fun _ _ _ => rfl) fun _ => doomed_tooDeep _,
      agrees_below (hbelow composed_recordExpr) (fun _ _ _ => rfl) fun _ => doomed_tooDeep _⟩

end

/-! ## Programs -/

/-- A reading of a program that is not fatal is not doomed. -/
theorem not_doomed_itemsEnding {setting : Setting} (hstrict : setting.options.strict = false) {tokens : List Token}
    (h : ∀ fault ∈ (readItems setting tokens).faults, fault.isFatal = false) :
    ¬Ending.Doomed (itemsEnding setting tokens) := by
  have hhalt := composed_items.fatalHalt inherited_true hstrict setting.options.maxDepth (.ofTokens tokens) trivial
  obtain ⟨value, t, hread⟩ := itemsEnding_ok setting tokens
  rw [readItems_eq, Ending.faults_reading, hread] at h
  rw [show items (level setting setting.options.maxDepth) (.ofTokens tokens) = .ok value t from hread] at hhalt
  rw [hread]
  intro hhalted
  obtain ⟨fault, hmem, hfatal⟩ := hhalt rfl hhalted
  exact absurd (hfatal.symm.trans (h fault (List.mem_of_mem_drop hmem))) (by decide)

/-- Readings that begin alike and end alike give the same. -/
theorem Ending.Twins.reading {ending ending' : Ending (List Item)}
    (h : Ending.Twins ⟨(0, 0), ([], []), ([], [])⟩ ending ending') : Ending.reading ending = Ending.reading ending' := by
  cases h with
  | ok value h =>
    obtain ⟨faults, hfaults, hfaults'⟩ := h.faults
    obtain ⟨bodies, hbodies, hbodies'⟩ := h.macroBodies
    simp only [Ending.reading, hfaults, hfaults', hbodies, hbodies']
  | error mild h =>
    obtain ⟨faults, hfaults, hfaults'⟩ := h.faults
    obtain ⟨bodies, hbodies, hbodies'⟩ := h.macroBodies
    simp only [Ending.reading, hfaults, hfaults', hbodies, hbodies']

theorem twins_ofTokens (tokens : List Token) :
    Twins ⟨(0, 0), ([], []), ([], [])⟩ (.ofTokens tokens) (.ofTokens tokens) :=
  ⟨⟨rfl, rfl, rfl⟩, ⟨[], rfl, rfl⟩, ⟨[], rfl, rfl⟩, rfl, rfl⟩

/-- Nothing is remembered at the beginning. -/
theorem says_ofTokens (doc : List Token) (what : BraceForm → List Token → Prop) (tokens : List Token) :
    (State.ofTokens tokens).Says doc what := by
  intro form offset hmem
  cases form <;> exact absurd hmem List.not_mem_nil

/-- Whether failed braces are remembered or not, a program is read alike, unless the plain
reading ends in a fatal fault. -/
theorem readItems_remember (source : String) (options : Options) (hstrict : options.strict = false)
    (hfatal : ∀ fault ∈ (readItems ⟨source.toList, options, false⟩ (lex source).tokens).faults, fault.isFatal = false) :
    readItems ⟨source.toList, options, true⟩ (lex source).tokens =
      readItems ⟨source.toList, options, false⟩ (lex source).tokens := by
  obtain ⟨lo, hi, hspread⟩ := lex_spread source
  have hlevel : LevelAgrees (lex source).tokens ⟨source.toList, options, true⟩ options.maxDepth :=
    level_agrees hspread hstrict options.maxDepth
  have hagrees := composed_items.agrees hspread hstrict hlevel (.ofTokens (lex source).tokens) rfl (stands_lex source)
    (says_ofTokens _ _ _)
  rw [readItems_eq, readItems_eq]
  exact (hagrees.2 ⟨source.toList, options, false⟩ options.maxDepth _ _ ⟨rfl, hstrict, rfl⟩ (twins_ofTokens _)
    (not_doomed_itemsEnding hstrict hfatal) (.inr ⟨Nat.le_refl _, Nat.le_refl _⟩)).reading

/-- The inner arm is read twice, since the outer block fails at its comma; the second time its
brace is known not to open a block. -/
theorem readItems_remember_arm :
    (∀ fault ∈ (readItems ⟨"fn f() \x7b match x \x7b 1 -> \x7b match y \x7b 2 -> \x7b a, b \x7d \x7d, c \x7d \x7d \x7d".toList,
        .standard, false⟩
        (lex "fn f() \x7b match x \x7b 1 -> \x7b match y \x7b 2 -> \x7b a, b \x7d \x7d, c \x7d \x7d \x7d").tokens).faults,
        fault.isFatal = false) ∧
      readItems ⟨"fn f() \x7b match x \x7b 1 -> \x7b match y \x7b 2 -> \x7b a, b \x7d \x7d, c \x7d \x7d \x7d".toList,
          .standard, true⟩
          (lex "fn f() \x7b match x \x7b 1 -> \x7b match y \x7b 2 -> \x7b a, b \x7d \x7d, c \x7d \x7d \x7d").tokens =
        readItems ⟨"fn f() \x7b match x \x7b 1 -> \x7b match y \x7b 2 -> \x7b a, b \x7d \x7d, c \x7d \x7d \x7d".toList,
          .standard, false⟩
          (lex "fn f() \x7b match x \x7b 1 -> \x7b match y \x7b 2 -> \x7b a, b \x7d \x7d, c \x7d \x7d \x7d").tokens := by
  have hfatal : ∀ fault ∈ (readItems
      ⟨"fn f() \x7b match x \x7b 1 -> \x7b match y \x7b 2 -> \x7b a, b \x7d \x7d, c \x7d \x7d \x7d".toList, .standard, false⟩
      (lex "fn f() \x7b match x \x7b 1 -> \x7b match y \x7b 2 -> \x7b a, b \x7d \x7d, c \x7d \x7d \x7d").tokens).faults,
      fault.isFatal = false := by decide +kernel
  exact ⟨hfatal, readItems_remember _ _ rfl hfatal⟩

end JuiceSyntax
