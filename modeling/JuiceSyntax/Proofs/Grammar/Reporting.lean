/-
  Where structural faults begin. What an attempt finds is taken back with it, unless it is structural; then
  the attempt is kept, and the reading goes on behind it. So structural faults of one step begin where that
  step stands or behind, and before the place where the next one stands.

  `Reports source L p r`: a reader `r` that begins where `p` holds, in tokens of the document, records
  structural faults that begin at different offsets from there up to where it ends. It ends in none of its
  own, so that no loop that recovers records one a second time. There is one rule for each step.

  `Onward lo L r start`: what `r` reads from `lo` on begins there or behind.
-/
import JuiceSyntax.Proofs.Grammar.Consuming
import JuiceSyntax.Proofs.Grammar.Yielding

namespace JuiceSyntax

open Reader Grammar

/-! ## Offsets -/

/-- Where the structural faults of a list begin. -/
def structuralStarts (faults : List Fault) : List Nat := (faults.filter (·.isStructural)).map (·.span.start)

theorem structuralStarts_append (faults faults' : List Fault) :
    structuralStarts (faults ++ faults') = structuralStarts faults ++ structuralStarts faults' := by
  simp only [structuralStarts, List.filter_append, List.map_append]

theorem structuralStarts_single {fault : Fault} (h : fault.isStructural = false) : structuralStarts [fault] = [] := by
  simp only [structuralStarts, List.filter_cons, h, Bool.false_eq_true, if_false, List.filter_nil, List.map_nil]

/-- Different offsets from `lo` up to, and without, `hi`. -/
structure Once (lo : Nat) (starts : List Nat) (hi : Nat) : Prop where
  le : lo ≤ hi
  within : ∀ start ∈ starts, lo ≤ start ∧ start < hi
  distinct : starts.Nodup

namespace Once

variable {lo lo' mid hi hi' : Nat} {starts starts' : List Nat}

theorem nil (h : lo ≤ hi) : Once lo [] hi := ⟨h, nofun, .nil⟩

theorem mono (h : Once lo starts hi) (hlo : lo' ≤ lo) (hhi : hi ≤ hi') : Once lo' starts hi' := by
  refine ⟨?_, fun start hmem => ?_, h.distinct⟩
  · have := h.le
    omega
  · have := h.within start hmem
    omega

theorem sublist (h : Once lo starts hi) (hsub : starts'.Sublist starts) : Once lo starts' hi :=
  ⟨h.le, fun start hmem => h.within start (hsub.subset hmem), h.distinct.sublist hsub⟩

theorem append (h : Once lo starts mid) (h' : Once mid starts' hi) : Once lo (starts ++ starts') hi where
  le := h.le.trans h'.le
  within := by
    have hfront := h.mono (Nat.le_refl _) h'.le
    have hback := h'.mono h.le (Nat.le_refl _)
    exact List.forall_mem_append.2 ⟨hfront.within, hback.within⟩
  distinct := by
    refine List.nodup_append.2 ⟨h.distinct, h'.distinct, fun start hmem start' hmem' => ?_⟩
    have := (h.within start hmem).2
    have := (h'.within start' hmem').1
    omega

/-- One more offset, before all the others. -/
theorem before {start : Nat} (h : Once mid starts hi) (hlo : lo ≤ start) (hlt : start < mid) :
    Once lo (starts ++ [start]) hi := by
  have hsingle : Once lo [start] mid :=
    ⟨by omega, List.forall_mem_singleton.2 ⟨hlo, hlt⟩, List.pairwise_singleton _ _⟩
  have hboth := hsingle.append h
  have hperm : (starts ++ [start]).Perm ([start] ++ starts) := List.perm_append_comm
  exact ⟨hboth.le, fun other hmem => hboth.within other (hperm.subset hmem), hperm.nodup_iff.2 hboth.distinct⟩

end Once

/-! ## Tokens of a document -/

/-- The tokens are those of a stream of the document, in their order. -/
structure Sited (source : String) (tokens : List Token) : Prop where
  drawn : Drawn source tokens
  laid : ∃ lo hi, Laid lo tokens hi

variable {source : String}

theorem inherited_sited : Inherited (Sited source) where
  advance h := by
    obtain ⟨lo, hi, hlaid⟩ := h.laid
    exact ⟨inherited_drawn.advance h.drawn, lo, hi, hlaid.advance.1⟩
  kind h multiline pieces hkind tokens span hpiece := by
    obtain ⟨lo, hi, hlaid⟩ := h.laid
    exact ⟨inherited_drawn.kind h.drawn multiline pieces hkind tokens span hpiece, lo, hi,
      hlaid.kind multiline pieces hkind tokens span hpiece⟩

namespace Sited

variable {c : Cursor}

/-- Behind a token stands a later one. -/
theorem next (h : Sited source c.rest) (mid : c.atEnd = false) :
    c.span.start < c.span.stop ∧ c.span.stop ≤ c.advance.span.start := by
  obtain ⟨lo, hi, hlaid⟩ := h.laid
  cases hrest : c.rest with
  | nil => exact absurd hrest hlaid.ne_nil
  | cons token rest =>
    rw [Cursor.atEnd, Cursor.kind_of_rest hrest] at mid
    rw [hrest] at hlaid
    rw [Cursor.span_of_rest hrest]
    cases hlaid with
    | done after before => cases mid
    | cons _ after wide inner following =>
      rw [← Cursor.rest_advance_of_rest hrest mid] at following
      exact ⟨wide, following.advance.2.1⟩

theorem start_le_advance (h : Sited source c.rest) : c.span.start ≤ c.advance.span.start := by
  cases hend : c.atEnd with
  | true =>
    rw [Cursor.advance_of_atEnd hend]
  | false =>
    have := h.next hend
    omega

/-- What is ahead is laid from the current token on. -/
theorem late (h : Sited source c.rest) (n : Nat) : Late c.span.start (c.skip n).rest := by
  refine (inherited_late c.span.start).skip ?_ n
  obtain ⟨lo, hi, hlaid⟩ := h.laid
  cases hrest : c.rest with
  | nil => exact absurd hrest hlaid.ne_nil
  | cons token rest =>
    rw [hrest] at hlaid
    rw [Cursor.span_of_rest hrest]
    cases hlaid with
    | done after before => exact ⟨hi, .done (Nat.le_refl _) before⟩
    | cons mid after wide inner following => exact ⟨hi, .cons mid (Nat.le_refl _) wide inner following⟩

theorem start_le_skip (h : Sited source c.rest) (n : Nat) : c.span.start ≤ (c.skip n).span.start := by
  induction n generalizing c with
  | zero => exact Nat.le_refl _
  | succ n ih => exact h.start_le_advance.trans (ih (inherited_sited.advance h))

end Sited

/-! ## What is recorded between two states -/

/-- The structural faults that `t` adds to those of `s` begin at different offsets from `lo` up to `hi`. -/
structure ReportedIn (lo : Nat) (s t : State) (hi : Nat) : Prop extends Grows s t where
  once : ∃ new, t.faults = s.faults ++ new ∧ Once lo (structuralStarts new) hi

/-- The same, between the places where the states stand. -/
abbrev Reported (s t : State) : Prop := ReportedIn s.cursor.span.start s t t.cursor.span.start

/-- A fault that ends the reading is not structural. -/
theorem Fault.isStructural_of_isFatal {fault : Fault} (h : fault.isFatal = true) : fault.isStructural = false := by
  obtain ⟨cause, span, skipped⟩ := fault
  cases cause with
  | nestingTooDeep limit => rfl
  | tooManyFaults limit => rfl
  | _ => cases h

theorem Fault.isStructural_passed (fault : Fault) (start here : Cursor) :
    (fault.passed start here).isStructural = fault.isStructural := by
  unfold Fault.passed
  split <;> rfl

/-- Only the fault that is recorded may be a structural one. -/
theorem exists_withFault (options : Options) (fault : Fault) (s : State) :
    ∃ new, (s.withFault options fault).faults = s.faults ++ new ∧
      (structuralStarts new).Sublist (structuralStarts [fault]) := by
  have hlimit : structuralStarts [.ofCause s.cursor.span (.tooManyFaults options.maxFaults)] = [] :=
    structuralStarts_single rfl
  obtain ⟨-, h⟩ | ⟨-, -, h⟩ | ⟨-, -, -, -, h⟩ | ⟨-, -, -, -, h⟩ := withFault_cases options fault s
  · exact ⟨[], by rw [h, List.append_nil], List.nil_sublist _⟩
  · exact ⟨[fault], by rw [h], List.Sublist.refl _⟩
  · refine ⟨[fault] ++ [.ofCause s.cursor.span (.tooManyFaults options.maxFaults)], by rw [h, List.append_assoc], ?_⟩
    rw [structuralStarts_append, hlimit, List.append_nil]
  · exact ⟨[fault], by rw [h], List.Sublist.refl _⟩

namespace ReportedIn

variable {lo lo' mid hi hi' : Nat} {s t u : State}

theorem quiet (h : Grows s t) (hfaults : t.faults = s.faults) (hle : lo ≤ hi) : ReportedIn lo s t hi :=
  ⟨h, [], by rw [hfaults, List.append_nil], .nil hle⟩

theorem skipped (s : State) (n lo : Nat) : ReportedIn lo s (s.skipped n) lo := quiet (.skipped s n) rfl (Nat.le_refl lo)

theorem mono (h : ReportedIn lo s t hi) (hlo : lo' ≤ lo) (hhi : hi ≤ hi') : ReportedIn lo' s t hi' := by
  obtain ⟨new, hnew, honce⟩ := h.once
  exact ⟨h.toGrows, new, hnew, honce.mono hlo hhi⟩

theorem trans (h : ReportedIn lo s t mid) (h' : ReportedIn mid t u hi) : ReportedIn lo s u hi := by
  obtain ⟨new, hnew, honce⟩ := h.once
  obtain ⟨new', hnew', honce'⟩ := h'.once
  refine ⟨h.toGrows.trans h'.toGrows, new ++ new', ?_, ?_⟩
  · rw [hnew', hnew, List.append_assoc]
  · rw [structuralStarts_append]
    exact honce.append honce'

/-- A fault of the whole that is read, recorded behind those of its parts. -/
theorem withFault (h : ReportedIn mid s t hi) (options : Options) {fault : Fault} (hlo : lo ≤ fault.span.start)
    (hlt : fault.span.start < mid) : ReportedIn lo s (t.withFault options fault) hi := by
  obtain ⟨new, hnew, honce⟩ := h.once
  obtain ⟨added, hadded, hsub⟩ := exists_withFault options fault t
  refine ⟨h.toGrows.trans (.withFault options fault t), new ++ added, ?_, ?_⟩
  · rw [hadded, hnew, List.append_assoc]
  · have hstart : (structuralStarts [fault]).Sublist ([fault].map (·.span.start)) :=
      List.Sublist.map _ List.filter_sublist
    rw [structuralStarts_append]
    exact (honce.before hlo hlt).sublist ((hsub.trans hstart).append_left _)

theorem mild (h : ReportedIn lo s t hi) (options : Options) {fault : Fault} (hfault : fault.isStructural = false) :
    ReportedIn lo s (t.withFault options fault) hi := by
  obtain ⟨new, hnew, honce⟩ := h.once
  obtain ⟨added, hadded, hsub⟩ := exists_withFault options fault t
  rw [structuralStarts_single hfault, List.sublist_nil] at hsub
  refine ⟨h.toGrows.trans (.withFault options fault t), new ++ added, ?_, ?_⟩
  · rw [hadded, hnew, List.append_assoc]
  · rwa [structuralStarts_append, hsub, List.append_nil]

end ReportedIn

namespace Reported

variable {s t u : State}

theorem refl (s : State) : Reported s s := .quiet (.refl s) rfl (Nat.le_refl _)

theorem skipped (hs : Sited source s.cursor.rest) (n : Nat) : Reported s (s.skipped n) :=
  .quiet (.skipped s n) rfl (hs.start_le_skip n)

theorem mild (h : Reported s t) (options : Options) {fault : Fault} (hfault : fault.isStructural = false) :
    Reported s (t.withFault options fault) := by
  have hread : ReportedIn s.cursor.span.start s (t.withFault options fault) t.cursor.span.start :=
    ReportedIn.mild h options hfault
  rwa [Reported, cursor_withFault]

theorem rewind (h : Reported s t) : Reported s (s.rewind t) := by
  rw [rewind_eq h.toGrows]
  exact .quiet (rewind_eq h.toGrows ▸ h.toGrows.rewind) rfl (Nat.le_refl _)

theorem noteFailed (h : Reported s t) (form : BraceForm) (offset : Nat) : Reported s (t.noteFailed offset form) := by
  have hnoted : Grows t (t.noteFailed offset form) := .noteFailed form offset t
  cases form with
  | record => exact h.trans (.quiet hnoted rfl (Nat.le_refl _))
  | block => exact h.trans (.quiet hnoted rfl (Nat.le_refl _))

/-- Where a loop goes on after a fault that is not structural. -/
theorem resumed (h : Reported s t) (ht : Sited source t.cursor.rest) (options : Options) (start : Cursor)
    (resume : Resume) {fault : Fault} (hfault : fault.isStructural = false) :
    Reported s (t.resumed options start resume fault) := by
  obtain ⟨-, heq⟩ | ⟨-, -, -, -, heq⟩ := resumed_cases options start resume fault t
  · rw [heq]
    exact h.mild options hfault
  · obtain ⟨n, hskip⟩ := resumeFrom_eq_skip start resume t.cursor
    have hpassed : (fault.passed start (resumeFrom start resume t.cursor)).isStructural = false := by
      rw [Fault.isStructural_passed, hfault]
    have hresumed : Reported t (t.resumed options start resume fault) := by
      refine ⟨.resumed options start resume fault t, [fault.passed start (resumeFrom start resume t.cursor)], ?_, ?_⟩
      · rw [heq]
      · rw [heq, structuralStarts_single hpassed, hskip]
        exact .nil (ht.start_le_skip n)
    exact h.trans hresumed

/-- A fault that begins with what is read, where more than one token is. -/
theorem enclose (h : Reported (s.skipped 1) t) (hs : Sited source s.cursor.rest) (mid : s.cursor.atEnd = false)
    (options : Options) {fault : Fault} (hfault : fault.span.start = s.cursor.span.start) :
    Reported s (t.withFault options fault) := by
  have hnext := hs.next mid
  have hread : ReportedIn s.cursor.span.start (s.skipped 1) (t.withFault options fault) t.cursor.span.start := by
    refine ReportedIn.withFault h options (Nat.le_of_eq hfault.symm) ?_
    rw [hfault]
    exact Nat.lt_of_lt_of_le hnext.1 hnext.2
  rw [Reported, cursor_withFault]
  exact (ReportedIn.skipped s 1 _).trans hread

/-- What is read in tokens of its own begins where they lie. -/
theorem inTokens {tokens : List Token} {lo hi : Nat} (h : Reported { s with cursor := .ofTokens tokens } t)
    (hlaid : Laid lo tokens hi) : ReportedIn lo s { t with cursor := s.cursor } hi := by
  have hlaid' : Laid lo t.cursor.rest hi := (inherited_laid lo hi).grows h.toGrows hlaid
  have hlo : lo ≤ (Cursor.ofTokens tokens).span.start := (Laid.advance (c := .ofTokens tokens) hlaid).2.1
  obtain ⟨new, hnew, honce⟩ := h.once
  exact ⟨h.toGrows.inTokens, new, hnew, honce.mono hlo hlaid'.advance.2.2⟩

end Reported

/-! ## The judgement -/

/-- An ending in such a state, and in no structural fault. -/
def Ending.Leaves {α : Type} (R : State → Prop) : Ending α → Prop
  | .ok _ t => R t
  | .error fault t => R t ∧ fault.isStructural = false

structure Reports (source : String) (L : Level) (p : Cursor → Prop) {α : Type} (r : Reader α) : Prop where
  reports : ∀ {s}, p s.cursor → Sited source s.cursor.rest → Ending.Leaves (Reported s) (r L s)

variable {L : Level} {p : Cursor → Prop} {α β : Type}

namespace Ending.Leaves

variable {R R' : State → Prop} {ending : Ending α}

theorem state (h : Ending.Leaves R ending) : R (Ending.state ending) := by
  cases ending with
  | ok a t => exact h
  | error fault t => exact h.1

theorem imp (h : Ending.Leaves R ending) (himp : ∀ t, R t → R' t) : Ending.Leaves R' ending := by
  cases ending with
  | ok a t => exact himp t h
  | error fault t => exact ⟨himp t h.1, h.2⟩

theorem andThen {next : α → State → Ending β} (h : Ending.Leaves R ending) (himp : ∀ t, R t → R' t)
    (h' : ∀ a t, R t → Ending.Leaves R' (next a t)) : Ending.Leaves R' (Ending.andThen ending next) := by
  cases ending with
  | ok a t => exact h' a t h
  | error fault t => exact ⟨himp t h.1, h.2⟩

/-- What is given up leaves nothing behind. -/
theorem speculated {s : State} (h : Ending.Leaves (Reported s) ending) :
    Ending.Leaves (Reported s) (JuiceSyntax.speculated s ending) := by
  obtain ⟨fault, hfatal, heq⟩ | ⟨a, t, rfl, -, heq⟩ | heq := speculated_cases s ending
  · rw [heq]
    exact ⟨h.state, fault.isStructural_of_isFatal hfatal⟩
  · rw [heq]
    exact h
  · rw [heq]
    exact h.state.rewind

theorem noted {s : State} (form : BraceForm) (offset : Nat) {ending : Ending (Option α)}
    (h : Ending.Leaves (Reported s) ending) : Ending.Leaves (Reported s) (JuiceSyntax.noted form offset ending) := by
  cases ending with
  | error fault t => exact h
  | ok found t =>
    cases found with
    | some a => exact h
    | none => exact Reported.noteFailed h form offset

end Ending.Leaves

namespace Reports

/-! ## Steps -/

/-- A step that consumes tokens, or ends in a fault that is not structural. -/
theorem step {r : Reader α} (h : ∀ s, (∃ a n, r L s = .ok a (s.skipped n)) ∨
    ∃ fault, fault.isStructural = false ∧ r L s = .error fault s) : Reports source L p r where
  reports {s} _ hs := by
    obtain ⟨a, n, hr⟩ | ⟨fault, hfault, hr⟩ := h s
    · rw [hr]
      exact .skipped hs n
    · rw [hr]
      exact ⟨.refl s, hfault⟩

theorem pure (a : α) : Reports source L p (Pure.pure a : Reader α) := ⟨fun _ _ => .refl _⟩

theorem throw {fault : Fault} (h : fault.isStructural = false) : Reports source L p (throw fault : Reader α) :=
  ⟨fun _ _ => ⟨.refl _, h⟩⟩

theorem throwThen {fault : Fault} {k : β → Reader α} (h : fault.isStructural = false) :
    Reports source L p ((MonadExcept.throw fault : Reader β) >>= k) :=
  ⟨fun _ _ => ⟨.refl _, h⟩⟩

theorem bind {r : Reader α} {k : α → Reader β} (h : Reports source L p r)
    (h' : ∀ a, Reports source L (fun _ => True) (k a)) : Reports source L p (r >>= k) where
  reports hp hs := by
    rw [bind_apply]
    refine (h.reports hp hs).andThen (fun _ ht => ht) fun a t ht => ?_
    have hrest := (h' a).reports trivial (inherited_sited.grows ht.toGrows hs)
    exact hrest.imp fun u hu => ht.trans hu

/-- A look at the kind of the current token, with what it says of the place. -/
theorem onKind {k : Kind → Reader β} (h : ∀ kind, Reports source L (fun c => p c ∧ c.kind = kind) (k kind)) :
    Reports source L p (Reader.kind >>= k) where
  reports {_} hp hs := (h _).reports ⟨hp, rfl⟩ hs

theorem look {r : Reader α} (h : Looks L r) : Reports source L p r := by
  refine .step fun s => ?_
  obtain ⟨a, heq⟩ := h s
  exact .inl ⟨a, 0, heq⟩

theorem advance : Reports source L p Reader.advance := .step fun _ => .inl ⟨_, 1, rfl⟩

theorem skip (n : Nat) : Reports source L p (JuiceSyntax.skip n) := .step fun _ => .inl ⟨_, n, rfl⟩

theorem takeMark (m : Mark) : Reports source L p (Reader.takeMark m) := by
  refine .step fun s => .inl ?_
  rw [takeMark_apply]
  split
  · exact ⟨_, 1, rfl⟩
  · exact ⟨_, 0, rfl⟩

theorem takeWord (w : Keyword) : Reports source L p (Reader.takeWord w) := by
  refine .step fun s => .inl ?_
  rw [takeWord_apply]
  split
  · exact ⟨_, 1, rfl⟩
  · exact ⟨_, 0, rfl⟩

theorem needMark (m : Mark) : Reports source L p (Reader.needMark m) := by
  refine .step fun s => ?_
  rw [needMark_apply]
  split
  · exact .inl ⟨_, 1, rfl⟩
  · exact .inr ⟨_, rfl, rfl⟩

theorem needWord (w : Keyword) : Reports source L p (Reader.needWord w) := by
  refine .step fun s => ?_
  rw [needWord_apply]
  split
  · exact .inl ⟨_, 1, rfl⟩
  · exact .inr ⟨_, rfl, rfl⟩

theorem failUnexpected (wanted : Wanted) : Reports source L p (Reader.failUnexpected wanted : Reader α) :=
  .step fun _ => .inr ⟨_, rfl, rfl⟩

theorem failAdvised (wanted : Wanted) (advice : Advice) :
    Reports source L p (Reader.failAdvised wanted advice : Reader α) :=
  .step fun _ => .inr ⟨_, rfl, rfl⟩

theorem noteBody (inner : Span) :
    Reports source L p (modify fun s => { s with macroBodies := s.macroBodies ++ [inner] } : Reader Unit) where
  reports {s} _ _ :=
    .quiet ((grows_steady inherited_true L.options).noteBody s inner) rfl (Nat.le_refl _)

theorem record {fault : Fault} (h : fault.isStructural = false) : Reports source L p (Reader.record fault) where
  reports {s} _ _ := by
    rw [record_apply]
    exact (Reported.refl s).mild L.options h

/-! ## Forms -/

theorem ite {c : Prop} [Decidable c] {r r' : Reader α} (h : Reports source L p r) (h' : Reports source L p r') :
    Reports source L p (if c then r else r') := by
  split
  · exact h
  · exact h'

/-- Two ways to a value that is then used. -/
theorem iteBind {c : Prop} [Decidable c] {r r' : Reader α} {k : α → Reader β} (h : Reports source L p r)
    (h' : Reports source L p r') (next : ∀ a, Reports source L (fun _ => True) (k a)) :
    Reports source L p (if c then r >>= k else r' >>= k) :=
  .ite (.bind h next) (.bind h' next)

/-- A check that fails, or nothing, and what follows. -/
theorem unlessBind {c : Prop} [Decidable c] {r : Reader Unit} {k : Unit → Reader β} (h : Reports source L p r)
    (next : ∀ {q} a, Reports source L q (k a)) : Reports source L p (if c then k () else r >>= k) :=
  .ite (next ()) (.bind h next)

theorem whenBind {c : Prop} [Decidable c] {r : Reader Unit} {k : Unit → Reader β} (h : Reports source L p r)
    (next : ∀ {q} a, Reports source L q (k a)) : Reports source L p (if c then r >>= k else k ()) :=
  .ite (.bind h next) (next ())

theorem map {r : Reader α} (f : α → β) (h : Reports source L p r) : Reports source L p (f <$> r) :=
  .bind h fun _ => .pure _

/-! ## Attempts -/

theorem speculate {r : Reader α} (h : Reports source L p r) : Reports source L p (JuiceSyntax.speculate r) where
  reports hp hs := by
    rw [speculate_apply]
    exact (h.reports hp hs).speculated

theorem tryBrace (form : BraceForm) {r : Reader Expr} (h : Reports source L p r) :
    Reports source L p (Grammar.tryBrace form r) where
  reports {s} hp hs := by
    rw [tryBrace_apply]
    split
    · exact .refl s
    · exact (h.reports hp hs).speculated.noted form _

/-! ## Loops -/

theorem separatedUpTo {item : Reader α} (close : Mark) (h : ∀ {q}, Reports source L q item) (fuel : Nat) :
    Reports source L p (JuiceSyntax.separatedUpTo close item fuel) := by
  induction fuel generalizing p with
  | zero => exact .pure _
  | succ fuel ih =>
    refine .bind (.look (.atMark close)) fun _ => .ite (.pure _) (.bind h fun _ => .bind (.takeMark _) fun _ => ?_)
    exact .ite (.bind ih fun _ => .pure _) (.pure _)

theorem separated {item : Reader α} (close : Mark) (h : ∀ {q}, Reports source L q item) :
    Reports source L p (JuiceSyntax.separated close item) :=
  .bind (.look .tokensLeft) fun _ => .separatedUpTo close h _

/-- The fault of an item that fails is recorded, and is not structural. -/
theorem recoveringUpTo {item : Reader α} (h : ∀ {q}, Reports source L q item) (resume : Resume) (ends : Kind → Bool)
    (fuel : Nat) : Reports source L p (JuiceSyntax.recoveringUpTo resume ends item fuel) := by
  induction fuel generalizing p with
  | zero => exact .pure _
  | succ fuel ih =>
    refine ⟨fun {s} hp hs => ?_⟩
    have hitem := h.reports hp hs
    rw [recoveringUpTo_succ]
    split
    · exact .refl s
    · cases hfirst : item L s with
      | ok first t =>
        rw [hfirst] at hitem
        have hrest := (ih (p := fun _ => True)).reports trivial (inherited_sited.grows hitem.toGrows hs)
        exact (hrest.imp fun u hu => hitem.trans hu).andThen (fun _ hu => hu) fun _ _ hu => hu
      | error fault t =>
        rw [hfirst] at hitem
        have ht := inherited_sited.grows hitem.1.toGrows hs
        have hresumed := hitem.1.resumed ht L.options s.cursor resume hitem.2
        have hrest := (ih (p := fun _ => True)).reports trivial (inherited_sited.grows hresumed.toGrows hs)
        exact hrest.imp fun u hu => hresumed.trans hu

theorem recovering {item : Reader α} (h : ∀ {q}, Reports source L q item) (resume : Resume) (ends : Kind → Bool) :
    Reports source L p (JuiceSyntax.recovering resume ends item) :=
  .bind (.look .tokensLeft) fun _ => .recoveringUpTo h resume ends _

end Reports

/-! ## Where results begin -/

/-- What is read from `lo` on begins there or behind. -/
structure Onward (lo : Nat) (L : Level) (r : Reader α) (start : α → Nat) : Prop where
  onward : ∀ {s a t}, Late lo s.cursor.rest → r L s = .ok a t → lo ≤ start a

namespace Onward

variable {lo : Nat} {start : α → Nat}

theorem pure {a : α} (h : lo ≤ start a) : Onward lo L (Pure.pure a) start where
  onward _ hr := by
    cases hr
    exact h

theorem failUnexpected (wanted : Wanted) : Onward lo L (Reader.failUnexpected wanted) start := ⟨fun _ hr => nomatch hr⟩

theorem bind (hL : L.Grows) {r : Reader β} {k : β → Reader α} {first : β → Nat} (hr : Composed (fun _ => True) r)
    (h : Onward lo L r first) (h' : ∀ b, lo ≤ first b → Onward lo L (k b) start) : Onward lo L (r >>= k) start where
  onward {s _ _} hs hread := by
    obtain ⟨b, t, hfirst, hk⟩ := ok_of_bind hread
    have hgrows := hr.grows inherited_true hL s trivial
    rw [hfirst] at hgrows
    exact (h' b (h.onward hs hfirst)).onward ((inherited_late lo).grows hgrows hs) hk

/-- A step that has no part in what is given. -/
theorem step (hL : L.Grows) {r : Reader β} {k : β → Reader α} (hr : Composed (fun _ => True) r)
    (h' : ∀ b, Onward lo L (k b) start) : Onward lo L (r >>= k) start := by
  have h : Onward lo L r fun _ => lo := ⟨fun _ _ => Nat.le_refl lo⟩
  exact .bind hL hr h fun b _ => h' b

theorem ite {c : Prop} [Decidable c] {r r' : Reader α} (h : Onward lo L r start) (h' : Onward lo L r' start) :
    Onward lo L (if c then r else r') start := by
  split
  · exact h
  · exact h'

theorem advance : Onward lo L Reader.advance (·.span.start) where
  onward hs hr := by
    obtain ⟨hi, hlaid⟩ := hs
    cases hr
    exact hlaid.advance.2.1

theorem needMark (m : Mark) : Onward lo L (Reader.needMark m) Span.start where
  onward hs hr := by
    obtain ⟨hi, hlaid⟩ := hs
    rw [needMark_apply] at hr
    split at hr
    · cases hr
      exact hlaid.advance.2.1
    · cases hr

end Onward

/-- A span over two others begins no earlier than both. -/
theorem Span.le_start_cover {lo : Nat} {a b : Span} (h : lo ≤ a.start) (h' : lo ≤ b.start) : lo ≤ (a.cover b).start :=
  Nat.le_min.2 ⟨h, h'⟩

/-- The readers of a level report so, and give types that begin where they are read. -/
structure Level.Reports (source : String) (L : Level) : Prop where
  expr : ∀ {p} position, JuiceSyntax.Reports source L p (Reader.expr position)
  operand : ∀ {p} position, JuiceSyntax.Reports source L p (Reader.operand position)
  block : ∀ {p}, JuiceSyntax.Reports source L p Reader.block
  type : ∀ {p}, JuiceSyntax.Reports source L p Reader.type
  record : ∀ {p}, JuiceSyntax.Reports source L p Reader.recordLiteral
  onward : ∀ lo, Onward lo L Reader.type (·.span.start)

end JuiceSyntax
