/-
  Nothing that is written is lost, doubled or moved. A reading that ends without a fault gives
  what the tokens say that it consumed: `Keeps L p pre r view` says so of a reader `r` that begins
  where `p` holds, and whose result, seen through `view`, holds the leaves `pre`, read before, and
  those of the tokens that `r` consumes. What a speculation gave up does not show, since the
  cursor goes back with it. The rules here are those of the steps that readers are made of.
-/
import JuiceSyntax.Proofs.Grammar.Progress
import JuiceSyntax.Proofs.Grammar.Wall
import JuiceSyntax.Proofs.Tree.Leaves

namespace JuiceSyntax

open Reader Grammar

/-- No fault is recorded. -/
structure State.Clear (s : State) : Prop where
  faults : s.faults = []
  halted : s.halted = false

theorem not_clear_withFault (options : Options) (fault : Fault) (s : State) : ¬(s.withFault options fault).Clear := by
  intro h
  cases hs : s.halted with
  | true =>
    have hsame : s.withFault options fault = s := by rw [State.withFault, if_pos hs]
    rw [hsame] at h
    exact absurd (hs.symm.trans h.halted) (by decide)
  | false =>
    have hlt := length_lt_withFault options fault hs
    rw [h.faults] at hlt
    exact absurd hlt (Nat.not_lt_zero _)

theorem not_clear_resumed (options : Options) (start : Cursor) (resume : Resume) (fault : Fault) (s : State) :
    ¬(s.resumed options start resume fault).Clear := by
  intro h
  obtain ⟨hh, heq⟩ | ⟨-, -, -, -, heq⟩ := resumed_cases options start resume fault s
  · rw [heq] at h
    exact absurd (hh.symm.trans h.halted) (by decide)
  · rw [heq] at h
    exact absurd h.faults (List.append_ne_nil_of_right_ne_nil _ (List.cons_ne_nil _ _))

/-- A reading that ends clear has begun so. -/
theorem Grows.clear {s t : State} (h : Grows s t) (ht : t.Clear) : s.Clear := by
  refine ⟨?_, ?_⟩
  · have hfaults := h.faults
    rw [ht.faults] at hfaults
    exact List.prefix_nil.1 hfaults
  · cases hs : s.halted with
    | false => rfl
    | true => exact absurd ((h.halted hs).1.symm.trans ht.halted) (by decide)

/-- A reading that records no fault is clear at its end. -/
theorem Grows.clear_of_faults {s t : State} (h : Grows s t) (hs : s.halted = false) (hfaults : t.faults = []) : t.Clear := by
  refine ⟨hfaults, ?_⟩
  cases ht : t.halted with
  | false => rfl
  | true =>
    obtain hs' | hlt := h.halting ht
    · exact absurd (hs.symm.trans hs') (by decide)
    · rw [hfaults] at hlt
      exact absurd hlt (Nat.not_lt_zero _)

/-! ## The judgement -/

structure Keeps (L : Level) (p : Cursor → Prop) (pre : List Leaf) {α : Type} (r : Reader α) (view : α → List Leaf) :
    Prop where
  clear : ∀ {s a t}, r L s = .ok a t → t.Clear → s.Clear
  keeps : ∀ {s a t}, p s.cursor → Regular s.cursor.rest → r L s = .ok a t → t.Clear →
    ∃ tokens, s.cursor.rest = tokens ++ t.cursor.rest ∧ view a = pre ++ tokenLeaves tokens

/-- A reader without a clear end. -/
def Blots (L : Level) {α : Type} (r : Reader α) : Prop := ∀ s a t, r L s = .ok a t → ¬t.Clear

namespace Blots

variable {L : Level} {α β : Type}

/-- A fault that is recorded shows. -/
theorem record {fault : Fault} {k : Unit → Reader α} (h : ∀ s, ∃ a, k () L s = .ok a s) :
    Blots L (Reader.record fault >>= k) := by
  intro s a t hr
  obtain ⟨a', hk⟩ := h (s.withFault L.options fault)
  rw [bind_apply, record_apply, Ending.andThen_ok, hk] at hr
  cases hr
  exact not_clear_withFault L.options fault s

theorem after {r : Reader α} {k : α → Reader β} (h : ∀ a, Blots L (k a)) : Blots L (r >>= k) := by
  intro s b u hr
  obtain ⟨a, t, -, hk⟩ := ok_of_bind hr
  exact h a t b u hk

end Blots

/-! ## Consumed tokens -/

/-- The current token, unless it is the end, is all that `advance` consumes. -/
theorem Cursor.rest_eq_advance (c : Cursor) :
    ∃ tokens, c.rest = tokens ++ c.advance.rest ∧ tokenLeaves tokens = c.kind.leaves := by
  cases hrest : c.rest with
  | nil =>
    have hkind : c.kind = .done := by simp [Cursor.kind, Cursor.current, hrest]
    have hend : c.atEnd = true := by rw [Cursor.atEnd, hkind]; rfl
    refine ⟨[], ?_, ?_⟩
    · rw [Cursor.advance_of_atEnd hend, hrest, List.append_nil]
    · rw [hkind]
      rfl
  | cons token rest =>
    have hkind := Cursor.kind_of_rest hrest
    cases hdone : token.kind.isDone with
    | true =>
      have hend : c.atEnd = true := by rw [Cursor.atEnd, hkind, hdone]
      refine ⟨[], ?_, ?_⟩
      · rw [Cursor.advance_of_atEnd hend, hrest, List.nil_append]
      · rw [hkind]
        cases hk : token.kind with
        | done => rfl
        | _ =>
          rw [hk] at hdone
          exact absurd hdone Bool.false_ne_true
    | false =>
      refine ⟨[token], ?_, ?_⟩
      · rw [Cursor.rest_advance_of_rest hrest hdone]
        rfl
      · rw [tokenLeaves_cons, hkind]
        exact List.append_nil _

/-- At the end of a list nothing more is said. -/
theorem tokenLeaves_of_atEnd {c : Cursor} (h : Regular c.rest) (hend : c.atEnd = true) : tokenLeaves c.rest = [] := by
  cases hrest : c.rest with
  | nil => rfl
  | cons token rest =>
    have hdone : token.kind.isDone = true := by rw [← Cursor.kind_of_rest hrest]; exact hend
    rw [hrest] at h
    have hnil : rest = [] := h.here.done hdone
    rw [hnil, tokenLeaves_cons]
    cases hk : token.kind with
    | done => rfl
    | _ =>
      rw [hk] at hdone
      exact absurd hdone Bool.false_ne_true

variable {L : Level} {p : Cursor → Prop} {pre : List Leaf} {α β : Type}

namespace Keeps

/-! ## Steps -/

theorem pure {a : α} {view : α → List Leaf} (h : view a = pre) : Keeps L p pre (Pure.pure a) view where
  clear hr ht := by
    cases hr
    exact ht
  keeps _ _ hr _ := by
    cases hr
    exact ⟨[], rfl, h.trans (List.append_nil _).symm⟩

theorem never {r : Reader α} {view : α → List Leaf} (h : Blots L r) : Keeps L p pre r view where
  clear hr ht := absurd ht (h _ _ _ hr)
  keeps _ _ hr ht := absurd ht (h _ _ _ hr)

theorem throw {fault : Fault} {view : α → List Leaf} : Keeps L p pre (throw fault : Reader α) view :=
  never fun _ _ _ hr => nomatch hr

theorem failUnexpected {view : α → List Leaf} (wanted : Wanted) : Keeps L p pre (Reader.failUnexpected wanted) view :=
  never fun _ _ _ hr => nomatch hr

theorem failAdvised {view : α → List Leaf} (wanted : Wanted) (advice : Advice) :
    Keeps L p pre (Reader.failAdvised wanted advice) view :=
  never fun _ _ _ hr => nomatch hr

theorem failThen (wanted : Wanted) {k : β → Reader α} {view : α → List Leaf} :
    Keeps L p pre (Reader.failUnexpected wanted >>= k) view :=
  never fun _ _ _ hr => nomatch hr

theorem failAdvisedThen (wanted : Wanted) (advice : Advice) {k : β → Reader α} {view : α → List Leaf} :
    Keeps L p pre (Reader.failAdvised wanted advice >>= k) view :=
  never fun _ _ _ hr => nomatch hr

theorem throwThen (fault : Fault) {k : β → Reader α} {view : α → List Leaf} :
    Keeps L p pre ((MonadExcept.throw fault : Reader β) >>= k) view :=
  never fun _ _ _ hr => nomatch hr

/-- A step whose result holds `mid`, read before, and what follows a result that it can give,
where it ends. -/
theorem extendOf {q : α → Cursor → Prop} {r : Reader α} {k : α → Reader β} {mid : List Leaf} {first : α → List Leaf}
    {view : β → List Leaf} (h : Keeps L p mid r first)
    (hq : ∀ {s a t}, p s.cursor → r L s = .ok a t → q a t.cursor)
    (h' : ∀ a s t, r L s = .ok a t → Keeps L (q a) (pre ++ first a) (k a) view) :
    Keeps L p (pre ++ mid) (r >>= k) view where
  clear {s b u} hr hu := by
    obtain ⟨a, t, hfirst, hk⟩ := ok_of_bind hr
    exact h.clear hfirst ((h' a s t hfirst).clear hk hu)
  keeps {s b u} hp hs hr hu := by
    obtain ⟨a, t, hfirst, hk⟩ := ok_of_bind hr
    have hnext := h' a s t hfirst
    obtain ⟨tokens, hrest, hview⟩ := h.keeps hp hs hfirst (hnext.clear hk hu)
    have ht : Regular t.cursor.rest := by
      rw [hrest] at hs
      exact hs.suffix
    obtain ⟨tokens', hrest', hview'⟩ := hnext.keeps (hq hp hfirst) ht hk hu
    refine ⟨tokens ++ tokens', ?_, ?_⟩
    · rw [hrest, hrest', List.append_assoc]
    · rw [hview', hview, tokenLeaves_append, List.append_assoc, List.append_assoc, List.append_assoc]

theorem extend {r : Reader α} {k : α → Reader β} {mid : List Leaf} {first : α → List Leaf} {view : β → List Leaf}
    (h : Keeps L p mid r first) (h' : ∀ a, Keeps L (fun _ => True) (pre ++ first a) (k a) view) :
    Keeps L p (pre ++ mid) (r >>= k) view :=
  h.extendOf (fun _ _ => trivial) fun a _ _ _ => h' a

theorem bindTo {q : α → Cursor → Prop} {r : Reader α} {k : α → Reader β} {first : α → List Leaf} {view : β → List Leaf}
    (h : Keeps L p [] r first) (hq : ∀ {s a t}, p s.cursor → r L s = .ok a t → q a t.cursor)
    (h' : ∀ a, Keeps L (q a) (pre ++ first a) (k a) view) : Keeps L p pre (r >>= k) view := by
  simpa using h.extendOf hq fun a _ _ _ => h' a

theorem bind {r : Reader α} {k : α → Reader β} {first : α → List Leaf} {view : β → List Leaf}
    (h : Keeps L p [] r first) (h' : ∀ a, Keeps L (fun _ => True) (pre ++ first a) (k a) view) :
    Keeps L p pre (r >>= k) view := by
  simpa using h.extend h'

/-- A step without leaves, and what follows. -/
theorem next {r : Reader α} {k : α → Reader β} {view : β → List Leaf} (h : Keeps L p [] r fun _ => [])
    (h' : ∀ a, Keeps L (fun _ => True) pre (k a) view) : Keeps L p pre (r >>= k) view :=
  bind h fun a => by simpa using h' a

/-- A value at hand, and what follows. -/
theorem known {a : α} {k : α → Reader β} {view : β → List Leaf} (h : Keeps L p pre (k a) view) :
    Keeps L p pre (Pure.pure a >>= k) view :=
  ⟨h.clear, h.keeps⟩

/-- A look, after which the reading still stands where it stood. -/
theorem look {r : Reader α} {k : α → Reader β} {view : β → List Leaf} (h : Looks L r)
    (h' : ∀ a, Keeps L p pre (k a) view) : Keeps L p pre (r >>= k) view where
  clear {s _ _} hr ht := by
    obtain ⟨a, heq⟩ := h s
    rw [bind_apply, heq] at hr
    exact (h' a).clear hr ht
  keeps {s _ _} hp hs hr ht := by
    obtain ⟨a, heq⟩ := h s
    rw [bind_apply, heq] at hr
    exact (h' a).keeps hp hs hr ht

/-- A look at the cursor, with what it says of it. -/
theorem lookAt {r : Reader α} {f : Cursor → α} (hr : ∀ s, r L s = .ok (f s.cursor) s) {k : α → Reader β}
    {view : β → List Leaf} (h : ∀ a, Keeps L (fun c => p c ∧ f c = a) pre (k a) view) : Keeps L p pre (r >>= k) view where
  clear {s _ _} hk ht := by
    rw [bind_apply, hr] at hk
    exact (h _).clear hk ht
  keeps {s _ _} hp hs hk ht := by
    rw [bind_apply, hr] at hk
    exact (h _).keeps ⟨hp, rfl⟩ hs hk ht

theorem onKind {k : Kind → Reader β} {view : β → List Leaf}
    (h : ∀ kind, Keeps L (fun c => p c ∧ c.kind = kind) pre (k kind) view) : Keeps L p pre (Reader.kind >>= k) view :=
  lookAt (fun _ => rfl) h

theorem onPeek (n : Nat) {k : Kind → Reader β} {view : β → List Leaf}
    (h : ∀ kind, Keeps L (fun c => p c ∧ c.peek n = kind) pre (k kind) view) : Keeps L p pre (Reader.peek n >>= k) view :=
  lookAt (fun _ => rfl) h

theorem onCursor {k : Cursor → Reader β} {view : β → List Leaf}
    (h : ∀ c, Keeps L (fun c' => p c' ∧ c' = c) pre (k c) view) : Keeps L p pre (Reader.cursor >>= k) view :=
  lookAt (f := id) (fun _ => rfl) h

/-- Where a reader may begin matters no more. -/
theorem anywhere {r : Reader α} {view : α → List Leaf} (h : Keeps L (fun _ => True) pre r view) : Keeps L p pre r view :=
  ⟨h.clear, fun _ => h.keeps trivial⟩

/-- A fact about the token list the reading begins in. -/
theorem given {q : Cursor → Prop} {pre' : List Leaf} {r : Reader α} {view view' : α → List Leaf} {fact : Prop}
    (hfact : ∀ c, p c → Regular c.rest → fact) (h : Keeps L q pre' r view') (h' : fact → Keeps L p pre r view) :
    Keeps L p pre r view :=
  ⟨h.clear, fun hp hs => (h' (hfact _ hp hs)).keeps hp hs⟩

theorem cast {r : Reader α} {pre' : List Leaf} {view : α → List Leaf} (h : Keeps L p pre' r view) (heq : pre' = pre) :
    Keeps L p pre r view :=
  heq ▸ h

theorem ite {c : Prop} [Decidable c] {r r' : Reader α} {view : α → List Leaf} (h : Keeps L p pre r view)
    (h' : Keeps L p pre r' view) : Keeps L p pre (if c then r else r') view := by
  split
  · exact h
  · exact h'

/-- Two ways to a value that is then used. -/
theorem iteBind {c : Prop} [Decidable c] {r r' : Reader α} {k : α → Reader β} {v : α → List Leaf}
    {view : β → List Leaf} (h : Keeps L p [] r v) (h' : Keeps L p [] r' v)
    (next : ∀ a, Keeps L (fun _ => True) (pre ++ v a) (k a) view) :
    Keeps L p pre (if c then r >>= k else r' >>= k) view :=
  .ite (.bind h next) (.bind h' next)

theorem map {r : Reader α} (f : α → β) {first : α → List Leaf} {view : β → List Leaf} (h : Keeps L p [] r first)
    (heq : ∀ a, view (f a) = pre ++ first a) : Keeps L p pre (f <$> r) view :=
  .bind h fun a => .pure (heq a)

/-! ## Consuming -/

theorem advance : Keeps L p [] Reader.advance fun token => token.kind.leaves where
  clear hr ht := by
    cases hr
    exact ⟨ht.faults, ht.halted⟩
  keeps {s a t} _ _ hr _ := by
    cases hr
    obtain ⟨tokens, hrest, hleaves⟩ := s.cursor.rest_eq_advance
    exact ⟨tokens, hrest, hleaves.symm⟩

/-- A token of a kind that is known. -/
theorem advanceAt {kind : Kind} (h : ∀ c, p c → c.kind = kind) : Keeps L p [] Reader.advance fun _ => kind.leaves where
  clear := advance (p := p).clear
  keeps {s a t} hp hs hr ht := by
    obtain ⟨tokens, hrest, hleaves⟩ := advance.keeps hp hs hr ht
    cases hr
    exact ⟨tokens, hrest, by rw [← hleaves, ← h _ hp]; rfl⟩

/-- A token without leaves. -/
theorem pass (h : ∀ c, p c → c.kind.leaves = []) : Keeps L p [] Reader.advance fun _ => [] where
  clear := advance (p := p).clear
  keeps {s a t} hp hs hr ht := by
    obtain ⟨tokens, hrest, hleaves⟩ := advance.keeps hp hs hr ht
    cases hr
    exact ⟨tokens, hrest, (h _ hp).symm.trans hleaves⟩

theorem passAt {kind : Kind} (h : ∀ c, p c → c.kind = kind) (hk : kind.leaves = []) :
    Keeps L p [] Reader.advance fun _ => [] :=
  pass fun c hc => by rw [h c hc, hk]

/-- Two tokens of kinds that are known. -/
theorem skipTwo {kind kind' : Kind} (h : ∀ c, p c → c.kind = kind ∧ c.peek 1 = kind') (hk : kind.isDone = false) :
    Keeps L p [] (JuiceSyntax.skip 2) fun _ => kind.leaves ++ kind'.leaves where
  clear hr ht := by
    cases hr
    exact ⟨ht.faults, ht.halted⟩
  keeps {s a t} hp hs hr ht := by
    cases hr
    obtain ⟨hkind, hpeek⟩ := h _ hp
    have hmid : s.cursor.atEnd = false := by rw [Cursor.atEnd, hkind, hk]
    obtain ⟨tokens, hrest, hleaves⟩ := s.cursor.rest_eq_advance
    obtain ⟨tokens', hrest', hleaves'⟩ := s.cursor.advance.rest_eq_advance
    refine ⟨tokens ++ tokens', ?_, ?_⟩
    · rw [hrest, hrest', List.append_assoc]
      rfl
    · rw [tokenLeaves_append, hleaves, hleaves', Cursor.kind_advance hmid, hkind, hpeek]
      rfl

theorem noteBody (inner : Span) :
    Keeps L p [] (modify fun s => { s with macroBodies := s.macroBodies ++ [inner] } : Reader Unit) fun _ => [] where
  clear hr ht := by
    cases hr
    exact ⟨ht.faults, ht.halted⟩
  keeps _ _ hr _ := by
    cases hr
    exact ⟨[], rfl, rfl⟩

/-- What is consumed on sight, if it has no leaves. -/
theorem takeIf {f : Kind → Bool} (h : ∀ kind, f kind = true → kind.leaves = []) :
    Keeps L p [] (do
      if f (← Reader.kind) then
        let _ ← Reader.advance
        return true
      else
        return false) fun _ => [] := by
  refine .onKind fun kind => ?_
  split
  · rename_i hfound
    exact .bind (.advanceAt fun _ hc => hc.2) fun _ => .pure (by rw [h kind hfound]; rfl)
  · exact .pure rfl

theorem takeMark (m : Mark) (h : (Kind.mark m).leaves = []) : Keeps L p [] (Reader.takeMark m) fun _ => [] :=
  takeIf (f := fun kind => kind.isMark m) fun kind hm => by rw [eq_of_isMark hm, h]

theorem takeWord (w : Keyword) : Keeps L p [] (Reader.takeWord w) fun _ => [] :=
  takeIf (f := fun kind => kind.isWord w) fun kind hw => by rw [eq_of_isWord hw]; rfl

theorem needIf {f : Kind → Bool} {cause : Kind → Cause} (h : ∀ kind, f kind = true → kind.leaves = []) :
    Keeps L p [] (do
      if f (← Reader.kind) then
        return (← Reader.advance).span
      else
        MonadExcept.throw (.ofCause (← Reader.here) (cause (← Reader.kind)))) fun _ => [] := by
  refine .onKind fun kind => ?_
  split
  · rename_i hfound
    exact .bind (.advanceAt fun _ hc => hc.2) fun _ => .pure (by rw [h kind hfound]; rfl)
  · exact .look .here fun _ => .look .kind fun _ => .throw

theorem needMark (m : Mark) (h : (Kind.mark m).leaves = []) : Keeps L p [] (Reader.needMark m) fun _ => [] :=
  needIf (f := fun kind => kind.isMark m) fun kind hm => by rw [eq_of_isMark hm, h]

theorem needWord (w : Keyword) : Keeps L p [] (Reader.needWord w) fun _ => [] :=
  needIf (f := fun kind => kind.isWord w) fun kind hw => by rw [eq_of_isWord hw]; rfl

/-! ## Attempts -/

/-- What is given up consumes nothing. -/
theorem speculated {r : Reader α} {view : α → List Leaf} (hgrows : ∀ s, Grows s (Ending.state (r L s)))
    (h : Keeps L p [] r view) {s t : State} {found : Option α} (hr : JuiceSyntax.speculated s (r L s) = .ok found t) :
    (t.Clear → s.Clear) ∧ (p s.cursor → Regular s.cursor.rest → t.Clear →
      ∃ tokens, s.cursor.rest = tokens ++ t.cursor.rest ∧ found.elim [] view = tokenLeaves tokens) := by
  obtain ⟨fault, -, h'⟩ | ⟨a, t', hread, -, h'⟩ | h' := speculated_cases s (r L s)
  · rw [h'] at hr
    cases hr
  · rw [h'] at hr
    cases hr
    exact ⟨h.clear hread, fun hp hs ht => h.keeps hp hs hread ht⟩
  · rw [h', rewind_eq (hgrows s)] at hr
    cases hr
    exact ⟨fun ht => ⟨ht.faults, ht.halted⟩, fun _ _ _ => ⟨[], rfl, rfl⟩⟩

theorem speculate {r : Reader α} {view : α → List Leaf} (hgrows : ∀ s, Grows s (Ending.state (r L s)))
    (h : Keeps L p [] r view) : Keeps L p [] (JuiceSyntax.speculate r) fun found => found.elim [] view where
  clear {s a t} hr := by
    rw [speculate_apply] at hr
    exact (h.speculated hgrows hr).1
  keeps {s a t} hp hs hr ht := by
    rw [speculate_apply] at hr
    exact (h.speculated hgrows hr).2 hp hs ht

theorem tryBrace {form : BraceForm} {r : Reader Expr} (hgrows : ∀ s, Grows s (Ending.state (r L s)))
    (h : Keeps L p [] r Expr.leaves) : Keeps L p [] (Grammar.tryBrace form r) optionalExprLeaves := by
  have tried {s t : State} {found : Option Expr} (hr : Grammar.tryBrace form r L s = .ok found t) :
      (t.Clear → s.Clear) ∧ (p s.cursor → Regular s.cursor.rest → t.Clear →
        ∃ tokens, s.cursor.rest = tokens ++ t.cursor.rest ∧ optionalExprLeaves found = tokenLeaves tokens) := by
    rw [tryBrace_apply] at hr
    split at hr
    · cases hr
      exact ⟨id, fun _ _ _ => ⟨[], rfl, rfl⟩⟩
    · cases hspeculated : JuiceSyntax.speculated s (r L s) with
      | error fault t' =>
        rw [hspeculated] at hr
        cases hr
      | ok found' t' =>
        have hkeeps := h.speculated hgrows hspeculated
        rw [hspeculated] at hr
        cases found' with
        | some e =>
          cases hr
          exact hkeeps
        | none =>
          cases hr
          cases form with
          | record => exact ⟨fun ht => hkeeps.1 ⟨ht.faults, ht.halted⟩, fun hp hs ht => hkeeps.2 hp hs ⟨ht.faults, ht.halted⟩⟩
          | block => exact ⟨fun ht => hkeeps.1 ⟨ht.faults, ht.halted⟩, fun hp hs ht => hkeeps.2 hp hs ⟨ht.faults, ht.halted⟩⟩
  exact ⟨fun hr => (tried hr).1, fun hp hs hr => (tried hr).2 hp hs⟩

/-! ## Loops -/

/-- A turn that fails shows. -/
theorem recoveringUpTo {item : Reader α} {view : α → List Leaf} (h : Keeps L (fun _ => True) [] item view)
    (resume : Resume) (ends : Kind → Bool) (fuel : Nat) :
    Keeps L p [] (JuiceSyntax.recoveringUpTo resume ends item fuel) fun items => items.flatMap view := by
  induction fuel generalizing p with
  | zero => exact .pure rfl
  | succ fuel ih =>
    have hseq : Keeps L (fun _ => True) [] (item >>= fun first => JuiceSyntax.recoveringUpTo resume ends item fuel >>=
        fun rest => Pure.pure (first :: rest)) fun items => items.flatMap view :=
      h.bind fun first => ih.bind fun rest => .pure (by simp)
    have turn {s t : State} {items : List α} (hr : JuiceSyntax.recoveringUpTo resume ends item (fuel + 1) L s = .ok items t)
        (ht : t.Clear) : items = [] ∧ s = t ∨ (item >>= fun first => JuiceSyntax.recoveringUpTo resume ends item fuel >>=
          fun rest => Pure.pure (first :: rest)) L s = .ok items t := by
      rw [recoveringUpTo_succ] at hr
      split at hr
      · cases hr
        exact .inl ⟨rfl, rfl⟩
      · refine .inr ?_
        cases hitem : item L s with
        | error fault t' =>
          rw [hitem] at hr
          exact absurd ((ih (p := p)).clear hr ht) (not_clear_resumed _ _ _ _ _)
        | ok first t' =>
          rw [hitem] at hr
          simp only [bind_apply, hitem, Ending.andThen_ok, pure_apply]
          exact hr
    refine ⟨fun {s items t} hr ht => ?_, fun {s items t} _ hs hr ht => ?_⟩
    · obtain ⟨-, rfl⟩ | hr' := turn hr ht
      · exact ht
      · exact hseq.clear hr' ht
    · obtain ⟨rfl, rfl⟩ | hr' := turn hr ht
      · exact ⟨[], rfl, rfl⟩
      · exact hseq.keeps trivial hs hr' ht

theorem recovering {item : Reader α} {view : α → List Leaf} (h : Keeps L (fun _ => True) [] item view)
    (resume : Resume) (ends : Kind → Bool) :
    Keeps L p [] (JuiceSyntax.recovering resume ends item) fun items => items.flatMap view :=
  .look .tokensLeft fun _ => h.recoveringUpTo resume ends _

theorem separatedUpTo {item : Reader α} {view : α → List Leaf} (close : Mark)
    (h : Keeps L (fun _ => True) [] item view) (fuel : Nat) :
    Keeps L p [] (JuiceSyntax.separatedUpTo close item fuel) fun items => items.flatMap view := by
  induction fuel generalizing p with
  | zero => exact .pure rfl
  | succ fuel ih =>
    refine .look (.atMark close) fun _ => .ite (.pure rfl) (.bind h.anywhere fun _ =>
      .next (.takeMark _ rfl) fun _ => .ite ?_ ?_)
    · exact .bind ih fun _ => .pure (by simp)
    · exact .pure (by simp)

theorem separated {item : Reader α} {view : α → List Leaf} (close : Mark) (h : Keeps L (fun _ => True) [] item view) :
    Keeps L p [] (JuiceSyntax.separated close item) fun items => items.flatMap view :=
  .look .tokensLeft fun _ => .separatedUpTo close h _

end Keeps

/-- The readers of a level give what they consume. -/
structure Level.Keeps (L : Level) : Prop where
  grows : L.Grows
  expr : ∀ {p} position, JuiceSyntax.Keeps L p [] (Reader.expr position) Expr.leaves
  operand : ∀ {p} position, JuiceSyntax.Keeps L p [] (Reader.operand position) Expr.leaves
  block : ∀ {p}, JuiceSyntax.Keeps L p [] Reader.block Block.leaves
  type : ∀ {p}, JuiceSyntax.Keeps L p [] Reader.type TypeExpr.leaves
  record : ∀ {p}, JuiceSyntax.Keeps L p [] Reader.recordLiteral Expr.leaves

/-! ## Other token lists -/

/-- A reading of tokens of its own: the cursor comes back, and the result is as is said. -/
structure Aside (L : Level) {γ : Type} (r : Reader α) (view : α → γ) (said : γ) : Prop where
  clear : ∀ {s a t}, r L s = .ok a t → t.Clear → s.Clear
  keeps : ∀ {s a t}, r L s = .ok a t → t.Clear → t.cursor = s.cursor ∧ view a = said

namespace Aside

variable {γ δ : Type}

theorem pure {a : α} {view : α → γ} {said : γ} (h : view a = said) : Aside L (Pure.pure a) view said where
  clear hr ht := by
    cases hr
    exact ht
  keeps hr _ := by
    cases hr
    exact ⟨rfl, h⟩

theorem bind {r : Reader α} {k : α → Reader β} {first : α → γ} {said : γ} {view : β → δ} {f : γ → δ}
    (h : Aside L r first said) (h' : ∀ a, Aside L (k a) view (f (first a))) : Aside L (r >>= k) view (f said) where
  clear hr hu := by
    obtain ⟨a, t, hfirst, hk⟩ := ok_of_bind hr
    exact h.clear hfirst ((h' a).clear hk hu)
  keeps hr hu := by
    obtain ⟨a, t, hfirst, hk⟩ := ok_of_bind hr
    obtain ⟨hcursor, hview⟩ := h.keeps hfirst ((h' a).clear hk hu)
    obtain ⟨hcursor', hview'⟩ := (h' a).keeps hk hu
    exact ⟨hcursor'.trans hcursor, by rw [hview', hview]⟩

end Aside

/-- What is read over tokens of their own is all there is of them. -/
theorem ok_of_whole {tokens : List Token} {r : Reader α} {wanted : Wanted} {advice : Advice} {s t : State} {a : α}
    (hr : withTokens tokens (do
      let a ← r
      unless ← Reader.atEnd do
        Reader.failAdvised wanted advice
      return a) L s = .ok a t) :
    ∃ u, r L { s with cursor := .ofTokens tokens } = .ok a u ∧ u.cursor.atEnd = true ∧ t = { u with cursor := s.cursor } := by
  rw [withTokens_apply, bind_apply] at hr
  cases hread : r L { s with cursor := .ofTokens tokens } with
  | error fault u =>
    rw [hread] at hr
    cases hr
  | ok a' u =>
    cases hend : u.cursor.atEnd with
    | true =>
      have hlook : Reader.atEnd L u = .ok true u := by rw [← hend]; rfl
      rw [hread, Ending.andThen_ok, bind_apply, hlook] at hr
      cases hr
      exact ⟨u, rfl, hend, rfl⟩
    | false =>
      have hlook : Reader.atEnd L u = .ok false u := by rw [← hend]; rfl
      rw [hread, Ending.andThen_ok, bind_apply, hlook] at hr
      cases hr

/-- All of a token list, read where it stands alone. -/
theorem Keeps.whole {tokens : List Token} (htokens : Regular tokens) {r : Reader α} {view : α → List Leaf}
    (h : Keeps L (fun _ => True) [] r view) (wanted : Wanted) (advice : Advice) :
    Aside L (withTokens tokens do
      let a ← r
      unless ← Reader.atEnd do
        Reader.failAdvised wanted advice
      return a) view (tokenLeaves tokens) := by
  refine ⟨fun {s a t} hr ht => ?_, fun {s a t} hr ht => ?_⟩
  · obtain ⟨u, hread, -, rfl⟩ := ok_of_whole hr
    have hs := h.clear hread ⟨ht.faults, ht.halted⟩
    exact ⟨hs.faults, hs.halted⟩
  · obtain ⟨u, hread, hend, rfl⟩ := ok_of_whole hr
    obtain ⟨consumed, hrest, hview⟩ := h.keeps trivial htokens hread ⟨ht.faults, ht.halted⟩
    refine ⟨rfl, ?_⟩
    have hrest : tokens = consumed ++ u.cursor.rest := hrest
    have hu : Regular u.cursor.rest := by
      rw [hrest] at htokens
      exact htokens.suffix
    rw [hview, List.nil_append, hrest, tokenLeaves_append, tokenLeaves_of_atEnd hu hend, List.append_nil]

end JuiceSyntax
