/-
  Readers keep braces in pairs. `Evenly setting doc scope L p pre r view` says of a reader `r` that
  begins where `p` holds, and whose result, seen through `view`, holds the nodes `pre`, read before:
  what `r` consumes is balanced, also if it fails, and the nodes that it adds end at the braces
  that match theirs. This is said of readings of which all faults are gentle, on documents in
  which every brace is closed; how far it goes depends on the scope.
-/
import JuiceSyntax.Proofs.Grammar.FatalFault
import JuiceSyntax.Proofs.Grammar.Matching
import JuiceSyntax.Proofs.Grammar.Wall
import JuiceSyntax.Proofs.Tree.Braces

namespace JuiceSyntax

open Reader Grammar

/-! ## Nodes -/

/-- Where a body follows, an expression `e` is read from one place up to another. -/
def ReadsHead (setting : Setting) (e : Expr) (place rest : List Token) : Prop :=
  ∃ n s t, (level setting n).expr .head s = .ok e t ∧ s.cursor.rest = place ∧ t.cursor.rest = rest

/-- The node ends at the brace that matches its opening one. The opening brace of a `match` is
the one at which the reading of the scrutinee, which follows the word, has ended. -/
def BraceNode.Fits (setting : Setting) (doc : List Token) : BraceNode → Prop
  | .group span => ∃ place ∈ places doc, ∃ opening closing, Matched place opening closing ∧
      span = ⟨opening.start, closing.stop⟩
  | .selection scrutinee span =>
    ∃ start head place, ⟨.word .matchWord, start⟩ :: head ∈ places doc ∧ ReadsHead setting scrutinee head place ∧
      ∃ opening closing, Matched place opening closing ∧ span = ⟨start.start, closing.stop⟩

/-- All of these nodes do. -/
def AllFit (setting : Setting) (doc : List Token) (nodes : List BraceNode) : Prop :=
  ∀ node ∈ nodes, node.Fits setting doc

theorem allFit_nil {setting : Setting} {doc : List Token} : AllFit setting doc [] :=
  fun _ hmem => absurd hmem List.not_mem_nil

theorem AllFit.append {setting : Setting} {doc : List Token} {nodes nodes' : List BraceNode}
    (h : AllFit setting doc nodes) (h' : AllFit setting doc nodes') : AllFit setting doc (nodes ++ nodes') :=
  List.forall_mem_append.2 ⟨h, h'⟩

/-! ## Calm readings -/

/-- An opening brace stands where a type is wanted. -/
def Cause.isBraceForType : Cause → Bool
  | .unexpected .type (.mark .lBrace) none => true
  | _ => false

/-- A fault after which the reading goes on, and if it is for an opening brace where a type is
wanted, then not with that brace as the first token that recovery passed. -/
structure Fault.Gentle (fault : Fault) : Prop where
  mild : fault.isFatal = false
  behind : fault.cause.isBraceForType = true → ∀ skipped ∈ fault.skipped, skipped.start ≠ fault.span.start

theorem Fault.gentle_iff {fault : Fault} :
    fault.Gentle ↔ fault.isFatal = false ∧
      (fault.cause.isBraceForType = true → ∀ skipped ∈ fault.skipped, skipped.start ≠ fault.span.start) :=
  ⟨fun h => ⟨h.mild, h.behind⟩, fun h => ⟨h.1, h.2⟩⟩

instance (fault : Fault) : Decidable fault.Gentle := decidable_of_iff _ Fault.gentle_iff.symm

theorem not_gentle_of_isFatal {fault : Fault} (h : fault.isFatal = true) : ¬fault.Gentle :=
  fun hgentle => absurd h (by rw [hgentle.mild]; decide)

/-- The reading goes on, and all faults so far are gentle. -/
structure State.Calm (s : State) : Prop where
  goes : s.halted = false
  faults : ∀ fault ∈ s.faults, fault.Gentle

theorem Grows.calm {s t : State} (h : Grows s t) (ht : t.Calm) : s.Calm := by
  refine ⟨?_, fun fault hmem => ht.faults fault (h.faults.subset hmem)⟩
  cases hs : s.halted with
  | false => rfl
  | true => exact absurd ((h.halted hs).1.symm.trans ht.goes) (by decide)

/-- After a turn that failed and left the reading calm, the reading goes on where it can
resume. -/
theorem calm_of_resumed {options : Options} {start : Cursor} {resume : Resume} {fault : Fault} {s : State}
    (h : (s.resumed options start resume fault).Calm) :
    s.Calm ∧ fault.isFatal = false ∧ (fault.passed start (resumeFrom start resume s.cursor)).Gentle ∧
      (s.resumed options start resume fault).cursor = resumeFrom start resume s.cursor := by
  have hs : s.Calm := (Grows.resumed options start resume fault s).calm h
  obtain ⟨hh, heq⟩ | ⟨-, hmild, -, -, heq⟩ := resumed_cases options start resume fault s
  · have hgoes := h.goes
    rw [heq] at hgoes
    exact absurd (hh.symm.trans hgoes) (by decide)
  · have hgentle := h.faults (fault.passed start (resumeFrom start resume s.cursor)) (by rw [heq]; simp)
    exact ⟨hs, hmild, hgentle, by rw [heq]⟩

/-! ## Consumed tokens -/

/-- What is between two places is balanced. -/
def Even (c c' : Cursor) : Prop := ∃ tokens, c.rest = tokens ++ c'.rest ∧ Closes 0 tokens

theorem Even.refl (c : Cursor) : Even c c := ⟨[], rfl, .nil⟩

theorem Even.trans {c c' c'' : Cursor} (h : Even c c') (h' : Even c' c'') : Even c c'' := by
  obtain ⟨tokens, hrest, hcloses⟩ := h
  obtain ⟨tokens', hrest', hcloses'⟩ := h'
  exact ⟨tokens ++ tokens', by rw [hrest, hrest', List.append_assoc], hcloses.append hcloses'⟩

/-- Either brace. -/
def Kind.isBrace (kind : Kind) : Bool := kind.isMark .lBrace || kind.isMark .rBrace

theorem Even.advance {c : Cursor} (h : c.kind.isBrace = false) : Even c c.advance := by
  cases hend : c.atEnd with
  | true =>
    rw [Cursor.advance_of_atEnd hend]
    exact .refl c
  | false =>
    cases hrest : c.rest with
    | nil => simp [Cursor.atEnd, Cursor.kind, Cursor.current, hrest, Kind.isDone] at hend
    | cons token rest =>
      have hkind := Cursor.kind_of_rest hrest
      rw [Cursor.atEnd, hkind] at hend
      rw [hkind, Kind.isBrace, Bool.or_eq_false_iff] at h
      exact ⟨[token], by rw [hrest, Cursor.rest_advance_of_rest hrest hend]; rfl, .singleton h.1 h.2⟩

/-- What is said of a reader: in a block, of one that is only tried, at the top of a program. -/
inductive Scope where
  | nested | tentative | program

namespace Scope

/-- From where a result was read to where it ends. -/
def Passes : Scope → Cursor → Cursor → Prop
  | .nested, c, c' | .tentative, c, c' => Even c c'
  | .program, _, _ => True

/-- From where a reading began to where it failed. -/
def Fails : Scope → Cursor → Cursor → Prop
  | .nested, c, c' => Even c c'
  | .tentative, _, _ | .program, _, _ => True

/-- The kinds of which a token may be consumed on sight. -/
def Allows : Scope → Kind → Bool
  | .nested, kind | .tentative, kind => !kind.isBrace
  | .program, _ => true

variable {scope : Scope} {c c' c'' : Cursor}

theorem passes (h : Even c c') : scope.Passes c c' := by
  cases scope with
  | program => trivial
  | _ => exact h

theorem fails (h : Even c c') : scope.Fails c c' := by
  cases scope with
  | nested => exact h
  | _ => trivial

theorem Passes.trans (h : scope.Passes c c') (h' : scope.Passes c' c'') : scope.Passes c c'' := by
  cases scope with
  | program => trivial
  | _ => exact Even.trans h h'

theorem Passes.fails (h : scope.Passes c c') (h' : scope.Fails c' c'') : scope.Fails c c'' := by
  cases scope with
  | nested => exact Even.trans h h'
  | _ => trivial

theorem Passes.advance (h : scope.Allows c.kind = true) : scope.Passes c c.advance := by
  cases scope with
  | program => trivial
  | _ => exact Even.advance (by simpa [Allows] using h)

theorem allows_of_not_isBrace {kind : Kind} (h : kind.isBrace = false) : scope.Allows kind = true := by
  cases scope with
  | program => rfl
  | _ => simp [Allows, h]

end Scope

/-! ## The judgement -/

structure Evenly (setting : Setting) (doc : List Token) (scope : Scope) (L : Level) (p : Cursor → Prop)
    (pre : List BraceNode) {α : Type} (r : Reader α) (view : α → List BraceNode) : Prop where
  grows : ∀ s, Grows s (Ending.state (r L s))
  ok : ∀ {s a t}, p s.cursor → Stands doc s.cursor.rest → r L s = .ok a t → t.Calm →
    scope.Passes s.cursor t.cursor ∧ (AllFit setting doc pre → AllFit setting doc (view a))
  error : ∀ {s fault t}, p s.cursor → Stands doc s.cursor.rest → r L s = .error fault t → t.Calm →
    fault.isFatal = false → scope.Fails s.cursor t.cursor

variable {setting : Setting} {doc : List Token} {scope : Scope} {L : Level} {p : Cursor → Prop}
  {pre : List BraceNode} {α β : Type}

theorem Grows.stands {s t : State} (h : Grows s t) (hs : Stands doc s.cursor.rest) :
    Stands doc t.cursor.rest :=
  (inherited_stands doc).grows h hs

namespace Evenly

/-! ## Steps -/

theorem pure {a : α} {view : α → List BraceNode} (h : view a = pre) :
    Evenly setting doc scope L p pre (Pure.pure a) view where
  grows := .refl
  ok _ _ hr _ := by
    cases hr
    exact ⟨Scope.passes (.refl _), fun hpre => h.symm ▸ hpre⟩
  error _ _ hr _ _ := nomatch hr

/-- A reader that ends in a fault. -/
theorem failed {r : Reader α} {view : α → List BraceNode} (h : ∀ s, ∃ fault, r L s = .error fault s) :
    Evenly setting doc scope L p pre r view where
  grows s := by
    obtain ⟨fault, heq⟩ := h s
    rw [heq]
    exact .refl s
  ok {s _ _} _ _ hr _ := by
    obtain ⟨fault, heq⟩ := h s
    rw [heq] at hr
    cases hr
  error {s _ _} _ _ hr _ _ := by
    obtain ⟨fault, heq⟩ := h s
    rw [heq] at hr
    cases hr
    exact Scope.fails (.refl _)

theorem throw {fault : Fault} {view : α → List BraceNode} :
    Evenly setting doc scope L p pre (throw fault : Reader α) view :=
  failed fun _ => ⟨_, rfl⟩

theorem failUnexpected {view : α → List BraceNode} (wanted : Wanted) :
    Evenly setting doc scope L p pre (Reader.failUnexpected wanted) view :=
  failed fun _ => ⟨_, rfl⟩

theorem failAdvised {view : α → List BraceNode} (wanted : Wanted) (advice : Advice) :
    Evenly setting doc scope L p pre (Reader.failAdvised wanted advice) view :=
  failed fun _ => ⟨_, rfl⟩

theorem throwThen (fault : Fault) {k : α → Reader β} {view : β → List BraceNode} :
    Evenly setting doc scope L p pre (MonadExcept.throw fault >>= k) view :=
  failed fun _ => ⟨_, rfl⟩

theorem failThen (wanted : Wanted) {k : α → Reader β} {view : β → List BraceNode} :
    Evenly setting doc scope L p pre (Reader.failUnexpected wanted >>= k) view :=
  failed fun _ => ⟨_, rfl⟩

theorem failAdvisedThen (wanted : Wanted) (advice : Advice) {k : α → Reader β} {view : β → List BraceNode} :
    Evenly setting doc scope L p pre (Reader.failAdvised wanted advice >>= k) view :=
  failed fun _ => ⟨_, rfl⟩

/-- A step whose result holds `mid`, read before, and what follows a result that it can give,
where it ends. -/
theorem extendOf {q : α → Cursor → Prop} {r : Reader α} {k : α → Reader β} {mid : List BraceNode}
    {first : α → List BraceNode} {view : β → List BraceNode} (h : Evenly setting doc scope L p mid r first)
    (hq : ∀ {s a t}, p s.cursor → Stands doc s.cursor.rest → r L s = .ok a t → q a t.cursor)
    (h' : ∀ a s t, r L s = .ok a t → Evenly setting doc scope L (q a) (pre ++ first a) (k a) view) :
    Evenly setting doc scope L p (pre ++ mid) (r >>= k) view where
  grows s := by
    rw [bind_apply]
    have hgrows := h.grows s
    cases hfirst : r L s with
    | error fault t =>
      rw [hfirst] at hgrows
      exact hgrows
    | ok a t =>
      rw [hfirst] at hgrows
      exact hgrows.trans ((h' a s t hfirst).grows t)
  ok {s b u} hp hs hr hu := by
    obtain ⟨a, t, hfirst, hk⟩ := ok_of_bind hr
    have hnext := h' a s t hfirst
    have hgrows := h.grows s
    rw [hfirst] at hgrows
    have hgrows' := hnext.grows t
    rw [hk] at hgrows'
    obtain ⟨hpass, hfit⟩ := h.ok hp hs hfirst (hgrows'.calm hu)
    obtain ⟨hpass', hfit'⟩ := hnext.ok (hq hp hs hfirst) (hgrows.stands hs) hk hu
    refine ⟨hpass.trans hpass', fun hpre => hfit' ?_⟩
    obtain ⟨hleft, hright⟩ := List.forall_mem_append.1 hpre
    exact AllFit.append hleft (hfit hright)
  error {s fault u} hp hs hr hu hmild := by
    rw [bind_apply] at hr
    cases hfirst : r L s with
    | error fault' t =>
      rw [hfirst] at hr
      cases hr
      exact h.error hp hs hfirst hu hmild
    | ok a t =>
      rw [hfirst, Ending.andThen_ok] at hr
      have hnext := h' a s t hfirst
      have hgrows := h.grows s
      rw [hfirst] at hgrows
      have hgrows' := hnext.grows t
      rw [hr] at hgrows'
      obtain ⟨hpass, -⟩ := h.ok hp hs hfirst (hgrows'.calm hu)
      exact hpass.fails (hnext.error (hq hp hs hfirst) (hgrows.stands hs) hr hu hmild)

theorem extend {r : Reader α} {k : α → Reader β} {mid : List BraceNode} {first : α → List BraceNode}
    {view : β → List BraceNode} (h : Evenly setting doc scope L p mid r first)
    (h' : ∀ a, Evenly setting doc scope L (fun _ => True) (pre ++ first a) (k a) view) :
    Evenly setting doc scope L p (pre ++ mid) (r >>= k) view :=
  h.extendOf (fun _ _ _ => trivial) fun a _ _ _ => h' a

theorem bindTo {q : α → Cursor → Prop} {r : Reader α} {k : α → Reader β} {first : α → List BraceNode}
    {view : β → List BraceNode} (h : Evenly setting doc scope L p [] r first)
    (hq : ∀ {s a t}, p s.cursor → Stands doc s.cursor.rest → r L s = .ok a t → q a t.cursor)
    (h' : ∀ a, Evenly setting doc scope L (q a) (pre ++ first a) (k a) view) :
    Evenly setting doc scope L p pre (r >>= k) view := by
  simpa using h.extendOf hq fun a _ _ _ => h' a

theorem bind {r : Reader α} {k : α → Reader β} {first : α → List BraceNode} {view : β → List BraceNode}
    (h : Evenly setting doc scope L p [] r first)
    (h' : ∀ a, Evenly setting doc scope L (fun _ => True) (pre ++ first a) (k a) view) :
    Evenly setting doc scope L p pre (r >>= k) view :=
  h.bindTo (fun _ _ _ => trivial) h'

/-- A step without nodes, and what follows. -/
theorem next {r : Reader α} {k : α → Reader β} {view : β → List BraceNode}
    (h : Evenly setting doc scope L p [] r fun _ => [])
    (h' : ∀ a, Evenly setting doc scope L (fun _ => True) pre (k a) view) :
    Evenly setting doc scope L p pre (r >>= k) view :=
  bind h fun a => by simpa using h' a

/-- A value at hand, and what follows. -/
theorem known {a : α} {k : α → Reader β} {view : β → List BraceNode} (h : Evenly setting doc scope L p pre (k a) view) :
    Evenly setting doc scope L p pre (Pure.pure a >>= k) view :=
  ⟨h.grows, h.ok, h.error⟩

/-- A look, with what it says of the cursor. -/
theorem lookAt {r : Reader α} {f : Cursor → α} (hr : ∀ s, r L s = .ok (f s.cursor) s) {k : α → Reader β}
    {view : β → List BraceNode} (h : ∀ a, Evenly setting doc scope L (fun c => p c ∧ f c = a) pre (k a) view) :
    Evenly setting doc scope L p pre (r >>= k) view where
  grows s := by
    rw [bind_apply, hr]
    exact (h _).grows s
  ok hp hs hk ht := by
    rw [bind_apply, hr] at hk
    exact (h _).ok ⟨hp, rfl⟩ hs hk ht
  error hp hs hk ht hmild := by
    rw [bind_apply, hr] at hk
    exact (h _).error ⟨hp, rfl⟩ hs hk ht hmild

/-- A look, after which the reading still stands where it stood. -/
theorem look {r : Reader α} {k : α → Reader β} {view : β → List BraceNode} (h : Looks L r)
    (h' : ∀ a, Evenly setting doc scope L p pre (k a) view) : Evenly setting doc scope L p pre (r >>= k) view where
  grows s := by
    obtain ⟨a, heq⟩ := h s
    rw [bind_apply, heq]
    exact (h' a).grows s
  ok {s _ _} hp hs hk ht := by
    obtain ⟨a, heq⟩ := h s
    rw [bind_apply, heq] at hk
    exact (h' a).ok hp hs hk ht
  error {s _ _} hp hs hk ht hmild := by
    obtain ⟨a, heq⟩ := h s
    rw [bind_apply, heq] at hk
    exact (h' a).error hp hs hk ht hmild

theorem onKind {k : Kind → Reader β} {view : β → List BraceNode}
    (h : ∀ kind, Evenly setting doc scope L (fun c => p c ∧ c.kind = kind) pre (k kind) view) :
    Evenly setting doc scope L p pre (Reader.kind >>= k) view :=
  lookAt (fun _ => rfl) h

theorem onPeek (n : Nat) {k : Kind → Reader β} {view : β → List BraceNode}
    (h : ∀ kind, Evenly setting doc scope L (fun c => p c ∧ c.peek n = kind) pre (k kind) view) :
    Evenly setting doc scope L p pre (Reader.peek n >>= k) view :=
  lookAt (fun _ => rfl) h

/-- A reader that begins at a cursor that is named. -/
theorem fixed {r : Reader α} {view : α → List BraceNode} (hgrows : ∀ s, Grows s (Ending.state (r L s)))
    (h : ∀ c, p c → Stands doc c.rest → Evenly setting doc scope L (fun c' => c' = c) pre r view) :
    Evenly setting doc scope L p pre r view where
  grows := hgrows
  ok hp hs := (h _ hp hs).ok rfl hs
  error hp hs := (h _ hp hs).error rfl hs

theorem mono {q : Cursor → Prop} {r : Reader α} {view : α → List BraceNode}
    (h : Evenly setting doc scope L q pre r view) (hpq : ∀ c, p c → q c) : Evenly setting doc scope L p pre r view :=
  ⟨h.grows, fun hp => h.ok (hpq _ hp), fun hp => h.error (hpq _ hp)⟩

/-- What is so in a block is so elsewhere. -/
theorem widen {r : Reader α} {view : α → List BraceNode} (h : Evenly setting doc .nested L p pre r view) :
    Evenly setting doc scope L p pre r view where
  grows := h.grows
  ok hp hs hr ht := ⟨Scope.passes (h.ok hp hs hr ht).1, (h.ok hp hs hr ht).2⟩
  error hp hs hr ht hmild := Scope.fails (h.error hp hs hr ht hmild)

/-- Outside of blocks nothing is said of what is consumed. -/
theorem quiet {r : Reader α} (h : Composed (fun _ => True) r) (hL : L.Grows) :
    Evenly setting doc .program L p [] r fun _ => [] :=
  ⟨fun s => h.grows inherited_true hL s trivial, fun _ _ _ _ => ⟨trivial, id⟩, fun _ _ _ _ _ => trivial⟩

theorem cast {r : Reader α} {pre' : List BraceNode} {view : α → List BraceNode}
    (h : Evenly setting doc scope L p pre' r view) (heq : pre' = pre) : Evenly setting doc scope L p pre r view :=
  heq ▸ h

theorem ofSubset {r : Reader α} {pre' : List BraceNode} {view : α → List BraceNode}
    (h : Evenly setting doc scope L p pre' r view) (hsub : pre' ⊆ pre) : Evenly setting doc scope L p pre r view where
  grows := h.grows
  ok hp hs hr ht := ⟨(h.ok hp hs hr ht).1, fun hpre => (h.ok hp hs hr ht).2 fun node hmem => hpre node (hsub hmem)⟩
  error := h.error

theorem ite {c : Prop} [Decidable c] {r r' : Reader α} {view : α → List BraceNode}
    (h : Evenly setting doc scope L p pre r view) (h' : Evenly setting doc scope L p pre r' view) :
    Evenly setting doc scope L p pre (if c then r else r') view := by
  split
  · exact h
  · exact h'

/-- Two ways to go on, by the mark at the cursor. -/
theorem ifMark (m : Mark) {r r' : Reader α} {view : α → List BraceNode}
    (h : Evenly setting doc scope L (fun c => p c ∧ c.kind = .mark m) pre r view)
    (h' : Evenly setting doc scope L (fun c => p c ∧ c.kind.isMark m = false) pre r' view) :
    Evenly setting doc scope L p pre (do if ← Reader.atMark m then r else r') view := by
  refine lookAt (f := fun c => c.kind.isMark m) (fun _ => rfl) fun found => ?_
  cases found with
  | true => exact h.mono fun c hc => ⟨hc.1, eq_of_isMark hc.2⟩
  | false => exact h'

/-- Two ways to a value that is then used. -/
theorem iteBind {c : Prop} [Decidable c] {r r' : Reader α} {k : α → Reader β} {v : α → List BraceNode}
    {view : β → List BraceNode} (h : Evenly setting doc scope L p [] r v) (h' : Evenly setting doc scope L p [] r' v)
    (next : ∀ a, Evenly setting doc scope L (fun _ => True) (pre ++ v a) (k a) view) :
    Evenly setting doc scope L p pre (if c then r >>= k else r' >>= k) view :=
  .ite (.bind h next) (.bind h' next)

theorem map {r : Reader α} (f : α → β) {first : α → List BraceNode} {view : β → List BraceNode}
    (h : Evenly setting doc scope L p [] r first) (heq : ∀ a, view (f a) = pre ++ first a) :
    Evenly setting doc scope L p pre (f <$> r) view :=
  .bind h fun a => .pure (heq a)

/-! ## Consuming -/

theorem advance (h : ∀ c, p c → scope.Allows c.kind = true) :
    Evenly setting doc scope L p [] Reader.advance fun _ => [] where
  grows s := .skip s 1
  ok hp _ hr _ := by
    cases hr
    exact ⟨.advance (h _ hp), id⟩
  error _ _ hr _ _ := nomatch hr

/-- A token of a kind that is known. -/
theorem advanceAt {kind : Kind} (h : ∀ c, p c → c.kind = kind) (hk : kind.isBrace = false) :
    Evenly setting doc scope L p [] Reader.advance fun _ => [] :=
  .advance fun c hp => by rw [h c hp]; exact Scope.allows_of_not_isBrace hk

/-- Two tokens of kinds that are known. -/
theorem skipTwo (h : ∀ c, p c → c.kind.isBrace = false ∧ c.kind.isDone = false ∧ (c.peek 1).isBrace = false) :
    Evenly setting doc scope L p [] (JuiceSyntax.skip 2) fun _ => [] where
  grows s := .skip s 2
  ok {s _ _} hp _ hr _ := by
    cases hr
    obtain ⟨hfirst, hmid, hsecond⟩ := h _ hp
    have hkind : s.cursor.advance.kind.isBrace = false := by rwa [Cursor.kind_advance hmid]
    exact ⟨Scope.passes ((Even.advance hfirst).trans (Even.advance hkind)), id⟩
  error _ _ hr _ _ := nomatch hr

/-- What is consumed on sight. -/
theorem takeIf {f : Kind → Bool} (h : ∀ kind, f kind = true → scope.Allows kind = true) :
    Evenly setting doc scope L p [] (do
      if f (← Reader.kind) then
        let _ ← Reader.advance
        return true
      else
        return false) fun _ => [] := by
  refine .onKind fun kind => ?_
  split
  · rename_i hfound
    exact .next (.advance fun c hc => by rw [hc.2]; exact h kind hfound) fun _ => .pure rfl
  · exact .pure rfl

theorem takeMark (m : Mark) (h : scope.Allows (.mark m) = true) :
    Evenly setting doc scope L p [] (Reader.takeMark m) fun _ => [] :=
  takeIf (f := fun kind => kind.isMark m) fun kind hm => by rw [eq_of_isMark hm, h]

theorem takeWord (w : Keyword) : Evenly setting doc scope L p [] (Reader.takeWord w) fun _ => [] :=
  takeIf (f := fun kind => kind.isWord w) fun kind hw => by
    rw [eq_of_isWord hw]
    exact Scope.allows_of_not_isBrace rfl

theorem needIf {f : Kind → Bool} {cause : Kind → Cause} (h : ∀ kind, f kind = true → scope.Allows kind = true) :
    Evenly setting doc scope L p [] (do
      if f (← Reader.kind) then
        return (← Reader.advance).span
      else
        MonadExcept.throw (.ofCause (← Reader.here) (cause (← Reader.kind)))) fun _ => [] := by
  refine .onKind fun kind => ?_
  split
  · rename_i hfound
    exact .next (.advance fun c hc => by rw [hc.2]; exact h kind hfound) fun _ => .pure rfl
  · exact .look .here fun _ => .look .kind fun _ => .throw

theorem needMark (m : Mark) (h : scope.Allows (.mark m) = true) :
    Evenly setting doc scope L p [] (Reader.needMark m) fun _ => [] :=
  needIf (f := fun kind => kind.isMark m) fun kind hm => by rw [eq_of_isMark hm, h]

theorem needWord (w : Keyword) : Evenly setting doc scope L p [] (Reader.needWord w) fun _ => [] :=
  needIf (f := fun kind => kind.isWord w) fun kind hw => by
    rw [eq_of_isWord hw]
    exact Scope.allows_of_not_isBrace rfl

theorem record {fault : Fault} : Evenly setting doc scope L p [] (Reader.record fault) fun _ => [] where
  grows s := by
    rw [record_apply]
    exact .withFault L.options fault s
  ok {s _ _} _ _ hr _ := by
    rw [record_apply] at hr
    cases hr
    rw [cursor_withFault]
    exact ⟨Scope.passes (.refl _), id⟩
  error _ _ hr _ _ := by
    rw [record_apply] at hr
    cases hr

/-! ## Attempts -/

/-- What is given up consumes nothing, and what a speculation fails with is fatal. -/
theorem speculated {r : Reader α} {view : α → List BraceNode} (h : Evenly setting doc .tentative L p [] r view)
    {s t : State} {found : Option α} (hp : p s.cursor) (hs : Stands doc s.cursor.rest)
    (hr : JuiceSyntax.speculated s (r L s) = .ok found t) (ht : t.Calm) :
    Even s.cursor t.cursor ∧ AllFit setting doc (found.elim [] view) ∧ (found = none → t.cursor = s.cursor) := by
  obtain ⟨fault, -, h'⟩ | ⟨a, t', hread, -, h'⟩ | h' := speculated_cases s (r L s)
  · rw [h'] at hr
    cases hr
  · rw [h'] at hr
    cases hr
    obtain ⟨heven, hfit⟩ := h.ok hp hs hread ht
    exact ⟨heven, hfit allFit_nil, nofun⟩
  · rw [h', rewind_eq (h.grows s)] at hr
    cases hr
    exact ⟨.refl _, allFit_nil, fun _ => rfl⟩

theorem speculate {r : Reader α} {view : α → List BraceNode} (h : Evenly setting doc .tentative L p [] r view) :
    Evenly setting doc scope L p [] (JuiceSyntax.speculate r) fun found => found.elim [] view where
  grows s := by
    rw [speculate_apply]
    exact (grows_steady inherited_true L.options).speculated (h.grows s)
  ok hp hs hr ht := by
    rw [speculate_apply] at hr
    obtain ⟨heven, hfit, -⟩ := h.speculated hp hs hr ht
    exact ⟨Scope.passes heven, fun _ => hfit⟩
  error {s fault t} _ _ hr _ hmild := by
    rw [speculate_apply] at hr
    obtain ⟨fault', hfatal, h'⟩ | ⟨a, t', -, -, h'⟩ | h' := speculated_cases s (r L s)
    · rw [h'] at hr
      cases hr
      exact absurd (hfatal.symm.trans hmild) (by decide)
    · rw [h'] at hr
      cases hr
    · rw [h'] at hr
      cases hr

/-- How a brace is tried: it is not, or the try is a speculation. -/
theorem tryBrace_cases (form : BraceForm) (r : Reader Expr) (s : State) :
    Grammar.tryBrace form r L s = .ok none s ∨
      Grammar.tryBrace form r L s = noted form s.cursor.span.start (JuiceSyntax.speculated s (r L s)) := by
  rw [tryBrace_apply]
  split
  · exact .inl rfl
  · exact .inr rfl

/-- A brace tried as one form and then, at the same place, as something else. -/
theorem tryBraceElse {form : BraceForm} {r otherwise : Reader Expr}
    (h : Evenly setting doc .tentative L p [] r Expr.braces)
    (ho : Evenly setting doc scope L p [] otherwise Expr.braces) :
    Evenly setting doc scope L p [] (do
      if let some e ← Grammar.tryBrace form r then
        return e
      otherwise) Expr.braces := by
  have hcalm {t : State} {offset : Nat} (ht : (t.noteFailed offset form).Calm) : t.Calm := by
    cases form <;> exact ⟨ht.goes, ht.faults⟩
  have hcursor (t : State) (offset : Nat) : (t.noteFailed offset form).cursor = t.cursor := by
    cases form <;> rfl
  have tried : Evenly setting doc scope L p [] (Grammar.tryBrace form r) optionalExprBraces := by
    refine ⟨fun s => ?_, fun {s found t} hp hs hr ht => ?_, fun {s fault t} _ _ hr _ hmild => ?_⟩
    · obtain heq | heq := tryBrace_cases form r s (L := L)
      · rw [heq]
        exact .refl s
      · rw [heq]
        exact (grows_steady inherited_true L.options).noted form (h.grows s) trivial
    · obtain heq | heq := tryBrace_cases form r s (L := L)
      · rw [heq] at hr
        cases hr
        exact ⟨Scope.passes (.refl _), id⟩
      · rw [heq] at hr
        cases hspeculated : JuiceSyntax.speculated s (r L s) with
        | error fault u =>
          rw [hspeculated] at hr
          cases hr
        | ok found' u =>
          rw [hspeculated] at hr
          cases found' with
          | some e =>
            cases hr
            obtain ⟨heven, hfit, -⟩ := h.speculated hp hs hspeculated ht
            exact ⟨Scope.passes heven, fun _ => hfit⟩
          | none =>
            cases hr
            obtain ⟨heven, -, -⟩ := h.speculated hp hs hspeculated (hcalm ht)
            exact ⟨Scope.passes (hcursor u _ ▸ heven), fun _ => allFit_nil⟩
    · obtain heq | heq := tryBrace_cases form r s (L := L)
      · rw [heq] at hr
        cases hr
      · rw [heq] at hr
        obtain ⟨fault', hfatal, h'⟩ | ⟨a, t', -, -, h'⟩ | h' := speculated_cases s (r L s)
        · rw [h'] at hr
          cases hr
          exact absurd (hfatal.symm.trans hmild) (by decide)
        · rw [h'] at hr
          cases hr
        · rw [h'] at hr
          cases hr
  refine tried.bindTo (q := fun found c => found = none → p c) (fun {s found t} hp _ hr hnone => ?_) fun found => ?_
  · obtain heq | heq := tryBrace_cases form r s (L := L)
    · rw [heq] at hr
      cases hr
      exact hp
    · rw [heq] at hr
      obtain ⟨fault', -, h'⟩ | ⟨a, t', -, -, h'⟩ | h' := speculated_cases s (r L s)
      · rw [h'] at hr
        cases hr
      · rw [h'] at hr
        cases hr
        cases hnone
      · rw [h'] at hr
        cases hr
        rw [hcursor, rewind_eq (h.grows s)]
        exact hp
  · cases found with
    | some e => exact .pure rfl
    | none => exact ho.mono fun c hc => hc rfl

/-- Tokens of their own are read aside. -/
theorem withTokens {tokens : List Token} (hstands : Stands doc tokens) {r : Reader α} {view : α → List BraceNode}
    (h : Evenly setting doc .nested L (fun _ => True) [] r view) :
    Evenly setting doc scope L p [] (JuiceSyntax.withTokens tokens r) view where
  grows s := by
    rw [withTokens_apply, Ending.state_placed]
    exact (h.grows _).inTokens
  ok {s a t} _ _ hr ht := by
    rw [withTokens_apply] at hr
    cases hread : r L { s with cursor := .ofTokens tokens } with
    | error fault u =>
      rw [hread] at hr
      cases hr
    | ok a' u =>
      rw [hread] at hr
      cases hr
      exact ⟨Scope.passes (.refl _), (h.ok trivial hstands hread ⟨ht.goes, ht.faults⟩).2⟩
  error {s fault t} _ _ hr _ _ := by
    rw [withTokens_apply] at hr
    cases hread : r L { s with cursor := .ofTokens tokens } with
    | error fault' u =>
      rw [hread] at hr
      cases hr
      exact Scope.fails (.refl _)
    | ok a' u =>
      rw [hread] at hr
      cases hr

/-! ## Loops -/

theorem separatedUpTo {item : Reader α} {view : α → List BraceNode} (close : Mark)
    (hcomma : scope.Allows (.mark .comma) = true) (h : Evenly setting doc scope L (fun _ => True) [] item view)
    (fuel : Nat) :
    Evenly setting doc scope L p [] (JuiceSyntax.separatedUpTo close item fuel) fun items => items.flatMap view := by
  induction fuel generalizing p with
  | zero => exact .pure rfl
  | succ fuel ih =>
    refine .look (.atMark close) fun _ => .ite (.pure rfl) (.bind (h.mono fun _ _ => trivial) fun _ =>
      .next (.takeMark _ hcomma) fun _ => .ite ?_ ?_)
    · exact .bind ih fun _ => .pure (by simp)
    · exact .pure (by simp)

theorem separated {item : Reader α} {view : α → List BraceNode} (close : Mark)
    (h : Evenly setting doc scope L (fun _ => True) [] item view) :
    Evenly setting doc scope L p [] (JuiceSyntax.separated close item) fun items => items.flatMap view :=
  .look .tokensLeft fun _ => .separatedUpTo close (Scope.allows_of_not_isBrace rfl) h _

/-- A loop that recovers, wherever that leads. -/
theorem recoveringUpTo {item : Reader α} {view : α → List BraceNode}
    (h : Evenly setting doc .program L (fun _ => True) [] item view) (resume : Resume) (ends : Kind → Bool)
    (fuel : Nat) :
    Evenly setting doc .program L p [] (JuiceSyntax.recoveringUpTo resume ends item fuel)
      fun items => items.flatMap view := by
  have hgrows (fuel : Nat) (s : State) :=
    recoveringUpTo_steady (grows_steady inherited_true L.options) (fun s _ => h.grows s) resume ends fuel s trivial
  have fits (fuel : Nat) {s t : State} {items : List α} (hs : Stands doc s.cursor.rest)
      (hr : JuiceSyntax.recoveringUpTo resume ends item fuel L s = .ok items t) (ht : t.Calm) :
      AllFit setting doc (items.flatMap view) := by
    induction fuel generalizing s items with
    | zero =>
      cases hr
      exact allFit_nil
    | succ fuel ih =>
      have hitem := h.grows s
      obtain ⟨-, rfl, -⟩ | ⟨-, first, rest, u, hfirst, hrest, rfl⟩ | ⟨-, fault, u, hfirst, hrest⟩ :=
        recoveringUpTo_cases hr
      · exact allFit_nil
      · have hloop := hgrows fuel u
        rw [hfirst] at hitem
        rw [hrest] at hloop
        rw [List.flatMap_cons]
        exact ((h.ok trivial hs hfirst (hloop.calm ht)).2 allFit_nil).append (ih (hitem.stands hs) hrest)
      · rw [hfirst] at hitem
        exact ih ((hitem.trans (.resumed L.options s.cursor resume fault u)).stands hs) hrest
  exact ⟨hgrows fuel, fun _ hs hr ht => ⟨trivial, fun _ => fits fuel hs hr ht⟩, fun _ _ _ _ _ => trivial⟩

theorem recovering {item : Reader α} {view : α → List BraceNode}
    (h : Evenly setting doc .program L (fun _ => True) [] item view) (resume : Resume) (ends : Kind → Bool) :
    Evenly setting doc .program L p [] (JuiceSyntax.recovering resume ends item) fun items => items.flatMap view :=
  .look .tokensLeft fun _ => h.recoveringUpTo resume ends _

end Evenly

end JuiceSyntax
