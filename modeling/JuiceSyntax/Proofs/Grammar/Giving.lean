/-
  What a reader gives, if a condition holds where it ends. The condition is one that holds at the end of a
  reading only if it held all along (`Level.Lasts`): that no fault is recorded, for one.

  `Gives cond L r post`: where a reader `r` ends with a result and `cond` holds, `cond` held where it began,
  and `post` holds of the result. A production is followed step by step: in `Gives.bind` what is known of the
  first result becomes a hypothesis of what is said of the last one.
-/
import JuiceSyntax.Proofs.Grammar.Growth

namespace JuiceSyntax

open Reader Grammar

/-- No step of a reader of the level makes the condition hold, and it does not depend on the cursor. -/
structure Level.Lasts (cond : State → Prop) (L : Level) : Prop where
  grows : L.Grows
  before : ∀ {s t}, JuiceSyntax.Grows s t → cond t → cond s
  placed : ∀ (s : State) (c : Cursor), cond s → cond { s with cursor := c }

structure Gives (cond : State → Prop) (L : Level) {α : Type} (r : Reader α) (post : α → Prop) : Prop where
  before : ∀ {s a t}, r L s = .ok a t → cond t → cond s
  gives : ∀ {s a t}, r L s = .ok a t → cond t → post a

/-- Wherever a reader ends, this holds of its result. -/
abbrev Always (L : Level) {α : Type} (r : Reader α) (post : α → Prop) : Prop := Gives (fun _ => True) L r post

variable {cond : State → Prop} {L : Level} {α β : Type}

theorem Level.Lasts.always (hL : L.Grows) : L.Lasts fun _ => True := ⟨hL, fun _ _ => trivial, fun _ _ _ => trivial⟩

/-- The condition held before any reading. -/
theorem Level.Lasts.back (hL : L.Lasts cond) {r : Reader α} (h : Composed (fun _ => True) r) {s t : State} {a : α}
    (hr : r L s = .ok a t) (ht : cond t) : cond s := by
  have hgrows := h.grows inherited_true hL.grows s trivial
  rw [hr] at hgrows
  exact hL.before hgrows ht

namespace Gives

/-! ## Steps -/

theorem pure {a : α} {post : α → Prop} (h : post a) : Gives cond L (Pure.pure a) post where
  before hr ht := by
    cases hr
    exact ht
  gives hr _ := by
    cases hr
    exact h

/-- A reader that gives no result. -/
theorem never {r : Reader α} {post : α → Prop} (h : ∀ {s a t}, r L s ≠ .ok a t) : Gives cond L r post :=
  ⟨fun hr => absurd hr h, fun hr => absurd hr h⟩

theorem throw {fault : Fault} {post : α → Prop} : Gives cond L (throw fault : Reader α) post := never nofun

theorem failUnexpected {post : α → Prop} (wanted : Wanted) : Gives cond L (Reader.failUnexpected wanted) post :=
  never nofun

theorem failAdvised {post : α → Prop} (wanted : Wanted) (advice : Advice) :
    Gives cond L (Reader.failAdvised wanted advice) post :=
  never nofun

theorem failThen (wanted : Wanted) {k : β → Reader α} {post : α → Prop} :
    Gives cond L (Reader.failUnexpected wanted >>= k) post :=
  never nofun

theorem failAdvisedThen (wanted : Wanted) (advice : Advice) {k : β → Reader α} {post : α → Prop} :
    Gives cond L (Reader.failAdvised wanted advice >>= k) post :=
  never nofun

theorem throwThen (fault : Fault) {k : β → Reader α} {post : α → Prop} :
    Gives cond L ((MonadExcept.throw fault : Reader β) >>= k) post :=
  never nofun

theorem imp {r : Reader α} {post post' : α → Prop} (h : Gives cond L r post') (h' : ∀ a, post' a → post a) :
    Gives cond L r post :=
  ⟨h.before, fun hr ht => h' _ (h.gives hr ht)⟩

theorem and {r : Reader α} {post post' : α → Prop} (h : Gives cond L r post) (h' : Gives cond L r post') :
    Gives cond L r fun a => post a ∧ post' a :=
  ⟨h.before, fun hr ht => ⟨h.gives hr ht, h'.gives hr ht⟩⟩

theorem bind {r : Reader α} {k : α → Reader β} {mid : α → Prop} {post : β → Prop} (h : Gives cond L r mid)
    (h' : ∀ a, Gives cond L (k a) fun b => mid a → post b) : Gives cond L (r >>= k) post where
  before hr ht := by
    obtain ⟨a, u, hfirst, hk⟩ := ok_of_bind hr
    exact h.before hfirst ((h' a).before hk ht)
  gives hr ht := by
    obtain ⟨a, u, hfirst, hk⟩ := ok_of_bind hr
    exact (h' a).gives hk ht (h.gives hfirst ((h' a).before hk ht))

/-- A step whose result may be anything. -/
theorem any (hL : L.Lasts cond) {r : Reader α} (h : Composed (fun _ => True) r) : Gives cond L r fun _ => True :=
  ⟨hL.back h, fun _ _ => trivial⟩

/-- Such a step, and what follows. -/
theorem step (hL : L.Lasts cond) {r : Reader α} {k : α → Reader β} {post : β → Prop} (h : Composed (fun _ => True) r)
    (h' : ∀ a, Gives cond L (k a) post) : Gives cond L (r >>= k) post :=
  .bind (.any hL h) fun a => (h' a).imp fun _ hb _ => hb

/-- Without a condition any step will do. -/
theorem after {r : Reader α} {k : α → Reader β} {post : β → Prop} (h : ∀ a, Always L (k a) post) :
    Always L (r >>= k) post where
  before _ _ := trivial
  gives hr ht := by
    obtain ⟨a, u, -, hk⟩ := ok_of_bind hr
    exact (h a).gives hk ht

/-- A step of which something is said, and what follows. -/
theorem bindOf {r : Reader α} {k : α → Reader β} {mid : α → Prop} {post : β → Prop} (h : Always L r mid)
    (h' : ∀ a, mid a → Always L (k a) post) : Always L (r >>= k) post where
  before _ _ := trivial
  gives hr ht := by
    obtain ⟨a, u, hfirst, hk⟩ := ok_of_bind hr
    exact (h' a (h.gives hfirst trivial)).gives hk ht

/-- A value at hand, and what follows. -/
theorem known {a : α} {k : α → Reader β} {post : β → Prop} (h : Gives cond L (k a) post) :
    Gives cond L (Pure.pure a >>= k) post :=
  ⟨h.before, h.gives⟩

/-- A look, and what follows. -/
theorem look {r : Reader α} {k : α → Reader β} {post : β → Prop} (h : Looks L r) (h' : ∀ a, Gives cond L (k a) post) :
    Gives cond L (r >>= k) post := by
  have hk {s u : State} {b : β} (hr : (r >>= k) L s = .ok b u) : ∃ a, k a L s = .ok b u := by
    obtain ⟨a, heq⟩ := h s
    rw [bind_apply, heq] at hr
    exact ⟨a, hr⟩
  refine ⟨fun hr ht => ?_, fun hr ht => ?_⟩
  · obtain ⟨a, ha⟩ := hk hr
    exact (h' a).before ha ht
  · obtain ⟨a, ha⟩ := hk hr
    exact (h' a).gives ha ht

theorem ite {c : Prop} [Decidable c] {r r' : Reader α} {post : α → Prop} (h : c → Gives cond L r post)
    (h' : ¬c → Gives cond L r' post) : Gives cond L (if c then r else r') post := by
  split
  · exact h ‹_›
  · exact h' ‹_›

/-- Two ways to a value that is then used. -/
theorem iteBind {c : Prop} [Decidable c] {r r' : Reader α} {k : α → Reader β} {mid : α → Prop} {post : β → Prop}
    (h : Gives cond L r mid) (h' : Gives cond L r' mid) (next : ∀ a, Gives cond L (k a) fun b => mid a → post b) :
    Gives cond L (if c then r >>= k else r' >>= k) post :=
  .ite (fun _ => .bind h next) fun _ => .bind h' next

theorem map {r : Reader α} (f : α → β) {mid : α → Prop} {post : β → Prop} (h : Gives cond L r mid)
    (h' : ∀ a, mid a → post (f a)) : Gives cond L (f <$> r) post :=
  .bind h fun a => .pure (h' a)

/-! ## Attempts -/

theorem speculated {r : Reader α} {post : α → Prop} (h : Gives cond L r post) {s t : State} {a : α}
    (hr : JuiceSyntax.speculated s (r L s) = .ok (some a) t) (ht : cond t) : post a := by
  obtain ⟨fault, -, heq⟩ | ⟨a', t', hkept, -, heq⟩ | heq := speculated_cases s (r L s)
  · rw [heq] at hr
    cases hr
  · rw [heq] at hr
    cases hr
    exact h.gives hkept ht
  · rw [heq] at hr
    cases hr

theorem speculate (hL : L.Lasts cond) {r : Reader α} {post : α → Prop} (hr : Composed (fun _ => True) r)
    (h : Gives cond L r post) : Gives cond L (JuiceSyntax.speculate r) fun found => ∀ a, found = some a → post a where
  before := hL.back (.speculate hr)
  gives {s found t} hread ht := by
    rintro a rfl
    rw [speculate_apply] at hread
    exact h.speculated hread ht

theorem tryBrace (hL : L.Lasts cond) {form : BraceForm} {post : Expr → Prop} (hr : Composed (fun _ => True) form.reader)
    (h : Gives cond L form.reader post) :
    Gives cond L (Grammar.tryBrace form form.reader) fun found => ∀ e, found = some e → post e where
  before := hL.back (.tryBrace form hr)
  gives {s found t} hread ht := by
    rintro e rfl
    rw [tryBrace_apply] at hread
    split at hread
    · cases hread
    · cases hspeculated : JuiceSyntax.speculated s (form.reader L s) with
      | error fault t' =>
        rw [hspeculated] at hread
        cases hread
      | ok found t' =>
        rw [hspeculated] at hread
        cases found with
        | none => cases hread
        | some e' =>
          cases hread
          exact h.speculated hspeculated ht

/-! ## Loops -/

theorem recovering (hL : L.Lasts cond) {item : Reader α} {post : α → Prop} (hr : Composed (fun _ => True) item)
    (h : Gives cond L item post) (resume : Resume) (ends : Kind → Bool) :
    Gives cond L (JuiceSyntax.recovering resume ends item) fun items => ∀ a ∈ items, post a where
  before := hL.back (.recovering resume ends hr)
  gives {s items t} hread ht := by
    have hsteady := recoveringUpTo_steady (grows_steady inherited_true L.options)
      (fun s _ => hr.grows inherited_true hL.grows s trivial) resume ends
    rw [recovering_apply] at hread
    generalize s.cursor.left = fuel at hread
    induction fuel generalizing s items with
    | zero =>
      cases hread
      exact List.forall_mem_nil _
    | succ fuel ih =>
      rw [recoveringUpTo_succ] at hread
      split at hread
      · cases hread
        exact List.forall_mem_nil _
      cases hitem : item L s with
      | error fault u =>
        rw [hitem] at hread
        exact ih hread
      | ok first u =>
        rw [hitem] at hread
        change Ending.andThen (recoveringUpTo resume ends item fuel L u) (fun rest => .ok (first :: rest)) = _ at hread
        have hgrows := hsteady fuel u trivial
        cases hrest : recoveringUpTo resume ends item fuel L u with
        | error fault v =>
          rw [hrest] at hread
          cases hread
        | ok rest v =>
          rw [hrest] at hread hgrows
          cases hread
          exact List.forall_mem_cons.2 ⟨h.gives hitem (hL.before hgrows ht), ih hrest⟩

theorem separatedUpTo (hL : L.Lasts cond) {item : Reader α} {post : α → Prop} (close : Mark) (h : Gives cond L item post)
    (fuel : Nat) : Gives cond L (JuiceSyntax.separatedUpTo close item fuel) fun items => ∀ a ∈ items, post a := by
  induction fuel with
  | zero => exact .pure (List.forall_mem_nil _)
  | succ fuel ih =>
    refine .step hL (.atMark close) fun _ => .ite (fun _ => .pure (List.forall_mem_nil _)) fun _ => .bind h fun first => ?_
    refine .step hL (.takeMark _) fun _ => .ite (fun _ => ?_) fun _ => .pure List.forall_mem_singleton.2
    exact .bind ih fun rest => .pure fun hrest hfirst => List.forall_mem_cons.2 ⟨hfirst, hrest⟩

theorem separated (hL : L.Lasts cond) {item : Reader α} {post : α → Prop} (close : Mark) (h : Gives cond L item post) :
    Gives cond L (JuiceSyntax.separated close item) fun items => ∀ a ∈ items, post a :=
  .look .tokensLeft fun _ => .separatedUpTo hL close h _

/-! ## Other token lists -/

theorem withTokens (hL : L.Lasts cond) {tokens : List Token} {r : Reader α} {post : α → Prop} (h : Gives cond L r post) :
    Gives cond L (JuiceSyntax.withTokens tokens r) post := by
  have inner {s t : State} {a : α} (hread : JuiceSyntax.withTokens tokens r L s = .ok a t) (ht : cond t) :
      ∃ u, r L { s with cursor := .ofTokens tokens } = .ok a u ∧ cond u := by
    rw [withTokens_apply] at hread
    cases hr : r L { s with cursor := .ofTokens tokens } with
    | error fault u =>
      rw [hr] at hread
      cases hread
    | ok a' u =>
      rw [hr] at hread
      cases hread
      exact ⟨u, rfl, hL.placed { u with cursor := s.cursor } u.cursor ht⟩
  refine ⟨fun {s a t} hread ht => ?_, fun hread ht => ?_⟩
  · obtain ⟨u, hr, hu⟩ := inner hread ht
    have hs : cond { s with cursor := .ofTokens tokens } := h.before hr hu
    exact hL.placed { s with cursor := .ofTokens tokens } s.cursor hs
  · obtain ⟨u, hr, hu⟩ := inner hread ht
    exact h.gives hr hu

end Gives

end JuiceSyntax
