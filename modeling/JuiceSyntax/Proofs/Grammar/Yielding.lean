/-
  What a reader gives, whether or not it finds faults. `Yields source L p r post`: a reader `r` that begins
  where `p` holds, among tokens of a stream of the document, gives only results for which `post` holds, and
  ends among tokens of that stream.

  A production is followed step by step: in `Yields.bind` what is known of the first result becomes a
  hypothesis of the rest. A step whose result does not matter only has to be one of those that readers are
  made of (`Yields.step`).
-/
import JuiceSyntax.Proofs.Grammar.Growth
import JuiceSyntax.Proofs.Token.Spelling

namespace JuiceSyntax

open Reader Grammar

/-! ## Tokens of a document -/

/-- The tokens are those of one of the streams of the document. -/
def Drawn (source : String) (tokens : List Token) : Prop := ∃ stream, Stream source stream ∧ tokens ⊆ stream

section

variable {source : String}

theorem Stream.drawn {stream : List Token} (h : Stream source stream) : Drawn source stream := ⟨stream, h, fun _ => id⟩

theorem inherited_drawn : Inherited (Drawn source) where
  advance {c} h := by
    obtain ⟨stream, hstream, hmem⟩ := h
    refine ⟨stream, hstream, fun token htoken => hmem ?_⟩
    rw [Cursor.rest_advance] at htoken
    split at htoken
    · exact htoken
    · exact List.mem_of_mem_tail htoken
  kind h multiline pieces hkind tokens span hpiece := by
    obtain ⟨stream, hstream, hmem⟩ := h
    exact (Stream.fragment hstream (hmem List.mem_cons_self) hkind hpiece).drawn

/-- Ahead of the cursor every token is spelled as its kind is. -/
theorem Drawn.spelled {c : Cursor} (h : Drawn source c.rest) : c.kind.Spelled := by
  unfold Cursor.kind Cursor.current
  cases hrest : c.rest with
  | nil => trivial
  | cons token rest =>
    obtain ⟨stream, hstream, hmem⟩ := h
    exact hstream.spelled token (hmem (hrest ▸ List.mem_cons_self))

/-- A token ahead that is not the end has some text. -/
theorem Drawn.wide {c : Cursor} (h : Drawn source c.rest) (hmid : c.atEnd = false) : c.span.start < c.span.stop := by
  unfold Cursor.span
  unfold Cursor.atEnd Cursor.kind at hmid
  unfold Cursor.current at hmid ⊢
  cases hrest : c.rest with
  | nil => simp [hrest, Kind.isDone] at hmid
  | cons token rest =>
    rw [hrest] at hmid h
    obtain ⟨stream, hstream, hmem⟩ := h
    obtain ⟨levels, before, text, after, hstands⟩ := hstream.stands
    have hlaid := lexAt_laid none levels (byteWidth before) text
    rw [← hstands.tokens_eq] at hlaid
    exact hlaid.wide (hmem List.mem_cons_self) hmid

end

/-! ## The judgement -/

structure Yields (source : String) (L : Level) (p : Cursor → Prop) {α : Type} (r : Reader α) (post : α → Prop) : Prop where
  yields : ∀ {s a t}, p s.cursor → Drawn source s.cursor.rest → r L s = .ok a t → Drawn source t.cursor.rest ∧ post a

variable {source : String} {L : Level} {p : Cursor → Prop} {α β : Type}

namespace Yields

/-! ## Steps -/

theorem pure {a : α} {post : α → Prop} (h : post a) : Yields source L p (Pure.pure a) post where
  yields _ hs hr := by
    cases hr
    exact ⟨hs, h⟩

theorem throw {fault : Fault} {post : α → Prop} : Yields source L p (throw fault : Reader α) post :=
  ⟨fun _ _ hr => nomatch hr⟩

theorem failUnexpected {post : α → Prop} (wanted : Wanted) : Yields source L p (Reader.failUnexpected wanted) post :=
  ⟨fun _ _ hr => nomatch hr⟩

theorem failAdvised {post : α → Prop} (wanted : Wanted) (advice : Advice) :
    Yields source L p (Reader.failAdvised wanted advice) post :=
  ⟨fun _ _ hr => nomatch hr⟩

theorem failThen (wanted : Wanted) {k : β → Reader α} {post : α → Prop} :
    Yields source L p (Reader.failUnexpected wanted >>= k) post :=
  ⟨fun _ _ hr => nomatch hr⟩

theorem failAdvisedThen (wanted : Wanted) (advice : Advice) {k : β → Reader α} {post : α → Prop} :
    Yields source L p (Reader.failAdvised wanted advice >>= k) post :=
  ⟨fun _ _ hr => nomatch hr⟩

theorem throwThen (fault : Fault) {k : β → Reader α} {post : α → Prop} :
    Yields source L p ((MonadExcept.throw fault : Reader β) >>= k) post :=
  ⟨fun _ _ hr => nomatch hr⟩

theorem bind {r : Reader α} {k : α → Reader β} {mid : α → Prop} {post : β → Prop} (h : Yields source L p r mid)
    (h' : ∀ a, mid a → Yields source L (fun _ => True) (k a) post) : Yields source L p (r >>= k) post where
  yields hp hs hr := by
    obtain ⟨a, t, hfirst, hk⟩ := ok_of_bind hr
    obtain ⟨ht, hmid⟩ := h.yields hp hs hfirst
    exact (h' a hmid).yields trivial ht hk

/-- A step whose result may be anything. -/
theorem any {r : Reader α} (h : Composed (fun _ => True) r) (hL : L.Grows) : Yields source L p r fun _ => True where
  yields {s a t} _ hs hr := by
    have hgrows := h.grows inherited_true hL s trivial
    rw [hr] at hgrows
    exact ⟨inherited_drawn.grows hgrows hs, trivial⟩

/-- Such a step, and what follows. -/
theorem step {r : Reader α} {k : α → Reader β} {post : β → Prop} (hL : L.Grows) (h : Composed (fun _ => True) r)
    (h' : ∀ a, Yields source L (fun _ => True) (k a) post) : Yields source L p (r >>= k) post :=
  .bind (.any h hL) fun a _ => h' a

/-- A value at hand, and what follows. -/
theorem known {a : α} {k : α → Reader β} {post : β → Prop} (h : Yields source L p (k a) post) :
    Yields source L p (Pure.pure a >>= k) post :=
  ⟨h.yields⟩

/-- A look, after which the reading still stands where it stood. -/
theorem look {r : Reader α} {k : α → Reader β} {post : β → Prop} (h : Looks L r)
    (h' : ∀ a, Yields source L p (k a) post) : Yields source L p (r >>= k) post where
  yields {s _ _} hp hs hr := by
    obtain ⟨a, heq⟩ := h s
    rw [bind_apply, heq] at hr
    exact (h' a).yields hp hs hr

/-- A look at the cursor, with what it says of it. -/
theorem lookAt {r : Reader α} {f : Cursor → α} (hr : ∀ s, r L s = .ok (f s.cursor) s) {k : α → Reader β} {post : β → Prop}
    (h : ∀ a, Yields source L (fun c => p c ∧ f c = a) (k a) post) : Yields source L p (r >>= k) post where
  yields {s _ _} hp hs hk := by
    rw [bind_apply, hr] at hk
    exact (h _).yields ⟨hp, rfl⟩ hs hk

theorem onKind {k : Kind → Reader β} {post : β → Prop}
    (h : ∀ kind, Yields source L (fun c => p c ∧ c.kind = kind) (k kind) post) :
    Yields source L p (Reader.kind >>= k) post :=
  lookAt (fun _ => rfl) h

theorem onCursor {k : Cursor → Reader β} {post : β → Prop} (h : ∀ c, Yields source L (fun c' => p c' ∧ c' = c) (k c) post) :
    Yields source L p (Reader.cursor >>= k) post :=
  lookAt (f := id) (fun _ => rfl) h

/-- Where a reading begins the condition holds. -/
theorem begins {r : Reader α} {post : α → Prop} (h : ∀ c, p c → Yields source L p r post) : Yields source L p r post where
  yields hp hs hr := (h _ hp).yields hp hs hr

/-- The token at the cursor is spelled as its kind is. -/
theorem spelled {kind : Kind} {r : Reader α} {post : α → Prop} (h : ∀ c, p c → c.kind = kind)
    (h' : kind.Spelled → Yields source L p r post) : Yields source L p r post where
  yields {s _ _} hp hs hr := by
    have hkind := hs.spelled
    rw [h _ hp] at hkind
    exact (h' hkind).yields hp hs hr

/-- The fragments of the string at the cursor are of streams of the document. -/
theorem drawn {kind : Kind} {r : Reader α} {post : α → Prop} (h : ∀ c, p c → c.kind = kind)
    (h' : FineKind (Drawn source) kind → Yields source L p r post) : Yields source L p r post where
  yields {s _ _} hp hs hr := by
    have hkind := inherited_drawn.current hs
    rw [h _ hp] at hkind
    exact (h' hkind).yields hp hs hr

theorem imp {r : Reader α} {post post' : α → Prop} (h : Yields source L p r post') (h' : ∀ a, post' a → post a) :
    Yields source L p r post where
  yields hp hs hr := (h.yields hp hs hr).imp_right (h' _)

theorem ite {c : Prop} [Decidable c] {r r' : Reader α} {post : α → Prop} (h : Yields source L p r post)
    (h' : Yields source L p r' post) : Yields source L p (if c then r else r') post := by
  split
  · exact h
  · exact h'

/-- Two ways to a value that is then used. -/
theorem iteBind {c : Prop} [Decidable c] {r r' : Reader α} {k : α → Reader β} {q : α → Prop} {post : β → Prop}
    (h : Yields source L p r q) (h' : Yields source L p r' q)
    (next : ∀ a, q a → Yields source L (fun _ => True) (k a) post) :
    Yields source L p (if c then r >>= k else r' >>= k) post :=
  .ite (.bind h next) (.bind h' next)

theorem map {r : Reader α} (f : α → β) {mid : α → Prop} {post : β → Prop} (h : Yields source L p r mid)
    (h' : ∀ a, mid a → post (f a)) : Yields source L p (f <$> r) post :=
  .bind h fun a hmid => .pure (h' a hmid)

/-! ## Attempts -/

theorem speculate {r : Reader α} {post : α → Prop} (hL : L.Grows) (hr : Composed (fun _ => True) r)
    (h : Yields source L p r post) :
    Yields source L p (JuiceSyntax.speculate r) fun found => ∀ a, found = some a → post a where
  yields {s found t} hp hs hread := by
    have hgrows := hr.grows inherited_true hL s trivial
    rw [speculate_apply] at hread
    obtain ⟨fault, -, heq⟩ | ⟨a, t', hkept, -, heq⟩ | heq := speculated_cases s (r L s)
    · rw [heq] at hread
      cases hread
    · rw [heq] at hread
      cases hread
      obtain ⟨ht, hpost⟩ := h.yields hp hs hkept
      refine ⟨ht, ?_⟩
      rintro _ ⟨⟩
      exact hpost
    · rw [heq, rewind_eq hgrows] at hread
      cases hread
      exact ⟨hs, fun _ hnone => nomatch hnone⟩

theorem tryBrace {form : BraceForm} {post : Expr → Prop} (hL : L.Grows) (hr : Composed (fun _ => True) form.reader)
    (h : Yields source L p form.reader post) :
    Yields source L p (Grammar.tryBrace form form.reader) fun found => ∀ e, found = some e → post e where
  yields {s found t} hp hs hread := by
    have htried {found : Option Expr} {t : State} (hread : JuiceSyntax.speculate form.reader L s = .ok found t) :=
      (Yields.speculate hL hr h).yields hp hs hread
    have hall : Yields source L p (Grammar.tryBrace form form.reader) fun _ => True := .any (.tryBrace form hr) hL
    have hafter := hall.yields hp hs hread
    refine ⟨hafter.1, ?_⟩
    rintro e rfl
    rw [tryBrace_apply] at hread
    split at hread
    · cases hread
    · cases hspeculated : speculated s (form.reader L s) with
      | error fault t' =>
        rw [hspeculated] at hread
        cases hread
      | ok found' t' =>
        rw [hspeculated] at hread
        cases found' with
        | none => cases hread
        | some e' =>
          cases hread
          exact (htried ((speculate_apply _ _ _).trans hspeculated)).2 _ rfl

/-! ## Loops -/

theorem recoveringUpTo {item : Reader α} {post : α → Prop} (hL : L.Grows) (hr : Composed (fun _ => True) item)
    (h : Yields source L (fun _ => True) item post) (resume : Resume) (ends : Kind → Bool) (fuel : Nat) :
    Yields source L p (JuiceSyntax.recoveringUpTo resume ends item fuel) fun items => ∀ a ∈ items, post a := by
  induction fuel generalizing p with
  | zero => exact .pure fun _ hmem => absurd hmem List.not_mem_nil
  | succ fuel ih =>
    refine ⟨fun {s items t} _ hs hread => ?_⟩
    rw [recoveringUpTo_succ] at hread
    split at hread
    · cases hread
      exact ⟨hs, fun _ hmem => absurd hmem List.not_mem_nil⟩
    · cases hitem : item L s with
      | error fault u =>
        have hgrows := hr.grows inherited_true hL s trivial
        rw [hitem] at hgrows hread
        have hresumed := hgrows.trans (Grows.resumed L.options s.cursor resume fault u)
        exact (ih (p := fun _ => True)).yields trivial (inherited_drawn.grows hresumed hs) hread
      | ok first u =>
        obtain ⟨hu, hfirst⟩ := h.yields trivial hs hitem
        rw [hitem] at hread
        change Ending.andThen (JuiceSyntax.recoveringUpTo resume ends item fuel L u) (fun rest => .ok (first :: rest)) =
          _ at hread
        cases hrest : JuiceSyntax.recoveringUpTo resume ends item fuel L u with
        | error fault v =>
          rw [hrest] at hread
          cases hread
        | ok rest v =>
          rw [hrest] at hread
          cases hread
          obtain ⟨hv, hitems⟩ := (ih (p := fun _ => True)).yields trivial hu hrest
          exact ⟨hv, List.forall_mem_cons.2 ⟨hfirst, hitems⟩⟩

theorem recovering {item : Reader α} {post : α → Prop} (hL : L.Grows) (hr : Composed (fun _ => True) item)
    (h : Yields source L (fun _ => True) item post) (resume : Resume) (ends : Kind → Bool) :
    Yields source L p (JuiceSyntax.recovering resume ends item) fun items => ∀ a ∈ items, post a :=
  .look .tokensLeft fun _ => h.recoveringUpTo hL hr resume ends _

theorem separatedUpTo {item : Reader α} {post : α → Prop} (hL : L.Grows) (close : Mark)
    (h : Yields source L (fun _ => True) item post) (fuel : Nat) :
    Yields source L p (JuiceSyntax.separatedUpTo close item fuel) fun items => ∀ a ∈ items, post a := by
  induction fuel generalizing p with
  | zero => exact .pure fun _ hmem => absurd hmem List.not_mem_nil
  | succ fuel ih =>
    refine .step hL (.atMark close) fun _ => .ite (.pure fun _ hmem => absurd hmem List.not_mem_nil) ?_
    refine .bind h fun first hfirst => ?_
    refine .step hL (.takeMark _) fun _ => .ite ?_ (.pure (List.forall_mem_singleton.2 hfirst))
    exact .bind ih fun rest hrest => .pure (List.forall_mem_cons.2 ⟨hfirst, hrest⟩)

theorem separated {item : Reader α} {post : α → Prop} (hL : L.Grows) (close : Mark)
    (h : Yields source L (fun _ => True) item post) :
    Yields source L p (JuiceSyntax.separated close item) fun items => ∀ a ∈ items, post a :=
  .look .tokensLeft fun _ => .separatedUpTo hL close h _

/-! ## Other token lists -/

theorem withTokens {tokens : List Token} (htokens : Drawn source tokens) {r : Reader α} {post : α → Prop}
    (h : Yields source L (fun _ => True) r post) : Yields source L p (JuiceSyntax.withTokens tokens r) post where
  yields {s a t} _ hs hread := by
    rw [withTokens_apply] at hread
    cases hr : r L { s with cursor := .ofTokens tokens } with
    | error fault u =>
      rw [hr] at hread
      cases hread
    | ok a' u =>
      rw [hr] at hread
      cases hread
      exact ⟨hs, (h.yields trivial htokens hr).2⟩

end Yields

end JuiceSyntax
