/-
  What a reading makes of the tokens it consumes, whether or not it finds faults. `Covers L p pre r post`:
  a reader `r` that begins where `p` holds, after the tokens `pre`, and closes the braces gives a result for
  which `post` holds, with the tokens from the start of `pre` to where `r` ends. Only a block that the end of
  the tokens closes goes further than what is consumed (`State.BracesClosed`). What a speculation gave up
  does not count, since the cursor goes back with it.

  A production is followed step by step: in `Covers.bind` what is known of the first result becomes a
  hypothesis of the rest, with the range of tokens that the first step consumed.
-/
import JuiceSyntax.Proofs.Grammar.Fitting
import JuiceSyntax.Proofs.Grammar.Leaves

namespace JuiceSyntax

open Reader Grammar

/-! ## Open braces -/

/-- The end of the tokens stands where a brace should close. -/
def Fault.isOpenBrace (fault : Fault) : Bool :=
  match fault.cause with
  | .missing (.mark .rBrace) .done none => true
  | _ => false

/-- No fault is recorded that says that a brace is open at the end. -/
def State.BracesClosed (s : State) : Prop := ∀ fault ∈ s.faults, fault.isOpenBrace = false

theorem Grows.bracesClosed {s t : State} (h : Grows s t) (ht : t.BracesClosed) : s.BracesClosed :=
  fun fault hmem => ht fault (h.faults.subset hmem)

theorem bracesClosed_of_composed {L : Level} {α : Type} {r : Reader α} (hr : Composed (fun _ => True) r) (hL : L.Grows)
    {s t : State} {a : α} (hread : r L s = .ok a t) (ht : t.BracesClosed) : s.BracesClosed := by
  have hgrows := hr.grows inherited_true hL s trivial
  rw [hread] at hgrows
  exact hgrows.bracesClosed ht

/-- Unless nothing more is recorded, an open brace shows. -/
theorem not_bracesClosed_withFault (options : Options) {fault : Fault} (h : fault.isOpenBrace = true) {s : State}
    (hs : s.halted = false) : ¬(s.withFault options fault).BracesClosed := by
  have hmem : fault ∈ (s.withFault options fault).faults := by
    obtain ⟨h, -⟩ | ⟨-, -, h⟩ | ⟨-, -, -, -, h⟩ | ⟨-, -, -, -, h⟩ := withFault_cases options fault s
    · exact absurd (hs.symm.trans h) (by decide)
    all_goals
      rw [h]
      simp
  exact fun hclosed => absurd ((hclosed fault hmem).symm.trans h) (by decide)

/-! ## Tokens behind the cursor -/

/-- These tokens are the last ones consumed, and lie with those ahead in one list. -/
structure Behind (pre : List Token) (c : Cursor) : Prop where
  laid : ∃ lo hi, Laid lo (pre ++ c.rest) hi
  undone : Undone pre
  last : ∀ token, pre.getLast? = some token → c.last = some token.span

namespace Behind

variable {pre range : List Token} {c d : Cursor}

theorem ofTokens {tokens : List Token} (h : ∃ lo hi, Laid lo tokens hi) : Behind [] (.ofTokens tokens) :=
  ⟨h, fun _ ht => absurd ht List.not_mem_nil, fun _ ht => absurd ht (Option.not_mem_none _)⟩

/-- The end of the tokens is ahead. -/
theorem split (h : Behind pre c) : ∃ body last, c.rest = body ++ [last] ∧ last.kind.isDone = true ∧ Undone body ∧
    Ranged (pre ++ body) := by
  obtain ⟨lo, hi, hlaid⟩ := h.laid
  obtain ⟨body, last, heq, hdone, hundone, hranged, -⟩ := hlaid.ranged
  obtain ⟨more, rfl, hrest⟩ | ⟨more, hpre, hlast⟩ := List.append_eq_append_iff.1 heq
  · exact ⟨more, last, hrest, hdone, fun t ht => hundone t (List.mem_append_right _ ht), hranged⟩
  · cases more with
    | nil =>
      rw [List.append_nil] at hpre
      subst hpre
      exact ⟨[], last, hlast.symm, hdone, fun _ ht => absurd ht List.not_mem_nil, by rwa [List.append_nil]⟩
    | cons other more =>
      obtain ⟨rfl, -⟩ := List.cons.inj hlast
      have hmid := h.undone last (hpre ▸ List.mem_append_right _ List.mem_cons_self)
      exact absurd (hdone.symm.trans hmid) (by decide)

theorem ranged (h : Behind pre c) : Ranged pre := by
  obtain ⟨body, -, -, -, -, hranged⟩ := h.split
  exact hranged.sublist (List.sublist_append_left _ _)

theorem rest_ne_nil (h : Behind pre c) : c.rest ≠ [] := by
  obtain ⟨body, last, hrest, -⟩ := h.split
  rw [hrest]
  exact List.append_ne_nil_of_right_ne_nil _ (List.cons_ne_nil _ _)

/-- At the end it alone is ahead. -/
theorem atEnd (h : Behind pre c) (hend : c.atEnd = true) : ∃ last, c.rest = [last] := by
  obtain ⟨body, last, hrest, -, hundone, -⟩ := h.split
  cases body with
  | nil => exact ⟨last, hrest⟩
  | cons token body =>
    have hmid := hundone token List.mem_cons_self
    rw [Cursor.atEnd, Cursor.kind_of_rest hrest] at hend
    exact absurd (hend.symm.trans hmid) (by decide)

/-- The last of the tokens alone. -/
theorem drop {front : List Token} (h : Behind (front ++ pre) c) : Behind pre c := by
  refine ⟨?_, fun t ht => h.undone t (List.mem_append_right _ ht), fun token htoken => h.last token ?_⟩
  · obtain ⟨lo, hi, hlaid⟩ := h.laid
    cases hrest : pre ++ c.rest with
    | nil => exact absurd (List.append_eq_nil_iff.1 hrest).2 h.rest_ne_nil
    | cons token rest =>
      rw [List.append_assoc, hrest] at hlaid
      exact ⟨lo, hi, hlaid.of_append.1⟩
  · rw [List.getLast?_append, htoken]
    rfl

/-- Where a part of a reading begins nothing is behind. -/
theorem start (h : Behind pre c) : Behind [] c := by
  rw [← List.append_nil pre] at h
  exact h.drop

theorem passes (h : Behind pre c) (hpasses : c.Passes range d) : Behind (pre ++ range) d := by
  refine ⟨?_, fun t ht => ?_, fun token htoken => ?_⟩
  · obtain ⟨lo, hi, hlaid⟩ := h.laid
    rw [hpasses.rest, ← List.append_assoc] at hlaid
    exact ⟨lo, hi, hlaid⟩
  · obtain ht | ht := List.mem_append.1 ht
    · exact h.undone t ht
    · exact hpasses.undone t ht
  · rw [hpasses.last]
    rw [List.getLast?_append] at htoken
    cases hlast : range.getLast? with
    | none =>
      rw [hlast, Option.none_or] at htoken
      exact h.last token htoken
    | some other =>
      rw [hlast, Option.some_or] at htoken
      cases htoken
      rfl

/-- The strings ahead have fragments that lie in them. -/
theorem fineKind (h : Behind pre c) : FineKind (fun tokens => ∃ lo hi, Laid lo tokens hi) c.kind := by
  obtain ⟨lo, hi, hlaid⟩ := h.start.laid
  rw [List.nil_append] at hlaid
  intro multiline pieces hkind tokens span hmem
  cases hrest : c.rest with
  | nil => exact absurd hrest h.rest_ne_nil
  | cons token rest =>
    rw [hrest] at hlaid
    rw [Cursor.kind_of_rest hrest] at hkind
    exact ⟨_, _, hlaid.kind multiline pieces hkind tokens span hmem⟩

end Behind

namespace Cursor.Passes

variable {c d e : Cursor} {range range' : List Token}

theorem trans (h : c.Passes range d) (h' : d.Passes range' e) : c.Passes (range ++ range') e := by
  refine ⟨by rw [h.rest, h'.rest, List.append_assoc], fun t ht => ?_, ?_⟩
  · obtain ht | ht := List.mem_append.1 ht
    · exact h.undone t ht
    · exact h'.undone t ht
  · rw [h'.last, h.last, List.getLast?_append]
    cases range'.getLast? <;> rfl

/-- The current token. -/
theorem one (mid : c.atEnd = false) : c.Passes [c.current] c.advance := .cons mid (.refl _)

end Cursor.Passes

/-! ## The judgement -/

structure Covers (L : Level) (p : Cursor → Prop) (pre : List Token) {α : Type} (r : Reader α)
    (post : List Token → α → Prop) : Prop where
  closed : ∀ {s a t}, r L s = .ok a t → t.BracesClosed → s.BracesClosed
  covers : ∀ {s a t}, p s.cursor → Behind pre s.cursor → r L s = .ok a t → t.BracesClosed →
    ∃ range, s.cursor.Passes range t.cursor ∧ post (pre ++ range) a

/-- The result is a node of all that is consumed. -/
abbrev Makes (L : Level) (p : Cursor → Prop) {α : Type} (r : Reader α) (frame : α → Frame) : Prop :=
  Covers L p [] r fun range a => Whole range (frame a)

variable {L : Level} {p : Cursor → Prop} {pre : List Token} {α β : Type}

namespace Covers

/-! ## Steps -/

theorem pure {a : α} {post : List Token → α → Prop} (h : Ranged pre → post pre a) : Covers L p pre (Pure.pure a) post where
  closed hr ht := by
    cases hr
    exact ht
  covers _ hb hr _ := by
    cases hr
    exact ⟨[], .refl _, by rw [List.append_nil]; exact h hb.ranged⟩

theorem never {r : Reader α} {post : List Token → α → Prop} (h : ∀ s a t, r L s = .ok a t → ¬t.BracesClosed) :
    Covers L p pre r post where
  closed hr ht := absurd ht (h _ _ _ hr)
  covers _ _ hr ht := absurd ht (h _ _ _ hr)

theorem throw {fault : Fault} {post : List Token → α → Prop} : Covers L p pre (throw fault : Reader α) post :=
  never fun _ _ _ hr => nomatch hr

theorem failUnexpected {post : List Token → α → Prop} (wanted : Wanted) :
    Covers L p pre (Reader.failUnexpected wanted) post :=
  never fun _ _ _ hr => nomatch hr

theorem failAdvised {post : List Token → α → Prop} (wanted : Wanted) (advice : Advice) :
    Covers L p pre (Reader.failAdvised wanted advice) post :=
  never fun _ _ _ hr => nomatch hr

theorem failThen (wanted : Wanted) {k : β → Reader α} {post : List Token → α → Prop} :
    Covers L p pre (Reader.failUnexpected wanted >>= k) post :=
  never fun _ _ _ hr => nomatch hr

theorem failAdvisedThen (wanted : Wanted) (advice : Advice) {k : β → Reader α} {post : List Token → α → Prop} :
    Covers L p pre (Reader.failAdvised wanted advice >>= k) post :=
  never fun _ _ _ hr => nomatch hr

theorem throwThen (fault : Fault) {k : β → Reader α} {post : List Token → α → Prop} :
    Covers L p pre ((MonadExcept.throw fault : Reader β) >>= k) post :=
  never fun _ _ _ hr => nomatch hr

/-- A step that goes on from the last of the tokens, and what follows a result that it can give,
where it ends. -/
theorem extendOf {back : List Token} {q : α → Cursor → Prop} {r : Reader α} {k : α → Reader β}
    {mid : List Token → α → Prop} {post : List Token → β → Prop} (h : Covers L p back r mid)
    (hq : ∀ {s a t}, p s.cursor → r L s = .ok a t → q a t.cursor)
    (h' : ∀ range a s t, r L s = .ok a t → Covers L (q a) (pre ++ (back ++ range)) (k a) fun tokens b =>
      mid (back ++ range) a → post tokens b) : Covers L p (pre ++ back) (r >>= k) post where
  closed hr hu := by
    obtain ⟨a, t, hfirst, hk⟩ := ok_of_bind hr
    exact h.closed hfirst ((h' [] a _ t hfirst).closed hk hu)
  covers hp hb hr hu := by
    obtain ⟨a, t, hfirst, hk⟩ := ok_of_bind hr
    obtain ⟨range, hpasses, hmid⟩ := h.covers hp hb.drop hfirst ((h' [] a _ t hfirst).closed hk hu)
    have hbehind := hb.passes hpasses
    rw [List.append_assoc] at hbehind
    obtain ⟨range', hpasses', hpost⟩ := (h' range a _ t hfirst).covers (hq hp hfirst) hbehind hk hu
    refine ⟨range ++ range', hpasses.trans hpasses', ?_⟩
    simp only [List.append_assoc] at hpost ⊢
    exact hpost hmid

theorem extend {back : List Token} {r : Reader α} {k : α → Reader β} {mid : List Token → α → Prop}
    {post : List Token → β → Prop} (h : Covers L p back r mid)
    (h' : ∀ range a, Covers L (fun _ => True) (pre ++ (back ++ range)) (k a) fun tokens b =>
      mid (back ++ range) a → post tokens b) : Covers L p (pre ++ back) (r >>= k) post :=
  h.extendOf (fun _ _ => trivial) fun range a _ _ _ => h' range a

/-- A step, and what follows a result that it can give. -/
theorem bindOf {r : Reader α} {k : α → Reader β} {mid : List Token → α → Prop} {post : List Token → β → Prop}
    (h : Covers L p [] r mid)
    (h' : ∀ range a s t, r L s = .ok a t → Covers L (fun _ => True) (pre ++ range) (k a) fun tokens b =>
      mid range a → post tokens b) : Covers L p pre (r >>= k) post := by
  have hextend : Covers L p (pre ++ []) (r >>= k) post := h.extendOf (q := fun _ _ => True) (fun _ _ => trivial) h'
  rwa [List.append_nil] at hextend

/-- A step, and what follows where it ends. -/
theorem bindTo {q : α → Cursor → Prop} {r : Reader α} {k : α → Reader β} {mid : List Token → α → Prop}
    {post : List Token → β → Prop} (h : Covers L p [] r mid)
    (hq : ∀ {s a t}, p s.cursor → r L s = .ok a t → q a t.cursor)
    (h' : ∀ range a, Covers L (q a) (pre ++ range) (k a) fun tokens b => mid range a → post tokens b) :
    Covers L p pre (r >>= k) post := by
  have hextend : Covers L p (pre ++ []) (r >>= k) post := h.extendOf hq fun range a _ _ _ => h' range a
  rwa [List.append_nil] at hextend

theorem bind {r : Reader α} {k : α → Reader β} {m : List Token → α → Prop} {post : List Token → β → Prop}
    (h : Covers L p [] r m)
    (h' : ∀ range a, Covers L (fun _ => True) (pre ++ range) (k a) fun tokens b => m range a → post tokens b) :
    Covers L p pre (r >>= k) post :=
  h.bindTo (fun _ _ => trivial) h'

/-- A value at hand, and what follows. -/
theorem known {a : α} {k : α → Reader β} {post : List Token → β → Prop} (h : Covers L p pre (k a) post) :
    Covers L p pre (Pure.pure a >>= k) post :=
  ⟨h.closed, h.covers⟩

/-- A look, after which the reading still stands where it stood. -/
theorem look {r : Reader α} {k : α → Reader β} {post : List Token → β → Prop} (h : Looks L r)
    (h' : ∀ a, Covers L p pre (k a) post) : Covers L p pre (r >>= k) post where
  closed {s _ _} hr ht := by
    obtain ⟨a, heq⟩ := h s
    rw [bind_apply, heq] at hr
    exact (h' a).closed hr ht
  covers {s _ _} hp hb hr ht := by
    obtain ⟨a, heq⟩ := h s
    rw [bind_apply, heq] at hr
    exact (h' a).covers hp hb hr ht

/-- A look at the cursor, with what it says of it. -/
theorem lookAt {r : Reader α} {f : Cursor → α} (hr : ∀ s, r L s = .ok (f s.cursor) s) {k : α → Reader β}
    {post : List Token → β → Prop} (h : ∀ a, Covers L (fun c => p c ∧ f c = a) pre (k a) post) :
    Covers L p pre (r >>= k) post where
  closed {s _ _} hk ht := by
    rw [bind_apply, hr] at hk
    exact (h _).closed hk ht
  covers {s _ _} hp hb hk ht := by
    rw [bind_apply, hr] at hk
    exact (h _).covers ⟨hp, rfl⟩ hb hk ht

theorem onKind {k : Kind → Reader β} {post : List Token → β → Prop}
    (h : ∀ kind, Covers L (fun c => p c ∧ c.kind = kind) pre (k kind) post) : Covers L p pre (Reader.kind >>= k) post :=
  lookAt (fun _ => rfl) h

theorem onPeek (n : Nat) {k : Kind → Reader β} {post : List Token → β → Prop}
    (h : ∀ kind, Covers L (fun c => p c ∧ c.peek n = kind) pre (k kind) post) :
    Covers L p pre (Reader.peek n >>= k) post :=
  lookAt (fun _ => rfl) h

theorem onCursor {k : Cursor → Reader β} {post : List Token → β → Prop}
    (h : ∀ c, Covers L (fun c' => p c' ∧ c' = c) pre (k c) post) : Covers L p pre (Reader.cursor >>= k) post :=
  lookAt (f := id) (fun _ => rfl) h

/-- Where a reader may begin is known more exactly. -/
theorem narrow {q : Cursor → Prop} {r : Reader α} {post : List Token → α → Prop} (h : Covers L p pre r post)
    (hq : ∀ c, q c → p c) : Covers L q pre r post :=
  ⟨h.closed, fun hp => h.covers (hq _ hp)⟩

/-- Where a reader may begin matters no more. -/
theorem anywhere {r : Reader α} {post : List Token → α → Prop} (h : Covers L (fun _ => True) pre r post) :
    Covers L p pre r post :=
  ⟨h.closed, fun _ => h.covers trivial⟩

/-- A fact about the place where the reading begins. -/
theorem given {r : Reader α} {post : List Token → α → Prop} {fact : Prop}
    (hclosed : ∀ {s a t}, r L s = .ok a t → t.BracesClosed → s.BracesClosed) (hfact : ∀ c, p c → Behind pre c → fact)
    (h : fact → Covers L p pre r post) : Covers L p pre r post :=
  ⟨hclosed, fun hp hb => (h (hfact _ hp hb)).covers hp hb⟩

/-- A reading that begins where nothing is behind. -/
theorem restart {r : Reader α} {mid : List Token → α → Prop} (h : Covers L p [] r mid) :
    Covers L p pre r fun tokens a => pre = [] → mid tokens a where
  closed := h.closed
  covers hp hb hr ht := by
    obtain ⟨range, hpasses, hmid⟩ := h.covers hp hb.start hr ht
    refine ⟨range, hpasses, ?_⟩
    rintro rfl
    exact hmid

theorem imp {r : Reader α} {post post' : List Token → α → Prop} (h : Covers L p pre r post')
    (h' : ∀ tokens a, Ranged pre → post' tokens a → post tokens a) : Covers L p pre r post where
  closed := h.closed
  covers hp hb hr ht := by
    obtain ⟨range, hpasses, hpost⟩ := h.covers hp hb hr ht
    exact ⟨range, hpasses, h' _ _ hb.ranged hpost⟩

theorem ite {c : Prop} [Decidable c] {r r' : Reader α} {post : List Token → α → Prop} (h : Covers L p pre r post)
    (h' : Covers L p pre r' post) : Covers L p pre (if c then r else r') post := by
  split
  · exact h
  · exact h'

/-- Two ways to go on, one of them at a mark. -/
theorem iteMark (m : Mark) {r r' : Reader α} {post : List Token → α → Prop}
    (h : Covers L (fun c => p c ∧ c.kind = .mark m) pre r post) (h' : Covers L p pre r' post) :
    Covers L p pre (Reader.atMark m >>= fun found => if found then r else r') post := by
  refine .lookAt (f := fun c => c.kind.isMark m) (fun _ => rfl) fun found => ?_
  split
  · rename_i hfound
    exact h.narrow fun c hc => ⟨hc.1, eq_of_isMark (hc.2.trans hfound)⟩
  · exact h'.narrow fun c hc => hc.1

/-- Two ways to a value that is then used. -/
theorem iteBind {c : Prop} [Decidable c] {r r' : Reader α} {k : α → Reader β} {m : List Token → α → Prop}
    {post : List Token → β → Prop} (h : Covers L p [] r m) (h' : Covers L p [] r' m)
    (next : ∀ range a, Covers L (fun _ => True) (pre ++ range) (k a) fun tokens b => m range a → post tokens b) :
    Covers L p pre (if c then r >>= k else r' >>= k) post :=
  .ite (.bind h next) (.bind h' next)

theorem map {r : Reader α} (f : α → β) {mid : List Token → α → Prop} {post : List Token → β → Prop}
    (h : Covers L p [] r mid) (h' : ∀ range a, mid range a → post (pre ++ range) (f a)) : Covers L p pre (f <$> r) post :=
  .bind h fun range a => .pure fun _ => h' range a

/-! ## Consuming -/

/-- A token of a kind that is known. -/
theorem advanceAt {kind : Kind} (h : ∀ c, p c → c.kind = kind) (hk : kind.isDone = false) :
    Covers L p [] Reader.advance fun range token => range = [token] ∧ token.kind = kind where
  closed hr ht := by
    cases hr
    exact ht
  covers {s a t} hp hb hr _ := by
    cases hr
    have hkind : s.cursor.current.kind = kind := h _ hp
    exact ⟨[s.cursor.current], .one (by rw [Cursor.atEnd, Cursor.kind, hkind, hk]), rfl, hkind⟩

/-- A token that is not the end. -/
theorem advanceMid (h : ∀ c, p c → Behind [] c → c.atEnd = false) :
    Covers L p [] Reader.advance fun range token => range = [token] where
  closed hr ht := by
    cases hr
    exact ht
  covers {s a t} hp hb hr _ := by
    cases hr
    exact ⟨[s.cursor.current], .one (h _ hp hb), rfl⟩

theorem skip (n : Nat) : Covers L p [] (JuiceSyntax.skip n) fun _ _ => True where
  closed hr ht := by
    cases hr
    exact ht
  covers {s a t} _ _ hr _ := by
    cases hr
    obtain ⟨range, hpasses⟩ := s.cursor.passes_skip n
    exact ⟨range, hpasses, trivial⟩

/-- At a token that is not the end something is skipped. -/
theorem skipSome {n : Nat} (h : ∀ c, p c → c.atEnd = false ∧ 0 < n) :
    Covers L p [] (JuiceSyntax.skip n) fun range _ => range ≠ [] where
  closed hr ht := by
    cases hr
    exact ht
  covers {s a t} hp _ hr _ := by
    obtain ⟨hmid, hn⟩ := h _ hp
    cases n with
    | zero => exact absurd hn (Nat.lt_irrefl 0)
    | succ n =>
      cases hr
      obtain ⟨range, hpasses⟩ := s.cursor.advance.passes_skip n
      exact ⟨_, .cons hmid hpasses, List.cons_ne_nil _ _⟩

theorem noteBody (inner : Span) :
    Covers L p [] (modify fun s => { s with macroBodies := s.macroBodies ++ [inner] } : Reader Unit)
      fun range _ => range = [] where
  closed hr ht := by
    cases hr
    exact ht
  covers _ _ hr _ := by
    cases hr
    exact ⟨[], .refl _, rfl⟩

/-- A fault that is recorded consumes nothing. -/
theorem record (fault : Fault) : Covers L p [] (Reader.record fault) fun range _ => range = [] where
  closed {s _ _} hr ht := by
    rw [record_apply] at hr
    cases hr
    exact (Grows.withFault L.options fault s).bracesClosed ht
  covers {s _ _} _ _ hr _ := by
    rw [record_apply] at hr
    cases hr
    rw [cursor_withFault]
    exact ⟨[], .refl _, rfl⟩

/-- A token that is consumed if it is of a kind. -/
theorem takeIf {f : Kind → Bool} (hf : f .done = false) :
    Covers L p [] (do
      if f (← Reader.kind) then
        let _ ← Reader.advance
        return true
      else
        return false) fun range taken => range.length = if taken then 1 else 0 := by
  refine .onKind fun kind => ?_
  split
  · rename_i hfound
    have hmid : kind.isDone = false := by
      cases kind with
      | done => exact absurd (hf.symm.trans hfound) (by decide)
      | _ => rfl
    refine .bind (.advanceAt (fun _ hc => hc.2) hmid) fun range token => .pure fun _ h => ?_
    rw [h.1]
    rfl
  · exact .pure fun _ => rfl

theorem takeMark (m : Mark) : Covers L p [] (Reader.takeMark m) fun range taken => range.length = if taken then 1 else 0 :=
  takeIf (f := fun kind => kind.isMark m) rfl

theorem takeWord (w : Keyword) : Covers L p [] (Reader.takeWord w) fun range taken => range.length = if taken then 1 else 0 :=
  takeIf (f := fun kind => kind.isWord w) rfl

/-- A mark or a word that is consumed if it is there, and what follows either way. -/
theorem takenThen {r : Reader Bool} (h : Covers L p [] r fun range taken => range.length = if taken then 1 else 0)
    {k : Bool → Reader β} {post : List Token → β → Prop}
    (found : ∀ token, Covers L (fun _ => True) (pre ++ [token]) (k true) post)
    (missing : Covers L (fun _ => True) pre (k false) post) : Covers L p pre (r >>= k) post where
  closed hr ht := by
    obtain ⟨taken, u, hfirst, hk⟩ := ok_of_bind hr
    cases taken with
    | true => exact h.closed hfirst ((found default).closed hk ht)
    | false => exact h.closed hfirst (missing.closed hk ht)
  covers hp hb hr ht := by
    obtain ⟨taken, u, hfirst, hk⟩ := ok_of_bind hr
    cases taken with
    | true =>
      obtain ⟨range, hpasses, hlength⟩ := h.covers hp hb.start hfirst ((found default).closed hk ht)
      obtain ⟨token, rfl⟩ := List.length_eq_one_iff.1 hlength
      obtain ⟨range', hpasses', hpost⟩ := (found token).covers trivial (hb.passes hpasses) hk ht
      rw [List.append_assoc] at hpost
      exact ⟨_, hpasses.trans hpasses', hpost⟩
    | false =>
      obtain ⟨range, hpasses, hlength⟩ := h.covers hp hb.start hfirst (missing.closed hk ht)
      obtain rfl : range = [] := List.length_eq_zero_iff.1 hlength
      obtain ⟨range', hpasses', hpost⟩ := missing.covers trivial (by simpa using hb.passes hpasses) hk ht
      exact ⟨_, hpasses.trans hpasses', hpost⟩

theorem needIf {f : Kind → Bool} {cause : Kind → Cause} (hf : f .done = false) :
    Covers L p [] (do
      if f (← Reader.kind) then
        return (← Reader.advance).span
      else
        MonadExcept.throw (.ofCause (← Reader.here) (cause (← Reader.kind)))) Spans := by
  refine .onKind fun kind => ?_
  split
  · rename_i hfound
    have hmid : kind.isDone = false := by
      cases kind with
      | done => exact absurd (hf.symm.trans hfound) (by decide)
      | _ => rfl
    refine .bind (.advanceAt (fun _ hc => hc.2) hmid) fun range token => .pure fun _ h => ?_
    rw [h.1]
    exact spans_single token
  · exact .look .here fun _ => .look .kind fun _ => .throw

theorem needMark (m : Mark) : Covers L p [] (Reader.needMark m) Spans := needIf (f := fun kind => kind.isMark m) rfl

theorem needWord (w : Keyword) : Covers L p [] (Reader.needWord w) Spans := needIf (f := fun kind => kind.isWord w) rfl

/-! ## Where a node begins and ends -/

/-- The span at the cursor is that of the first token that is consumed. -/
theorem startHere {k : Span → Reader β} {post : List Token → β → Prop}
    (h : ∀ start, Covers L (fun c => p c ∧ c.span = start) [] (k start) fun tokens b =>
      (tokens ≠ [] → Starts tokens start) → post tokens b) : Covers L p [] (Reader.here >>= k) post where
  closed {s _ _} hr ht := (h s.cursor.span).closed hr ht
  covers {s b t} hp hb hr ht := by
    obtain ⟨range, hpasses, hpost⟩ := (h s.cursor.span).covers ⟨hp, rfl⟩ hb hr ht
    refine ⟨range, hpasses, hpost fun hne => ?_⟩
    obtain ⟨first, rest, rfl⟩ := List.exists_cons_of_ne_nil (l := range) hne
    have hspan := Cursor.span_of_rest hpasses.rest
    rw [hspan]
    exact starts_of_head rfl

/-- The same, of the whole cursor. -/
theorem startCursor {k : Cursor → Reader β} {post : List Token → β → Prop}
    (h : ∀ c, Covers L (fun c' => p c' ∧ c' = c) [] (k c) fun tokens b =>
      (tokens ≠ [] → Starts tokens c.span) → post tokens b) : Covers L p [] (Reader.cursor >>= k) post where
  closed {s _ _} hr ht := (h s.cursor).closed hr ht
  covers {s b t} hp hb hr ht := by
    obtain ⟨range, hpasses, hpost⟩ := (h s.cursor).covers ⟨hp, rfl⟩ hb hr ht
    refine ⟨range, hpasses, hpost fun hne => ?_⟩
    obtain ⟨first, rest, rfl⟩ := List.exists_cons_of_ne_nil (l := range) hne
    rw [Cursor.span_of_rest hpasses.rest]
    exact starts_of_head rfl

/-- The span from a start to the last token consumed. -/
theorem spanFrom (start : Span) {k : Span → Reader β} {post : List Token → β → Prop}
    (h : ∀ stop, Covers L p pre (k (start.cover stop)) fun tokens b => (pre ≠ [] → Ends pre stop) → post tokens b) :
    Covers L p pre (Reader.spanFrom start >>= k) post where
  closed {s _ _} hr ht := (h s.cursor.previous).closed hr ht
  covers {s b t} hp hb hr ht := by
    obtain ⟨range, hpasses, hpost⟩ := (h s.cursor.previous).covers hp hb hr ht
    refine ⟨range, hpasses, hpost fun hne => ?_⟩
    obtain ⟨last, hlast⟩ : ∃ last, pre.getLast? = some last := ⟨_, List.getLast?_eq_some_getLast hne⟩
    rw [Cursor.previous, hb.last last hlast]
    exact ends_of_last hlast

/-! ## Attempts -/

/-- What is given up consumes nothing. -/
theorem speculated {r : Reader α} {mid : List Token → α → Prop} (hgrows : ∀ s, Grows s (Ending.state (r L s)))
    (h : Covers L p [] r mid) {s t : State} {found : Option α}
    (hr : JuiceSyntax.speculated s (r L s) = .ok found t) :
    (t.BracesClosed → s.BracesClosed) ∧ (p s.cursor → Behind [] s.cursor → t.BracesClosed →
      ∃ range, s.cursor.Passes range t.cursor ∧ found.elim (range = []) (mid range)) := by
  obtain ⟨fault, -, h'⟩ | ⟨a, t', hread, -, h'⟩ | h' := speculated_cases s (r L s)
  · rw [h'] at hr
    cases hr
  · rw [h'] at hr
    cases hr
    exact ⟨h.closed hread, fun hp hb ht => h.covers hp hb hread ht⟩
  · rw [h', rewind_eq (hgrows s)] at hr
    cases hr
    exact ⟨id, fun _ _ _ => ⟨[], .refl _, rfl⟩⟩

theorem speculate {r : Reader α} {mid : List Token → α → Prop} (hgrows : ∀ s, Grows s (Ending.state (r L s)))
    (h : Covers L p [] r mid) :
    Covers L p [] (JuiceSyntax.speculate r) fun range found => found.elim (range = []) (mid range) where
  closed {s a t} hr := by
    rw [speculate_apply] at hr
    exact (h.speculated hgrows hr).1
  covers {s a t} hp hb hr ht := by
    rw [speculate_apply] at hr
    exact (h.speculated hgrows hr).2 hp hb ht

theorem tryBrace {form : BraceForm} {r : Reader Expr} {mid : List Token → Expr → Prop}
    (hgrows : ∀ s, Grows s (Ending.state (r L s))) (h : Covers L p [] r mid) :
    Covers L p [] (Grammar.tryBrace form r) fun range found => found.elim (range = []) (mid range) := by
  have tried {s t : State} {found : Option Expr} (hr : Grammar.tryBrace form r L s = .ok found t) :
      (t.BracesClosed → s.BracesClosed) ∧ (p s.cursor → Behind [] s.cursor → t.BracesClosed →
        ∃ range, s.cursor.Passes range t.cursor ∧ found.elim (range = []) (mid range)) := by
    rw [tryBrace_apply] at hr
    split at hr
    · cases hr
      exact ⟨id, fun _ _ _ => ⟨[], .refl _, rfl⟩⟩
    · cases hspeculated : JuiceSyntax.speculated s (r L s) with
      | error fault t' =>
        rw [hspeculated] at hr
        cases hr
      | ok found' t' =>
        have hcovers := h.speculated hgrows hspeculated
        rw [hspeculated] at hr
        cases found' with
        | some e =>
          cases hr
          exact hcovers
        | none =>
          cases hr
          cases form with
          | record => exact ⟨fun ht => hcovers.1 ht, fun hp hb ht => hcovers.2 hp hb ht⟩
          | block => exact ⟨fun ht => hcovers.1 ht, fun hp hb ht => hcovers.2 hp hb ht⟩
  exact ⟨fun hr => (tried hr).1, fun hp hb hr => (tried hr).2 hp hb⟩

/-- What is read over tokens of their own is all of them but the end. -/
theorem whole {tokens : List Token} (htokens : ∃ lo hi, Laid lo tokens hi) {r : Reader α} {mid : List Token → α → Prop}
    (h : Covers L (fun _ => True) [] r mid) (wanted : Wanted) (advice : Advice) :
    Covers L p [] (withTokens tokens do
      let a ← r
      unless ← Reader.atEnd do
        Reader.failAdvised wanted advice
      return a) fun range a => range = [] ∧ ∃ body last, tokens = body ++ [last] ∧ mid body a where
  closed {s a t} hr ht := by
    obtain ⟨u, hread, -, rfl⟩ := ok_of_whole hr
    have hs : State.BracesClosed { s with cursor := .ofTokens tokens } := h.closed hread ht
    exact hs
  covers {s a t} _ _ hr ht := by
    obtain ⟨u, hread, hend, rfl⟩ := ok_of_whole hr
    have hbehind : Behind [] (Cursor.ofTokens tokens) := .ofTokens htokens
    obtain ⟨body, hpasses, hmid⟩ := h.covers trivial hbehind hread ht
    obtain ⟨last, hlast⟩ := (hbehind.passes hpasses).atEnd hend
    refine ⟨[], .refl _, rfl, body, last, ?_, hmid⟩
    rw [← hlast]
    exact hpasses.rest

/-! ## Loops -/

/-- The first node and those that follow. -/
theorem consFits {range range' : List Token} {frame : α → Frame} {first : α} {rest : List α} (h : Whole range (frame first))
    (h' : Fits (.tokens range') (rest.map frame)) : Fits (.tokens (range ++ range')) ((first :: rest).map frame) :=
  h.fits.append h'

/-- A turn that fails passes over tokens. -/
theorem resumed (s : State) {u : State} (h : Grows s u) (options : Options) (start : Cursor) (resume : Resume) (fault : Fault) :
    ∃ range, s.cursor.Passes range (u.resumed options start resume fault).cursor := by
  obtain ⟨n, hn⟩ := (h.trans (.resumed options start resume fault u)).cursor
  rw [hn]
  exact s.cursor.passes_skip n

theorem recoveringUpTo {item : Reader α} {frame : α → Frame} (hgrows : ∀ s, Grows s (Ending.state (item L s)))
    (h : Makes L (fun _ => True) item frame) (resume : Resume) (ends : Kind → Bool) (fuel : Nat) :
    Covers L p [] (JuiceSyntax.recoveringUpTo resume ends item fuel) fun range items =>
      Fits (.tokens range) (items.map frame) := by
  induction fuel generalizing p with
  | zero => exact .pure fun _ => .nil _
  | succ fuel ih =>
    refine ⟨fun {s items t} hr ht => ?_, fun {s items t} _ hb hr ht => ?_⟩
    · obtain ⟨-, rfl, rfl⟩ | ⟨-, first, rest, u, hfirst, hrest, rfl⟩ | ⟨-, fault, u, hfirst, hrest⟩ := recoveringUpTo_cases hr
      · exact ht
      · exact h.closed hfirst ((ih (p := p)).closed hrest ht)
      · have hread := hgrows s
        rw [hfirst] at hread
        exact (hread.trans (.resumed L.options s.cursor resume fault u)).bracesClosed ((ih (p := p)).closed hrest ht)
    · obtain ⟨-, rfl, rfl⟩ | ⟨-, first, rest, u, hfirst, hrest, rfl⟩ | ⟨-, fault, u, hfirst, hrest⟩ := recoveringUpTo_cases hr
      · exact ⟨[], .refl _, .nil _⟩
      · obtain ⟨range, hpasses, hitem⟩ := h.covers trivial hb hfirst ((ih (p := p)).closed hrest ht)
        obtain ⟨range', hpasses', hitems⟩ :=
          (ih (p := fun _ => True)).covers trivial (hb.passes hpasses).start hrest ht
        have hall : Fits (.tokens (range ++ range')) ((first :: rest).map frame) := consFits hitem hitems
        exact ⟨_, hpasses.trans hpasses', hall⟩
      · have hread := hgrows s
        rw [hfirst] at hread
        obtain ⟨range, hpasses⟩ := resumed s hread L.options s.cursor resume fault
        obtain ⟨range', hpasses', hitems⟩ :=
          (ih (p := fun _ => True)).covers trivial (hb.passes hpasses).start hrest ht
        exact ⟨_, hpasses.trans hpasses', hitems.before range⟩

theorem recovering {item : Reader α} {frame : α → Frame} (hitem : Composed (fun _ => True) item) (hL : L.Grows)
    (h : Makes L (fun _ => True) item frame) (resume : Resume) (ends : Kind → Bool) :
    Covers L p [] (JuiceSyntax.recovering resume ends item) fun range items => Fits (.tokens range) (items.map frame) :=
  .look .tokensLeft fun _ => recoveringUpTo (fun s => hitem.grows inherited_true hL s trivial) h resume ends _

theorem separatedUpTo {item : Reader α} {frame : α → Frame} (close : Mark) (h : Makes L (fun _ => True) item frame)
    (fuel : Nat) :
    Covers L p [] (JuiceSyntax.separatedUpTo close item fuel) fun range items => Fits (.tokens range) (items.map frame) := by
  induction fuel generalizing p with
  | zero => exact .pure fun _ => .nil _
  | succ fuel ih =>
    refine .look (.atMark close) fun _ => .ite (.pure fun _ => .nil _) (.bind h.anywhere fun range first =>
      .takenThen (.takeMark _) (fun token => ?_) ?_)
    · exact .bind ih fun _ _ => .pure fun _ hrest hfirst => (hfirst.fits.after [token]).append hrest
    · exact .pure fun _ hfirst => hfirst.fits

theorem separated {item : Reader α} {frame : α → Frame} (close : Mark) (h : Makes L (fun _ => True) item frame) :
    Covers L p [] (JuiceSyntax.separated close item) fun range items => Fits (.tokens range) (items.map frame) :=
  .look .tokensLeft fun _ => .separatedUpTo close h _

end Covers

/-- The readers of a level make nodes. -/
structure Level.Covers (L : Level) : Prop where
  grows : L.Grows
  expr : ∀ {p} position, Makes L p (Reader.expr position) Expr.frame
  operand : ∀ {p} position, Makes L p (Reader.operand position) Expr.frame
  block : ∀ {p}, Makes L p Reader.block Block.frame
  type : ∀ {p}, Makes L p Reader.type TypeExpr.frame
  record : ∀ {p}, Makes L p Reader.recordLiteral Expr.frame

end JuiceSyntax
