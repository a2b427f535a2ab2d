/-
  What the reading of a type accepts. `Accepts` says of a reader what the tokens are that it consumed
  when it has recorded no fault; for the types at each level that is how the type it gives is written,
  unless there is a list or a string with fragments among them (`accepts_typeExpr`).

  `type_grammar_exact`: types are read as they are written, and what is read as a type is written so.
-/
import JuiceSyntax.Proofs.Grammar.TypeReading

namespace JuiceSyntax

open Reader Grammar

/-! ## Readings without a fault -/

/-- Neither the beginning of a list nor a string with a fragment in it. -/
def Kind.IsSimple : Kind → Prop
  | .mark m => m ≠ .lBracket
  | .str _ pieces => ∀ tokens span, Piece.fragment tokens span ∉ pieces
  | _ => True

/-- No fault is recorded from `s` to `t`, though one could be. -/
structure Unfaulted (s t : State) : Prop where
  going : s.halted = false
  faults : t.faults = s.faults

variable {s t u : State}

theorem Unfaulted.split (h : Unfaulted s u) (hst : Grows s t) (htu : Grows t u) : Unfaulted s t ∧ Unfaulted t u := by
  have hle : s.faults.length ≤ t.faults.length := hst.faults.length_le
  have hle' : t.faults.length ≤ u.faults.length := htu.faults.length_le
  have hlength : u.faults.length = s.faults.length := congrArg List.length h.faults
  have hfaults : s.faults = t.faults := hst.faults.eq_of_length (by omega)
  have hgoing : t.halted = false := by
    cases ht : t.halted with
    | false => rfl
    | true =>
      obtain hs | hlt := hst.halting ht
      · exact hs.symm.trans h.going
      · omega
  exact ⟨⟨h.going, hfaults.symm⟩, ⟨hgoing, h.faults.trans hfaults⟩⟩

theorem Unfaulted.skipped (h : Unfaulted s u) {n : Nat} (hgrows : Grows (s.skipped n) u) : Unfaulted (s.skipped n) u :=
  (h.split (.skipped s n) hgrows).2

/-! ## The judgement -/

/-- What is consumed without a fault, if it is simple, has this to do with the result. -/
def Accepts (L : Level) {α : Type} (r : Reader α) (post : α → List Kind → Prop) : Prop :=
  ∀ ⦃s a t⦄, r L s = .ok a t → Unfaulted s t →
    ∃ kinds, s.cursor.kinds = kinds ++ t.cursor.kinds ∧ ((∀ kind ∈ kinds, kind.IsSimple) → post a kinds)

variable {setting : Setting} {n : Nat} {kind : Kind} {L : Level} {α : Type} {item : Reader α} {post : α → List Kind → Prop}

/-- Nothing is consumed where there are no items. -/
theorem separatedUpTo_nil {close : Mark} {fuel : Nat} (h : separatedUpTo close item fuel L s = .ok [] t) : t = s := by
  cases fuel with
  | zero =>
    cases h
    rfl
  | succ fuel =>
    rw [separatedUpTo_succ_apply] at h
    split at h
    · cases h
      rfl
    obtain ⟨first, u, -, h⟩ := Ending.ok_of_andThen h
    split at h
    · obtain ⟨rest, u', -, h⟩ := Ending.ok_of_andThen h
      cases h
    · cases h

/-- Items between parentheses, by what they are made of. -/
theorem accepts_separatedUpTo (hitem : Composed (fun _ => True) item) (h : Accepts (level setting n) item post)
    (posts : List α → List Kind → Prop) (nil : posts [] [])
    (last : ∀ {a kinds}, post a kinds → posts [a] kinds)
    (next : ∀ {a rest kinds kinds'}, post a kinds → posts rest kinds' →
      posts (a :: rest) (kinds ++ .mark .comma :: kinds')) (close : Mark) (fuel : Nat) :
    Accepts (level setting n) (separatedUpTo close item fuel) posts := by
  induction fuel with
  | zero =>
    intro s items t hr hq
    cases hr
    exact ⟨[], rfl, fun _ => nil⟩
  | succ fuel ih =>
    intro s items t hr hq
    rw [separatedUpTo_succ_apply] at hr
    split at hr
    · cases hr
      exact ⟨[], rfl, fun _ => nil⟩
    obtain ⟨first, u, hfirst, hr⟩ := Ending.ok_of_andThen hr
    split at hr
    · rename_i hcomma
      obtain ⟨rest, t', hrest, hr⟩ := Ending.ok_of_andThen hr
      cases hr
      have hgrows : Grows (u.skipped 1) t := (Composed.separatedUpTo close hitem fuel).onward hrest
      obtain ⟨hqfirst, hqrest⟩ := hq.split (hitem.onward hfirst) ((Grows.skipped u 1).trans hgrows)
      obtain ⟨kinds, hkinds, hpost⟩ := h hfirst hqfirst
      obtain ⟨kinds', hkinds', hposts⟩ := ih hrest (hqrest.skipped hgrows)
      refine ⟨kinds ++ .mark .comma :: kinds', ?_, fun hsimple => ?_⟩
      · rw [hkinds, kinds_skipped_of_isMark hcomma, hkinds', List.append_assoc, List.cons_append]
      · obtain ⟨hs, hs'⟩ := List.forall_mem_append.1 hsimple
        exact next (hpost hs) (hposts (List.forall_mem_cons.1 hs').2)
    · cases hr
      obtain ⟨kinds, hkinds, hpost⟩ := h hfirst hq
      exact ⟨kinds, hkinds, fun hsimple => last (hpost hsimple)⟩

/-! ## Types -/

/-- What the types one level deeper are. -/
def TypeBelow (n : Nat) (type : TypeExpr) (kinds : List Kind) : Prop := ∃ m, n = m + 1 ∧ Written m (.type type) kinds

theorem closed_ok {result : Span → α} {a : α} (h : closed s result = .ok a t) :
    s.cursor.kinds = .mark .rParen :: t.cursor.kinds ∧ t = s.skipped 1 ∧ a = result s.cursor.span := by
  unfold closed at h
  split at h
  · rename_i hclose
    cases h
    exact ⟨kinds_skipped_of_isMark hclose, rfl, rfl⟩
  · cases h

theorem accepts_typeArg (h : Accepts (level setting n) Reader.type (TypeBelow n)) :
    Accepts (level setting n) typeArg fun arg kinds => Written n (.arg arg) kinds := by
  intro s arg t hr hq
  rw [typeArg_apply, argLabel_apply] at hr
  obtain ⟨label, u, hlabel, hr⟩ := Ending.ok_of_andThen hr
  obtain ⟨value, t', hvalue, hr⟩ := Ending.ok_of_andThen hr
  cases hr
  have hplain (hu : label = none ∧ u = s) :
      ∃ kinds, s.cursor.kinds = kinds ++ t.cursor.kinds ∧ ((∀ kind ∈ kinds, kind.IsSimple) →
        Written n (.arg ⟨label, value, s.cursor.span.cover value.span⟩) kinds) := by
    obtain ⟨rfl, rfl⟩ := hu
    obtain ⟨kinds, hkinds, hpost⟩ := h hvalue hq
    refine ⟨kinds, hkinds, fun hsimple => ?_⟩
    obtain ⟨m, rfl, hwritten⟩ := hpost hsimple
    exact .plain hwritten _
  split at hlabel
  · rename_i hcolon
    cases hfound : labelOf? s.cursor.kind with
    | none =>
      rw [hfound] at hlabel
      cases hlabel
      exact hplain ⟨rfl, rfl⟩
    | some text =>
      rw [hfound] at hlabel
      cases hlabel
      have hgrows : Grows (s.skipped 2) t := Composed.type.onward hvalue
      obtain ⟨kinds, hkinds, hpost⟩ := h hvalue (hq.skipped hgrows)
      have hnamed : LabelWritten text s.cursor.kind := labelWritten_of_some hfound
      have hmid : s.cursor.atEnd = false := hnamed.undone
      have hnext : (s.skipped 1).cursor.kind = .mark .colon := by
        rw [← eq_of_isMark hcolon, ← Cursor.kind_advance hmid]
        rfl
      refine ⟨s.cursor.kind :: .mark .colon :: kinds, ?_, fun hsimple => ?_⟩
      · rw [kinds_skipped_of_kind rfl hnamed.undone, kinds_skipped_of_kind hnext rfl, State.skipped_skipped, hkinds]
        rfl
      · obtain ⟨m, rfl, hwritten⟩ := hpost fun kind hmem => hsimple kind (.tail _ (.tail _ hmem))
        exact .labelled hnamed hwritten _
  · cases hlabel
    exact hplain ⟨rfl, rfl⟩

theorem accepts_args (h : Accepts (level setting n) Reader.type (TypeBelow n)) (fuel : Nat) :
    Accepts (level setting n) (separatedUpTo .rParen typeArg fuel) fun args kinds => Written n (.args args) kinds :=
  accepts_separatedUpTo composed_typeArg (accepts_typeArg h) _ .noArgs .lastArg .nextArg .rParen fuel

theorem accepts_items (h : Accepts (level setting n) Reader.type (TypeBelow n)) (fuel : Nat) :
    Accepts (level setting n) (separatedUpTo .rParen Reader.type fuel) fun types kinds =>
      Written n (.items types) kinds := by
  refine accepts_separatedUpTo .type h _ .noItems ?_ ?_ .rParen fuel
  · rintro type kinds ⟨m, rfl, hwritten⟩
    exact .lastItem hwritten
  · rintro type rest kinds kinds' ⟨m, rfl, hwritten⟩ hrest
    exact .nextItem hwritten hrest

/-- A name, alone or with arguments. -/
theorem accepts_typeOfName (h : Accepts (level setting n) Reader.type (TypeBelow n)) {text : String} {type : TypeKind}
    (named : CalleeWritten text kind) (alone : ∀ span, Written n (.atom ⟨type, span⟩) [kind]) (hs : s.cursor.kind = kind)
    {result : TypeExpr} (hr : typeOfName text type (level setting n) s = .ok result t) (hq : Unfaulted s t) :
    ∃ kinds, s.cursor.kinds = kinds ++ t.cursor.kinds ∧ ((∀ kind ∈ kinds, kind.IsSimple) →
      Written n (.atom result) kinds) := by
  rw [typeOfName_apply] at hr
  split at hr
  · rename_i hopening
    obtain ⟨args, u, hargs, hr⟩ := Ending.ok_of_andThen hr
    obtain ⟨hclosing, rfl, rfl⟩ := closed_ok hr
    have hforward : Grows (s.skipped 2) u := (Composed.separatedUpTo _ composed_typeArg _).onward hargs
    have hquiet : Unfaulted (s.skipped 2) u :=
      ((hq.skipped (hforward.trans (.skipped u 1))).split hforward (.skipped u 1)).1
    obtain ⟨kinds, hkinds, hpost⟩ := accepts_args h _ hargs hquiet
    refine ⟨kind :: .mark .lParen :: (kinds ++ [.mark .rParen]), ?_, fun hsimple => ?_⟩
    · rw [kinds_skipped_of_kind hs named.undone, kinds_skipped_of_isMark hopening, State.skipped_skipped, hkinds,
        hclosing]
      simp
    · exact .call named (hpost fun kind hmem => hsimple kind (.tail _ (.tail _ (List.mem_append_left _ hmem)))) _ _
  · cases hr
    exact ⟨[kind], kinds_skipped_of_kind hs named.undone, fun _ => alone _⟩

/-- What is consumed up to the closing parenthesis, and that. -/
theorem Unfaulted.closed {n : Nat} (h : Unfaulted s (u.skipped 1)) (hgrows : Grows (s.skipped n) u) : Unfaulted (s.skipped n) u :=
  ((h.skipped (hgrows.trans (.skipped u 1))).split hgrows (.skipped u 1)).1

/-- A type or a tuple in parentheses. A tuple of one is read as its item, but that is a fault. -/
theorem accepts_typeParens (h : Accepts (level setting n) Reader.type (TypeBelow n)) {result : TypeExpr}
    (hr : typeParens (level setting n) s = .ok result t) (hq : Unfaulted s t) :
    ∃ kinds, s.cursor.kinds = kinds ++ t.cursor.kinds ∧ ((∀ kind ∈ kinds, kind.IsSimple) →
      Written n (.atom result) kinds) := by
  rw [typeParens_eq] at hr
  obtain ⟨hopening, hnonempty⟩ := parensOf_begins hr
  rw [parensOf_apply hopening hnonempty] at hr
  obtain ⟨first, u, hfirst, hr⟩ := Ending.ok_of_andThen hr
  have hgrows : Grows (s.skipped 1) u := Composed.type.onward hfirst
  split at hr
  · rename_i hcomma
    split at hr
    · cases hr
      have hfault := (hq.split ((Grows.skipped s 1).trans (hgrows.trans (.skipped u 2))) (.withFault _ _ _)).2
      exact absurd (congrArg List.length hfault.faults) (length_lt_withFault _ _ hfault.going).ne'
    · rename_i hmore
      obtain ⟨rest, u', hrest, hr⟩ := Ending.ok_of_andThen hr
      obtain ⟨hclosing, rfl, rfl⟩ := closed_ok hr
      have hgrows' : Grows (u.skipped 1) u' := (Composed.separatedUpTo _ .type _).onward hrest
      obtain ⟨hq', hq''⟩ := (hq.closed (hgrows.trans ((Grows.skipped u 1).trans hgrows'))).split hgrows
        ((Grows.skipped u 1).trans hgrows')
      obtain ⟨kinds, hkinds, hpost⟩ := h hfirst hq'
      obtain ⟨kinds', hkinds', hpost'⟩ := accepts_items h _ hrest (hq''.skipped hgrows')
      refine ⟨.mark .lParen :: (kinds ++ .mark .comma :: (kinds' ++ [.mark .rParen])), ?_, fun hsimple => ?_⟩
      · rw [kinds_skipped_of_isMark hopening, hkinds, kinds_skipped_of_isMark hcomma, hkinds', hclosing]
        simp
      · obtain ⟨hs, hs'⟩ := List.forall_mem_append.1 (List.forall_mem_cons.1 hsimple).2
        obtain ⟨m, rfl, hwritten⟩ := hpost hs
        have hitems := hpost' (List.forall_mem_append.1 (List.forall_mem_cons.1 hs').2).1
        refine .tuple hwritten ?_ hitems _
        rintro rfl
        rw [separatedUpTo_nil hrest] at hclosing
        rw [Cursor.kind_of_kinds hclosing] at hmore
        exact hmore rfl
  · obtain ⟨hclosing, rfl, rfl⟩ := closed_ok hr
    obtain ⟨kinds, hkinds, hpost⟩ := h hfirst (hq.closed hgrows)
    refine ⟨.mark .lParen :: (kinds ++ [.mark .rParen]), ?_, fun hsimple => ?_⟩
    · rw [kinds_skipped_of_isMark hopening, hkinds, hclosing]
      simp
    · obtain ⟨m, rfl, hwritten⟩ := hpost fun kind hmem => hsimple kind (.tail _ (List.mem_append_left _ hmem))
      exact .group hwritten _

/-- What begins with a token that is not simple need not be written as a type. -/
theorem accepts_of_not_simple {written : List Kind → Prop} (hs : s.cursor.kind = kind) (mid : kind.isDone = false)
    (hgrows : Grows (s.skipped 1) t) (h : ¬kind.IsSimple) :
    ∃ kinds, s.cursor.kinds = kinds ++ t.cursor.kinds ∧ ((∀ kind ∈ kinds, kind.IsSimple) → written kinds) := by
  obtain ⟨kinds, hkinds⟩ := hgrows.kinds
  refine ⟨kind :: kinds, ?_, fun hsimple => absurd (hsimple _ List.mem_cons_self) h⟩
  rw [kinds_skipped_of_kind hs mid, hkinds]
  rfl

theorem literalType_ok {literal : Reader Expr} {type : TypeExpr} (h : literalType literal L s = .ok type t) :
    ∃ value, literal L s = .ok value t := by
  obtain ⟨value, u, hvalue, h⟩ := ok_of_bind h
  cases h
  exact ⟨value, hvalue⟩

theorem listLiteral_grows {value : Expr} (h : listLiteral (level setting n) s = .ok value t) : Grows (s.skipped 1) t := by
  obtain ⟨opening, u, hopening, h⟩ := ok_of_bind h
  have hu : u = s.skipped 1 := by
    rw [needMark_apply] at hopening
    split at hopening
    · cases hopening
      rfl
    · cases hopening
  rw [← hu]
  have hrest : Composed (fun _ => True) (do
      let items ← separated .rBracket (Reader.expr .value)
      let closing ← needMark .rBracket
      return (⟨.list items, opening.cover closing⟩ : Expr)) :=
    .bind (.separated _ (.expr _)) fun _ => .bind (.needMark _) fun _ => .pure _
  exact hrest.onward h

theorem stringLiteral_grows {multiline : Bool} {pieces : List Piece} {value : Expr}
    (h : stringLiteral multiline pieces (level setting n) s = .ok value t) : Grows (s.skipped 1) t := by
  obtain ⟨token, u, hadvance, h⟩ := ok_of_bind h
  cases hadvance
  obtain ⟨read, u, hsegments, h⟩ := ok_of_bind h
  cases h
  exact (composed_segments fun _ _ _ => trivial).onward hsegments

theorem name_of_ofName? {text : String} {type : BuiltinType} (h : BuiltinType.ofName? text = some type) :
    type.name = text := by
  have hfound := List.find?_some h
  exact beq_iff_eq.1 hfound

theorem typeAtom_of_lBracket (h : s.cursor.kind = .mark .lBracket) : typeAtom L s = literalType listLiteral L s := by
  simp only [typeAtom, Reader.kind, bind_apply, cursor_apply, pure_apply, Ending.andThen_ok, h]

/-- No other mark begins a type. -/
theorem typeAtom_of_mark {mark : Mark} (h : s.cursor.kind = .mark mark) (hlist : mark ≠ .lBracket)
    (hparens : mark ≠ .lParen) : typeAtom L s = failUnexpected .type L s := by
  simp only [typeAtom, Reader.kind, bind_apply, cursor_apply, pure_apply, Ending.andThen_ok, h]
  cases mark with
  | lBracket => exact absurd rfl hlist
  | lParen => exact absurd rfl hparens
  | _ => rfl

theorem accepts_typeAtom (h : Accepts (level setting n) Reader.type (TypeBelow n)) :
    Accepts (level setting n) typeAtom fun type kinds => Written n (.atom type) kinds := by
  intro s type t hr hq
  have hliteral {value : ExprKind} {kind : Kind} (hvalue : LiteralWritten value kind) (hkind : s.cursor.kind = kind) :
      ∃ kinds, s.cursor.kinds = kinds ++ t.cursor.kinds ∧ ((∀ kind ∈ kinds, kind.IsSimple) →
        Written n (.atom type) kinds) := by
    obtain ⟨read, hread, -, heq⟩ := typeAtom_of_literal (L := level setting n) hvalue hkind
    cases heq.symm.trans hr
    exact ⟨[kind], kinds_skipped_of_kind hkind hvalue.undone, fun _ => .literal hread _⟩
  cases hkind : s.cursor.kind with
  | name text =>
    rw [typeAtom_of_name hkind] at hr
    refine accepts_typeOfName h .name (fun span => ?_) hkind hr hq
    cases hbuiltin : BuiltinType.ofName? text with
    | none => exact .name hbuiltin span
    | some builtin =>
      rw [← name_of_ofName? hbuiltin]
      exact .builtin builtin span
  | typeName text =>
    rw [typeAtom_of_typeName hkind] at hr
    exact accepts_typeOfName h .typeName (.typeName text) hkind hr hq
  | int value radix => exact hliteral (.int value radix) hkind
  | float value => exact hliteral (.float value) hkind
  | bool value => exact hliteral (.bool value) hkind
  | str multiline pieces =>
    by_cases hplain : ∀ tokens span, Piece.fragment tokens span ∉ pieces
    · exact hliteral (.str (segmentsWritten_unbroken hplain) (layoutWritten_layoutOf multiline pieces)) hkind
    · simp only [typeAtom, Reader.kind, bind_apply, cursor_apply, pure_apply, Ending.andThen_ok, hkind] at hr
      obtain ⟨value, hvalue⟩ := literalType_ok hr
      exact accepts_of_not_simple hkind rfl (stringLiteral_grows hvalue) hplain
  | mark mark =>
    by_cases hparens : mark = .lParen
    · rw [hparens] at hkind
      rw [typeAtom_of_lParen hkind] at hr
      exact accepts_typeParens h hr hq
    by_cases hlist : mark = .lBracket
    · rw [hlist] at hkind
      rw [typeAtom_of_lBracket hkind] at hr
      obtain ⟨value, hvalue⟩ := literalType_ok hr
      exact accepts_of_not_simple hkind rfl (listLiteral_grows hvalue) fun hsimple => hsimple rfl
    · rw [typeAtom_of_mark hkind hlist hparens] at hr
      cases hr
  | macroName | word | done =>
    simp only [typeAtom, Reader.kind, bind_apply, cursor_apply, pure_apply, Ending.andThen_ok, hkind] at hr
    cases hr

/-- The operands after the first one. -/
theorem accepts_typeRestUpTo (h : Accepts (level setting n) Reader.type (TypeBelow n)) (left : TypeExpr) (fuel : Nat) :
    Accepts (level setting n) (typeRestUpTo left fuel) fun type kinds =>
      ∀ front, Written n (.type left) front → Written n (.type type) (front ++ kinds) := by
  induction fuel generalizing left with
  | zero =>
    intro s type t hr hq
    cases hr
    exact ⟨[], rfl, fun _ front hfront => by rwa [List.append_nil]⟩
  | succ fuel ih =>
    intro s type t hr hq
    rw [typeRestUpTo_succ_apply] at hr
    cases hop : TypeOp.ofKind? s.cursor.kind with
    | none =>
      rw [hop] at hr
      cases hr
      exact ⟨[], rfl, fun _ front hfront => by rwa [List.append_nil]⟩
    | some op =>
      rw [hop] at hr
      obtain ⟨right, u, hright, hrest⟩ := Ending.ok_of_andThen hr
      have hgrows : Grows (s.skipped 1) u := (composed_typeAtom inherited_true).onward hright
      have hgrows' : Grows u t := (composed_typeRestUpTo inherited_true _ fuel).onward hrest
      obtain ⟨hq', hq''⟩ := (hq.skipped (hgrows.trans hgrows')).split hgrows hgrows'
      obtain ⟨kinds, hkinds, hpost⟩ := accepts_typeAtom h hright hq'
      obtain ⟨kinds', hkinds', hpost'⟩ := ih _ hrest hq''
      refine ⟨.mark op.mark :: (kinds ++ kinds'), ?_, fun hsimple front hfront => ?_⟩
      · rw [kinds_skipped_of_kind (kind_of_typeOp hop) rfl, hkinds, hkinds', List.cons_append, List.append_assoc]
      · obtain ⟨hs, hs'⟩ := List.forall_mem_append.1 (List.forall_mem_cons.1 hsimple).2
        have hbinary := hpost' hs' _ (.binary op hfront (hpost hs) (left.span.cover right.span))
        rwa [List.append_assoc, List.cons_append] at hbinary

theorem accepts_typeExpr_of (h : Accepts (level setting n) Reader.type (TypeBelow n)) :
    Accepts (level setting n) typeExpr fun type kinds => Written n (.type type) kinds := by
  intro s type t hr hq
  obtain ⟨first, u, hfirst, hr⟩ := ok_of_bind hr
  obtain ⟨fuel, u', hleft, hrest⟩ := ok_of_bind hr
  cases hleft
  have hgrows : Grows s u := (composed_typeAtom inherited_true).onward hfirst
  obtain ⟨hq', hq''⟩ := hq.split hgrows ((composed_typeRestUpTo inherited_true first u.cursor.left).onward hrest)
  obtain ⟨kinds, hkinds, hpost⟩ := accepts_typeAtom h hfirst hq'
  obtain ⟨kinds', hkinds', hpost'⟩ := accepts_typeRestUpTo h first _ hrest hq''
  refine ⟨kinds ++ kinds', ?_, fun hsimple => ?_⟩
  · rw [hkinds, hkinds', List.append_assoc]
  · obtain ⟨hs, hs'⟩ := List.forall_mem_append.1 hsimple
    exact hpost' hs' _ (.atom (hpost hs))

theorem accepts_type (setting : Setting) (n : Nat) : Accepts (level setting n) Reader.type (TypeBelow n) := by
  induction n with
  | zero => exact fun s type t hr => nomatch hr
  | succ n ih =>
    intro s type t hr hq
    obtain ⟨kinds, hkinds, hpost⟩ := accepts_typeExpr_of ih hr hq
    exact ⟨kinds, hkinds, fun hsimple => ⟨n, rfl, hpost hsimple⟩⟩

theorem accepts_typeExpr (setting : Setting) (n : Nat) :
    Accepts (level setting n) typeExpr fun type kinds => Written n (.type type) kinds :=
  accepts_typeExpr_of (accepts_type setting n)

/-! ## Types are read exactly as they are written -/

/-- For a reader of types below which `n` levels are left: whatever is written as a type with at most `n`
types around any in it, and has no operator and no parenthesis behind it, is read as that type, up to spans;
no fault is recorded, nothing else of the state changes, and the reading ends at the token behind it. And
whatever is consumed for a type without a fault, lists and strings with fragments aside, is how that type is
written. -/
theorem type_grammar_exact (setting : Setting) (n : Nat) :
    (∀ (s : State) (type : TypeExpr) (tokens after : List Token) (next : Token),
      Written n (.type type) (tokens.map Token.kind) → next.kind.EndsType →
      s.cursor.rest = tokens ++ next :: after →
      ∃ read : TypeExpr, read.unplaced = type.unplaced ∧
        Reader.type (level setting (n + 1)) s = .ok read (s.skipped tokens.length) ∧
        (s.skipped tokens.length).cursor.rest = next :: after) ∧
    ∀ (s t : State) (type : TypeExpr), Reader.type (level setting (n + 1)) s = .ok type t →
      s.halted = false → t.faults = s.faults →
      ∃ tokens, s.cursor.rest = tokens ++ t.cursor.rest ∧
        ((∀ token ∈ tokens, token.kind.IsSimple) → Written n (.type type) (tokens.map Token.kind)) := by
  refine ⟨fun s type tokens after next hwritten hnext hrest => ?_, fun s t type hr hgoing hfaults => ?_⟩
  · have hkinds : s.cursor.kinds = tokens.map Token.kind ++ next.kind :: after.map Token.kind := by
      rw [Cursor.kinds, hrest, List.map_append, List.map_cons]
    obtain ⟨read, hread, heq⟩ := level_type_reads hwritten hwritten.reads hkinds hnext
    rw [List.length_map] at heq
    refine ⟨read, hread, heq, ?_⟩
    have hundone : Undone tokens := fun token hmem => hwritten.midway _ (List.mem_map_of_mem hmem)
    have hskip := Cursor.rest_skip hrest hundone (Nat.le_refl _)
    rwa [List.drop_length] at hskip
  · obtain ⟨kinds, hkinds, hpost⟩ := accepts_typeExpr setting n hr ⟨hgoing, hfaults⟩
    obtain ⟨tokens, htokens⟩ := (Composed.type.onward hr).rest
    refine ⟨tokens, htokens, fun hsimple => ?_⟩
    have heq : tokens.map Token.kind = kinds := by
      rw [Cursor.kinds, Cursor.kinds, htokens, List.map_append] at hkinds
      exact List.append_cancel_right hkinds
    rw [heq]
    refine hpost fun kind hmem => ?_
    rw [← heq] at hmem
    obtain ⟨token, htoken, rfl⟩ := List.mem_map.1 hmem
    exact hsimple token htoken

/-- The kinds of `list(of: int)`. -/
def listOfInt : List Kind := [.name "list", .mark .lParen, .word .ofWord, .mark .colon, .name "int", .mark .rParen]

theorem written_listOfInt (span : Span) :
    Written 1 (.type ⟨.call "list" span [⟨some "of", ⟨.builtin .int, span⟩, span⟩], span⟩) listOfInt :=
  .atom (.call .name (.lastArg (.labelled .ofWord (.atom (.builtin .int _)) _)) _ _)

/-- Before an equals sign it is read so, and what is read so is written so. -/
theorem type_grammar_exact_listOfInt :
    let span : Span := .point 0
    let tokens : List Token := listOfInt.map fun kind => ⟨kind, span⟩
    let s : State := .ofTokens (tokens ++ [⟨.mark .eq, span⟩])
    ∃ read : TypeExpr,
      read.unplaced = ⟨.call "list" span [⟨some "of", ⟨.builtin .int, span⟩, span⟩], span⟩ ∧
      Reader.type (level ⟨[], .standard, true⟩ 2) s = .ok read (s.skipped 6) ∧ Written 1 (.type read) listOfInt := by
  intro span tokens s
  obtain ⟨hreads, haccepts⟩ := type_grammar_exact ⟨[], .standard, true⟩ 1
  obtain ⟨read, hread, heq, -⟩ := hreads s _ tokens [] ⟨.mark .eq, span⟩ (written_listOfInt span) ⟨rfl, rfl, rfl⟩ rfl
  obtain ⟨consumed, hconsumed, hwritten⟩ := haccepts s _ read heq rfl rfl
  have happend : tokens ++ [⟨.mark .eq, span⟩] = consumed ++ [⟨.mark .eq, span⟩] := hconsumed
  have htokens : consumed = tokens := (List.append_cancel_right happend).symm
  rw [htokens] at hwritten
  refine ⟨read, hread, heq, hwritten fun token hmem => ?_⟩
  obtain ⟨kind, hkind, rfl⟩ := List.mem_map.1 hmem
  revert kind
  simp [listOfInt, Kind.IsSimple]

end JuiceSyntax
