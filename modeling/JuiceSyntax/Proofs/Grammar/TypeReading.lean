/-
  How written types are read. `Reads` says of a phrase of the type grammar and its tokens what it is to
  read them; `Written.reads` says that all are read so, by induction on how they are written.
-/
import JuiceSyntax.Proofs.Grammar.TypeText

namespace JuiceSyntax

open Reader Grammar

variable {L : Level} {s : State} {kind next : Kind} {kinds more : List Kind}

/-! ## Literals -/

/-- The segments of a string without fragments. -/
def unbrokenSegments : List Piece → List Segment
  | [] => []
  | .text text span :: rest => .text text span :: unbrokenSegments rest
  | .escape value raw span :: rest => .escape value raw span :: unbrokenSegments rest
  | .fragment _ _ :: rest | .indent _ :: rest => unbrokenSegments rest

theorem SegmentsWritten.segments_apply {written : List Segment} {pieces : List Piece}
    (h : SegmentsWritten written pieces) (L : Level) (s : State) :
    segments pieces L s = .ok (unbrokenSegments pieces) s := by
  induction h with
  | nil => rfl
  | text _ _ _ _ ih | escape _ _ _ _ _ ih =>
    simp only [segments, unbrokenSegments, bind_apply, ih, Ending.andThen_ok, pure_apply]
  | indent _ _ ih => exact ih

theorem SegmentsWritten.moved {written : List Segment} {pieces : List Piece} (h : SegmentsWritten written pieces) :
    movedSegments (fun _ => 0) (unbrokenSegments pieces) = movedSegments (fun _ => 0) written := by
  induction h with
  | nil => rfl
  | text _ _ _ _ ih | escape _ _ _ _ _ ih =>
    simp only [unbrokenSegments, movedSegments, ih]
    rfl
  | indent _ _ ih => exact ih

theorem SegmentsWritten.fragmentless {written : List Segment} {pieces : List Piece}
    (h : SegmentsWritten written pieces) (tokens : List Token) (span : Span) : Piece.fragment tokens span ∉ pieces := by
  induction h with
  | nil => exact List.not_mem_nil
  | text _ _ _ _ ih | escape _ _ _ _ _ ih | indent _ _ ih => simpa using ih

theorem segmentsWritten_unbroken {pieces : List Piece} (h : ∀ tokens span, Piece.fragment tokens span ∉ pieces) :
    SegmentsWritten (unbrokenSegments pieces) pieces := by
  induction pieces with
  | nil => exact .nil
  | cons piece pieces ih =>
    have hrest : SegmentsWritten (unbrokenSegments pieces) pieces :=
      ih fun tokens span hmem => h tokens span (List.mem_cons_of_mem _ hmem)
    cases piece with
    | text text span => exact .text text span span hrest
    | escape value raw span => exact .escape value raw span span hrest
    | fragment tokens span => exact absurd List.mem_cons_self (h tokens span)
    | indent span => exact .indent span hrest

/-- The layout of a string token. -/
def layoutOf (multiline : Bool) (pieces : List Piece) : Layout :=
  if multiline then .lines (indentSpans pieces) else .inline

theorem layoutWritten_layoutOf (multiline : Bool) (pieces : List Piece) :
    LayoutWritten (layoutOf multiline pieces) multiline pieces := by
  cases multiline with
  | false => exact .inline pieces
  | true => exact .lines rfl

theorem LayoutWritten.moved {layout : Layout} {multiline : Bool} {pieces : List Piece}
    (h : LayoutWritten layout multiline pieces) :
    (layoutOf multiline pieces).moved (fun _ => 0) = layout.moved fun _ => 0 := by
  cases h with
  | inline => rfl
  | lines marked =>
    simp only [layoutOf, if_true, Layout.moved, Span.moved, List.map_const', marked]

theorem stringLiteral_apply {written : List Segment} {pieces : List Piece} (multiline : Bool)
    (h : SegmentsWritten written pieces) :
    stringLiteral multiline pieces L s =
      .ok ⟨.str (unbrokenSegments pieces) (layoutOf multiline pieces), s.cursor.span⟩ (s.skipped 1) := by
  simp only [stringLiteral, bind_apply, advance_apply, h.segments_apply, pure_apply, Ending.andThen_ok]
  rfl

/-- What the type grammar makes of a token that is a literal. -/
theorem typeAtom_of_literal {value : ExprKind} (h : LiteralWritten value kind) (hs : s.cursor.kind = kind) :
    ∃ read, LiteralWritten read kind ∧ read.moved (fun _ => 0) = value.moved (fun _ => 0) ∧
      typeAtom L s = .ok ⟨.literal ⟨read, s.cursor.span⟩, s.cursor.span⟩ (s.skipped 1) := by
  have hatom (read : ExprKind) : literalType (atom read) L s =
      .ok ⟨.literal ⟨read, s.cursor.span⟩, s.cursor.span⟩ (s.skipped 1) := rfl
  simp only [typeAtom, Reader.kind, bind_apply, cursor_apply, pure_apply, Ending.andThen_ok, hs]
  cases h with
  | int value radix => exact ⟨_, .int value radix, rfl, hatom _⟩
  | float value => exact ⟨_, .float value, rfl, hatom _⟩
  | bool value => exact ⟨_, .bool value, rfl, hatom _⟩
  | @str written layout multiline pieces parts laid =>
    refine ⟨.str (unbrokenSegments pieces) (layoutOf multiline pieces), .str ?_ (layoutWritten_layoutOf _ _), ?_, ?_⟩
    · exact segmentsWritten_unbroken parts.fragmentless
    · simp only [ExprKind.moved, parts.moved, laid.moved]
    · simp only [literalType, bind_apply, stringLiteral_apply multiline parts, pure_apply, Ending.andThen_ok]

/-! ## Atoms -/

theorem typeAtom_of_name {text : String} (h : s.cursor.kind = .name text) :
    typeAtom L s = typeOfName text ((BuiltinType.ofName? text).elim (.name text) .builtin) L s := by
  simp only [typeAtom, Reader.kind, bind_apply, cursor_apply, pure_apply, Ending.andThen_ok, h]

theorem typeAtom_of_typeName {text : String} (h : s.cursor.kind = .typeName text) :
    typeAtom L s = typeOfName text (.typeName text) L s := by
  simp only [typeAtom, Reader.kind, bind_apply, cursor_apply, pure_apply, Ending.andThen_ok, h]

theorem typeAtom_of_lParen (h : s.cursor.kind = .mark .lParen) : typeAtom L s = typeParens L s := by
  simp only [typeAtom, Reader.kind, bind_apply, cursor_apply, pure_apply, Ending.andThen_ok, h]

/-! ## Labels -/

theorem argLabel_apply (L : Level) (s : State) :
    argLabel L s =
      if (s.cursor.peek 1).isMark .colon then
        (labelOf? s.cursor.kind).elim (.ok none s) fun label => .ok (some label) (s.skipped 2)
      else .ok none s := by
  simp only [argLabel, Reader.kind, Reader.peek, bind_apply, cursor_apply, pure_apply, Ending.andThen_ok]
  cases s.cursor.kind with
  | word word => cases word <;> cases s.cursor.peek 1 with
    | mark mark => cases mark <;> rfl
    | _ => rfl
  | _ => cases s.cursor.peek 1 with
    | mark mark => cases mark <;> rfl
    | _ => rfl

/-! ## Between parentheses -/

section

variable {α : Type} {item : Reader α} {close : Mark} {t u : State}

theorem separatedUpTo_of_close (h : s.cursor.kind.isMark close = true) (fuel : Nat) :
    separatedUpTo close item fuel L s = .ok [] s := by
  cases fuel with
  | zero => rfl
  | succ fuel => simp only [separatedUpTo, bind_apply, atMark_apply, choose_apply, h, if_true, pure_apply, Ending.andThen_ok]

theorem separatedUpTo_succ_apply (close : Mark) (item : Reader α) (fuel : Nat) (L : Level) (s : State) :
    separatedUpTo close item (fuel + 1) L s =
      if s.cursor.kind.isMark close then .ok [] s
      else Ending.andThen (item L s) fun first t =>
        if t.cursor.kind.isMark .comma then
          Ending.andThen (separatedUpTo close item fuel L (t.skipped 1)) fun rest => .ok (first :: rest)
        else .ok [first] t := by
  simp only [separatedUpTo, bind_apply, atMark_apply, choose_apply, takeMark_apply, pure_apply, Ending.andThen_ok]
  cases s.cursor.kind.isMark close with
  | true => rfl
  | false =>
    simp only [Bool.false_eq_true, if_false]
    refine congrArg (Ending.andThen _) (funext fun first => funext fun t => ?_)
    cases t.cursor.kind.isMark .comma <;> rfl

theorem separatedUpTo_of_item {first : α} (h : s.cursor.kind.isMark close = false) (hitem : item L s = .ok first t)
    (fuel : Nat) :
    separatedUpTo close item (fuel + 1) L s =
      if t.cursor.kind.isMark .comma then
        Ending.andThen (separatedUpTo close item fuel L (t.skipped 1)) fun rest => .ok (first :: rest)
      else .ok [first] t := by
  rw [separatedUpTo_succ_apply, h, hitem]
  rfl

end

/-- The closing parenthesis, or the fault that it is missing. -/
def closed {α : Type} (t : State) (result : Span → α) : Ending α :=
  if t.cursor.kind.isMark .rParen then .ok (result t.cursor.span) (t.skipped 1)
  else .error (.ofCause t.cursor.span (.missing (.mark .rParen) t.cursor.kind none)) t

/-- A name alone, or a name with arguments. -/
theorem typeOfName_apply (L : Level) (s : State) (text : String) (type : TypeKind) :
    typeOfName text type L s =
      if (s.skipped 1).cursor.kind.isMark .lParen then
        Ending.andThen (separatedUpTo .rParen typeArg (s.skipped 2).cursor.left L (s.skipped 2)) fun args t =>
          closed t fun closing => ⟨.call text s.cursor.span args, s.cursor.span.cover closing⟩
      else .ok ⟨type, s.cursor.span⟩ (s.skipped 1) := by
  have hk : s.cursor.advance.kind = (s.skipped 1).cursor.kind := rfl
  simp only [typeOfName, bind_apply, advance_apply, atMark_apply, choose_apply, pure_apply, Ending.andThen_ok, hk]
  cases hcalled : (s.skipped 1).cursor.kind.isMark .lParen with
  | false => rfl
  | true =>
    simp only [if_true, typeCall, bind_apply, needMark_apply, hk, hcalled, separated, tokensLeft, cursor_apply,
      pure_apply, Ending.andThen_ok]
    refine congrArg (Ending.andThen _) (funext fun args => funext fun t => ?_)
    unfold closed
    cases t.cursor.kind.isMark .rParen <;> rfl

theorem typeOfName_alone {text : String} {type : TypeKind} (h : s.cursor.kinds = kind :: next :: more)
    (mid : kind.isDone = false) (hnext : next.isMark .lParen = false) :
    typeOfName text type L s = .ok ⟨type, s.cursor.span⟩ (s.skipped 1) := by
  have hk : (s.skipped 1).cursor.kind = next := Cursor.kind_of_kinds (Cursor.kinds_advance h mid)
  rw [typeOfName_apply, hk, hnext]
  rfl

theorem typeOfName_called {text : String} {type : TypeKind} (h : s.cursor.kinds = kind :: .mark .lParen :: more)
    (mid : kind.isDone = false) :
    typeOfName text type L s =
      Ending.andThen (separatedUpTo .rParen typeArg (s.skipped 2).cursor.left L (s.skipped 2)) fun args t =>
        closed t fun closing => ⟨.call text s.cursor.span args, s.cursor.span.cover closing⟩ := by
  have hk : (s.skipped 1).cursor.kind = .mark .lParen := Cursor.kind_of_kinds (Cursor.kinds_advance h mid)
  rw [typeOfName_apply, hk]
  rfl

/-- `(a)` is a group and `(a, b)` a tuple, in types and in values. -/
def parensOf {α β : Type} (wanted : Wanted) (advice : Advice) (item : Reader α) (group : α → Span → β)
    (tuple : List α → Span → β) : Reader β := do
  let opening ← needMark .lParen
  if ← atMark .rParen then
    failAdvised wanted advice
  let first ← item
  if ← takeMark .comma then
    if ← atMark .rParen then
      let span := opening.cover (← advance).span
      record (.ofCause span .singleElementTuple)
      return group first span
    let rest ← separated .rParen item
    let closing ← needMark .rParen
    return tuple (first :: rest) (opening.cover closing)
  else
    let closing ← needMark .rParen
    return group first (opening.cover closing)

theorem typeParens_eq : typeParens =
    parensOf .type .emptyTypeParens type (fun first span => ⟨.group first, span⟩) fun items span => ⟨.tuple items, span⟩ :=
  rfl

theorem parens_eq : parens =
    parensOf .expression .emptyParens (Reader.expr .value) (fun first span => ⟨.group first, span⟩)
      fun items span => ⟨.tuple items, span⟩ :=
  rfl

section

variable {α β : Type} {wanted : Wanted} {advice : Advice} {item : Reader α} {group : α → Span → β}
  {tuple : List α → Span → β}

theorem parensOf_apply (h : s.cursor.kind.isMark .lParen = true) (hempty : (s.skipped 1).cursor.kind.isMark .rParen = false) :
    parensOf wanted advice item group tuple L s =
      Ending.andThen (item L (s.skipped 1)) fun first t =>
        if t.cursor.kind.isMark .comma then
          if (t.skipped 1).cursor.kind.isMark .rParen then
            let span := s.cursor.span.cover (t.skipped 1).cursor.span
            .ok (group first span) ((t.skipped 2).withFault L.options (.ofCause span .singleElementTuple))
          else
            Ending.andThen (separatedUpTo .rParen item (t.skipped 1).cursor.left L (t.skipped 1)) fun rest u =>
              closed u fun closing => tuple (first :: rest) (s.cursor.span.cover closing)
        else closed t fun closing => group first (s.cursor.span.cover closing) := by
  have hempty' : s.cursor.advance.kind.isMark .rParen = false := hempty
  simp only [parensOf, bind_apply, needMark_apply, h, if_true, Ending.andThen_ok, atMark_apply, choose_apply, hempty',
    Bool.false_eq_true, if_false, takeMark_apply]
  refine congrArg (Ending.andThen _) (funext fun first => funext fun t => ?_)
  cases t.cursor.kind.isMark .comma with
  | false =>
    simp only [Bool.false_eq_true, if_false, Ending.andThen_ok, closed]
    cases t.cursor.kind.isMark .rParen <;> rfl
  | true =>
    simp only [if_true, Ending.andThen_ok]
    change (if (t.skipped 1).cursor.kind.isMark .rParen then _ else _) = _
    cases (t.skipped 1).cursor.kind.isMark .rParen with
    | true =>
      simp only [if_true, advance_apply, Ending.andThen_ok, record_apply, pure_apply]
      rfl
    | false =>
      simp only [Bool.false_eq_true, if_false, separated, tokensLeft, cursor_apply, bind_apply, Ending.andThen_ok,
        pure_apply]
      refine congrArg (Ending.andThen _) (funext fun rest => funext fun u => ?_)
      unfold closed
      cases u.cursor.kind.isMark .rParen <;> rfl

/-- What is read so begins with a parenthesis that is not closed at once. -/
theorem parensOf_begins {result : β} {t : State} (h : parensOf wanted advice item group tuple L s = .ok result t) :
    s.cursor.kind.isMark .lParen = true ∧ (s.skipped 1).cursor.kind.isMark .rParen = false := by
  obtain ⟨opening, u, hopening, h⟩ := ok_of_bind h
  rw [needMark_apply] at hopening
  split at hopening
  · rename_i hmark
    cases hopening
    refine ⟨hmark, ?_⟩
    cases hempty : (s.skipped 1).cursor.kind.isMark .rParen with
    | false => rfl
    | true =>
      have hk : s.cursor.advance.kind.isMark .rParen = true := hempty
      simp only [bind_apply, atMark_apply, choose_apply, hk] at h
      cases h
  · cases hopening

end

/-! ## Readings -/

theorem Written.argLabel_apply {n : Nat} {type : TypeExpr} (h : Written n (.type type) kinds)
    (hnext : next.isMark .colon = false) (hs : s.cursor.kinds = kinds ++ next :: more) : argLabel L s = .ok none s := by
  obtain ⟨first, second, rest, heq, hlabel⟩ : ∃ first second rest, kinds ++ next :: more = first :: second :: rest ∧ _ :=
    h.unlabelled trivial hnext
  rw [heq] at hs
  rw [JuiceSyntax.argLabel_apply, Cursor.peek_of_kinds hs, Cursor.kind_of_kinds hs]
  obtain hfirst | hsecond := hlabel
  · rw [hfirst]
    split <;> rfl
  · rw [hsecond]
    rfl

/-- What it is to read a phrase that these tokens write. The operators of a type are read by turns of a
loop; whatever bound the loop still has after them is left. -/
def Reads (setting : Setting) (n : Nat) : TypePhrase → List Kind → Prop
  | .type type, kinds => ∀ s next more, s.cursor.kinds = kinds ++ next :: more → next.isMark .lParen = false →
      ∃ (first read : TypeExpr) (used turns : Nat), read.unplaced = type.unplaced ∧ used + turns ≤ kinds.length ∧
        typeAtom (level setting n) s = .ok first (s.skipped used) ∧
        ∀ fuel, typeRestUpTo first (fuel + turns) (level setting n) (s.skipped used) =
          typeRestUpTo read fuel (level setting n) (s.skipped kinds.length)
  | .atom type, kinds => ∀ s next more, s.cursor.kinds = kinds ++ next :: more → next.isMark .lParen = false →
      ∃ read : TypeExpr, read.unplaced = type.unplaced ∧
        typeAtom (level setting n) s = .ok read (s.skipped kinds.length)
  | .arg arg, kinds => ∀ s next more, s.cursor.kinds = kinds ++ .mark next :: more → next = .comma ∨ next = .rParen →
      ∃ read : TypeArg, read.unplaced = arg.unplaced ∧
        typeArg (level setting n) s = .ok read (s.skipped kinds.length)
  | .args args, kinds => ∀ s more fuel, s.cursor.kinds = kinds ++ .mark .rParen :: more → kinds.length < fuel →
      ∃ read : List TypeArg, read.map (·.unplaced) = args.map (·.unplaced) ∧
        separatedUpTo .rParen typeArg fuel (level setting n) s = .ok read (s.skipped kinds.length)
  | .items types, kinds => ∀ s more fuel, s.cursor.kinds = kinds ++ .mark .rParen :: more → kinds.length < fuel →
      ∃ read : List TypeExpr, read.map (·.unplaced) = types.map (·.unplaced) ∧
        separatedUpTo .rParen Reader.type fuel (level setting n) s = .ok read (s.skipped kinds.length)

/-- No operator, and no parenthesis that would make a call of the name before it. -/
def Kind.EndsType (kind : Kind) : Prop :=
  kind.isMark .pipe = false ∧ kind.isMark .amp = false ∧ kind.isMark .lParen = false

variable {setting : Setting} {n : Nat}

theorem typeRestUpTo_succ_apply (left : TypeExpr) (fuel : Nat) (L : Level) (s : State) :
    typeRestUpTo left (fuel + 1) L s =
      match TypeOp.ofKind? s.cursor.kind with
      | some op =>
        Ending.andThen (typeAtom L (s.skipped 1)) fun right t =>
          typeRestUpTo ⟨.binary op left right, left.span.cover right.span⟩ fuel L t
      | none => .ok left s := by
  simp only [typeRestUpTo, Reader.kind, bind_apply, cursor_apply, pure_apply, Ending.andThen_ok]
  cases TypeOp.ofKind? s.cursor.kind with
  | none => rfl
  | some op => 
    simp only [bind_apply, advance_apply, Ending.andThen_ok]
    rfl

theorem TypeOp.ofKind?_mark (op : TypeOp) : TypeOp.ofKind? (.mark op.mark) = some op := by
  cases op <;> rfl

theorem kind_of_typeOp {op : TypeOp} (h : TypeOp.ofKind? kind = some op) : kind = .mark op.mark := by
  unfold TypeOp.ofKind? at h
  split at h
  · cases h
    rfl
  · cases h
    rfl
  · cases h

theorem typeRestUpTo_ends {left : TypeExpr} (h : s.cursor.kind.EndsType) (fuel : Nat) :
    typeRestUpTo left fuel L s = .ok left s := by
  cases fuel with
  | zero => rfl
  | succ fuel =>
    rw [typeRestUpTo_succ_apply]
    cases hop : TypeOp.ofKind? s.cursor.kind with
    | none => rfl
    | some op =>
      rw [kind_of_typeOp hop] at h
      cases op with
      | union => exact absurd h.1 (by decide)
      | intersection => exact absurd h.2.1 (by decide)

theorem Reads.typeExpr {type : TypeExpr} (h : Reads setting n (.type type) kinds)
    (written : Written n (.type type) kinds) (hs : s.cursor.kinds = kinds ++ next :: more) (hnext : next.EndsType) :
    ∃ read : TypeExpr, read.unplaced = type.unplaced ∧
      typeExpr (level setting n) s = .ok read (s.skipped kinds.length) := by
  obtain ⟨first, read, used, turns, hread, hle, hfirst, hrest⟩ := h s next more hs hnext.2.2
  have hends : (s.skipped kinds.length).cursor.kind.EndsType := by
    rwa [Cursor.kind_of_kinds (written.kinds_skipped hs)]
  have hleft : turns ≤ (s.skipped used).cursor.left := by
    have hlength := congrArg List.length hs
    rw [Cursor.length_kinds, List.length_append] at hlength
    have hskip : s.cursor.left ≤ (s.skipped used).cursor.left + used := s.cursor.left_skip used
    omega
  refine ⟨read, hread, ?_⟩
  have heq := hrest ((s.skipped used).cursor.left - turns)
  rw [Nat.sub_add_cancel hleft, typeRestUpTo_ends hends] at heq
  simp only [Grammar.typeExpr, bind_apply, hfirst, Ending.andThen_ok, tokensLeft, cursor_apply, pure_apply, heq]

section

variable {type : TypeExpr} {kinds' : List Kind}

theorem ofName?_name (type : BuiltinType) : BuiltinType.ofName? type.name = some type := by
  cases type <;> decide

theorem reads_builtin (builtin : BuiltinType) (span : Span) :
    Reads setting n (.atom ⟨.builtin builtin, span⟩) [.name builtin.name] := by
  intro s next more hs hnext
  refine ⟨⟨.builtin builtin, s.cursor.span⟩, rfl, ?_⟩
  rw [typeAtom_of_name (Cursor.kind_of_kinds hs), typeOfName_alone hs rfl hnext, ofName?_name]
  rfl

theorem reads_name {text : String} (h : BuiltinType.ofName? text = none) (span : Span) :
    Reads setting n (.atom ⟨.name text, span⟩) [.name text] := by
  intro s next more hs hnext
  refine ⟨⟨.name text, s.cursor.span⟩, rfl, ?_⟩
  rw [typeAtom_of_name (Cursor.kind_of_kinds hs), typeOfName_alone hs rfl hnext, h]
  rfl

theorem reads_typeName (text : String) (span : Span) :
    Reads setting n (.atom ⟨.typeName text, span⟩) [.typeName text] := by
  intro s next more hs hnext
  refine ⟨⟨.typeName text, s.cursor.span⟩, rfl, ?_⟩
  rw [typeAtom_of_typeName (Cursor.kind_of_kinds hs), typeOfName_alone hs rfl hnext]
  rfl

theorem reads_literal {value : Expr} (h : LiteralWritten value.kind kind) (span : Span) :
    Reads setting n (.atom ⟨.literal value, span⟩) [kind] := by
  intro s next more hs hnext
  obtain ⟨read, -, hmoved, heq⟩ := typeAtom_of_literal (L := level setting n) h (Cursor.kind_of_kinds hs)
  refine ⟨_, ?_, heq⟩
  obtain ⟨value, valueSpan⟩ := value
  rw [TypeExpr.unplaced_literal, TypeExpr.unplaced_literal, hmoved]

theorem closed_of_kinds {α : Type} (h : s.cursor.kinds = .mark .rParen :: more) (result : Span → α) :
    closed s result = .ok (result s.cursor.span) (s.skipped 1) := by
  rw [closed, Cursor.kind_of_kinds h]
  rfl

/-- The bound of a loop that begins here is enough for these tokens and one more. -/
theorem length_lt_left (h : s.cursor.kinds = kinds ++ next :: more) : kinds.length < s.cursor.left := by
  have hlength := congrArg List.length h
  rw [Cursor.length_kinds, List.length_append, List.length_cons] at hlength
  omega

theorem reads_call {callee : String} {head : Kind} {args : List TypeArg} (named : CalleeWritten callee head)
    (written : Written n (.args args) kinds) (h : Reads setting n (.args args) kinds) (calleeSpan span : Span) :
    Reads setting n (.atom ⟨.call callee calleeSpan args, span⟩)
      (head :: .mark .lParen :: (kinds ++ [.mark .rParen])) := by
  intro s next more hs hnext
  have hinner : (s.skipped 2).cursor.kinds = kinds ++ .mark .rParen :: next :: more := by
    rw [← s.skipped_skipped 1 1]
    simpa using skipped_one (skipped_one hs named.undone) rfl
  obtain ⟨read, hread, heq⟩ := h _ _ _ hinner (length_lt_left hinner)
  have hclose := closed_of_kinds (written.kinds_skipped hinner) fun closing =>
    (⟨.call callee s.cursor.span read, s.cursor.span.cover closing⟩ : TypeExpr)
  refine ⟨⟨.call callee s.cursor.span read, s.cursor.span.cover ((s.skipped 2).skipped kinds.length).cursor.span⟩, ?_, ?_⟩
  · rw [TypeExpr.unplaced_call, TypeExpr.unplaced_call, hread]
  have hend : ((s.skipped 2).skipped kinds.length).skipped 1 =
      s.skipped (head :: Kind.mark .lParen :: (kinds ++ [.mark .rParen])).length := by
    simp only [State.skipped_skipped, List.length_cons, List.length_append, List.length_nil]
    congr 1
    omega
  have hname (type : TypeKind) : typeOfName callee type (level setting n) s = _ := typeOfName_called hs named.undone
  rw [heq, Ending.andThen_ok, hclose, hend] at hname
  cases named with
  | name => rw [typeAtom_of_name (Cursor.kind_of_kinds hs), hname]
  | typeName => rw [typeAtom_of_typeName (Cursor.kind_of_kinds hs), hname]

theorem level_type_reads {type : TypeExpr} (written : Written n (.type type) kinds)
    (h : Reads setting n (.type type) kinds) (hs : s.cursor.kinds = kinds ++ next :: more) (hnext : next.EndsType) :
    ∃ read : TypeExpr, read.unplaced = type.unplaced ∧
      Reader.type (level setting (n + 1)) s = .ok read (s.skipped kinds.length) :=
  h.typeExpr written hs hnext

/-- A type in parentheses with a closing parenthesis after it. -/
theorem typeParens_of_close {first : TypeExpr} {t : State} (h : s.cursor.kind.isMark .lParen = true)
    (hempty : (s.skipped 1).cursor.kind.isMark .rParen = false) (hfirst : Reader.type L (s.skipped 1) = .ok first t)
    (ht : t.cursor.kinds = .mark .rParen :: more) :
    typeParens L s = .ok ⟨.group first, s.cursor.span.cover t.cursor.span⟩ (t.skipped 1) := by
  have hcomma : t.cursor.kind.isMark .comma = false := by
    rw [Cursor.kind_of_kinds ht]
    rfl
  simp only [typeParens_eq, parensOf_apply h hempty, hfirst, Ending.andThen_ok, hcomma, Bool.false_eq_true, if_false,
    closed_of_kinds ht]

/-- A type in parentheses with a comma and more types after it. -/
theorem typeParens_of_comma {first : TypeExpr} {rest : List TypeExpr} {t u : State}
    (h : s.cursor.kind.isMark .lParen = true) (hempty : (s.skipped 1).cursor.kind.isMark .rParen = false)
    (hfirst : Reader.type L (s.skipped 1) = .ok first t) (ht : t.cursor.kind.isMark .comma = true)
    (hmore : (t.skipped 1).cursor.kind.isMark .rParen = false)
    (hrest : separatedUpTo .rParen Reader.type (t.skipped 1).cursor.left L (t.skipped 1) = .ok rest u)
    (hu : u.cursor.kinds = .mark .rParen :: more) :
    typeParens L s = .ok ⟨.tuple (first :: rest), s.cursor.span.cover u.cursor.span⟩ (u.skipped 1) := by
  simp only [typeParens_eq, parensOf_apply h hempty, hfirst, Ending.andThen_ok, ht, if_true, hmore, Bool.false_eq_true, if_false,
    hrest, closed_of_kinds hu]

theorem reads_group {type : TypeExpr} (written : Written n (.type type) kinds)
    (h : Reads setting n (.type type) kinds) (span : Span) :
    Reads setting (n + 1) (.atom ⟨.group type, span⟩) (.mark .lParen :: (kinds ++ [.mark .rParen])) := by
  intro s next more hs hnext
  have hinner : (s.skipped 1).cursor.kinds = kinds ++ .mark .rParen :: next :: more := by
    simpa using skipped_one hs rfl
  obtain ⟨read, hread, heq⟩ := level_type_reads written h hinner ⟨rfl, rfl, rfl⟩
  obtain ⟨first, rest, rfl, hfirst⟩ := written.begins trivial
  have hkind : s.cursor.kind = .mark .lParen := Cursor.kind_of_kinds hs
  have hparens := typeParens_of_close (by rw [hkind]; rfl) (by rwa [Cursor.kind_of_kinds hinner]) heq
    (written.kinds_skipped hinner)
  have hend : ((s.skipped 1).skipped (first :: rest).length).skipped 1 =
      s.skipped (Kind.mark .lParen :: (first :: rest ++ [.mark .rParen])).length := by
    simp only [State.skipped_skipped, List.length_cons, List.length_append, List.length_nil]
    congr 1
    omega
  rw [hend] at hparens
  refine ⟨_, ?_, (typeAtom_of_lParen hkind).trans hparens⟩
  rw [TypeExpr.unplaced_group, TypeExpr.unplaced_group, hread]

theorem reads_tuple {first : TypeExpr} {rest : List TypeExpr} (head : Written n (.type first) kinds)
    (more : rest ≠ []) (tail : Written (n + 1) (.items rest) kinds') (h : Reads setting n (.type first) kinds)
    (h' : Reads setting (n + 1) (.items rest) kinds') (span : Span) :
    Reads setting (n + 1) (.atom ⟨.tuple (first :: rest), span⟩)
      (.mark .lParen :: (kinds ++ .mark .comma :: (kinds' ++ [.mark .rParen]))) := by
  intro s next more' hs hnext
  have hinner : (s.skipped 1).cursor.kinds = kinds ++ .mark .comma :: (kinds' ++ .mark .rParen :: next :: more') := by
    simpa using skipped_one hs rfl
  obtain ⟨read, hread, heq⟩ := level_type_reads head h hinner ⟨rfl, rfl, rfl⟩
  have hcomma := head.kinds_skipped hinner
  have hitems := skipped_one hcomma rfl
  obtain ⟨reads, hreads, heq'⟩ := h' _ _ _ hitems (length_lt_left hitems)
  have hclosing := tail.kinds_skipped hitems
  -- Neither list is empty, so no parenthesis closes where a type is due.
  obtain ⟨kind, others, rfl, hkind⟩ := head.begins trivial
  obtain ⟨kind', others', rfl, hkind'⟩ := tail.items_begin more
  have hopening : s.cursor.kind = .mark .lParen := Cursor.kind_of_kinds hs
  have hparens := typeParens_of_comma (by rw [hopening]; rfl) (by rwa [Cursor.kind_of_kinds hinner]) heq
    (by rw [Cursor.kind_of_kinds hcomma]; rfl) (by rwa [Cursor.kind_of_kinds hitems]) heq' hclosing
  have hend : ((((s.skipped 1).skipped (kind :: others).length).skipped 1).skipped (kind' :: others').length).skipped 1 =
      s.skipped (Kind.mark .lParen :: (kind :: others ++ .mark .comma :: (kind' :: others' ++ [.mark .rParen]))).length := by
    simp only [State.skipped_skipped, List.length_cons, List.length_append, List.length_nil]
    congr 1
    omega
  rw [hend] at hparens
  refine ⟨_, ?_, (typeAtom_of_lParen hopening).trans hparens⟩
  rw [TypeExpr.unplaced_tuple, TypeExpr.unplaced_tuple, List.map_cons, List.map_cons, hread, hreads]

theorem reads_binary {left right : TypeExpr} (op : TypeOp) (front : Written n (.type left) kinds)
    (h : Reads setting n (.type left) kinds) (h' : Reads setting n (.atom right) kinds') (span : Span) :
    Reads setting n (.type ⟨.binary op left right, span⟩) (kinds ++ .mark op.mark :: kinds') := by
  intro s next more hs hnext
  rw [List.append_assoc, List.cons_append] at hs
  obtain ⟨first, read, used, turns, hread, hle, hfirst, hrest⟩ := h s _ _ hs (op.isMark_mark (by decide))
  have hop := front.kinds_skipped hs
  have hoperand := skipped_one hop rfl
  obtain ⟨read', hread', heq⟩ := h' _ _ _ hoperand hnext
  have hturn (fuel : Nat) : typeRestUpTo read (fuel + 1) (level setting n) (s.skipped kinds.length) =
      typeRestUpTo ⟨.binary op read read', read.span.cover read'.span⟩ fuel (level setting n)
        (((s.skipped kinds.length).skipped 1).skipped kinds'.length) := by
    simp only [typeRestUpTo_succ_apply, Cursor.kind_of_kinds hop, op.ofKind?_mark, heq, Ending.andThen_ok]
  have hend : ((s.skipped kinds.length).skipped 1).skipped kinds'.length =
      s.skipped (kinds ++ Kind.mark op.mark :: kinds').length := by
    simp only [State.skipped_skipped, List.length_cons, List.length_append]
    congr 1
    omega
  refine ⟨first, ⟨.binary op read read', read.span.cover read'.span⟩, used, turns + 1, ?_, ?_, hfirst, fun fuel => ?_⟩
  · rw [TypeExpr.unplaced_binary, TypeExpr.unplaced_binary, hread, hread']
  · rw [List.length_append, List.length_cons]
    omega
  · rw [← hend, ← hturn, ← hrest, Nat.add_assoc, Nat.add_comm 1]

theorem reads_atom {type : TypeExpr} (h : Reads setting n (.atom type) kinds) : Reads setting n (.type type) kinds := by
  intro s next more hs hnext
  obtain ⟨read, hread, heq⟩ := h s next more hs hnext
  exact ⟨read, read, kinds.length, 0, hread, Nat.le_refl _, heq, fun _ => rfl⟩

theorem typeArg_apply (L : Level) (s : State) :
    typeArg L s = Ending.andThen (argLabel L s) fun label t => Ending.andThen (Reader.type L t) fun value =>
      .ok ⟨label, value, s.cursor.span.cover value.span⟩ := by
  simp only [typeArg, here, bind_apply, cursor_apply, pure_apply, Ending.andThen_ok]

theorem endsType_of_list {mark : Mark} (h : mark = .comma ∨ mark = .rParen) : (Kind.mark mark).EndsType := by
  obtain rfl | rfl := h
  · exact ⟨rfl, rfl, rfl⟩
  · exact ⟨rfl, rfl, rfl⟩

theorem reads_plain {value : TypeExpr} (written : Written n (.type value) kinds)
    (h : Reads setting n (.type value) kinds) (span : Span) : Reads setting (n + 1) (.arg ⟨none, value, span⟩) kinds := by
  intro s next more hs hnext
  obtain ⟨read, hread, heq⟩ := level_type_reads written h hs (endsType_of_list hnext)
  have hlabel : argLabel (level setting (n + 1)) s = .ok none s := by
    refine written.argLabel_apply ?_ hs
    obtain rfl | rfl := hnext <;> rfl
  refine ⟨⟨none, read, s.cursor.span.cover read.span⟩, ?_, ?_⟩
  · rw [TypeArg.unplaced_mk, TypeArg.unplaced_mk, hread]
  · simp only [typeArg_apply, hlabel, Ending.andThen_ok, heq]

theorem reads_labelled {label : String} {value : TypeExpr} (named : LabelWritten label kind)
    (written : Written n (.type value) kinds) (h : Reads setting n (.type value) kinds) (span : Span) :
    Reads setting (n + 1) (.arg ⟨some label, value, span⟩) (kind :: .mark .colon :: kinds) := by
  intro s next more hs hnext
  have hlabel : argLabel (level setting (n + 1)) s = .ok (some label) (s.skipped 2) := by
    rw [argLabel_apply, Cursor.peek_of_kinds hs, Cursor.kind_of_kinds hs, named.labelOf?]
    rfl
  have hvalue : (s.skipped 2).cursor.kinds = kinds ++ .mark next :: more := by
    rw [← s.skipped_skipped 1 1]
    exact skipped_one (skipped_one hs named.undone) rfl
  obtain ⟨read, hread, heq⟩ := level_type_reads written h hvalue (endsType_of_list hnext)
  refine ⟨⟨some label, read, s.cursor.span.cover read.span⟩, ?_, ?_⟩
  · rw [TypeArg.unplaced_mk, TypeArg.unplaced_mk, hread]
  · simp only [typeArg_apply, hlabel, Ending.andThen_ok, heq, State.skipped_skipped, Nat.add_comm 2, List.length_cons]

/-! ### Lists -/

variable {α : Type} {item : Reader α} {first : α} {rest : List α} {fuel : Nat}

theorem separatedUpTo_last {head : Kind} {tail : List Kind} (begins : kinds = head :: tail)
    (hhead : head.isMark .rParen = false) (midway : Midway kinds) (hs : s.cursor.kinds = kinds ++ .mark .rParen :: more)
    (hfirst : item L s = .ok first (s.skipped kinds.length)) (hfuel : kinds.length < fuel) :
    separatedUpTo .rParen item fuel L s = .ok [first] (s.skipped kinds.length) := by
  obtain ⟨fuel, rfl⟩ : ∃ bound, fuel = bound + 1 := ⟨fuel - 1, by omega⟩
  have hopen : s.cursor.kind.isMark .rParen = false := by
    rw [begins] at hs
    rwa [Cursor.kind_of_kinds hs]
  have hclose : (s.skipped kinds.length).cursor.kinds = .mark .rParen :: more := Cursor.kinds_skip hs midway
  rw [separatedUpTo_of_item hopen hfirst, Cursor.kind_of_kinds hclose]
  rfl

theorem separatedUpTo_next {head : Kind} {tail : List Kind} (begins : kinds = head :: tail)
    (hhead : head.isMark .rParen = false) (midway : Midway kinds) (hs : s.cursor.kinds = kinds ++ .mark .comma :: more)
    (hfirst : item L s = .ok first (s.skipped kinds.length))
    (hrest : separatedUpTo .rParen item fuel L ((s.skipped kinds.length).skipped 1) =
      .ok rest (((s.skipped kinds.length).skipped 1).skipped kinds'.length)) :
    separatedUpTo .rParen item (fuel + 1) L s = .ok (first :: rest) (s.skipped (kinds ++ .mark .comma :: kinds').length) := by
  have hopen : s.cursor.kind.isMark .rParen = false := by
    rw [begins] at hs
    rwa [Cursor.kind_of_kinds hs]
  have hcomma : (s.skipped kinds.length).cursor.kinds = .mark .comma :: more := Cursor.kinds_skip hs midway
  have hend : ((s.skipped kinds.length).skipped 1).skipped kinds'.length =
      s.skipped (kinds ++ .mark .comma :: kinds').length := by
    simp only [State.skipped_skipped, List.length_cons, List.length_append]
    congr 1
    omega
  rw [separatedUpTo_of_item hopen hfirst, Cursor.kind_of_kinds hcomma, hrest, hend]
  rfl

theorem reads_lastArg {arg : TypeArg} (last : Written n (.arg arg) kinds) (h : Reads setting n (.arg arg) kinds) :
    Reads setting n (.args [arg]) kinds := by
  intro s more fuel hs hfuel
  obtain ⟨read, hread, heq⟩ := h s _ _ hs (.inr rfl)
  obtain ⟨kind, rest, hbegins, hkind⟩ := last.begins trivial
  refine ⟨[read], ?_, separatedUpTo_last hbegins hkind last.midway hs heq hfuel⟩
  rw [List.map_singleton, List.map_singleton, hread]

theorem reads_lastItem {type : TypeExpr} (last : Written n (.type type) kinds) (h : Reads setting n (.type type) kinds) :
    Reads setting (n + 1) (.items [type]) kinds := by
  intro s more fuel hs hfuel
  obtain ⟨read, hread, heq⟩ := level_type_reads last h hs ⟨rfl, rfl, rfl⟩
  obtain ⟨kind, rest, hbegins, hkind⟩ := last.begins trivial
  refine ⟨[read], ?_, separatedUpTo_last hbegins hkind last.midway hs heq hfuel⟩
  rw [List.map_singleton, List.map_singleton, hread]

theorem reads_nextArg {arg : TypeArg} {rest : List TypeArg} (first : Written n (.arg arg) kinds)
    (h : Reads setting n (.arg arg) kinds) (h' : Reads setting n (.args rest) kinds') :
    Reads setting n (.args (arg :: rest)) (kinds ++ .mark .comma :: kinds') := by
  intro s more fuel hs hfuel
  rw [List.append_assoc, List.cons_append] at hs
  rw [List.length_append, List.length_cons] at hfuel
  obtain ⟨fuel, rfl⟩ : ∃ bound, fuel = bound + 1 := ⟨fuel - 1, by omega⟩
  obtain ⟨read, hread, heq⟩ := h s _ _ hs (.inl rfl)
  have hothers := skipped_one (first.kinds_skipped hs) rfl
  obtain ⟨reads, hreads, heq'⟩ := h' _ _ fuel hothers (by omega)
  obtain ⟨kind, tail, hbegins, hkind⟩ := first.begins trivial
  refine ⟨read :: reads, ?_, separatedUpTo_next hbegins hkind first.midway hs heq heq'⟩
  rw [List.map_cons, List.map_cons, hread, hreads]

theorem reads_nextItem {type : TypeExpr} {rest : List TypeExpr} (first : Written n (.type type) kinds)
    (h : Reads setting n (.type type) kinds) (h' : Reads setting (n + 1) (.items rest) kinds') :
    Reads setting (n + 1) (.items (type :: rest)) (kinds ++ .mark .comma :: kinds') := by
  intro s more fuel hs hfuel
  rw [List.append_assoc, List.cons_append] at hs
  rw [List.length_append, List.length_cons] at hfuel
  obtain ⟨fuel, rfl⟩ : ∃ bound, fuel = bound + 1 := ⟨fuel - 1, by omega⟩
  obtain ⟨read, hread, heq⟩ := level_type_reads first h hs ⟨rfl, rfl, rfl⟩
  have hothers := skipped_one (first.kinds_skipped hs) rfl
  obtain ⟨reads, hreads, heq'⟩ := h' _ _ fuel hothers (by omega)
  obtain ⟨kind, tail, hbegins, hkind⟩ := first.begins trivial
  refine ⟨read :: reads, ?_, separatedUpTo_next hbegins hkind first.midway hs heq heq'⟩
  rw [List.map_cons, List.map_cons, hread, hreads]

end

/-- Every phrase is read as it is written. -/
theorem Written.reads {phrase : TypePhrase} (h : Written n phrase kinds) : Reads setting n phrase kinds := by
  induction h with
  | builtin builtin span => exact reads_builtin builtin span
  | name other span => exact reads_name other span
  | typeName text span => exact reads_typeName text span
  | literal written span => exact reads_literal written span
  | call named inner calleeSpan span ih => exact reads_call named inner ih calleeSpan span
  | group inner span ih => exact reads_group inner ih span
  | tuple head more tail span ih ih' => exact reads_tuple head more tail ih ih' span
  | atom _ ih => exact reads_atom ih
  | binary op front _ span ih ih' => exact reads_binary op front ih ih' span
  | plain written span ih => exact reads_plain written ih span
  | labelled named written span ih => exact reads_labelled named written ih span
  | noArgs => exact fun s more fuel hs _ => ⟨[], rfl, separatedUpTo_of_close (by rw [Cursor.kind_of_kinds hs]; rfl) fuel⟩
  | lastArg last ih => exact reads_lastArg last ih
  | nextArg first _ ih ih' => exact reads_nextArg first ih ih'
  | noItems => exact fun s more fuel hs _ => ⟨[], rfl, separatedUpTo_of_close (by rw [Cursor.kind_of_kinds hs]; rfl) fuel⟩
  | lastItem last ih => exact reads_lastItem last ih
  | nextItem first _ ih ih' => exact reads_nextItem first ih ih'

end JuiceSyntax
