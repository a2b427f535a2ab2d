/-
  Tokens without their places. `bareTokens` drops the spans of tokens and of the pieces of
  strings, at any depth, and how an escape was written; two documents with the same bare tokens
  differ in layout only.

  What the grammar asks of a token is a question about its bare kind (`Kind.isMark_bare`, ...).
  Documents alike have the same places (`places_bare`), and what follows a place, or stands in a
  fragment of its token, is found as far behind it in both (`SamePlace.tail`, `SamePlace.pieces`).
-/
import JuiceSyntax.Grammar.Recovery
import JuiceSyntax.Proofs.Token.Places

namespace JuiceSyntax

mutual

def Kind.bare : Kind → Kind
  | .str multiline pieces => .str multiline (barePieces pieces)
  | .int value radix => .int value radix
  | .float value => .float value
  | .bool value => .bool value
  | .name text => .name text
  | .typeName text => .typeName text
  | .macroName text => .macroName text
  | .word word => .word word
  | .mark mark => .mark mark
  | .done => .done

def barePieces : List Piece → List Piece
  | [] => []
  | .text text _ :: rest => .text text (.point 0) :: barePieces rest
  | .escape value _ _ :: rest => .escape value "" (.point 0) :: barePieces rest
  | .fragment tokens _ :: rest => .fragment (bareTokens tokens) (.point 0) :: barePieces rest
  | .indent _ :: rest => .indent (.point 0) :: barePieces rest

def bareTokens : List Token → List Token
  | [] => []
  | ⟨kind, _⟩ :: rest => ⟨kind.bare, .point 0⟩ :: bareTokens rest

end

def Token.bare (token : Token) : Token := ⟨token.kind.bare, .point 0⟩

theorem bareTokens_cons (token : Token) (rest : List Token) :
    bareTokens (token :: rest) = token.bare :: bareTokens rest := by
  cases token
  rfl

theorem bareTokens_eq_map (tokens : List Token) : bareTokens tokens = tokens.map Token.bare := by
  induction tokens with
  | nil => rfl
  | cons token rest ih => rw [bareTokens_cons, ih, List.map_cons]

/-! ## What is seen of a kind -/

namespace Kind

@[simp] theorem isMark_bare (kind : Kind) (m : Mark) : kind.bare.isMark m = kind.isMark m := by
  cases kind <;> rfl

@[simp] theorem isWord_bare (kind : Kind) (w : Keyword) : kind.bare.isWord w = kind.isWord w := by
  cases kind <;> rfl

@[simp] theorem isDone_bare (kind : Kind) : kind.bare.isDone = kind.isDone := by
  cases kind <;> rfl

@[simp] theorem startsItem_bare (kind : Kind) : kind.bare.startsItem = kind.startsItem := by
  cases kind <;> rfl

@[simp] theorem startsStatement_bare (kind : Kind) : kind.bare.startsStatement = kind.startsStatement := by
  cases kind <;> rfl

@[simp] theorem label_bare (kind : Kind) : kind.bare.label = kind.label := by
  cases kind <;> rfl

@[simp] theorem shown_bare (kind : Kind) : kind.bare.shown = kind.shown := by
  cases kind <;> rfl

/-- Kinds that are alike are the same, or both strings. -/
theorem cases_of_bare {kind kind' : Kind} (h : kind.bare = kind'.bare) :
    (kind = kind' ∧ ∀ multiline pieces, kind ≠ .str multiline pieces) ∨
      ∃ multiline pieces pieces', kind = .str multiline pieces ∧ kind' = .str multiline pieces' := by
  cases kind <;> cases kind' <;> simp_all [bare]

end Kind

/-! ## What is seen of a token list -/

theorem length_bareTokens (tokens : List Token) : (bareTokens tokens).length = tokens.length := by
  rw [bareTokens_eq_map, List.length_map]

theorem all_isDone_bareTokens (tokens : List Token) :
    (bareTokens tokens).all (·.kind.isDone) = tokens.all (·.kind.isDone) := by
  rw [bareTokens_eq_map, List.all_map]
  congr 1
  funext token
  exact token.kind.isDone_bare

theorem groupLength_bareTokens (depth : Nat) (tokens : List Token) :
    groupLength depth (bareTokens tokens) = groupLength depth tokens := by
  induction tokens generalizing depth with
  | nil => rfl
  | cons token rest ih =>
    rw [bareTokens_cons, groupLength, groupLength]
    simp only [Token.bare, Kind.isDone_bare, Kind.isMark_bare, ih]

theorem innerLength_bareTokens (depth : Nat) (tokens : List Token) :
    innerLength depth (bareTokens tokens) = innerLength depth tokens := by
  induction tokens generalizing depth with
  | nil => rfl
  | cons token rest ih =>
    rw [bareTokens_cons]
    cases depth with
    | zero => simp only [innerLength, Token.bare, Kind.isDone_bare, Kind.isMark_bare, ih]
    | succ depth => simp only [innerLength, Token.bare, Kind.isDone_bare, Kind.isMark_bare, ih]

/-- The search resumes at kinds, whatever they hold. -/
def Resume.Blind (resume : Resume) : Prop :=
  ∀ first second, resume.starts first.bare second.bare = resume.starts first second

theorem startsBinding_bare (first second : Kind) :
    Resume.startsBinding first.bare second.bare = Resume.startsBinding first second := by
  cases first with
  | name text => cases second <;> rfl
  | _ => rfl

theorem Resume.item_blind : Resume.item.Blind := by
  intro first second
  simp only [Resume.item, Kind.startsItem_bare, startsBinding_bare]
  congr 1
  cases first with
  | typeName text => cases second <;> rfl
  | _ => rfl

theorem Resume.statement_blind : Resume.statement.Blind := by
  intro first second
  simp only [Resume.statement, Kind.startsStatement_bare, startsBinding_bare]

theorem Resume.arm_blind : Resume.arm.Blind := fun _ _ => rfl

theorem Resume.fn_blind : Resume.fn.Blind := by
  intro first second
  simp only [Resume.fn, Kind.isWord_bare]

theorem head_bareTokens (tokens : List Token) :
    (bareTokens tokens).head?.elim .done Token.kind = (tokens.head?.elim .done Token.kind).bare := by
  cases tokens with
  | nil => rfl
  | cons token rest =>
    rw [bareTokens_cons]
    rfl

theorem Resume.Blind.distance {resume : Resume} (h : resume.Blind) (depth : Nat) (tokens : List Token) :
    resume.distance depth (bareTokens tokens) = resume.distance depth tokens := by
  induction tokens generalizing depth with
  | nil => rfl
  | cons token rest ih =>
    rw [bareTokens_cons]
    have hstarts : resume.starts token.kind.bare ((bareTokens rest).head?.elim .done Token.kind) =
        resume.starts token.kind (rest.head?.elim .done Token.kind) := by
      rw [head_bareTokens]
      exact h _ _
    match depth with
    | 0 | 1 | depth + 2 =>
      simp only [Resume.distance, Token.bare, Kind.isDone_bare, Kind.isMark_bare, hstarts, ih]

/-! ## Places of documents alike -/

mutual

theorem Kind.places_bare : (kind : Kind) → kind.bare.places = kind.places.map bareTokens
  | .str _ pieces => by
    exact piecePlaces_bare pieces
  | .int _ _ | .float _ | .bool _ | .name _ | .typeName _ | .macroName _ | .word _ | .mark _ | .done => rfl

theorem piecePlaces_bare : (pieces : List Piece) → piecePlaces (barePieces pieces) = (piecePlaces pieces).map bareTokens
  | [] => rfl
  | .fragment tokens _ :: rest => by
    rw [barePieces, piecePlaces, piecePlaces, List.map_append, places_bare tokens, piecePlaces_bare rest]
  | .text _ _ :: rest => by
    rw [barePieces, piecePlaces, piecePlaces, piecePlaces_bare rest]
  | .escape _ _ _ :: rest => by
    rw [barePieces, piecePlaces, piecePlaces, piecePlaces_bare rest]
  | .indent _ :: rest => by
    rw [barePieces, piecePlaces, piecePlaces, piecePlaces_bare rest]

theorem places_bare : (tokens : List Token) → places (bareTokens tokens) = (places tokens).map bareTokens
  | [] => rfl
  | ⟨kind, span⟩ :: rest => by
    rw [bareTokens, places, places, List.map_cons, List.map_append, bareTokens, kind.places_bare, places_bare rest]

end

theorem length_places_of_bare {tokens tokens' : List Token} (h : bareTokens tokens = bareTokens tokens') :
    (places tokens).length = (places tokens').length := by
  have hmap : (places tokens).map bareTokens = (places tokens').map bareTokens := by
    rw [← places_bare, ← places_bare, h]
  simpa using congrArg List.length hmap

theorem Kind.length_places_of_bare {kind kind' : Kind} (h : kind.bare = kind'.bare) :
    kind.places.length = kind'.places.length := by
  have hmap : kind.places.map bareTokens = kind'.places.map bareTokens := by
    rw [← Kind.places_bare, ← Kind.places_bare, h]
  simpa using congrArg List.length hmap

/-- The places from one on begin with those of its own list. -/
def Nested (ps : List (List Token)) : Prop := ∀ i place, ps[i]? = some place → places place <+: ps.drop i

theorem Nested.append {ps qs : List (List Token)} (h : Nested ps) (h' : Nested qs) : Nested (ps ++ qs) := by
  intro i place hplace
  by_cases hi : i < ps.length
  · rw [List.getElem?_append_left hi] at hplace
    rw [List.drop_append_of_le_length (Nat.le_of_lt hi)]
    exact (h i place hplace).trans (List.prefix_append _ _)
  · rw [List.getElem?_append_right (by omega)] at hplace
    rw [List.drop_append, List.drop_of_length_le (by omega), List.nil_append]
    exact h' _ place hplace

theorem nested_nil : Nested [] := by
  intro i place hplace
  simp at hplace

mutual

theorem Kind.nested : (kind : Kind) → Nested kind.places
  | .str _ pieces => by
    rw [Kind.places]
    exact nested_pieces pieces
  | .int _ _ | .float _ | .bool _ | .name _ | .typeName _ | .macroName _ | .word _ | .mark _ | .done => by
    simp only [Kind.places]
    exact nested_nil

theorem nested_pieces : (pieces : List Piece) → Nested (piecePlaces pieces)
  | [] => by
    rw [piecePlaces]
    exact nested_nil
  | .fragment tokens _ :: rest => by
    rw [piecePlaces]
    exact (nested_places tokens).append (nested_pieces rest)
  | .text _ _ :: rest => by
    rw [piecePlaces]
    exact nested_pieces rest
  | .escape _ _ _ :: rest => by
    rw [piecePlaces]
    exact nested_pieces rest
  | .indent _ :: rest => by
    rw [piecePlaces]
    exact nested_pieces rest

theorem nested_places : (tokens : List Token) → Nested (places tokens)
  | [] => by
    rw [places]
    exact nested_nil
  | ⟨kind, span⟩ :: rest => by
    have hinner : Nested (kind.places ++ places rest) := (kind.nested).append (nested_places rest)
    intro i place hplace
    cases i with
    | zero =>
      rw [places, List.getElem?_cons_zero, Option.some_inj] at hplace
      subst hplace
      exact List.prefix_rfl
    | succ i =>
      rw [places, List.getElem?_cons_succ] at hplace
      rw [places, List.drop_succ_cons]
      exact hinner i place hplace

end

/-! ## The same place of two documents -/

/-- The same place of two documents, or no tokens. -/
def SamePlace (doc doc' tokens tokens' : List Token) : Prop :=
  (tokens = [] ∧ tokens' = []) ∨ ∃ i : Nat, (places doc)[i]? = some tokens ∧ (places doc')[i]? = some tokens'

section

variable {doc doc' : List Token}

theorem SamePlace.bare {tokens tokens' : List Token} (hdoc : bareTokens doc = bareTokens doc')
    (h : SamePlace doc doc' tokens tokens') : bareTokens tokens = bareTokens tokens' := by
  obtain ⟨rfl, rfl⟩ | ⟨i, hi, hi'⟩ := h
  · rfl
  · have hmap : (places doc).map bareTokens = (places doc').map bareTokens := by
      rw [← places_bare, ← places_bare, hdoc]
    have hat : ((places doc).map bareTokens)[i]? = ((places doc').map bareTokens)[i]? := by rw [hmap]
    rw [List.getElem?_map, List.getElem?_map, hi, hi'] at hat
    exact Option.some_inj.1 hat

/-- Lists alike whose places stand at the same index are the same place. -/
theorem samePlace_of_places {tokens tokens' : List Token} {i : Nat} (hbare : bareTokens tokens = bareTokens tokens')
    (h : places tokens <+: (places doc).drop i) (h' : places tokens' <+: (places doc').drop i) :
    SamePlace doc doc' tokens tokens' := by
  have hget {ps : List (List Token)} {token : Token} {rest : List Token} (hp : places (token :: rest) <+: ps.drop i) :
      ps[i]? = some (token :: rest) := by
    obtain ⟨after, hafter⟩ := hp
    have hat : (ps.drop i)[0]? = some (token :: rest) := by
      rw [← hafter, places_cons, List.cons_append, List.getElem?_cons_zero]
    rwa [List.getElem?_drop, Nat.add_zero] at hat
  have hlen := congrArg List.length hbare
  rw [length_bareTokens, length_bareTokens] at hlen
  cases tokens with
  | nil => exact .inl ⟨rfl, List.length_eq_zero_iff.1 hlen.symm⟩
  | cons token rest =>
    cases tokens' with
    | nil => exact absurd hlen (by simp)
    | cons token' rest' => exact .inr ⟨i, hget h, hget h'⟩

theorem samePlace_self (hdoc : bareTokens doc = bareTokens doc') : SamePlace doc doc' doc doc' :=
  samePlace_of_places hdoc (i := 0) List.prefix_rfl List.prefix_rfl

/-- A part of the places from `i` on, from where it stands. -/
theorem prefix_drop_of_append {ps before part after : List (List Token)} {i : Nat}
    (h : before ++ (part ++ after) <+: ps.drop i) : part <+: ps.drop (i + before.length) := by
  obtain ⟨more, hmore⟩ := h
  refine ⟨after ++ more, ?_⟩
  rw [← List.drop_drop, ← hmore, List.append_assoc, List.drop_left, List.append_assoc]

variable {token token' : Token} {rest rest' : List Token}

theorem SamePlace.tail (hdoc : bareTokens doc = bareTokens doc')
    (h : SamePlace doc doc' (token :: rest) (token' :: rest')) : SamePlace doc doc' rest rest' := by
  have hbare := h.bare hdoc
  rw [bareTokens_cons, bareTokens_cons, List.cons.injEq] at hbare
  obtain ⟨htoken, hrest⟩ := hbare
  obtain ⟨hnil, -⟩ | ⟨i, hi, hi'⟩ := h
  · exact absurd hnil (by simp)
  · have hp := nested_places doc i _ hi
    have hp' := nested_places doc' i _ hi'
    rw [places_cons, ← List.cons_append, ← List.append_nil (places rest)] at hp
    rw [places_cons, ← List.cons_append, ← List.append_nil (places rest')] at hp'
    have hlen := Kind.length_places_of_bare (congrArg Token.kind htoken)
    have hsame : (i + ((token' :: rest') :: token'.kind.places).length) =
        i + ((token :: rest) :: token.kind.places).length := by
      rw [List.length_cons, List.length_cons, hlen]
    exact samePlace_of_places hrest (prefix_drop_of_append hp) (hsame ▸ prefix_drop_of_append hp')

end

/-- The pieces of a string in two documents; the tokens of a fragment are the same place of both. -/
inductive SamePieces (doc doc' : List Token) : List Piece → List Piece → Prop where
  | nil : SamePieces doc doc' [] []
  | text (text : String) (span span' : Span) {rest rest' : List Piece} (next : SamePieces doc doc' rest rest') :
    SamePieces doc doc' (.text text span :: rest) (.text text span' :: rest')
  | escape (value : Char) (raw raw' : String) (span span' : Span) {rest rest' : List Piece}
    (next : SamePieces doc doc' rest rest') :
    SamePieces doc doc' (.escape value raw span :: rest) (.escape value raw' span' :: rest')
  | fragment {tokens tokens' : List Token} (inner : SamePlace doc doc' tokens tokens') (span span' : Span)
    {rest rest' : List Piece} (next : SamePieces doc doc' rest rest') :
    SamePieces doc doc' (.fragment tokens span :: rest) (.fragment tokens' span' :: rest')
  | indent (span span' : Span) {rest rest' : List Piece} (next : SamePieces doc doc' rest rest') :
    SamePieces doc doc' (.indent span :: rest) (.indent span' :: rest')

/-- Pieces whose places stand at the same index. -/
theorem samePieces_of_places {doc doc' : List Token} {i : Nat} {pieces pieces' : List Piece}
    (hbare : barePieces pieces = barePieces pieces') (h : piecePlaces pieces <+: (places doc).drop i)
    (h' : piecePlaces pieces' <+: (places doc').drop i) : SamePieces doc doc' pieces pieces' := by
  induction pieces generalizing pieces' i with
  | nil =>
    cases pieces' with
    | nil => exact .nil
    | cons piece' rest' => cases piece' <;> simp [barePieces] at hbare
  | cons piece rest ih =>
    cases pieces' with
    | nil => cases piece <;> simp [barePieces] at hbare
    | cons piece' rest' =>
      cases piece <;> cases piece' <;>
        simp only [barePieces, List.cons.injEq, reduceCtorEq, false_and, Piece.text.injEq, Piece.escape.injEq,
          Piece.fragment.injEq, and_true, true_and] at hbare
      case text.text =>
        obtain ⟨rfl, hrest⟩ := hbare
        rw [piecePlaces] at h h'
        exact .text _ _ _ (ih hrest h h')
      case escape.escape =>
        obtain ⟨rfl, hrest⟩ := hbare
        rw [piecePlaces] at h h'
        exact .escape _ _ _ _ _ (ih hrest h h')
      case fragment.fragment tokens _ tokens' _ =>
        obtain ⟨htokens, hrest⟩ := hbare
        rw [piecePlaces] at h h'
        refine .fragment (samePlace_of_places (i := i) htokens ?_ ?_) _ _ (ih (i := i + (places tokens).length) hrest ?_ ?_)
        · exact (List.prefix_append _ _).trans h
        · exact (List.prefix_append _ _).trans h'
        · rw [← List.append_nil (piecePlaces rest)] at h
          exact prefix_drop_of_append h
        · rw [length_places_of_bare htokens]
          rw [← List.append_nil (piecePlaces rest')] at h'
          exact prefix_drop_of_append h'
      case indent.indent =>
        rw [piecePlaces] at h h'
        exact .indent _ _ (ih hbare h h')

theorem SamePlace.pieces {doc doc' rest rest' : List Token} {token token' : Token} {multiline : Bool}
    {pieces pieces' : List Piece} (hdoc : bareTokens doc = bareTokens doc')
    (h : SamePlace doc doc' (token :: rest) (token' :: rest')) (hk : token.kind = .str multiline pieces)
    (hk' : token'.kind = .str multiline pieces') : SamePieces doc doc' pieces pieces' := by
  have hbare := h.bare hdoc
  rw [bareTokens_cons, bareTokens_cons, List.cons.injEq, Token.bare, Token.bare, hk, hk', Kind.bare, Kind.bare] at hbare
  have hpieces : barePieces pieces = barePieces pieces' := by simpa using hbare.1
  obtain ⟨hnil, -⟩ | ⟨i, hi, hi'⟩ := h
  · exact absurd hnil (by simp)
  · have hp := nested_places doc i _ hi
    have hp' := nested_places doc' i _ hi'
    rw [places_cons, hk, Kind.places, ← List.singleton_append] at hp
    rw [places_cons, hk', Kind.places, ← List.singleton_append] at hp'
    exact samePieces_of_places (i := i + 1) hpieces (prefix_drop_of_append hp) (prefix_drop_of_append hp')

/-! ## Offsets -/

/-- The offsets of the same token in two documents; it is not the end of a list. -/
def SameOffset (doc doc' : List Token) (offset offset' : Nat) : Prop :=
  ∃ tokens tokens', SamePlace doc doc' tokens tokens' ∧ isEnd tokens = false ∧ isEnd tokens' = false ∧
    startOf tokens = offset ∧ startOf tokens' = offset'

/-- Where the places of both documents stand one after another, two tokens begin at one offset in
the first only if they do in the second. -/
theorem SameOffset.eq_iff {doc doc' : List Token} {lo hi lo' hi' : Nat} (hspread : Spread lo (places doc) hi)
    (hspread' : Spread lo' (places doc') hi') {a a' b b' : Nat} (h : SameOffset doc doc' a a')
    (h' : SameOffset doc doc' b b') : a = b ↔ a' = b' := by
  have hmid {tokens tokens' : List Token} (hside : SamePlace doc doc' tokens tokens') (hend : isEnd tokens = false) :
      ∃ i : Nat, (places doc)[i]? = some tokens ∧ (places doc')[i]? = some tokens' := by
    obtain ⟨rfl, -⟩ | hfound := hside
    · exact absurd hend (by decide)
    · exact hfound
  obtain ⟨p, p', hp, hend, hend', rfl, rfl⟩ := h
  obtain ⟨q, q', hq, hmid', -, rfl, rfl⟩ := h'
  obtain ⟨i, hi, hi'⟩ := hmid hp hend
  obtain ⟨j, hj, hj'⟩ := hmid hq hmid'
  constructor
  · intro heq
    obtain rfl := hspread.index_eq_of_startOf hi hj hend heq
    rw [hi'] at hj'
    exact congrArg startOf (Option.some_inj.1 hj')
  · intro heq
    obtain rfl := hspread'.index_eq_of_startOf hi' hj' hend' heq
    rw [hi] at hj
    exact congrArg startOf (Option.some_inj.1 hj)

end JuiceSyntax
