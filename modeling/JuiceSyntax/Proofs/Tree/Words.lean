/-
  What the words of an S-expression stand for. Numbers begin with a digit, names of types with a capital;
  an integer in another radix than ten begins with its lead, and a float has a character in it that is no
  digit.

  `wordExpr` and `wordType` read a word back, given what float each text of one stands for.
-/
import JuiceSyntax.Proofs.Token.Numerals
import JuiceSyntax.Proofs.Tree.Nodes
import JuiceSyntax.Proofs.Tree.Rendering

namespace JuiceSyntax

/-! ## Characters of words -/

theorem separates_of_continuesTypeName {c : Char} (h : continuesTypeName c = true) : separates c = false := by
  have hnot {d : Char} (hd : continuesTypeName d = false) : c ≠ d := by
    rintro rfl
    exact absurd (h.symm.trans hd) (by decide)
  simp [separates, hnot (d := ' ') (by decide), hnot (d := '\n') (by decide), hnot (d := '(') (by decide),
    hnot (d := ')') (by decide), hnot (d := '"') (by decide)]

theorem WordText.unbroken {text : String} (h : WordText text) : Unbroken text :=
  ⟨h.ne_nil, fun c hc => separates_of_continuesTypeName (h.within c hc)⟩

theorem continuesTypeName_of_isDigit {c : Char} (h : isDigit c = true) : continuesTypeName c = true := by
  simp [continuesTypeName, continuesName, h]

theorem isDigit_of_mem_toDigits {n : Nat} {c : Char} (h : c ∈ Nat.toDigits 10 n) : isDigit c = true := by
  have hall : ∀ digit : Fin 10, isDigit digit.val.digitChar = true := by decide
  obtain ⟨digit, hlt, rfl⟩ := exists_of_mem_toDigits (by decide) h
  exact hall ⟨digit, hlt⟩

theorem not_digit_of_upper {c : Char} (h : isUpper c = true) : isDigit c = false := by
  simp [isUpper, isDigit, Char.le_def, UInt32.le_iff_toNat_le] at h ⊢
  omega

theorem of_startsName {c : Char} (h : startsName c = true) : isDigit c = false ∧ isUpper c = false := by
  simp only [startsName, Bool.or_eq_true, beq_iff_eq] at h
  obtain hlower | rfl := h
  · simp [isLower, isUpper, isDigit, Char.le_def, UInt32.le_iff_toNat_le] at hlower ⊢
    omega
  · decide

/-- A number begins with one of its digits. -/
theorem exists_toDigits (n : Nat) : ∃ c rest, Nat.toDigits 10 n = c :: rest ∧ isDigit c = true := by
  obtain ⟨c, rest, heq⟩ := List.exists_cons_of_ne_nil (Nat.toDigits_ne_nil (n := n) (b := 10))
  exact ⟨c, rest, heq, isDigit_of_mem_toDigits (heq ▸ List.mem_cons_self)⟩

/-! ## Integers -/

theorem toList_integerText (value : UInt64) (radix : Radix) :
    (integerText value radix).toList = radix.lead.toList ++ Nat.toDigits radix.base value.toNat := by
  rw [integerText, String.toList_append, String.toList_ofList]

theorem integerText_starts (value : UInt64) (radix : Radix) :
    ∃ c rest, (integerText value radix).toList = c :: rest ∧ isDigit c = true := by
  rw [toList_integerText]
  cases radix with
  | decimal => exact exists_toDigits _
  | _ => exact ⟨'0', _, rfl, rfl⟩

theorem integerText_word (value : UInt64) (radix : Radix) : WordText (integerText value radix) := by
  have hdigit : ∀ digit : Fin 16, continuesTypeName digit.val.digitChar = true := by decide
  have hbase : radix.base ≤ 16 := by cases radix <;> decide
  have hlead : ∀ c ∈ radix.lead.toList, continuesTypeName c = true := List.all_eq_true.1 (by cases radix <;> decide)
  constructor
  · rw [toList_integerText]
    exact List.append_ne_nil_of_right_ne_nil _ Nat.toDigits_ne_nil
  · intro c hc
    rw [toList_integerText] at hc
    obtain hc | hc := List.mem_append.1 hc
    · exact hlead c hc
    · obtain ⟨digit, hlt, rfl⟩ := exists_of_mem_toDigits radix.one_lt_base hc
      exact hdigit ⟨digit, by omega⟩

/-! ## Floats -/

/-- A character of a number that may have a point or an exponent. -/
def inFloat (c : Char) : Bool := isDigit c || c == '.' || c == 'e' || c == '-'

theorem inFloat_toString_nat (n : Nat) : ∀ c ∈ (toString n).toList, inFloat c = true := by
  intro c hc
  rw [Nat.toString_eq_repr, Nat.toList_repr] at hc
  rw [inFloat, isDigit_of_mem_toDigits hc]
  rfl

theorem inFloat_toString_int (n : Int) : ∀ c ∈ (toString n).toList, inFloat c = true := by
  cases n with
  | ofNat n => exact inFloat_toString_nat n
  | negSucc n =>
    show ∀ c ∈ ("-" ++ (n + 1).repr).toList, inFloat c = true
    rw [String.toList_append]
    exact List.forall_mem_append.2 ⟨List.forall_mem_singleton.2 rfl, inFloat_toString_nat (n + 1)⟩

theorem inFloat_zeros (n : Int) : ∀ c ∈ (Decimal.zeros n).toList, inFloat c = true := by
  intro c hc
  rw [Decimal.zeros, String.toList_ofList] at hc
  rw [List.eq_of_mem_replicate hc]
  rfl

/-- Begins with a digit, and has a character that is no digit. -/
structure FloatChars (cs : List Char) : Prop where
  starts : ∃ c rest, cs = c :: rest ∧ isDigit c = true
  within : ∀ c ∈ cs, inFloat c = true
  broken : ∃ c ∈ cs, isDigit c = false

/-- A digit, then anything with a character in it that is no digit. -/
theorem FloatChars.of_append {front back : List Char} {c : Char} (hstarts : ∃ c rest, front = c :: rest ∧ isDigit c = true)
    (hfront : ∀ c ∈ front, inFloat c = true) (hback : ∀ c ∈ back, inFloat c = true) (hc : inFloat c = true)
    (hbroken : isDigit c = false) : FloatChars (front ++ c :: back) := by
  obtain ⟨d, rest, rfl, hd⟩ := hstarts
  refine ⟨⟨d, rest ++ c :: back, rfl, hd⟩, ?_, ⟨c, ?_, hbroken⟩⟩
  · exact List.forall_mem_append.2 ⟨hfront, List.forall_mem_cons.2 ⟨hc, hback⟩⟩
  · exact List.mem_append_right _ List.mem_cons_self

theorem write_chars (d : Decimal) : FloatChars (d.write literalNotation).toList := by
  obtain ⟨c, rest, hdigits, hc⟩ := exists_toDigits d.digits
  have htext : (toString d.digits).toList = c :: rest := by rw [Nat.toString_eq_repr, Nat.toList_repr, hdigits]
  have hall := inFloat_toString_nat d.digits
  rw [htext] at hall
  have hrest : ∀ c ∈ rest, inFloat c = true := fun d hd => hall d (List.mem_cons_of_mem _ hd)
  have htake (n : Nat) : ∀ c ∈ rest.take n, inFloat c = true := fun d hd => hrest d (List.mem_of_mem_take hd)
  have hdrop (n : Nat) : ∀ c ∈ rest.drop n, inFloat c = true := fun d hd => hrest d (List.mem_of_mem_drop hd)
  unfold Decimal.write
  dsimp only
  split
  · split
    · simp only [String.toList_append, htext]
      have hzero : ∀ e ∈ ['0'], inFloat e = true := List.forall_mem_singleton.2 rfl
      show FloatChars (['0'] ++ '.' :: _)
      exact .of_append ⟨'0', [], rfl, rfl⟩ hzero (List.forall_mem_append.2 ⟨inFloat_zeros _, hall⟩) rfl rfl
    rename_i htop
    split
    · simp only [String.toList_append, htext]
      have hzero : ∀ e ∈ ['0'], inFloat e = true := List.forall_mem_singleton.2 rfl
      show FloatChars (_ ++ '.' :: ['0'])
      exact .of_append ⟨c, _, rfl, hc⟩ (List.forall_mem_append.2 ⟨hall, inFloat_zeros _⟩) hzero rfl rfl
    · obtain ⟨k, hk⟩ : ∃ k, (d.exponent + ((toString d.digits).length : Int) - 1 + 1).toNat = k + 1 :=
        ⟨(d.exponent + ((toString d.digits).length : Int) - 1).toNat, by omega⟩
      simp only [hk, String.toList_append, String.toList_ofList, htext, List.take_succ_cons, List.drop_succ_cons]
      have hfront : ∀ e ∈ c :: rest.take k, inFloat e = true := List.forall_mem_cons.2 ⟨hall c List.mem_cons_self, htake k⟩
      rw [List.append_assoc]
      exact FloatChars.of_append ⟨c, _, rfl, hc⟩ hfront (hdrop k) rfl rfl
  · simp only [String.toList_append, String.toList_ofList, htext]
    have hpoint (b : Bool) : ∀ e ∈ (if b = true then "" else ".").toList, inFloat e = true :=
      List.all_eq_true.1 (by cases b <;> decide)
    obtain ⟨point, heq⟩ : ∃ point, point = (if (String.ofList (List.drop 1 (c :: rest))).isEmpty then "" else ".").toList :=
      ⟨_, rfl⟩
    have hfront : ∀ e ∈ [c] ++ point ++ rest, inFloat e = true := by
      refine List.forall_mem_append.2 ⟨List.forall_mem_append.2 ⟨?_, heq ▸ hpoint _⟩, hrest⟩
      exact List.forall_mem_singleton.2 (hall c List.mem_cons_self)
    rw [← heq, List.append_assoc _ "e".toList]
    exact FloatChars.of_append ⟨c, _, rfl, hc⟩ hfront (inFloat_toString_int _) rfl rfl

theorem floatText_chars {x : Float} (h : x.isFinite = true) : FloatChars (floatText x).toList := by
  unfold floatText
  split
  · have hpoint : '.' ∈ "0.0".toList := List.mem_cons_of_mem _ List.mem_cons_self
    exact ⟨⟨'0', ['.', '0'], rfl, rfl⟩, List.all_eq_true.1 (by decide), ⟨'.', hpoint, rfl⟩⟩
  · exact write_chars _

theorem floatText_unbroken (x : Float) : Unbroken (floatText x) := by
  have plain {c : Char} (h : inFloat c = true) : separates c = false := by
    simp only [inFloat, Bool.or_eq_true, beq_iff_eq] at h
    obtain ((hdigit | rfl) | rfl) | rfl := h
    · exact separates_of_continuesTypeName (continuesTypeName_of_isDigit hdigit)
    · rfl
    · rfl
    · rfl
  cases hfinite : x.isFinite with
  | true =>
    obtain ⟨⟨c, rest, heq, -⟩, hwithin, -⟩ := floatText_chars hfinite
    exact ⟨by rw [heq]; exact List.cons_ne_nil _ _, fun c hc => plain (hwithin c hc)⟩
  | false =>
    have hwords : Unbroken "0.0" ∧ Unbroken "inf" := by decide
    unfold floatText
    rw [hfinite]
    split
    · exact hwords.1
    · exact hwords.2

/-! ## Words -/

/-- The number that a word stands for. -/
def numberExpr (float : String → Float) (text : String) : ExprKind :=
  match radixAt text.toList with
  | .decimal =>
    if text.toList.all isDigit then .int (UInt64.ofNat (Radix.decimal.positional text.toList)) .decimal
    else .float (float text)
  | radix => .int (UInt64.ofNat (radix.positional (text.toList.drop 2))) radix

/-- The atom that a word stands for. -/
def wordExpr (float : String → Float) (text : String) : ExprKind :=
  if text.toList.head?.any isDigit then numberExpr float text
  else if text.toList.head?.any isUpper then .typeName text
  else if text = "true" then .bool true
  else if text = "false" then .bool false
  else .name text

/-- The type that a word stands for. -/
def wordType (float : String → Float) (text : String) : TypeKind :=
  match BuiltinType.ofName? text with
  | some type => .builtin type
  | none =>
    match wordExpr float text with
    | .name text => .name text
    | .typeName text => .typeName text
    | literal => .literal ⟨literal, .point 0⟩

section

variable {float : String → Float} {text : String} {c : Char} {rest : List Char}

theorem wordExpr_digit (h : text.toList = c :: rest) (hc : isDigit c = true) :
    wordExpr float text = numberExpr float text := by
  rw [wordExpr, h, List.head?_cons, Option.any_some, if_pos hc]

theorem radixAt_eq_decimal {cs : List Char} (h : ∀ c ∈ cs, inFloat c = true) : radixAt cs = .decimal := by
  unfold radixAt
  split
  · exact absurd (h 'x' (by simp)) (by decide)
  · exact absurd (h 'b' (by simp)) (by decide)
  · exact absurd (h 'o' (by simp)) (by decide)
  · rfl

theorem wordExpr_integerText (value : UInt64) (radix : Radix) :
    wordExpr float (integerText value radix) = .int value radix := by
  have htext := toList_integerText value radix
  have read :
      ExprKind.int (UInt64.ofNat (radix.positional (Nat.toDigits radix.base value.toNat))) radix = .int value radix := by
    rw [radix.positional_toDigits, UInt64.ofNat_toNat]
  obtain ⟨c, rest, hfirst, hc⟩ := integerText_starts value radix
  rw [wordExpr_digit hfirst hc, numberExpr, htext]
  cases radix with
  | decimal =>
    have hall : ∀ c ∈ Nat.toDigits 10 value.toNat, isDigit c = true := fun c hc => isDigit_of_mem_toDigits hc
    have hradix : radixAt (Nat.toDigits 10 value.toNat) = .decimal :=
      radixAt_eq_decimal fun c hc => (by rw [inFloat, hall c hc]; rfl)
    have hlead : Radix.decimal.lead.toList ++ Nat.toDigits Radix.decimal.base value.toNat = Nat.toDigits 10 value.toNat := rfl
    rw [hlead, hradix]
    exact (if_pos (List.all_eq_true.2 hall)).trans read
  | _ => exact read

theorem wordExpr_floatText {x : Float} (hfinite : x.isFinite = true) (hfloat : float (floatText x) = x) :
    wordExpr float (floatText x) = .float x := by
  obtain ⟨⟨c, rest, htext, hc⟩, hwithin, d, hmem, hd⟩ := floatText_chars hfinite
  have hnot : ¬(floatText x).toList.all isDigit = true := fun hall =>
    absurd (hd.symm.trans (List.all_eq_true.1 hall d hmem)) (by decide)
  rw [wordExpr_digit htext hc, numberExpr, radixAt_eq_decimal hwithin]
  dsimp only
  rw [if_neg hnot, hfloat]

theorem wordExpr_bool (value : Bool) : wordExpr float (toString value) = .bool value := by
  cases value <;> rfl

theorem TypeText.wordExpr (h : TypeText text) : wordExpr float text = .typeName text := by
  obtain ⟨c, rest, htext, hc⟩ := h.starts
  rw [JuiceSyntax.wordExpr, htext, List.head?_cons, Option.any_some, Option.any_some, not_digit_of_upper hc, hc]
  rfl

theorem NameText.wordExpr (h : NameText text) : wordExpr float text = .name text := by
  obtain ⟨c, rest, htext, hc⟩ := h.starts
  obtain ⟨hdigit, hupper⟩ := of_startsName hc
  rw [JuiceSyntax.wordExpr, htext, List.head?_cons, Option.any_some, Option.any_some, hdigit, hupper, if_neg h.not_true,
    if_neg h.not_false]
  rfl

theorem BuiltinType.ofName?_name (type : BuiltinType) : BuiltinType.ofName? type.name = some type := by
  cases type <;> rfl

/-- The names of types that are built in begin as other names do. -/
theorem ofName?_eq_none (h : text.toList = c :: rest) (hc : isDigit c = true ∨ isUpper c = true) :
    BuiltinType.ofName? text = none := by
  have hstarts : ∀ type : BuiltinType, type.name.toList.head?.any startsName = true := by
    intro type
    cases type <;> rfl
  cases hfound : BuiltinType.ofName? text with
  | none => rfl
  | some type =>
    have hname : type.name = text := by simpa using List.find?_some hfound
    have hhead := hstarts type
    rw [hname, h, List.head?_cons, Option.any_some] at hhead
    obtain ⟨hdigit, hupper⟩ := of_startsName hhead
    rw [hdigit, hupper] at hc
    obtain hc | hc := hc <;> cases hc

theorem wordType_builtin (type : BuiltinType) : wordType float type.name = .builtin type := by
  rw [wordType, BuiltinType.ofName?_name]

theorem TypeText.wordType (h : TypeText text) : wordType float text = .typeName text := by
  obtain ⟨c, rest, htext, hc⟩ := h.starts
  rw [JuiceSyntax.wordType, ofName?_eq_none htext (.inr hc), h.wordExpr]

theorem NameText.wordType (h : NameText text) (hname : BuiltinType.ofName? text = none) :
    wordType float text = .name text := by
  rw [JuiceSyntax.wordType, hname, h.wordExpr]

theorem wordType_literal {kind : ExprKind} (hkind : kind.isLiteral = true) (hname : BuiltinType.ofName? text = none)
    (h : wordExpr float text = kind) : wordType float text = .literal ⟨kind, .point 0⟩ := by
  rw [wordType, hname, h]
  cases kind with
  | int | float | bool | str | list => rfl
  | _ => cases hkind

theorem wordType_integerText (value : UInt64) (radix : Radix) :
    wordType float (integerText value radix) = .literal ⟨.int value radix, .point 0⟩ := by
  obtain ⟨c, rest, htext, hc⟩ := integerText_starts value radix
  exact wordType_literal rfl (ofName?_eq_none htext (.inl hc)) (wordExpr_integerText value radix)

theorem wordType_floatText {x : Float} (hfinite : x.isFinite = true) (hfloat : float (floatText x) = x) :
    wordType float (floatText x) = .literal ⟨.float x, .point 0⟩ := by
  obtain ⟨c, rest, htext, hc⟩ := (floatText_chars hfinite).starts
  exact wordType_literal rfl (ofName?_eq_none htext (.inl hc)) (wordExpr_floatText hfinite hfloat)

theorem wordType_bool (value : Bool) : wordType float (toString value) = .literal ⟨.bool value, .point 0⟩ :=
  wordType_literal rfl (by cases value <;> rfl) (wordExpr_bool value)

end

end JuiceSyntax
