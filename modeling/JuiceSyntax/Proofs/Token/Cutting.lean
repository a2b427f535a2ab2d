/-
  Lexemes of a part of a text. What a lexeme is depends on its own characters and on one or two
  that follow: on a point after digits and on a bang after a name the next character decides, and
  then both are one mark. `Cuts rest more`: to a lexeme before it, `more` looks as `rest` does or as
  the end of a line.

  `firstLexeme_cut`: a lexeme before `rest` is one before `more`. So the lexemes of a text that
  consists of some lexemes of another are these (`lexemes_middle`), and a line break behind a
  text adds but itself (`lexemes_newline`).
-/
import JuiceSyntax.Proofs.Token.Moving
import JuiceSyntax.Proofs.Token.Scan
import Mathlib.Data.List.Basic

namespace JuiceSyntax

/-- `more` begins with a line break or not at all, or as `rest` does, with no mark cut in two. -/
def Cuts (rest more : List Char) : Prop :=
  (∀ c ∈ more.head?, c = '\n') ∨ more.head? = rest.head? ∧ ∀ m : Mark, m.chars <+: rest → m.chars <+: more

/-! ## Single lexemes -/

section

variable {c : Char} {raw rest more : List Char} {kind : LexemeKind}

theorem Cuts.head (h : Cuts rest more) {p : Char → Bool} (hp : p '\n' = false) (hrest : ∀ c ∈ rest.head?, p c = false) :
    ∀ c ∈ more.head?, p c = false := by
  intro c hc
  obtain hbreak | ⟨hhead, -⟩ := h
  · rw [hbreak c hc]
    exact hp
  · exact hrest c (hhead ▸ hc)

theorem Cuts.head_append (hcut : Cuts rest more) {front : List Char} {p : Char → Bool} (hp : p '\n' = false)
    (h : ∀ c ∈ (front ++ rest).head?, p c = false) : ∀ c ∈ (front ++ more).head?, p c = false := by
  cases front with
  | nil => exact hcut.head hp h
  | cons d front => exact h

theorem takeWhile_eq_iff {p : Char → Bool} :
    (raw ++ rest).takeWhile p = raw ↔ (∀ c ∈ raw, p c = true) ∧ ∀ c ∈ rest.head?, p c = false := by
  constructor
  · intro h
    have hall : ∀ c ∈ raw, p c = true := fun c hc => List.mem_takeWhile_imp (h ▸ hc)
    refine ⟨hall, fun c hc => ?_⟩
    rw [List.takeWhile_append_of_pos hall, List.append_right_eq_self] at h
    cases rest with
    | nil => cases hc
    | cons d rest =>
      cases hc
      by_contra hp
      rw [List.takeWhile_cons_of_pos (by simpa using hp)] at h
      cases h
  · rintro ⟨hall, hrest⟩
    rw [List.takeWhile_append_of_pos hall]
    cases rest with
    | nil => simp
    | cons d rest => simp [List.takeWhile, hrest d rfl]

/-- Characters of one class end where a character of another follows. -/
theorem takeWhile_cut {p : Char → Bool} (hp : p '\n' = false) (h : (raw ++ rest).takeWhile p = raw) (hcut : Cuts rest more) :
    (raw ++ more).takeWhile p = raw := by
  rw [takeWhile_eq_iff] at h ⊢
  exact ⟨h.1, hcut.head hp h.2⟩

/-- Characters of one class that are as many as `raw` are `raw`. -/
theorem takeWhile_of_length {p : Char → Bool} (h : ((raw ++ rest).takeWhile p).length = raw.length) :
    (raw ++ rest).takeWhile p = raw := by
  rw [List.prefix_iff_eq_take.1 (List.takeWhile_prefix p (l := raw ++ rest)), h, List.take_left]

/-- The first character of what follows, where a mark or its second half may begin. -/
theorem Cuts.mark (h : Cuts rest more) {m : Mark} {d : Char} {tail : List Char} (hmore : more = d :: tail) (hd : d ≠ '\n')
    (hrest : rest.head? = some d → m.chars <+: rest) : m.chars <+: more := by
  obtain hbreak | ⟨hhead, hmarks⟩ := h
  · exact absurd (hbreak d (by simp [hmore])) hd
  · exact hmarks m (hrest (by rw [← hhead, hmore]; rfl))

theorem radixAt_eq (c : Char) (text : List Char) : radixAt (c :: text) = radixAt (c :: text.take 1) := by
  cases text with
  | nil => rfl
  | cons d text =>
    unfold radixAt
    split <;> simp_all

theorem radixAt_cut (hcut : Cuts rest more) (hlength : radixAt (c :: (raw ++ rest)) ≠ .decimal → 1 ≤ raw.length) :
    radixAt (c :: (raw ++ more)) = radixAt (c :: (raw ++ rest)) := by
  cases raw with
  | cons d raw => rw [radixAt_eq, radixAt_eq c (d :: raw ++ rest)]; rfl
  | nil =>
    have hdecimal : radixAt (c :: rest) = .decimal := by
      by_contra hne
      exact absurd (hlength hne) (by decide)
    rw [List.nil_append, List.nil_append]
    obtain hbreak | ⟨hhead, -⟩ := hcut
    · rw [hdecimal]
      cases more with
      | nil => unfold radixAt; split <;> simp_all
      | cons d more =>
        obtain rfl := hbreak d rfl
        unfold radixAt
        split <;> simp_all
    · rw [radixAt_eq, radixAt_eq c rest, List.take_one, List.take_one, hhead]

theorem fractionLength_le (text : List Char) : fractionLength text ≤ text.length := by
  unfold fractionLength
  split
  · exact Nat.zero_le _
  · rename_i rest _
    have := (List.takeWhile_prefix continuesNumber (l := rest)).length_le
    simp only [List.length_cons]
    omega
  · exact Nat.zero_le _

/-- A point that begins no fraction is half of a mark. -/
theorem fractionLength_eq_zero_iff {text : List Char} :
    fractionLength text = 0 ↔ (text.head? = some '.' → Mark.dotDot.chars <+: text) := by
  unfold fractionLength
  split
  · simp [Mark.chars]
  · rename_i rest hrest
    refine ⟨fun h => absurd h (Nat.succ_ne_zero _), fun h => ?_⟩
    obtain ⟨tail, htail⟩ := h rfl
    exact absurd (List.cons.inj htail).2.symm (hrest tail)
  · rename_i hpoint
    refine ⟨fun _ hhead => ?_, fun _ => rfl⟩
    obtain ⟨tail, rfl⟩ := List.head?_eq_some_iff.1 hhead
    exact absurd rfl (hpoint tail)

theorem fractionLength_cut (hcut : Cuts rest more) (h : fractionLength rest = 0) : fractionLength more = 0 := by
  rw [fractionLength_eq_zero_iff] at h ⊢
  intro hhead
  obtain ⟨tail, hmore⟩ := List.head?_eq_some_iff.1 hhead
  exact hcut.mark hmore (by decide) h

/-- A fraction ends where no further digit follows. -/
theorem fractionLength_append {digits : List Char} (hdigits : (digits ++ rest).takeWhile continuesNumber = digits)
    (hpoint : ∀ c ∈ (digits ++ rest).head?, (c == '.') = false) : fractionLength ('.' :: (digits ++ rest)) = digits.length + 1 := by
  unfold fractionLength
  split
  · rename_i tail htail
    have hsecond := hpoint '.' (by rw [(List.cons.inj htail).2]; rfl)
    exact absurd hsecond (by decide)
  · rename_i tail _ htail
    rw [← (List.cons.inj htail).2, hdigits]
  · rename_i hne
    exact absurd rfl (hne _)

/-- What begins a fraction is a point and digits. -/
theorem exists_digits_of_fractionLength {fraction : List Char} {n : Nat}
    (h : fractionLength (fraction ++ rest) = n + 1) (hlength : fraction.length = n + 1) :
    ∃ digits, fraction = '.' :: digits ∧ (digits ++ rest).takeWhile continuesNumber = digits ∧
      ∀ c ∈ (digits ++ rest).head?, (c == '.') = false := by
  obtain ⟨d, digits, rfl⟩ := List.exists_cons_of_length_eq_add_one hlength
  have hpoint : d = '.' := by
    by_contra hne
    have hzero : fractionLength (d :: digits ++ rest) = 0 :=
      fractionLength_eq_zero_iff.2 fun hhead => absurd (by simpa using hhead) hne
    omega
  subst hpoint
  refine ⟨digits, rfl, ?_, fun c hc => ?_⟩
  · unfold fractionLength at h
    split at h
    · cases h
    · rename_i tail _ htail
      obtain rfl : digits ++ rest = tail := (List.cons.inj htail).2
      refine takeWhile_of_length ?_
      simp only [List.length_cons] at hlength
      omega
    · cases h
  · by_contra hpoint
    obtain rfl : c = '.' := by simpa using hpoint
    obtain ⟨tail, htail⟩ := List.head?_eq_some_iff.1 hc
    rw [List.cons_append, htail] at h
    cases h

theorem numberAt_cut (h : numberAt (c :: (raw ++ rest)) = (kind, raw.length + 1)) (hcut : Cuts rest more) :
    numberAt (c :: (raw ++ more)) = (kind, raw.length + 1) := by
  have hradix : radixAt (c :: (raw ++ more)) = radixAt (c :: (raw ++ rest)) := by
    refine radixAt_cut hcut fun hne => ?_
    unfold numberAt at h
    split at h
    · contradiction
    · have := (Prod.mk.inj h).2
      omega
  unfold numberAt at h ⊢
  rw [hradix]
  split at h
  · dsimp only at h ⊢
    obtain ⟨fraction, hfraction⟩ : (c :: (raw ++ rest)).takeWhile continuesNumber <+: c :: raw := by
      refine List.prefix_of_prefix_length_le (List.takeWhile_prefix _) (List.prefix_append (c :: raw) rest) ?_
      split at h
      · exact Nat.le_of_eq (Prod.mk.inj h).2
      · exact Nat.le_trans (Nat.le_add_right _ _) (Nat.le_of_eq (Prod.mk.inj h).2)
    rw [← List.cons_append, ← hfraction] at h ⊢
    generalize hdigits : (c :: (raw ++ rest)).takeWhile continuesNumber = digits at h hfraction
    rw [← List.cons_append, ← hfraction, List.append_assoc] at hdigits
    have hwidth : digits.length + fraction.length = raw.length + 1 := by
      rw [← List.length_append, hfraction, List.length_cons]
    rw [List.append_assoc, hdigits, List.drop_left] at h
    cases hn : fractionLength (fraction ++ rest) with
    | zero =>
      rw [hn] at h
      obtain ⟨rfl, hlength⟩ := Prod.mk.inj h
      obtain rfl : fraction = [] := List.length_eq_zero_iff.1 (by omega)
      rw [List.append_nil, takeWhile_cut (by decide) hdigits hcut, List.drop_left, fractionLength_cut hcut hn]
      simp only [hlength]
    | succ n =>
      rw [hn] at h
      obtain ⟨rfl, hlength⟩ := Prod.mk.inj h
      obtain ⟨point, rfl, hpoint, hsecond⟩ := exists_digits_of_fractionLength hn (by omega)
      have hfraction' := fractionLength_append (takeWhile_cut (by decide) hpoint hcut) (hcut.head_append (by decide) hsecond)
      have hdigits' : (digits ++ ('.' :: (point ++ more))).takeWhile continuesNumber = digits :=
        takeWhile_eq_iff.2 ⟨(takeWhile_eq_iff.1 hdigits).1, by simp; decide⟩
      rw [List.append_assoc, List.cons_append, hdigits', List.drop_left, hfraction']
      simp only [List.length_cons] at hwidth
      simp only [hwidth]
  · rename_i radix hradix'
    obtain ⟨rfl, hlength⟩ := Prod.mk.inj h
    cases raw with
    | nil => simp at hlength
    | cons d raw =>
      simp only [List.cons_append, List.drop_succ_cons, List.drop_zero, List.length_cons] at hlength ⊢
      rw [takeWhile_cut (by decide) (takeWhile_of_length (by omega)) hcut]

/-- A name before a bang is the name of a macro, unless the bang is half of a mark. -/
def nameBefore (word rest : List Char) : LexemeKind × Nat :=
  match rest with
  | '!' :: '=' :: _ => (.name, word.length)
  | '!' :: _ => (.macroName, word.length + 1)
  | _ => (.name, word.length)

/-- What a word of these characters is before `rest`. -/
def wordBefore (word rest : List Char) : LexemeKind × Nat :=
  match String.ofList word with
  | "true" => (.bool true, word.length)
  | "false" => (.bool false, word.length)
  | spelling =>
    match Keyword.ofText? spelling with
    | some keyword => (.word keyword, word.length)
    | none => nameBefore word rest

theorem wordAt_eq (text : List Char) :
    wordAt text = wordBefore (text.takeWhile continuesName) (text.drop (text.takeWhile continuesName).length) := rfl

theorem nameBefore_eq_name_iff {word rest : List Char} :
    nameBefore word rest = (.name, word.length) ↔ (rest.head? = some '!' → Mark.bangEq.chars <+: rest) := by
  unfold nameBefore
  split
  · simp [Mark.chars]
  · rename_i rest hrest
    refine ⟨nofun, fun h => ?_⟩
    obtain ⟨tail, htail⟩ := h rfl
    exact absurd (List.cons.inj htail).2.symm (hrest tail)
  · rename_i hbang
    refine ⟨fun _ hhead => ?_, fun _ => rfl⟩
    obtain ⟨tail, rfl⟩ := List.head?_eq_some_iff.1 hhead
    exact absurd rfl (hbang tail)

theorem nameBefore_eq_macroName_iff {word rest : List Char} :
    nameBefore word rest = (.macroName, word.length + 1) ↔ ∃ tail, rest = '!' :: tail ∧ ∀ c ∈ tail.head?, (c == '=') = false := by
  unfold nameBefore
  split
  · rename_i tail
    refine ⟨nofun, ?_⟩
    rintro ⟨tail', htail, h⟩
    have heq := h '=' (by rw [← (List.cons.inj htail).2]; rfl)
    exact absurd heq (by decide)
  · rename_i tail htail
    refine ⟨fun _ => ⟨tail, rfl, fun c hc => ?_⟩, fun _ => rfl⟩
    by_contra heq
    obtain rfl : c = '=' := by simpa using heq
    obtain ⟨tail', rfl⟩ := List.head?_eq_some_iff.1 hc
    exact htail tail' rfl
  · rename_i hbang
    refine ⟨nofun, ?_⟩
    rintro ⟨tail, rfl, -⟩
    exact absurd rfl (hbang tail)

theorem nameBefore_cases (word rest : List Char) :
    nameBefore word rest = (.name, word.length) ∨ nameBefore word rest = (.macroName, word.length + 1) := by
  unfold nameBefore
  split
  · exact .inl rfl
  · exact .inr rfl
  · exact .inl rfl

theorem nameBefore_cut {word tail : List Char} (hcut : Cuts rest more)
    (h : nameBefore word (tail ++ rest) = (kind, word.length + tail.length)) :
    nameBefore word (tail ++ more) = (kind, word.length + tail.length) := by
  obtain hname | hbang := nameBefore_cases word (tail ++ rest)
  · obtain ⟨rfl, hlength⟩ := Prod.mk.inj (hname.symm.trans h)
    obtain rfl : tail = [] := List.length_eq_zero_iff.1 (by omega)
    refine nameBefore_eq_name_iff.2 fun hhead => ?_
    obtain ⟨_, hmore⟩ := List.head?_eq_some_iff.1 hhead
    exact hcut.mark hmore (by decide) (nameBefore_eq_name_iff.1 hname)
  · obtain ⟨rfl, hlength⟩ := Prod.mk.inj (hbang.symm.trans h)
    obtain ⟨after, hafter, hhead⟩ := nameBefore_eq_macroName_iff.1 hbang
    obtain ⟨d, rfl⟩ := List.length_eq_one_iff.1 (show tail.length = 1 by omega)
    obtain ⟨rfl, rfl⟩ := List.cons.inj hafter
    exact nameBefore_eq_macroName_iff.2 ⟨more, rfl, hcut.head (by decide) hhead⟩

theorem wordBefore_cut {word tail : List Char} (hcut : Cuts rest more)
    (h : wordBefore word (tail ++ rest) = (kind, word.length + tail.length)) :
    wordBefore word (tail ++ more) = (kind, word.length + tail.length) := by
  unfold wordBefore at h ⊢
  split at h
  · exact h
  · exact h
  · split at h
    · exact h
    · exact nameBefore_cut hcut h

theorem length_le_wordBefore (word rest : List Char) : word.length ≤ (wordBefore word rest).2 := by
  unfold wordBefore
  split
  · exact Nat.le_refl _
  · exact Nat.le_refl _
  · split
    · exact Nat.le_refl _
    · obtain h | h := nameBefore_cases word rest
      · exact Nat.le_of_eq (congrArg Prod.snd h).symm
      · rw [h]
        exact Nat.le_succ _

theorem wordAt_cut (h : wordAt (c :: (raw ++ rest)) = (kind, raw.length + 1)) (hcut : Cuts rest more) :
    wordAt (c :: (raw ++ more)) = (kind, raw.length + 1) := by
  rw [wordAt_eq] at h ⊢
  have hlength := length_le_wordBefore ((c :: (raw ++ rest)).takeWhile continuesName)
    ((c :: (raw ++ rest)).drop ((c :: (raw ++ rest)).takeWhile continuesName).length)
  rw [h] at hlength
  obtain ⟨tail, htail⟩ : (c :: (raw ++ rest)).takeWhile continuesName <+: c :: raw :=
    List.prefix_of_prefix_length_le (List.takeWhile_prefix _) (List.prefix_append (c :: raw) rest) hlength
  generalize hword : (c :: (raw ++ rest)).takeWhile continuesName = word at h htail
  have hwidth : raw.length + 1 = word.length + tail.length := by
    rw [← List.length_append, htail, List.length_cons]
  rw [← List.cons_append, ← htail, List.append_assoc] at h hword ⊢
  have hword' : (word ++ (tail ++ more)).takeWhile continuesName = word :=
    have hall := takeWhile_eq_iff.1 hword
    takeWhile_eq_iff.2 ⟨hall.1, hcut.head_append (by decide) hall.2⟩
  rw [List.drop_left, hwidth] at h
  rw [hword', List.drop_left, hwidth]
  exact wordBefore_cut hcut h

theorem Mark.prefix_of_ofChars? {m : Mark} {text : List Char} (h : Mark.ofChars? text = some m) : m.chars <+: text := by
  have hprefix := List.find?_some h
  exact List.isPrefixOf_iff_prefix.1 hprefix

theorem chars_length_le (m : Mark) : m.chars.length ≤ 2 ∧ '\n' ∉ m.chars := by
  cases m <;> decide

/-- Before what cuts a text two characters begin it only if they do in that text. -/
theorem prefix_of_cuts {front : List Char} (hle : front.length ≤ 2) (hline : '\n' ∉ front) (hcut : Cuts rest more)
    (h : front <+: c :: (raw ++ more)) : front <+: c :: (raw ++ rest) := by
  by_cases hshort : front.length ≤ raw.length + 1
  · exact (List.prefix_of_prefix_length_le h (List.prefix_append (c :: raw) more) hshort).trans (List.prefix_append _ rest)
  · obtain rfl : raw = [] := List.length_eq_zero_iff.1 (by omega)
    obtain ⟨tail, htail⟩ := h
    rw [List.length_nil] at hshort
    match front with
    | [] | [_] => simp at hshort
    | d :: e :: ds =>
      obtain rfl : ds = [] := List.length_eq_zero_iff.1 (by simp only [List.length_cons] at hle; omega)
      obtain ⟨rfl, hmore⟩ := List.cons.inj htail
      obtain hbreak | ⟨hhead, -⟩ := hcut
      · obtain rfl := hbreak e (by rw [List.nil_append] at hmore; rw [← hmore]; rfl)
        simp at hline
      · rw [List.nil_append] at hmore
        rw [← hmore] at hhead
        obtain ⟨rest', rfl⟩ := List.head?_eq_some_iff.1 hhead.symm
        exact ⟨rest', rfl⟩

theorem ofChars?_cut {m : Mark} (h : Mark.ofChars? (c :: (raw ++ rest)) = some m) (hlength : m.chars.length = raw.length + 1)
    (hcut : Cuts rest more) : Mark.ofChars? (c :: (raw ++ more)) = some m := by
  unfold Mark.ofChars? at h ⊢
  rw [List.find?_eq_some_iff_append] at h ⊢
  obtain ⟨hm, before, after, hall, hbefore⟩ := h
  rw [List.isPrefixOf_iff_prefix] at hm ⊢
  refine ⟨?_, before, after, hall, fun m' hm' => ?_⟩
  · have hchars : m.chars <+: c :: raw := List.prefix_of_prefix_length_le hm (List.prefix_append (c :: raw) rest)
      (Nat.le_of_eq (hlength.trans List.length_cons.symm))
    exact hchars.trans (List.prefix_append _ more)
  · have hnot := hbefore m' hm'
    rw [Bool.not_eq_true', Bool.eq_false_iff, Ne, List.isPrefixOf_iff_prefix] at hnot ⊢
    exact fun h' => hnot (prefix_of_cuts (chars_length_le m').1 (chars_length_le m').2 hcut h')

theorem stringAt_cut (h : stringAt (c :: (raw ++ rest)) = (.string true, raw.length + 1)) (more : List Char) :
    stringAt (c :: (raw ++ more)) = (.string true, raw.length + 1) := by
  unfold stringAt at h ⊢
  rw [List.drop_succ_cons, List.drop_zero] at h ⊢
  cases hlength : literalLength [.text] (raw ++ rest) with
  | none =>
    rw [hlength] at h
    cases h
  | some n =>
    rw [hlength] at h
    obtain rfl : n = raw.length := by simpa using h
    rw [literalLength_congr hlength]

/-- The two slashes of a comment are in it. -/
theorem isPrefixOf_comment (h : ['/', '/'].isPrefixOf (c :: (raw ++ rest)) = true)
    (hline : (c :: raw ++ rest).takeWhile (· != '\n') = c :: raw) (more : List Char) :
    ['/', '/'].isPrefixOf (c :: (raw ++ more)) = true := by
  cases raw with
  | cons d raw => simpa [List.isPrefixOf] using h
  | nil =>
    have hrest := (takeWhile_eq_iff.1 hline).2
    cases rest with
    | nil => simp [List.isPrefixOf] at h
    | cons d rest =>
      have hd := hrest d rfl
      simp [List.isPrefixOf] at h hd
      simp [hd] at h

theorem lexemeAt_cut (h : lexemeAt c (raw ++ rest) = (kind, raw.length + 1)) (hclosed : kind ≠ .string false)
    (hcut : Cuts rest more) : lexemeAt c (raw ++ more) = (kind, raw.length + 1) := by
  unfold lexemeAt at h ⊢
  dsimp only at h ⊢
  split at h
  · rename_i hblank
    rw [if_pos hblank]
    exact h
  rename_i hblank
  rw [if_neg hblank]
  split at h
  · rename_i hcomment
    obtain ⟨rfl, hlength⟩ := Prod.mk.inj h
    have hline : (c :: raw ++ rest).takeWhile (· != '\n') = c :: raw := takeWhile_of_length hlength
    have hline' := takeWhile_cut (by decide) hline hcut
    rw [if_pos (isPrefixOf_comment hcomment hline more), ← List.cons_append, hline', List.length_cons]
  rename_i hcomment
  have hcomment' : ¬['/', '/'].isPrefixOf (c :: (raw ++ more)) = true := by
    rw [List.isPrefixOf_iff_prefix] at hcomment ⊢
    exact fun h' => hcomment (prefix_of_cuts (by decide) (by decide) hcut h')
  rw [if_neg hcomment']
  split at h
  · rename_i hdigit
    rw [if_pos hdigit]
    exact numberAt_cut h hcut
  rename_i hdigit
  rw [if_neg hdigit]
  split at h
  · rename_i hname
    rw [if_pos hname]
    exact wordAt_cut h hcut
  rename_i hname
  rw [if_neg hname]
  split at h
  · rename_i hupper
    rw [if_pos hupper]
    obtain ⟨rfl, hlength⟩ := Prod.mk.inj h
    have htype : (c :: raw ++ rest).takeWhile continuesTypeName = c :: raw := takeWhile_of_length hlength
    have htype' := takeWhile_cut (by decide) htype hcut
    rw [List.cons_append] at htype'
    rw [htype', List.length_cons]
  rename_i hupper
  rw [if_neg hupper]
  split at h
  · rename_i hquote
    rw [if_pos hquote]
    cases hkind : kind with
    | string closed =>
      cases closed with
      | true => exact stringAt_cut (hkind ▸ h) more
      | false => exact absurd hkind hclosed
    | _ => exact absurd (congrArg Prod.fst h) (by unfold stringAt; split <;> simp [hkind])
  rename_i hquote
  rw [if_neg hquote]
  split at h
  · rename_i m hm
    obtain ⟨rfl, hlength⟩ := Prod.mk.inj h
    rw [ofChars?_cut hm hlength hcut]
    simp only [hlength]
  · rename_i hnone
    rw [Mark.ofChars?_eq_none_iff.2 (Mark.ofChars?_eq_none_iff.1 hnone)]
    exact h

end

/-! ## Lengths -/

theorem numberAt_length_le (c : Char) (rest : List Char) : (numberAt (c :: rest)).2 ≤ rest.length + 1 := by
  unfold numberAt
  split
  · dsimp only
    have hdigits := (List.takeWhile_prefix continuesNumber (l := c :: rest)).length_le
    have hfraction := fractionLength_le ((c :: rest).drop ((c :: rest).takeWhile continuesNumber).length)
    simp only [List.length_drop, List.length_cons] at hdigits hfraction
    split
    · exact hdigits
    · simp only
      omega
  · rename_i radix hradix
    cases rest with
    | nil => simp [radixAt] at hradix
    | cons d rest =>
      have hdigits := (List.takeWhile_prefix continuesTypeName (l := rest)).length_le
      simpa using hdigits

theorem wordAt_length_le (c : Char) (rest : List Char) : (wordAt (c :: rest)).2 ≤ rest.length + 1 := by
  rw [wordAt_eq]
  have hword := (List.takeWhile_prefix continuesName (l := c :: rest)).length_le
  rw [List.length_cons] at hword
  unfold wordBefore
  split
  · exact hword
  · exact hword
  · split
    · exact hword
    · obtain h | h := nameBefore_cases ((c :: rest).takeWhile continuesName)
        ((c :: rest).drop ((c :: rest).takeWhile continuesName).length)
      · rw [h]
        exact hword
      · obtain ⟨tail, htail, -⟩ := nameBefore_eq_macroName_iff.1 h
        have hlength := congrArg List.length htail
        simp only [List.length_drop, List.length_cons] at hlength
        rw [h]
        simp only
        omega

theorem stringAt_length_le (c : Char) (rest : List Char) : (stringAt (c :: rest)).2 ≤ rest.length + 1 := by
  unfold stringAt
  rw [List.drop_succ_cons, List.drop_zero]
  cases h : literalLength [.text] rest with
  | none => exact Nat.le_refl _
  | some n => exact Nat.succ_le_succ (literalLength_eq_some_iff.1 h).1

theorem lexemeAt_length_le (c : Char) (rest : List Char) : (lexemeAt c rest).2 ≤ rest.length + 1 := by
  unfold lexemeAt
  dsimp only
  split
  · exact Nat.le_add_left 1 _
  split
  · exact (List.takeWhile_prefix _).length_le
  split
  · exact numberAt_length_le c rest
  split
  · exact wordAt_length_le c rest
  split
  · exact (List.takeWhile_prefix _).length_le
  split
  · exact stringAt_length_le c rest
  split
  · rename_i m hm
    exact (Mark.prefix_of_ofChars? hm).length_le
  · exact Nat.le_add_left 1 _

theorem length_raw_firstLexeme (c : Char) (rest : List Char) : (firstLexeme c rest).raw.length = (lexemeAt c rest).2 := by
  simp only [firstLexeme, List.length_take, List.length_cons]
  exact Nat.min_eq_left (lexemeAt_length_le c rest)

/-! ## Texts -/

/-- A lexeme is the same before what cuts the text that follows it. -/
theorem firstLexeme_cut {c : Char} {raw rest more : List Char} (hraw : (firstLexeme c (raw ++ rest)).raw = c :: raw)
    (hclosed : (firstLexeme c (raw ++ rest)).kind ≠ .string false) (hcut : Cuts rest more) :
    firstLexeme c (raw ++ more) = firstLexeme c (raw ++ rest) := by
  have hlength := length_raw_firstLexeme c (raw ++ rest)
  rw [hraw, List.length_cons] at hlength
  have hmore := lexemeAt_cut (Prod.ext rfl hlength.symm) hclosed hcut
  calc firstLexeme c (raw ++ more)
      = ⟨(lexemeAt c (raw ++ rest)).1, (c :: (raw ++ more)).take (raw.length + 1)⟩ := by rw [firstLexeme, hmore]
    _ = ⟨(lexemeAt c (raw ++ rest)).1, (firstLexeme c (raw ++ rest)).raw⟩ := by
      rw [hraw, List.take_succ_cons, List.take_left]

theorem cutLexemes_congr {fuel fuel' : Nat} {text : List Char} (h : text.length ≤ fuel) (h' : text.length ≤ fuel') :
    cutLexemes fuel text = cutLexemes fuel' text := by
  induction fuel generalizing fuel' text with
  | zero =>
    rw [List.length_eq_zero_iff.1 (Nat.le_zero.1 h)]
    cases fuel' <;> rfl
  | succ fuel ih =>
    cases text with
    | nil => cases fuel' <;> rfl
    | cons c rest =>
      obtain ⟨fuel', rfl⟩ : ∃ n, fuel' = n + 1 := ⟨fuel' - 1, by simp only [List.length_cons] at h'; omega⟩
      have hpos := firstLexeme_length_pos c rest
      have hdrop : ((c :: rest).drop (firstLexeme c rest).raw.length).length ≤ rest.length := by
        simp only [List.length_drop, List.length_cons]
        omega
      rw [List.length_cons] at h h'
      rw [cutLexemes, cutLexemes]
      exact congrArg _ (ih (by omega) (by omega))

/-- The lexemes of a text are its first one and those of what is left. -/
theorem lexemes_cons {c : Char} {rest left : List Char} (h : c :: rest = (firstLexeme c rest).raw ++ left) :
    lexemes (c :: rest) = firstLexeme c rest :: lexemes left := by
  have hpos := firstLexeme_length_pos c rest
  have hleft : (c :: rest).drop (firstLexeme c rest).raw.length = left := by
    rw [h, List.drop_left]
  have hlength := congrArg List.length h
  rw [List.length_append, List.length_cons] at hlength
  rw [lexemes, List.length_cons, cutLexemes, hleft]
  exact congrArg _ (cutLexemes_congr (by omega) (Nat.le_refl _))

theorem exists_of_lexemes {text : List Char} {lexeme : Lexeme} {others : List Lexeme} (h : lexemes text = lexeme :: others) :
    ∃ c raw left, lexeme.raw = c :: raw ∧ text = c :: (raw ++ left) ∧ lexeme = firstLexeme c (raw ++ left) ∧
      lexemes left = others := by
  cases text with
  | nil => cases h
  | cons c rest =>
    obtain ⟨left, hleft⟩ := raw_firstLexeme c rest
    rw [lexemes_cons hleft.symm] at h
    obtain ⟨rfl, hothers⟩ := List.cons.inj h
    cases hraw : (firstLexeme c rest).raw with
    | nil => exact absurd (firstLexeme_length_pos c rest) (by simp [hraw])
    | cons d raw =>
      rw [hraw] at hleft
      obtain ⟨rfl, rfl⟩ := List.cons.inj hleft
      exact ⟨d, raw, left, rfl, rfl, rfl, hothers⟩

/-- Where a mark of two characters fits, one of two characters is cut. -/
theorem two_of_ofChars? {m found : Mark} {text : List Char} (hm : m.chars <+: text) (hlength : m.chars.length = 2)
    (hfound : Mark.ofChars? text = some found) : found.chars.length = 2 := by
  have hall : Mark.all = Mark.all.filter (fun m => m.chars.length == 2) ++ Mark.all.filter fun m => m.chars.length != 2 := by
    decide
  have htwo : m ∈ Mark.all.filter fun m => m.chars.length == 2 := List.mem_filter.2 ⟨m.mem_all, by simpa using hlength⟩
  rw [Mark.ofChars?, hall, List.find?_append] at hfound
  cases hfirst : (Mark.all.filter fun m => m.chars.length == 2).find? fun m => m.chars.isPrefixOf text with
  | none => exact absurd (List.isPrefixOf_iff_prefix.2 hm) (List.find?_eq_none.1 hfirst m htwo)
  | some first =>
    rw [hfirst] at hfound
    obtain rfl : first = found := by simpa using hfound
    simpa using (List.mem_filter.1 (List.mem_of_find?_eq_some hfirst)).2

/-- A mark that a text begins with is within its first lexeme. -/
theorem chars_length_le_firstLexeme {m : Mark} {c : Char} {rest : List Char} (h : m.chars <+: c :: rest) :
    m.chars.length ≤ (firstLexeme c rest).raw.length := by
  have hpos := firstLexeme_length_pos c rest
  by_cases hone : m.chars.length ≤ 1
  · omega
  · have htwo : m.chars.length = 2 := by
      have := (chars_length_le m).1
      omega
    have hcomment : m.chars ≠ ['/', '/'] := by cases m <;> decide
    have hhead (d e : Char) (hchars : m.chars = [d, e]) : isBlank d = false ∧ isDigit d = false ∧ startsName d = false ∧
        isUpper d = false ∧ (d == '"') = false := by
      cases m <;> cases hchars <;> decide
    obtain ⟨d, e, hchars⟩ := List.length_eq_two.1 htwo
    obtain ⟨tail, htail⟩ := h
    obtain ⟨hblank, hdigit, hname, hupper, hquote⟩ := hhead d e hchars
    rw [hchars] at htail hcomment
    obtain ⟨rfl, hrest⟩ := List.cons.inj htail
    obtain rfl : e :: tail = rest := hrest
    have hcomment' : ['/', '/'].isPrefixOf (d :: e :: tail) = false := by
      rw [Bool.eq_false_iff]
      intro hprefix
      simp only [List.isPrefixOf, Bool.and_eq_true, beq_iff_eq] at hprefix
      exact hcomment (by rw [← hprefix.1, ← hprefix.2.1])
    have hlexeme : lexemeAt d (e :: tail) =
        (Mark.ofChars? (d :: e :: tail)).elim (.stray, 1) fun mark => (.mark mark, mark.chars.length) := by
      unfold lexemeAt
      simp only [hblank, hcomment', hdigit, hname, hupper, hquote, Bool.false_eq_true, if_false]
      cases Mark.ofChars? (d :: e :: tail) <;> rfl
    have hfits : m.chars <+: d :: e :: tail := ⟨tail, by rw [hchars]; rfl⟩
    rw [length_raw_firstLexeme, hlexeme]
    cases hfound : Mark.ofChars? (d :: e :: tail) with
    | none => 
      exact absurd (List.isPrefixOf_iff_prefix.2 hfits) (List.find?_eq_none.1 hfound m m.mem_all)
    | some found => exact Nat.le_of_eq (htwo.trans (two_of_ofChars? hfits htwo hfound).symm)

/-- What lexemes leave of a text has the other lexemes of it. -/
theorem lexemes_right {text : List Char} {front back : List Lexeme} (h : lexemes text = front ++ back) :
    lexemes (back.flatMap (·.raw)) = back := by
  induction front generalizing text with
  | nil =>
    rw [List.nil_append] at h
    rw [← h, flatMap_raw_lexemes, h]
  | cons lexeme front ih =>
    obtain ⟨_, _, left, -, -, -, hleft⟩ := exists_of_lexemes h
    exact ih hleft

/-- The text of the first lexemes of a text has these lexemes. -/
theorem lexemes_left {text : List Char} {front back : List Lexeme} (h : lexemes text = front ++ back) :
    lexemes (front.flatMap (·.raw)) = front := by
  induction front generalizing text with
  | nil => rfl
  | cons lexeme front ih =>
    obtain ⟨c, raw, left, hraw, rfl, hlexeme, hleft⟩ := exists_of_lexemes h
    have hfront := ih hleft
    have hcut : Cuts left (front.flatMap (·.raw)) := by
      cases front with
      | nil => exact .inl nofun
      | cons next front => 
        obtain ⟨d, raw', left', hraw', rfl, hnext, -⟩ := exists_of_lexemes hleft
        rw [List.flatMap_cons, hraw']
        refine .inr ⟨rfl, fun m hm => ?_⟩
        have hwithin := chars_length_le_firstLexeme hm
        rw [← hnext, hraw'] at hwithin
        exact (List.prefix_of_prefix_length_le hm (List.prefix_append (d :: raw') left') hwithin).trans
          (List.prefix_append _ _)
    by_cases hopen : lexeme.kind = .string false
    · -- Nothing is left behind a literal that is not closed.
      have hwhole := raw_firstLexeme_of_string (hlexeme ▸ hopen)
      simp only [Bool.false_eq_true, if_false] at hwhole
      rw [← hlexeme, hraw] at hwhole
      obtain rfl : left = [] := by simpa using hwhole
      obtain ⟨rfl, rfl⟩ := List.append_eq_nil_iff.1 (show front ++ back = [] from hleft.symm)
      simpa [hraw] using h
    · have hfirst := firstLexeme_cut (hlexeme ▸ hraw) (hlexeme ▸ hopen) hcut
      have hparts : c :: (raw ++ front.flatMap (·.raw)) =
          (firstLexeme c (raw ++ front.flatMap (·.raw))).raw ++ front.flatMap (·.raw) := by
        rw [hfirst, ← hlexeme, hraw]
        rfl
      rw [List.flatMap_cons, hraw, List.cons_append, lexemes_cons hparts, hfirst, ← hlexeme, hfront]

/-- Any lexemes of a text that follow one another are those of their own text. -/
theorem lexemes_middle {text : List Char} {front middle back : List Lexeme} (h : lexemes text = front ++ middle ++ back) :
    lexemes (middle.flatMap (·.raw)) = middle := by
  rw [List.append_assoc] at h
  exact lexemes_left (lexemes_right h)

/-- A line break behind a text adds nothing but itself, unless a literal is open there. -/
theorem lexemes_newline {text : List Char} (h : ∀ lexeme ∈ lexemes text, lexeme.kind ≠ .string false) :
    lexemes (text ++ ['\n']) = lexemes text ++ [⟨.blank, ['\n']⟩] := by
  generalize hls : lexemes text = ls at h
  induction ls generalizing text with
  | nil =>
    have htext := flatMap_raw_lexemes text
    rw [hls] at htext
    rw [← htext]
    rfl
  | cons lexeme others ih =>
    obtain ⟨c, raw, left, hraw, rfl, hlexeme, hleft⟩ := exists_of_lexemes hls
    have hothers := ih hleft fun l hl => h l (List.mem_cons_of_mem _ hl)
    have hcut : Cuts left (left ++ ['\n']) := by
      cases left with
      | nil => exact .inl fun d hd => by simpa using hd.symm
      | cons d left => exact .inr ⟨rfl, fun m hm => hm.trans (List.prefix_append _ _)⟩
    have hfirst := firstLexeme_cut (hlexeme ▸ hraw) (hlexeme ▸ h lexeme List.mem_cons_self) hcut
    have htext : c :: (raw ++ (left ++ ['\n'])) = (firstLexeme c (raw ++ (left ++ ['\n']))).raw ++ (left ++ ['\n']) := by
      rw [hfirst, ← hlexeme, hraw, List.cons_append]
    rw [List.cons_append, List.append_assoc, lexemes_cons htext, hfirst, ← hlexeme, hothers, List.cons_append]

end JuiceSyntax
