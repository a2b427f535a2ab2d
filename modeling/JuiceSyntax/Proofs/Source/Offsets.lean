/-
  Text read by byte offsets. `byteAt?` is the byte at an offset, `slice?` the text of a span, and both fail where
  they would read outside the text or cut a character in two.

  An offset is `At` what follows it in the text. There a byte that is an ASCII character is that character, and no
  other character has such a byte in it (`mem_bytesOf`), so that a walk over the bytes and one over the characters
  see the same marks.
-/
import JuiceSyntax.Proofs.Source.Slices

namespace JuiceSyntax

/-! ## Bytes -/

/-- The bytes of a character, each as the character with its number. -/
def bytesOf (c : Char) : List Char := (String.utf8EncodeChar c).map Char.ofUInt8

def bytes (text : List Char) : List Char := text.flatMap bytesOf

/-- The byte at an offset. -/
def byteAt? (text : List Char) (i : Nat) : Option Char := (bytes text)[i]?

/-- A counter that is counted down; it fails at zero. -/
def fewer? : Nat → Option Nat
  | 0 => none
  | n + 1 => some n

theorem length_bytesOf (c : Char) : (bytesOf c).length = c.utf8Size := by
  rw [bytesOf, List.length_map, String.length_utf8EncodeChar]

theorem length_bytes (text : List Char) : (bytes text).length = byteWidth text := by
  induction text with
  | nil => rfl
  | cons c cs ih =>
    rw [byteWidth_cons, ← ih, ← length_bytesOf, bytes, List.flatMap_cons, List.length_append]
    rfl

theorem bytesOf_ascii {c : Char} (h : c.utf8Size = 1) : bytesOf c = [c] := by
  have hle : c.val.toNat ≤ 127 := UInt32.le_iff_toNat_le.1 (Char.utf8Size_eq_one_iff.1 h)
  rw [bytesOf, String.utf8EncodeChar_eq_singleton h]
  refine congrArg (fun c => [c]) (Char.ext (UInt32.toNat_inj.1 ?_))
  show c.val.toUInt8.toUInt32.toNat = c.val.toNat
  rw [UInt8.toNat_toUInt32, UInt32.toNat_toUInt8]
  omega

/-- The bytes of any other character have higher numbers. -/
theorem le_of_mem_bytesOf {b c : Char} (h : c.utf8Size ≠ 1) (hmem : b ∈ bytesOf c) : 128 ≤ b.val.toNat := by
  have hlt : 127 < c.val.toNat := by
    have := mt Char.utf8Size_eq_one_iff.2 h
    rw [UInt32.le_iff_toNat_le] at this
    exact Nat.lt_of_not_le this
  obtain ⟨byte, hbyte, rfl⟩ := List.mem_map.1 hmem
  show 128 ≤ byte.toUInt32.toNat
  rw [UInt8.toNat_toUInt32]
  unfold String.utf8EncodeChar at hbyte
  dsimp only at hbyte
  have high (n : Nat) (h : 128 ≤ n) (h' : n < 256) : 128 ≤ (UInt8.ofNat n).toNat := by
    rw [UInt8.toNat_ofNat']
    omega
  split at hbyte
  · omega
  · split at hbyte
    · simp only [List.mem_cons, List.not_mem_nil, or_false] at hbyte
      obtain rfl | rfl := hbyte
      all_goals exact high _ (by omega) (by omega)
    · split at hbyte
      · simp only [List.mem_cons, List.not_mem_nil, or_false] at hbyte
        obtain rfl | rfl | rfl := hbyte
        all_goals exact high _ (by omega) (by omega)
      · simp only [List.mem_cons, List.not_mem_nil, or_false] at hbyte
        obtain rfl | rfl | rfl | rfl := hbyte
        all_goals exact high _ (by omega) (by omega)

/-- An ASCII character is a byte of no character but itself. -/
theorem eq_of_mem_bytesOf {a c : Char} (ha : a.utf8Size = 1) (hmem : a ∈ bytesOf c) : c = a := by
  by_cases hc : c.utf8Size = 1
  · rw [bytesOf_ascii hc] at hmem
    exact (List.mem_singleton.1 hmem).symm
  · have hlow : a.val.toNat ≤ 127 := UInt32.le_iff_toNat_le.1 (Char.utf8Size_eq_one_iff.1 ha)
    have := le_of_mem_bytesOf hc hmem
    omega

/-! ## Offsets between characters -/

/-- What follows the offset in the text. -/
def At (text : List Char) (i : Nat) (rest : List Char) : Prop :=
  ∃ before, text = before ++ rest ∧ i = byteWidth before

namespace At

variable {text rest mid : List Char} {i : Nat} {c : Char}

theorem zero (text : List Char) : At text 0 text := ⟨[], rfl, rfl⟩

theorem right (h : At text i (mid ++ rest)) : At text (i + byteWidth mid) rest := by
  obtain ⟨before, rfl, rfl⟩ := h
  exact ⟨before ++ mid, (List.append_assoc ..).symm, (byteWidth_append ..).symm⟩

theorem tail (h : At text i (c :: rest)) : At text (i + c.utf8Size) rest := by
  have hright : At text (i + byteWidth [c]) rest := h.right
  rwa [byteWidth_cons, byteWidth_nil, Nat.add_zero] at hright

theorem ascii (h : At text i (c :: rest)) (hc : c.utf8Size = 1) : At text (i + 1) rest := hc ▸ h.tail

theorem width (h : At text i rest) : i + byteWidth rest = byteWidth text := by
  obtain ⟨before, rfl, rfl⟩ := h
  exact (byteWidth_append ..).symm

theorem eq {j : Nat} (h : At text i rest) (h' : At text j rest) : i = j := by
  have hwidth := h.width
  have hwidth' := h'.width
  omega

/-- The span of what stands there can be sliced. -/
theorem slice (h : At text i (mid ++ rest)) : slice? text ⟨i, i + byteWidth mid⟩ = some mid := by
  obtain ⟨before, rfl, rfl⟩ := h
  rw [← List.append_assoc]
  exact slice?_middle before mid rest

theorem slice_rest (h : At text i rest) : slice? text ⟨i, byteWidth text⟩ = some rest := by
  have hwidth := h.width
  rw [← List.append_nil rest] at h
  rw [← hwidth]
  exact h.slice

theorem remainder (h : At text i rest) : dropBytes? i text = some rest := by
  obtain ⟨before, rfl, rfl⟩ := h
  exact dropBytes?_append before rest

theorem bytes_drop (h : At text i rest) : (bytes text).drop i = bytes rest := by
  obtain ⟨before, rfl, rfl⟩ := h
  rw [bytes, List.flatMap_append, ← length_bytes]
  exact List.drop_left

theorem byteAt_eq (h : At text i rest) (k : Nat) : byteAt? text (i + k) = (bytes rest)[k]? := by
  rw [byteAt?, ← h.bytes_drop, List.getElem?_drop]

/-- A byte of the character that stands there. -/
theorem byteAt (h : At text i (c :: rest)) {k : Nat} (hk : k < c.utf8Size) :
    ∃ b ∈ bytesOf c, byteAt? text (i + k) = some b := by
  rw [← length_bytesOf] at hk
  refine ⟨(bytesOf c)[k], List.getElem_mem hk, ?_⟩
  rw [h.byteAt_eq, bytes, List.flatMap_cons, List.getElem?_append_left hk, List.getElem?_eq_getElem hk]

/-- The first byte of a character tells it from every ASCII character that it is not. -/
theorem first (h : At text i (c :: rest)) :
    ∃ b, byteAt? text i = some b ∧ ∀ a : Char, a.utf8Size = 1 → (b = a ↔ c = a) := by
  obtain ⟨b, hmem, hb⟩ := h.byteAt (Char.utf8Size_pos c)
  refine ⟨b, hb, fun a ha => ⟨fun heq => eq_of_mem_bytesOf ha (heq ▸ hmem), fun heq => ?_⟩⟩
  subst heq
  rw [bytesOf_ascii ha] at hmem
  exact List.mem_singleton.1 hmem

theorem byteAt_iff {a : Char} (ha : a.utf8Size = 1) (h : At text i rest) :
    byteAt? text i = some a ↔ rest.head? = some a := by
  cases rest with
  | nil =>
    have hnone := h.byteAt_eq 0
    rw [Nat.add_zero] at hnone
    rw [hnone]
    exact ⟨nofun, nofun⟩
  | cons c rest =>
    obtain ⟨b, hb, hsame⟩ := h.first
    rw [hb, List.head?_cons, Option.some.injEq, Option.some.injEq]
    exact hsame a ha

/-- A byte and the next are two ASCII characters where two characters are. -/
theorem pair_iff {a a' b : Char} (ha : a.utf8Size = 1) (ha' : a'.utf8Size = 1) (h : At text i (c :: rest))
    (hb : byteAt? text i = some b) :
    (b = a ∧ byteAt? text (i + 1) = some a') ↔ (c = a ∧ rest.head? = some a') := by
  have hsame : b = a ↔ c = a := by
    have hiff := h.byteAt_iff ha
    rwa [hb, List.head?_cons, Option.some.injEq, Option.some.injEq] at hiff
  rw [hsame]
  exact and_congr_right fun hc => (h.ascii (hc ▸ ha)).byteAt_iff ha'

end At

/-- Before `rest` only bytes remain that are no characters of their own, if any; or the offset is beyond the end. -/
def Near (text : List Char) (i : Nat) (rest : List Char) : Prop :=
  (∃ j, At text j rest ∧ i ≤ j ∧ ∀ k, i ≤ k → k < j → ∃ b : Char, byteAt? text k = some b ∧ 128 ≤ b.val.toNat) ∨
    rest = [] ∧ byteWidth text ≤ i

namespace Near

variable {text rest : List Char} {i : Nat} {c : Char}

theorem of_at (h : At text i rest) : Near text i rest :=
  .inl ⟨i, h, Nat.le_refl i, fun _ hle hlt => absurd hle (Nat.not_le_of_gt hlt)⟩

/-- Behind the first byte of a character. -/
theorem one (h : At text i (c :: rest)) : Near text (i + 1) rest := by
  have hpos := Char.utf8Size_pos c
  refine .inl ⟨_, h.tail, by omega, fun k hle hlt => ?_⟩
  obtain ⟨b, hmem, hb⟩ := h.byteAt (k := k - i) (by omega)
  rw [show i + (k - i) = k by omega] at hb
  exact ⟨b, hb, le_of_mem_bytesOf (by omega) hmem⟩

/-- Behind the first byte of whatever follows. -/
theorem two (h : At text i rest) : Near text (i + 1) rest.tail := by
  cases rest with
  | nil =>
    have hwidth := h.width
    rw [byteWidth_nil] at hwidth
    exact .inr ⟨rfl, by omega⟩
  | cons c rest => exact one h

/-- Within the text, either `rest` begins here or there is such a byte. -/
theorem at_or (h : Near text i rest) (hlt : i < byteWidth text) :
    At text i rest ∨ ∃ b : Char, byteAt? text i = some b ∧ 128 ≤ b.val.toNat ∧ Near text (i + 1) rest := by
  obtain ⟨j, hat, hle, hhigh⟩ | ⟨-, hbeyond⟩ := h
  · obtain rfl | hlt := Nat.eq_or_lt_of_le hle
    · exact .inl hat
    · obtain ⟨b, hb, hle⟩ := hhigh i (Nat.le_refl i) hlt
      exact .inr ⟨b, hb, hle, .inl ⟨j, hat, hlt, fun k hk => hhigh k (by omega)⟩⟩
  · omega

/-- Beyond the text nothing follows. -/
theorem eq_nil (h : Near text i rest) (hle : byteWidth text ≤ i) : rest = [] := by
  obtain ⟨j, hat, hij, -⟩ | ⟨rfl, -⟩ := h
  · have hwidth := hat.width
    have hlength := length_le_byteWidth rest
    exact List.eq_nil_of_length_eq_zero (by omega)
  · rfl

end Near

/-- A byte of another character is no ASCII character. -/
theorem ne_of_high {b a : Char} (h : 128 ≤ b.val.toNat) (ha : a.utf8Size = 1) : b ≠ a := by
  rintro rfl
  have hlow : b.val.toNat ≤ 127 := UInt32.le_iff_toNat_le.1 (Char.utf8Size_eq_one_iff.1 ha)
  omega

/-! ## Stretches -/

/-- Of characters that are not ASCII the predicate says the same. -/
def AsciiOnly (p : Char → Bool) : Prop := ∃ v, ∀ c : Char, 128 ≤ c.val.toNat → p c = v

/-- Of the bytes of a character it says what it says of the character. -/
theorem AsciiOnly.eq_of_mem {p : Char → Bool} (hp : AsciiOnly p) {b c : Char} (h : b ∈ bytesOf c) : p b = p c := by
  obtain ⟨v, hv⟩ := hp
  by_cases hc : c.utf8Size = 1
  · rw [bytesOf_ascii hc] at h
    rw [List.mem_singleton.1 h]
  · have hle : 128 ≤ c.val.toNat := by
      have := mt Char.utf8Size_eq_one_iff.2 hc
      rw [UInt32.le_iff_toNat_le] at this
      exact Nat.lt_of_not_le this
    rw [hv b (le_of_mem_bytesOf hc h), hv c hle]

theorem bytesOf_ne_nil (c : Char) : bytesOf c ≠ [] := by
  have hpos := Char.utf8Size_pos c
  rw [← length_bytesOf] at hpos
  exact List.length_pos_iff.1 hpos

/-- A stretch of such bytes is one of characters. -/
theorem length_takeWhile_bytes {p : Char → Bool} (hp : AsciiOnly p) (text : List Char) :
    ((bytes text).takeWhile p).length = byteWidth (text.takeWhile p) := by
  induction text with
  | nil => rfl
  | cons c cs ih =>
    rw [bytes, List.flatMap_cons, List.takeWhile_cons]
    cases hpc : p c with
    | true =>
      rw [List.takeWhile_append_of_pos fun b hb => (hp.eq_of_mem hb).trans hpc, List.length_append, length_bytesOf,
        if_pos rfl, byteWidth_cons, ← ih]
      rfl
    | false =>
      obtain ⟨b, bs, hbytes⟩ := List.exists_cons_of_ne_nil (bytesOf_ne_nil c)
      have hb : p b = p c := hp.eq_of_mem (by rw [hbytes]; exact List.mem_cons_self)
      rw [hbytes, List.cons_append, List.takeWhile_cons, hb, hpc]
      rfl

theorem all_bytes {p : Char → Bool} (hp : AsciiOnly p) (text : List Char) : (bytes text).all p = text.all p := by
  induction text with
  | nil => rfl
  | cons c cs ih =>
    have hc : (bytesOf c).all p = p c := by
      cases hpc : p c with
      | true => exact List.all_eq_true.2 fun b hb => (hp.eq_of_mem hb).trans hpc
      | false =>
        obtain ⟨b, bs, hbytes⟩ := List.exists_cons_of_ne_nil (bytesOf_ne_nil c)
        have hb : p b = p c := hp.eq_of_mem (by rw [hbytes]; exact List.mem_cons_self)
        rw [hbytes, List.all_cons, hb, hpc, Bool.false_and]
    rw [bytes, List.flatMap_cons, List.all_append, hc, List.all_cons, ← ih]
    rfl

/-- ASCII characters take one byte each. -/
theorem byteWidth_ascii {text : List Char} (h : ∀ c ∈ text, c.utf8Size = 1) : byteWidth text = text.length := by
  induction text with
  | nil => rfl
  | cons c cs ih =>
    obtain ⟨hc, hcs⟩ := List.forall_mem_cons.1 h
    rw [byteWidth_cons, hc, ih hcs, List.length_cons, Nat.add_comm]

end JuiceSyntax
