/-
  Spans that a document can be sliced with: in order, within the document, and with both ends between two
  characters of its UTF-8 form. `usable_iff`: they are those of the stretches of the document.
  `Span.Usable.slice`: the slice of such a span exists, and is the text that stands there.
-/
import JuiceSyntax.Proofs.Source.Slices
import JuiceSyntax.Proofs.Token.Tiling

namespace JuiceSyntax

structure Span.Usable (source : String) (span : Span) : Prop where
  ordered : span.start ≤ span.stop
  inside : span.stop ≤ source.utf8ByteSize
  start : (⟨span.start⟩ : String.Pos.Raw).IsValid source
  stop : (⟨span.stop⟩ : String.Pos.Raw).IsValid source

section

variable {source : String}

/-- A position between two characters is the width of what is before it. -/
theorem isValid_iff {offset : Nat} :
    (⟨offset⟩ : String.Pos.Raw).IsValid source ↔ ∃ before after, source.toList = before ++ after ∧ offset = byteWidth before := by
  rw [String.Pos.Raw.isValid_iff_exists_append]
  constructor
  · rintro ⟨s, t, rfl, hoffset⟩
    refine ⟨s.toList, t.toList, String.toList_append, ?_⟩
    rw [← utf8ByteSize_eq_byteWidth]
    exact congrArg String.Pos.Raw.byteIdx hoffset
  · rintro ⟨before, after, hsource, rfl⟩
    refine ⟨String.ofList before, String.ofList after, ?_, ?_⟩
    · rw [← String.ofList_append, ← hsource, String.ofList_toList]
    · have hwidth := utf8ByteSize_eq_byteWidth (String.ofList before)
      rw [String.toList_ofList] at hwidth
      rw [← hwidth]
      rfl

/-- The text stands in the document at `offset`. -/
def StandsAt (source : String) (offset : Nat) (text : List Char) : Prop :=
  ∃ before after, source.toList = before ++ text ++ after ∧ offset = byteWidth before

namespace StandsAt

variable {offset : Nat} {text text' : List Char}

theorem whole (source : String) : StandsAt source 0 source.toList := ⟨[], [], by simp, rfl⟩

theorem left (h : StandsAt source offset (text ++ text')) : StandsAt source offset text := by
  obtain ⟨before, after, hsource, hoffset⟩ := h
  exact ⟨before, text' ++ after, by rw [hsource]; simp only [List.append_assoc], hoffset⟩

theorem right (h : StandsAt source offset (text ++ text')) : StandsAt source (offset + byteWidth text) text' := by
  obtain ⟨before, after, hsource, hoffset⟩ := h
  exact ⟨before ++ text, after, by rw [hsource]; simp only [List.append_assoc], by rw [hoffset, byteWidth_append]⟩

/-- The span of a text that stands in the document. -/
theorem usable (h : StandsAt source offset text) : Span.Usable source ⟨offset, offset + byteWidth text⟩ := by
  obtain ⟨before, after, hsource, rfl⟩ := h
  have hstop : (⟨byteWidth before + byteWidth text⟩ : String.Pos.Raw).IsValid source :=
    isValid_iff.2 ⟨before ++ text, after, hsource, (byteWidth_append _ _).symm⟩
  have hstart : (⟨byteWidth before⟩ : String.Pos.Raw).IsValid source :=
    isValid_iff.2 ⟨before, text ++ after, by rw [hsource, List.append_assoc], rfl⟩
  exact ⟨Nat.le_add_right _ _, hstop.le_rawEndPos, hstart, hstop⟩

theorem point (h : StandsAt source offset text) : Span.Usable source (.point offset) :=
  have here : StandsAt source offset [] := h.left
  here.usable

end StandsAt

namespace Span.Usable

variable {a b : Span}

theorem point (h : a.Usable source) : (Span.point a.start).Usable source :=
  ⟨Nat.le_refl _, h.start.le_rawEndPos, h.start, h.start⟩

theorem cover (ha : a.Usable source) (hb : b.Usable source) : (a.cover b).Usable source := by
  have hstart : (⟨min a.start b.start⟩ : String.Pos.Raw).IsValid source := by
    obtain h | h := Nat.le_total a.start b.start
    · rw [Nat.min_eq_left h]
      exact ha.start
    · rw [Nat.min_eq_right h]
      exact hb.start
  have hstop : (⟨max a.stop b.stop⟩ : String.Pos.Raw).IsValid source := by
    obtain h | h := Nat.le_total a.stop b.stop
    · rw [Nat.max_eq_right h]
      exact hb.stop
    · rw [Nat.max_eq_left h]
      exact ha.stop
  have hordered : (a.cover b).start ≤ (a.cover b).stop := by
    have := ha.ordered
    show min a.start b.start ≤ max a.stop b.stop
    omega
  exact ⟨hordered, hstop.le_rawEndPos, hstart, hstop⟩

/-- What is between two spans, one after the other. -/
theorem between (ha : a.Usable source) (hb : b.Usable source) (h : a.stop ≤ b.start) :
    Span.Usable source ⟨a.stop, b.start⟩ :=
  ⟨h, hb.start.le_rawEndPos, ha.stop, hb.start⟩

end Span.Usable

/-- Of two texts that a text begins with, the wider one begins with the other. -/
theorem prefix_of_byteWidth_le {text before before' : List Char} (h : before <+: text) (h' : before' <+: text)
    (hle : byteWidth before ≤ byteWidth before') : before <+: before' := by
  obtain hprefix | ⟨rest, rfl⟩ := List.prefix_or_prefix_of_prefix h h'
  · exact hprefix
  · have hlength := length_le_byteWidth rest
    rw [byteWidth_append] at hle
    obtain rfl : rest = [] := List.eq_nil_of_length_eq_zero (by omega)
    exact ⟨[], by simp⟩

/-- A span is usable if and only if some stretch of the document stands there, which is its slice. -/
theorem usable_iff {span : Span} :
    span.Usable source ↔ ∃ text, StandsAt source span.start text ∧ span.stop = span.start + byteWidth text := by
  constructor
  · intro h
    obtain ⟨before, after, hsource, hstart⟩ := isValid_iff.1 h.start
    obtain ⟨before', after', hsource', hstop⟩ := isValid_iff.1 h.stop
    have hordered := h.ordered
    rw [hstart, hstop] at hordered
    have hprefix := prefix_of_byteWidth_le ⟨after, hsource.symm⟩ ⟨after', hsource'.symm⟩ hordered
    obtain ⟨text, rfl⟩ := hprefix
    exact ⟨text, ⟨before, after', hsource', hstart⟩, by rw [hstop, hstart, byteWidth_append]⟩
  · rintro ⟨text, hstands, hstop⟩
    have h := hstands.usable
    rw [← hstop] at h
    exact h

theorem Span.Usable.slice {span : Span} (h : span.Usable source) :
    ∃ text, slice? source.toList span = some text ∧ StandsAt source span.start text := by
  obtain ⟨text, hstands, hstop⟩ := usable_iff.1 h
  refine ⟨text, ?_, hstands⟩
  obtain ⟨before, after, hsource, hstart⟩ := hstands
  have hspan : span = ⟨byteWidth before, byteWidth before + byteWidth text⟩ := by
    rw [← hstart, ← hstop]
  rw [hsource, hspan, slice?_middle]

end

end JuiceSyntax
