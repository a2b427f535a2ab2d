/-
  Spans: half-open byte ranges of a document. A span may be inverted when it comes from
  outside; every operation is defined on all of them.
-/

namespace JuiceSyntax

/-- The bytes from `start` up to, and without, `stop`. -/
structure Span where
  start : Nat
  stop : Nat
deriving DecidableEq, Repr, Inhabited

namespace Span

/-- The empty span at `offset`. -/
def point (offset : Nat) : Span := ⟨offset, offset⟩

/-- The least span that holds both. -/
def cover (a b : Span) : Span := ⟨min a.start b.start, max a.stop b.stop⟩

/-- Inverted spans have size zero. -/
def size (s : Span) : Nat := s.stop - s.start

def isEmpty (s : Span) : Bool := s.size == 0

/-- `inner` lies within `outer`, end to end. -/
def holds (outer inner : Span) : Bool :=
  decide (outer.start ≤ inner.start) && decide (inner.stop ≤ outer.stop)

def shift (s : Span) (n : Nat) : Span := ⟨s.start + n, s.stop + n⟩

def text (s : Span) : String := s!"{s.start}..{s.stop}"

@[simp] theorem holds_iff {outer inner : Span} :
    outer.holds inner = true ↔ outer.start ≤ inner.start ∧ inner.stop ≤ outer.stop := by
  simp [holds]

end Span

end JuiceSyntax
