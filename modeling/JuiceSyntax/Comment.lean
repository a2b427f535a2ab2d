/-
  Comments, which the grammar never sees, and the queue that hands them out in document
  order to whoever prints the tree.
-/
import JuiceSyntax.Source.Span

namespace JuiceSyntax

/-- A `//` comment; the text has the slashes and no carriage return at its end. -/
structure Comment where
  span : Span
  text : String
deriving DecidableEq, Repr, Inhabited

namespace Comment

/-- The comments not handed out yet, in the order of their starts. -/
structure Queue where
  waiting : List Comment
deriving Repr, Inhabited

namespace Queue

/-- Comments with the same start keep their order. -/
def ofList (comments : List Comment) : Queue :=
  ⟨comments.mergeSort fun a b => decide (a.span.start ≤ b.span.start)⟩

def next? (q : Queue) : Option Comment := q.waiting.head?

/-- Hands out the comments that begin before `offset`. -/
def takeBefore (q : Queue) (offset : Nat) : List Comment × Queue :=
  (q.waiting.takeWhile (·.span.start < offset), ⟨q.waiting.dropWhile (·.span.start < offset)⟩)

/-- Hands out the comments inside `span`; those before it, and those that begin in it and
end outside, are lost. -/
def takeWithin (q : Queue) (span : Span) : List Comment × Queue :=
  let (_, q) := q.takeBefore span.start
  let (taken, q) := q.takeBefore span.stop
  (taken.filter fun c => span.holds c.span, q)

def takeRest (q : Queue) : List Comment × Queue := (q.waiting, ⟨[]⟩)

theorem takeBefore_append (q : Queue) (offset : Nat) :
    (q.takeBefore offset).1 ++ (q.takeBefore offset).2.waiting = q.waiting := by
  simp [takeBefore]

end Queue

end Comment

end JuiceSyntax
