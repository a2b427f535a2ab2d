/-
  Limits and modes of one reading of the grammar.
-/

namespace JuiceSyntax

structure Options where
  /-- Stop at the first fault. -/
  strict : Bool
  /-- How deep expressions, blocks and types may nest. -/
  maxDepth : Nat
  /-- How many faults are kept before the reading gives up. -/
  maxFaults : Nat
deriving DecidableEq, Repr, Inhabited

namespace Options

def standard : Options := ⟨false, 256, 20⟩

def withStrict (o : Options) (strict : Bool) : Options := { o with strict }

def withMaxDepth (o : Options) (maxDepth : Nat) : Options := { o with maxDepth }

/-- A reading keeps at least one fault. -/
def withMaxFaults (o : Options) (n : Nat) : Options := { o with maxFaults := max n 1 }

end Options

end JuiceSyntax
