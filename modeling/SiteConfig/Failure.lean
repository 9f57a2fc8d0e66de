/-!
# Failures with their causes

A **failure** tells what went wrong as a list of statements, each the cause of the
one before it. On one line they are joined by colons.
-/

namespace SiteConfig

/-- What went wrong, and the causes beneath it, outermost first. -/
structure Failure where
  statement : String
  causes : List String
  deriving DecidableEq, Repr

namespace Failure

/-- A failure without a known cause. -/
def simple (statement : String) : Failure := ⟨statement, []⟩

/-- All statements, outermost first. -/
def chain (f : Failure) : List String := f.statement :: f.causes

/-- The same failure seen as the cause of another statement. -/
def within (f : Failure) (statement : String) : Failure := ⟨statement, f.chain⟩

/-- The failure on one line. -/
def text (f : Failure) : String := ": ".intercalate f.chain

end Failure

end SiteConfig
