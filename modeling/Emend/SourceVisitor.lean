import Emend.Markup.Traversal
import Emend.Source

/-! # Visitors of source files

What a recipe hands to a run: which files it accepts, and what it does to one.
-/

namespace Emend

structure SourceVisitor where
  accepts : Source → Bool
  visit : Source → Visiting (Visit Source)

namespace SourceVisitor

/-- A visitor of markup documents of its target kind; every visit starts from the state `start`. -/
def ofMarkup {σ : Type} (v : Markup.Visitor (StateT σ Visiting)) (start : σ) : SourceVisitor where
  accepts
    | .markup d => d.kind.isA v.target
    | .text _ => false
  visit
    | .markup d =>
      if d.kind.isA v.target then return ((← (v.visit d).run' start).map .markup).settle (.markup d)
      else return .unchanged
    | .text _ => return .unchanged

def ofText (visit : PlainText → Visiting (Visit PlainText)) : SourceVisitor where
  accepts s := s.kind == .text
  visit
    | .text t => return ((← visit t).map .text).settle (.text t)
    | .markup _ => return .unchanged

end SourceVisitor
end Emend
