import PatternDialect.Text.Basic

/-! Spans of a text, by byte offsets. -/

namespace PatternDialect

structure Span where
  start : Nat
  stop : Nat
  deriving DecidableEq

namespace Span

def textIn (span : Span) (text : Text) : Text := text.slice span.start span.stop

end Span

end PatternDialect
