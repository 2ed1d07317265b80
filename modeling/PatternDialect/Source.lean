import PatternDialect.Text.Basic

/-! Native source as a reader meets it, one character at a time. -/

namespace PatternDialect.Source

/-- Where a reader of native source stands: outside classes, in a class, or right
after a backslash in one of the two. -/
inductive Place where
  | outside
  | inClass
  | escape
  | classEscape
  deriving DecidableEq

namespace Place

def next : Place → Char → Place
  | outside, c => if c = '\\' then escape else if c = '[' then inClass else outside
  | inClass, c => if c = '\\' then classEscape else if c = ']' then outside else inClass
  | escape, _ => outside
  | classEscape, _ => inClass

def after (place : Place) (text : Text) : Place := text.foldl next place

end Place

end PatternDialect.Source
