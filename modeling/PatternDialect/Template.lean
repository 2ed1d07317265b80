import PatternDialect.Substitution

/-! Templates: literal segments of a pattern with values between them. -/

namespace PatternDialect

/-- A first segment, and further segments with the value before each. -/
structure Template where
  head : Text
  tail : List (Substitution × Text) := []

namespace Template

def literals (template : Template) : List Text := template.head :: template.tail.map Prod.snd

def substitutions (template : Template) : List Substitution := template.tail.map Prod.fst

/-- Segments and values, of which there must be one less. -/
def ofParts (literals : List Text) (substitutions : List Substitution) :
    Except Fault Template :=
  match literals with
  | head :: rest =>
      if substitutions.length = rest.length then
        .ok { head, tail := substitutions.zip rest }
      else .error (.templateArity literals.length substitutions.length)
  | [] => .error (.templateArity 0 substitutions.length)

def hole : Text := ['$', '{', '}']

/-- The segments of a text between its unescaped holes.  The text read and the
current segment are given in reverse. -/
def segmentsFrom : Text → Text → Text → List Text
  | _, current, [] => [current.reverse]
  | before, current, '$' :: '{' :: '}' :: rest =>
      if Escape.pending before then
        segmentsFrom ('}' :: '{' :: '$' :: before) ('}' :: '{' :: '$' :: current) rest
      else current.reverse :: segmentsFrom ('}' :: '{' :: '$' :: before) [] rest
  | before, current, c :: rest => segmentsFrom (c :: before) (c :: current) rest

def segments (text : Text) : List Text := segmentsFrom [] [] text

def parse (text : Text) (substitutions : List Substitution) : Except Fault Template :=
  ofParts (segments text) substitutions

def append (template : Template) (value : Substitution) : Template :=
  { template with tail := template.tail ++ [(value, [])] }

def appendText (template : Template) (text : Text) : Template :=
  match template.tail.getLast? with
  | some (value, literal) =>
      { template with tail := template.tail.dropLast ++ [(value, literal ++ text)] }
  | none => { template with head := template.head ++ text }

def mergeFrom (options : Options) : Nat → List (Substitution × Text) → Except Fault Text
  | _, [] => .ok []
  | position, (value, literal) :: rest =>
      match value.render position options with
      | .ok rendered =>
          match mergeFrom options (position + 1) rest with
          | .ok merged => .ok (rendered ++ literal ++ merged)
          | .error fault => .error fault
      | .error fault => .error fault

def merge (template : Template) (options : Options) : Except Fault Text :=
  match mergeFrom options 0 template.tail with
  | .ok merged => .ok (template.head ++ merged)
  | .error fault => .error fault

end Template

end PatternDialect
