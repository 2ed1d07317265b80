import PatternDialect.Native.Escape
import PatternDialect.Text.Identifier

/-! The names of capture groups in native source. -/

namespace PatternDialect.Native

/-- The character of an escape `\uHHHH` or `\u{H…}`, from the text after its letter. -/
def readEscapedCharacter? (text : Text) : Option (Char × Text) :=
  match readUnicode true text with
  | .ok (code, rest) =>
      if isHighSurrogate code || isLowSurrogate code then none else some (Char.ofNat code, rest)
  | .error _ => none

def readNameCharacter? : Text → Option (Char × Text)
  | '\\' :: 'u' :: rest => readEscapedCharacter? rest
  | c :: rest => some (c, rest)
  | [] => none

def readNameTail? : Nat → Text → Option (Text × Text)
  | 0, _ => none
  | bound + 1, text =>
      match readNameCharacter? text with
      | some ('>', rest) => some ([], rest)
      | some (c, rest) =>
          if Identifier.continues c then
            (readNameTail? bound rest).map fun (name, rest) => (c :: name, rest)
          else none
      | none => none

def readGroupName? (text : Text) : Option (Text × Text) :=
  match readNameCharacter? text with
  | some (c, rest) =>
      if Identifier.starts c then
        (readNameTail? rest.length rest).map fun (name, rest) => (c :: name, rest)
      else none
  | none => none

/-- The capture groups that a source opens, in order, each with its name if it has
one. -/
def declaredGroups : Bool → Text → List (Option Text)
  | _, [] => []
  | inClass, '\\' :: _ :: rest => declaredGroups inClass rest
  | false, '[' :: rest => declaredGroups true rest
  | true, ']' :: rest => declaredGroups false rest
  | false, '(' :: '?' :: '<' :: rest =>
      match readGroupName? rest with
      | some (name, _) => some name :: declaredGroups false rest
      | none => declaredGroups false rest
  | false, '(' :: '?' :: rest => declaredGroups false rest
  | false, '(' :: rest => none :: declaredGroups false rest
  | inClass, _ :: rest => declaredGroups inClass rest

end PatternDialect.Native
