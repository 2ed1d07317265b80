/-! Texts as lists of characters, measured in UTF-8 bytes.

Every offset of the library counts bytes; a text is cut only between
characters. -/

namespace PatternDialect

abbrev Text := List Char

namespace Text

/-- Length in UTF-8 bytes. -/
def size : Text → Nat
  | [] => 0
  | c :: rest => c.utf8Size + size rest

/-- The text before and after a byte offset, if the offset lies between two
characters or at an end. -/
def splitAt? : Nat → Text → Option (Text × Text)
  | 0, text => some ([], text)
  | _ + 1, [] => none
  | n + 1, c :: rest =>
      if c.utf8Size ≤ n + 1 then
        (splitAt? (n + 1 - c.utf8Size) rest).map fun (before, after) => (c :: before, after)
      else none

def isBoundary (text : Text) (offset : Nat) : Bool := (splitAt? offset text).isSome

def from? (offset : Nat) (text : Text) : Option Text :=
  (splitAt? offset text).map Prod.snd

/-- The longest initial part that fits into the given number of bytes. -/
def takeBytes : Nat → Text → Text
  | _, [] => []
  | n, c :: rest =>
      if c.utf8Size ≤ n then c :: takeBytes (n - c.utf8Size) rest else []

def dropBytes : Nat → Text → Text
  | _, [] => []
  | n, c :: rest =>
      if c.utf8Size ≤ n then dropBytes (n - c.utf8Size) rest else c :: rest

def slice (start stop : Nat) (text : Text) : Text :=
  takeBytes (stop - start) (dropBytes start text)

@[simp] theorem size_nil : size [] = 0 := rfl

@[simp] theorem size_cons (c : Char) (rest : Text) :
    size (c :: rest) = c.utf8Size + size rest := rfl

@[simp] theorem size_append (first second : Text) :
    size (first ++ second) = size first + size second := by
  induction first with
  | nil => simp
  | cons c rest ih => simp [ih, Nat.add_assoc]

@[simp] theorem takeBytes_append_dropBytes (n : Nat) (text : Text) :
    takeBytes n text ++ dropBytes n text = text := by
  induction text generalizing n with
  | nil => simp [takeBytes, dropBytes]
  | cons c rest ih =>
      by_cases h : c.utf8Size ≤ n <;> simp [takeBytes, dropBytes, h, ih]

theorem takeBytes_size_append (first second : Text) :
    takeBytes first.size (first ++ second) = first := by
  induction first with
  | nil =>
      cases second with
      | nil => rfl
      | cons c rest => simp [takeBytes, Nat.not_le.mpr c.utf8Size_pos]
  | cons c rest ih => simp [takeBytes, ih]

theorem dropBytes_size_append (first second : Text) :
    dropBytes first.size (first ++ second) = second := by
  induction first with
  | nil =>
      cases second with
      | nil => rfl
      | cons c rest => simp [dropBytes, Nat.not_le.mpr c.utf8Size_pos]
  | cons c rest ih => simp [dropBytes, ih]

end Text

end PatternDialect
