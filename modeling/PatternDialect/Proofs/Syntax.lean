import PatternDialect.Proofs.Locality
import PatternDialect.Proofs.Quiet

/-! Syntax trees of the dialect, the texts that print them, and what they stand for in
native source.

A tree is a sequence of items with bars between them, and its groups hold trees.  The
native source of a tree numbers the groups as they are opened.  A possessive item has one
more group, which comes before the groups of the item. -/

namespace PatternDialect.Syntax

open Character Source Conversion

/-- Characters that stand for themselves. -/
def isLiteral (c : Char) : Bool :=
  !isBlank c &&
    !(['\\', '[', ']', '{', '}', '(', ')', '*', '+', '?', '.', '#', '$', '|'].contains c)

def isPunctuation (c : Char) : Bool :=
  ('!' ≤ c && c ≤ '/') || (':' ≤ c && c ≤ '@') || ('[' ≤ c && c ≤ '\x60') ||
    ('{' ≤ c && c ≤ '~')

def isLetterEscape : Text → Bool
  | [letter] => State.isKnownEscape letter
  | ['x', c, d] => isHexDigit c && isHexDigit d
  | ['u', c, d, e, f] => isHexDigit c && isHexDigit d && isHexDigit e && isHexDigit f
  | _ => false

def isClassBody (body : Text) : Bool :=
  Place.inClass.within body && Place.inClass.after body == .inClass

inductive Target where
  /-- The number of a group that the author can see, in angles or without. -/
  | number (angled : Bool) (number : Nat)
  | name (word : Text) (identifier : isIdentifier word = true)

inductive Leaf where
  | literal (c : Char) (plain : isLiteral c = true)
  | dot
  | bracket (body : Text) (inner : isClassBody body = true)
  | letter (body : Text) (known : isLetterEscape body = true)
  | escaped (c : Char) (kept : (isPunctuation c || isBlank c) = true)
  | reference (target : Target)

inductive Form where
  | capture
  | named (name : Text) (identifier : isIdentifier name = true)
  | plain
  | lookahead (negative : Bool)
  | lookbehind (negative : Bool)
  | atomic

inductive Greed where
  | greedy
  | lazy
  | possessive
  deriving DecidableEq

structure Suffix where
  amount : Repeat
  greed : Greed
  count : ∀ braces, amount = .counted braces → Repeat.IsCount braces

theorem count_star : ∀ braces, Repeat.star = .counted braces → Repeat.IsCount braces := nofun

theorem count_plus : ∀ braces, Repeat.plus = .counted braces → Repeat.IsCount braces := nofun

theorem count_optional : ∀ braces, Repeat.optional = .counted braces → Repeat.IsCount braces :=
  nofun

inductive Tree where
  | empty
  | bar (next : Tree)
  | item (leaf : Leaf) (suffix : Option Suffix) (next : Tree)
  | group (form : Form) (body : Tree) (suffix : Option Suffix) (next : Tree)

/-! ### Printing -/

namespace Target

def text : Target → Text
  | number false n => '$' :: Decimal.write n
  | number true n => '$' :: '<' :: Decimal.write n ++ ['>']
  | name word _ => '$' :: '<' :: word ++ ['>']

end Target

def Leaf.text : Leaf → Text
  | literal c _ => [c]
  | dot => ['.']
  | bracket body _ => '[' :: body ++ [']']
  | letter body _ => '\\' :: body
  | escaped c _ => ['\\', c]
  | reference target => target.text

/-- The digits of a number without angles end where no digit follows. -/
def Leaf.Ends : Leaf → Text → Prop
  | reference (.number false _), more => more.head?.all (!isDigit ·) = true
  | _, _ => True

def Form.text : Form → Text
  | capture => ['(']
  | named name _ => '(' :: '?' :: '<' :: name ++ ['>']
  | plain => ['(', '?', ':']
  | lookahead negative => ['(', '?', if negative then '!' else '=']
  | lookbehind negative => ['(', '?', '<', if negative then '!' else '=']
  | atomic => ['(', '?', '>']

def Suffix.quantifier (suffix : Suffix) : Quantifier :=
  ⟨suffix.amount, suffix.greed == .lazy, suffix.greed == .possessive⟩

/-- Blanks and comments. -/
inductive Layout : Text → Prop where
  | none : Layout []
  | blank {c : Char} {more : Text} (blank : isBlank c = true) (rest : Layout more) :
      Layout (c :: more)
  | comment {body more : Text} {c : Char} (inner : ∀ d ∈ body, isLineEnd d = false)
      (ends : isLineEnd c = true) (rest : Layout more) : Layout ('#' :: body ++ c :: more)

inductive Suffixed : Option Suffix → Text → Prop where
  | none : Suffixed none []
  | some {gap : Text} (suffix : Suffix) (layout : Layout gap) :
      Suffixed (some suffix) (gap ++ suffix.quantifier.text)

/-- The texts that print a tree, with any layout between its tokens. -/
inductive Printed : Tree → Text → Prop where
  | empty {gap : Text} (layout : Layout gap) : Printed .empty gap
  | bar {gap more : Text} {next : Tree} (layout : Layout gap) (rest : Printed next more) :
      Printed (.bar next) (gap ++ '|' :: more)
  | item {gap marks more : Text} {leaf : Leaf} {suffix : Option Suffix} {next : Tree}
      (layout : Layout gap) (suffixed : Suffixed suffix marks) (rest : Printed next more)
      (ends : leaf.Ends (marks ++ more)) :
      Printed (.item leaf suffix next) (gap ++ (leaf.text ++ (marks ++ more)))
  | group {gap inner marks more : Text} {form : Form} {body next : Tree} {suffix : Option Suffix}
      (layout : Layout gap) (content : Printed body inner) (suffixed : Suffixed suffix marks)
      (rest : Printed next more) :
      Printed (.group form body suffix next)
        (gap ++ (form.text ++ (inner ++ ')' :: (marks ++ more))))

/-! ### Slots -/

def Suffix.possessive (suffix : Option Suffix) : Bool := suffix.any (·.greed == .possessive)

def Suffix.slots (suffix : Option Suffix) : List Slot :=
  if possessive suffix then [.suppressed] else []

/-- The slot of a group.  Without capturing a group that is the first thing in a positive
lookahead has a hidden one. -/
def Form.slots (noCapture first : Bool) : Form → List Slot
  | capture => if !noCapture then [.anonymous] else if first then [.suppressed] else []
  | named name _ => [.named name]
  | atomic => [.suppressed]
  | plain | lookahead _ | lookbehind _ => []

def Form.looksAhead : Form → Bool
  | lookahead negative => !negative
  | _ => false

def Form.isAtomic : Form → Bool
  | atomic => true
  | _ => false

def Tree.slots (noCapture : Bool) : (first : Bool) → Tree → List Slot
  | _, .empty => []
  | _, .bar next => next.slots noCapture false
  | _, .item _ suffix next => Suffix.slots suffix ++ next.slots noCapture false
  | first, .group form body suffix next =>
      Suffix.slots suffix ++ (form.slots noCapture first ++
        (body.slots noCapture form.looksAhead ++ next.slots noCapture false))

/-! ### References -/

/-- A target that can be told from the slots opened so far. -/
def Target.Known (slots : List Slot) : Target → Prop
  | number _ n => 0 < n ∧ n ≤ slots.countP Slot.isVisible
  | name word _ => .named word ∈ slots

def Leaf.Known (slots : List Slot) : Leaf → Prop
  | reference target => target.Known slots
  | _ => True

def Leaf.targets : Leaf → List Target
  | reference target => [target]
  | _ => []

def Tree.targets : Tree → List Target
  | .empty => []
  | .bar next => next.targets
  | .item leaf _ next => leaf.targets ++ next.targets
  | .group _ body _ next => body.targets ++ next.targets

/-- Every reference is to a group that was opened before. -/
def Tree.Known (noCapture : Bool) : (slots : List Slot) → (first : Bool) → Tree → Prop
  | _, _, .empty => True
  | slots, _, .bar next => next.Known noCapture slots false
  | slots, _, .item leaf _ next => leaf.Known slots ∧ next.Known noCapture slots false
  | slots, first, .group form body _ next =>
      body.Known noCapture (slots ++ form.slots noCapture first) form.looksAhead ∧
        next.Known noCapture (slots ++ (form.slots noCapture first ++
          body.slots noCapture form.looksAhead)) false

/-! ### Native source -/

/-- The native indices of what the author can see, the whole match first. -/
def visibleIndices (slots : List Slot) : List Nat :=
  (List.range slots.length).filter fun index => slots[index]?.any Slot.isVisible

def Target.index (table : GroupTable) : Target → Nat
  | number _ n => (visibleIndices table.slots)[n]?.getD 0
  | name word _ => table.slots.findIdx (· = .named word)

def Leaf.source (options : Options) (table : GroupTable) : Leaf → Text
  | literal c _ => [c]
  | dot => if options.singleLine then ['[', '^', ']'] else ['.']
  | bracket body _ => '[' :: body ++ [']']
  | letter body _ => '\\' :: body
  | escaped c _ => if isBlank c || c == '#' then [c] else ['\\', c]
  | reference target => '\\' :: Decimal.write (target.index table)

/-- What keeps a digit apart from the reference before it. -/
def Leaf.parted (joined : Bool) : Leaf → Text
  | literal c _ => if joined && isDigit c then separator else []
  | _ => []

def Leaf.refers : Leaf → Bool
  | reference _ => true
  | _ => false

def Form.opening (noCapture first : Bool) : Form → Text
  | capture => if !noCapture || first then ['('] else ['(', '?', ':']
  | named _ _ => ['(']
  | plain => ['(', '?', ':']
  | lookahead negative => ['(', '?', if negative then '!' else '=']
  | lookbehind negative => ['(', '?', '<', if negative then '!' else '=']
  | atomic => ['(', '?', '=', '(']

def Form.closing (index : Nat) : Form → Text
  | atomic => ')' :: ')' :: '\\' :: Decimal.write index
  | _ => [')']

def enclosed (emulated : Bool) (unit : Text) : Text :=
  if emulated then '(' :: '?' :: ':' :: unit ++ [')'] else unit

/-- A unit with what repeats it.  A possessive repetition is emulated by the group of the
given index. -/
def repeated (ungreedy emulated : Bool) (index : Nat) (suffix : Option Suffix) (unit : Text) :
    Text :=
  match suffix with
  | none => unit
  | some suffix =>
      match suffix.greed with
      | .greedy =>
          enclosed emulated unit ++ suffix.amount.text ++ (if ungreedy then ['?'] else [])
      | .lazy =>
          enclosed emulated unit ++ suffix.amount.text ++ (if ungreedy then [] else ['?'])
      | .possessive =>
          ['(', '?', '=', '('] ++ enclosed emulated unit ++ suffix.amount.text ++
            ')' :: ')' :: '\\' :: Decimal.write index

def refers (unit : Bool) : Option Suffix → Bool
  | none => unit
  | some suffix => suffix.greed == .possessive

def Tree.refers : (joined : Bool) → Tree → Bool
  | joined, .empty => joined
  | _, .bar next => next.refers false
  | _, .item leaf suffix next => next.refers (Syntax.refers leaf.refers suffix)
  | _, .group form _ suffix next => next.refers (Syntax.refers form.isAtomic suffix)

/-- The native source of a tree whose first group has the given index, in a pattern with
the given table.  `first` tells whether the tree begins a positive lookahead and `joined`
whether a reference stands right before it. -/
def Tree.source (options : Options) (table : GroupTable) :
    (index : Nat) → (first joined : Bool) → Tree → Text
  | _, _, _, .empty => []
  | index, _, _, .bar next => '|' :: next.source options table index false false
  | index, _, joined, .item leaf suffix next =>
      leaf.parted joined ++
        (repeated options.ungreedy false index suffix (leaf.source options table) ++
          next.source options table (index + (Suffix.slots suffix).length) false
            (Syntax.refers leaf.refers suffix))
  | index, first, _, .group form body suffix next =>
      let own := index + (Suffix.slots suffix).length
      let inner := own + (form.slots options.noCapture first).length
      repeated options.ungreedy form.isAtomic index suffix
          (form.opening options.noCapture first ++
            (body.source options table inner form.looksAhead false ++ form.closing own)) ++
        next.source options table
          (inner + (body.slots options.noCapture form.looksAhead).length) false
          (Syntax.refers form.isAtomic suffix)

def Tree.table (options : Options) (tree : Tree) : GroupTable :=
  ⟨tree.slots options.noCapture false⟩

end PatternDialect.Syntax
