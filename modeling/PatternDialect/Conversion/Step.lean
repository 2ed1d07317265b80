import PatternDialect.Conversion.State

/-! One step of a conversion: read a construct, or a single character, and emit
its native form.

Inside a class everything is copied.  A construct after a backslash is copied as
well, without what would follow it. -/

namespace PatternDialect.Conversion

open Character

/-- A group that matches nothing.  It is emitted where dropped text kept two
pieces apart that would otherwise be read as one. -/
def separator : Text := ['(', '?', ':', ')']

namespace State

/-- Copy a character that starts no construct.  A digit must not join the number
of a reference before it. -/
def copyPlain (s : State) : State :=
  match s.rest with
  | [] => s
  | c :: _ =>
      if isDigit c && s.referenceEnd == some s.out.size then (s.emit separator).copy 1
      else s.copy 1

def isSpecial (c : Char) : Bool :=
  ['(', ')', '[', ']', '{', '}', '$', '|', '*', '+', '\\', '?'].contains c

/-- Whether the last special character of the output is an unescaped brace. -/
def inOpenBraces (s : State) : Bool :=
  match s.out.reverse.dropWhile (!isSpecial ·) with
  | '{' :: before => !Escape.pending before
  | _ => false

def continuesBody (next : Char) : Text → Bool
  | 'c' :: body => body.isEmpty && isLetter next
  | 'x' :: body => body.length < 2 && body.all isHexDigit && isHexDigit next
  | 'u' :: '{' :: body => body.all isHexDigit && (isHexDigit next || next == '}')
  | 'u' :: body => body.length < 4 && body.all isHexDigit && isHexDigit next
  | _ => false

/-- Whether a character would go on with the escape sequence at the end of the
output. -/
def continuesEscape (s : State) (next : Char) : Bool :=
  match s.out.reverse.dropWhile (· != '\\') with
  | _ :: before =>
      !Escape.pending before &&
        continuesBody next (s.out.reverse.takeWhile (· != '\\')).reverse
  | [] => false

def dropBlank (s : State) : State :=
  let s := s.skip 1
  if s.inOpenBraces || s.rest.firstSignificant?.any s.continuesEscape then s.emit separator
  else s

def blank (s : State) : State :=
  if s.inClass then s.copy 1
  else if s.escaped then s.dropEscape.copy 1
  else s.dropBlank

def openClass (s : State) : State :=
  if s.inClass || s.escaped then s.copy 1
  else { s with classStart := some s.out.size }.copy 1

def closeClass (s : State) : State :=
  match s.classStart with
  | some start =>
      if s.escaped then s.copy 1
      else { s.copy 1 with classStart := none }.recordAtom start
  | none => s.copy 1

def dot (s : State) (options : Options) : State :=
  if s.inClass || s.escaped || !options.singleLine then s.copy 1
  else ((s.emit ['[', '^', ']']).skip 1).recordAtom s.out.size

def quantified? (s : State) (q : Quantifier) : Option Atom :=
  let recorded := s.atom.filter (·.stop == s.out.size)
  if q.possessive then Atom.trailing? s.out recorded s.groups else recorded

def wrapEmulated (s : State) : Option Atom → State × Option Atom
  | some atom =>
      if atom.emulated then
        let (out, wrapped) := atom.wrap s.out
        ({ s with out }, some wrapped)
      else (s, some atom)
  | none => (s, none)

def quantify (s : State) (options : Options) (q : Quantifier) : Except Fault State :=
  let (wrapped, atom) := s.wrapEmulated (s.quantified? q)
  if q.possessive then
    match atom with
    | some atom =>
        let repeated := Atom.makePossessive wrapped.out wrapped.groups atom q.amount.text
        .ok (({ wrapped with
          out := repeated.source
          groups := repeated.groups
          atom := some repeated.atom }.markReference).skip q.length)
    | none => .error (.nothingToRepeat (s.rest.take q.length))
  else
    .ok (({ wrapped.emit (q.render options.ungreedy) with atom := none }).skip q.length)

/-- Where a quantifier has to cut the output inside a character.  It cuts only
before an atom that it puts into a group. -/
def brokenCut? (s : State) (q : Quantifier) : Option Nat :=
  ((s.quantified? q).filter fun atom =>
    (q.possessive || atom.emulated) && (s.out.splitAt? atom.start).isNone).map Atom.start

def quantifier (s : State) (options : Options) (q : Quantifier) : Except Fault State :=
  if s.escaped then .ok (s.copy 1)
  else if s.inClass then .ok (s.copy q.length)
  else
    match s.brokenCut? q with
    | some offset => .error (.insideCharacter offset)
    | none => s.quantify options q

def resolveDigits (s : State) (digits : Text) : Except Fault Nat :=
  match Decimal.read? digits with
  | some number => s.groups.resolveNumber number
  | none => .error (.unresolvedReference digits)

def numberReference (s : State) : Except Fault State :=
  if s.inClass || s.escaped then .ok (s.copy 1)
  else do
    let digits := Text.digits (s.rest.drop 1)
    let slot ← s.resolveDigits digits
    return (s.skip (1 + digits.length)).emitReference slot

def nameReference (s : State) (form : NameReference) : Except Fault State :=
  if s.escaped then .ok (s.copy 1)
  else if s.inClass then .ok (s.copy form.opener.length)
  else
    match Text.name? (s.rest.drop form.opener.length) with
    | some name => do
        let slot ←
          if name.all isDigit then s.resolveDigits name else s.groups.resolveName name
        return (s.skip (form.opener.length + name.length + 1)).emitReference slot
    | none => .error (.expectedReferenceName form.opener)

def atLookaheadStart (s : State) : Bool :=
  match s.frames with
  | frame :: _ => frame.kind == .lookahead false && frame.start + 3 == s.out.size
  | [] => false

/-- Open a group without a mark of its own.  Without capturing it stays a plain
group, except where it may belong to an emulated atomic group. -/
def openCapture (s : State) (options : Options) : Except Fault State :=
  if Text.firstSignificant? (s.rest.drop 1) = some '?' then
    .error (.invalidGroup (s.rest.takeWhile (· != '?') ++ ['?']))
  else
    let slot := s.groups.size
    if !options.noCapture then
      .ok (({ s with groups := s.groups.push .anonymous }.copy 1).openFrame
        (.capture slot) s.out.size slot)
    else if s.atLookaheadStart then
      .ok (({ s with groups := s.groups.push .suppressed }.copy 1).openFrame
        (.capture slot) s.out.size slot)
    else .ok (((s.emit ['(', '?', ':']).skip 1).openFrame .plain s.out.size slot)

def openNamed (s : State) : Except Fault State :=
  match Text.name? (s.rest.drop 3) with
  | some name => do
      let groups ← s.groups.pushNamed name
      return (({ s with groups }.emit ['(']).skip (3 + name.length + 1)).openFrame
        (.capture s.groups.size) s.out.size s.groups.size
  | none => .error .expectedGroupName

def openAtomic (s : State) : State :=
  (({ s with groups := s.groups.push .suppressed }.emit Atom.atomicOpen).skip 3).openFrame
    (.atomic s.groups.size) s.out.size s.groups.size

def openNative (s : State) (form : Opener) (kind : FrameKind) : State :=
  (s.copy form.length).openFrame kind s.out.size s.groups.size

def openGroup (s : State) (options : Options) (form : Opener) : Except Fault State :=
  if s.escaped then .ok (s.copy 1)
  else if s.inClass then .ok (s.copy form.length)
  else
    match form with
    | .capture => s.openCapture options
    | .plain | .lookbehind _ => .ok (s.openNative form .plain)
    | .lookahead negative => .ok (s.openNative form (.lookahead negative))
    | .named => s.openNamed
    | .atomic => .ok s.openAtomic
    | .unknown => .error (.invalidGroup (s.rest.take 3))

def emitClose (s : State) (frame : Frame) : State :=
  match frame.kind with
  | .atomic slot => ((s.emit (Atom.atomicClose slot)).skip 1).markReference
  | _ => s.copy 1

def spliceOf (s : State) (frame : Frame) (innerEnd : Nat) : Option Splice :=
  match frame.kind, s.capture with
  | .lookahead false, some capture =>
      if capture.start == frame.start + 3 && capture.stop == innerEnd then
        some { slot := capture.slot, stop := s.out.size }
      else none
  | _, _ => none

def captureOf (s : State) (frame : Frame) : Option ClosedCapture :=
  match frame.kind with
  | .capture slot => some { slot, start := frame.start, stop := s.out.size }
  | _ => s.capture

def isAtomic (frame : Frame) : Bool :=
  match frame.kind with
  | .atomic _ => true
  | _ => false

/-- Close the innermost group.  A parenthesis too many is left to the engine. -/
def closeGroup (s : State) : State :=
  if s.inClass || s.escaped then s.copy 1
  else
    match s.frames with
    | [] => s.copy 1
    | frame :: frames =>
        let closed := s.emitClose frame
        { closed with
          frames
          splice := closed.spliceOf frame s.out.size
          capture := closed.captureOf frame
          atom := some
            { start := frame.start
              stop := closed.out.size
              firstGroup := frame.firstGroup
              emulated := isAtomic frame } }

def commentLength (text : Text) : Nat := (text.takeWhile (!isLineEnd ·)).length + 1

def comment (s : State) : State :=
  if s.inClass then s.copy 1
  else if s.escaped then s.dropEscape.copy 1
  else s.skip (commentLength s.rest)

/-- A `\0` that no digit follows.  A digit that comes next once blanks are dropped
must not join it. -/
def nul (s : State) : State :=
  let after := s.rest.drop 2
  if after.head?.any isBlank && (Text.firstSignificant? after).any isDigit then
    (s.copy 2).emit separator
  else s.copy 2

/-- A backslash and digits.  Behind a lookahead that holds a single capture they
are the reference of an emulated atomic group, whatever the digits are. -/
def escapedDigit (s : State) (digit : Char) : Except Fault State :=
  if s.inClass then .ok (s.copy 2)
  else
    let digits := Text.digits (s.rest.drop 1)
    match s.splice.filter (·.stop == s.out.size) with
    | some splice =>
        .ok { ({ s with groups := s.groups.suppress splice.slot }.skip
          (1 + digits.length)).emitReference splice.slot with splice := none }
    | none =>
        if digit == '0' && digits.length == 1 then .ok s.nul
        else .error (.octalEscape ('\\' :: digits))

def bracedHex? : Text → Option Text
  | '{' :: rest =>
      let digits := rest.takeWhile (· != '}')
      if digits.length < rest.length && digits.all isHexDigit then some digits else none
  | _ => none

/-- Number of characters of a braced code point at the start of a text.  The
braces belong to the escape and are no quantifier. -/
def bracedLength (text : Text) : Nat :=
  match bracedHex? text with
  | some [] | none => 0
  | some digits => digits.length + 2

def startsWithHex (count : Nat) (text : Text) : Bool :=
  (text.take count).length == count && (text.take count).all isHexDigit

def isKnownEscape (letter : Char) : Bool :=
  ['d', 'D', 'w', 'W', 's', 'S', 't', 'r', 'n', 'v', 'f', 'b', 'B'].contains letter

def checkEscape (unicode : Bool) (letter : Char) (after : Text) : Except Fault Unit :=
  if isKnownEscape letter then .ok ()
  else if letter == 'c' && after.head?.any isLetter then .ok ()
  else if letter == 'x' && startsWithHex 2 after then .ok ()
  else if letter == 'u' && startsWithHex 4 after then .ok ()
  else if (letter == 'u' && (bracedHex? after).any fun hex => hex.length == 4 || hex.length == 5) ||
      ((letter == 'p' || letter == 'P') && after.head? == some '{' && after.contains '}') then
    if unicode then .ok () else .error (.unicodeFlagRequired letter)
  else .error (.unnecessaryEscape letter)

def escapedLetter (s : State) (options : Options) (letter : Char) : Except Fault State := do
  let after := s.rest.drop 2
  if options.extra then checkEscape options.unicode letter after
  return s.copy (2 + if letter == 'u' && options.unicode then bracedLength after else 0)

/-- The first delimiter outside classes ends the pattern; what follows are flags,
in which it must not occur again. -/
def flagsDelimiter (s : State) (delimiter : Char) : Except Fault State :=
  if s.inClass || s.escaped then .ok (s.copy 1)
  else
    let after := s.skip 1
    if Escape.occursUnescaped delimiter after.before after.rest then
      .error (.secondDelimiter delimiter)
    else .ok { after.skip after.rest.length with flags := some after.rest }

def read (s : State) (options : Options) : Construct → Except Fault State
  | .blank _ => .ok s.blank
  | .openClass => .ok s.openClass
  | .closeClass => .ok s.closeClass
  | .dot => .ok (s.dot options)
  | .quantifier q => s.quantifier options q
  | .numberReference => s.numberReference
  | .nameReference form => s.nameReference form
  | .openGroup form => s.openGroup options form
  | .closeGroup => .ok s.closeGroup
  | .comment => .ok s.comment
  | .escapedDigit digit => s.escapedDigit digit
  | .escapedLetter letter => s.escapedLetter options letter
  | .flagsDelimiter c => s.flagsDelimiter c

def next? (s : State) (delimiter : Option Char) : Option Construct :=
  Construct.at? delimiter s.before s.rest

def step (s : State) (options : Options) (delimiter : Option Char) : Except Fault State :=
  match s.next? delimiter with
  | some construct => s.read options construct
  | none => .ok s.copyPlain

end State

end PatternDialect.Conversion
