import PatternDialect.Native.GroupName

/-! Reading native source.

The source is read from left to right with the open groups on a stack.  In unicode
mode only what has a meaning may be escaped; otherwise an escape that means nothing
stands for its character, and braces and brackets that close or open nothing stand
for themselves. -/

namespace PatternDialect.Native

open Character

/-! Classes. -/

/-- One atom of a class and the text after it; nothing at the end of the class or
of the text. -/
def readClassAtom (unicode : Bool) (text : Text) :
    Except Refusal (Option (ClassItem × Text)) :=
  match text with
  | [] => .ok none
  | ']' :: _ => .ok none
  | ['\\'] => .error .unfinishedClassEscape
  | '\\' :: c :: rest =>
      match classNamed? c with
      | some (name, negated) => .ok (some (.named name negated, rest))
      | none =>
          if c == 'b' then .ok (some (.range 8 8, rest))
          else if c == '-' && unicode then .ok (some (.range '-'.toNat '-'.toNat, rest))
          else if c == 'c' && !unicode then
            match rest with
            | control :: tail =>
                if isWord control then
                  .ok (some (.range (control.toNat % 32) (control.toNat % 32), tail))
                else .ok (some (.range '\\'.toNat '\\'.toNat, c :: rest))
            | [] => .ok (some (.range '\\'.toNat '\\'.toNat, c :: rest))
          else
            match readCharacterEscape unicode c rest with
            | .ok (code, tail) => .ok (some (.range code code, tail))
            | .error fault => .error fault
  | c :: rest => .ok (some (.range c.toNat c.toNat, rest))

def joinRange (unicode : Bool) (first second : ClassItem) :
    Except Refusal (List ClassItem) :=
  match first, second with
  | .range low _, .range high _ =>
      if low ≤ high then .ok [.range low high] else .error .reversedRange
  | _, _ =>
      if unicode then .error .invalidRange
      else .ok [first, .range '-'.toNat '-'.toNat, second]

def readClassItems (unicode : Bool) : Nat → Text → Except Refusal (List ClassItem × Text)
  | 0, _ => .error .unbalancedBracket
  | bound + 1, text => do
      match text with
      | [] => .error .unbalancedBracket
      | ']' :: rest => return ([], rest)
      | _ =>
          match ← readClassAtom unicode text with
          | none => .error .unbalancedBracket
          | some (first, '-' :: rest) =>
              match ← readClassAtom unicode rest with
              | none =>
                  let (items, rest) ← readClassItems unicode bound rest
                  return (first :: .range '-'.toNat '-'.toNat :: items, rest)
              | some (second, rest) =>
                  let joined ← joinRange unicode first second
                  let (items, rest) ← readClassItems unicode bound rest
                  return (joined ++ items, rest)
          | some (first, rest) =>
              let (items, rest) ← readClassItems unicode bound rest
              return (first :: items, rest)

def readClass (unicode : Bool) (text : Text) : Except Refusal (Expression × Text) := do
  let (negated, body) :=
    match text with
    | '^' :: rest => (true, rest)
    | _ => (false, text)
  let (items, rest) ← readClassItems unicode (body.length + 1) body
  return (.characters items negated, rest)

/-! Quantifiers. -/

/-- The number written by digits, at most the largest that has 64 bits. -/
def countOf (digits : Text) : Nat := min (Decimal.value digits) (Decimal.limit - 1)

def readCount? (text : Text) : Option (Nat × Option Nat × Text) :=
  let low := text.takeWhile isDigit
  if low.isEmpty then none
  else
    match text.dropWhile isDigit with
    | '}' :: rest => some (countOf low, some (countOf low), rest)
    | ',' :: tail =>
        let high := tail.takeWhile isDigit
        match tail.dropWhile isDigit with
        | '}' :: rest =>
            some (countOf low, if high.isEmpty then none else some (countOf high), rest)
        | _ => none
    | _ => none

def readAmount? (unicode : Bool) :
    Text → Except Refusal (Option (Nat × Option Nat × Text))
  | '*' :: rest => .ok (some (0, none, rest))
  | '+' :: rest => .ok (some (1, none, rest))
  | '?' :: rest => .ok (some (0, some 1, rest))
  | '{' :: rest =>
      match readCount? rest with
      | some count => .ok (some count)
      | none => if unicode then .error .invalidQuantifier else .ok none
  | _ => .ok none

def readBounds? (unicode : Bool) (text : Text) :
    Except Refusal (Option (Bounds × Text)) := do
  match ← readAmount? unicode text with
  | some (least, most, '?' :: rest) => return some (⟨least, most, false⟩, rest)
  | some (least, most, rest) => return some (⟨least, most, true⟩, rest)
  | none => return none

/-! Whole sources. -/

/-- The modifiers of a group, from the text after its question mark or after some of
them; those behind a dash are turned off. -/
def readModifiers? : Modifiers → Bool → Text → Option (Modifiers × Text)
  | modifiers, _, ':' :: rest => if modifiers.isEmpty then none else some (modifiers, rest)
  | modifiers, true, '-' :: rest => readModifiers? modifiers false rest
  | modifiers, value, c :: rest =>
      match modifiers.add? c value with
      | some more => readModifiers? more value rest
      | none => none
  | _, _, [] => none

inductive GroupKind where
  | capture (index : Nat)
  | plain
  | modified (modifiers : Modifiers)
  | look (behind negated : Bool)
  deriving DecidableEq

/-- An open group: what it becomes, and the sequence and the alternatives around
it, which go on when it is closed. -/
structure Level where
  kind : GroupKind
  firstGroup : Nat
  terms : List Expression
  alternatives : List Expression
  deriving DecidableEq

structure Progress where
  rest : Text
  opened : Nat := 0
  levels : List Level := []
  /-- The terms of the current sequence, last one first. -/
  terms : List Expression := []
  alternatives : List Expression := []
  deriving DecidableEq

def sequence (terms : List Expression) : Expression :=
  match terms.reverse with
  | [] => .empty
  | first :: rest => rest.foldl .sequence first

def alternation (last : Expression) (earlier : List Expression) : Expression :=
  earlier.foldl (fun later first => .alternative first later) last

namespace Progress

def body (p : Progress) : Expression := alternation (sequence p.terms) p.alternatives

def withTerm (p : Progress) (unicode : Bool) (term : Expression) (firstGroup : Nat)
    (repeatable : Bool) (rest : Text) : Except Refusal Progress := do
  match ← readBounds? unicode rest with
  | none => return { p with rest, terms := term :: p.terms }
  | some (bounds, rest) =>
      if !repeatable then .error .quantifierNotAllowed
      else if bounds.most.any (· < bounds.least) then .error .invalidQuantifier
      else
        return { p with
          rest
          terms := .repetition bounds (firstGroup + 1) (p.opened + 1) term :: p.terms }

def openLevel (p : Progress) (kind : GroupKind) (rest : Text) : Progress :=
  let level := { kind, firstGroup := p.opened, terms := p.terms, alternatives := p.alternatives }
  let opened :=
    match kind with
    | .capture _ => p.opened + 1
    | _ => p.opened
  { rest, opened, levels := level :: p.levels }

def openGroup (p : Progress) (text : Text) : Except Refusal Progress :=
  match text with
  | '?' :: ':' :: rest => .ok (p.openLevel .plain rest)
  | '?' :: '=' :: rest => .ok (p.openLevel (.look false false) rest)
  | '?' :: '!' :: rest => .ok (p.openLevel (.look false true) rest)
  | '?' :: '<' :: '=' :: rest => .ok (p.openLevel (.look true false) rest)
  | '?' :: '<' :: '!' :: rest => .ok (p.openLevel (.look true true) rest)
  | '?' :: '<' :: rest =>
      match readGroupName? rest with
      | some (_, rest) => .ok (p.openLevel (.capture (p.opened + 1)) rest)
      | none => .error .invalidGroupIdentifier
  | '?' :: rest =>
      match readModifiers? {} true rest with
      | some (modifiers, rest) => .ok (p.openLevel (.modified modifiers) rest)
      | none => .error .invalidGroupModifier
  | _ => .ok (p.openLevel (.capture (p.opened + 1)) text)

def closeGroup (p : Progress) (unicode : Bool) (rest : Text) : Except Refusal Progress :=
  match p.levels with
  | [] => .error .unbalancedParenthesis
  | level :: levels =>
      let outer :=
        { p with levels, terms := level.terms, alternatives := level.alternatives }
      match level.kind with
      | .capture index => outer.withTerm unicode (.group index p.body) level.firstGroup true rest
      | .plain => outer.withTerm unicode p.body level.firstGroup true rest
      | .modified modifiers =>
          outer.withTerm unicode (.modified modifiers p.body) level.firstGroup true rest
      | .look behind negated =>
          outer.withTerm unicode (.look behind negated p.body) level.firstGroup
            (!behind && !unicode) rest

def readNameReference (groups : List (Option Text)) (text : Text) :
    Except Refusal (Nat × Text) :=
  match text with
  | '<' :: rest =>
      match readGroupName? rest with
      | some (name, rest) =>
          match groups.findIdx? (· == some name) with
          | some index => .ok (index + 1, rest)
          | none => .error (.unknownName name)
      | none => .error .unfinishedNameReference
  | _ => .error .unfinishedNameReference

def escape (p : Progress) (unicode : Bool) (groups : List (Option Text)) :
    Text → Except Refusal Progress
  | [] => .error .incompleteEscape
  | c :: rest =>
      let term (expression : Expression) (rest : Text) : Except Refusal Progress :=
        p.withTerm unicode expression p.opened true rest
      match classNamed? c with
      | some (name, negated) => term (.characters [.named name negated] false) rest
      | none =>
          if c == 'b' then term (.wordBoundary false) rest
          else if c == 'B' then term (.wordBoundary true) rest
          else if c == 'c' && !unicode && !rest.head?.any isLetter then
            -- The backslash stands for itself and the letter comes next.
            .ok { p with rest := c :: rest, terms := .literal '\\'.toNat :: p.terms }
          else if c == 'k' && (unicode || groups.any Option.isSome) then do
            let (index, rest) ← readNameReference groups rest
            term (.reference index) rest
          else if '1' ≤ c && c ≤ '9' &&
              (unicode || Decimal.value ((c :: rest).takeWhile isDigit) ≤ groups.length) then
            let number := Decimal.value ((c :: rest).takeWhile isDigit)
            if number ≤ groups.length then term (.reference number) (rest.dropWhile isDigit)
            else .error .invalidEscape
          else do
            let (code, rest) ← readCharacterEscape unicode c rest
            term (.literal code) rest

def step (p : Progress) (unicode : Bool) (groups : List (Option Text)) :
    Except Refusal Progress :=
  match p.rest with
  | [] => .ok p
  | c :: rest =>
      let term (expression : Expression) (repeatable : Bool) (rest : Text) :
          Except Refusal Progress :=
        p.withTerm unicode expression p.opened repeatable rest
      match c with
      | '|' => .ok { p with rest, terms := [], alternatives := sequence p.terms :: p.alternatives }
      | ')' => p.closeGroup unicode rest
      | '(' => p.openGroup rest
      | '^' => term .lineStart false rest
      | '$' => term .lineEnd false rest
      | '.' => term .any true rest
      | '\\' => p.escape unicode groups rest
      | '[' => do
          let (expression, rest) ← readClass unicode rest
          term expression true rest
      | '*' => .error .invalidAtom
      | '+' => .error .invalidAtom
      | '?' => .error .invalidAtom
      | _ =>
          if c == '{' && !unicode && (readCount? rest).isSome then .error .bracedQuantifier
          else if unicode && (c == ']' || c == '{' || c == '}') then .error .invalidAtom
          else term (.literal c.toNat) true rest

def run (unicode : Bool) (groups : List (Option Text)) :
    Nat → Progress → Except Refusal Progress
  | 0, p => .ok p
  | bound + 1, p =>
      if p.rest.isEmpty then .ok p
      else
        match p.step unicode groups with
        | .ok next => run unicode groups bound next
        | .error fault => .error fault

end Progress

/-- The expression a source writes, and the number of its groups.  No two groups may
have one name. -/
def Expression.parse (unicode : Bool) (source : Text) : Except Refusal (Expression × Nat) := do
  let groups := declaredGroups false source
  if (groups.filterMap id).Nodup then
    let p ← Progress.run unicode groups source.length { rest := source }
    if p.levels.isEmpty then return (p.body, p.opened) else .error .unbalancedParenthesis
  else .error .duplicateName

end PatternDialect.Native
