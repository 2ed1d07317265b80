import PatternDialect.Proofs.Repeating

/-! Possessive repetition, as the captures and references of a source see it.

Main statement: repeating the last part of a source possessively puts one suppressed
slot and one capture at the same place among the others; every other capture keeps its
slot, and every reference names the capture that it named before. -/

namespace PatternDialect

open Character Source Backreference

namespace Source

/-- A boundary between two tokens outside of classes: it divides no escape, no number of
a reference and no opener. -/
structure Boundary (front back : Text) : Prop where
  outside : Place.outside.after front = .outside
  number : (Reader.start.after front).digits ≠ [] → back.head?.all (!isDigit ·) = true
  opener : ∀ before after, front = before ++ '(' :: after → Place.outside.after before = .outside →
    (Opener.read (after ++ back)).length ≤ after.length + 1

theorem length_read_open (after rest : Text) :
    (Opener.read (after ++ '(' :: rest)).length ≤ after.length + 1 := by
  match after with
  | [] => exact Nat.le_refl 1
  | [a] =>
      by_cases mark : a = '?'
      · subst mark
        exact Nat.le_refl 2
      · simp [Opener.read, mark, Opener.length]
  | [a, b] =>
      by_cases mark : a = '?'
      · subst mark
        change (Opener.read ('?' :: b :: '(' :: rest)).length ≤ 3
        unfold Opener.read
        split <;> simp_all [Opener.length]
      · simp [Opener.read, mark, Opener.length]
  | a :: b :: c :: more =>
      have short : ∀ form : Opener, form.length ≤ 4 := by
        intro form
        cases form <;> simp [Opener.length]
      exact Nat.le_trans (short _) (by simp)

theorem length_read_angle (rest : Text) : 3 ≤ (Opener.read ('?' :: '<' :: rest)).length := by
  match rest with
  | [] => exact Nat.le_refl 3
  | e :: more =>
      by_cases equals : e = '='
      · simp [Opener.read, Opener.length, equals]
      · by_cases bang : e = '!' <;> simp [Opener.read, Opener.length, equals, bang]

theorem Boundary.of_open {front back : Text} (outside : Place.outside.after front = .outside)
    (opens : back.head? = some '(') : Boundary front back := by
  obtain ⟨rest, rfl⟩ := List.head?_eq_some_iff.mp opens
  exact ⟨outside, fun _ => rfl, fun _ after _ _ => length_read_open after rest⟩

theorem Boundary.steady {front back : Text} (boundary : Boundary front back)
    (head : back.head? ≠ some '?') : Steady .outside front back := by
  intro before after parts outside
  have complete := boundary.opener before after parts outside
  by_cases empty : after = []
  · subst empty
    exact opensCapture_of_head head
  by_cases mark : after = ['?']
  · subst mark
    cases back with
    | nil => rfl
    | cons d rest =>
        have other : d ≠ '<' := by
          rintro rfl
          exact absurd (Nat.le_trans (length_read_angle rest) complete) (by decide)
        simp [opensCapture, other]
  by_cases angle : after = ['?', '<']
  · subst angle
    cases back with
    | nil => rfl
    | cons e rest =>
        have equals : e ≠ '=' := by
          rintro rfl
          simp [Opener.read, Opener.length] at complete
        have bang : e ≠ '!' := by
          rintro rfl
          simp [Opener.read, Opener.length] at complete
        simp [opensCapture, equals, bang]
  exact opensCapture_append empty mark angle back

theorem Boundary.captures_eq {front back : Text} (boundary : Boundary front back)
    (head : back.head? ≠ some '?') :
    captures (front ++ back) = captures front ++ (captures back).map (front ++ ·) := by
  rw [captures_append (boundary.steady head), boundary.outside]
  rfl

theorem references_join {front back : Text} (outside : Place.outside.after front = .outside)
    (number : (Reader.start.after front).digits ≠ [] → back.head?.all (!isDigit ·) = true) :
    references (front ++ back) = references front ++ references back := by
  by_cases empty : back = []
  · subst empty
    rw [List.append_nil]
    exact (List.append_nil _).symm
  · refine references_append ?_ empty
    simp only [Reader.Fits, Reader.place_start, outside]
    exact number

theorem flatMap_moveUp {first : Nat} {numbers : List Nat} (below : ∀ n ∈ numbers, n < first) :
    numbers.flatMap (moveUp first) = numbers := by
  induction numbers with
  | nil => rfl
  | cons n rest ih =>
      have kept : moveUp first n = [n] := by
        simp [moveUp, Nat.not_le.mpr (below n (by simp))]
      rw [List.flatMap_cons, kept, ih fun m member => below m (by simp [member])]
      rfl

/-- The capture that a reference names, by its number. -/
def named (source : Text) (number : Nat) : Option Text :=
  if number = 0 then none else (captures source)[number - 1]?

/-- Where a capture comes to stand when the part behind the front is repeated
possessively, with `first` as the index of the new group. -/
def carried (front : Text) (first : Nat) (before : Text) : Text :=
  if front.isPrefixOf before then
    front ++ (Atom.atomicOpen ++ renumber first 1 (before.drop front.length))
  else before

theorem carried_front {front before : Text} (member : before ∈ captures front) (first : Nat) :
    carried front first before = before := by
  obtain ⟨after, parts, _⟩ := parts_of_capture member
  have longer : ¬ front.isPrefixOf before = true := by
    intro inside
    have length := (List.isPrefixOf_iff_prefix.mp inside).length_le
    rw [parts, List.length_append, List.length_cons] at length
    omega
  rw [carried, if_neg longer]

theorem carried_append (front : Text) (first : Nat) (inner : Text) :
    carried front first (front ++ inner) =
      front ++ (Atom.atomicOpen ++ renumber first 1 inner) := by
  have inside : front.isPrefixOf (front ++ inner) = true :=
    List.isPrefixOf_iff_prefix.mpr (List.prefix_append front inner)
  rw [carried, if_pos inside, List.drop_left]

theorem zip_insertIdx {α β : Type} {first : List α} {second : List β}
    (same : first.length = second.length) (position : Nat) (a : α) (b : β) :
    (first.insertIdx position a).zip (second.insertIdx position b) =
      (first.zip second).insertIdx position (a, b) := by
  induction first generalizing second position with
  | nil =>
      cases second with
      | nil => cases position <;> rfl
      | cons d rest => contradiction
  | cons c more ih =>
      cases second with
      | nil => contradiction
      | cons d rest =>
          cases position with
          | zero => rfl
          | succ position => simpa using ih (by simpa using same) position

end Source

/-- The last part of a source, from a boundary on: every capture has its slot, `first` is the
index that the first capture of the part has or would have, and what stands before the
part refers to nothing in it. -/
structure LastPart (groups : GroupTable) (front back : Text) (first : Nat) : Prop where
  boundary : Boundary front back
  outside : Place.outside.after (front ++ back) = .outside
  head : back.head? ≠ some '?'
  size : groups.size = (captures (front ++ back)).length + 1
  index : first = (captures front).length + 1
  below : ∀ n ∈ references front, n < first

namespace LastPart

variable {groups : GroupTable} {front back : Text} {first : Nat}

theorem ends (part : LastPart groups front back first) : Place.outside.after back = .outside := by
  have outside := part.outside
  rwa [Place.after_append, part.boundary.outside] at outside

theorem exchange (part : LastPart groups front back first) {other : GroupTable} {new : Text}
    (opens : new.head? = some '(') (outside : Place.outside.after new = .outside)
    (size : other.size = (captures front).length + (captures new).length + 1) :
    LastPart other front new first where
  boundary := .of_open part.boundary.outside opens
  outside := by rw [Place.after_append, part.boundary.outside, outside]
  head := by simp [opens]
  size := by
    rw [(Boundary.of_open part.boundary.outside opens).captures_eq (by simp [opens]), size]
    simp
  index := part.index
  below := part.below

theorem size_eq (part : LastPart groups front back first) :
    groups.size = (captures front).length + (captures back).length + 1 := by
  rw [part.size, part.boundary.captures_eq part.head]
  simp

theorem wrap (part : LastPart groups front back first) :
    LastPart groups front (['(', '?', ':'] ++ (back ++ [')'])) first := by
  refine part.exchange rfl ?_ ?_
  · change (Place.outside.after (back ++ [')'])) = .outside
    rw [Place.after_append, part.ends]
    rfl
  · rw [captures_wrap back part.ends, List.length_map]
    exact part.size_eq

end LastPart

/-! ### The part repeated possessively -/

theorem Repeat.Legible.steady {amount : Repeat} (legible : amount.Legible) {back : Text}
    (closed : amount = .optional → Shut back) :
    Steady .outside back (amount.text ++ [')', ')']) := by
  by_cases optional : amount = .optional
  · subst optional
    intro before after parts outside
    have filled : after ≠ [] := by
      rintro rfl
      exact closed rfl before parts outside
    by_cases mark : after = ['?']
    · subst mark
      rfl
    by_cases angle : after = ['?', '<']
    · subst angle
      rfl
    exact opensCapture_append filled mark angle _
  · obtain ⟨c, rest, written, _⟩ := legible.head
    have amounts := legible.all c (by simp [written])
    have mark : c ≠ '?' := by
      rintro rfl
      exact optional (legible.mark (by simp [written]))
    have inert : isInert c = true := by
      simp only [isInert, Bool.and_eq_true, bne_iff_ne]
      refine ⟨⟨⟨mark, ?_⟩, ?_⟩, ?_⟩ <;> rintro rfl <;> exact absurd amounts (by decide)
    rw [written]
    exact admits_of_inert inert back _

def possessed (first : Nat) (back : Text) (amount : Repeat) : Text :=
  Atom.atomicOpen ++ (renumber first 1 back ++ (amount.text ++ Atom.atomicClose first))

/-- Whether the amount stays apart from what is repeated: a question mark behind an opening
parenthesis would change what the parenthesis opens. -/
def Separable (back : Text) (amount : Repeat) : Prop := amount = .optional → back ≠ [] ∧ Shut back

namespace LastPart

variable {groups : GroupTable} {front back : Text} {first : Nat} {amount : Repeat}

theorem captures_possessed (part : LastPart groups front back first) (legible : amount.Legible)
    (closed : Separable back amount) :
    Place.outside.after (possessed first back amount) = .outside ∧
      captures (possessed first back amount) =
        lookahead :: (captures back).map fun before => Atom.atomicOpen ++
          renumber first 1 before := by
  obtain ⟨c, rest, written, other⟩ := legible.head
  have head : (back ++ amount.text).head? ≠ some '?' := by
    cases back with
    | nil =>
        intro mark
        exact (closed (legible.mark mark)).1 rfl
    | cons d more => exact part.head
  have apart : amount.text.head?.all (!isDigit ·) = true := by simp [written, other]
  exact captures_possess first head part.ends (Conversion.flat_of_legible legible) apart
    (legible.steady fun optional => (closed optional).2)

theorem shut_possessed (first : Nat) (back : Text) (amount : Repeat) :
    Shut (possessed first back amount) := by
  obtain ⟨text, d, ends, digit⟩ := Conversion.ends_in_digit
    (Atom.atomicOpen ++ (renumber first 1 back ++ (amount.text ++ [')', ')']))) first
  have shape : possessed first back amount = text ++ [d] := by
    rw [← ends]
    simp [possessed, Atom.atomicClose]
  rw [shape]
  apply shut_of_last
  rintro rfl
  exact absurd digit (by decide)

theorem possess (part : LastPart groups front back first) (legible : amount.Legible)
    (closed : Separable back amount) :
    LastPart (groups.insertSuppressed first) front (possessed first back amount) first := by
  obtain ⟨outside, new⟩ := part.captures_possessed legible closed
  refine part.exchange rfl outside ?_
  rw [GroupTable.size_insertSuppressed, part.size_eq, new]
  simp only [List.length_cons, List.length_map]
  omega

theorem captures_carried (part : LastPart groups front back first) (legible : amount.Legible)
    (closed : Separable back amount) :
    captures (front ++ possessed first back amount) =
      ((captures (front ++ back)).map (carried front first)).insertIdx (first - 1)
        (front ++ lookahead) := by
  have kept : (captures front).map (carried front first) = captures front := by
    calc (captures front).map (carried front first) = (captures front).map id :=
          List.map_congr_left fun before member => carried_front member first
      _ = captures front := List.map_id _
  have moved : ((captures back).map (front ++ ·)).map (carried front first) =
      (captures back).map fun inner => front ++ (Atom.atomicOpen ++ renumber first 1 inner) := by
    rw [List.map_map]
    exact List.map_congr_left fun inner _ => carried_append front first inner
  have position : first - 1 = (captures front).length := by rw [part.index, Nat.add_sub_cancel]
  have repeated := part.possess legible closed
  rw [repeated.boundary.captures_eq repeated.head, (part.captures_possessed legible closed).2,
    part.boundary.captures_eq part.head, List.map_append, kept, moved, position,
    GroupTable.insertIdx_eq (by simp), List.take_left, List.drop_left, List.map_cons, List.map_map]
  rfl

theorem references_possessed (part : LastPart groups front back first) (legible : amount.Legible) :
    references (front ++ possessed first back amount) =
      (references (front ++ back)).flatMap (moveUp first) ++ [first] := by
  obtain ⟨c, rest, written, other⟩ := legible.head
  have positive : 0 < first := by rw [part.index]; omega
  obtain ⟨moved, _⟩ := reads_renumberFrom first Reader.Proper.start back
  obtain ⟨place, _⟩ := captures_renumber first 1 back
  -- the amount and the parentheses complete the last reference of the part
  obtain ⟨closing, closes⟩ : ∃ closing, closing = amount.text ++ [')', ')'] := ⟨_, rfl⟩
  have flat : Place.isFlat closing = true := by
    have amounts := Conversion.flat_of_legible legible
    rw [closes]
    simp only [Place.isFlat, List.all_append, Bool.and_eq_true] at amounts ⊢
    exact ⟨amounts, by decide⟩
  obtain ⟨after, passed, _⟩ := Place.reads_of_flat flat []
  have outside : Place.outside.after closing = .outside := by
    rw [← Reader.place_start]
    exact congrArg Reader.place after
  have silent : references closing = [] := by
    change Reader.passed ⟨.outside, []⟩ closing ++ (Reader.after ⟨.outside, []⟩ closing).held = []
    rw [passed, after]
    rfl
  have last : references (render first) = [first] := by
    obtain ⟨after, passed⟩ := Reader.after_reference (r := Reader.start) rfl positive
    rw [references, Reader.read, after, passed, Reader.held_number _ (Decimal.write_ne_nil first),
      Decimal.value_write]
    rfl
  have shape : possessed first back amount =
      Atom.atomicOpen ++ (renumber first 1 back ++ (closing ++ render first)) := by
    simp [possessed, closes, Atom.atomicClose]
  have opened : references (possessed first back amount) =
      (references back).flatMap (moveUp first) ++ [first] := by
    rw [shape, references_join rfl (fun held => absurd rfl held),
      references_join (place.trans part.ends) (fun _ => by simp [closes, written, other]),
      references_join outside (fun _ => rfl), silent, last]
    exact congrArg (· ++ [first]) moved
  rw [references_join part.boundary.outside (fun _ => rfl), opened,
    references_join part.boundary.outside part.boundary.number, List.flatMap_append,
    flatMap_moveUp part.below, List.append_assoc]

/-- A number that is moved names the capture that it named before, or still none.  The largest
number, which names none, is no number of a reference any more. -/
theorem named_moveUp (part : LastPart groups front back first) (legible : amount.Legible)
    (closed : Separable back amount) (bound : groups.size < Decimal.limit) (number : Nat) :
    (moveUp first number).map (named (front ++ possessed first back amount)) =
      if number + 1 = Decimal.limit then []
      else [(named (front ++ back) number).map (carried front first)] := by
  have count := part.size
  have index_ := part.index
  have total := part.size_eq
  obtain ⟨places, written⟩ :
      ∃ places, places = (captures (front ++ back)).map (carried front first) :=
    ⟨_, rfl⟩
  have length : places.length + 1 = groups.size := by rw [written, List.length_map, count]
  have new : ∀ index, named (front ++ possessed first back amount) (index + 1) =
      (places.insertIdx (first - 1) (front ++ lookahead))[index]? := by
    intro index
    rw [named, if_neg (by omega), part.captures_carried legible closed, written, Nat.add_sub_cancel]
  have old : ∀ index, (named (front ++ back) (index + 1)).map (carried front first) =
      places[index]? := by
    intro index
    rw [named, if_neg (by omega), written, List.getElem?_map, Nat.add_sub_cancel]
  cases number with
  | zero => simp [moveUp, Nat.not_le.mpr (by omega : 0 < first), named, Decimal.limit]
  | succ index =>
      rw [old]
      by_cases last : index + 1 + 1 = Decimal.limit
      · rw [moveUp, if_pos (by omega), if_pos last, if_pos last]
        rfl
      by_cases moves : first ≤ index + 1 ∧ index + 1 < Decimal.limit
      · rw [moveUp, if_pos moves, if_neg last, if_neg last, List.map_singleton, new,
          List.getElem?_insertIdx_of_gt (by omega), Nat.add_sub_cancel]
      · have same :
            (places.insertIdx (first - 1) (front ++ lookahead))[index]? = places[index]? := by
          by_cases low : index < first - 1
          · exact List.getElem?_insertIdx_of_lt low
          · have longer : (places.insertIdx (first - 1) (front ++ lookahead)).length ≤
                places.length + 1 := List.length_insertIdx_le_succ
            rw [List.getElem?_eq_none_iff.mpr (by omega), List.getElem?_eq_none_iff.mpr (by omega)]
        rw [moveUp, if_neg moves, if_neg last, List.map_singleton, new, same]

theorem named_possessed (part : LastPart groups front back first) (legible : amount.Legible)
    (closed : Separable back amount) (bound : groups.size < Decimal.limit) :
    (references (front ++ possessed first back amount)).map
        (named (front ++ possessed first back amount)) =
      ((references (front ++ back)).filter (· + 1 ≠ Decimal.limit)).map
          (fun number => (named (front ++ back) number).map (carried front first)) ++
        [some (front ++ lookahead)] := by
  have general : ∀ numbers : List Nat,
      (numbers.flatMap (moveUp first)).map (named (front ++ possessed first back amount)) =
        (numbers.filter (· + 1 ≠ Decimal.limit)).map
          fun number => (named (front ++ back) number).map (carried front first) := by
    intro numbers
    induction numbers with
    | nil => rfl
    | cons n rest ih =>
        rw [List.flatMap_cons, List.map_append, ih, part.named_moveUp legible closed bound,
          List.filter_cons]
        by_cases last : n + 1 = Decimal.limit <;> simp [last]
  have last : named (front ++ possessed first back amount) first = some (front ++ lookahead) := by
    have index := part.index
    have count := part.size_eq
    rw [named, if_neg (by omega), part.captures_carried legible closed,
      List.getElem?_insertIdx_self, if_pos]
    rw [List.length_map, part.boundary.captures_eq part.head]
    simp
    omega
  rw [part.references_possessed legible, List.map_append, general, List.map_singleton, last]

end LastPart

/-- Repeating the last part of a source possessively inserts one capture, opened right behind
the lookahead where the part began, with one suppressed slot.  Every other capture keeps its
slot; every reference names the capture that it named before; and what comes out is again
the last part of the source, alone and in a plain group. -/
theorem makePossessive_carries {groups : GroupTable} {front back : Text} {atom : Atom}
    {amount : Repeat} (part : LastPart groups front back atom.firstGroup)
    (start : atom.start = front.size) (legible : amount.Legible) (closed : Separable back amount)
    (bound : groups.size < Decimal.limit) :
    ∃ new wrapped, Atom.makePossessive (front ++ back) groups atom amount.text =
        { source := front ++ new
          groups := groups.insertSuppressed atom.firstGroup
          atom := ⟨front.size, (front ++ new).size, atom.firstGroup, true⟩ } ∧
      Atom.wrap (front ++ new) ⟨front.size, (front ++ new).size, atom.firstGroup, true⟩ =
          (front ++ wrapped, ⟨front.size, (front ++ wrapped).size, atom.firstGroup, false⟩) ∧
        (∀ result ∈ [new, wrapped],
          LastPart (groups.insertSuppressed atom.firstGroup) front result atom.firstGroup ∧
            ∀ amount, Separable result amount) ∧
          (captures (front ++ new)).zip (groups.insertSuppressed atom.firstGroup).declared =
            (((captures (front ++ back)).zip groups.declared).map
                (Prod.map (carried front atom.firstGroup) id)).insertIdx (atom.firstGroup - 1)
              (front ++ lookahead, .suppressed) ∧
            (references (front ++ new)).map (named (front ++ new)) =
              ((references (front ++ back)).filter (· + 1 ≠ Decimal.limit)).map
                  (fun number =>
                    (named (front ++ back) number).map (carried front atom.firstGroup)) ++
                [some (front ++ lookahead)] := by
  have index := part.index
  have count := part.size_eq
  have slot : groups.clamp atom.firstGroup = atom.firstGroup := by
    unfold GroupTable.clamp
    omega
  have repeated := part.possess legible closed
  refine ⟨possessed atom.firstGroup back amount,
    ['(', '?', ':'] ++ (possessed atom.firstGroup back amount ++ [')']), ?_, ?_, ?_, ?_, ?_⟩
  · simp [Atom.makePossessive, slot, start, possessed, Text.takeBytes_size_append,
      Text.dropBytes_size_append]
  · simp [Atom.wrap, Text.takeBytes_size_append, Text.dropBytes_size_append]
  · intro result member
    rcases List.mem_pair.mp member with rfl | rfl
    · exact ⟨repeated, fun _ _ => ⟨by simp [possessed, Atom.atomicOpen],
        LastPart.shut_possessed _ _ _⟩⟩
    · refine ⟨repeated.wrap, fun _ _ => ⟨by simp, ?_⟩⟩
      rw [← List.append_assoc]
      exact shut_of_last (by decide)
  · have same : ((captures (front ++ back)).map (carried front atom.firstGroup)).length =
        groups.declared.length := by
      have size := part.size
      rw [GroupTable.size] at size
      rw [List.length_map]
      omega
    rw [part.captures_carried legible closed, GroupTable.insertSuppressed, slot, zip_insertIdx same,
      List.zip_map_left]
  · exact part.named_possessed legible closed bound

theorem makePossessive_carries_reference :
    ∃ new : Text, Atom.makePossessive ("(a)".toList ++ "(b\\2)".toList) ⟨[.anonymous, .named ['n']]⟩
          ⟨3, 8, 2, false⟩ ['+'] =
        { source := "(a)".toList ++ new
          groups := ⟨[.anonymous, .suppressed, .named ['n']]⟩
          atom := ⟨3, Text.size ("(a)".toList ++ new), 2, true⟩ } ∧
      (captures ("(a)".toList ++ new)).zip [.anonymous, .suppressed, .named ['n']] =
          [([], Slot.anonymous), ("(a)(?=".toList, .suppressed), ("(a)(?=(".toList, .named ['n'])] ∧
        (references ("(a)".toList ++ new)).map (named ("(a)".toList ++ new)) =
          [some "(a)(?=(".toList, some "(a)(?=".toList] := by
  have part : LastPart ⟨[.anonymous, .named ['n']]⟩ "(a)".toList "(b\\2)".toList
      (⟨3, 8, 2, false⟩ : Atom).firstGroup :=
    ⟨.of_open rfl rfl, rfl, by decide, rfl, rfl, by decide⟩
  have legible : Repeat.plus.Legible :=
    ⟨⟨'+', [], rfl, rfl⟩, fun mark => absurd mark (by decide),
      by simp [Repeat.text, Repeat.isAmount]⟩
  obtain ⟨new, _, made, _, _, slots, names⟩ := makePossessive_carries part rfl legible
    (fun optional => absurd optional (by decide)) (by decide)
  exact ⟨new, made, slots, names⟩

theorem makePossessive_optional_open :
    LastPart ⟨[.anonymous]⟩ [] ['('] 1 ∧ Repeat.optional.Legible ∧
      (Atom.makePossessive ['('] ⟨[.anonymous]⟩ ⟨0, 1, 1, false⟩ ['?']).groups.size ≠
        (captures (Atom.makePossessive ['('] ⟨[.anonymous]⟩ ⟨0, 1, 1,
          false⟩ ['?']).source).length + 1 :=
  ⟨⟨.of_open rfl rfl, rfl, by decide, rfl, rfl, by decide⟩,
    ⟨⟨'?', [], rfl, rfl⟩, fun _ => rfl, by simp [Repeat.text, Repeat.isAmount]⟩, by decide⟩

end PatternDialect
