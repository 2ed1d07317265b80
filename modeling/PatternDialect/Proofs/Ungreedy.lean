import PatternDialect.Proofs.Direct

/-! Native text under the ungreedy option.

A native text is a sequence of pieces, and its groups need not be balanced.  Read without
options it stays as it is.  The option takes the lazy mark from each quantifier that has one
and gives it to the others, and neither a mark that is taken nor one that is given joins two
pieces to something else: reading the text twice gives it back. -/

namespace PatternDialect

open Character Source

namespace Syntax

inductive Piece where
  | char (c : Char) (bare : isBare c = true)
  | dot
  | bracket (body : Text) (inner : isClassBody body = true)
  | escape (c : Char) (kept : (isDigit c || isBlank c || c == '#') = false)
  | opener (form : Form) (native : form.isNative = true)
  | close
  | quantifier (amount : Repeat) (lazy : Bool)
      (count : ∀ braces, amount = .counted braces → Repeat.IsCount braces)

namespace Piece

def text : Piece → Text
  | char c _ => [c]
  | dot => ['.']
  | bracket body _ => '[' :: body ++ [']']
  | escape c _ => ['\\', c]
  | opener form _ => form.text
  | close => [')']
  | quantifier amount lazy _ => amount.text ++ if lazy then ['?'] else []

def slots : Piece → List Slot
  | opener .capture _ => [.anonymous]
  | _ => []

def flip : Piece → Piece
  | quantifier amount lazy count => quantifier amount (!lazy) count
  | piece => piece

/-- The piece as it is written with or without the option. -/
def under (ungreedy : Bool) : Piece → Piece
  | quantifier amount lazy count => quantifier amount (lazy != ungreedy) count
  | piece => piece

def isQuantifier : Piece → Bool
  | quantifier _ _ _ => true
  | _ => false

def isUnrepeatable : Piece → Bool
  | char c _ => c == '|'
  | opener _ _ | quantifier _ _ _ => true
  | _ => false

/-- The piece is not the start of something else before the given text. -/
def Ends (more : Text) : Piece → Prop
  | char c _ =>
      (c = '$' → more.head?.any (fun d => isDigit d || d == '<') = false) ∧
        (c = '{' → ∀ braces, Repeat.IsCount braces → ¬ braces <+: '{' :: more)
  | escape c _ => c = 'k' → more.head? ≠ some '<'
  | _ => True

end Piece

def spell (pieces : List Piece) : Text := pieces.flatMap Piece.text

/-- No piece makes something else together with what follows it, and quantifiers stand
behind something that can be repeated. -/
def Plain : List Piece → Prop
  | [] => True
  | piece :: more =>
      (piece.isUnrepeatable = true → more.head?.any Piece.isQuantifier = false) ∧
        piece.Ends (spell more) ∧ Plain more

/-! ### Counts -/

theorem no_count_iff (more : Text) :
    (∀ braces, Repeat.IsCount braces → ¬ braces <+: '{' :: more) ↔
      (Repeat.braces? more).isNone = true := by
  constructor
  · intro absent
    cases found : Repeat.braces? more with
    | none => rfl
    | some braces =>
        obtain ⟨count, front⟩ := (Repeat.finds_braces _ _).mp found
        obtain ⟨inner, rfl, _⟩ := Repeat.inner_of_isCount count
        exact absurd (List.prefix_cons_inj '{' |>.mpr front) (absent _ count)
  · intro absent braces count front
    obtain ⟨inner, rfl, _⟩ := Repeat.inner_of_isCount count
    have found : Repeat.braces? more = some ('{' :: inner) :=
      (Repeat.finds_braces _ _).mpr ⟨count, (List.prefix_cons_inj '{').mp front⟩
    rw [found] at absent
    contradiction

instance (more : Text) (piece : Piece) : Decidable (piece.Ends more) :=
  match piece with
  | .char _ _ =>
      have := decidable_of_iff _ (no_count_iff more).symm
      inferInstanceAs (Decidable (_ ∧ _))
  | .escape _ _ => inferInstanceAs (Decidable (_ → _))
  | .dot | .bracket _ _ | .opener _ _ | .close | .quantifier _ _ _ => isTrue trivial

instance : (pieces : List Piece) → Decidable (Plain pieces)
  | [] => isTrue trivial
  | _ :: more =>
      have := instDecidablePlain more
      inferInstanceAs (Decidable (_ ∧ _ ∧ _))

/-! ### Flipped pieces -/

namespace Piece

@[simp] theorem flip_flip (piece : Piece) : piece.flip.flip = piece := by
  cases piece with
  | quantifier amount lazy count => simp [flip]
  | char | dot | bracket | escape | opener | close => rfl

theorem under_true : under true = flip := by
  funext piece
  cases piece <;> simp [under, flip]

theorem under_false : under false = id := by
  funext piece
  cases piece <;> simp [under]

theorem flip_of_not_quantifier {piece : Piece} (other : piece.isQuantifier = false) :
    piece.flip = piece := by
  cases piece with
  | quantifier => contradiction
  | char | dot | bracket | escape | opener | close => rfl

@[simp] theorem isQuantifier_flip (piece : Piece) :
    piece.flip.isQuantifier = piece.isQuantifier := by
  cases piece <;> rfl

@[simp] theorem isUnrepeatable_flip (piece : Piece) :
    piece.flip.isUnrepeatable = piece.isUnrepeatable := by
  cases piece <;> rfl

@[simp] theorem slots_flip (piece : Piece) : piece.flip.slots = piece.slots := by
  cases piece <;> rfl

theorem head_amount {amount : Repeat}
    (count : ∀ braces, amount = .counted braces → Repeat.IsCount braces) :
    ∃ c left, amount.text = c :: left ∧ c ∈ ['*', '+', '?', '{'] := by
  cases amount with
  | star => exact ⟨'*', _, rfl, by simp⟩
  | plus => exact ⟨'+', _, rfl, by simp⟩
  | optional => exact ⟨'?', _, rfl, by simp⟩
  | counted braces =>
      obtain ⟨inner, rfl, _⟩ := Repeat.inner_of_isCount (count braces rfl)
      exact ⟨'{', _, rfl, by simp⟩

theorem head_of_quantifier {piece : Piece} (repeats : piece.isQuantifier = true) :
    ∃ c left, piece.text = c :: left ∧ c ∈ ['*', '+', '?', '{'] := by
  cases piece with
  | char | dot | bracket | escape | opener | close => contradiction
  | quantifier amount lazy count =>
      obtain ⟨c, left, begins, starts⟩ := head_amount count
      exact ⟨c, _, by rw [text, begins]; rfl, starts⟩

theorem head_flip (piece : Piece) :
    ∃ c left right, piece.text = c :: left ∧ piece.flip.text = c :: right := by
  cases piece with
  | char c => exact ⟨c, _, _, rfl, rfl⟩
  | dot => exact ⟨'.', _, _, rfl, rfl⟩
  | bracket body => exact ⟨'[', _, _, rfl, rfl⟩
  | escape c => exact ⟨'\\', _, _, rfl, rfl⟩
  | opener form => cases form <;> exact ⟨'(', _, _, rfl, rfl⟩
  | close => exact ⟨')', _, _, rfl, rfl⟩
  | quantifier amount lazy count =>
      obtain ⟨c, left, begins, _⟩ := head_amount count
      exact ⟨c, _, _, by rw [text, begins]; rfl, by rw [flip, text, begins]; rfl⟩

end Piece

@[simp] theorem spell_nil : spell [] = [] := rfl

@[simp] theorem spell_cons (piece : Piece) (more : List Piece) :
    spell (piece :: more) = piece.text ++ spell more := rfl

theorem head?_spell_flip (pieces : List Piece) :
    (spell (pieces.map .flip)).head? = (spell pieces).head? := by
  cases pieces with
  | nil => rfl
  | cons piece more =>
      obtain ⟨c, left, right, before, after⟩ := piece.head_flip
      rw [List.map_cons, spell_cons, spell_cons, before, after]
      rfl

/-- What might be the inside of a count reaches into no quantifier, so no mark is in it. -/
theorem prefix_spell_flip {pieces : List Piece} {word : Text}
    (inner : ∀ c ∈ word, isDigit c = true ∨ c = ',' ∨ c = '}')
    (front : word <+: spell (pieces.map .flip)) : word <+: spell pieces := by
  induction pieces generalizing word with
  | nil => exact front
  | cons piece more ih =>
      rw [List.map_cons, spell_cons] at front
      rw [spell_cons]
      cases repeats : piece.isQuantifier with
      | false =>
          rw [Piece.flip_of_not_quantifier repeats] at front
          rcases List.prefix_or_prefix_of_prefix front (List.prefix_append _ _) with short | long
          · exact short.trans (List.prefix_append _ _)
          · obtain ⟨left, rfl⟩ := long
            rw [List.prefix_append_right_inj] at front ⊢
            exact ih (fun c member => inner c (List.mem_append_right _ member)) front
      | true =>
          rw [← Piece.isQuantifier_flip] at repeats
          obtain ⟨c, left, begins, starts⟩ := Piece.head_of_quantifier repeats
          cases word with
          | nil => exact List.nil_prefix
          | cons d word =>
              rw [begins, List.cons_append, List.cons_prefix_cons] at front
              obtain ⟨rfl, _⟩ := front
              have digit := inner d (by simp)
              simp only [List.mem_cons, List.not_mem_nil, or_false] at starts
              rcases starts with rfl | rfl | rfl | rfl <;> exact absurd digit (by decide)

theorem Piece.Ends.flip {piece : Piece} {more : List Piece} (ends : piece.Ends (spell more)) :
    piece.flip.Ends (spell (more.map .flip)) := by
  cases piece with
  | char c bare =>
      refine ⟨fun dollar => ?_, fun brace braces count front => ?_⟩
      · rw [head?_spell_flip]
        exact ends.1 dollar
      · obtain ⟨inner, rfl, digits⟩ := Repeat.inner_of_isCount count
        rw [List.prefix_cons_inj] at front
        have same := prefix_spell_flip digits front
        exact ends.2 brace _ count ((List.prefix_cons_inj '{').mpr same)
  | escape c kept =>
      intro letter
      rw [head?_spell_flip]
      exact ends letter
  | dot | bracket | opener | close | quantifier => trivial

theorem Plain.flip {pieces : List Piece} (plain : Plain pieces) : Plain (pieces.map .flip) := by
  induction pieces with
  | nil => trivial
  | cons piece more ih =>
      obtain ⟨bound, ends, rest⟩ := plain
      refine ⟨fun unrepeatable => ?_, ends.flip, ih rest⟩
      rw [List.head?_map, Option.any_map]
      simpa [Function.comp_def] using bound (by simpa using unrepeatable)

theorem unmarked_spell {pieces : List Piece}
    (other : pieces.head?.any Piece.isQuantifier = false) : Unmarked (spell pieces) := by
  cases pieces with
  | nil => exact Ended.unmarked (Or.inl rfl)
  | cons piece more =>
      have single : piece.isQuantifier = false := other
      cases piece with
      | char c bare =>
          obtain ⟨visible, others⟩ : isBlank c = false ∧ _ := by simpa [isBare] using bare
          exact unmarked_cons visible ⟨others.2.2.2.2.1, others.2.2.2.1⟩ _
      | dot | bracket | escape | close => exact unmarked_cons (by decide) (by decide) _
      | opener form => exact form.unmarked _
      | quantifier => contradiction

end Syntax

/-! ### Reading a piece -/

namespace Conversion

open Syntax

variable {ungreedy : Bool} {s : State}

theorem passes_quantifier {more : Text} (direct : Direct false s) {amount : Repeat} {lazy : Bool}
    {count : ∀ braces, amount = .counted braces → Repeat.IsCount braces}
    (rest : s.rest = (Piece.quantifier amount lazy count).text ++ more) (unmarked : Unmarked more) :
    ∃ next, Passes { ungreedy } s more
    (Piece.quantifier amount (lazy != ungreedy) count).text [] next := by
  obtain ⟨suffix, written⟩ : ∃ suffix : Suffix, suffix.quantifier = ⟨amount, lazy, false⟩ :=
    ⟨⟨amount, if lazy then .lazy else .greedy, count⟩, by cases lazy <;> rfl⟩
  have text : suffix.quantifier.text = (Piece.quantifier amount lazy count).text := by
    simp [written, Quantifier.text, Piece.text]
  have rendered : suffix.quantifier.render ungreedy =
      (Piece.quantifier amount (lazy != ungreedy) count).text := by
    rw [written]
    cases lazy <;> cases ungreedy <;> simp [Quantifier.render, Piece.text]
  rw [← text] at rest
  obtain ⟨next, copied⟩ : ∃ next, Copies { ungreedy } s more _ next :=
    copies_quantifier direct (next?_quantifier suffix rest unmarked) rest (by rw [written])
  exact ⟨next, rendered ▸ copied.toPasses⟩

theorem passes_piece {piece : Piece} {more : List Piece} (direct : Direct false s)
    (rest : s.rest = piece.text ++ spell more) (ends : piece.Ends (spell more))
    (bound : piece.isUnrepeatable = true → more.head?.any Piece.isQuantifier = false) :
    ∃ next, Passes { ungreedy } s (spell more) (piece.under ungreedy).text piece.slots next := by
  cases piece with
  | char c bare =>
      have other : c ≠ '\\' := by
        rintro rfl
        contradiction
      have dollar : c = '$' → Construct.afterDollar? (spell more) = none := by
        intro sign
        cases next : spell more with
        | nil => rfl
        | cons d left =>
            obtain ⟨digit, angle⟩ : isDigit d = false ∧ d ≠ '<' := by simpa [next] using ends.1 sign
            simp [Construct.afterDollar?, digit]
      have brace : c = '{' → Repeat.braces? (spell more) = none := by
        intro opening
        exact Option.isNone_iff_eq_none.mp ((no_count_iff _).mp (ends.2 opening))
      have step : s.step { ungreedy } none = .ok (s.copy 1) :=
        step_itself direct bare rest (by simp) dollar brace
      exact ⟨_, (copies_one direct rest other step).toPasses⟩
  | dot => exact ⟨_, (copies_one direct rest (by decide) (step_native_dot rest)).toPasses⟩
  | bracket body inner =>
      obtain ⟨next, copied⟩ := copies_bracket direct inner rest
      exact ⟨next, copied.toPasses⟩
  | escape c kept => exact ⟨_, (copies_escape direct kept rest ends).toPasses⟩
  | opener form native =>
      have slots : (Piece.opener form native).slots = form.slots false false := by
        cases form <;> first | rfl | contradiction
      rw [slots]
      exact ⟨_, passes_opener direct native rest fun _ => (unmarked_spell (bound rfl)).1⟩
  | close =>
      cases frames : s.frames with
      | nil => exact ⟨_, (copies_stray direct rest frames).toPasses⟩
      | cons frame outer => exact ⟨_, passes_close direct rest frames⟩
  | quantifier amount lazy count => exact passes_quantifier direct rest (unmarked_spell (bound rfl))

theorem passes_pieces {pieces : List Piece} (plain : Plain pieces) (direct : Direct false s)
    (rest : s.rest = spell pieces) :
    ∃ next, Passes { ungreedy } s [] (spell (pieces.map (.under ungreedy)))
      (pieces.flatMap Piece.slots) next := by
  induction pieces generalizing s with
  | nil => exact ⟨s, rfl, rest, by simp, by simp, direct⟩
  | cons piece more ih =>
      obtain ⟨bound, ends, after⟩ := plain
      obtain ⟨middle, first⟩ := passes_piece direct rest ends bound
      obtain ⟨last, second⟩ := ih after first.direct first.rest
      exact ⟨last, first.trans second⟩

theorem convert_spell {pieces : List Piece} (plain : Plain pieces) (ungreedy : Bool) :
    convert { ungreedy } none (spell pieces) =
      .ok ⟨spell (pieces.map (.under ungreedy)), ⟨pieces.flatMap Piece.slots⟩, none⟩ := by
  obtain ⟨last, passes⟩ : ∃ last, Passes { ungreedy } _ _ _ _ last :=
    passes_pieces plain (direct_start (spell pieces)) rfl
  have groups : last.groups = ⟨pieces.flatMap Piece.slots⟩ := congrArg GroupTable.mk passes.groups
  have closed : last.frames.any State.isAtomic = false := by
    rw [List.any_eq_false]
    intro frame member
    simp [passes.direct.frames frame member]
  rw [convert_eq_conclude, passes.outcome, conclude_nil passes.rest, finish_eq_ok_iff]
  refine ⟨State.inClass_of_place passes.direct.pause.place, closed, ?_⟩
  rw [passes.out, groups, passes.direct.flags]
  rfl

/-- Native text is read as it is, and with the ungreedy option as the text with the other
quantifiers, which is read back to the first one: no mark that is added or taken away makes
another piece of what stands beside it, and nothing changes in classes and behind backslashes. -/
theorem convert_flip {pieces : List Piece} (plain : Plain pieces) :
    convert {} none (spell pieces) =
        .ok ⟨spell pieces, ⟨pieces.flatMap Piece.slots⟩, none⟩ ∧
      convert { ungreedy := true } none (spell pieces) =
          .ok ⟨spell (pieces.map .flip), ⟨pieces.flatMap Piece.slots⟩, none⟩ ∧
        convert { ungreedy := true } none (spell (pieces.map .flip)) =
          .ok ⟨spell pieces, ⟨pieces.flatMap Piece.slots⟩, none⟩ := by
  have once := convert_spell plain false
  have flipped := convert_spell plain true
  have back := convert_spell plain.flip true
  rw [Piece.under_false, List.map_id] at once
  rw [Piece.under_true] at flipped back
  have twice : (pieces.map .flip).map Piece.flip = pieces := by simp [Function.comp_def]
  have slots : (pieces.map .flip).flatMap Piece.slots = pieces.flatMap Piece.slots := by
    simp [List.flatMap_map]
  rw [twice, slots] at back
  exact ⟨once, flipped, back⟩

def mixedPieces : List Piece :=
  [.char '$' (by decide), .quantifier .star true count_star, .char '{' (by decide),
    .opener .capture rfl, .char 'a' (by decide), .bracket ['*', '+', '?', '\\', ']'] (by decide),
    .quantifier (.counted ['{', '2', '}']) false (by
      rintro braces ⟨⟩
      exact ⟨['2'], by decide, List.all_eq_true.mp (by decide), Or.inl rfl⟩),
    .escape '*' (by decide), .quantifier .plus false count_plus, .close, .char '|' (by decide),
    .escape 'k' (by decide), .quantifier .optional false count_optional,
    .opener (.lookbehind true) rfl, .dot, .quantifier (.counted ['{', '3', ',', '}']) true (by
      rintro braces ⟨⟩
      exact ⟨['3'], by decide, List.all_eq_true.mp (by decide), Or.inr ⟨[], nofun, rfl⟩⟩),
    .close, .close, .char '{' (by decide), .char '1' (by decide)]

theorem convert_flip_mixed :
    Plain mixedPieces ∧
      spell mixedPieces = "$*?\x7b(a[*+?\\]]\x7b2\x7d\\*+)|\\k?(?<!.\x7b3,\x7d?))\x7b1".toList ∧
      spell (mixedPieces.map .flip) =
        "$*\x7b(a[*+?\\]]\x7b2\x7d?\\*+?)|\\k??(?<!.\x7b3,\x7d))\x7b1".toList ∧
      convert {} none (spell mixedPieces) = .ok ⟨spell mixedPieces, ⟨[.anonymous]⟩, none⟩ ∧
        convert { ungreedy := true } none (spell mixedPieces) =
            .ok ⟨spell (mixedPieces.map .flip), ⟨[.anonymous]⟩, none⟩ ∧
          convert { ungreedy := true } none (spell (mixedPieces.map .flip)) =
            .ok ⟨spell mixedPieces, ⟨[.anonymous]⟩, none⟩ := by
  have plain : Plain mixedPieces := by decide
  exact ⟨plain, rfl, rfl, convert_flip plain⟩

end Conversion
end PatternDialect
