import PatternDialect.Proofs.Severing
import PatternDialect.Proofs.Syntax
import PatternDialect.Proofs.Units

/-! Native source made of whole pieces: single characters, complete escape sequences,
references, classes and counts.

What is written behind such source neither completes an escape sequence in it nor is
taken into one. -/

namespace PatternDialect

open Character Source Backreference

namespace Backreference

/-- Two parts are renumbered one by one where the second does not go on with a reference
at the end of the first. -/
theorem renumberFrom_join (first amount : Nat) {r : Reader} {front back digits : Text}
    (after : r.after front = ⟨.outside, digits⟩)
    (apart : digits ≠ [] → back.head?.all (!isDigit ·) = true) :
    renumberFrom first amount r.place r.digits (front ++ back) =
      renumberFrom first amount r.place r.digits front ++ renumber first amount back := by
  induction front generalizing r with
  | nil =>
      obtain rfl : r = ⟨.outside, digits⟩ := after
      cases back with
      | nil => simp [renumber, renumberFrom]
      | cons c rest =>
          by_cases held : digits = []
          · subst held
            simp [renumber, renumberFrom]
          · have noDigit : isDigit c = false := by simpa using apart held
            have kept : ∀ digits, Reader.takes ⟨.outside, digits⟩ c = false := by
              simp [Reader.takes, noDigit]
            have next :
                ∀ digits, Reader.next ⟨.outside, digits⟩ c = ⟨Place.outside.next c, []⟩ := by
              simp [Reader.next, kept]
            have behind := renumberFrom_other first amount (kept digits) rest
            have alone := renumberFrom_other first amount (kept []) rest
            rw [next] at behind alone
            rw [List.nil_append, renumber, behind, alone]
            simp [renumberFrom]
  | cons c rest ih =>
      have tail : (r.next c).after rest = ⟨.outside, digits⟩ := by rwa [Reader.after_cons] at after
      cases taken : r.takes c with
      | true =>
          rw [List.cons_append, renumberFrom_taken first amount taken,
            renumberFrom_taken first amount taken, ih tail]
      | false =>
          rw [List.cons_append, renumberFrom_other first amount taken,
            renumberFrom_other first amount taken, ih tail]
          simp

theorem renumberFrom_within (first amount : Nat) {place : Place} {text : Text}
    (stays : place.within text = true) : renumberFrom first amount place [] text = text := by
  induction text generalizing place with
  | nil => rfl
  | cons c rest ih =>
      simp only [Place.within, Bool.and_eq_true] at stays
      have other : place ≠ .escape := by
        rintro rfl
        exact absurd stays.1 (by decide)
      rw [renumberFrom_copied first amount other, ih stays.2]

theorem renumberFrom_digits (first amount : Nat) {held text : Text} (nonempty : held ≠ [])
    (digits : ∀ c ∈ text, isDigit c = true) :
    renumberFrom first amount .outside held text = shift first amount (held.reverse ++ text) := by
  induction text generalizing held with
  | nil => simp [renumberFrom]
  | cons c rest ih =>
      have taken :
          (isDigit c && (!held.isEmpty || (Place.outside == .escape && c != '0'))) = true := by
        simp [digits c (by simp), nonempty]
      rw [renumberFrom, if_pos taken, ih (by simp) fun d member => digits d (by simp [member])]
      simp

theorem renumberFrom_number (first amount : Nat) {c : Char} {digits : Text} (nonzero : c ≠ '0')
    (all : ∀ d ∈ c :: digits, isDigit d = true) :
    renumberFrom first amount .escape [] (c :: digits) = shift first amount (c :: digits) := by
  have taken : Reader.takes ⟨.escape, []⟩ c = true := by
    simp [Reader.takes, all c (by simp), nonzero]
  have next : Reader.next ⟨.escape, []⟩ c = ⟨.outside, [c]⟩ := by simp [Reader.next, taken]
  have begun := renumberFrom_taken first amount taken digits
  rw [next] at begun
  exact begun.trans
    (renumberFrom_digits first amount (by simp) fun d member => all d (by simp [member]))

theorem renumber_render (first : Nat) {index : Nat} (positive : 0 < index)
    (small : index + 1 < Decimal.limit) :
    renumber first 1 (render index) = render (bump first index) := by
  have shifted : shift first 1 (Decimal.write index) = Decimal.write (bump first index) := by
    rw [shift, Decimal.read?_write (by omega)]
    by_cases above : first ≤ index
    · simp [above, bump, Nat.mod_eq_of_lt small]
    · simp [above, bump]
  have digits : ∀ c ∈ Decimal.write index, isDigit c = true :=
    fun _ member => Decimal.isDigit_of_mem_write member
  obtain ⟨c, rest, written, nonzero⟩ := Decimal.head_write positive
  rw [renumber, render, renumberFrom_copied first 1 (by decide)]
  change '\\' :: renumberFrom first 1 .escape [] (Decimal.write index) = _
  rw [written] at digits shifted ⊢
  rw [renumberFrom_number first 1 nonzero digits, shifted]
  rfl

end Backreference

namespace Syntax

def isComplete : Text → Bool
  | [c] => isPunctuation c || Conversion.State.isKnownEscape c
  | body => isLetterEscape body

/-- Source made of whole pieces, and whether the last one is a reference. -/
inductive Sealed : Bool → Text → Prop where
  | nil : Sealed false []
  | char {joined : Bool} {out : Text} {c : Char} (before : Sealed joined out)
      (plain : c ≠ '\\' ∧ c ≠ '[' ∧ c ≠ '{') (apart : joined = true → isDigit c = false) :
      Sealed false (out ++ [c])
  | escape {joined : Bool} {out body : Text} (before : Sealed joined out)
      (complete : isComplete body = true) : Sealed false (out ++ '\\' :: body)
  | reference {joined : Bool} {out : Text} (before : Sealed joined out) (index : Nat) :
      Sealed true (out ++ render index)
  | bracket {joined : Bool} {out body : Text} (before : Sealed joined out)
      (inner : isClassBody body = true) : Sealed false (out ++ ('[' :: body ++ [']']))
  | count {joined : Bool} {out braces : Text} (before : Sealed joined out)
      (count : Repeat.IsCount braces) : Sealed false (out ++ braces)

theorem isPunctuation_spec {c : Char} (punctuation : isPunctuation c = true) :
    isDigit c = false ∧ isLetter c = false := by
  simp only [isPunctuation, Bool.or_eq_true, Bool.and_eq_true, decide_eq_true_eq, Char.le_def,
    UInt32.le_iff_toNat_le] at punctuation
  constructor
  · rw [Bool.eq_false_iff]
    simp only [isDigit, ne_eq, Bool.and_eq_true, decide_eq_true_eq, Char.le_def,
      UInt32.le_iff_toNat_le]
    simp at *
    omega
  · rw [Bool.eq_false_iff]
    simp only [isLetter, ne_eq, Bool.or_eq_true, Bool.and_eq_true, decide_eq_true_eq, Char.le_def,
      UInt32.le_iff_toNat_le]
    simp at *
    omega

theorem isComplete_spec {body : Text} (complete : isComplete body = true) :
    (∃ c, body = [c] ∧ isDigit c = false ∧ c ∉ ['c', 'x', 'u', 'p', 'P']) ∨
      (∃ c d, body = ['x', c, d] ∧ isHexDigit c = true ∧ isHexDigit d = true) ∨
        ∃ c d e f, body = ['u', c, d, e, f] ∧ isHexDigit c = true ∧ isHexDigit d = true ∧
          isHexDigit e = true ∧ isHexDigit f = true := by
  have single : ∀ {c : Char}, (isPunctuation c || Conversion.State.isKnownEscape c) = true →
      isDigit c = false ∧ c ∉ ['c', 'x', 'u', 'p', 'P'] := by
    intro c kept
    rw [Bool.or_eq_true] at kept
    rcases kept with punctuation | known
    · obtain ⟨noDigit, noLetter⟩ := isPunctuation_spec punctuation
      refine ⟨noDigit, fun member => ?_⟩
      have letters : ∀ d ∈ ['c', 'x', 'u', 'p', 'P'], isLetter d = true :=
        List.all_eq_true.mp (by decide)
      rw [letters c member] at noLetter
      contradiction
    · have letters : ∀ d ∈ ['d', 'D', 'w', 'W', 's', 'S', 't', 'r', 'n', 'v', 'f', 'b', 'B'],
          (!isDigit d && !(['c', 'x', 'u', 'p', 'P'].contains d)) = true :=
        List.all_eq_true.mp (by decide)
      have known := letters c (List.contains_iff_mem.mp known)
      simpa using known
  unfold isComplete at complete
  split at complete
  · rename_i c
    exact Or.inl ⟨c, rfl, single complete⟩
  · rename_i body several
    unfold isLetterEscape at complete
    split at complete
    · rename_i c
      exact absurd rfl (several c)
    · rename_i c d
      rw [Bool.and_eq_true] at complete
      exact Or.inr (Or.inl ⟨c, d, rfl, complete⟩)
    · rename_i c d e f
      simp only [Bool.and_eq_true, and_assoc] at complete
      exact Or.inr (Or.inr ⟨c, d, e, f, rfl, complete⟩)
    · exact absurd complete Bool.false_ne_true

theorem isComplete_backslash {body : Text} (complete : isComplete body = true)
    (backslash : '\\' ∈ body) : body = ['\\'] := by
  rcases isComplete_spec complete with ⟨c, rfl, _⟩ | ⟨c, d, rfl, first, second⟩ |
      ⟨c, d, e, f, rfl, first, second, third, fourth⟩
  · rw [List.mem_singleton.mp backslash]
  · have other : ∀ g ∈ ['x', c, d], g ≠ '\\' := by
      simp [Atom.isHexDigit_ne_backslash, first, second]
    exact absurd rfl (other _ backslash)
  · have other : ∀ g ∈ ['u', c, d, e, f], g ≠ '\\' := by
      simp [Atom.isHexDigit_ne_backslash, first, second, third, fourth]
    exact absurd rfl (other _ backslash)

theorem pending_concat {c : Char} (other : c ≠ '\\') (text : Text) :
    Escape.pending (text ++ [c]).reverse = false := by
  rw [List.reverse_append, List.reverse_singleton, List.singleton_append, Escape.pending_cons,
    beq_eq_false_iff_ne.mpr other, Bool.false_and]

theorem render_concat (index : Nat) :
    ∃ digits d, render index = '\\' :: digits ++ [d] ∧ isDigit d = true := by
  have all : ∀ c ∈ Decimal.write index, isDigit c = true :=
    fun _ member => Decimal.isDigit_of_mem_write member
  rcases List.eq_nil_or_concat (Decimal.write index) with empty | ⟨digits, d, parts⟩
  · exact absurd empty (Decimal.write_ne_nil index)
  · exact ⟨digits, d, by simp [render, parts], all d (by simp [parts])⟩

theorem count_concat {braces : Text} (count : Repeat.IsCount braces) :
    ∃ inner, braces = '{' :: inner ++ ['}'] ∧ ∀ c ∈ inner, isDigit c = true ∨ c = ',' := by
  obtain ⟨low, _, digits, rfl | ⟨high, upper, rfl⟩⟩ := count
  · exact ⟨low, rfl, fun c member => Or.inl (digits c member)⟩
  · refine ⟨low ++ ',' :: high, by simp, fun c member => ?_⟩
    rcases List.mem_append.mp member with member | member
    · exact Or.inl (digits c member)
    · rcases List.mem_cons.mp member with rfl | member
      · exact Or.inr rfl
      · exact Or.inl (upper c member)

open Conversion (State)

theorem inOpenBraces_append {s : State} {out w : Text} (written : s.out = out ++ w)
    (plain : ∀ c ∈ w, State.isSpecial c = false) :
    s.inOpenBraces = State.inOpenBraces { s with out } := by
  unfold State.inOpenBraces
  rw [written, List.reverse_append, List.dropWhile_append_of_pos]
  intro c member
  simp [plain c (List.mem_reverse.mp member)]

theorem inOpenBraces_last {s : State} {out : Text} {c : Char} (written : s.out = out ++ [c])
    (special : State.isSpecial c = true) (other : c ≠ '{') : s.inOpenBraces = false := by
  unfold State.inOpenBraces
  rw [written, List.reverse_append, List.reverse_singleton, List.singleton_append,
    List.dropWhile_cons_of_neg (by simp [special])]
  split
  · rename_i before equality
    exact absurd (List.cons.inj equality).1 other
  · rfl

/-- What follows a backslash, when nothing that comes later goes on with it, digits behind
the number of a reference apart. -/
structure Closed (joined : Bool) (body : Text) : Prop where
  continues : ∀ next more, State.continuesBody next (body ++ more) = false
  completes : ∀ more c, c ≠ '}' → Atom.isEscapeBody (body ++ (more ++ [c])) = true →
    joined = true ∧ (more ++ [c]).head?.any isDigit = true

theorem Closed.append {joined : Bool} {body w : Text} (closed : Closed joined body)
    (nonempty : w ≠ []) (apart : joined = true → w.head?.all (!isDigit ·) = true) (later : Bool) :
    Closed later (body ++ w) := by
  constructor
  · intro next more
    rw [List.append_assoc]
    exact closed.continues next (w ++ more)
  · intro more c other complete
    rw [List.append_assoc, ← List.append_assoc w] at complete
    obtain ⟨reference, digit⟩ := closed.completes (w ++ more) c other complete
    cases w with
    | nil => exact absurd rfl nonempty
    | cons d rest =>
        have noDigit : isDigit d = false := by simpa using apart reference
        simp [noDigit] at digit

theorem continuesBody_of_bracket {body : Text} (bracket : ']' ∈ body) (next : Char) :
    State.continuesBody next body = false := by
  have notHex : ∀ {rest : Text}, ']' ∈ rest → rest.all isHexDigit = false := by
    intro rest member
    rw [List.all_eq_false]
    exact ⟨']', member, by decide⟩
  unfold State.continuesBody
  split
  · rename_i rest
    have inside : ']' ∈ rest := by simpa using bracket
    cases rest with
    | nil => contradiction
    | cons => rfl
  · rename_i rest
    simp [notHex (by simpa using bracket : ']' ∈ rest)]
  · rename_i rest
    simp [notHex (by simpa using bracket : ']' ∈ rest)]
  · rename_i rest _
    simp [notHex (by simpa using bracket : ']' ∈ rest)]
  · rfl

theorem isEscapeBody_of_bracket {body : Text} (bracket : ']' ∈ body) {c : Char} (other : c ≠ '}') :
    Atom.isEscapeBody (body ++ [c]) = false := by
  obtain ⟨text, written⟩ : ∃ text, text = body ++ [c] := ⟨_, rfl⟩
  have inner : ']' ∈ text.dropLast := by simpa [written] using bracket
  have inside : ']' ∈ text := List.dropLast_subset text inner
  have last : text.getLast? = some c := by simp [written]
  have notAll : ∀ {kind : Char → Bool} {rest : Text}, kind ']' = false → ']' ∈ rest →
      rest.all kind = false := by
    intro kind rest refused member
    rw [List.all_eq_false]
    exact ⟨']', member, by simp [refused]⟩
  have notClosed : ∀ {rest : Text}, rest <:+ text → (rest.getLast? == some '}') = false := by
    rintro rest ⟨front, rfl⟩
    rw [beq_eq_false_iff_ne]
    intro closing
    rw [List.getLast?_append, closing] at last
    exact other (Option.some.inj last).symm
  rw [← written]
  unfold Atom.isEscapeBody
  split
  · rfl
  · simp at inner
  · rename_i rest _
    match rest, inner with
    | [], inner => simp at inner
    | [d], inner => simp at inner
    | _ :: _ :: _, _ => rfl
  · rename_i rest _
    rw [notAll (by decide : isHexDigit ']' = false) (by simpa using inside : ']' ∈ rest),
      Bool.and_false]
  · rename_i rest
    simp [notClosed (⟨['u', '{'], rfl⟩ : rest <:+ 'u' :: '{' :: rest)]
  · rename_i rest _ _
    rw [notAll (by decide : isHexDigit ']' = false) (by simpa using inside : ']' ∈ rest),
      Bool.and_false]
  · rename_i rest _
    rw [notClosed (⟨['p'], rfl⟩ : rest <:+ 'p' :: rest), Bool.and_false, Bool.false_and]
  · rename_i rest _
    rw [notClosed (⟨['P'], rfl⟩ : rest <:+ 'P' :: rest), Bool.and_false, Bool.false_and]
  · rename_i d rest _ _ _ _ _ _ _
    rcases List.mem_cons.mp inside with rfl | member
    · rfl
    · rw [notAll (by decide : isDigit ']' = false) member, Bool.and_false]

namespace Sealed

variable {joined : Bool} {out : Text}

theorem unescaped (whole : Sealed joined out) : Escape.pending out.reverse = false := by
  induction whole with
  | nil => rfl
  | char before plain apart ih => exact pending_concat plain.1 _
  | escape before complete ih =>
      rename_i out body
      have longer : ∀ (front : Text) {c : Char}, isHexDigit c = true →
          Escape.pending (out ++ '\\' :: (front ++ [c])).reverse = false := by
        intro front c hex
        rw [← List.cons_append, ← List.append_assoc]
        exact pending_concat (Atom.isHexDigit_ne_backslash hex) _
      rcases isComplete_spec complete with ⟨c, rfl, _⟩ | ⟨c, d, rfl, _, hex⟩ |
          ⟨c, d, e, f, rfl, _, _, _, hex⟩
      · rw [List.reverse_append, List.reverse_cons, List.reverse_singleton, List.singleton_append,
          List.cons_append, List.singleton_append, Escape.pending_cons, Escape.pending_cons, ih]
        simp
      · exact longer ['x', c] hex
      · exact longer ['u', c, d, e] hex
  | reference before index ih =>
      obtain ⟨digits, d, written, digit⟩ := render_concat index
      rw [written, ← List.append_assoc]
      exact pending_concat (Reader.isDigit_ne_backslash digit) _
  | bracket before inner ih =>
      rw [← List.append_assoc]
      exact pending_concat (by decide) _
  | count before count ih =>
      obtain ⟨inner, rfl, _⟩ := count_concat count
      rw [← List.append_assoc]
      exact pending_concat (by decide) _

theorem inOpenBraces (whole : Sealed joined out) {s : State} (written : s.out = out) :
    s.inOpenBraces = false := by
  induction whole generalizing s with
  | nil => simp [State.inOpenBraces, written]
  | char before plain apart ih =>
      rename_i out c
      by_cases special : State.isSpecial c = true
      · exact inOpenBraces_last written special plain.2.2
      · rw [inOpenBraces_append written (by simpa using special)]
        exact ih rfl
  | escape before complete ih =>
      rename_i out body
      have longer : (∀ d ∈ body, State.isSpecial d = false) → s.inOpenBraces = false := by
        intro plain
        rw [List.append_cons] at written
        rw [inOpenBraces_append written plain]
        exact inOpenBraces_last rfl (by decide) (by decide)
      rcases isComplete_spec complete with ⟨c, rfl, _⟩ | ⟨c, d, rfl, first, second⟩ |
          ⟨c, d, e, f, rfl, first, second, third, fourth⟩
      · by_cases special : State.isSpecial c = true
        · by_cases brace : c = '{'
          · have escaped : Escape.pending ('\\' :: out.reverse) = true := by
              rw [Escape.pending_cons, before.unescaped]
              rfl
            simp [State.inOpenBraces, written, brace, State.isSpecial, escaped]
          · rw [List.append_cons] at written
            exact inOpenBraces_last written special brace
        · exact longer (by simpa using special)
      · have letter : State.isSpecial 'x' = false := by decide
        exact longer (by simp [State.isSpecial_of_isHexDigit, letter, first, second])
      · have letter : State.isSpecial 'u' = false := by decide
        exact longer (by simp [State.isSpecial_of_isHexDigit, letter, first, second, third, fourth])
  | reference before index ih =>
      rw [render, List.append_cons] at written
      rw [inOpenBraces_append written fun d member => ?_]
      · exact inOpenBraces_last rfl (by decide) (by decide)
      · exact State.isSpecial_of_isHexDigit (by simp [isHexDigit,
          Decimal.isDigit_of_mem_write member])
  | bracket before inner ih =>
      rw [← List.append_assoc] at written
      exact inOpenBraces_last written (by decide) (by decide)
  | count before count ih =>
      obtain ⟨inner, rfl, _⟩ := count_concat count
      rw [← List.append_assoc] at written
      exact inOpenBraces_last written (by decide) (by decide)

end Sealed

theorem closed_of_complete {body : Text} (complete : isComplete body = true) :
    Closed false body := by
  rcases isComplete_spec complete with ⟨c, rfl, noDigit, letters⟩ | ⟨c, d, rfl, _, _⟩ |
      ⟨c, d, e, f, rfl, hex, _, _, _⟩
  · simp only [List.mem_cons, List.not_mem_nil, or_false, not_or] at letters
    obtain ⟨_, _, _, _, _⟩ := letters
    constructor
    · intro next more
      simp [State.continuesBody, *]
    · intro more e _ completed
      obtain ⟨f, rest, longer⟩ : ∃ f rest, more ++ [e] = f :: rest := by
        cases more with
        | nil => exact ⟨e, [], rfl⟩
        | cons f rest => exact ⟨f, rest ++ [e], rfl⟩
      rw [longer] at completed
      simp [Atom.isEscapeBody, *] at completed
  · constructor
    · intro next more
      simp only [State.continuesBody, List.cons_append, List.nil_append, List.length_cons]
      rw [decide_eq_false (by omega), Bool.false_and, Bool.false_and]
    · intro more e _ completed
      simp [Atom.isEscapeBody] at completed
  · have brace : c ≠ '{' := by
      rintro rfl
      revert hex
      decide
    constructor
    · intro next more
      have full : ¬ more.length + 1 + 1 + 1 + 1 < 4 := by omega
      simp [State.continuesBody, brace, full]
    · intro more e _ completed
      simp [Atom.isEscapeBody, brace] at completed

theorem closed_digits {digits : Text} (nonempty : digits ≠ [])
    (all : ∀ c ∈ digits, isDigit c = true) : Closed true digits := by
  cases digits with
  | nil => exact absurd rfl nonempty
  | cons c rest =>
      have digit := all c (by simp)
      have other : ∀ d ∈ ['c', 'x', 'u', 'p', 'P'], c ≠ d := by
        rintro d member rfl
        revert digit
        have letters : ∀ d ∈ ['c', 'x', 'u', 'p', 'P'], (!isDigit d) = true :=
          List.all_eq_true.mp (by decide)
        simpa using letters c member
      simp only [List.mem_cons, List.not_mem_nil, or_false, forall_eq_or_imp, forall_eq] at other
      obtain ⟨_, _, _, _, _⟩ := other
      constructor
      · intro next more
        simp [State.continuesBody, *]
      · intro more e _ completed
        refine ⟨rfl, ?_⟩
        have tail : ∀ d ∈ more ++ [e], isDigit d = true := by
          obtain ⟨f, left, longer⟩ : ∃ f left, rest ++ (more ++ [e]) = f :: left := by
            cases rest with
            | nil =>
                cases more with
                | nil => exact ⟨e, [], rfl⟩
                | cons f left => exact ⟨f, left ++ [e], rfl⟩
            | cons f left => exact ⟨f, left ++ (more ++ [e]), rfl⟩
          rw [List.cons_append, longer] at completed
          rcases (Atom.isEscapeBody_spec completed).1 with ordinary | digits
          · rw [isDigit_of_ordinary ordinary] at digit
            contradiction
          · intro d member
            refine digits d (List.mem_cons_of_mem c ?_)
            rw [← longer]
            exact List.mem_append_right rest member
        cases more with
        | nil => simpa using tail e (by simp)
        | cons f left => simpa using tail f (by simp)

theorem backslash_cases {before piece front body : Text}
    (equality : before ++ piece = front ++ '\\' :: body) :
    (∃ middle, before = front ++ '\\' :: middle ∧ body = middle ++ piece) ∨
      ∃ middle, front = before ++ middle ∧ piece = middle ++ '\\' :: body := by
  rcases List.append_eq_append_iff.mp equality with ⟨middle, rfl, tail⟩ | ⟨middle, rfl, tail⟩
  · exact Or.inr ⟨middle, rfl, tail⟩
  · cases middle with
    | nil => exact Or.inr ⟨[], by simp, tail.symm⟩
    | cons c middle =>
        obtain ⟨rfl, rfl⟩ := List.cons.inj tail
        exact Or.inl ⟨middle, rfl, rfl⟩

namespace Sealed

variable {joined : Bool} {out : Text}

theorem closed (whole : Sealed joined out) {front body : Text} (parts : out = front ++ '\\' :: body)
    (live : Escape.pending front.reverse = false) : Closed joined body := by
  induction whole generalizing body with
  | nil => simp at parts
  | char before plain apart ih =>
      rename_i c
      rcases backslash_cases parts with ⟨middle, earlier, rfl⟩ | ⟨middle, rfl, piece⟩
      · exact (ih earlier).append (by simp) (fun on => by simp [apart on]) _
      · have member : '\\' ∈ [c] := by simp [piece]
        exact absurd (List.mem_singleton.mp member).symm plain.1
  | escape before complete ih =>
      rename_i out piece
      rcases backslash_cases parts with ⟨middle, earlier, rfl⟩ | ⟨middle, rfl, written⟩
      · exact (ih earlier).append (by simp) (fun _ => rfl) _
      · cases middle with
        | nil =>
            obtain ⟨_, rfl⟩ := List.cons.inj written
            exact closed_of_complete complete
        | cons c middle =>
            obtain ⟨rfl, tail⟩ := List.cons.inj written
            have single := isComplete_backslash complete (by simp [tail])
            cases middle with
            | nil =>
                rw [List.reverse_append, List.reverse_singleton, List.singleton_append,
                  Escape.pending_cons, before.unescaped] at live
                contradiction
            | cons d middle => simp [single] at tail
  | reference before index ih =>
      have digits : ∀ c ∈ Decimal.write index, isDigit c = true :=
        fun _ member => Decimal.isDigit_of_mem_write member
      rcases backslash_cases parts with ⟨middle, earlier, rfl⟩ | ⟨middle, rfl, written⟩
      · exact (ih earlier).append (by simp [render]) (fun _ => rfl) _
      · cases middle with
        | nil =>
            obtain ⟨_, rfl⟩ := List.cons.inj written
            exact closed_digits (Decimal.write_ne_nil index) digits
        | cons c middle =>
            obtain ⟨_, tail⟩ := List.cons.inj written
            exact absurd rfl (Reader.isDigit_ne_backslash (digits '\\' (by simp [tail])))
  | bracket before inner ih =>
      rename_i out piece
      rcases backslash_cases parts with ⟨middle, earlier, rfl⟩ | ⟨middle, rfl, written⟩
      · exact (ih earlier).append (by simp) (fun _ => rfl) _
      · have closing : ']' ∈ body := by
          have last := congrArg List.getLast? written
          rcases List.eq_nil_or_concat body with rfl | ⟨rest, c, rfl⟩
          · rw [List.getLast?_append, List.getLast?_append] at last
            simp at last
          · rw [List.concat_eq_append, ← List.cons_append, ← List.append_assoc,
              List.getLast?_append, List.getLast?_append] at last
            obtain rfl : ']' = c := by simpa using last
            simp
        constructor
        · intro next more
          exact continuesBody_of_bracket (List.mem_append_left more closing) next
        · intro more c other complete
          rw [← List.append_assoc, isEscapeBody_of_bracket
            (List.mem_append_left more closing) other]
            at complete
          contradiction
  | count before count ih =>
      obtain ⟨inner, rfl, digits⟩ := count_concat count
      rcases backslash_cases parts with ⟨middle, earlier, rfl⟩ | ⟨middle, rfl, written⟩
      · exact (ih earlier).append (by simp) (fun _ => rfl) _
      · have member : '\\' ∈ '{' :: inner ++ ['}'] := by simp [written]
        have inside : '\\' ∈ inner := by simpa using member
        rcases digits _ inside with digit | comma
        · exact absurd rfl (Reader.isDigit_ne_backslash digit)
        · contradiction

theorem continuesEscape (whole : Sealed joined out) {s : State} (written : s.out = out)
    (next : Char) : s.continuesEscape next = false := by
  unfold State.continuesEscape
  split
  · rename_i c before found
    have parts : out.reverse.takeWhile (· != '\\') ++ c :: before = out.reverse := by
      rw [← written, ← found]
      exact List.takeWhile_append_dropWhile
    obtain rfl : c = '\\' := by
      have head := List.head?_dropWhile_not (· != '\\') s.out.reverse
      rw [found] at head
      simpa using head
    rw [Bool.and_eq_false_iff, Bool.not_eq_false']
    cases pending : Escape.pending before with
    | true => exact Or.inl rfl
    | false =>
        right
        have reversed := congrArg List.reverse parts
        rw [List.reverse_append, List.reverse_cons, List.reverse_reverse, List.append_assoc,
          List.singleton_append] at reversed
        have closed := whole.closed reversed.symm (by rwa [List.reverse_reverse])
        have body := closed.continues next []
        rwa [List.append_nil, ← written] at body
  · rfl

theorem trailingUnit?_char (whole : Sealed joined out) {c : Char}
    (plain : c ≠ '\\' ∧ c ≠ '(' ∧ c ≠ '|' ∧ c ≠ '}') (apart : joined = true → isDigit c = false) :
    Atom.trailingUnit? (out ++ [c]) = some [c] := by
  have none_ : Atom.trailingEscape? (out ++ [c]).reverse [] = none := by
    cases found : Atom.trailingEscape? (out ++ [c]).reverse [] with
    | none => rfl
    | some unit =>
        obtain ⟨front, body, parts, rfl, live, complete⟩ := Atom.trailingEscape?_sound found
        rw [List.reverse_reverse, List.append_nil] at parts
        rcases backslash_cases parts with ⟨middle, earlier, rfl⟩ | ⟨middle, _, piece⟩
        · obtain ⟨on, digit⟩ := (whole.closed earlier live).completes [] c plain.2.2.2 complete
          rw [List.nil_append] at digit
          simp [apart on] at digit
        · have member : '\\' ∈ [c] := by simp [piece]
          exact absurd (List.mem_singleton.mp member).symm plain.1
  rw [Atom.trailingUnit?, none_]
  simp [plain.2.1, plain.2.2.1]

end Sealed

theorem trailingUnit?_escape {out body : Text} (unescaped : Escape.pending out.reverse = false)
    (complete : Atom.isEscapeBody body = true)
    (short : Text.size ('\\' :: body) ≤ Atom.searchWidth)
    (plain : '\\' ∈ body → body = ['\\']) :
    Atom.trailingUnit? (out ++ '\\' :: body) = some ('\\' :: body) := by
  have some_ : (Atom.trailingEscape? (body.reverse ++ '\\' :: out.reverse) []).isSome = true :=
    Atom.trailingEscape?_isSome unescaped (by simpa using complete) (by simpa using short)
  obtain ⟨unit, found⟩ := Option.isSome_iff_exists.mp some_
  have reversed : (out ++ '\\' :: body).reverse = body.reverse ++ '\\' :: out.reverse := by simp
  rw [← reversed] at found
  obtain ⟨front, body', parts, rfl, live, complete'⟩ := Atom.trailingEscape?_sound found
  rw [List.reverse_reverse, List.append_nil] at parts
  have same : body' = body := by
    rcases backslash_cases parts with ⟨middle, _, rfl⟩ | ⟨middle, _, written⟩
    · -- a longer escape sequence holds no further backslash
      exfalso
      cases middle with
      | nil =>
          cases body with
          | nil => contradiction
          | cons d rest => simp [Atom.isEscapeBody, isDigit] at complete'
      | cons c middle =>
          cases middle with
          | nil => exact absurd rfl ((Atom.isEscapeBody_spec complete').2 '\\' (by simp))
          | cons d middle => exact absurd rfl ((Atom.isEscapeBody_spec complete').2 '\\' (by simp))
    · cases middle with
      | nil => exact (List.cons.inj written).2.symm
      | cons c middle =>
          obtain ⟨_, rfl⟩ := List.cons.inj written
          have single := plain (by simp)
          cases middle with
          | nil =>
              obtain rfl : body' = [] := (List.cons.inj single).2
              contradiction
          | cons d middle =>
              have tail := (List.cons.inj single).2
              simp at tail
  rw [Atom.trailingUnit?, found, same]

/-! Reading and renumbering, piece by piece. -/

theorem after_escape {body : Text} (complete : isComplete body = true) :
    Reader.after ⟨.outside, []⟩ ('\\' :: body) = ⟨.outside, []⟩ := by
  have letter : ∀ {c : Char} {rest : Text}, isDigit c = false → Place.isFlat rest = true →
      Reader.after ⟨.outside, []⟩ ('\\' :: c :: rest) = ⟨.outside, []⟩ := by
    intro c rest noDigit flat
    have slash : Reader.next ⟨.outside, []⟩ '\\' = ⟨.escape, []⟩ := by decide
    rw [Reader.after_cons, slash, Reader.after_cons, Reader.next_of_not_digit _ noDigit]
    exact (Place.reads_of_flat flat []).1
  have hex : ∀ {rest : Text}, (∀ c ∈ rest, isHexDigit c = true) → Place.isFlat rest = true := by
    intro rest digits
    rw [Place.isFlat, List.all_eq_true]
    intro c member
    have other : ∀ d ∈ ['\\', '[', '('], c ≠ d := by
      rintro d refused rfl
      have absent : ∀ d ∈ ['\\', '[', '('], (!isHexDigit d) = true :=
        List.all_eq_true.mp (by decide)
      simpa [digits c member] using absent c refused
    simp [other]
  rcases isComplete_spec complete with ⟨c, rfl, noDigit, _⟩ | ⟨c, d, rfl, first, second⟩ |
      ⟨c, d, e, f, rfl, first, second, third, fourth⟩
  · exact letter noDigit rfl
  · exact letter (by decide) (hex (by simp [first, second]))
  · exact letter (by decide) (hex (by simp [first, second, third, fourth]))

theorem after_bracket {body : Text} (inner : isClassBody body = true) :
    Reader.after ⟨.outside, []⟩ ('[' :: body ++ [']']) = ⟨.outside, []⟩ := by
  simp only [isClassBody, Bool.and_eq_true, beq_iff_eq] at inner
  have open_ : Reader.next ⟨.outside, []⟩ '[' = ⟨.inClass, []⟩ := by decide
  have through : Reader.after ⟨.inClass, []⟩ body = ⟨.inClass, []⟩ := by
    have place := Reader.place_after (Reader.Proper.of_place .inClass) body
    have digits := (Place.reads_of_within inner.1).2
    rw [inner.2] at place
    cases after : Reader.after ⟨.inClass, []⟩ body
    simp_all
  have begin_ : Reader.after ⟨.outside, []⟩ ('[' :: body) = ⟨.inClass, []⟩ := by
    rw [Reader.after_cons, open_, through]
  rw [Reader.after_append, begin_]
  decide

theorem flat_of_count {braces : Text} (count : Repeat.IsCount braces) :
    Place.isFlat braces = true ∧ braces.head? = some '{' := by
  obtain ⟨inner, rfl, digits⟩ := count_concat count
  refine ⟨?_, rfl⟩
  have flat : ∀ c ∈ inner, (c ≠ '\\' ∧ c ≠ '[') ∧ c ≠ '(' := by
    intro c member
    rcases digits c member with digit | rfl
    · refine ⟨⟨?_, ?_⟩, ?_⟩ <;> rintro rfl <;> contradiction
    · decide
  simpa [Place.isFlat] using fun c member => flat c member

namespace Sealed

variable {joined : Bool} {out : Text}

theorem reads (whole : Sealed joined out) :
    ∃ digits, Reader.start.after out = ⟨.outside, digits⟩ ∧ (digits ≠ [] → joined = true) := by
  have further : ∀ {joined : Bool} {out piece digits held : Text},
      Reader.start.after out = ⟨.outside, digits⟩ → piece ≠ [] →
        (digits ≠ [] → piece.head?.all (!isDigit ·) = true) →
          Reader.after ⟨.outside, []⟩ piece = ⟨.outside, held⟩ → (held ≠ [] → joined = true) →
            ∃ held, Reader.start.after (out ++ piece) = ⟨.outside, held⟩ ∧
              (held ≠ [] → joined = true) := by
    intro joined out piece digits held before nonempty apart after last
    refine ⟨held, ?_, last⟩
    have proper : Reader.Proper (Reader.start.after out) := Reader.Proper.start.after out
    rw [before] at proper
    rw [Reader.after_append, before, (Reader.reads_apart proper nonempty apart).2]
    exact after
  induction whole with
  | nil => exact ⟨[], rfl, fun some_ => absurd rfl some_⟩
  | char before plain apart ih =>
      rename_i c
      obtain ⟨digits, after, held⟩ := ih
      refine further after (by simp) (fun some_ => by simp [apart (held some_)]) ?_
        (fun some_ => absurd rfl some_)
      have kept : Reader.takes ⟨.outside, []⟩ c = false := by simp [Reader.takes]
      simp [Reader.after, Reader.next, kept, Place.next, plain.1, plain.2.1]
  | escape before complete ih =>
      obtain ⟨digits, after, _⟩ := ih
      exact further after (by simp) (fun _ => rfl) (after_escape complete)
        (fun some_ => absurd rfl some_)
  | reference before index ih =>
      obtain ⟨digits, after, _⟩ := ih
      by_cases positive : 0 < index
      · exact further after (by simp [render]) (fun _ => rfl)
          (Reader.after_reference rfl positive).1 (fun _ => rfl)
      · obtain rfl : index = 0 := by omega
        have zero : Reader.after ⟨.outside, []⟩ (render 0) = ⟨.outside, []⟩ := by decide
        exact further after (by simp [render]) (fun _ => rfl) zero (fun _ => rfl)
  | bracket before inner ih =>
      obtain ⟨digits, after, _⟩ := ih
      exact further after (by simp) (fun _ => rfl) (after_bracket inner)
        (fun some_ => absurd rfl some_)
  | count before count ih =>
      obtain ⟨digits, after, _⟩ := ih
      obtain ⟨flat, head⟩ := flat_of_count count
      refine further after ?_ (fun _ => by rw [head]; rfl) (Place.reads_of_flat flat []).1
        (fun some_ => absurd rfl some_)
      rintro rfl
      contradiction

theorem outside (whole : Sealed joined out) : Place.outside.after out = .outside := by
  obtain ⟨digits, after, _⟩ := whole.reads
  rw [← Reader.place_start, after]

theorem renumber_append (whole : Sealed joined out) (first amount : Nat) {more : Text}
    (apart : joined = true → more.head?.all (!isDigit ·) = true) :
    renumber first amount (out ++ more) = renumber first amount out ++
      renumber first amount more := by
  obtain ⟨digits, after, held⟩ := whole.reads
  exact renumberFrom_join first amount after fun some_ => apart (held some_)

end Sealed

end Syntax

end PatternDialect
