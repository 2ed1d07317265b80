import PatternDialect.Proofs.Sealing
import PatternDialect.Proofs.UnitCuts

/-! Native source as a sequence of symbols.

Main statement: renumbering shifts the numbers of references and keeps all other symbols.  So
it does nothing for no groups, adds up, and may be done part by part. -/

namespace PatternDialect

open Character Source Backreference

namespace Source

inductive Symbol where
  | character (c : Char)
  | escaped (c : Char)
  | reference (number : Nat)
  deriving DecidableEq

namespace Symbol

def text : Symbol → Text
  | character c => [c]
  | escaped c => ['\\', c]
  | reference number => render number

/-- The reference to a group that is moved by `amount` groups.  Numbers have 64 bits, and
zero makes no reference. -/
def moved (amount number : Nat) : Symbol :=
  if (number + amount) % Decimal.limit = 0 then escaped '0'
  else reference ((number + amount) % Decimal.limit)

/-- References to group `first` and later ones are moved.  A number of more than 64 bits
is kept. -/
def renumber (first amount : Nat) : Symbol → Symbol
  | character c => character c
  | escaped c => escaped c
  | reference number =>
      if first ≤ number ∧ number < Decimal.limit then moved amount number else reference number

theorem renumber_character (first amount : Nat) (c : Char) :
    (character c).renumber first amount = character c := rfl

theorem renumber_escaped (first amount : Nat) (c : Char) :
    (escaped c).renumber first amount = escaped c := rfl

section Reference

variable {first amount number : Nat}

theorem moved_of_lt (positive : 0 < number + amount) (small : number + amount < Decimal.limit) :
    moved amount number = reference (number + amount) := by
  rw [moved, Nat.mod_eq_of_lt small, if_neg (Nat.ne_of_gt positive)]

theorem moved_last (last : number + 1 = Decimal.limit) : moved 1 number = escaped '0' := by
  rw [moved, last, Nat.mod_self, if_pos rfl]

theorem renumber_above (above : first ≤ number ∧ number < Decimal.limit) :
    (reference number).renumber first amount = moved amount number := if_pos above

theorem renumber_kept (kept : ¬ (first ≤ number ∧ number < Decimal.limit)) :
    (reference number).renumber first amount = reference number := if_neg kept

theorem renumber_reference_cases (first amount : Nat) (positive : 0 < number) :
    (reference number).renumber first amount = escaped '0' ∨
      ∃ index, 0 < index ∧ (reference number).renumber first amount = reference index := by
  by_cases above : first ≤ number ∧ number < Decimal.limit
  · rw [renumber_above above, moved]
    split
    · exact Or.inl rfl
    · rename_i other
      exact Or.inr ⟨_, Nat.pos_of_ne_zero other, rfl⟩
  · exact Or.inr ⟨number, positive, renumber_kept above⟩

end Reference

theorem head?_text_renumber (first amount : Nat) (symbol : Symbol) :
    (symbol.renumber first amount).text.head? = symbol.text.head? := by
  cases symbol with
  | character c => rfl
  | escaped c => rfl
  | reference number =>
      by_cases above : first ≤ number ∧ number < Decimal.limit
      · rw [renumber_above above, moved]
        split <;> rfl
      · rw [renumber_kept above]

theorem renumber_zero (first : Nat) {symbol : Symbol} (positive : symbol ≠ reference 0) :
    symbol.renumber first 0 = symbol := by
  cases symbol with
  | character c => rfl
  | escaped c => rfl
  | reference number =>
      have filled : number ≠ 0 := fun zero => positive (by rw [zero])
      by_cases above : first ≤ number ∧ number < Decimal.limit
      · rw [renumber_above above, moved_of_lt (by omega) above.2, Nat.add_zero]
      · exact renumber_kept above

theorem renumber_add (first a b : Nat) {symbol : Symbol} (positive : symbol ≠ reference 0)
    (small : ∀ number, symbol = reference number → number < Decimal.limit →
      number + a + b < Decimal.limit) :
    (symbol.renumber first a).renumber first b = symbol.renumber first (a + b) := by
  cases symbol with
  | character c => rfl
  | escaped c => rfl
  | reference number =>
      have filled : number ≠ 0 := fun zero => positive (by rw [zero])
      by_cases above : first ≤ number ∧ number < Decimal.limit
      · have bound := small number rfl above.2
        have again : first ≤ number + a ∧ number + a < Decimal.limit := by omega
        rw [renumber_above above, renumber_above above, moved_of_lt (by omega) again.2,
          renumber_above again, moved_of_lt (by omega) bound, moved_of_lt (by omega) (by omega),
          Nat.add_assoc]
      · rw [renumber_kept above, renumber_kept above, renumber_kept above]

theorem renumber_comm {first second : Nat} (ordered : first ≤ second) (symbol : Symbol) :
    (symbol.renumber second 1).renumber first 1 =
      (symbol.renumber first 1).renumber (second + 1) 1 := by
  cases symbol with
  | character c => rfl
  | escaped c => rfl
  | reference number =>
      by_cases low : first ≤ number ∧ number < Decimal.limit
      · rw [renumber_above low]
        by_cases high : second ≤ number
        · rw [renumber_above ⟨high, low.2⟩]
          by_cases last : number + 1 = Decimal.limit
          · rw [moved_last last]
            rfl
          · rw [moved_of_lt (by omega) (by omega), renumber_above (by omega),
              renumber_above (by omega)]
        · rw [renumber_kept (by omega), renumber_above low]
          by_cases last : number + 1 = Decimal.limit
          · rw [moved_last last]
            rfl
          · rw [moved_of_lt (by omega) (by omega), renumber_kept (by omega)]
      · rw [renumber_kept (by omega), renumber_kept low, renumber_kept (by omega)]

end Symbol

def write (symbols : List Symbol) : Text := symbols.flatMap Symbol.text

@[simp] theorem write_nil : write [] = [] := rfl

@[simp] theorem write_cons (symbol : Symbol) (symbols : List Symbol) :
    write (symbol :: symbols) = symbol.text ++ write symbols := rfl

theorem write_character (c : Char) (symbols : List Symbol) :
    write (.character c :: symbols) = c :: write symbols := rfl

theorem write_escaped (c : Char) (symbols : List Symbol) :
    write (.escaped c :: symbols) = '\\' :: c :: write symbols := rfl

theorem write_reference (number : Nat) (symbols : List Symbol) :
    write (.reference number :: symbols) = '\\' :: (Decimal.write number ++ write symbols) := rfl

def isOpenAfter (inClass : Bool) (c : Char) : Bool := if inClass then c != ']' else c == '['

def symbolsFrom (inClass : Bool) (text : Text) : List Symbol :=
  match text with
  | [] => []
  | '\\' :: c :: rest =>
      if inClass || !isDigit c || c == '0' then .escaped c :: symbolsFrom inClass rest
      else
        .reference (Decimal.value (c :: rest.takeWhile isDigit)) ::
          symbolsFrom false (rest.dropWhile isDigit)
  | c :: rest => .character c :: symbolsFrom (isOpenAfter inClass c) rest
termination_by text.length
decreasing_by
  · simp only [List.length_cons]
    omega
  · have shorter := (List.dropWhile_sublist (l := rest) isDigit).length_le
    simp only [List.length_cons]
    omega
  · simp only [List.length_cons]
    omega

def symbols (text : Text) : List Symbol := symbolsFrom false text

section Equations

variable {inClass : Bool} {c : Char} {rest : Text}

theorem symbolsFrom_nil (inClass : Bool) : symbolsFrom inClass [] = [] := by
  rw [symbolsFrom]

theorem symbolsFrom_escaped (kept : (inClass || !isDigit c || c == '0') = true) :
    symbolsFrom inClass ('\\' :: c :: rest) = .escaped c :: symbolsFrom inClass rest := by
  rw [symbolsFrom, if_pos kept]

theorem symbolsFrom_reference {digits : Text} (numeral : ∀ d ∈ c :: digits, isDigit d = true)
    (nonzero : c ≠ '0') (ends : rest.head?.all (!isDigit ·) = true) :
    symbolsFrom false ('\\' :: c :: (digits ++ rest)) =
      .reference (Decimal.value (c :: digits)) :: symbolsFrom false rest := by
  have all : ∀ d ∈ digits, isDigit d = true := fun d member => numeral d (by simp [member])
  have first : isDigit c = true := numeral c (by simp)
  have taken : (digits ++ rest).takeWhile isDigit = digits := Text.digits_before all ends
  have dropped : (digits ++ rest).dropWhile isDigit = rest := by
    have whole : (digits ++ rest).takeWhile isDigit ++ (digits ++ rest).dropWhile isDigit =
        digits ++ rest := List.takeWhile_append_dropWhile
    rw [taken] at whole
    exact List.append_cancel_left whole
  rw [symbolsFrom, if_neg (by simp [first, nonzero]), taken, dropped]

theorem symbolsFrom_character (single : c = '\\' → rest = []) :
    symbolsFrom inClass (c :: rest) = .character c :: symbolsFrom (isOpenAfter inClass c) rest := by
  rw [symbolsFrom]
  rintro d more rfl rfl
  simpa using single rfl

end Equations

/-- Induction over a text symbol by symbol. -/
theorem symbol_induction {motive : Bool → Text → Prop}
    (nil : ∀ inClass, motive inClass [])
    (escaped : ∀ inClass c rest, (inClass || !isDigit c || c == '0') = true →
      motive inClass rest → motive inClass ('\\' :: c :: rest))
    (reference : ∀ c digits rest, (∀ d ∈ c :: digits, isDigit d = true) → c ≠ '0' →
      rest.head?.all (!isDigit ·) = true → motive false rest →
        motive false ('\\' :: c :: (digits ++ rest)))
    (character : ∀ inClass c rest, (c = '\\' → rest = []) →
      motive (isOpenAfter inClass c) rest → motive inClass (c :: rest))
    (inClass : Bool) (text : Text) : motive inClass text := by
  fun_induction symbolsFrom inClass text with
  | case1 inClass => exact nil inClass
  | case2 inClass c rest kept ih => exact escaped inClass c rest kept ih
  | case3 inClass c rest taken ih =>
      simp only [Bool.or_eq_true, Bool.not_eq_true', beq_iff_eq, not_or, Bool.not_eq_true,
        Bool.not_eq_false] at taken
      obtain ⟨⟨rfl, first⟩, nonzero⟩ := taken
      have numeral : ∀ d ∈ c :: rest.takeWhile isDigit, isDigit d = true :=
        List.forall_mem_cons.mpr ⟨first, List.all_eq_true.mp List.all_takeWhile⟩
      have whole := reference c _ _ numeral nonzero (Text.head?_dropWhile_isDigit rest) ih
      rwa [List.takeWhile_append_dropWhile] at whole
  | case4 inClass c rest single ih =>
      apply character inClass c rest _ ih
      intro backslash
      cases rest with
      | nil => rfl
      | cons d more => exact absurd rfl (single d more backslash)

theorem write_symbolsFrom (inClass : Bool) (text : Text) :
    write (symbolsFrom inClass text) = text := by
  induction inClass, text using symbol_induction with
  | nil inClass => rw [symbolsFrom_nil, write_nil]
  | escaped inClass c rest kept ih =>
      rw [symbolsFrom_escaped kept, write_escaped, ih]
  | reference c digits rest numeral nonzero ends ih =>
      rw [symbolsFrom_reference numeral nonzero ends, write_reference, ih,
        Decimal.write_value (by simp) (by simpa using nonzero) numeral, List.cons_append]
  | character inClass c rest single ih =>
      rw [symbolsFrom_character single, write_character, ih]

theorem reference_zero_not_mem (inClass : Bool) (text : Text) :
    Symbol.reference 0 ∉ symbolsFrom inClass text := by
  induction inClass, text using symbol_induction with
  | nil inClass => simp [symbolsFrom_nil]
  | escaped inClass c rest kept ih => simp [symbolsFrom_escaped kept, ih]
  | reference c digits rest numeral nonzero ends ih =>
      have positive := Decimal.value_pos (by simp) (by simpa using nonzero) numeral
      rw [symbolsFrom_reference numeral nonzero ends, List.mem_cons, not_or, Symbol.reference.injEq]
      exact ⟨Nat.ne_of_lt positive, ih⟩
  | character inClass c rest single ih => simp [symbolsFrom_character single, ih]

end Source

namespace Backreference

def placeOf (inClass : Bool) : Place := if inClass then .inClass else .outside

theorem next_placeOf (inClass : Bool) {c : Char} (other : c ≠ '\\') :
    (placeOf inClass).next c = placeOf (isOpenAfter inClass c) := by
  cases inClass with
  | true => by_cases closes : c = ']' <;> simp [placeOf, Place.next, isOpenAfter, other, closes]
  | false => by_cases opens : c = '[' <;> simp [placeOf, Place.next, isOpenAfter, other, opens]

theorem text_renumber_reference (first amount : Nat) {digits : Text} (nonempty : digits ≠ [])
    (nonzero : digits.head? ≠ some '0') (all : ∀ d ∈ digits, isDigit d = true) :
    ((Symbol.reference (Decimal.value digits)).renumber first amount).text =
      '\\' :: shift first amount digits := by
  have same :
      Decimal.write (Decimal.value digits) = digits := Decimal.write_value nonempty nonzero all
  by_cases small : Decimal.value digits < Decimal.limit
  · rw [shift, Decimal.read?_of_lt nonempty all small]
    dsimp only
    by_cases above : first ≤ Decimal.value digits
    · rw [Symbol.renumber_above ⟨above, small⟩, if_pos above, Symbol.moved]
      split
      · rename_i zero
        rw [zero]
        rfl
      · rfl
    · rw [Symbol.renumber_kept (by omega), if_neg above, Symbol.text, render, same]
  · have unreadable : Decimal.read? digits = none := by
      simp [Decimal.read?, small]
    rw [shift, unreadable, Symbol.renumber_kept (by omega), Symbol.text, render, same]

theorem renumberFrom_eq_write (first amount : Nat) (inClass : Bool) (text : Text) :
    renumberFrom first amount (placeOf inClass) [] text =
      write ((symbolsFrom inClass text).map (Symbol.renumber first amount)) := by
  induction inClass, text using symbol_induction with
  | nil inClass => rw [symbolsFrom_nil]; rfl
  | escaped inClass c rest kept ih =>
      rw [symbolsFrom_escaped kept, List.map_cons, Symbol.renumber_escaped, write_escaped, ← ih]
      cases inClass with
      | true =>
          rw [placeOf, if_pos rfl, renumberFrom_copied first amount (by decide),
            renumberFrom_copied first amount (by decide)]
          rfl
      | false =>
          have other : isDigit c = false ∨ c = '0' := by simpa using kept
          exact renumberFrom_kept first amount other rest
  | reference c digits rest numeral nonzero ends ih =>
      have head : (c :: digits).head? ≠ some '0' := by simpa using nonzero
      obtain ⟨after, _⟩ := Reader.after_number rfl nonzero numeral
      have parts := renumberFrom_join first amount after fun _ => ends
      rw [symbolsFrom_reference numeral nonzero ends, List.map_cons, write_cons, ← ih,
        text_renumber_reference first amount (by simp) head numeral,
        ← renumberFrom_number first amount nonzero numeral, placeOf, if_neg (by decide),
        renumberFrom_copied first amount (by decide), List.cons_append]
      exact congrArg ('\\' :: ·) parts
  | character inClass c rest single ih =>
      have other : placeOf inClass ≠ .escape := by cases inClass <;> decide
      rw [symbolsFrom_character single, List.map_cons, Symbol.renumber_character,
        write_character, ← ih, renumberFrom_copied first amount other]
      by_cases backslash : c = '\\'
      · rw [single backslash]
        rfl
      · rw [next_placeOf inClass backslash]

theorem renumber_eq_write (first amount : Nat) (text : Text) :
    renumber first amount text = write ((symbols text).map (Symbol.renumber first amount)) :=
  renumberFrom_eq_write first amount false text

theorem head?_write_renumber (first amount : Nat) (read : List Symbol) :
    (write (read.map (Symbol.renumber first amount))).head? = (write read).head? := by
  cases read with
  | nil => rfl
  | cons symbol read =>
      have filled : symbol.text.head?.isSome = true := by cases symbol <;> rfl
      rw [List.map_cons, write_cons, write_cons, List.head?_append, List.head?_append,
        Symbol.head?_text_renumber, Option.or_of_isSome filled, Option.or_of_isSome filled]

theorem symbolsFrom_write_renumber (first amount : Nat) (inClass : Bool) (text : Text) :
    symbolsFrom inClass (write ((symbolsFrom inClass text).map (Symbol.renumber first amount))) =
      (symbolsFrom inClass text).map (Symbol.renumber first amount) := by
  induction inClass, text using symbol_induction with
  | nil inClass => rw [symbolsFrom_nil, List.map_nil, write_nil, symbolsFrom_nil]
  | escaped inClass c rest kept ih =>
      rw [symbolsFrom_escaped kept, List.map_cons, Symbol.renumber_escaped, write_escaped,
        symbolsFrom_escaped kept, ih]
  | reference c digits rest numeral nonzero ends ih =>
      have positive := Decimal.value_pos (by simp) (by simpa using nonzero) numeral
      -- no digit joins the number, whatever it has become
      have apart : (write ((symbolsFrom false rest).map (Symbol.renumber first amount))).head?.all
          (!isDigit ·) = true := by
        rw [head?_write_renumber, write_symbolsFrom]
        exact ends
      rw [symbolsFrom_reference numeral nonzero ends, List.map_cons]
      rcases Symbol.renumber_reference_cases first amount positive with zero | ⟨index, other, same⟩
      · rw [zero, write_escaped, symbolsFrom_escaped (by decide), ih]
      · obtain ⟨d, more, written, head⟩ := Decimal.head_write other
        have all : ∀ e ∈ d :: more, isDigit e = true := fun e member =>
          Decimal.isDigit_of_mem_write (written ▸ member)
        rw [same, write_reference, written, List.cons_append,
          symbolsFrom_reference all head apart, ih, ← written, Decimal.value_write]
  | character inClass c rest single ih =>
      rw [symbolsFrom_character single, List.map_cons, Symbol.renumber_character, write_character,
        symbolsFrom_character, ih]
      intro backslash
      rw [single backslash, symbolsFrom_nil, List.map_nil, write_nil]

theorem symbols_renumber (first amount : Nat) (text : Text) :
    symbols (renumber first amount text) = (symbols text).map (Symbol.renumber first amount) := by
  rw [renumber_eq_write]
  exact symbolsFrom_write_renumber first amount false text

theorem renumber_renumber (first a second b : Nat) (text : Text) :
    renumber second b (renumber first a text) =
      write ((symbols text).map fun symbol => (symbol.renumber first a).renumber second b) := by
  rw [renumber_eq_write second b, symbols_renumber, List.map_map]
  rfl

section Laws

variable (text : Text)

theorem ne_reference_zero {symbol : Symbol} (member : symbol ∈ symbols text) :
    symbol ≠ .reference 0 := by
  rintro rfl
  exact reference_zero_not_mem false text member

theorem renumber_zero (first : Nat) : renumber first 0 text = text := by
  have same : (symbols text).map (Symbol.renumber first 0) = (symbols text).map id :=
    List.map_congr_left fun _ member => Symbol.renumber_zero first (ne_reference_zero text member)
  rw [renumber_eq_write, same, List.map_id]
  exact write_symbolsFrom false text

theorem renumber_add (first a b : Nat)
    (small : ∀ number, .reference number ∈ symbols text → number < Decimal.limit →
      number + a + b < Decimal.limit) :
    renumber first b (renumber first a text) = renumber first (a + b) text := by
  rw [renumber_renumber, renumber_eq_write]
  apply congrArg write
  apply List.map_congr_left
  intro symbol member
  apply Symbol.renumber_add first a b (ne_reference_zero text member)
  rintro number rfl
  exact small number member

theorem renumber_comm {first second : Nat} (ordered : first ≤ second) :
    renumber first 1 (renumber second 1 text) =
      renumber (second + 1) 1 (renumber first 1 text) := by
  rw [renumber_renumber, renumber_renumber]
  exact congrArg write (List.map_congr_left fun symbol _ => Symbol.renumber_comm ordered symbol)

theorem renumber_parts (first amount : Nat) {more : Text}
    (outside : Place.outside.after text = .outside)
    (apart : ¬ ((∃ front digits : Text, text = front ++ '\\' :: digits ∧ digits.IsNumeral) ∧
      more.head?.any isDigit = true)) :
    renumber first amount (text ++ more) = renumber first amount text ++
      renumber first amount more := by
  have place : (Reader.start.after text).place = .outside := by rw [Reader.place_start, outside]
  have after : Reader.start.after text = ⟨.outside, (Reader.start.after text).digits⟩ := by
    rw [← place]
  apply renumberFrom_join first amount after
  intro filled
  have proper := Reader.Proper.start.after text
  obtain ⟨front, parts, _⟩ := Reader.held_suffix filled
  have numeral : Text.IsNumeral (Reader.start.after text).digits.reverse :=
    ⟨by simpa using filled, fun d member => proper.digits d (List.mem_reverse.mp member)⟩
  cases head : more.head? with
  | none => rfl
  | some d =>
      rw [head] at apart
      simpa using fun digit => apart ⟨⟨front, _, parts, numeral⟩, digit⟩

end Laws

/-- Renumbering shifts the numbers of references and keeps all other symbols.  By nothing it
is the identity, twice it adds up, and two groups may come in in either order.  Two parts are
renumbered one by one unless the second goes on with an escape, a class or a number of the first. -/
theorem renumber_laws (text : Text) :
    (write (symbols text) = text ∧ ∀ first amount,
      renumber first amount text = write ((symbols text).map (Symbol.renumber first amount))) ∧
    (∀ first, renumber first 0 text = text) ∧
    (∀ first a b,
      (∀ number, .reference number ∈ symbols text → number < Decimal.limit →
        number + a + b < Decimal.limit) →
      renumber first b (renumber first a text) = renumber first (a + b) text) ∧
    (∀ first second, first ≤ second →
      renumber first 1 (renumber second 1 text) = renumber (second + 1) 1 (renumber first 1 text)) ∧
    (∀ more first amount, Place.outside.after text = .outside →
      ¬ ((∃ front digits : Text, text = front ++ '\\' :: digits ∧ digits.IsNumeral) ∧
        more.head?.any isDigit = true) →
      renumber first amount (text ++ more) = renumber first amount text ++
      renumber first amount more) :=
  ⟨⟨write_symbolsFrom false text, fun first amount => renumber_eq_write first amount text⟩,
    renumber_zero text, renumber_add text, fun _ _ => renumber_comm text,
    fun _ first amount => renumber_parts text first amount⟩

theorem renumber_laws_mixed :
    renumber 1 3 (renumber 1 88 "\\0[\\2]\\\\2\\12".toList) = "\\0[\\2]\\\\2\\103".toList ∧
      renumber 4 1 (renumber 13 1 "\\0[\\2]\\\\2\\12".toList) = "\\0[\\2]\\\\2\\13".toList ∧
        renumber 4 1 ("\\0[\\2]\\\\2\\12".toList ++ "x\\3\\4".toList) =
          "\\0[\\2]\\\\2\\13".toList ++ "x\\3\\5".toList := by
  obtain ⟨_, _, add, comm, join⟩ := renumber_laws "\\0[\\2]\\\\2\\12".toList
  have read : symbols "\\0[\\2]\\\\2\\12".toList =
      [.escaped '0', .character '[', .escaped '2', .character ']', .escaped '\\', .character '2',
        .reference 12] := by
    cbv
  refine ⟨(add 1 88 3 ?_).trans (by decide), (comm 4 13 (by decide)).trans (by decide),
    (join "x\\3\\4".toList 4 1 (by decide) ?_).trans (by decide)⟩
  · intro number member _
    rw [read] at member
    obtain rfl : number = 12 := by simpa using member
    decide
  · rintro ⟨_, digit⟩
    exact absurd digit (by decide)

end Backreference

end PatternDialect
