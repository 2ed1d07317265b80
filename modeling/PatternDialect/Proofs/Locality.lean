import PatternDialect.Proofs.Steps

/-! How far the readers of constructs look.

What a reader finds is a beginning of its text, so it finds the same when the text
is cut off somewhere behind, and when more text follows. -/

namespace PatternDialect

open Character

namespace Text

/-- A reader that finds a good word exactly where the text begins as the word is
written. -/
def Finds (reader : Text → Option Text) (good : Text → Prop) (written : Text → Text) : Prop :=
  ∀ text word, reader text = some word ↔ good word ∧ written word <+: text

section Finds

variable {reader : Text → Option Text} {good : Text → Prop} {written : Text → Text}
  (finds : Finds reader good written) {text word : Text}

include finds

theorem Finds.append (found : reader text = some word) (tail : Text) :
    reader (text ++ tail) = some word := by
  obtain ⟨fine, begins⟩ := (finds _ _).mp found
  exact (finds _ _).mpr ⟨fine, begins.trans (List.prefix_append text tail)⟩

theorem Finds.cut {tail : Text} (found : reader (text ++ tail) = some word)
    (short : (written word).length ≤ text.length) : reader text = some word := by
  obtain ⟨fine, begins⟩ := (finds _ _).mp found
  exact (finds _ _).mpr
    ⟨fine, List.prefix_of_prefix_length_le begins (List.prefix_append text tail) short⟩

theorem Finds.neutral {d : Char} (foreign : ∀ word, good word → d ∉ written word) (more : Text) :
    reader (text ++ d :: more) = reader text := by
  cases found : reader (text ++ d :: more) with
  | none =>
      cases inner : reader text with
      | none => rfl
      | some word =>
          rw [finds.append inner] at found
          contradiction
  | some word =>
      obtain ⟨fine, begins⟩ := (finds _ _).mp found
      obtain ⟨left, parts⟩ := begins
      symm
      apply finds.cut found
      by_contra long
      have reached : (written word ++ left)[text.length]? = some d := by simp [parts]
      rw [List.getElem?_append_left (Nat.lt_of_not_le long)] at reached
      exact foreign word fine (List.mem_of_getElem? reached)

end Finds

theorem takeWhile_cut {p : Char → Bool} {d : Char} (stops : p d = false) (text more : Text) :
    (text ++ d :: more).takeWhile p = text.takeWhile p := by
  induction text with
  | nil => simp [stops]
  | cons c rest ih =>
      rw [List.cons_append, List.takeWhile_cons, List.takeWhile_cons, ih]

theorem takeWhile_before {p : Char → Bool} {word : Text} (all : ∀ c ∈ word, p c = true) {d : Char}
    (stops : p d = false) (more : Text) : (word ++ d :: more).takeWhile p = word := by
  rw [List.takeWhile_append_of_pos all, List.takeWhile_cons_of_neg (by simp [stops]),
    List.append_nil]

theorem dropWhile_before {p : Char → Bool} {word : Text} (all : ∀ c ∈ word, p c = true) {d : Char}
    (stops : p d = false) (more : Text) : (word ++ d :: more).dropWhile p = d :: more := by
  rw [List.dropWhile_append_of_pos all, List.dropWhile_cons_of_neg (by simp [stops])]

theorem takeWhile_short {p : Char → Bool} {text tail : Text}
    (short : ((text ++ tail).takeWhile p).length < text.length) :
    (text ++ tail).takeWhile p = text.takeWhile p := by
  induction text with
  | nil => simp at short
  | cons c rest ih =>
      rw [List.cons_append, List.takeWhile_cons] at short ⊢
      rw [List.takeWhile_cons]
      cases holds : p c with
      | false => rfl
      | true =>
          rw [holds, if_pos rfl, List.length_cons, List.length_cons] at short
          rw [if_pos rfl, if_pos rfl, ih (Nat.lt_of_succ_lt_succ short)]

theorem finds_name :
    Finds name? (fun word => word ≠ [] ∧ ∀ c ∈ word, isWord c = true) (· ++ ['>']) := by
  intro text name
  constructor
  · intro found
    obtain ⟨more, parts⟩ := Conversion.State.name?_spec found
    unfold name? at found
    dsimp only at found
    split at found
    · contradiction
    · rename_i filled
      split at found
      · cases found
        exact ⟨⟨by simpa using filled, List.all_eq_true.mp List.all_takeWhile⟩,
          more, by simp [← parts]⟩
      · contradiction
  · rintro ⟨⟨nonempty, word⟩, more, rfl⟩
    have taken := takeWhile_before word (by decide : isWord '>' = false) more
    have dropped := dropWhile_before word (by decide : isWord '>' = false) more
    simp [name?, taken, dropped, nonempty]

theorem digits_cut {d : Char} (stops : isDigit d = false) (text more : Text) :
    digits (text ++ d :: more) = digits text := takeWhile_cut stops text more

theorem digits_before {word back : Text} (all : ∀ d ∈ word, isDigit d = true)
    (ends : back.head?.all (!isDigit ·) = true) : digits (word ++ back) = word := by
  have stops : back.takeWhile isDigit = [] := by
    cases back with
    | nil => rfl
    | cons d more =>
        have other : isDigit d = false := by simpa using ends
        exact List.takeWhile_cons_of_neg (by simp [other])
  rw [digits, List.takeWhile_append_of_pos all, stops, List.append_nil]

theorem head?_dropWhile_isDigit (text : Text) :
    (text.dropWhile isDigit).head?.all (!isDigit ·) = true := by
  have stops := List.head?_dropWhile_not isDigit text
  cases left : (text.dropWhile isDigit).head? with
  | none => rfl
  | some d =>
      rw [left] at stops
      simpa using stops

theorem firstSignificant?_cut {d : Char} (visible : isBlank d = false) (text more : Text) :
    firstSignificant? (text ++ d :: more) = (firstSignificant? text).or (some d) := by
  simp [firstSignificant?, List.find?_append, visible]

end Text

namespace Repeat

def IsCount (braces : Text) : Prop :=
  ∃ low, low ≠ [] ∧ (∀ c ∈ low, isDigit c = true) ∧
    (braces = '{' :: low ++ ['}'] ∨
      ∃ high, (∀ c ∈ high, isDigit c = true) ∧ braces = '{' :: low ++ ',' :: high ++ ['}'])

theorem isDigit_of_mem_digits {text : Text} {c : Char} (member : c ∈ text.takeWhile isDigit) :
    isDigit c = true :=
  List.all_eq_true.mp List.all_takeWhile c member

theorem inner_of_isCount {braces : Text} (count : IsCount braces) :
    ∃ inner, braces = '{' :: inner ∧ ∀ c ∈ inner, isDigit c = true ∨ c = ',' ∨ c = '}' := by
  obtain ⟨low, _, digits, rfl | ⟨high, upper, rfl⟩⟩ := count
  · refine ⟨low ++ ['}'], rfl, fun c member => ?_⟩
    rcases List.mem_append.mp member with member | member
    · exact Or.inl (digits c member)
    · exact Or.inr (Or.inr (List.mem_singleton.mp member))
  · refine ⟨low ++ ',' :: high ++ ['}'], rfl, fun c member => ?_⟩
    simp only [List.append_assoc, List.cons_append, List.mem_append, List.mem_cons,
      List.not_mem_nil, or_false] at member
    rcases member with member | rfl | member | rfl
    · exact Or.inl (digits c member)
    · exact Or.inr (Or.inl rfl)
    · exact Or.inl (upper c member)
    · exact Or.inr (Or.inr rfl)

theorem isCount_of_braces? {text braces : Text} (found : braces? text = some braces) :
    IsCount braces := by
  unfold braces? at found
  dsimp only at found
  split at found
  · contradiction
  rename_i filled
  refine ⟨text.takeWhile isDigit, by simpa using filled, fun c => isDigit_of_mem_digits, ?_⟩
  split at found
  · cases found
    exact Or.inl rfl
  · split at found
    · cases found
      exact Or.inr ⟨_, fun c => isDigit_of_mem_digits, rfl⟩
    · contradiction
  · contradiction

theorem finds_braces : Text.Finds braces? IsCount List.tail := by
  intro text braces
  constructor
  · intro found
    have count := isCount_of_braces? found
    obtain ⟨more, parts⟩ := (braces?_spec found).1
    obtain ⟨inner, rfl, _⟩ := inner_of_isCount count
    exact ⟨count, more, by simpa using parts.symm⟩
  · rintro ⟨⟨low, nonempty, digits, rfl | ⟨high, upper, rfl⟩⟩, more, rfl⟩
    · have taken := Text.takeWhile_before digits (by decide : isDigit '}' = false) more
      have dropped := Text.dropWhile_before digits (by decide : isDigit '}' = false) more
      simp [braces?, taken, dropped, nonempty]
    · have taken :=
        Text.takeWhile_before digits (by decide : isDigit ',' = false) (high ++ '}' :: more)
      have dropped :=
        Text.dropWhile_before digits (by decide : isDigit ',' = false) (high ++ '}' :: more)
      have takenHigh := Text.takeWhile_before upper (by decide : isDigit '}' = false) more
      have droppedHigh := Text.dropWhile_before upper (by decide : isDigit '}' = false) more
      simp [braces?, taken, dropped, takenHigh, droppedHigh, nonempty]

end Repeat

namespace Conversion.State

theorem finds_bracedHex :
    Text.Finds bracedHex? (fun digits => ∀ c ∈ digits, isHexDigit c = true)
      (fun digits => '{' :: digits ++ ['}']) := by
  intro text digits
  constructor
  · intro found
    obtain ⟨⟨after, parts⟩, hex⟩ := bracedHex?_spec found
    exact ⟨hex, after, by simp [parts]⟩
  · rintro ⟨hex, more, rfl⟩
    have open_ : ∀ c ∈ digits, (c != '}') = true := by
      intro c member
      have other : c ≠ '}' := by
        rintro rfl
        exact absurd (hex '}' member) (by decide)
      simpa using other
    have taken := Text.takeWhile_before open_ (by decide : ('}' != '}') = false) more
    simpa [bracedHex?, taken] using hex

end Conversion.State

theorem Quantifier.withMarks_eq (amount : Repeat) (text : Text) :
    withMarks amount text = ⟨amount, text.head? == some '?', text.head? == some '+'⟩ := by
  unfold withMarks
  split <;> simp_all [List.head?_eq_some_iff]

theorem Quantifier.withMarks_cut {amount : Repeat} {text tail : Text}
    (short : (withMarks amount (text ++ tail)).length ≤ amount.text.length + text.length) :
    withMarks amount text = withMarks amount (text ++ tail) := by
  simp only [withMarks_eq] at short ⊢
  cases text with
  | cons c rest => rfl
  | nil =>
      simp only [Quantifier.length, List.nil_append, List.length_nil] at short
      have unmarked : ∀ mark : Bool, mark.toNat ≤ 0 → mark = false := by decide
      rw [List.nil_append, unmarked (tail.head? == some '?') (by omega),
        unmarked (tail.head? == some '+') (by omega)]
      rfl

def Construct.isInner (c : Char) : Bool :=
  isWord c || Repeat.isAmount c || ['<', '>', '=', '!', ':'].contains c

namespace Opener

theorem read_other {c : Char} (other : c ≠ '?') (rest : Text) : read (c :: rest) = .capture := by
  simp [read, other]

theorem read_mark (rest : Text) : read ('?' :: rest) ≠ .capture := by
  unfold read
  split <;> simp_all

theorem read_pair {d : Char} (other : d ≠ '<') (rest : Text) :
    read ('?' :: d :: rest) = read ['?', d] := by
  by_cases plain : d = ':'
  · simp [read, plain]
  by_cases ahead : d = '='
  · simp [read, ahead]
  by_cases notAhead : d = '!'
  · simp [read, notAhead]
  by_cases atomic : d = '>'
  · simp [read, atomic]
  simp [read, other, plain, ahead, notAhead, atomic]

theorem read_angle (e : Char) (rest : Text) :
    read ('?' :: '<' :: e :: rest) = read ['?', '<', e] := by
  by_cases behind : e = '='
  · simp [read, behind]
  by_cases notBehind : e = '!'
  · simp [read, notBehind]
  simp [read, behind, notBehind]

theorem read_cut {text tail : Text} (short : (read (text ++ tail)).length ≤ text.length + 1) :
    read text = read (text ++ tail) := by
  cases text with
  | nil =>
      revert short
      rw [List.nil_append]
      cases read tail <;> simp [length, read]
  | cons c rest =>
      by_cases marked : c = '?'
      · subst marked
        cases rest with
        | nil =>
            have mark := read_mark tail
            revert short mark
            rw [List.singleton_append]
            cases read ('?' :: tail) <;> simp [length, read]
        | cons d rest =>
            by_cases angle : d = '<'
            · subst angle
              cases rest with
              | nil =>
                  cases tail with
                  | nil => rfl
                  | cons e tail =>
                      simp only [List.cons_append, List.nil_append, read_angle] at short ⊢
                      by_cases behind : e = '='
                      · simp [read, behind, length] at short
                      by_cases notBehind : e = '!'
                      · simp [read, notBehind, length] at short
                      simp [read, behind, notBehind]
              | cons e rest => simp only [List.cons_append, read_angle]
            · simp only [List.cons_append, read_pair angle]
      · simp only [List.cons_append, read_other marked]

theorem isInner_of_mem_tail {form : Opener} {c : Char} (member : c ∈ form.text.tail) :
    Construct.isInner c = true := by
  have inner : form.text.tail.all Construct.isInner = true := by
    cases form with
    | lookahead negative => cases negative <;> decide
    | lookbehind negative => cases negative <;> decide
    | _ => decide
  exact List.all_eq_true.mp inner c member

end Opener

namespace Construct

theorem afterDollar?_cons (c : Char) (rest : Text) :
    afterDollar? (c :: rest) = afterDollar? [c] := by
  by_cases angle : c = '<' <;> simp [afterDollar?, angle]

theorem afterBackslash?_cons {c : Char} (other : c ≠ 'k') (rest : Text) :
    afterBackslash? (c :: rest) = afterBackslash? [c] := by
  simp [afterBackslash?, other]

theorem afterBackslash?_name (d : Char) (rest : Text) :
    afterBackslash? ('k' :: d :: rest) = afterBackslash? ['k', d] := by
  by_cases angle : d = '<' <;> simp [afterBackslash?, angle]

def Ends (text : Text) (found : Option Construct) : Prop :=
  ∀ construct, found = some construct → construct.length ≤ text.length

theorem afterDollar?_cut {text tail : Text}
    (ends : Ends ('$' :: text) (afterDollar? (text ++ tail))) :
    afterDollar? text = afterDollar? (text ++ tail) := by
  cases text with
  | cons c rest => rw [List.cons_append, afterDollar?_cons, afterDollar?_cons c (rest ++ tail)]
  | nil =>
      cases found : afterDollar? ([] ++ tail) with
      | none => rfl
      | some construct =>
          have short := ends construct found
          unfold afterDollar? at found
          split at found
          · cases found
            simp [length, NameReference.opener] at short
          · split at found
            · cases found
              simp [length] at short
            · contradiction
          · contradiction

theorem afterBackslash?_cut {text tail : Text}
    (ends : Ends ('\\' :: text) (afterBackslash? (text ++ tail))) :
    afterBackslash? text = afterBackslash? (text ++ tail) := by
  cases text with
  | nil =>
      cases found : afterBackslash? ([] ++ tail) with
      | none => rfl
      | some construct =>
          have short := ends construct found
          unfold afterBackslash? at found
          split at found
          · cases found
            simp [length, NameReference.opener] at short
          · split at found
            · cases found
              simp [length] at short
            split at found
            · cases found
              simp [length] at short
            · contradiction
          · contradiction
  | cons c rest =>
      by_cases name : c = 'k'
      · subst name
        cases rest with
        | nil =>
            cases tail with
            | nil => rfl
            | cons d tail =>
                by_cases angle : d = '<'
                · subst angle
                  have short := ends _ rfl
                  simp [length, NameReference.opener] at short
                · simp [afterBackslash?, angle]
        | cons d rest =>
            rw [List.cons_append, List.cons_append, afterBackslash?_name,
              afterBackslash?_name d (rest ++ tail)]
      · rw [List.cons_append, afterBackslash?_cons name, afterBackslash?_cons name (rest ++ tail)]

theorem afterBrace?_cut {text tail : Text}
    (ends : Ends ('{' :: text) (afterBrace? (text ++ tail))) :
    afterBrace? text = afterBrace? (text ++ tail) := by
  unfold afterBrace? at ends ⊢
  cases found : Repeat.braces? (text ++ tail) with
  | none =>
      cases inner : Repeat.braces? text with
      | none => rfl
      | some braces =>
          rw [Repeat.finds_braces.append inner] at found
          contradiction
  | some braces =>
      obtain ⟨inside, rfl, _⟩ := Repeat.inner_of_isCount (Repeat.isCount_of_braces? found)
      rw [found] at ends
      have short := ends _ rfl
      simp only [length, List.length_cons, Nat.add_sub_cancel] at short
      have whole : inside.length ≤ text.length := by
        simp only [Quantifier.length, (Quantifier.withMarks_spec _ _).1, Repeat.text,
          List.length_cons] at short
        omega
      rw [Repeat.finds_braces.cut found whole, Option.map_some, Option.map_some]
      simp only [List.length_cons, Nat.add_sub_cancel]
      rw [List.drop_append_of_le_length whole] at short ⊢
      rw [Quantifier.withMarks_cut]
      apply Nat.le_trans short
      simp only [Repeat.text, List.length_cons, List.length_drop]
      omega

theorem plain?_cut {before text tail : Text} (nonempty : text ≠ [])
    (ends : Ends text (plain? before (text ++ tail))) :
    plain? before text = plain? before (text ++ tail) := by
  cases text with
  | nil => exact absurd rfl nonempty
  | cons c rest =>
      rw [List.cons_append] at ends ⊢
      by_cases blank : isBlank c = true
      · rw [plain?_blank _ _ blank, plain?_blank _ _ blank]
      by_cases head : c ∈ heads
      · simp only [heads, List.mem_cons, List.not_mem_nil, or_false] at head
        have marks : ∀ amount : Repeat, amount.text.length = 1 →
            Ends (c :: rest) (some (.quantifier (.withMarks amount (rest ++ tail)))) →
              some (quantifier (.withMarks amount rest)) =
                some (quantifier (.withMarks amount (rest ++ tail))) := by
          intro amount one ends
          rw [Quantifier.withMarks_cut]
          rw [one, Nat.add_comm]
          exact ends _ rfl
        rcases head with rfl | rfl | rfl | rfl | rfl | rfl | rfl | rfl | rfl | rfl | rfl | rfl
        · rfl
        · rfl
        · rfl
        · exact marks .star rfl ends
        · exact marks .plus rfl ends
        · exact marks .optional rfl ends
        · exact afterBrace?_cut ends
        · exact afterDollar?_cut ends
        · rw [plain?_openGroup, plain?_openGroup, Opener.read_cut]
          exact ends _ rfl
        · rfl
        · rfl
        · rw [plain?_backslash] at ends ⊢
          rw [plain?_backslash]
          split
          · rfl
          · rename_i free
            rw [if_neg free] at ends
            exact afterBackslash?_cut ends
      · have visible : isBlank c = false := by simpa using blank
        rw [plain?_other _ _ visible head, plain?_other _ _ visible head]

theorem isInner_of_mem_tail {before text : Text} {construct : Construct}
    (stands : Stands none before text construct) {c : Char}
    (member : c ∈ (text.take construct.length).tail) : isInner c = true := by
  cases construct with
  | blank _ =>
      obtain ⟨_, more, rfl⟩ := stands
      simp [length] at member
  | quantifier q =>
      obtain ⟨legible, more, rfl⟩ := stands
      rw [length, ← q.length_text, List.take_left] at member
      simp [isInner, Quantifier.isAmount_of_mem_text legible (List.mem_of_mem_tail member)]
  | numberReference =>
      obtain ⟨d, more, rfl, digit⟩ := stands
      simp only [length, List.take_succ_cons, List.take_zero, List.tail_cons,
        List.mem_singleton] at member
      simp [isInner, isWord, member, digit]
  | nameReference form =>
      obtain ⟨_, more, rfl⟩ := stands
      rw [length, List.take_left] at member
      revert member
      cases form <;> simp only [NameReference.opener, List.tail_cons, List.mem_cons,
        List.not_mem_nil, or_false] <;> rintro (rfl | rfl) <;> decide
  | openGroup form =>
      obtain ⟨more, rfl, rfl⟩ := stands
      rw [length, Opener.take_length] at member
      exact Opener.isInner_of_mem_tail member
  | escapedDigit d =>
      obtain ⟨_, digit, more, rfl⟩ := stands
      simp only [length, List.take_succ_cons, List.take_zero, List.tail_cons,
        List.mem_singleton] at member
      simp [isInner, isWord, member, digit]
  | escapedLetter l =>
      obtain ⟨_, letter, more, rfl⟩ := stands
      simp only [length, List.take_succ_cons, List.take_zero, List.tail_cons,
        List.mem_singleton] at member
      simp [isInner, isWord, member, letter]
  | flagsDelimiter _ =>
      obtain ⟨absent, _⟩ := stands
      contradiction
  | closeClass =>
      obtain ⟨_, more, rfl⟩ := stands
      simp [length] at member
  | _ =>
      obtain ⟨more, rfl⟩ := stands
      simp [length] at member

theorem ends_of_outer {before text more : Text} {d : Char} (nonempty : text ≠ [])
    (outer : isInner d = false) : Ends text (plain? before (text ++ d :: more)) := by
  intro construct found
  by_contra long
  have member : d ∈ ((text ++ d :: more).take construct.length).tail := by
    cases text with
    | nil => exact absurd rfl nonempty
    | cons c rest =>
        rw [List.length_cons] at long
        obtain ⟨excess, length⟩ : ∃ excess, construct.length = rest.length + (excess + 1) + 1 :=
          ⟨construct.length - (rest.length + 2), by omega⟩
        rw [length, List.cons_append, List.take_succ_cons, List.tail_cons,
          List.take_length_add_append, List.take_succ_cons]
        simp
  rw [isInner_of_mem_tail (stands_of_plain? found (Or.inr rfl)) member] at outer
  contradiction

theorem ends_of_slash {before text more : Text} :
    Ends text (plain? before (text ++ '/' :: more)) := by
  cases text with
  | nil =>
      rw [List.nil_append, plain?_other _ _ (by decide) (by decide)]
      intro construct found
      contradiction
  | cons c rest => exact ends_of_outer (by simp) (by decide)

end Construct

end PatternDialect
