import Mathlib.Data.List.Basic
import PatternDialect.Proofs.Snapshots

/-! Refining in steps and by other means.

Main statements: a flag string may be read in two parts unless a sign is cut from its letter,
the last mention of a letter decides, and values given by letters, by names or one at a time
lead to the same snapshot. -/

namespace PatternDialect

open Character

/-! ### Letters and names -/

namespace Flag

theorem letter_of_ofLetter? {c : Char} {flag : Flag} (found : ofLetter? c = some flag) :
    flag.letter = c := by
  simpa using List.find?_some found

theorem letter_inj {first second : Flag} : first.letter = second.letter ↔ first = second := by
  constructor
  · intro same
    apply Option.some.inj
    rw [← ofLetter?_letter first, same, ofLetter?_letter]
  · rintro rfl
    rfl

theorem ofName?_name (flag : Flag) : ofName? flag.name.toList = some flag := by
  cases flag <;> rfl

theorem ofName?_eq_none_iff (name : Text) :
    ofName? name = none ↔ ∀ flag : Flag, flag.name.toList ≠ name := by
  simp [ofName?, List.find?_eq_none, mem_all]

/-- A flag string that gives flags values in order. -/
def spelled : List (Flag × Bool) → Text
  | [] => []
  | (flag, true) :: rest => flag.letter :: spelled rest
  | (flag, false) :: rest => '-' :: flag.letter :: spelled rest

/-- A record that gives flags values in order. -/
def named (values : List (Flag × Bool)) : List (Text × Bool) :=
  values.map fun (flag, value) => (flag.name.toList, value)

end Flag

namespace Options

variable {options next : Options}

def isOn (options : Options) (letter : Char) : Bool :=
  match Flag.ofLetter? letter with
  | some flag => options.get flag
  | none => options.others.contains letter

theorem isOn_letter (options : Options) (flag : Flag) :
    options.isOn flag.letter = options.get flag := by
  rw [isOn, Flag.ofLetter?_letter]

theorem isOn_foreign (options : Options) {letter : Char} (foreign : Flag.ofLetter? letter = none) :
    options.isOn letter = options.others.contains letter := by
  rw [isOn, foreign]

theorem mark_letter (options : Options) (flag : Flag) (value : Bool) :
    options.mark flag.letter value = options.set flag value := by
  rw [mark, Flag.ofLetter?_letter]

theorem get_mark_foreign (options : Options) {letter : Char}
    (foreign : Flag.ofLetter? letter = none) (value : Bool) (flag : Flag) :
    (options.mark letter value).get flag = options.get flag := by
  simp only [mark, foreign]
  split
  · split
    · rfl
    · exact get_others options _ flag
  · exact get_others options _ flag

theorem contains_mark_foreign (options : Options) {letter : Char}
    (foreign : Flag.ofLetter? letter = none) (value : Bool) (other : Char) :
    (options.mark letter value).others.contains other =
      if letter = other then value else options.others.contains other := by
  cases value <;> grind [mark]

theorem isOn_mark (options : Options) (letter : Char) (value : Bool) (other : Char) :
    (options.mark letter value).isOn other =
      if letter = other then value else options.isOn other := by
  cases found : Flag.ofLetter? letter with
  | some flag =>
      obtain rfl := Flag.letter_of_ofLetter? found
      rw [mark_letter]
      cases asked : Flag.ofLetter? other with
      | some second =>
          obtain rfl := Flag.letter_of_ofLetter? asked
          simp only [isOn_letter, get_set, Flag.letter_inj]
      | none =>
          have apart : flag.letter ≠ other := (Flag.ofLetter?_eq_none_iff other).mp asked flag
          simp only [isOn_foreign _ asked, others_set, if_neg apart]
  | none =>
      cases asked : Flag.ofLetter? other with
      | some second =>
          obtain rfl := Flag.letter_of_ofLetter? asked
          have apart : letter ≠ second.letter :=
            Ne.symm ((Flag.ofLetter?_eq_none_iff letter).mp found second)
          simp only [isOn_letter, get_mark_foreign options found, if_neg apart]
      | none => simp only [isOn_foreign _ asked, contains_mark_foreign options found]

/-! ### Flag strings in parts -/

theorem absorb_sign {letter : Char} (known : isLetter letter = true) (rest : Text) :
    options.absorb ('-' :: letter :: rest) = (options.mark letter false).absorb rest := by
  rw [absorb, if_pos known]

theorem absorb_other {c : Char} (unknown : isLetter c = false) {rest : Text}
    (alone : c = '-' → rest.head?.any isLetter = false) :
    options.absorb (c :: rest) = ((options.absorb rest).1, c :: (options.absorb rest).2) := by
  by_cases sign : c = '-'
  · subst sign
    cases rest with
    | nil => rfl
    | cons d rest =>
        have plain : isLetter d = false := alone rfl
        simp only [absorb, plain, Bool.false_eq_true, ↓reduceIte]
  · rw [absorb]
    · simp only [unknown, Bool.false_eq_true, ↓reduceIte]
    · exact fun _ _ same => absurd same sign

/-- A flag string is read in two parts, unless a sign is cut from its letter. -/
theorem absorb_append {first second : Text}
    (whole : first.getLast? = some '-' → second.head?.any isLetter = false) :
    options.absorb (first ++ second) =
      (((options.absorb first).1.absorb second).1,
        (options.absorb first).2 ++ ((options.absorb first).1.absorb second).2) := by
  -- The reader looks one character ahead, and only behind a sign: the second part is seen
  -- early where a sign ends the first.
  fun_induction Options.absorb options first with
  | case1 options => rfl
  | case2 options letter rest known ih =>
      rw [List.cons_append, List.cons_append, absorb_sign known]
      exact ih fun last => whole (List.mem_getLast?_cons (List.mem_getLast?_cons last))
  | case3 options letter rest unknown refined left found ih =>
      rw [found] at ih
      rw [List.cons_append, absorb_other (by decide) (by simpa using unknown),
        ih fun last => whole (List.mem_getLast?_cons last)]
      rfl
  | case4 options c rest other known ih =>
      rw [List.cons_append, absorb_letter known]
      exact ih fun last => whole (List.mem_getLast?_cons last)
  | case5 options c rest other unknown refined left found ih =>
      rw [found] at ih
      have alone : c = '-' → (rest ++ second).head?.any isLetter = false := by
        intro sign
        cases rest with
        | nil => exact whole (by rw [sign]; rfl)
        | cons d rest => exact absurd rfl (other d rest sign)
      rw [List.cons_append, absorb_other (by simpa using unknown) alone,
        ih fun last => whole (List.mem_getLast?_cons last)]
      rfl

theorem refine_append {first second : Text} (ended : first.getLast? ≠ some '-') :
    options.refine (first ++ second) = .ok next ↔
      ∃ middle, options.refine first = .ok middle ∧ middle.refine second = .ok next := by
  simp only [refine_eq_ok_iff, absorb_append fun last => absurd last ended, List.all_append,
    Bool.and_eq_true]
  constructor
  · rintro ⟨⟨before, after⟩, same⟩
    exact ⟨_, ⟨before, rfl⟩, after, same⟩
  · rintro ⟨_, ⟨before, rfl⟩, after, same⟩
    exact ⟨⟨before, after⟩, same⟩

/-! ### The last mention -/

theorem isOn_absorb_of_not_mem {letter : Char} {flags : Text} (absent : letter ∉ flags) :
    (options.absorb flags).1.isOn letter = options.isOn letter := by
  fun_induction Options.absorb options flags with
  | case1 options => rfl
  | case2 options other rest known ih =>
      rw [List.mem_cons, List.mem_cons, not_or, not_or] at absent
      rw [ih absent.2.2, isOn_mark, if_neg (Ne.symm absent.2.1)]
  | case3 options other rest unknown refined left found ih =>
      rw [found] at ih
      exact ih fun member => absent (List.mem_cons_of_mem _ member)
  | case4 options c rest sign known ih =>
      rw [List.mem_cons, not_or] at absent
      rw [ih absent.2, isOn_mark, if_neg (Ne.symm absent.1)]
  | case5 options c rest sign unknown refined left found ih =>
      rw [found] at ih
      exact ih fun member => absent (List.mem_cons_of_mem _ member)

theorem isOn_absorb_plain {letter : Char} {before after : Text} (known : isLetter letter = true)
    (plain : before.getLast? ≠ some '-') (last : letter ∉ after) :
    (options.absorb (before ++ letter :: after)).1.isOn letter = true := by
  rw [absorb_append fun sign => absurd sign plain, absorb_letter known,
    isOn_absorb_of_not_mem last, isOn_mark, if_pos rfl]

theorem isOn_absorb_signed {letter : Char} {before after : Text} (known : isLetter letter = true)
    (last : letter ∉ after) :
    (options.absorb (before ++ '-' :: letter :: after)).1.isOn letter = false := by
  -- What stands before the sign may be anything, since no sign goes with another sign.
  rw [absorb_append fun _ => rfl, absorb_sign known, isOn_absorb_of_not_mem last, isOn_mark,
    if_pos rfl]

theorem eq_append_last {letter : Char} {flags : Text} (member : letter ∈ flags) :
    ∃ before after, flags = before ++ letter :: after ∧ letter ∉ after := by
  obtain ⟨after, before, same, absent⟩ :=
    List.eq_append_cons_of_mem (List.mem_reverse.mpr member)
  refine ⟨before.reverse, after.reverse, ?_, by simpa using absent⟩
  simpa using congrArg List.reverse same

theorem isOn_absorb_iff {letter : Char} (known : isLetter letter = true) (flags : Text) :
    (options.absorb flags).1.isOn letter = true ↔
      (∃ before after, flags = before ++ letter :: after ∧ letter ∉ after ∧
        before.getLast? ≠ some '-') ∨
      (letter ∉ flags ∧ options.isOn letter = true) := by
  constructor
  · intro on
    by_cases member : letter ∈ flags
    · obtain ⟨before, after, rfl, last⟩ := eq_append_last member
      refine Or.inl ⟨before, after, rfl, last, ?_⟩
      intro sign
      obtain ⟨front, rfl⟩ := List.getLast?_eq_some_iff.mp sign
      rw [List.append_assoc, List.singleton_append, isOn_absorb_signed known last] at on
      contradiction
    · rw [isOn_absorb_of_not_mem member] at on
      exact Or.inr ⟨member, on⟩
  · rintro (⟨before, after, rfl, last, plain⟩ | ⟨absent, on⟩)
    · exact isOn_absorb_plain known plain last
    · rwa [isOn_absorb_of_not_mem absent]

/-- Refining by a text is refining by its parts, if the first does not end in a sign; and of
every letter the last mention decides, be it a flag or not. -/
theorem last_mention_refine (options : Options) :
    (∀ (first second : Text) (next : Options), first.getLast? ≠ some '-' →
      (options.refine (first ++ second) = .ok next ↔
        ∃ middle, options.refine first = .ok middle ∧ middle.refine second = .ok next)) ∧
    (∀ (flags : Text) (next : Options) (letter : Char), options.refine flags = .ok next →
      isLetter letter = true →
      (next.isOn letter = true ↔
        (∃ before after, flags = before ++ letter :: after ∧ letter ∉ after ∧
          before.getLast? ≠ some '-') ∨
        (letter ∉ flags ∧ options.isOn letter = true))) := by
  constructor
  · intro first second next ended
    exact refine_append ended
  · intro flags next letter ok known
    rw [(refine_eq_ok_iff.mp ok).2]
    exact isOn_absorb_iff known flags

theorem last_mention_refine_regained :
    "gv-m".toList.getLast? ≠ some '-' ∧
    ({ multiline := true } : Options).refine ("gv-m".toList ++ "-vm v".toList) =
      .ok { global := true, multiline := true, others := "v".toList } ∧
    isLetter 'm' = true ∧
    ({ global := true, multiline := true, others := "v".toList } : Options).isOn 'm' = true := by
  obtain ⟨parts, mentions⟩ := last_mention_refine { multiline := true }
  have ended : "gv-m".toList.getLast? ≠ some '-' := by decide
  have ok := (parts "gv-m".toList "-vm v".toList
    { global := true, multiline := true, others := "v".toList } ended).mpr
      ⟨{ global := true, others := "v".toList }, rfl, rfl⟩
  refine ⟨ended, ok, rfl, (mentions _ _ 'm' ok rfl).mpr (Or.inl ?_)⟩
  exact ⟨"gv-m-v".toList, " v".toList, rfl, by decide, by decide⟩

/-! ### Letters, names and single values -/

def setAll (options : Options) (values : List (Flag × Bool)) : Options :=
  values.foldl (fun options (flag, value) => options.set flag value) options

theorem setAll_cons (options : Options) (flag : Flag) (value : Bool)
    (rest : List (Flag × Bool)) :
    options.setAll ((flag, value) :: rest) = (options.set flag value).setAll rest := rfl

theorem others_setAll (options : Options) (values : List (Flag × Bool)) :
    (options.setAll values).others = options.others := by
  induction values generalizing options with
  | nil => rfl
  | cons entry rest ih => rw [setAll_cons, ih, others_set]

theorem absorb_spelled (options : Options) (values : List (Flag × Bool)) :
    options.absorb (Flag.spelled values) = (options.setAll values, []) := by
  induction values generalizing options with
  | nil => rfl
  | cons entry rest ih =>
      obtain ⟨flag, value⟩ := entry
      cases value with
      | false => rw [Flag.spelled, absorb_sign flag.isLetter_letter, mark_letter, ih, setAll_cons]
      | true => rw [Flag.spelled, absorb_letter flag.isLetter_letter, mark_letter, ih, setAll_cons]

theorem refine_spelled (options : Options) (values : List (Flag × Bool)) :
    options.refine (Flag.spelled values) = .ok (options.setAll values) := by
  rw [refine_eq_ok_iff, absorb_spelled]
  exact ⟨rfl, rfl⟩

theorem refineNamed_known (options : Options) (flag : Flag) (value : Bool)
    (rest : List (Text × Bool)) :
    options.refineNamed ((flag.name.toList, value) :: rest) =
      (options.set flag value).refineNamed rest := by
  simp only [refineNamed, Flag.ofName?_name]

theorem refineNamed_unknown (options : Options) {name : Text}
    (unknown : ∀ flag : Flag, flag.name.toList ≠ name) (value : Bool)
    (rest : List (Text × Bool)) :
    options.refineNamed ((name, value) :: rest) = .error (.unknownOption name) := by
  simp only [refineNamed, (Flag.ofName?_eq_none_iff name).mpr unknown]

theorem refineNamed_named (options : Options) (values : List (Flag × Bool)) :
    options.refineNamed (Flag.named values) = .ok (options.setAll values) := by
  induction values generalizing options with
  | nil => rfl
  | cons entry rest ih =>
      calc
        _ = (options.set entry.1 entry.2).refineNamed (Flag.named rest) :=
          refineNamed_known options entry.1 entry.2 (Flag.named rest)
        _ = .ok (options.setAll (entry :: rest)) := ih (options.set entry.1 entry.2)

theorem refineNamed_fails_iff (options : Options) (record : List (Text × Bool)) :
    (∃ fault, options.refineNamed record = .error fault) ↔
      ∃ entry ∈ record, ∀ flag : Flag, flag.name.toList ≠ entry.1 := by
  induction record generalizing options with
  | nil => simp [refineNamed]
  | cons entry rest ih =>
      obtain ⟨name, value⟩ := entry
      by_cases known : ∃ flag : Flag, flag.name.toList = name
      · obtain ⟨flag, rfl⟩ := known
        rw [refineNamed_known, ih, List.exists_mem_cons_iff]
        exact (or_iff_right fun unknown => unknown flag rfl).symm
      · rw [not_exists] at known
        rw [refineNamed_unknown options known]
        exact ⟨fun _ => ⟨(name, value), List.mem_cons_self, known⟩, fun _ => ⟨_, rfl⟩⟩

theorem refineNamed_eq_error_iff (options : Options) (record : List (Text × Bool))
    (fault : Fault) :
    options.refineNamed record = .error fault ↔
      ∃ before name value after, record = before ++ (name, value) :: after ∧
        (∀ entry ∈ before, ∃ flag : Flag, flag.name.toList = entry.1) ∧
        (∀ flag : Flag, flag.name.toList ≠ name) ∧ fault = .unknownOption name := by
  constructor
  · intro failed
    induction record generalizing options with
    | nil => contradiction
    | cons entry rest ih =>
        obtain ⟨name, value⟩ := entry
        by_cases known : ∃ flag : Flag, flag.name.toList = name
        · obtain ⟨flag, rfl⟩ := known
          rw [refineNamed_known] at failed
          obtain ⟨before, key, given, after, rfl, named, unknown, same⟩ := ih _ failed
          refine ⟨(flag.name.toList, value) :: before, key, given, after, rfl, ?_, unknown, same⟩
          exact List.forall_mem_cons.mpr ⟨⟨flag, rfl⟩, named⟩
        · rw [not_exists] at known
          rw [refineNamed_unknown options known] at failed
          exact ⟨[], name, value, rest, rfl, by simp, known, (Except.error.inj failed).symm⟩
  · rintro ⟨before, name, value, after, rfl, named, unknown, rfl⟩
    induction before generalizing options with
    | nil => exact refineNamed_unknown options unknown value after
    | cons entry before ih =>
        obtain ⟨⟨flag, same⟩, others⟩ := List.forall_mem_cons.mp named
        obtain ⟨key, given⟩ := entry
        subst same
        rw [List.cons_append, refineNamed_known]
        exact ih _ others

end Options

namespace Builder

theorem set_all (options : Options) (delimiter : Option Char) (values : List (Flag × Bool)) :
    values.foldl (fun b (flag, value) => b.set flag value) ⟨options, delimiter⟩ =
      (⟨options.setAll values, delimiter⟩ : Builder) := by
  induction values generalizing options with
  | nil => rfl
  | cons entry rest ih => exact ih (options.set entry.1 entry.2)

end Builder

namespace Options

/-- Values given by a flag string, by a record or one at a time lead to the same snapshot, and
to the same builder, with the letters without a meaning as they were.  A record fails if and
only if some key names no flag, and the error has the first such key. -/
theorem refinements_agree (options : Options) (values : List (Flag × Bool))
    (record : List (Text × Bool)) :
    options.refine (Flag.spelled values) = .ok (options.setAll values) ∧
    options.refineNamed (Flag.named values) = .ok (options.setAll values) ∧
    (options.setAll values).others = options.others ∧
    (∀ delimiter : Option Char,
      Builder.withFlags ⟨options, delimiter⟩ (Flag.spelled values) =
        .ok (values.foldl (fun b (flag, value) => b.set flag value) ⟨options, delimiter⟩) ∧
      Builder.withNamed ⟨options, delimiter⟩ (Flag.named values) =
        .ok (values.foldl (fun b (flag, value) => b.set flag value) ⟨options, delimiter⟩)) ∧
    ((∃ fault, options.refineNamed record = .error fault) ↔
      ∃ entry ∈ record, ∀ flag : Flag, flag.name.toList ≠ entry.1) ∧
    (∀ fault, options.refineNamed record = .error fault ↔
      ∃ before name value after, record = before ++ (name, value) :: after ∧
        (∀ entry ∈ before, ∃ flag : Flag, flag.name.toList = entry.1) ∧
        (∀ flag : Flag, flag.name.toList ≠ name) ∧ fault = .unknownOption name) := by
  have spelled := refine_spelled options values
  have named := refineNamed_named options values
  refine ⟨spelled, named, others_setAll options values, ?_, refineNamed_fails_iff options record,
    refineNamed_eq_error_iff options record⟩
  intro delimiter
  rw [Builder.set_all]
  constructor
  · simp only [Builder.withFlags, spelled]
  · simp only [Builder.withNamed, named]

theorem refinements_agree_repeated :
    ({ others := "v".toList } : Options).refine "g-gsg".toList =
      .ok { global := true, singleLine := true, others := "v".toList } ∧
    ({ others := "v".toList } : Options).refineNamed
      [("sticky".toList, true), ("Sticky".toList, false), ("v".toList, true)] =
        .error (.unknownOption "Sticky".toList) := by
  obtain ⟨spelled, _, _, _, _, failed⟩ := refinements_agree { others := "v".toList }
    [(.global, true), (.global, false), (.singleLine, true), (.global, true)]
    [("sticky".toList, true), ("Sticky".toList, false), ("v".toList, true)]
  refine ⟨spelled, (failed _).mpr ?_⟩
  refine ⟨[("sticky".toList, true)], "Sticky".toList, false, [("v".toList, true)], rfl, ?_, ?_, rfl⟩
  · exact List.forall_mem_singleton.mpr ⟨.sticky, rfl⟩
  · intro flag
    cases flag <;> decide

end Options

end PatternDialect
