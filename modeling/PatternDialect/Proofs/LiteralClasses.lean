import PatternDialect.Native.Reader
import PatternDialect.Proofs.Classes
import PatternDialect.Proofs.Literals

/-! Classes around texts that are written literally.

Main statement: such a class contains the characters of its text, save that in unicode mode,
where dashes are bare, a dash between two others makes a range of them. -/

namespace PatternDialect

open Character Conversion Syntax

def Escape.literalClass (unicode : Bool) (content : Text) : Text :=
  '[' :: (literal unicode content ++ [']'])

namespace Native

/-- A class, with its brackets, that is read to contain exactly the characters of a property. -/
def Denotes (mode : Bool) (source : Text) (holds : Char → Prop) : Prop :=
  ∃ body items negated, source = '[' :: body ∧
    readClass mode body = .ok (.characters items negated, []) ∧
      ∀ c, (items.any (·.contains c) != negated) = true ↔ holds c

/-- The ranges of a text whose dashes are bare, unless one falls. -/
def dashed? : Text → Option (List (Char × Char))
  | first :: '-' :: last :: rest =>
      if first ≤ last then (dashed? rest).map ((first, last) :: ·) else none
  | c :: rest => (dashed? rest).map ((c, c) :: ·)
  | [] => some []

/-- The ranges of a text that is written literally. -/
def spans? (unicode : Bool) (content : Text) : Option (List (Char × Char)) :=
  if unicode then dashed? content else some (content.map fun c => (c, c))

def itemsOf (spans : List (Char × Char)) : List ClassItem :=
  spans.map fun span => .range span.1.toNat span.2.toNat

/-- The texts of which a reader in some mode knows all escapes. -/
def Admits (mode unicode : Bool) (content : Text) : Prop :=
  ∀ c ∈ content, mode = true → Escape.needsEscape unicode c = true → isSyntaxCharacter c = true

variable {unicode mode : Bool} {bound : Nat} {content text rest tail : Text}
    {item : ClassItem} {c : Char}

theorem any_itemsOf (spans : List (Char × Char)) (c : Char) :
    (itemsOf spans).any (·.contains c) = true ↔ ∃ span ∈ spans, span.1 ≤ c ∧ c ≤ span.2 := by
  simp [itemsOf, ClassItem.contains, Char.le_def, UInt32.le_iff_toNat_le]

theorem exists_single (content : Text) (c : Char) :
    (∃ span ∈ content.map fun c => (c, c), span.1 ≤ c ∧ c ≤ span.2) ↔ c ∈ content := by
  constructor
  · rintro ⟨span, listed, above, below⟩
    obtain ⟨d, member, rfl⟩ := List.mem_map.mp listed
    exact Char.le_antisymm above below ▸ member
  · intro member
    exact ⟨(c, c), List.mem_map.mpr ⟨c, member, rfl⟩, Char.le_refl c, Char.le_refl c⟩

theorem Denotes.congr {source : Text} {first second : Char → Prop}
    (denotes : Denotes mode source first)
    (same : ∀ c, first c ↔ second c) : Denotes mode source second := by
  obtain ⟨body, items, negated, shape, read, all⟩ := denotes
  exact ⟨body, items, negated, shape, read, fun c => (all c).trans (same c)⟩

theorem dashed?_of_apart (apart : '-' ∉ content.tail.dropLast) :
    dashed? content = some (content.map fun c => (c, c)) := by
  fun_induction dashed? content with
  | case1 first last rest ordered ih => simp at apart
  | case2 first last rest falling => simp at apart
  | case3 c rest _ ih =>
      have apart' : '-' ∉ rest.tail.dropLast := by
        rw [← List.tail_dropLast]
        exact fun inner => apart (List.mem_of_mem_tail inner)
      rw [ih apart']
      rfl
  | case4 => rfl

theorem spans?_of_apart (apart : unicode = true → '-' ∉ content.tail.dropLast) :
    spans? unicode content = some (content.map fun c => (c, c)) := by
  cases unicode with
  | true => exact dashed?_of_apart (apart rfl)
  | false => rfl

theorem admits_of_visible (visible : ∀ c ∈ content, c ≠ '#' ∧ isBlank c = false) :
    Admits unicode unicode content := by
  intro c member strict needed
  rw [Escape.needsEscape, Escape.isMeta_eq, beq_eq_false_iff_ne.mpr (visible c member).1,
    (visible c member).2, strict] at needed
  simpa using needed

/-! Reading items one after the other. -/

theorem not_end_of_atom (atom : readClassAtom mode text = .ok (some (item, rest))) :
    text ≠ [] ∧ ∀ more, text ≠ ']' :: more := by
  constructor
  · rintro rfl
    simp [readClassAtom] at atom
  · rintro more rfl
    simp [readClassAtom] at atom

theorem readClassItems_atom (atom : readClassAtom mode text = .ok (some (item, rest)))
    (apart : ∀ more, rest ≠ '-' :: more) :
    readClassItems mode (bound + 1) text =
      (readClassItems mode bound rest).map fun read => (item :: read.1, read.2) := by
  obtain ⟨filled, unclosed⟩ := not_end_of_atom atom
  rw [readClassItems, atom]
  · simp only [bind, Except.bind]
    cases readClassItems mode bound rest <;> rfl
  · exact filled
  · exact unclosed

theorem readClassItems_range {low low' high high' : Nat}
    (first : readClassAtom mode text = .ok (some (.range low low', '-' :: rest)))
    (second : readClassAtom mode rest = .ok (some (.range high high', tail))) :
    readClassItems mode (bound + 1) text =
      if low ≤ high then
        (readClassItems mode bound tail).map fun read => (.range low high :: read.1, read.2)
      else .error .reversedRange := by
  obtain ⟨filled, unclosed⟩ := not_end_of_atom first
  rw [readClassItems, first]
  · by_cases ordered : low ≤ high
    · simp only [bind, Except.bind, second, joinRange, if_pos ordered]
      cases readClassItems mode bound tail <;> rfl
    · simp only [bind, Except.bind, second, joinRange, if_neg ordered]
  · exact filled
  · exact unclosed

theorem readClassItems_dash (atom : readClassAtom mode text = .ok (some (item,
    '-' :: ']' :: rest))) :
    readClassItems mode (bound + 1) text =
      (readClassItems mode bound (']' :: rest)).map fun read =>
        (item :: .range '-'.toNat '-'.toNat :: read.1, read.2) := by
  obtain ⟨filled, unclosed⟩ := not_end_of_atom atom
  rw [readClassItems, atom]
  · simp only [bind, Except.bind, readClassAtom]
    cases readClassItems mode bound (']' :: rest) <;> rfl
  · exact filled
  · exact unclosed

/-! Reading a literal text. -/

theorem classNamed?_of_not_letter (letter : isLetter c = false) : classNamed? c = none := by
  unfold classNamed?
  split <;> first | rfl | contradiction

theorem readCharacterEscape_kept (digit : isDigit c = false) (letter : isLetter c = false)
    (known : mode = true → isSyntaxCharacter c = true) (rest : Text) :
    readCharacterEscape mode c rest = .ok (c.toNat, rest) := by
  unfold readCharacterEscape
  -- every case but the last is a letter
  split <;> try contradiction
  have zero : (c == '0') = false := by
    rw [beq_eq_false_iff_ne]
    rintro rfl
    contradiction
  have octal : ('0' ≤ c && c ≤ '7') = false := by
    rw [Bool.eq_false_iff]
    intro within
    rw [Bool.and_eq_true, decide_eq_true_iff, decide_eq_true_iff] at within
    have last : c ≤ '9' := Char.le_trans within.2 (by decide)
    simp [isDigit, within.1, last] at digit
  have accepted : (isSyntaxCharacter c || !mode) = true := by
    cases mode with
    | true => simp [known rfl]
    | false => simp
  rw [zero, octal, accepted]
  rfl

theorem readClassAtom_literalForm (known : mode = true → Escape.needsEscape unicode c = true →
      isSyntaxCharacter c = true) (rest : Text) :
    readClassAtom mode (Escape.literalForm unicode c ++ rest) =
      .ok (some (.range c.toNat c.toNat, rest)) := by
  cases needed : Escape.needsEscape unicode c with
  | true =>
      obtain ⟨digit, letter⟩ := kept_spec (Escape.kept_of_needsEscape needed)
      have boundary : c ≠ 'b' := by
        rintro rfl
        contradiction
      have control : c ≠ 'c' := by
        rintro rfl
        contradiction
      have escape := readCharacterEscape_kept digit letter (fun strict => known strict needed) rest
      rw [Escape.literalForm, if_pos needed]
      simp only [readClassAtom, List.cons_append, List.nil_append, classNamed?_of_not_letter letter,
        beq_eq_false_iff_ne.mpr boundary, beq_eq_false_iff_ne.mpr control, escape, Bool.false_and,
        Bool.false_eq_true, ↓reduceIte]
      -- in unicode mode a dash has a case of its own
      split
      · rename_i dash
        obtain rfl : c = '-' := beq_iff_eq.mp (Bool.and_eq_true_iff.mp dash).1
        rfl
      · rfl
  | false =>
      have escape := Escape.ne_backslash_of_bare needed
      have bracket : c ≠ ']' := by
        rintro rfl
        cases unicode <;> contradiction
      rw [Escape.literalForm, needed, if_neg Bool.false_ne_true,
        List.singleton_append, readClassAtom]
      · exact bracket
      · exact fun equality _ => escape equality
      · exact fun _ _ equality _ => escape equality

theorem literal_ne_cons {d : Char} (mark : d ≠ '\\' ∧ d ≠ ']')
    (hidden : content.head? = some d → Escape.needsEscape unicode d = true) (tail more : Text) :
    Escape.literal unicode content ++ ']' :: tail ≠ d :: more := by
  intro same
  have head := congrArg List.head? same
  cases content with
  | nil => exact mark.2 (Option.some.inj head).symm
  | cons c rest =>
      rw [Escape.literal_cons, Escape.literalForm] at head
      split at head
      · exact mark.1 (Option.some.inj head).symm
      · rename_i bare
        obtain rfl : c = d := Option.some.inj head
        exact bare (hidden rfl)

theorem readClassItems_escaped (admits : Admits mode false content)
    (enough : content.length < bound) :
    readClassItems mode bound (Escape.literal false content ++ ']' :: tail) =
      .ok (itemsOf (content.map fun c => (c, c)), tail) := by
  induction content generalizing bound with
  | nil =>
      obtain ⟨bound, rfl⟩ := Nat.exists_eq_add_one.mpr enough
      rfl
  | cons c rest ih =>
      obtain ⟨own, others⟩ := List.forall_mem_cons.mp admits
      obtain ⟨bound, rfl⟩ := Nat.exists_eq_add_one.mpr (Nat.zero_lt_of_lt enough)
      rw [Escape.literal_cons, List.append_assoc,
        readClassItems_atom (readClassAtom_literalForm own _)
          (literal_ne_cons (by decide) (fun _ => rfl) tail),
        ih others (Nat.lt_of_succ_lt_succ enough)]
      rfl

theorem readClassItems_literal_range {first last : Char}
    (admits : Admits mode true (first :: '-' :: last :: rest)) :
    readClassItems mode (bound + 1) (Escape.literal true (first :: '-' :: last :: rest) ++ tail) =
      if first ≤ last then
        (readClassItems mode bound (Escape.literal true rest ++ tail)).map fun read =>
          (.range first.toNat last.toNat :: read.1, read.2)
      else .error .reversedRange := by
  have parts : Escape.literal true (first :: '-' :: last :: rest) ++ tail =
      Escape.literalForm true first ++
        '-' :: (Escape.literalForm true last ++ (Escape.literal true rest ++ tail)) := by
    have dash : Escape.literalForm true '-' = ['-'] := rfl
    simp [Escape.literal_cons, dash]
  rw [parts]
  exact readClassItems_range (readClassAtom_literalForm (admits first (by simp)) _)
    (readClassAtom_literalForm (admits last (by simp)) _)

theorem readClassItems_dashed (admits : Admits mode true content)
    (enough : content.length < bound) :
    readClassItems mode bound (Escape.literal true content ++ ']' :: tail) =
      match dashed? content with
      | some spans => .ok (itemsOf spans, tail)
      | none => .error .reversedRange := by
  obtain ⟨bound, rfl⟩ := Nat.exists_eq_add_one.mpr (Nat.zero_lt_of_lt enough)
  fun_induction dashed? content generalizing bound with
  | case1 first last rest ordered ih =>
      have others : Admits mode true rest := fun c member => admits c (by simp [member])
      simp only [List.length_cons] at enough
      obtain ⟨bound, rfl⟩ : ∃ left, bound = left + 1 := Nat.exists_eq_add_one.mpr (by omega)
      rw [readClassItems_literal_range admits, if_pos ordered, ih others bound (by omega)]
      cases dashed? rest <;> rfl
  | case2 first last rest falling => rw [readClassItems_literal_range admits, if_neg falling]
  | case3 c rest apart ih =>
      obtain ⟨own, others⟩ := List.forall_mem_cons.mp admits
      have enough' := Nat.lt_of_succ_lt_succ enough
      obtain ⟨bound, rfl⟩ := Nat.exists_eq_add_one.mpr (Nat.zero_lt_of_lt enough')
      rw [Escape.literal_cons, List.append_assoc]
      by_cases dash : rest.head? = some '-'
      · -- nothing follows the dash, so it stands for itself
        obtain rfl : rest = ['-'] := by
          obtain ⟨more, rfl⟩ := List.head?_eq_some_iff.mp dash
          cases more with
          | nil => rfl
          | cons last more => exact absurd rfl (apart last more)
        exact readClassItems_dash (readClassAtom_literalForm own _)
      · rw [readClassItems_atom (readClassAtom_literalForm own _)
            (literal_ne_cons (by decide) (absurd · dash) tail), ih others bound enough']
        cases dashed? rest <;> rfl
  | case4 => rfl

theorem readClassItems_literal (admits : Admits mode unicode content)
    (enough : content.length < bound) :
    readClassItems mode bound (Escape.literal unicode content ++ ']' :: tail) =
      match spans? unicode content with
      | some spans => .ok (itemsOf spans, tail)
      | none => .error .reversedRange := by
  cases unicode with
  | true => exact readClassItems_dashed admits enough
  | false => exact readClassItems_escaped admits enough

theorem length_le_literal (unicode : Bool) (content : Text) :
    content.length ≤ (Escape.literal unicode content).length := by
  induction content with
  | nil => exact Nat.le_refl 0
  | cons c rest ih =>
      rw [Escape.literal_cons, List.length_append, List.length_cons, Nat.add_comm]
      refine Nat.add_le_add ?_ ih
      rw [Escape.literalForm]
      split <;> simp

theorem readClass_literal (admits : Admits mode unicode content) :
    readClass mode (Escape.literal unicode content ++ [']']) =
      match spans? unicode content with
      | some spans => .ok (.characters (itemsOf spans) false, [])
      | none => .error .reversedRange := by
  have enough : content.length < (Escape.literal unicode content ++ [']']).length + 1 := by
    have long := length_le_literal unicode content
    rw [List.length_append]
    omega
  rw [readClass]
  · simp only [readClassItems_literal admits enough]
    cases spans? unicode content <;> rfl
  · exact literal_ne_cons (by decide) (fun _ => by cases unicode <;> rfl) []

theorem denotes_literalClass (admits : Admits mode unicode content) {spans : List (Char × Char)}
    (found : spans? unicode content = some spans) :
    Denotes mode (Escape.literalClass unicode content)
      fun c => ∃ span ∈ spans, span.1 ≤ c ∧ c ≤ span.2 := by
  refine ⟨_, itemsOf spans, false, rfl, ?_, fun c => ?_⟩
  · rw [readClass_literal admits, found]
  · rw [Bool.bne_false, any_itemsOf]

end Native

namespace Conversion

variable {options : Options} {s : State} {content : Text}

theorem conclude_enclosed {start : Nat} (class_ : s.classStart = some start)
    (unescaped : s.escaped = false) (fresh : s.referenceEnd = none)
    (rest : s.rest = Escape.literal options.unicode content ++ [']']) :
    conclude options none s =
      finish ({ s.through (Escape.literal options.unicode content ++ [']']) []
        (s.out ++ (Escape.literal options.unicode content ++ [']'])) with classStart :=
        none }.recordAtom start) := by
  obtain ⟨out, copied, passed⟩ : ∃ out, _ ∧ conclude options none s = _ :=
    conclude_hidden (by simp) unescaped fresh rest
  obtain rfl := copied (by simp [State.inClass, class_])
  have closed := @step_closing options none
      (s.through (Escape.literal options.unicode content) [']']
    (s.out ++ Escape.literal options.unicode content)) (by simp) start class_
    (Escape.pending_literal options.unicode content unescaped) [] rfl
  rw [passed, conclude_ok (by simp [State.through]) closed, conclude_nil rfl]
  simp [State.through]

theorem convert_literalClass (options : Options) (content : Text) :
    convert options none (Escape.literalClass options.unicode content) =
      .ok ⟨Escape.literalClass options.unicode content, {}, none⟩ := by
  have opened : (State.start (Escape.literalClass options.unicode content)).step options none =
      .ok (entered (.start _)) := step_bracket rfl (by simp) rfl
  rw [convert_eq_conclude, conclude_ok (by simp [State.start, Escape.literalClass]) opened,
    conclude_enclosed rfl rfl rfl rfl]
  rfl

/-- A class around a literal text is converted to itself.  It contains the characters of the
text, save that in unicode mode a dash between two others stands for the range of them, which
may not fall.  A reader in unicode mode reads it alike, where the text has no blanks and number
signs, whose escapes it does not know. -/
theorem convert_literalClass_denotes (options : Options) (content : Text) :
    ∃ source, convert options none (Escape.literalClass options.unicode content) =
        .ok ⟨source, {}, none⟩ ∧
      ((options.unicode = true → '-' ∉ content.tail.dropLast) →
        Native.Denotes false source (· ∈ content)) ∧
      (match Native.spans? options.unicode content with
        | some spans => Native.Denotes false source fun c => ∃ span ∈ spans, span.1 ≤ c ∧ c ≤ span.2
        | none => Native.readClass false source.tail = .error .reversedRange) ∧
      ((∀ c ∈ content, c ≠ '#' ∧ isBlank c = false) →
        Native.readClass options.unicode source.tail = Native.readClass false source.tail) := by
  have admits : Native.Admits false options.unicode content := fun _ _ strict => by contradiction
  refine ⟨_, convert_literalClass options content, fun apart => ?_, ?_, fun visible => ?_⟩
  · exact (Native.denotes_literalClass admits (Native.spans?_of_apart apart)).congr
      (Native.exists_single content)
  · split
    · rename_i spans found
      exact Native.denotes_literalClass admits found
    · rename_i falling
      exact (Native.readClass_literal admits).trans (by rw [falling])
  · exact (Native.readClass_literal (Native.admits_of_visible visible)).trans
      (Native.readClass_literal admits).symm

theorem convert_literalClass_denotes_marks :
    '-' ∉ "-^]-".toList.tail.dropLast ∧ (∀ c ∈ "-^]-".toList, c ≠ '#' ∧ isBlank c = false) ∧
      ∃ source, convert { unicode := true } none "[-\\^\\]-]".toList = .ok ⟨source, {}, none⟩ ∧
        Native.Denotes false source (· ∈ "-^]-".toList) ∧
          Native.readClass true source.tail = Native.readClass false source.tail := by
  have apart : '-' ∉ "-^]-".toList.tail.dropLast := by decide
  have visible : ∀ c ∈ "-^]-".toList, c ≠ '#' ∧ isBlank c = false := by simp [isBlank]
  obtain ⟨source, ok, members, -, alike⟩ :=
    convert_literalClass_denotes { unicode := true } "-^]-".toList
  exact ⟨apart, visible, source, ok, members fun _ => apart, alike visible⟩

theorem literalClass_dash :
    convert { unicode := true } none (Escape.literalClass true "a-c".toList) =
        .ok ⟨"[a-c]".toList, {}, none⟩ ∧
      ¬Native.Denotes false "[a-c]".toList (· ∈ "a-c".toList) := by
  refine ⟨convert_literalClass { unicode := true } "a-c".toList, ?_⟩
  rintro ⟨body, items, negated, shape, read, all⟩
  obtain rfl : "a-c]".toList = body := (List.cons.inj shape).2
  have range : Native.readClass false "a-c]".toList =
      .ok (.characters [.range 'a'.toNat 'c'.toNat] false, []) := rfl
  rw [range] at read
  cases read
  have between : 'b' ∈ "a-c".toList := (all 'b').mp (by decide)
  exact absurd between (by decide)

end Conversion

end PatternDialect
