import PatternDialect.Proofs.Renumbering

/-! Cuts of a source: where a group may be opened in the middle of what has been
emitted, so that both parts are read as before. -/

namespace PatternDialect.Source

open Character Backreference

/-- Characters that mean nothing to a reader who looks for classes, escapes and
references. -/
def isOrdinary (c : Char) : Bool := c != '\\' && c != '[' && c != ']' && !isDigit c

theorem next_of_ordinary {c : Char} (ordinary : isOrdinary c = true) :
    Place.outside.next c = .outside ∧ Place.inClass.next c = .inClass := by
  simp only [isOrdinary, Bool.and_eq_true, bne_iff_ne, Bool.not_eq_true'] at ordinary
  simp [Place.next, ordinary]

theorem isDigit_of_ordinary {c : Char} (ordinary : isOrdinary c = true) :
    isDigit c = false := by
  simp only [isOrdinary, Bool.and_eq_true, Bool.not_eq_true'] at ordinary
  exact ordinary.2

/-- Whether a text, read from inside or from outside a class, comes to stand at
the same place before it reaches a reference. -/
def merges : Text → Bool
  | [] => false
  | ['\\'] => false
  | '\\' :: d :: rest => (!isDigit d || d == '0') && merges rest
  | c :: rest => c == ']' || c == '[' || merges rest

theorem merges_escape (d : Char) (rest : Text) :
    merges ('\\' :: d :: rest) = ((!isDigit d || d == '0') && merges rest) := rfl

theorem merges_cons {c : Char} (unescaped : c ≠ '\\') (rest : Text) :
    merges (c :: rest) = (c == ']' || c == '[' || merges rest) := by
  rw [merges]
  · intro empty
    exact absurd empty unescaped
  · intro d more equality
    exact absurd equality unescaped

theorem merges_append {first : Text} (merged : merges first = true) (second : Text) :
    merges (first ++ second) = true := by
  fun_induction merges first with
  | case1 => contradiction
  | case2 => contradiction
  | case3 d rest ih =>
      simp only [Bool.and_eq_true] at merged
      simp only [List.cons_append, merges_escape, Bool.and_eq_true]
      exact ⟨merged.1, ih merged.2⟩
  | case4 c rest notLast notEscape ih =>
      have unescaped : c ≠ '\\' := by
        intro backslash
        cases rest with
        | nil => exact notLast backslash rfl
        | cons d more => exact notEscape d more backslash rfl
      simp only [Bool.or_eq_true] at merged
      simp only [List.cons_append, merges_cons unescaped, Bool.or_eq_true]
      rcases merged with bracket | merged
      · exact Or.inl bracket
      · exact Or.inr (ih merged)

theorem merges_of_ordinary {w : Text} (ordinary : ∀ c ∈ w, isOrdinary c = true) {text : Text}
    (merged : merges text = true) : merges (w ++ text) = true := by
  induction w with
  | nil => exact merged
  | cons c rest ih =>
      have first := ordinary c (by simp)
      simp only [isOrdinary, Bool.and_eq_true, bne_iff_ne] at first
      rw [List.cons_append, merges_cons first.1.1.1, Bool.or_eq_true]
      exact Or.inr (ih fun d member => ordinary d (by simp [member]))

theorem merges_reads {text : Text} (merged : merges text = true) :
    Reader.passed ⟨.inClass, []⟩ text = Reader.passed ⟨.outside, []⟩ text ∧
      Reader.after ⟨.inClass, []⟩ text = Reader.after ⟨.outside, []⟩ text := by
  fun_induction merges text with
  | case1 => contradiction
  | case2 => contradiction
  | case3 d rest ih =>
      simp only [Bool.and_eq_true, Bool.or_eq_true, Bool.not_eq_true', beq_iff_eq] at merged
      obtain ⟨noReference, merged⟩ := merged
      have notTaken : Reader.takes ⟨.escape, []⟩ d = false := by
        rcases noReference with other | rfl
        · simp [Reader.takes, other]
        · simp [Reader.takes]
      have insideNext : Reader.next ⟨.classEscape, []⟩ d = ⟨.inClass, []⟩ := by
        simp [Reader.next, Reader.takes, Place.next]
      have outsideNext : Reader.next ⟨.escape, []⟩ d = ⟨.outside, []⟩ := by
        simp [Reader.next, notTaken, Place.next]
      have insideSlash : Reader.next ⟨.inClass, []⟩ '\\' = ⟨.classEscape, []⟩ := by decide
      have outsideSlash : Reader.next ⟨.outside, []⟩ '\\' = ⟨.escape, []⟩ := by decide
      obtain ⟨passed, after⟩ := ih merged
      constructor
      · simp only [Reader.passed_cons, insideSlash, outsideSlash, insideNext, outsideNext, passed]
        simp [Reader.held]
      · simp only [Reader.after_cons, insideSlash, outsideSlash, insideNext, outsideNext, after]
  | case4 c rest notLast notEscape ih =>
      have unescaped : c ≠ '\\' := by
        intro backslash
        cases rest with
        | nil => exact notLast backslash rfl
        | cons d more => exact notEscape d more backslash rfl
      have insideNext : Reader.next ⟨.inClass, []⟩ c = ⟨Place.inClass.next c, []⟩ := by
        simp [Reader.next, Reader.takes]
      have outsideNext : Reader.next ⟨.outside, []⟩ c = ⟨Place.outside.next c, []⟩ := by
        simp [Reader.next, Reader.takes]
      have same : Reader.passed ⟨Place.inClass.next c, []⟩ rest =
            Reader.passed ⟨Place.outside.next c, []⟩ rest ∧
          Reader.after ⟨Place.inClass.next c, []⟩ rest =
            Reader.after ⟨Place.outside.next c, []⟩ rest := by
        by_cases closing : c = ']'
        · subst closing
          exact ⟨rfl, rfl⟩
        by_cases opening : c = '['
        · subst opening
          exact ⟨rfl, rfl⟩
        have merged : merges rest = true := by simpa [closing, opening] using merged
        simpa [Place.next, unescaped, closing, opening] using ih merged
      constructor
      · simp only [Reader.passed_cons, insideNext, outsideNext, same.1]
        simp [Reader.held]
      · simp only [Reader.after_cons, insideNext, outsideNext, same.2]

theorem renumberFrom_kept (first amount : Nat) {d : Char}
    (noReference : isDigit d = false ∨ d = '0') (rest : Text) :
    renumberFrom first amount .outside [] ('\\' :: d :: rest) =
      '\\' :: d :: renumberFrom first amount .outside [] rest := by
  have condition : (isDigit d && (!([] : Text).isEmpty ||
      (Place.escape == Place.escape && d != '0'))) = false := by
    rcases noReference with other | rfl
    · simp [other]
    · simp
  rw [renumberFrom, if_neg (by decide), List.reverse_nil, shift_nil, List.nil_append]
  change '\\' :: renumberFrom first amount .escape [] (d :: rest) = _
  rw [renumberFrom, if_neg (by rw [condition]; exact Bool.false_ne_true),
    List.reverse_nil, shift_nil, List.nil_append]
  rfl

theorem merges_renumber (first amount : Nat) {text : Text} (merged : merges text = true) :
    merges (renumberFrom first amount .outside [] text) = true := by
  fun_induction merges text with
  | case1 => contradiction
  | case2 => contradiction
  | case3 d rest ih =>
      simp only [Bool.and_eq_true, Bool.or_eq_true, Bool.not_eq_true', beq_iff_eq] at merged
      obtain ⟨noReference, merged⟩ := merged
      rw [renumberFrom_kept first amount noReference, merges_escape]
      simp only [Bool.and_eq_true, Bool.or_eq_true, Bool.not_eq_true', beq_iff_eq]
      exact ⟨noReference, ih merged⟩
  | case4 c rest notLast notEscape ih =>
      have unescaped : c ≠ '\\' := by
        intro backslash
        cases rest with
        | nil => exact notLast backslash rfl
        | cons d more => exact notEscape d more backslash rfl
      have kept : renumberFrom first amount .outside [] (c :: rest) =
          c :: renumberFrom first amount (Place.outside.next c) [] rest := by
        rw [renumberFrom, if_neg (by simp), List.reverse_nil, shift_nil, List.nil_append]
      rw [kept, merges_cons unescaped]
      by_cases closing : c = ']'
      · simp [closing]
      by_cases opening : c = '['
      · simp [opening]
      have merged : merges rest = true := by simpa [closing, opening] using merged
      have stays : Place.outside.next c = .outside := by simp [Place.next, unescaped, opening]
      simp [stays, ih merged]

namespace Reader

/-- Whether what follows is read as from the beginning of a source. -/
def Fits (r : Reader) (text : Text) : Prop :=
  match r.place with
  | .outside => r.digits ≠ [] → text.head?.all (!isDigit ·) = true
  | .escape => text.head?.any isOrdinary = true
  | .inClass => merges text = true
  | .classEscape => text.head?.any isOrdinary = true ∧ merges text = true

def settled (r : Reader) : Reader :=
  match r.place with
  | .outside | .escape => ⟨.outside, []⟩
  | .inClass | .classEscape => ⟨.inClass, []⟩

theorem next_of_ordinary (r : Reader) {c : Char} (ordinary : isOrdinary c = true) :
    r.next c = r.settled := by
  rw [next_of_not_digit r (isDigit_of_ordinary ordinary)]
  obtain ⟨outside, inClass⟩ := Source.next_of_ordinary ordinary
  cases place : r.place with
  | outside => simp [settled, place, outside]
  | inClass => simp [settled, place, inClass]
  | escape => simp [settled, place, Place.next]
  | classEscape => simp [settled, place, Place.next]

theorem settled_settled (r : Reader) : r.settled.settled = r.settled := by
  cases place : r.place <;> simp [settled, place]

theorem held_settled (r : Reader) : r.settled.held = [] := by
  cases place : r.place <;> simp [settled, place, held]

theorem settled_proper (r : Reader) : r.settled.Proper := by
  cases place : r.place <;> simp only [settled, place] <;> exact Proper.of_place _

theorem after_ordinary (r : Reader) {w : Text} (nonempty : w ≠ [])
    (ordinary : ∀ c ∈ w, isOrdinary c = true) :
    r.after w = r.settled ∧ r.passed w = r.held := by
  induction w generalizing r with
  | nil => exact absurd rfl nonempty
  | cons c rest ih =>
      have first := ordinary c (by simp)
      have next := r.next_of_ordinary first
      rw [after_cons, passed_cons_of_not_digit r (isDigit_of_ordinary first), next]
      cases rest with
      | nil => simp
      | cons d more =>
          obtain ⟨after, passed⟩ :=
            ih r.settled (by simp) (fun e member => ordinary e (by simp [member]))
          rw [after, passed, settled_settled, held_settled, List.append_nil]
          exact ⟨rfl, rfl⟩

theorem held_of_place {r : Reader} (proper : r.Proper) (place : r.place ≠ .outside) :
    r.held = [] := by
  have empty : r.digits = [] := by
    cases digits : r.digits with
    | nil => rfl
    | cons d rest => exact absurd (proper.outside (by simp [digits])) place
  simp [held, empty]

theorem Fits.reads {r : Reader} (proper : r.Proper) {text : Text} (fits : r.Fits text)
    (nonempty : text ≠ []) :
    r.passed text = r.held ++ start.passed text ∧ r.after text = start.after text := by
  cases text with
  | nil => exact absurd rfl nonempty
  | cons c rest =>
      cases place : r.place with
      | outside =>
          have notTaken : r.takes c = false := by
            cases digits : r.digits with
            | nil => simp [takes, place, digits]
            | cons d more =>
                have other : isDigit c = false := by
                  simpa [Fits, place, digits] using fits
                simp [takes, other]
          have fresh : start.takes c = false := by simp [start, takes]
          have same : r.next c = start.next c := by
            rw [Reader.next, if_neg (by simp [notTaken]), Reader.next, if_neg (by simp [fresh]),
              place]
            rfl
          simp only [passed_cons, after_cons, same, notTaken, fresh, held_start]
          simp
      | escape =>
          have ordinary : isOrdinary c = true := by simpa [Fits, place] using fits
          have same : r.next c = start.next c := by
            rw [next_of_ordinary r ordinary, next_of_ordinary start ordinary]
            simp [settled, place, start]
          have other := isDigit_of_ordinary ordinary
          rw [passed_cons_of_not_digit r other, passed_cons_of_not_digit start other, after_cons,
            after_cons, same, held_start, List.nil_append]
          exact ⟨rfl, rfl⟩
      | inClass =>
          have merged : merges (c :: rest) = true := by simpa [Fits, place] using fits
          obtain ⟨passed, after⟩ := merges_reads merged
          have empty : r.held = [] := held_of_place proper (by simp [place])
          have same : r = ⟨.inClass, []⟩ := by
            have digits : r.digits = [] := by
              simpa [held] using empty
            cases r
            simp_all
          rw [empty, List.nil_append, same]
          exact ⟨passed, after⟩
      | classEscape =>
          have fit : isOrdinary c = true ∧ merges (c :: rest) = true := by
            simpa [Fits, place] using fits
          obtain ⟨ordinary, merged⟩ := fit
          obtain ⟨passed, after⟩ := merges_reads merged
          have other := isDigit_of_ordinary ordinary
          have same : r.next c = Reader.next ⟨.inClass, []⟩ c := by
            rw [next_of_ordinary r ordinary, next_of_ordinary _ ordinary]
            simp [settled, place]
          have empty : r.held = [] := held_of_place proper (by simp [place])
          rw [passed_cons_of_not_digit _ other] at passed
          rw [passed_cons_of_not_digit r other, after_cons, same, empty, List.nil_append,
            List.nil_append, ← after_cons]
          exact ⟨by simpa [held, start] using passed, after⟩

theorem Fits.append {r : Reader} {text : Text} (fits : r.Fits text) (nonempty : text ≠ [])
    (more : Text) : r.Fits (text ++ more) := by
  cases text with
  | nil => exact absurd rfl nonempty
  | cons c rest =>
      cases place : r.place with
      | outside => simpa [Fits, place] using fits
      | escape => simpa [Fits, place] using fits
      | inClass =>
          have merged : merges (c :: rest) = true := by simpa [Fits, place] using fits
          have extended := merges_append merged more
          simpa [Fits, place] using extended
      | classEscape =>
          have fit : isOrdinary c = true ∧ merges (c :: rest) = true := by
            simpa [Fits, place] using fits
          have extended := merges_append fit.2 more
          simpa [Fits, place] using And.intro fit.1 extended

theorem Fits.fresh {r : Reader} {text : Text} (fits : r.Fits text) : Fits ⟨r.place, []⟩ text := by
  cases place : r.place with
  | outside => simp [Fits]
  | escape => simpa [Fits, place] using fits
  | inClass => simpa [Fits, place] using fits
  | classEscape => simpa [Fits, place] using fits

theorem Fits.settled {r : Reader} {text : Text} (fits : r.Fits text) : r.settled.Fits text := by
  cases place : r.place with
  | outside => simp [Fits, Reader.settled, place]
  | escape => simp [Fits, Reader.settled, place]
  | inClass => simpa [Fits, Reader.settled, place] using fits
  | classEscape =>
      have fit : text.head?.any isOrdinary = true ∧ merges text = true := by
        simpa [Fits, place] using fits
      simpa [Fits, Reader.settled, place] using fit.2

end Reader

end PatternDialect.Source
