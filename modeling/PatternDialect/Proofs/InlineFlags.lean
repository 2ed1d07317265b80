import PatternDialect.Proofs.RoundTrip

/-! Flags written behind a pattern against flags bound to the builder. -/

namespace PatternDialect

open Character

namespace Conversion

variable {options : Options} {delimiter : Option Char} {s next : State}

theorem State.Move.inClass {action : Action} (move : State.Move options delimiter s action next)
    (class_ : s.inClass = true) (open_ : s.rest.head? ≠ some ']') : next.inClass = true := by
  have inside : s.place.inside = true := by rw [State.inside_place, class_]
  have notOutside : s.place ≠ .outside := Source.Place.ne_outside_of_inside inside
  cases move with
  | write count text quiet => exact class_
  | closeClass start more rest _ _ =>
      rw [rest] at open_
      contradiction
  | restore c more rest place _ =>
      rw [place] at inside
      contradiction
  | _ => exact absurd (by assumption) notOutside

theorem conclude_unclosed (class_ : s.inClass = true) (open_ : ']' ∉ s.rest)
    (other : delimiter ≠ some ']') (result : Result) :
      conclude options delimiter s ≠ .ok result := by
  induction length : s.rest.length using Nat.strongRecOn generalizing s with
  | ind n ih =>
      intro ok
      cases rest : s.rest with
      | nil =>
          rw [conclude_nil rest, finish_eq_ok_iff, class_] at ok
          exact absurd ok.1 (by decide)
      | cons c text =>
          have nonempty : s.rest ≠ [] := by simp [rest]
          obtain ⟨next, step, shorter, later⟩ := step_of_conclude nonempty ok
          obtain ⟨count, _, _, behind⟩ := State.reads_step nonempty step
          have inside : next.inClass = true := by
            have move := State.move_inClass class_ other nonempty step
            refine move.inClass class_ ?_
            intro head
            exact open_ (List.mem_of_mem_head? head)
          refine ih _ (length ▸ shorter) inside ?_ rfl later
          rw [behind]
          exact fun member => open_ (List.mem_of_mem_drop member)

theorem step_delimiter_eq {c d : Char} {text : Text} (rest : s.rest = c :: text) (other : c ≠ d) :
    s.step options (some d) = s.step options none := by
  have plainly : ∀ delimiter, delimiter ≠ some c →
      s.next? delimiter = Construct.plain? s.before (c :: text) := fun _ => State.next?_plain rest
  unfold State.step
  rw [plainly none (by simp), plainly (some d) (by simpa using other.symm)]

theorem occursUnescaped_of_not_mem {wanted : Char} {text : Text} (absent : wanted ∉ text)
    (before : Text) : Escape.occursUnescaped wanted before text = false := by
  induction text generalizing before with
  | nil => rfl
  | cons c rest ih =>
      have other : c ≠ wanted := fun same => absent (by simp [same])
      have later := ih (fun member => absent (List.mem_cons_of_mem _ member)) (c :: before)
      rw [Escape.occursUnescaped, beq_eq_false_iff_ne.mpr other, later]
      rfl

section Slash

variable {flags : Text} {result : Result}

theorem conclude_slash_end (rest : s.rest = []) (unescaped : s.escaped = false)
    (fresh : s.flags = none) (single : '/' ∉ flags) (bracket : ']' ∉ flags) :
    conclude options (some '/') (s.extend ('/' :: flags)) = .ok result ↔
      result.flags = some flags ∧ conclude options none s = .ok { result with flags := none } := by
  rw [conclude_nil rest, finish_eq_ok_iff]
  cases class_ : s.inClass with
  | true =>
      have open_ : ']' ∉ (s.extend ('/' :: flags)).rest := by simpa [rest] using bracket
      have unclosed :
          ∀ result, conclude options (some '/') (s.extend ('/' :: flags)) ≠ .ok result :=
        conclude_unclosed class_ open_ (by decide)
      simp [unclosed]
  | false =>
      have behind : (s.extend ('/' :: flags)).rest = '/' :: flags := by simp [rest]
      have here : (s.extend ('/' :: flags)).endsHere (some '/') = true := by
        simp [State.endsHere, rest, class_, unescaped]
      have step : (s.extend ('/' :: flags)).step options (some '/') = _ := step_endsHere behind here
      rw [occursUnescaped_of_not_mem single, if_neg (by decide)] at step
      rw [conclude_ok (by simp) step, conclude_nil rfl, finish_eq_ok_iff]
      change (s.inClass = false ∧ s.frames.any State.isAtomic = false ∧
        result = ⟨s.out, s.groups, some flags⟩) ↔ _
      obtain ⟨source, groups, found⟩ := result
      simp only [class_, Result.mk.injEq, fresh, and_true, true_and]
      tauto

/-- A body without slashes and comments converts alike with flags behind it and without
them, whether it succeeds or not. -/
theorem conclude_slash (slash : '/' ∉ s.rest) (hash : '#' ∉ s.rest)
    (closed : Escape.pending (s.rest.reverse ++ s.before) = false) (fresh : s.flags = none)
    (single : '/' ∉ flags) (brace : '}' ∉ flags) (bracket : ']' ∉ flags) :
    conclude options (some '/') (s.extend ('/' :: flags)) = .ok result ↔
      result.flags = some flags ∧ conclude options none s = .ok { result with flags := none } := by
  induction length : s.rest.length using Nat.strongRecOn generalizing s with
  | ind n ih =>
      cases rest : s.rest with
      | nil =>
          rw [rest] at closed
          exact conclude_slash_end rest closed fresh single bracket
      | cons c text =>
          have nonempty : s.rest ≠ [] := by simp [rest]
          have longer : (s.extend ('/' :: flags)).rest ≠ [] := by simp
          have other : c ≠ '/' := fun same => slash (by simp [rest, same])
          have visible : c ≠ '#' := fun same => hash (by simp [rest, same])
          have alike : State.Alike ('/' :: flags) (s.step options (some '/')) _ :=
            State.step_slash brace rest other visible
          rw [step_delimiter_eq rest other] at alike
          generalize taken : s.step options none = outcome at alike
          generalize takenLong :
            (s.extend ('/' :: flags)).step options (some '/') = outcomeLong at alike
          cases alike with
          | error fault otherFault =>
              rw [conclude_error nonempty taken, conclude_error longer takenLong]
              simp
          | ok next =>
              obtain ⟨count, _, before, behind⟩ := State.reads_step nonempty taken
              have kept : next.flags = none :=
                (State.flags_step taken (by simp [State.endsHere, rest])).trans fresh
              have within : ∀ {d : Char}, d ∈ next.rest → d ∈ s.rest := by
                intro d member
                rw [behind] at member
                exact List.mem_of_mem_drop member
              have passed : next.rest.reverse ++ next.before = s.rest.reverse ++ s.before := by
                rw [before, behind]
                rw [State.before_skip, State.rest_skip, ← List.append_assoc,
                  ← List.reverse_append, List.take_append_drop]
              rw [conclude_ok nonempty taken, conclude_ok longer takenLong]
              exact ih _ (length ▸ State.length_rest_step nonempty taken) (mt within slash)
                (mt within hash) (passed ▸ closed) kept rfl

end Slash

end Conversion

open Conversion

section

variable {options : Options} {body flags : Text}

theorem convert_slash {result : Conversion.Result} (slash : '/' ∉ body) (hash : '#' ∉ body)
    (closed : Escape.endsOpen body = false)
    (accepted : ∃ refined, options.refine flags = .ok refined) (other : Options) :
    convert other (some '/') (body ++ '/' :: flags) = .ok result ↔
      result.flags = some flags ∧ convert other none body = .ok { result with flags := none } := by
  obtain ⟨refined, ok⟩ := accepted
  have absent : ∀ c : Char, isLetter c = false → c ≠ '-' → isWhiteSpace c = false → c ∉ flags := by
    intro c noLetter noSign noBlank member
    rcases Options.mem_of_refine ok member with letter | sign | blank
    · rw [noLetter] at letter
      contradiction
    · exact noSign sign
    · rw [noBlank] at blank
      contradiction
  exact conclude_slash (s := .start body) slash hash (by simpa [State.start,
    Escape.endsOpen] using closed) rfl
    (absent '/' (by decide) (by decide) (by decide))
      (absent '}' (by decide) (by decide) (by decide))
    (absent ']' (by decide) (by decide) (by decide))

end

namespace Builder

variable {b bound : Builder} {body flags : Text}

theorem read_inline {refined : Options} {text : Text} {first : Conversion.Result} {d : Char}
    (converted : convert b.options (some d) text = .ok first)
    (found : first.flags = some flags) (accepted : b.options.refine flags = .ok refined) :
    (b.delimited d).read { head := text } =
      (convert refined (some d) text).map fun result => { options := refined, text, result } := by
  simp only [Builder.read, readWith_text, delimited, converted, Except.map, found, accepted]
  split
  · rename_i same
    rw [same, converted]
  · rfl

section

variable [Engine]

theorem Reading.compile_delimited {options : Options} {body flags : Text} {d : Char}
    {result : Conversion.Result} (found : result.flags = some flags) :
    Reading.compile { options, text := body ++ d :: flags, result } (some d) =
      Reading.compile { options, text := body, result := { result with flags := none } } none := by
  have front : Reading.body { options, text := body ++ d :: flags, result } (some d) = body := by
    have length : (body ++ d :: flags).length - flags.length - 1 = body.length := by
      simp only [List.length_append, List.length_cons]
      omega
    simp only [Reading.body, found, length, List.take_left]
  unfold Reading.compile
  dsimp only
  rw [front]
  rfl

theorem compile_eq_ok_iff {options : Options} {p : Pattern} :
    ({ options } : Builder).compile body = .ok p ↔
      ∃ result, convert options none body = .ok result ∧
        Reading.compile { options, text := body, result } none = .ok p := by
  cases converted : convert options none body with
  | ok result => simp [compile_of_convert converted]
  | error fault =>
      simp [compile, build, Builder.read, readWith_text, converted, Except.map]

/-- Flags behind the pattern do what the builder's flags do, where the options that they
refine accept the body as well. -/
theorem compile_inline (plain : b.delimiter = none) (slash : '/' ∉ body) (hash : '#' ∉ body)
    (closed : Escape.endsOpen body = false)
    (accepted : b.withFlags flags = .ok bound) (p : Pattern) :
    (b.delimited '/').compile (body ++ '/' :: flags) = .ok p ↔
      bound.compile body = .ok p ∧ ∃ first, convert b.options none body = .ok first := by
  unfold withFlags at accepted
  split at accepted
  · rename_i refined ok
    cases accepted
    have bare : { b with options := refined } = ({ options := refined } : Builder) := by
      rw [plain]
    have alike : ∀ (options : Options) (result : Conversion.Result),
        convert options (some '/') (body ++ '/' :: flags) = .ok result ↔
          result.flags = some flags ∧
            convert options none body = .ok { result with flags := none } :=
      fun options _ => convert_slash slash hash closed ⟨refined, ok⟩ options
    rw [bare, compile_eq_ok_iff]
    constructor
    · intro compiled
      obtain ⟨reading, read, made⟩ := build_eq_ok_iff.mp compiled
      cases first : convert b.options (some '/') (body ++ '/' :: flags) with
      | error fault =>
          simp [Builder.read, readWith_text, delimited, first, Except.map] at read
      | ok result =>
          obtain ⟨found, alone⟩ := (alike _ _).mp first
          rw [read_inline first found ok] at read
          cases second : convert refined (some '/') (body ++ '/' :: flags) with
          | error fault => simp [second, Except.map] at read
          | ok again =>
              obtain ⟨foundAgain, aloneAgain⟩ := (alike _ _).mp second
              simp only [second, Except.map, Except.ok.injEq] at read
              rw [← read] at made
              exact ⟨⟨_, aloneAgain, Reading.compile_delimited foundAgain ▸ made⟩, _, alone⟩
    · rintro ⟨⟨again, aloneAgain, made⟩, first, alone⟩
      have whole : ∀ {options : Options} {result : Conversion.Result},
          convert options none body = .ok result →
            convert options (some '/') (body ++ '/' :: flags) =
              .ok { result with flags := some flags } := by
        intro options result converted
        rw [alike]
        refine ⟨rfl, converted.trans ?_⟩
        rw [← flags_convert converted]
      have read := read_inline (whole alone) rfl ok
      rw [whole aloneAgain] at read
      refine build_eq_ok_iff.mpr ⟨_, read, ?_⟩
      change Reading.compile _ (some '/') = _
      rw [Reading.compile_delimited rfl, ← made, ← flags_convert aloneAgain]
  · contradiction

end

theorem compile_inline_ungreedy :
    ∃ p, ({ options := { ignoreCase := true, ungreedy := true } } : Builder).compile
          "(?>a|b)c++d*\\]".toList = .ok p ∧
        p.source = "(?=(a|b))\\1(?=(c+))\\2d*?\\]".toList ∧
        (({} : Builder).delimited '/').compile "(?>a|b)c++d*\\]/iU".toList = .ok p := by
  obtain ⟨p, compiled, source⟩ : ∃ p,
      ({ options := { ignoreCase := true, ungreedy := true } } : Builder).compile
          "(?>a|b)c++d*\\]".toList = .ok p ∧
        p.source = "(?=(a|b))\\1(?=(c+))\\2d*?\\]".toList :=
    exists_of_evaluated (by decide +kernel)
  have first : ∃ first, convert {} none "(?>a|b)c++d*\\]".toList = .ok first := ⟨_, rfl⟩
  have inline : ∀ p, (({} : Builder).delimited '/').compile
      ("(?>a|b)c++d*\\]".toList ++ '/' :: "iU".toList) = .ok p ↔ _ :=
    compile_inline rfl (by decide) (by decide) (by decide) rfl
  exact ⟨p, compiled, source, (inline p).mpr ⟨compiled, first⟩⟩

end Builder

end PatternDialect
