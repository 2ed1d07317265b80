import PatternDialect.Native
import PatternDialect.Proofs.Delimiters
import PatternDialect.Proofs.Snapshots

/-! A pattern compiled again from what it remembers of its making. -/

namespace PatternDialect

open Conversion

namespace Builder

variable {b : Builder} {template : Template} {reading : Reading}

structure Sound (b : Builder) (reading : Reading) : Prop where
  converted : convert reading.options b.delimiter reading.text = .ok reading.result
  reachable : reading.options.Reachable

theorem sound_readWith {options : Options} (reachable : options.Reachable)
    (ok : b.readWith template options = .ok reading) : b.Sound reading := by
  unfold readWith at ok
  split at ok
  · split at ok
    · rename_i converted
      cases ok
      exact ⟨converted, reachable⟩
    · contradiction
  · contradiction

theorem sound_read (reachable : b.options.Reachable) (ok : b.read template = .ok reading) :
    b.Sound reading := by
  unfold read at ok
  split at ok
  · rename_i first readFirst
    split at ok
    · split at ok
      · rename_i refined accepted
        split at ok
        · cases ok
          exact sound_readWith reachable readFirst
        · exact sound_readWith (.refine accepted reachable) ok
      · contradiction
    · cases ok
      exact sound_readWith reachable readFirst
  · contradiction

theorem readWith_text (b : Builder) (text : Text) (options : Options) :
    b.readWith { head := text } options =
      (convert options b.delimiter text).map fun result => { options, text, result } := by
  have merged : Template.merge { head := text } options = .ok text := by
    simp [Template.merge, Template.mergeFrom]
  simp only [readWith, merged]
  cases convert options b.delimiter text <;> rfl

theorem Sound.convert_body (sound : b.Sound reading)
    (ordinary : ∀ d, b.delimiter = some d → Ordinary d)
    (closed : ∀ d, b.delimiter = some d → reading.options.extra = true →
      reading.options.unicode = true →
        State.closesProperties d [] (reading.body b.delimiter) = true) :
    convert reading.options none (reading.body b.delimiter) =
      .ok { reading.result with flags := none } := by
  have converted := sound.converted
  cases delimiter : b.delimiter with
  | none =>
      rw [delimiter] at converted
      have absent := flags_convert converted
      rw [← absent]
      exact converted
  | some d =>
      rw [delimiter] at converted
      rcases convert_delimited (ordinary d delimiter) converted with
        ⟨absent, whole⟩ | ⟨body, flags, divides⟩
      · have all : reading.body (some d) = reading.text := by
          unfold Reading.body
          rw [absent]
        rw [all, ← absent]
        exact whole
      · have front : reading.body (some d) = body := by
          unfold Reading.body
          rw [divides.found]
          have parts : reading.text = body ++ d :: flags := divides.parts
          have length : reading.text.length - flags.length - 1 = body.length := by
            simp only [parts, List.length_append, List.length_cons]
            omega
          dsimp only
          rw [length, parts, List.take_left]
        rw [front]
        apply divides.alone
        intro extra unicode _
        rw [← front, ← delimiter]
        exact closed d delimiter extra unicode

section

variable [Engine]

theorem compile_of_convert {options : Options} {text : Text} {result : Conversion.Result}
    (converted : convert options none text = .ok result) :
    ({ options } : Builder).compile text = Reading.compile { options, text, result } none := by
  have read : ({ options } : Builder).read { head := text } = .ok { options, text, result } := by
    simp only [Builder.read, readWith_text, converted, Except.map, flags_convert converted]
  simp only [compile, build, read]

/-- The pattern of a reading with the given program. -/
def Reading.pattern (reading : Reading) (delimiter : Option Char) (program : Engine.Program) :
    Pattern where
  program
  source := reading.result.source
  flags := reading.options.nativeFlags
  authoredSource := reading.body delimiter
  authoredFlags := reading.options.allFlags
  groups := reading.result.groups

theorem Reading.compile_eq_ok_iff {delimiter : Option Char} {p : Pattern} :
    reading.compile delimiter = .ok p ↔
      ∃ program, Engine.prepare reading.result.source reading.options.nativeFlags = .ok program ∧
        p = reading.pattern delimiter program := by
  unfold Reading.compile
  cases Engine.prepare reading.result.source reading.options.nativeFlags with
  | error cause => simp
  | ok program => simp [Reading.pattern, eq_comm]

theorem build_eq_ok_iff {p : Pattern} :
    b.build template = .ok p ↔
      ∃ reading, b.read template = .ok reading ∧ reading.compile b.delimiter = .ok p := by
  unfold build
  cases b.read template <;> simp

/-- A pattern is compiled again from its authored source and flags.  The delimiter must
be one that no construct reads for something else, and a property must not be closed
behind it. -/
theorem compile_authored {p : Pattern} (reachable : b.options.Reachable)
    (ordinary : ∀ d, b.delimiter = some d → Ordinary d)
    (closed : ∀ d, b.delimiter = some d → 'X' ∈ p.authoredFlags → 'u' ∈ p.authoredFlags →
      State.closesProperties d [] p.authoredSource = true)
    (built : b.build template = .ok p) :
    ∃ again, ({} : Builder).withFlags p.authoredFlags = .ok again ∧
      again.compile p.authoredSource = .ok p := by
  obtain ⟨reading, read, compiled⟩ := build_eq_ok_iff.mp built
  obtain ⟨program, native, rfl⟩ := Reading.compile_eq_ok_iff.mp compiled
  have sound := sound_read reachable read
  have converted := sound.convert_body ordinary fun d delimiter extra unicode =>
    closed d delimiter (Options.mem_allFlags .extra extra) (Options.mem_allFlags .unicode unicode)
  refine ⟨{ options := reading.options }, ?_, ?_⟩
  · simp [withFlags, Reading.pattern, Options.refine_allFlags sound.reachable.tidy]
  · change ({ options := reading.options } : Builder).compile (reading.body b.delimiter) = _
    rw [compile_of_convert converted, Reading.compile_eq_ok_iff]
    exact ⟨program, native, rfl⟩

end

theorem compile_authored_delimited :
    ∃ p again,
      ({ options := { unicode := true, extra := true }, delimiter := some '/' } : Builder).build
          { head := "(?<w>\\w++) \\/ [/] #tail/\n \\u\x7b12345\x7d/iU".toList } = .ok p ∧
        p.authoredSource = "(?<w>\\w++) \\/ [/] #tail/\n \\u\x7b12345\x7d".toList ∧
        p.authoredFlags = "iuUX".toList ∧
        ({} : Builder).withFlags p.authoredFlags = .ok again ∧
        again.compile p.authoredSource = .ok p := by
  have reachable : Options.Reachable { unicode := true, extra := true } :=
    .set .extra true (.set .unicode true .start)
  obtain ⟨p, built, remembered⟩ : ∃ p,
      ({ options := { unicode := true, extra := true }, delimiter := some '/' } : Builder).build
          { head := "(?<w>\\w++) \\/ [/] #tail/\n \\u\x7b12345\x7d/iU".toList } = .ok p ∧
        (p.authoredSource, p.authoredFlags) =
          ("(?<w>\\w++) \\/ [/] #tail/\n \\u\x7b12345\x7d".toList, "iuUX".toList) :=
    exists_of_evaluated (by decide +kernel)
  obtain ⟨source, flags⟩ := Prod.mk.inj remembered
  have ordinary : ∀ d, some '/' = some d → Ordinary d := by
    rintro d ⟨⟩
    exact ordinary_slash
  have closed : ∀ d, some '/' = some d → 'X' ∈ p.authoredFlags → 'u' ∈ p.authoredFlags →
      State.closesProperties d [] p.authoredSource = true := by
    rintro d ⟨⟩ _ _
    rw [source]
    decide +kernel
  obtain ⟨again, bound, compiled⟩ := compile_authored reachable ordinary closed built
  exact ⟨p, again, built, source, flags, bound, compiled⟩

end Builder

end PatternDialect
