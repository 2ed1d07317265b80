import PatternDialect.Proofs.Outcome

/-! What was read before counts only for one thing: whether the next character is
escaped. -/

namespace PatternDialect

theorem Escape.occursUnescaped_past {first second : Text} (same : pending first = pending second)
    (wanted : Char) (text : Text) :
    occursUnescaped wanted first text = occursUnescaped wanted second text := by
  induction text generalizing first second with
  | nil => rfl
  | cons c rest ih =>
      have later : pending (c :: first) = pending (c :: second) := pending_append same [c]
      rw [occursUnescaped, occursUnescaped, same, ih later]

namespace Conversion

namespace State

/-- States that differ in the text read, but not in whether a character is escaped. -/
inductive Level (s : State) : State → Prop where
  | mk (past : Text) (same : Escape.pending past = Escape.pending s.before) :
      Level s { s with before := past }

inductive Leveled : Except Fault State → Except Fault State → Prop where
  | ok {s t : State} (level : s.Level t) : Leveled (.ok s) (.ok t)
  | error (fault : Fault) : Leveled (.error fault) (.error fault)

variable {options : Options} {delimiter : Option Char} {s t : State}

theorem Level.escaped (level : s.Level t) : t.escaped = s.escaped := by
  cases level with
  | mk past same => exact same

theorem Level.skip (level : s.Level t) (count : Nat) : (s.skip count).Level (t.skip count) := by
  cases level with
  | mk past same => exact .mk _ (Escape.pending_append same _)

theorem Level.emit (level : s.Level t) (text : Text) : (s.emit text).Level (t.emit text) := by
  cases level with
  | mk past same => exact .mk past same

theorem Level.copy (level : s.Level t) (count : Nat) : (s.copy count).Level (t.copy count) := by
  cases level with
  | mk past same => exact (Level.mk past same : (s.emit _).Level _).skip count

theorem Level.dropEscape (level : s.Level t) : s.dropEscape.Level t.dropEscape := by
  cases level with
  | mk past same =>
      unfold State.dropEscape
      dsimp only
      split
      · exact .mk past same
      · exact .mk past same

theorem Level.ite {first second : Prop} [Decidable first] [Decidable second]
    (same : first ↔ second) {a b c d : State} (yes : a.Level c) (no : b.Level d) :
    (if first then a else b).Level (if second then c else d) := by
  by_cases holds : first
  · rw [if_pos holds, if_pos (same.mp holds)]
    exact yes
  · rw [if_neg holds, if_neg (mt same.mpr holds)]
    exact no

theorem Leveled.ite {first second : Prop} [Decidable first] [Decidable second]
    (same : first ↔ second) {a b c d : Except Fault State} (yes : Leveled a c) (no : Leveled b d) :
    Leveled (if first then a else b) (if second then c else d) := by
  by_cases holds : first
  · rw [if_pos holds, if_pos (same.mp holds)]
    exact yes
  · rw [if_neg holds, if_neg (mt same.mpr holds)]
    exact no

theorem Leveled.bind {α : Type} (first : Except Fault α) {one other : α → Except Fault State}
    (each : ∀ value, Leveled (one value) (other value)) :
    Leveled (first >>= one) (first >>= other) := by
  cases first with
  | error fault => exact .error fault
  | ok value => exact each value

section Handlers

variable {past : Text} (same : Escape.pending past = Escape.pending s.before)

include same

theorem level_copyPlain : s.copyPlain.Level (copyPlain { s with before := past }) := by
  unfold copyPlain
  dsimp only
  split
  · exact .mk past same
  · exact .ite Iff.rfl ((Level.mk past same : (s.emit _).Level _).copy 1)
      ((Level.mk past same).copy 1)

theorem level_blank : s.blank.Level (State.blank { s with before := past }) := by
  have level : s.Level { s with before := past } := .mk past same
  refine .ite Iff.rfl (level.copy 1) (.ite (by rw [level.escaped]) (level.dropEscape.copy 1) ?_)
  exact .ite Iff.rfl ((level.skip 1).emit _) (level.skip 1)

theorem level_openClass : s.openClass.Level (State.openClass { s with before := past }) := by
  have level : s.Level { s with before := past } := .mk past same
  refine .ite (by rw [level.escaped]; rfl) (level.copy 1) ?_
  exact (Level.mk past same : Level { s with classStart := some s.out.size } _).copy 1

theorem level_closeClass : s.closeClass.Level (State.closeClass { s with before := past }) := by
  have level : s.Level { s with before := past } := .mk past same
  unfold State.closeClass
  dsimp only
  split
  · refine .ite (by rw [level.escaped]) (level.copy 1) ?_
    exact .mk _ (Escape.pending_append same _)
  · exact level.copy 1

theorem level_dot (options : Options) :
    (s.dot options).Level (State.dot { s with before := past } options) := by
  have level : s.Level { s with before := past } := .mk past same
  refine .ite (by rw [level.escaped]; rfl) (level.copy 1) ?_
  exact .mk _ (Escape.pending_append same _)

theorem leveled_quantify (options : Options) (q : Quantifier) :
    Leveled (s.quantify options q) (quantify { s with before := past } options q) := by
  unfold quantify wrapEmulated
  have known : quantified? { s with before := past } q = s.quantified? q := rfl
  rw [known]
  have skipped := Escape.pending_append same (s.rest.take q.length).reverse
  cases s.quantified? q with
  | none => exact .ite Iff.rfl (.error _) (.ok (.mk _ skipped))
  | some atom =>
      dsimp only
      by_cases emulated : atom.emulated = true
      · simp only [emulated, ↓reduceIte]
        exact .ite Iff.rfl (.ok (.mk _ skipped)) (.ok (.mk _ skipped))
      · simp only [emulated, Bool.false_eq_true, ↓reduceIte]
        exact .ite Iff.rfl (.ok (.mk _ skipped)) (.ok (.mk _ skipped))

theorem leveled_quantifier (options : Options) (q : Quantifier) :
    Leveled (s.quantifier options q) (State.quantifier { s with before := past } options q) := by
  have level : s.Level { s with before := past } := .mk past same
  refine .ite (by rw [level.escaped]) (.ok (level.copy 1)) (.ite Iff.rfl (.ok (level.copy _)) ?_)
  have broken : State.brokenCut? { s with before := past } q = s.brokenCut? q := rfl
  rw [broken]
  cases s.brokenCut? q with
  | some offset => exact .error _
  | none => exact leveled_quantify same options q

theorem leveled_numberReference :
    Leveled s.numberReference (State.numberReference { s with before := past }) := by
  have level : s.Level { s with before := past } := .mk past same
  refine .ite (by rw [level.escaped]; rfl) (.ok (level.copy 1)) ?_
  exact .bind (s.resolveDigits _) fun slot => .ok (.mk _ (Escape.pending_append same _))

theorem leveled_nameReference (form : NameReference) :
    Leveled (s.nameReference form) (State.nameReference { s with before := past } form) := by
  have level : s.Level { s with before := past } := .mk past same
  refine .ite (by rw [level.escaped]) (.ok (level.copy 1)) (.ite Iff.rfl (.ok (level.copy _)) ?_)
  dsimp only
  cases Text.name? (s.rest.drop form.opener.length) with
  | none => exact .error _
  | some name =>
      exact .ite Iff.rfl
        (.bind (s.resolveDigits name) fun slot => .ok (.mk _ (Escape.pending_append same _)))
        (.bind (s.groups.resolveName name) fun slot => .ok (.mk _ (Escape.pending_append same _)))

theorem leveled_openCapture (options : Options) :
    Leveled (s.openCapture options) (openCapture { s with before := past } options) := by
  refine .ite Iff.rfl (.error _) (.ite Iff.rfl ?_ (.ite Iff.rfl ?_ ?_))
  all_goals exact .ok (.mk _ (Escape.pending_append same _))

theorem leveled_openNamed : Leveled s.openNamed (openNamed { s with before := past }) := by
  unfold openNamed
  dsimp only
  cases Text.name? (s.rest.drop 3) with
  | none => exact .error _
  | some name =>
      exact .bind (s.groups.pushNamed name) fun groups => .ok (.mk _ (Escape.pending_append same _))

theorem leveled_openGroup (options : Options) (form : Opener) :
    Leveled (s.openGroup options form)
    (State.openGroup { s with before := past } options form) := by
  have level : s.Level { s with before := past } := .mk past same
  refine .ite (by rw [level.escaped]) (.ok (level.copy 1)) (.ite Iff.rfl (.ok (level.copy _)) ?_)
  cases form with
  | capture => exact leveled_openCapture same options
  | named => exact leveled_openNamed same
  | unknown => exact .error _
  | plain => exact .ok (.mk _ (Escape.pending_append same _))
  | lookbehind negative => exact .ok (.mk _ (Escape.pending_append same _))
  | lookahead negative => exact .ok (.mk _ (Escape.pending_append same _))
  | atomic => exact .ok (.mk _ (Escape.pending_append same _))

theorem level_closeGroup : s.closeGroup.Level (State.closeGroup { s with before := past }) := by
  have level : s.Level { s with before := past } := .mk past same
  refine .ite (by rw [level.escaped]; rfl) (level.copy 1) ?_
  dsimp only
  split
  · exact level.copy 1
  · unfold emitClose
    split <;> exact .mk _ (Escape.pending_append same _)

theorem level_comment : s.comment.Level (State.comment { s with before := past }) := by
  have level : s.Level { s with before := past } := .mk past same
  exact .ite Iff.rfl (level.copy 1)
    (.ite (by rw [level.escaped]) (level.dropEscape.copy 1) (level.skip _))

theorem leveled_escapedDigit (digit : Char) :
    Leveled (s.escapedDigit digit) (State.escapedDigit { s with before := past } digit) := by
  have level : s.Level { s with before := past } := .mk past same
  refine .ite Iff.rfl (.ok (level.copy 2)) ?_
  dsimp only
  cases s.splice.filter (·.stop == s.out.size) with
  | some splice => exact .ok (.mk _ (Escape.pending_append same _))
  | none =>
      refine .ite Iff.rfl (.ok ?_) (.error _)
      exact .ite Iff.rfl ((level.copy 2).emit _) (level.copy 2)

theorem leveled_escapedLetter (options : Options) (letter : Char) :
    Leveled (s.escapedLetter options letter)
      (State.escapedLetter { s with before := past } options letter) := by
  have level : s.Level { s with before := past } := .mk past same
  unfold State.escapedLetter
  cases options.extra with
  | false => exact .ok (level.copy _)
  | true => exact .bind (checkEscape _ _ _) fun _ => .ok (level.copy _)

theorem leveled_flagsDelimiter (c : Char) :
    Leveled (s.flagsDelimiter c) (State.flagsDelimiter { s with before := past } c) := by
  have level : s.Level { s with before := past } := .mk past same
  refine .ite (by rw [level.escaped]; rfl) (.ok (level.copy 1)) ?_
  have later := Escape.pending_append same (s.rest.take 1).reverse
  refine .ite ?_ (.error _) (.ok ?_)
  · exact Iff.of_eq (congrArg (· = true)
      (Escape.occursUnescaped_past later c (s.rest.drop 1)).symm)
  · exact .mk _ (Escape.pending_append later _)

theorem leveled_read (options : Options) (construct : Construct) :
    Leveled (s.read options construct)
    (State.read { s with before := past } options construct) := by
  cases construct with
  | blank c => exact .ok (level_blank same)
  | openClass => exact .ok (level_openClass same)
  | closeClass => exact .ok (level_closeClass same)
  | dot => exact .ok (level_dot same options)
  | quantifier q => exact leveled_quantifier same options q
  | numberReference => exact leveled_numberReference same
  | nameReference form => exact leveled_nameReference same form
  | openGroup form => exact leveled_openGroup same options form
  | closeGroup => exact .ok (level_closeGroup same)
  | comment => exact .ok (level_comment same)
  | escapedDigit digit => exact leveled_escapedDigit same digit
  | escapedLetter letter => exact leveled_escapedLetter same options letter
  | flagsDelimiter c => exact leveled_flagsDelimiter same c

end Handlers

theorem Level.next? (level : s.Level t) (delimiter : Option Char) :
    t.next? delimiter = s.next? delimiter := by
  cases level with
  | mk past same =>
      unfold State.next? Construct.at? Construct.plain?
      rw [same]

theorem Level.step (level : s.Level t) :
    Leveled (s.step options delimiter) (t.step options delimiter) := by
  unfold State.step
  rw [level.next?]
  cases level with
  | mk past same =>
      cases s.next? delimiter with
      | none => exact .ok (level_copyPlain same)
      | some construct => exact leveled_read same options construct

end State

theorem conclude_level {options : Options} {delimiter : Option Char} {s t : State}
    (level : s.Level t) : conclude options delimiter t = conclude options delimiter s := by
  induction length : s.rest.length using Nat.strongRecOn generalizing s t with
  | ind n ih =>
      have rest : t.rest = s.rest := by cases level; rfl
      cases empty : s.rest with
      | nil =>
          rw [conclude_nil empty, conclude_nil (rest.trans empty)]
          cases level
          rfl
      | cons c more =>
          have filled : s.rest ≠ [] := by simp [empty]
          have filled' : t.rest ≠ [] := by rwa [rest]
          have leveled : State.Leveled (s.step options delimiter) (t.step options delimiter) :=
            level.step
          cases taken : s.step options delimiter with
          | error fault =>
              rw [taken] at leveled
              cases same : t.step options delimiter with
              | error other =>
                  rw [same] at leveled
                  cases leveled
                  rw [conclude_error filled taken, conclude_error filled' same]
              | ok next =>
                  rw [same] at leveled
                  cases leveled
          | ok next =>
              rw [taken] at leveled
              cases same : t.step options delimiter with
              | error other =>
                  rw [same] at leveled
                  cases leveled
              | ok later =>
                  rw [same] at leveled
                  cases leveled with
                  | ok level =>
                      rw [conclude_ok filled taken, conclude_ok filled' same]
                      exact ih _ (length ▸ State.length_rest_step filled taken) level rfl

end Conversion

end PatternDialect
