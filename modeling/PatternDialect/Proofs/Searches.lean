import PatternDialect.Native
import PatternDialect.Proofs.Text

/-! What the engine finds.

An expression is matched forwards, so a match that is searched from between two characters
lies behind that place and between characters itself. -/

namespace PatternDialect

namespace Native

namespace Cursor

/-- The second cursor is the first one with some text read forwards, whatever they captured. -/
def Precedes (s next : Cursor) : Prop :=
  ∃ covered, s.after = covered ++ next.after ∧ next.before = covered.reverse ++ s.before

variable {s next last : Cursor}

theorem Precedes.refl (s : Cursor) : s.Precedes s := ⟨[], rfl, rfl⟩

theorem Precedes.trans (first : s.Precedes next) (second : next.Precedes last) :
    s.Precedes last := by
  obtain ⟨covered, after, before⟩ := first
  obtain ⟨further, after', before'⟩ := second
  refine ⟨covered ++ further, ?_, ?_⟩
  · rw [after, after', List.append_assoc]
  · rw [before', before, List.reverse_append, List.append_assoc]

theorem precedes_read? {c : Char} (read : s.read? false = some (c, next)) : s.Precedes next := by
  unfold read? at read
  rw [if_neg (by decide)] at read
  split at read
  · rename_i after
    cases read
    exact ⟨[c], after, rfl⟩
  · contradiction

end Cursor

variable {modes : Modes} {s : Cursor} {text : Text}

def Forward (body : Cursor → Continuation → Option Cursor) : Prop :=
  ∀ s k last, body s k = some last → ∃ next, s.Precedes next ∧ k next = some last

theorem forward_matchOne (test : Char → Bool) : Forward (matchOne false test) := by
  intro s k last found
  unfold matchOne at found
  split at found
  · rename_i read
    split at found
    · exact ⟨_, Cursor.precedes_read? read, found⟩
    · contradiction
  · contradiction

theorem precedes_matchText {word : Text} {next : Cursor}
    (found : matchText modes false word s = some next) : s.Precedes next := by
  induction word generalizing s with
  | nil =>
      cases found
      exact .refl _
  | cons c word ih =>
      unfold matchText at found
      split at found
      · rename_i read
        split at found
        · exact (Cursor.precedes_read? read).trans (ih found)
        · contradiction
      · contradiction

theorem forward_matchRepeated {body : Cursor → Continuation → Option Cursor}
    (forward : Forward body)
    {reset : Cursor → Cursor} (still : ∀ s : Cursor, s.Precedes (reset s)) (greedy : Bool)
    (bound least : Nat)
    (most : Option Nat) : Forward (matchRepeated body reset greedy bound least most) := by
  induction bound generalizing least most with
  | zero =>
      intro s k last found
      contradiction
  | succ bound ih =>
      intro s k last found
      have once : ∀ {last}, (body (reset s) fun next =>
          if least = 0 && next.offset = s.offset then none
          else matchRepeated body reset greedy bound (least - 1) (most.map (· - 1)) next k) =
          some last →
            ∃ next, s.Precedes next ∧ k next = some last := by
        intro last found
        obtain ⟨next, behind, later⟩ := forward _ _ _ found
        split at later
        · contradiction
        · obtain ⟨final, further, rest⟩ := ih _ _ _ _ _ later
          exact ⟨final, ((still s).trans behind).trans further, rest⟩
      unfold matchRepeated at found
      dsimp only at found
      split at found
      · exact ⟨s, .refl s, found⟩
      split at found
      · exact once found
      split at found
      · split at found
        · rename_i more
          cases found
          exact once more
        · exact ⟨s, .refl s, found⟩
      · split at found
        · rename_i enough
          cases found
          exact ⟨s, .refl s, enough⟩
        · exact once found

theorem forward_run (text : Text) (e : Expression) (modes : Modes) :
    Forward (e.run text modes false) := by
  induction e generalizing modes with
  | empty => exact fun s k last found => ⟨s, .refl s, found⟩
  | literal code => exact forward_matchOne _
  | any => exact forward_matchOne _
  | characters items negated => exact forward_matchOne _
  | sequence first second ihFirst ihSecond =>
      intro s k last found
      obtain ⟨next, behind, later⟩ := ihFirst modes _ _ _ found
      obtain ⟨final, further, rest⟩ := ihSecond modes _ _ _ later
      exact ⟨final, behind.trans further, rest⟩
  | alternative first second ihFirst ihSecond =>
      intro s k last found
      unfold Expression.run at found
      split at found
      · rename_i taken
        cases found
        exact ihFirst modes _ _ _ taken
      · exact ihSecond modes _ _ _ found
  | group index body ih =>
      intro s k last found
      obtain ⟨next, behind, later⟩ := ih modes _ _ _ found
      exact ⟨next.capture index _, behind, later⟩
  | modified modifiers body ih => exact ih (modes.within modifiers)
  | reference index =>
      intro s k last found
      unfold Expression.run at found
      split at found
      · exact ⟨s, .refl s, found⟩
      · dsimp only at found
        split at found
        · rename_i read
          exact ⟨_, precedes_matchText read, found⟩
        · contradiction
  | lineStart | lineEnd | wordBoundary =>
      intro s k last found
      unfold Expression.run at found
      split at found
      · exact ⟨s, .refl s, found⟩
      · contradiction
  | look behind negated body ih =>
      intro s k last found
      unfold Expression.run at found
      split at found <;> split at found
      · contradiction
      · rename_i inner _ _
        exact ⟨{ s with captures := inner.captures }, .refl s, found⟩
      · exact ⟨s, .refl s, found⟩
      · contradiction
  | repetition bounds firstGroup endGroup body ih =>
      exact @forward_matchRepeated _ (ih modes) (·.forget firstGroup endGroup)
        (fun s => Cursor.Precedes.refl s) _ _ _ _

variable {program : Program} {before after front rest : Text} {raw : RawMatch}

theorem span_matchAt (found : program.matchAt text before after = some raw) :
    ∃ covered behind, after = covered ++ behind ∧
      raw.span = ⟨before.size, before.size + covered.size⟩ := by
  obtain ⟨last, run, rfl⟩ := Option.map_eq_some_iff.mp found
  obtain ⟨next, ⟨covered, parts, passed⟩, same⟩ := forward_run _ _ _ _ _ _ run
  cases same
  refine ⟨covered, last.after, parts, ?_⟩
  simp [Cursor.offset, passed, Nat.add_comm]

theorem span_search (found : program.search text before after = some raw) :
    ∃ skipped covered behind, after = skipped ++ (covered ++ behind) ∧
      raw.span = ⟨before.size + skipped.size, before.size + skipped.size + covered.size⟩ := by
  induction after generalizing before with
  | nil =>
      obtain ⟨covered, behind, parts, span⟩ := span_matchAt found
      exact ⟨[], covered, behind, parts, span⟩
  | cons c rest ih =>
      unfold Program.search at found
      split at found
      · rename_i first
        cases found
        obtain ⟨covered, behind, parts, span⟩ := span_matchAt first
        exact ⟨[], covered, behind, parts, span⟩
      · obtain ⟨skipped, covered, behind, rfl, span⟩ := ih found
        refine ⟨c :: skipped, covered, behind, rfl, span.trans ?_⟩
        simp only [Text.size_cons, Nat.add_comm c.utf8Size, Nat.add_assoc]

theorem span_findFrom {offset : Nat} (between : text.isBoundary offset = true)
    (found : program.findFrom text offset = some raw) :
    offset ≤ raw.span.start ∧ raw.span.start ≤ raw.span.stop ∧
      text.isBoundary raw.span.start = true ∧ text.isBoundary raw.span.stop = true := by
  obtain ⟨front, rest, rfl, rfl⟩ := Text.isBoundary_iff.mp between
  rw [Program.findFrom, Text.takeBytes_size_append, Text.dropBytes_size_append] at found
  obtain ⟨skipped, covered, behind, rfl, span⟩ := span_search found
  rw [Text.size_reverse] at span
  rw [span]
  refine ⟨Nat.le_add_right _ _, Nat.le_add_right _ _, ?_, ?_⟩
  · exact Text.isBoundary_iff.mpr ⟨front ++ skipped, covered ++ behind, by simp, by simp⟩
  · exact Text.isBoundary_iff.mpr ⟨front ++ skipped ++ covered, behind, by simp,
      by simp [Nat.add_assoc]⟩

end Native

end PatternDialect
