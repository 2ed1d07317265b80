import PatternDialect.Proofs.Runs
import PatternDialect.Proofs.UnitCuts

/-! Atoms that may be repeated: the source can be cut where they start, and what
is rewritten there spares the open groups. -/

namespace PatternDialect.Conversion

open Character Source Backreference

def FrameKind.slot? : FrameKind → Option Nat
  | .capture slot | .atomic slot => some slot
  | .plain | .lookahead _ => none

def Frame.top (frame : Frame) : Nat := frame.firstGroup + frame.kind.slot?.isSome.toNat

/-- The groups that are open where the atom starts have their slots before it, and
can still be cut when it is rewritten. -/
def Clear (out : Text) (frames : List Frame) (a : Atom) : Prop :=
  ∀ frame ∈ frames, frame.top ≤ a.firstGroup ∧
    Anchored out (min a.start frame.start) frame.start frame.firstGroup

structure Repeatable (out : Text) (groups : GroupTable) (frames : List Frame) (a : Atom) :
    Prop where
  positive : 0 < a.firstGroup
  bounded : a.firstGroup ≤ groups.size
  anchored : Anchored out a.start a.start a.firstGroup
  clear : Clear out frames a

/-- An atom before which the source may be cut and rewritten. -/
structure Cuttable (out : Text) (groups : GroupTable) (frames : List Frame) (a : Atom) :
    Prop where
  positive : 0 < a.firstGroup
  bounded : a.firstGroup ≤ groups.size
  severed : Severed (out.takeBytes a.start) (out.dropBytes a.start) a.firstGroup
  reopened : ∀ {edit : Text → Text} {w : Text}, Sparing edit → w ≠ [] →
    (∀ c ∈ w, isOrdinary c = true) → ∀ closing,
      Anchored (out.takeBytes a.start ++ (w ++ (edit (out.dropBytes a.start) ++ closing)))
        a.start a.start a.firstGroup
  clear : Clear out frames a

variable {out : Text} {groups : GroupTable} {frames : List Frame} {a : Atom}

theorem Repeatable.cuttable (repeatable : Repeatable out groups frames a) :
    Cuttable out groups frames a := by
  refine ⟨repeatable.positive, repeatable.bounded, repeatable.anchored.severed, ?_,
    repeatable.clear⟩
  intro edit w sparing filled ordinary closing
  have anchored : Anchored out (min a.start a.start) a.start a.firstGroup := by
    rw [Nat.min_self]
    exact repeatable.anchored
  have rewritten := anchored.rewrite sparing filled ordinary closing
  rwa [Nat.min_self] at rewritten

theorem Clear.rewrite (clear : Clear out frames a) {edit : Text → Text} (sparing : Sparing edit)
    {w : Text} (filled : w ≠ []) (ordinary : ∀ c ∈ w, isOrdinary c = true) (closing : Text)
    {b : Atom} (start : b.start = a.start) (first : b.firstGroup = a.firstGroup) :
    Clear (out.takeBytes a.start ++ (w ++ (edit (out.dropBytes a.start) ++ closing))) frames b := by
  intro frame member
  obtain ⟨top, anchored⟩ := clear frame member
  rw [start, first]
  exact ⟨top, anchored.rewrite sparing filled ordinary closing⟩

theorem cuttable_of_unit {unit : Text} (found : Atom.trailingUnit? out = some unit)
    (outside : Place.outside.after out = .outside)
    (below : ∀ n ∈ references out, n < groups.size) (reach : groups.size ≤ Atom.searchReach)
    (anchors : ∀ frame ∈ frames, frame.top ≤ groups.size ∧
      Anchored out frame.start frame.start frame.firstGroup) :
    Cuttable out groups frames ⟨out.size - unit.size, out.size, groups.size, false⟩ := by
  obtain ⟨front, parts, cut⟩ := Atom.unitCut_of_trailingUnit? found outside below reach
  have start : out.size - unit.size = front.size := by
    rw [parts, Text.size_append]
    omega
  have complete :
      unit.length = 1 ∨ ∃ body, unit = '\\' :: body ∧ Atom.isEscapeBody body = true := by
    obtain ⟨_, _, kind⟩ := Atom.trailingUnit?_sound found
    rcases kind with ⟨body, written, _, complete⟩ | ⟨c, written, _⟩
    · exact Or.inr ⟨body, written, complete⟩
    · left
      simp [written]
  have before : out.takeBytes (out.size - unit.size) = front := by
    rw [start, parts, Text.takeBytes_size_append]
  have behind : out.dropBytes (out.size - unit.size) = unit := by
    rw [start, parts, Text.dropBytes_size_append]
  have positive : 0 < groups.size := by simp [GroupTable.size]
  rw [parts] at outside
  refine ⟨positive, Nat.le_refl _, ?_, ?_, ?_⟩
  · rw [before, behind]
    exact cut.toSevered
  · intro edit w sparing filled ordinary closing
    rw [before, behind, start]
    exact cut.anchored_opened outside sparing filled ordinary closing
  · intro frame member
    obtain ⟨top, anchored⟩ := anchors frame member
    refine ⟨top, ?_⟩
    rw [parts] at anchored
    rw [start, parts]
    exact cut.anchored complete outside anchored

namespace Cuttable

theorem wrap_shape (out : Text) (a : Atom) : (a.wrap out).1 =
    out.takeBytes a.start ++ (['(', '?', ':'] ++ (out.dropBytes a.start ++ [')'])) := by
  simp [Atom.wrap]

theorem wrap (cuttable : Cuttable out groups frames a)
    (outside : Place.outside.after out = .outside) :
    references (a.wrap out).1 = references out ∧
      Reader.start.after (a.wrap out).1 = ⟨.outside, []⟩ ∧
        Repeatable (a.wrap out).1 groups frames (a.wrap out).2 ∧
          out.size < (a.wrap out).1.size := by
  have parts := Text.takeBytes_append_dropBytes a.start out
  have ordinary : ∀ c ∈ ['(', '?', ':'], isOrdinary c = true :=
    List.all_eq_true.mp (by decide)
  obtain ⟨same, after⟩ := cuttable.severed.references_wrap (by rw [parts]; exact outside)
  rw [parts] at same
  rw [wrap_shape]
  refine ⟨same, after, ⟨cuttable.positive, cuttable.bounded, ?_, ?_⟩, ?_⟩
  · exact cuttable.reopened sparing_id (by decide) ordinary [')']
  · exact cuttable.clear.rewrite sparing_id (by decide) ordinary [')'] rfl rfl
  · have sizes := congrArg Text.size parts
    simp only [Text.size_append] at sizes ⊢
    have wide : 0 < Text.size ['(', '?', ':'] := Text.size_pos (by decide)
    omega

theorem clamp_eq (cuttable : Cuttable out groups frames a) :
    groups.clamp a.firstGroup = a.firstGroup := by
  have positive := cuttable.positive
  have bounded := cuttable.bounded
  unfold GroupTable.clamp
  omega

theorem possess_shape (cuttable : Cuttable out groups frames a) (amount : Text) :
    (Atom.makePossessive out groups a amount).source =
      out.takeBytes a.start ++ (Atom.atomicOpen ++
        (renumber a.firstGroup 1 (out.dropBytes a.start) ++
        (amount ++ Atom.atomicClose a.firstGroup))) := by
  simp [Atom.makePossessive, cuttable.clamp_eq]

theorem references_behind (cuttable : Cuttable out groups frames a) {n : Nat}
    (member : n ∈ references (out.dropBytes a.start)) : n ∈ references out := by
  rw [← Text.takeBytes_append_dropBytes a.start out,
    references_append cuttable.severed.fits cuttable.severed.nonempty]
  exact List.mem_append_right _ member

theorem possess (cuttable : Cuttable out groups frames a)
    (outside : Place.outside.after out = .outside)
    (small : ∀ n ∈ references out, n + 1 < Decimal.limit) {amount : Repeat}
    (legible : amount.Legible) :
    references (Atom.makePossessive out groups a amount.text).source =
        (references out).map (bump a.firstGroup) ++ [a.firstGroup] ∧
      Reader.start.after (Atom.makePossessive out groups a amount.text).source =
        ⟨.outside, (Decimal.write a.firstGroup).reverse⟩ ∧
        Repeatable (Atom.makePossessive out groups a amount.text).source
          (Atom.makePossessive out groups a amount.text).groups frames
          (Atom.makePossessive out groups a amount.text).atom ∧
          out.size < (Atom.makePossessive out groups a amount.text).source.size := by
  have parts := Text.takeBytes_append_dropBytes a.start out
  have ordinary : ∀ c ∈ Atom.atomicOpen, isOrdinary c = true :=
    List.all_eq_true.mp (by decide)
  have positive := cuttable.positive
  have bounded := cuttable.bounded
  have slot := cuttable.clamp_eq
  obtain ⟨c, rest, written, noDigit⟩ := legible.head
  have flat : Place.isFlat amount.text = true := by
    simp only [Place.isFlat, List.all_eq_true, Bool.and_eq_true, bne_iff_ne]
    intro d member
    have ne := Repeat.ne_of_isAmount (legible.all d member)
    exact ⟨⟨ne.1, ne.2.1⟩, ne.2.2.2⟩
  obtain ⟨numbers, after⟩ := cuttable.severed.references_possess positive
    (by rw [parts]; exact outside) (by rw [parts]; exact small)
    (by rw [written]; simp) flat (by rw [written]; simp [noDigit])
  rw [parts] at numbers
  have sparing := sparing_renumber a.firstGroup 1
  have longer : (out.dropBytes a.start).size ≤
      (renumber a.firstGroup 1 (out.dropBytes a.start)).size := by
    have bound := size_renumberFrom a.firstGroup Reader.Proper.start (out.dropBytes a.start)
      fun n member => small n (cuttable.references_behind member)
    simpa [Reader.start, renumber] using bound
  have repeated : (Atom.makePossessive out groups a amount.text).atom.start = a.start ∧
      (Atom.makePossessive out groups a amount.text).atom.firstGroup = a.firstGroup := by
    simp [Atom.makePossessive, slot]
  have table : (Atom.makePossessive out groups a amount.text).groups.size = groups.size + 1 :=
    GroupTable.size_insertSuppressed groups a.firstGroup
  rw [cuttable.possess_shape]
  refine ⟨numbers, after, ⟨?_, ?_, ?_, ?_⟩, ?_⟩
  · rw [repeated.2]
    exact positive
  · rw [repeated.2, table]
    omega
  · rw [repeated.1, repeated.2]
    exact cuttable.reopened sparing (by decide) ordinary _
  · exact cuttable.clear.rewrite sparing (by decide) ordinary _ repeated.1 repeated.2
  · have sizes := congrArg Text.size parts
    have wide : 0 < Atom.atomicOpen.size := Text.size_pos (by decide)
    simp only [Text.size_append] at sizes ⊢
    omega

end Cuttable

end PatternDialect.Conversion
