import PatternDialect.Proofs.InlineFlags
import PatternDialect.Proofs.OutlinedUnits

/-! Source that is put into a template.

The source of a compiled pattern may be a part of another pattern.  Main statement: where no
step of its conversion writes what is taken for something else, the source is compiled to
itself, with the same slots visible. -/

namespace PatternDialect

open Character Source Syntax

namespace Conversion

/-- The output up to the innermost open group is read as it is. -/
def Reopens (frames : List Frame) (before : Text) (slots : List Slot) : Prop :=
  ∀ tail : Text, (frames.head?.any Frame.isBare = true → tail.firstSignificant? ≠ some '?') →
    ∃ t : State, conclude {} none (.start (before ++ tail)) = conclude {} none t ∧ t.rest = tail ∧
      t.out = before ∧ t.groups.declared = slots ∧ t.frames = frames ∧ t.Fresh

variable {frames : List Frame} {before tail : Text} {slots : List Slot} {layer : Layer}

theorem reopens_nil : Reopens [] [] [] := fun tail _ =>
  ⟨.start tail, rfl, rfl, rfl, rfl, rfl, direct_start tail, Recorded.nothing _ _,
    Recorded.nothing _ _⟩

theorem Reopens.rereads (reopens : Reopens frames layer.before layer.slots)
    (sound : layer.Sound frames) (follows : Follows tail layer.outline)
    (unmarked : tail.firstSignificant? ≠ some '?') :
    ∃ t : State, conclude {} none (.start (layer.text ++ tail)) = conclude {} none t ∧
      t.rest = tail ∧ t.out = layer.text ∧ t.groups.declared = layer.declared ∧
        t.frames = frames ∧ Direct layer.outline.refers t ∧
          t.Recalls layer.before.size layer.index t.out.size layer.outline := by
  obtain ⟨t, outcome, rest, out, groups, level, fresh⟩ :=
    reopens (layer.outline.source layer.index ++ tail) fun bare =>
      sound.whole.significant (sound.unmarked bare) _ unmarked
  have size : t.groups.size = layer.index := by rw [GroupTable.size, groups, Layer.index]
  obtain ⟨next, read⟩ := readable_of_whole sound.whole t tail fresh
    (fun top => by rw [level]; simpa using top) follows (by rw [rest, size])
  have recalls := read.recalls
  rw [out, size] at recalls
  refine ⟨next, ?_, read.rest, ?_, ?_, read.frames.trans level, read.direct, recalls⟩
  · rw [Layer.text, List.append_assoc, outcome, read.outcome]
  · rw [read.out, out, size]
    rfl
  · rw [read.groups, groups]
    rfl

theorem reopens_of_layers (layers : Layers frames before slots)
    (closed : ∀ frame ∈ frames, State.isAtomic frame = false) : Reopens frames before slots := by
  induction layers with
  | base => exact reopens_nil
  | inner layer form visible sound layers ih =>
      have native : form.isNative = true := by
        have open_ := closed _ (List.mem_cons_self ..)
        cases form <;> first | rfl | contradiction
      obtain ⟨⟨left, opens⟩, _⟩ := form.opening_spec false false
      intro tail unmarked
      have reopens : Reopens _ layer.before layer.slots :=
        ih fun frame member => closed frame (by simp [member])
      have follows : Follows (form.opening false false ++ tail) layer.outline :=
        Follows.of_parted (by rw [opens]; rfl) _
      have mark : (form.opening false false ++ tail).firstSignificant? ≠ some '?' := by
        rw [opens]
        exact (unmarked_cons rfl (by decide) _).1
      obtain ⟨t, outcome, rest, out, groups, level, direct, recalls⟩ :=
        reopens.rereads sound follows mark
      have size : t.groups.size = layer.own := by rw [GroupTable.size, groups, layer.own_eq]
      obtain ⟨next, passes, fresh, frames⟩ :=
        enters_native direct recalls native rest fun bare =>
          unmarked ((Frame.isBare_kindOf form _ _).trans bare)
      refine ⟨next, ?_, passes.rest, ?_, ?_, ?_, fresh⟩
      · rw [List.append_assoc, outcome, passes.outcome]
      · rw [passes.out, out]
      · rw [passes.groups, groups]
      · rw [frames, size, out, level]

theorem conclude_backslash {s : State} (rest : s.rest = ['\\']) :
    conclude {} none s = finish (s.copy 1) := by
  have nothing : s.next? none = none := by
    rw [State.next?_plain rest (by simp), Construct.plain?_backslash]
    exact ite_self _
  have step : s.step {} none = .ok (s.copy 1) := by
    rw [State.step, nothing, State.copyPlain_of_not_digit rest rfl]
  rw [conclude_ok (by simp [rest]) step, conclude_nil (by simp [rest])]

/-- What has a whole outline is converted to itself. -/
theorem convert_outlined {s : State} {left : Text} (outlined : s.Outlined layer left)
    (class_ : s.inClass = false) (closed : s.frames.any State.isAtomic = false) :
    convert {} none s.out = .ok ⟨s.out, ⟨s.groups.declared.map Slot.unnamed⟩, none⟩ := by
  have open_ : ∀ frame ∈ s.frames, State.isAtomic frame = false := by
    simpa [List.any_eq_false] using closed
  have reopens := reopens_of_layers outlined.layers open_
  have finished : ∀ t : State, t.inClass = false → t.flags = none → t.frames = s.frames →
      t.groups.declared = layer.declared →
        finish t = .ok ⟨t.out, ⟨s.groups.declared.map Slot.unnamed⟩, none⟩ := by
    intro t outside flags frames groups
    have table : t.groups = ⟨s.groups.declared.map Slot.unnamed⟩ := by
      rw [outlined.groups, ← groups]
    rw [finish_eq_ok_iff]
    exact ⟨outside, by rw [frames, closed], by rw [table, flags]⟩
  rw [convert_eq_conclude, outlined.out]
  cases outlined.token with
  | none =>
      obtain ⟨t, outcome, rest, out, groups, level, direct, _⟩ :=
        reopens.rereads outlined.sound (Follows.of_parted (rfl : Parted []) _) (by decide)
      have outside := State.inClass_of_place direct.pause.place
      rw [outcome, conclude_nil rest, finished t outside direct.flags level groups, out,
        List.append_nil]
  | escape =>
      obtain ⟨t, outcome, rest, out, groups, level, direct, _⟩ :=
        reopens.rereads outlined.sound (Follows.of_parted (rfl : Parted ['\\']) _) (by decide)
      have outside := State.inClass_of_place direct.pause.place
      have written : (t.copy 1).out = layer.text ++ ['\\'] := by simp [rest, out]
      rw [outcome, conclude_backslash rest, finished (t.copy 1) outside direct.flags level groups,
        written]
  | class_ body start =>
      simp [State.inClass, start] at class_

end Conversion

namespace Builder

open Conversion

section

variable [Engine]

theorem build_of_merge {b : Builder} {template : Template} {text : Text}
    (merged : ∀ options, template.merge options = .ok text) :
      b.build template = b.compile text := by
  have plain : ∀ options, Template.merge { head := text } options = .ok text := by
    simp [Template.merge, Template.mergeFrom]
  have same : ∀ options, b.readWith template options = b.readWith { head := text } options := by
    intro options
    rw [readWith, readWith, merged, plain]
  simp only [compile, build, read, same]

/-- A compiled pattern can be put into a template: its source is compiled to itself, with
the same slots visible.  No step of its conversion may write what is taken for something else. -/
theorem build_spliced {text : Text} {p : Pattern} (short : text.length < Atom.searchReach)
    (faithful : ∀ s ∈ visited {} none text.length (.start text), s.isFaithful = true)
    (compiled : ({} : Builder).compile text = .ok p) :
    ∃ again, ({} : Builder).build (Template.append { head := [] } (.source p.source)) = .ok again ∧
      again.source = p.source ∧ again.program = p.program ∧
        again.groups.slots.map Slot.isVisible = p.groups.slots.map Slot.isVisible := by
  obtain ⟨result, converted, prepared⟩ := compile_eq_ok_iff.mp compiled
  obtain ⟨program, accepted, rfl⟩ := Reading.compile_eq_ok_iff.mp prepared
  obtain ⟨final, ran, finished⟩ := run_of_convert converted
  obtain ⟨class_, closed, rfl⟩ := finish_eq_ok_iff.mp finished
  obtain ⟨layer, left, outlined⟩ :=
    (trace_of_run ran).outlined faithful short (.start text) (.start text)
  have merged : ∀ options,
      (Template.append { head := [] } (.source final.out)).merge options = .ok final.out := by
    simp [Template.merge, Template.mergeFrom, Template.append, Substitution.render]
  have again : ({} : Builder).compile final.out = .ok (Reading.pattern ⟨{}, final.out, final.out,
      ⟨final.groups.declared.map Slot.unnamed⟩, none⟩ none program) := by
    rw [compile_of_convert (convert_outlined outlined class_ closed), Reading.compile_eq_ok_iff]
    exact ⟨program, accepted, rfl⟩
  have visible : Slot.isVisible ∘ Slot.unnamed = Slot.isVisible := funext Slot.isVisible_unnamed
  refine ⟨_, (build_of_merge merged).trans again, rfl, rfl, ?_⟩
  simp [Reading.pattern, GroupTable.slots, visible]

end

theorem build_spliced_emulations :
    ∃ p again, ({} : Builder).compile
        "^(?<n>\\cA)++ 1(?>.*?)?\\0[$]\\p\x7bL\x7d\x7bx ]$".toList = .ok p ∧
      p.source =
        "^(?=((\\cA)+))\\1(?:)1(?:(?=(.*?))\\3)?\\0[$]\\p\x7bL\x7d\x7bx(?:)]$".toList ∧
      p.groups.declared = [.suppressed, .named ['n'], .suppressed] ∧
        ({} : Builder).build (Template.append { head := [] } (.source p.source)) = .ok again ∧
          again.source = p.source ∧ again.program = p.program ∧
            again.groups.slots.map Slot.isVisible = p.groups.slots.map Slot.isVisible := by
  obtain ⟨p, compiled, shown⟩ : ∃ p, ({} : Builder).compile
      "^(?<n>\\cA)++ 1(?>.*?)?\\0[$]\\p\x7bL\x7d\x7bx ]$".toList = .ok p ∧
        (p.source, p.groups.declared) =
          ("^(?=((\\cA)+))\\1(?:)1(?:(?=(.*?))\\3)?\\0[$]\\p\x7bL\x7d\x7bx(?:)]$".toList,
            [.suppressed, .named ['n'], .suppressed]) :=
    exists_of_evaluated (by decide +kernel)
  obtain ⟨source, declared⟩ := Prod.mk.inj shown
  obtain ⟨again, built⟩ := build_spliced (by decide) (by decide +kernel) compiled
  exact ⟨p, again, compiled, source, declared, built⟩

-- An escaped blank is a bare blank in the source, and dropped when it is read again.
example : (({} : Builder).compile "a\\ b".toList).toOption.map (·.source) = some "a b".toList ∧
    (({} : Builder).build (Template.append { head := [] } (.source "a b".toList))).toOption.map
      (·.source) = some "ab".toList := by
  decide +kernel

end Builder

end PatternDialect
