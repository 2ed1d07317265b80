import PatternDialect.Proofs.Text

/-! Escapes read forwards and backwards.

Main statement: whether an odd run of backslashes stands before an offset is what a reader
from left to right knows when it arrives there, and it can be told from the bytes alone. -/

namespace PatternDialect

namespace Text

def bytes (text : Text) : List UInt8 := text.flatMap String.utf8EncodeChar

@[simp] theorem bytes_append (first second : Text) :
    bytes (first ++ second) = bytes first ++ bytes second := by
  simp [bytes]

@[simp] theorem bytes_singleton (c : Char) : bytes [c] = String.utf8EncodeChar c := by
  simp [bytes]

@[simp] theorem length_bytes (text : Text) : (bytes text).length = text.size := by
  induction text with
  | nil => rfl
  | cons c rest ih =>
      rw [← List.singleton_append, bytes_append, List.length_append, ih, bytes_singleton,
        String.length_utf8EncodeChar, List.singleton_append, size_cons]

theorem inside_of_splitAt? {offset : Nat} {text : Text} (uncut : splitAt? offset text = none)
    (within : offset ≤ text.size) :
    ∃ (front : Text) (c : Char) (back : Text), text = front ++ c :: back ∧ front.size < offset ∧
      offset < front.size + c.utf8Size := by
  fun_induction splitAt? offset text with
  | case1 text => contradiction
  | case2 n => simp at within
  | case3 n c rest fits ih =>
      rw [size_cons] at within
      obtain ⟨front, d, back, rfl, low, high⟩ := ih (Option.map_eq_none_iff.mp uncut) (by omega)
      refine ⟨c :: front, d, back, rfl, ?_, ?_⟩
      · rw [size_cons]
        omega
      · rw [size_cons]
        omega
  | case4 n c rest wide =>
      refine ⟨[], c, rest, rfl, ?_, ?_⟩
      · rw [size_nil]
        omega
      · rw [size_nil]
        omega

end Text

namespace Escape

/-- Whether a reader from left to right comes to a byte offset with a backslash pending.  A
pending backslash consumes the next character.  No reader comes to an offset inside a
character or past the end. -/
def arrives? (pending : Bool) : Nat → Text → Option Bool
  | 0, _ => some pending
  | _ + 1, [] => none
  | n + 1, c :: rest =>
      if c.utf8Size ≤ n + 1 then
        arrives? (if pending then false else c == '\\') (n + 1 - c.utf8Size) rest
      else none

theorem arrives?_pending (before : Text) (offset : Nat) (text : Text) :
    arrives? (pending before) offset text =
      (text.splitAt? offset).map fun parts => pending (parts.1.reverse ++ before) := by
  fun_induction Text.splitAt? offset text generalizing before with
  | case1 text => simp [arrives?]
  | case2 n => rfl
  | case3 n c rest fits ih =>
      have step : (if pending before then false else c == '\\') = pending (c :: before) := by
        rw [pending_cons]
        cases pending before <;> simp
      rw [arrives?, if_pos fits, step, ih, Option.map_map]
      simp [Function.comp_def]
  | case4 n c rest wide => rw [arrives?, if_neg wide, Option.map_none]

def endsOpenBytes (bytes : List UInt8) : Bool :=
  (bytes.reverse.takeWhile (· == 92)).length % 2 == 1

theorem endsOpenBytes_concat (bytes : List UInt8) (last : UInt8) :
    endsOpenBytes (bytes ++ [last]) = (last == 92 && !endsOpenBytes bytes) := by
  rw [endsOpenBytes, List.reverse_append]
  exact odd_takeWhile_cons (· == 92) last bytes.reverse

theorem endsOpenBytes_other (bytes : List UInt8) {part : List UInt8} (filled : part ≠ [])
    (other : ∀ byte ∈ part, byte ≠ 92) : endsOpenBytes (bytes ++ part) = false := by
  cases part using List.reverseRecOn with
  | nil => exact absurd rfl filled
  | append_singleton front last =>
      have apart : (last == 92) = false := by simpa using other last (by simp)
      rw [← List.append_assoc, endsOpenBytes_concat, apart, Bool.false_and]

theorem toNat_of_mem_utf8EncodeChar {c : Char} {byte : UInt8}
    (member : byte ∈ String.utf8EncodeChar c) : byte.toNat = c.toNat ∨ 128 ≤ byte.toNat := by
  unfold String.utf8EncodeChar at member
  dsimp only at member
  split at member
  · rename_i ascii
    left
    rw [List.mem_singleton.mp member, UInt8.toNat_ofNat']
    exact Nat.mod_eq_of_lt (Nat.lt_of_le_of_lt ascii (by decide))
  · right
    split at member
    · simp only [List.mem_cons, List.not_mem_nil, or_false] at member
      rcases member with rfl | rfl <;> rw [UInt8.toNat_ofNat'] <;> omega
    · split at member
      · simp only [List.mem_cons, List.not_mem_nil, or_false] at member
        rcases member with rfl | rfl | rfl <;> rw [UInt8.toNat_ofNat'] <;> omega
      · simp only [List.mem_cons, List.not_mem_nil, or_false] at member
        rcases member with rfl | rfl | rfl | rfl <;> rw [UInt8.toNat_ofNat'] <;> omega

theorem ne_of_mem_utf8EncodeChar {c : Char} (other : c ≠ '\\') {byte : UInt8}
    (member : byte ∈ String.utf8EncodeChar c) : byte ≠ 92 := by
  rintro rfl
  rcases toNat_of_mem_utf8EncodeChar member with same | high
  · exact other (Char.toNat_inj.mp same.symm)
  · exact absurd high (by decide)

theorem endsOpenBytes_bytes (text : Text) : endsOpenBytes text.bytes = endsOpen text := by
  induction text using List.reverseRecOn with
  | nil => rfl
  | append_singleton front c ih =>
      have turned : endsOpen (front ++ [c]) = (c == '\\' && !endsOpen front) := by
        rw [endsOpen, List.reverse_append]
        exact pending_cons c front.reverse
      rw [turned, Text.bytes_append, Text.bytes_singleton]
      by_cases backslash : c = '\\'
      · subst backslash
        rw [← ih]
        exact endsOpenBytes_concat (Text.bytes front) 92
      · rw [endsOpenBytes_other _ String.utf8EncodeChar_ne_nil fun byte member =>
          ne_of_mem_utf8EncodeChar backslash member]
        simp [backslash]

/-- The run may be counted in bytes, also before an offset inside a character. -/
theorem isEscapedAt_eq_endsOpenBytes (text : Text) (offset : Nat) :
    isEscapedAt text offset = endsOpenBytes (text.bytes.take offset) := by
  have clamped : text.bytes.take offset = text.bytes.take (min offset text.size) := by
    rw [← Text.length_bytes, ← List.take_eq_take_min]
  have within : min offset text.size ≤ text.size := Nat.min_le_right offset text.size
  rw [isEscapedAt, clamped]
  generalize min offset text.size = position at within
  cases cut : text.splitAt? position with
  | some parts =>
      obtain ⟨rfl, rfl⟩ := Text.splitAt?_eq_some_iff.mp cut
      rw [Text.bytes_append, List.take_left' (Text.length_bytes parts.1), endsOpenBytes_bytes]
  | none =>
      -- the last byte before the offset is one of several that make a character
      obtain ⟨front, c, back, rfl, low, high⟩ := Text.inside_of_splitAt? cut within
      have other : c ≠ '\\' := by
        rintro rfl
        have single : '\\'.utf8Size = 1 := by decide
        omega
      have parts : (Text.bytes (front ++ c :: back)).take position =
          front.bytes ++ (String.utf8EncodeChar c).take (position - front.size) := by
        have shorter : position - front.size ≤ (String.utf8EncodeChar c).length := by
          rw [String.length_utf8EncodeChar]
          omega
        rw [List.append_cons, Text.bytes_append, Text.bytes_append, Text.bytes_singleton,
          List.append_assoc, List.take_append, Text.length_bytes,
          List.take_of_length_le (by rw [Text.length_bytes]; omega),
          List.take_append_of_le_length shorter]
      have filled : (String.utf8EncodeChar c).take (position - front.size) ≠ [] := by
        have positive : position - front.size ≠ 0 := by omega
        simp [List.take_eq_nil_iff, positive, String.utf8EncodeChar_ne_nil]
      rw [parts, endsOpenBytes_other _ filled fun byte member =>
        ne_of_mem_utf8EncodeChar other (List.mem_of_mem_take member)]

/-- Between two characters the run tells what a reader from left to right knows there, and
past the end it is the run at the end.  At any offset it may be counted in bytes. -/
theorem isEscapedAt_arrives (text : Text) (offset : Nat) :
    ((text.splitAt? offset).isSome = true →
      arrives? false offset text = some (isEscapedAt text offset)) ∧
    (text.size ≤ offset → isEscapedAt text offset = isEscapedAt text text.size) ∧
    isEscapedAt text offset = endsOpenBytes (text.bytes.take offset) := by
  refine ⟨?_, ?_, isEscapedAt_eq_endsOpenBytes text offset⟩
  · intro boundary
    obtain ⟨⟨before, after⟩, cut⟩ := Option.isSome_iff_exists.mp boundary
    have reader := arrives?_pending [] offset text
    obtain ⟨rfl, rfl⟩ := Text.splitAt?_eq_some_iff.mp cut
    have clamped : min before.size (before ++ after).size = before.size := by
      rw [Text.size_append]
      omega
    rw [isEscapedAt, clamped, cut]
    rw [cut] at reader
    simpa [endsOpen] using reader
  · intro past
    rw [isEscapedAt, isEscapedAt, Nat.min_eq_right past, Nat.min_self]

theorem isEscapedAt_arrives_run :
    (Text.splitAt? 5 "é\\\\\\.".toList).isSome = true ∧
      arrives? false 5 "é\\\\\\.".toList = some true ∧
        isEscapedAt "é\\\\\\.".toList 5 = true ∧
          Text.size "é\\".toList ≤ 9 ∧ isEscapedAt "é\\".toList 9 = true := by
  have boundary : (Text.splitAt? 5 "é\\\\\\.".toList).isSome = true := by decide
  have escaped : isEscapedAt "é\\\\\\.".toList 5 = true := by decide
  have past : Text.size "é\\".toList ≤ 9 := by decide
  have reader := (isEscapedAt_arrives "é\\\\\\.".toList 5).1 boundary
  have clamped := (isEscapedAt_arrives "é\\".toList 9).2.1 past
  rw [escaped] at reader
  exact ⟨boundary, reader, escaped, past, clamped.trans (by decide)⟩

end Escape

end PatternDialect
