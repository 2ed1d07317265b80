import PatternDialect.Proofs.Text
import PatternDialect.Template

/-! Templates.

Main statements: cutting a text at its holes and joining segments with holes undo each
other, and merging a template fails with the first offence of a walk through its values. -/

namespace PatternDialect

/-! ### Holes -/

namespace Template

variable {before current text : Text}

def openHolesFrom : Text → Text → Nat
  | _, [] => 0
  | before, c :: rest =>
      (hole.isPrefixOf (c :: rest) && !Escape.pending before).toNat + openHolesFrom
        (c :: before) rest

def openHoles (text : Text) : Nat := openHolesFrom [] text

theorem openHolesFrom_hole (before rest : Text) :
    openHolesFrom before ('$' :: '{' :: '}' :: rest) =
      (!Escape.pending before).toNat + openHolesFrom ('}' :: '{' :: '$' :: before) rest := by
  simp [openHolesFrom, hole, List.isPrefixOf]

theorem openHolesFrom_cons {c : Char} {rest : Text}
    (other : ∀ more, c = '$' → rest = '{' :: '}' :: more → False) :
    openHolesFrom before (c :: rest) = openHolesFrom (c :: before) rest := by
  have apart : hole.isPrefixOf (c :: rest) = false := by
    rw [Bool.eq_false_iff, ne_eq, List.isPrefixOf_iff_prefix]
    rintro ⟨more, parts⟩
    simp only [hole, List.cons_append, List.nil_append, List.cons.injEq] at parts
    exact other more parts.1.symm parts.2.symm
  rw [openHolesFrom, apart, Bool.false_and, Bool.toNat_false, Nat.zero_add]

theorem openHolesFrom_congr {other : Text} (same : Escape.pending before = Escape.pending other) :
    openHolesFrom before text = openHolesFrom other text := by
  induction text generalizing before other with
  | nil => rfl
  | cons c rest ih =>
      have next : Escape.pending (c :: before) = Escape.pending (c :: other) := by
        rw [Escape.pending_cons, Escape.pending_cons, same]
      rw [openHolesFrom, openHolesFrom, same, ih next]

theorem openHolesFrom_of_closed (closed : Escape.pending before = false) :
    openHolesFrom before text = openHoles text :=
  openHolesFrom_congr closed

theorem segmentsFrom_cons {c : Char} {rest : Text}
    (other : ∀ more, c = '$' → rest = '{' :: '}' :: more → False) :
    segmentsFrom before current (c :: rest) = segmentsFrom (c :: before) (c :: current) rest := by
  rw [segmentsFrom]
  exact other

theorem length_segmentsFrom (before current text : Text) :
    (segmentsFrom before current text).length = openHolesFrom before text + 1 := by
  fun_induction segmentsFrom before current text with
  | case1 => rfl
  | case2 before current rest escaped ih => simp [openHolesFrom_hole, escaped, ih]
  | case3 before current rest open_ ih => simp [openHolesFrom_hole, open_, ih, Nat.add_comm 1]
  | case4 before current c rest other ih => rw [ih, openHolesFrom_cons other]

theorem intercalate_segmentsFrom (before current text : Text) :
    hole.intercalate (segmentsFrom before current text) = current.reverse ++ text := by
  fun_induction segmentsFrom before current text with
  | case1 before current => simp
  | case2 before current rest escaped ih => simpa using ih
  | case3 before current rest open_ ih =>
      have filled : segmentsFrom ('}' :: '{' :: '$' :: before) [] rest ≠ [] := by
        rw [← List.length_pos_iff, length_segmentsFrom]
        omega
      rw [List.intercalate_cons_of_ne_nil filled, ih]
      simp [hole]
  | case4 before current c rest other ih => simpa using ih

theorem segmentsFrom_closed (before current text : Text) :
    ∃ first others, segmentsFrom before current text = (current.reverse ++ first) :: others ∧
      first <+: text ∧ openHolesFrom before first = 0 ∧ ∀ segment ∈ others,
        openHoles segment = 0 := by
  fun_induction segmentsFrom before current text with
  | case1 before current => exact ⟨[], [], by simp, List.prefix_refl _, rfl, by simp⟩
  | case2 before current rest escaped ih =>
      obtain ⟨first, others, parts, begins, none_, closed⟩ := ih
      refine ⟨'$' :: '{' :: '}' :: first,
        others, by simpa using parts, by simpa using begins, ?_, closed⟩
      simp [openHolesFrom_hole, escaped, none_]
  | case3 before current rest open_ ih =>
      obtain ⟨first, others, parts, -, none_, closed⟩ := ih
      refine ⟨[], first :: others, by simpa using parts, List.nil_prefix, rfl, ?_⟩
      rw [openHolesFrom_of_closed (Escape.pending_cons _ _)] at none_
      exact List.forall_mem_cons.mpr ⟨none_, closed⟩
  | case4 before current c rest other ih =>
      obtain ⟨first, others, parts, begins, none_, closed⟩ := ih
      refine ⟨c :: first, others, by simpa using parts, by simpa using begins, ?_, closed⟩
      rw [openHolesFrom_cons, none_]
      rintro more rfl rfl
      obtain ⟨tail, rfl⟩ := begins
      exact other (more ++ tail) rfl rfl

theorem openHoles_of_mem_segments {segment : Text} (member : segment ∈ segments text) :
    openHoles segment = 0 := by
  obtain ⟨first, others, parts, -, none_, closed⟩ := segmentsFrom_closed [] [] text
  rw [segments, parts] at member
  rcases List.mem_cons.mp member with rfl | later
  · exact none_
  · exact closed segment later

theorem segmentsFrom_literal {literal : Text} (none_ : openHolesFrom before literal = 0) :
    segmentsFrom before current literal = [current.reverse ++ literal] := by
  fun_induction segmentsFrom before current literal with
  | case1 => simp
  | case2 before current rest escaped ih =>
      rw [openHolesFrom_hole, escaped] at none_
      simpa using ih (by simpa using none_)
  | case3 before current rest open_ ih =>
      rw [openHolesFrom_hole, Bool.eq_false_iff.mpr open_] at none_
      simp at none_
  | case4 before current c rest other ih =>
      rw [openHolesFrom_cons other] at none_
      simpa using ih none_

theorem segmentsFrom_literal_hole {literal rest : Text} (none_ : openHolesFrom before literal = 0)
    (closed : Escape.pending (literal.reverse ++ before) = false) :
    segmentsFrom before current (literal ++ (hole ++ rest)) =
      (current.reverse ++ literal) ::
        segmentsFrom ('}' :: '{' :: '$' :: (literal.reverse ++ before)) [] rest := by
  fun_induction segmentsFrom before current literal with
  | case1 before current =>
      have open_ : ¬Escape.pending before = true := by simpa using closed
      simp [hole, segmentsFrom, open_]
  | case2 before current left escaped ih =>
      rw [openHolesFrom_hole, escaped] at none_
      have further := ih (by simpa using none_) (by simpa using closed)
      simpa [segmentsFrom, escaped] using further
  | case3 before current left open_ ih =>
      rw [openHolesFrom_hole, Bool.eq_false_iff.mpr open_] at none_
      simp at none_
  | case4 before current c left other ih =>
      rw [openHolesFrom_cons other] at none_
      have further := ih none_ (by simpa using closed)
      -- A hole cannot start in the literal and end in the hole behind it.
      have apart : ∀ more, c = '$' → left ++ (hole ++ rest) = '{' :: '}' :: more → False := by
        intro more dollar parts
        match left, parts, other with
        | [], parts, _ => simp [hole] at parts
        | [_], parts, _ => simp [hole] at parts
        | d :: e :: left, parts, other =>
            simp only [List.cons_append, List.cons.injEq] at parts
            exact other left dollar (by rw [parts.1, parts.2.1])
      rw [List.cons_append, segmentsFrom_cons apart]
      simpa using further

theorem segmentsFrom_intercalate {literals : List Text} (filled : literals ≠ [])
    (none_ : ∀ literal ∈ literals, openHoles literal = 0)
    (closed : ∀ literal ∈ literals.dropLast, Escape.endsOpen literal = false)
    (start : Escape.pending before = false) :
    segmentsFrom before [] (hole.intercalate literals) = literals := by
  induction literals generalizing before with
  | nil => exact absurd rfl filled
  | cons literal others ih =>
      have own : openHolesFrom before literal = 0 := by
        rw [openHolesFrom_of_closed start]
        exact none_ literal (by simp)
      cases others with
      | nil => rw [List.intercalate_singleton, segmentsFrom_literal own]; rfl
      | cons second others =>
          rw [List.dropLast_cons_cons, List.forall_mem_cons] at closed
          have ends : Escape.pending (literal.reverse ++ before) = false := by
            have same : Escape.pending before = Escape.pending [] := start
            rw [Escape.pending_append same, List.append_nil]
            exact closed.1
          rw [List.intercalate_cons_cons, List.append_assoc, segmentsFrom_literal_hole own ends,
            ih (by simp) (fun l member => none_ l (by simp [member])) closed.2
              (Escape.pending_cons _ _)]
          rfl

theorem ofParts_eq_ok_iff {literals : List Text} {substitutions : List Substitution}
    {template : Template} :
    ofParts literals substitutions = .ok template ↔
      template.literals = literals ∧ template.substitutions = substitutions := by
  constructor
  · intro ok
    cases literals with
    | nil => contradiction
    | cons head rest =>
        rw [ofParts] at ok
        split at ok
        · rename_i length
          cases ok
          exact ⟨by rw [Template.literals, List.map_snd_zip (by omega)],
            List.map_fst_zip (by omega)⟩
        · contradiction
  · rintro ⟨rfl, rfl⟩
    have pairs : template.tail = template.substitutions.zip (template.tail.map Prod.snd) :=
      List.zip_of_prod rfl rfl
    have lengths : template.substitutions.length = (template.tail.map Prod.snd).length := by
      simp [substitutions]
    rw [literals, ofParts, if_pos lengths, ← pairs]

theorem length_literals (template : Template) :
    template.literals.length = template.substitutions.length + 1 := by
  simp [literals, substitutions]

theorem exists_ofParts_iff {literals : List Text} {substitutions : List Substitution} :
    (∃ template, ofParts literals substitutions = .ok template) ↔
      literals.length = substitutions.length + 1 := by
  constructor
  · rintro ⟨template, ok⟩
    obtain ⟨rfl, rfl⟩ := ofParts_eq_ok_iff.mp ok
    exact template.length_literals
  · intro length
    cases literals with
    | nil => contradiction
    | cons head rest =>
        have same : substitutions.length = rest.length := by simpa using length.symm
        exact ⟨_, by rw [ofParts, if_pos same]⟩

/-- A text is parsed where there is one value for each of its open holes.  It is then the join
of the literals, in which no hole is open, and such literals are what their own join is parsed
to, unless one before the last escapes the hole behind it. -/
theorem parse_intercalate (text : Text) (substitutions : List Substitution) :
    ((∃ template, parse text substitutions = .ok template) ↔
        substitutions.length = openHoles text) ∧
      (∀ template, parse text substitutions = .ok template →
        hole.intercalate template.literals = text ∧ template.substitutions = substitutions ∧
          ∀ literal ∈ template.literals, openHoles literal = 0) ∧
      ∀ literals : List Text, literals ≠ [] → literals.length = substitutions.length + 1 →
        (∀ literal ∈ literals, openHoles literal = 0) →
          (∀ literal ∈ literals.dropLast, Escape.endsOpen literal = false) →
            ∃ template, parse (hole.intercalate literals) substitutions = .ok template ∧
              template.literals = literals ∧ template.substitutions = substitutions := by
  refine ⟨?_, fun template ok => ?_, fun literals filled length none_ closed => ?_⟩
  · have count : (segments text).length = openHoles text + 1 := length_segmentsFrom [] [] text
    rw [parse, exists_ofParts_iff, count, Nat.add_right_cancel_iff, eq_comm]
  · obtain ⟨literals, values⟩ := ofParts_eq_ok_iff.mp ok
    rw [literals]
    exact ⟨intercalate_segmentsFrom [] [] text, values, fun _ => openHoles_of_mem_segments⟩
  · have cut : segments (hole.intercalate literals) = literals :=
      segmentsFrom_intercalate filled none_ closed rfl
    obtain ⟨template, ok⟩ := exists_ofParts_iff.mpr length
    rw [parse, cut]
    exact ⟨template, ok, ofParts_eq_ok_iff.mp ok⟩

theorem parse_intercalate_adjacent :
    let text := "a$$\x7b\x7d$\x7b\x7d\\$\x7b\x7d\\\\$\x7b\x7d\x7b\x7d\\".toList
    let literals := ["a$".toList, [], "\\$\x7b\x7d\\\\".toList, "\x7b\x7d\\".toList]
    hole.intercalate literals = text ∧
      ∃ template, parse text [.text ['1'], .list [], .text []] = .ok template ∧
        template.literals = literals := by
  intro text literals
  have joined : hole.intercalate literals = text := by decide
  obtain ⟨template, ok, cut, -⟩ :=
    (parse_intercalate text [.text ['1'], .list [], .text []]).2.2 literals (by simp [literals]) rfl
      (List.forall_mem_cons.mpr ⟨rfl, by decide⟩) (by decide)
  exact ⟨joined, template, joined ▸ ok, cut⟩

end Template

/-! ### Merging -/

namespace Substitution

/-- What a walk through a value comes to: the values in it and the keys of its maps. -/
inductive Node where
  | value (value : Substitution)
  | key (name : Text)

/-- What is wrong with a node, in the value at the given position of a template. -/
def Node.fault? (position : Nat) : Node → Option Fault
  | value (.other kind) => some (.invalidSubstitution position kind)
  | value _ => none
  | key name => if Character.isIdentifier name then none else some (.invalidGroupName name)

mutual

/-- The nodes of a value in the order of a walk: the value before what it holds, entry by
entry, and a key before the value under it. -/
def nodes : Substitution → List Node
  | .text content => [.value (.text content)]
  | .source content => [.value (.source content)]
  | .list items => .value (.list items) :: itemNodes items
  | .map entries => .value (.map entries) :: entryNodes entries
  | .other kind => [.value (.other kind)]

def itemNodes : List Substitution → List Node
  | [] => []
  | item :: rest => nodes item ++ itemNodes rest

def entryNodes : List (Text × Substitution) → List Node
  | [] => []
  | (name, value) :: rest => .key name :: (nodes value ++ entryNodes rest)

end

mutual

def written (unicode : Bool) : Substitution → Text
  | .text content => Escape.literal unicode content
  | .source content => content
  | .list items => alternation (writtenItems unicode items)
  | .map entries => alternation (writtenEntries unicode entries)
  | .other _ => []

def writtenItems (unicode : Bool) : List Substitution → List Text
  | [] => []
  | item :: rest => written unicode item :: writtenItems unicode rest

def writtenEntries (unicode : Bool) : List (Text × Substitution) → List Text
  | [] => []
  | (name, value) :: rest => namedGroup name (written unicode value) :: writtenEntries unicode rest

end

mutual

theorem render_eq (position : Nat) (options : Options) : ∀ value : Substitution,
    value.render position options =
      (value.nodes.findSome? (Node.fault? position)).elim
        (.ok (value.written options.unicode)) .error
  | .text _ => rfl
  | .source _ => rfl
  | .other _ => rfl
  | .list items => by
      have nothing : Node.fault? position (.value (.list items)) = none := rfl
      rw [render, renderItems_eq position options items, nodes, List.findSome?_cons, nothing]
      cases (itemNodes items).findSome? (Node.fault? position) <;> rfl
  | .map entries => by
      have nothing : Node.fault? position (.value (.map entries)) = none := rfl
      rw [render, renderEntries_eq position options entries, nodes, List.findSome?_cons, nothing]
      cases (entryNodes entries).findSome? (Node.fault? position) <;> rfl

theorem renderItems_eq (position : Nat) (options : Options) : ∀ items : List Substitution,
    renderItems position options items =
      ((itemNodes items).findSome? (Node.fault? position)).elim
        (.ok (writtenItems options.unicode items)) .error
  | [] => rfl
  | item :: rest => by
      rw [renderItems, render_eq position options item,
        renderItems_eq position options rest, itemNodes, List.findSome?_append]
      cases item.nodes.findSome? (Node.fault? position) with
      | some fault => rfl
      | none => cases (itemNodes rest).findSome? (Node.fault? position) <;> rfl

theorem renderEntries_eq (position : Nat) (options : Options) :
    ∀ entries : List (Text × Substitution), renderEntries position options entries =
      ((entryNodes entries).findSome? (Node.fault? position)).elim
        (.ok (writtenEntries options.unicode entries)) .error
  | [] => rfl
  | (name, value) :: rest => by
      rw [renderEntries, render_eq position options value, renderEntries_eq position options rest,
        entryNodes, List.findSome?_cons, List.findSome?_append, Node.fault?]
      cases Character.isIdentifier name with
      | false => rfl
      | true =>
          cases value.nodes.findSome? (Node.fault? position) with
          | some fault => rfl
          | none => cases (entryNodes rest).findSome? (Node.fault? position) <;> rfl

end

end Substitution

namespace Template

open Substitution

def nodes (template : Template) : List (Nat × Node) :=
  template.substitutions.zipIdx.flatMap fun (value, position) => value.nodes.map (position, ·)

/-- Literals with parts between them. -/
def interleave : List Text → List Text → Text
  | literal :: literals, part :: parts => literal ++ part ++ interleave literals parts
  | literals, [] => literals.flatten
  | [], _ => []

theorem interleave_written (unicode : Bool) (template : Template) :
    interleave template.literals (template.substitutions.map (written unicode)) =
      template.head ++ template.tail.flatMap fun (value, literal) =>
        value.written unicode ++ literal := by
  obtain ⟨head, tail⟩ := template
  induction tail generalizing head with
  | nil => simp [literals, substitutions, interleave]
  | cons pair rest ih =>
      have further := ih pair.2
      simp only [literals, substitutions, List.map_cons] at further ⊢
      rw [interleave, further, List.flatMap_cons]
      simp

theorem mergeFrom_eq (options : Options) (position : Nat) (tail : List (Substitution × Text)) :
    mergeFrom options position tail =
      ((((tail.map Prod.fst).zipIdx position).flatMap fun (value, position) =>
          value.nodes.map (position, ·)).findSome? fun place => place.2.fault? place.1).elim
        (.ok (tail.flatMap fun (value, literal) => value.written options.unicode ++
          literal)) .error := by
  induction tail generalizing position with
  | nil => rfl
  | cons pair rest ih =>
      obtain ⟨value, literal⟩ := pair
      have own : (value.nodes.map (position, ·)).findSome? (fun place => place.2.fault? place.1) =
          value.nodes.findSome? (Node.fault? position) := List.findSome?_map ..
      rw [mergeFrom, render_eq, ih, List.map_cons, List.zipIdx_cons, List.flatMap_cons,
        List.findSome?_append, own]
      cases value.nodes.findSome? (Node.fault? position) with
      | some fault => rfl
      | none =>
          rw [Option.none_or]
          cases List.findSome? _ _ <;> rfl

theorem merge_eq (template : Template) (options : Options) :
    template.merge options =
      (template.nodes.findSome? fun place => place.2.fault? place.1).elim
        (.ok (interleave template.literals (template.substitutions.map (written options.unicode))))
        .error := by
  rw [merge, mergeFrom_eq, interleave_written, nodes, substitutions]
  cases List.findSome? _ _ <;> rfl

theorem fault?_eq_none_iff {position : Nat} {node : Node} :
    node.fault? position = none ↔ (∀ kind, node ≠ .value (.other kind)) ∧
      ∀ name, node = .key name → Character.isIdentifier name = true := by
  cases node with
  | key name => simp [Node.fault?]
  | value value => cases value <;> simp [Node.fault?]

theorem faultless_iff (template : Template) :
    (∀ place ∈ template.nodes, place.2.fault? place.1 = none) ↔
      ∀ value ∈ template.substitutions, (∀ kind, .value (.other kind) ∉ value.nodes) ∧
        ∀ name, .key name ∈ value.nodes → Character.isIdentifier name = true := by
  simp only [nodes, List.mem_flatMap, List.mem_map, forall_exists_index, and_imp,
    fault?_eq_none_iff]
  constructor
  · intro all value member
    obtain ⟨index, bound, found⟩ := List.getElem_of_mem member
    have place : (value, index) ∈ template.substitutions.zipIdx := by
      rw [List.mk_mem_zipIdx_iff_getElem?, List.getElem?_eq_getElem bound, found]
    exact ⟨fun kind inside => (all _ _ place _ inside rfl).1 kind rfl,
      fun name inside => (all _ _ place _ inside rfl).2 name rfl⟩
  · rintro all _ ⟨value, index⟩ place node inside rfl
    obtain ⟨unsupported, identifiers⟩ := all value (List.fst_mem_of_mem_zipIdx place)
    refine ⟨fun kind same => unsupported kind (same ▸ inside), fun name same => ?_⟩
    exact identifiers name (same ▸ inside)

/-- A template, which has one literal more than values, is merged where nothing is wrong with
its values, to the literals with the rendered values between them.  Otherwise merging fails
with the fault of the first node of the walk that has one, at the position of its value. -/
theorem merge_first_fault (template : Template) (options : Options) :
    template.literals.length = template.substitutions.length + 1 ∧
      ((∃ text, template.merge options = .ok text) ↔
        ∀ value ∈ template.substitutions, (∀ kind, .value (.other kind) ∉ value.nodes) ∧
          ∀ name, .key name ∈ value.nodes → Character.isIdentifier name = true) ∧
      (∀ text, template.merge options = .ok text →
        text = interleave template.literals (template.substitutions.map (written options.unicode)) ∧
          ∀ value position, (value, position) ∈ template.substitutions.zipIdx →
            value.render position options = .ok (value.written options.unicode)) ∧
      ∀ fault, template.merge options = .error fault ↔
        ∃ earlier position node later, template.nodes = earlier ++ (position, node) :: later ∧
          node.fault? position = some fault ∧ ∀ place ∈ earlier, place.2.fault? place.1 = none := by
  rw [merge_eq]
  refine ⟨template.length_literals, ?_, fun text ok => ?_, fun fault => ?_⟩
  · rw [← faultless_iff, ← List.findSome?_eq_none_iff]
    cases List.findSome? _ _ <;> simp
  · cases found : template.nodes.findSome? fun place => place.2.fault? place.1 with
    | some fault =>
        rw [found] at ok
        contradiction
    | none =>
        rw [found] at ok
        refine ⟨(Except.ok.inj ok).symm, fun value position place => ?_⟩
        have clean : value.nodes.findSome? (Node.fault? position) = none := by
          rw [List.findSome?_eq_none_iff] at found ⊢
          exact fun node inside => found (position, node)
            (List.mem_flatMap.mpr ⟨_, place, List.mem_map_of_mem inside⟩)
        rw [render_eq, clean]
        rfl
  · have first : (template.nodes.findSome? fun place => place.2.fault? place.1) = some fault ↔
        ∃ earlier place later, template.nodes = earlier ++ place :: later ∧
          place.2.fault? place.1 = some fault ∧ ∀ place ∈ earlier, place.2.fault? place.1 = none :=
      List.findSome?_eq_some_iff
    simp only [Prod.exists] at first
    rw [← first]
    cases List.findSome? _ _ <;> simp

theorem merge_first_fault_nested :
    let value : Substitution := .map [(['k'], .list [.text ['a'], .other "null".toList]),
      (['1'], .text [])]
    let template : Template :=
      { head := ['x'], tail := [(.text ['?'], ['y']), (.list [value], [])] }
    template.merge {} = .error (.invalidSubstitution 1 "null".toList) := by
  intro value template
  refine ((merge_first_fault template {}).2.2.2 _).mpr
    ⟨template.nodes.take 6, 1, .value (.other "null".toList), template.nodes.drop 7, rfl, rfl, ?_⟩
  have identifier : Character.isIdentifier ['k'] = true := rfl
  simp [template, value, nodes, substitutions, Substitution.nodes, itemNodes,
    entryNodes, Node.fault?, identifier]

end Template

end PatternDialect
