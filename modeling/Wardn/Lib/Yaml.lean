import Wardn.Lib.Strings

/-!
# Block-style YAML

Trees of mappings, sequences and scalars, and their rendering as indented lines.  `Layout` holds
what emitters differ in: how far a nested mapping is indented and whether a sequence is indented
under its key.  Keys outside a safe set of characters are quoted; a scalar carries its own style.
No line of a rendering contains a line break (`Mapping.newline_not_mem_lines`), so that the lines
of a rendered text are those of the tree (`Mapping.lines_render`).
-/

namespace Yaml

open Strings

/-! ## Trees -/

/-- A scalar on one line, plain or in double quotes. -/
structure Scalar where
  value : String
  quoted : Bool := false
  inline : quoted = false → '\n' ∉ value.toList := by decide

/-- A line of a block scalar. -/
structure Line where
  text : List Char
  inline : '\n' ∉ text := by decide

/-- How a block scalar treats its line breaks. -/
inductive BlockStyle
  | literal
  | folded
  deriving DecidableEq, Repr

mutual

/-- What stands behind a key or a dash. -/
inductive Node
  | scalar (scalar : Scalar)
  | block (style : BlockStyle) (lines : List Line)
  | mapping (mapping : Mapping)
  | sequence (sequence : Sequence)

/-- Keys with their values, in the order in which they are written. -/
inductive Mapping
  | nil
  | cons (key : String) (value : Node) (rest : Mapping)

/-- The items of a list. -/
inductive Sequence
  | nil
  | cons (item : Node) (rest : Sequence)

end

/-- The value of a key: the first one, should the key be repeated. -/
def Mapping.lookup (key : String) : Mapping → Option Node
  | .nil => none
  | .cons key' value rest => if key' = key then some value else rest.lookup key

/-- The scalar value under a key; empty when there is none. -/
def Mapping.text (key : String) (m : Mapping) : String :=
  match m.lookup key with
  | some (.scalar scalar) => scalar.value
  | _ => ""

/-- The mapping under a key; empty when there is none. -/
def Mapping.child (key : String) (m : Mapping) : Mapping :=
  match m.lookup key with
  | some (.mapping child) => child
  | _ => .nil

/-! ## Rendering -/

/-- What a writer is free to choose. -/
structure Layout where
  /-- The indentation of a mapping or a block scalar under its key. -/
  width : Nat := 2
  /-- The indentation of a sequence under its key. -/
  offset : Nat := 0
  nested : 0 < width := by decide

/-- A character between double quotes. -/
def escape (c : Char) : List Char :=
  if c = '\n' then ['\\', 'n']
  else if c = '\r' then ['\\', 'r']
  else if c = '\t' then ['\\', 't']
  else if c = '"' ∨ c = '\\' then ['\\', c]
  else [c]

/-- The text between double quotes. -/
def quote (s : List Char) : List Char := '"' :: (s.flatMap escape ++ ['"'])

/-- A scalar in its own style. -/
def Scalar.written (scalar : Scalar) : List Char :=
  if scalar.quoted then quote scalar.value.toList else scalar.value.toList

/-- A key that needs no quotes. -/
def plainKey (key : String) : Bool :=
  key.toList ≠ [] ∧ key.toList.head? ≠ some '-' ∧
    key.toList.all fun c => c.isAlphanum || c ∈ ['-', '_', '.', '/']

theorem forall_of_plainKey {key : String} (plain : plainKey key = true) {P : Char → Prop}
    (alphanum : ∀ c, c.isAlphanum = true → P c) (mark : ∀ c ∈ ['-', '_', '.', '/'], P c) :
    ∀ c ∈ key.toList, P c := by
  intro c member
  have allowed := List.all_eq_true.mp (of_decide_eq_true plain).2.2 c member
  rcases Bool.or_eq_true_iff.mp allowed with inside | marked
  · exact alphanum c inside
  · exact mark c (of_decide_eq_true marked)

/-- A plain key has letters, figures and four marks. -/
theorem not_mem_of_plainKey {key : String} (plain : plainKey key = true) {c : Char}
    (other : c.isAlphanum = false) (unmarked : c ∉ ['-', '_', '.', '/']) : c ∉ key.toList := by
  have apart := forall_of_plainKey plain (P := fun d => d ≠ c)
    (fun d alphanum same => by rw [← same, alphanum] at other; cases other)
    (fun d mark same => unmarked (same ▸ mark))
  exact fun member => apart c member rfl

/-- A key that is not plain is quoted. -/
def writtenKey (key : String) : List Char :=
  if plainKey key then key.toList else quote key.toList

/-- The sign that a block scalar begins with. -/
def BlockStyle.header : BlockStyle → List Char
  | .literal => ['|']
  | .folded => ['>']

/-- What stands on the line of a node's key or dash. -/
def Node.head : Node → List Char
  | .scalar leaf => leaf.written
  | .block style _ => style.header
  | .mapping .nil => ['{', '}']
  | .mapping (.cons _ _ _) => []
  | .sequence .nil => ['[', ']']
  | .sequence (.cons _ _) => []

/-- A line under an indentation. -/
def pad (indent : Nat) (line : List Char) : List Char := List.replicate indent ' ' ++ line

/-- A mark or a key with what follows on its line. -/
def headed (front : List Char) (head : List Char) : List Char :=
  front ++ if head = [] then [] else ' ' :: head

/-- The line of a key, with as much of the value as fits on it. -/
def keyLine (key : String) (value : Node) : List Char :=
  headed (writtenKey key ++ [':']) value.head

mutual

/-- The lines below the one that a node's head is on. -/
def Node.bodyLines (layout : Layout) (indent : Nat) : Node → List (List Char)
  | .scalar _ => []
  | .block _ lines => lines.map fun line => pad (indent + layout.width) line.text
  | .mapping m => m.lines layout (indent + layout.width)
  | .sequence s => s.lines layout (indent + layout.offset)

/-- A mapping as lines, one for each key and those of its value below. -/
def Mapping.lines (layout : Layout) (indent : Nat) : Mapping → List (List Char)
  | .nil => []
  | .cons key value rest =>
    pad indent (keyLine key value) :: (value.bodyLines layout indent ++ rest.lines layout indent)

/-- A list as lines; the dash stands in the indentation of the item. -/
def Sequence.lines (layout : Layout) (indent : Nat) : Sequence → List (List Char)
  | .nil => []
  | .cons item rest => item.itemLines layout indent ++ rest.lines layout indent

/-- A node as an item of a sequence; a mapping starts on the line of the dash. -/
def Node.itemLines (layout : Layout) (indent : Nat) : Node → List (List Char)
  | .scalar leaf => [pad indent (headed ['-'] leaf.written)]
  | .block style lines =>
    pad indent (headed ['-'] style.header) ::
      lines.map fun line => pad (indent + layout.width) line.text
  | .mapping m => m.itemLines layout indent
  | .sequence s => pad indent (headed ['-'] (Node.sequence s).head) :: s.lines layout (indent + 2)

/-- A mapping behind a dash: its first key is on the line of the dash. -/
def Mapping.itemLines (layout : Layout) (indent : Nat) : Mapping → List (List Char)
  | .nil => [pad indent (headed ['-'] ['{', '}'])]
  | .cons key value rest =>
    pad indent (headed ['-'] (keyLine key value)) ::
      (value.bodyLines layout (indent + 2) ++ rest.lines layout (indent + 2))

end

/-- The document, line by line, with the line breaks of the layout. -/
def Mapping.render (layout : Layout) (m : Mapping) : String :=
  String.ofList (['\n'].intercalate (m.lines layout 0))

/-! ## No line breaks inside a line -/

/-- A quoted text stands on one line. -/
theorem newline_not_mem_quote (s : List Char) : '\n' ∉ quote s := by
  intro member
  rcases List.mem_append.mp (List.mem_of_ne_of_mem (by decide) member) with inside | last
  · obtain ⟨c, -, escaped⟩ := List.mem_flatMap.mp inside
    unfold escape at escaped
    split_ifs at escaped with newline carriage tab special
    · simp at escaped
    · simp at escaped
    · simp at escaped
    · rcases special with rfl | rfl <;> simp at escaped
    · simp [Ne.symm newline] at escaped
  · simp at last

/-- A scalar stands on one line. -/
theorem newline_not_mem_written (scalar : Scalar) : '\n' ∉ scalar.written := by
  unfold Scalar.written
  split_ifs with quoted
  · exact newline_not_mem_quote _
  · exact scalar.inline (by simpa using quoted)

theorem newline_not_mem_writtenKey (key : String) : '\n' ∉ writtenKey key := by
  unfold writtenKey
  split_ifs with plain
  · exact not_mem_of_plainKey plain (by decide) (by decide)
  · exact newline_not_mem_quote _

theorem newline_not_mem_head (node : Node) : '\n' ∉ node.head := by
  cases node with
  | scalar leaf => exact newline_not_mem_written leaf
  | block style lines => cases style <;> simp [Node.head, BlockStyle.header]
  | mapping m => cases m <;> simp [Node.head]
  | sequence s => cases s <;> simp [Node.head]

theorem newline_not_mem_pad {line : List Char} (inline : '\n' ∉ line) (indent : Nat) :
    '\n' ∉ pad indent line := by
  intro member
  rcases List.mem_append.mp member with margin | inside
  · exact absurd (List.eq_of_mem_replicate margin) (by decide)
  · exact inline inside

theorem newline_not_mem_headed {front head : List Char} (inFront : '\n' ∉ front)
    (inHead : '\n' ∉ head) : '\n' ∉ headed front head := by
  unfold headed
  split_ifs <;> simp [inFront, inHead]

/-- So does a key, with what is on its line. -/
theorem newline_not_mem_keyLine (key : String) (value : Node) : '\n' ∉ keyLine key value := by
  refine newline_not_mem_headed ?_ (newline_not_mem_head value)
  simp [newline_not_mem_writtenKey]

mutual

theorem Node.newline_not_mem_bodyLines (layout : Layout) (indent : Nat) (node : Node) :
    ∀ line ∈ node.bodyLines layout indent, '\n' ∉ line := by
  cases node with
  | scalar leaf => simp [Node.bodyLines]
  | block style lines =>
      rw [Node.bodyLines]
      exact List.forall_mem_map.mpr fun line _ => newline_not_mem_pad line.inline _
  | mapping m => exact m.newline_not_mem_lines layout _
  | sequence s => exact s.newline_not_mem_lines layout _

/-- The lines of a mapping are single lines. -/
theorem Mapping.newline_not_mem_lines (layout : Layout) (indent : Nat) (m : Mapping) :
    ∀ line ∈ m.lines layout indent, '\n' ∉ line := by
  cases m with
  | nil => simp [Mapping.lines]
  | cons key value rest =>
      rw [Mapping.lines]
      have first := newline_not_mem_pad (newline_not_mem_keyLine key value) indent
      exact List.forall_mem_cons.mpr ⟨first, List.forall_mem_append.mpr
        ⟨value.newline_not_mem_bodyLines layout _, rest.newline_not_mem_lines layout _⟩⟩

theorem Sequence.newline_not_mem_lines (layout : Layout) (indent : Nat) (s : Sequence) :
    ∀ line ∈ s.lines layout indent, '\n' ∉ line := by
  cases s with
  | nil => simp [Sequence.lines]
  | cons item rest =>
      rw [Sequence.lines]
      exact List.forall_mem_append.mpr
        ⟨item.newline_not_mem_itemLines layout _, rest.newline_not_mem_lines layout _⟩

theorem Node.newline_not_mem_itemLines (layout : Layout) (indent : Nat) (node : Node) :
    ∀ line ∈ node.itemLines layout indent, '\n' ∉ line := by
  have dash : ∀ head : List Char, '\n' ∉ head → '\n' ∉ pad indent (headed ['-'] head) :=
    fun head inline => newline_not_mem_pad (newline_not_mem_headed (by decide) inline) indent
  cases node with
  | scalar leaf =>
      rw [Node.itemLines]
      exact List.forall_mem_singleton.mpr (dash _ (newline_not_mem_written leaf))
  | block style lines =>
      rw [Node.itemLines]
      exact List.forall_mem_cons.mpr ⟨dash _ (by cases style <;> decide),
        List.forall_mem_map.mpr fun line _ => newline_not_mem_pad line.inline _⟩
  | mapping m => exact m.newline_not_mem_itemLines layout _
  | sequence s =>
      rw [Node.itemLines]
      exact List.forall_mem_cons.mpr ⟨dash _ (newline_not_mem_head _),
        s.newline_not_mem_lines layout _⟩

theorem Mapping.newline_not_mem_itemLines (layout : Layout) (indent : Nat) (m : Mapping) :
    ∀ line ∈ m.itemLines layout indent, '\n' ∉ line := by
  have dash : ∀ head : List Char, '\n' ∉ head → '\n' ∉ pad indent (headed ['-'] head) :=
    fun head inline => newline_not_mem_pad (newline_not_mem_headed (by decide) inline) indent
  cases m with
  | nil =>
      rw [Mapping.itemLines]
      exact List.forall_mem_singleton.mpr (dash _ (by decide))
  | cons key value rest =>
      rw [Mapping.itemLines]
      exact List.forall_mem_cons.mpr ⟨dash _ (newline_not_mem_keyLine key value),
        List.forall_mem_append.mpr
          ⟨value.newline_not_mem_bodyLines layout _, rest.newline_not_mem_lines layout _⟩⟩

end

/-- The lines of a rendered mapping. -/
theorem Mapping.lines_render (layout : Layout) (m : Mapping) (some : m.lines layout 0 ≠ []) :
    Strings.lines (m.render layout).toList = m.lines layout 0 := by
  rw [Mapping.render, String.toList_ofList]
  refine splitList_intercalate List.not_mem_nil some fun line member broken => ?_
  exact m.newline_not_mem_lines layout 0 line member
    ((List.singleton_infix_iff '\n' line).mp broken)

end Yaml
