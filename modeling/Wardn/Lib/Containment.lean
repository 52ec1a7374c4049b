import Mathlib.Data.List.DropRight
import Wardn.Lib.FilePath

/-!
# Lexical containment

`filepath.Clean` keeps a stack of components: plain names over `..` components, and no `..` when
the path is rooted (`Normal`).  A cleaned path is the text of its stack (`stack_text`), and lies
within another one exactly when its stack is built on the other's (`within_text_iff`).  Joining a
relative path to a directory climbs as many levels as the path, cleaned by itself, starts with
`..`, and then descends through its names (`within_join_iff`).
-/

namespace FilePath

/-- The components of a path, last one first. -/
abbrev Stack := List (List Char)

/-- The component that leads up. -/
def dotdot : List Char := ['.', '.']

/-- The path begins with a slash. -/
def rooted (path : String) : Bool := path.toList.head? == some '/'

/-- The components that `filepath.Clean` keeps. -/
def stack (path : String) : Stack :=
  (Strings.splitList ['/'] path.toList).foldl (cleanStep (rooted path)) []

/-- The path that is made of the components. -/
def text (rooted : Bool) (stack : Stack) : String :=
  let body := ['/'].intercalate stack.reverse
  if rooted then String.ofList ('/' :: body)
  else if body = [] then "."
  else String.ofList body

theorem clean_eq (path : String) : clean path = text (rooted path) (stack path) := rfl

/-! ## Stacks in normal form -/

/-- Plain names over `..` components; a rooted path has none of these. -/
inductive Normal (rooted : Bool) : Stack → Prop
  | climb (n : ℕ) (unrooted : rooted = true → n = 0) : Normal rooted (List.replicate n dotdot)
  | name {name : List Char} {stack : Stack} (plain : Plain name) (below : Normal rooted stack) :
    Normal rooted (name :: stack)

theorem Normal.nil {rooted : Bool} : Normal rooted [] := .climb 0 fun _ => rfl

/-- A component is skipped, leads up, or is a plain name. -/
theorem component_cases {component : List Char} (noSlash : '/' ∉ component) :
    (component = [] ∨ component = ['.']) ∨ component = dotdot ∨ Plain component := by
  by_cases skipped : component = [] ∨ component = ['.']
  · exact .inl skipped
  · obtain ⟨nonempty, notDot⟩ := not_or.mp skipped
    by_cases up : component = dotdot
    · exact .inr (.inl up)
    · exact .inr (.inr ⟨nonempty, noSlash, notDot, up⟩)

theorem cleanStep_of_skipped {component : List Char}
    (skipped : component = [] ∨ component = ['.']) (rooted : Bool) (stack : Stack) :
    cleanStep rooted stack component = stack := if_pos skipped

/-- `..` takes the last name away. -/
theorem cleanStep_dotdot_of_plain {name : List Char} (plain : Plain name) (rooted : Bool)
    (stack : Stack) : cleanStep rooted (name :: stack) dotdot = stack := by
  have up : dotdot = ['.', '.'] := rfl
  unfold cleanStep
  rw [if_neg (by decide), if_pos up]
  exact if_neg plain.notDotDot

/-- At the root `..` is dropped; a relative path keeps it. -/
theorem cleanStep_dotdot_of_climb (rooted : Bool) (n : ℕ) (unrooted : rooted = true → n = 0) :
    cleanStep rooted (List.replicate n dotdot) dotdot =
      List.replicate (if rooted then 0 else n + 1) dotdot := by
  cases n with
  | zero => cases rooted <;> rfl
  | succ n =>
      cases rooted with
      | true => cases unrooted rfl
      | false => rfl

/-- A cleaned path stays one, component by component. -/
theorem Normal.cleanStep {rooted : Bool} {stack : Stack} (normal : Normal rooted stack)
    {component : List Char} (noSlash : '/' ∉ component) :
    Normal rooted (cleanStep rooted stack component) := by
  rcases component_cases noSlash with skipped | rfl | plain
  · rwa [cleanStep_of_skipped skipped]
  · cases normal with
    | climb n unrooted =>
        rw [cleanStep_dotdot_of_climb rooted n unrooted]
        refine .climb _ fun isRooted => ?_
        rw [if_pos isRooted]
    | name plain below => rwa [cleanStep_dotdot_of_plain plain]
  · rw [cleanStep_of_plain plain]
    exact .name plain normal

theorem Normal.foldl_cleanStep {rooted : Bool} {stack : Stack} (normal : Normal rooted stack)
    {components : List (List Char)} (noSlash : ∀ component ∈ components, '/' ∉ component) :
    Normal rooted (components.foldl (FilePath.cleanStep rooted) stack) := by
  induction components generalizing stack with
  | nil => exact normal
  | cons component components ih =>
      obtain ⟨first, later⟩ := List.forall_mem_cons.mp noSlash
      exact ih (normal.cleanStep first) later

theorem slash_not_mem_of_split {s : List Char} {component : List Char}
    (member : component ∈ Strings.splitList ['/'] s) : '/' ∉ component := by
  have absent := Strings.not_infix_of_mem_splitList List.not_mem_nil member
  intro inside
  obtain ⟨before, after, rfl⟩ := List.append_of_mem inside
  exact absent ⟨before, after, by simp⟩

theorem normal_stack (path : String) : Normal (rooted path) (stack path) :=
  Normal.nil.foldl_cleanStep fun _ => slash_not_mem_of_split

/-- The components of a stack in normal form are all kept. -/
theorem Normal.foldl_reverse {rooted : Bool} {stack : Stack} (normal : Normal rooted stack) :
    stack.reverse.foldl (FilePath.cleanStep rooted) [] = stack := by
  induction normal with
  | climb n unrooted =>
      rw [List.reverse_replicate]
      cases rooted with
      | true => rw [unrooted rfl]; rfl
      | false =>
          induction n with
          | zero => rfl
          | succ n ih =>
              have step := ih nofun
              rw [List.replicate_succ', List.foldl_append, step, List.foldl_cons, List.foldl_nil,
                cleanStep_dotdot_of_climb false n nofun, ← List.replicate_succ']
              rfl
  | name plain below ih =>
      rw [List.reverse_cons, List.foldl_append, ih, List.foldl_cons, List.foldl_nil,
        cleanStep_of_plain plain]

/-! ## The text of a stack -/

theorem Normal.noSlash {rooted : Bool} {stack : Stack} (normal : Normal rooted stack) :
    ∀ component ∈ stack, component ≠ [] ∧ '/' ∉ component := by
  induction normal with
  | climb n unrooted =>
      intro component member
      rw [List.eq_of_mem_replicate member]
      decide
  | name plain below ih => exact List.forall_mem_cons.mpr ⟨⟨plain.nonempty, plain.noSlash⟩, ih⟩

theorem splitList_intercalate_slash {components : List (List Char)} (nonempty : components ≠ [])
    (noSlash : ∀ component ∈ components, '/' ∉ component) :
    Strings.splitList ['/'] (['/'].intercalate components) = components :=
  Strings.splitList_intercalate List.not_mem_nil nonempty fun component member occurs =>
    noSlash component member (occurs.subset List.mem_cons_self)

/-- What the slash of a rooted path puts before its components when it is split. -/
def rootParts (rooted : Bool) : List (List Char) := if rooted then [[]] else []

/-- The text of a stack splits into its components again. -/
theorem splitList_text {rooted : Bool} {stack : Stack} (normal : Normal rooted stack)
    (nonempty : stack ≠ []) :
    Strings.splitList ['/'] (text rooted stack).toList = rootParts rooted ++ stack.reverse := by
  have noSlash : ∀ component ∈ stack.reverse, '/' ∉ component := fun component member =>
    (normal.noSlash component (List.mem_reverse.mp member)).2
  have body := splitList_intercalate_slash (List.reverse_ne_nil_iff.mpr nonempty) noSlash
  have seen : ['/'].intercalate stack.reverse ≠ [] := by
    intro empty
    rw [empty] at body
    have same : [[]] = stack.reverse := body
    have first := normal.noSlash [] (List.mem_reverse.mp (same ▸ List.mem_singleton_self _))
    exact first.1 rfl
  cases rooted with
  | true =>
      rw [text, if_pos rfl, String.toList_ofList]
      exact (Strings.splitList_sep_append _).trans (congrArg _ body)
  | false =>
      rw [text, if_neg nofun, if_neg seen, String.toList_ofList, body]
      rfl

theorem text_ne_empty (rooted : Bool) (stack : Stack) : text rooted stack ≠ "" := by
  rw [text]
  split
  · intro empty
    exact absurd (String.ofList_injective empty) (List.cons_ne_nil _ _)
  · split
    next => decide
    next seen =>
      intro empty
      exact absurd (String.ofList_injective empty) seen

/-- A cleaned path is written with a slash exactly when it is rooted. -/
theorem rooted_text {isRooted : Bool} {stack : Stack} (normal : Normal isRooted stack) :
    rooted (text isRooted stack) = isRooted := by
  cases isRooted with
  | true => simp [rooted, text]
  | false =>
      by_cases empty : stack = []
      · subst empty
        decide
      · obtain ⟨first, rest, cut⟩ :=
          List.exists_cons_of_ne_nil (List.reverse_ne_nil_iff.mpr empty)
        obtain ⟨seen, noSlash⟩ :=
          normal.noSlash first (List.mem_reverse.mp (cut ▸ List.mem_cons_self))
        obtain ⟨c, cs, rfl⟩ := List.exists_cons_of_ne_nil seen
        have notSlash : c ≠ '/' := fun same => noSlash (same ▸ List.mem_cons_self)
        simp [rooted, text, cut, notSlash]

/-- Cleaning reads the components of a cleaned path again. -/
theorem stack_text {isRooted : Bool} {components : Stack} (normal : Normal isRooted components) :
    stack (text isRooted components) = components := by
  rw [stack, rooted_text normal]
  by_cases empty : components = []
  · subst empty
    cases isRooted <;> decide
  · rw [splitList_text normal empty, List.foldl_append]
    have skipped : (rootParts isRooted).foldl (FilePath.cleanStep isRooted) [] = [] := by
      cases isRooted <;> rfl
    rw [skipped, normal.foldl_reverse]

/-- Cleaned paths are the same when their components are. -/
theorem text_inj {isRooted : Bool} {components components' : Stack}
    (normal : Normal isRooted components) (normal' : Normal isRooted components') :
    text isRooted components = text isRooted components' ↔ components = components' := by
  refine ⟨fun same => ?_, fun same => same ▸ rfl⟩
  rw [← stack_text normal, same, stack_text normal']

/-! ## Paths within a directory -/

/-- The path is the directory itself or lies below it, by its text. -/
def Within (dir path : String) : Prop :=
  path = dir ∨ (dir ++ "/").toList <+: path.toList

instance (dir path : String) : Decidable (Within dir path) :=
  inferInstanceAs (Decidable (_ ∨ _))

theorem intercalate_append {front back : List (List Char)} (nonempty : front ≠ [])
    (nonempty' : back ≠ []) :
    ['/'].intercalate (front ++ back) =
      ['/'].intercalate front ++ '/' :: ['/'].intercalate back := by
  induction front with
  | nil => exact absurd rfl nonempty
  | cons component front ih =>
      cases front with
      | nil =>
          rw [List.singleton_append, List.intercalate_cons_of_ne_nil nonempty',
            List.intercalate_singleton, List.append_assoc]
          rfl
      | cons next front =>
          rw [List.cons_append, List.intercalate_cons_of_ne_nil (by simp),
            ih (List.cons_ne_nil next front), List.intercalate_cons_cons]
          simp only [List.append_assoc]

/-- The text of a stack that is not empty, in characters. -/
theorem toList_text {isRooted : Bool} {components : Stack} (normal : Normal isRooted components)
    (nonempty : components ≠ []) :
    (text isRooted components).toList =
      (if isRooted then ['/'] else []) ++ ['/'].intercalate components.reverse := by
  cases isRooted with
  | true =>
      rw [text, if_pos rfl, String.toList_ofList]
      rfl
  | false =>
      rw [text, if_neg nofun]
      split
      next empty =>
        have split := splitList_text normal nonempty
        rw [text, if_neg nofun, if_pos empty] at split
        have same : [['.']] = components.reverse := split
        have normal' := normal.foldl_reverse
        rw [← same] at normal'
        exact absurd normal'.symm nonempty
      next seen =>
        rw [String.toList_ofList]
        rfl

/-- A cleaned path lies within another when it adds names to its components. -/
theorem within_text_iff {isRooted : Bool} {dir path : Stack} (normalDir : Normal isRooted dir)
    (normalPath : Normal isRooted path) (nonempty : dir ≠ []) :
    Within (text isRooted dir) (text isRooted path) ↔ dir <:+ path := by
  refine ⟨fun within => ?_, fun suffix => ?_⟩
  · rcases within with same | ⟨rest, below⟩
    · rw [(text_inj normalPath normalDir).mp same]
    · by_cases empty : path = []
      · subst empty
        have lengths := congrArg List.length below
        have alone : (text isRooted []).toList.length = 1 := by cases isRooted <;> decide
        have seen : (text isRooted dir).toList ≠ [] :=
          mt Strings.eq_empty_iff.mpr (text_ne_empty isRooted dir)
        have long := List.length_pos_iff.mpr seen
        rw [alone, String.toList_append, List.length_append, List.length_append] at lengths
        have slash : "/".toList.length = 1 := by decide
        omega
      · have cut := splitList_text normalPath empty
        rw [← below, String.toList_append, List.append_assoc] at cut
        have parts := Strings.splitList_append_sep_append List.not_mem_nil
          (text isRooted dir).toList rest (a := '/')
        rw [splitList_text normalDir nonempty] at parts
        have whole := parts.symm.trans cut
        rw [List.append_assoc, List.append_right_inj] at whole
        rw [← List.reverse_prefix, ← whole]
        exact List.prefix_append _ _
  · obtain ⟨names, rfl⟩ := suffix
    by_cases none : names = []
    · subst none
      exact .inl rfl
    · have seen : names ++ dir ≠ [] := List.append_ne_nil_of_right_ne_nil names nonempty
      right
      rw [toList_text normalPath seen, List.reverse_append,
        intercalate_append (by simpa using nonempty) (by simpa using none), String.toList_append,
        toList_text normalDir nonempty]
      exact ⟨['/'].intercalate names.reverse, by simp⟩

/-! ## Joining a relative path

A path that is joined to a directory is cleaned together with it. -/

/-- `filepath.Join` goes on cleaning from the directory. -/
theorem join_eq_text {dir : String} (nonempty : dir ≠ "") (name : String) :
    join dir name =
      text (rooted dir) ((Strings.splitList ['/'] name.toList).foldl (cleanStep (rooted dir))
        (stack dir)) := by
  have chars : (dir ++ "/" ++ name).toList = dir.toList ++ (['/'] ++ name.toList) := by simp
  have same : rooted (dir ++ "/" ++ name) = rooted dir := by
    obtain ⟨c, cs, cut⟩ := List.exists_cons_of_ne_nil (mt Strings.eq_empty_iff.mpr nonempty)
    rw [rooted, rooted, chars, cut]
    rfl
  rw [join, if_pos nonempty, clean_eq, stack, same, chars,
    Strings.splitList_append_sep_append List.not_mem_nil, List.foldl_append]
  rfl

/-- A plain name is put behind the directory. -/
theorem join_of_plain {dir : String} (nonempty : dir ≠ "") {name : String}
    (plain : Plain name.toList) : join dir name = text (rooted dir) (name.toList :: stack dir) := by
  have alone : Strings.splitList ['/'] name.toList = [name.toList] := by
    refine Strings.splitList_of_absent List.not_mem_nil fun occurs => plain.noSlash ?_
    exact occurs.subset List.mem_cons_self
  rw [join_eq_text nonempty, alone, List.foldl_cons, List.foldl_nil, cleanStep_of_plain plain]

/-- A join to a cleaned path is a cleaned path. -/
theorem exists_join_text {isRooted : Bool} {components : Stack}
    (normal : Normal isRooted components) (path : String) :
    ∃ joined, Normal isRooted joined ∧
      join (text isRooted components) path = text isRooted joined ∧
        joined = (Strings.splitList ['/'] path.toList).foldl (cleanStep isRooted) components := by
  refine ⟨_, normal.foldl_cleanStep fun _ => slash_not_mem_of_split, ?_, rfl⟩
  rw [join_eq_text (text_ne_empty _ _), rooted_text normal, stack_text normal]

theorem join_text_of_plain {isRooted : Bool} {components : Stack}
    (normal : Normal isRooted components) {name : String} (plain : Plain name.toList) :
    join (text isRooted components) name = text isRooted (name.toList :: components) := by
  rw [join_of_plain (text_ne_empty _ _) plain, rooted_text normal, stack_text normal]

/-- The components of a path that is cleaned by itself, as if it were relative. -/
def relative (path : String) : Stack :=
  (Strings.splitList ['/'] path.toList).foldl (cleanStep false) []

/-- How many `..` it starts with. -/
def climbs (path : String) : ℕ := (relative path).count dotdot

/-- The names behind them. -/
def names (path : String) : List (List Char) := ((relative path).filter (· ≠ dotdot)).reverse

example : climbs "a/../../x/./y//" = 1 ∧ names "a/../../x/./y//" = [['x'], ['y']] := by decide

theorem normal_relative (path : String) : Normal false (relative path) :=
  Normal.nil.foldl_cleanStep fun _ => slash_not_mem_of_split

/-- A path cleaned by itself leads where the path leads. -/
theorem foldl_cleanStep_eq (isRooted : Bool) (components : Stack) {path : List (List Char)}
    (noSlash : ∀ component ∈ path, '/' ∉ component) :
    path.foldl (cleanStep isRooted) components =
      (path.foldl (cleanStep false) []).reverse.foldl (cleanStep isRooted) components := by
  induction path using List.reverseRecOn with
  | nil => rfl
  | append_singleton path component ih =>
      obtain ⟨before, here⟩ := List.forall_mem_append.mp noSlash
      have normal : Normal false (path.foldl (cleanStep false) []) :=
        Normal.nil.foldl_cleanStep before
      rw [List.foldl_append, List.foldl_append, ih before, List.foldl_cons, List.foldl_nil,
        List.foldl_cons, List.foldl_nil]
      generalize path.foldl (cleanStep false) [] = cleaned at normal
      rcases component_cases (here component (List.mem_singleton_self _)) with skipped | rfl | plain
      · rw [cleanStep_of_skipped skipped, cleanStep_of_skipped skipped]
      · cases normal with
        | climb n unrooted =>
            rw [cleanStep_dotdot_of_climb false n unrooted, if_neg nofun, List.reverse_replicate,
              List.reverse_replicate, List.replicate_succ', List.foldl_append]
            rfl
        | name plain below =>
            rw [cleanStep_dotdot_of_plain plain, List.reverse_cons, List.foldl_append,
              List.foldl_cons, List.foldl_nil, cleanStep_of_plain plain,
              cleanStep_dotdot_of_plain plain]
      · rw [cleanStep_of_plain plain, cleanStep_of_plain plain, List.reverse_cons,
          List.foldl_append, List.foldl_cons, List.foldl_nil, cleanStep_of_plain plain]

/-- A cleaned path goes up first and then down. -/
theorem Normal.exists_eq {isRooted : Bool} {components : Stack}
    (normal : Normal isRooted components) :
    ∃ front n, components = front ++ List.replicate n dotdot ∧ (∀ name ∈ front, Plain name) ∧
      (isRooted = true → n = 0) := by
  induction normal with
  | climb n unrooted => exact ⟨[], n, rfl, by simp, unrooted⟩
  | @name name stack plain below ih =>
      obtain ⟨front, n, rfl, plains, unrooted⟩ := ih
      exact ⟨name :: front, n, rfl, List.forall_mem_cons.mpr ⟨plain, plains⟩, unrooted⟩

/-- A path by itself: how often it climbs, and the names that it ends in. -/
theorem relative_eq (path : String) :
    relative path = (names path).reverse ++ List.replicate (climbs path) dotdot ∧
      ∀ name ∈ names path, Plain name := by
  obtain ⟨front, n, whole, plain, -⟩ := (normal_relative path).exists_eq
  have noClimb : ∀ name ∈ front, name ≠ dotdot := fun name member => (plain name member).notDotDot
  have count : climbs path = n := by
    rw [climbs, whole, List.count_append, List.count_replicate_self,
      List.count_eq_zero.mpr fun member => noClimb dotdot member rfl, Nat.zero_add]
  have kept : names path = front.reverse := by
    have gone : (List.replicate n dotdot).filter (· ≠ dotdot) = [] := by simp
    have all : front.filter (· ≠ dotdot) = front :=
      List.filter_eq_self.mpr fun name member => decide_eq_true (noClimb name member)
    rw [names, whole, List.filter_append, gone, all, List.append_nil]
  rw [kept, count, List.reverse_reverse]
  exact ⟨whole, fun name member => plain name (List.mem_reverse.mp member)⟩

/-- Plain names are pushed. -/
theorem foldl_cleanStep_of_plain (isRooted : Bool) (components : Stack) {path : List (List Char)}
    (plain : ∀ name ∈ path, Plain name) :
    path.foldl (cleanStep isRooted) components = path.reverse ++ components := by
  induction path generalizing components with
  | nil => rfl
  | cons name path ih =>
      obtain ⟨first, later⟩ := List.forall_mem_cons.mp plain
      rw [List.foldl_cons, cleanStep_of_plain first, ih _ later, List.reverse_cons,
        List.append_assoc, List.singleton_append]

/-- Climbing drops names; beyond them it stays at the root or goes on. -/
theorem foldl_climb {isRooted : Bool} (k : ℕ) {front : Stack} (plain : ∀ name ∈ front, Plain name)
    {n : ℕ} (unrooted : isRooted = true → n = 0) :
    (List.replicate k dotdot).foldl (cleanStep isRooted) (front ++ List.replicate n dotdot) =
      if k ≤ front.length then front.drop k ++ List.replicate n dotdot
      else List.replicate (if isRooted then 0 else n + (k - front.length)) dotdot := by
  induction k generalizing front n with
  | zero => simp
  | succ k ih =>
      rw [List.replicate_succ, List.foldl_cons]
      cases front with
      | nil =>
          have unrooted' : isRooted = true → (if isRooted then 0 else n + 1) = 0 :=
            fun isRooted => if_pos isRooted
          have rest := @ih [] (by simp) _ unrooted'
          rw [List.nil_append] at rest ⊢
          rw [cleanStep_dotdot_of_climb isRooted n unrooted, rest]
          cases isRooted with
          | true => cases k <;> simp
          | false =>
              cases k with
              | zero => simp
              | succ k => simp [Nat.add_comm, Nat.add_left_comm]
      | cons name front =>
          obtain ⟨first, later⟩ := List.forall_mem_cons.mp plain
          rw [List.cons_append, cleanStep_dotdot_of_plain first, ih later unrooted]
          simp

/-- A path drops as many components as it climbs and adds its names. -/
theorem foldl_splitList (isRooted : Bool) (components : Stack) (path : String) :
    (Strings.splitList ['/'] path.toList).foldl (cleanStep isRooted) components =
      (names path).reverse ++
        (List.replicate (climbs path) dotdot).foldl (cleanStep isRooted) components := by
  obtain ⟨whole, plain⟩ := relative_eq path
  rw [foldl_cleanStep_eq isRooted components fun _ => slash_not_mem_of_split]
  change (relative path).reverse.foldl _ _ = _
  rw [whole, List.reverse_append, List.reverse_replicate, List.reverse_reverse,
    List.foldl_append, foldl_cleanStep_of_plain isRooted _ plain]

/-- What is left of a directory after climbing, with names put on it, ends with the directory
exactly when the names end with what was climbed. -/
theorem suffix_climb_iff {isRooted : Bool} {dir pushed : Stack}
    (plainDir : ∀ name ∈ dir, Plain name)
    (nonempty : dir ≠ []) (plain : ∀ name ∈ pushed, Plain name) {n : ℕ}
    (unrooted : isRooted = true → n = 0) (k : ℕ) :
    dir ++ List.replicate n dotdot <:+ pushed ++
        (if k ≤ dir.length then dir.drop k ++ List.replicate n dotdot
        else List.replicate (if isRooted then 0 else n + (k - dir.length)) dotdot) ↔
      (dir ++ List.replicate n dotdot).take k <:+ pushed ∧
        (isRooted = true ∨ k ≤ (dir ++ List.replicate n dotdot).length) := by
  by_cases inside : k ≤ dir.length
  · have whole : dir ++ List.replicate n dotdot =
        dir.take k ++ (dir.drop k ++ List.replicate n dotdot) := by
      rw [← List.append_assoc, List.take_append_drop]
    rw [if_pos inside, List.take_append_of_le_length inside]
    conv_lhs => lhs; rw [whole]
    rw [List.suffix_append_self_iff, List.length_append]
    refine ⟨fun suffix => ⟨suffix, .inr (by omega)⟩, fun suffix => suffix.1⟩
  · rw [if_neg inside]
    cases isRooted with
    | true =>
        have all : dir.take k = dir := List.take_of_length_le (by omega)
        simp [unrooted rfl, all]
    | false =>
        have beyond : n + (k - dir.length) = (k - dir.length - 1) + 1 + n := by omega
        rw [if_neg nofun, beyond, List.replicate_add, ← List.append_assoc,
          List.suffix_append_self_iff]
        -- a `..` at the bottom of the one side, a name at the bottom of the other
        refine ⟨fun suffix => ?_, fun suffix => ?_⟩
        · obtain ⟨before, whole⟩ := suffix
          have bottom := congrArg List.getLast? whole
          rw [List.replicate_succ', ← List.append_assoc, List.getLast?_concat,
            List.getLast?_append_of_ne_nil _ nonempty,
            List.getLast?_eq_some_getLast nonempty, Option.some_inj] at bottom
          exact absurd bottom (plainDir _ (List.getLast_mem nonempty)).notDotDot
        · obtain ⟨suffix, bound⟩ := suffix
          have short := bound.resolve_left nofun
          rw [List.length_append, List.length_replicate] at short
          have climbed : dotdot ∈ (dir ++ List.replicate n dotdot).take k := by
            rw [List.take_append, List.take_replicate]
            refine List.mem_append_right _ (List.mem_replicate.mpr ⟨by omega, rfl⟩)
          exact absurd rfl (plain dotdot (suffix.subset climbed)).notDotDot

/-- A relative path comes back as far as it has climbed: its names start with the last components
of the directory, as many as it climbs (with all of them, when it reaches the root). -/
def ComesBack (dir path : String) : Prop :=
  ((stack dir).take (climbs path)).reverse <+: names path ∧
    (rooted dir = true ∨ climbs path ≤ (stack dir).length)

instance (dir path : String) : Decidable (ComesBack dir path) :=
  inferInstanceAs (Decidable (_ ∧ _))

/-- A path that does not climb stays below every directory. -/
theorem comesBack_of_climbs_eq_zero {path : String} (stays : climbs path = 0) (dir : String) :
    ComesBack dir path := by
  simp [ComesBack, stays]

/-- **Containment.**  A path that is joined to a cleaned directory lies within it exactly when it
comes back as far as it climbs. -/
theorem within_join_iff {isRooted : Bool} {name : List Char} {below : Stack} (plain : Plain name)
    (normal : Normal isRooted below) (path : String) :
    Within (text isRooted (name :: below)) (join (text isRooted (name :: below)) path) ↔
      ComesBack (text isRooted (name :: below)) path := by
  have normalDir : Normal isRooted (name :: below) := .name plain normal
  obtain ⟨joined, normalJoin, whole, pushed⟩ := exists_join_text normalDir path
  rw [whole, within_text_iff normalDir normalJoin (List.cons_ne_nil name below), pushed,
    foldl_splitList, ComesBack, stack_text normalDir, rooted_text normalDir,
    ← List.reverse_suffix, List.reverse_reverse]
  obtain ⟨front, n, rfl, plains, unrooted⟩ := normal.exists_eq
  have plains' : ∀ other ∈ name :: front, Plain other := List.forall_mem_cons.mpr ⟨plain, plains⟩
  have climbed := foldl_climb (climbs path) plains' unrooted
  rw [← List.cons_append, climbed]
  refine suffix_climb_iff plains' (List.cons_ne_nil name front) (fun other member => ?_) unrooted _
  exact (relative_eq path).2 other (List.mem_reverse.mp member)

end FilePath
