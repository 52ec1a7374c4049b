import Mathlib.Data.List.DropRight
import Mathlib.Data.List.Infix
import Mathlib.Data.List.Induction

/-!
# Strings as Go's `strings` package sees them

Splitting at a separator, trimming white space and testing prefixes, each on lists of
characters first and then on `String`.  The facts the list layer provides:

* `splitList_append_sep_append`, `splitList_intercalate`: splitting goes through a separator and
  undoes joining, for a separator whose first element does not occur in its rest (so that two
  occurrences never overlap);
* `length_splitList_singleton`, `head?_splitList_singleton`: a separator of one element;
* `trim_blank_append`, `trim_eq_nil_iff`, `trim_suffix_trim_append`, `infix_trim_of_infix`: what
  trimming keeps;
* `lines_append_newline`, `infix_newline_iff`, `visible_lines_trim`: the lines of a text, what
  starts one, and that trimming the text loses none that can be seen.
-/

namespace Strings

/-! ## Splitting -/

section Split

variable {α : Type*} [DecidableEq α]

/-- The parts of a list between the occurrences of `sep`, leftmost first; `skip` elements of an
occurrence already found are still to be passed over. -/
def splitFrom (sep : List α) : Nat → List α → List (List α)
  | _, [] => [[]]
  | skip + 1, _ :: xs => splitFrom sep skip xs
  | 0, x :: xs =>
    if sep.isPrefixOf (x :: xs) then [] :: splitFrom sep (sep.length - 1) xs
    else (splitFrom sep 0 xs).modifyHead (x :: ·)

/-- The parts of a list between the occurrences of a separator. -/
def splitList (sep xs : List α) : List (List α) := splitFrom sep 0 xs

variable {sep : List α} {a : α} {rest : List α}

/-- Elements that are skipped belong to no part. -/
theorem splitFrom_skip (skipped xs : List α) :
    splitFrom sep skipped.length (skipped ++ xs) = splitFrom sep 0 xs := by
  induction skipped with
  | nil => rfl
  | cons s skipped ih => simpa only [List.length_cons, List.cons_append, splitFrom] using ih

/-- A separator at the front ends an empty part. -/
theorem splitList_sep_append (xs : List α) :
    splitList (a :: rest) (a :: rest ++ xs) = [] :: splitList (a :: rest) xs := by
  have found : (a :: rest).isPrefixOf (a :: (rest ++ xs)) = true :=
    List.isPrefixOf_iff_prefix.mpr ⟨xs, rfl⟩
  rw [splitList, List.cons_append, splitFrom, if_pos found, List.length_cons,
    Nat.add_sub_cancel, splitFrom_skip, splitList]

omit [DecidableEq α] in
/-- An occurrence of the separator that starts inside a part not containing it would have to run
into what follows, where the separator's first element stands. -/
theorem not_prefix_of_absent (apart : a ∉ rest) {part : List α} (nonempty : part ≠ [])
    (absent : ¬ a :: rest <:+: part) {after : List α}
    (follows : after = [] ∨ after.head? = some a) :
    ¬ a :: rest <+: part ++ after := by
  intro occurs
  rcases List.prefix_or_prefix_of_prefix occurs (List.prefix_append part after) with inside | beyond
  · exact absent inside.isInfix
  · obtain ⟨p, part, rfl⟩ := List.exists_cons_of_ne_nil nonempty
    obtain ⟨tail, split⟩ := beyond
    rw [List.cons_append] at split
    injection split with head_eq rest_eq
    rw [← rest_eq, ← head_eq, List.cons_append, List.cons_prefix_cons] at occurs
    have tailPrefix : tail <+: after := (List.prefix_append_right_inj part).mp occurs.2
    cases tail with
    | nil =>
      rw [List.append_nil] at rest_eq
      exact absent (by rw [← rest_eq, head_eq])
    | cons t tail =>
      obtain ⟨last, rfl⟩ := tailPrefix
      rcases follows with empty | starts
      · simp at empty
      · have same : t = a := by simpa using starts
        exact apart (by rw [← rest_eq, same]; simp)

/-- A part without a separator goes to the front of what is split behind it. -/
theorem splitList_append (apart : a ∉ rest) {part : List α} (absent : ¬ a :: rest <:+: part)
    {after : List α} (follows : after = [] ∨ after.head? = some a) :
    splitList (a :: rest) (part ++ after) =
      (splitList (a :: rest) after).modifyHead (part ++ ·) := by
  induction part with
  | nil => cases h : splitList (a :: rest) after <;> simp [h]
  | cons p part ih =>
    have absentTail : ¬ a :: rest <:+: part := fun inTail =>
      absent (inTail.trans (List.suffix_cons p part).isInfix)
    have noStart := not_prefix_of_absent apart (List.cons_ne_nil p part) absent follows
    rw [List.cons_append] at noStart ⊢
    have unmatched : ¬ (a :: rest).isPrefixOf (p :: (part ++ after)) = true :=
      fun found => noStart (List.isPrefixOf_iff_prefix.mp found)
    rw [splitList, splitFrom, if_neg unmatched]
    change (splitList (a :: rest) (part ++ after)).modifyHead (p :: ·) = _
    rw [ih absentTail, List.modifyHead_modifyHead]
    rfl

/-- Without a separator there is one part. -/
theorem splitList_of_absent (apart : a ∉ rest) {part : List α} (absent : ¬ a :: rest <:+: part) :
    splitList (a :: rest) part = [part] := by
  have whole : splitList (a :: rest) (part ++ []) =
      (splitList (a :: rest) []).modifyHead (part ++ ·) :=
    splitList_append apart absent (.inl rfl)
  simpa [splitList, splitFrom] using whole

/-- A part ends at the next separator. -/
theorem splitList_append_sep (apart : a ∉ rest) {part : List α} (absent : ¬ a :: rest <:+: part)
    (xs : List α) :
    splitList (a :: rest) (part ++ (a :: rest ++ xs)) = part :: splitList (a :: rest) xs := by
  rw [splitList_append apart absent (.inr rfl), splitList_sep_append, List.modifyHead_cons,
    List.append_nil]

theorem splitFrom_ne_nil (skip : ℕ) (xs : List α) : splitFrom sep skip xs ≠ [] := by
  induction xs generalizing skip with
  | nil => simp [splitFrom]
  | cons x xs ih =>
    cases skip with
    | succ skip => exact ih skip
    | zero =>
      rw [splitFrom]
      split
      · exact List.cons_ne_nil _ _
      · cases h : splitFrom sep 0 xs with
        | nil => exact absurd h (ih 0)
        | cons part parts => exact List.cons_ne_nil _ _

theorem splitList_ne_nil (sep xs : List α) : splitList sep xs ≠ [] := splitFrom_ne_nil 0 xs

omit [DecidableEq α] in
/-- Every list is without the separator or has a first occurrence of it. -/
theorem separator_induction (a : α) (rest : List α) {motive : List α → Prop}
    (whole : ∀ part, ¬ a :: rest <:+: part → motive part)
    (cut : ∀ part xs, ¬ a :: rest <:+: part → motive xs → motive (part ++ (a :: rest ++ xs)))
    (xs : List α) : motive xs := by
  have first : ∀ xs : List α, a :: rest <:+: xs →
      ∃ part ys, xs = part ++ (a :: rest ++ ys) ∧ ¬ a :: rest <:+: part := by
    intro xs
    induction xs with
    | nil => simp
    | cons x xs ih =>
        intro occurs
        by_cases here : a :: rest <+: x :: xs
        · obtain ⟨ys, split⟩ := here
          exact ⟨[], ys, split.symm, by simp⟩
        · obtain ⟨part, ys, rfl, absent⟩ := ih ((List.infix_cons_iff.mp occurs).resolve_left here)
          refine ⟨x :: part, ys, rfl, fun occurs' => ?_⟩
          rcases List.infix_cons_iff.mp occurs' with start | later
          · exact here (start.trans (List.prefix_append (x :: part) _))
          · exact absent later
  induction length : xs.length using Nat.strongRecOn generalizing xs with
  | ind n ih =>
      by_cases occurs : a :: rest <:+: xs
      · obtain ⟨part, ys, rfl, absent⟩ := first xs occurs
        refine cut part ys absent (ih ys.length ?_ ys rfl)
        rw [← length, List.length_append, List.length_append, List.length_cons]
        omega
      · exact whole xs occurs

/-- No part has a separator in it. -/
theorem not_infix_of_mem_splitList (apart : a ∉ rest) {xs part : List α}
    (member : part ∈ splitList (a :: rest) xs) : ¬ a :: rest <:+: part := by
  induction xs using separator_induction a rest with
  | whole xs absent =>
      rw [splitList_of_absent apart absent] at member
      rwa [List.mem_singleton.mp member]
  | cut first xs absent ih =>
      rw [splitList_append_sep apart absent] at member
      rcases List.mem_cons.mp member with rfl | later
      · exact absent
      · exact ih later

/-- Splitting goes through every occurrence of the separator. -/
theorem splitList_append_sep_append (apart : a ∉ rest) (xs ys : List α) :
    splitList (a :: rest) (xs ++ (a :: rest ++ ys)) =
      splitList (a :: rest) xs ++ splitList (a :: rest) ys := by
  induction xs using separator_induction a rest with
  | whole xs absent =>
      rw [splitList_append_sep apart absent, splitList_of_absent apart absent,
        List.singleton_append]
  | cut first xs absent ih =>
      have later : first ++ (a :: rest ++ xs) ++ (a :: rest ++ ys) =
          first ++ (a :: rest ++ (xs ++ (a :: rest ++ ys))) := by simp
      rw [later, splitList_append_sep apart absent, splitList_append_sep apart absent, ih,
        List.cons_append]

/-- Splitting a join splits what was joined. -/
theorem splitList_intercalate_eq_flatMap (apart : a ∉ rest) {parts : List (List α)}
    (nonempty : parts ≠ []) :
    splitList (a :: rest) ((a :: rest).intercalate parts) =
      parts.flatMap (splitList (a :: rest)) := by
  induction parts with
  | nil => exact absurd rfl nonempty
  | cons part parts ih =>
      rw [List.flatMap_cons]
      cases parts with
      | nil => rw [List.intercalate_singleton, List.flatMap_nil, List.append_nil]
      | cons next parts =>
          rw [List.intercalate_cons_cons, List.append_assoc, splitList_append_sep_append apart,
            ih (List.cons_ne_nil next parts)]

/-- Splitting undoes joining. -/
theorem splitList_intercalate (apart : a ∉ rest) {parts : List (List α)} (nonempty : parts ≠ [])
    (absent : ∀ part ∈ parts, ¬ a :: rest <:+: part) :
    splitList (a :: rest) ((a :: rest).intercalate parts) = parts := by
  have alone : ∀ part ∈ parts, splitList (a :: rest) part = [part] :=
    fun part member => splitList_of_absent apart (absent part member)
  rw [splitList_intercalate_eq_flatMap apart nonempty, List.flatMap_congr alone,
    List.flatMap_singleton']

/-- At a single character either a part ends or the first one grows. -/
theorem splitList_singleton_cons (a x : α) (xs : List α) :
    splitList [a] (x :: xs) =
      if x = a then [] :: splitList [a] xs else (splitList [a] xs).modifyHead (x :: ·) := by
  by_cases found : x = a
  · subst found
    rw [if_pos rfl]
    exact splitList_sep_append xs
  · rw [if_neg found, splitList, splitFrom, if_neg (by simp [Ne.symm found])]
    rfl

/-- A separator of one element cuts at each of its occurrences. -/
theorem length_splitList_singleton (a : α) (xs : List α) :
    (splitList [a] xs).length = xs.count a + 1 := by
  induction xs with
  | nil => rfl
  | cons x xs ih =>
      rw [splitList_singleton_cons]
      by_cases found : x = a
      · subst found
        rw [if_pos rfl, List.length_cons, ih, List.count_cons_self]
      · rw [if_neg found, List.length_modifyHead, ih, List.count_cons_of_ne found]

/-- The first part goes up to the first separator. -/
theorem head?_splitList_singleton (a : α) (xs : List α) :
    (splitList [a] xs).head? = some (xs.takeWhile (· ≠ a)) := by
  induction xs with
  | nil => rfl
  | cons x xs ih =>
      rw [splitList_singleton_cons]
      split_ifs with found
      · simp [found]
      · have kept : decide (x ≠ a) = true := decide_eq_true found
        rw [List.takeWhile_cons, if_pos kept]
        cases split : splitList [a] xs with
        | nil => exact absurd split (splitList_ne_nil _ _)
        | cons part parts =>
            rw [split, List.head?_cons, Option.some_inj] at ih
            rw [ih]
            rfl
end Split

/-! ## Trimming white space -/

/-- `unicode.IsSpace`. -/
def isSpace (c : Char) : Bool :=
  c ∈ ['\t', '\n', '\x0b', '\x0c', '\r', ' ', '\u0085', '\u00a0', '\u1680', '\u2028', '\u2029',
    '\u202f', '\u205f', '\u3000'] || ('\u2000' ≤ c && c ≤ '\u200a')

/-- Letters and figures are no space. -/
theorem isSpace_of_isAlphanum {c : Char} (alphanum : c.isAlphanum = true) : isSpace c = false := by
  by_contra space
  rw [Bool.not_eq_false, isSpace, Bool.or_eq_true] at space
  rcases space with listed | ranged
  · have none : ∀ c ∈ ['\t', '\n', '\x0b', '\x0c', '\r', ' ', '\u0085', '\u00a0', '\u1680',
        '\u2028', '\u2029', '\u202f', '\u205f', '\u3000'], c.isAlphanum = false := by simp
    rw [none c (of_decide_eq_true listed)] at alphanum
    cases alphanum
  · delta Char.isAlphanum Char.isAlpha Char.isUpper Char.isLower Char.isDigit at alphanum
    simp only [Char.le_def, Bool.or_eq_true, Bool.and_eq_true, decide_eq_true_eq] at ranged alphanum
    grind

/-- `strings.TrimSpace` on characters. -/
def trim (s : List Char) : List Char := (s.dropWhile isSpace).rdropWhile isSpace

theorem trim_blank_append {blank : List Char} (allBlank : ∀ c ∈ blank, isSpace c) (s : List Char) :
    trim (blank ++ s) = trim s := by
  rw [trim, List.dropWhile_append_of_pos allBlank, trim]

/-- What is only space is trimmed away. -/
theorem trim_eq_nil_iff {s : List Char} : trim s = [] ↔ ∀ c ∈ s, isSpace c := by
  rw [trim, List.rdropWhile_eq_nil_iff]
  constructor
  · intro allBlank
    have nothing : s.dropWhile isSpace = [] := by
      cases kept : s.dropWhile isSpace with
      | nil => rfl
      | cons c cs =>
        have blank := allBlank c (by rw [kept]; exact List.mem_cons_self)
        have visible := List.head_dropWhile_not isSpace (l := s) (by rw [kept]; simp)
        simp only [kept, List.head_cons] at visible
        rw [blank] at visible
        cases visible
    exact List.dropWhile_eq_nil_iff.mp nothing
  · intro allBlank c member
    exact allBlank c ((List.dropWhile_sublist isSpace).subset member)

/-- A text neither starts nor ends with white space. -/
structure Trimmed (s : List Char) : Prop where
  head : ∀ c ∈ s.head?, isSpace c = false
  last : ∀ c ∈ s.getLast?, isSpace c = false

theorem trimmed_trim (s : List Char) : Trimmed (trim s) := by
  constructor
  · intro c first
    have prefixed : trim s <+: s.dropWhile isSpace := List.rdropWhile_prefix isSpace _
    have first' : (s.dropWhile isSpace).head? = some c := by
      obtain ⟨tail, whole⟩ := prefixed
      rw [← whole, List.head?_append, first]
      rfl
    have visible := List.head?_dropWhile_not isSpace s
    rw [first'] at visible
    simpa using visible
  · intro c last
    obtain ⟨nonempty, rfl⟩ := List.mem_getLast?_eq_getLast last
    exact Bool.eq_false_iff.mpr (List.rdropWhile_last_not isSpace (s.dropWhile isSpace) nonempty)

/-- Space at the end is not seen. -/
theorem trim_append_blank {blank : List Char} (allBlank : ∀ c ∈ blank, isSpace c) (s : List Char) :
    trim (s ++ blank) = trim s := by
  by_cases nothing : s.dropWhile isSpace = []
  · have blankLeft := List.dropWhile_eq_nil_iff.mp nothing
    rw [trim_eq_nil_iff.mpr blankLeft, trim_eq_nil_iff]
    intro c member
    rcases List.mem_append.mp member with left | right
    · exact blankLeft c left
    · exact allBlank c right
  · have kept : (s ++ blank).dropWhile isSpace = s.dropWhile isSpace ++ blank := by
      rw [List.dropWhile_append, if_neg (by simpa using nothing)]
    rw [trim, kept, List.rdropWhile, List.reverse_append,
      List.dropWhile_append_of_pos fun c member => allBlank c (List.mem_reverse.mp member)]
    rfl

theorem trim_rdropWhile (s : List Char) : trim (s.rdropWhile isSpace) = trim s := by
  have blank : ∀ c ∈ s.rtakeWhile isSpace, isSpace c := fun c member =>
    List.mem_rtakeWhile_imp member
  have whole : s.rdropWhile isSpace ++ s.rtakeWhile isSpace = s := List.rdropWhile_append_rtakeWhile
  conv_rhs => rw [← whole]
  rw [trim_append_blank blank]

/-- After a trimmed text, trimming cuts off what follows at its end only. -/
theorem trim_trimmed_append {front : List Char} (trimmed : Trimmed front) (nonempty : front ≠ [])
    (s : List Char) : trim (front ++ s) = front ++ s.rdropWhile isSpace := by
  have kept : (front ++ s).dropWhile isSpace = front ++ s := by
    obtain ⟨c, cs, rfl⟩ := List.exists_cons_of_ne_nil nonempty
    rw [List.cons_append, List.dropWhile_cons_of_neg (by simp [trimmed.head c rfl])]
  rw [trim, kept]
  clear kept
  induction s using List.reverseRecOn with
  | nil =>
      rw [List.append_nil, List.rdropWhile_nil, List.append_nil, List.rdropWhile_eq_self_iff]
      intro nonempty blank
      rw [trimmed.last _ (List.getLast?_eq_some_getLast nonempty)] at blank
      cases blank
  | append_singleton s d ih =>
      rw [← List.append_assoc]
      by_cases blank : isSpace d = true
      · rw [List.rdropWhile_concat_pos _ _ _ blank, List.rdropWhile_concat_pos _ _ _ blank, ih]
      · rw [List.rdropWhile_concat_neg _ _ _ blank, List.rdropWhile_concat_neg _ _ _ blank,
          List.append_assoc]

/-- A trimmed text is trimmed already. -/
theorem trim_eq_self {s : List Char} (trimmed : Trimmed s) : trim s = s := by
  cases s with
  | nil => rfl
  | cons c cs =>
      have whole := trim_trimmed_append trimmed (List.cons_ne_nil c cs) []
      rwa [List.append_nil, List.rdropWhile_nil, List.append_nil] at whole

theorem trimmed_iff {s : List Char} : Trimmed s ↔ trim s = s :=
  ⟨trim_eq_self, fun same => same ▸ trimmed_trim s⟩

/-- Trimming keeps a visible first character. -/
theorem head?_trim_cons {c : Char} (visible : isSpace c = false) (s : List Char) :
    (trim (c :: s)).head? = some c := by
  have trimmed : Trimmed [c] := ⟨by simpa using visible, by simpa using visible⟩
  have whole := trim_trimmed_append trimmed (List.cons_ne_nil c []) s
  rw [List.singleton_append] at whole
  rw [whole]
  rfl

/-- A text is its trimmed core between two blank margins. -/
theorem exists_margins (s : List Char) :
    ∃ left right, (∀ c ∈ left, isSpace c) ∧ (∀ c ∈ right, isSpace c) ∧
      s = left ++ trim s ++ right := by
  refine ⟨s.takeWhile isSpace, (s.dropWhile isSpace).rtakeWhile isSpace, fun c member => ?_,
    fun c member => List.mem_rtakeWhile_imp member, ?_⟩
  · exact List.mem_takeWhile_imp member
  · rw [List.append_assoc, trim, List.rdropWhile_append_rtakeWhile, List.takeWhile_append_dropWhile]

theorem trim_isInfix (s : List Char) : trim s <:+: s := by
  obtain ⟨left, right, -, -, margins⟩ := exists_margins s
  exact ⟨left, right, margins.symm⟩

/-- A trimmed text behind a blank is cut off from that blank by trimming, or not touched. -/
theorem infix_trim_of_infix {core : List Char} (trimmed : Trimmed core) (nonempty : core ≠ [])
    {c : Char} (blank : isSpace c = true) {s : List Char} (occurs : c :: core <:+: s) :
    core <+: trim s ∨ c :: core <:+: trim s := by
  obtain ⟨before, after, rfl⟩ := occurs
  by_cases leading : ∀ d ∈ before, isSpace d
  · have allBlank : ∀ d ∈ before ++ [c], isSpace d :=
      List.forall_mem_append.mpr ⟨leading, by simpa using blank⟩
    have whole : before ++ c :: core ++ after = (before ++ [c]) ++ (core ++ after) := by simp
    rw [whole, trim_blank_append allBlank, trim_trimmed_append trimmed nonempty]
    exact .inl (List.prefix_append core _)
  · obtain ⟨d, ds, kept⟩ := List.exists_cons_of_ne_nil (mt List.dropWhile_eq_nil_iff.mp leading)
    have front : Trimmed (before.dropWhile isSpace ++ c :: core) := by
      refine ⟨fun e first => ?_, fun e last => ?_⟩
      · have visible := List.head?_dropWhile_not isSpace before
        rw [kept] at first visible
        cases first
        simpa using visible
      · rw [List.getLast?_append, List.getLast?_cons_of_ne_nil nonempty] at last
        cases ends : core.getLast? with
        | none => exact absurd (List.getLast?_eq_none_iff.mp ends) nonempty
        | some e' =>
            rw [ends] at last
            cases last
            exact trimmed.last e ends
    have whole : before ++ c :: core ++ after =
        before.takeWhile isSpace ++ (before.dropWhile isSpace ++ c :: core ++ after) := by
      conv_lhs => rw [← List.takeWhile_append_dropWhile (p := isSpace) (l := before)]
      simp only [List.append_assoc]
    rw [whole, trim_blank_append fun e member => List.mem_takeWhile_imp member,
      trim_trimmed_append front (by simp)]
    exact .inr ⟨before.dropWhile isSpace, after.rdropWhile isSpace, rfl⟩

/-- What stands before a trimmed text loses its space in front only. -/
theorem trim_append_of_trimmed (before : List Char) {core : List Char} (nonempty : core ≠ [])
    (trimmed : Trimmed core) :
    trim (before ++ core) = before.dropWhile isSpace ++ core := by
  have kept : (before ++ core).dropWhile isSpace = before.dropWhile isSpace ++ core := by
    rw [List.dropWhile_append]
    split
    · next blank =>
      obtain ⟨c, cs, rfl⟩ := List.exists_cons_of_ne_nil nonempty
      have visible := trimmed.head c rfl
      rw [List.isEmpty_iff.mp blank, List.dropWhile_cons_of_neg (by simp [visible]),
        List.nil_append]
    · rfl
  rw [trim, kept, List.rdropWhile_eq_self_iff]
  intro _ blank
  rw [List.getLast_append_of_ne_nil _ nonempty] at blank
  have visible := trimmed.last _ (List.getLast?_eq_some_getLast nonempty)
  rw [blank] at visible
  cases visible

/-- The core of a text survives trimming as a suffix whatever is put before the text. -/
theorem trim_suffix_trim_append (before : List Char) {s : List Char} (visible : trim s ≠ []) :
    trim s <:+ trim (before ++ s) := by
  obtain ⟨left, right, -, rightBlank, margins⟩ := exists_margins s
  have whole : trim (before ++ s) = (before ++ left).dropWhile isSpace ++ trim s := by
    conv_lhs => rw [margins]
    rw [← List.append_assoc, trim_append_blank rightBlank, ← List.append_assoc,
      trim_append_of_trimmed (before ++ left) visible (trimmed_trim s)]
  exact ⟨_, whole.symm⟩

/-! ## Lines

The lines of a text that hold more than white space, each trimmed.  White space around the text
does not change them. -/

/-- The lines of a text. -/
def lines (s : List Char) : List (List Char) := splitList ['\n'] s

/-- The lines of which something is left when they are trimmed. -/
def visible (lines : List (List Char)) : List (List Char) := (lines.map trim).filter (· ≠ [])

theorem lines_cons (c : Char) (s : List Char) :
    lines (c :: s) = if c = '\n' then [] :: lines s else (lines s).modifyHead (c :: ·) :=
  splitList_singleton_cons '\n' c s

/-- There is always a line. -/
theorem exists_lines_eq (s : List Char) : ∃ line rest, lines s = line :: rest := by
  induction s with
  | nil => exact ⟨[], [], rfl⟩
  | cons c s ih =>
      obtain ⟨line, rest, split⟩ := ih
      rw [lines_cons, split]
      split_ifs
      · exact ⟨[], line :: rest, rfl⟩
      · exact ⟨c :: line, rest, rfl⟩

theorem lines_append_newline (s t : List Char) : lines (s ++ '\n' :: t) = lines s ++ lines t :=
  splitList_append_sep_append List.not_mem_nil s t

/-- What has no line break belongs to the first line. -/
theorem lines_append_inline {inside : List Char} (inline : '\n' ∉ inside) (s : List Char) :
    lines (inside ++ s) = (lines s).modifyHead (inside ++ ·) := by
  induction inside with
  | nil =>
      obtain ⟨line, rest, split⟩ := exists_lines_eq s
      rw [List.nil_append, split]
      rfl
  | cons c inside ih =>
      have later := ih fun member => inline (List.mem_cons_of_mem c member)
      have notNewline : c ≠ '\n' := fun same => inline (same ▸ List.mem_cons_self)
      rw [List.cons_append, lines_cons, if_neg notNewline, later, List.modifyHead_modifyHead]
      rfl

/-- What holds no line break is at the start of a text when it is at the start of its first line. -/
theorem prefix_iff_of_lines {pre s line : List Char} {rest : List (List Char)} (inline : '\n' ∉ pre)
    (split : lines s = line :: rest) : pre <+: s ↔ pre <+: line := by
  induction s generalizing pre line rest with
  | nil =>
      cases split
      rfl
  | cons c s ih =>
      cases pre with
      | nil => simp
      | cons p pre =>
          obtain ⟨notNewline, inline⟩ := List.ne_and_not_mem_of_not_mem_cons inline
          obtain ⟨first, later, tail⟩ := exists_lines_eq s
          rw [lines_cons, tail] at split
          split_ifs at split with newline
          · cases split
            have differ : p ≠ c := fun same => notNewline (newline ▸ same.symm)
            simp [differ]
          · cases split
            rw [List.cons_prefix_cons, List.cons_prefix_cons, ih inline tail]

/-- A line break is followed by what starts a line other than the first. -/
theorem infix_newline_iff {pre : List Char} (inline : '\n' ∉ pre) (s : List Char) :
    '\n' :: pre <:+: s ↔ ∃ line ∈ (lines s).tail, pre <+: line := by
  induction s with
  | nil => simp [lines, splitList, splitFrom]
  | cons c s ih =>
      obtain ⟨first, later, tail⟩ := exists_lines_eq s
      rw [List.infix_cons_iff, ih, lines_cons, tail]
      split_ifs with newline
      · rw [newline, List.cons_prefix_cons, prefix_iff_of_lines inline tail]
        simp
      · have differ : '\n' ≠ c := Ne.symm newline
        simp [differ]

theorem mem_of_mem_lines {s line : List Char} (member : line ∈ lines s) {c : Char}
    (inside : c ∈ line) : c ∈ s := by
  induction s generalizing line with
  | nil =>
      cases List.mem_singleton.mp member
      cases inside
  | cons d s ih =>
      obtain ⟨first, rest, split⟩ := exists_lines_eq s
      rw [lines_cons, split] at member
      rw [split] at ih
      split_ifs at member with newline
      · rcases List.mem_cons.mp member with rfl | later
        · cases inside
        · exact List.mem_cons_of_mem d (ih later inside)
      · rcases List.mem_cons.mp member with rfl | later
        · rcases List.mem_cons.mp inside with rfl | inside
          · exact List.mem_cons_self
          · exact List.mem_cons_of_mem d (ih List.mem_cons_self inside)
        · exact List.mem_cons_of_mem d (ih (List.mem_cons_of_mem first later) inside)

theorem visible_cons (line : List Char) (rest : List (List Char)) :
    visible (line :: rest) =
      if trim line = [] then visible rest else trim line :: visible rest := by
  by_cases blank : trim line = []
  · simp [visible, blank]
  · simp [visible, blank]

/-- Each line is looked at by itself. -/
theorem visible_append (front back : List (List Char)) :
    visible (front ++ back) = visible front ++ visible back := by
  rw [visible, List.map_append, List.filter_append]
  rfl

theorem visible_eq_nil_of_blank {blank : List (List Char)}
    (allBlank : ∀ line ∈ blank, ∀ c ∈ line, isSpace c) : visible blank = [] := by
  induction blank with
  | nil => rfl
  | cons line rest ih =>
      rw [visible_cons, if_pos (trim_eq_nil_iff.mpr (allBlank line List.mem_cons_self))]
      exact ih fun line' member => allBlank line' (List.mem_cons_of_mem line member)

/-- Blank lines in front are not seen. -/
theorem visible_lines_blank_append {blank : List Char} (allBlank : ∀ c ∈ blank, isSpace c)
    (s : List Char) : visible (lines (blank ++ s)) = visible (lines s) := by
  induction blank with
  | nil => rfl
  | cons c blank ih =>
      have rest := ih fun d member => allBlank d (List.mem_cons_of_mem c member)
      obtain ⟨line, later, split⟩ := exists_lines_eq (blank ++ s)
      rw [split] at rest
      rw [List.cons_append, lines_cons, split, ← rest]
      split_ifs
      · exact visible_cons [] (line :: later)
      · have blankHead : ∀ d ∈ [c], isSpace d := by simpa using allBlank c List.mem_cons_self
        have margin : trim (c :: line) = trim line := trim_blank_append blankHead line
        rw [List.modifyHead_cons, visible_cons, visible_cons, margin]

/-- Blank text at the end widens the last line and may add blank lines. -/
theorem exists_lines_append_blank {blank : List Char} (allBlank : ∀ c ∈ blank, isSpace c)
    (s : List Char) :
    ∃ line margin rest rest', lines s = line :: rest ∧
      lines (s ++ blank) = (line ++ margin) :: rest' ∧
      (∀ c ∈ margin, isSpace c) ∧ visible rest' = visible rest := by
  induction s with
  | nil =>
      obtain ⟨margin, rest, split⟩ := exists_lines_eq blank
      refine ⟨[], margin, [], rest, rfl, split, fun c inside => ?_, ?_⟩
      · exact allBlank c (mem_of_mem_lines (split ▸ List.mem_cons_self) inside)
      · refine visible_eq_nil_of_blank fun line member c inside => ?_
        exact allBlank c (mem_of_mem_lines (split ▸ List.mem_cons_of_mem margin member) inside)
  | cons c s ih =>
      obtain ⟨line, margin, rest, rest', split, split', marginBlank, same⟩ := ih
      rw [List.cons_append, lines_cons, lines_cons, split, split']
      split_ifs
      · refine ⟨[], [], line :: rest, (line ++ margin) :: rest', rfl, rfl, by simp, ?_⟩
        rw [visible_cons, visible_cons, trim_append_blank marginBlank, same]
      · exact ⟨c :: line, margin, rest, rest', rfl, rfl, marginBlank, same⟩

/-- Blank lines at the end are not seen. -/
theorem visible_lines_append_blank {blank : List Char} (allBlank : ∀ c ∈ blank, isSpace c)
    (s : List Char) : visible (lines (s ++ blank)) = visible (lines s) := by
  obtain ⟨line, margin, rest, rest', split, split', marginBlank, same⟩ :=
    exists_lines_append_blank allBlank s
  rw [split, split', visible_cons, visible_cons, trim_append_blank marginBlank, same]

/-- Trimming a text does not change what is seen of its lines. -/
theorem visible_lines_trim (s : List Char) : visible (lines (trim s)) = visible (lines s) := by
  obtain ⟨left, right, leftBlank, rightBlank, margins⟩ := exists_margins s
  conv_rhs => rw [margins]
  rw [visible_lines_append_blank rightBlank, visible_lines_blank_append leftBlank]

/-! ## On `String` -/

/-- `strings.Split`. -/
def split (s sep : String) : List String := (splitList sep.toList s.toList).map String.ofList

/-- `strings.TrimSpace`. -/
def trimSpace (s : String) : String := String.ofList (trim s.toList)

/-- `strings.HasPrefix`. -/
def hasPrefix (s pre : String) : Bool := pre.toList.isPrefixOf s.toList

/-- `strings.TrimPrefix`. -/
def trimPrefix (s pre : String) : String :=
  if hasPrefix s pre then String.ofList (s.toList.drop pre.toList.length) else s

/-- `strings.ToLower` on the ASCII letters. -/
def toLower (s : String) : String := String.ofList (s.toList.map Char.toLower)

@[simp] theorem toList_trimSpace (s : String) : (trimSpace s).toList = trim s.toList := by
  simp [trimSpace]

@[simp] theorem hasPrefix_iff {s pre : String} :
    hasPrefix s pre = true ↔ pre.toList <+: s.toList :=
  List.isPrefixOf_iff_prefix

theorem trimPrefix_append (pre s : String) : trimPrefix (pre ++ s) pre = s := by
  rw [trimPrefix, if_pos (by simp), String.toList_append, List.drop_left, String.ofList_toList]

/-- A text is its prefix and the rest exactly when it has the prefix. -/
theorem eq_append_trimPrefix_iff {s pre : String} :
    s = pre ++ trimPrefix s pre ↔ hasPrefix s pre = true := by
  refine ⟨fun same => ?_, fun found => ?_⟩
  · rw [same, hasPrefix_iff, String.toList_append]
    exact List.prefix_append _ _
  · obtain ⟨rest, front⟩ := hasPrefix_iff.mp found
    rw [← String.toList_inj, trimPrefix, if_pos found, ← front]
    simp

theorem eq_empty_iff {s : String} : s = "" ↔ s.toList = [] := by
  rw [← String.toList_inj]
  rfl

end Strings
