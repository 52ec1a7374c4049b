import Wardn.Lib.Strings

/-!
# JSON texts, line by line

`Text` holds of every text made of JSON tokens and JSON white space, so of every JSON text in
any layout.  No token contains a line break, so every visible line starts with the start of a
token.
-/

namespace Json

open Strings

/-- The characters a JSON token can start with. -/
def starts : List Char :=
  ['{', '}', '[', ']', ',', ':', '"', '-', '0', '1', '2', '3', '4', '5', '6', '7', '8', '9', 't',
    'f', 'n']

/-- Characters that make up a JSON text, whatever their order. -/
inductive Text : List Char → Prop
  | nil : Text []
  | space {c : Char} {s : List Char} (blank : c ∈ [' ', '\t', '\n', '\r']) (rest : Text s) :
    Text (c :: s)
  | punctuation {c : Char} {s : List Char} (mark : c ∈ ['{', '}', '[', ']', ',', ':'])
    (rest : Text s) : Text (c :: s)
  /-- A string; line breaks and other control characters are escaped in it. -/
  | string {body s : List Char} (escaped : ∀ c ∈ body, ' ' ≤ c) (rest : Text s) :
    Text ('"' :: body ++ '"' :: s)
  /-- A number, `true`, `false` or `null`. -/
  | literal {c : Char} {cs s : List Char}
    (first : c ∈ ['-', '0', '1', '2', '3', '4', '5', '6', '7', '8', '9', 't', 'f', 'n'])
    (inside : ∀ d ∈ cs, d.isAlphanum ∨ d ∈ ['+', '-', '.']) (rest : Text s) :
    Text (c :: cs ++ s)

/-- A token in front of a text lengthens its first line only, and starts it. -/
theorem forall_lines_of_token {c : Char} {cs s : List Char} (token : c ∈ starts)
    (inline : '\n' ∉ c :: cs)
    (rest : ∀ line ∈ lines s, ∀ d ∈ (trim line).head?, d ∈ starts) :
    ∀ line ∈ lines (c :: cs ++ s), ∀ d ∈ (trim line).head?, d ∈ starts := by
  have seen : ∀ c ∈ starts, isSpace c = false := by simp [starts, isSpace]
  obtain ⟨first, later, split⟩ := exists_lines_eq s
  rw [lines_append_inline inline, split, List.modifyHead_cons]
  intro line member d head
  rcases List.mem_cons.mp member with rfl | member
  · rw [List.cons_append, head?_trim_cons (seen c token)] at head
    cases head
    exact token
  · exact rest line (split ▸ List.mem_cons_of_mem first member) d head

theorem Text.forall_lines {s : List Char} (text : Text s) :
    ∀ line ∈ lines s, ∀ d ∈ (trim line).head?, d ∈ starts := by
  induction text with
  | nil =>
      intro line member d head
      cases List.mem_singleton.mp member
      cases head
  | @space c s blank _ ih =>
      obtain ⟨first, later, split⟩ := exists_lines_eq s
      intro line member d head
      rw [lines_cons, split] at member
      rw [split] at ih
      split_ifs at member
      · rcases List.mem_cons.mp member with rfl | member
        · cases head
        · exact ih line member d head
      · rw [List.modifyHead_cons] at member
        rcases List.mem_cons.mp member with rfl | member
        · have blankHead : ∀ d ∈ [c], isSpace d := by
            have all : ∀ c ∈ [' ', '\t', '\n', '\r'], isSpace c := by simp [isSpace]
            simpa using all c blank
          have margin : trim (c :: first) = trim first := trim_blank_append blankHead first
          rw [margin] at head
          exact ih first List.mem_cons_self d head
        · exact ih line (List.mem_cons_of_mem first member) d head
  | @punctuation c s mark _ ih =>
      have token : ∀ c ∈ ['{', '}', '[', ']', ',', ':'], c ∈ starts ∧ '\n' ∉ [c] := by
        simp [starts]
      exact forall_lines_of_token (token c mark).1 (token c mark).2 ih
  | @string body s escaped _ ih =>
      have inline : '\n' ∉ '"' :: (body ++ ['"']) := by
        intro member
        rcases List.mem_append.mp (List.mem_of_ne_of_mem (by decide) member) with inside | quote
        · exact absurd (escaped '\n' inside) (by decide)
        · exact absurd quote (by decide)
      have whole : '"' :: body ++ '"' :: s = '"' :: (body ++ ['"']) ++ s := by simp
      rw [whole]
      exact forall_lines_of_token (by decide) inline ih
  | @literal c cs s first inside _ ih =>
      have token : ∀ c ∈ ['-', '0', '1', '2', '3', '4', '5', '6', '7', '8', '9', 't', 'f', 'n'],
          c ∈ starts ∧ '\n' ≠ c := by simp [starts]
      refine forall_lines_of_token (token c first).1 (fun member => ?_) ih
      have within := inside '\n' (List.mem_of_ne_of_mem (token c first).2 member)
      revert within
      decide

/-- A visible line begins with one of the characters that a token can begin with. -/
theorem Text.head_mem_starts {s : List Char} (text : Text s) :
    ∀ line ∈ visible (lines s), ∀ c ∈ line.head?, c ∈ starts := by
  intro line member c head
  obtain ⟨line', member', rfl⟩ := List.mem_map.mp (List.mem_filter.mp member).1
  exact text.forall_lines line' member' c head

end Json
