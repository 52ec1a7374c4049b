import Wardn.Lib.Strings

/-!
# Lexical file paths

The parts of Go's `path/filepath` (on a system whose separator is the slash) that work on
the text of a path alone.
-/

namespace FilePath

/-- One component of a path under `filepath.Clean`; `stack` holds the components kept so far,
last one first. -/
def cleanStep (rooted : Bool) (stack : List (List Char)) (component : List Char) :
    List (List Char) :=
  if component = [] ∨ component = ['.'] then stack
  else if component = ['.', '.'] then
    match stack with
    | [] => if rooted then [] else [['.', '.']]
    | top :: below => if top = ['.', '.'] then ['.', '.'] :: stack else below
  else component :: stack

/-- `filepath.Clean`. -/
def clean (path : String) : String :=
  let rooted := path.toList.head? == some '/'
  let kept := (Strings.splitList ['/'] path.toList).foldl (cleanStep rooted) []
  let body := ['/'].intercalate kept.reverse
  if rooted then String.ofList ('/' :: body)
  else if body = [] then "."
  else String.ofList body

/-- `filepath.Join` of two elements. -/
def join (dir name : String) : String :=
  if dir ≠ "" then clean (dir ++ "/" ++ name)
  else if name ≠ "" then clean name
  else ""

/-- `filepath.Ext`: the suffix from the last dot of the last component on. -/
def ext (path : String) : String :=
  let base := path.toList.reverse.takeWhile (· ≠ '/')
  if '.' ∈ base then String.ofList ('.' :: (base.takeWhile (· ≠ '.')).reverse)
  else ""

/-- A name that is one component of a path and stays it under `filepath.Clean`. -/
structure Plain (name : List Char) : Prop where
  nonempty : name ≠ []
  noSlash : '/' ∉ name
  notDot : name ≠ ['.']
  notDotDot : name ≠ ['.', '.']

/-- A plain name is pushed. -/
theorem cleanStep_of_plain {name : List Char} (plain : Plain name) (rooted : Bool)
    (stack : List (List Char)) : cleanStep rooted stack name = name :: stack := by
  unfold cleanStep
  rw [if_neg (by simp [plain.nonempty, plain.notDot]), if_neg plain.notDotDot]

theorem intercalate_concat (sep last : List Char) (parts : List (List Char)) :
    sep.intercalate (parts ++ [last]) = parts.flatMap (· ++ sep) ++ last := by
  induction parts with
  | nil => exact List.intercalate_singleton
  | cons part parts ih =>
      rw [List.cons_append, List.intercalate_cons_of_ne_nil (by simp), ih, List.flatMap_cons]
      simp only [List.append_assoc]

/-- A plain name stands behind a text that depends on the directory alone. -/
theorem exists_join_eq {dir : String} (nonempty : dir ≠ "") :
    ∃ front, ∀ name : String, Plain name.toList →
      join dir name = String.ofList (front ++ name.toList) := by
  obtain ⟨c, cs, chars⟩ := List.exists_cons_of_ne_nil (mt Strings.eq_empty_iff.mpr nonempty)
  let kept := (Strings.splitList ['/'] dir.toList).foldl (cleanStep (c == '/')) []
  let root : List Char := if c == '/' then ['/'] else []
  refine ⟨root ++ kept.reverse.flatMap (· ++ ['/']), fun name plain => ?_⟩
  have text : (dir ++ "/" ++ name).toList = dir.toList ++ (['/'] ++ name.toList) := by simp
  have alone : Strings.splitList ['/'] name.toList = [name.toList] := by
    refine Strings.splitList_of_absent List.not_mem_nil fun occurs => plain.noSlash ?_
    exact occurs.subset List.mem_cons_self
  have components : Strings.splitList ['/'] (dir ++ "/" ++ name).toList =
      Strings.splitList ['/'] dir.toList ++ [name.toList] := by
    rw [text, Strings.splitList_append_sep_append List.not_mem_nil, alone]
  have rooted : (dir ++ "/" ++ name).toList.head? = some c := by
    rw [text, chars, List.cons_append, List.head?_cons]
  have body : ['/'].intercalate (kept.reverse ++ [name.toList]) ≠ [] := by
    rw [intercalate_concat]
    exact List.append_ne_nil_of_right_ne_nil _ plain.nonempty
  rw [join, if_pos nonempty, clean, components, rooted, List.foldl_append, List.foldl_cons,
    List.foldl_nil, cleanStep_of_plain plain, List.reverse_cons]
  change (if (c == '/') = true then
      String.ofList ('/' :: ['/'].intercalate (kept.reverse ++ [name.toList]))
    else if ['/'].intercalate (kept.reverse ++ [name.toList]) = [] then "."
    else String.ofList (['/'].intercalate (kept.reverse ++ [name.toList]))) = _
  rw [if_neg body, intercalate_concat]
  by_cases slash : (c == '/') = true
  · rw [if_pos slash, show root = ['/'] from if_pos slash, List.append_assoc]
    rfl
  · rw [if_neg slash, show root = [] from if_neg slash]
    rfl

/-- Plain names in a directory are different paths. -/
theorem join_injective {dir a b : String} (nonempty : dir ≠ "") (plainA : Plain a.toList)
    (plainB : Plain b.toList) (same : join dir a = join dir b) : a = b := by
  obtain ⟨front, joined⟩ := exists_join_eq nonempty
  rw [joined a plainA, joined b plainB] at same
  exact String.toList_inj.mp (List.append_cancel_left (String.ofList_injective same))

example : join "/tmp/wardn-git/1f" "../2a/./k8s//" = "/tmp/wardn-git/2a/k8s" := by decide

example : ext "k8s/app.v2.yaml" = ".yaml" ∧ ext "k8s.d/Makefile" = "" := by decide

end FilePath
