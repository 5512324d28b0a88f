import Mathlib.Data.List.Basic

/-!
# Paths

A path is a text whose components are separated by `/`.  Where it leads, on a file system without
symbolic links, is found one component after the other: an empty component and `.` stay, `..` goes up,
and the root is its own parent.
-/

namespace LogosChat.Reasoning

/-- A place in the file tree: the names on the way from the root. -/
abbrev Place := List String

namespace FsPath

def isAbsolute (path : String) : Bool := path.toList.head? == some '/'

/-- `Path::join`. -/
def join (dir path : String) : String :=
  if isAbsolute path then path
  else if dir = "" ∨ dir.toList.getLast? = some '/' then dir ++ path
  else dir ++ "/" ++ path

def components (path : String) : List String := (path.toList.splitOn '/').map String.ofList

def enter (place : Place) (component : String) : Place :=
  if component = "" ∨ component = "." then place
  else if component = ".." then place.dropLast
  else place ++ [component]

/-- Where a path leads, from the working directory `cwd`. -/
def resolve (cwd : Place) (path : String) : Place :=
  (components path).foldl enter (if isAbsolute path then [] else cwd)

/-- `Path::extension` of a file name: what follows its last dot, unless that is its first character. -/
def extension (name : String) : Option String :=
  if name = ".." then none
  else
    match (name.toList.splitOn '.').reverse with
    | [] => none
    | [_] => none
    | [last, before] => if before = [] then none else some (String.ofList last)
    | last :: _ => some (String.ofList last)

/-- A component that names an entry of the directory it is looked up in. -/
def IsName (component : String) : Prop :=
  component ≠ "" ∧ component ≠ "." ∧ component ≠ ".."

theorem splitOn_of_not_mem {sep : Char} {cs : List Char} (h : sep ∉ cs) : cs.splitOn sep = [cs] := by
  rw [List.splitOn_eq_splitOnP]
  apply List.splitOnP_eq_singleton
  intro c hc
  rw [beq_eq_false_iff_ne]
  rintro rfl
  exact h hc

/-! ## One component -/

theorem enter_of_isName {component : String} (h : IsName component) (place : Place) :
    enter place component = place ++ [component] := by
  rw [enter, if_neg (by simp [h.1, h.2.1]), if_neg h.2.2]

/-- What names no entry leads to the place itself or to its parent. -/
theorem length_enter_le {component : String} (h : ¬ IsName component) (place : Place) :
    (enter place component).length ≤ place.length := by
  unfold enter
  split_ifs with hstay hup
  · exact Nat.le_refl _
  · rw [List.length_dropLast]
    omega
  · exact absurd ⟨fun heq ↦ hstay (.inl heq), fun heq ↦ hstay (.inr heq), hup⟩ h

/-- Looked up in `place`, a component leads to an entry of it exactly if it is a name. -/
theorem enter_eq_concat_iff (place : Place) (component : String) :
    (∃ entry, enter place component = place ++ [entry]) ↔ IsName component := by
  constructor
  · rintro ⟨entry, hentry⟩
    by_contra hname
    have hle := length_enter_le hname place
    rw [hentry, List.length_append, List.length_singleton] at hle
    omega
  · intro hname
    exact ⟨component, enter_of_isName hname place⟩

/-! ## Joined paths -/

theorem components_append_slash (front back : String) :
    components (front ++ "/" ++ back) = components front ++ components back := by
  have hchars : (front ++ "/" ++ back).toList = front.toList ++ '/' :: back.toList := by simp
  rw [components, hchars, List.splitOn_append_cons_of_beq _ _ (by simp), List.map_append]
  rfl

theorem components_of_plain {name : String} (h : '/' ∉ name.toList) : components name = [name] := by
  rw [components, splitOn_of_not_mem h, List.map_singleton, String.ofList_toList]

theorem isAbsolute_of_plain {name : String} (h : '/' ∉ name.toList) : isAbsolute name = false := by
  rw [isAbsolute, beq_eq_false_iff_ne]
  intro hhead
  exact h (List.mem_of_mem_head? hhead)

theorem isAbsolute_append {front : String} (h : front ≠ "") (back : String) :
    isAbsolute (front ++ back) = isAbsolute front := by
  unfold isAbsolute
  rw [String.toList_append, List.head?_append_of_ne_nil _ (by simpa using h)]

/-- A single component is looked up where the directory leads. -/
theorem resolve_join (cwd : Place) (dir : String) {name : String} (h : '/' ∉ name.toList) :
    resolve cwd (join dir name) = enter (resolve cwd dir) name := by
  rw [join, if_neg (by rw [isAbsolute_of_plain h]; exact Bool.false_ne_true)]
  by_cases hempty : dir = ""
  · subst hempty
    rw [if_pos (.inl rfl), String.empty_append, resolve, components_of_plain h, isAbsolute_of_plain h]
    rfl
  by_cases hslash : dir.toList.getLast? = some '/'
  · -- the separator is there already: it ends an empty component
    obtain ⟨front, hfront⟩ := List.getLast?_eq_some_iff.mp hslash
    have hdir : dir = String.ofList front ++ "/" := by
      apply String.toList_inj.mp
      rw [hfront, String.toList_append, String.toList_ofList]
      rfl
    have hcomponents : components dir = components (String.ofList front) ++ [""] := by
      have happend := components_append_slash (String.ofList front) ""
      rwa [String.append_empty, ← hdir] at happend
    have hjoined : components (dir ++ name) = components (String.ofList front) ++ [name] := by
      rw [hdir, components_append_slash, components_of_plain h]
    rw [if_pos (.inr hslash), resolve, resolve, isAbsolute_append hempty, hjoined, hcomponents,
      List.foldl_append, List.foldl_append]
    rfl
  · rw [if_neg (by simp [hempty, hslash]), resolve, resolve, String.append_assoc,
      isAbsolute_append hempty, ← String.append_assoc, components_append_slash, components_of_plain h,
      List.foldl_append]
    rfl

end FsPath

end LogosChat.Reasoning
