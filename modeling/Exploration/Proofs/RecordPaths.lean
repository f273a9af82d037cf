import Mathlib
import Exploration.Proofs.Loading
import Exploration.Proofs.Words

/-!
# The paths of records

A path is written as a text in which separators stand between names. Some names are not taken for
entries of a directory: the empty one and those of one or two points, and a name with a separator is
more than one. The names that an archive accepts are entries (`walk_join`), so the text of a path to
a trace leads to the place in the directory of the traces that has its name (`walk_traceText`).
-/

namespace Exploration

theorem Text.split_append {separates : Char → Bool} {c : Char} (hc : separates c = true)
    (after : List Char) : ∀ before : List Char,
      split separates (before ++ c :: after) = split separates before ++ split separates after
  | [] => by simp [split, hc]
  | b :: before => by
    have ih := split_append hc after before
    rw [List.cons_append, split, split, ih, split_eq_cons separates before]
    split <;> simp

theorem Text.split_of_all {separates : Char → Bool} {cs : List Char}
    (h : ∀ c ∈ cs, separates c = false) : split separates cs = [cs] := by
  induction cs with
  | nil => rfl
  | cons c cs ih =>
    obtain ⟨hc, hcs⟩ := List.forall_mem_cons.1 h
    simp [split, hc, ih hcs]

namespace Path

/-- The path behind one more name: a point or nothing stays there, and two points lead back up. -/
def step (path : Path) (name : List Char) : Path :=
  if name = [] ∨ name = ['.'] then path
  else if name = ['.', '.'] then path.tail
  else String.ofList name :: path

/-- Where a text leads from `start`, or from the topmost directory if a separator is in front. -/
def walk (start : Path) (text : List Char) : Path :=
  (Text.split (· = '/') text).foldl step (if text.head? = some '/' then [] else start)

/-- The text with one more name. A name with a separator in front stands for itself. -/
def join (text name : List Char) : List Char :=
  if name.head? = some '/' then name
  else if text = [] ∨ text.getLast? = some '/' then text ++ name
  else text ++ '/' :: name

/-- A name that an entry of a directory can have. -/
structure IsName (name : List Char) : Prop where
  stays : name ≠ [] ∧ name ≠ ['.'] ∧ name ≠ ['.', '.']
  whole : '/' ∉ name

variable {start : Path} {text name : List Char}

theorem IsName.foldl_step (h : IsName name) :
    (Text.split (· = '/') name).foldl step start = String.ofList name :: start := by
  have hsplit : Text.split (· = '/') name = [name] :=
    Text.split_of_all fun c hc => decide_eq_false fun heq => h.whole (heq ▸ hc)
  obtain ⟨hempty, hpoint, hpoints⟩ := h.stays
  simp [hsplit, step, hempty, hpoint, hpoints]

theorem walk_append (h : IsName name) (before : List Char) :
    walk start (before ++ '/' :: name) = String.ofList name :: walk start (before ++ ['/']) := by
  have hhead : (before ++ '/' :: name).head? = (before ++ ['/']).head? := by cases before <;> rfl
  have hslash : decide ('/' = '/') = true := rfl
  rw [walk, walk, Text.split_append hslash, Text.split_append hslash, List.foldl_append,
    List.foldl_append, h.foldl_step, hhead]
  rfl

/-- A separator at the end of a text leads nowhere else. -/
theorem walk_concat (h : text ≠ []) : walk start (text ++ ['/']) = walk start text := by
  have hslash : decide ('/' = '/') = true := rfl
  rw [walk, walk, Text.split_append hslash, List.foldl_append, List.head?_append_of_ne_nil _ h]
  rfl

/-- A text with one more name leads to the entry of that name, wherever the text leads. -/
theorem walk_join (h : IsName name) :
    walk start (join text name) = String.ofList name :: walk start text := by
  have hhead : name.head? ≠ some '/' := fun hhead => h.whole (List.mem_of_mem_head? hhead)
  rw [join, if_neg hhead]
  by_cases hempty : text = []
  · rw [if_pos (Or.inl hempty), hempty, List.nil_append, walk, if_neg hhead, h.foldl_step]
    rfl
  · by_cases hlast : text.getLast? = some '/'
    · obtain ⟨before, rfl⟩ := List.getLast?_eq_some_iff.1 hlast
      rw [if_pos (Or.inr hlast), List.append_assoc, List.singleton_append, walk_append h]
    · rw [if_neg (by simp [hempty, hlast]), walk_append h, walk_concat hempty]

end Path

/-! ## Names that are accepted -/

theorem notMem_of_usable {name : String} (h : usableName name = true) : '/' ∉ name.toList := by
  simp only [usableName, Bool.and_eq_true, List.all_eq_true] at h
  exact fun hmem => absurd (h.2 _ hmem) (by decide)

theorem isName_of_usable {name : String} (h : usableName name = true) :
    Path.IsName name.toList := by
  refine ⟨?_, notMem_of_usable h⟩
  have heq : ∀ cs : List Char, name.toList = cs → name = String.ofList cs := fun cs hcs => by
    rw [← hcs, String.ofList_toList]
  refine ⟨fun hcs => ?_, fun hcs => ?_, fun hcs => ?_⟩
  all_goals
    rw [heq _ hcs] at h
    revert h
    decide

/-- The name of a trace's file begins with a letter. -/
theorem isName_traceFile {runId : String} (h : usableName runId = true) :
    Path.IsName (traceFile runId).toList := by
  rw [traceFile, String.toList_ofList]
  refine ⟨by simp [traceStart], ?_⟩
  simp [traceStart, recordEnding, notMem_of_usable h]

namespace Archive

/-- The text of the path to the file of a trace. -/
def traceText (root : List Char) (subject runId : String) : List Char :=
  Path.join (Path.join (Path.join root subject.toList) "traces".toList) (traceFile runId).toList

/-- It leads to the file of that name in the directory of the subject's traces. -/
theorem walk_traceText {start : Path} {root : List Char} {subject runId : String}
    (hsubject : usableName subject = true) (hrunId : usableName runId = true) :
    Path.walk start (traceText root subject runId) =
      traceFile runId :: traceDirectory (subject :: Path.walk start root) := by
  have htraces : Path.IsName "traces".toList := ⟨by decide, by decide⟩
  rw [traceText, Path.walk_join (isName_traceFile hrunId), Path.walk_join htraces,
    Path.walk_join (isName_of_usable hsubject)]
  simp only [String.ofList_toList, traceDirectory]

end Archive

end Exploration
