import Mathlib
import Exploration.Proofs.RecordPaths
import Exploration.Proofs.SubjectTrees

/-!
# Subjects side by side

Archives of any number of subjects are open under one root, and what they are asked comes in any
order. Neither a request of another subject (`same_serve_other`) nor one of its own (`Same.serve`)
makes a difference between what a subject sees with the others and without them, so each subject
gets the answers that it would get alone.
-/

namespace Exploration

/-! ## Requests of all subjects -/

/-- What the archives of a subject are asked. They are numbered as they were opened. -/
inductive Demand where
  | opening (sampling : SamplingSettings)
  /-- For all that the archive remembers. -/
  | reading (archive : Nat)
  /-- To keep a record, which may be made from what the archive remembers. -/
  | keeping (archive : Nat) (make : Archive → Addition)

/-- None if there is no archive of that number. -/
abbrev Answer := Option (Except Failure Archive)

/-- A tree, and the archives that are open on it, by their subjects. -/
structure Neighbours where
  tree : FileTree
  archives : String → List Archive

namespace Neighbours

open FileTree (Alike)

/-- The subject has other archives from now on. -/
def withArchives (x : Neighbours) (subject : String) (archives : List Archive) (t : FileTree) :
    Neighbours :=
  ⟨t, Function.update x.archives subject archives⟩

def serve (root : Path) (x : Neighbours) (subject : String) : Demand → Answer × Neighbours
  | .opening sampling =>
    match Archive.openAt sampling root subject x.tree with
    | (.error e, t) => (some (.error e), { x with tree := t })
    | (.ok a, t) => (some (.ok a), x.withArchives subject (x.archives subject ++ [a]) t)
  | .reading i => ((x.archives subject)[i]?.map .ok, x)
  | .keeping i make =>
    match (x.archives subject)[i]? with
    | none => (none, x)
    | some a =>
      match a.ask FileTree.publish (make a) x.tree with
      | (.error e, t) => (some (.error e), { x with tree := t })
      | (.ok b, t) => (some (.ok b), x.withArchives subject ((x.archives subject).set i b) t)

/-- All answers in their order, and what the requests came to. -/
def run (root : Path) (x : Neighbours) : List (String × Demand) →
    List (String × Answer) × Neighbours
  | [] => ([], x)
  | (subject, demand) :: rest =>
    let (answer, y) := x.serve root subject demand
    let (answers, z) := run root y rest
    ((subject, answer) :: answers, z)

variable {root : Path} {subject other : String} {x y : Neighbours}

/-- Each archive has the directory of its subject. -/
def Owned (root : Path) (x : Neighbours) : Prop :=
  ∀ subject, ∀ a ∈ x.archives subject, a.directory = subject :: root

/-- To the subject it is as if the two were one. -/
structure Same (root : Path) (subject : String) (x y : Neighbours) : Prop where
  tree : Alike root subject x.tree y.tree
  archives : y.archives subject = x.archives subject

theorem owned_withArchives (h : x.Owned root) {archives : List Archive}
    (ha : ∀ a ∈ archives, a.directory = subject :: root) (t : FileTree) :
    (x.withArchives subject archives t).Owned root := by
  intro s
  by_cases hs : s = subject
  · subst hs
    simpa [withArchives] using ha
  · simpa [withArchives, Function.update_of_ne hs] using h s

theorem owned_serve (h : x.Owned root) (subject : String) (demand : Demand) :
    (x.serve root subject demand).2.Owned root := by
  cases demand with
  | opening sampling =>
    simp only [serve]
    rcases hopen : Archive.openAt sampling root subject x.tree with ⟨e | a, t⟩
    · exact h
    · refine owned_withArchives h (List.forall_mem_append.2 ⟨h subject, ?_⟩) t
      rw [List.forall_mem_singleton, Archive.eq_loaded_of_openAt hopen]
      rfl
  | reading i => exact h
  | keeping i make =>
    simp only [serve]
    rcases ha : (x.archives subject)[i]? with _ | a
    · exact h
    · rcases hask : a.ask FileTree.publish (make a) x.tree with ⟨e | b, t⟩ <;> simp only [hask]
      · exact h
      · have hdirectory := (Archive.directory_of_ask hask).trans
          (h subject a (List.mem_of_getElem? ha))
        exact owned_withArchives h (Shared.owned_set (h subject) hdirectory) t

/-- What the subject asks for comes to the same in both. -/
theorem Same.serve (h : Same root subject x y) (hx : x.Owned root) (demand : Demand) :
    (y.serve root subject demand).1 = (x.serve root subject demand).1 ∧
      Same root subject (x.serve root subject demand).2 (y.serve root subject demand).2 := by
  have hwith : ∀ (archives : List Archive) {t t' : FileTree}, Alike root subject t t' →
      Same root subject (x.withArchives subject archives t) (y.withArchives subject archives t') :=
    fun archives t t' ht => ⟨ht, by simp [withArchives]⟩
  cases demand with
  | opening sampling =>
    have hopen := Archive.alike_openAt h.tree sampling
    simp only [Neighbours.serve]
    rcases hone : Archive.openAt sampling root subject x.tree with ⟨answer, t⟩
    rcases hother : Archive.openAt sampling root subject y.tree with ⟨answer', t'⟩
    rw [hone, hother] at hopen
    obtain ⟨rfl : answer' = answer, ht : Alike root subject t t'⟩ := hopen
    cases answer'
    · exact ⟨rfl, ht, h.archives⟩
    · rw [h.archives]
      exact ⟨rfl, hwith _ ht⟩
  | reading i =>
    simp only [Neighbours.serve, h.archives]
    exact ⟨trivial, h⟩
  | keeping i make =>
    simp only [Neighbours.serve, h.archives]
    rcases ha : (x.archives subject)[i]? with _ | a
    · exact ⟨rfl, h⟩
    have hask := Archive.alike_ask h.tree (hx subject a (List.mem_of_getElem? ha)) (make a)
    rcases hone : a.ask FileTree.publish (make a) x.tree with ⟨answer, t⟩
    rcases hother : a.ask FileTree.publish (make a) y.tree with ⟨answer', t'⟩
    rw [hone, hother] at hask
    obtain ⟨rfl : answer' = answer, ht : Alike root subject t t'⟩ := hask
    simp only [hone, hother]
    cases answer'
    · exact ⟨rfl, ht, h.archives⟩
    · exact ⟨rfl, hwith _ ht⟩

/-- Nothing that another subject asks for comes to anything for this one. -/
theorem same_serve_other (hne : other ≠ subject) (hx : x.Owned root) (demand : Demand) :
    Same root subject x (x.serve root other demand).2 := by
  have hwith : ∀ (archives : List Archive) {t : FileTree}, Alike root subject x.tree t →
      Same root subject x (x.withArchives other archives t) :=
    fun archives t ht => ⟨ht, by simp [withArchives, Function.update_of_ne hne.symm]⟩
  cases demand with
  | opening sampling =>
    have ht : FileTree.Alike root subject x.tree (Archive.openAt sampling root other x.tree).2 :=
      Archive.alike_openAt_other hne sampling x.tree
    simp only [Neighbours.serve]
    rcases hopen : Archive.openAt sampling root other x.tree with ⟨e | a, t⟩ <;> rw [hopen] at ht
    · exact ⟨ht, rfl⟩
    · exact hwith _ ht
  | reading i => exact ⟨.refl _, rfl⟩
  | keeping i make =>
    simp only [Neighbours.serve]
    rcases ha : (x.archives other)[i]? with _ | a
    · exact ⟨.refl _, rfl⟩
    have ht := Archive.alike_ask_other hne (hx other a (List.mem_of_getElem? ha)) (make a) x.tree
    rcases hask : a.ask FileTree.publish (make a) x.tree with ⟨e | b, t⟩ <;> rw [hask] at ht <;>
      simp only [hask]
    · exact ⟨ht, rfl⟩
    · exact hwith _ ht

theorem Same.trans {z : Neighbours} (h : Same root subject x y) (h' : Same root subject y z) :
    Same root subject x z :=
  ⟨h.tree.trans h'.tree, h'.archives.trans h.archives⟩

theorem Same.symm (h : Same root subject x y) : Same root subject y x :=
  ⟨h.tree.symm, h.archives.symm⟩

/-- The requests of others can be left out one by one. -/
theorem same_run : ∀ (demands : List (String × Demand)) {x y : Neighbours},
    Same root subject x y → x.Owned root →
      (x.run root demands).1.filter (·.1 = subject) =
          (y.run root (demands.filter (·.1 = subject))).1 ∧
        Same root subject (x.run root demands).2
          (y.run root (demands.filter (·.1 = subject))).2
  | [], _, _, h, _ => ⟨rfl, h⟩
  | (other, demand) :: rest, x, y, h, hx => by
    by_cases heq : other = subject
    · rw [heq]
      obtain ⟨hanswer, hsame⟩ := h.serve hx demand
      obtain ⟨hanswers, hfinal⟩ := same_run rest hsame (owned_serve hx subject demand)
      rw [List.filter_cons_of_pos (by simp)]
      refine ⟨?_, hfinal⟩
      simp only [Neighbours.run]
      rw [List.filter_cons_of_pos (by simp), hanswer, hanswers]
    · have hsame := (same_serve_other heq hx demand).symm.trans h
      obtain ⟨hanswers, hfinal⟩ := same_run rest hsame (owned_serve hx other demand)
      rw [List.filter_cons_of_neg (by simpa using heq)]
      refine ⟨?_, hfinal⟩
      simp only [Neighbours.run]
      rw [List.filter_cons_of_neg (by simpa using heq), hanswers]

/-- What was asked `together` came to the same for the subject as what it asked `alone`. -/
structure Undisturbed (root : Path) (subject : String)
    (together alone : List (String × Answer) × Neighbours) : Prop where
  answers : together.1.filter (·.1 = subject) = alone.1
  archives : together.2.archives subject = alone.2.archives subject
  files : ∀ path, (subject :: root) <:+ path →
    together.2.tree.find? path = alone.2.tree.find? path

/-- Traces of different subjects or with different run ids have different files, each in the
directory of its subject's traces and named for its run id, and what is asked of other subjects
changes no answer. -/
theorem separate_run :
    (∀ (start : Path) (text : List Char) (subject runId : String), usableName subject = true →
      usableName runId = true →
      Path.walk start (Archive.traceText text subject runId) =
          traceFile runId :: "traces" :: subject :: Path.walk start text ∧
        runIdOfFile? (traceFile runId) = some runId) ∧
    (∀ (start : Path) (text : List Char) (subject subject' runId runId' : String),
      usableName subject = true → usableName runId = true →
      usableName subject' = true → usableName runId' = true →
      Path.walk start (Archive.traceText text subject runId) =
          Path.walk start (Archive.traceText text subject' runId') →
        subject = subject' ∧ runId = runId') ∧
    ∀ (root : Path) (tree : FileTree) (demands : List (String × Demand)) (subject : String),
      let start : Neighbours := ⟨tree, fun _ => []⟩
      Undisturbed root subject (start.run root demands)
        (start.run root (demands.filter (·.1 = subject))) := by
  refine ⟨fun start text subject runId hs hr => ?_,
    fun start text s s' r r' hs hr hs' hr' h => ?_, ?_⟩
  · exact ⟨Archive.walk_traceText hs hr, runIdOfFile?_traceFile runId⟩
  · rw [Archive.walk_traceText hs hr, Archive.walk_traceText hs' hr'] at h
    obtain ⟨hfile, hdirectory⟩ := List.cons.inj h
    exact ⟨(List.cons.inj (List.cons.inj hdirectory).2).1, traceFile_injective hfile⟩
  · intro root tree demands subject start
    have howned : start.Owned root := fun _ a ha => absurd ha List.not_mem_nil
    have hstart : Same root subject start start := ⟨.refl tree, rfl⟩
    obtain ⟨hanswers, hsame⟩ := same_run demands hstart howned
    exact ⟨hanswers, hsame.archives.symm, fun path hpath => (hsame.tree.find? path hpath).symm⟩

/-- Three points and the endings of files are names like others. -/
theorem separate_run_three_points :
    usableName "..." = true ∧ usableName "trace_caf\u00e9.json" = true ∧
    Path.walk ["home"] (Archive.traceText "/srv/./old/../".toList "..." "trace_caf\u00e9.json") =
      ["trace_trace_caf\u00e9.json.json", "traces", "...", "srv"] := by
  have hsubject : usableName "..." = true := by decide
  have hrunId : usableName "trace_caf\u00e9.json" = true := by decide
  exact ⟨hsubject, hrunId, (separate_run.1 ["home"] "/srv/./old/../".toList _ _ hsubject hrunId).1⟩

end Neighbours

end Exploration
