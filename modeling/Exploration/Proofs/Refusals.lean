import Mathlib
import Exploration.Proofs.LoadedFiles

/-!
# What is refused

An addition is refused for the first of its reasons (`answer_eq`): the archive turns it down by
itself, the storage fails, or something has the name of its file. What is refused leaves the archive
and the tree as they were (`keep_refused`). It is the tree that says whether a name is taken,
whatever has it and whatever the archive remembers of it.
-/

namespace Exploration

namespace FileTree

/-- Storage that may be out of order at any time: an attempt fails and leaves the tree as it was, or
goes as on the tree. -/
def MayFail (publish : Publish FileTree) : Prop :=
  ∀ path text t, publish path text t = (.failed, t) ∨
    publish path text t = FileTree.publish path text t

theorem mayFail_publish : MayFail publish := fun _ _ _ => Or.inr rfl

theorem mayFail_publishNothing : MayFail publishNothing := fun _ _ _ => Or.inl rfl

/-- How an attempt ended says what was at the path, unless it failed. -/
theorem MayFail.cases {publish : Publish FileTree} (h : MayFail publish) (path : Path)
    (text : String) (t : FileTree) :
    publish path text t = (.failed, t)
      ∨ (publish path text t = (.taken, t) ∧ (t.find? path).isSome = true)
      ∨ (publish path text t = (.created, t.insert path (.file (some text)))
        ∧ t.find? path = none) := by
  rcases h path text t with hp | hp
  · exact Or.inl hp
  · rw [hp]
    rcases publish_cases path text t with ⟨hp, hnone, -⟩ | ⟨hp, hsome⟩ | hp
    · exact Or.inr (Or.inr ⟨hp, hnone⟩)
    · exact Or.inr (Or.inl ⟨hp, hsome⟩)
    · exact Or.inl hp

/-- There is one more file in `t'` than in `t`, and all else is as it was. -/
structure OneMore (path : Path) (text : String) (t t' : FileTree) : Prop where
  new : t.find? path = none
  file : t'.find? path = some (.file (some text))
  others : ∀ q, q ≠ path → t'.find? q = t.find? q

theorem oneMore_insert {t : FileTree} {path : Path} {text : String} (h : t.find? path = none) :
    OneMore path text t (t.insert path (.file (some text))) where
  new := h
  file := by rw [find?_insert, if_pos rfl]
  others q hq := by rw [find?_insert, if_neg hq]

end FileTree

/-! ## Additions of either kind -/

namespace Addition

/-- The place of the record among the files of its subject. -/
def path (directory : Path) : Addition → Path
  | .trace t => Archive.tracePath directory t
  | .strategy s => Archive.strategyPath directory s

def text : Addition → String
  | .trace t => t.encode
  | .strategy s => s.encode

/-- Why an archive turns the record down without asking the storage. -/
def unasked? (a : Archive) : Addition → Option Failure
  | .trace t => if usableName t.runId then none else some (.unusableName .runId t.runId)
  | .strategy s => if s.version ≤ a.latestVersion then some (.versionConflict s.version) else none

theorem not_le_of_unasked {a : Archive} {s : Strategy}
    (h : (Addition.strategy s).unasked? a = none) : ¬ s.version ≤ a.latestVersion := fun hle => by
  simp [unasked?, hle] at h

/-- Why the record is refused if something has its name. -/
def duplicate : Addition → Failure
  | .trace t => .duplicateTrace t.runId
  | .strategy s => .versionConflict s.version

/-- The archive with the record. -/
def addTo (a : Archive) : Addition → Archive
  | .trace t => a.withTrace t
  | .strategy s => a.withStrategy s

end Addition

namespace Archive

variable {ω : Type}

def ask (publish : Publish ω) (a : Archive) : Addition → ω → Except Failure Archive × ω
  | .trace t, w => a.addTrace publish t w
  | .strategy s, w => a.saveStrategy publish s w

/-- Traces and strategies are added in the same way. -/
theorem ask_eq (publish : Publish ω) (a : Archive) (addition : Addition) (w : ω) :
    a.ask publish addition w =
      match addition.unasked? a with
      | some e => (.error e, w)
      | none =>
        match publish (addition.path a.directory) addition.text w with
        | (.created, w) => (.ok (addition.addTo a), w)
        | (.taken, w) => (.error addition.duplicate, w)
        | (.failed, w) => (.error .storage, w) := by
  cases addition with
  | trace t =>
    simp only [ask, addTrace, checkName, Addition.unasked?]
    by_cases hname : usableName t.runId = true
    · rw [if_pos hname, if_pos hname]
      rfl
    · rw [if_neg hname, if_neg hname]
  | strategy s =>
    simp only [ask, saveStrategy, Addition.unasked?]
    by_cases hversion : s.version ≤ a.latestVersion
    · rw [if_pos hversion, if_pos hversion]
    · rw [if_neg hversion, if_neg hversion]
      rfl

end Archive

namespace Keeper

open Archive FileTree

variable {publish : Publish FileTree}

theorem keep_of_error {x : Keeper} {addition : Addition} {e : Failure} {tree : FileTree}
    (h : x.archive.ask publish addition x.tree = (.error e, tree)) :
    x.keep publish addition = { x with tree := tree } := by
  cases addition <;> simp only [ask] at h <;> simp only [keep, h]

theorem keep_of_ok {x : Keeper} {addition : Addition} {a : Archive} {tree : FileTree}
    (h : x.archive.ask publish addition x.tree = (.ok a, tree)) :
    (x.keep publish addition).archive = a ∧ (x.keep publish addition).tree = tree := by
  cases addition <;> simp only [ask] at h <;> simp only [keep, h, and_self]

/-- All that an addition can come to. -/
theorem ask_cases (h : MayFail publish) (a : Archive) (addition : Addition) (t : FileTree) :
    (∃ e, addition.unasked? a = some e ∧ a.ask publish addition t = (.error e, t))
      ∨ (addition.unasked? a = none ∧
        ((publish (addition.path a.directory) addition.text t).1 = .failed
            ∧ a.ask publish addition t = (.error .storage, t)
          ∨ (publish (addition.path a.directory) addition.text t).1 = .taken
            ∧ (t.find? (addition.path a.directory)).isSome = true
            ∧ a.ask publish addition t = (.error addition.duplicate, t)
          ∨ (publish (addition.path a.directory) addition.text t).1 = .created
            ∧ t.find? (addition.path a.directory) = none
            ∧ a.ask publish addition t = (.ok (addition.addTo a),
              t.insert (addition.path a.directory) (.file (some addition.text))))) := by
  have hask := ask_eq publish a addition t
  cases hown : addition.unasked? a with
  | some e =>
    simp only [hown] at hask
    exact Or.inl ⟨e, rfl, hask⟩
  | none =>
    simp only [hown] at hask
    refine Or.inr ⟨rfl, ?_⟩
    rcases h.cases (addition.path a.directory) addition.text t with
      hp | ⟨hp, hsome⟩ | ⟨hp, hnone⟩ <;> simp only [hp] at hask ⊢
    · exact Or.inl ⟨trivial, hask⟩
    · exact Or.inr (Or.inl ⟨trivial, hsome, hask⟩)
    · exact Or.inr (Or.inr ⟨trivial, hnone, hask⟩)

section Answers

variable (h : MayFail publish) (x : Keeper) (addition : Addition)
include h

/-- The first reason to refuse an addition is the answer. -/
theorem answer_eq : (x.archive.ask publish addition x.tree).1 =
    (addition.unasked? x.archive).elim
      (if (publish (addition.path x.archive.directory) addition.text x.tree).1 = .failed then
        .error .storage
      else if (x.tree.find? (addition.path x.archive.directory)).isSome then
        .error addition.duplicate
      else .ok (x.keep publish addition).archive) .error := by
  rcases ask_cases h x.archive addition x.tree with
    ⟨e, hown, hask⟩ | ⟨hown, ⟨hp, hask⟩ | ⟨hp, hsome, hask⟩ | ⟨hp, hnone, hask⟩⟩ <;> rw [hown]
  · rw [hask, Option.elim_some]
  · rw [hask, Option.elim_none, if_pos hp]
  · rw [hask, Option.elim_none, if_neg (by rw [hp]; nofun), if_pos hsome]
  · rw [hask, Option.elim_none, if_neg (by rw [hp]; nofun), if_neg (by simp [hnone]),
      (keep_of_ok hask).1]

theorem keep_refused (hrefused : ∃ e, (x.archive.ask publish addition x.tree).1 = .error e) :
    x.keep publish addition = x := by
  obtain ⟨e, he⟩ := hrefused
  rcases ask_cases h x.archive addition x.tree with
    ⟨e, -, hask⟩ | ⟨-, ⟨-, hask⟩ | ⟨-, -, hask⟩ | ⟨-, -, hask⟩⟩
  · exact keep_of_error hask
  · exact keep_of_error hask
  · exact keep_of_error hask
  · rw [hask] at he
    cases he

theorem keep_accepted (haccepted : ∃ a, (x.archive.ask publish addition x.tree).1 = .ok a) :
    addition.unasked? x.archive = none ∧
      (x.keep publish addition).archive = addition.addTo x.archive ∧
      OneMore (addition.path x.archive.directory) addition.text x.tree
        (x.keep publish addition).tree := by
  obtain ⟨a, ha⟩ := haccepted
  rcases ask_cases h x.archive addition x.tree with
    ⟨e, -, hask⟩ | ⟨hown, ⟨-, hask⟩ | ⟨-, -, hask⟩ | ⟨-, hnone, hask⟩⟩
  · rw [hask] at ha
    cases ha
  · rw [hask] at ha
    cases ha
  · rw [hask] at ha
    cases ha
  · obtain ⟨harchive, htree⟩ := keep_of_ok hask
    refine ⟨hown, harchive, ?_⟩
    rw [htree]
    exact oneMore_insert hnone

end Answers

/-- The answer to a trace depends on its run id and on the storage alone, the one to a strategy also
on the latest version that the archive knows of. -/
theorem keep_decides (h : MayFail publish) (x : Keeper) :
    (∀ t : Trace,
      let path := tracePath x.archive.directory t
      let answer := (x.archive.addTrace publish t x.tree).1
      let after := x.keep publish (.trace t)
      answer = (
        if usableName t.runId = false then .error (.unusableName .runId t.runId)
        else if (publish path t.encode x.tree).1 = .failed then .error .storage
        else if (x.tree.find? path).isSome then .error (.duplicateTrace t.runId)
        else .ok after.archive) ∧
      ((∃ e, answer = .error e) → after = x) ∧
      ((∃ a, answer = .ok a) → OneMore path t.encode x.tree after.tree ∧
        after.archive.traces = x.archive.traces ++ [t] ∧
        after.archive.strategies = x.archive.strategies ∧
        after.archive.latestVersion = x.archive.latestVersion)) ∧
    ∀ s : Strategy,
      let path := strategyPath x.archive.directory s
      let answer := (x.archive.saveStrategy publish s x.tree).1
      let after := x.keep publish (.strategy s)
      answer = (
        if s.version ≤ x.archive.latestVersion then .error (.versionConflict s.version)
        else if (publish path s.encode x.tree).1 = .failed then .error .storage
        else if (x.tree.find? path).isSome then .error (.versionConflict s.version)
        else .ok after.archive) ∧
      ((∃ e, answer = .error e) → after = x) ∧
      ((∃ a, answer = .ok a) → OneMore path s.encode x.tree after.tree ∧
        after.archive.strategies = x.archive.strategies ++ [s] ∧
        after.archive.traces = x.archive.traces ∧ after.archive.latestVersion = s.version) := by
  refine ⟨fun t => ⟨?_, keep_refused h x (.trace t), fun hok => ?_⟩,
    fun s => ⟨?_, keep_refused h x (.strategy s), fun hok => ?_⟩⟩
  · refine (answer_eq h x (.trace t)).trans ?_
    rw [Addition.unasked?]
    cases usableName t.runId <;> rfl
  · obtain ⟨-, harchive, hfile⟩ := keep_accepted h x (.trace t) hok
    rw [harchive]
    exact ⟨hfile, rfl, rfl, rfl⟩
  · refine (answer_eq h x (.strategy s)).trans ?_
    rw [Addition.unasked?, apply_ite (Option.elim · _ _)]
    rfl
  · obtain ⟨hnew, harchive, hfile⟩ := keep_accepted h x (.strategy s) hok
    rw [harchive]
    exact ⟨hfile, rfl, rfl, latestVersion_withStrategy (Addition.not_le_of_unasked hnew)⟩

def noonTrace : Trace := Trace.fresh "noon" Time.epoch 0

/-- The archive remembers nothing. Its trace has the name of a file with a broken text and its
strategy that of an unreadable one; a strategy with a name of its own is refused by storage that is
out of order, and accepted after that. -/
theorem keep_decides_strewnTree :
    let x : Keeper := { archive := vacantArchive, tree := strewnTree }
    let after := x.keep FileTree.publish (.strategy (.empty 4))
    ((x.archive.addTrace FileTree.publish noonTrace x.tree).1 = .error (.duplicateTrace "noon") ∧
      x.keep FileTree.publish (.trace noonTrace) = x) ∧
    ((x.archive.saveStrategy FileTree.publish (.empty 9) x.tree).1 = .error (.versionConflict 9) ∧
      x.keep FileTree.publish (.strategy (.empty 9)) = x) ∧
    ((x.archive.saveStrategy publishNothing (.empty 4) x.tree).1 = .error .storage ∧
      x.keep publishNothing (.strategy (.empty 4)) = x) ∧
    OneMore ["strategy_v4.json", "strategies", "s"] (Strategy.empty 4).encode strewnTree
      after.tree ∧ after.archive.strategies = [.empty 4] ∧ after.archive.latestVersion = 4 := by
  intro x after
  obtain ⟨htraces, hstrategies⟩ := keep_decides mayFail_publish x
  obtain ⟨-, hbroken⟩ := keep_decides mayFail_publishNothing x
  obtain ⟨htaken, hsame, -⟩ := htraces noonTrace
  obtain ⟨htaken', hsame', -⟩ := hstrategies (.empty 9)
  obtain ⟨hfailed, hsame'', -⟩ := hbroken (.empty 4)
  obtain ⟨hok, -, haccepted⟩ := hstrategies (.empty 4)
  obtain ⟨hfile, hlast, -, hversion⟩ := haccepted ⟨_, hok⟩
  exact ⟨⟨htaken, hsame ⟨_, htaken⟩⟩, ⟨htaken', hsame' ⟨_, htaken'⟩⟩,
    ⟨hfailed, hsame'' ⟨_, hfailed⟩⟩, hfile, hlast, hversion⟩

end Keeper

end Exploration
