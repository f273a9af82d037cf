import Mathlib
import Exploration.Proofs.CycleContexts
import Exploration.Proofs.LoadedFiles
import Exploration.Proofs.Refusals

/-!
# Runs without a strategy

A run that is given no strategy counts as one with version zero. No strategy of this version is ever
saved (`Archive.Descends.gains`), but one that is on file is loaded like any other. So a version of
zero tells that a run was given no strategy unless those on file all have version zero and none has
been saved since the archive was opened (`Archive.Latest.zero_iff_firstRun`).
-/

namespace Exploration

/-! ## Contexts -/

theorem Strategy.exists_context_eq (s : Strategy) :
    ∃ rest, s.context = "Exploration strategy v" ++ rest := by
  unfold context lines header
  generalize Decimal.fixedText 2 s.totalCost = cost
  simp only [List.map_cons, String.join_cons, String.append_assoc]
  exact ⟨_, rfl⟩

/-- The two begin with different letters. -/
theorem Strategy.context_ne_firstRunContext (s : Strategy) : s.context ≠ firstRunContext := by
  intro h
  obtain ⟨rest, hrest⟩ := s.exists_context_eq
  have hletter : "Exploration strategy v".toList.head? = some 'E' := by decide +kernel
  have hfirst : firstRunContext.toList.head? = some 'F' := by decide +kernel
  rw [← h, hrest, String.toList_append, List.head?_append, hletter] at hfirst
  cases hfirst

namespace Archive

section Latest

variable {strategies : List Strategy} {latest : Option Strategy}

theorem Latest.context_eq_iff (h : Latest strategies latest) :
    latest.elim Strategy.firstRunContext (·.context) = Strategy.firstRunContext ↔
      strategies = [] := by
  cases latest with
  | none => exact iff_of_true rfl h
  | some s =>
    have hne : strategies ≠ [] := List.ne_nil_of_mem h.1
    exact iff_of_false s.context_ne_firstRunContext hne

theorem Latest.version_eq_zero_iff (h : Latest strategies latest) :
    latest.elim 0 (·.version) = 0 ↔ ∀ s ∈ strategies, s.version = 0 := by
  cases latest with
  | none =>
    obtain rfl : strategies = [] := h
    exact iff_of_true rfl (by simp)
  | some s =>
    refine ⟨fun hzero l hl => ?_, fun hall => hall s h.1⟩
    have hle := h.2 l hl
    rw [show s.version = 0 from hzero] at hle
    exact UInt32.le_zero_iff.1 hle

end Latest

/-! ## What is saved -/

/-- From `a` to `b` an archive has gained the strategies `saved`, none of them of version zero. -/
structure Gains (a b : Archive) (saved : List Strategy) : Prop where
  strategies : b.strategies = a.strategies ++ saved
  versions : ∀ s ∈ saved, 1 ≤ s.version

theorem Gains.none {a b : Archive} (h : b.strategies = a.strategies) : a.Gains b [] :=
  ⟨h.trans (List.append_nil _).symm, nofun⟩

theorem Gains.trans {a b c : Archive} {saved later : List Strategy} (h : a.Gains b saved)
    (h' : b.Gains c later) : a.Gains c (saved ++ later) :=
  ⟨by rw [h'.strategies, h.strategies, List.append_assoc],
    List.forall_mem_append.2 ⟨h.versions, h'.versions⟩⟩

section

variable {ω : Type} {w w' : ω}

theorem gains_of_ask {publish : Publish ω} {a b : Archive} {addition : Addition}
    (h : a.ask publish addition w = (.ok b, w')) : ∃ saved, a.Gains b saved := by
  cases addition with
  | trace t =>
    rcases addTrace_cases publish a t w with
      ⟨hadd, -⟩ | ⟨v, ⟨-, hadd⟩ | ⟨-, hadd⟩ | ⟨-, hadd⟩⟩ <;> rw [ask, hadd] at h <;> cases h
    exact ⟨[], .none rfl⟩
  | strategy s =>
    rcases saveStrategy_cases publish a s w with
      ⟨hsave, -⟩ | ⟨hnew, v, ⟨-, hsave⟩ | ⟨-, hsave⟩ | ⟨-, hsave⟩⟩ <;>
      rw [ask, hsave] at h <;> cases h
    have hversion : 1 ≤ s.version := by
      rw [UInt32.le_iff_toNat_le] at hnew ⊢
      have hone : (1 : UInt32).toNat = 1 := rfl
      omega
    exact ⟨[s], rfl, by simpa using hversion⟩

theorem gains_of_runCycle {env : Surroundings ω} {settings : CycleSettings} {c c' : Controller}
    {report : CycleReport} (h : c.runCycle env settings w = (report, c', w')) :
    ∃ saved, c.archive.Gains c'.archive saved := by
  by_cases hinterval : settings.evolveEvery = 0
  · rw [Controller.runCycle_zero _ _ _ hinterval] at h
    cases h
    exact ⟨[], .none rfl⟩
  · obtain ⟨results, ending, a, v, hcycle, hcourse⟩ := Controller.runCycle_course env c w hinterval
    obtain ⟨added, evolved, hlearns⟩ := Cycle.course_learns hcourse
    rw [hcycle] at h
    cases h
    refine ⟨evolved.reduceOption, hlearns.strategies, fun s hs => ?_⟩
    have hnumber : s.version.toNat ∈ evolved.reduceOption.map (·.version.toNat) :=
      List.mem_map.2 ⟨s, hs, rfl⟩
    rw [hlearns.evolutions.numbered, List.mem_range'_1] at hnumber
    exact UInt32.le_iff_toNat_le.2 (le_trans (Nat.le_add_left 1 _) hnumber.1)

end

/-- The archive has come of `first` by records that it kept and by cycles, in whatever worlds. -/
inductive Descends (first : Archive) : Archive → Prop
  | refl : Descends first first
  | keeping {ω : Type} {publish : Publish ω} {addition : Addition} {a b : Archive} {w w' : ω}
      (h : Descends first a) (hask : a.ask publish addition w = (.ok b, w')) : Descends first b
  | cycling {ω : Type} {env : Surroundings ω} {settings : CycleSettings} {c c' : Controller}
      {report : CycleReport} {w w' : ω} (h : Descends first c.archive)
      (hcycle : c.runCycle env settings w = (report, c', w')) : Descends first c'.archive

theorem Descends.gains {first a : Archive} (h : first.Descends a) :
    ∃ saved, first.Gains a saved := by
  induction h with
  | refl => exact ⟨[], .none rfl⟩
  | keeping _ hask ih =>
    obtain ⟨saved, hsaved⟩ := ih
    obtain ⟨later, hlater⟩ := gains_of_ask hask
    exact ⟨_, hsaved.trans hlater⟩
  | cycling _ hcycle ih =>
    obtain ⟨saved, hsaved⟩ := ih
    obtain ⟨later, hlater⟩ := gains_of_runCycle hcycle
    exact ⟨_, hsaved.trans hlater⟩

/-! ## What is on file -/

/-- There are strategies on file, and they all have version zero. -/
def OnlyVersionZero (t : FileTree) (directory : Path) : Prop :=
  (∃ name s, HoldsStrategy t directory name s) ∧
    ∀ name s, HoldsStrategy t directory name s → s.version = 0

theorem onlyVersionZero_iff {sampling : SamplingSettings} {root : Path} {subject : String}
    {t : FileTree} : OnlyVersionZero t (subject :: root) ↔
      (loaded sampling root subject t).strategies ≠ [] ∧
        ∀ s ∈ (loaded sampling root subject t).strategies, s.version = 0 := by
  have hmem (s : Strategy) := (@eachOnce_strategies sampling root subject t).mem_iff (x := s)
  refine and_congr ⟨?_, fun h => ?_⟩ ⟨fun h s hs => ?_, fun h name s hs => ?_⟩
  · rintro ⟨name, s, hs⟩
    exact List.ne_nil_of_mem ((hmem s).2 ⟨name, hs⟩)
  · obtain ⟨s, hs⟩ := List.exists_mem_of_ne_nil _ h
    obtain ⟨name, hname⟩ := (hmem s).1 hs
    exact ⟨name, s, hname⟩
  · obtain ⟨name, hname⟩ := (hmem s).1 hs
    exact h name s hname
  · exact h s ((hmem s).2 ⟨name, hs⟩)

/-- Where any have been saved, not all strategies have version zero. -/
theorem only_zero_append_iff {before saved : List Strategy} (h : ∀ s ∈ saved, 1 ≤ s.version) :
    (before ++ saved ≠ [] ∧ ∀ s ∈ before ++ saved, s.version = 0) ↔
      (before ≠ [] ∧ ∀ s ∈ before, s.version = 0) ∧ saved = [] := by
  cases saved with
  | nil => simp
  | cons s rest =>
    refine iff_of_false (fun hall => ?_) (fun hnil => List.cons_ne_nil _ _ hnil.2)
    have hone := h s List.mem_cons_self
    rw [hall.2 s (by simp)] at hone
    exact absurd hone (by decide)

/-! ## Runs -/

/-- A version of zero stands for the first-run context and for nothing else, unless all strategies
have this version. -/
theorem Latest.zero_iff_firstRun {strategies : List Strategy} {latest : Option Strategy}
    (h : Latest strategies latest) :
    (latest.elim 0 (·.version) = 0 ↔
      latest.elim Strategy.firstRunContext (·.context) = Strategy.firstRunContext) ↔
      ¬ (strategies ≠ [] ∧ ∀ s ∈ strategies, s.version = 0) := by
  rw [h.version_eq_zero_iff, h.context_eq_iff]
  by_cases hnil : strategies = []
  · simp [hnil]
  · simp [hnil]

/-- What the version of a run tells, when these strategies had been saved before it since the
archive `first` was opened. The run is given the first-run context just if no strategy was loaded
either, and its version is zero just then, unless there were strategies on file and all of version
zero. -/
structure Marks (tree : FileTree) (directory : Path) (first : Archive) (saved : List Strategy)
    (briefing : Briefing) (result : RunResult) : Prop where
  context : briefing.context = Strategy.firstRunContext ↔ first.strategies = [] ∧ saved = []
  version : (result.strategyVersion = 0 ↔ briefing.context = Strategy.firstRunContext) ↔
    ¬ (OnlyVersionZero tree directory ∧ saved = [])

/-- All that can be told from the versions of the runs of a cycle, whatever was done with the
archive since it was opened. -/
theorem openAt_firstRuns {sampling : SamplingSettings} {root : Path} {subject : String}
    {tree opened : FileTree} {first : Archive} {c : Controller}
    (hopen : openAt sampling root subject tree = (.ok first, opened))
    (h : first.Descends c.archive) :
    (∀ s, s ∈ first.strategies ↔ ∃ name, HoldsStrategy tree (subject :: root) name s) ∧
    ∃ saved, first.Gains c.archive saved ∧
      ∀ {ω : Type} (env : Surroundings ω) (settings : CycleSettings) (w : ω),
      ∃ report c' w' briefings added evolved,
        c.runCycle env settings w = (report, c', w') ∧
        c.runCycle env.heard settings (w, []) = (report, c', w', briefings) ∧
        Cycle.Told 1 report.results report.ending c.archive c'.archive briefings added evolved ∧
        c.archive.Gains c'.archive evolved.reduceOption ∧
        ∀ i r, report.results[i]? = some r → ∃ b, briefings[i]? = some b ∧
          Marks tree (subject :: root) first (saved ++ (evolved.take i).reduceOption) b r := by
  obtain ⟨saved, hsaved⟩ := h.gains
  obtain rfl := eq_loaded_of_openAt hopen
  refine ⟨fun s => eachOnce_strategies.mem_iff, saved, hsaved, fun env settings w => ?_⟩
  obtain ⟨report, c', w', briefings, added, evolved, hplain, hheard, htold, -⟩ :=
    c.runCycle_told env settings w
  have hguided := htold.guided
  have hgains : c.archive.Gains c'.archive evolved.reduceOption := by
    obtain ⟨later, hlater⟩ := gains_of_runCycle hplain
    have heq := List.append_cancel_left (htold.strategies.symm.trans hlater.strategies)
    exact ⟨htold.strategies, heq ▸ hlater.versions⟩
  refine ⟨report, c', w', briefings, added, evolved, hplain, hheard, htold, hgains,
    fun i r hr => ?_⟩
  have hi : i < briefings.length := by
    have := (List.getElem?_eq_some_iff.1 hr).1
    have := htold.answered
    omega
  have hbefore : ∀ s ∈ saved ++ (evolved.take i).reduceOption, 1 ≤ s.version := by
    refine List.forall_mem_append.2 ⟨hsaved.versions, fun s hs => hgains.versions s ?_⟩
    rw [List.reduceOption_mem_iff] at hs ⊢
    exact List.mem_of_mem_take hs
  have hcontext := hguided.contexts i _ (List.getElem?_eq_getElem hi)
  have hlatest := hguided.latest i
  rw [hsaved.strategies, List.append_assoc] at hlatest
  refine ⟨briefings[i], List.getElem?_eq_getElem hi, ?_, ?_⟩
  · rw [hcontext, hlatest.context_eq_iff, List.append_eq_nil_iff]
  · rw [hcontext, hguided.versions i r hr, hlatest.zero_iff_firstRun, only_zero_append_iff hbefore,
      onlyVersionZero_iff]

/-- A tree in which a strategy of version zero is on file. -/
def zerothTree : FileTree :=
  vacantTree.insert ["strategy_v0.json", "strategies", "s"]
    (.file (some (Strategy.empty 0).encode))

def zerothArchive : Archive := { vacantArchive with strategies := [.empty 0] }

theorem openAt_zerothTree : openAt {} [] "s" zerothTree = (.ok zerothArchive, zerothTree) := by
  have hload : loaded {} [] "s" zerothTree = zerothArchive := by
    have htraces : (listing zerothTree (traceDirectory ["s"])).filterMap storedTrace? = [] := rfl
    have hfiles : listing zerothTree (strategyDirectory ["s"]) =
        [(strategyFile (Strategy.empty 0).version, some (Strategy.empty 0).encode)] := rfl
    rw [loaded, load, htraces, hfiles, List.filterMap_cons_some
      (storedStrategy?_file (Shared.storable_empty 0)), List.filterMap_nil, List.mergeSort_nil,
      List.mergeSort_singleton]
    rfl
  rw [← hload]
  rfl

theorem onlyVersionZero_zerothTree : OnlyVersionZero zerothTree ["s"] := by
  have hloaded := eq_loaded_of_openAt openAt_zerothTree
  rw [@onlyVersionZero_iff {} [] "s" zerothTree, ← hloaded]
  exact ⟨List.cons_ne_nil _ _, by simp [zerothArchive, Strategy.empty]⟩

/-- A trace is kept first. After the first run of the cycle a strategy is saved, so it is only the
version of this run that says nothing. -/
theorem openAt_firstRuns_zerothTree :
    let a := zerothArchive.withTrace Shared.nightTrace
    zerothArchive.Descends a ∧ ∃ report c w first second b₁ b₂,
      Controller.runCycle steadySurroundings.heard ⟨2, 10, 2⟩ ⟨a, {}, .idle⟩
        ((zerothTree, ["dawn", "noon"]), []) = (report, c, w, [b₁, b₂]) ∧
      report.results = [first, second] ∧
      ¬ (first.strategyVersion = 0 ↔ b₁.context = Strategy.firstRunContext) ∧
      (second.strategyVersion = 0 ↔ b₂.context = Strategy.firstRunContext) := by
  intro a
  have hkept : zerothArchive.ask FileTree.publish (.trace Shared.nightTrace) zerothTree =
      (.ok a, zerothTree.insert (tracePath ["s"] Shared.nightTrace)
        (.file (some Shared.nightTrace.encode))) := rfl
  have hdescends : zerothArchive.Descends a := .keeping .refl hkept
  have hevolved : (Controller.runCycle steadySurroundings.heard ⟨2, 10, 2⟩ ⟨a, {}, .idle⟩
      ((zerothTree, ["dawn", "noon"]), [])).1.results.map (·.evolvedVersion) = [some 1, none] := by
    decide +kernel
  have hbriefings : (Controller.runCycle steadySurroundings.heard ⟨2, 10, 2⟩ ⟨a, {}, .idle⟩
      ((zerothTree, ["dawn", "noon"]), [])).2.2.2.length = 2 := by decide +kernel
  obtain ⟨-, saved, hsaved, hcycle⟩ :=
    openAt_firstRuns (c := ⟨a, {}, .idle⟩) openAt_zerothTree hdescends
  obtain rfl : saved = [] := List.append_right_eq_self.1 hsaved.strategies.symm
  obtain ⟨report, c, w, briefings, added, evolved, -, hheard, htold, -, hruns⟩ :=
    hcycle steadySurroundings ⟨2, 10, 2⟩ (zerothTree, ["dawn", "noon"])
  have hversions := htold.guided.evolvedVersions
  rw [hheard] at hevolved hbriefings
  obtain ⟨first, second, hresults⟩ : ∃ first second, report.results = [first, second] :=
    List.length_eq_two.1 (by simpa using congrArg List.length hevolved)
  obtain ⟨b₁, b₂, rfl⟩ := List.length_eq_two.1 hbriefings
  obtain ⟨s, rest, rfl⟩ : ∃ s rest, evolved = some s :: rest := by
    rw [hevolved] at hversions
    rcases evolved with _ | ⟨_ | s, rest⟩
    · cases hversions
    · cases hversions
    · exact ⟨s, rest, rfl⟩
  refine ⟨hdescends, report, c, w, first, second, b₁, b₂, hheard, hresults, ?_, ?_⟩
  · obtain ⟨_, ⟨⟩, hfirst⟩ := hruns 0 first (by rw [hresults]; rfl)
    exact fun h => hfirst.version.1 h ⟨onlyVersionZero_zerothTree, rfl⟩
  · obtain ⟨_, ⟨⟩, hsecond⟩ := hruns 1 second (by rw [hresults]; rfl)
    exact hsecond.version.2 fun h => List.cons_ne_nil s [] h.2

/-- The run is given the strategy of version zero, and neither its result nor its trace tells it
from a run that is given none. -/
theorem unmarked_zerothTree : ∃ report c w briefing result trace,
    openAt {} [] "s" zerothTree = (.ok zerothArchive, zerothTree) ∧
    Controller.runCycle steadySurroundings.heard ⟨1, 10, 9⟩ ⟨zerothArchive, {}, .idle⟩
      ((zerothTree, ["dawn"]), []) = (report, c, w, [briefing]) ∧
    report.results = [result] ∧ c.archive.traces = [trace] ∧ result.strategyVersion = 0 ∧
    trace.strategyVersion = 0 ∧ briefing.context ≠ Strategy.firstRunContext :=
  ⟨_, _, _, ⟨1, (Strategy.empty 0).context⟩, _, _, openAt_zerothTree, rfl, rfl, rfl, rfl, rfl,
    Strategy.context_ne_firstRunContext _⟩

end Archive

end Exploration
