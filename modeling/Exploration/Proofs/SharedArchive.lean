import Mathlib
import Exploration.Proofs.Additions
import Exploration.Proofs.Loading

/-!
# Archives that share their files

Any number of archives of one subject are opened on a tree and asked to keep traces and strategies,
in any order. What each of them remembers may long be outdated: it is the tree alone that decides
whether a record is accepted. The files of the accepted records are just the ones that have come
to its directories (`Grown`), so no name is accepted twice and an archive opened in the end loads
all of them.
-/

namespace Exploration

/-- What the archives of a subject are asked. -/
inductive Request where
  /-- To open one more archive. -/
  | opening (sampling : SamplingSettings)
  | adding (archive : Nat) (t : Trace)
  | saving (archive : Nat) (s : Strategy)

/-- A tree, the archives that are open on it, and the records they have accepted, in order. -/
structure Shared where
  tree : FileTree
  archives : List Archive
  added : List Trace := []
  saved : List Strategy := []

namespace Shared

open Archive

/-- One more archive is opened. -/
def opening (root : Path) (subject : String) (sampling : SamplingSettings) (x : Shared) : Shared :=
  match openAt sampling root subject x.tree with
  | (.error _, t) => { x with tree := t }
  | (.ok a, t) => { x with tree := t, archives := x.archives ++ [a] }

/-- A trace for the archive in place `i`. -/
def adding (i : Nat) (trace : Trace) (x : Shared) : Shared :=
  match x.archives[i]? with
  | none => x
  | some a =>
    match a.addTrace FileTree.publish trace x.tree with
    | (.error _, t) => { x with tree := t }
    | (.ok a, t) =>
      { x with tree := t, archives := x.archives.set i a, added := x.added ++ [trace] }

/-- A strategy for the archive in place `i`. -/
def saving (i : Nat) (strategy : Strategy) (x : Shared) : Shared :=
  match x.archives[i]? with
  | none => x
  | some a =>
    match a.saveStrategy FileTree.publish strategy x.tree with
    | (.error _, t) => { x with tree := t }
    | (.ok a, t) =>
      { x with tree := t, archives := x.archives.set i a, saved := x.saved ++ [strategy] }

def step (root : Path) (subject : String) (x : Shared) : Request → Shared
  | .opening sampling => x.opening root subject sampling
  | .adding i trace => x.adding i trace
  | .saving i strategy => x.saving i strategy

def run (root : Path) (subject : String) (x : Shared) (requests : List Request) : Shared :=
  requests.foldl (step root subject) x

variable {root : Path} {subject : String} {first : FileTree} {x : Shared}

/-- The directories of the subject hold what they held at first and the accepted records. -/
structure Grown (root : Path) (subject : String) (first : FileTree) (x : Shared) : Prop where
  owned : ∀ a ∈ x.archives, a.directory = subject :: root
  keeps : first.Keeps x.tree
  traces : (x.tree.children (traceDirectory (subject :: root))).Perm
    (first.children (traceDirectory (subject :: root)) ++ x.added.map Trace.file)
  strategies : (x.tree.children (strategyDirectory (subject :: root))).Perm
    (first.children (strategyDirectory (subject :: root)) ++ x.saved.map Strategy.file)
  makeable : ∀ part, x.tree.Makeable (part :: subject :: root) ↔
    first.Makeable (part :: subject :: root)

/-- A file in one of the directories is in no other, and stands in the way of none. -/
theorem insert_file {t : FileTree} {name part : String} (text : Option String)
    (h : t.find? (name :: part :: subject :: root) = none) :
    t.Keeps (t.insert (name :: part :: subject :: root) (.file text)) ∧
      (∀ other, other ≠ part → (t.insert (name :: part :: subject :: root) (.file text)).children
        (other :: subject :: root) = t.children (other :: subject :: root)) ∧
      ∀ other, (t.insert (name :: part :: subject :: root) (.file text)).Makeable
        (other :: subject :: root) ↔ t.Makeable (other :: subject :: root) := by
  have hkeeps := FileTree.keeps_insert (.file text) h
  refine ⟨hkeeps, fun other hne => ?_, fun other => ?_⟩
  · refine FileTree.children_insert_of_ne _ h fun n he => hne ?_
    simp only [List.cons.injEq] at he
    exact he.2.1.symm
  · refine FileTree.makeable_congr hkeeps fun q hq hnone => ?_
    rw [FileTree.find?_insert, if_neg]
    · exact Or.inl hnone
    · rintro rfl
      have := hq.length_le
      simp only [List.length_cons] at this
      omega

theorem grown_opening (h : x.Grown root subject first) (sampling : SamplingSettings) :
    (x.opening root subject sampling).Grown root subject first ∧
      x.tree.Keeps (x.opening root subject sampling).tree := by
  have ho := openAt_opening sampling root subject x.tree
  unfold opening
  split <;> rename_i t he <;> rw [he] at ho
  · refine ⟨⟨h.owned, h.keeps.trans ho.keeps, ?_, ?_, fun part => ?_⟩, ho.keeps⟩
    · rw [ho.traces]
      exact h.traces
    · rw [ho.strategies]
      exact h.strategies
    · exact (ho.makeable _).trans (h.makeable part)
  · refine ⟨⟨?_, h.keeps.trans ho.keeps, ?_, ?_, fun part => ?_⟩, ho.keeps⟩
    · intro b hb
      rcases List.mem_append.1 hb with hb | hb
      · exact h.owned b hb
      · rw [List.mem_singleton.1 hb, ((ho.ok_iff _).1 rfl).2]
        rfl
    · rw [ho.traces]
      exact h.traces
    · rw [ho.strategies]
      exact h.strategies
    · exact (ho.makeable _).trans (h.makeable part)

/-- An archive whose records change stays an archive of the subject. -/
theorem owned_set {archives : List Archive} {a : Archive} {i : Nat}
    (h : ∀ a ∈ archives, a.directory = subject :: root) (ha : a.directory = subject :: root) :
    ∀ b ∈ archives.set i a, b.directory = subject :: root := fun b hb =>
  (List.mem_or_eq_of_mem_set hb).elim (h b) fun he => he ▸ ha

theorem grown_adding (h : x.Grown root subject first) (i : Nat) (trace : Trace) :
    (x.adding i trace).Grown root subject first ∧ x.tree.Keeps (x.adding i trace).tree := by
  unfold adding
  split
  · exact ⟨h, .refl _⟩
  · rename_i a ha
    have hd := h.owned a (List.mem_of_getElem? ha)
    have hadd := addTrace_tree a trace x.tree
    rw [hd] at hadd
    rcases hadd with ⟨hnone, hadd⟩ | ⟨e, hadd⟩ <;> rw [hadd]
    · obtain ⟨hkeeps, hothers, hmakeable⟩ := insert_file (some trace.encode) hnone
      refine ⟨⟨owned_set h.owned hd, h.keeps.trans hkeeps, ?_, ?_,
        fun part => (hmakeable part).trans (h.makeable part)⟩, hkeeps⟩
      · rw [List.map_append, ← List.append_assoc]
        refine (List.Perm.of_eq (FileTree.children_insert_self _ hnone)).trans ?_
        exact (h.traces.cons _).trans (List.perm_append_singleton _ _).symm
      · exact (List.Perm.of_eq (hothers "strategies" (by decide))).trans h.strategies
    · exact ⟨h, .refl _⟩

theorem grown_saving (h : x.Grown root subject first) (i : Nat) (strategy : Strategy) :
    (x.saving i strategy).Grown root subject first ∧
      x.tree.Keeps (x.saving i strategy).tree := by
  unfold saving
  split
  · exact ⟨h, .refl _⟩
  · rename_i a ha
    have hd := h.owned a (List.mem_of_getElem? ha)
    have hsave := saveStrategy_tree a strategy x.tree
    rw [hd] at hsave
    rcases hsave with ⟨-, hnone, hsave⟩ | ⟨hsave, -⟩ | hsave <;> rw [hsave]
    · obtain ⟨hkeeps, hothers, hmakeable⟩ := insert_file (some strategy.encode) hnone
      refine ⟨⟨owned_set h.owned hd, h.keeps.trans hkeeps, ?_, ?_,
        fun part => (hmakeable part).trans (h.makeable part)⟩, hkeeps⟩
      · exact (List.Perm.of_eq (hothers "traces" (by decide))).trans h.traces
      · rw [List.map_append, ← List.append_assoc]
        refine (List.Perm.of_eq (FileTree.children_insert_self _ hnone)).trans ?_
        exact (h.strategies.cons _).trans (List.perm_append_singleton _ _).symm
    · exact ⟨h, .refl _⟩
    · exact ⟨h, .refl _⟩

theorem grown_step (h : x.Grown root subject first) (request : Request) :
    (x.step root subject request).Grown root subject first ∧
      x.tree.Keeps (x.step root subject request).tree :=
  match request with
  | .opening sampling => grown_opening h sampling
  | .adding i trace => grown_adding h i trace
  | .saving i strategy => grown_saving h i strategy

theorem grown_run : ∀ (requests : List Request) {x : Shared}, x.Grown root subject first →
    (x.run root subject requests).Grown root subject first ∧
      x.tree.Keeps (x.run root subject requests).tree
  | [], _, h => ⟨h, .refl _⟩
  | request :: requests, _, h => by
    have hstep := grown_step h request
    have hrun := grown_run requests hstep.1
    exact ⟨hrun.1, hstep.2.trans hrun.2⟩

theorem run_append (x : Shared) (before after : List Request) :
    x.run root subject (before ++ after) = (x.run root subject before).run root subject after :=
  List.foldl_append

/-! ## What has come to be -/

/-- A name that has come to a directory of distinct names was not there, and came once. -/
theorem nodup_of_children_perm {α β : Type} {t t' : FileTree} {directory : Path} {records : List α}
    {file : α → String × Entry} {key : α → β}
    (hkey : ∀ x y, key x = key y → (file x).1 = (file y).1)
    (h : (t'.children directory).Perm (t.children directory ++ records.map file)) :
    (records.map key).Nodup ∧ ∀ x ∈ records, t.find? ((file x).1 :: directory) = none := by
  have hd : ((t.children directory ++ records.map file).map (·.1)).Nodup :=
    (h.map _).nodup_iff.1 (t'.nodup_children directory)
  rw [List.map_append, List.map_map, List.nodup_append] at hd
  obtain ⟨-, hnew, hne⟩ := hd
  refine ⟨?_, fun x hx => ?_⟩
  · rw [List.Nodup, List.pairwise_map] at hnew ⊢
    exact hnew.imp fun hne he => hne (hkey _ _ he)
  · rcases hf : t.find? ((file x).1 :: directory) with _ | e
    · rfl
    · have hold := List.mem_map_of_mem (f := Prod.fst) (t.mem_children.2 hf)
      exact absurd rfl (hne _ hold _ (List.mem_map_of_mem hx))

theorem Grown.openable_iff (h : x.Grown root subject first) :
    Openable root subject x.tree ↔ Openable root subject first :=
  openable_congr h.makeable

theorem Grown.loaded_traces (h : x.Grown root subject first) (sampling : SamplingSettings)
    (hs : ∀ t ∈ x.added, t.Storable) : (loaded sampling root subject x.tree).traces.Perm
      ((loaded sampling root subject first).traces ++ x.added) := by
  have hp := listing_filterMap_perm storedTrace?
    (fun t ht => ⟨_, _, rfl, storedTrace?_file (hs t ht)⟩) h.traces
  refine (List.mergeSort_perm _ _).trans (hp.trans ?_)
  exact (List.mergeSort_perm _ _).symm.append_right _

theorem Grown.loaded_strategies (h : x.Grown root subject first) (sampling : SamplingSettings)
    (hs : ∀ s ∈ x.saved, s.Storable) : (loaded sampling root subject x.tree).strategies.Perm
      ((loaded sampling root subject first).strategies ++ x.saved) := by
  have hp := listing_filterMap_perm storedStrategy?
    (fun s h => ⟨_, _, rfl, storedStrategy?_file (hs s h)⟩) h.strategies
  refine (List.mergeSort_perm _ _).trans (hp.trans ?_)
  exact (List.mergeSort_perm _ _).symm.append_right _

/-- Nothing that was accepted has a run id or a version that was accepted before or had a file on
`tree`. -/
structure AcceptsOnce (root : Path) (subject : String) (tree : FileTree) (x : Shared) : Prop where
  runIds : (x.added.map (·.runId)).Nodup
  newTraces : ∀ t ∈ x.added, tree.find? (tracePath (subject :: root) t) = none
  versions : (x.saved.map (·.version)).Nodup
  newStrategies : ∀ s ∈ x.saved, tree.find? (strategyPath (subject :: root) s) = none

/-- An archive that is opened now loads what could be loaded from `tree`, and what was accepted. -/
structure Reloads (sampling : SamplingSettings) (root : Path) (subject : String) (tree : FileTree)
    (x : Shared) : Prop where
  opens : ∀ a, (openAt sampling root subject tree).1 = .ok a →
    ∃ b, (openAt sampling root subject x.tree).1 = .ok b ∧
      b.traces.Perm (a.traces ++ x.added) ∧ b.strategies.Perm (a.strategies ++ x.saved)
  opened : ∀ b, (openAt sampling root subject x.tree).1 = .ok b →
    ∃ a, (openAt sampling root subject tree).1 = .ok a

theorem Grown.acceptsOnce (h : x.Grown root subject first) : x.AcceptsOnce root subject first := by
  obtain ⟨hids, hnewTraces⟩ := nodup_of_children_perm (fun t u h => congrArg traceFile h) h.traces
  obtain ⟨hversions, hnewStrategies⟩ :=
    nodup_of_children_perm (fun s u h => congrArg strategyFile h) h.strategies
  exact ⟨hids, hnewTraces, hversions, hnewStrategies⟩

theorem Grown.reloads (h : x.Grown root subject first) (hadded : ∀ t ∈ x.added, t.Storable)
    (hsaved : ∀ s ∈ x.saved, s.Storable) (sampling : SamplingSettings) :
    x.Reloads sampling root subject first := by
  have hfirst := (openAt_opening sampling root subject first).ok_iff
  have hlast := (openAt_opening sampling root subject x.tree).ok_iff
  refine ⟨fun a ha => ?_, fun b hb => ?_⟩
  · obtain ⟨ho, rfl⟩ := (hfirst a).1 ha
    exact ⟨_, (hlast _).2 ⟨h.openable_iff.2 ho, rfl⟩, h.loaded_traces sampling hadded,
      h.loaded_strategies sampling hsaved⟩
  · exact ⟨_, (hfirst _).2 ⟨h.openable_iff.1 ((hlast b).1 hb).1, rfl⟩⟩

/-- Archives that are there from the start may have loaded anything, so they stand also for those
that are opened while others add to what they load. -/
theorem shared_run {tree : FileTree} {archives : List Archive}
    (hown : ∀ a ∈ archives, a.directory = subject :: root) (requests : List Request) :
    let start : Shared := { tree := tree, archives := archives }
    let final := start.run root subject requests
    final.AcceptsOnce root subject tree ∧
    (∀ before after, requests = before ++ after →
      (start.run root subject before).tree.Keeps final.tree) ∧
    ((∀ t ∈ final.added, t.Storable) → (∀ s ∈ final.saved, s.Storable) →
      ∀ sampling, final.Reloads sampling root subject tree) := by
  intro start final
  have hstart : start.Grown root subject tree :=
    ⟨hown, .refl _, by simp [start], by simp [start], fun _ => Iff.rfl⟩
  have hfinal : final.Grown root subject tree := (grown_run requests hstart).1
  refine ⟨hfinal.acceptsOnce, ?_, hfinal.reloads⟩
  rintro before after rfl
  have hbefore := (grown_run before hstart).1
  simp only [final, run_append]
  exact (grown_run after hbefore).2

def nightTrace : Trace := { Trace.fresh "night" Time.epoch 0 with profileScore := 0.5 }

/-- A trace of the day after. Its run id comes first. -/
def morrowTrace : Trace := Trace.fresh "morrow" ⟨86400, 0, by decide⟩ 0

theorem storable_nightTrace : nightTrace.Storable := by
  refine ⟨fun x hx => ?_, fun c hc => by cases hc⟩
  have hdoubles : nightTrace.doubles = [0.5, 0, 0] := rfl
  rw [hdoubles] at hx
  simp only [List.mem_cons, List.not_mem_nil, or_false] at hx
  rcases hx with rfl | rfl | rfl <;> rfl

theorem storable_fresh (runId : String) (created : Time.Instant) (version : UInt32) :
    (Trace.fresh runId created version).Storable := by
  refine ⟨fun x hx => ?_, fun c hc => by cases hc⟩
  have hdoubles : (Trace.fresh runId created version).doubles = [0, 0, 0] := rfl
  rw [hdoubles] at hx
  simp only [List.mem_cons, List.not_mem_nil, or_false, or_self] at hx
  subst hx
  rfl

theorem storable_empty (version : UInt32) : (Strategy.empty version).Storable := by
  intro x hx
  have hdoubles : (Strategy.empty version).doubles = [0] := rfl
  rw [hdoubles, List.mem_singleton] at hx
  subst hx
  rfl

/-- Two archives are there and a third is opened; each record is accepted from one of the two that
are asked for it, and an archive opened after that loads both. -/
theorem shared_run_three_archives :
    let final := ({ tree := vacantTree, archives := [vacantArchive, vacantArchive] } : Shared).run
      [] "s" [.opening {}, .adding 2 nightTrace, .adding 0 nightTrace, .saving 1 (.empty 1),
        .saving 0 (.empty 1)]
    final.added = [nightTrace] ∧ final.saved = [.empty 1] ∧
      ∃ b, (openAt {} [] "s" final.tree).1 = .ok b ∧ b.traces.Perm [nightTrace] ∧
        b.strategies.Perm [.empty 1] := by
  intro final
  have hadded : final.added = [nightTrace] := rfl
  have hsaved : final.saved = [.empty 1] := rfl
  obtain ⟨-, -, hload⟩ := @shared_run [] "s" vacantTree [vacantArchive, vacantArchive]
    (by simp [vacantArchive]) [.opening {}, .adding 2 nightTrace, .adding 0 nightTrace,
      .saving 1 (.empty 1), .saving 0 (.empty 1)]
  obtain ⟨b, hb, htraces, hstrategies⟩ :=
    (hload (by rw [hadded]; simpa using storable_nightTrace)
      (by rw [hsaved]; simpa using storable_empty 1) {}).opens (loaded {} [] "s" vacantTree) rfl
  have hnoTraces : (loaded {} [] "s" vacantTree).traces = [] := List.mergeSort_nil
  have hnoStrategies : (loaded {} [] "s" vacantTree).strategies = [] := List.mergeSort_nil
  rw [hnoTraces, hadded] at htraces
  rw [hnoStrategies, hsaved] at hstrategies
  exact ⟨hadded, hsaved, b, hb, htraces, hstrategies⟩

end Shared

end Exploration
