import Mathlib
import Exploration.Proofs.RecordsOnFile

/-!
# What open archives remember

Any number of archives of one subject are at work on a tree, and its storage may be out of order at
any time. None of them looks at what the others do, and none compares a record with those that it
remembers. What keeps its run ids and versions apart is that each record that it remembers has a
file (`remembers_serves`), and that an archive changes only by the records that it accepts
(`life_serves`).
-/

namespace Exploration

open FileTree (MayFail OneMore publishNothing)

/-! ## What an archive comes to -/

namespace Archive

variable {a : Archive}

/-- What an archive may come to in time. -/
structure Becomes (a b : Archive) : Prop where
  traces : a.traces <+: b.traces
  strategies : a.strategies <+: b.strategies
  runCount : a.runCount ≤ b.runCount
  latestVersion : a.latestVersion ≤ b.latestVersion

theorem Becomes.refl (a : Archive) : a.Becomes a :=
  ⟨List.prefix_rfl, List.prefix_rfl, le_rfl, UInt32.le_refl _⟩

theorem Becomes.trans {a b c : Archive} (h : a.Becomes b) (h' : b.Becomes c) : a.Becomes c :=
  ⟨h.traces.trans h'.traces, h.strategies.trans h'.strategies, h.runCount.trans h'.runCount,
    UInt32.le_trans h.latestVersion h'.latestVersion⟩

theorem becomes_withTrace (a : Archive) (t : Trace) : a.Becomes (a.withTrace t) :=
  have htraces : a.traces <+: a.traces ++ [t] := List.prefix_append _ _
  ⟨htraces, List.prefix_rfl, htraces.length_le, UInt32.le_refl _⟩

theorem becomes_withStrategy {s : Strategy} (h : ¬ s.version ≤ a.latestVersion) :
    a.Becomes (a.withStrategy s) := by
  refine ⟨List.prefix_rfl, List.prefix_append _ _, le_rfl, ?_⟩
  rw [latestVersion_withStrategy h]
  exact UInt32.le_of_lt (UInt32.not_le.1 h)

theorem becomes_addTo {addition : Addition} (hown : addition.unasked? a = none) :
    a.Becomes (addition.addTo a) := by
  cases addition with
  | trace t => exact becomes_withTrace a t
  | strategy s => exact becomes_withStrategy (Addition.not_le_of_unasked hown)

end Archive

/-! ## Archives on one tree -/

/-- The request to keep a record, to the archive in place `i`. -/
def Addition.request (i : Nat) : Addition → Request
  | .trace t => .adding i t
  | .strategy s => .saving i s

theorem Addition.request_inj {i j : Nat} {addition other : Addition}
    (h : addition.request i = other.request j) : i = j ∧ addition = other := by
  cases addition <;> cases other <;> simp_all [request]

namespace Shared

open Archive

/-- A record for the archive in place `i`, which keeps it as it would if it were alone. -/
def entrust (publish : Publish FileTree) (i : Nat) (addition : Addition) (x : Shared) : Shared :=
  match x.archives[i]? with
  | none => x
  | some a =>
    let y := Keeper.keep publish ⟨a, x.tree, x.added, x.saved⟩ addition
    ⟨y.tree, x.archives.set i y.archive, y.added, y.saved⟩

/-- One request, with the storage as it is at that time. -/
def serve (root : Path) (subject : String) (x : Shared) : Request × Publish FileTree → Shared
  | (.opening sampling, _) => x.opening root subject sampling
  | (.adding i t, publish) => x.entrust publish i (.trace t)
  | (.saving i s, publish) => x.entrust publish i (.strategy s)

def serveAll (root : Path) (subject : String) (x : Shared)
    (requests : List (Request × Publish FileTree)) : Shared :=
  requests.foldl (serve root subject) x

variable {root : Path} {subject : String} {x y : Shared} {r : Request × Publish FileTree}

theorem set_archive_self {archives : List Archive} {i : Nat} {a : Archive}
    (h : archives[i]? = some a) : archives.set i a = archives := by
  obtain ⟨hi, rfl⟩ := List.getElem?_eq_some_iff.1 h
  exact List.set_getElem_self hi

/-- With the storage in order a request is served as before. -/
theorem serve_publish (request : Request) :
    x.serve root subject (request, FileTree.publish) = x.step root subject request := by
  cases request with
  | opening sampling => rfl
  | adding i t =>
    rcases ha : x.archives[i]? with _ | a <;> simp only [serve, entrust, step, adding, ha]
    rcases addTrace_tree a t x.tree with ⟨-, hadd⟩ | ⟨e, hadd⟩ <;>
      simp only [Keeper.keep, hadd, set_archive_self ha]
  | saving i s =>
    rcases ha : x.archives[i]? with _ | a <;> simp only [serve, entrust, step, saving, ha]
    rcases saveStrategy_tree a s x.tree with ⟨-, -, hsave⟩ | ⟨hsave, -⟩ | hsave <;>
      simp only [Keeper.keep, hsave, set_archive_self ha]

/-- Something may have been made, but no strategy has come. -/
structure Made (directory : Path) (tree tree' : FileTree) : Prop where
  keeps : tree.Keeps tree'
  strategies : tree'.children (strategyDirectory directory) =
    tree.children (strategyDirectory directory)

/-- All that a request can come to. -/
inductive Serves (root : Path) (subject : String) (x : Shared) :
    Request × Publish FileTree → Shared → Prop
  | unopened {sampling publish tree} (hmade : Made (subject :: root) x.tree tree) :
      Serves root subject x (.opening sampling, publish) { x with tree := tree }
  | opened {sampling publish tree} (hmade : Made (subject :: root) x.tree tree) :
      Serves root subject x (.opening sampling, publish)
        { x with tree := tree, archives := x.archives ++ [loaded sampling root subject x.tree] }
  | absent {i : Nat} {publish} {addition : Addition} (ha : x.archives[i]? = none) :
      Serves root subject x (addition.request i, publish) x
  | refused {i : Nat} {publish} {addition : Addition} {a e} (ha : x.archives[i]? = some a)
      (hanswer : (a.ask publish addition x.tree).1 = .error e) :
      Serves root subject x (addition.request i, publish) x
  | accepted {i : Nat} {publish} {addition : Addition} {a} {y : Shared}
      (ha : x.archives[i]? = some a)
      (hanswer : (a.ask publish addition x.tree).1 = .ok (addition.addTo a))
      (hown : addition.unasked? a = none)
      (hfile : OneMore (addition.path a.directory) addition.text x.tree y.tree)
      (harchives : y.archives = x.archives.set i (addition.addTo a)) :
      Serves root subject x (addition.request i, publish) y

theorem opening_serves (sampling : SamplingSettings) (publish : Publish FileTree) :
    Serves root subject x (.opening sampling, publish) (x.opening root subject sampling) := by
  have ho := openAt_opening sampling root subject x.tree
  have hmade : Made (subject :: root) x.tree (openAt sampling root subject x.tree).2 :=
    ⟨ho.keeps, ho.strategies⟩
  unfold opening
  split <;> rename_i he <;> rw [he] at ho hmade
  · exact .unopened hmade
  · obtain ⟨-, rfl⟩ := (ho.ok_iff _).1 rfl
    exact .opened hmade

theorem entrust_serves {publish : Publish FileTree} (h : MayFail publish) (i : Nat)
    (addition : Addition) : Serves root subject x (addition.request i, publish)
      (x.entrust publish i addition) := by
  unfold entrust
  split
  · rename_i ha
    exact .absent ha
  · rename_i a ha
    rcases hanswer : (a.ask publish addition x.tree).1 with e | b
    · rw [Keeper.keep_refused h ⟨a, x.tree, x.added, x.saved⟩ addition ⟨e, hanswer⟩]
      simp only [set_archive_self ha]
      exact .refused ha hanswer
    · obtain ⟨hown, harchive, hfile⟩ :=
        Keeper.keep_accepted h ⟨a, x.tree, x.added, x.saved⟩ addition ⟨b, hanswer⟩
      have hb := (Keeper.keep_of_ok (x := ⟨a, x.tree, x.added, x.saved⟩)
        (Prod.ext hanswer rfl)).1
      rw [harchive] at hb
      exact .accepted ha (hb ▸ hanswer) hown hfile (congrArg _ harchive)

theorem serve_serves (h : MayFail r.2) : Serves root subject x r (x.serve root subject r) :=
  match r with
  | (.opening sampling, publish) => opening_serves sampling publish
  | (.adding i t, _) => entrust_serves h i (.trace t)
  | (.saving i s, _) => entrust_serves h i (.strategy s)

/-! ## Their memories -/

structure Remembers (root : Path) (subject : String) (x : Shared) : Prop where
  names : DistinctVersions (subject :: root) x.tree
  founded : ∀ a ∈ x.archives, a.Founded (subject :: root) x.tree

theorem Made.continues {directory : Path} {tree tree' : FileTree} (h : Made directory tree tree') :
    Continues directory tree tree' :=
  ⟨h.keeps, fun _ he => Or.inl (h.strategies ▸ he)⟩

theorem Made.distinctVersions {directory : Path} {tree tree' : FileTree}
    (h : Made directory tree tree') (hnames : DistinctVersions directory tree) :
    DistinctVersions directory tree' := by
  unfold DistinctVersions
  rwa [h.strategies]

/-- What holds of an archive that has been opened, and is kept as the tree grows and as the archive
accepts a record, holds of all archives. -/
theorem forall_serves {P : FileTree → Archive → Prop}
    (howned : ∀ a ∈ x.archives, a.directory = subject :: root)
    (hgrown : ∀ a, Continues (subject :: root) x.tree y.tree → P x.tree a → P y.tree a)
    (hloaded : ∀ sampling, P x.tree (loaded sampling root subject x.tree))
    (haccepted : ∀ a (addition : Addition), P x.tree a → addition.unasked? a = none →
      OneMore (addition.path (subject :: root)) addition.text x.tree y.tree →
        P y.tree (addition.addTo a))
    (h : ∀ a ∈ x.archives, P x.tree a) (hs : Serves root subject x r y) :
    ∀ a ∈ y.archives, P y.tree a := by
  cases hs with
  | unopened hmade => exact fun a ha => hgrown a hmade.continues (h a ha)
  | opened hmade =>
    intro a ha
    refine hgrown a hmade.continues ?_
    rcases List.mem_append.1 ha with ha | ha
    · exact h a ha
    · rw [List.mem_singleton.1 ha]
      exact hloaded _
  | absent => exact h
  | refused => exact h
  | @accepted _ _ addition c _ hc _ hown hfile harchives =>
    have hmem := List.mem_of_getElem? hc
    rw [howned c hmem] at hfile
    intro a ha
    rw [harchives] at ha
    rcases List.mem_or_eq_of_mem_set ha with ha | rfl
    · exact hgrown a (continues_oneMore hfile) (h a ha)
    · exact haccepted c addition (h c hmem) hown hfile

theorem distinctVersions_serves (h : x.Remembers root subject) (hs : Serves root subject x r y) :
    DistinctVersions (subject :: root) y.tree := by
  cases hs with
  | unopened hmade => exact hmade.distinctVersions h.names
  | opened hmade => exact hmade.distinctVersions h.names
  | absent => exact h.names
  | refused => exact h.names
  | accepted ha _ hown hfile _ =>
    have hfounded := h.founded _ (List.mem_of_getElem? ha)
    rw [hfounded.owned] at hfile
    exact distinctVersions_addTo hfounded hown hfile h.names

theorem remembers_serves (h : x.Remembers root subject) (hs : Serves root subject x r y) :
    y.Remembers root subject :=
  ⟨distinctVersions_serves h hs,
    forall_serves (P := fun tree a => a.Founded (subject :: root) tree)
      (fun a ha => (h.founded a ha).owned) (fun _ hc ha => ha.mono hc)
      (fun _ => founded_loaded h.names) (fun _ _ ha hown hfile => founded_addTo ha hown hfile)
      h.founded hs⟩

/-- This holds whatever versions the names of the strategies stand for. -/
theorem filed_serves (h : ∀ a ∈ x.archives, a.Filed (subject :: root) x.tree)
    (hs : Serves root subject x r y) : ∀ a ∈ y.archives, a.Filed (subject :: root) y.tree :=
  forall_serves (P := fun tree a => a.Filed (subject :: root) tree)
    (fun a ha => (h a ha).owned) (fun _ hc ha => ha.mono hc.keeps.files) (fun _ => filed_loaded)
    (fun _ _ ha _ hfile => filed_addTo ha hfile) h hs

theorem remembers_serveAll : ∀ (requests : List (Request × Publish FileTree)) {x : Shared},
    (∀ r ∈ requests, MayFail r.2) → x.Remembers root subject →
    (x.serveAll root subject requests).Remembers root subject
  | [], _, _, h => h
  | r :: requests, _, hstorage, h =>
    remembers_serveAll requests (fun q hq => hstorage q (List.mem_cons_of_mem r hq))
      (remembers_serves h (serve_serves (hstorage r List.mem_cons_self)))

/-! ## Their lives -/

/-- An archive that is there is there afterwards, unchanged unless it has accepted a record. -/
theorem life_serves {i : Nat} {a : Archive} (hs : Serves root subject x r y)
    (ha : x.archives[i]? = some a) : ∃ b, y.archives[i]? = some b ∧
      (b = a ∧ (∀ addition : Addition, r.1 = addition.request i →
          ∃ e, (a.ask r.2 addition x.tree).1 = .error e)
        ∨ ∃ addition : Addition, r.1 = addition.request i ∧ addition.unasked? a = none ∧
          (a.ask r.2 addition x.tree).1 = .ok b ∧ b = addition.addTo a) := by
  cases hs with
  | unopened => exact ⟨a, ha, Or.inl ⟨rfl, fun addition h => by cases addition <;> cases h⟩⟩
  | opened =>
    refine ⟨a, ?_, Or.inl ⟨rfl, fun addition h => by cases addition <;> cases h⟩⟩
    rw [List.getElem?_append_left (List.getElem?_eq_some_iff.1 ha).1, ha]
  | absent hnone =>
    refine ⟨a, ha, Or.inl ⟨rfl, fun addition h => ?_⟩⟩
    obtain ⟨rfl, rfl⟩ := Addition.request_inj h
    rw [hnone] at ha
    cases ha
  | refused hsome hanswer =>
    refine ⟨a, ha, Or.inl ⟨rfl, fun addition h => ?_⟩⟩
    obtain ⟨rfl, rfl⟩ := Addition.request_inj h
    obtain rfl := Option.some.inj (hsome.symm.trans ha)
    exact ⟨_, hanswer⟩
  | @accepted j _ addition c _ hsome hanswer hown _ harchives =>
    rw [harchives]
    by_cases hij : j = i
    · subst hij
      obtain rfl := Option.some.inj (hsome.symm.trans ha)
      refine ⟨_, List.getElem?_set_self (List.getElem?_eq_some_iff.1 ha).1, Or.inr ?_⟩
      exact ⟨addition, rfl, hown, hanswer, rfl⟩
    · refine ⟨a, ?_, Or.inl ⟨rfl, fun other h => absurd (Addition.request_inj h).1 hij⟩⟩
      rw [List.getElem?_set_ne hij, ha]

theorem becomes_serves {i : Nat} {a : Archive} (hs : Serves root subject x r y)
    (ha : x.archives[i]? = some a) : ∃ b, y.archives[i]? = some b ∧ a.Becomes b := by
  obtain ⟨b, hb, ⟨rfl, -⟩ | ⟨addition, -, hown, -, rfl⟩⟩ := life_serves hs ha
  · exact ⟨b, hb, .refl b⟩
  · exact ⟨_, hb, becomes_addTo hown⟩

theorem becomes_serveAll {i : Nat} : ∀ (requests : List (Request × Publish FileTree)) {x : Shared}
    {a : Archive}, (∀ r ∈ requests, MayFail r.2) → x.archives[i]? = some a →
    ∃ b, (x.serveAll root subject requests).archives[i]? = some b ∧ a.Becomes b
  | [], _, a, _, ha => ⟨a, ha, .refl a⟩
  | r :: requests, x, _, hstorage, ha => by
    obtain ⟨b, hb, hab⟩ :=
      becomes_serves (@serve_serves root subject x r (hstorage r List.mem_cons_self)) ha
    obtain ⟨c, hc, hbc⟩ :=
      becomes_serveAll requests (fun q hq => hstorage q (List.mem_cons_of_mem r hq)) hb
    exact ⟨c, hc, hab.trans hbc⟩

/-- The latest version changes by the request just if the archive in place `i`, which was `a` and is
`b` after that, saves a strategy, and then to the version of that. -/
structure Updates (x : Shared) (i : Nat) (r : Request × Publish FileTree) (a b : Archive) :
    Prop where
  changes : b.latestVersion ≠ a.latestVersion ↔
    ∃ s c, r.1 = .saving i s ∧ (a.saveStrategy r.2 s x.tree).1 = .ok c
  saved : ∀ s c, r.1 = .saving i s → (a.saveStrategy r.2 s x.tree).1 = .ok c →
    c = b ∧ b.latestVersion = s.version

theorem updates_serves {i : Nat} {a : Archive} (hs : Serves root subject x r y)
    (ha : x.archives[i]? = some a) : ∃ b, y.archives[i]? = some b ∧ x.Updates i r a b := by
  obtain ⟨b, hb, ⟨rfl, herror⟩ | ⟨addition, hr, hown, hok, hadd⟩⟩ := life_serves hs ha
  · have hnone : ∀ s c, r.1 = .saving i s → (b.saveStrategy r.2 s x.tree).1 ≠ .ok c := by
      intro s c hr hok
      obtain ⟨e, he⟩ := herror (.strategy s) hr
      exact nomatch he.symm.trans hok
    exact ⟨b, hb, ⟨fun hne => absurd rfl hne, fun ⟨s, c, hr, hok⟩ => absurd hok (hnone s c hr)⟩,
      fun s c hr hok => absurd hok (hnone s c hr)⟩
  · refine ⟨b, hb, ?_⟩
    cases addition with
    | trace t =>
      have hr' : ∀ s, r.1 ≠ .saving i s := fun s h => nomatch hr.symm.trans h
      have hsame : b.latestVersion = a.latestVersion := by rw [hadd]; rfl
      exact ⟨by simp [hsame, hr'], fun s c hs => absurd hs (hr' s)⟩
    | strategy s =>
      have hnew := Addition.not_le_of_unasked hown
      have hversion : b.latestVersion = s.version := by
        rw [hadd]
        exact latestVersion_withStrategy hnew
      refine ⟨⟨fun _ => ⟨s, b, hr, hok⟩, fun _ he => hnew ?_⟩, fun u c hu hc => ?_⟩
      · rw [← hversion, he]
        exact UInt32.le_refl _
      · obtain rfl : s = u := by
          have := hr.symm.trans hu
          simpa [Addition.request] using this
        exact ⟨Except.ok.inj (hc.symm.trans hok), hversion⟩

theorem serveAll_append (x : Shared) (before after : List (Request × Publish FileTree)) :
    x.serveAll root subject (before ++ after) =
      (x.serveAll root subject before).serveAll root subject after :=
  List.foldl_append

/-- What an archive remembers is on file, and no run id and no version is remembered twice. The
strategy that it saved last is its latest one. -/
structure Remembered (directory : Path) (tree : FileTree) (a : Archive) : Prop where
  runIds : (a.traces.map (·.runId)).Nodup
  traces : ∀ t ∈ a.traces, t.OnFile directory tree
  ascending : a.strategies.Pairwise (·.version < ·.version)
  strategies : ∀ s ∈ a.strategies, s.OnFile directory tree
  latest : a.latestStrategy? = a.strategies.getLast?
  known : ∀ s ∈ a.strategies, s.version ≤ a.latestVersion

/-- Whatever is asked of the archives, and whenever the storage is out of order. An archive that is
there at any moment is there in the end, and the last request changes its latest version or does
not. -/
theorem remembered_run {tree : FileTree} (hnames : DistinctVersions (subject :: root) tree)
    (requests : List (Request × Publish FileTree)) (hstorage : ∀ r ∈ requests, MayFail r.2) :
    let start : Shared := { tree := tree, archives := [] }
    let final := start.serveAll root subject requests
    (∀ a ∈ final.archives, Remembered (subject :: root) final.tree a) ∧
    (∀ before after, requests = before ++ after →
      ∀ (i : Nat) a, (start.serveAll root subject before).archives[i]? = some a →
        ∃ b, final.archives[i]? = some b ∧ a.Becomes b) ∧
    ∀ before r, requests = before ++ [r] → ∀ (i : Nat) a,
      (start.serveAll root subject before).archives[i]? = some a → ∃ b,
        final.archives[i]? = some b ∧ (start.serveAll root subject before).Updates i r a b := by
  intro start final
  have hstart : start.Remembers root subject := ⟨hnames, by simp [start]⟩
  have hfinal : final.Remembers root subject := remembers_serveAll requests hstorage hstart
  refine ⟨fun a ha => ?_, ?_, ?_⟩
  · have hfounded := hfinal.founded a ha
    exact ⟨hfounded.runIds, hfounded.traces, hfounded.ascending, hfounded.strategies,
      latestStrategy?_of_ascending hfounded.ascending, fun s => le_latestVersion⟩
  · rintro before after rfl i a ha
    simp only [final, serveAll_append]
    exact becomes_serveAll after (fun r hr => hstorage r (List.mem_append_right before hr)) ha
  · rintro before r rfl i a ha
    simp only [final, serveAll_append]
    exact updates_serves
      (serve_serves (hstorage r (List.mem_append_right before (List.mem_singleton_self r)))) ha

open Session (tornTree tornArchive openAt_tornTree)

/-- Two archives share a tree whose highest file name stands for 7. The storage is out of order at
first, and the second archive is one version ahead after that; the first one is refused this version
and takes the next. -/
theorem remembered_run_tornTree :
    let requests : List (Request × Publish FileTree) :=
      [(.opening {}, FileTree.publish), (.opening {}, FileTree.publish),
        (.adding 0 nightTrace, FileTree.publish), (.saving 1 (.empty 8), publishNothing),
        (.saving 1 (.empty 8), FileTree.publish), (.saving 0 (.empty 8), FileTree.publish),
        (.saving 0 (.empty 9), FileTree.publish)]
    let final := ({ tree := tornTree, archives := [] } : Shared).serveAll [] "s" requests
    ∃ a b, final.archives = [a, b] ∧ nightTrace ∈ a.traces ∧ nightTrace.OnFile ["s"] final.tree ∧
      a.strategies = [.empty 9] ∧ a.latestStrategy? = some (.empty 9) ∧ a.latestVersion = 9 ∧
      b.strategies = [.empty 8] ∧ (Strategy.empty 8).OnFile ["s"] final.tree ∧
      b.latestVersion = 8 := by
  intro requests final
  have hstorage : ∀ r ∈ requests, MayFail r.2 := by
    simp [requests, FileTree.mayFail_publish, FileTree.mayFail_publishNothing]
  obtain ⟨hmemory, -⟩ :=
    remembered_run Keeper.distinctVersions_tornTree requests hstorage
  have hopened : ({ tree := tornTree, archives := [] } : Shared).serveAll [] "s"
      (requests.take 2) = { tree := tornTree, archives := [tornArchive, tornArchive] } := by
    simp [requests, serveAll, serve, opening, openAt_tornTree]
  have harchives : final.archives = [{ tornArchive with
      traces := [nightTrace], strategies := [.empty 9], reserved := 9 },
      { tornArchive with strategies := [.empty 8], reserved := 8 }] := by
    have hsplit : final = (({ tree := tornTree, archives := [] } : Shared).serveAll [] "s"
        (requests.take 2)).serveAll [] "s" (requests.drop 2) := by
      rw [← serveAll_append, List.take_append_drop]
    rw [hsplit, hopened]
    rfl
  have hfirst := hmemory _ (by rw [harchives]; exact List.mem_cons_self)
  have hsecond := hmemory _ (by rw [harchives]; exact List.mem_cons_of_mem _ List.mem_cons_self)
  exact ⟨_, _, harchives, List.mem_singleton_self _, hfirst.traces _ (List.mem_singleton_self _),
    rfl, hfirst.latest, rfl, rfl, hsecond.strategies _ (List.mem_singleton_self _), rfl⟩

end Shared

end Exploration
