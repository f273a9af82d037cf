import Mathlib
import Exploration.Proofs.CycleEvolution
import Exploration.Proofs.OpenArchives

/-!
# Versions that another archive was first to take

A strategy is evolved under the version after the latest one that the archive knows of. Where
another archive has published that version the save is refused, and the refusal teaches the archive
nothing: the version stays `Contested`, whatever is asked of the archives after that
(`contested_serve`), and the archive is stuck at it. One that is opened then knows of every version
on the tree (`known_of_openAt`) and is unhindered.
-/

namespace Exploration

open FileTree (MayFail)

namespace Archive

/-- A strategy is evolved and saved. -/
def attempt (publish : Publish FileTree) (settings : EvolutionSettings) (a : Archive)
    (tree : FileTree) : Except Failure Archive :=
  (a.saveStrategy publish (a.evolve settings) tree).1

/-- Whatever is evolved has version `v`, and that version is refused. -/
def StuckAt (a : Archive) (tree : FileTree) (v : UInt32) : Prop :=
  ∀ settings publish, MayFail publish → (a.evolve settings).version = v ∧
    a.attempt publish settings tree =
      if (publish (strategyPath a.directory (a.evolve settings)) (a.evolve settings).encode
        tree).1 = .failed then .error .storage
      else .error (.versionConflict v)

/-- Until the versions run out, whatever is evolved has a version that no name on the tree stands
for, and it is saved. -/
def Unhindered (a : Archive) (tree : FileTree) : Prop :=
  ∀ settings publish, MayFail publish → a.latestVersion < (a.evolve settings).version →
    (∀ e ∈ tree.children (strategyDirectory a.directory),
      versionOfFile? e.1 ≠ some (a.evolve settings).version) ∧
    a.attempt publish settings tree =
      if (publish (strategyPath a.directory (a.evolve settings)) (a.evolve settings).encode
        tree).1 = .failed then .error .storage
      else .ok (a.withStrategy (a.evolve settings))

/-- The version that is evolved next has a file already. -/
structure Contested (a : Archive) (tree : FileTree) (v : UInt32) : Prop where
  next : a.latestVersion.toNat + 1 = v.toNat
  taken : (tree.find? (strategyFile v :: strategyDirectory a.directory)).isSome = true

section Contested

variable {a : Archive} {tree tree' : FileTree} {v : UInt32} {publish : Publish FileTree}

theorem evolve_version_of_next (h : a.latestVersion.toNat + 1 = v.toNat)
    (settings : EvolutionSettings) : (a.evolve settings).version = v := by
  refine UInt32.toNat_inj.1 ?_
  rw [evolve, EvolutionSettings.evolve_version, UInt32.toNat_add, ← h]
  have := v.toNat_lt
  exact Nat.mod_eq_of_lt (by rw [UInt32.toNat_one]; omega)

/-- How an attempt ends that the archive itself has nothing against. -/
theorem attempt_eq (h : MayFail publish) {settings : EvolutionSettings}
    (hnew : a.latestVersion < (a.evolve settings).version) : a.attempt publish settings tree =
      if (publish (strategyPath a.directory (a.evolve settings)) (a.evolve settings).encode
        tree).1 = .failed then .error .storage
      else if (tree.find? (strategyPath a.directory (a.evolve settings))).isSome then
        .error (.versionConflict (a.evolve settings).version)
      else .ok (a.withStrategy (a.evolve settings)) := by
  unfold attempt saveStrategy strategyPath
  rw [if_neg (UInt32.not_le.2 hnew)]
  rcases h.cases (strategyFile (a.evolve settings).version :: strategyDirectory a.directory)
    (a.evolve settings).encode tree with hp | ⟨hp, hsome⟩ | ⟨hp, hnone⟩ <;> rw [hp]
  · exact (if_pos rfl).symm
  · rw [if_neg nofun, if_pos hsome]
  · rw [if_neg nofun, hnone, if_neg nofun]
    rfl

/-- A conflict that is not with the archive itself is with the tree. -/
theorem contested_of_attempt (h : MayFail publish) {settings : EvolutionSettings}
    (hnew : a.latestVersion < v)
    (hconflict : a.attempt publish settings tree = .error (.versionConflict v)) :
    a.Contested tree v := by
  have hversion : (a.evolve settings).version = v := by
    rcases saveStrategy_cases publish a (a.evolve settings) tree with
      ⟨hsave, -⟩ | ⟨-, w, ⟨-, hsave⟩ | ⟨-, hsave⟩ | ⟨-, hsave⟩⟩ <;>
      rw [attempt, hsave] at hconflict <;> cases hconflict <;> rfl
  rw [← hversion] at hnew ⊢
  rw [attempt_eq h hnew] at hconflict
  refine ⟨(toNat_version_evolve (UInt32.not_le.2 hnew)).symm, ?_⟩
  split_ifs at hconflict with hp hsome
  · cases hconflict
  · exact hsome

theorem Contested.mono (h : a.Contested tree v) (hkeeps : tree.Keeps tree') :
    a.Contested tree' v := by
  obtain ⟨e, he⟩ := Option.isSome_iff_exists.1 h.taken
  exact ⟨h.next, Option.isSome_of_eq_some (hkeeps _ _ he)⟩

theorem Contested.stuckAt (h : a.Contested tree v) : a.StuckAt tree v := by
  intro settings publish hstorage
  have hversion := evolve_version_of_next h.next settings
  have hnew : a.latestVersion < (a.evolve settings).version := by
    rw [hversion, UInt32.lt_iff_toNat_lt, ← h.next]
    exact Nat.lt_succ_self _
  have htaken : (tree.find? (strategyPath a.directory (a.evolve settings))).isSome = true := by
    rw [strategyPath, hversion]
    exact h.taken
  exact ⟨hversion, by rw [attempt_eq hstorage hnew, if_pos htaken, hversion]⟩

/-- An archive is unhindered that knows of every version on the tree. -/
theorem unhindered_of_known (hknown : ∀ e ∈ tree.children (strategyDirectory a.directory), ∀ u,
    versionOfFile? e.1 = some u → u ≤ a.latestVersion) : a.Unhindered tree := by
  intro settings publish hstorage hnew
  have hfree : ∀ e ∈ tree.children (strategyDirectory a.directory),
      versionOfFile? e.1 ≠ some (a.evolve settings).version :=
    fun e he hu => UInt32.not_le.2 hnew (hknown e he _ hu)
  have hnone : tree.find? (strategyPath a.directory (a.evolve settings)) = none := by
    rw [Option.eq_none_iff_forall_not_mem]
    intro e he
    exact hfree _ ((FileTree.mem_children _).2 he) (versionOfFile?_strategyFile _)
  refine ⟨hfree, ?_⟩
  rw [attempt_eq hstorage hnew, hnone]
  exact if_congr Iff.rfl rfl (if_neg nofun)

/-- The one version that could be saved has a file. -/
theorem Contested.addTo (h : a.Contested tree v) {addition : Addition}
    (hown : addition.unasked? a = none) (hnone : tree.find? (addition.path a.directory) = none)
    (hbelow : ∀ s, addition = .strategy s → s.version ≤ v) :
    (addition.addTo a).Contested tree v ∧
      (addition.addTo a).latestVersion = a.latestVersion := by
  cases addition with
  | trace t => exact ⟨⟨h.next, h.taken⟩, rfl⟩
  | strategy s =>
    have hversion : s.version = v := by
      have hnew := UInt32.not_le.1 (Addition.not_le_of_unasked hown)
      have hle := hbelow s rfl
      rw [UInt32.lt_iff_toNat_lt] at hnew
      rw [UInt32.le_iff_toNat_le, ← h.next] at hle
      exact UInt32.toNat_inj.1 (by rw [← h.next]; omega)
    rw [Addition.path, strategyPath, hversion] at hnone
    have htaken := h.taken
    rw [hnone] at htaken
    cases htaken

end Contested

end Archive

namespace Keeper

open Archive

/-- An addition comes to nothing where the storage fails, and to what it comes to elsewhere. -/
theorem keep_mayFail {publish : Publish FileTree} (h : MayFail publish) (x : Keeper)
    (addition : Addition) :
    x.keep publish addition = x ∨ x.keep publish addition = x.keep FileTree.publish addition := by
  rcases h (addition.path x.archive.directory) addition.text x.tree with hp | hp
  · left
    refine keep_refused h x addition ?_
    rw [ask_eq, hp]
    rcases addition.unasked? x.archive with _ | e
    · exact ⟨_, rfl⟩
    · exact ⟨e, rfl⟩
  · right
    have hask : x.archive.ask publish addition x.tree =
        x.archive.ask FileTree.publish addition x.tree := by
      rw [ask_eq, ask_eq, hp]
    cases addition <;> simp only [ask] at hask <;> simp only [keep, hask]

end Keeper

/-! ## Archives on one tree -/

namespace Shared

open Archive

variable {root : Path} {subject : String} {first : FileTree} {x y : Shared}
  {r : Request × Publish FileTree} {v : UInt32}

theorem keeps_serves (hs : Serves root subject x r y) : x.tree.Keeps y.tree := by
  cases hs with
  | unopened hmade => exact hmade.keeps
  | opened hmade => exact hmade.keeps
  | absent => exact .refl _
  | refused => exact .refl _
  | accepted _ _ _ hfile _ => exact hfile.keeps

variable (root subject) in
/-- Whatever is asked for, short of a higher version, the contested version stays the next one. -/
theorem contested_serve (hstorage : MayFail r.2) {i : Nat} {a : Archive}
    (ha : x.archives[i]? = some a) (h : a.Contested x.tree v)
    (hbelow : ∀ s, r.1 = .saving i s → s.version ≤ v) :
    ∃ b, (x.serve root subject r).archives[i]? = some b ∧
      b.Contested (x.serve root subject r).tree v ∧ b.latestVersion = a.latestVersion := by
  have hs : Serves root subject x r (x.serve root subject r) := serve_serves hstorage
  obtain ⟨b, hb, ⟨rfl, -⟩ | ⟨addition, hr, hown, hok, rfl⟩⟩ := life_serves hs ha
  · exact ⟨b, hb, h.mono (keeps_serves hs), rfl⟩
  · obtain ⟨-, -, hfile⟩ :=
      Keeper.keep_accepted hstorage ⟨a, x.tree, x.added, x.saved⟩ addition ⟨_, hok⟩
    obtain ⟨hcontested, hlatest⟩ :=
      h.addTo hown hfile.new fun s hs => hbelow s (by rw [hr, hs]; rfl)
    exact ⟨_, hb, hcontested.mono (keeps_serves hs), hlatest⟩

variable (root subject) in
theorem contested_serveAll {i : Nat} : ∀ (requests : List (Request × Publish FileTree))
    {x : Shared} {a : Archive}, (∀ r ∈ requests, MayFail r.2) → x.archives[i]? = some a →
    a.Contested x.tree v → (∀ r ∈ requests, ∀ s, r.1 = .saving i s → s.version ≤ v) →
    ∃ b, (x.serveAll root subject requests).archives[i]? = some b ∧
      b.Contested (x.serveAll root subject requests).tree v ∧ b.latestVersion = a.latestVersion
  | [], _, a, _, ha, h, _ => ⟨a, ha, h, rfl⟩
  | r :: requests, x, a, hstorage, ha, h, hbelow => by
    obtain ⟨hr, hrest⟩ := List.forall_mem_cons.1 hstorage
    obtain ⟨hr', hrest'⟩ := List.forall_mem_cons.1 hbelow
    obtain ⟨b, hb, hcontested, hlatest⟩ := contested_serve root subject hr ha h hr'
    obtain ⟨c, hc, hcontested', hlatest'⟩ := contested_serveAll requests hrest hb hcontested hrest'
    exact ⟨c, hc, hcontested', hlatest'.trans hlatest⟩

/-! ## Archives that are opened then -/

theorem entrust_cases {publish : Publish FileTree} (h : MayFail publish) (i : Nat)
    (addition : Addition) : x.entrust publish i addition = x ∨
      x.entrust publish i addition = x.entrust FileTree.publish i addition := by
  unfold entrust
  rcases ha : x.archives[i]? with _ | a
  · exact Or.inl rfl
  · rcases Keeper.keep_mayFail h ⟨a, x.tree, x.added, x.saved⟩ addition with hk | hk <;>
      simp only [hk]
    · simp only [set_archive_self ha]
      exact Or.inl trivial
    · exact Or.inr trivial

/-- A request comes to nothing where the storage fails, and to what it comes to elsewhere. -/
theorem serve_cases (hstorage : MayFail r.2) :
    x.serve root subject r = x ∨ x.serve root subject r = x.step root subject r.1 := by
  rw [← serve_publish]
  match r with
  | (.opening _, _) => exact Or.inr rfl
  | (.adding _ _, _) => exact entrust_cases hstorage _ _
  | (.saving _ _, _) => exact entrust_cases hstorage _ _

theorem grown_serve (hstorage : MayFail r.2) (h : x.Grown root subject first) :
    (x.serve root subject r).Grown root subject first := by
  rcases serve_cases hstorage with hr | hr <;> rw [hr]
  · exact h
  · exact (grown_step h r.1).1

theorem grown_serveAll : ∀ (requests : List (Request × Publish FileTree)) {x : Shared},
    (∀ r ∈ requests, MayFail r.2) → x.Grown root subject first →
    (x.serveAll root subject requests).Grown root subject first
  | [], _, _, h => h
  | _ :: requests, _, hstorage, h =>
    have ⟨hr, hrest⟩ := List.forall_mem_cons.1 hstorage
    grown_serveAll requests hrest (grown_serve hr h)

theorem openable_of_serve (hsome : (x.serve root subject r).archives ≠ []) :
    x.archives ≠ [] ∨ Openable root subject x.tree := by
  match r with
  | (.opening sampling, publish) =>
    have ho := openAt_opening sampling root subject x.tree
    simp only [serve, opening] at hsome
    split at hsome <;> rename_i he <;> rw [he] at ho
    · exact Or.inl hsome
    · exact Or.inr ((ho.ok_iff _).1 rfl).1
  | (.adding i t, publish) => exact Or.inl fun hnone => hsome (by simp [serve, entrust, hnone])
  | (.saving i s, publish) => exact Or.inl fun hnone => hsome (by simp [serve, entrust, hnone])

/-- Where an archive is open its directories can be made. -/
theorem openable_serveAll : ∀ (requests : List (Request × Publish FileTree)) {x : Shared},
    (∀ r ∈ requests, MayFail r.2) → x.Grown root subject first →
    (x.archives ≠ [] → Openable root subject first) →
    (x.serveAll root subject requests).archives ≠ [] → Openable root subject first
  | [], _, _, _, h, hsome => h hsome
  | _ :: requests, _, hstorage, hgrown, h, hsome =>
    have ⟨hr, hrest⟩ := List.forall_mem_cons.1 hstorage
    openable_serveAll requests hrest (grown_serve hr hgrown)
      (fun hserved => (openable_of_serve hserved).elim h hgrown.openable_iff.1) hsome

/-- An archive that is opened knows of every version on the tree. -/
theorem known_of_openAt {sampling : SamplingSettings} {tree opened : FileTree} {fresh : Archive}
    (hopen : openAt sampling root subject tree = (.ok fresh, opened)) :
    ∀ e ∈ opened.children (strategyDirectory fresh.directory), ∀ u,
      versionOfFile? e.1 = some u → u ≤ fresh.latestVersion := by
  have ho := openAt_opening sampling root subject tree
  rw [hopen] at ho
  obtain rfl := eq_loaded_of_openAt hopen
  intro e he u hu
  rw [show (loaded sampling root subject tree).directory = subject :: root from rfl,
    ho.strategies] at he
  exact le_latestVersion_loaded he hu

/-- Once an archive is refused a version that it does not know of, it evolves that version again and
again and is refused it each time, unless it is made to save a higher one. An archive that is opened
at any time after that evolves a version that is free. -/
theorem contested_run {tree : FileTree} (requests later : List (Request × Publish FileTree))
    (hstorage : ∀ r ∈ requests ++ later, MayFail r.2) {i : Nat} {a : Archive} {v : UInt32}
    {publish : Publish FileTree} (hpublish : MayFail publish) {settings : EvolutionSettings} :
    let x := ({ tree := tree, archives := [] } : Shared).serveAll root subject requests
    let y := x.serveAll root subject later
    x.archives[i]? = some a → a.latestVersion < v →
    a.attempt publish settings x.tree = .error (.versionConflict v) →
    (∀ r ∈ later, ∀ s, r.1 = .saving i s → s.version ≤ v) →
    (∃ b, y.archives[i]? = some b ∧ b.latestVersion = a.latestVersion ∧ b.StuckAt y.tree v ∧
      (y.tree.find? (strategyFile v :: strategyDirectory (subject :: root))).isSome = true) ∧
    ∀ sampling, ∃ fresh opened, openAt sampling root subject y.tree = (.ok fresh, opened) ∧
      v ≤ fresh.latestVersion ∧ fresh.Unhindered opened := by
  intro x y ha hnew hconflict hbelow
  have hstart : ({ tree := tree, archives := [] } : Shared).Grown root subject tree :=
    ⟨nofun, .refl _, by simp, by simp, fun _ => Iff.rfl⟩
  have hy : y = ({ tree := tree, archives := [] } : Shared).serveAll root subject
      (requests ++ later) := (serveAll_append _ _ _).symm
  have hgrown : y.Grown root subject tree := hy ▸ grown_serveAll _ hstorage hstart
  obtain ⟨b, hb, hcontested, hlatest⟩ := contested_serveAll root subject later
    (fun r hr => hstorage r (List.mem_append_right requests hr)) ha
    (contested_of_attempt hpublish hnew hconflict) hbelow
  have hbmem : b ∈ y.archives := List.mem_of_getElem? hb
  have htaken := hcontested.taken
  rw [hgrown.owned b hbmem] at htaken
  refine ⟨⟨b, hb, hlatest, hcontested.stuckAt, htaken⟩, fun sampling => ?_⟩
  have hopenable : Openable root subject y.tree := by
    refine hgrown.openable_iff.2 (openable_serveAll _ hstorage hstart (by simp) ?_)
    rw [← hy]
    exact List.ne_nil_of_mem hbmem
  obtain ⟨opened, hopen⟩ := openAt_of_openable hopenable sampling
  obtain ⟨e, he⟩ := Option.isSome_iff_exists.1 htaken
  exact ⟨_, opened, hopen, le_latestVersion_loaded ((FileTree.mem_children _).2 he)
    (versionOfFile?_strategyFile v), unhindered_of_known (known_of_openAt hopen)⟩

/-- Two archives are open, and the first one has saved what it evolved. -/
def vacantRivals : List (Request × Publish FileTree) :=
  [(.opening {}, FileTree.publish), (.opening {}, FileTree.publish),
    (.saving 0 (vacantArchive.evolve {}), FileTree.publish)]

theorem serveAll_vacantRivals :
    ({ tree := vacantTree, archives := [] } : Shared).serveAll [] "s" vacantRivals =
      { tree := vacantTree.insert ["strategy_v1.json", "strategies", "s"]
          (.file (some (vacantArchive.evolve {}).encode)),
        archives := [vacantArchive.withStrategy (vacantArchive.evolve {}), vacantArchive],
        saved := [vacantArchive.evolve {}] } := by
  have hopened : ({ tree := vacantTree, archives := [] } : Shared).serveAll [] "s"
      (vacantRivals.take 2) =
        { tree := vacantTree, archives := [vacantArchive, vacantArchive] } := by
    simp [vacantRivals, serveAll, serve, opening, openAt_vacantTree]
  rw [← List.take_append_drop 2 vacantRivals, serveAll_append, hopened]
  rfl

/-- The second one keeps a trace between its attempts. -/
theorem contested_run_vacantRivals :
    let x := ({ tree := vacantTree, archives := [] } : Shared).serveAll [] "s" vacantRivals
    let y := x.serveAll [] "s" [(.saving 1 (vacantArchive.evolve {}), FileTree.publish),
      (.adding 1 nightTrace, FileTree.publish)]
    vacantArchive.attempt FileTree.publish {} x.tree = .error (.versionConflict 1) ∧
      (∃ b, y.archives[1]? = some b ∧ b.traces = [nightTrace] ∧ (b.evolve {}).version = 1 ∧
        b.attempt FileTree.publish {} y.tree = .error (.versionConflict 1)) ∧
      ∃ fresh opened, openAt {} [] "s" y.tree = (.ok fresh, opened) ∧ 1 ≤ fresh.latestVersion := by
  intro x y
  have hx : x = _ := serveAll_vacantRivals
  have hy : y = _ := congrArg (fun x : Shared => x.serveAll [] "s"
    [(.saving 1 (vacantArchive.evolve {}), FileTree.publish),
      (.adding 1 nightTrace, FileTree.publish)]) serveAll_vacantRivals
  have hconflict :
      vacantArchive.attempt FileTree.publish {} x.tree = .error (.versionConflict 1) := by
    rw [hx]
    rfl
  obtain ⟨⟨b, hb, -, hstuck, -⟩, hfresh⟩ := contested_run vacantRivals
    [(.saving 1 (vacantArchive.evolve {}), FileTree.publish),
      (.adding 1 nightTrace, FileTree.publish)]
    (by simp [vacantRivals, FileTree.mayFail_publish]) FileTree.mayFail_publish
    (show x.archives[1]? = some vacantArchive by rw [hx]; rfl) (by decide) hconflict
    (by simp [show (vacantArchive.evolve {}).version = 1 from rfl])
  have hkept : y.archives[1]? = some { vacantArchive with traces := [nightTrace] } := by
    rw [hy]
    rfl
  obtain rfl := Option.some.inj (hb.symm.trans hkept)
  obtain ⟨hversion, hattempt⟩ := hstuck {} FileTree.publish FileTree.mayFail_publish
  obtain ⟨fresh, opened, hopen, hle, -⟩ := hfresh {}
  refine ⟨hconflict, ⟨_, hb, rfl, hversion, hattempt.trans (if_neg ?_)⟩, fresh, opened, hopen, hle⟩
  show ¬ (FileTree.publish _ _ y.tree).1 = .failed
  rw [hy]
  exact nofun

/-- What the second one evolves after the conflict is the version that it was refused. -/
theorem refused_again_vacantRivals :
    let x := ({ tree := vacantTree, archives := [] } : Shared).serveAll [] "s" vacantRivals
    let y := x.serveAll [] "s" [(.saving 1 (vacantArchive.evolve {}), FileTree.publish)]
    x.archives[1]? = some vacantArchive ∧
      vacantArchive.attempt FileTree.publish {} x.tree = .error (.versionConflict 1) ∧
      ∃ b, y.archives[1]? = some b ∧ (b.evolve {}).version = 1 ∧
        (y.tree.find? ["strategy_v1.json", "strategies", "s"]).isSome = true ∧
        b.attempt FileTree.publish {} y.tree = .error (.versionConflict 1) := by
  intro x y
  have hx : x = _ := serveAll_vacantRivals
  have hy : y = _ := congrArg (fun x : Shared => x.serveAll [] "s"
    [(.saving 1 (vacantArchive.evolve {}), FileTree.publish)]) serveAll_vacantRivals
  rw [hy, hx]
  exact ⟨rfl, rfl, vacantArchive, rfl, rfl, rfl, rfl⟩

end Shared

end Exploration
