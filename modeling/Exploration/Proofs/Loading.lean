import Mathlib
import Exploration.Archive
import Exploration.Proofs.Digits
import Exploration.Proofs.FileTree
import Exploration.Proofs.RecordRoundTrip

/-!
# What an archive loads

A record's file is named for its run id or version and holds its text. An archive loads from such a
file the record itself (`storedTrace?_file`, `storedStrategy?_file`), and it can be opened where its
two directories are there or can be made (`openAt_opening`).
-/

namespace Exploration

/-! ## Names -/

theorem between?_append (start ending stem : List Char) :
    between? start ending (start ++ stem ++ ending) = some stem := by
  have hsuffix : ending.isSuffixOf (start ++ stem ++ ending) = true :=
    List.isSuffixOf_iff_suffix.2 (List.suffix_append _ _)
  have htake : (start ++ stem ++ ending).take ((start ++ stem ++ ending).length - ending.length) =
      start ++ stem := by
    have hlength : (start ++ stem ++ ending).length - ending.length = (start ++ stem).length := by
      rw [List.length_append, Nat.add_sub_cancel]
    rw [hlength, List.take_left]
  have hprefix : start.isPrefixOf (start ++ stem) = true :=
    List.isPrefixOf_iff_prefix.2 (List.prefix_append _ _)
  simp only [between?, hsuffix, if_true, htake, hprefix, List.drop_left]

theorem runIdOfFile?_traceFile (runId : String) : runIdOfFile? (traceFile runId) = some runId := by
  simp only [runIdOfFile?, traceFile, String.toList_ofList, between?_append, Option.map_some,
    String.ofList_toList]

theorem readVersion_digits (version : UInt32) :
    readVersion (Decimal.digits version.toNat) = some version := by
  have hplus : (Decimal.digits version.toNat).head? ≠ some '+' := by
    intro h
    have := Decimal.isDigit_of_mem_digits (List.mem_of_mem_head? h)
    exact absurd this (by decide)
  simp only [readVersion, if_neg hplus, Decimal.ofDigits?_digits, Option.bind_eq_bind,
    Option.bind_some]
  rw [if_pos version.toNat_lt, UInt32.ofNat_toNat]

theorem versionOfFile?_strategyFile (version : UInt32) :
    versionOfFile? (strategyFile version) = some version := by
  simp only [versionOfFile?, strategyFile, String.toList_ofList, between?_append, Option.bind_some,
    readVersion_digits]

theorem traceFile_injective {r s : String} (h : traceFile r = traceFile s) : r = s := by
  have := runIdOfFile?_traceFile r
  rwa [h, runIdOfFile?_traceFile, Option.some.injEq, eq_comm] at this

theorem eq_of_between? {start ending cs stem : List Char}
    (h : between? start ending cs = some stem) : cs = start ++ stem ++ ending := by
  simp only [between?, Option.ite_none_right_eq_some, Option.some.injEq] at h
  obtain ⟨hsuffix, hprefix, rfl⟩ := h
  obtain ⟨front, rfl⟩ := List.isSuffixOf_iff_suffix.1 hsuffix
  rw [List.length_append, Nat.add_sub_cancel, List.take_left] at hprefix ⊢
  obtain ⟨rest, rfl⟩ := List.isPrefixOf_iff_prefix.1 hprefix
  rw [List.drop_left]

/-- A run id is in the name of no file but its own. -/
theorem eq_traceFile {name runId : String} (h : runIdOfFile? name = some runId) :
    name = traceFile runId := by
  obtain ⟨stem, hstem, rfl⟩ := Option.map_eq_some_iff.1 h
  rw [traceFile, String.toList_ofList, ← eq_of_between? hstem, String.ofList_toList]

/-! ## Files -/

/-- The entry of a trace in the directory of the traces. -/
def Trace.file (t : Trace) : String × Entry := (traceFile t.runId, .file (some t.encode))

/-- The entry of a strategy in the directory of the strategies. -/
def Strategy.file (s : Strategy) : String × Entry :=
  (strategyFile s.version, .file (some s.encode))

theorem storedTrace?_eq_some {file : String × Option String} {trace : Trace} :
    storedTrace? file = some trace ↔ ∃ text, file.2 = some text ∧
      runIdOfFile? file.1 = some trace.runId ∧ Trace.decode text = some trace := by
  simp only [storedTrace?, Option.bind_eq_bind, Option.bind_eq_some_iff,
    Option.ite_none_right_eq_some, Option.some.injEq]
  constructor
  · rintro ⟨runId, hname, text, htext, _, hdecode, rfl, rfl⟩
    exact ⟨text, htext, hname, hdecode⟩
  · rintro ⟨text, htext, hname, hdecode⟩
    exact ⟨_, hname, text, htext, _, hdecode, rfl, rfl⟩

theorem storedStrategy?_eq_some {file : String × Option String} {s : Strategy} :
    storedStrategy? file = some s ↔ ∃ text, file.2 = some text ∧
      versionOfFile? file.1 = some s.version ∧ Strategy.decode text = some s := by
  simp only [storedStrategy?, Option.bind_eq_bind, Option.bind_eq_some_iff,
    Option.ite_none_right_eq_some, Option.some.injEq]
  constructor
  · rintro ⟨version, hname, text, htext, _, hdecode, rfl, rfl⟩
    exact ⟨text, htext, hname, hdecode⟩
  · rintro ⟨text, htext, hname, hdecode⟩
    exact ⟨_, hname, text, htext, _, hdecode, rfl, rfl⟩

theorem storedTrace?_file {t : Trace} (h : t.Storable) :
    storedTrace? (traceFile t.runId, some t.encode) = some t :=
  storedTrace?_eq_some.2 ⟨_, rfl, runIdOfFile?_traceFile _, Trace.decode_encode h⟩

theorem storedStrategy?_file {s : Strategy} (h : s.Storable) :
    storedStrategy? (strategyFile s.version, some s.encode) = some s :=
  storedStrategy?_eq_some.2 ⟨_, rfl, versionOfFile?_strategyFile _, Strategy.decode_encode h⟩

theorem runIdOfFile?_of_stored {file : String × Option String} {t : Trace}
    (h : storedTrace? file = some t) : runIdOfFile? file.1 = some t.runId := by
  obtain ⟨-, -, hname, -⟩ := storedTrace?_eq_some.1 h
  exact hname

theorem versionOfFile?_of_stored {file : String × Option String} {s : Strategy}
    (h : storedStrategy? file = some s) : versionOfFile? file.1 = some s.version := by
  obtain ⟨-, -, hname, -⟩ := storedStrategy?_eq_some.1 h
  exact hname

namespace Archive

theorem map_fst_listing (t : FileTree) (directory : Path) :
    (listing t directory).map (·.1) = (t.children directory).map (·.1) := by
  unfold listing
  rw [List.map_map]
  refine List.map_congr_left fun e _ => ?_
  simp only [Function.comp]
  split <;> rfl

theorem nodup_listing (t : FileTree) (directory : Path) :
    ((listing t directory).map (·.1)).Nodup := by
  rw [map_fst_listing]
  exact t.nodup_children directory

/-- The records that are loaded from a directory with new files are those of before and the new
ones. -/
theorem listing_filterMap_perm {α : Type} {t t' : FileTree} {directory : Path} {records : List α}
    {file : α → String × Entry} (stored? : String × Option String → Option α)
    (hfile : ∀ x ∈ records, ∃ name text, file x = (name, .file (some text)) ∧
      stored? (name, some text) = some x)
    (h : (t'.children directory).Perm (t.children directory ++ records.map file)) :
    ((listing t' directory).filterMap stored?).Perm
      ((listing t directory).filterMap stored? ++ records) := by
  unfold listing
  refine ((h.map _).filterMap stored?).trans ?_
  rw [List.map_append, List.filterMap_append]
  refine List.Perm.append_left _ (List.Perm.of_eq ?_)
  rw [List.map_map, List.filterMap_map]
  refine (List.filterMap_congr fun x hx => ?_).trans List.filterMap_some
  obtain ⟨name, text, hx, hstored⟩ := hfile x hx
  simp only [Function.comp, hx, hstored]

/-! ## Opening -/

/-- The directories of the subject are there, or can be made. -/
structure Openable (root : Path) (subject : String) (t : FileTree) : Prop where
  name : usableName subject = true
  askable : FileTree.Askable (traceDirectory (subject :: root)) ∧
    FileTree.Askable (strategyDirectory (subject :: root))
  makeable : t.Makeable (traceDirectory (subject :: root)) ∧
    t.Makeable (strategyDirectory (subject :: root))

theorem openable_congr {root : Path} {subject : String} {t t' : FileTree}
    (h : ∀ part, t'.Makeable (part :: subject :: root) ↔ t.Makeable (part :: subject :: root)) :
    Openable root subject t' ↔ Openable root subject t :=
  ⟨fun ho => ⟨ho.name, ho.askable, (h _).1 ho.makeable.1, (h _).1 ho.makeable.2⟩,
    fun ho => ⟨ho.name, ho.askable, (h _).2 ho.makeable.1, (h _).2 ho.makeable.2⟩⟩

/-- What an archive loads of a tree. -/
def loaded (sampling : SamplingSettings) (root : Path) (subject : String) (t : FileTree) :
    Archive :=
  load subject (subject :: root) sampling (listing t (traceDirectory (subject :: root)))
    (listing t (strategyDirectory (subject :: root)))

variable {sampling : SamplingSettings} {root : Path} {subject : String}

/-- What an opening does to a tree, and what it answers. -/
structure Opening (sampling : SamplingSettings) (root : Path) (subject : String) (t : FileTree)
    (answer : Except Failure Archive) (t' : FileTree) : Prop where
  keeps : t.Keeps t'
  traces : t'.children (traceDirectory (subject :: root)) =
    t.children (traceDirectory (subject :: root))
  strategies : t'.children (strategyDirectory (subject :: root)) =
    t.children (strategyDirectory (subject :: root))
  makeable : ∀ path, t'.Makeable path ↔ t.Makeable path
  ok_iff : ∀ a, answer = .ok a ↔ Openable root subject t ∧ a = loaded sampling root subject t

/-- Directories are made and nothing else, and what is loaded was there before. -/
theorem openAt_opening (sampling : SamplingSettings) (root : Path) (subject : String)
    (t : FileTree) : Opening sampling root subject t (openAt sampling root subject t).1
      (openAt sampling root subject t).2 := by
  unfold openAt checkName
  by_cases hname : usableName subject = true
  · have h₁ := t.ensured (traceDirectory (subject :: root))
    simp only [if_pos hname]
    rcases he₁ : t.ensureDirectory (traceDirectory (subject :: root)) with ⟨_ | _, t₁⟩
    all_goals rw [he₁] at h₁
    · refine ⟨h₁.keeps, h₁.children _ le_rfl, h₁.children _ le_rfl, h₁.makeable, fun a => ?_⟩
      have hclosed : ¬ Openable root subject t := fun h =>
        Bool.false_ne_true (h₁.made_iff.2 ⟨h.askable.1, h.makeable.1⟩)
      simp only [reduceCtorEq, hclosed, false_and]
    · have h₂ := t₁.ensured (strategyDirectory (subject :: root))
      rcases he₂ : t₁.ensureDirectory (strategyDirectory (subject :: root)) with ⟨made, t₂⟩
      rw [he₂] at h₂
      have hkeeps : t.Keeps t₂ := h₁.keeps.trans h₂.keeps
      have hmakeable : ∀ path, t₂.Makeable path ↔ t.Makeable path := fun path =>
        (h₂.makeable path).trans (h₁.makeable path)
      have hchildren : ∀ part, t₂.children (part :: subject :: root) =
          t.children (part :: subject :: root) := fun part =>
        (h₂.children (part :: subject :: root) le_rfl).trans
          (h₁.children (part :: subject :: root) le_rfl)
      simp only [he₂]
      cases made
      · refine ⟨hkeeps, hchildren _, hchildren _, hmakeable, fun a => ?_⟩
        have hclosed : ¬ Openable root subject t := fun h =>
          Bool.false_ne_true (h₂.made_iff.2 ⟨h.askable.2, (h₁.makeable _).2 h.makeable.2⟩)
        simp only [reduceCtorEq, hclosed, false_and]
      · refine ⟨hkeeps, hchildren _, hchildren _, hmakeable, fun a => ?_⟩
        have hopenable : Openable root subject t :=
          ⟨hname, ⟨(h₁.made_iff.1 rfl).1, (h₂.made_iff.1 rfl).1⟩, (h₁.made_iff.1 rfl).2,
            (h₁.makeable _).1 (h₂.made_iff.1 rfl).2⟩
        have hloaded : loaded sampling root subject t₂ = loaded sampling root subject t := by
          simp only [loaded, listing, traceDirectory, strategyDirectory, hchildren]
        rw [← hloaded]
        simp only [Except.ok.injEq, hopenable, true_and, loaded, eq_comm]
  · simp only [if_neg hname]
    refine ⟨.refl t, rfl, rfl, fun _ => Iff.rfl, fun a => ?_⟩
    have hclosed : ¬ Openable root subject t := fun h => hname h.name
    simp only [reduceCtorEq, hclosed, false_and]

theorem eq_loaded_of_openAt {t opened : FileTree} {a : Archive}
    (h : openAt sampling root subject t = (.ok a, opened)) : a = loaded sampling root subject t :=
  (((openAt_opening sampling root subject t).ok_iff a).1 (congrArg Prod.fst h)).2

theorem openAt_of_openable {t : FileTree} (h : Openable root subject t)
    (sampling : SamplingSettings) : ∃ opened,
      openAt sampling root subject t = (.ok (loaded sampling root subject t), opened) :=
  ⟨_, Prod.ext (((openAt_opening sampling root subject t).ok_iff _).2 ⟨h, rfl⟩) rfl⟩

end Archive

/-! ## A vacant subject -/

/-- A tree with the directories of the subject `s` and nothing in them. -/
def vacantTree : FileTree :=
  ((FileTree.empty.ensureDirectory ["traces", "s"]).2.ensureDirectory ["strategies", "s"]).2

/-- What is loaded of it. -/
def vacantArchive : Archive := ⟨"s", ["s"], [], [], 0, {}⟩

theorem openAt_vacantTree :
    Archive.openAt {} [] "s" vacantTree = (.ok vacantArchive, vacantTree) := by
  have hload : Archive.loaded {} [] "s" vacantTree = vacantArchive := by
    have htraces : (Archive.listing vacantTree (Archive.traceDirectory ["s"])).filterMap
        storedTrace? = [] := rfl
    have hstrategies : (Archive.listing vacantTree (Archive.strategyDirectory ["s"])).filterMap
        storedStrategy? = [] := rfl
    rw [Archive.loaded, Archive.load, htraces, hstrategies, List.mergeSort_nil, List.mergeSort_nil]
    rfl
  rw [← hload]
  rfl

/-- The moment at which Unix time began. -/
def Time.epoch : Time.Instant := ⟨0, 0, by decide⟩

end Exploration
