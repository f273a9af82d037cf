import Mathlib
import Exploration.Proofs.Additions
import Exploration.Proofs.Loading

/-!
# The latest version

The latest strategy of an archive is the one of the highest version (`latest_latestStrategy?`), and
a strategy that may be saved is the latest one after that. From the moment it is opened an archive
knows of the highest version that a file name stands for, whatever is in the file
(`latestVersion_loaded`).
-/

namespace Exploration

/-! ## The pick of a list -/

/-- The one that is `P`-related to all, if there are any. -/
def Picked {α : Type} (P : α → α → Prop) (xs : List α) : Option α → Prop
  | none => xs = []
  | some b => b ∈ xs ∧ ∀ x ∈ xs, P b x

/-- Each one in turn is passed over, or takes the place of the pick and of all it stands for. -/
theorem picked_foldl {α : Type} {P : α → α → Prop} {pick : Option α → α → Option α}
    (hself : ∀ x, P x x) (hnone : ∀ x, pick none x = some x)
    (hsome : ∀ b x, (pick (some b) x = some b ∧ P b x) ∨
      (pick (some b) x = some x ∧ ∀ y, P b y → P x y)) (xs : List α) :
    Picked P xs (xs.foldl pick none) := by
  induction xs using List.reverseRecOn with
  | nil => rfl
  | append_singleton xs x ih =>
    rw [List.foldl_concat]
    revert ih
    generalize List.foldl pick none xs = picked
    intro ih
    rcases picked with _ | b
    · obtain rfl : xs = [] := ih
      rw [hnone]
      exact ⟨List.mem_singleton_self x, by simpa using hself x⟩
    · obtain ⟨hmem, hall⟩ := ih
      rcases hsome b x with ⟨hpick, hx⟩ | ⟨hpick, hover⟩ <;> rw [hpick]
      · refine ⟨List.mem_append_left _ hmem, List.forall_mem_append.2 ⟨hall, ?_⟩⟩
        simpa using hx
      · refine ⟨by simp, List.forall_mem_append.2 ⟨fun y hy => hover y (hall y hy), ?_⟩⟩
        simpa using hself x

/-! ## The latest version -/

namespace Archive

/-- The strategy of the highest version among some, if there are any. -/
def Latest (strategies : List Strategy) : Option Strategy → Prop
  | none => strategies = []
  | some s => s ∈ strategies ∧ ∀ l ∈ strategies, l.version ≤ s.version

theorem latest_latestStrategy? (a : Archive) : Latest a.strategies a.latestStrategy? := by
  have hpicked : Picked (fun s l => l.version ≤ s.version) a.strategies a.latestStrategy? := by
    refine picked_foldl (P := fun s l : Strategy => l.version ≤ s.version)
      (fun _ => UInt32.le_refl _) (fun _ => rfl) (fun l s => ?_) a.strategies
    by_cases h : l.version ≤ s.version
    · exact Or.inr ⟨if_pos h, fun k hk => UInt32.le_trans hk h⟩
    · exact Or.inl ⟨if_neg h, (UInt32.le_total _ _).resolve_left h⟩
  revert hpicked
  cases a.latestStrategy? <;> exact id

theorem latestStrategy?_mem {a : Archive} {s : Strategy} (h : a.latestStrategy? = some s) :
    s ∈ a.strategies := by
  have hlatest := a.latest_latestStrategy?
  rw [h] at hlatest
  exact hlatest.1

theorem version_le_latestVersion {a : Archive} {s : Strategy} (h : a.latestStrategy? = some s) :
    s.version ≤ a.latestVersion := by
  rw [UInt32.le_iff_toNat_le, latestVersion, h, UInt32.toNat_max]
  exact le_max_left _ _

theorem le_latestVersion {a : Archive} {s : Strategy} (h : s ∈ a.strategies) :
    s.version ≤ a.latestVersion := by
  have hlatest := a.latest_latestStrategy?
  rcases hl : a.latestStrategy? with _ | l <;> rw [hl] at hlatest
  · have hnone : a.strategies = [] := hlatest
    rw [hnone] at h
    cases h
  · exact UInt32.le_trans (hlatest.2 s h) (version_le_latestVersion hl)

variable {a : Archive} {s : Strategy}

/-- A strategy that may be saved is the latest one after that. -/
theorem latestStrategy?_withStrategy (h : ¬ s.version ≤ a.latestVersion) :
    (a.withStrategy s).latestStrategy? = some s := by
  have hle : ∀ l ∈ a.latestStrategy?, l.version ≤ a.latestVersion := fun l hl =>
    version_le_latestVersion hl
  unfold latestStrategy? at hle ⊢
  simp only [withStrategy]
  rw [List.foldl_append, List.foldl_cons, List.foldl_nil]
  split
  · rename_i l hl
    have hl := hle l hl
    rw [UInt32.le_iff_toNat_le] at h hl
    rw [if_pos (UInt32.le_iff_toNat_le.2 (by omega))]
  · rfl

theorem latestVersion_withStrategy (h : ¬ s.version ≤ a.latestVersion) :
    (a.withStrategy s).latestVersion = s.version := by
  have hreserved : a.reserved.toNat ≤ a.latestVersion.toNat := by
    rw [latestVersion, UInt32.toNat_max]
    exact le_max_right _ _
  have hlatest := latestStrategy?_withStrategy h
  rw [UInt32.le_iff_toNat_le] at h
  rw [latestVersion, hlatest]
  refine UInt32.toNat_inj.1 ?_
  simp only [Option.elim_some, withStrategy, UInt32.toNat_max]
  omega

theorem latestStrategy?_of_ascending (h : a.strategies.Pairwise (·.version < ·.version)) :
    a.latestStrategy? = a.strategies.getLast? := by
  have hlatest := a.latest_latestStrategy?
  rcases List.eq_nil_or_concat' a.strategies with hnone | ⟨before, s, hs⟩
  · rw [latestStrategy?, hnone]
    rfl
  · rw [hs, List.getLast?_concat]
    rcases hl : a.latestStrategy? with _ | l <;> rw [hl, hs] at hlatest
    · exact absurd hlatest (List.append_ne_nil_of_right_ne_nil _ (List.cons_ne_nil _ _))
    · obtain ⟨hmem, hle⟩ := hlatest
      rw [hs] at h
      rcases List.mem_append.1 hmem with hold | hlast
      · have hlt := (List.pairwise_append.1 h).2.2 l hold s (List.mem_singleton_self s)
        exact absurd (hle s (by simp)) (UInt32.not_le.2 hlt)
      · rw [List.mem_singleton.1 hlast]

/-- The highest version that a name in the directory stands for, 0 if there is none. -/
def HighestVersion (directory : Path) (t : FileTree) (highest : Nat) : Prop :=
  IsGreatest {n | n = 0 ∨ ∃ e ∈ t.children (strategyDirectory directory), ∃ v,
    versionOfFile? e.1 = some v ∧ v.toNat = n} highest

theorem toNat_foldl_max (versions : List UInt32) :
    IsGreatest {n | n = 0 ∨ ∃ v ∈ versions, v.toNat = n} (versions.foldl max 0).toNat := by
  have hfold : ∀ (versions : List UInt32) (v : UInt32),
      IsGreatest {n | n = v.toNat ∨ ∃ w ∈ versions, w.toNat = n} (versions.foldl max v).toNat := by
    intro versions
    induction versions with
    | nil => intro v; simp [IsGreatest, upperBounds]
    | cons w versions ih =>
      intro v
      obtain ⟨hmem, hupper⟩ := ih (max v w)
      rw [List.foldl_cons]
      refine ⟨?_, ?_⟩
      · rcases hmem with h | ⟨u, hu, h⟩
        · rw [UInt32.toNat_max] at h
          rcases max_choice v.toNat w.toNat with hm | hm
          · exact Or.inl (h.trans hm)
          · exact Or.inr ⟨w, List.mem_cons_self, (h.trans hm).symm⟩
        · exact Or.inr ⟨u, List.mem_cons_of_mem _ hu, h⟩
      · have hmax := hupper (Or.inl rfl)
        rw [UInt32.toNat_max] at hmax
        rintro n (rfl | ⟨u, hu, rfl⟩)
        · omega
        · rcases List.mem_cons.1 hu with rfl | hu
          · omega
          · exact hupper (Or.inr ⟨u, hu, rfl⟩)
  exact hfold versions 0

theorem reservedVersion_listing (t : FileTree) (directory : Path) :
    reservedVersion (listing t directory) =
      ((t.children directory).filterMap fun e => versionOfFile? e.1).foldl max 0 := by
  unfold reservedVersion listing
  rw [List.filterMap_map]
  refine congrArg (List.foldl max 0) (List.filterMap_congr fun e _ => ?_)
  simp only [Function.comp]
  split <;> rfl

theorem mem_load_strategies {sampling : SamplingSettings} {root : Path} {subject : String}
    {t : FileTree} {s : Strategy} (h : s ∈ (loaded sampling root subject t).strategies) :
    ∃ e ∈ t.children (strategyDirectory (subject :: root)),
      versionOfFile? e.1 = some s.version := by
  obtain ⟨file, hfile, hs⟩ := List.mem_filterMap.1 (List.mem_mergeSort.1 h)
  have hname := List.mem_map_of_mem (f := Prod.fst) hfile
  rw [map_fst_listing] at hname
  obtain ⟨e, he, hfst⟩ := List.mem_map.1 hname
  exact ⟨e, he, hfst ▸ versionOfFile?_of_stored hs⟩

theorem highestVersion_reservedVersion (t : FileTree) (directory : Path) :
    HighestVersion directory t
      (reservedVersion (listing t (strategyDirectory directory))).toNat := by
  have hname : ∀ n, (∃ v ∈ (t.children (strategyDirectory directory)).filterMap
      fun e => versionOfFile? e.1, v.toNat = n) ↔
      ∃ e ∈ t.children (strategyDirectory directory), ∃ v,
        versionOfFile? e.1 = some v ∧ v.toNat = n := by
    intro n
    simp only [List.mem_filterMap]
    constructor
    · rintro ⟨v, ⟨e, he, hv⟩, rfl⟩
      exact ⟨e, he, v, hv, rfl⟩
    · rintro ⟨e, he, v, hv, rfl⟩
      exact ⟨v, ⟨e, he, hv⟩, rfl⟩
  have hmax := toNat_foldl_max ((t.children (strategyDirectory directory)).filterMap
    fun e => versionOfFile? e.1)
  simp only [hname] at hmax
  rw [← reservedVersion_listing] at hmax
  exact hmax

/-- An archive knows of the highest version with a file from the moment it is opened. -/
theorem latestVersion_loaded {sampling : SamplingSettings} {root : Path} {subject : String}
    {t : FileTree} {highest : Nat} (h : HighestVersion (subject :: root) t highest) :
    (loaded sampling root subject t).latestVersion.toNat = highest := by
  have hreserved : (loaded sampling root subject t).reserved.toNat = highest :=
    (highestVersion_reservedVersion t (subject :: root)).unique h
  rw [latestVersion, UInt32.toNat_max, hreserved]
  refine max_eq_right ?_
  rcases hs : (loaded sampling root subject t).latestStrategy? with _ | s
  · exact Nat.zero_le _
  · obtain ⟨e, he, hv⟩ := mem_load_strategies (latestStrategy?_mem hs)
    exact h.2 (Or.inr ⟨e, he, _, hv, rfl⟩)

theorem le_latestVersion_loaded {sampling : SamplingSettings} {root : Path} {subject : String}
    {t : FileTree} {e : String × Entry} {v : UInt32}
    (he : e ∈ t.children (strategyDirectory (subject :: root)))
    (hv : versionOfFile? e.1 = some v) : v ≤ (loaded sampling root subject t).latestVersion := by
  have hhighest := highestVersion_reservedVersion t (subject :: root)
  rw [UInt32.le_iff_toNat_le, latestVersion_loaded hhighest]
  exact hhighest.2 (Or.inr ⟨e, he, v, hv, rfl⟩)

end Archive

end Exploration
