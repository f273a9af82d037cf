import Mathlib
import Exploration.Proofs.SettingsLayers

/-!
# Settings as they are loaded

Two documents and the variables make up three layers (`Settings.fileLayer_leaves`,
`Settings.variableLayer_leaves`). So each leaf of the settings that are loaded is what the topmost
of them makes it, whatever is said about other leaves or about what is no leaf, and one that cannot
be read matters only if it is the topmost (`Sources.load_leaves`).
-/

namespace Exploration

/-! ## Documents -/

/-- Whether a text is a document in which the sections of the settings are records. -/
def Settings.isDocument (text : String) : Bool := (Yaml.read text).any hasSections

/-- What a document sets a leaf to. -/
def Leaf.inDocument (leaf : Leaf) (text : Option String) : Option Value :=
  (text.bind Yaml.read).bind fun fields => leaf.last? (.record fields)

theorem Settings.fileLayer_leaves {text : Option String} (h : ∀ s ∈ text, isDocument s = true) :
    ∃ v, fileLayer text = .ok v ∧ v.IsLayer ∧ ∀ leaf : Leaf,
      (leaf.value? v).map (read : Value → Option leaf.Content) =
        (leaf.inDocument text).map read := by
  cases text with
  | none => exact ⟨_, rfl, isLayer_sorted (by decide), fun leaf => leaf.map_read_sorted _⟩
  | some s =>
    obtain ⟨fields, hread, hfields⟩ := (Option.any_eq_true _ _).1 (h s rfl)
    refine ⟨_, ?_, isLayer_sorted hfields, fun leaf => ?_⟩
    · rw [fileLayer, Option.elim_some, hread]
    · rw [leaf.map_read_sorted, Leaf.inDocument, Option.bind_some, hread, Option.bind_some]

/-! ## Variables -/

/-- Whether a variable sets one field of one section, if any section of the settings at all. -/
def Settings.isNamed (name : String) : Bool :=
  (Variables.path? name).all fun
    | part :: rest =>
      rest.length = 1 || !(sectionSizes.map (·.1)).contains (String.ofList part)
    | [] => false

/-- Whether a variable sets a leaf. -/
def Leaf.isNamedBy (leaf : Leaf) (name : String) : Bool :=
  Variables.path? name = some [leaf.part.toList, leaf.name.toList]

/-- What the variables set a leaf to. Should several be for it, the last counts. -/
def Leaf.inVariables (leaf : Leaf) (named : List (String × String)) : Option Value :=
  named.reverse.findSome? fun v =>
    if leaf.isNamedBy v.1 then some (Variables.read v.2) else none

/-- The name of the variable for a leaf in lower case. -/
def Leaf.variableName (leaf : Leaf) : List Char :=
  Variables.start ++ leaf.part.toList ++ '_' :: '_' :: leaf.name.toList

theorem Text.trim_of_forall {cs : List Char} (h : ∀ c ∈ cs, isBlank c = false) : trim cs = cs := by
  have hdrop : ∀ cs : List Char, (∀ c ∈ cs, isBlank c = false) → cs.dropWhile isBlank = cs := by
    intro cs h
    cases cs with
    | nil => rfl
    | cons c rest => rw [List.dropWhile_cons_of_neg (by simp [h c List.mem_cons_self])]
  rw [trim, hdrop cs h, hdrop _ fun c hc => h c (List.mem_reverse.1 hc), List.reverse_reverse]

theorem Text.toLower_of_isBlank {c : Char} (h : isBlank c = true) : c.toLower = c := by
  unfold Char.toLower
  split_ifs with hupper
  · have hlow : 65 ≤ c.toNat := hupper.1
    have hhigh : c.toNat ≤ 90 := hupper.2
    have hne : ∀ d : Char, d.toNat < 65 ∨ 90 < d.toNat → c ≠ d := by
      rintro d hd rfl
      omega
    simp [isBlank, Char.le_def, UInt32.le_iff_toNat_le, hne] at h
    omega
  · rfl

theorem Leaf.isNamedBy_of_spelling (leaf : Leaf) {name : String}
    (h : name.toList.map Char.toLower = leaf.variableName) : leaf.isNamedBy name = true := by
  have hblank : leaf.variableName.any Text.isBlank = false := by
    cases leaf <;> decide +kernel
  have htrim : Text.trim name.toList = name.toList := by
    refine Text.trim_of_forall fun c hc => ?_
    by_contra hc'
    rw [Bool.not_eq_false] at hc'
    have hmem : c ∈ leaf.variableName := by
      rw [← h]
      exact List.mem_map.2 ⟨c, hc, Text.toLower_of_isBlank hc'⟩
    exact absurd (List.any_eq_true.2 ⟨c, hmem, hc'⟩) (by simp [hblank])
  rw [isNamedBy, Variables.path?, htrim, h]
  cases leaf <;> decide +kernel

namespace Settings

theorem nil_notMem_of_path? {name : String} {parts : List (List Char)}
    (h : Variables.path? name = some parts) : [] ∉ parts := by
  simp only [Variables.path?] at h
  split_ifs at h with hstart hempty
  cases h
  simpa using hempty

theorem nest_cons {part : List Char} (h : part ≠ []) (v : Value) (rest : List (List Char)) :
    v.nest (part :: rest) = .record [(String.ofList part, v.nest rest)] := by
  cases part with
  | nil => exact absurd rfl h
  | cons c cs => rfl

theorem isMap_singleton (key : String) (v : Value) : (Value.record [(key, v)]).IsMap :=
  ⟨_, rfl, List.pairwise_singleton ..⟩

theorem field?_singleton (key q : String) (v : Value) :
    (Value.record [(key, v)]).field? q = if q = key then some v else none :=
  StringMap.lookup_cons q key v []

theorem eq_ofList {s : String} {cs : List Char} : s = String.ofList cs ↔ cs = s.toList := by
  rw [← String.toList_inj, String.toList_ofList, eq_comm]

/-- What a variable sets is a layer with this one field. -/
theorem setting?_leaves {name : String} (h : isNamed name = true) (text : String) :
    (∀ v ∈ Variables.setting? name text, v.IsLayer) ∧ ∀ leaf : Leaf,
      (Variables.setting? name text).bind leaf.value? =
        if leaf.isNamedBy name then some (Variables.read text) else none := by
  cases hpath : Variables.path? name with
  | none => simp [Variables.setting?, hpath, Leaf.isNamedBy]
  | some parts =>
    have hne := nil_notMem_of_path? hpath
    simp only [Variables.setting?, Leaf.isNamedBy, hpath, Option.map_some, Option.mem_some_iff,
      forall_eq', Option.bind_some, Option.some.injEq, decide_eq_true_eq]
    rw [isNamed, hpath, Option.all_some] at h
    rcases parts with _ | ⟨part, rest⟩
    · cases h
    rw [nest_cons (List.ne_of_not_mem_cons hne).symm]
    by_cases hpart : String.ofList part ∈ sectionSizes.map (·.1)
    · obtain ⟨field, rfl⟩ : ∃ field, rest = [field] := by
        simpa [hpart, List.length_eq_one_iff] using h
      have hfield : field ≠ [] := by
        rintro rfl
        simp at hne
      rw [nest_cons hfield]
      refine ⟨⟨isMap_singleton _ _, fun key hkey w hw => ?_⟩, fun leaf => ?_⟩
      · rw [field?_singleton] at hw
        split_ifs at hw
        cases hw
        exact isMap_singleton _ _
      · rw [Leaf.value?, field?_singleton]
        by_cases hleaf : leaf.part = String.ofList part
        · rw [if_pos hleaf, Option.bind_some, field?_singleton]
          exact if_congr (by simp [eq_ofList.1 hleaf, eq_ofList]) rfl rfl
        · rw [if_neg hleaf, if_neg (by simp [← eq_ofList, hleaf])]
          rfl
    · refine ⟨⟨isMap_singleton _ _, fun key hkey w hw => ?_⟩, fun leaf => ?_⟩
      · rw [field?_singleton] at hw
        split_ifs at hw with heq
        exact absurd (heq ▸ hkey) hpart
      · have hleaf : leaf.part ≠ String.ofList part := fun heq => hpart (heq ▸ leaf.part_mem)
        rw [Leaf.value?, field?_singleton, if_neg hleaf, if_neg (by simp [← eq_ofList, hleaf])]
        rfl

theorem variableLayer_leaves {named : List (String × String)}
    (h : ∀ v ∈ named, isNamed v.1 = true) :
    (variableLayer named).IsLayer ∧ ∀ leaf : Leaf,
      (leaf.value? (variableLayer named)).map (read : Value → Option leaf.Content) =
        (leaf.inVariables named).map read := by
  have hempty : (Value.record []).IsLayer :=
    ⟨⟨_, rfl, .nil⟩, fun name hname w hw => by cases hw⟩
  have hlayers : ∀ u ∈ named.filterMap fun v => Variables.setting? v.1 v.2, u.IsLayer := by
    intro u hu
    obtain ⟨v, hv, hset⟩ := List.mem_filterMap.1 hu
    exact (setting?_leaves (h v hv) v.2).1 u hset
  refine ⟨hempty.coverAll hlayers, fun leaf => ?_⟩
  have hone : ∀ v ∈ named.reverse, (Variables.setting? v.1 v.2).bind leaf.value? =
      if leaf.isNamedBy v.1 then some (Variables.read v.2) else none := fun v hv =>
    (setting?_leaves (h v (List.mem_reverse.1 hv)) v.2).2 leaf
  have hnone : leaf.value? (.record []) = none := rfl
  rw [variableLayer, leaf.map_read_coverAll hempty hlayers, hnone, Option.or_none,
    ← List.filterMap_reverse, ← List.head?_filterMap, List.filterMap_filterMap,
    List.filterMap_congr hone, List.head?_filterMap, Leaf.inVariables]

theorem check_eq_ok {s t : Settings} (h : check s = .ok t) : s = t := by
  unfold check at h
  split at h
  · cases h
  · exact Except.ok.inj h

theorem check_ne_unreadable (s : Settings) : check s ≠ .error .unreadable := by
  unfold check
  split
  · rename_i e he
    obtain ⟨o, ho, rfl⟩ := List.exists_of_findSome?_eq_some he
    intro heq
    cases heq
    simp [refusals, counts] at ho
  · simp

theorem eq_record_of_fileLayer {text : Option String} {v : Value} (h : fileLayer text = .ok v) :
    ∃ fields, v = .record fields := by
  unfold fileLayer at h
  split at h
  · cases h
    exact ⟨_, by rw [Value.sorted]⟩
  · cases h

/-- To load one file is to load it as the file of the project with nothing beside it. -/
theorem ofFile_eq_load (text : Option String) {named : List (String × String)}
    (h : ∀ v ∈ named, Variables.path? v.1 = none) : ofFile text = load text none named := by
  have hnamed : named.filterMap (fun v => Variables.setting? v.1 v.2) = [] := by
    rw [List.filterMap_eq_nil_iff]
    intro v hv
    rw [Variables.setting?, h v hv]
    rfl
  have hlayer : fileLayer none = .ok (.record []) := by
    rw [fileLayer, Option.elim_none]
    rfl
  rw [ofFile, load, hlayer, variableLayer, hnamed]
  cases htext : fileLayer text with
  | error e => rfl
  | ok v =>
    obtain ⟨fields, rfl⟩ := eq_record_of_fileLayer htext
    show ofLayers [.record fields] = ofLayers [.record fields, .record [], .record []]
    simp [ofLayers, Value.coverAll, Value.cover, Value.coverFields, write, Value.sorted]

end Settings

/-! ## All sources -/

/-- What settings are loaded from: the document of the project, the local one, and the variables. -/
structure Sources where
  project : Option String
  personal : Option String
  named : List (String × String)

namespace Sources

def load (i : Sources) : Except SettingsError Settings :=
  Settings.load i.project i.personal i.named

/-- Documents that are there have sections, and variables set fields of sections. -/
structure Sectioned (i : Sources) : Prop where
  project : ∀ s ∈ i.project, Settings.isDocument s = true
  personal : ∀ s ∈ i.personal, Settings.isDocument s = true
  named : ∀ v ∈ i.named, Settings.isNamed v.1 = true

/-- What the topmost source that says anything about a leaf sets it to. -/
def topmost (i : Sources) (leaf : Leaf) : Option Value :=
  (leaf.inVariables i.named).or ((leaf.inDocument i.personal).or (leaf.inDocument i.project))

/-- Each leaf of the settings is what the topmost source that says anything about it makes it, and
its default if none does. -/
def Sets (i : Sources) (s : Settings) : Prop :=
  ∀ leaf, orElse (({} : Settings).get leaf) (i.topmost leaf) = some (s.get leaf)

variable {i j : Sources}

/-- There is nothing to settings beside their leaves. -/
theorem Sets.unique {s t : Settings} (hs : i.Sets s) (ht : i.Sets t) : s = t := by
  have hget : s.get = t.get := funext fun leaf => Option.some.inj ((hs leaf).symm.trans (ht leaf))
  rw [← Settings.ofLeaves_get s, hget, Settings.ofLeaves_get]

theorem load_eq (h : i.Sectioned) :
    (∀ s, i.Sets s → i.load = s.check) ∧
    ∀ leaf, orElse (({} : Settings).get leaf) (i.topmost leaf) = none →
      i.load = .error .unreadable := by
  obtain ⟨u, hu, hul, hleafu⟩ := Settings.fileLayer_leaves h.project
  obtain ⟨v, hv, hvl, hleafv⟩ := Settings.fileLayer_leaves h.personal
  obtain ⟨hwl, hleafw⟩ := Settings.variableLayer_leaves h.named
  have hload : i.load = Settings.ofLayers [u, v, Settings.variableLayer i.named] := by
    rw [load, Settings.load, hu, hv]
    rfl
  have hlayers : ∀ x ∈ [u, v, Settings.variableLayer i.named], x.IsLayer := by
    simp [hul, hvl, hwl]
  have htop : ∀ leaf : Leaf, orElse (({} : Settings).get leaf)
      ([u, v, Settings.variableLayer i.named].reverse.findSome? leaf.value?) =
        orElse (({} : Settings).get leaf) (i.topmost leaf) := by
    intro leaf
    have hreverse : [u, v, Settings.variableLayer i.named].reverse =
        [Settings.variableLayer i.named] ++ ([v] ++ [u]) := rfl
    refine orElse_congr ?_
    rw [hreverse, List.findSome?_append, List.findSome?_append, List.findSome?_singleton,
      List.findSome?_singleton, List.findSome?_singleton, topmost, Option.map_or, Option.map_or,
      hleafu, hleafv, hleafw, Option.map_or, Option.map_or]
  rw [hload]
  exact ⟨fun s hs => Settings.ofLayers_eq_check hlayers fun leaf => (htop leaf).trans (hs leaf),
    fun leaf hnone => Settings.ofLayers_eq_unreadable hlayers ((htop leaf).trans hnone)⟩

/-- What is loaded is settled leaf by leaf, and then checked as a whole. What cannot be read matters
only where nothing covers it, and nothing that is said about anything else matters. -/
structure LoadsLeaves (i : Sources) : Prop where
  ok_iff : ∀ s, i.load = .ok s ↔ i.Sets s ∧ s.check = .ok s
  unique : ∀ s t, i.Sets s → i.Sets t → s = t
  checked : ∀ s, i.Sets s → i.load = s.check
  unreadable_iff : i.load = .error .unreadable ↔
    ∃ leaf v, i.topmost leaf = some v ∧ (read v : Option leaf.Content) = none
  congr : ∀ j : Sources, j.Sectioned → (∀ leaf, j.topmost leaf = i.topmost leaf) → j.load = i.load

theorem loadsLeaves (h : i.Sectioned) : i.LoadsLeaves := by
  have hcases := fun i : Sources =>
    Settings.exists_get_or fun leaf => orElse (({} : Settings).get leaf) (i.topmost leaf)
  obtain ⟨hcheck, hunreadable⟩ := load_eq h
  refine ⟨fun s => ⟨fun hs => ?_, fun ⟨hleaf, hs⟩ => (hcheck s hleaf).trans hs⟩,
    fun _ _ => Sets.unique, hcheck, ⟨fun hnone => ?_, ?_⟩, fun j hj htop => ?_⟩
  · obtain ⟨t, ht⟩ | ⟨leaf, hleaf⟩ := hcases i
    · rw [hcheck t ht] at hs
      obtain rfl := Settings.check_eq_ok hs
      exact ⟨ht, hs⟩
    · rw [hunreadable leaf hleaf] at hs
      cases hs
  · obtain ⟨t, ht⟩ | ⟨leaf, hleaf⟩ := hcases i
    · rw [hcheck t ht] at hnone
      exact absurd hnone t.check_ne_unreadable
    · exact ⟨leaf, orElse_eq_none.1 hleaf⟩
  · rintro ⟨leaf, hleaf⟩
    exact hunreadable leaf (orElse_eq_none.2 hleaf)
  · obtain ⟨hcheck', hunreadable'⟩ := load_eq hj
    obtain ⟨t, ht⟩ | ⟨leaf, hleaf⟩ := hcases i
    · rw [hcheck t ht, hcheck' t fun leaf => htop leaf ▸ ht leaf]
    · rw [hunreadable leaf hleaf, hunreadable' leaf (htop leaf ▸ hleaf)]

/-- The settings that are loaded are settled leaf by leaf by the topmost sources. The letters of the
name of a variable may be of either case, and to load one file is to load it as the file of the
project with nothing beside it. -/
theorem load_leaves (i : Sources) (h : i.Sectioned) :
    i.LoadsLeaves ∧
    (∀ (leaf : Leaf) (name : String), name.toList.map Char.toLower = leaf.variableName →
      leaf.isNamedBy name = true) ∧
    ∀ text named, (∀ v ∈ named, Variables.path? v.1 = none) →
      Settings.ofFile text = Settings.load text none named :=
  ⟨loadsLeaves h, fun leaf _ => leaf.isNamedBy_of_spelling,
    fun text _ => Settings.ofFile_eq_load text⟩

/-- A document that the local one corrects, with a variable and with what sets nothing. -/
def corrected : Sources where
  project := some "cycle:\n  max_runs: many\n  mood: 1\n"
  personal := some "cycle:\n  max_runs: 7\n"
  named := [("Footprint_Sampling__Recency_Penalty", "0.2"), ("FOOTPRINT_MOOD", "dark")]

/-- The count of runs that is none is an error only without the local document. -/
theorem load_leaves_corrected : corrected.Sectioned ∧
    corrected.load = .ok { cycle := { maxRuns := 7 }, sampling := { recencyPenalty := 0.2 } } ∧
    { corrected with personal := none }.load = .error .unreadable := by
  have h : corrected.Sectioned := ⟨by decide +kernel, by decide +kernel, by decide +kernel⟩
  have hpersonal : { corrected with personal := none }.Sectioned :=
    ⟨h.project, by decide, h.named⟩
  have hruns : orElse (({} : Settings).get .maxRuns)
      ({ corrected with personal := none : Sources }.topmost .maxRuns) = none := by decide +kernel
  have hrefusals : ({ cycle := { maxRuns := 7 }, sampling := { recencyPenalty := 0.2 } } :
      Settings).refusals.findSome? id = none := by decide +kernel
  refine ⟨h, ((load_leaves _ h).1.ok_iff _).2 ⟨fun leaf => ?_, ?_⟩,
    (load_leaves _ hpersonal).1.unreadable_iff.2 ⟨.maxRuns, orElse_eq_none.1 hruns⟩⟩
  · cases leaf <;> decide +kernel
  · rw [Settings.check, hrefusals]

end Sources

end Exploration
