import Mathlib
import Exploration.FileTree

/-!
# What a tree holds

What is found under a path, and what a directory lists, after an entry is put in, a file is
published or directories are made. A tree only grows by the last two (`publish_keeps`,
`ensureDirectory_keeps`): what is found under a path stays there.
-/

namespace Exploration

namespace FileTree

/-! ## Entries -/

theorem find?_erase_of_ne (t : FileTree) {path q : Path} (h : q ≠ path) :
    (t.erase path).find? q = t.find? q := by
  simp only [erase, find?]
  induction t.entries with
  | nil => rfl
  | cons e rest ih =>
    obtain ⟨p, e⟩ := e
    by_cases hp : p = path
    · subst hp
      rw [List.filter_cons_of_neg (by simp), ih, List.lookup_cons, beq_eq_false_iff_ne.2 h]
    · rw [List.filter_cons_of_pos (by simpa using hp), List.lookup_cons, List.lookup_cons, ih]

theorem find?_insert (t : FileTree) (path : Path) (e : Entry) (q : Path) :
    (t.insert path e).find? q = if q = path then some e else t.find? q := by
  by_cases h : q = path
  · subst h
    simp [insert, find?]
  · rw [if_neg h, ← t.find?_erase_of_ne h]
    simp only [insert, find?, List.lookup_cons, beq_eq_false_iff_ne.2 h]

theorem mem_entries (t : FileTree) {path : Path} {e : Entry} :
    (path, e) ∈ t.entries ↔ t.find? path = some e := by
  refine ⟨fun h => ?_, fun h => ?_⟩
  · obtain ⟨before, after, hs⟩ := List.append_of_mem h
    refine List.lookup_eq_some_iff.2 ⟨before, after, hs, fun p hp => ?_⟩
    have hd := t.distinct
    rw [hs, List.map_append, List.map_cons] at hd
    have hne := (List.nodup_append.1 hd).2.2 p.1 (List.mem_map_of_mem hp) path List.mem_cons_self
    simpa using Ne.symm hne
  · obtain ⟨before, after, hs, -⟩ := List.lookup_eq_some_iff.1 h
    simp [hs]

/-- A directory lists an entry just where the path to it leads to it. -/
theorem mem_children (t : FileTree) {path : Path} {name : String} {e : Entry} :
    (name, e) ∈ t.children path ↔ t.find? (name :: path) = some e := by
  rw [← mem_entries]
  simp only [children, List.mem_filterMap]
  constructor
  · rintro ⟨⟨q, e'⟩, hq, h⟩
    rcases q with _ | ⟨n, parent⟩
    · simp at h
    · simp only [Option.ite_none_right_eq_some, Option.some.injEq, Prod.mk.injEq] at h
      obtain ⟨rfl, rfl, rfl⟩ := h
      exact hq
  · intro h
    exact ⟨(name :: path, e), h, if_pos rfl⟩

theorem insert_entries {t : FileTree} {path : Path} (e : Entry) (h : t.find? path = none) :
    (t.insert path e).entries = (path, e) :: t.entries := by
  refine congrArg _ (List.filter_eq_self.2 fun q hq => ?_)
  have hne : path ≠ q.1 := bne_iff_ne.1 (List.lookup_eq_none_iff.1 h q hq)
  exact decide_eq_true hne.symm

/-- An entry under a new name stands first in its directory. -/
theorem children_insert_self {t : FileTree} {name : String} {parent : Path} (e : Entry)
    (h : t.find? (name :: parent) = none) :
    (t.insert (name :: parent) e).children parent = (name, e) :: t.children parent := by
  unfold children
  rw [insert_entries e h, List.filterMap_cons_some]
  simp

theorem children_insert_of_ne {t : FileTree} {path : Path} (e : Entry)
    (h : t.find? path = none) {directory : Path} (hne : ∀ name, path ≠ name :: directory) :
    (t.insert path e).children directory = t.children directory := by
  unfold children
  rw [insert_entries e h, List.filterMap_cons_none]
  rcases path with _ | ⟨name, parent⟩
  · rfl
  · have hp : parent ≠ directory := fun hp => hne name (hp ▸ rfl)
    simp [hp]

/-! ## Growth -/

/-- What is found under a path stays there. -/
def Keeps (t t' : FileTree) : Prop :=
  ∀ path e, t.find? path = some e → t'.find? path = some e

theorem Keeps.refl (t : FileTree) : t.Keeps t := fun _ _ h => h

theorem Keeps.trans {t t' t'' : FileTree} (h : t.Keeps t') (h' : t'.Keeps t'') : t.Keeps t'' :=
  fun path e he => h' path e (h path e he)

/-- No file is deleted or replaced, whatever becomes of the directories. -/
def KeepsFiles (t t' : FileTree) : Prop :=
  ∀ path text, t.find? path = some (.file text) → t'.find? path = some (.file text)

theorem Keeps.files {t t' : FileTree} (h : t.Keeps t') : t.KeepsFiles t' :=
  fun path text => h path (.file text)

theorem keeps_insert {t : FileTree} {path : Path} (e : Entry) (h : t.find? path = none) :
    t.Keeps (t.insert path e) := by
  intro q e' hq
  rw [find?_insert, if_neg, hq]
  rintro rfl
  rw [h] at hq
  cases hq

/-- All that a publication can do: put in a file under a path that led to nothing, or nothing. -/
theorem publish_cases (path : Path) (text : String) (t : FileTree) :
    (publish path text t = (.created, t.insert path (.file (some text))) ∧ t.find? path = none ∧
        ∃ name parent, path = name :: parent ∧ t.isDirectory parent = true)
      ∨ (publish path text t = (.taken, t) ∧ (t.find? path).isSome)
      ∨ publish path text t = (.failed, t) := by
  rcases path with _ | ⟨name, parent⟩
  · exact Or.inr (Or.inr rfl)
  · simp only [publish]
    split_ifs with hok hsome
    · exact Or.inr (Or.inl ⟨rfl, hsome⟩)
    · simp only [Bool.and_eq_true] at hok
      exact Or.inl ⟨rfl, by simpa using hsome, name, parent, rfl, hok.1.1⟩
    · exact Or.inr (Or.inr rfl)

theorem publish_keeps (path : Path) (text : String) (t : FileTree) :
    t.Keeps (publish path text t).2 := by
  rcases publish_cases path text t with ⟨h, hnone, -⟩ | ⟨h, -⟩ | h <;> rw [h]
  · exact keeps_insert _ hnone
  · exact Keeps.refl t
  · exact Keeps.refl t

/-! ## Directories -/

/-- Whether a path can become a directory: it and every path above it is one already, or leads to
nothing and has a name that fits. -/
def Makeable (t : FileTree) (path : Path) : Prop :=
  ∀ q, q <:+ path → t.find? q = some .directory ∨
    (t.find? q = none ∧ ∀ name ∈ q.head?, nameFits name = true)

theorem makeDirectories_keeps (t : FileTree) :
    ∀ path : Path, t.Keeps (t.makeDirectories path).2
  | [] => by
    unfold makeDirectories
    split
    · exact Keeps.refl t
    · rename_i h
      exact keeps_insert _ h
  | name :: parent => by
    have ih := makeDirectories_keeps t parent
    unfold makeDirectories
    split
    · rename_i t' h
      rw [h] at ih
      exact ih
    · rename_i t' h
      rw [h] at ih
      split
      · exact ih
      · rename_i hnone
        split_ifs
        · exact ih.trans (keeps_insert _ hnone)
        · exact ih

/-- Making directories puts in directories only, with names that fit, on the way to the path. -/
theorem find?_makeDirectories (t : FileTree) :
    ∀ (path : Path) {q : Path}, t.find? q = none →
      (t.makeDirectories path).2.find? q = none ∨
        ((t.makeDirectories path).2.find? q = some .directory ∧ q <:+ path ∧
          ∀ name ∈ q.head?, nameFits name = true)
  | [], q, hq => by
    unfold makeDirectories
    split
    · exact Or.inl hq
    · rw [find?_insert]
      split_ifs with h
      · subst h
        exact Or.inr ⟨rfl, List.suffix_refl _, by simp⟩
      · exact Or.inl hq
  | name :: parent, q, hq => by
    have ih := find?_makeDirectories t parent hq
    unfold makeDirectories
    split
    · rename_i t' h
      rw [h] at ih
      exact ih.imp_right fun ⟨h1, h2, h3⟩ => ⟨h1, h2.trans (List.suffix_cons _ _), h3⟩
    · rename_i t' h
      rw [h] at ih
      have hw := ih.imp_right fun ⟨h1, h2, h3⟩ =>
        And.intro h1 (And.intro (h2.trans (List.suffix_cons name _)) h3)
      split
      · exact hw
      · split_ifs with hfit
        · rw [find?_insert]
          split_ifs with heq
          · subst heq
            exact Or.inr ⟨rfl, List.suffix_refl _, by simpa using hfit⟩
          · exact hw
        · exact hw

theorem makeable_cons {t : FileTree} {name : String} {parent : Path} :
    t.Makeable (name :: parent) ↔ t.Makeable parent ∧
      (t.find? (name :: parent) = some .directory ∨
        (t.find? (name :: parent) = none ∧ nameFits name = true)) := by
  unfold Makeable
  constructor
  · intro h
    refine ⟨fun q hq => h q (hq.trans (List.suffix_cons _ _)), ?_⟩
    simpa using h _ (List.suffix_refl _)
  · rintro ⟨h, hself⟩ q hq
    rcases List.suffix_cons_iff.1 hq with rfl | hq
    · simpa using hself
    · exact h q hq

theorem makeDirectories_fst (t : FileTree) :
    ∀ path : Path, (t.makeDirectories path).1 = true ↔ t.Makeable path
  | [] => by
    unfold makeDirectories Makeable
    split
    · rename_i e he
      simp [he]
    · rename_i hnone
      simp [hnone]
  | name :: parent => by
    have ih := makeDirectories_fst t parent
    have hk := makeDirectories_keeps t parent
    have hn := find?_makeDirectories t parent (q := name :: parent)
    rw [makeable_cons, ← ih, makeDirectories]
    split
    · rename_i t' h
      simp [h]
    · rename_i t' h
      rw [h] at hk hn ⊢
      simp only [true_and]
      -- what is at the path itself is not touched while the parent is made
      have hsame : t'.find? (name :: parent) = t.find? (name :: parent) := by
        rcases hf : t.find? (name :: parent) with _ | e
        · rcases hn hf with hn | ⟨-, hn, -⟩
          · exact hn
          · exact absurd hn.length_le (by simp)
        · exact hk _ _ hf
      rw [← hsame]
      split
      · rename_i e he
        simp [he]
      · rename_i hnone
        split_ifs with hfit <;> simp [hnone, hfit]

/-- A path is as makeable as before if only directories with names that fit came to be on the way
to it. -/
theorem makeable_congr {t t' : FileTree} {path : Path} (hkeeps : t.Keeps t')
    (hnew : ∀ q, q <:+ path → t.find? q = none → t'.find? q = none ∨
      (t'.find? q = some .directory ∧ ∀ name ∈ q.head?, nameFits name = true)) :
    t'.Makeable path ↔ t.Makeable path := by
  constructor
  · intro h q hq
    rcases hf : t.find? q with _ | e
    · refine Or.inr ⟨rfl, ?_⟩
      rcases hnew q hq hf with hnone | ⟨-, hfit⟩
      · rcases h q hq with hd | ⟨-, hfit⟩
        · rw [hnone] at hd
          cases hd
        · exact hfit
      · exact hfit
    · rcases h q hq with hd | ⟨hnone, -⟩
      · rw [hkeeps q e hf] at hd
        exact Or.inl hd
      · rw [hkeeps q e hf] at hnone
        cases hnone
  · intro h q hq
    rcases h q hq with hd | ⟨hnone, hfit⟩
    · exact Or.inl (hkeeps _ _ hd)
    · exact (hnew q hq hnone).elim (fun h => Or.inr ⟨h, hfit⟩) fun h => Or.inl h.1

/-- Directories on the way to a path are not entries of a directory that is as far down. -/
theorem children_makeDirectories (t : FileTree) {directory : Path} :
    ∀ {path : Path}, path.length ≤ directory.length →
      (t.makeDirectories path).2.children directory = t.children directory
  | [], _ => by
    unfold makeDirectories
    split
    · rfl
    · rename_i hnone
      exact children_insert_of_ne _ hnone (by simp)
  | name :: parent, hlen => by
    rw [List.length_cons] at hlen
    have ih : (t.makeDirectories parent).2.children directory = t.children directory :=
      children_makeDirectories t (by omega)
    unfold makeDirectories
    split
    · rename_i t' h
      rw [h] at ih
      exact ih
    · rename_i t' h
      rw [h] at ih
      split
      · exact ih
      · rename_i hnone
        split_ifs
        · rw [children_insert_of_ne _ hnone, ih]
          rintro n ⟨rfl, rfl⟩
          omega
        · exact ih

theorem ensureDirectory_eq (t : FileTree) (path : Path) :
    t.ensureDirectory path = t.makeDirectories path ∨ t.ensureDirectory path = (false, t) := by
  unfold ensureDirectory
  split_ifs
  · exact Or.inl rfl
  · exact Or.inr rfl

theorem ensureDirectory_keeps (t : FileTree) (path : Path) :
    t.Keeps (t.ensureDirectory path).2 := by
  rcases t.ensureDirectory_eq path with h | h <;> rw [h]
  · exact t.makeDirectories_keeps path
  · exact Keeps.refl t

theorem children_ensureDirectory (t : FileTree) {directory path : Path}
    (h : path.length ≤ directory.length) :
    (t.ensureDirectory path).2.children directory = t.children directory := by
  rcases t.ensureDirectory_eq path with he | he <;> rw [he]
  exact t.children_makeDirectories h

theorem makeable_ensureDirectory (t : FileTree) (path q : Path) :
    (t.ensureDirectory path).2.Makeable q ↔ t.Makeable q := by
  refine makeable_congr (t.ensureDirectory_keeps path) fun r _ hr => ?_
  rcases t.ensureDirectory_eq path with he | he <;> rw [he]
  · exact (t.find?_makeDirectories path hr).imp_right fun h => ⟨h.1, h.2.2⟩
  · exact Or.inl hr

/-- The system can be asked for the path. -/
def Askable (path : Path) : Prop :=
  (pathFits path && path.all fun name => !name.toList.contains '\x00') = true

theorem ensureDirectory_fst (t : FileTree) (path : Path) :
    (t.ensureDirectory path).1 = true ↔ Askable path ∧ t.Makeable path := by
  rw [← makeDirectories_fst]
  unfold ensureDirectory Askable
  split_ifs with h
  · exact ⟨fun hm => ⟨h, hm⟩, fun hm => hm.2⟩
  · exact ⟨fun hm => absurd hm (by simp), fun hm => absurd hm.1 h⟩

theorem file_of_makeDirectories {t : FileTree} {path q : Path} {text : Option String}
    (h : (t.makeDirectories path).2.find? q = some (.file text)) :
    t.find? q = some (.file text) := by
  cases hq : t.find? q with
  | none =>
    rcases t.find?_makeDirectories path hq with hnone | ⟨hdirectory, -⟩
    · simp [hnone] at h
    · simp [hdirectory] at h
  | some e => rw [← h, t.makeDirectories_keeps path q e hq]

theorem file_of_ensureDirectory {t t' : FileTree} {path q : Path} {made : Bool}
    {text : Option String} (he : t.ensureDirectory path = (made, t'))
    (h : t'.find? q = some (.file text)) : t.find? q = some (.file text) := by
  rcases t.ensureDirectory_eq path with hmake | hmake <;> rw [hmake] at he
  · obtain rfl : (t.makeDirectories path).2 = t' := congrArg Prod.snd he
    exact file_of_makeDirectories h
  · cases he
    exact h

/-- What making sure of a directory does to a tree. -/
structure Ensured (path : Path) (t : FileTree) (made : Bool) (t' : FileTree) : Prop where
  keeps : t.Keeps t'
  children : ∀ directory : Path, path.length ≤ directory.length →
    t'.children directory = t.children directory
  makeable : ∀ q, t'.Makeable q ↔ t.Makeable q
  made_iff : made = true ↔ Askable path ∧ t.Makeable path

theorem ensured (t : FileTree) (path : Path) :
    Ensured path t (t.ensureDirectory path).1 (t.ensureDirectory path).2 :=
  ⟨t.ensureDirectory_keeps path, fun _ h => t.children_ensureDirectory h,
    t.makeable_ensureDirectory path, t.ensureDirectory_fst path⟩

theorem nodup_children (t : FileTree) (path : Path) : ((t.children path).map (·.1)).Nodup := by
  have hd := t.distinct
  unfold children
  rw [List.Nodup, List.pairwise_map] at hd ⊢
  refine List.Pairwise.filterMap _ (fun a b hne c hc d hd heq => ?_) hd
  rcases ha : a.1 with _ | ⟨n, p⟩ <;> rcases hb : b.1 with _ | ⟨m, q⟩ <;>
    simp only [ha, hb, Option.ite_none_right_eq_some, Option.some.injEq, reduceCtorEq] at hc hd
  obtain ⟨rfl, rfl⟩ := hc
  obtain ⟨rfl, rfl⟩ := hd
  obtain rfl : n = m := heq
  exact hne (by rw [ha, hb])

/-! ## Order -/

/-- The same entries under the same paths, in whatever order they are kept. -/
def Same (t t' : FileTree) : Prop := ∀ path, t'.find? path = t.find? path

theorem Same.children {t t' : FileTree} (h : t.Same t') (path : Path) :
    (t'.children path).Perm (t.children path) := by
  have hentries : t'.entries.Perm t.entries := by
    refine (List.perm_ext_iff_of_nodup t'.distinct.of_map t.distinct.of_map).2 fun ⟨q, e⟩ => ?_
    rw [mem_entries, mem_entries, h q]
  exact hentries.filterMap _

theorem Same.makeable {t t' : FileTree} (h : t.Same t') (path : Path) :
    t'.Makeable path ↔ t.Makeable path := by
  simp only [Makeable, h _]

end FileTree

end Exploration
