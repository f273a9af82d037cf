import Mathlib
import Exploration.Proofs.Refusals

/-!
# What a subject sees of a tree

All that an archive looks at is below the directory of its subject, except whether that can be made.
So a tree looks the same to a subject (`Alike`) whatever archives of other subjects do to it
(`alike_openAt_other`, `alike_ask_other`), and in trees that look the same to it a subject gets the
same answers (`alike_openAt`, `alike_ask`).
-/

namespace Exploration

namespace FileTree

/-- Trees that look the same to a subject: its directory can be made in both or in neither, and
holds the same. -/
structure Alike (root : Path) (subject : String) (t t' : FileTree) : Prop where
  makeable : t'.Makeable root ↔ t.Makeable root
  find? : ∀ q, (subject :: root) <:+ q → t'.find? q = t.find? q
  children : ∀ part, t'.children (part :: subject :: root) = t.children (part :: subject :: root)

variable {root path : Path} {subject other : String} {t t' u : FileTree}

theorem Alike.refl (t : FileTree) : Alike root subject t t :=
  ⟨Iff.rfl, fun _ _ => rfl, fun _ => rfl⟩

theorem Alike.symm (h : Alike root subject t t') : Alike root subject t' t :=
  ⟨h.makeable.symm, fun q hq => (h.find? q hq).symm, fun part => (h.children part).symm⟩

theorem Alike.trans (h : Alike root subject t t') (h' : Alike root subject t' u) :
    Alike root subject t u :=
  ⟨h'.makeable.trans h.makeable, fun q hq => (h'.find? q hq).trans (h.find? q hq),
    fun part => (h'.children part).trans (h.children part)⟩

/-! ## What others do -/

/-- An entry that comes to be elsewhere. -/
theorem alike_insert_other (hnone : t.find? path = none) (hroot : ¬ path <:+ root)
    (hpath : ¬ (subject :: root) <:+ path) (e : Entry) :
    Alike root subject t (t.insert path e) := by
  refine ⟨makeable_congr (keeps_insert e hnone) fun q hq hfree => ?_, fun q hq => ?_,
    fun part => children_insert_of_ne e hnone fun name heq => hpath ?_⟩
  · rw [find?_insert, if_neg]
    · exact Or.inl hfree
    · rintro rfl
      exact hroot hq
  · rw [find?_insert, if_neg]
    rintro rfl
    exact hpath hq
  · rw [heq]
    exact (List.suffix_cons _ _).trans (List.suffix_cons _ _)

/-- Directories that are made on another way. -/
theorem alike_makeDirectories_other (t : FileTree) (hpath : ¬ (subject :: root) <:+ path)
    (hlength : path.length ≤ root.length + 2) :
    Alike root subject t (t.makeDirectories path).2 := by
  refine ⟨?_, fun q hq => ?_, fun part => children_makeDirectories t (by simpa using hlength)⟩
  · refine makeable_congr (makeDirectories_keeps t path) fun q _ hfree => ?_
    exact (find?_makeDirectories t path hfree).imp_right fun h => ⟨h.1, h.2.2⟩
  · rcases hfree : t.find? q with _ | e
    · rcases find?_makeDirectories t path hfree with hnone | ⟨-, hsuffix, -⟩
      · exact hnone
      · exact absurd (hq.trans hsuffix) hpath
    · exact makeDirectories_keeps t path q e hfree

/-! ## What the subject itself does -/

theorem Alike.insert (h : Alike root subject t t') (hnone : t.find? path = none)
    (hpath : (subject :: root) <:+ path) (e : Entry) :
    Alike root subject (t.insert path e) (t'.insert path e) := by
  have hnone' : t'.find? path = none := (h.find? path hpath).trans hnone
  have hroot : ∀ {u : FileTree}, u.find? path = none →
      ((u.insert path e).Makeable root ↔ u.Makeable root) := fun hu =>
    makeable_congr (keeps_insert e hu) fun q hq hfree => by
      rw [find?_insert, if_neg]
      · exact Or.inl hfree
      · rintro rfl
        have hlength := (hpath.trans hq).length_le
        simp at hlength
  refine ⟨(hroot hnone').trans (h.makeable.trans (hroot hnone).symm), fun q hq => ?_,
    fun part => ?_⟩
  · rw [find?_insert, find?_insert, h.find? q hq]
  · by_cases heq : ∃ name, path = name :: part :: subject :: root
    · obtain ⟨name, rfl⟩ := heq
      rw [children_insert_self e hnone, children_insert_self e hnone', h.children]
    · rw [children_insert_of_ne e hnone fun name hname => heq ⟨name, hname⟩,
        children_insert_of_ne e hnone' fun name hname => heq ⟨name, hname⟩, h.children]

/-- On the way to a directory below that of the subject, the same is made in both. -/
theorem Alike.makeDirectories (h : Alike root subject t t') :
    ∀ {path : Path}, (subject :: root) <:+ path →
      (t'.makeDirectories path).1 = (t.makeDirectories path).1 ∧
        Alike root subject (t.makeDirectories path).2 (t'.makeDirectories path).2
  | [], hpath => by simp at hpath
  | name :: parent, hpath => by
    -- above the subject's directory only the answers are the same
    have hparent : (t'.makeDirectories parent).1 = (t.makeDirectories parent).1 ∧
        Alike root subject (t.makeDirectories parent).2 (t'.makeDirectories parent).2 := by
      rcases List.suffix_cons_iff.1 hpath with heq | hpath
      · obtain ⟨rfl, rfl⟩ := List.cons.inj heq
        have hother : ∀ u : FileTree, Alike root subject u (u.makeDirectories root).2 := fun u =>
          alike_makeDirectories_other u (fun hs => by simpa using hs.length_le) (by simp)
        refine ⟨?_, (hother t).symm.trans (h.trans (hother t'))⟩
        rw [Bool.eq_iff_iff, makeDirectories_fst, makeDirectories_fst]
        exact h.makeable
      · exact h.makeDirectories hpath
    rcases hmade : t.makeDirectories parent with ⟨made, u⟩
    rcases hmade' : t'.makeDirectories parent with ⟨made', u'⟩
    rw [hmade, hmade'] at hparent
    obtain ⟨rfl : made' = made, halike : Alike root subject u u'⟩ := hparent
    have hfind := halike.find? _ hpath
    simp only [FileTree.makeDirectories, hmade, hmade']
    cases made'
    · exact ⟨rfl, halike⟩
    · rcases hentry : u.find? (name :: parent) with _ | e <;> simp only [hentry] at hfind ⊢ <;>
        simp only [hfind]
      · split_ifs
        · exact ⟨rfl, halike.insert hentry hpath _⟩
        · exact ⟨rfl, halike⟩
      · exact ⟨trivial, halike⟩

theorem Alike.ensureDirectory (h : Alike root subject t t') (hpath : (subject :: root) <:+ path) :
    (t'.ensureDirectory path).1 = (t.ensureDirectory path).1 ∧
      Alike root subject (t.ensureDirectory path).2 (t'.ensureDirectory path).2 := by
  unfold FileTree.ensureDirectory
  split_ifs
  · exact h.makeDirectories hpath
  · exact ⟨rfl, h⟩

theorem Alike.publish (h : Alike root subject t t') (name : String) {parent : Path}
    (hpath : (subject :: root) <:+ parent) (text : String) :
    (FileTree.publish (name :: parent) text t').1 = (FileTree.publish (name :: parent) text t).1 ∧
      Alike root subject (FileTree.publish (name :: parent) text t).2
        (FileTree.publish (name :: parent) text t').2 := by
  have hfile : (subject :: root) <:+ name :: parent := hpath.trans (List.suffix_cons _ _)
  have hdirectory : t'.isDirectory parent = t.isDirectory parent := by
    rw [isDirectory, isDirectory, h.find? _ hpath]
  rw [FileTree.publish, FileTree.publish, hdirectory, h.find? _ hfile]
  split_ifs with hfits hsome
  · exact ⟨rfl, h⟩
  · exact ⟨rfl, h.insert (by simpa using hsome) hfile _⟩
  · exact ⟨rfl, h⟩

end FileTree

/-! ## Archives -/

namespace Archive

open FileTree (Alike)

variable {root : Path} {subject other : String} {t t' : FileTree}

theorem loaded_alike (h : Alike root subject t t') (sampling : SamplingSettings) :
    loaded sampling root subject t' = loaded sampling root subject t := by
  simp only [loaded, listing, traceDirectory, strategyDirectory, h.children]

theorem alike_openAt (h : Alike root subject t t') (sampling : SamplingSettings) :
    (openAt sampling root subject t').1 = (openAt sampling root subject t).1 ∧
      Alike root subject (openAt sampling root subject t).2
        (openAt sampling root subject t').2 := by
  unfold openAt
  split
  · exact ⟨rfl, h⟩
  have h₁ := h.ensureDirectory (List.suffix_cons "traces" _)
  rcases hmade : t.ensureDirectory ("traces" :: subject :: root) with ⟨made, u⟩
  rcases hmade' : t'.ensureDirectory ("traces" :: subject :: root) with ⟨made', u'⟩
  rw [hmade, hmade'] at h₁
  obtain ⟨rfl : made' = made, h₁ : Alike root subject u u'⟩ := h₁
  simp only [traceDirectory, hmade, hmade']
  cases made'
  · exact ⟨rfl, h₁⟩
  have h₂ := h₁.ensureDirectory (List.suffix_cons "strategies" _)
  rcases hmade₂ : u.ensureDirectory ("strategies" :: subject :: root) with ⟨made, v⟩
  rcases hmade₂' : u'.ensureDirectory ("strategies" :: subject :: root) with ⟨made', v'⟩
  rw [hmade₂, hmade₂'] at h₂
  obtain ⟨rfl : made' = made, h₂ : Alike root subject v v'⟩ := h₂
  simp only [strategyDirectory, hmade₂, hmade₂']
  cases made'
  · exact ⟨rfl, h₂⟩
  · exact ⟨congrArg Except.ok (loaded_alike h₂ sampling), h₂⟩

/-- The directories of another subject are on the way to none of this one. -/
theorem not_suffix_other (hne : other ≠ subject) (part : String) :
    ¬ (subject :: root) <:+ part :: other :: root := by
  intro h
  rcases List.suffix_cons_iff.1 h with heq | h
  · have hlength := congrArg List.length heq
    simp at hlength
  · rcases List.suffix_cons_iff.1 h with heq | h
    · exact hne (List.cons.inj heq).1.symm
    · simpa using h.length_le

theorem alike_openAt_other (hne : other ≠ subject) (sampling : SamplingSettings) (t : FileTree) :
    Alike root subject t (openAt sampling root other t).2 := by
  have hensure : ∀ (part : String) (u : FileTree),
      Alike root subject u (u.ensureDirectory (part :: other :: root)).2 := fun part u => by
    rcases u.ensureDirectory_eq (part :: other :: root) with h | h <;> rw [h]
    · exact FileTree.alike_makeDirectories_other u (not_suffix_other hne part) (by simp)
    · exact .refl u
  unfold openAt
  split
  · exact .refl t
  have h₁ := hensure "traces" t
  rcases hmade : t.ensureDirectory ("traces" :: other :: root) with ⟨made, u⟩
  rw [hmade] at h₁
  simp only [traceDirectory, hmade]
  cases made
  · exact h₁
  have h₂ := hensure "strategies" u
  rcases hmade₂ : u.ensureDirectory ("strategies" :: other :: root) with ⟨made, v⟩
  rw [hmade₂] at h₂
  simp only [strategyDirectory, hmade₂]
  cases made
  · exact h₁.trans h₂
  · exact h₁.trans h₂

theorem path_below (addition : Addition) (directory : Path) : ∃ name part,
    addition.path directory = name :: part :: directory := by
  cases addition <;> exact ⟨_, _, rfl⟩

theorem alike_ask (h : Alike root subject t t') {a : Archive} (ha : a.directory = subject :: root)
    (addition : Addition) : (a.ask FileTree.publish addition t').1 =
      (a.ask FileTree.publish addition t).1 ∧ Alike root subject
        (a.ask FileTree.publish addition t).2 (a.ask FileTree.publish addition t').2 := by
  obtain ⟨name, part, hpath⟩ := path_below addition a.directory
  have hp := h.publish name (List.suffix_cons part _) addition.text
  rw [ask_eq, ask_eq, hpath, ha]
  rcases addition.unasked? a with _ | e
  · rcases hone : FileTree.publish (name :: part :: subject :: root) addition.text t with ⟨p, u⟩
    rcases hother : FileTree.publish (name :: part :: subject :: root) addition.text t' with
      ⟨p', u'⟩
    rw [hone, hother] at hp
    obtain ⟨rfl : p' = p, hp : Alike root subject u u'⟩ := hp
    cases p' <;> exact ⟨rfl, hp⟩
  · exact ⟨rfl, h⟩

theorem directory_of_ask {a b : Archive} {addition : Addition} {t u : FileTree}
    (h : a.ask FileTree.publish addition t = (.ok b, u)) : b.directory = a.directory := by
  rcases Keeper.ask_cases FileTree.mayFail_publish a addition t with
    ⟨e, -, hask⟩ | ⟨-, ⟨-, hask⟩ | ⟨-, -, hask⟩ | ⟨-, -, hask⟩⟩ <;> rw [hask] at h <;> cases h
  cases addition <;> rfl

theorem alike_ask_other (hne : other ≠ subject) {a : Archive} (ha : a.directory = other :: root)
    (addition : Addition) (t : FileTree) :
    Alike root subject t (a.ask FileTree.publish addition t).2 := by
  obtain ⟨name, part, hpath⟩ := path_below addition a.directory
  rcases Keeper.ask_cases FileTree.mayFail_publish a addition t with
    ⟨e, -, hask⟩ | ⟨-, ⟨-, hask⟩ | ⟨-, -, hask⟩ | ⟨-, hnone, hask⟩⟩ <;> rw [hask]
  · exact .refl t
  · exact .refl t
  · exact .refl t
  · rw [hpath, ha] at hnone ⊢
    refine FileTree.alike_insert_other hnone (fun h => ?_) (fun h => ?_) _
    · have hlength := h.length_le
      simp only [List.length_cons] at hlength
      omega
    · rcases List.suffix_cons_iff.1 h with heq | h
      · have hlength := congrArg List.length heq
        simp at hlength
      · exact not_suffix_other hne part h

end Archive

end Exploration
