import Mathlib
import Exploration.Proofs.JsonGrammar

/-!
# Written JSON read back

Both forms of writing are texts of the value (`spells_compact`, `spells_pretty`), so that what is
written is read back, as far as a text can hold it: integers as words, doubles of which the text
stands for them, and nothing unreadable.
-/

namespace Exploration

open Json (ReadsBack Spells SpellsItems SpellsFields Blank newLine)

namespace Value

mutual

/-- A text can hold the value as it is. -/
def Lossless : Value → Prop
  | .null | .flag _ | .text _ => True
  | .int n => isWord n = true
  | .double x => ReadsBack x
  | .list items => AllLossless items
  | .record fields => AllFieldsLossless fields
  | .unreadable => False

def AllLossless : List Value → Prop
  | [] => True
  | v :: rest => Lossless v ∧ AllLossless rest

def AllFieldsLossless : List (String × Value) → Prop
  | [] => True
  | (_, v) :: rest => Lossless v ∧ AllFieldsLossless rest

end

mutual

/-- The doubles in a value. -/
def doubles : Value → List Float
  | .double x => [x]
  | .list items => doublesOfItems items
  | .record fields => doublesOfFields fields
  | _ => []

def doublesOfItems : List Value → List Float
  | [] => []
  | v :: rest => doubles v ++ doublesOfItems rest

def doublesOfFields : List (String × Value) → List Float
  | [] => []
  | (_, v) :: rest => doubles v ++ doublesOfFields rest

end

mutual

/-- Of a value in canonical form only the doubles can be lost. -/
theorem lossless_of_isCanonical : ∀ {v : Value}, v.isCanonical = true →
    (∀ x ∈ v.doubles, ReadsBack x) → v.Lossless
  | .null, _, _ | .flag _, _, _ | .text _, _, _ => by simp [Lossless]
  | .int n, h, _ => by simpa [Lossless, isCanonical] using h
  | .double x, _, hx => by simpa [Lossless, doubles] using hx
  | .list items, h, hx => by
    simp only [isCanonical, doubles, Lossless] at h hx ⊢
    exact allLossless_of_areCanonical h hx
  | .record fields, h, hx => by
    simp only [isCanonical, doubles, Lossless] at h hx ⊢
    exact allFieldsLossless_of_areCanonical h hx
  | .unreadable, h, _ => by simp [isCanonical] at h

theorem allLossless_of_areCanonical : ∀ {items : List Value}, areCanonical items = true →
    (∀ x ∈ doublesOfItems items, ReadsBack x) → AllLossless items
  | [], _, _ => by simp [AllLossless]
  | v :: rest, h, hx => by
    simp only [areCanonical, Bool.and_eq_true, doublesOfItems, List.mem_append] at h hx
    exact ⟨lossless_of_isCanonical h.1 fun x hm => hx x (Or.inl hm),
      allLossless_of_areCanonical h.2 fun x hm => hx x (Or.inr hm)⟩

theorem allFieldsLossless_of_areCanonical : ∀ {fields : List (String × Value)},
    areCanonicalFields fields = true → (∀ x ∈ doublesOfFields fields, ReadsBack x) →
      AllFieldsLossless fields
  | [], _, _ => by simp [AllFieldsLossless]
  | (key, v) :: rest, h, hx => by
    simp only [areCanonicalFields, Bool.and_eq_true, doublesOfFields, List.mem_append] at h hx
    exact ⟨lossless_of_isCanonical h.1.2 fun x hm => hx x (Or.inl hm),
      allFieldsLossless_of_areCanonical h.2 fun x hm => hx x (Or.inr hm)⟩

end

theorem allLossless_iff {items : List Value} : AllLossless items ↔ ∀ v ∈ items, v.Lossless := by
  induction items with
  | nil => simp [AllLossless]
  | cons v rest ih => simp [AllLossless, ih]

theorem allFieldsLossless_iff {fields : List (String × Value)} :
    AllFieldsLossless fields ↔ ∀ f ∈ fields, f.2.Lossless := by
  induction fields with
  | nil => simp [AllFieldsLossless]
  | cons f rest ih => simp [AllFieldsLossless, ih]

end Value

namespace Json

open Value (Lossless AllLossless AllFieldsLossless)

theorem blank_nil : Blank [] := by simp [Blank]

theorem blank_space : Blank [' '] := by
  simp only [Blank, List.mem_singleton]
  rintro c rfl
  rfl

theorem blank_newLine (indent : Nat) : Blank (newLine indent) := by
  intro c hc
  simp only [newLine, List.mem_cons, List.mem_replicate] at hc
  rcases hc with rfl | ⟨-, rfl⟩ <;> rfl

mutual

theorem spells_compact : ∀ {v : Value}, v.Lossless → Spells v (compact v)
  | .null, _ => .null
  | .flag true, _ => .yes
  | .flag false, _ => .no
  | .int n, h => .number (number_ofInt (by simpa only [Lossless] using h))
  | .double x, h => .number (by simpa only [Lossless, compact, ReadsBack] using h)
  | .text s, _ => by
    rw [compact]
    exact .text s
  | .list [], _ => by
    rw [compact]
    exact .emptyList
  | .list (v :: rest), h => by
    simp only [Lossless, AllLossless] at h
    rw [compact]
    exact .list blank_nil (spells_compact h.1) (spellsItems_compact h.2)
  | .record [], _ => by
    rw [compact]
    exact .emptyRecord
  | .record ((key, v) :: rest), h => by
    simp only [Lossless, AllFieldsLossless] at h
    rw [compact]
    exact .record key blank_nil blank_nil (spells_compact h.1) (spellsFields_compact h.2)
  | .unreadable, h => by simp [Lossless] at h

theorem spellsItems_compact : ∀ {vs : List Value}, AllLossless vs →
    SpellsItems vs (compactItems vs)
  | [], _ => .nil blank_nil
  | v :: rest, h => by
    simp only [AllLossless] at h
    rw [compactItems]
    exact .cons blank_nil (spells_compact h.1) (spellsItems_compact h.2)

theorem spellsFields_compact : ∀ {fs : List (String × Value)}, AllFieldsLossless fs →
    SpellsFields fs (compactFields fs)
  | [], _ => .nil blank_nil
  | (key, v) :: rest, h => by
    simp only [AllFieldsLossless] at h
    rw [compactFields]
    exact .cons key blank_nil blank_nil (spells_compact h.1) (spellsFields_compact h.2)

end

mutual

theorem spells_pretty : ∀ (indent : Nat) {v : Value}, v.Lossless → Spells v (pretty indent v)
  | indent, .list (v :: rest), h => by
    simp only [Lossless, AllLossless] at h
    rw [pretty, List.append_assoc]
    exact .list (blank_newLine _) (spells_pretty (indent + 1) h.1)
      (spellsItems_pretty indent h.2)
  | indent, .record ((key, v) :: rest), h => by
    simp only [Lossless, AllFieldsLossless] at h
    rw [pretty, List.append_assoc]
    exact .record key (blank_newLine _) blank_space (spells_pretty (indent + 1) h.1)
      (spellsFields_pretty indent h.2)
  | indent, .null, h => by simpa only [pretty] using spells_compact h
  | indent, .flag b, h => by simpa only [pretty] using spells_compact h
  | indent, .int n, h => by simpa only [pretty] using spells_compact h
  | indent, .double x, h => by simpa only [pretty] using spells_compact h
  | indent, .text s, h => by simpa only [pretty] using spells_compact h
  | indent, .list [], h => by simpa only [pretty] using spells_compact h
  | indent, .record [], h => by simpa only [pretty] using spells_compact h
  | indent, .unreadable, h => by simp [Lossless] at h

theorem spellsItems_pretty : ∀ (indent : Nat) {vs : List Value}, AllLossless vs →
    SpellsItems vs (prettyItems indent vs)
  | indent, [], _ => by
    rw [prettyItems]
    exact .nil (blank_newLine indent)
  | indent, v :: rest, h => by
    simp only [AllLossless] at h
    rw [prettyItems, List.append_assoc]
    exact .cons (blank_newLine _) (spells_pretty (indent + 1) h.1) (spellsItems_pretty indent h.2)

theorem spellsFields_pretty : ∀ (indent : Nat) {fs : List (String × Value)},
    AllFieldsLossless fs → SpellsFields fs (prettyFields indent fs)
  | indent, [], _ => by
    rw [prettyFields]
    exact .nil (blank_newLine indent)
  | indent, (key, v) :: rest, h => by
    simp only [AllFieldsLossless] at h
    rw [prettyFields, List.append_assoc]
    exact .cons key (blank_newLine _) blank_space (spells_pretty (indent + 1) h.1)
      (spellsFields_pretty indent h.2)

end

theorem parse_compactText {v : Value} (h : v.Lossless) : parse (compactText v) = some v := by
  rw [parse, compactText, String.toList_ofList]
  exact parseChars_of_spells (spells_compact h)

theorem parse_prettyText {v : Value} (h : v.Lossless) : parse (prettyText v) = some v := by
  rw [parse, prettyText, String.toList_ofList]
  exact parseChars_of_spells (spells_pretty 0 h)

end Json

end Exploration
