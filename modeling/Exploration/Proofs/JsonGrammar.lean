import Mathlib
import Exploration.Proofs.JsonNumber
import Exploration.Proofs.JsonQuoted

/-!
# Texts of a value

`Spells v cs` says that `cs` is a text of the value `v`. Blanks may stand after an opening bracket,
a comma or a colon and before a closing bracket. A value is read from each of its texts
(`parseChars_of_spells`), and the fuel that a text pays for with its length suffices.
-/

namespace Exploration.Json

def Blank (cs : List Char) : Prop := ∀ c ∈ cs, isBlank c = true

mutual

inductive Spells : Value → List Char → Prop
  | null : Spells .null "null".toList
  | yes : Spells (.flag true) "true".toList
  | no : Spells (.flag false) "false".toList
  | number {v : Value} {cs : List Char} (h : number cs = some (v, [])) : Spells v cs
  | text (s : String) : Spells (.text s) (quoted s)
  | emptyList : Spells (.list []) ['[', ']']
  | list {blanks cs ds : List Char} {v : Value} {vs : List Value} (hb : Blank blanks)
      (hv : Spells v cs) (hvs : SpellsItems vs ds) :
      Spells (.list (v :: vs)) ('[' :: (blanks ++ (cs ++ ds)))
  | emptyRecord : Spells (.record []) ['\x7b', '\x7d']
  | record {blanks gap cs ds : List Char} (key : String) {v : Value} {fs : List (String × Value)}
      (hb : Blank blanks) (hg : Blank gap) (hv : Spells v cs) (hfs : SpellsFields fs ds) :
      Spells (.record ((key, v) :: fs))
        ('\x7b' :: (blanks ++ (quoted key ++ ':' :: (gap ++ (cs ++ ds)))))

/-- Texts of the items after the first, and of the end of the list. -/
inductive SpellsItems : List Value → List Char → Prop
  | nil {blanks : List Char} (hb : Blank blanks) : SpellsItems [] (blanks ++ [']'])
  | cons {blanks cs ds : List Char} {v : Value} {vs : List Value} (hb : Blank blanks)
      (hv : Spells v cs) (hvs : SpellsItems vs ds) :
      SpellsItems (v :: vs) (',' :: (blanks ++ (cs ++ ds)))

/-- Texts of the fields after the first, and of the end of the record. -/
inductive SpellsFields : List (String × Value) → List Char → Prop
  | nil {blanks : List Char} (hb : Blank blanks) : SpellsFields [] (blanks ++ ['\x7d'])
  | cons {blanks gap cs ds : List Char} (key : String) {v : Value} {fs : List (String × Value)}
      (hb : Blank blanks) (hg : Blank gap) (hv : Spells v cs) (hfs : SpellsFields fs ds) :
      SpellsFields ((key, v) :: fs)
        (',' :: (blanks ++ (quoted key ++ ':' :: (gap ++ (cs ++ ds)))))

end

/-! ## Heads -/

theorem skipBlanks_cons {c : Char} (h : isBlank c = false) (cs : List Char) :
    skipBlanks (c :: cs) = c :: cs := by
  simp [skipBlanks, h]

theorem skipBlanks_append {blanks : List Char} (h : Blank blanks) (cs : List Char) :
    skipBlanks (blanks ++ cs) = skipBlanks cs :=
  List.dropWhile_append_of_pos h

/-- A value starts with a character that is neither blank nor a closing bracket. -/
theorem head_of_spells {v : Value} {cs : List Char} (h : Spells v cs) :
    ∃ c cs', cs = c :: cs' ∧ isBlank c = false ∧ c ≠ ']' := by
  cases h with
  | null => exact ⟨'n', _, rfl, by decide, by decide⟩
  | yes => exact ⟨'t', _, rfl, by decide, by decide⟩
  | no => exact ⟨'f', _, rfl, by decide, by decide⟩
  | number h =>
    obtain ⟨c, cs', rfl, rfl | hc⟩ := head_of_number h
    · exact ⟨'-', cs', rfl, by decide, by decide⟩
    · refine ⟨c, cs', rfl, ?_, ?_⟩
      · by_contra hb
        simp only [isBlank, Bool.not_eq_false, Bool.or_eq_true, decide_eq_true_eq] at hb
        rcases hb with ((rfl | rfl) | rfl) | rfl <;> revert hc <;> decide
      · rintro rfl
        revert hc
        decide
  | text s => exact ⟨'"', _, rfl, by decide, by decide⟩
  | emptyList => exact ⟨'[', _, rfl, by decide, by decide⟩
  | list => exact ⟨'[', _, rfl, by decide, by decide⟩
  | emptyRecord => exact ⟨'\x7b', _, rfl, by decide, by decide⟩
  | record => exact ⟨'\x7b', _, rfl, by decide, by decide⟩

theorem skipBlanks_of_spells {v : Value} {cs : List Char} (h : Spells v cs) (rest : List Char) :
    skipBlanks (cs ++ rest) = cs ++ rest := by
  obtain ⟨c, cs', rfl, hc, -⟩ := head_of_spells h
  exact skipBlanks_cons hc _

theorem endsNumber_of_blank {blanks : List Char} (h : Blank blanks) {c : Char} (rest : List Char)
    (hc : c = ']' ∨ c = '\x7d') : EndsNumber (blanks ++ c :: rest) := by
  rcases blanks with _ | ⟨b, bs⟩
  · rcases hc with rfl | rfl <;> exact endsNumber_cons (by decide) (by decide)
  · have hb := h b List.mem_cons_self
    simp only [isBlank, Bool.or_eq_true, decide_eq_true_eq] at hb
    rcases hb with ((rfl | rfl) | rfl) | rfl <;> exact endsNumber_cons (by decide) (by decide)

theorem endsNumber_of_spellsItems {vs : List Value} {ds : List Char} (h : SpellsItems vs ds)
    (rest : List Char) : EndsNumber (ds ++ rest) := by
  cases h with
  | nil hb =>
    rw [List.append_assoc]
    exact endsNumber_of_blank hb rest (Or.inl rfl)
  | cons => exact endsNumber_cons (by decide) (by decide)

theorem endsNumber_of_spellsFields {fs : List (String × Value)} {ds : List Char}
    (h : SpellsFields fs ds) (rest : List Char) : EndsNumber (ds ++ rest) := by
  cases h with
  | nil hb =>
    rw [List.append_assoc]
    exact endsNumber_of_blank hb rest (Or.inr rfl)
  | cons => exact endsNumber_cons (by decide) (by decide)

/-! ## Reading -/

/-- `cs` is read as `v` wherever it stands, with two steps of fuel for each character. -/
def ReadsAs (v : Value) (cs : List Char) : Prop :=
  ∀ (fuel : Nat) (rest : List Char), 2 * cs.length + 1 ≤ fuel → EndsNumber rest →
    value fuel (cs ++ rest) = some (v, rest)

theorem readsAs_of_succ {v : Value} {cs : List Char}
    (h : ∀ (fuel : Nat) (rest : List Char), 2 * cs.length ≤ fuel → EndsNumber rest →
      value (fuel + 1) (cs ++ rest) = some (v, rest)) : ReadsAs v cs
  | 0, _, hf, _ => absurd hf (by omega)
  | fuel + 1, rest, hf, hr => h fuel rest (by omega) hr

theorem readsAs_of_number {v : Value} {cs : List Char} (h : number cs = some (v, [])) :
    ReadsAs v cs := by
  refine readsAs_of_succ fun fuel rest _ hr => ?_
  have hn := number_append hr h
  obtain ⟨c, cs', rfl, hc⟩ := head_of_number h
  have hhead : c ≠ 'n' ∧ c ≠ 't' ∧ c ≠ 'f' ∧ c ≠ '"' ∧ c ≠ '[' ∧ c ≠ '\x7b' := by
    refine ⟨?_, ?_, ?_, ?_, ?_, ?_⟩ <;>
    · rintro rfl
      revert hc
      decide
  rw [List.cons_append] at hn ⊢
  rw [value]
  · simpa using hn
  all_goals
    intros
    simp_all

theorem recordValue_some (fs : List (String × Value)) :
    recordValue (fs.map fun (key, v) => (some key, v)) = .record fs := by
  have hm : (fs.map fun (key, v) => (some key, v)).mapM
      (fun x : Option String × Value => x.1.map (·, x.2)) = some fs := by
    induction fs with
    | nil => rfl
    | cons f fs ih => simp [List.mapM_cons, ih]
  unfold recordValue
  simp only [hm]

mutual

theorem readsAs_of_spells : ∀ {v : Value} {cs : List Char}, Spells v cs → ReadsAs v cs
  | _, _, .null => readsAs_of_succ fun fuel rest _ _ => by simp [value]
  | _, _, .yes => readsAs_of_succ fun fuel rest _ _ => by simp [value]
  | _, _, .no => readsAs_of_succ fun fuel rest _ _ => by simp [value]
  | _, _, .number h => readsAs_of_number h
  | _, _, .text s => readsAs_of_succ fun fuel rest _ _ => by
    rw [quoted_append, value, string_quoted]
    rfl
  | _, _, .emptyList => readsAs_of_succ fun fuel rest _ _ => by
    simp [value, skipBlanks_cons (show isBlank ']' = false by decide)]
  | _, _, @Spells.list _ cs ds _ _ hb hv hvs => readsAs_of_succ fun fuel rest hf _ => by
    simp only [List.length_cons, List.length_append] at hf
    have hitems := items_of_spells hvs hv (readsAs_of_spells hv) (show Blank [] by simp [Blank])
      fuel rest (by omega)
    simp only [List.cons_append, List.append_assoc]
    rw [value, skipBlanks_append hb, skipBlanks_of_spells hv]
    obtain ⟨c, cs', rfl, -, hc⟩ := head_of_spells hv
    split
    · rename_i heq
      simp only [List.cons_append, List.cons.injEq] at heq
      exact absurd heq.1 hc
    · rw [List.nil_append] at hitems
      rw [hitems]
      rfl
  | _, _, .emptyRecord => readsAs_of_succ fun fuel rest _ _ => by
    simp [value, skipBlanks_cons (show isBlank '\x7d' = false by decide)]
  | _, _, @Spells.record _ gap cs ds key _ _ hb hg hv hfs =>
    readsAs_of_succ fun fuel rest hf _ => by
    simp only [List.length_cons, List.length_append] at hf
    have hfields := fields_of_spells hfs key hv (readsAs_of_spells hv)
      (show Blank [] by simp [Blank]) hg fuel rest (by omega)
    rw [List.nil_append, quoted_append] at hfields
    simp only [List.cons_append, List.append_assoc]
    rw [value, skipBlanks_append hb, quoted_append, skipBlanks_cons (by decide)]
    show (fields fuel _).map _ = _
    rw [hfields]
    exact congrArg (fun v => some (v, rest)) (recordValue_some _)

theorem items_of_spells : ∀ {vs : List Value} {ds : List Char}, SpellsItems vs ds →
    ∀ {v : Value} {cs : List Char}, Spells v cs → ReadsAs v cs → ∀ {blanks : List Char},
      Blank blanks → ∀ (fuel : Nat) (rest : List Char), 2 * (cs.length + ds.length) + 2 ≤ fuel →
        items fuel (blanks ++ (cs ++ (ds ++ rest))) = some (v :: vs, rest)
  | _, _, _, _, _, _, _, _, _, 0, _, hf => absurd hf (by omega)
  | _, _, .nil he, v, cs, hv, hread, _, hb, fuel + 1, rest, hf => by
    have hends := endsNumber_of_spellsItems (.nil he) rest
    rw [items, skipBlanks_append hb, skipBlanks_of_spells hv, hread fuel _ (by omega) hends]
    simp only [Option.bind_eq_bind, Option.bind_some, List.append_assoc]
    rw [skipBlanks_append he, List.singleton_append, skipBlanks_cons (by decide)]
    rfl
  | _, _, .cons hb' hv' hvs', v, cs, hv, hread, _, hb, fuel + 1, rest, hf => by
    have hends := endsNumber_of_spellsItems (.cons hb' hv' hvs') rest
    simp only [List.length_cons, List.length_append] at hf
    have ih := items_of_spells hvs' hv' (readsAs_of_spells hv') hb' fuel rest (by omega)
    rw [items, skipBlanks_append hb, skipBlanks_of_spells hv, hread fuel _ (by omega) hends]
    simp only [Option.bind_eq_bind, Option.bind_some, List.cons_append, List.append_assoc]
    rw [skipBlanks_cons (by decide)]
    simp only [ih, Option.map_some]

theorem fields_of_spells : ∀ {fs : List (String × Value)} {ds : List Char}, SpellsFields fs ds →
    ∀ (key : String) {v : Value} {cs : List Char}, Spells v cs → ReadsAs v cs →
      ∀ {blanks gap : List Char}, Blank blanks → Blank gap → ∀ (fuel : Nat) (rest : List Char),
        2 * (cs.length + ds.length) + 2 ≤ fuel →
        fields fuel (blanks ++ (quoted key ++ ':' :: (gap ++ (cs ++ (ds ++ rest)))))
          = some (((key, v) :: fs).map fun (key, v) => (some key, v), rest)
  | _, _, _, _, _, _, _, _, _, _, _, _, 0, _, hf => absurd hf (by omega)
  | _, _, .nil he, key, v, cs, hv, hread, _, _, hb, hg, fuel + 1, rest, hf => by
    have hends := endsNumber_of_spellsFields (.nil he) rest
    rw [fields, skipBlanks_append hb, quoted_append, skipBlanks_cons (by decide)]
    simp only [string_quoted, Option.bind_eq_bind, Option.bind_some]
    rw [skipBlanks_cons (by decide)]
    simp only [skipBlanks_append hg, skipBlanks_of_spells hv, hread fuel _ (by omega) hends,
      Option.bind_some]
    rw [List.append_assoc, skipBlanks_append he, List.singleton_append, skipBlanks_cons (by decide)]
    rfl
  | _, _, .cons key' hb' hg' hv' hfs', key, v, cs, hv, hread, _, _, hb, hg, fuel + 1, rest, hf => by
    have hends := endsNumber_of_spellsFields (.cons key' hb' hg' hv' hfs') rest
    simp only [List.length_cons, List.length_append] at hf
    have ih := fields_of_spells hfs' key' hv' (readsAs_of_spells hv') hb' hg' fuel rest (by omega)
    rw [fields, skipBlanks_append hb, quoted_append, skipBlanks_cons (by decide)]
    simp only [string_quoted, Option.bind_eq_bind, Option.bind_some]
    rw [skipBlanks_cons (by decide)]
    simp only [skipBlanks_append hg, skipBlanks_of_spells hv, hread fuel _ (by omega) hends,
      Option.bind_some]
    simp only [List.append_assoc, List.cons_append]
    rw [skipBlanks_cons (by decide)]
    simp only [ih, Option.map_some]
    rfl

end

theorem parseChars_of_spells {v : Value} {cs : List Char} (h : Spells v cs) :
    parseChars cs = some v := by
  have hskip := skipBlanks_of_spells h []
  have hvalue := readsAs_of_spells h (2 * cs.length + 2) [] (by omega) endsNumber_nil
  rw [List.append_nil] at hskip hvalue
  unfold parseChars
  rw [hskip, hvalue]
  rfl

end Exploration.Json
