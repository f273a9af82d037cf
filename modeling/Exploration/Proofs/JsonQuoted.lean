import Mathlib
import Exploration.Json.Reader
import Exploration.Json.Writer

/-!
# Texts in a JSON text

A quoted text reads back as itself, whatever its characters are (`string_quoted`): every escape is
one piece, and that piece joins to the character it was made of.
-/

namespace Exploration.Json

/-- The piece that the escape of `c` is read as. -/
def IsPieceOf (c : Char) (p : Piece) : Prop := p = .char c ∨ (p = .unit c.toNat ∧ c.toNat < 0x20)

theorem read_hexDigits :
    ∀ n < 0x20, Numeral.read? 16 ['0', '0', hexDigit (n / 16), hexDigit (n % 16)] = some n := by
  decide

theorem pieces_plain {c : Char} (hq : c ≠ '"') (hb : c ≠ '\\') (hc : 0x20 ≤ c.toNat)
    (rest : List Char) :
    pieces (c :: rest) = (pieces rest).map fun (ps, r) => (.char c :: ps, r) := by
  rw [pieces]
  · simp only [guard, hc, hb, ne_eq, not_false_eq_true, and_self, if_true]
    rcases pieces rest with _ | ⟨ps, r⟩ <;> rfl
  · exact fun h => hq h
  · exact fun _ _ _ _ _ h => absurd h hb
  · exact fun _ _ h => absurd h hb

theorem pieces_escape (c : Char) : ∃ p, IsPieceOf c p ∧ ∀ rest,
    pieces (escape c ++ rest) = (pieces rest).map fun (ps, r) => (p :: ps, r) := by
  have hnamed : ∀ d : Char, unescape? d = some c → d ≠ 'u' → ∀ rest,
      pieces ('\\' :: d :: rest) = (pieces rest).map fun (ps, r) => (.char c :: ps, r) := by
    intro d hd hu rest
    rw [pieces]
    · rw [hd]
      rcases pieces rest with _ | ⟨ps, r⟩ <;> rfl
    · simp [hu]
  unfold escape
  split_ifs with h1 h2 h3 h4 h5 h6 h7 h8
  · exact ⟨.char c, Or.inl rfl, hnamed _ (by rw [h1]; rfl) (by decide)⟩
  · exact ⟨.char c, Or.inl rfl, hnamed _ (by rw [h2]; rfl) (by decide)⟩
  · exact ⟨.char c, Or.inl rfl, hnamed _ (by rw [h4]; rfl) (by decide)⟩
  · exact ⟨.char c, Or.inl rfl, hnamed _ (by rw [h5]; rfl) (by decide)⟩
  · exact ⟨.char c, Or.inl rfl, hnamed _ (by rw [h6]; rfl) (by decide)⟩
  · have hc : c = '\x08' := Char.toNat_inj.1 h7
    exact ⟨.char c, Or.inl rfl, hnamed _ (by rw [hc]; rfl) (by decide)⟩
  · have hc : c = '\x0c' := Char.toNat_inj.1 h8
    exact ⟨.char c, Or.inl rfl, hnamed _ (by rw [hc]; rfl) (by decide)⟩
  · refine ⟨.unit c.toNat, Or.inr ⟨rfl, h3⟩, fun rest => ?_⟩
    simp only [List.cons_append, List.nil_append]
    rw [pieces, read_hexDigits _ h3]
    rcases pieces rest with _ | ⟨ps, r⟩ <;> rfl
  · exact ⟨.char c, Or.inl rfl, pieces_plain h1 h2 (by omega)⟩

theorem join_cons {c : Char} {p : Piece} (h : IsPieceOf c p) (ps : List Piece) :
    join (p :: ps) = (join ps).map (c :: ·) := by
  rcases h with rfl | ⟨rfl, hc⟩
  · rw [join]
  · have hhigh : isHigh c.toNat = false := by
      simp only [isHigh, Bool.and_eq_false_iff, decide_eq_false_iff_not]
      omega
    have hlow : isLow c.toNat = false := by
      simp only [isLow, Bool.and_eq_false_iff, decide_eq_false_iff_not]
      omega
    rcases ps with _ | ⟨_ | n, ps⟩ <;> simp [join, hhigh, hlow, Char.ofNat_toNat]

theorem pieces_flatMap_escape (rest : List Char) : ∀ cs : List Char,
    ∃ ps, pieces (cs.flatMap escape ++ '"' :: rest) = some (ps, rest) ∧ join ps = some cs
  | [] => ⟨[], by simp [pieces], rfl⟩
  | c :: cs => by
    obtain ⟨p, hp, hpieces⟩ := pieces_escape c
    obtain ⟨ps, hps, hjoin⟩ := pieces_flatMap_escape rest cs
    refine ⟨p :: ps, ?_, ?_⟩
    · rw [List.flatMap_cons, List.append_assoc, hpieces, hps]
      rfl
    · rw [join_cons hp, hjoin]
      rfl

theorem string_quoted (s : String) (rest : List Char) :
    string (s.toList.flatMap escape ++ '"' :: rest) = some (some s, rest) := by
  obtain ⟨ps, hps, hjoin⟩ := pieces_flatMap_escape rest s.toList
  simp [string, hps, hjoin]

theorem quoted_append (s : String) (rest : List Char) :
    quoted s ++ rest = '"' :: (s.toList.flatMap escape ++ '"' :: rest) := by
  simp [quoted]

end Exploration.Json
