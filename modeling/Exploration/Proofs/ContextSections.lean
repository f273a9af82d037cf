import Mathlib
import Exploration.Proofs.Digits
import Exploration.Proofs.RankedLists
import Exploration.Strategy.Context

/-!
# The sections of a context

A context is written in paragraphs with a blank line between any two: the header, then a heading
with its entries for each part of the strategy that has any, and the opening sequence. A text of the
strategy without line feeds cannot break a line or pass for a blank one, so the paragraphs can be
read off again (`paragraphs_context`), each with as many entries as were written into it.
-/

namespace Exploration

/-! ## Lines and paragraphs -/

namespace Text

/-- The lines of a text; each is ended by a line feed. -/
def lines (text : String) : List String :=
  (text.toList.splitOn '\n').dropLast.map String.ofList

/-- The stretches of lines between the blank lines of a text. -/
def paragraphs (text : String) : List (List String) := (lines text).splitOn ""

/-- A line that is neither blank nor broken. -/
def IsLine (line : String) : Prop := line ≠ "" ∧ '\n' ∉ line.toList

def IsParagraph (p : List String) : Prop := p ≠ [] ∧ ∀ line ∈ p, IsLine line

theorem intercalate_cons {α : Type} (separator first : List α) : ∀ rest : List (List α),
    separator.intercalate (first :: rest) = first ++ rest.flatMap (separator ++ ·)
  | [] => by simp
  | second :: rest => by
    rw [List.intercalate_cons_cons, intercalate_cons separator second rest]
    simp

theorem toList_join_lines : ∀ ls : List String,
    (String.join (ls.map (· ++ "\n"))).toList = ['\n'].intercalate (ls.map String.toList ++ [[]])
  | [] => by simp
  | l :: ls => by
    obtain ⟨next, rest, hnext⟩ := List.exists_cons_of_ne_nil
      (List.append_ne_nil_of_right_ne_nil (ls.map String.toList) (List.cons_ne_nil [] []))
    have ih := toList_join_lines ls
    rw [hnext] at ih
    rw [List.map_cons, String.join_cons, String.toList_append, ih, List.map_cons, List.cons_append,
      hnext, List.intercalate_cons_cons, String.toList_append]
    rfl

/-- Lines are read as they were written, if none is broken. -/
theorem lines_join {ls : List String} (h : ∀ l ∈ ls, '\n' ∉ l.toList) :
    lines (String.join (ls.map (· ++ "\n"))) = ls := by
  have hparts : ∀ part ∈ ls.map String.toList ++ [[]], '\n' ∉ part := by
    simpa [or_imp, forall_and] using h
  rw [lines, toList_join_lines, List.splitOn_intercalate '\n' hparts (by simp),
    List.dropLast_concat, List.map_map]
  simp [Function.comp_def]

/-- Paragraphs are read as they were written, if no line of them is blank or broken. -/
theorem paragraphs_join {ps : List (List String)} (hps : ps ≠ [])
    (h : ∀ p ∈ ps, IsParagraph p) :
    paragraphs (String.join (([""].intercalate ps).map (· ++ "\n"))) = ps := by
  rw [paragraphs, lines_join, List.splitOn_intercalate "" (fun p hp hblank => ?_) hps]
  · exact ((h p hp).2 "" hblank).1 rfl
  · obtain ⟨first, rest, rfl⟩ := List.exists_cons_of_ne_nil hps
    intro l hl
    rw [intercalate_cons] at hl
    rcases List.mem_append.1 hl with hl | hl
    · exact ((h first List.mem_cons_self).2 l hl).2
    · obtain ⟨p, hp, hl⟩ := List.mem_flatMap.1 hl
      rcases List.mem_cons.1 hl with rfl | hl
      · simp
      · exact ((h p (List.mem_cons_of_mem _ hp)).2 l hl).2

/-- The last line of paragraphs is that of the last one, so only one line feed is at the end. -/
theorem exists_last_join {ps : List (List String)} (hps : ps ≠ [])
    (h : ∀ p ∈ ps, IsParagraph p) : ∃ body last,
      (String.join (([""].intercalate ps).map (· ++ "\n"))).toList = body ++ [last, '\n'] ∧
        last ≠ '\n' := by
  obtain ⟨before, line, hlines, hline⟩ : ∃ before line,
      [""].intercalate ps = before ++ [line] ∧ IsLine line := by
    obtain ⟨first, rest, rfl⟩ := List.exists_cons_of_ne_nil hps
    rw [intercalate_cons]
    rcases List.eq_nil_or_concat' rest with rfl | ⟨rest, final, rfl⟩
    · obtain ⟨hne, hall⟩ := h first List.mem_cons_self
      obtain ⟨before, line, rfl⟩ := (List.eq_nil_or_concat' first).resolve_left hne
      exact ⟨before, line, by simp, hall line (by simp)⟩
    · obtain ⟨hne, hall⟩ := h final (by simp)
      obtain ⟨before, line, rfl⟩ := (List.eq_nil_or_concat' final).resolve_left hne
      exact ⟨first ++ rest.flatMap ("" :: ·) ++ "" :: before, line, by simp, hall line (by simp)⟩
  obtain ⟨start, last, hlast⟩ :=
    (List.eq_nil_or_concat' line.toList).resolve_left (mt String.toList_eq_nil_iff.1 hline.1)
  refine ⟨(String.join (before.map (· ++ "\n"))).toList ++ start, last, ?_, ?_⟩
  · simp [hlines, hlast]
  · rintro rfl
    exact hline.2 (by simp [hlast])

theorem newline_notMem_intercalate {separator : String} (hs : '\n' ∉ separator.toList)
    {texts : List String} (h : ∀ text ∈ texts, '\n' ∉ text.toList) :
    '\n' ∉ (separator.intercalate texts).toList := by
  rw [String.toList_intercalate]
  rcases texts with _ | ⟨first, rest⟩
  · simp
  · obtain ⟨hfirst, hrest⟩ := List.forall_mem_cons.1 h
    rw [List.map_cons, intercalate_cons]
    simpa [hfirst, hs] using hrest

end Text

/-! ## Numbers in a line -/

theorem Decimal.mem_withPlaces {places n : Nat} {c : Char} (h : c ∈ withPlaces places n) :
    isDigit c = true ∨ c = '.' := by
  unfold withPlaces at h
  split_ifs at h
  · exact Or.inl (isDigit_of_mem_padded h)
  · rcases List.mem_append.1 h with h | h
    · exact Or.inl (isDigit_of_mem_padded (List.mem_of_mem_take h))
    · rcases List.mem_cons.1 h with h | h
      · exact Or.inr h
      · exact Or.inl (isDigit_of_mem_padded (List.mem_of_mem_drop h))

theorem Decimal.newline_notMem_fixedText (places : Nat) (x : Float) :
    '\n' ∉ (fixedText places x).toList := by
  have hplaces : ∀ n, '\n' ∉ withPlaces places n := fun n h =>
    (mem_withPlaces h).elim (by decide) (by decide)
  rw [fixedText, String.toList_ofList, fixed]
  rcases Double.parts x with _ | negative | ⟨negative, mantissa, exponent⟩
  · simp
  · cases negative <;> simp
  · cases negative <;> simp [hplaces]

theorem newline_notMem_toDigits (n : Nat) : '\n' ∉ Nat.toDigits 10 n := fun h =>
  absurd (Decimal.isDigit_of_mem_digits h) (by decide)

namespace Strategy

/-! ## The lines of a strategy -/

/-- All texts that a strategy holds. -/
def contents (s : Strategy) : List String :=
  s.productiveSearches.map (·.query) ++ s.deadEnds ++ s.sourcePriorities.keys ++
    s.sharedTopics.flatMap (fun t => t.topic :: t.sources) ++ s.toolSequence

/-- No text of the strategy has a line feed. -/
def Unbroken (s : Strategy) : Prop := ∀ text ∈ s.contents, '\n' ∉ text.toList

theorem Unbroken.tools {s : Strategy} (h : s.Unbroken) :
    ∀ tool ∈ s.toolSequence, '\n' ∉ tool.toList := fun tool htool =>
  h tool (List.mem_append_right _ htool)

/-- The one line of the opening sequence. -/
def openingLine (tools : List String) : String :=
  "Recommended opening sequence: " ++ " -> ".intercalate tools

/-- Whether a line is that of an entry. -/
def isEntry (line : String) : Bool := "- ".toList.isPrefixOf line.toList

/-- A line that begins with a letter is no entry. -/
theorem isLine_heading {line : String} {c : Char} (hc : c ≠ '-') (hline : [c] <+: line.toList)
    (h : '\n' ∉ line.toList) : Text.IsLine line ∧ isEntry line = false := by
  refine ⟨⟨?_, h⟩, Bool.eq_false_iff.2 fun hdash => ?_⟩
  · rintro rfl
    simp at hline
  · rw [isEntry, List.isPrefixOf_iff_prefix] at hdash
    obtain ⟨rest, hrest⟩ := hline
    rw [← hrest] at hdash
    exact hc (List.cons_prefix_cons.1 hdash).1.symm

theorem isLine_entry {line : String} (hdash : "- ".toList <+: line.toList)
    (h : '\n' ∉ line.toList) : Text.IsLine line ∧ isEntry line = true := by
  refine ⟨⟨?_, h⟩, List.isPrefixOf_iff_prefix.2 hdash⟩
  rintro rfl
  simp at hdash

theorem isLine_header (s : Strategy) : Text.IsLine s.header ∧ isEntry s.header = false := by
  have hcost := Decimal.newline_notMem_fixedText 2 s.totalCost
  unfold header
  generalize Decimal.fixedText 2 s.totalCost = cost at hcost ⊢
  exact isLine_heading (by decide : 'E' ≠ '-') (by simp) (by simp [newline_notMem_toDigits, hcost])

theorem isLine_productiveLine {p : ProductiveSearch} (h : '\n' ∉ p.query.toList) :
    Text.IsLine (productiveLine p) ∧ isEntry (productiveLine p) = true := by
  have hrate := Decimal.newline_notMem_fixedText 0 (p.hitRate * 100)
  have hrelevance := Decimal.newline_notMem_fixedText 2 p.relevance
  unfold productiveLine
  generalize Decimal.fixedText 0 (p.hitRate * 100) = rate at hrate ⊢
  generalize Decimal.fixedText 2 p.relevance = relevance at hrelevance ⊢
  exact isLine_entry (by simp) (by simp [h, hrate, hrelevance])

theorem isLine_deadEndLine {query : String} (h : '\n' ∉ query.toList) :
    Text.IsLine (deadEndLine query) ∧ isEntry (deadEndLine query) = true :=
  isLine_entry (by simp [deadEndLine]) (by simp [deadEndLine, h])

theorem isLine_sourceLine {e : String × Float} (h : '\n' ∉ e.1.toList) :
    Text.IsLine (sourceLine e) ∧ isEntry (sourceLine e) = true := by
  have hpriority := Decimal.newline_notMem_fixedText 2 e.2
  exact isLine_entry (by simp [sourceLine]) (by simp [sourceLine, h, hpriority])

theorem isLine_topicLine {t : SharedTopic} (h : ∀ text ∈ t.topic :: t.sources, '\n' ∉ text.toList) :
    Text.IsLine (topicLine t) ∧ isEntry (topicLine t) = true := by
  obtain ⟨htopic, hsources⟩ := List.forall_mem_cons.1 h
  have hlist := Text.newline_notMem_intercalate (by decide : '\n' ∉ ", ".toList) hsources
  have hstrength := Decimal.newline_notMem_fixedText 2 t.strength
  unfold topicLine
  generalize ", ".intercalate t.sources = list at hlist ⊢
  exact isLine_entry (by simp) (by simp [htopic, hlist, hstrength])

theorem isLine_openingLine {tools : List String} (h : ∀ tool ∈ tools, '\n' ∉ tool.toList) :
    Text.IsLine (openingLine tools) ∧ isEntry (openingLine tools) = false := by
  have hlist := Text.newline_notMem_intercalate (by decide : '\n' ∉ " -> ".toList) h
  unfold openingLine
  generalize " -> ".intercalate tools = list at hlist ⊢
  exact isLine_heading (by decide : 'R' ≠ '-') (by simp) (by simp [hlist])

/-! ## The sections -/

/-- The lists of a strategy, each with its heading and a line for every entry. -/
def tables (s : Strategy) (sources : List (String × Float)) : List (String × List String) :=
  [("Productive searches:", s.productiveSearches.map productiveLine),
    ("Dead ends (avoid):", s.deadEnds.map deadEndLine),
    ("Source priorities:", sources.map sourceLine),
    ("Cross-platform topics:", s.sharedTopics.map topicLine)]

/-- The lists that are not empty under their headings. -/
def titled (tables : List (String × List String)) : List (List String) :=
  (tables.filter (!·.2.isEmpty)).map fun table => table.1 :: table.2

/-- The opening sequence, if there is one. -/
def opening (tools : List String) : List (List String) :=
  if tools.isEmpty then [] else [[openingLine tools]]

def sections (s : Strategy) (sources : List (String × Float)) : List (List String) :=
  titled (s.tables sources) ++ opening s.toolSequence

/-- How many entries the sections have. -/
def counts (s : Strategy) : List Nat :=
  [s.productiveSearches.length, s.deadEnds.length, s.sourcePriorities.entries.length,
    s.sharedTopics.length].filter (· ≠ 0) ++ (opening s.toolSequence).map fun _ => 0

theorem part_eq {α : Type} (heading : String) (line : α → String) (entries : List α) :
    part heading line entries = (titled [(heading, entries.map line)]).flatMap ("" :: ·) := by
  cases entries <;> simp [part, titled]

theorem sequencePart_eq (tools : List String) :
    sequencePart tools = (opening tools).flatMap ("" :: ·) := by
  cases tools <;> rfl

theorem titled_cons (table : String × List String) (tables : List (String × List String)) :
    titled (table :: tables) = titled [table] ++ titled tables := by
  rw [titled, titled, titled, ← List.map_append, ← List.filter_append, List.singleton_append]

theorem lines_eq (s : Strategy) :
    s.lines = [""].intercalate ([s.header] :: s.sections s.orderedSources) := by
  rw [Text.intercalate_cons, sections, tables, titled_cons, titled_cons _ (_ :: _ :: _),
    titled_cons _ [_]]
  simp only [lines, part_eq, sequencePart_eq, List.flatMap_append, List.append_assoc]
  rfl

theorem mem_titled {tables : List (String × List String)} {p : List String} :
    p ∈ titled tables ↔ ∃ table ∈ tables, table.2 ≠ [] ∧ table.1 :: table.2 = p := by
  simp [titled, and_assoc]

theorem mem_opening {tools : List String} {p : List String} (h : p ∈ opening tools) :
    p = [openingLine tools] := by
  unfold opening at h
  split_ifs at h
  · cases h
  · exact List.mem_singleton.1 h

/-- A heading with the lines of the entries under it. -/
structure IsTable (table : String × List String) : Prop where
  heading : Text.IsLine table.1 ∧ isEntry table.1 = false
  entries : ∀ line ∈ table.2, Text.IsLine line ∧ isEntry line = true

theorem isTable_tables {s : Strategy} (h : s.Unbroken) {sources : List (String × Float)}
    (hsources : ∀ e ∈ sources, e.1 ∈ s.sourcePriorities.keys) :
    ∀ table ∈ s.tables sources, IsTable table := by
  have hheading : ∀ heading ∈ ["Productive searches:", "Dead ends (avoid):", "Source priorities:",
      "Cross-platform topics:"], Text.IsLine heading ∧ isEntry heading = false := by
    simp [Text.IsLine, isEntry, List.isPrefixOf]
  simp only [List.forall_mem_cons] at hheading
  simp only [Unbroken, contents, List.forall_mem_append, List.forall_mem_map,
    List.forall_mem_flatMap] at h
  obtain ⟨⟨⟨⟨hproductive, hdeadEnds⟩, hkeys⟩, htopics⟩, -⟩ := h
  obtain ⟨h₁, h₂, h₃, h₄, -⟩ := hheading
  simp only [tables, List.forall_mem_cons]
  refine ⟨⟨h₁, ?_⟩, ⟨h₂, ?_⟩, ⟨h₃, ?_⟩, ⟨h₄, ?_⟩, by simp⟩ <;> simp only [List.forall_mem_map]
  · exact fun p hp => isLine_productiveLine (hproductive p hp)
  · exact fun query hquery => isLine_deadEndLine (hdeadEnds query hquery)
  · exact fun e he => isLine_sourceLine (hkeys _ (hsources e he))
  · exact fun t ht => isLine_topicLine (htopics t ht)

theorem isParagraph_sections {s : Strategy} (h : s.Unbroken) {sources : List (String × Float)}
    (hsources : ∀ e ∈ sources, e.1 ∈ s.sourcePriorities.keys) :
    ∀ p ∈ [s.header] :: s.sections sources, Text.IsParagraph p := by
  refine List.forall_mem_cons.2 ⟨⟨by simp, by simpa using s.isLine_header.1⟩, fun p hp => ?_⟩
  rcases List.mem_append.1 hp with hp | hp
  · obtain ⟨table, htable, -, rfl⟩ := mem_titled.1 hp
    have ht := isTable_tables h hsources table htable
    refine ⟨by simp, ?_⟩
    exact List.forall_mem_cons.2 ⟨ht.heading.1, fun line hline => (ht.entries line hline).1⟩
  · obtain rfl := mem_opening hp
    exact ⟨by simp, by simpa using (isLine_openingLine h.tools).1⟩

/-! ## The order of the sources -/

/-- The sources are sorted by what their priorities rank and then by their names. -/
theorem before_iff (a b : String × Float) : (Double.totalLt b.2 a.2 ||
    (Double.totalLe b.2 a.2 && decide (a.1 ≤ b.1))) = true ↔
      toLex (OrderDual.toDual (Double.rank a.2), a.1) ≤
        toLex (OrderDual.toDual (Double.rank b.2), b.1) := by
  simp only [Double.totalLt, Double.totalLe, Bool.or_eq_true, Bool.and_eq_true, decide_eq_true_eq,
    Prod.Lex.toLex_le_toLex, OrderDual.toDual_lt_toDual, OrderDual.toDual_inj,
    le_iff_lt_or_eq (a := Double.rank b.2)]
  tauto

theorem pairwise_orderedSources (s : Strategy) :
    s.orderedSources.Pairwise (Outranks (fun e => Double.rank e.2) (·.1)) := by
  have hsorted : s.orderedSources.Pairwise fun a b =>
      toLex (OrderDual.toDual (Double.rank a.2), a.1) ≤
        toLex (OrderDual.toDual (Double.rank b.2), b.1) := by
    refine (List.pairwise_mergeSort (fun a b c hab hbc => ?_) (fun a b => ?_) _).imp
      fun h => (before_iff _ _).1 h
    · exact (before_iff a c).2 (((before_iff a b).1 hab).trans ((before_iff b c).1 hbc))
    · rw [Bool.or_eq_true, before_iff, before_iff]
      exact le_total _ _
  have hnames : s.orderedSources.Pairwise fun a b => a.1 ≠ b.1 :=
    ((List.mergeSort_perm _ _).pairwise_iff Ne.symm).2
      (s.sourcePriorities.ascending.imp String.ne_of_lt)
  refine (hsorted.and hnames).imp fun {a b} ⟨hle, hne⟩ => ?_
  rw [Prod.Lex.toLex_le_toLex, OrderDual.toDual_lt_toDual, OrderDual.toDual_inj] at hle
  exact hle.imp_right fun ⟨hrank, hname⟩ => ⟨hrank, lt_of_le_of_ne hname hne⟩

/-! ## The text -/

/-- The entries that a paragraph has. -/
def entries (paragraph : List String) : List String := paragraph.filter isEntry

theorem entries_table {table : String × List String} (h : IsTable table) :
    entries (table.1 :: table.2) = table.2 := by
  rw [entries, List.filter_cons_of_neg (by simp [h.heading.2])]
  exact List.filter_eq_self.2 fun line hline => (h.entries line hline).2

theorem counts_titled : ∀ {tables : List (String × List String)}, (∀ t ∈ tables, IsTable t) →
    (titled tables).map (fun p => (entries p).length) =
      (tables.map (·.2.length)).filter (· ≠ 0)
  | [], _ => rfl
  | table :: tables, h => by
    obtain ⟨htable, htables⟩ := List.forall_mem_cons.1 h
    have hcount := entries_table htable
    rw [titled_cons, List.map_append, counts_titled htables]
    rcases table with ⟨heading, _ | ⟨line, rest⟩⟩
    · simp [titled]
    · simp [titled, hcount]

theorem counts_sections {s : Strategy} (h : s.Unbroken) {sources : List (String × Float)}
    (hsources : sources.Perm s.sourcePriorities.entries) :
    ([s.header] :: s.sections sources).map (fun p => (entries p).length) = 0 :: s.counts := by
  have hkeys : ∀ e ∈ sources, e.1 ∈ s.sourcePriorities.keys := fun e he =>
    List.mem_map_of_mem (hsources.subset he)
  have hheader : entries [s.header] = [] := by simp [entries, s.isLine_header.2]
  have hopening : (opening s.toolSequence).map (fun p => (entries p).length) =
      (opening s.toolSequence).map fun _ => 0 := by
    refine List.map_congr_left fun p hp => ?_
    obtain rfl := mem_opening hp
    simp [entries, (isLine_openingLine h.tools).2]
  rw [List.map_cons, hheader, sections, List.map_append, hopening,
    counts_titled (isTable_tables h hkeys), counts]
  simp [tables, hsources.length_eq]

/-- Where no text has a line feed of its own, the paragraphs of the context are the header and the
sections, which stand in their order and with all their entries. -/
theorem context_sections {s : Strategy} (h : s.Unbroken) :
    ∃ sources : List (String × Float), sources.Perm s.sourcePriorities.entries ∧
      sources.Pairwise (Outranks (fun e => Double.rank e.2) (·.1)) ∧
      (∃ body last, s.context.toList = body ++ [last, '\n'] ∧ last ≠ '\n') ∧
      Text.paragraphs s.context = [s.header] :: s.sections sources ∧
      (∀ table ∈ s.tables sources, IsTable table) ∧
      (Text.paragraphs s.context).map (fun p => (entries p).length) = 0 :: s.counts := by
  have hperm : s.orderedSources.Perm s.sourcePriorities.entries := List.mergeSort_perm _ _
  have hkeys : ∀ e ∈ s.orderedSources, e.1 ∈ s.sourcePriorities.keys := fun e he =>
    List.mem_map_of_mem (hperm.subset he)
  have hall := isParagraph_sections h hkeys
  have hcontext : s.context = String.join
      (([""].intercalate ([s.header] :: s.sections s.orderedSources)).map (· ++ "\n")) := by
    rw [context, lines_eq]
  have hparagraphs : Text.paragraphs s.context = [s.header] :: s.sections s.orderedSources := by
    rw [hcontext, Text.paragraphs_join (by simp) hall]
  refine ⟨s.orderedSources, hperm, s.pairwise_orderedSources, ?_, hparagraphs,
    isTable_tables h hkeys, ?_⟩
  · rw [hcontext]
    exact Text.exists_last_join (by simp) hall
  · rw [hparagraphs, counts_sections h hperm]

/-- Queries and sources that are blank or look like entries, and priorities that differ by a
sign. -/
def oddStrategy : Strategy :=
  { Strategy.empty 3 with
    productiveSearches := [⟨"", 0.5, 1⟩, ⟨"- \"climbing\" - ", 0.0 / 0.0, -1⟩]
    sourcePriorities := .ofList [("strava", -0.0), ("", 0.0), (" - ", 0.0)]
    toolSequence := [""] }

theorem context_sections_oddStrategy : oddStrategy.Unbroken ∧
    (Text.paragraphs oddStrategy.context).map (fun p => (entries p).length) = [0, 2, 3, 0] := by
  have hunbroken : oddStrategy.Unbroken := by
    have hcontents : oddStrategy.contents =
        ["", "- \"climbing\" - ", "", " - ", "strava", ""] := rfl
    rw [Unbroken, hcontents]
    decide
  obtain ⟨-, -, -, -, -, -, hcounts⟩ := context_sections hunbroken
  exact ⟨hunbroken, hcounts⟩

end Strategy

end Exploration
