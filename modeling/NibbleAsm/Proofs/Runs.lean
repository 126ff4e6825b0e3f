import Mathlib.Data.List.Basic
import NibbleAsm.Proofs.Requests
import NibbleAsm.Statement

/-! Tokens as the maximal runs of a text. `RunAt` says where a run stands and why it can be made no
longer on either side; the words of a text are its runs, in the order in which they stand
(`Spaced.exists_runs`). A trimmed text starts with its first word and ends with its last one. -/

namespace NibbleAsm

namespace Text

variable {α : Type} {sep : α → Bool}

/-- The run `w` stands in `s` from position `i` on: one element at least, no separator among them,
and a separator or nothing on either side. -/
def RunAt (sep : α → Bool) (s : List α) (i : ℕ) (w : List α) : Prop :=
  w ≠ [] ∧ (∀ c ∈ w, sep c = false) ∧
    ∃ before after, s = before ++ (w ++ after) ∧ before.length = i ∧
      (∀ c, before.getLast? = some c → sep c = true) ∧ ∀ c, after.head? = some c → sep c = true

theorem not_runAt_of_seps {gap : List α} (hgap : ∀ c ∈ gap, sep c = true) (i : ℕ) (w : List α) :
    ¬ RunAt sep gap i w := by
  rintro ⟨hne, hw, before, after, rfl, -⟩
  obtain ⟨c, hc⟩ := List.exists_mem_of_ne_nil w hne
  have hsep : sep c = true := hgap c (by simp [hc])
  rw [hw c hc] at hsep
  cases hsep

theorem runAt_cons_sep {a : α} (ha : sep a = true) {s : List α} {i : ℕ} {w : List α} :
    RunAt sep (a :: s) i w ↔ ∃ j, i = 1 + j ∧ RunAt sep s j w := by
  constructor
  · rintro ⟨hne, hw, before, after, hs, rfl, hbefore, hafter⟩
    cases before with
    | nil =>
      obtain ⟨c, w, rfl⟩ := List.exists_cons_of_ne_nil hne
      obtain ⟨rfl, -⟩ := List.cons.inj hs
      rw [hw a (by simp)] at ha
      cases ha
    | cons b before =>
      obtain ⟨rfl, rfl⟩ := List.cons.inj hs
      refine ⟨before.length, by simp [Nat.add_comm], hne, hw, before, after, rfl, rfl, ?_, hafter⟩
      intro c hc
      apply hbefore
      simp [List.getLast?_cons, hc]
  · rintro ⟨j, rfl, hne, hw, before, after, rfl, rfl, hbefore, hafter⟩
    refine ⟨hne, hw, a :: before, after, rfl, by simp [Nat.add_comm], ?_, hafter⟩
    intro c hc
    rw [List.getLast?_cons] at hc
    cases hlast : before.getLast? with
    | none =>
      rw [hlast] at hc
      obtain rfl : a = c := by simpa using hc
      exact ha
    | some d =>
      rw [hlast] at hc
      obtain rfl : d = c := by simpa using hc
      exact hbefore d hlast

theorem runAt_seps_append {gap : List α} (hgap : ∀ c ∈ gap, sep c = true) {s : List α} {i : ℕ}
    {w : List α} : RunAt sep (gap ++ s) i w ↔ ∃ j, i = gap.length + j ∧ RunAt sep s j w := by
  induction gap generalizing i with
  | nil => simp
  | cons a gap ih =>
    rw [List.forall_mem_cons] at hgap
    rw [List.cons_append, runAt_cons_sep hgap.1, List.length_cons]
    constructor
    · rintro ⟨j, rfl, h⟩
      obtain ⟨k, rfl, hk⟩ := (ih hgap.2).1 h
      exact ⟨k, by omega, hk⟩
    · rintro ⟨k, rfl, hk⟩
      exact ⟨gap.length + k, by omega, (ih hgap.2).2 ⟨k, rfl, hk⟩⟩

/-- A word in front is a run of its own, and the runs that follow it are moved by its length. -/
theorem runAt_word_append {v s : List α} (hne : v ≠ []) (hv : ∀ c ∈ v, sep c = false)
    (hbreak : ∀ c, s.head? = some c → sep c = true) {i : ℕ} {w : List α} :
    RunAt sep (v ++ s) i w ↔ i = 0 ∧ w = v ∨ ∃ j, i = v.length + j ∧ RunAt sep s j w := by
  constructor
  · rintro ⟨hwne, hw, before, after, hs, rfl, hbefore, hafter⟩
    rcases List.append_eq_append_iff.1 hs with ⟨gap, rfl, rfl⟩ | ⟨rest, rfl, hrest⟩
    · refine Or.inr ⟨gap.length, List.length_append, hwne, hw, gap, after, rfl, rfl, ?_, hafter⟩
      intro c hc
      apply hbefore
      rw [List.getLast?_append, hc]
      rfl
    · -- the run starts inside the word, so it starts where the word does, and words end alike
      cases hlast : before.getLast? with
      | some d =>
        have hsep := hbefore d hlast
        rw [hv d (List.mem_append_left _ (List.mem_of_getLast? hlast))] at hsep
        cases hsep
      | none =>
        obtain rfl := List.getLast?_eq_none_iff.1 hlast
        rw [List.nil_append] at hne hv ⊢
        have hwords : w :: words sep after = rest :: words sep s := by
          rw [← words_word_append hwne hw hafter, hrest, words_word_append hne hv hbreak]
        exact Or.inl ⟨rfl, (List.cons.inj hwords).1⟩
  · rintro (⟨rfl, rfl⟩ | ⟨j, rfl, hwne, hw, before, after, rfl, rfl, hbefore, hafter⟩)
    · exact ⟨hne, hv, [], s, rfl, rfl, by simp, hbreak⟩
    · refine ⟨hwne, hw, v ++ before, after, by simp, by simp, ?_, hafter⟩
      intro c hc
      cases hlast : before.getLast? with
      | some d =>
        rw [List.getLast?_append, hlast] at hc
        obtain rfl : d = c := by simpa using hc
        exact hbefore d hlast
      | none =>
        -- the run would start right after the word, where a separator has to stand
        obtain rfl := List.getLast?_eq_none_iff.1 hlast
        obtain ⟨d, w, rfl⟩ := List.exists_cons_of_ne_nil hwne
        have hsep := hbreak d rfl
        rw [hw d (by simp)] at hsep
        cases hsep

/-- The words that are spaced out in a text are its runs, each once and in order of position. -/
theorem Spaced.exists_runs {ws : List (List α)} {s : List α} (h : Spaced sep ws s) :
    ∃ runs : List (ℕ × List α), runs.map Prod.snd = ws ∧
      runs.Pairwise (fun r r' => r.1 < r'.1) ∧ ∀ i w, (i, w) ∈ runs ↔ RunAt sep s i w := by
  induction h with
  | nil hgap => exact ⟨[], rfl, .nil, fun i w => by simp [not_runAt_of_seps hgap i w]⟩
  | @cons gap v s ws hgap hne hv hbreak _ ih =>
    obtain ⟨runs, hruns, hsorted, hmem⟩ := ih
    have hpos : 0 < v.length := List.length_pos_iff.2 hne
    refine ⟨(gap.length, v) :: runs.map fun r => (gap.length + (v.length + r.1), r.2), ?_, ?_, ?_⟩
    · simp [← hruns, Function.comp_def]
    · refine List.pairwise_cons.2 ⟨?_, ?_⟩
      · intro r hr
        obtain ⟨q, -, rfl⟩ := List.mem_map.1 hr
        dsimp only
        omega
      · exact List.pairwise_map.2 (hsorted.imp fun hlt => by omega)
    · intro i w
      rw [runAt_seps_append hgap]
      simp only [runAt_word_append hne hv hbreak, List.mem_cons, List.mem_map, Prod.mk.injEq,
        Prod.exists, hmem]
      constructor
      · rintro (⟨rfl, rfl⟩ | ⟨j, u, hu, rfl, rfl⟩)
        · exact ⟨0, rfl, Or.inl ⟨rfl, rfl⟩⟩
        · exact ⟨v.length + j, rfl, Or.inr ⟨j, rfl, hu⟩⟩
      · rintro ⟨k, rfl, ⟨rfl, rfl⟩ | ⟨j, rfl, hw⟩⟩
        · exact Or.inl ⟨rfl, rfl⟩
        · exact Or.inr ⟨j, w, hw, rfl, rfl⟩

theorem prefix_of_head?_words {s w : List α} (hs : ∀ c, s.head? = some c → sep c = false)
    (hw : (words sep s).head? = some w) : w <+: s := by
  cases s with
  | nil => simp at hw
  | cons a s =>
    rw [words_cons_word (hs a rfl), List.head?_cons, Option.some_inj] at hw
    rw [← hw, List.prefix_cons_inj]
    exact List.takeWhile_prefix _

theorem prefix_trim_of_head?_words {s w : List α} (hw : (words sep s).head? = some w) :
    w <+: trim sep s := by
  rw [← words_trim] at hw
  exact prefix_of_head?_words (fun _ => not_sep_of_head?_trim) hw

theorem suffix_trim_of_getLast?_words {s w : List α} (hw : (words sep s).getLast? = some w) :
    w <:+ trim sep s := by
  rw [← words_trim] at hw
  obtain ⟨front, hs, -⟩ := exists_front_of_getLast?_words (fun _ => not_sep_of_getLast?_trim) hw
  exact ⟨front, hs.symm⟩

end Text

namespace Line

theorem tokens_eq_iff {l : Line} {ts : List Token} :
    l.tokens = ts ↔ Text.Spaced Text.isBlank (ts.map String.toList) l.text.toList := by
  rw [tokens, Text.spaced_iff]
  constructor
  · rintro rfl
    simp [Function.comp_def]
  · intro h
    rw [h]
    simp [Function.comp_def]

theorem firstToken?_eq_none_iff {l : Line} : l.firstToken? = none ↔ l.tokens = [] :=
  List.head?_eq_none_iff

theorem exists_runs (l : Line) :
    ∃ runs : List (ℕ × List Char), (runs.map fun r => String.ofList r.2) = l.tokens ∧
      runs.Pairwise (fun r r' => r.1 < r'.1) ∧
      ∀ i w, (i, w) ∈ runs ↔ Text.RunAt Text.isBlank l.text.toList i w := by
  obtain ⟨runs, hruns, hsorted, hmem⟩ := (Text.spaced_words Text.isBlank l.text.toList).exists_runs
  refine ⟨runs, ?_, hsorted, hmem⟩
  rw [tokens, ← hruns, List.map_map]
  rfl

theorem exists_firstToken? {l : Line} (h : l.isBlank = false) : ∃ t, l.firstToken? = some t := by
  rw [← Option.ne_none_iff_exists', Ne, firstToken?_eq_none_iff, ← isBlank_iff, h]
  decide

/-- What is left of a line without the blanks around it starts with the first token and ends with
the last one. -/
theorem exists_ends_trimmed {l : Line} (h : l.isBlank = false) :
    ∃ first last : Token, l.tokens.head? = some first ∧ l.tokens.getLast? = some last ∧
      first.toList <+: l.trimmed.toList ∧ last.toList <:+ l.trimmed.toList := by
  obtain ⟨first, hfirst⟩ := exists_firstToken? h
  obtain ⟨last, hlast⟩ : ∃ last, l.tokens.getLast? = some last := by
    rw [← Option.ne_none_iff_exists', Ne, List.getLast?_eq_none_iff, ← isBlank_iff, h]
    decide
  refine ⟨first, last, hfirst, hlast, ?_, ?_⟩
  · rw [firstToken?, tokens, List.head?_map] at hfirst
    obtain ⟨w, hw, rfl⟩ := Option.map_eq_some_iff.1 hfirst
    rw [trimmed, String.toList_ofList, String.toList_ofList]
    exact Text.prefix_trim_of_head?_words hw
  · rw [tokens, List.getLast?_map] at hlast
    obtain ⟨w, hw, rfl⟩ := Option.map_eq_some_iff.1 hlast
    rw [trimmed, String.toList_ofList, String.toList_ofList]
    exact Text.suffix_trim_of_getLast?_words hw

end Line

/-- An immediate opcode that stands alone takes its operand from the first token of the line it
finds. -/
theorem Statement.encode_immediate_ahead {f : Feed} {q : Line} {t : Token}
    (hq : f.nextNonblank.line? = some q) (ht : q.firstToken? = some t) (op : Opcode) (l : Line) :
    (Statement.immediate op none).encode l f =
      ⟨atLine q.number ([op.base, ·]) (op.immediateByte t), f.nextNonblank.skipped,
        f.nextNonblank.rest⟩ := by
  simp only [encode, hq, ht]

/-- The tokens of a line are the maximal runs of its text, in order, and the text is made of them
and of blanks. A line has no tokens just when trimming leaves nothing of it, so a line that was
sought for its operand has one. Trimming keeps the tokens and is done once for all, and what it
leaves of a line that is not blank starts with the first token and ends with the last. -/
theorem Line.tokens_are_runs (l : Line) :
    (∃ runs : List (ℕ × List Char), (runs.map fun r => String.ofList r.2) = l.tokens ∧
      runs.Pairwise (fun r r' => r.1 < r'.1) ∧
      ∀ i w, (i, w) ∈ runs ↔ Text.RunAt Text.isBlank l.text.toList i w) ∧
    (∀ ts : List Token, l.tokens = ts ↔
      Text.Spaced Text.isBlank (ts.map String.toList) l.text.toList) ∧
    (l.isBlank = true ↔ l.tokens = []) ∧ (l.tokens = [] ↔ l.firstToken? = none) ∧
    (∀ f : Feed, f.nextNonblank.line? = some l → ∃ t, l.firstToken? = some t ∧
      ∀ (op : Opcode) (k : Line), (Statement.immediate op none).encode k f =
        ⟨Statement.atLine l.number ([op.base, ·]) (op.immediateByte t), f.nextNonblank.skipped,
          f.nextNonblank.rest⟩) ∧
    (l.isBlank = false → ∃ first last : Token, l.tokens.head? = some first ∧
      l.tokens.getLast? = some last ∧ first.toList <+: l.trimmed.toList ∧
      last.toList <:+ l.trimmed.toList) ∧
    (⟨l.number, l.trimmed⟩ : Line).tokens = l.tokens ∧
    (⟨l.number, l.trimmed⟩ : Line).trimmed = l.trimmed := by
  refine ⟨l.exists_runs, fun ts => tokens_eq_iff, isBlank_iff, firstToken?_eq_none_iff.symm, ?_,
    exists_ends_trimmed, l.tokens_trimmed, l.trimmed_trimmed⟩
  intro f hf
  obtain ⟨t, ht⟩ := exists_firstToken? (Feed.not_isBlank_of_nextNonblank hf)
  exact ⟨t, ht, Statement.encode_immediate_ahead hf ht⟩

/-- A line found behind a blank one: it has a token for the opcode that looks for one, and trimmed
it runs from its first token to its last. -/
theorem Line.tokens_are_runs_ahead :
    Feed.nextNonblank ⟨[⟨2, "\u0085"⟩, ⟨3, "\u30009\t x\r"⟩]⟩ =
      ⟨[⟨2, "\u0085"⟩], some ⟨3, "\u30009\t x\r"⟩, ⟨[]⟩⟩ ∧
    (∃ t, firstToken? ⟨3, "\u30009\t x\r"⟩ = some t ∧
      (Statement.immediate ⟨"LDI", .immediate, 0xC0⟩ none).encode ⟨1, "LDI"⟩
          ⟨[⟨2, "\u0085"⟩, ⟨3, "\u30009\t x\r"⟩]⟩ =
        ⟨Statement.atLine 3 ([0xC0, ·]) (Opcode.immediateByte ⟨"LDI", .immediate, 0xC0⟩ t),
          [⟨2, "\u0085"⟩], ⟨[]⟩⟩) ∧
    isBlank ⟨3, "\u30009\t x\r"⟩ = false ∧
    ∃ first last : Token, (tokens ⟨3, "\u30009\t x\r"⟩).head? = some first ∧
      (tokens ⟨3, "\u30009\t x\r"⟩).getLast? = some last ∧
      first.toList <+: (trimmed ⟨3, "\u30009\t x\r"⟩).toList ∧
      last.toList <:+ (trimmed ⟨3, "\u30009\t x\r"⟩).toList := by
  have hfound : Feed.nextNonblank ⟨[⟨2, "\u0085"⟩, ⟨3, "\u30009\t x\r"⟩]⟩ =
      ⟨[⟨2, "\u0085"⟩], some ⟨3, "\u30009\t x\r"⟩, ⟨[]⟩⟩ := by decide
  have hblank : isBlank ⟨3, "\u30009\t x\r"⟩ = false := by decide
  obtain ⟨-, -, -, -, hahead, hends, -⟩ := tokens_are_runs ⟨3, "\u30009\t x\r"⟩
  refine ⟨hfound, ?_, hblank, hends hblank⟩
  obtain ⟨t, ht, hencode⟩ := hahead ⟨[⟨2, "\u0085"⟩, ⟨3, "\u30009\t x\r"⟩]⟩ (by rw [hfound])
  refine ⟨t, ht, ?_⟩
  rw [hencode, hfound]

end NibbleAsm
