import Mathlib.Data.List.DropRight
import NibbleAsm.Source

/-! Words and trimming. Cutting at a separator gives the words of both sides (`words_append_sep`),
and the rest follows from that: separators at the ends change no words, so trimming keeps them. -/

namespace NibbleAsm.Text

variable {α : Type} {sep : α → Bool}

theorem takeWhile_append_cons (p : α → Bool) {c : α} (hc : p c = false) (s t : List α) :
    (s ++ c :: t).takeWhile p = s.takeWhile p := by
  induction s with
  | nil => simp [hc]
  | cons a s ih => by_cases ha : p a <;> simp [ha, ih]

theorem dropWhile_append_cons (p : α → Bool) {c : α} (hc : p c = false) (s t : List α) :
    (s ++ c :: t).dropWhile p = s.dropWhile p ++ c :: t := by
  induction s with
  | nil => simp [hc]
  | cons a s ih => by_cases ha : p a <;> simp [ha, ih]

theorem words_append_sep {c : α} (hc : sep c = true) (s t : List α) :
    words sep (s ++ c :: t) = words sep s ++ words sep t := by
  fun_induction words sep s with
  | case1 => rw [List.nil_append, List.nil_append, words_cons_sep hc]
  | case2 a s ha ih => rw [List.cons_append, words_cons_sep ha, ih]
  | case3 a s ha ih =>
    have hc' : (!sep c) = false := by rw [hc]; rfl
    rw [List.cons_append, words_cons_word (by simpa using ha),
      takeWhile_append_cons (fun b => !sep b) hc', dropWhile_append_cons (fun b => !sep b) hc', ih,
      List.cons_append]

theorem words_eq_nil_iff {s : List α} : words sep s = [] ↔ ∀ c ∈ s, sep c = true := by
  fun_induction words sep s with
  | case1 => simp
  | case2 a s ha ih => simp [ha, ih]
  | case3 a s ha ih => simp [ha]

theorem words_append_of_seps {t : List α} (ht : ∀ c ∈ t, sep c = true) (s : List α) :
    words sep (s ++ t) = words sep s := by
  cases t with
  | nil => rw [List.append_nil]
  | cons c t =>
    have hnil : words sep t = [] := words_eq_nil_iff.2 fun d hd => ht d (List.mem_cons_of_mem c hd)
    rw [words_append_sep (ht c List.mem_cons_self), hnil, List.append_nil]

theorem words_seps_append {t : List α} (ht : ∀ c ∈ t, sep c = true) (s : List α) :
    words sep (t ++ s) = words sep s := by
  induction t with
  | nil => rfl
  | cons c t ih =>
    rw [List.cons_append, words_cons_sep (ht c List.mem_cons_self)]
    exact ih fun d hd => ht d (List.mem_cons_of_mem c hd)

theorem words_of_no_sep {w : List α} (hne : w ≠ []) (h : ∀ c ∈ w, sep c = false) :
    words sep w = [w] := by
  cases w with
  | nil => exact absurd rfl hne
  | cons a s =>
    have hs : ∀ c ∈ s, (!sep c) = true := fun c hc => by simp [h c (List.mem_cons_of_mem a hc)]
    rw [words_cons_word (h a List.mem_cons_self), List.takeWhile_eq_self_iff.2 hs,
      List.dropWhile_eq_nil_iff.2 hs, words_nil]

theorem of_mem_words {s w : List α} (hw : w ∈ words sep s) :
    w ≠ [] ∧ ∀ c ∈ w, sep c = false := by
  fun_induction words sep s with
  | case1 => simp at hw
  | case2 a s ha ih => exact ih hw
  | case3 a s ha ih =>
    rcases List.mem_cons.1 hw with rfl | hw
    · refine ⟨List.cons_ne_nil _ _, fun c hc => ?_⟩
      rcases List.mem_cons.1 hc with rfl | hc
      · simpa using ha
      · simpa using List.mem_takeWhile_imp hc
    · exact ih hw

/-- What trimming takes off: separators before and separators after. -/
theorem exists_trim_eq (sep : α → Bool) (s : List α) :
    ∃ before after, s = before ++ trim sep s ++ after ∧
      (∀ c ∈ before, sep c = true) ∧ ∀ c ∈ after, sep c = true := by
  refine ⟨s.takeWhile sep, ((s.dropWhile sep).reverse.takeWhile sep).reverse, ?_, ?_, ?_⟩
  · have hback : trim sep s ++ ((s.dropWhile sep).reverse.takeWhile sep).reverse =
        s.dropWhile sep := by
      rw [trim, ← List.reverse_append, List.takeWhile_append_dropWhile, List.reverse_reverse]
    rw [List.append_assoc, hback, List.takeWhile_append_dropWhile]
  · exact fun c hc => List.mem_takeWhile_imp hc
  · exact fun c hc => List.mem_takeWhile_imp (List.mem_reverse.1 hc)

theorem mem_of_mem_trim {s : List α} {c : α} (hc : c ∈ trim sep s) : c ∈ s := by
  obtain ⟨before, after, hs, -⟩ := exists_trim_eq sep s
  rw [hs]
  exact List.mem_append_left _ (List.mem_append_right _ hc)

theorem words_trim (sep : α → Bool) (s : List α) : words sep (trim sep s) = words sep s := by
  obtain ⟨before, after, hs, hbefore, hafter⟩ := exists_trim_eq sep s
  conv_rhs => rw [hs]
  rw [words_append_of_seps hafter, words_seps_append hbefore]

theorem trim_eq_nil_iff {s : List α} : trim sep s = [] ↔ ∀ c ∈ s, sep c = true := by
  constructor
  · intro h
    obtain ⟨before, after, hs, hbefore, hafter⟩ := exists_trim_eq sep s
    rw [h, List.append_nil] at hs
    intro c hc
    rw [hs] at hc
    exact (List.mem_append.1 hc).elim (hbefore c) (hafter c)
  · intro h
    rw [trim, List.dropWhile_eq_nil_iff.2 h]
    rfl

theorem not_sep_of_head?_dropWhile {s : List α} {c : α} (hc : (s.dropWhile sep).head? = some c) :
    sep c = false := by
  have h := List.head?_dropWhile_not sep s
  rw [hc] at h
  exact h

theorem not_sep_of_head?_trim {s : List α} {c : α} (hc : (trim sep s).head? = some c) :
    sep c = false := by
  obtain ⟨t, ht⟩ : trim sep s <+: s.dropWhile sep := List.rdropWhile_prefix sep _
  apply not_sep_of_head?_dropWhile (s := s)
  rw [← ht, List.head?_append, hc]
  rfl

theorem not_sep_of_getLast?_trim {s : List α} {c : α} (hc : (trim sep s).getLast? = some c) :
    sep c = false := by
  rw [trim, List.getLast?_reverse] at hc
  exact not_sep_of_head?_dropWhile hc

theorem trim_eq_self {s : List α} (hfirst : ∀ c, s.head? = some c → sep c = false)
    (hlast : ∀ c, s.getLast? = some c → sep c = false) : trim sep s = s := by
  have hdrop : ∀ t : List α, (∀ c, t.head? = some c → sep c = false) → t.dropWhile sep = t := by
    intro t ht
    cases t with
    | nil => rfl
    | cons a t => rw [List.dropWhile_cons_of_neg (by simp [ht a rfl])]
  rw [trim, hdrop s hfirst, hdrop s.reverse (by simpa using hlast), List.reverse_reverse]

theorem trim_trim (sep : α → Bool) (s : List α) : trim sep (trim sep s) = trim sep s :=
  trim_eq_self (fun _ => not_sep_of_head?_trim) (fun _ => not_sep_of_getLast?_trim)

theorem trim_of_no_sep {w : List α} (h : ∀ c ∈ w, sep c = false) : trim sep w = w :=
  trim_eq_self (fun c hc => h c (List.mem_of_head? hc)) (fun c hc => h c (List.mem_of_getLast? hc))

/-- A change of elements that keeps the separators changes the words element by element. -/
theorem words_map {β : Type} {sep' : β → Bool} {f : α → β} (hf : ∀ a, sep' (f a) = sep a)
    (s : List α) : words sep' (s.map f) = (words sep s).map (List.map f) := by
  fun_induction words sep s with
  | case1 => simp
  | case2 a s ha ih => rw [List.map_cons, words_cons_sep (by rw [hf, ha]), ih]
  | case3 a s ha ih =>
    have hcomp : (fun b => !sep' b) ∘ f = fun b => !sep b := funext fun b => by simp [hf]
    rw [List.map_cons, words_cons_word (by simpa [hf] using ha), List.takeWhile_map,
      List.dropWhile_map, hcomp, ih, List.map_cons, List.map_cons]

theorem trim_map {β : Type} {sep' : β → Bool} {f : α → β} (hf : ∀ a, sep' (f a) = sep a)
    (s : List α) : trim sep' (s.map f) = (trim sep s).map f := by
  have hcomp : sep' ∘ f = sep := funext hf
  rw [trim, trim, List.dropWhile_map, ← List.map_reverse, List.dropWhile_map, ← List.map_reverse,
    hcomp]

/-- `Spaced sep ws s`: the list is the words `ws` with separators around them, one at least between
any two. -/
inductive Spaced (sep : α → Bool) : List (List α) → List α → Prop
  | nil {gap : List α} (hgap : ∀ c ∈ gap, sep c = true) : Spaced sep [] gap
  | cons {gap w s : List α} {ws : List (List α)} (hgap : ∀ c ∈ gap, sep c = true) (hne : w ≠ [])
      (hw : ∀ c ∈ w, sep c = false) (hbreak : ∀ c, s.head? = some c → sep c = true)
      (hs : Spaced sep ws s) : Spaced sep (w :: ws) (gap ++ (w ++ s))

theorem words_word_append {w s : List α} (hne : w ≠ []) (hw : ∀ c ∈ w, sep c = false)
    (hbreak : ∀ c, s.head? = some c → sep c = true) : words sep (w ++ s) = w :: words sep s := by
  cases s with
  | nil => rw [List.append_nil, words_of_no_sep hne hw, words_nil]
  | cons c s =>
    have hc : sep c = true := hbreak c rfl
    rw [words_append_sep hc, words_of_no_sep hne hw, words_cons_sep hc, List.singleton_append]

/-- However words are spaced out, they are read back. -/
theorem Spaced.words_eq {ws : List (List α)} {s : List α} (h : Spaced sep ws s) :
    words sep s = ws := by
  induction h with
  | nil hgap => exact words_eq_nil_iff.2 hgap
  | cons hgap hne hw hbreak _ ih =>
    rw [words_seps_append hgap, words_word_append hne hw hbreak, ih]

theorem Spaced.cons_sep {ws : List (List α)} {s : List α} {a : α} (h : Spaced sep ws s)
    (ha : sep a = true) : Spaced sep ws (a :: s) := by
  cases h with
  | nil hgap => exact .nil (List.forall_mem_cons.2 ⟨ha, hgap⟩)
  | @cons gap w s ws hgap hne hw hbreak hs =>
    rw [← List.cons_append]
    exact .cons (List.forall_mem_cons.2 ⟨ha, hgap⟩) hne hw hbreak hs

/-- Every list is its words, spaced out. -/
theorem spaced_words (sep : α → Bool) (s : List α) : Spaced sep (words sep s) s := by
  fun_induction words sep s with
  | case1 => exact .nil (List.forall_mem_nil _)
  | case2 a s ha ih => exact ih.cons_sep ha
  | case3 a s ha ih =>
    have hw : ∀ c ∈ a :: s.takeWhile (fun b => !sep b), sep c = false := by
      refine List.forall_mem_cons.2 ⟨by simpa using ha, fun c hc => ?_⟩
      simpa using List.mem_takeWhile_imp hc
    have hbreak : ∀ c, (s.dropWhile fun b => !sep b).head? = some c → sep c = true := by
      intro c hc
      simpa using not_sep_of_head?_dropWhile hc
    have hs := Spaced.cons (List.forall_mem_nil _) (List.cons_ne_nil _ _) hw hbreak ih
    rwa [List.nil_append, List.cons_append, List.takeWhile_append_dropWhile] at hs

/-- A text that does not end with a separator ends with its last word, and what stands before that
word ends with a separator. -/
theorem Spaced.exists_front {ws : List (List α)} {s w : List α} (h : Spaced sep ws s)
    (hs : ∀ c, s.getLast? = some c → sep c = false) (hw : ws.getLast? = some w) :
    ∃ front, s = front ++ w ∧ ∀ c, front.getLast? = some c → sep c = true := by
  induction h with
  | nil => cases hw
  | @cons gap v s ws hgap _ _ hbreak hrest ih =>
    have hlast : ∀ c, s.getLast? = some c → sep c = false := by
      intro c hc
      apply hs
      rw [List.getLast?_append, List.getLast?_append, hc]
      rfl
    cases hws : ws.getLast? with
    | some u =>
      rw [List.getLast?_cons, hws] at hw
      obtain rfl : u = w := by simpa using hw
      obtain ⟨front, rfl, hfront⟩ := ih hlast hws
      refine ⟨gap ++ (v ++ front), by simp, ?_⟩
      intro c hc
      cases hend : front.getLast? with
      | some d =>
        rw [List.getLast?_append, List.getLast?_append, hend] at hc
        obtain rfl : d = c := by simpa using hc
        exact hfront d hend
      | none =>
        -- the last word would follow the one before it with no separator between them
        obtain rfl := List.getLast?_eq_none_iff.1 hend
        have hmem : u ∈ words sep ([] ++ u) := hrest.words_eq ▸ List.mem_of_getLast? hws
        obtain ⟨hne, hword⟩ := of_mem_words hmem
        obtain ⟨d, u, rfl⟩ := List.exists_cons_of_ne_nil hne
        have hsep := hbreak d rfl
        rw [hword d (by simp)] at hsep
        cases hsep
    | none =>
      -- no word follows, so the rest is all separators, and there is none to end with
      obtain rfl := List.getLast?_eq_none_iff.1 hws
      obtain rfl : v = w := by simpa using hw
      have hseps := words_eq_nil_iff.1 hrest.words_eq
      cases hend : s.getLast? with
      | some c =>
        have hsep := hseps c (List.mem_of_getLast? hend)
        rw [hlast c hend] at hsep
        cases hsep
      | none =>
        obtain rfl := List.getLast?_eq_none_iff.1 hend
        exact ⟨gap, by simp, fun c hc => hgap c (List.mem_of_getLast? hc)⟩

theorem exists_front_of_getLast?_words {s w : List α}
    (hs : ∀ c, s.getLast? = some c → sep c = false) (hw : (words sep s).getLast? = some w) :
    ∃ front, s = front ++ w ∧ ∀ c, front.getLast? = some c → sep c = true :=
  (spaced_words sep s).exists_front hs hw

theorem spaced_iff {ws : List (List α)} {s : List α} : Spaced sep ws s ↔ words sep s = ws :=
  ⟨Spaced.words_eq, fun h => h ▸ spaced_words sep s⟩

end NibbleAsm.Text

namespace NibbleAsm

/-- One character at least, and no blank among them. -/
def Token.IsWord (t : Token) : Prop :=
  t.toList ≠ [] ∧ ∀ c ∈ t.toList, Text.isBlank c = false

namespace Line

/-- Blankness is told by trimming, and it means that the line has no tokens. -/
theorem isBlank_iff {l : Line} : l.isBlank = true ↔ l.tokens = [] := by
  rw [isBlank, tokens, List.isEmpty_iff, Text.trim_eq_nil_iff, List.map_eq_nil_iff,
    Text.words_eq_nil_iff]

theorem not_isBlank_of_tokens {l : Line} {t : Token} {args : List Token}
    (h : l.tokens = t :: args) : l.isBlank = false := by
  by_contra hblank
  rw [isBlank_iff.1 (Bool.of_not_eq_false hblank)] at h
  cases h

theorem isWord_of_mem_tokens {l : Line} {t : Token} (ht : t ∈ l.tokens) : t.IsWord := by
  obtain ⟨w, hw, rfl⟩ := List.mem_map.1 ht
  rw [Token.IsWord, String.toList_ofList]
  exact Text.of_mem_words hw

theorem tokens_word (n : ℕ) {t : Token} (ht : t.IsWord) : (⟨n, t⟩ : Line).tokens = [t] := by
  rw [tokens, Text.words_of_no_sep ht.1 ht.2, List.map_singleton, String.ofList_toList]

theorem tokens_pair (n : ℕ) {t u : Token} (ht : t.IsWord) (hu : u.IsWord) :
    (⟨n, t ++ " " ++ u⟩ : Line).tokens = [t, u] := by
  have htext : (t ++ " " ++ u).toList = t.toList ++ ' ' :: u.toList := by
    rw [String.toList_append, String.toList_append, List.append_assoc]
    rfl
  rw [tokens, htext, Text.words_append_sep (by decide), Text.words_of_no_sep ht.1 ht.2,
    Text.words_of_no_sep hu.1 hu.2, List.singleton_append, List.map_cons, List.map_singleton,
    String.ofList_toList, String.ofList_toList]

theorem tokens_trimmed (l : Line) : (⟨l.number, l.trimmed⟩ : Line).tokens = l.tokens := by
  rw [tokens, tokens, trimmed, String.toList_ofList, Text.words_trim]

theorem trimmed_trimmed (l : Line) : (⟨l.number, l.trimmed⟩ : Line).trimmed = l.trimmed := by
  rw [trimmed, trimmed, String.toList_ofList, Text.trim_trim]

end Line

end NibbleAsm
