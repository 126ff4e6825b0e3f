import Mathlib.Data.Int.Order.Basic
import Mathlib.Tactic.SplitIfs
import NibbleAsm.Text.Width

/-! Columns add up. A character may take a column back from the text after it, but only one that
the ligature or picture there has added before (`Opening.debt`). So no text has fewer columns than
none, and spaces after a text add a column each. -/

namespace NibbleAsm.Text

namespace Opening

/-- The columns that the character before may take back: that of a letter which can go below
another, of the sign between two consonants, and of an indicator that has no partner yet. -/
def debt : Opening → ℤ
  | .ligature .coengLetter _ => 1
  | .ligature .markedConsonant _ => 1
  | .picture (.joinedIndicators count) => if count % 2 = 1 then 1 else 0
  | _ => 0

theorem debt_nonneg (o : Opening) : 0 ≤ o.debt := by
  unfold debt
  split
  · decide
  · decide
  · split <;> decide
  · decide

theorem debt_behindSelector_le (o : Opening) : o.behindSelector.debt ≤ o.debt := by
  cases o with
  | plain => exact le_refl _
  | ligature ending joined => exact le_refl _
  | picture ending => exact debt_nonneg _

end Opening

/-- What an advance leaves open is covered by what it adds and what was open before. -/
def Advance.Covers (a : Advance) (o : Opening) : Prop :=
  a.opening.debt ≤ a.columns + o.debt

instance (a : Advance) (o : Opening) : Decidable (a.Covers o) :=
  inferInstanceAs (Decidable (_ ≤ _))

theorem Advance.Covers.of_le {a : Advance} {o o' : Opening} (h : a.Covers o)
    (hle : o.debt ≤ o'.debt) : a.Covers o' :=
  le_trans h (Int.add_le_add_left hle _)

theorem Advance.covers_of_debt_le {a : Advance} (h : a.opening.debt ≤ a.columns) (o : Opening) :
    a.Covers o :=
  le_trans h (Int.le_add_of_nonneg_right o.debt_nonneg)

theorem ligatureRules_covers :
    ∀ r ∈ ligatureRules, ∀ joined, r.advance.Covers (.ligature r.ending joined) := by
  decide

namespace LigatureEnd

theorem covers_of_advance? {ending : LigatureEnd} {joined : Bool} {c : Char} {a : Advance}
    (h : ending.advance? joined c = some a) : a.Covers (.ligature ending joined) := by
  unfold advance? at h
  split at h
  · obtain rfl := Option.some.inj h
    -- the ligature behind the mark is still open
    cases ending <;> exact le_refl _
  · obtain ⟨r, hr, rfl⟩ := Option.map_eq_some_iff.1 h
    have hmem := List.mem_of_find?_eq_some hr
    have hrule := List.find?_some hr
    simp only [Bool.and_eq_true, decide_eq_true_eq] at hrule
    obtain ⟨⟨rfl, -⟩, -⟩ := hrule
    exact ligatureRules_covers r hmem joined

end LigatureEnd

namespace PictureEnd

theorem debt_le_of_joinedAdvance? {c : Char} {a : Advance} (h : joinedAdvance? c = some a) :
    a.opening.debt ≤ a.columns := by
  unfold joinedAdvance? at h
  split_ifs at h <;> obtain rfl := Option.some.inj h <;> decide

theorem debt_le_of_tagAdvance? {digits letters : ℕ} {c : Char} {a : Advance}
    (h : tagAdvance? digits letters c = some a) : a.opening.debt ≤ a.columns := by
  unfold tagAdvance? at h
  split_ifs at h <;> obtain rfl := Option.some.inj h <;> exact le_refl _

/-- Indicators pair up: an odd one is open, and the next one closes it. -/
theorem covers_joinedIndicators (count : ℕ) :
    (⟨if count % 2 = 1 then -1 else 3, .picture (.joinedIndicators (count + 1))⟩ : Advance).Covers
      (.picture (.joinedIndicators count)) := by
  unfold Advance.Covers Opening.debt
  rcases Nat.mod_two_eq_zero_or_one count with h | h
  · have hnext : (count + 1) % 2 = 1 := by omega
    simp [h, hnext]
  · have hnext : (count + 1) % 2 = 0 := by omega
    simp [h, hnext]

theorem covers_of_advance? {ending : PictureEnd} {c : Char} {a : Advance}
    (h : ending.advance? c = some a) : a.Covers (.picture ending) := by
  unfold advance? at h
  split at h
  · obtain rfl := Option.some.inj h
    exact Advance.covers_of_debt_le (le_refl _) _
  · cases ending with
    | joinedIndicators count =>
      dsimp only at h
      split at h
      · obtain rfl := Option.some.inj h
        exact covers_joinedIndicators count
      · cases h
    | joined => exact Advance.covers_of_debt_le (debt_le_of_joinedAdvance? h) _
    | joinedTag digits letters => exact Advance.covers_of_debt_le (debt_le_of_tagAdvance? h) _
    | skinTone =>
      dsimp only at h
      split_ifs at h
      obtain rfl := Option.some.inj h
      exact le_refl _
    | indicators count =>
      dsimp only at h
      split_ifs at h
      obtain rfl := Option.some.inj h
      exact Advance.covers_of_debt_le (by simp [Opening.debt]) _
    | whole => cases h
    | keycap => cases h

end PictureEnd

theorem CharSet.not_contains_of_apart {s t : CharSet} {c : Char}
    (h : (s.ranges.all fun r => t.ranges.all fun q => r.2 < q.1 || q.2 < r.1) = true)
    (hs : s.contains c = true) : t.contains c = false := by
  simp only [List.all_eq_true, Bool.or_eq_true, decide_eq_true_eq] at h
  obtain ⟨r, hr, hlow, hhigh⟩ := contains_iff.1 hs
  rw [← Bool.not_eq_true, contains_iff]
  rintro ⟨q, hq, hlow', hhigh'⟩
  have hapart := h r hr q hq
  omega

theorem charWidth_pos_of_coengLetters {c : Char} (hc : coengLetters.contains c = true) :
    0 < charWidth c := by
  have hzero : zeroWidth.contains c = false :=
    CharSet.not_contains_of_apart (s := coengLetters) (by decide +kernel) hc
  unfold charWidth
  simp only [hzero, Bool.false_eq_true, if_false]
  split_ifs <;> decide

theorem debt_le_of_mem_openings {p : CharSet × Opening} (hp : p ∈ openings) {c : Char}
    (hc : p.1.contains c = true) : p.2.debt ≤ charWidth c := by
  simp only [openings, List.mem_cons, List.not_mem_nil, or_false] at hp
  rcases hp with rfl | rfl | rfl | rfl | rfl | rfl | rfl | rfl | rfl | rfl
  -- only the letters that can go below another are in debt
  case inr.inr.inl => exact Int.natCast_pos.2 (charWidth_pos_of_coengLetters hc)
  all_goals exact Int.natCast_nonneg _

namespace Opening

theorem debt_ofChar_le (c : Char) : (ofChar c).debt ≤ charWidth c := by
  unfold ofChar
  cases hfind : openings.find? (·.1.contains c) with
  | none => exact Int.natCast_nonneg _
  | some p =>
    have hcontains := List.find?_some hfind
    exact debt_le_of_mem_openings (List.mem_of_find?_eq_some hfind) hcontains

theorem covers_of_advance? {o : Opening} {c : Char} {a : Advance} (h : o.advance? c = some a) :
    a.Covers o := by
  cases o with
  | plain => cases h
  | ligature ending joined => exact LigatureEnd.covers_of_advance? h
  | picture ending => exact PictureEnd.covers_of_advance? h

end Opening

namespace Context

theorem debt_settled_le (k : Context) : k.settled.debt ≤ k.opening.debt := by
  unfold settled
  split_ifs
  · exact k.opening.debt_behindSelector_le
  · exact le_refl _

theorem debt_select_le (s : Selector) (o : Opening) : (select s o).opening.debt ≤ o.debt := by
  unfold select
  dsimp only
  split_ifs
  · exact le_refl _
  · exact o.debt_behindSelector_le

theorem debt_le_of_selected? {k : Context} {c : Char} {a : Advance}
    (h : k.selected? c = some a) : a.opening.debt ≤ a.columns := by
  unfold selected? at h
  split at h
  · split_ifs at h <;> obtain rfl := Option.some.inj h <;> decide
  · split_ifs at h
    obtain rfl := Option.some.inj h
    decide
  · cases h

theorem covers_advance (k : Context) (c : Char) : (k.advance c).Covers k.opening := by
  unfold advance
  split
  next a ha => exact Advance.covers_of_debt_le (debt_le_of_selected? ha) _
  · split_ifs
    · exact Advance.covers_of_debt_le (by decide) _
    · cases hnext : k.settled.advance? c with
      | none => exact Advance.covers_of_debt_le (Opening.debt_ofChar_le c) _
      | some a => exact (Opening.covers_of_advance? hnext).of_le k.debt_settled_le

end Context

/-- The columns counted so far cover what the text opens with. -/
def Covered (p : Int × Context) : Prop :=
  p.2.opening.debt ≤ p.1

theorem covered_prepend (c : Char) {p : Int × Context} (hp : Covered p) :
    Covered (prepend c p) := by
  unfold prepend
  split
  next s _ =>
    have hselect := Context.debt_select_le s p.2.settled
    exact le_trans hselect (le_trans p.2.debt_settled_le hp)
  · exact le_trans (p.2.covers_advance c) (Int.add_le_add_left hp _)

theorem covered_foldr (text : List Char) {p : Int × Context} (hp : Covered p) :
    Covered (text.foldr prepend p) := by
  induction text with
  | nil => exact hp
  | cons c text ih => exact covered_prepend c ih

/-- Nothing is cut off where the columns of a text become a natural number. -/
theorem width_eq_columns (text : List Char) :
    (width text : ℤ) = (text.foldr prepend (0, .ending)).1 := by
  have hcovered : Covered (text.foldr prepend (0, .ending)) := covered_foldr text (le_refl _)
  exact Int.toNat_of_nonneg (le_trans (Opening.debt_nonneg _) hcovered)

/-- The sign before the second letter takes back the column of that letter. -/
example : width ['\u1780', '\u17D2', '\u1780'] = 1 := by decide +kernel

theorem prepend_add (c : Char) (n m : ℤ) (k : Context) :
    prepend c (n + m, k) = ((prepend c (n, k)).1 + m, (prepend c (n, k)).2) := by
  unfold prepend
  split
  · rfl
  · dsimp only
    rw [Int.add_assoc]

/-- What a text adds to the columns after it does not depend on how many these are. -/
theorem foldr_prepend_add (text : List Char) (n m : ℤ) (k : Context) :
    text.foldr prepend (n + m, k) =
      ((text.foldr prepend (n, k)).1 + m, (text.foldr prepend (n, k)).2) := by
  induction text with
  | nil => rfl
  | cons c text ih => rw [List.foldr_cons, List.foldr_cons, ih, prepend_add]

theorem foldr_prepend_spaces (n : ℕ) :
    (List.replicate n ' ').foldr prepend (0, .ending) = ((n : ℤ), Context.ending) := by
  induction n with
  | zero => rfl
  | succ n ih =>
    rw [List.replicate_succ, List.foldr_cons, ih]
    have hspace : prepend ' ' ((n : ℤ), Context.ending) = (1 + (n : ℤ), Context.ending) := rfl
    rw [hspace, Int.natCast_succ, Int.add_comm]

theorem width_append_spaces (text : List Char) (n : ℕ) :
    width (text ++ List.replicate n ' ') = width text + n := by
  have hcolumns := width_eq_columns (text ++ List.replicate n ' ')
  have hshift := foldr_prepend_add text 0 n .ending
  rw [List.foldr_append, foldr_prepend_spaces, ← Int.zero_add (n : ℤ), hshift,
    ← width_eq_columns] at hcolumns
  omega

end NibbleAsm.Text
