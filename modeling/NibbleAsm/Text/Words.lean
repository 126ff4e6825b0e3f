import NibbleAsm.Text.CharSet

/-! Words and trimming, over any notion of separator. `words` cuts a list into its maximal runs of
elements that are not separators; `trim` drops the separators at both ends. In a line of source the
blank characters separate. -/

namespace NibbleAsm.Text

/-- The property White_Space of the Unicode standard, and nothing else: a zero width space or a byte
order mark is not blank. -/
def blanks : CharSet where
  ranges :=
    [(0x09, 0x0D), (0x20, 0x20), (0x85, 0x85), (0xA0, 0xA0), (0x1680, 0x1680), (0x2000, 0x200A),
     (0x2028, 0x2029), (0x202F, 0x202F), (0x205F, 0x205F), (0x3000, 0x3000)]

def isBlank (c : Char) : Bool :=
  blanks.contains c

variable {α : Type}

def words (sep : α → Bool) : List α → List (List α)
  | [] => []
  | a :: s =>
    if sep a then words sep s
    else (a :: s.takeWhile fun b => !sep b) :: words sep (s.dropWhile fun b => !sep b)
termination_by s => s.length
decreasing_by
  · simp
  · have := (List.dropWhile_sublist (l := s) fun b => !sep b).length_le
    simp only [List.length_cons]
    omega

def trim (sep : α → Bool) (s : List α) : List α :=
  ((s.dropWhile sep).reverse.dropWhile sep).reverse

@[simp] theorem words_nil (sep : α → Bool) : words sep [] = [] := by
  rw [words]

theorem words_cons_sep {sep : α → Bool} {a : α} (h : sep a = true) (s : List α) :
    words sep (a :: s) = words sep s := by
  rw [words, if_pos h]

theorem words_cons_word {sep : α → Bool} {a : α} (h : sep a = false) (s : List α) :
    words sep (a :: s) =
      (a :: s.takeWhile fun b => !sep b) :: words sep (s.dropWhile fun b => !sep b) := by
  rw [words, if_neg (by simp [h])]

end NibbleAsm.Text
