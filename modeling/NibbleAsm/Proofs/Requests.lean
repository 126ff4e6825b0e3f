import NibbleAsm.Feed
import NibbleAsm.Proofs.Words

/-! Requests to a feed. One request cuts the lines it finds into those it takes and those it leaves
(`take_cut`), and from that a whole sequence does: what the answers hold, one after the other, and
what is left at the end are the lines of the start (`lines_answers`). -/

namespace NibbleAsm.Feed

def Taken.lines (t : Taken) : List Line :=
  t.skipped ++ t.line?.toList

def answers : Feed → List Request → List Taken
  | _, [] => []
  | f, r :: rs => f.take r :: answers (f.take r).rest rs

def after (f : Feed) (rs : List Request) : Feed :=
  rs.foldl (fun f r => (f.take r).rest) f

/-- What each kind of request owes to the lines `found` before it, where `t` is what it takes. -/
def Request.Served (found : Feed) (t : Taken) : Request → Prop
  | .next => t.skipped = [] ∧ (t.line? = none ↔ found.isEmpty = true)
  | .nextNonblank =>
    (∀ l ∈ t.skipped, l.isBlank = true) ∧ (∀ l, t.line? = some l → l.isBlank = false) ∧
      (t.line? = none ↔ ∀ l ∈ found.remaining, l.isBlank = true) ∧
      (t.line? = none → t.rest.isEmpty = true)

variable {f : Feed}

theorem not_isBlank_of_nextNonblank {l : Line} (h : f.nextNonblank.line? = some l) :
    l.isBlank = false :=
  Text.not_sep_of_head?_dropWhile h

theorem nextNonblank_eq_none_iff :
    f.nextNonblank.line? = none ↔ ∀ l ∈ f.remaining, l.isBlank = true := by
  rw [nextNonblank, List.head?_eq_none_iff, List.dropWhile_eq_nil_iff]

theorem take_cut (f : Feed) (r : Request) :
    (f.take r).lines ++ (f.take r).rest.remaining = f.remaining := by
  have hcut : ∀ ls : List Line, ls.head?.toList ++ ls.tail = ls := by
    intro ls
    cases ls <;> rfl
  cases r with
  | next => exact hcut f.remaining
  | nextNonblank =>
    simp only [take, nextNonblank, Taken.lines]
    rw [List.append_assoc, hcut, List.takeWhile_append_dropWhile]

theorem served_take (f : Feed) (r : Request) : r.Served f (f.take r) := by
  cases r with
  | next =>
    refine ⟨rfl, ?_⟩
    simp only [take, next, isEmpty, List.head?_eq_none_iff, List.isEmpty_iff]
  | nextNonblank =>
    refine ⟨?_, ?_, nextNonblank_eq_none_iff, ?_⟩
    · intro l hl
      exact List.mem_takeWhile_imp hl
    · intro l hl
      exact not_isBlank_of_nextNonblank hl
    · intro hnone
      simp only [take, nextNonblank, List.head?_eq_none_iff] at hnone ⊢
      rw [isEmpty, hnone]
      rfl

theorem lines_answers (f : Feed) (rs : List Request) :
    (f.answers rs).flatMap Taken.lines ++ (f.after rs).remaining = f.remaining := by
  induction rs generalizing f with
  | nil => rfl
  | cons r rs ih =>
    have hrest := ih (f.take r).rest
    rw [answers, List.flatMap_cons, List.append_assoc]
    change _ ++ (_ ++ ((f.take r).rest.after rs).remaining) = _
    rw [hrest, take_cut]

theorem length_answers (f : Feed) (rs : List Request) : (f.answers rs).length = rs.length := by
  induction rs generalizing f with
  | nil => rfl
  | cons r rs ih => rw [answers, List.length_cons, List.length_cons, ih]

theorem getElem?_answers {rs : List Request} {i : ℕ} {r : Request} (h : rs[i]? = some r) :
    (f.answers rs)[i]? = some ((f.after (rs.take i)).take r) := by
  induction rs generalizing f i with
  | nil => cases h
  | cons s rs ih =>
    cases i with
    | zero =>
      obtain rfl : s = r := by simpa using h
      rfl
    | succ i => exact ih h

theorem after_take_succ {rs : List Request} {i : ℕ} {r : Request} (h : rs[i]? = some r) :
    f.after (rs.take (i + 1)) = ((f.after (rs.take i)).take r).rest := by
  rw [List.take_add_one, h, after, List.foldl_append]
  rfl

/-- A feed loses nothing and gives nothing twice. Whatever is asked of it, the lines taken so far,
in the order in which they were taken, and the lines that are left are the lines of the start; so
the number left is the number of all less the number taken. Each request is served from what those
before it left: the next line is missing just at the end, the next line that is not blank is missing
just when all lines left are blank, which are then gone, and only blank lines are passed over. -/
theorem requests_lose_nothing (lines : List Line) (rs : List Request) :
    (answers ⟨lines⟩ rs).flatMap Taken.lines ++ (after ⟨lines⟩ rs).remaining = lines ∧
    (after ⟨lines⟩ rs).size =
      lines.length - ((answers ⟨lines⟩ rs).flatMap Taken.lines).length ∧
    (answers ⟨lines⟩ rs).length = rs.length ∧
    ∀ i r, rs[i]? = some r → ∃ t, (answers ⟨lines⟩ rs)[i]? = some t ∧
      t.rest = after ⟨lines⟩ (rs.take (i + 1)) ∧ r.Served (after ⟨lines⟩ (rs.take i)) t := by
  have hlines : (answers ⟨lines⟩ rs).flatMap Taken.lines ++ (after ⟨lines⟩ rs).remaining = lines :=
    lines_answers ⟨lines⟩ rs
  refine ⟨hlines, ?_, length_answers _ rs, ?_⟩
  · have hlength := congrArg List.length hlines
    rw [List.length_append] at hlength
    rw [size]
    omega
  · intro i r hr
    exact ⟨_, getElem?_answers hr, (after_take_succ hr).symm, served_take _ r⟩

/-- The first request passes over a blank line, and the second finds none but blank lines. -/
theorem requests_lose_nothing_blanks :
    after ⟨[⟨1, ""⟩, ⟨2, "7F"⟩, ⟨3, " "⟩, ⟨4, "\t"⟩]⟩ [.nextNonblank] =
      ⟨[⟨3, " "⟩, ⟨4, "\t"⟩]⟩ ∧
    ∃ t, (answers ⟨[⟨1, ""⟩, ⟨2, "7F"⟩, ⟨3, " "⟩, ⟨4, "\t"⟩]⟩
        [.nextNonblank, .nextNonblank, .next])[1]? = some t ∧
      t.line? = none ∧ t.rest.isEmpty = true := by
  have hfound : after ⟨[⟨1, ""⟩, ⟨2, "7F"⟩, ⟨3, " "⟩, ⟨4, "\t"⟩]⟩ [.nextNonblank] =
      ⟨[⟨3, " "⟩, ⟨4, "\t"⟩]⟩ := by decide
  refine ⟨hfound, ?_⟩
  obtain ⟨t, ht, -, -, -, hnone, hempty⟩ :=
    (requests_lose_nothing [⟨1, ""⟩, ⟨2, "7F"⟩, ⟨3, " "⟩, ⟨4, "\t"⟩]
      [.nextNonblank, .nextNonblank, .next]).2.2.2 1 .nextNonblank rfl
  have hblank : t.line? = none := by
    apply hnone.2
    change ∀ l ∈ (after _ [.nextNonblank]).remaining, _
    rw [hfound]
    simp only [List.forall_mem_cons]
    decide
  exact ⟨t, ht, hblank, hempty hblank⟩

end NibbleAsm.Feed
