import NibbleAsm.Proofs.Grammar

/-! Steps and runs. A step that gives an emission takes it off the front of what a run would give,
so a run can be cut into steps and a shorter run at any point. Each step takes lines off the front
of what is left, whether it fails or not, and leaves the listing; when no line is left, a step
changes nothing. -/

namespace NibbleAsm

namespace Assembler

/-- The assembler as `n` steps leave it. -/
def stepped (n : ℕ) (a : Assembler) : Assembler :=
  (fun a => a.step.after)^[n] a

def answers : ℕ → Assembler → List (Except Fault (Option Emission))
  | 0, _ => []
  | n + 1, a => a.step.result :: answers n a.step.after

variable {a : Assembler}

theorem stepped_succ (n : ℕ) (a : Assembler) : a.stepped (n + 1) = (a.stepped n).step.after :=
  Function.iterate_succ_apply' _ n a

theorem step_of_nil (h : a.feed.remaining = []) : a.step = ⟨.ok none, [], a⟩ := by
  unfold step
  rw [h]

theorem step_of_cons {l : Line} {ls : List Line} (h : a.feed.remaining = l :: ls) :
    a.step.result = (a.stepLine l ⟨ls⟩).result.map some ∧
      a.step.after = (a.stepLine l ⟨ls⟩).after := by
  unfold step
  rw [h]
  exact ⟨rfl, rfl⟩

theorem suffix_step {l : Line} {ls : List Line} (h : a.feed.remaining = l :: ls) :
    a.step.after.feed.remaining <:+ ls := by
  rw [(step_of_cons h).2]
  exact a.suffix_stepLine l ⟨ls⟩

theorem suffix_step_remaining (a : Assembler) :
    a.step.after.feed.remaining <:+ a.feed.remaining := by
  cases h : a.feed.remaining with
  | nil =>
    rw [step_of_nil h, h]
  | cons l ls => exact (suffix_step h).trans (List.suffix_cons l ls)

theorem length_step_lt (h : a.feed.remaining ≠ []) :
    a.step.after.feed.remaining.length < a.feed.remaining.length := by
  obtain ⟨l, ls, hls⟩ := List.exists_cons_of_ne_nil h
  have hle := (suffix_step hls).length_le
  rw [hls, List.length_cons]
  omega

theorem step_result_eq_none_iff : a.step.result = .ok none ↔ a.feed.remaining = [] := by
  constructor
  · intro h
    cases hls : a.feed.remaining with
    | nil => rfl
    | cons l ls =>
      rw [(step_of_cons hls).1] at h
      cases hresult : (a.stepLine l ⟨ls⟩).result <;> rw [hresult] at h <;> cases h
  · intro h
    rw [step_of_nil h]

theorem collect_of_step {e : Emission} (h : a.step.result = .ok (some e)) :
    a.collect.result = a.step.after.collect.result.map (e :: ·) := by
  obtain ⟨T, ⟨lines⟩, address, L⟩ := a
  cases lines with
  | nil => cases h
  | cons l ls =>
    obtain ⟨hresult, hafter⟩ := step_of_cons (a := ⟨T, ⟨l :: ls⟩, address, L⟩) rfl
    rw [hresult] at h
    rw [hafter, collect]
    cases hs : (stepLine ⟨T, ⟨l :: ls⟩, address, L⟩ l ⟨ls⟩).result with
    | error f =>
      rw [hs] at h
      cases h
    | ok e' =>
      rw [hs] at h
      cases h
      rfl

/-- Steps that all give emissions leave a run that gives the rest. -/
theorem collect_stepped {n : ℕ} {es : List Emission}
    (h : a.answers n = es.map fun e => .ok (some e)) :
    a.collect.result = (a.stepped n).collect.result.map (es ++ ·) := by
  induction n generalizing a es with
  | zero =>
    obtain rfl : es = [] := List.map_eq_nil_iff.1 h.symm
    change a.collect.result = a.collect.result.map id
    rw [Except.map_id, id]
  | succ n ih =>
    cases es with
    | nil => cases h
    | cons e es =>
      obtain ⟨hfirst, hrest⟩ := List.cons.inj h
      rw [collect_of_step hfirst, ih hrest]
      change _ = ((a.step.after.stepped n).collect.result).map _
      cases (a.step.after.stepped n).collect.result <;> rfl

theorem suffix_stepped (n : ℕ) (a : Assembler) :
    (a.stepped n).feed.remaining <:+ a.feed.remaining := by
  induction n with
  | zero => exact List.suffix_refl _
  | succ n ih =>
    rw [stepped_succ]
    exact (suffix_step_remaining _).trans ih

/-- Each step takes one line at least, as long as there is one. -/
theorem length_stepped_le (n : ℕ) (a : Assembler) :
    (a.stepped n).feed.remaining.length ≤ a.feed.remaining.length - n := by
  induction n with
  | zero => exact Nat.le_refl _
  | succ n ih =>
    rw [stepped_succ]
    by_cases h : (a.stepped n).feed.remaining = []
    · rw [step_of_nil h, h]
      exact Nat.zero_le _
    · have hlt := length_step_lt h
      omega

theorem stepped_eq_nil_mono {m n : ℕ} (hmn : m ≤ n) (h : (a.stepped m).feed.remaining = []) :
    (a.stepped n).feed.remaining = [] := by
  induction n, hmn using Nat.le_induction with
  | base => exact h
  | succ n _ ih =>
    rw [stepped_succ, step_of_nil ih]
    exact ih

/-- Only a run gathers what it gives. -/
theorem listing_step (a : Assembler) : a.step.after.listing = a.listing := by
  cases h : a.feed.remaining with
  | nil => rw [step_of_nil h]
  | cons l ls =>
    rw [(step_of_cons h).2]
    unfold stepLine
    dsimp only
    split <;> rfl

theorem listing_stepped (n : ℕ) (a : Assembler) : (a.stepped n).listing = a.listing := by
  induction n with
  | zero => rfl
  | succ n ih => rw [stepped_succ, listing_step, ih]

theorem run_of_answers {n : ℕ} {es : List Emission} (hnew : a.listing = ⟨[]⟩)
    (h : a.answers n = es.map fun e => .ok (some e)) :
    a.run.result = (a.stepped n).run.result.map fun L => ⟨es ++ L.emissions⟩ := by
  rw [run_result, run_result, collect_stepped h, listing_stepped, hnew]
  cases (a.stepped n).collect.result <;> rfl

/-- The lines come to an end with a first step that gives nothing. -/
theorem exists_last_step (a : Assembler) :
    ∃ m ≤ a.feed.remaining.length, (∀ n < m, (a.stepped n).step.result ≠ .ok none) ∧
      ∀ n, m ≤ n → (a.stepped n).step.result = .ok none ∧
        (a.stepped n).step.after = a.stepped n := by
  classical
  have hend : (a.stepped a.feed.remaining.length).feed.remaining = [] := by
    apply List.length_eq_zero_iff.1
    have hle := a.length_stepped_le a.feed.remaining.length
    omega
  have hex : ∃ n, (a.stepped n).feed.remaining = [] := ⟨_, hend⟩
  refine ⟨Nat.find hex, Nat.find_min' hex hend, fun n hn hnone => ?_, fun n hn => ?_⟩
  · exact Nat.find_min hex hn (step_result_eq_none_iff.1 hnone)
  · rw [step_of_nil (stepped_eq_nil_mono hn (Nat.find_spec hex))]
    exact ⟨rfl, rfl⟩

end Assembler

/-- A run after steps that gave emissions ends as a run from the start does, which gives these
emissions first. Steps take the lines from the front, one at least with each, until after as many as
there are lines at most none is left; from then on a step gives nothing and changes nothing. -/
theorem run_stepped (T : Table) (lines : List Line) :
    (∀ (n : ℕ) (es : List Emission),
      (Assembler.start T lines).answers n = es.map (fun e => .ok (some e)) →
      (∀ L, ((Assembler.start T lines).stepped n).run.result = .ok L ↔
        (assembleLines T lines).result = .ok ⟨es ++ L.emissions⟩) ∧
      ∀ f, ((Assembler.start T lines).stepped n).run.result = .error f ↔
        (assembleLines T lines).result = .error f) ∧
    (∀ n, ((Assembler.start T lines).stepped n).feed.remaining <:+ lines ∧
      (((Assembler.start T lines).stepped n).feed.remaining ≠ [] →
        ((Assembler.start T lines).stepped (n + 1)).feed.remaining.length <
          ((Assembler.start T lines).stepped n).feed.remaining.length)) ∧
    ∃ m ≤ lines.length,
      (∀ n < m, ((Assembler.start T lines).stepped n).step.result ≠ .ok none) ∧
      ∀ n, m ≤ n → ((Assembler.start T lines).stepped n).step.result = .ok none ∧
        ((Assembler.start T lines).stepped n).step.after =
          (Assembler.start T lines).stepped n := by
  refine ⟨fun n es hes => ?_, fun n => ⟨?_, fun hne => ?_⟩, ?_⟩
  · rw [assembleLines, Assembler.run_of_answers rfl hes]
    cases ((Assembler.start T lines).stepped n).run.result with
    | error f => simp [Except.map]
    | ok M =>
      refine ⟨fun L => ?_, fun f => by simp [Except.map]⟩
      obtain ⟨fs⟩ := M
      obtain ⟨gs⟩ := L
      simp [Except.map]
  · exact Assembler.suffix_stepped n _
  · rw [Assembler.stepped_succ]
    exact Assembler.length_step_lt hne
  · exact (Assembler.start T lines).exists_last_step

/-- A load that takes three lines, then a run that ends well or with the fault of the last line. -/
theorem run_stepped_load :
    (Assembler.start .withImmediate [⟨1, "LDI"⟩, ⟨2, ""⟩, ⟨3, "9"⟩, ⟨4, "HLT"⟩]).answers 1 =
      [.ok (some ⟨⟨1, "LDI"⟩, 0, [0xC0, 9]⟩)] ∧
    ((Assembler.start .withImmediate
        [⟨1, "LDI"⟩, ⟨2, ""⟩, ⟨3, "9"⟩, ⟨4, "HLT"⟩]).stepped 1).run.result =
      .ok ⟨[⟨⟨4, "HLT"⟩, 2, [0x50]⟩]⟩ ∧
    (assembleLines .withImmediate [⟨1, "LDI"⟩, ⟨2, ""⟩, ⟨3, "9"⟩, ⟨4, "HLT"⟩]).result =
      .ok ⟨[⟨⟨1, "LDI"⟩, 0, [0xC0, 9]⟩] ++ [⟨⟨4, "HLT"⟩, 2, [0x50]⟩]⟩ ∧
    (assembleLines .withImmediate [⟨1, "LDI"⟩, ⟨2, ""⟩, ⟨3, "9"⟩, ⟨4, "?"⟩]).result =
      .error ⟨4, .unrecognized "?"⟩ := by
  have hfirst : (Assembler.start .withImmediate
      [⟨1, "LDI"⟩, ⟨2, ""⟩, ⟨3, "9"⟩, ⟨4, "HLT"⟩]).answers 1 =
      [.ok (some ⟨⟨1, "LDI"⟩, 0, [0xC0, 9]⟩)] := by cbv
  have hrest : ((Assembler.start .withImmediate
      [⟨1, "LDI"⟩, ⟨2, ""⟩, ⟨3, "9"⟩, ⟨4, "HLT"⟩]).stepped 1).run.result =
      .ok ⟨[⟨⟨4, "HLT"⟩, 2, [0x50]⟩]⟩ := by cbv
  refine ⟨hfirst, hrest, ?_, ?_⟩
  · exact (((run_stepped .withImmediate _).1 1 [⟨⟨1, "LDI"⟩, 0, [0xC0, 9]⟩] hfirst).1 _).1 hrest
  · refine (((run_stepped .withImmediate _).1 1 [⟨⟨1, "LDI"⟩, 0, [0xC0, 9]⟩] ?_).2 _).1 ?_
    · cbv
    · cbv

end NibbleAsm
