import Mathlib.Data.Nat.Notation
import NibbleAsm.Assembler

/-! An assembler that stands further on and has gathered a listing before. Nothing it does depends
on either, so each step and each run is the same as at address zero, with what is emitted and what
is logged moved as far. -/

namespace NibbleAsm

def Emission.moved (offset : ℕ) (e : Emission) : Emission :=
  { e with address := offset + e.address }

def Event.moved (offset : ℕ) : Event → Event
  | .emitted e => .emitted (e.moved offset)
  | e => e

def Listing.moved (offset : ℕ) (L : Listing) : Listing :=
  ⟨L.emissions.map (Emission.moved offset)⟩

theorem Event.moved_ofSkipped (offset : ℕ) (lines : List Line) :
    (ofSkipped lines).map (moved offset) = ofSkipped lines := by
  simp [ofSkipped, moved]

namespace Assembler

/-- The same assembler further on, with the listing `front` before what it has gathered. -/
def moved (offset : ℕ) (front : Listing) (a : Assembler) : Assembler :=
  { a with
    address := offset + a.address
    listing := ⟨front.emissions ++ (a.listing.moved offset).emissions⟩ }

variable (offset : ℕ) (front : Listing) (a : Assembler)

theorem stepLine_moved (l : Line) (rest : Feed) :
    (a.moved offset front).stepLine l rest =
      ⟨(a.stepLine l rest).result.map (Emission.moved offset),
        (a.stepLine l rest).log.map (Event.moved offset),
        (a.stepLine l rest).after.moved offset front⟩ := by
  unfold stepLine moved
  dsimp only
  cases ((l.statement a.table).encode l rest).bytes with
  | error f => simp [Except.map, Event.moved_ofSkipped]
  | ok bytes =>
    simp [Except.map, Event.moved_ofSkipped, Event.moved, Emission.moved, Nat.add_assoc]

theorem step_moved :
    (a.moved offset front).step =
      ⟨a.step.result.map (Option.map (Emission.moved offset)),
        a.step.log.map (Event.moved offset), a.step.after.moved offset front⟩ := by
  unfold step
  simp only [moved]
  cases a.feed.remaining with
  | nil => rfl
  | cons l ls =>
    have h := a.stepLine_moved offset front l ⟨ls⟩
    simp only [moved] at h
    simp only [h]
    cases (a.stepLine l ⟨ls⟩).result with
    | error f => rfl
    | ok e => rfl

theorem collect_moved :
    (a.moved offset front).collect =
      ⟨a.collect.result.map (List.map (Emission.moved offset)),
        a.collect.log.map (Event.moved offset)⟩ := by
  fun_induction collect a with
  | case1 T address L =>
    rw [moved, collect]
    rfl
  | case2 T l ls address L s f hs =>
    have h := stepLine_moved offset front ⟨T, ⟨l :: ls⟩, address, L⟩ l ⟨ls⟩
    rw [moved] at h ⊢
    rw [collect]
    simp [h, s, hs, Except.map]
  | case3 T l ls address L s e hs rest ih =>
    have h := stepLine_moved offset front ⟨T, ⟨l :: ls⟩, address, L⟩ l ⟨ls⟩
    rw [moved] at h ⊢
    rw [collect]
    simp only [h, s, rest, hs, Except.map, ih, List.map_append]
    cases (stepLine ⟨T, ⟨l :: ls⟩, address, L⟩ l ⟨ls⟩).after.collect.result with
    | error f => rfl
    | ok es => rfl

theorem run_moved_result :
    (a.moved offset front).run.result =
      a.run.result.map fun L => ⟨front.emissions ++ (L.moved offset).emissions⟩ := by
  rw [run_result, run_result, collect_moved]
  cases a.collect.result with
  | error f => rfl
  | ok es => simp [Except.map, moved, Listing.moved]

end Assembler

end NibbleAsm
