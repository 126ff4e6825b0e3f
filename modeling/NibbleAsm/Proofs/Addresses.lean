import NibbleAsm.Proofs.Stepping

/-! Addresses. The emissions of one assembler stand end to end in its output, whatever is asked of
it: a step that fails, or that finds no line, moves nothing. So an address counts the bytes given
before it, and the emissions of a listing tile its bytes. -/

namespace NibbleAsm

/-- `Span start es stop`: the emissions have one byte or two each, and their addresses put these end
to end from `start` to `stop`. -/
inductive Span : ℕ → List Emission → ℕ → Prop
  | nil (start : ℕ) : Span start [] start
  | cons {start stop : ℕ} {e : Emission} {es : List Emission} (haddress : e.address = start)
      (hwidth : e.bytes.length = 1 ∨ e.bytes.length = 2)
      (hes : Span (start + e.bytes.length) es stop) : Span start (e :: es) stop

namespace Span

variable {start middle stop : ℕ} {es fs : List Emission}

theorem append (hes : Span start es middle) (hfs : Span middle fs stop) :
    Span start (es ++ fs) stop := by
  induction hes with
  | nil => exact hfs
  | cons haddress hwidth _ ih => exact .cons haddress hwidth (ih hfs)

theorem stop_eq (h : Span start es stop) : stop = start + (⟨es⟩ : Listing).size := by
  induction h with
  | nil => rfl
  | cons _ _ _ ih => rw [ih, Listing.size_cons, Nat.add_assoc]

theorem address_eq {before after : List Emission} {e : Emission}
    (h : Span start (before ++ e :: after) stop) :
    e.address = start + (⟨before⟩ : Listing).size := by
  induction before generalizing start with
  | nil =>
    cases h with
    | cons haddress => exact haddress
  | cons d before ih =>
    cases h with
    | cons _ _ hes => rw [ih hes, Listing.size_cons, Nat.add_assoc]

theorem width (h : Span start es stop) {e : Emission} (he : e ∈ es) :
    e.bytes.length = 1 ∨ e.bytes.length = 2 := by
  induction h with
  | nil => cases he
  | cons _ hwidth _ ih =>
    rcases List.mem_cons.1 he with rfl | he
    · exact hwidth
    · exact ih he

theorem start_le_address (h : Span start es stop) {e : Emission} (he : e ∈ es) :
    start ≤ e.address := by
  obtain ⟨before, after, rfl⟩ := List.append_of_mem he
  rw [h.address_eq]
  exact Nat.le_add_right _ _

theorem disjoint (h : Span start es stop) :
    es.Pairwise fun e e' => e.address + e.bytes.length ≤ e'.address := by
  induction h with
  | nil => exact .nil
  | cons haddress _ hes ih =>
    refine List.pairwise_cons.2 ⟨fun e' he' => ?_, ih⟩
    rw [haddress]
    exact hes.start_le_address he'

theorem exists_of_lt (h : Span start es stop) {i : ℕ} (hstart : start ≤ i) (hstop : i < stop) :
    ∃ e ∈ es, e.address ≤ i ∧ i < e.address + e.bytes.length := by
  induction h with
  | nil => omega
  | @cons start stop e es haddress _ _ ih =>
    by_cases hi : i < start + e.bytes.length
    · exact ⟨e, by simp, by omega, by omega⟩
    · obtain ⟨e', he', hi'⟩ := ih (by omega) hstop
      exact ⟨e', by simp [he'], hi'⟩

end Span

/-- The emissions of a listing cut its bytes into slices of one byte or two, and nothing is left
out or taken twice. -/
structure Listing.Tiled (L : Listing) : Prop where
  slice : ∀ e ∈ L.emissions, (L.bytes.drop e.address).take e.bytes.length = e.bytes
  covered : ∀ i < L.bytes.length, ∃ e ∈ L.emissions, e.address ≤ i ∧ i < e.address + e.bytes.length
  disjoint : L.emissions.Pairwise fun e e' => e.address + e.bytes.length ≤ e'.address
  width : ∀ e ∈ L.emissions, e.bytes.length = 1 ∨ e.bytes.length = 2
  size : L.size = L.bytes.length

theorem Span.slice_eq {es : List Emission} {stop : ℕ} (h : Span 0 es stop) {e : Emission}
    (he : e ∈ es) : ((⟨es⟩ : Listing).bytes.drop e.address).take e.bytes.length = e.bytes := by
  obtain ⟨before, after, rfl⟩ := List.append_of_mem he
  have hbytes : (⟨before ++ e :: after⟩ : Listing).bytes =
      (⟨before⟩ : Listing).bytes ++ (e.bytes ++ (⟨after⟩ : Listing).bytes) := by
    simp only [Listing.bytes, List.flatMap_append, List.flatMap_cons]
  rw [h.address_eq, Nat.zero_add, ← Listing.length_bytes, hbytes, List.drop_left, List.take_left]

theorem Span.tiled {L : Listing} {stop : ℕ} (h : Span 0 L.emissions stop) : L.Tiled where
  slice _ he := h.slice_eq he
  covered i hi := by
    have hstop : stop = L.bytes.length := by rw [h.stop_eq, Nat.zero_add, Listing.length_bytes]
    exact h.exists_of_lt (Nat.zero_le i) (hstop ▸ hi)
  disjoint := h.disjoint
  width _ he := h.width he
  size := L.length_bytes.symm

def Event.emissions (log : List Event) : List Emission :=
  log.filterMap fun
    | .emitted e => some e
    | _ => none

theorem Event.emissions_append (log log' : List Event) :
    emissions (log ++ log') = emissions log ++ emissions log' :=
  List.filterMap_append

theorem Event.emissions_ofSkipped (lines : List Line) : emissions (ofSkipped lines) = [] := by
  simp [emissions, ofSkipped]

def Step.emissions (s : Step (Option Emission)) : List Emission :=
  match s.result with
  | .ok (some e) => [e]
  | _ => []

theorem Shape.width {T : Table} {l : Line} {more : List Line} {bytes : List UInt8}
    (h : Shape T l more bytes) : bytes.length = 1 ∨ bytes.length = 2 := by
  cases h <;> simp

namespace Assembler

variable {a : Assembler} {l : Line} {rest : List Line}

/-- A step that fails has taken lines and logged the blank ones among them, but it leaves the
address. -/
theorem stepLine_of_error {f : Fault} (h : (a.stepLine l ⟨rest⟩).result = .error f) :
    Event.emissions (a.stepLine l ⟨rest⟩).log = [] ∧
      (a.stepLine l ⟨rest⟩).after.address = a.address := by
  unfold stepLine at h ⊢
  dsimp only at h ⊢
  split at h
  · exact ⟨Event.emissions_ofSkipped _, rfl⟩
  · cases h

/-- A step that succeeds logs its emission, which stands at the address, and moves past it. -/
theorem stepLine_of_ok {e : Emission} (h : (a.stepLine l ⟨rest⟩).result = .ok e) :
    Event.emissions (a.stepLine l ⟨rest⟩).log = [e] ∧
      Span a.address [e] (a.stepLine l ⟨rest⟩).after.address := by
  rcases exists_instruction_or_faulty a.table l rest with ⟨i, after, hi⟩ | ⟨k, f, hf⟩
  · obtain ⟨rfl, rfl⟩ : l = i.line ∧ rest = i.more ++ after := List.cons.inj hi
    simp only [stepLine, i.shape.encode_eq after] at h ⊢
    obtain rfl := Except.ok.inj h
    refine ⟨?_, .cons rfl i.shape.width (.nil _)⟩
    rw [Event.emissions_append, Event.emissions_ofSkipped]
    rfl
  · simp only [stepLine, hf.encode_bytes] at h
    cases h

theorem span_step (a : Assembler) : Span a.address a.step.emissions a.step.after.address := by
  unfold step
  split
  · exact .nil _
  next l ls _ =>
    cases h : (a.stepLine l ⟨ls⟩).result with
    | error f =>
      rw [← (stepLine_of_error h).2]
      simp only [Step.emissions, h, Except.map]
      exact .nil _
    | ok e =>
      simp only [Step.emissions, h, Except.map]
      exact (stepLine_of_ok h).2

/-- A run stops at a fault, and what it logged up to there stands end to end all the same. -/
theorem span_collect (a : Assembler) :
    ∃ stop, Span a.address (Event.emissions a.collect.log) stop := by
  fun_induction collect a with
  | case1 => exact ⟨_, .nil _⟩
  | case2 T l ls address L s f hs =>
    rw [(stepLine_of_error hs).1]
    exact ⟨_, .nil _⟩
  | case3 T l ls address L s e hs rest ih =>
    obtain ⟨hlog, hspan⟩ := stepLine_of_ok hs
    obtain ⟨stop, ih⟩ := ih
    rw [Event.emissions_append, hlog]
    exact ⟨stop, hspan.append ih⟩

theorem emissions_collect (a : Assembler) :
    ∀ es, a.collect.result = .ok es → Event.emissions a.collect.log = es := by
  fun_induction collect a with
  | case1 =>
    intro es h
    exact Except.ok.inj h
  | case2 =>
    intro es h
    cases h
  | case3 T l ls address L s e hs rest ih =>
    intro es h
    cases hrest : rest.result with
    | error f =>
      simp only [hrest, Except.map] at h
      cases h
    | ok fs =>
      simp only [hrest, Except.map] at h
      obtain rfl := Except.ok.inj h
      rw [Event.emissions_append, (stepLine_of_ok hs).1, ih fs hrest]
      rfl

theorem emissions_log_run (a : Assembler) :
    Event.emissions a.run.log = Event.emissions a.collect.log := by
  unfold run
  dsimp only
  split
  · rfl
  · rw [Event.emissions_append]
    exact List.append_nil _

end Assembler

/-- What is asked of one assembler: steps, also after one that failed, and at the end a run or
nothing more. -/
inductive Session where
  | stop
  | run
  | step (next : Session)
deriving DecidableEq, Repr

/-- Every emission that is given in a session; those of a run are the ones it logs, since a run that
fails returns none. -/
def Session.emissions : Session → Assembler → List Emission
  | .stop, _ => []
  | .run, a => Event.emissions a.run.log
  | .step next, a => a.step.emissions ++ next.emissions a.step.after

theorem Session.span (s : Session) (a : Assembler) :
    ∃ stop, Span a.address (s.emissions a) stop := by
  induction s generalizing a with
  | stop => exact ⟨_, .nil _⟩
  | run =>
    rw [emissions, a.emissions_log_run]
    exact a.span_collect
  | step next ih =>
    obtain ⟨stop, ih⟩ := ih a.step.after
    exact ⟨stop, a.span_step.append ih⟩

theorem Assembler.emissions_run {a : Assembler} {L : Listing} (h : a.run.result = .ok L) :
    a.listing.emissions ++ Event.emissions a.run.log = L.emissions := by
  rw [emissions_log_run]
  rw [run_result] at h
  cases hes : a.collect.result with
  | error f =>
    rw [hes] at h
    cases h
  | ok es =>
    rw [hes] at h
    obtain rfl := Except.ok.inj h
    rw [a.emissions_collect es hes]

/-- In every session an address counts the bytes of all emissions before it; steps leave the listing
empty, and a run adds to it what it gives; and the emissions of a listing tile its bytes. -/
theorem address_eq_size (T : Table) (lines : List Line) :
    (∀ (s : Session) (before : List Emission) (e : Emission) (after : List Emission),
      s.emissions (.start T lines) = before ++ e :: after →
        e.address = (⟨before⟩ : Listing).size) ∧
    (∀ n, ((Assembler.start T lines).stepped n).listing = ⟨[]⟩) ∧
    (∀ (a : Assembler) (L : Listing), a.run.result = .ok L →
      a.listing.emissions ++ Session.run.emissions a = L.emissions) ∧
    ∀ L, (assembleLines T lines).result = .ok L → L.Tiled := by
  refine ⟨fun s before e after hs => ?_, fun n => Assembler.listing_stepped n _,
    fun a L => a.emissions_run, fun L hL => ?_⟩
  · obtain ⟨stop, hspan⟩ := s.span (.start T lines)
    rw [hs] at hspan
    rw [hspan.address_eq]
    exact Nat.zero_add _
  · obtain ⟨stop, hspan⟩ := Session.run.span (.start T lines)
    have hemissions : Event.emissions (Assembler.start T lines).run.log = L.emissions :=
      Assembler.emissions_run hL
    rw [Session.emissions, hemissions] at hspan
    exact hspan.tiled

/-- A load fails on the line it took for its operand and counts for nothing; the run that follows
gives a pad and then fails too. -/
theorem address_eq_size_after_fault :
    (Session.step (.step (.step .run))).emissions
        (.start .withImmediate
          [⟨1, "HLT"⟩, ⟨2, "LDI"⟩, ⟨3, "HLT"⟩, ⟨4, "LDI 9"⟩, ⟨5, ""⟩, ⟨6, "?"⟩]) =
      [⟨⟨1, "HLT"⟩, 0, [0x50]⟩, ⟨⟨4, "LDI 9"⟩, 1, [0xC0, 9]⟩, ⟨⟨5, ""⟩, 3, [0]⟩] ∧
    3 = (⟨[⟨⟨1, "HLT"⟩, 0, [0x50]⟩, ⟨⟨4, "LDI 9"⟩, 1, [0xC0, 9]⟩]⟩ : Listing).size ∧
    Session.run.emissions (.start .withImmediate [⟨1, "LDI 9"⟩, ⟨2, "HLT"⟩]) =
      [⟨⟨1, "LDI 9"⟩, 0, [0xC0, 9]⟩, ⟨⟨2, "HLT"⟩, 2, [0x50]⟩] ∧
    (⟨[⟨⟨1, "LDI 9"⟩, 0, [0xC0, 9]⟩, ⟨⟨2, "HLT"⟩, 2, [0x50]⟩]⟩ : Listing).Tiled := by
  have hsession : (Session.step (.step (.step .run))).emissions
      (.start .withImmediate
        [⟨1, "HLT"⟩, ⟨2, "LDI"⟩, ⟨3, "HLT"⟩, ⟨4, "LDI 9"⟩, ⟨5, ""⟩, ⟨6, "?"⟩]) =
      [⟨⟨1, "HLT"⟩, 0, [0x50]⟩, ⟨⟨4, "LDI 9"⟩, 1, [0xC0, 9]⟩, ⟨⟨5, ""⟩, 3, [0]⟩] := by cbv
  have hrun : (assembleLines .withImmediate [⟨1, "LDI 9"⟩, ⟨2, "HLT"⟩]).result =
      .ok ⟨[⟨⟨1, "LDI 9"⟩, 0, [0xC0, 9]⟩, ⟨⟨2, "HLT"⟩, 2, [0x50]⟩]⟩ := by cbv
  refine ⟨hsession, ?_, ?_, ?_⟩
  · exact (address_eq_size .withImmediate _).1 _
      [⟨⟨1, "HLT"⟩, 0, [0x50]⟩, ⟨⟨4, "LDI 9"⟩, 1, [0xC0, 9]⟩] ⟨⟨5, ""⟩, 3, [0]⟩ [] hsession
  · exact (address_eq_size .withImmediate []).2.2.1 _ _ hrun
  · exact (address_eq_size .withImmediate _).2.2.2 _ hrun

end NibbleAsm
