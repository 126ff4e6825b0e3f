import Mathlib.Data.Nat.Notation
import Mathlib.Tactic.SplitIfs
import NibbleAsm.Command.Options

/-! Arguments for options. Whatever the options are, there are arguments that say them, and these
are accepted: the letters of the flags, the output with its value, and the input after the mark that
ends the options. -/

namespace NibbleAsm.Command

/-- The arguments that tell where the image is to go. A path that starts with a dash would be taken
for an option if it stood alone. -/
def outputArguments : Option String → List String
  | none => []
  | some path => if Item.isValue path then ["-o", path] else ["-o=" ++ path]

def Options.arguments (o : Options) : List String :=
  List.replicate o.verbosity "-v" ++ ((if o.print then ["-p"] else []) ++
    ((if o.grid then ["-d"] else []) ++ (outputArguments o.output? ++ ["--", o.input])))

/-- A flag is a letter that says one thing and awaits no value. -/
theorem items_flag {arg : String} {c : Char} {item : Item} (harg : arg.toList = ['-', c])
    (hdash : c ≠ '-') (hitem : ∀ next?, Item.ofShorts next? [c] = [item])
    (hawaits : Item.awaitsValue [c] = false) (args : List String) :
    items (arg :: args) = item :: items args := by
  rw [items]
  simp [harg, hdash, hitem, hawaits]

theorem items_replicate {arg : String} {item : Item}
    (h : ∀ args, items (arg :: args) = item :: items args) (n : ℕ) (args : List String) :
    items (List.replicate n arg ++ args) = List.replicate n item ++ items args := by
  induction n with
  | zero => rfl
  | succ n ih =>
    rw [List.replicate_succ, List.cons_append, h, ih, List.replicate_succ, List.cons_append]

theorem items_output (output? : Option String) (args : List String) :
    items (outputArguments output? ++ args) =
      output?.toList.map (fun path => .output (some path)) ++ items args := by
  cases output? with
  | none => rfl
  | some path =>
    simp only [outputArguments]
    split_ifs with hvalue
    · simp only [List.cons_append, List.nil_append]
      rw [items]
      simp [Item.ofShorts, Item.awaitsValue, hvalue]
    · obtain ⟨cs, hcs⟩ : ∃ cs, path.toList = '-' :: cs := by
        simp [Item.isValue] at hvalue
        exact List.head?_eq_some_iff.1 hvalue.1
      have harg : ("-o=" ++ path).toList = '-' :: 'o' :: '=' :: path.toList := by simp
      have hpath : String.ofList (path.toList.dropWhile (· == '=')) = path := by
        rw [hcs, List.dropWhile_cons_of_neg (by simp), ← hcs, String.ofList_toList]
      simp only [List.cons_append, List.nil_append]
      rw [items]
      simp [harg, Item.ofShorts, Item.awaitsValue, hpath]

theorem items_arguments (o : Options) :
    items o.arguments =
      List.replicate o.verbosity .verbose ++ (List.replicate o.print.toNat .print ++
        (List.replicate o.grid.toNat .grid ++
          (o.output?.toList.map (fun path => .output (some path)) ++ [.input o.input]))) := by
  have hverbose : ∀ args, items ("-v" :: args) = .verbose :: items args :=
    items_flag rfl (by decide) (fun _ => rfl) rfl
  have hprint : ∀ args, items ("-p" :: args) = .print :: items args :=
    items_flag rfl (by decide) (fun _ => rfl) rfl
  have hgrid : ∀ args, items ("-d" :: args) = .grid :: items args :=
    items_flag rfl (by decide) (fun _ => rfl) rfl
  have hinput : items ["--", o.input] = [.input o.input] := by
    rw [items]
    simp
  unfold Options.arguments
  rw [items_replicate hverbose]
  cases o.print <;> cases o.grid <;> simp [hprint, hgrid, items_output, hinput]

theorem Said.request_verbose (s : Said) (n : ℕ) (rest : List Item) :
    s.request (List.replicate n .verbose ++ rest) =
      ({ s with verbose := s.verbose + n } : Said).request rest := by
  induction n generalizing s with
  | zero => rfl
  | succ n ih =>
    rw [List.replicate_succ, List.cons_append, request, ih, Nat.add_assoc, Nat.add_comm 1 n]

/-- Every choice of options can be made. -/
theorem ofArguments_arguments (o : Options) :
    Request.ofArguments o.arguments = .ok (.assemble o) := by
  obtain ⟨input, output?, verbosity, print, grid⟩ := o
  unfold Request.ofArguments
  rw [items_arguments, Said.request_verbose]
  cases print <;> cases grid <;> cases output? <;>
    simp [Said.request, Said.options, Except.map]

end NibbleAsm.Command
