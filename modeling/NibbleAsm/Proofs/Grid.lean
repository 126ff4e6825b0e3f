import NibbleAsm.Proofs.AllOrNothing
import NibbleAsm.Proofs.Image
import NibbleAsm.Proofs.Layout
import NibbleAsm.Proofs.Reporting
import NibbleAsm.Proofs.SeparateLines
import NibbleAsm.Proofs.Width

/-! The printed grid. Whatever the lines of a source hold, it has one line of text for each of them
(`sheet`), its columns are straight, its addresses count the lines, and its last column is the
image. -/

namespace NibbleAsm

namespace Text

def isCapitalDigit (c : Char) : Bool :=
  ('0' ≤ c && c ≤ '9') || ('A' ≤ c && c ≤ 'F')

/-- The text is `n` in base sixteen and capital letters, in four digits or as many as it takes. -/
structure IsAddress (n : ℕ) (digits : List Char) : Prop where
  capital : ∀ c ∈ digits, isCapitalDigit c = true
  value : positional 16 digits = n
  length : digits.length = max 4 (Nat.toDigits 16 n).length

theorem isAddress_hexAddress (n : ℕ) : IsAddress n (hexAddress n) where
  capital := by
    have hdigits : ∀ d < 16, isCapitalDigit d.digitChar.toUpper = true := by decide
    intro c hc
    rw [hexAddress, List.leftpad] at hc
    rcases List.mem_append.1 hc with hc | hc
    · rw [List.eq_of_mem_replicate hc]
      decide
    · obtain ⟨d, hd, rfl⟩ := List.mem_map.1 hc
      obtain ⟨v, hv, rfl⟩ := exists_digitChar_of_mem_toDigits (by decide) hd
      exact hdigits v hv
  value := by
    rw [hexAddress, List.leftpad, positional_zeros_append]
    exact positional_map_toUpper_toDigits n
  length := by
    rw [hexAddress, List.length_leftpad, List.length_map]

theorem lineFeed_not_mem_of_isAddress {n : ℕ} {digits : List Char} (h : IsAddress n digits) :
    '\n' ∉ digits := by
  intro hmem
  have hfeed := h.capital _ hmem
  revert hfeed
  decide

end Text

namespace Grid

/-- A row as it is printed: three cells, each with spaces after it, and a last one. -/
structure PrintedRow where
  cell : Fin 3 → Cell
  spaces : Fin 3 → ℕ
  last : Cell

def PrintedRow.padded (r : PrintedRow) (j : Fin 3) : List Char :=
  r.cell j ++ List.replicate (r.spaces j) ' '

def PrintedRow.text (r : PrintedRow) : List Char :=
  r.padded 0 ++ r.padded 1 ++ r.padded 2 ++ r.last

/-- The rows, each ended by a line feed, and one more line feed. -/
def sheet (rows : List PrintedRow) : List Char :=
  rows.flatMap (fun r => r.text ++ ['\n']) ++ ['\n']

/-- In this column all cells end up at one width, by one more than that of the widest. -/
def Straight (rows : List PrintedRow) (j : Fin 3) : Prop :=
  rows ≠ [] → ∃ widest, IsGreatest {w | ∃ r ∈ rows, Text.width (r.cell j) = w} widest ∧
    ∀ r ∈ rows, Text.width (r.cell j) + r.spaces j = widest + 1 ∧
      Text.width (r.padded j) = widest + 1

/-- A column is by one wider than its widest cell. -/
theorem exists_columnWidth_eq {cells : List Cell} (hne : cells ≠ []) :
    ∃ widest, IsGreatest {w | ∃ c ∈ cells, Text.width c = w} widest ∧
      columnWidth cells = widest + 1 := by
  have hwidths : cells.map Text.width ≠ [] := by simpa using hne
  obtain ⟨widest, hmax⟩ := Option.isSome_iff_exists.1 (List.isSome_max?_iff.2 hwidths)
  have hfold : (cells.map Text.width).foldl max 0 = widest := by
    rw [List.foldl_max, hmax, Option.getD_some, Nat.zero_max]
  obtain ⟨hmem, hle⟩ := List.max?_eq_some_iff.1 hmax
  refine ⟨widest, ⟨List.mem_map.1 hmem, ?_⟩, by rw [columnWidth, hfold]⟩
  rintro w ⟨c, hc, rfl⟩
  exact hle _ (List.mem_map_of_mem hc)

namespace Row

def cell (r : Row) : Fin 3 → Cell :=
  ![r.address, r.source, arrow]

@[simp]
theorem cell_zero (r : Row) : r.cell 0 = r.address :=
  rfl

@[simp]
theorem cell_one (r : Row) : r.cell 1 = r.source :=
  rfl

@[simp]
theorem cell_two (r : Row) : r.cell 2 = Grid.arrow :=
  rfl

def among (rows : List Row) (r : Row) : PrintedRow where
  cell := r.cell
  spaces j := columnWidth (rows.map (·.cell j)) - Text.width (r.cell j)
  last := r.bytes

@[simp]
theorem cell_among (rows : List Row) (r : Row) : (r.among rows).cell = r.cell :=
  rfl

theorem spaces_among (rows : List Row) (r : Row) (j : Fin 3) :
    (r.among rows).spaces j = columnWidth (rows.map (·.cell j)) - Text.width (r.cell j) :=
  rfl

theorem padded_among (rows : List Row) (r : Row) (j : Fin 3) :
    (r.among rows).padded j = pad (columnWidth (rows.map (·.cell j))) (r.cell j) :=
  rfl

end Row

theorem columnWidth_arrows {rows : List Row} (hne : rows ≠ []) :
    columnWidth (rows.map (·.cell 2)) = columnWidth [arrow] := by
  have hcells : rows.map (·.cell 2) ≠ [] := by simpa using hne
  obtain ⟨widest, ⟨⟨c, hc, hwidth⟩, -⟩, hcolumn⟩ := exists_columnWidth_eq hcells
  obtain ⟨r, -, rfl⟩ := List.mem_map.1 hc
  rw [hcolumn, ← hwidth]
  rfl

theorem render_eq_sheet (rows : List Row) : render rows = sheet (rows.map (Row.among rows)) := by
  unfold render sheet
  rw [List.flatMap_map]
  congr 1
  apply List.flatMap_congr
  intro r hr
  have harrow := columnWidth_arrows (List.ne_nil_of_mem hr)
  simp only [PrintedRow.text, Row.padded_among, harrow]
  rfl

theorem straight_among (rows : List Row) (j : Fin 3) : Straight (rows.map (Row.among rows)) j := by
  intro hne
  have hcells : rows.map (·.cell j) ≠ [] := by simpa using hne
  obtain ⟨widest, hgreatest, hcolumn⟩ := exists_columnWidth_eq hcells
  refine ⟨widest, ?_, ?_⟩
  · simpa [Row.among] using hgreatest
  · intro r hr
    obtain ⟨r, hmem, rfl⟩ := List.mem_map.1 hr
    have hle : Text.width (r.cell j) ≤ widest :=
      hgreatest.2 ⟨_, List.mem_map_of_mem hmem, rfl⟩
    have hspaces : Text.width (r.cell j) + (r.among rows).spaces j = widest + 1 := by
      rw [Row.spaces_among, hcolumn]
      omega
    refine ⟨hspaces, ?_⟩
    rw [PrintedRow.padded, Text.width_append_spaces]
    exact hspaces

/-- The row of the line `l` when `k` lines stand before it. -/
structure PrintedRow.Shows (r : PrintedRow) (k : ℕ) (l : Line) : Prop where
  address : ∃ digits, Text.IsAddress k digits ∧ r.cell 0 = ['0', 'x'] ++ digits ++ [':']
  source : r.cell 1 = l.trimmed.toList
  arrow : r.cell 2 = ['=', '>']

theorem PrintedRow.lineFeed_not_mem {r : PrintedRow} (hcells : ∀ j, '\n' ∉ r.cell j)
    (hlast : '\n' ∉ r.last) : '\n' ∉ r.text := by
  simp [text, padded, hcells, hlast]

theorem shows_ofEmission (rows : List Row) (e : Emission) :
    ((Row.ofEmission e).among rows).Shows e.address e.line where
  address := by
    refine ⟨_, Text.isAddress_hexAddress e.address, ?_⟩
    simp [Row.ofEmission, Emission.addressLabel]
  source := by simp [Row.ofEmission]
  arrow := by simp [Grid.arrow]

theorem last_ofEmission (rows : List Row) (e : Emission) :
    ((Row.ofEmission e).among rows).last = Text.hexPairs e.bytes := by
  simp [Row.among, Row.ofEmission, Emission.hex]

theorem PrintedRow.Shows.lineFeed_not_mem {r : PrintedRow} {k : ℕ} {l : Line} (h : r.Shows k l)
    (hline : '\n' ∉ l.text.toList) (hlast : '\n' ∉ r.last) : '\n' ∉ r.text := by
  obtain ⟨digits, hdigits, haddress⟩ := h.address
  refine PrintedRow.lineFeed_not_mem (fun j => ?_) hlast
  fin_cases j
  · have hfeed := Text.lineFeed_not_mem_of_isAddress hdigits
    simp [haddress, hfeed]
  · intro hmem
    have htrim : '\n' ∈ l.trimmed.toList := h.source ▸ hmem
    rw [Line.trimmed, String.toList_ofList] at htrim
    exact hline (Text.mem_of_mem_trim htrim)
  · simp [h.arrow]

end Grid

namespace Listing

def printedRows (L : Listing) : List Grid.PrintedRow :=
  L.emissions.map fun e => (Grid.Row.ofEmission e).among (L.emissions.map Grid.Row.ofEmission)

theorem printedRows_eq (L : Listing) :
    L.printedRows = (L.emissions.map Grid.Row.ofEmission).map
      (Grid.Row.among (L.emissions.map Grid.Row.ofEmission)) := by
  rw [List.map_map]
  rfl

theorem grid_eq_sheet (L : Listing) : L.grid = String.ofList (Grid.sheet L.printedRows) := by
  rw [grid, Grid.render_eq_sheet, printedRows_eq]

theorem straight_printedRows (L : Listing) (j : Fin 3) : Grid.Straight L.printedRows j := by
  rw [printedRows_eq]
  exact Grid.straight_among _ j

theorem map_last_printedRows (L : Listing) :
    L.printedRows.map Grid.PrintedRow.last = L.emissions.map fun e => Text.hexPairs e.bytes := by
  simp [printedRows, Grid.last_ofEmission]

/-- Where each emission has one byte, the last cells of the grid are the words of the image. -/
theorem intercalate_last_printedRows {L : Listing} (h : ∀ e ∈ L.emissions, ∃ b, e.bytes = [b]) :
    [' '].intercalate (L.printedRows.map Grid.PrintedRow.last) = Text.hexPairs L.bytes := by
  have hcells : (L.emissions.map fun e => Text.hexPairs e.bytes) = L.bytes.map Text.hexPair := by
    rw [bytes, List.map_flatMap, List.map_eq_flatMap]
    apply List.flatMap_congr
    intro e he
    obtain ⟨b, hb⟩ := h e he
    simp [hb, Text.hexPairs]
  rw [map_last_printedRows, hcells, Text.hexPairs]

variable {b : Line → UInt8} {lines : List Line}

theorem exists_shows_of_ofBytes {k : ℕ} {l : Line} (hl : lines[k]? = some l) :
    ∃ r, (ofBytes b lines).printedRows[k]? = some r ∧ r.Shows k l := by
  have hrow : (ofBytes b lines).printedRows[k]? = some ((Grid.Row.ofEmission ⟨l, k, [b l]⟩).among
      ((ofBytes b lines).emissions.map Grid.Row.ofEmission)) := by
    rw [printedRows, List.getElem?_map, getElem?_ofBytes, hl, Option.map_some, Option.map_some]
  exact ⟨_, hrow, Grid.shows_ofEmission _ _⟩

theorem lineFeed_not_mem_of_ofBytes (hlines : ∀ l ∈ lines, '\n' ∉ l.text.toList)
    {r : Grid.PrintedRow} (hr : r ∈ (ofBytes b lines).printedRows) : '\n' ∉ r.text := by
  obtain ⟨e, he, rfl⟩ := List.mem_map.1 hr
  obtain ⟨hline, hbytes⟩ := of_mem_ofBytes he
  refine (Grid.shows_ofEmission _ e).lineFeed_not_mem (hlines _ hline) ?_
  rw [Grid.last_ofEmission, hbytes, Text.hexPairs, List.map_singleton, List.intercalate_singleton]
  exact Text.not_mem_hexPair (by decide) _

end Listing

theorem Source.lineFeed_not_mem_of_read {content : ByteArray} {lines : List Line}
    (h : read content = .ok lines) : ∀ l ∈ lines, '\n' ∉ l.text.toList := by
  obtain ⟨text, rfl⟩ := (exists_read_iff content).1 ⟨lines, h⟩
  obtain ⟨F, rfl⟩ := exists_content_eq text
  obtain rfl := Except.ok.inj ((read_content F).symm.trans h)
  intro l hl
  have htext : l.text ∈ F.texts := by
    rw [← Line.map_text_numbered F.texts]
    exact List.mem_map_of_mem hl
  obtain ⟨m, -, hm⟩ := List.mem_map.1 htext
  rw [← hm]
  exact m.no_feed

namespace Command

variable {args : List String} {o : Options} {fs : FileSystem} {content : ByteArray} {L : Listing}

theorem course_of_assembled (hread : fs.read o.input = .ok content)
    (hL : (assembleSource .standard content).result = .ok L) :
    course fs o.input o.output? = ⟨(assembleSource .standard content).log, some L,
      closing fs o.input (o.output?.or (Path.stem? o.input)) L⟩ := by
  unfold course
  rw [hread]
  dsimp only
  rw [hL]

/-- With the grid asked for, a run whose input assembles prints the log up to the end of assembly,
then a sheet with one row for each line of the input, then the rest. No row has a line feed in it,
whatever the lines hold. The row of a line shows its position as an address and the line without the
blanks around it. The first three columns are straight. The run exits with 0 just when there is a
place for the image, and after the address in it stand the last cells with single spaces between
them. -/
theorem run_grid (h : Request.ofArguments args = .ok (.assemble o)) (hgrid : o.grid = true)
    (hread : fs.read o.input = .ok content)
    (hL : (assembleSource .standard content).result = .ok L) (stamp : String) :
    ∃ (lines : List Line) (rows : List Grid.PrintedRow),
      Source.read content = .ok lines ∧
      (run stamp args fs).standard =
        Note.logged stamp ((if 3 ≤ o.verbosity then [.arguments o] else []) ++
          Note.shown o.limit ((assembleSource .standard content).log.map Note.event)) ++
        String.ofList (Grid.sheet rows) ++
        ((if o.print then Image.render L.bytes ++ "\n" else "") ++
          Note.logged stamp (Note.shown o.limit [(course fs o.input o.output?).ending.note])) ∧
      rows.length = lines.length ∧
      (∀ r ∈ rows, '\n' ∉ r.text) ∧
      (∀ (k : ℕ) (l : Line), lines[k]? = some l → ∃ r, rows[k]? = some r ∧ r.Shows k l) ∧
      (∀ j, Grid.Straight rows j) ∧
      ((run stamp args fs).status = 0 ↔ ∃ path place, o.outputPath? = some path ∧
        fs.locateNew path = .ok place ∧
        (run stamp args fs).files.node? place = some (.file (Image.header ++ "\n0: " ++
          String.ofList ([' '].intercalate (rows.map Grid.PrintedRow.last))).toUTF8)) := by
  obtain ⟨lines, hlines, hassembled⟩ := exists_read_of_assembleSource hL
  obtain ⟨b, -, rfl⟩ := exists_ofBytes_of_ok rfl hassembled
  have hcourse := course_of_assembled hread hL
  have hbytes : ∀ e ∈ (Listing.ofBytes b lines).emissions, ∃ b', e.bytes = [b'] :=
    fun e he => ⟨b e.line, (Listing.of_mem_ofBytes he).2⟩
  have hlast := Listing.intercalate_last_printedRows hbytes
  obtain ⟨hstatus, hfiles⟩ := run_status_files h stamp fs
  refine ⟨lines, (Listing.ofBytes b lines).printedRows, hlines, ?_, ?_, ?_, ?_, ?_, ?_⟩
  · rw [run_standard h, Course.standard, hcourse]
    simp [Options.printed, hgrid, Listing.grid_eq_sheet, String.append_assoc]
  · simp [Listing.printedRows, Listing.ofBytes]
  · intro r hr
    exact Listing.lineFeed_not_mem_of_ofBytes (Source.lineFeed_not_mem_of_read hlines) hr
  · intro k l hl
    exact Listing.exists_shows_of_ofBytes hl
  · exact Listing.straight_printedRows _
  · rw [hstatus, hfiles]
    constructor
    · intro hzero
      obtain ⟨content', L', path, place, hread', hL', hpath, hplace, hwrote, -⟩ :=
        exists_onlyWrote_of_status hzero
      obtain rfl := Except.ok.inj (hread.symm.trans hread')
      obtain rfl := Except.ok.inj (hL.symm.trans hL')
      refine ⟨path, place, hpath, hplace, ?_⟩
      rw [hlast]
      exact hwrote.written
    · rintro ⟨path, place, hpath, hplace, -⟩
      obtain ⟨text, rfl⟩ := exists_text_of_assembleSource hL
      exact status_eq_zero_iff_assembles.2 ⟨⟨text, _, hread, hL⟩, path, place, hpath, hplace⟩

/-- Two rows, and the program overwritten by their last cells. -/
theorem run_grid_home :
    Request.ofArguments ["p", "-d"] = .ok (.assemble ⟨"p", none, 0, false, true⟩) ∧
    FileSystem.home.read "p" = .ok "LDA 3\nHLT".toUTF8 ∧
    (assembleSource .standard "LDA 3\nHLT".toUTF8).result =
      .ok ⟨[⟨⟨1, "LDA 3"⟩, 0, [0x13]⟩, ⟨⟨2, "HLT"⟩, 1, [0x50]⟩]⟩ ∧
    ∃ rows : List Grid.PrintedRow,
      (run "" ["p", "-d"] .home).standard = String.ofList (Grid.sheet rows) ∧ rows.length = 2 ∧
      (∃ r, rows[0]? = some r ∧ r.Shows 0 ⟨1, "LDA 3"⟩) ∧ (∀ j, Grid.Straight rows j) ∧
      (run "" ["p", "-d"] .home).files.node? ["w", "p"] = some (.file (Image.header ++ "\n0: " ++
        String.ofList ([' '].intercalate (rows.map Grid.PrintedRow.last))).toUTF8) := by
  have hargs : Request.ofArguments ["p", "-d"] =
      .ok (.assemble ⟨"p", none, 0, false, true⟩) := by cbv
  have hlines : Source.read "LDA 3\nHLT".toUTF8 = .ok [⟨1, "LDA 3"⟩, ⟨2, "HLT"⟩] := by cbv
  have hpath : (⟨"p", none, 0, false, true⟩ : Options).outputPath? = some "p" := by cbv
  have hzero : (run "" ["p", "-d"] .home).status = 0 := by cbv
  have hbefore : Note.shown .error
      ((assembleSource .standard "LDA 3\nHLT".toUTF8).log.map Note.event) = [] := by cbv
  have hlast : Note.shown .error [(course .home "p" none).ending.note] = [] := by cbv
  obtain ⟨lines, rows, hlines', hstandard, hlength, -, hshows, hstraight, hstatus⟩ :=
    run_grid hargs rfl read_home assembleSource_home ""
  obtain rfl := Except.ok.inj (hlines.symm.trans hlines')
  simp only [Options.limit] at hstandard
  rw [hbefore, hlast] at hstandard
  refine ⟨hargs, read_home, assembleSource_home, rows,
    by simpa [Note.logged] using hstandard, hlength, hshows 0 _ rfl, hstraight, ?_⟩
  obtain ⟨path, place, hpath', hplace', hwritten⟩ := hstatus.1 hzero
  obtain rfl := Option.some.inj (hpath.symm.trans hpath')
  obtain rfl := Except.ok.inj (locateNew_home.symm.trans hplace')
  exact hwritten

end Command

end NibbleAsm
