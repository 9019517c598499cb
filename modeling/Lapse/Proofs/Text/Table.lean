import Lapse.Text.Table
import Lapse.Proofs.Text.Utf8
import Mathlib.Algebra.BigOperators.Intervals
import Mathlib.Data.List.Forall2
import Mathlib.Data.List.TakeWhile

/-!
# Columns of tables

In every line of a table a cell begins where its column does, whatever characters are in the cells: a
column is as wide as its longest cell has bytes, a cell has no more characters than that, and two blanks
stand after it.  What is cut off at the end of a line is blank.
-/

namespace Lapse.Table

/-! ## Columns -/

/-- The cells of a column, that of the headers first; a short row may have none. -/
def column (headers : List String) (rows : List (List String)) (i : Nat) : List String :=
  (headers :: rows).filterMap (·[i]?)

/-- The number of bytes of the longest cell of a column. -/
def columnWidth (headers : List String) (rows : List (List String)) (i : Nat) : Nat :=
  ((column headers rows i).map String.utf8ByteSize).foldl max 0

/-- The number of characters before a column, when there are two between columns. -/
def offset (width : Nat → Nat) (i : Nat) : Nat := ∑ j ∈ Finset.range i, (width j + 2)

/-- The cells of a row in a line that goes on with two blanks. -/
structure Laid (width : Nat → Nat) (columns : Nat) (cells : List String) (line : List Char) :
    Prop where
  /-- The cell of a column begins there, and blanks follow it up to the next column. -/
  column : ∀ i < columns, ∀ cell, cells[i]? = some cell → cell.length ≤ width i ∧
    (line.drop (offset width i)).take (width i + 2) =
      cell.toList ++ List.replicate (width i + 2 - cell.length) ' '
  /-- A row that is not longer than the headers ends with its last cell. -/
  ended : cells.length ≤ columns → line.length = offset width cells.length
  /-- Other cells follow the columns. -/
  others : columns ≤ cells.length → line.drop (offset width columns) =
    (cells.drop columns).flatMap fun cell => cell.toList ++ [' ', ' ']

/-- A line without the blanks at its end. -/
structure Trims (line trimmed : List Char) : Prop where
  cut : ∃ blanks, line = trimmed ++ blanks ∧ ∀ c ∈ blanks, isBlank c = true
  ended : ∀ c, trimmed.getLast? = some c → isBlank c = false

/-- The line of a row: its cells in their columns, without the blanks at the end. -/
def Aligned (width : Nat → Nat) (columns : Nat) (cells : List String) (line : List Char) : Prop :=
  ∃ full, Laid width columns cells full ∧ Trims full line

/-- The lines of a table: a line of the headers, a line of hyphens and a line for every row, each with
its cells in their columns. -/
def Tabulated (headers : List String) (rows : List (List String)) (lines : List String) : Prop :=
  ∃ head rule body, lines = head :: rule :: body ∧
    Aligned (columnWidth headers rows) headers.length headers head.toList ∧
    rule.toList = List.intercalate [' ', ' '] ((List.range headers.length).map fun i =>
      List.replicate (columnWidth headers rows i) '-') ∧
    List.Forall₂ (fun cells line =>
      Aligned (columnWidth headers rows) headers.length cells line.toList) rows body

/-! ## Widths -/

theorem width_eq (c : Char) : Utf8.width c = c.utf8Size := by
  have h : c.toNat = c.val.toNat := rfl
  simp only [Utf8.width, Utf8.encodeChar, h, Char.utf8Size, UInt32.le_iff_toNat_le,
    UInt32.toNat_ofNatLT, ← Nat.lt_succ_iff]
  split_ifs <;> rfl

/-- A cell has as many bytes as its text. -/
theorem size_eq (cell : String) : size cell = cell.utf8ByteSize := by
  have h : ∀ cs, (Utf8.encodeChars cs).length = (String.ofList cs).utf8ByteSize := by
    intro cs
    induction cs with
    | nil => rfl
    | cons c cs ih =>
        rw [String.ofList_cons, String.utf8ByteSize_append, String.utf8ByteSize_singleton,
          ← ih, ← width_eq, Utf8.encodeChars, List.flatMap_cons, List.length_append]
        rfl
  rw [size, Utf8.encode, h, String.ofList_toList]

theorem length_le_size (cell : String) : cell.length ≤ size cell := by
  rw [← String.length_toList]
  exact Utf8.length_le_encodeChars cell.toList

/-- A row widens a column by its cell there, if it has one. -/
theorem getElem?_widen (ws : List Nat) (row : List String) (i : Nat) :
    (widen ws row)[i]? = ws[i]?.map fun w => (row[i]?.toList.map size).foldl max w := by
  induction ws generalizing row i with
  | nil => cases row <;> rfl
  | cons w ws ih =>
      cases row with
      | nil => simp [widen]
      | cons cell cells =>
          cases i with
          | zero => rfl
          | succ i => exact ih cells i

theorem getElem?_foldl_widen (ws : List Nat) (rows : List (List String)) (i : Nat) :
    (rows.foldl widen ws)[i]? =
      ws[i]?.map fun w => ((rows.filterMap (·[i]?)).map size).foldl max w := by
  induction rows generalizing ws with
  | nil => simp
  | cons row rows ih =>
      rw [List.foldl_cons, ih, getElem?_widen, Option.map_map]
      cases hrow : row[i]? with
      | none => simp [hrow, Function.comp_def]
      | some cell => simp [hrow, Function.comp_def]

/-- **WIDTHS**: every column of the headers is as wide as its longest cell. -/
theorem getElem?_widths (headers : List String) (rows : List (List String)) (i : Nat) :
    (widths headers rows)[i]? =
      if i < headers.length then some (columnWidth headers rows i) else none := by
  rw [widths, getElem?_foldl_widen, List.getElem?_map]
  split
  · next hi => simp [columnWidth, column, List.getElem?_eq_getElem hi, funext size_eq]
  · next hi => simp [List.getElem?_eq_none (Nat.le_of_not_lt hi)]

/-! ## Lines -/

/-- Cells that are filled up, each with two blanks after it. -/
def spread (ws : List Nat) (cells : List String) : List Char :=
  (fillAll ws cells).flatMap (· ++ [' ', ' '])

theorem offset_succ (width : Nat → Nat) (i : Nat) :
    offset width (i + 1) = width 0 + 2 + offset (fun j => width (j + 1)) i := by
  rw [offset, Finset.sum_range_succ', offset, Nat.add_comm]

/-- A cell with the blanks up to the next column. -/
theorem fill_blanks {w : Nat} {cell : String} (h : cell.length ≤ w) :
    fill w cell ++ [' ', ' '] = cell.toList ++ List.replicate (w + 2 - cell.length) ' ' := by
  have hsub : w + 2 - cell.length = w - cell.length + 2 := by omega
  rw [hsub, fill, List.append_assoc, List.replicate_add, String.length_toList]
  rfl

theorem length_fill_blanks {w : Nat} {cell : String} (h : cell.length ≤ w) :
    (fill w cell ++ [' ', ' ']).length = w + 2 := by
  rw [fill_blanks h, List.length_append, List.length_replicate, String.length_toList]
  omega

/-- Cells beyond the columns are not filled up. -/
theorem spread_nil (cells : List String) :
    spread [] cells = cells.flatMap fun cell => cell.toList ++ [' ', ' '] := by
  induction cells with
  | nil => rfl
  | cons cell cells ih =>
      rw [spread, fillAll, List.flatMap_cons, List.flatMap_cons, fill, Nat.zero_sub,
        List.replicate_zero, List.append_nil]
      exact congrArg _ ih

/-- **COLUMNS**: cells that are filled up lie in columns when they fit. -/
theorem laid_spread (width : Nat → Nat) (ws : List Nat) (cells : List String)
    (hwidth : ∀ i < ws.length, ws[i]? = some (width i))
    (hfits : ∀ i < ws.length, ∀ cell, cells[i]? = some cell → cell.length ≤ width i) :
    Laid width ws.length cells (spread ws cells) := by
  induction ws generalizing cells width with
  | nil =>
      refine ⟨fun i hi => absurd hi i.not_lt_zero, fun h => ?_, fun _ => spread_nil cells⟩
      rw [List.length_eq_zero_iff.mp (Nat.le_zero.mp h)]
      rfl
  | cons w ws ih =>
      cases cells with
      | nil => exact ⟨fun _ _ _ h => (by simp at h), fun _ => rfl, fun h => nomatch h⟩
      | cons cell cells =>
          obtain rfl : w = width 0 := Option.some.inj (hwidth 0 (by simp))
          have hcell : cell.length ≤ width 0 := hfits 0 (by simp) cell rfl
          have hlength := length_fill_blanks hcell
          have hsplit : spread (width 0 :: ws) (cell :: cells) =
              (fill (width 0) cell ++ [' ', ' ']) ++ spread ws cells := rfl
          -- what follows the first block is laid out by the widths after the first
          have hrest := ih (fun j => width (j + 1)) cells
            (fun i hi => hwidth (i + 1) (Nat.succ_lt_succ hi))
            (fun i hi => hfits (i + 1) (Nat.succ_lt_succ hi))
          have hdrop : ∀ i, (spread (width 0 :: ws) (cell :: cells)).drop (offset width (i + 1)) =
              (spread ws cells).drop (offset (fun j => width (j + 1)) i) := by
            intro i
            rw [hsplit, offset_succ, ← hlength, List.drop_length_add_append]
          refine ⟨fun i hi other hother => ?_, fun h => ?_, fun h => ?_⟩
          · cases i with
            | zero =>
                obtain rfl : cell = other := Option.some.inj hother
                refine ⟨hcell, ?_⟩
                rw [hsplit, ← fill_blanks hcell, ← hlength]
                exact List.take_left
            | succ i =>
                rw [hdrop]
                exact hrest.column i (Nat.lt_of_succ_lt_succ hi) other hother
          · rw [hsplit, List.length_append, hlength, hrest.ended (Nat.le_of_succ_le_succ h),
              List.length_cons, offset_succ]
          · rw [List.length_cons, hdrop]
            exact hrest.others (Nat.le_of_succ_le_succ h)

theorem Laid.take_offset {width : Nat → Nat} {columns : Nat} {cells : List String}
    {line line' : List Char} (h : Laid width columns cells line)
    (h' : Laid width columns cells line') {i : Nat} (hi : i ≤ columns) (hcells : i ≤ cells.length) :
    line.take (offset width i) = line'.take (offset width i) := by
  induction i with
  | zero => rfl
  | succ i ih =>
      have hsum : offset width (i + 1) = offset width i + (width i + 2) := Finset.sum_range_succ _ i
      have hcell : cells[i]? = some cells[i] := List.getElem?_eq_getElem hcells
      have htake : ∀ line : List Char, line.take (offset width (i + 1)) =
          line.take (offset width i) ++ (line.drop (offset width i)).take (width i + 2) :=
        fun line => hsum ▸ List.take_add
      rw [htake, htake, ih (by omega) (by omega), (h.column i hi _ hcell).2,
        (h'.column i hi _ hcell).2]

/-- **ONE LINE**: the cells of a row tell its line. -/
theorem Laid.unique {width : Nat → Nat} {columns : Nat} {cells : List String}
    {line line' : List Char} (h : Laid width columns cells line)
    (h' : Laid width columns cells line') : line = line' := by
  by_cases hcells : cells.length ≤ columns
  · have htake := h.take_offset h' hcells (Nat.le_refl _)
    rwa [← h.ended hcells, List.take_length, h.ended hcells, ← h'.ended hcells,
      List.take_length] at htake
  · have hcolumns : columns ≤ cells.length := by omega
    rw [← List.take_append_drop (offset width columns) line,
      ← List.take_append_drop (offset width columns) line',
      h.take_offset h' (Nat.le_refl _) hcolumns, h.others hcolumns, h'.others hcolumns]

/-! ## Ends of lines -/

theorem join_eq (cells : List (List Char)) : join cells = List.intercalate [' ', ' '] cells := by
  induction cells with
  | nil => rfl
  | cons cell cells ih =>
      cases cells with
      | nil => exact List.intercalate_singleton.symm
      | cons next cells =>
          rw [List.intercalate_cons_cons, ← ih, List.append_assoc]
          rfl

/-- Two blanks after the last cell too. -/
theorem join_append {cells : List (List Char)} (h : cells ≠ []) :
    join cells ++ [' ', ' '] = cells.flatMap (· ++ [' ', ' ']) := by
  induction cells with
  | nil => exact absurd rfl h
  | cons cell cells ih =>
      cases cells with
      | nil => exact (List.append_nil _).symm
      | cons next cells =>
          rw [List.flatMap_cons, ← ih (List.cons_ne_nil _ _), List.append_assoc]
          exact List.append_assoc cell _ _

theorem trimEnd_append {blanks : List Char} (h : ∀ c ∈ blanks, isBlank c = true)
    (line : List Char) : trimEnd (line ++ blanks) = trimEnd line := by
  rw [trimEnd, List.reverse_append, List.dropWhile_append_of_pos, trimEnd]
  simpa using h

theorem trims_trimEnd (line : List Char) : Trims line (trimEnd line) where
  cut := by
    refine ⟨(line.reverse.takeWhile isBlank).reverse, ?_, fun c hc => ?_⟩
    · rw [trimEnd, ← List.reverse_append, List.takeWhile_append_dropWhile, List.reverse_reverse]
    · exact List.mem_takeWhile_imp (List.mem_reverse.mp hc)
  ended := by
    intro c hc
    rw [trimEnd, List.getLast?_reverse] at hc
    have h := List.head?_dropWhile_not isBlank line.reverse
    rwa [hc] at h

theorem Trims.eq_trimEnd {line trimmed : List Char} (h : Trims line trimmed) :
    trimmed = trimEnd line := by
  obtain ⟨blanks, rfl, hblanks⟩ := h.cut
  rw [trimEnd_append hblanks, trimEnd]
  cases hend : trimmed.reverse with
  | nil => exact List.reverse_eq_nil_iff.mp hend
  | cons c rest =>
      have hlast : trimmed.getLast? = some c := by rw [List.getLast?_eq_head?_reverse, hend]; rfl
      rw [List.dropWhile_cons_of_neg (by simp [h.ended c hlast]), ← hend, List.reverse_reverse]

/-- The line of a row ends before the blanks of its last cell. -/
theorem rowLine_eq (ws : List Nat) (cells : List String) :
    rowLine ws cells = trimEnd (spread ws cells) := by
  by_cases h : fillAll ws cells = []
  · rw [rowLine, spread, h]
    rfl
  · rw [rowLine, spread, ← join_append h, trimEnd_append]
    exact List.all_eq_true.mp (rfl : [' ', ' '].all isBlank = true)

/-! ## Tables -/

section Fitting

variable {headers : List String} {rows : List (List String)}

/-- A cell has no more characters than its column has bytes. -/
theorem length_le_columnWidth {cells : List String} (hrow : cells ∈ headers :: rows) {i : Nat}
    {cell : String} (hcell : cells[i]? = some cell) :
    cell.length ≤ columnWidth headers rows i := by
  have hmem : cell.utf8ByteSize ∈ (column headers rows i).map String.utf8ByteSize :=
    List.mem_map_of_mem (List.mem_filterMap.mpr ⟨cells, hrow, hcell⟩)
  calc cell.length ≤ cell.utf8ByteSize := size_eq cell ▸ length_le_size cell
    _ ≤ columnWidth headers rows i := by
      rw [columnWidth, List.foldl_max]
      exact (List.le_max?_getD_of_mem hmem).trans (Nat.le_max_right _ _)

theorem widths_eq :
    widths headers rows = (List.range headers.length).map (columnWidth headers rows) := by
  refine List.ext_getElem? fun i => ?_
  rw [getElem?_widths, List.getElem?_map]
  split
  · next hi => rw [List.getElem?_range hi, Option.map_some]
  · next hi => rw [List.getElem?_eq_none (by simpa using hi), Option.map_none]

theorem aligned_rowLine {cells : List String} (hrow : cells ∈ headers :: rows) :
    Aligned (columnWidth headers rows) headers.length cells
      (rowLine (widths headers rows) cells) := by
  have hlength : (widths headers rows).length = headers.length := by
    rw [widths_eq, List.length_map, List.length_range]
  refine ⟨spread (widths headers rows) cells, hlength ▸ laid_spread _ _ _ (fun i hi => ?_)
    (fun i _ cell hcell => length_le_columnWidth hrow hcell),
    rowLine_eq (widths headers rows) cells ▸ trims_trimEnd _⟩
  rw [getElem?_widths, if_pos (hlength ▸ hi)]

end Fitting

theorem tabulated_lines (headers : List String) (rows : List (List String)) :
    Tabulated headers rows (lines headers rows) := by
  refine ⟨_, _, _, rfl, ?_, ?_, ?_⟩
  · rw [String.toList_ofList]
    exact aligned_rowLine List.mem_cons_self
  · rw [String.toList_ofList, ruleLine, join_eq, widths_eq, List.map_map]
    rfl
  · rw [List.map_map, List.forall₂_map_right_iff, List.forall₂_same]
    intro cells hrow
    rw [Function.comp_apply, String.toList_ofList]
    exact aligned_rowLine (List.mem_cons_of_mem _ hrow)

theorem Aligned.unique {width : Nat → Nat} {columns : Nat} {cells : List String}
    {line line' : List Char} (h : Aligned width columns cells line)
    (h' : Aligned width columns cells line') : line = line' := by
  obtain ⟨full, hlaid, htrims⟩ := h
  obtain ⟨full', hlaid', htrims'⟩ := h'
  rw [htrims.eq_trimEnd, htrims'.eq_trimEnd, hlaid.unique hlaid']

/-- The headers and the rows tell the lines of a table. -/
theorem Tabulated.unique {headers : List String} {rows : List (List String)}
    {lines lines' : List String} (h : Tabulated headers rows lines)
    (h' : Tabulated headers rows lines') : lines = lines' := by
  obtain ⟨head, rule, body, rfl, hhead, hrule, hbody⟩ := h
  obtain ⟨head', rule', body', rfl, hhead', hrule', hbody'⟩ := h'
  obtain rfl : head = head' := String.toList_inj.mp (hhead.unique hhead')
  obtain rfl : rule = rule' := String.toList_inj.mp (hrule.trans hrule'.symm)
  have hrows : body = body' :=
    List.right_unique_forall₂' (fun _ _ _ h h' => String.toList_inj.mp (h.unique h')) hbody hbody'
  rw [hrows]

/-- **TABLES**: a table has a line of the headers, a line of hyphens and a line for every row, and in
every line the cells begin where their columns do. -/
theorem lines_aligned (headers : List String) (rows : List (List String)) :
    ∃ head rule body, lines headers rows = head :: rule :: body ∧
      Aligned (columnWidth headers rows) headers.length headers head.toList ∧
      rule.toList = List.intercalate [' ', ' '] ((List.range headers.length).map fun i =>
        List.replicate (columnWidth headers rows i) '-') ∧
      List.Forall₂ (fun cells line =>
        Aligned (columnWidth headers rows) headers.length cells line.toList) rows body :=
  tabulated_lines headers rows

end Lapse.Table
