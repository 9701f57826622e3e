import AddressMap.Proofs.Header.Includes
import AddressMap.Sheet

set_option autoImplicit false

/-!
A sheet is text as RFC 4180 has it: cells are separated by commas, a row ends with a carriage return and a line
feed, and a cell stands as it is or between quotes, where its own quotes are doubled. A reader goes through the
characters one by one; it accepts exactly the texts of this form, so every text has at most one reading. What is
written for a list of rows is such a text, and it is read as these rows.
-/

namespace AddressMap.Sheet

def doubled (c : Char) : List Char := if c == '"' then ['"', '"'] else [c]

/-- A cell as it may stand in a row. -/
inductive Spells (cell : String) : List Char → Prop
  | bare (h : ∀ c ∈ cell.toList, mustQuote c = false) : Spells cell cell.toList
  | quoted : Spells cell ('"' :: (cell.toList.flatMap doubled ++ ['"']))

inductive SpellsRow : List String → List Char → Prop
  | last {cell : String} {cs : List Char} (h : Spells cell cs) : SpellsRow [cell] (cs ++ ['\r', '\n'])
  | more {cell : String} {cs : List Char} {cells : List String} {ds : List Char} (h : Spells cell cs)
    (rest : SpellsRow cells ds) : SpellsRow (cell :: cells) (cs ++ ',' :: ds)

inductive SpellsRows : List (List String) → List Char → Prop
  | none : SpellsRows [] []
  | more {cells : List String} {cs : List Char} {rows : List (List String)} {ds : List Char}
    (h : SpellsRow cells cs) (rest : SpellsRows rows ds) : SpellsRows (cells :: rows) (cs ++ ds)

/-- Where the next character stands: in a bare cell, between quotes, behind a quote that may end the cell or be
    the first of two, or behind the carriage return of a row. -/
inductive Stage where
  | bare
  | quoted
  | closing
  | ending
  deriving DecidableEq

structure Reader where
  stage : Stage
  cell : List Char
  cells : List String
  rows : List (List String)

namespace Reader

def start : Reader := ⟨.bare, [], [], []⟩

def take (r : Reader) (c : Char) : Reader := { r with cell := r.cell ++ [c] }

def enter (r : Reader) (stage : Stage) : Reader := { r with stage }

def row (r : Reader) : List String := r.cells ++ [String.ofList r.cell]

def nextCell (r : Reader) : Reader := ⟨.bare, [], r.row, r.rows⟩

def nextRow (r : Reader) : Reader := ⟨.bare, [], [], r.rows ++ [r.row]⟩

def step (r : Reader) (c : Char) : Option Reader :=
  match r.stage with
  | .bare =>
    if c = '"' then if r.cell = [] then some (r.enter .quoted) else none
    else if c = ',' then some r.nextCell
    else if c = '\r' then some (r.enter .ending)
    else if c = '\n' then none
    else some (r.take c)
  | .quoted => if c = '"' then some (r.enter .closing) else some (r.take c)
  | .closing =>
    if c = '"' then some ((r.take c).enter .quoted)
    else if c = ',' then some r.nextCell
    else if c = '\r' then some (r.enter .ending)
    else none
  | .ending => if c = '\n' then some r.nextRow else none

def run (r : Reader) (cs : List Char) : Option Reader := cs.foldlM step r

@[simp] theorem run_nil (r : Reader) : r.run [] = some r := rfl

@[simp] theorem run_cons (r : Reader) (c : Char) (cs : List Char) :
    r.run (c :: cs) = (r.step c).bind fun next => next.run cs := List.foldlM_cons

def finish? (r : Reader) : Option (List (List String)) :=
  if r.stage = .bare ∧ r.cell = [] ∧ r.cells = [] then some r.rows else none

end Reader

/-- The rows of a sheet, if the text is one. -/
def rows? (text : String) : Option (List (List String)) := (Reader.start.run text.toList).bind Reader.finish?

inductive Begun : List String → List Char → Prop
  | nothing : Begun [] []
  | comma {cells : List String} {cs : List Char} {cell : String} {ds : List Char} (begun : Begun cells cs)
    (h : Spells cell ds) : Begun (cells ++ [cell]) (cs ++ (ds ++ [',']))

theorem Begun.row {cells rest : List String} {cs ds : List Char} (h : Begun cells cs) (hrest : SpellsRow rest ds) :
    SpellsRow (cells ++ rest) (cs ++ ds) := by
  induction h generalizing rest ds with
  | nothing => exact hrest
  | comma begun h ih =>
    have tail := ih (.more h hrest)
    simpa using tail

theorem SpellsRows.concat {rows : List (List String)} {cs : List Char} (h : SpellsRows rows cs)
    {cells : List String} {ds : List Char} (hrow : SpellsRow cells ds) : SpellsRows (rows ++ [cells]) (cs ++ ds) := by
  induction h with
  | none => simpa using SpellsRows.more hrow .none
  | more first rest ih => simpa using SpellsRows.more first ih

def Stage.Holds (cell : List Char) : Stage → List Char → Prop
  | .bare, cs => cs = cell ∧ ∀ c ∈ cell, mustQuote c = false
  | .quoted, cs => cs = '"' :: cell.flatMap doubled
  | .closing, cs => cs = '"' :: (cell.flatMap doubled ++ ['"'])
  | .ending, cs => ∃ ds, Spells (String.ofList cell) ds ∧ cs = ds ++ ['\r']

def Reader.Holds (r : Reader) (text : List Char) : Prop :=
  ∃ before begun cell, SpellsRows r.rows before ∧ Begun r.cells begun ∧ r.stage.Holds r.cell cell ∧
    text = before ++ (begun ++ cell)

theorem Reader.holds_start : start.Holds [] := ⟨[], [], [], .none, .nothing, ⟨rfl, by simp [start]⟩, rfl⟩

theorem spells_of_bare {cell : List Char} (h : ∀ c ∈ cell, mustQuote c = false) :
    Spells (String.ofList cell) cell := by
  have spelled : Spells (String.ofList cell) (String.ofList cell).toList := .bare (by rwa [String.toList_ofList])
  rwa [String.toList_ofList] at spelled

theorem spells_of_closing (cell : List Char) :
    Spells (String.ofList cell) ('"' :: (cell.flatMap doubled ++ ['"'])) := by
  have spelled : Spells (String.ofList cell) _ := .quoted
  rwa [String.toList_ofList] at spelled

namespace Reader

variable {r r' : Reader} {before begun cell : List Char} {c : Char}

theorem holds_nextCell (hbefore : SpellsRows r.rows before) (hbegun : Begun r.cells begun)
    (h : Spells (String.ofList r.cell) cell) : r.nextCell.Holds (before ++ (begun ++ cell) ++ [',']) := by
  refine ⟨before, _, [], hbefore, hbegun.comma h, ⟨rfl, by simp [nextCell]⟩, ?_⟩
  simp

theorem holds_nextRow (hbefore : SpellsRows r.rows before) (hbegun : Begun r.cells begun)
    (h : Spells (String.ofList r.cell) cell) : r.nextRow.Holds (before ++ (begun ++ (cell ++ ['\r'])) ++ ['\n']) := by
  refine ⟨_, [], [], hbefore.concat (hbegun.row (.last h)), .nothing, ⟨rfl, by simp [nextRow]⟩, ?_⟩
  simp

theorem step_holds {text : List Char} (h : r.Holds text) (hstep : r.step c = some r') : r'.Holds (text ++ [c]) := by
  obtain ⟨before, begun, cell, hbefore, hbegun, hcell, rfl⟩ := h
  obtain ⟨stage, read, cells, rows⟩ := r
  cases stage with
  | bare =>
    obtain ⟨rfl, bare⟩ := hcell
    simp only [step] at hstep
    split_ifs at hstep with hquote hnil hcomma hreturn hline
    · cases hstep
      cases hnil
      exact ⟨before, begun, ['"'], hbefore, hbegun, rfl, by simp [hquote]⟩
    · cases hstep
      exact hcomma ▸ holds_nextCell hbefore hbegun (spells_of_bare bare)
    · cases hstep
      exact ⟨before, begun, _, hbefore, hbegun, ⟨cell, spells_of_bare bare, rfl⟩, by simp [hreturn]⟩
    · cases hstep
      refine ⟨before, begun, cell ++ [c], hbefore, hbegun, ⟨rfl, ?_⟩, by simp⟩
      intro d hd
      rcases List.mem_append.mp hd with hin | hlast
      · exact bare d hin
      · cases List.mem_singleton.mp hlast
        simp [mustQuote, hquote, hcomma, hreturn, hline]
  | quoted =>
    cases hcell
    simp only [step] at hstep
    split_ifs at hstep with hquote
    · cases hstep
      exact ⟨before, begun, _, hbefore, hbegun, rfl, by simp [enter, hquote]⟩
    · cases hstep
      exact ⟨before, begun, _, hbefore, hbegun, rfl, by simp [take, doubled, hquote]⟩
  | closing =>
    cases hcell
    simp only [step] at hstep
    split_ifs at hstep with hquote hcomma hreturn
    · cases hstep
      exact ⟨before, begun, _, hbefore, hbegun, rfl, by simp [take, enter, doubled, hquote]⟩
    · cases hstep
      exact hcomma ▸ holds_nextCell hbefore hbegun (spells_of_closing read)
    · cases hstep
      exact ⟨before, begun, _, hbefore, hbegun, ⟨_, spells_of_closing read, rfl⟩, by simp [hreturn]⟩
  | ending =>
    obtain ⟨ds, spelled, rfl⟩ := hcell
    simp only [step] at hstep
    split_ifs at hstep with hline
    cases hstep
    exact hline ▸ holds_nextRow hbefore hbegun spelled

theorem run_holds {text cs : List Char} (h : r.Holds text) (hrun : r.run cs = some r') : r'.Holds (text ++ cs) := by
  induction cs generalizing r text with
  | nil =>
    cases hrun
    simpa using h
  | cons c cs ih =>
    rw [run_cons] at hrun
    obtain ⟨next, hstep, hrest⟩ := Option.bind_eq_some_iff.mp hrun
    simpa using ih (step_holds h hstep) hrest

theorem spells_of_finish? {text : List Char} (h : r.Holds text) {rows : List (List String)}
    (hfinish : r.finish? = some rows) : SpellsRows rows text := by
  obtain ⟨before, begun, cell, hbefore, hbegun, hcell, rfl⟩ := h
  unfold finish? at hfinish
  split_ifs at hfinish with hend
  obtain ⟨hstage, hnil, hcells⟩ := hend
  cases hfinish
  rw [hstage, hnil] at hcell
  obtain ⟨rfl, -⟩ := hcell
  rw [hcells] at hbegun
  -- A row that has begun has a cell, so at its end the reader is in front of the next row.
  have nothing : begun = [] := by
    generalize hnone : ([] : List String) = none at hbegun
    cases hbegun with
    | nothing => rfl
    | comma begun h => simp at hnone
  simpa [nothing] using hbefore

theorem run_append (cs ds : List Char) : r.run (cs ++ ds) = (r.run cs).bind fun next => next.run ds :=
  List.foldlM_append

theorem run_plain {cs : List Char} (h : ∀ c ∈ cs, mustQuote c = false) (read : List Char) (cells : List String)
    (rows : List (List String)) : run ⟨.bare, read, cells, rows⟩ cs = some ⟨.bare, read ++ cs, cells, rows⟩ := by
  induction cs generalizing read with
  | nil => simp
  | cons c cs ih =>
    rw [List.forall_mem_cons] at h
    obtain ⟨hplain, hrest⟩ := h
    simp only [mustQuote, Bool.or_eq_false_iff, beq_eq_false_iff_ne] at hplain
    have step : step ⟨.bare, read, cells, rows⟩ c = some ⟨.bare, read ++ [c], cells, rows⟩ := by
      simp [Reader.step, take, hplain]
    rw [run_cons, step]
    simpa using ih hrest (read ++ [c])

theorem run_doubled (cs read : List Char) (cells : List String) (rows : List (List String)) :
    run ⟨.quoted, read, cells, rows⟩ (cs.flatMap doubled) = some ⟨.quoted, read ++ cs, cells, rows⟩ := by
  induction cs generalizing read with
  | nil => simp
  | cons c cs ih =>
    have first : run ⟨.quoted, read, cells, rows⟩ (doubled c) = some ⟨.quoted, read ++ [c], cells, rows⟩ := by
      by_cases h : c = '"'
      · simp [h, doubled, step, enter, take]
      · simp [h, doubled, step, take]
    rw [List.flatMap_cons, run_append, first]
    simpa using ih (read ++ [c])

/-- After a cell the reader is ready for what ends a cell, be it bare or between quotes. -/
theorem run_cell {cell : String} {cs : List Char} (h : Spells cell cs) (cells : List String)
    (rows : List (List String)) :
    ∃ stage, (stage = Stage.bare ∨ stage = Stage.closing) ∧
      run ⟨.bare, [], cells, rows⟩ cs = some ⟨stage, cell.toList, cells, rows⟩ := by
  cases h with
  | bare h => exact ⟨.bare, .inl rfl, run_plain h [] cells rows⟩
  | quoted =>
    refine ⟨.closing, .inr rfl, ?_⟩
    have opened : step ⟨.bare, [], cells, rows⟩ '"' = some ⟨.quoted, [], cells, rows⟩ := rfl
    have closed : run ⟨.quoted, cell.toList, cells, rows⟩ ['"'] = some ⟨.closing, cell.toList, cells, rows⟩ := rfl
    have inside := @run_append ⟨.quoted, [], cells, rows⟩ (cell.toList.flatMap doubled) ['"']
    rw [run_doubled] at inside
    rw [run_cons, opened]
    exact inside.trans closed

theorem run_row {row : List String} {cs : List Char} (h : SpellsRow row cs) (cells : List String)
    (rows : List (List String)) :
    run ⟨.bare, [], cells, rows⟩ cs = some ⟨.bare, [], [], rows ++ [cells ++ row]⟩ := by
  induction h generalizing cells with
  | last h =>
    obtain ⟨stage, hstage, hcell⟩ := run_cell h cells rows
    rw [run_append, hcell]
    rcases hstage with rfl | rfl <;> simp [step, enter, nextRow, Reader.row]
  | @more cell cs rest ds h hrest ih =>
    obtain ⟨stage, hstage, hcell⟩ := run_cell h cells rows
    have comma : step ⟨stage, cell.toList, cells, rows⟩ ',' = some ⟨.bare, [], cells ++ [cell], rows⟩ := by
      rcases hstage with rfl | rfl <;> simp [step, nextCell, Reader.row]
    have tail := ih (cells ++ [cell])
    rw [run_append, hcell, Option.bind_some, run_cons, comma]
    simpa using tail

theorem run_rows {rows : List (List String)} {cs : List Char} (h : SpellsRows rows cs)
    (before : List (List String)) :
    run ⟨.bare, [], [], before⟩ cs = some ⟨.bare, [], [], before ++ rows⟩ := by
  induction h generalizing before with
  | none => simp
  | more first rest ih =>
    rw [run_append, run_row first, Option.bind_some, ih]
    simp

end Reader

/-- The reader accepts exactly the texts of rows. -/
theorem rows?_eq_some_iff {text : String} {rows : List (List String)} :
    rows? text = some rows ↔ SpellsRows rows text.toList := by
  constructor
  · intro h
    obtain ⟨r, hrun, hfinish⟩ := Option.bind_eq_some_iff.mp h
    exact Reader.spells_of_finish? (Reader.run_holds Reader.holds_start hrun) hfinish
  · intro h
    rw [rows?, Reader.start, Reader.run_rows h []]
    rfl

theorem spells_field (cell : String) : Spells cell (field cell).toList := by
  unfold field
  split_ifs with h
  · rw [String.toList_ofList]
    exact .quoted
  · simp only [List.any_eq_true, not_exists, not_and, Bool.not_eq_true] at h
    exact .bare h

theorem spells_cells {cells : List String} (h : cells ≠ []) :
    SpellsRow cells ([','].intercalate (cells.map fun cell => (field cell).toList) ++ ['\r', '\n']) := by
  induction cells with
  | nil => exact absurd rfl h
  | cons cell rest ih =>
    cases rest with
    | nil => simpa using SpellsRow.last (spells_field cell)
    | cons next rest => simpa using SpellsRow.more (spells_field cell) (ih (List.cons_ne_nil next rest))

/-- The cells that a row shows. A row without cells is written like one with an empty cell. -/
def shown (cells : List String) : List String := if cells = [] then [""] else cells

theorem shown_of_ne_nil {cells : List String} (h : cells ≠ []) : shown cells = cells := if_neg h

theorem spells_row (cells : List String) : SpellsRow (shown cells) (row cells).toList := by
  by_cases h : cells = []
  · subst h
    exact .last (.bare (by simp))
  · rw [shown_of_ne_nil h, row, String.toList_append, String.toList_intercalate, List.map_map]
    exact spells_cells h

theorem spells_document (rows : List (List String)) : SpellsRows (rows.map shown) (document rows).toList := by
  induction rows with
  | nil => exact .none
  | cons cells rest ih =>
    have first : document (cells :: rest) = row cells ++ document rest := by
      simp [document]
    rw [first, String.toList_append]
    exact .more (spells_row cells) ih

theorem rows?_document (rows : List (List String)) : rows? (document rows) = some (rows.map shown) :=
  rows?_eq_some_iff.mpr (spells_document rows)

example : document [["a", "b,c", "say \"hi\""], ["", "x\ny"]] =
    "a,\"b,c\",\"say \"\"hi\"\"\"\r\n,\"x\ny\"\r\n" := by decide

theorem length_shown_cellsOf (columns : List String) (es : Props) :
    (shown (cellsOf columns es)).length = (shown columns).length := by
  by_cases h : columns = []
  · rw [h]
    rfl
  · rw [shown_of_ne_nil h, shown_of_ne_nil (by simpa [cellsOf] using h), cellsOf, List.length_map]

theorem rows?_table (columns : List String) (objects : List Props) : rows? (table columns objects) =
    some (shown columns :: objects.map fun es => shown (cellsOf columns es)) := by
  rw [table, rows?_document, List.map_cons, List.map_map]
  rfl

theorem table_of_readable {objects foldedObjects : List Props} {bit : Nat} {text : String}
    (h : readable objects foldedObjects bit = some text) :
    foldedObjects.filter (readableBy bit) ≠ [] ∧
      text = table (columnsOf (objects.filter (readableBy bit))) (foldedObjects.filter (readableBy bit)) := by
  unfold readable at h
  dsimp only at h
  split_ifs at h with hnone
  cases h
  exact ⟨by simpa using hnone, rfl⟩

theorem table_of_mem_writes {c : ResolvedMap} {w : String × String} (h : w ∈ writes c) :
    ∃ columns objects, w.2 = table columns objects := by
  obtain ⟨f, -, hw⟩ := List.mem_flatMap.mp h
  rcases List.mem_append.mp hw with hfixed | hread
  · simp only [List.mem_cons, List.not_mem_nil, or_false] at hfixed
    rcases hfixed with rfl | rfl | rfl <;> exact ⟨_, _, rfl⟩
  · obtain ⟨user, -, huser⟩ := List.mem_filterMap.mp hread
    obtain ⟨text, htext, rfl⟩ := Option.map_eq_some_iff.mp huser
    exact ⟨_, _, (table_of_readable htext).2⟩

/-- What is written for rows with cells is read as these rows and as no others, and in every sheet of a map
    all rows have as many cells as the first one. -/
theorem documents_read :
    (∀ rows : List (List String), (∀ row ∈ rows, row ≠ []) →
      rows? (document rows) = some rows ∧ ∀ others, SpellsRows others (document rows).toList ↔ others = rows) ∧
    ∀ (c : ResolvedMap) (name text : String), (files c).get? name = some text →
      ∃ header data, rows? text = some (header :: data) ∧ ∀ row ∈ data, row.length = header.length := by
  refine ⟨fun rows h => ?_, fun c name text h => ?_⟩
  · have same : rows.map shown = rows := (List.map_congr_left fun row hrow => shown_of_ne_nil (h row hrow)).trans
      (List.map_id rows)
    have read : rows? (document rows) = some rows := (rows?_document rows).trans (congrArg some same)
    refine ⟨read, fun others => ?_⟩
    rw [← rows?_eq_some_iff, read, Option.some.injEq, eq_comm]
  · obtain ⟨hmem⟩ | ⟨-, hnil⟩ := FileSet.mem_of_get?_foldl h
    · obtain ⟨columns, objects, rfl⟩ := table_of_mem_writes hmem
      refine ⟨_, _, rows?_table columns objects, fun row hrow => ?_⟩
      obtain ⟨es, -, rfl⟩ := List.mem_map.mp hrow
      exact length_shown_cellsOf columns es
    · cases hnil

/-- Cells with all marks in them, line ends and no characters at all. -/
theorem documents_read_marks :
    let rows := [["a,b", "say \"hi\"", ""], ["", "\r", "x\r\ny\n"], [""], ["\"", "\"\"", ","]]
    (∀ row ∈ rows, row ≠ []) ∧ rows? (document rows) = some rows := by
  intro rows
  have cells : ∀ row ∈ rows, row ≠ [] := by decide
  exact ⟨cells, (documents_read.1 rows cells).1⟩

end AddressMap.Sheet
