import Mathlib.Data.List.Basic

/-!
# Tables of fields separated by commas

A text holds rows of fields. A field stands alone, or between quotes; between quotes it may contain
all characters, and each of its quotes is doubled. A writer that puts every field between quotes,
and doubles the quotes of some fields only, is read back exactly when the other fields have none.
-/

namespace Csv

/-- The characters with a meaning. -/
structure Format (α : Type) where
  mark : α
  separator : α
  newline : α
  mark_ne_separator : mark ≠ separator
  mark_ne_newline : mark ≠ newline
  separator_ne_newline : separator ≠ newline

/-- Rows of fields, with the first field taken apart: there is always one. -/
@[ext] structure Sheet (α : Type) where
  first : List α
  row : List (List α)
  rows : List (List (List α))

variable {α : Type}

namespace Sheet

def toRows (s : Sheet α) : List (List (List α)) := (s.first :: s.row) :: s.rows

/-- A character in front of the first field. -/
def push (u : α) (s : Sheet α) : Sheet α := { s with first := u :: s.first }

/-- A field in front of the first one: it is empty so far. -/
def newField (s : Sheet α) : Sheet α := ⟨[], s.first :: s.row, s.rows⟩

/-- A row in front of the first one. -/
def newRow (s : Sheet α) : Sheet α := ⟨[], [], s.toRows⟩

/-- The end of a text: one field, that is empty so far. -/
def nil : Sheet α := ⟨[], [], []⟩

end Sheet

/-- What was read: nothing of the field yet, some of it without quotes, some of it behind a quote,
or a quote that may close it. -/
inductive Mode where
  | start | bare | quoted | closed
deriving DecidableEq

namespace Format

variable [DecidableEq α] (F : Format α)

/-- A text, from a mode on. A quote inside a field without quotes is an error, and so is a
character behind the closing one. -/
def read : Mode → List α → Option (Sheet α)
  | .quoted, [] => none
  | _, [] => some .nil
  | .quoted, u :: us => if u = F.mark then read .closed us else (read .quoted us).map (Sheet.push u)
  | mode, u :: us =>
    if u = F.separator then (read .start us).map Sheet.newField
    else if u = F.newline then (read .start us).map Sheet.newRow
    else if u = F.mark then
      match mode with
      | .start => read .quoted us
      | .closed => (read .quoted us).map (Sheet.push u)
      | _ => none
    else if mode = .closed then none
    else (read .bare us).map (Sheet.push u)

/-- The rows of a text. -/
def parse (text : List α) : Option (List (List (List α))) := (F.read .start text).map Sheet.toRows

/-- The quotes of a field, doubled. -/
def escape (value : List α) : List α := value.flatMap fun u => if u = F.mark then [u, u] else [u]

/-- A field between quotes. -/
def wrap (field : List α) : List α := F.mark :: (field ++ [F.mark])

end Format

/-- A field to be written, and whether its quotes are doubled. -/
structure Cell (α : Type) where
  value : List α
  escaped : Bool

namespace Cell

variable [DecidableEq α] (F : Format α)

/-- What stands between the quotes. -/
def field (cell : Cell α) : List α := if cell.escaped then F.escape cell.value else cell.value

/-- The cell is written as it should be. -/
def Clean (cell : Cell α) : Prop := cell.escaped ∨ F.mark ∉ cell.value

end Cell

namespace Format

variable [DecidableEq α] {F : Format α} {s : Sheet α} {value text rest : List α} {cell : Cell α}

/-! ## Doubled quotes -/

@[simp] theorem escape_nil : F.escape [] = [] := rfl

theorem escape_mark_cons : F.escape (F.mark :: value) = F.mark :: F.mark :: F.escape value := by simp [escape]

theorem escape_cons_of_ne {u : α} (hu : u ≠ F.mark) : F.escape (u :: value) = u :: F.escape value := by
  simp [escape, hu]

theorem escape_eq_self (h : F.mark ∉ value) : F.escape value = value := by
  induction value with
  | nil => rfl
  | cons u value ih =>
    rw [List.mem_cons, not_or] at h
    rw [escape_cons_of_ne (Ne.symm h.1), ih h.2]

/-- A text in front of which a field can end. -/
def Ends (F : Format α) (rest : List α) : Prop := rest.head? ≠ some F.mark

/-- A field whose quotes are not doubled falls behind the same one with doubled quotes, once there
is a quote. -/
theorem append_ne_replicate_escape (hends : F.Ends text) (k : ℕ) :
    value ++ F.mark :: text ≠ List.replicate (k + 1) F.mark ++ (F.escape value ++ F.mark :: rest) := by
  induction value generalizing k with
  | nil =>
    intro h
    rw [List.replicate_succ, List.cons_append, List.nil_append, List.cons.injEq] at h
    refine hends ?_
    rw [h.2]
    cases k <;> simp [List.replicate_succ]
  | cons u value ih =>
    intro h
    rw [List.replicate_succ, List.cons_append, List.cons_append, List.cons.injEq] at h
    obtain ⟨rfl, h⟩ := h
    rw [escape_mark_cons] at h
    refine ih (k + 1) (h.trans ?_)
    rw [List.replicate_succ', List.replicate_succ']
    simp

/-- A field without doubled quotes is the text of a field with the same value exactly when it
has none. -/
theorem append_eq_escape_iff (hends : F.Ends text) :
    value ++ F.mark :: text = F.escape value ++ F.mark :: rest ↔ F.mark ∉ value ∧ text = rest := by
  constructor
  · intro h
    induction value with
    | nil => exact ⟨List.not_mem_nil, (List.cons.inj h).2⟩
    | cons u value ih =>
      by_cases hu : u = F.mark
      · subst hu
        rw [escape_mark_cons, List.cons_append, List.cons_append, List.cons.injEq] at h
        exact absurd h.2 (append_ne_replicate_escape hends 0)
      · rw [escape_cons_of_ne hu, List.cons_append, List.cons_append, List.cons.injEq] at h
        obtain ⟨hmem, htext⟩ := ih h.2
        exact ⟨List.not_mem_cons_of_ne_of_not_mem (Ne.symm hu) hmem, htext⟩
  · rintro ⟨hmem, rfl⟩
    rw [escape_eq_self hmem]

/-- What a cell leaves behind it, when it is read as the field that it stands for. -/
theorem field_append_eq_iff (hends : F.Ends text) :
    cell.field F ++ F.mark :: text = F.escape cell.value ++ F.mark :: rest ↔ cell.Clean F ∧ text = rest := by
  rw [Cell.field, Cell.Clean]
  cases hescaped : cell.escaped with
  | true => simp
  | false => simpa using append_eq_escape_iff hends

/-! ## Fields between quotes -/

theorem first_of_read_closed (hends : F.Ends rest) (h : F.read .closed rest = some s) : s.first = [] := by
  cases rest with
  | nil =>
    obtain rfl := Option.some.inj h
    rfl
  | cons u rest =>
    have hu : u ≠ F.mark := fun hu => hends (congrArg some hu)
    simp only [read, hu, if_false, if_true] at h
    split_ifs at h
    · obtain ⟨s', -, rfl⟩ := Option.map_eq_some_iff.mp h
      rfl
    · obtain ⟨s', -, rfl⟩ := Option.map_eq_some_iff.mp h
      rfl

theorem read_quoted_escape (h : F.read .closed rest = some { s with first := [] }) :
    F.read .quoted (F.escape s.first ++ F.mark :: rest) = some s := by
  obtain ⟨first, row, rows⟩ := s
  induction first with
  | nil => rw [escape_nil, List.nil_append, read, if_pos rfl, h]
  | cons u first ih =>
    by_cases hu : u = F.mark
    · subst hu
      simp only [escape_mark_cons, List.cons_append, read, if_true, if_neg F.mark_ne_separator,
        if_neg F.mark_ne_newline]
      rw [ih h]
      rfl
    · rw [escape_cons_of_ne hu, List.cons_append, read, if_neg hu, ih h]
      rfl

theorem exists_rest_of_read (text : List α) (s : Sheet α) (h : F.read .quoted text = some s) :
    ∃ rest, text = F.escape s.first ++ F.mark :: rest ∧ F.Ends rest ∧
      F.read .closed rest = some { s with first := [] } := by
  -- two characters at a time: a quote counts only together with the character behind it
  induction hlength : text.length using Nat.strongRecOn generalizing text s with
  | ind n ih =>
    cases text with
    | nil => cases h
    | cons u us =>
      have hpushed : ∀ vs, vs.length < n → (F.read .quoted vs).map (Sheet.push u) = some s →
          ∃ first rest, s.first = u :: first ∧ vs = F.escape first ++ F.mark :: rest ∧ F.Ends rest ∧
            F.read .closed rest = some { s with first := [] } := by
        intro vs hvs hread
        obtain ⟨s', hs', rfl⟩ := Option.map_eq_some_iff.mp hread
        obtain ⟨rest, hrest, hends, hclosed⟩ := ih _ hvs vs s' hs' rfl
        exact ⟨s'.first, rest, rfl, hrest, hends, hclosed⟩
      by_cases hu : u = F.mark
      swap
      · rw [read, if_neg hu] at h
        obtain ⟨first, rest, hfirst, rfl, hends, hclosed⟩ := hpushed us (by rw [← hlength, List.length_cons]; omega) h
        exact ⟨rest, by rw [hfirst, escape_cons_of_ne hu, List.cons_append], hends, hclosed⟩
      subst hu
      rw [read, if_pos rfl] at h
      by_cases hends : F.Ends us
      · have hfirst := first_of_read_closed hends h
        refine ⟨us, by rw [hfirst]; rfl, hends, h.trans (congrArg some ?_)⟩
        exact Sheet.ext hfirst rfl rfl
      · obtain ⟨us, rfl⟩ : ∃ vs, us = F.mark :: vs := by
          cases us with
          | nil => exact absurd (by simp [Ends]) hends
          | cons v vs => exact ⟨vs, by simpa [Ends] using hends⟩
        simp only [read, if_true, if_neg F.mark_ne_separator, if_neg F.mark_ne_newline] at h
        obtain ⟨first, rest, hfirst, rfl, hends, hclosed⟩ := hpushed us (by rw [← hlength, List.length_cons, List.length_cons]; omega) h
        exact ⟨rest, by rw [hfirst, escape_mark_cons]; rfl, hends, hclosed⟩

/-- **A field between quotes** is seen in the text. -/
theorem read_quoted_eq_some : F.read .quoted text = some s ↔ ∃ rest, text = F.escape s.first ++ F.mark :: rest ∧
    F.Ends rest ∧ F.read .closed rest = some { s with first := [] } := by
  constructor
  · exact exists_rest_of_read text s
  · rintro ⟨rest, rfl, -, h⟩
    exact read_quoted_escape h

/-- A cell is read back exactly when it is clean. -/
theorem read_wrap_iff {row : List (List α)} {rows : List (List (List α))} (hends : F.Ends text) :
    F.read .start (F.wrap (cell.field F) ++ text) = some ⟨cell.value, row, rows⟩ ↔
      cell.Clean F ∧ F.read .closed text = some ⟨[], row, rows⟩ := by
  have hstart : F.read .start (F.wrap (cell.field F) ++ text) = F.read .quoted (cell.field F ++ F.mark :: text) := by
    simp [wrap, read, F.mark_ne_separator, F.mark_ne_newline]
  rw [hstart, read_quoted_eq_some]
  simp only [field_append_eq_iff hends]
  constructor
  · rintro ⟨rest, ⟨hclean, rfl⟩, -, h⟩
    exact ⟨hclean, h⟩
  · rintro ⟨hclean, h⟩
    exact ⟨text, ⟨hclean, rfl⟩, hends, h⟩

/-! ## Tables -/

omit [DecidableEq α] in
theorem intercalate_cons_eq (x : α) (l : List α) (ls : List (List α)) :
    [x].intercalate (l :: ls) = l ++ ls.flatMap (x :: ·) := by
  induction ls generalizing l with
  | nil => simp
  | cons l' ls ih =>
    rw [List.intercalate_cons_cons, ih, List.flatMap_cons]
    simp

/-- The text of a row, with every field between quotes. -/
def lineText (F : Format α) (fields : List (List α)) : List α := [F.separator].intercalate (fields.map F.wrap)

/-- The text of a table: the names of its columns, without quotes, and its rows. -/
def tableText (F : Format α) (names : List (List α)) (rows : List (List (List α))) : List α :=
  [F.newline].intercalate ([F.separator].intercalate names :: rows.map F.lineText)

variable {cells : List (Cell α)} {table : List (List (Cell α))} {names : List (List α)} {row : List (List α)}
  {more : List (List (List α))}

omit [DecidableEq α] in
theorem map_eq_some_iff_of_injective {β : Type} {f : Sheet α → β} (hf : Function.Injective f) {o : Option (Sheet α)} :
    o.map f = some (f s) ↔ o = some s :=
  (Option.map_injective hf).eq_iff (b := some s)

omit [DecidableEq α] in
theorem push_injective (u : α) : Function.Injective (Sheet.push u) := by
  intro s s' h
  simpa [Sheet.push, Sheet.ext_iff] using h

omit [DecidableEq α] in
theorem newField_injective : Function.Injective (Sheet.newField (α := α)) := by
  intro s s' h
  simpa [Sheet.newField, Sheet.ext_iff, and_assoc] using h

omit [DecidableEq α] in
theorem toRows_injective : Function.Injective (Sheet.toRows (α := α)) := by
  intro s s' h
  simpa [Sheet.toRows, Sheet.ext_iff, and_assoc] using h

omit [DecidableEq α] in
theorem newRow_injective : Function.Injective (Sheet.newRow (α := α)) := fun _ _ h =>
  toRows_injective (congrArg Sheet.rows h)

theorem read_separator_iff : F.read .closed (F.separator :: text) = some ⟨[], value :: row, more⟩ ↔
    F.read .start text = some ⟨value, row, more⟩ := by
  rw [read, if_pos rfl]
  exact map_eq_some_iff_of_injective newField_injective (s := ⟨value, row, more⟩)

theorem read_newline_iff : F.read .closed (F.newline :: text) = some ⟨[], [], (value :: row) :: more⟩ ↔
    F.read .start text = some ⟨value, row, more⟩ := by
  rw [read, if_neg F.separator_ne_newline.symm, if_pos rfl]
  exact map_eq_some_iff_of_injective newRow_injective (s := ⟨value, row, more⟩)

omit [DecidableEq α] in
/-- A field can end in front of what is separated by another character. -/
theorem Ends.flatMap (hends : F.Ends text) {x : α} (hx : F.mark ≠ x) (ls : List (List α)) :
    F.Ends (ls.flatMap (x :: ·) ++ text) := by
  cases ls with
  | nil => exact hends
  | cons l ls => simpa [Ends] using hx.symm

theorem read_cells_iff (hends : F.Ends text) :
    F.read .closed ((cells.map fun cell => F.wrap (cell.field F)).flatMap (F.separator :: ·) ++ text) =
        some ⟨[], cells.map Cell.value, more⟩ ↔
      (∀ cell ∈ cells, cell.Clean F) ∧ F.read .closed text = some ⟨[], [], more⟩ := by
  induction cells with
  | nil => simp
  | cons cell cells ih =>
    rw [List.map_cons, List.flatMap_cons, List.append_assoc, List.cons_append, List.map_cons, read_separator_iff,
      read_wrap_iff (hends.flatMap F.mark_ne_separator _), ih, List.forall_mem_cons, and_assoc]

theorem read_rows_iff (htable : ∀ cells ∈ table, cells ≠ []) :
    F.read .closed ((table.map fun cells => F.lineText (cells.map (Cell.field F))).flatMap (F.newline :: ·)) =
        some ⟨[], [], table.map (List.map Cell.value)⟩ ↔
      ∀ cells ∈ table, ∀ cell ∈ cells, cell.Clean F := by
  induction table with
  | nil => simp [read, Sheet.nil]
  | cons cells table ih =>
    obtain ⟨hcells, hrest⟩ := List.forall_mem_cons.mp htable
    obtain ⟨cell, cells, rfl⟩ := List.exists_cons_of_ne_nil hcells
    have hnil : F.Ends [] := by simp [Ends]
    have hends : F.Ends ((table.map fun cells => F.lineText (cells.map (Cell.field F))).flatMap (F.newline :: ·)) := by
      simpa using hnil.flatMap F.mark_ne_newline _
    have hline : F.lineText ((cell :: cells).map (Cell.field F)) = F.wrap (cell.field F) ++
        (cells.map fun cell => F.wrap (cell.field F)).flatMap (F.separator :: ·) := by
      rw [lineText, List.map_cons, List.map_cons, intercalate_cons_eq, List.map_map]
      rfl
    rw [List.map_cons, List.flatMap_cons, List.cons_append, hline, List.append_assoc, List.map_cons, List.map_cons,
      read_newline_iff, read_wrap_iff (hends.flatMap F.mark_ne_separator _), read_cells_iff hends, ih hrest,
      List.forall_mem_cons, List.forall_mem_cons, and_assoc]

/-! ## The names of the columns -/

/-- A name can stand without quotes. -/
def IsName (F : Format α) (name : List α) : Prop :=
  name ≠ [] ∧ ∀ u ∈ name, u ∉ [F.mark, F.separator, F.newline]

instance (F : Format α) (name : List α) : Decidable (F.IsName name) := inferInstanceAs (Decidable (_ ∧ _))

theorem read_cons_of_plain {mode : Mode} (hmode : mode = .start ∨ mode = .bare) {u : α}
    (hu : u ∉ [F.mark, F.separator, F.newline]) : F.read mode (u :: text) = (F.read .bare text).map (Sheet.push u) := by
  simp only [List.mem_cons, List.not_mem_nil, or_false, not_or] at hu
  obtain ⟨hmark, hseparator, hnewline⟩ := hu
  rcases hmode with rfl | rfl <;> simp [read, hmark, hseparator, hnewline]

theorem read_bare_iff (h : ∀ u ∈ value, u ∉ [F.mark, F.separator, F.newline]) :
    F.read .bare (value ++ text) = some ⟨value, row, more⟩ ↔ F.read .bare text = some ⟨[], row, more⟩ := by
  induction value with
  | nil => rfl
  | cons u value ih =>
    obtain ⟨hu, hvalue⟩ := List.forall_mem_cons.mp h
    rw [List.cons_append, read_cons_of_plain (.inr rfl) hu, ← ih hvalue]
    exact map_eq_some_iff_of_injective (push_injective u) (s := ⟨value, row, more⟩)

theorem read_name_iff (h : F.IsName value) :
    F.read .start (value ++ text) = some ⟨value, row, more⟩ ↔ F.read .bare text = some ⟨[], row, more⟩ := by
  obtain ⟨hne, hplain⟩ := h
  obtain ⟨u, value, rfl⟩ := List.exists_cons_of_ne_nil hne
  rw [← read_bare_iff hplain, List.cons_append, read_cons_of_plain (.inl rfl) (hplain u List.mem_cons_self),
    read_cons_of_plain (.inr rfl) (hplain u List.mem_cons_self)]

theorem read_bare_flatMap {x : α} (hx : x = F.separator ∨ x = F.newline) (ls : List (List α))
    (htext : F.read .bare text = F.read .closed text) :
    F.read .bare (ls.flatMap (x :: ·) ++ text) = F.read .closed (ls.flatMap (x :: ·) ++ text) := by
  cases ls with
  | nil => exact htext
  | cons l ls =>
    rcases hx with rfl | rfl
    · simp [read]
    · simp [read, F.separator_ne_newline.symm]

theorem read_names_iff (hnames : ∀ name ∈ names, F.IsName name) (htext : F.read .bare text = F.read .closed text) :
    F.read .closed (names.flatMap (F.separator :: ·) ++ text) = some ⟨[], names, more⟩ ↔
      F.read .closed text = some ⟨[], [], more⟩ := by
  induction names with
  | nil => rfl
  | cons name names ih =>
    obtain ⟨hname, hnames⟩ := List.forall_mem_cons.mp hnames
    rw [List.flatMap_cons, List.append_assoc, List.cons_append, read_separator_iff, read_name_iff hname,
      read_bare_flatMap (.inl rfl) names htext, ih hnames]

/-- **A table is read back exactly when all of its cells are clean.** -/
theorem parse_table_eq_iff (hne : names ≠ []) (hnames : ∀ name ∈ names, F.IsName name)
    (htable : ∀ cells ∈ table, cells ≠ []) :
    F.parse (F.tableText names (table.map (List.map (Cell.field F)))) =
        some (names :: table.map (List.map Cell.value)) ↔
      ∀ cells ∈ table, ∀ cell ∈ cells, cell.Clean F := by
  obtain ⟨name, names, rfl⟩ := List.exists_cons_of_ne_nil hne
  obtain ⟨hname, hrest⟩ := List.forall_mem_cons.mp hnames
  have hrows : F.read .bare ((table.map fun cells => F.lineText (cells.map (Cell.field F))).flatMap (F.newline :: ·)) =
      F.read .closed ((table.map fun cells => F.lineText (cells.map (Cell.field F))).flatMap (F.newline :: ·)) := by
    have hnil : F.read .bare [] = F.read .closed [] := rfl
    simpa using read_bare_flatMap (.inr rfl) _ hnil
  rw [← read_rows_iff htable, ← read_names_iff hrest hrows, ← read_bare_flatMap (.inl rfl) names hrows,
    ← read_name_iff hname, parse, tableText, intercalate_cons_eq, intercalate_cons_eq, List.append_assoc, List.map_map]
  exact map_eq_some_iff_of_injective toRows_injective (s := ⟨name, names, table.map (List.map Cell.value)⟩)

end Format

end Csv
