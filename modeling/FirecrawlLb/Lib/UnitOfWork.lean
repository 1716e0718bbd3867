import Mathlib.Data.List.Nodup

/-!
# Column-wise write back

An object is loaded from a row, changed in memory, and written back later.  Only the columns whose
value differs from the one that was read are written: a column that others changed in the meantime
keeps their value when this object did not touch it, and loses it when it did.
-/

namespace FirecrawlLb.Lib

/-- An object: the row it was read from, and its value now. -/
structure Loaded (α : Type*) where
  read : α
  value : α

/-- A column of a row after the write back of an object; `store` is what storing does to a value. -/
def column {γ : Type*} [DecidableEq γ] (store : γ → γ) (read value row : γ) : γ :=
  if value = read then row else store value

/-- The write back of a column binds no value, or one the database takes. -/
def columnBinds {γ : Type*} [DecidableEq γ] (binds : γ → Bool) (read value : γ) : Bool :=
  decide (value = read) || binds value

section Column

variable {γ : Type*} [DecidableEq γ] {store : γ → γ} {binds : γ → Bool} {read value row : γ}

@[simp] theorem column_unchanged : column store read read row = row := by simp [column]

theorem column_changed (h : value ≠ read) : column store read value row = store value := by
  simp [column, h]

theorem column_eq_or (store : γ → γ) (read value row : γ) : column store read value row = row ∨
    (value ≠ read ∧ column store read value row = store value) := by
  by_cases h : value = read
  · exact Or.inl (by simp [column, h])
  · exact Or.inr ⟨h, column_changed h⟩

/-- When nobody wrote the column since it was read, it holds the value of the object. -/
theorem column_fresh (h : store value = value) : column store row value row = value := by
  by_cases hv : value = row
  · simp [column, hv]
  · rw [column_changed hv, h]

/-- A column is empty after it was cleared, unless an object that has read it empty leaves what
another wrote. -/
theorem column_none_eq_none {δ : Type*} [DecidableEq (Option δ)] {store : Option δ → Option δ}
    {read row : Option δ} (hstore : store none = none) :
    column store read none row = none ↔ (row ≠ none → read ≠ none) := by
  by_cases hread : read = none
  · simp [column, hread]
  · rw [column_changed (Ne.symm hread), hstore]
    simp [hread]

@[simp] theorem columnBinds_unchanged : columnBinds binds read read = true := by
  simp [columnBinds]

theorem columnBinds_iff : columnBinds binds read value = true ↔
    value = read ∨ binds value = true := by simp [columnBinds]

theorem columnBinds_getD (hread : binds read = true) (set : Option γ) :
    columnBinds binds read (set.getD read) = set.all binds := by
  rw [Bool.eq_iff_iff, columnBinds_iff]
  cases set with
  | none => simp
  | some value =>
    simp only [Option.getD_some, Option.all_some, or_iff_right_iff_imp]
    rintro rfl
    exact hread

theorem columnBinds_of_binds (h : binds value = true) : columnBinds binds read value = true := by
  simp [columnBinds, h]

/-- What a column satisfies after a write back, if the row and every bound value do. -/
theorem column_ind {p : γ → Prop} (hrow : p row)
    (hvalue : value ≠ read → binds value = true → p (store value))
    (hb : columnBinds binds read value = true) : p (column store read value row) := by
  rcases column_eq_or store read value row with h | ⟨hne, h⟩
  · rw [h]; exact hrow
  · rw [h]
    refine hvalue hne ?_
    simpa [columnBinds, hne] using hb

end Column

/-! ### Sequences of updates -/

section LastSet

variable {υ ρ γ δ : Type*} {field : υ → Option γ}

/-- The last value that updates set a field to. -/
def lastSet (field : υ → Option γ) (updates : List υ) : Option γ :=
  (updates.filterMap field).getLast?

@[simp] theorem lastSet_nil : lastSet field [] = none := rfl

theorem lastSet_cons (u : υ) (updates : List υ) :
    lastSet field (u :: updates) = (lastSet field updates).or (field u) := by
  cases h : field u <;> simp [lastSet, h, List.getLast?_cons]

theorem lastSet_map (f : γ → δ) (updates : List υ) :
    lastSet (fun u => (field u).map f) updates = (lastSet field updates).map f := by
  rw [lastSet, lastSet, ← List.map_filterMap, List.getLast?_map]

/-- **The last one wins**, for a field that every update sets or leaves. -/
theorem get_foldl (get : ρ → γ) (field : υ → Option γ) {update : ρ → υ → ρ}
    (h : ∀ r u, get (update r u) = (field u).getD (get r)) (r : ρ) (updates : List υ) :
    get (updates.foldl update r) = (lastSet field updates).getD (get r) := by
  induction updates generalizing r with
  | nil => rfl
  | cons u updates ih =>
    rw [List.foldl_cons, ih, h, lastSet_cons]
    cases lastSet field updates <;> rfl

end LastSet

/-- Looking up a row by its key, after every row was mapped without a change of key. -/
theorem find?_map_of_key {α κ : Type*} [DecidableEq κ] (key : α → κ) {f : α → α}
    (hf : ∀ r, key (f r) = key r) (rows : List α) (k : κ) :
    (rows.map f).find? (key · = k) = (rows.find? (key · = k)).map f := by
  rw [List.find?_map]
  congr 2
  funext r
  simp [hf]

theorem filter_of_key {α κ : Type*} [DecidableEq κ] (key : α → κ) {rows : List α} {row : α}
    (hkeys : (rows.map key).Nodup) (hrow : row ∈ rows) :
    rows.filter (key · = key row) = [row] := by
  induction rows with
  | nil => cases hrow
  | cons r rows ih =>
    obtain ⟨hr, hrows⟩ := List.nodup_cons.1 hkeys
    rcases List.mem_cons.1 hrow with rfl | hmem
    · have hrest : ∀ r' ∈ rows, ¬ (decide (key r' = key row) = true) := by
        intro r' hr' h
        exact hr (List.mem_map.2 ⟨r', hr', of_decide_eq_true h⟩)
      rw [List.filter_cons_of_pos (by simp), List.filter_eq_nil_iff.2 hrest]
    · have hne : key r ≠ key row := by
        intro h
        exact hr (List.mem_map.2 ⟨row, hmem, h.symm⟩)
      rw [List.filter_cons_of_neg (by simpa using hne), ih hrows hmem]

theorem find?_of_key {α κ : Type*} [DecidableEq κ] (key : α → κ) {rows : List α} {row : α}
    (hkeys : (rows.map key).Nodup) (hrow : row ∈ rows) :
    rows.find? (key · = key row) = some row := by
  rw [← List.head?_filter, filter_of_key key hkeys hrow, List.head?_cons]

theorem map_of_key {α κ : Type*} (key : α → κ) {f : α → α} {before after : List α} {a : α}
    (hkeys : ((before ++ a :: after).map key).Nodup) (hother : ∀ b, key b ≠ key a → f b = b) :
    (before ++ a :: after).map f = before ++ f a :: after := by
  rw [List.map_append, List.map_cons] at hkeys
  obtain ⟨-, hafter, hbefore⟩ := List.nodup_append.1 hkeys
  have hb : ∀ b ∈ before, f b = b := by
    intro b hb
    exact hother b (hbefore _ (List.mem_map_of_mem hb) _ List.mem_cons_self)
  have ha : ∀ b ∈ after, f b = b := by
    intro b hb
    exact hother b fun h => (List.nodup_cons.1 hafter).1 (List.mem_map.2 ⟨b, hb, h⟩)
  rw [List.map_append, List.map_cons, List.map_congr_left hb, List.map_congr_left ha,
    List.map_id', List.map_id']

end FirecrawlLb.Lib
