import Mathlib.Algebra.BigOperators.Group.List.Basic
import Mathlib.Data.List.MinMax
import Mathlib.Data.List.Nodup
import Mathlib.Tactic.Ring

/-!
# Dictionaries that keep the order of insertion

A `Dict` is a list of key-value pairs in which no key stands twice.  Setting a key that is present
keeps its place, setting a new key appends it.
-/

namespace FirecrawlLb.Lib

/-- A dictionary: its items in the order of insertion, each key once. -/
structure Dict (κ α : Type*) where
  items : List (κ × α)
  nodup : (items.map Prod.fst).Nodup

namespace Dict

variable {κ α : Type*} [DecidableEq κ]

instance [DecidableEq α] : DecidableEq (Dict κ α) := fun d d' =>
  decidable_of_iff (d.items = d'.items) (by cases d; cases d'; simp)

def empty : Dict κ α := ⟨[], by simp⟩

instance : Inhabited (Dict κ α) := ⟨empty⟩

def keys (d : Dict κ α) : List κ := d.items.map Prod.fst

def get? (d : Dict κ α) (k : κ) : Option α := d.items.lookup k

def getD (d : Dict κ α) (k : κ) (v : α) : α := (d.get? k).getD v

/-- The items after `k` is set to `v`. -/
def setItems (k : κ) (v : α) : List (κ × α) → List (κ × α)
  | [] => [(k, v)]
  | (k', v') :: l => if k' = k then (k, v) :: l else (k', v') :: setItems k v l

omit [DecidableEq κ] in
theorem map_fst_setItems [DecidableEq κ] (k : κ) (v : α) (l : List (κ × α)) :
    (setItems k v l).map Prod.fst =
      if k ∈ l.map Prod.fst then l.map Prod.fst else l.map Prod.fst ++ [k] := by
  induction l with
  | nil => simp [setItems]
  | cons p l ih =>
    obtain ⟨k', v'⟩ := p
    by_cases hk : k' = k
    · simp [setItems, hk]
    · have hk' : k ≠ k' := fun h => hk h.symm
      simp only [setItems, if_neg hk, List.map_cons, ih, List.mem_cons, hk', false_or]
      split <;> simp

def set (d : Dict κ α) (k : κ) (v : α) : Dict κ α where
  items := setItems k v d.items
  nodup := by
    rw [map_fst_setItems]
    split
    · exact d.nodup
    · rename_i h
      exact List.nodup_append.2 ⟨d.nodup, by simp, by simpa using fun a b hab hk => h (by
        rw [← hk]; exact List.mem_map.2 ⟨(a, b), hab, rfl⟩)⟩

theorem lookup_cons_eq_ite (k : κ) (p : κ × α) (l : List (κ × α)) :
    (p :: l).lookup k = if k = p.1 then some p.2 else l.lookup k := by
  rw [show p :: l = (p.1, p.2) :: l from rfl, List.lookup_cons]
  by_cases h : k = p.1
  · simp [h]
  · have hb : (k == p.1) = false := by simpa using h
    rw [hb, if_neg h]

theorem keys_set (d : Dict κ α) (k : κ) (v : α) :
    (d.set k v).keys = if k ∈ d.keys then d.keys else d.keys ++ [k] :=
  map_fst_setItems k v d.items

theorem lookup_setItems (k k' : κ) (v : α) (l : List (κ × α)) :
    (setItems k v l).lookup k' = if k' = k then some v else l.lookup k' := by
  induction l with
  | nil => simp [setItems, lookup_cons_eq_ite]
  | cons p l ih =>
    obtain ⟨k₁, v₁⟩ := p
    by_cases h₁ : k₁ = k
    · subst h₁
      by_cases h : k' = k₁ <;> simp [setItems, lookup_cons_eq_ite, h]
    · by_cases h : k' = k₁
      · subst h
        simp [setItems, lookup_cons_eq_ite, h₁]
      · simp only [setItems, if_neg h₁, lookup_cons_eq_ite, if_neg h, ih]

theorem get?_set (d : Dict κ α) (k k' : κ) (v : α) :
    (d.set k v).get? k' = if k' = k then some v else d.get? k' :=
  lookup_setItems k k' v d.items

theorem getD_set (d : Dict κ α) (k k' : κ) (v v' : α) :
    (d.set k v).getD k' v' = if k' = k then v else d.getD k' v' := by
  unfold getD
  rw [get?_set]
  split <;> rfl

theorem lookup_eq_none_of_notMem {k : κ} {l : List (κ × α)} (h : k ∉ l.map Prod.fst) :
    l.lookup k = none := by
  induction l with
  | nil => rfl
  | cons p l ih =>
    rw [List.map_cons, List.mem_cons, not_or] at h
    rw [lookup_cons_eq_ite, if_neg h.1]
    exact ih h.2

theorem mem_items_of_get? {d : Dict κ α} {k : κ} {v : α} (h : d.get? k = some v) :
    (k, v) ∈ d.items := by
  unfold get? at h
  revert h
  induction d.items with
  | nil => simp
  | cons p l ih =>
    rw [lookup_cons_eq_ite]
    split_ifs with hk
    · rintro ⟨⟩
      rw [hk]
      exact List.mem_cons_self
    · intro h
      exact List.mem_cons_of_mem _ (ih h)

theorem mem_keys_iff {d : Dict κ α} {k : κ} : k ∈ d.keys ↔ ∃ v, d.get? k = some v := by
  unfold keys get?
  induction d.items with
  | nil => simp
  | cons p l ih =>
    by_cases h : k = p.1
    · simp [lookup_cons_eq_ite, h]
    · simp only [List.map_cons, List.mem_cons, h, false_or, ih, lookup_cons_eq_ite, if_false]

/-! ### Of a list of items -/

/-- `dict(items)`: of the values of one key the last one stays, at the place of the first. -/
def ofItems (items : List (κ × α)) : Dict κ α := items.foldl (fun d p => d.set p.1 p.2) empty

omit [DecidableEq κ] in
theorem setItems_of_notMem [DecidableEq κ] {k : κ} (v : α) {l : List (κ × α)}
    (h : k ∉ l.map Prod.fst) : setItems k v l = l ++ [(k, v)] := by
  induction l with
  | nil => rfl
  | cons p l ih =>
    obtain ⟨k', v'⟩ := p
    rw [List.map_cons, List.mem_cons, not_or] at h
    rw [setItems, if_neg (Ne.symm h.1), ih h.2, List.cons_append]

theorem items_foldl_set {l : List (κ × α)} {d : Dict κ α}
    (h : ((d.items ++ l).map Prod.fst).Nodup) :
    (l.foldl (fun d p => d.set p.1 p.2) d).items = d.items ++ l := by
  induction l generalizing d with
  | nil => simp
  | cons p l ih =>
    obtain ⟨k, v⟩ := p
    have hk : k ∉ d.items.map Prod.fst := by
      rw [List.map_append, List.map_cons] at h
      exact fun hmem => (List.nodup_append.1 h).2.2 k hmem k (by simp) rfl
    have hset : (d.set k v).items = d.items ++ [(k, v)] := setItems_of_notMem v hk
    rw [List.foldl_cons, ih (by rw [hset]; simpa using h), hset, List.append_assoc]
    rfl

theorem items_ofItems_eq_iff {l : List (κ × α)} :
    (ofItems l).items = l ↔ (l.map Prod.fst).Nodup := by
  constructor
  · intro h
    rw [← h]
    exact (ofItems l).nodup
  · intro h
    exact items_foldl_set (d := empty) h

/-! ### Counters -/

/-- Adds the counts of `d'` to those of `d`, item by item. -/
def addCounts (d d' : Dict κ ℤ) : Dict κ ℤ :=
  d'.items.foldl (fun d p => d.set p.1 (d.getD p.1 0 + p.2)) d

theorem getD_foldl_addCounts (k : κ) : ∀ (l : List (κ × ℤ)) (d : Dict κ ℤ),
    (l.map Prod.fst).Nodup →
    (l.foldl (fun d p => d.set p.1 (d.getD p.1 0 + p.2)) d).getD k 0 =
      d.getD k 0 + (l.lookup k).getD 0
  | [], d, _ => by simp
  | p :: l, d, hnd => by
    obtain ⟨hp, hnd⟩ := List.nodup_cons.1 hnd
    rw [List.foldl_cons, getD_foldl_addCounts k l _ hnd, getD_set]
    by_cases h : k = p.1
    · subst h
      rw [if_pos rfl, lookup_eq_none_of_notMem hp, lookup_cons_eq_ite, if_pos rfl]
      simp
    · rw [if_neg h, lookup_cons_eq_ite, if_neg h]

/-- **Counts add up**, key by key. -/
theorem getD_addCounts (d d' : Dict κ ℤ) (k : κ) :
    (d.addCounts d').getD k 0 = d.getD k 0 + d'.getD k 0 :=
  getD_foldl_addCounts k d'.items d d'.nodup

/-! ### Tallies -/

/-- The dictionary with a zero for every key. -/
def zeros (ks : List κ) : Dict κ ℕ := ks.foldl (fun d k => d.set k 0) empty

/-- Counts the elements of a list that are keys already. -/
def tally (d : Dict κ ℕ) (l : List κ) : Dict κ ℕ :=
  l.foldl (fun d k => if k ∈ d.keys then d.set k (d.getD k 0 + 1) else d) d

theorem mem_keys_set {d : Dict κ ℕ} {k k' : κ} {n : ℕ} :
    k' ∈ (d.set k n).keys ↔ k' ∈ d.keys ∨ k' = k := by
  rw [keys_set]
  split_ifs with h
  · exact ⟨Or.inl, fun hk => hk.elim id fun hk => hk ▸ h⟩
  · simp

theorem mem_keys_zeros {ks : List κ} {k : κ} : k ∈ (zeros ks).keys ↔ k ∈ ks := by
  have hfold : ∀ (ks : List κ) (d : Dict κ ℕ),
      k ∈ (ks.foldl (fun d k => d.set k 0) d).keys ↔ k ∈ d.keys ∨ k ∈ ks := by
    intro ks
    induction ks with
    | nil => simp
    | cons k' ks ih =>
      intro d
      rw [List.foldl_cons, ih, mem_keys_set, List.mem_cons, or_assoc]
  rw [zeros, hfold]
  simp [empty, keys]

theorem getD_zeros (ks : List κ) (k : κ) : (zeros ks).getD k 0 = 0 := by
  have hfold : ∀ (ks : List κ) (d : Dict κ ℕ), d.getD k 0 = 0 →
      (ks.foldl (fun d k => d.set k 0) d).getD k 0 = 0 := by
    intro ks
    induction ks with
    | nil => exact fun _ h => h
    | cons k' ks ih =>
      intro d hd
      refine ih _ ?_
      rw [getD_set]
      split_ifs
      · rfl
      · exact hd
  exact hfold ks empty rfl

/-- **A tally counts its keys** and nothing else. -/
theorem getD_tally {k : κ} (l : List κ) {d : Dict κ ℕ} (hk : k ∈ d.keys) :
    (d.tally l).getD k 0 = d.getD k 0 + l.count k := by
  induction l generalizing d with
  | nil => rfl
  | cons x l ih =>
    have hcons : d.tally (x :: l) =
        (if x ∈ d.keys then d.set x (d.getD x 0 + 1) else d).tally l := rfl
    rw [hcons]
    by_cases hx : x ∈ d.keys
    · rw [if_pos hx, ih (mem_keys_set.2 (Or.inl hk)), getD_set, List.count_cons]
      by_cases hkx : k = x
      · subst hkx
        simp
        ring
      · simp [hkx, Ne.symm hkx]
    · have hne : x ≠ k := fun h => hx (h ▸ hk)
      rw [if_neg hx, ih hk, List.count_cons_of_ne hne]

theorem getD_tally_zeros {ks : List κ} {k : κ} (hk : k ∈ ks) (l : List κ) :
    ((zeros ks).tally l).getD k 0 = l.count k := by
  rw [getD_tally l (mem_keys_zeros.2 hk), getD_zeros, zero_add]

end Dict

/-- **The elements of a list are the counted ones and the others.** -/
theorem sum_count_add_length {κ : Type*} [DecidableEq κ] {ks : List κ} (hks : ks.Nodup)
    (l : List κ) :
    (ks.map (l.count ·)).sum + (l.filter (· ∉ ks)).length = l.length := by
  induction l with
  | nil => simp
  | cons x l ih =>
    have hsum : (ks.map ((x :: l).count ·)).sum = (ks.map (l.count ·)).sum + ks.count x := by
      rw [List.count_eq_countP, List.countP_eq_length_filter]
      clear ih hks
      induction ks with
      | nil => rfl
      | cons k ks ih =>
        rw [List.map_cons, List.sum_cons, ih, List.map_cons, List.sum_cons, List.count_cons]
        by_cases hk : k = x
        · simp [hk]
          ring
        · simp [hk, Ne.symm hk]
          ring
    rw [hsum]
    by_cases hx : x ∈ ks
    · rw [List.count_eq_one_of_mem hks hx, List.filter_cons_of_neg (by simpa using hx),
        List.length_cons]
      omega
    · rw [List.count_eq_zero_of_not_mem hx, List.filter_cons_of_pos (by simpa using hx),
        List.length_cons, List.length_cons]
      omega

end FirecrawlLb.Lib
