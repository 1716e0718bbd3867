import Mathlib.Data.List.Count
import Mathlib.Data.List.Nodup
import Mathlib.Data.List.Perm.Basic
import Mathlib.Order.Lattice

/-!
# Paging through rows with equal keys

A query returns the rows with the greatest keys first, and rows with one key in any order, chosen
anew by each query.  The pages of such queries hold every row once exactly when the rows with one
key fall on one page (`pagesCover_iff`).
-/

namespace FirecrawlLb.Lib.Paging

variable {α κ : Type} [LinearOrder κ] {key : α → κ} {rows l page : List α} {a b : α}
variable {L i k n : ℕ}

/-- A list of the rows, the greatest keys first. -/
structure Arranges (key : α → κ) (rows l : List α) : Prop where
  perm : l.Perm rows
  sorted : l.Pairwise fun a b => key b ≤ key a

/-- The rows that a query with a limit and an offset may return. -/
def IsPage (key : α → κ) (rows : List α) (limit offset : ℕ) (page : List α) : Prop :=
  ∃ l, Arranges key rows l ∧ page = (l.drop offset).take limit

/-- The number of the rows that come before `a` in every order. -/
def before (key : α → κ) (rows : List α) (a : α) : ℕ := rows.countP (key a < key ·)

/-- The number of the rows that come before `a` in some order, and of `a` itself. -/
def upTo (key : α → κ) (rows : List α) (a : α) : ℕ := rows.countP (key a ≤ key ·)

/-- The rows with one key fall on one page. -/
def TiesFit (key : α → κ) (rows : List α) (L : ℕ) : Prop :=
  ∀ a ∈ rows, before key rows a / L = (upTo key rows a - 1) / L

instance : Decidable (TiesFit key rows L) :=
  inferInstanceAs (Decidable (∀ a ∈ rows, before key rows a / L = (upTo key rows a - 1) / L))

/-- Whatever the pages are, the first `n` of them hold the rows, each once, in their order. -/
def PagesCover (key : α → κ) (rows : List α) (L n : ℕ) : Prop :=
  ∀ pages : ℕ → List α, (∀ k, IsPage key rows L (k * L) (pages k)) →
    Arranges key rows ((List.range n).flatMap pages)

theorem exists_arranges (key : α → κ) (rows : List α) : ∃ l, Arranges key rows l := by
  let le a b := decide (key b ≤ key a)
  have htrans : ∀ a b c, le a b → le b c → le a c := fun a b c hab hbc =>
    decide_eq_true ((of_decide_eq_true hbc).trans (of_decide_eq_true hab))
  have htotal : ∀ a b, le a b || le b a := fun a b => by
    simpa [le] using le_total (key b) (key a)
  exact ⟨rows.mergeSort le, List.mergeSort_perm _ _,
    (List.pairwise_mergeSort htrans htotal rows).imp fun hab => of_decide_eq_true hab⟩

/-! ### Places -/

theorem before_le_of_le (h : key a ≤ key b) : before key rows b ≤ before key rows a :=
  List.countP_mono_left fun _ _ hc => decide_eq_true (h.trans_lt (of_decide_eq_true hc))

theorem upTo_le_length : upTo key rows a ≤ rows.length := List.countP_le_length

/-- In every order a row stands between the rows that always come before it and those that may. -/
theorem Arranges.place (h : Arranges key rows l) (ha : l[i]? = some a) :
    before key rows a ≤ i ∧ i < upTo key rows a := by
  obtain ⟨hi, rfl⟩ := List.getElem?_eq_some_iff.1 ha
  have hsplit : l.take i ++ l[i] :: l.drop (i + 1) = l := by
    rw [← List.drop_eq_getElem_cons hi, List.take_append_drop]
  generalize l[i] = a at hsplit
  have hlength : (l.take i).length = i := List.length_take_of_le (Nat.le_of_lt hi)
  have hsorted := h.sorted
  rw [← hsplit, List.pairwise_append, List.pairwise_cons] at hsorted
  obtain ⟨-, ⟨hback, -⟩, hfront⟩ := hsorted
  rw [before, upTo, ← h.perm.countP_eq, ← h.perm.countP_eq, ← hsplit]
  simp only [List.countP_append, List.countP_cons, lt_self_iff_false, le_refl, decide_true,
    decide_false, if_true, Bool.false_eq_true, if_false]
  constructor
  · have hnone : (l.drop (i + 1)).countP (key a < key ·) = 0 :=
      List.countP_eq_zero.2 fun b hb => by simpa using hback b hb
    have hle : (l.take i).countP (key a < key ·) ≤ (l.take i).length := List.countP_le_length
    omega
  · have hall : (l.take i).countP (key a ≤ key ·) = (l.take i).length :=
      List.countP_eq_length.2 fun b hb => by simpa using hfront b hb a (by simp)
    omega

theorem Arranges.key_eq (h : Arranges key rows l) (hb : l[i]? = some b)
    (hbefore : before key rows a ≤ i) (hupTo : i < upTo key rows a) : key b = key a := by
  have hplace := h.place hb
  rcases lt_trichotomy (key b) (key a) with hlt | heq | hgt
  · have hle : upTo key rows a ≤ before key rows b :=
      List.countP_mono_left fun _ _ hc => decide_eq_true (hlt.trans_le (of_decide_eq_true hc))
    omega
  · exact heq
  · have hle : upTo key rows b ≤ before key rows a :=
      List.countP_mono_left fun _ _ hc => decide_eq_true (hgt.trans_le (of_decide_eq_true hc))
    omega

theorem Arranges.exists_getElem? (h : Arranges key rows l) (ha : a ∈ rows) :
    ∃ i : ℕ, l[i]? = some a :=
  List.mem_iff_getElem?.1 (h.perm.mem_iff.2 ha)

theorem before_lt_upTo (ha : a ∈ rows) : before key rows a < upTo key rows a := by
  obtain ⟨l, hl⟩ := exists_arranges key rows
  obtain ⟨i, hi⟩ := hl.exists_getElem? ha
  have hplace := hl.place hi
  omega

/-! ### Rows with one key on one page -/

theorem mem_page_iff {offset limit : ℕ} : a ∈ (l.drop offset).take limit ↔
    ∃ i, l[i]? = some a ∧ offset ≤ i ∧ i < offset + limit := by
  constructor
  · intro ha
    obtain ⟨j, hj, rfl⟩ := List.mem_iff_getElem.1 ha
    simp only [List.length_take, List.length_drop] at hj
    exact ⟨offset + j, by simp, by omega, by omega⟩
  · rintro ⟨i, ha, hle, hlt⟩
    refine List.mem_of_getElem? (i := i - offset) ?_
    rw [List.getElem?_take_of_lt (by omega), List.getElem?_drop, Nat.add_sub_cancel' hle, ha]

/-- A page holds the rows whose places belong to it. -/
theorem page_eq_filter {pageOf : α → ℕ} (hL : 1 ≤ L)
    (hpage : ∀ i a, l[i]? = some a → pageOf a = i / L) (k : ℕ) :
    (l.drop (k * L)).take L = l.filter (pageOf · = k) := by
  have hsplit : l = (l.drop 0).take (k * L) ++ ((l.drop (k * L)).take L ++
      (l.drop (k * L + L)).take l.length) := by
    rw [List.take_of_length_le (l := l.drop (k * L + L)) (by simp), ← List.drop_drop,
      List.take_append_drop, List.drop_zero, List.take_append_drop]
  have hfront : ((l.drop 0).take (k * L)).filter (pageOf · = k) = [] := by
    refine List.filter_eq_nil_iff.2 fun a ha => ?_
    obtain ⟨i, hi, -, hlt⟩ := mem_page_iff.1 ha
    have hdiv : i / L < k := Nat.div_lt_of_lt_mul (by rw [Nat.mul_comm]; omega)
    simpa [hpage i a hi] using Nat.ne_of_lt hdiv
  have hmiddle : ((l.drop (k * L)).take L).filter (pageOf · = k) = (l.drop (k * L)).take L := by
    refine List.filter_eq_self.2 fun a ha => ?_
    obtain ⟨i, hi, hle, hlt⟩ := mem_page_iff.1 ha
    have hdiv : i / L = k := Nat.div_eq_of_lt_le hle (by rw [Nat.add_one_mul]; exact hlt)
    simpa [hpage i a hi] using hdiv
  have hback : ((l.drop (k * L + L)).take l.length).filter (pageOf · = k) = [] := by
    refine List.filter_eq_nil_iff.2 fun a ha => ?_
    obtain ⟨i, hi, hle, -⟩ := mem_page_iff.1 ha
    have hdiv : k + 1 ≤ i / L := (Nat.le_div_iff_mul_le hL).2 (by rw [Nat.add_one_mul]; exact hle)
    simpa [hpage i a hi] using fun h : i / L = k => by omega
  conv_rhs => rw [hsplit]
  rw [List.filter_append, List.filter_append, hfront, hmiddle, hback, List.append_nil,
    List.nil_append]

theorem flatMap_filter_perm (pageOf : α → ℕ) (rows : List α) (n : ℕ) :
    ((List.range n).flatMap fun k => rows.filter (pageOf · = k)).Perm
      (rows.filter (pageOf · < n)) := by
  induction n with
  | zero => simp
  | succ n ih =>
    have hsplit := List.filter_append_perm (pageOf · < n) (rows.filter (pageOf · < n + 1))
    simp only [List.filter_filter] at hsplit
    have hless : (rows.filter fun a => decide (pageOf a < n) && decide (pageOf a < n + 1)) =
        rows.filter (pageOf · < n) := List.filter_congr fun a _ => by
      rw [Bool.eq_iff_iff]; simp; omega
    have hlast : (rows.filter fun a => (!decide (pageOf a < n)) && decide (pageOf a < n + 1)) =
        rows.filter (pageOf · = n) := List.filter_congr fun a _ => by
      rw [Bool.eq_iff_iff]; simp; omega
    rw [hless, hlast] at hsplit
    rw [List.range_succ, List.flatMap_append, List.flatMap_singleton]
    exact (ih.append_right _).trans hsplit

theorem TiesFit.div_eq (hfit : TiesFit key rows L) (h : Arranges key rows l)
    (ha : l[i]? = some a) : before key rows a / L = i / L := by
  obtain ⟨hbefore, hupTo⟩ := h.place ha
  have hpage := hfit a (h.perm.mem_iff.1 (List.mem_of_getElem? ha))
  have hlow : before key rows a / L ≤ i / L := Nat.div_le_div_right hbefore
  have hhigh : i / L ≤ (upTo key rows a - 1) / L := Nat.div_le_div_right (by omega)
  omega

theorem pagesCover_of_tiesFit (hL : 1 ≤ L) (hn : rows.length ≤ n * L)
    (hfit : TiesFit key rows L) : PagesCover key rows L n := by
  intro pages hpages
  have hpage : ∀ k, ∃ l, Arranges key rows l ∧
      pages k = l.filter fun a => before key rows a / L = k := fun k => by
    obtain ⟨l, hl, heq⟩ := hpages k
    exact ⟨l, hl, heq.trans (page_eq_filter hL (fun _ _ ha => hfit.div_eq hl ha) k)⟩
  constructor
  · -- every row is on the page of its key, whatever order the query has taken
    have hperm : ((List.range n).flatMap pages).Perm
        ((List.range n).flatMap fun k => rows.filter fun a => before key rows a / L = k) := by
      refine List.Perm.flatMap_left _ fun k _ => ?_
      obtain ⟨l, hl, heq⟩ := hpage k
      rw [heq]
      exact hl.perm.filter _
    refine hperm.trans ((flatMap_filter_perm _ rows n).trans (.of_eq ?_))
    refine List.filter_eq_self.2 fun a ha => ?_
    obtain ⟨l, hl⟩ := exists_arranges key rows
    obtain ⟨i, hi⟩ := hl.exists_getElem? ha
    have hlength := hl.perm.length_eq
    have hlt : i < l.length := (List.getElem?_eq_some_iff.1 hi).1
    have hdiv : i / L < n := Nat.div_lt_of_lt_mul (by rw [Nat.mul_comm]; omega)
    simpa [hfit.div_eq hl hi] using hdiv
  · rw [List.pairwise_flatMap]
    constructor
    · intro k _
      obtain ⟨l, hl, heq⟩ := hpage k
      rw [heq]
      exact hl.sorted.filter _
    · refine List.pairwise_lt_range.imp fun {j k} hjk a ha b hb => ?_
      obtain ⟨l, -, heq⟩ := hpage j
      obtain ⟨l', -, heq'⟩ := hpage k
      rw [heq, List.mem_filter, decide_eq_true_eq] at ha
      rw [heq', List.mem_filter, decide_eq_true_eq] at hb
      -- a row with a greater key is on no later page
      by_contra hlt
      have hle : before key rows b ≤ before key rows a := before_le_of_le (not_le.1 hlt).le
      have hdiv : before key rows b / L ≤ before key rows a / L := Nat.div_le_div_right hle
      omega

/-! ### Rows with one key on two pages -/

theorem Arranges.swap {front back : List α} (h : Arranges key rows (front ++ a :: b :: back))
    (hkey : key a = key b) : Arranges key rows (front ++ b :: a :: back) := by
  refine ⟨((List.Perm.swap a b back).append_left front).trans h.perm, ?_⟩
  have hsorted := h.sorted
  simp only [List.pairwise_append, List.pairwise_cons, List.mem_cons] at hsorted ⊢
  grind

theorem exists_page_start {m m' : ℕ} (hL : 1 ≤ L) (hlt : m < m') (hne : m / L ≠ (m' - 1) / L) :
    ∃ k, m < (k + 1) * L ∧ (k + 1) * L < m' := by
  have hle : m / L ≤ (m' - 1) / L := Nat.div_le_div_right (by omega)
  refine ⟨m / L, ?_, ?_⟩
  · rw [Nat.mul_comm]
    exact Nat.lt_mul_div_succ m hL
  · have hmul := (Nat.le_div_iff_mul_le hL).1 (show m / L + 1 ≤ (m' - 1) / L by omega)
    omega

/-- Two neighbours with one key: one query may return the first on its page, and another query may
return it again at the start of the next page. -/
theorem not_pagesCover {front back : List α} (hL : 1 ≤ L) (hnodup : rows.Nodup)
    (h : Arranges key rows (front ++ a :: b :: back)) (hkey : key a = key b)
    (hfront : (k + 1) * L = front.length + 1) (hk : k + 1 < n) : ¬ PagesCover key rows L n := by
  intro hcover
  let pages j := if j = k + 1 then ((front ++ b :: a :: back).drop (j * L)).take L
    else ((front ++ a :: b :: back).drop (j * L)).take L
  have hpages : ∀ j, IsPage key rows L (j * L) (pages j) := fun j => by
    by_cases hj : j = k + 1
    · exact ⟨_, h.swap hkey, if_pos hj⟩
    · exact ⟨_, h, if_neg hj⟩
  have hdistinct := (hcover pages hpages).perm.nodup_iff.2 hnodup
  have hdisjoint := List.pairwise_iff_getElem.1 (List.nodup_flatMap.1 hdistinct).2 k (k + 1)
    (by simp; omega) (by simpa using hk) (by omega)
  rw [Nat.add_one_mul] at hfront
  simp only [List.getElem_range] at hdisjoint
  refine hdisjoint (a := a) ?_ ?_
  · have hmem : a ∈ ((front ++ a :: b :: back).drop (k * L)).take L :=
      mem_page_iff.2 ⟨front.length, by simp, by omega, by omega⟩
    simpa [pages] using hmem
  · have hmem : a ∈ ((front ++ b :: a :: back).drop ((k + 1) * L)).take L :=
      mem_page_iff.2 ⟨front.length + 1, by simp, by rw [Nat.add_one_mul]; omega,
        by rw [Nat.add_one_mul]; omega⟩
    simpa [pages] using hmem

theorem tiesFit_of_pagesCover (hL : 1 ≤ L) (hnodup : rows.Nodup) (hn : rows.length ≤ n * L)
    (hcover : PagesCover key rows L n) : TiesFit key rows L := by
  intro a ha
  by_contra hne
  obtain ⟨l, hl⟩ := exists_arranges key rows
  have hlength := hl.perm.length_eq
  have hupTo : upTo key rows a ≤ rows.length := upTo_le_length
  -- the rows with the key of `a` go past the end of a page
  obtain ⟨k, hbefore, hlast⟩ := exists_page_start hL (before_lt_upTo ha) hne
  obtain ⟨i, hi⟩ : ∃ i, (k + 1) * L = i + 1 := ⟨(k + 1) * L - 1, by omega⟩
  have hthis : i < l.length := by omega
  have hnext : i + 1 < l.length := by omega
  have hsplit : l = l.take i ++ l[i] :: l[i + 1] :: l.drop (i + 2) := by
    rw [← List.drop_eq_getElem_cons hnext, ← List.drop_eq_getElem_cons hthis,
      List.take_append_drop]
  have hkey : key l[i] = key l[i + 1] := by
    rw [hl.key_eq (a := a) (List.getElem?_eq_getElem hthis) (by omega) (by omega),
      hl.key_eq (a := a) (List.getElem?_eq_getElem hnext) (by omega) (by omega)]
  have hk : k + 1 < n := Nat.lt_of_mul_lt_mul_right (a := L) (by omega)
  have hfront : (l.take i).length = i := List.length_take_of_le (Nat.le_of_lt hthis)
  exact not_pagesCover hL hnodup (hsplit ▸ hl) hkey (by omega) hk hcover

/-- **Paging** visits every row once exactly when the rows with one key fall on one page. -/
theorem pagesCover_iff (hL : 1 ≤ L) (hnodup : rows.Nodup) (hn : rows.length ≤ n * L) :
    PagesCover key rows L n ↔ TiesFit key rows L :=
  ⟨tiesFit_of_pagesCover hL hnodup hn, pagesCover_of_tiesFit hL hn⟩

end FirecrawlLb.Lib.Paging
