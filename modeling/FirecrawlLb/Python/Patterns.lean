import FirecrawlLb.Lib.Leftmost
import FirecrawlLb.Python.Strings

/-!
# Patterns with one group

`re.search` and `re.subn` for patterns of two shapes: `^front([^"]+)"tail$`, where the ends may be
missing, and `^key(.+)$` or `^key.*$`.  Text that is read has its line ends translated.

* `Pattern.search_written`: a pattern finds what was written in the place of its first match;
* `findLine_replaceLine`: so does one that takes the rest of a line.
-/

namespace FirecrawlLb.Python

open FirecrawlLb.Lib

/-- A word of a pattern, at the front of a text. -/
def takeWord (word cs : List Char) : Option (List Char) :=
  if word.isPrefixOf cs then some (cs.drop word.length) else none

theorem takeWord_eq_some {word cs rest : List Char} :
    takeWord word cs = some rest ↔ cs = word ++ rest := by
  unfold takeWord
  split_ifs with h
  · obtain ⟨tail, rfl⟩ := List.isPrefixOf_iff_prefix.1 h
    simp
  · rw [List.isPrefixOf_iff_prefix] at h
    simp only [false_iff]
    rintro rfl
    exact h (List.prefix_append _ _)

/-! ### Quoted texts -/

/-- `^front[^"]+"tail$` with `re.MULTILINE`; the pattern may be without `^` or without `$`. -/
structure Pattern where
  lineStart : Bool
  front : List Char
  tail : List Char
  lineEnd : Bool

/-- `^` -/
def atLineStart (prev : Option Char) : Bool := prev.all (· = '\n')

/-- `$` -/
def atLineEnd (rest : List Char) : Bool := rest.head?.all (· = '\n')

namespace Pattern

/-- What `[^"]+` takes, all up to the next quote, and what follows the match. -/
def matchAt (p : Pattern) (prev : Option Char) (cs : List Char) :
    Option (List Char × List Char) :=
  if p.lineStart && !atLineStart prev then none
  else do
    let cs ← takeWord p.front cs
    let run := cs.takeWhile (· ≠ '"')
    let rest ← takeWord ('"' :: p.tail) (cs.dropWhile (· ≠ '"'))
    if run = [] || (p.lineEnd && !atLineEnd rest) then none else some (run, rest)

/-- `re.search`: what stands before the match, what `[^"]+` takes, and what follows. -/
def search (p : Pattern) (text : List Char) : Option (List Char × List Char × List Char) :=
  leftmost p.matchAt none text

/-- A match with the text `run`, between two others. -/
def written (p : Pattern) (pre run rest : List Char) : List Char :=
  pre ++ (p.front ++ (run ++ '"' :: (p.tail ++ rest)))

/-- `_replace_once`, where the replacement is a match with the text `value`. -/
def replaceOnce (p : Pattern) (value text : List Char) : Except Raised (List Char) :=
  match p.search text with
  | none => .error .valueError
  | some (pre, _, rest) => .ok (p.written pre value rest)

section Search

variable {p : Pattern} {prev : Option Char} {text pre run rest value cs : List Char}

theorem append_quote_inj {a b x y : List Char} (ha : '"' ∉ a) (hb : '"' ∉ b) :
    a ++ '"' :: x = b ++ '"' :: y ↔ a = b ∧ x = y := by
  constructor
  · intro h
    induction a generalizing b with
    | nil =>
      cases b with
      | nil => exact ⟨rfl, (List.cons.inj h).2⟩
      | cons d b => exact absurd (List.cons.inj h).1 (List.ne_of_not_mem_cons hb)
    | cons c a ih =>
      cases b with
      | nil => exact absurd (List.cons.inj h).1.symm (List.ne_of_not_mem_cons ha)
      | cons d b =>
        obtain ⟨rfl, hrest⟩ := List.cons.inj h
        obtain ⟨rfl, rfl⟩ := ih (List.not_mem_of_not_mem_cons ha)
          (List.not_mem_of_not_mem_cons hb) hrest
        exact ⟨rfl, rfl⟩
  · rintro ⟨rfl, rfl⟩
    rfl

theorem matchAt_eq_some : p.matchAt prev cs = some (run, rest) ↔
    (p.lineStart = true → atLineStart prev = true) ∧
      cs = p.front ++ (run ++ '"' :: (p.tail ++ rest)) ∧ run ≠ [] ∧ '"' ∉ run ∧
      (p.lineEnd = true → atLineEnd rest = true) := by
  have hspan : ∀ {cs : List Char}, '"' ∉ cs → ∀ x, (cs ++ '"' :: x).takeWhile (· ≠ '"') = cs ∧
      (cs ++ '"' :: x).dropWhile (· ≠ '"') = '"' :: x := by
    intro cs hcs x
    have hall : ∀ c ∈ cs, decide (c ≠ '"') = true := fun c hc =>
      decide_eq_true fun heq => hcs (heq ▸ hc)
    rw [List.takeWhile_append_of_pos hall, List.dropWhile_append_of_pos hall]
    simp
  unfold matchAt
  constructor
  · intro h
    split_ifs at h with hstart
    simp only [Option.bind_eq_bind, Option.bind_eq_some_iff, takeWord_eq_some] at h
    obtain ⟨cs', rfl, rest', hrest, h⟩ := h
    split_ifs at h with hrun
    obtain ⟨rfl, rfl⟩ := Prod.mk.inj (Option.some.inj h)
    simp only [Bool.or_eq_true, decide_eq_true_eq, Bool.and_eq_true, Bool.not_eq_true', not_or,
      not_and, Bool.not_eq_false] at hrun
    refine ⟨by simpa using hstart, ?_, hrun.1, fun hquote => ?_, hrun.2⟩
    · rw [← List.cons_append, ← hrest, List.takeWhile_append_dropWhile]
    · simpa using List.all_eq_true.1 List.all_takeWhile _ hquote
  · rintro ⟨hstart, rfl, hne, hquote, hend⟩
    rw [if_neg (by simpa using hstart)]
    simp only [Option.bind_eq_bind, Option.bind_eq_some_iff, takeWord_eq_some]
    obtain ⟨htake, hdrop⟩ := hspan hquote (p.tail ++ rest)
    refine ⟨_, rfl, rest, by rw [hdrop, List.cons_append], ?_⟩
    rw [htake]
    exact if_neg (by simpa [hne] using hend)

theorem eq_written (h : p.search text = some (pre, run, rest)) :
    text = p.written pre run rest ∧ run ≠ [] ∧ '"' ∉ run := by
  obtain ⟨cs, rfl, hfirst⟩ := leftmost_eq_some.1 h
  obtain ⟨-, rfl, hne, hquote, -⟩ := matchAt_eq_some.1 hfirst.found
  exact ⟨rfl, hne, hquote⟩

/-- The text of a match decides nothing about the places before it: no match begins there that
reaches beyond the quotes of `front`. -/
structure Local (p : Pattern) : Prop where
  lineEnd : p.lineEnd = false
  alone : ∀ b x, b ≠ [] → (p.lineStart = true → lastOr none b = some '\n') →
    p.front <+: b ++ (p.front ++ x) → p.front <+: b
  quote : ∃ f g, p.front = f ++ '"' :: g ∧ '"' ∉ f ∧ ∀ x y, p.tail <+: g ++ x → p.tail <+: g ++ y
  head : ∀ c ∈ p.front.head?, c ∉ p.tail

/-- A match before another one does not depend on the text of the latter. -/
theorem Local.matchAt (hp : p.Local) {b x : List Char} (hb : b ≠ [])
    (hline : p.lineStart = true → lastOr none b = some '\n')
    (h : (p.matchAt prev (b ++ (p.front ++ x))).isSome) (y : List Char) :
    (p.matchAt prev (b ++ (p.front ++ y))).isSome := by
  obtain ⟨⟨run, rest⟩, h⟩ := Option.isSome_iff_exists.1 h
  obtain ⟨hstart, heq, hne, hquote, -⟩ := matchAt_eq_some.1 h
  obtain ⟨b', rfl⟩ := hp.alone b x hb hline ⟨_, heq.symm⟩
  have hend : ∀ rest' : List Char, p.lineEnd = true → atLineEnd rest' = true := fun _ hend => by
    rw [hp.lineEnd] at hend
    cases hend
  simp only [List.append_assoc, List.append_cancel_left_eq] at heq
  by_cases hin : '"' ∈ b'
  · -- the match ends before the other one
    obtain ⟨u, w, rfl, hu⟩ := List.eq_append_cons_of_mem hin
    rw [List.append_assoc, List.cons_append, append_quote_inj hu hquote] at heq
    obtain ⟨rfl, heq⟩ := heq
    obtain ⟨w', rfl⟩ : p.tail <+: w := by
      rcases List.append_eq_append_iff.1 heq with ⟨d, htail, hfront⟩ | ⟨d, hw, -⟩
      · cases d with
        | nil => exact ⟨[], by simpa using htail⟩
        | cons c d =>
          obtain ⟨f, g, hf, -, -⟩ := hp.quote
          obtain ⟨e, es, hes⟩ : ∃ e es, p.front = e :: es :=
            List.exists_cons_of_ne_nil (by rw [hf]; simp)
          rw [hes] at hfront
          obtain ⟨rfl, -⟩ := List.cons.inj hfront
          exact absurd (htail ▸ by simp) (hp.head e (by rw [hes]; rfl))
      · exact ⟨d, hw.symm⟩
    refine Option.isSome_iff_exists.2 ⟨(u, w' ++ (p.front ++ y)), matchAt_eq_some.2
      ⟨hstart, by simp, hne, hquote, hend _⟩⟩
  · -- the match ends with the first quote of the other one
    obtain ⟨f, g, hf, hfquote, htail⟩ := hp.quote
    have hbf : '"' ∉ b' ++ f := by simp [hin, hfquote]
    rw [hf, List.append_assoc, List.cons_append, ← List.append_assoc,
      append_quote_inj hbf hquote] at heq
    obtain ⟨rfl, heq⟩ := heq
    obtain ⟨rest', hrest'⟩ := htail x y ⟨rest, heq.symm⟩
    refine Option.isSome_iff_exists.2 ⟨(b' ++ f, rest'), matchAt_eq_some.2
      ⟨hstart, ?_, hne, hquote, hend _⟩⟩
    rw [hrest']
    simp [hf]

/-- **What is written in the place of the first match** is found by the next search. -/
theorem search_written (hp : p.Local) (h : p.search text = some (pre, run, rest))
    (hne : value ≠ []) (hquote : '"' ∉ value) :
    p.search (p.written pre value rest) = some (pre, value, rest) := by
  obtain ⟨cs, rfl, hfirst⟩ := leftmost_eq_some.1 h
  obtain ⟨hstart, rfl, -, -, hend⟩ := matchAt_eq_some.1 hfirst.found
  refine leftmost_eq_some.2 ⟨_, rfl, matchAt_eq_some.2 ⟨hstart, rfl, hne, hquote, hend⟩, ?_⟩
  rintro a b rfl hb
  rw [← Option.not_isSome_iff_eq_none]
  intro hsome
  have hline : p.lineStart = true → lastOr none b = some '\n' := by
    intro hlineStart
    have hbefore := hstart hlineStart
    have hlast : lastOr (lastOr none a) b = lastOr none b := lastOr_of_ne_nil hb
    obtain ⟨c, hc⟩ := exists_lastOr none hb
    rw [lastOr_append, hlast, hc] at hbefore
    simpa [atLineStart, hc] using hbefore
  have hold := hp.matchAt hb hline hsome (run ++ '"' :: (p.tail ++ rest))
  rw [hfirst.first a b rfl hb] at hold
  cases hold

end Search

end Pattern

/-! ### Lines -/

/-- `_replace_once` with `^key.*$`, where the replacement is the key and `value`. -/
def replaceLine (key value text : List Char) : Except Raised (List Char) :=
  match replaceFirst key.isPrefixOf (key ++ value) (text.splitOn '\n') with
  | none => .error .valueError
  | some lines => .ok (['\n'].intercalate lines)

/-- The group of `re.search` with `^key(.+)$`. -/
def findLine (key text : List Char) : Option (List Char) :=
  (text.splitOn '\n').findSome? fun line => (takeWord key line).filter (· ≠ [])

/-- What reading a file in text mode makes of its line ends. -/
def universalNewlines : List Char → List Char
  | [] => []
  | '\r' :: '\n' :: cs => '\n' :: universalNewlines cs
  | '\r' :: cs => '\n' :: universalNewlines cs
  | c :: cs => c :: universalNewlines cs

section Lines

variable {c sep : Char} {cs key key' value text text' : List Char} {lines : List (List Char)}

theorem mem_intercalate (hc : c ≠ sep) :
    c ∈ [sep].intercalate lines ↔ ∃ line ∈ lines, c ∈ line := by
  induction lines with
  | nil => simp
  | cons line lines ih =>
    cases lines with
    | nil => simp
    | cons line' lines =>
      rw [List.intercalate_cons_cons]
      simp [ih, hc]

theorem notMem_of_mem_splitOn (h : cs ∈ text.splitOn sep) : sep ∉ cs := by
  induction text generalizing cs with
  | nil =>
    rw [List.splitOn_nil, List.mem_singleton] at h
    simp [h]
  | cons c text ih =>
    rw [List.splitOn_cons_eq_if_modifyHead] at h
    split_ifs at h with hc
    · rcases List.mem_cons.1 h with rfl | h
      · simp
      · exact ih h
    · obtain ⟨line, lines, hlines⟩ := List.exists_cons_of_ne_nil (List.splitOn_ne_nil sep text)
      rw [hlines, List.modifyHead_cons] at h
      rcases List.mem_cons.1 h with rfl | h
      · have hne : sep ≠ c := fun heq => hc (by simp [heq])
        simp [hne, ih (hlines ▸ List.mem_cons_self)]
      · exact ih (hlines ▸ List.mem_cons_of_mem _ h)

theorem replaceLine_cases (h : replaceLine key value text = .ok text')
    (hvalue : '\n' ∉ key ++ value) : ∃ a b c, text.splitOn '\n' = a ++ b :: c ∧
      text'.splitOn '\n' = a ++ (key ++ value) :: c ∧ key <+: b ∧ ∀ line ∈ a, ¬ key <+: line := by
  unfold replaceLine at h
  split at h
  · cases h
  · rename_i lines hlines
    obtain rfl := Except.ok.inj h
    obtain ⟨a, b, c, htext, rfl, hb, ha⟩ := replaceFirst_cases hlines
    refine ⟨a, b, c, htext, ?_, List.isPrefixOf_iff_prefix.1 hb, fun line hline hkey => ?_⟩
    · refine List.splitOn_intercalate '\n' (fun line hline => ?_) (by simp)
      have hold : ∀ line ∈ a ++ b :: c, '\n' ∉ line := fun line hline =>
        notMem_of_mem_splitOn (htext ▸ hline)
      rcases List.mem_append.1 hline with hline | hline
      · exact hold line (List.mem_append_left _ hline)
      · rcases List.mem_cons.1 hline with rfl | hline
        · exact hvalue
        · exact hold line (List.mem_append_right _ (List.mem_cons_of_mem _ hline))
    · have hnot := ha line hline
      rw [List.isPrefixOf_iff_prefix.2 hkey] at hnot
      cases hnot

/-- **What is written into a line** is found there. -/
theorem findLine_replaceLine (h : replaceLine key value text = .ok text')
    (hvalue : '\n' ∉ key ++ value) (hne : value ≠ []) : findLine key text' = some value := by
  obtain ⟨a, b, c, -, htext', -, ha⟩ := replaceLine_cases h hvalue
  have hnone : (a.findSome? fun line => (takeWord key line).filter (· ≠ [])) = none := by
    refine List.findSome?_eq_none_iff.2 fun line hline => ?_
    rw [takeWord, if_neg fun hkey => ha line hline (List.isPrefixOf_iff_prefix.1 hkey)]
    rfl
  have hself : (takeWord key (key ++ value)).filter (· ≠ []) = some value := by
    rw [takeWord_eq_some.2 rfl]
    exact if_pos (by simpa using hne)
  rw [findLine, htext', List.findSome?_append, hnone, List.findSome?_cons, hself]
  rfl

theorem findLine_replaceLine_of_ne (h : replaceLine key value text = .ok text')
    (hvalue : '\n' ∉ key ++ value) (hkeys : ∀ line, key <+: line → ¬ key' <+: line) :
    findLine key' text' = findLine key' text := by
  obtain ⟨a, b, c, htext, htext', hb, -⟩ := replaceLine_cases h hvalue
  have hnone : ∀ line, key <+: line → takeWord key' line = none := fun line hline =>
    if_neg fun hprefix => hkeys line hline (List.isPrefixOf_iff_prefix.1 hprefix)
  rw [findLine, findLine, htext, htext', List.findSome?_append, List.findSome?_append,
    List.findSome?_cons, List.findSome?_cons, hnone b hb,
    hnone (key ++ value) (List.prefix_append _ _)]

theorem exists_replaceLine (h : findLine key text = some cs) (value : List Char) :
    ∃ text', replaceLine key value text = .ok text' := by
  obtain ⟨line, hline, hword⟩ := List.exists_of_findSome?_eq_some h
  have hkey : key.isPrefixOf line = true := by
    by_contra hnot
    rw [takeWord, if_neg hnot] at hword
    cases hword
  obtain ⟨lines, hlines⟩ := exists_replaceFirst (x := key ++ value) ⟨line, hline, hkey⟩
  exact ⟨_, by rw [replaceLine, hlines]⟩

theorem notMem_replaceLine (h : replaceLine key value text = .ok text') (hc : c ≠ '\n')
    (htext : c ∉ text) (hvalue : c ∉ key ++ value) : c ∉ text' := by
  unfold replaceLine at h
  split at h
  · cases h
  · rename_i lines hlines
    obtain rfl := Except.ok.inj h
    obtain ⟨a, b, d, hsplit, rfl, -, -⟩ := replaceFirst_cases hlines
    have hold : ∀ line ∈ a ++ b :: d, c ∉ line := by
      intro line hline hin
      have hjoin : ['\n'].intercalate (text.splitOn '\n') = text := List.intercalate_splitOn '\n'
      rw [← hjoin, hsplit] at htext
      exact htext ((mem_intercalate hc).2 ⟨line, hline, hin⟩)
    rw [mem_intercalate hc]
    rintro ⟨line, hline, hin⟩
    rcases List.mem_append.1 hline with hline | hline
    · exact hold line (List.mem_append_left _ hline) hin
    · rcases List.mem_cons.1 hline with rfl | hline
      · exact hvalue hin
      · exact hold line (List.mem_append_right _ (List.mem_cons_of_mem _ hline)) hin

theorem cr_notMem_universalNewlines (cs : List Char) : '\r' ∉ universalNewlines cs := by
  fun_induction universalNewlines cs with
  | case1 => simp
  | case2 cs ih => simp [ih]
  | case3 cs _ ih => simp [ih]
  | case4 c cs _ hc ih =>
    intro h
    rcases List.mem_cons.1 h with rfl | h
    · exact hc rfl
    · exact ih h

/-- A text without carriage returns is read as it stands. -/
theorem universalNewlines_eq_self (h : '\r' ∉ cs) : universalNewlines cs = cs := by
  fun_induction universalNewlines cs with
  | case1 => rfl
  | case2 cs ih => simp at h
  | case3 cs _ ih => simp at h
  | case4 c cs _ hc ih => rw [ih (List.not_mem_of_not_mem_cons h)]

end Lines

end FirecrawlLb.Python
