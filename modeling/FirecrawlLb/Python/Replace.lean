import FirecrawlLb.Python.Values

/-!
# What `str.replace` leaves of a pattern

* `not_infix_replaceChars`: when neither string can be continued by the other, the result does not
  contain the old one;
* `replaceChars_before`: text without the pattern, up to a character that is not part of it, stays;
* `replaceChars_disguise`: every text is what deleting a pattern leaves of some other text.
-/

namespace FirecrawlLb.Python

section

variable {old new : List Char}

/-- The characters of a match are passed over. -/
theorem replaceChars_skip (old new : List Char) : ∀ l r : List Char,
    replaceChars old new l.length (l ++ r) = replaceChars old new 0 r
  | [], _ => rfl
  | _ :: l, r => replaceChars_skip old new l r

theorem replaceChars_copy {c : Char} {cs : List Char} (h : ¬ old <+: c :: cs) :
    replaceChars old new 0 (c :: cs) = c :: replaceChars old new 0 cs :=
  if_neg (by rwa [List.isPrefixOf_iff_prefix])

theorem replaceChars_match {c : Char} (rest r : List Char) :
    replaceChars (c :: rest) new 0 (c :: rest ++ r) =
      new ++ replaceChars (c :: rest) new 0 r := by
  have hmatch : (c :: rest).isPrefixOf (c :: rest ++ r) = true :=
    List.isPrefixOf_iff_prefix.2 (List.prefix_append _ _)
  rw [List.cons_append, replaceChars, ← List.cons_append, if_pos hmatch, List.length_cons,
    Nat.add_sub_cancel, replaceChars_skip]

/-! ### The pattern is gone -/

/-- A word without the first character of `new` can only be copied. -/
theorem prefix_of_prefix_replaceChars {b : Char} {bs : List Char} :
    ∀ w s : List Char, b ∉ w → w <+: replaceChars old (b :: bs) 0 s → w <+: s
  | [], _, _, _ => List.nil_prefix
  | c :: w, [], _, h => by simp [replaceChars] at h
  | c :: w, d :: s, hb, h => by
    rw [replaceChars] at h
    split at h
    · exact absurd (List.cons_prefix_cons.1 h).1 (List.ne_of_not_mem_cons hb).symm
    · obtain ⟨rfl, hw⟩ := List.cons_prefix_cons.1 h
      exact List.cons_prefix_cons.2
        ⟨rfl, prefix_of_prefix_replaceChars w s (List.not_mem_of_not_mem_cons hb) hw⟩

theorem infix_of_infix_append {a : Char} {as r : List Char} :
    ∀ l : List Char, a ∉ l → a :: as <:+: l ++ r → a :: as <:+: r
  | [], _, h => h
  | c :: l, ha, h => by
    rcases List.infix_cons_iff.1 h with h | h
    · exact absurd (List.cons_prefix_cons.1 h).1 (List.ne_of_not_mem_cons ha)
    · exact infix_of_infix_append l (List.not_mem_of_not_mem_cons ha) h

/-- **The replaced text is free of the pattern** when the first character of each of the two
strings does not occur in the other. -/
theorem not_infix_replaceChars {a b : Char} {as bs : List Char} (ha : a ∉ b :: bs)
    (hb : b ∉ a :: as) : ∀ (skip : ℕ) (s : List Char),
      ¬ a :: as <:+: replaceChars (a :: as) (b :: bs) skip s
  | _, [] => by simp [replaceChars]
  | skip + 1, _ :: s => not_infix_replaceChars ha hb skip s
  | 0, c :: s => by
    intro h
    by_cases hmatch : a :: as <+: c :: s
    · rw [replaceChars, if_pos (List.isPrefixOf_iff_prefix.2 hmatch)] at h
      exact not_infix_replaceChars ha hb _ s (infix_of_infix_append (b :: bs) ha h)
    · rw [replaceChars_copy hmatch] at h
      rcases List.infix_cons_iff.1 h with h | h
      · rw [← replaceChars_copy hmatch] at h
        exact hmatch (prefix_of_prefix_replaceChars _ _ hb h)
      · exact not_infix_replaceChars ha hb 0 s h

/-! ### What stays -/

theorem prefix_of_prefix_append {sep : Char} {r : List Char} : ∀ w s : List Char, sep ∉ w →
    w <+: s ++ sep :: r → w <+: s
  | [], _, _, _ => List.nil_prefix
  | _ :: _, [], hsep, h =>
    absurd (List.cons_prefix_cons.1 h).1 (List.ne_of_not_mem_cons hsep).symm
  | _ :: w, _ :: s, hsep, h => by
    obtain ⟨rfl, hw⟩ := List.cons_prefix_cons.1 h
    exact List.cons_prefix_cons.2
      ⟨rfl, prefix_of_prefix_append w s (List.not_mem_of_not_mem_cons hsep) hw⟩

/-- **A text without the pattern stays**, up to a character that is not part of the pattern. -/
theorem replaceChars_before {sep : Char} (hsep : sep ∉ old) (r : List Char) : ∀ s : List Char,
    ¬ old <:+: s → replaceChars old new 0 (s ++ sep :: r) = s ++ replaceChars old new 0 (sep :: r)
  | [], _ => rfl
  | c :: s, hs => by
    have hcopy : ¬ old <+: c :: (s ++ sep :: r) := fun h =>
      hs (prefix_of_prefix_append old (c :: s) hsep h).isInfix
    rw [List.cons_append, replaceChars_copy hcopy,
      replaceChars_before hsep r s fun h => hs (List.infix_cons h), List.cons_append]

/-- A text that becomes `s` when the pattern `a :: as` is deleted. -/
def disguise (a : Char) (as : List Char) (s : List Char) : List Char :=
  s.flatMap fun c => if c = a then a :: a :: as else [c]

/-- **Every text is left by a deletion**: each `a` is protected by a pattern behind it. -/
theorem replaceChars_disguise {a b : Char} {bs : List Char} (hab : a ≠ b) (r : List Char) :
    ∀ s : List Char, replaceChars (a :: b :: bs) [] 0 (disguise a (b :: bs) s ++ r) =
      s ++ replaceChars (a :: b :: bs) [] 0 r
  | [] => rfl
  | c :: s => by
    have ih : replaceChars (a :: b :: bs) [] 0 (disguise a (b :: bs) s ++ r) =
        s ++ replaceChars (a :: b :: bs) [] 0 r := replaceChars_disguise hab r s
    rw [disguise, List.flatMap_cons, ← disguise]
    by_cases hc : c = a
    · subst hc
      have hcopy : ∀ t, ¬ c :: b :: bs <+: c :: c :: t := fun t h =>
        hab (List.cons_prefix_cons.1 (List.cons_prefix_cons.1 h).2).1.symm
      rw [if_pos rfl, List.append_assoc, List.cons_append, List.cons_append,
        replaceChars_copy (hcopy _), ← List.cons_append, replaceChars_match, List.nil_append, ih,
        List.cons_append]
    · have hcopy : ∀ t, ¬ a :: b :: bs <+: c :: t := fun t h =>
        hc (List.cons_prefix_cons.1 h).1.symm
      rw [if_neg hc, List.append_assoc, List.singleton_append, replaceChars_copy (hcopy _), ih,
        List.cons_append]

end

end FirecrawlLb.Python
