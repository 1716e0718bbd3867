import FirecrawlLb.Lib.Results
import FirecrawlLb.Python.IpAddress
import FirecrawlLb.Python.Patterns
import Mathlib.Data.List.TakeWhile

/-!
# The text of an address

`ip_address` reads `str(address)` as the address: the two colons that stand for the longest run of
zeros, the IPv4 address at the end of a mapped one and the scope are read back.  So an address has
one text, and every text that is read as the address is one of its spellings.
-/

namespace FirecrawlLb.Python

open FirecrawlLb.Lib

/-! ### Digits -/

section Digits

variable {base n d : ℕ} {ds : List ℕ}

theorem ofDigits_append_singleton (base : ℕ) (ds : List ℕ) (d : ℕ) :
    ofDigits base (ds ++ [d]) = ofDigits base ds * base + d := by
  simp [ofDigits]

theorem ofDigits_cons (base d : ℕ) (ds : List ℕ) :
    ofDigits base (d :: ds) = d * base ^ ds.length + ofDigits base ds := by
  induction ds using List.reverseRecOn with
  | nil => simp [ofDigits]
  | append_singleton ds e ih =>
    rw [← List.cons_append, ofDigits_append_singleton, ih, ofDigits_append_singleton,
      List.length_append, List.length_singleton, pow_succ]
    ring

theorem ofDigits_zeros (base n : ℕ) (ds : List ℕ) :
    ofDigits base (List.replicate n 0 ++ ds) = ofDigits base ds := by
  induction n with
  | zero => rfl
  | succ n ih =>
    rw [List.replicate_succ, List.cons_append, ofDigits_cons, ih, Nat.zero_mul, Nat.zero_add]

theorem ofDigits_lt (h : ∀ d ∈ ds, d < base) :
    ofDigits base ds < base ^ ds.length := by
  induction ds using List.reverseRecOn with
  | nil => simp [ofDigits]
  | append_singleton ds d ih =>
    have hds := ih fun e he => h e (List.mem_append_left _ he)
    have hd : d < base := h d (List.mem_append_right _ List.mem_cons_self)
    rw [ofDigits_append_singleton, List.length_append, List.length_singleton, pow_succ]
    calc ofDigits base ds * base + d
        < ofDigits base ds * base + base := Nat.add_lt_add_left hd _
      _ = (ofDigits base ds + 1) * base := by ring
      _ ≤ base ^ ds.length * base := Nat.mul_le_mul_right base hds

theorem ofDigits_range (base x n : ℕ) :
    ofDigits base ((List.range n).reverse.map fun i => x / base ^ i % base) = x % base ^ n := by
  induction n with
  | zero => simp [ofDigits, Nat.mod_one]
  | succ n ih =>
    rw [List.range_succ, List.reverse_append, List.reverse_singleton, List.singleton_append,
      List.map_cons, ofDigits_cons, ih, List.length_map, List.length_reverse, List.length_range,
      Nat.mod_pow_succ]
    ring

theorem digitValue_digitChar : ∀ base ≤ 16, ∀ d < base,
    digitValue base (Nat.digitChar d) = some d := by
  decide

theorem exists_toDigits (hbase : 1 < base) (n : ℕ) :
    ∃ ds : List ℕ, Nat.toDigits base n = ds.map Nat.digitChar ∧ (∀ d ∈ ds, d < base) ∧
      ofDigits base ds = n := by
  induction n using Nat.strongRecOn with
  | ind n ih =>
    by_cases hn : n < base
    · refine ⟨[n], Nat.toDigits_of_lt_base hn, fun d hd => ?_, by simp [ofDigits]⟩
      obtain rfl := List.mem_singleton.1 hd
      exact hn
    · have hle : base ≤ n := Nat.le_of_not_lt hn
      obtain ⟨ds, htext, hlt, hvalue⟩ :=
        ih (n / base) (Nat.div_lt_self (by omega) hbase)
      refine ⟨ds ++ [n % base], ?_, fun d hd => ?_, ?_⟩
      · rw [Nat.toDigits_of_base_le hbase hle, htext, List.map_append,
          List.map_singleton]
      · rcases List.mem_append.1 hd with hd | hd
        · exact hlt d hd
        · obtain rfl := List.mem_singleton.1 hd
          exact Nat.mod_lt n (by omega)
      · rw [ofDigits_append_singleton, hvalue, Nat.div_add_mod']

theorem mapM_digitValue (hbase : base ≤ 16) (h : ∀ d ∈ ds, d < base) :
    (ds.map Nat.digitChar).mapM (digitValue base) = some ds := by
  induction ds with
  | nil => rfl
  | cons d ds ih =>
    rw [List.map_cons, List.mapM_cons, digitValue_digitChar base hbase d (h d List.mem_cons_self),
      ih fun e he => h e (List.mem_cons_of_mem d he)]
    rfl

theorem lt_of_digitValue {c : Char} (h : digitValue base c = some d) : d < base := by
  obtain ⟨-, hlt⟩ := Option.filter_eq_some_iff.1 h
  simpa using hlt

theorem lt_of_mapM_digitValue {cs : List Char} (h : cs.mapM (digitValue base) = some ds) :
    (∀ d ∈ ds, d < base) ∧ ds.length = cs.length := by
  induction cs generalizing ds with
  | nil =>
    cases h
    simp
  | cons c cs ih =>
    simp only [List.mapM_cons, Option.bind_eq_bind, Option.pure_def, Option.bind_eq_some_iff] at h
    obtain ⟨d, hd, ds', hds, heq⟩ := h
    cases heq
    obtain ⟨hlt, hlength⟩ := ih hds
    refine ⟨fun e he => ?_, by simp [hlength]⟩
    rcases List.mem_cons.1 he with rfl | he
    · exact lt_of_digitValue hd
    · exact hlt e he

end Digits

/-! ### The parts of an address -/

section Parts

variable {n : ℕ}

theorem parseOctet_toDigits : ∀ n < 256, parseOctet (Nat.toDigits 10 n) = some n := by
  decide +kernel

theorem parseHextet_toDigits (h : n < 65536) : parseHextet (Nat.toDigits 16 n) = some n := by
  have hbase : 1 < 16 := by decide
  obtain ⟨ds, htext, hlt, hvalue⟩ := exists_toDigits hbase n
  have hlength : (Nat.toDigits 16 n).length ≤ 4 :=
    (Nat.length_toDigits_le_iff (by decide) (by decide)).2 h
  rw [parseHextet, if_neg Nat.toDigits_ne_nil, htext, mapM_digitValue (by decide) hlt,
    Option.bind_some, ← htext, if_neg (Nat.not_lt.2 hlength), hvalue]

theorem parseOctet_lt {cs : List Char} (h : parseOctet cs = some n) : n < 256 := by
  unfold parseOctet at h
  split at h
  · cases h
  · obtain ⟨ds, -, h⟩ := Option.bind_eq_some_iff.1 h
    split_ifs at h with _ _ hlarge
    obtain rfl := Option.some.inj h
    omega

theorem parseHextet_lt {cs : List Char} (h : parseHextet cs = some n) : n < 65536 := by
  unfold parseHextet at h
  split at h
  · cases h
  · obtain ⟨ds, hds, h⟩ := Option.bind_eq_some_iff.1 h
    split_ifs at h with hlength
    obtain rfl := Option.some.inj h
    obtain ⟨hlt, hlen⟩ := lt_of_mapM_digitValue hds
    calc ofDigits 16 ds < 16 ^ ds.length := ofDigits_lt hlt
      _ ≤ 16 ^ 4 := Nat.pow_le_pow_right (by decide) (by omega)

theorem digitChar_plain : ∀ d < 16, Nat.digitChar d ∉ ['.', ':', '%', '/'] ∧
    isSpace (Nat.digitChar d) = false := by
  decide

theorem plain_of_mem_toDigits {c : Char} {base : ℕ} (hbase : 1 < base) (hle : base ≤ 16)
    (h : c ∈ Nat.toDigits base n) : c ∉ ['.', ':', '%', '/'] ∧ isSpace c = false := by
  obtain ⟨ds, htext, hlt, -⟩ := exists_toDigits hbase n
  rw [htext] at h
  obtain ⟨d, hd, rfl⟩ := List.mem_map.1 h
  exact digitChar_plain d ((hlt d hd).trans_le hle)

end Parts

/-! ### IPv4 -/

section Ipv4

variable {ip : ℕ}

theorem toList_writeIpv4 (ip : ℕ) : (writeIpv4 ip).toList = ['.'].intercalate
    ([ip >>> 24, ip >>> 16 % 256, ip >>> 8 % 256, ip % 256].map (Nat.toDigits 10)) := by
  simp [writeIpv4, toDigits]

theorem parseIpv4_writeIpv4 (h : ip < 2 ^ 32) : parseIpv4 (writeIpv4 ip).toList = some ip := by
  have hdot : ∀ part ∈ [ip >>> 24, ip >>> 16 % 256, ip >>> 8 % 256, ip % 256].map
      (Nat.toDigits 10), '.' ∉ part := by
    intro part hpart hmem
    obtain ⟨n, -, rfl⟩ := List.mem_map.1 hpart
    exact (plain_of_mem_toDigits (by decide) (by decide) hmem).1 (by decide)
  have hoctets : ([ip >>> 24, ip >>> 16 % 256, ip >>> 8 % 256, ip % 256].map
      (Nat.toDigits 10)).mapM parseOctet =
      some [ip >>> 24, ip >>> 16 % 256, ip >>> 8 % 256, ip % 256] := by
    rw [mapM_eq_some, List.forall₂_map_left_iff, List.forall₂_same]
    intro n hn
    refine parseOctet_toDigits n ?_
    simp only [List.mem_cons, List.not_mem_nil, or_false] at hn
    rcases hn with rfl | rfl | rfl | rfl
    · rw [Nat.shiftRight_eq_div_pow]
      omega
    all_goals exact Nat.mod_lt _ (by decide)
  rw [parseIpv4, toList_writeIpv4, List.splitOn_intercalate '.' hdot (by simp), hoctets]
  simp only [List.length_map, List.length_cons, List.length_nil, if_true, Option.map_some, ofDigits,
    List.foldl_cons, List.foldl_nil, Nat.shiftRight_eq_div_pow]
  congr 1
  omega

theorem parseIpv4_lt {cs : List Char} (h : parseIpv4 cs = some ip) : ip < 2 ^ 32 := by
  simp only [parseIpv4] at h
  split_ifs at h with hlength
  obtain ⟨octets, hoctets, rfl⟩ := Option.map_eq_some_iff.1 h
  have hforall := mapM_eq_some.1 hoctets
  have hlt : ∀ octet ∈ octets, octet < 256 := by
    intro octet hoctet
    obtain ⟨part, -, hpart⟩ := forall₂_mem_left hforall.flip hoctet
    exact parseOctet_lt hpart
  calc ofDigits 256 octets < 256 ^ octets.length := ofDigits_lt hlt
    _ = 256 ^ 4 := by rw [← hforall.length_eq, hlength]

theorem parseIpv4_of_colon {cs : List Char} (h : ':' ∈ cs) : parseIpv4 cs = none := by
  simp only [parseIpv4]
  split_ifs
  · rw [Option.map_eq_none_iff, Option.eq_none_iff_forall_ne_some]
    intro octets hoctets
    have hjoin : ['.'].intercalate (cs.splitOn '.') = cs := List.intercalate_splitOn '.'
    obtain ⟨part, hpart, hcolon⟩ := (mem_intercalate (by decide)).1 (hjoin ▸ h)
    obtain ⟨octet, -, hoctet⟩ := forall₂_mem_left (mapM_eq_some.1 hoctets) hpart
    unfold parseOctet at hoctet
    split at hoctet
    · cases hoctet
    · obtain ⟨ds, hds, -⟩ := Option.bind_eq_some_iff.1 hoctet
      obtain ⟨d, -, hd⟩ := forall₂_mem_left (mapM_eq_some.1 hds) hcolon
      have hcolon : digitValue 10 ':' = none := by decide
      cases hd.symm.trans hcolon
  · rfl

end Ipv4

/-! ### IPv6 -/

/-- The hextets of an address, the highest first. -/
def hextets (ip : ℕ) : List ℕ := (List.range 8).reverse.map fun i => ip >>> (16 * i) % 65536

section Hextets

variable {ip : ℕ}

@[simp] theorem length_hextets (ip : ℕ) : (hextets ip).length = 8 := rfl

theorem lt_of_mem_hextets {n : ℕ} (h : n ∈ hextets ip) : n < 65536 := by
  obtain ⟨i, -, rfl⟩ := List.mem_map.1 h
  exact Nat.mod_lt _ (by decide)

theorem ofDigits_hextets (h : ip < 2 ^ 128) : ofDigits 65536 (hextets ip) = ip := by
  have hdiv : hextets ip = (List.range 8).reverse.map fun i => ip / 65536 ^ i % 65536 := by
    refine List.map_congr_left fun i _ => ?_
    rw [Nat.shiftRight_eq_div_pow, pow_mul]
    rfl
  rw [hdiv, ofDigits_range]
  exact Nat.mod_eq_of_lt h

/-- A run of zeros in a list, which begins at an index and has a length. -/
def ZeroRun (l : List ℕ) (run : ℕ × ℕ) : Prop :=
  run.1 + run.2 ≤ l.length ∧ (l.drop run.1).take run.2 = List.replicate run.2 0

theorem zeroRun_takeWhile (l : List ℕ) {i : ℕ} (hi : i ≤ l.length) :
    ZeroRun l (i, ((l.drop i).takeWhile (· = 0)).length) := by
  have hprefix := List.takeWhile_prefix (l := l.drop i) (· = 0)
  refine ⟨?_, ?_⟩
  · have hlength := hprefix.length_le
    rw [List.length_drop] at hlength
    show i + ((l.drop i).takeWhile (· = 0)).length ≤ l.length
    omega
  · refine List.eq_replicate_iff.2 ⟨?_, fun n hn => ?_⟩
    · rw [List.length_take, min_eq_left hprefix.length_le]
    · rw [← List.prefix_iff_eq_take.1 hprefix] at hn
      simpa using List.mem_takeWhile_imp hn

/-- What the search for the longest run finds is a run of zeros. -/
theorem zeroRun_longestZeros (l : List ℕ) : ZeroRun l (longestZeros l) := by
  have hfold : ∀ (runs : List (ℕ × ℕ)) (best : ℕ × ℕ), (∀ run ∈ runs, ZeroRun l run) →
      ZeroRun l best →
      ZeroRun l (runs.foldl (fun best run => if best.2 < run.2 then run else best) best) := by
    intro runs
    induction runs with
    | nil =>
      intro best _ hbest
      exact hbest
    | cons run runs ih =>
      intro best hruns hbest
      refine ih _ (fun other hother => hruns other (List.mem_cons_of_mem _ hother)) ?_
      show ZeroRun l (if best.2 < run.2 then run else best)
      split_ifs
      · exact hruns run List.mem_cons_self
      · exact hbest
  refine hfold _ _ (fun run hrun => ?_) ⟨Nat.zero_le _, by simp⟩
  obtain ⟨i, hi, rfl⟩ := List.mem_map.1 hrun
  exact zeroRun_takeWhile l (List.mem_range.1 hi).le

theorem ZeroRun.eq_append {l : List ℕ} {start length : ℕ} (h : ZeroRun l (start, length)) :
    l = l.take start ++ List.replicate length 0 ++ l.drop (start + length) := by
  conv_lhs => rw [← List.take_append_drop start l, ← List.take_append_drop length (l.drop start)]
  rw [h.2, List.drop_drop, List.append_assoc]

end Hextets

/-! #### Reading the parts -/

/-- The parts on one side of two colons: none at all, which is written as an empty part, or parts
that are read as the values. -/
def Reads (parts : List (List Char ⊕ ℕ)) (values : List ℕ) : Prop :=
  (parts = [.inl []] ∧ values = []) ∨
    (parts ≠ [] ∧ List.Forall₂ (fun part value => parsePart part = some value) parts values)

section Reading

variable {parts before after : List (List Char ⊕ ℕ)} {part : List Char ⊕ ℕ} {values hi lo : List ℕ}
  {value i : ℕ}

theorem isEmptyPart_of_parsePart (h : parsePart part = some value) : isEmptyPart part = false := by
  refine decide_eq_false ?_
  rintro rfl
  cases h

theorem Reads.ne_nil (h : Reads parts values) : parts ≠ [] := by
  rcases h with ⟨rfl, -⟩ | ⟨hne, -⟩
  · exact List.cons_ne_nil _ _
  · exact hne

theorem Reads.reverse (h : Reads parts values) : Reads parts.reverse values.reverse := by
  rcases h with ⟨rfl, rfl⟩ | ⟨hne, hread⟩
  · exact Or.inl ⟨rfl, rfl⟩
  · exact Or.inr ⟨by simpa using hne, List.rel_reverse hread⟩

theorem Reads.length_le (h : Reads parts values) : parts.length ≤ max 1 values.length := by
  rcases h with ⟨rfl, rfl⟩ | ⟨-, hread⟩
  · exact le_rfl
  · rw [hread.length_eq]
    exact le_max_right 1 _

theorem Reads.not_isEmptyPart (h : Reads parts values) (hi : i < parts.length)
    (hlength : 1 < parts.length) : isEmptyPart parts[i] = false := by
  rcases h with ⟨rfl, -⟩ | ⟨-, hread⟩
  · exact absurd hlength (by decide)
  · obtain ⟨value, -, hvalue⟩ := forall₂_mem_left hread (List.getElem_mem hi)
    exact isEmptyPart_of_parsePart hvalue

theorem Reads.parseBefore (h : Reads parts values) : parseBefore parts = some values := by
  rcases h with ⟨rfl, rfl⟩ | ⟨hne, hread⟩
  · rfl
  · cases hread with
    | nil => exact absurd rfl hne
    | cons hpart hread =>
      rw [Python.parseBefore, if_neg (by simp [isEmptyPart_of_parsePart hpart])]
      exact mapM_eq_some.2 (.cons hpart hread)

theorem Reads.parseAfter (h : Reads parts values) : parseAfter parts = some values := by
  rw [Python.parseAfter, h.reverse.parseBefore, Option.map_some, List.reverse_reverse]

/-- The index of the two colons is that of the one empty part between the sides. -/
theorem skipIndex_reads (hbefore : Reads before hi) (hafter : Reads after lo) :
    skipIndex (before ++ .inl [] :: after) = some (some before.length) := by
  have hpos : 0 < before.length := List.length_pos_iff.2 hbefore.ne_nil
  have hpos' : 0 < after.length := List.length_pos_iff.2 hafter.ne_nil
  have hmem : ∀ i, i ∈ ((List.range (before ++ .inl [] :: after).length).filter fun i =>
      0 < i && i + 1 < (before ++ .inl [] :: after).length &&
        ((before ++ .inl [] :: after)[i]?.map isEmptyPart).getD false) ↔ i ∈ [before.length] := by
    intro i
    simp only [List.mem_filter, List.mem_range, List.mem_singleton, Bool.and_eq_true,
      decide_eq_true_eq, List.length_append, List.length_cons]
    constructor
    · rintro ⟨hlt, ⟨hi, hi'⟩, hempty⟩
      rcases lt_trichotomy i before.length with h | h | h
      · rw [List.getElem?_append_left h, List.getElem?_eq_getElem h, Option.map_some,
          Option.getD_some, hbefore.not_isEmptyPart h (by omega)] at hempty
        cases hempty
      · exact h
      · obtain ⟨j, rfl⟩ : ∃ j, i = before.length + (j + 1) := ⟨i - before.length - 1, by omega⟩
        have hj : j < after.length := by omega
        rw [List.getElem?_append_right (by omega), Nat.add_sub_cancel_left, List.getElem?_cons_succ,
          List.getElem?_eq_getElem hj, Option.map_some, Option.getD_some,
          hafter.not_isEmptyPart hj (by omega)] at hempty
        cases hempty
    · rintro rfl
      refine ⟨by omega, ⟨hpos, by omega⟩, ?_⟩
      rw [List.getElem?_append_right le_rfl, Nat.sub_self]
      rfl
  have hperm := (List.perm_ext_iff_of_nodup (List.nodup_range.filter _)
    (List.nodup_singleton before.length)).2 hmem
  rw [skipIndex, List.perm_singleton.1 hperm]

theorem parseIpv6_of_forall₂ {cs : List Char} (hlength : 3 ≤ (cs.splitOn ':').length)
    (hparts : hextetParts (cs.splitOn ':') = some parts)
    (hread : List.Forall₂ (fun part value => parsePart part = some value) parts values)
    (height : values.length = 8) : parseIpv6 cs = some (ofDigits 65536 values) := by
  have hskip : skipIndex parts = some none := by
    rw [skipIndex, List.filter_eq_nil_iff.2]
    intro i hi
    have hi : i < parts.length := List.mem_range.1 hi
    obtain ⟨value, -, hvalue⟩ := forall₂_mem_left hread (List.getElem_mem hi)
    rw [List.getElem?_eq_getElem hi, Option.map_some, Option.getD_some,
      isEmptyPart_of_parsePart hvalue, Bool.and_false]
    exact Bool.false_ne_true
  have hcount : parts.length = 8 := hread.length_eq.trans height
  have hfew : ¬ 9 < parts.length := by omega
  simp only [parseIpv6, if_neg (Nat.not_lt.2 hlength), hparts, Option.bind_some, if_neg hfew,
    hskip, if_pos hcount, mapM_eq_some.2 hread, Option.map_some]

/-- **Two colons stand for the hextets that are missing.** -/
theorem parseIpv6_of_reads {cs : List Char} (hlength : 3 ≤ (cs.splitOn ':').length)
    (hparts : hextetParts (cs.splitOn ':') = some (before ++ .inl [] :: after))
    (hbefore : Reads before hi) (hafter : Reads after lo) (hfew : hi.length + lo.length ≤ 6) :
    parseIpv6 cs = some (ofDigits 65536
      (hi ++ List.replicate (8 - (hi.length + lo.length)) 0 ++ lo)) := by
  have hle := hbefore.length_le
  have hle' := hafter.length_le
  have htotal : ¬ 9 < (before ++ Sum.inl [] :: after).length := by
    rw [List.length_append, List.length_cons]
    omega
  have hdrop : (before ++ Sum.inl [] :: after).drop (before.length + 1) = after := by
    rw [← List.drop_drop, List.drop_left]
    rfl
  simp only [parseIpv6, if_neg (Nat.not_lt.2 hlength), hparts, Option.bind_some, if_neg htotal,
    skipIndex_reads hbefore hafter, List.take_left, hdrop, hbefore.parseBefore, hafter.parseAfter]
  rw [if_pos (by omega)]

/-! #### The values that are read -/

theorem lt_of_hextetParts {texts : List (List Char)} (h : hextetParts texts = some parts)
    (hpart : part ∈ parts) (hvalue : parsePart part = some value) : value < 65536 := by
  unfold hextetParts at h
  split at h
  · cases h
    cases hpart
  · rename_i last before _
    have hinl : ∀ {text : List Char}, part = .inl text → value < 65536 := by
      rintro text rfl
      exact parseHextet_lt hvalue
    split_ifs at h
    · obtain ⟨ip, hip, rfl⟩ := Option.map_eq_some_iff.1 h
      have hlt := parseIpv4_lt hip
      rcases List.mem_append.1 hpart with hpart | hpart
      · obtain ⟨text, -, rfl⟩ := List.mem_map.1 hpart
        exact hinl rfl
      · simp only [List.mem_cons, List.not_mem_nil, or_false] at hpart
        rcases hpart with rfl | rfl
        · obtain rfl := Option.some.inj hvalue
          omega
        · obtain rfl := Option.some.inj hvalue
          exact Nat.mod_lt _ (by decide)
    · obtain rfl := Option.some.inj h
      obtain ⟨text, -, rfl⟩ := List.mem_map.1 hpart
      exact hinl rfl

theorem exists_of_parseBefore (h : parseBefore parts = some values) (hvalue : value ∈ values) :
    ∃ part ∈ parts, parsePart part = some value := by
  cases parts with
  | nil =>
    cases h
    cases hvalue
  | cons part parts =>
    simp only [Python.parseBefore] at h
    split_ifs at h
    · cases h
      cases hvalue
    · exact forall₂_mem_left (mapM_eq_some.1 h).flip hvalue

theorem exists_of_parseAfter (h : parseAfter parts = some values) (hvalue : value ∈ values) :
    ∃ part ∈ parts, parsePart part = some value := by
  obtain ⟨values', hvalues', rfl⟩ := Option.map_eq_some_iff.1 h
  obtain ⟨part, hpart, hread⟩ := exists_of_parseBefore hvalues' (List.mem_reverse.1 hvalue)
  exact ⟨part, List.mem_reverse.1 hpart, hread⟩

theorem parseIpv6_lt {cs : List Char} {ip : ℕ} (h : parseIpv6 cs = some ip) : ip < 2 ^ 128 := by
  have hlt : ∀ values : List ℕ, values.length = 8 → (∀ value ∈ values, value < 65536) →
      ofDigits 65536 values < 2 ^ 128 := by
    intro values height hvalues
    calc ofDigits 65536 values < 65536 ^ values.length := ofDigits_lt hvalues
      _ = 2 ^ 128 := by
        rw [height]
        decide
  simp only [parseIpv6] at h
  by_cases hshort : (cs.splitOn ':').length < 3
  · rw [if_pos hshort] at h
    cases h
  rw [if_neg hshort] at h
  obtain ⟨parts, hparts, h⟩ := Option.bind_eq_some_iff.1 h
  by_cases hlong : 9 < parts.length
  · rw [if_pos hlong] at h
    cases h
  rw [if_neg hlong] at h
  obtain ⟨skip, -, h⟩ := Option.bind_eq_some_iff.1 h
  cases skip with
  | some skip =>
    -- hextets before the two colons, zeros in their place, and hextets after them
    obtain ⟨hi, hhi, h⟩ := Option.bind_eq_some_iff.1 h
    obtain ⟨lo, hlo, h⟩ := Option.bind_eq_some_iff.1 h
    split_ifs at h with hfew
    obtain rfl := Option.some.inj h
    refine hlt _ (by simp; omega) fun value hvalue => ?_
    rw [List.append_assoc, List.mem_append, List.mem_append] at hvalue
    rcases hvalue with hvalue | hvalue | hvalue
    · obtain ⟨part, hpart, hread⟩ := exists_of_parseBefore hhi hvalue
      exact lt_of_hextetParts hparts (List.mem_of_mem_take hpart) hread
    · rw [List.eq_of_mem_replicate hvalue]
      exact Nat.succ_pos _
    · obtain ⟨part, hpart, hread⟩ := exists_of_parseAfter hlo hvalue
      exact lt_of_hextetParts hparts (List.mem_of_mem_drop hpart) hread
  | none =>
    simp only at h
    split_ifs at h with height
    obtain ⟨values, hvalues, rfl⟩ := Option.map_eq_some_iff.1 h
    have hforall := mapM_eq_some.1 hvalues
    refine hlt _ (hforall.length_eq.symm.trans height) fun value hvalue => ?_
    obtain ⟨part, hpart, hread⟩ := forall₂_mem_left hforall.flip hvalue
    exact lt_of_hextetParts hparts hpart hread

end Reading

/-! #### The text -/

/-- `str(IPv6Address(ip))`, without a scope. -/
def textV6 (ip : ℕ) : String :=
  if ip >>> 32 = 0xffff then writeIpv6 (ip >>> 32) ++ ":" ++ writeIpv4 (ip % 2 ^ 32)
  else writeIpv6 ip

/-- Hextets with colons between them. -/
def colons (values : List ℕ) : List Char := [':'].intercalate (values.map (Nat.toDigits 16))

section Text

variable {ip n : ℕ} {values : List ℕ}

theorem toList_colons (values : List ℕ) :
    (":".intercalate (values.map (toDigits 16))).toList = colons values := by
  have htext : String.toList ∘ toDigits 16 = Nat.toDigits 16 :=
    funext fun n => String.toList_ofList
  rw [String.toList_intercalate, List.map_map, htext]
  rfl

theorem toList_writeIpv6 {start length : ℕ} (h : longestZeros (hextets ip) = (start, length)) :
    (writeIpv6 ip).toList = if length ≤ 1 then colons (hextets ip) else
      colons ((hextets ip).take start) ++
        ':' :: ':' :: colons ((hextets ip).drop (start + length)) := by
  have hzeros : longestZeros ((List.range 8).reverse.map fun i => ip >>> (16 * i) % 65536) =
      (start, length) := h
  simp only [writeIpv6, hzeros]
  split_ifs
  · exact toList_colons (hextets ip)
  · rw [String.toList_append, String.toList_append, toList_colons, toList_colons, List.append_assoc]
    rfl

theorem notMem_toDigits {c : Char} (hc : c ∈ ['.', ':', '%', '/']) :
    c ∉ Nat.toDigits 16 n :=
  fun h => (plain_of_mem_toDigits (by decide) (by decide) h).1 hc

/-- The parts that the colons are between. -/
theorem splitOn_colons (h : values ≠ []) :
    (colons values).splitOn ':' = values.map (Nat.toDigits 16) := by
  refine List.splitOn_intercalate ':' (fun part hpart => ?_) (by simpa using h)
  obtain ⟨n, -, rfl⟩ := List.mem_map.1 hpart
  exact notMem_toDigits (by decide)

theorem forall₂_parsePart (h : ∀ n ∈ values, n < 65536) :
    List.Forall₂ (fun part value => parsePart part = some value)
      ((values.map (Nat.toDigits 16)).map .inl) values := by
  rw [List.map_map, List.forall₂_map_left_iff, List.forall₂_same]
  exact fun n hn => parseHextet_toDigits (h n hn)

theorem reads_colons (h : ∀ n ∈ values, n < 65536) :
    Reads (((colons values).splitOn ':').map .inl) values := by
  by_cases hvalues : values = []
  · subst hvalues
    exact Or.inl ⟨rfl, rfl⟩
  · rw [splitOn_colons hvalues]
    exact Or.inr ⟨by simpa using hvalues, forall₂_parsePart h⟩

theorem dot_notMem_splitOn_colons {part : List Char} (h : part ∈ (colons values).splitOn ':') :
    '.' ∉ part := by
  by_cases hvalues : values = []
  · subst hvalues
    obtain rfl := List.mem_singleton.1 h
    simp
  · rw [splitOn_colons hvalues] at h
    obtain ⟨n, -, rfl⟩ := List.mem_map.1 h
    exact notMem_toDigits (by decide)

theorem hextetParts_eq {parts : List (List Char)} (h : ∀ part ∈ parts, '.' ∉ part) :
    hextetParts parts = some (parts.map .inl) := by
  unfold hextetParts
  split
  · rename_i hnil
    rw [List.reverse_eq_nil_iff.1 hnil]
    rfl
  · rename_i last before hcons
    have hlast : last ∈ parts := by
      rw [← List.mem_reverse, hcons]
      exact List.mem_cons_self
    rw [if_neg (h last hlast)]

theorem parseIpv6_twoColons {before after : List ℕ} (hbefore : ∀ n ∈ before, n < 65536)
    (hafter : ∀ n ∈ after, n < 65536) (hfew : before.length + after.length ≤ 6) :
    parseIpv6 (colons before ++ ':' :: ':' :: colons after) = some (ofDigits 65536
      (before ++ List.replicate (8 - (before.length + after.length)) 0 ++ after)) := by
  have hsplit : (colons before ++ ':' :: ':' :: colons after).splitOn ':' =
      (colons before).splitOn ':' ++ [] :: (colons after).splitOn ':' := by
    rw [List.splitOn_append_cons_self, ← List.nil_append (':' :: colons after),
      List.splitOn_append_cons_self, List.splitOn_nil]
    rfl
  have hparts : hextetParts ((colons before).splitOn ':' ++ [] :: (colons after).splitOn ':') =
      some (((colons before).splitOn ':').map .inl ++
        .inl [] :: ((colons after).splitOn ':').map .inl) := by
    rw [hextetParts_eq, List.map_append, List.map_cons]
    intro part hpart
    rcases List.mem_append.1 hpart with hpart | hpart
    · exact dot_notMem_splitOn_colons hpart
    · rcases List.mem_cons.1 hpart with rfl | hpart
      · simp
      · exact dot_notMem_splitOn_colons hpart
  have hpos := List.length_pos_iff.2 (List.splitOn_ne_nil ':' (colons before))
  have hpos' := List.length_pos_iff.2 (List.splitOn_ne_nil ':' (colons after))
  have hlength : 3 ≤ ((colons before ++ ':' :: ':' :: colons after).splitOn ':').length := by
    rw [hsplit, List.length_append, List.length_cons]
    omega
  rw [← hsplit] at hparts
  exact parseIpv6_of_reads hlength hparts (reads_colons hbefore) (reads_colons hafter) hfew

theorem parseIpv6_writeIpv6 (h : ip < 2 ^ 128) : parseIpv6 (writeIpv6 ip).toList = some ip := by
  obtain ⟨⟨start, length⟩, hzeros⟩ : ∃ run, longestZeros (hextets ip) = run := ⟨_, rfl⟩
  have hrun : ZeroRun (hextets ip) (start, length) := hzeros ▸ zeroRun_longestZeros (hextets ip)
  have hlt : ∀ n ∈ hextets ip, n < 65536 := fun n hn => lt_of_mem_hextets hn
  rw [toList_writeIpv6 hzeros]
  split_ifs with hshort
  · have hne : hextets ip ≠ [] := List.ne_nil_of_length_pos (by simp)
    have hsplit := splitOn_colons hne
    have hparts : hextetParts ((colons (hextets ip)).splitOn ':') =
        some (((colons (hextets ip)).splitOn ':').map .inl) :=
      hextetParts_eq fun part hpart => dot_notMem_splitOn_colons hpart
    have hread := forall₂_parsePart hlt
    rw [← hsplit] at hread
    rw [parseIpv6_of_forall₂ (by simp [hsplit]) hparts hread (length_hextets ip),
      ofDigits_hextets h]
  · have hend : start + length ≤ 8 := hrun.1
    have hbefore : ((hextets ip).take start).length = start := by
      rw [List.length_take, length_hextets]
      omega
    have hafter : ((hextets ip).drop (start + length)).length = 8 - (start + length) := by
      rw [List.length_drop, length_hextets]
    have hmissing : 8 - (start + (8 - (start + length))) = length := by omega
    rw [parseIpv6_twoColons (fun n hn => hlt n (List.mem_of_mem_take hn))
      (fun n hn => hlt n (List.mem_of_mem_drop hn)) (by omega), hbefore, hafter, hmissing,
      ← hrun.eq_append, ofDigits_hextets h]

/-- **An address that may end in an IPv4 address.** -/
theorem parseIpv6_textV6 (h : ip < 2 ^ 128) : parseIpv6 (textV6 ip).toList = some ip := by
  rw [textV6]
  split_ifs with hmapped
  · obtain ⟨v, hv⟩ : ∃ v, ip % 2 ^ 32 = v := ⟨_, rfl⟩
    have hlt : v < 2 ^ 32 := hv ▸ Nat.mod_lt _ (by decide)
    have hip : ip = 0xffff * 2 ^ 32 + v := by
      rw [Nat.shiftRight_eq_div_pow] at hmapped
      omega
    have hfront : (writeIpv6 0xffff).toList = [':', ':', 'f', 'f', 'f', 'f'] := by decide +kernel
    have hparse := parseIpv4_writeIpv4 hlt
    have hcolon : ':' ∉ (writeIpv4 v).toList := fun hmem => by
      rw [parseIpv4_of_colon hmem] at hparse
      cases hparse
    have hdot : '.' ∈ (writeIpv4 v).toList := by
      rw [toList_writeIpv4, List.map_cons, List.map_cons, List.intercalate_cons_cons]
      simp
    have htext : (writeIpv6 (ip >>> 32) ++ ":" ++ writeIpv4 (ip % 2 ^ 32)).toList =
        [] ++ ':' :: ([] ++ ':' :: (['f', 'f', 'f', 'f'] ++ ':' :: (writeIpv4 v).toList)) := by
      rw [hmapped, hv, String.toList_append, String.toList_append, hfront]
      rfl
    -- the parts are two empty ones, `ffff`, and the IPv4 address, which counts as two
    have hsplit : ((writeIpv6 (ip >>> 32) ++ ":" ++ writeIpv4 (ip % 2 ^ 32)).toList).splitOn ':' =
        [[], [], ['f', 'f', 'f', 'f'], (writeIpv4 v).toList] := by
      rw [htext, List.splitOn_append_cons_self, List.splitOn_append_cons_self,
        List.splitOn_append_cons_self, List.splitOn_eq_singleton hcolon]
      rfl
    have hparts : hextetParts [[], [], ['f', 'f', 'f', 'f'], (writeIpv4 v).toList] =
        some ([.inl []] ++ .inl [] ::
          [.inl ['f', 'f', 'f', 'f'], .inr (v / 65536), .inr (v % 65536)]) := by
      simp only [hextetParts, List.reverse_cons, List.reverse_nil, List.nil_append,
        List.cons_append, if_pos hdot, hparse, Option.map_some]
      rfl
    have hread : Reads [.inl ['f', 'f', 'f', 'f'], .inr (v / 65536), .inr (v % 65536)]
        [0xffff, v / 65536, v % 65536] :=
      Or.inr ⟨List.cons_ne_nil _ _, .cons (by decide) (.cons rfl (.cons rfl .nil))⟩
    have hvalue : ofDigits 65536 [0xffff, v / 65536, v % 65536] = ip := by
      show ((0 * 65536 + 0xffff) * 65536 + v / 65536) * 65536 + v % 65536 = ip
      omega
    rw [parseIpv6_of_reads (by rw [hsplit]; exact Nat.le_succ 3) (hsplit ▸ hparts)
      (Or.inl ⟨rfl, rfl⟩) hread (Nat.le_add_left 3 3), List.nil_append, ofDigits_zeros, hvalue]
  · exact parseIpv6_writeIpv6 h

/-- A text of an address has no separator of a scope or of a network, and no white space. -/
def PlainText (cs : List Char) : Prop := ∀ c ∈ cs, c ∉ ['%', '/'] ∧ isSpace c = false

theorem PlainText.append {cs cs' : List Char} (h : PlainText cs) (h' : PlainText cs') :
    PlainText (cs ++ cs') := fun c hc => (List.mem_append.1 hc).elim (h c) (h' c)

theorem plainText_intercalate {sep : Char} {parts : List (List Char)}
    (hsep : sep ∉ ['%', '/'] ∧ isSpace sep = false) (h : ∀ part ∈ parts, PlainText part) :
    PlainText ([sep].intercalate parts) := by
  intro c hc
  by_cases heq : c = sep
  · exact heq ▸ hsep
  · obtain ⟨part, hpart, hin⟩ := (mem_intercalate heq).1 hc
    exact h part hpart c hin

theorem plainText_toDigits {base : ℕ} (hbase : 1 < base) (hle : base ≤ 16) :
    PlainText (Nat.toDigits base n) := by
  intro c hc
  obtain ⟨hplain, hspace⟩ := plain_of_mem_toDigits hbase hle hc
  exact ⟨fun hmem => hplain (List.mem_of_mem_drop (i := 2) hmem), hspace⟩

theorem plainText_colons (values : List ℕ) : PlainText (colons values) := by
  refine plainText_intercalate (by decide) fun part hpart => ?_
  obtain ⟨n, -, rfl⟩ := List.mem_map.1 hpart
  exact plainText_toDigits (by decide) (by decide)

theorem plainText_writeIpv4 (ip : ℕ) : PlainText (writeIpv4 ip).toList := by
  rw [toList_writeIpv4]
  refine plainText_intercalate (by decide) fun part hpart => ?_
  obtain ⟨n, -, rfl⟩ := List.mem_map.1 hpart
  exact plainText_toDigits (by decide) (by decide)

theorem plainText_textV6 (ip : ℕ) : PlainText (textV6 ip).toList := by
  have hcolon : PlainText [':'] := by
    intro c hc
    obtain rfl := List.mem_singleton.1 hc
    decide
  have hwrite : ∀ ip, PlainText (writeIpv6 ip).toList := by
    intro ip
    obtain ⟨⟨start, length⟩, hzeros⟩ : ∃ run, longestZeros (hextets ip) = run := ⟨_, rfl⟩
    rw [toList_writeIpv6 hzeros]
    split_ifs
    · exact plainText_colons _
    · rw [← List.singleton_append, ← List.singleton_append (l := colons _)]
      exact (plainText_colons _).append (hcolon.append (hcolon.append (plainText_colons _)))
  rw [textV6]
  split_ifs
  · rw [String.toList_append, String.toList_append]
    exact ((hwrite _).append hcolon).append (plainText_writeIpv4 _)
  · exact hwrite ip

end Text

/-! ### Addresses -/

/-- What `ip_address` returns: the integer fits the version, and a scope is a text that is not empty
and has no separator in it. -/
def IpAddress.WellFormed : IpAddress → Prop
  | .v4 ip => ip < 2 ^ 32
  | .v6 ip scopeId => ip < 2 ^ 128 ∧
    ∀ scope ∈ scopeId, scope ≠ "" ∧ '%' ∉ scope.toList ∧ '/' ∉ scope.toList

section Addresses

variable {a b : IpAddress} {s : String} {cs : List Char} {ip : ℕ}

theorem str_v6_none (ip : ℕ) : (IpAddress.v6 ip none).str = textV6 ip := rfl

theorem str_v6_some (ip : ℕ) (scope : String) :
    (IpAddress.v6 ip (some scope)).str = textV6 ip ++ "%" ++ scope := rfl

theorem colon_mem_of_parseIpv6 (h : parseIpv6 cs = some ip) : ':' ∈ cs := by
  by_contra hnot
  simp only [parseIpv6, List.splitOn_eq_singleton hnot] at h
  cases h

/-- **Every address is read from its text.** -/
theorem ipAddress_str (h : a.WellFormed) : ipAddress a.str = some a := by
  cases a with
  | v4 ip =>
    have hslash : '/' ∉ (writeIpv4 ip).toList := fun hmem =>
      (plainText_writeIpv4 ip '/' hmem).1 (by decide)
    simp only [ipAddress, IpAddress.str, if_neg hslash, parseIpv4_writeIpv4 h]
  | v6 ip scopeId =>
    obtain ⟨hip, hscope⟩ := h
    have hparse := parseIpv6_textV6 hip
    have hcolon := colon_mem_of_parseIpv6 hparse
    have hplain := plainText_textV6 ip
    have hslash : '/' ∉ (textV6 ip).toList := fun hmem => (hplain '/' hmem).1 (by decide)
    have hpercent : '%' ∉ (textV6 ip).toList := fun hmem => (hplain '%' hmem).1 (by decide)
    cases scopeId with
    | none =>
      have hsplit : splitScopeId (textV6 ip).toList = some ((textV6 ip).toList, none) := by
        rw [splitScopeId, List.splitOn_eq_singleton hpercent]
      rw [str_v6_none]
      simp only [ipAddress, if_neg hslash, parseIpv4_of_colon hcolon, hsplit, Option.bind_some,
        hparse, Option.map_some]
    | some scope =>
      obtain ⟨hne, hpercent', hslash'⟩ := hscope scope rfl
      have htext : (textV6 ip ++ "%" ++ scope).toList =
          (textV6 ip).toList ++ '%' :: scope.toList := by
        rw [String.toList_append, String.toList_append, List.append_assoc]
        rfl
      -- the scope brings neither a slash nor another percent sign
      have hmem : ∀ {c}, c ≠ '%' → (c ∈ (textV6 ip).toList ++ '%' :: scope.toList ↔
          c ∈ (textV6 ip).toList ∨ c ∈ scope.toList) := by
        intro c hc
        rw [List.mem_append, List.mem_cons, or_iff_right hc]
      have hsplit : splitScopeId ((textV6 ip).toList ++ '%' :: scope.toList) =
          some ((textV6 ip).toList, some scope) := by
        have hnonempty : scope.toList ≠ [] := fun hnil => hne (String.toList_eq_nil_iff.1 hnil)
        rw [splitScopeId, List.splitOn_append_cons_self, List.splitOn_eq_singleton hpercent,
          List.splitOn_eq_singleton hpercent', List.singleton_append]
        simp only [if_neg hnonempty, String.ofList_toList]
      have hslash'' : ¬ '/' ∈ (textV6 ip).toList ++ '%' :: scope.toList := by
        rw [hmem (by decide)]
        exact fun h => h.elim hslash hslash'
      have hcolon' : ':' ∈ (textV6 ip).toList ++ '%' :: scope.toList :=
        List.mem_append_left _ hcolon
      rw [str_v6_some]
      simp only [ipAddress, htext, if_neg hslash'', parseIpv4_of_colon hcolon', hsplit,
        Option.bind_some, hparse, Option.map_some]

theorem splitScopeId_eq_some {addr : List Char} {scope : String}
    (h : splitScopeId cs = some (addr, some scope)) :
    cs = addr ++ '%' :: scope.toList ∧ scope ≠ "" ∧ '%' ∉ scope.toList := by
  unfold splitScopeId at h
  split at h
  · cases h
  · rename_i addr' scopeId hsplit
    split_ifs at h with hne
    cases h
    refine ⟨?_, fun hempty => hne ?_, ?_⟩
    · have hjoin : ['%'].intercalate (cs.splitOn '%') = cs := List.intercalate_splitOn '%'
      rw [← hjoin, hsplit, String.toList_ofList, List.intercalate_cons_cons,
        List.intercalate_singleton, List.append_assoc, List.singleton_append]
    · rw [← String.toList_ofList (l := scopeId), hempty]
      rfl
    · rw [String.toList_ofList]
      exact notMem_of_mem_splitOn (hsplit ▸ List.mem_cons_of_mem _ List.mem_cons_self)
  · cases h

theorem wellFormed_of_ipAddress (h : ipAddress s = some a) : a.WellFormed := by
  simp only [ipAddress] at h
  split_ifs at h with hslash
  split at h
  · rename_i ip hip
    obtain rfl := Option.some.inj h
    exact parseIpv4_lt hip
  · obtain ⟨⟨addr, scopeId⟩, hscope, h⟩ := Option.bind_eq_some_iff.1 h
    obtain ⟨ip, hip, rfl⟩ := Option.map_eq_some_iff.1 h
    refine ⟨parseIpv6_lt hip, fun scope hmem => ?_⟩
    obtain rfl : scopeId = some scope := hmem
    obtain ⟨htext, hne, hpercent⟩ := splitScopeId_eq_some hscope
    exact ⟨hne, hpercent, fun hin => hslash (htext ▸ by simp [hin])⟩

/-- The scope of an address that was read is what follows the percent sign. -/
theorem scope_of_ipAddress {scope : String} (h : ipAddress s = some (.v6 ip (some scope))) :
    ∃ addr, s.toList = addr ++ '%' :: scope.toList ∧ scope ≠ "" := by
  simp only [ipAddress] at h
  split_ifs at h
  split at h
  · cases h
  · obtain ⟨⟨addr, scopeId⟩, hscope, h⟩ := Option.bind_eq_some_iff.1 h
    obtain ⟨ip', -, haddress⟩ := Option.map_eq_some_iff.1 h
    cases haddress
    obtain ⟨htext, hne, -⟩ := splitScopeId_eq_some hscope
    exact ⟨addr, htext, hne⟩

/-- **Two addresses with one text are one address.** -/
theorem str_inj (ha : a.WellFormed) (hb : b.WellFormed) : a.str = b.str ↔ a = b :=
  ⟨fun h => Option.some.inj ((ipAddress_str ha).symm.trans (h ▸ ipAddress_str hb)),
    congrArg IpAddress.str⟩

end Addresses

end FirecrawlLb.Python
