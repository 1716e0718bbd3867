import Mathlib.Order.Compare
import Mathlib.Order.Lattice
import Mathlib.Data.Option.Basic

/-!
# Comparisons that may fail

A comparison says how two values stand, or fails.  It is lawful when it is reflexive, gives the
swapped answer to swapped values, and never fails on two values that it has compared with a third
one, as far as their order follows from that.  The comparisons by a key, by one criterion after
another and of lists, element by element, are lawful when those they are made of are.
-/

namespace FirecrawlLb.Lib

/-- The first answer, or the second one when the first is that the values are equal. -/
def andThen : Option Ordering → Option Ordering → Option Ordering
  | some .eq, second => second
  | first, _ => first

/-- What the answers about `x, y` and `y, z` say about that on `x, z`. -/
structure Composes (xy yz xz : Option Ordering) : Prop where
  left : ∀ o, xy = some .eq → yz = some o → xz = some o
  right : ∀ o, yz = some .eq → xy = some o → xz = some o
  lt : xy = some .lt → yz = some .lt → xz = some .lt

/-- A lawful comparison. -/
structure LawfulCmp {α : Type*} (cmp : α → α → Option Ordering) : Prop where
  self : ∀ x, cmp x x = some .eq
  swap : ∀ x y o, cmp x y = some o → cmp y x = some o.swap
  composes : ∀ x y z, Composes (cmp x y) (cmp y z) (cmp x z)

section Answers

variable {a b : Option Ordering} {o : Ordering}

theorem andThen_eq_some : andThen a b = some o ↔
    (a = some .eq ∧ b = some o) ∨ (a = some o ∧ o ≠ .eq) := by
  rcases a with _ | ⟨_ | _ | _⟩ <;> cases o <;> simp [andThen]

theorem andThen_swap {a' b' : Option Ordering} (ha : ∀ o, a = some o → a' = some o.swap)
    (hb : ∀ o, b = some o → b' = some o.swap) (h : andThen a b = some o) :
    andThen a' b' = some o.swap := by
  rcases andThen_eq_some.1 h with ⟨heq, hsecond⟩ | ⟨hfirst, hne⟩
  · exact andThen_eq_some.2 (Or.inl ⟨ha _ heq, hb _ hsecond⟩)
  · exact andThen_eq_some.2 (Or.inr ⟨ha _ hfirst, by cases o <;> simp_all⟩)

theorem Composes.andThen {p q r p' q' r' : Option Ordering} (h : Composes p q r)
    (h' : p = some .eq → q = some .eq → Composes p' q' r') :
    Composes (andThen p p') (andThen q q') (andThen r r') := by
  refine ⟨fun o hp hq => ?_, fun o hq hp => ?_, fun hp hq => ?_⟩
  · obtain ⟨heq, hsecond⟩ : p = some .eq ∧ p' = some .eq := by simpa [andThen_eq_some] using hp
    rcases andThen_eq_some.1 hq with ⟨hq, hq'⟩ | ⟨hq, hne⟩
    · exact andThen_eq_some.2 (Or.inl ⟨h.left _ heq hq, (h' heq hq).left o hsecond hq'⟩)
    · exact andThen_eq_some.2 (Or.inr ⟨h.left o heq hq, hne⟩)
  · obtain ⟨heq, hsecond⟩ : q = some .eq ∧ q' = some .eq := by simpa [andThen_eq_some] using hq
    rcases andThen_eq_some.1 hp with ⟨hp, hp'⟩ | ⟨hp, hne⟩
    · exact andThen_eq_some.2 (Or.inl ⟨h.right _ heq hp, (h' hp heq).right o hsecond hp'⟩)
    · exact andThen_eq_some.2 (Or.inr ⟨h.right o heq hp, hne⟩)
  · rcases andThen_eq_some.1 hp with ⟨hp, hp'⟩ | ⟨hp, -⟩
    · rcases andThen_eq_some.1 hq with ⟨hq, hq'⟩ | ⟨hq, hne⟩
      · exact andThen_eq_some.2 (Or.inl ⟨h.left _ hp hq, (h' hp hq).lt hp' hq'⟩)
      · exact andThen_eq_some.2 (Or.inr ⟨h.left _ hp hq, hne⟩)
    · rcases andThen_eq_some.1 hq with ⟨hq, -⟩ | ⟨hq, hne⟩
      · exact andThen_eq_some.2 (Or.inr ⟨h.right _ hq hp, by simp⟩)
      · exact andThen_eq_some.2 (Or.inr ⟨h.lt hp hq, hne⟩)

end Answers

/-! ### Comparisons made of others -/

/-- Lists compare by their first elements that differ; the beginning of a list is less. -/
def lexCmp {α : Type*} (cmp : α → α → Option Ordering) : List α → List α → Option Ordering
  | [], [] => some .eq
  | [], _ :: _ => some .lt
  | _ :: _, [] => some .gt
  | x :: xs, y :: ys => andThen (cmp x y) (lexCmp cmp xs ys)

/-- Values that are there compare; a missing one is the greatest. -/
def topCmp {α : Type*} (cmp : α → α → Option Ordering) : Option α → Option α → Option Ordering
  | none, none => some .eq
  | none, some _ => some .gt
  | some _, none => some .lt
  | some x, some y => cmp x y

/-- The comparison of a linear order, which does not fail. -/
def orderCmp {α : Type*} [LinearOrder α] (x y : α) : Option Ordering := some (cmp x y)

section OrderCmp

variable {α : Type*} [LinearOrder α] {x y : α}

@[simp] theorem orderCmp_eq_lt : orderCmp x y = some .lt ↔ x < y :=
  Option.some_inj.trans (cmp_eq_lt_iff x y)

@[simp] theorem orderCmp_eq_eq : orderCmp x y = some .eq ↔ x = y :=
  Option.some_inj.trans (cmp_eq_eq_iff x y)

@[simp] theorem orderCmp_eq_gt : orderCmp x y = some .gt ↔ y < x :=
  Option.some_inj.trans (cmp_eq_gt_iff x y)

end OrderCmp

theorem lawfulCmp_orderCmp {α : Type*} [LinearOrder α] :
    LawfulCmp (orderCmp : α → α → Option Ordering) := by
  refine ⟨fun x => orderCmp_eq_eq.2 rfl, fun x y o h => ?_, fun x y z =>
    ⟨fun o hxy hyz => ?_, fun o hyz hxy => ?_, fun hxy hyz => ?_⟩⟩
  · rw [← Option.some.inj h, cmp_swap]
    rfl
  · obtain rfl := orderCmp_eq_eq.1 hxy
    exact hyz
  · obtain rfl := orderCmp_eq_eq.1 hyz
    exact hxy
  · exact orderCmp_eq_lt.2 ((orderCmp_eq_lt.1 hxy).trans (orderCmp_eq_lt.1 hyz))

/-- Values compare by a key, which some have not; a value is equal to itself in any case. -/
def keyCmp {α β : Type*} [DecidableEq α] (key : α → Option β) (cmp : β → β → Option Ordering)
    (x y : α) : Option Ordering :=
  if x = y then some .eq else (key x).bind fun k => (key y).bind fun l => cmp k l

/-- Values of the first kind are less than the others; each kind has its own comparison. -/
def kindCmp {α : Type*} (first : α → Bool) (cmp cmp' : α → α → Option Ordering) (x y : α) :
    Option Ordering :=
  match first x, first y with
  | true, true => cmp x y
  | true, false => some .lt
  | false, true => some .gt
  | false, false => cmp' x y

section Lawful

variable {α β : Type*} {cmp cmp' : α → α → Option Ordering}

theorem LawfulCmp.on (h : LawfulCmp cmp) (f : β → α) : LawfulCmp fun x y => cmp (f x) (f y) :=
  ⟨fun x => h.self (f x), fun x y => h.swap (f x) (f y), fun x y z =>
    h.composes (f x) (f y) (f z)⟩

/-- **One criterion after another.** -/
theorem LawfulCmp.andThen (h : LawfulCmp cmp) (h' : LawfulCmp cmp') :
    LawfulCmp fun x y => andThen (cmp x y) (cmp' x y) :=
  ⟨fun x => andThen_eq_some.2 (Or.inl ⟨h.self x, h'.self x⟩),
    fun x y _ => andThen_swap (h.swap x y) (h'.swap x y),
    fun x y z => (h.composes x y z).andThen fun _ _ => h'.composes x y z⟩

/-- **Lists, element by element.** -/
theorem LawfulCmp.lexCmp (h : LawfulCmp cmp) : LawfulCmp (lexCmp cmp) := by
  refine ⟨fun xs => ?_, fun xs => ?_, fun xs => ?_⟩
  · induction xs with
    | nil => rfl
    | cons x xs ih => exact andThen_eq_some.2 (Or.inl ⟨h.self x, ih⟩)
  · induction xs with
    | nil => intro ys o heq; cases ys <;> obtain rfl := Option.some.inj heq <;> rfl
    | cons x xs ih =>
      intro ys o heq
      cases ys with
      | nil => obtain rfl := Option.some.inj heq; rfl
      | cons y ys => exact andThen_swap (h.swap x y) (fun o => ih ys o) heq
  · induction xs with
    | nil => intro ys zs; cases ys <;> cases zs <;> constructor <;> simp [Lib.lexCmp]
    | cons x xs ih =>
      intro ys zs
      cases ys with
      | nil => cases zs <;> constructor <;> simp [Lib.lexCmp]
      | cons y ys =>
        cases zs with
        | nil => constructor <;> simp [Lib.lexCmp]
        | cons z zs => exact (h.composes x y z).andThen fun _ _ => ih ys zs

theorem LawfulCmp.topCmp (h : LawfulCmp cmp) : LawfulCmp (topCmp cmp) := by
  refine ⟨fun x => ?_, fun x y o => ?_, fun x y z => ?_⟩
  · cases x with
    | none => rfl
    | some x => exact h.self x
  · rcases x with _ | x <;> rcases y with _ | y
    · rintro ⟨⟩; rfl
    · rintro ⟨⟩; rfl
    · rintro ⟨⟩; rfl
    · exact h.swap x y o
  · rcases x with _ | x <;> rcases y with _ | y <;> rcases z with _ | z
    all_goals first
      | exact h.composes _ _ _
      | constructor <;> simp [Lib.topCmp]

theorem keyCmp_eq_some [DecidableEq β] {key : β → Option α} {x y : β} {o : Ordering} :
    keyCmp key cmp x y = some o ↔ (x = y ∧ o = .eq) ∨
      (x ≠ y ∧ ∃ k l, key x = some k ∧ key y = some l ∧ cmp k l = some o) := by
  unfold keyCmp
  split_ifs with heq
  · simp [heq, eq_comm]
  · simp [heq, Option.bind_eq_some_iff]

theorem keyCmp_of_key [DecidableEq β] (h : LawfulCmp cmp) {key : β → Option α} {x y : β} {k l : α}
    (hx : key x = some k) (hy : key y = some l) : keyCmp key cmp x y = cmp k l := by
  unfold keyCmp
  split_ifs with heq
  · subst heq
    rw [hx] at hy
    rw [← Option.some.inj hy, h.self]
  · rw [hx, hy, Option.bind_some, Option.bind_some]

/-- **A key that may be missing.** -/
theorem LawfulCmp.keyCmp [DecidableEq β] (h : LawfulCmp cmp) (key : β → Option α) :
    LawfulCmp (keyCmp key cmp) := by
  refine ⟨fun x => keyCmp_eq_some.2 (Or.inl ⟨rfl, rfl⟩), fun x y o hxy => ?_, fun x y z =>
    ⟨fun o hxy hyz => ?_, fun o hyz hxy => ?_, fun hxy hyz => ?_⟩⟩
  · rcases keyCmp_eq_some.1 hxy with ⟨rfl, rfl⟩ | ⟨-, k, l, hx, hy, hkl⟩
    · exact hxy
    · rw [keyCmp_of_key h hy hx, h.swap k l o hkl]
  · rcases keyCmp_eq_some.1 hxy with ⟨rfl, -⟩ | ⟨-, k, l, hx, hy, hkl⟩
    · exact hyz
    · rcases keyCmp_eq_some.1 hyz with ⟨rfl, rfl⟩ | ⟨-, l', m, hy', hz, hlm⟩
      · exact hxy
      · obtain rfl : l = l' := Option.some.inj (hy.symm.trans hy')
        rw [keyCmp_of_key h hx hz, (h.composes k l m).left o hkl hlm]
  · rcases keyCmp_eq_some.1 hyz with ⟨rfl, -⟩ | ⟨-, l, m, hy, hz, hlm⟩
    · exact hxy
    · rcases keyCmp_eq_some.1 hxy with ⟨rfl, rfl⟩ | ⟨-, k, l', hx, hy', hkl⟩
      · exact hyz
      · obtain rfl : l = l' := Option.some.inj (hy.symm.trans hy')
        rw [keyCmp_of_key h hx hz, (h.composes k l m).right o hlm hkl]
  · rcases keyCmp_eq_some.1 hxy with ⟨-, heq⟩ | ⟨-, k, l, hx, hy, hkl⟩
    · cases heq
    · rcases keyCmp_eq_some.1 hyz with ⟨-, heq⟩ | ⟨-, l', m, hy', hz, hlm⟩
      · cases heq
      · obtain rfl : l = l' := Option.some.inj (hy.symm.trans hy')
        rw [keyCmp_of_key h hx hz, (h.composes k l m).lt hkl hlm]

/-- **Two kinds of values.** -/
theorem LawfulCmp.kindCmp (h : LawfulCmp cmp) (h' : LawfulCmp cmp') (first : α → Bool) :
    LawfulCmp (kindCmp first cmp cmp') := by
  refine ⟨fun x => ?_, fun x y o => ?_, fun x y z => ?_⟩
  · unfold Lib.kindCmp
    cases first x with
    | true => exact h.self x
    | false => exact h'.self x
  · unfold Lib.kindCmp
    cases first x <;> cases first y
    · exact h'.swap x y o
    · rintro ⟨⟩; rfl
    · rintro ⟨⟩; rfl
    · exact h.swap x y o
  · unfold Lib.kindCmp
    cases first x <;> cases first y <;> cases first z
    all_goals first
      | exact h.composes x y z
      | exact h'.composes x y z
      | constructor <;> simp

/-! ### The strict weak order -/

section Order

variable {x y z : α}

theorem LawfulCmp.gt_trans (h : LawfulCmp cmp) (hxy : cmp x y = some .gt)
    (hyz : cmp y z = some .gt) : cmp x z = some .gt :=
  h.swap z x .lt ((h.composes z y x).lt (h.swap y z .gt hyz) (h.swap x y .gt hxy))

theorem LawfulCmp.eq_trans (h : LawfulCmp cmp) (hxy : cmp x y = some .eq)
    (hyz : cmp y z = some .eq) : cmp x z = some .eq := (h.composes x y z).left _ hxy hyz

end Order

end Lawful

end FirecrawlLb.Lib
