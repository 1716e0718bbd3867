import Mathlib.Data.List.Forall2

/-!
# Lists of results

Running a function that may fail over a list, and reading a chain of such functions backwards.
-/

namespace FirecrawlLb.Lib

universe u v

variable {ε : Type u} {α β : Type v}

theorem bind_eq_ok {x : Except ε α} {f : α → Except ε β} {b : β} :
    x >>= f = .ok b ↔ ∃ a, x = .ok a ∧ f a = .ok b := by
  cases x <;> simp [bind, Except.bind]

theorem bind_eq_error {x : Except ε α} {f : α → Except ε β} {e : ε} :
    x >>= f = .error e ↔ x = .error e ∨ ∃ a, x = .ok a ∧ f a = .error e := by
  cases x <;> simp [bind, Except.bind]

theorem pure_eq_ok {a b : α} : (pure a : Except ε α) = .ok b ↔ a = b := by
  simp [pure, Except.pure]

theorem map_eq_ok {x : Except ε α} {f : α → β} {b : β} :
    x.map f = .ok b ↔ ∃ a, x = .ok a ∧ f a = b := by
  cases x <;> simp [Except.map]

theorem mapError_eq_ok {ε' : Type u} {x : Except ε α} {f : ε → ε'} {a : α} :
    x.mapError f = .ok a ↔ x = .ok a := by
  cases x <;> simp [Except.mapError]

theorem toOption_eq_some {x : Except ε α} {a : α} : x.toOption = some a ↔ x = .ok a := by
  cases x <;> simp [Except.toOption]

theorem ite_ok {p : Prop} [Decidable p] {a b : α} {x : Except ε α} (hx : x = .ok b) :
    (if p then .ok a else x) = .ok (if p then a else b) := by
  rw [hx, apply_ite Except.ok]

/-- Two tests that succeed alike and fail alike agree when they have the same result. -/
theorem ite_ok_error_inj {p q : Prop} [Decidable p] [Decidable q] {a : α} {e : ε} :
    ((if p then .ok a else .error e : Except ε α) = if q then .ok a else .error e) ↔ (q ↔ p) := by
  by_cases hp : p <;> by_cases hq : q <;> simp [hp, hq]

/-- **The results of a list**, one for each element, when none fails. -/
theorem mapM_eq_ok {f : α → Except ε β} {l : List α} {l' : List β} :
    l.mapM f = .ok l' ↔ List.Forall₂ (fun a b => f a = .ok b) l l' := by
  induction l generalizing l' with
  | nil =>
    rw [List.mapM_nil, pure_eq_ok]
    constructor
    · rintro rfl
      exact .nil
    · rintro ⟨⟩
      rfl
  | cons a l ih =>
    rw [List.mapM_cons, bind_eq_ok]
    constructor
    · rintro ⟨b, hb, h⟩
      obtain ⟨bs, hbs, h⟩ := bind_eq_ok.1 h
      obtain rfl := pure_eq_ok.1 h
      exact .cons hb (ih.1 hbs)
    · rintro (⟨⟩ | ⟨hb, hbs⟩)
      exact ⟨_, hb, bind_eq_ok.2 ⟨_, ih.2 hbs, rfl⟩⟩

theorem mapM_eq_some {f : α → Option β} {l : List α} {l' : List β} :
    l.mapM f = some l' ↔ List.Forall₂ (fun a b => f a = some b) l l' := by
  induction l generalizing l' with
  | nil =>
    rw [List.mapM_nil]
    constructor
    · rintro ⟨⟩
      exact .nil
    · rintro ⟨⟩
      rfl
  | cons a l ih =>
    rw [List.mapM_cons, Option.bind_eq_bind, Option.bind_eq_some_iff]
    constructor
    · rintro ⟨b, hb, h⟩
      obtain ⟨bs, hbs, h⟩ := Option.bind_eq_some_iff.1 h
      obtain rfl := Option.some.inj h
      exact .cons hb (ih.1 hbs)
    · rintro (⟨⟩ | ⟨hb, hbs⟩)
      exact ⟨_, hb, Option.bind_eq_some_iff.2 ⟨_, ih.2 hbs, rfl⟩⟩

theorem mapM_isOk {f : α → Except ε β} {l : List α} (h : ∀ a ∈ l, ∃ b, f a = .ok b) :
    ∃ l', l.mapM f = .ok l' := by
  induction l with
  | nil => exact ⟨[], rfl⟩
  | cons a l ih =>
    obtain ⟨b, hb⟩ := h a (by simp)
    obtain ⟨bs, hbs⟩ := ih fun a' ha' => h a' (by simp [ha'])
    exact ⟨b :: bs, mapM_eq_ok.2 (.cons hb (mapM_eq_ok.1 hbs))⟩

theorem exists_of_mapM_eq_error {f : α → Except ε β} {l : List α} {e : ε}
    (h : l.mapM f = .error e) : ∃ a ∈ l, f a = .error e := by
  induction l with
  | nil => cases h
  | cons a l ih =>
    rw [List.mapM_cons] at h
    rcases bind_eq_error.1 h with ha | ⟨b, -, h⟩
    · exact ⟨a, by simp, ha⟩
    · rcases bind_eq_error.1 h with hl | ⟨bs, -, h⟩
      · obtain ⟨a', ha', he⟩ := ih hl
        exact ⟨a', by simp [ha'], he⟩
      · cases h

theorem forall₂_mem_left {R : α → β → Prop} {l : List α} {l' : List β} (h : List.Forall₂ R l l')
    {a : α} (ha : a ∈ l) : ∃ b ∈ l', R a b := by
  induction h with
  | nil => simp at ha
  | cons hab _ ih =>
    rcases List.mem_cons.1 ha with rfl | ha
    · exact ⟨_, List.mem_cons_self, hab⟩
    · obtain ⟨b, hb, hR⟩ := ih ha
      exact ⟨b, List.mem_cons_of_mem _ hb, hR⟩

theorem exists_of_mem_mapM {f : α → Except ε β} {l : List α} {l' : List β}
    (h : l.mapM f = .ok l') {b : β} (hb : b ∈ l') : ∃ a ∈ l, f a = .ok b :=
  forall₂_mem_left (mapM_eq_ok.1 h).flip hb

theorem mapM_eq_ok_map {f : α → Except ε β} {p : α → Prop} {g : α → β}
    (hf : ∀ a b, f a = .ok b ↔ p a ∧ b = g a) {l : List α} {l' : List β} :
    l.mapM f = .ok l' ↔ (∀ a ∈ l, p a) ∧ l' = l.map g := by
  rw [mapM_eq_ok]
  induction l generalizing l' with
  | nil =>
    rw [List.forall₂_nil_left_iff]
    simp
  | cons a l ih =>
    rw [List.forall₂_cons_left_iff, List.forall_mem_cons]
    constructor
    · rintro ⟨b, bs, hb, hbs, rfl⟩
      obtain ⟨hp, rfl⟩ := ih.1 hbs
      obtain ⟨ha, rfl⟩ := (hf a b).1 hb
      exact ⟨⟨ha, hp⟩, rfl⟩
    · rintro ⟨⟨ha, hp⟩, rfl⟩
      exact ⟨g a, l.map g, (hf a _).2 ⟨ha, rfl⟩, ih.2 ⟨hp, rfl⟩, rfl⟩

theorem map_eq_of_mapM {κ : Type*} {f : α → Except ε β} {l : List α} {l' : List β} {g : β → κ}
    {k : α → κ} (h : l.mapM f = .ok l') (hkey : ∀ a b, f a = .ok b → g b = k a) :
    l'.map g = l.map k := by
  refine (List.forall₂_eq_eq_eq (α := κ)) ▸ ?_
  rw [List.forall₂_map_left_iff, List.forall₂_map_right_iff]
  exact (mapM_eq_ok.1 h).flip.imp fun b a hab => hkey a b hab

/-! ### The first of two results -/

theorem foldl_orElse {γ : Type*} (v : Option γ) (l : List γ) :
    l.foldl (fun v c => v <|> some c) v = (v <|> l.head?) := by
  induction l generalizing v with
  | nil => cases v <;> rfl
  | cons c l ih =>
    rw [List.foldl_cons, ih]
    cases v <;> rfl

/-- What two functions give of a list, when no element has a result of both. -/
theorem perm_filterMap_orElse {γ δ : Type*} {f g h : γ → Option δ} {l : List γ}
    (hl : ∀ a ∈ l, f a = (g a <|> h a) ∧ (g a = none ∨ h a = none)) :
    (l.filterMap f).Perm (l.filterMap g ++ l.filterMap h) := by
  induction l with
  | nil => simp
  | cons a l ih =>
    have ih := ih fun a ha => hl a (by simp [ha])
    obtain ⟨hf, hnone⟩ := hl a (by simp)
    rcases hnone with hg | hh
    · cases hh : h a with
      | none => simpa [List.filterMap_cons, hf, hg, hh] using ih
      | some c =>
        rw [List.filterMap_cons, List.filterMap_cons, List.filterMap_cons, hf, hg, hh]
        exact (List.Perm.cons c ih).trans List.perm_middle.symm
    · cases hg : g a with
      | none => simpa [List.filterMap_cons, hf, hg, hh] using ih
      | some c => simpa [List.filterMap_cons, hf, hg, hh] using ih

end FirecrawlLb.Lib
