import FirecrawlLb.Lib.Run

/-!
# Readings that rise between marks

What a run shows is a list of readings and of marks.  The list rises when every reading exceeds the
one before it in an order, unless a mark stands between them.  So do the readings of a run that each
raise a level of the state to their value, when nothing but a mark changes the level otherwise.
-/

namespace FirecrawlLb.Lib.Epochs

open FirecrawlLb.Lib.Run

variable {σ ε β γ : Type*} (r : γ → γ → Prop) (reading : β → Option γ)

/-- The list rises above the bound; a mark, which has no reading, takes the bound away. -/
def Rises : Option γ → List β → Prop
  | _, [] => True
  | bound, b :: bs =>
    match reading b with
    | some x => (∀ y ∈ bound, r y x) ∧ Rises (some x) bs
    | none => Rises none bs

variable {r reading} {bound : Option γ} {b : β} {x : γ} {bs before between after : List β}

theorem rises_cons_of_reading (h : reading b = some x) :
    Rises r reading bound (b :: bs) ↔ (∀ y ∈ bound, r y x) ∧ Rises r reading (some x) bs := by
  simp only [Rises, h]

theorem rises_cons_of_mark (h : reading b = none) :
    Rises r reading bound (b :: bs) ↔ Rises r reading none bs := by
  simp only [Rises, h]

theorem Rises.of_append (h : Rises r reading bound (before ++ after)) :
    ∃ bound', Rises r reading bound' after := by
  induction before generalizing bound with
  | nil => exact ⟨bound, h⟩
  | cons b before ih =>
    cases hb : reading b with
    | none => exact ih ((rises_cons_of_mark hb).1 h)
    | some x => exact ih ((rises_cons_of_reading hb).1 h).2

/-- Readings without a mark between them rise one above the other. -/
theorem Rises.pairwise [IsTrans γ r] (h : Rises r reading bound (between ++ after))
    (hread : ∀ b ∈ between, (reading b).isSome = true) :
    (between.filterMap reading).Pairwise r ∧
      ∀ x ∈ between.filterMap reading, ∀ y ∈ bound, r y x := by
  induction between generalizing bound with
  | nil => simp
  | cons b between ih =>
    obtain ⟨x, hb⟩ := Option.isSome_iff_exists.1 (hread b List.mem_cons_self)
    obtain ⟨hx, hrest⟩ := (rises_cons_of_reading hb).1 h
    obtain ⟨hpairwise, habove⟩ := ih hrest fun b hb => hread b (List.mem_cons_of_mem _ hb)
    rw [List.filterMap_cons_some hb]
    constructor
    · exact List.pairwise_cons.2 ⟨fun y hy => habove y hy x rfl, hpairwise⟩
    · intro z hz y hy
      rcases List.mem_cons.1 hz with rfl | hz
      · exact hx y hy
      · exact trans_of r (hx y hy) (habove z hz x rfl)

variable {step : σ → ε → Option σ} {C : σ → ε → Prop} {obs : σ → ε → Option β}
  {s : σ} {es : List ε}

/-- **The readings of a run rise**, when each step that shows nothing keeps the level, and each
reading lies above the level and becomes the new one. -/
theorem rises_trace (level : σ → Option γ)
    (hkeep : ∀ s e s', C s e → step s e = some s' → obs s e = none → level s' = level s)
    (hread : ∀ s e s' b x, C s e → step s e = some s' → obs s e = some b → reading b = some x →
      (∀ y ∈ level s, r y x) ∧ level s' = some x)
    (hC : Meets step C s es) (hbound : ∀ y ∈ bound, level s = some y) :
    Rises r reading bound (trace step obs s es) := by
  induction es generalizing s bound with
  | nil => trivial
  | cons e es ih =>
    rw [trace]
    cases hs : step s e with
    | none => trivial
    | some s' =>
      have hrest : ∀ bound', (∀ y ∈ bound', level s' = some y) →
          Rises r reading bound' (trace step obs s' es) := fun _ => ih (hC.2 s' hs)
      cases hobs : obs s e with
      | none =>
        refine hrest bound fun y hy => ?_
        rw [hkeep s e s' hC.1 hs hobs]
        exact hbound y hy
      | some b =>
        cases hb : reading b with
        | none => exact (rises_cons_of_mark hb).2 (hrest none (by simp))
        | some x =>
          obtain ⟨habove, hlevel⟩ := hread s e s' b x hC.1 hs hobs hb
          refine (rises_cons_of_reading hb).2 ⟨fun y hy => habove y (hbound y hy), ?_⟩
          refine hrest (some x) ?_
          rintro y ⟨⟩
          exact hlevel

end FirecrawlLb.Lib.Epochs
