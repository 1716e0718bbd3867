import Mathlib.Algebra.BigOperators.Group.List.Basic
import Mathlib.Data.List.DropRight

/-!
# Runs of a partial transition function

`step s e` is the state after the event `e`, when the state `s` allows it.  A run takes a list of
events one after another.  `Always` speaks of every state on the way, `Meets` of every step taken,
each with the state it is taken in.
-/

namespace FirecrawlLb.Lib.Run

variable {σ ε β γ : Type*} (step : σ → ε → Option σ)

/-- The state after the events, when each of them can be taken. -/
def run : σ → List ε → Option σ
  | s, [] => some s
  | s, e :: es => (step s e).bind fun s' => run s' es

/-- The state after the events, or the state before them when they cannot all be taken. -/
def endOf (s : σ) (es : List ε) : σ := (run step s es).getD s

/-- Every state of the run, the first and the last included, satisfies `P`. -/
def Always (P : σ → Prop) : σ → List ε → Prop
  | s, [] => P s
  | s, e :: es => P s ∧ ∀ s', step s e = some s' → Always P s' es

/-- Every step of the run is taken in a state that meets `C` with its event. -/
def Meets (C : σ → ε → Prop) : σ → List ε → Prop
  | _, [] => True
  | s, e :: es => C s e ∧ ∀ s', step s e = some s' → Meets C s' es

/-- Whether the steps of a run meet a condition is found out by taking them. -/
instance decidableMeets (C : σ → ε → Prop) [∀ s e, Decidable (C s e)] :
    ∀ s es, Decidable (Meets step C s es)
  | _, [] => isTrue trivial
  | s, e :: es =>
    match h : step s e with
    | none => decidable_of_iff (C s e) (by simp [Meets, h])
    | some s' =>
      have := decidableMeets C s' es
      decidable_of_iff (C s e ∧ Meets step C s' es) (by simp [Meets, h])

/-- Once a state of the run satisfies `P`, every later one does. -/
def Keeps (P : σ → Prop) : σ → List ε → Prop
  | _, [] => True
  | s, e :: es => (P s → Always step P s (e :: es)) ∧ ∀ s', step s e = some s' → Keeps P s' es

/-- The states some run leads to from a state of `init`. -/
def Reachable (init : σ → Prop) (s : σ) : Prop := ∃ s₀ es, init s₀ ∧ run step s₀ es = some s

/-- What the steps of a run show, in their order. -/
def trace (obs : σ → ε → Option β) : σ → List ε → List β
  | _, [] => []
  | s, e :: es =>
    match step s e with
    | some s' => (obs s e).toList ++ trace obs s' es
    | none => []

variable {step} {s s' s'' : σ} {e : ε} {es es' : List ε} {B C D : σ → ε → Prop} {P I : σ → Prop}

@[simp] theorem run_nil : run step s [] = some s := rfl

theorem run_cons : run step s (e :: es) = some s'' ↔
    ∃ s', step s e = some s' ∧ run step s' es = some s'' := by
  simp [run, Option.bind_eq_some_iff]

theorem run_append : run step s (es ++ es') = some s'' ↔
    ∃ s', run step s es = some s' ∧ run step s' es' = some s'' := by
  induction es generalizing s with
  | nil => simp
  | cons e es ih =>
    simp only [List.cons_append, run_cons, ih]
    constructor
    · rintro ⟨a, ha, b, hb, hc⟩
      exact ⟨b, ⟨a, ha, hb⟩, hc⟩
    · rintro ⟨b, ⟨a, ha, hb⟩, hc⟩
      exact ⟨a, ha, b, hb, hc⟩

theorem run_endOf (h : (run step s es).isSome = true) :
    run step s es = some (endOf step s es) := by
  obtain ⟨s', hs'⟩ := Option.isSome_iff_exists.1 h
  rw [endOf, hs', Option.getD_some]

theorem step_endOf (h : (step s e).isSome = true) : step s e = some (endOf step s [e]) := by
  obtain ⟨s', hs'⟩ := Option.isSome_iff_exists.1 h
  simp [endOf, run, hs']

theorem Reachable.run {init : σ → Prop} (h : Reachable step init s)
    (hrun : run step s es = some s') : Reachable step init s' := by
  obtain ⟨s₀, es₀, h₀, hr⟩ := h
  exact ⟨s₀, es₀ ++ es, h₀, run_append.2 ⟨s, hr, hrun⟩⟩

/-! ### Invariants -/

/-- **The invariant rule.**  What one step taken under `C` preserves holds after every run whose
steps meet `C`. -/
theorem invariant_of_meets (hstep : ∀ s e s', I s → C s e → step s e = some s' → I s')
    (hI : I s) (hC : Meets step C s es) (hrun : run step s es = some s') : I s' := by
  induction es generalizing s with
  | nil =>
    obtain rfl : s = s' := by simpa using hrun
    exact hI
  | cons e es ih =>
    obtain ⟨s₁, h₁, hrest⟩ := run_cons.1 hrun
    exact ih (hstep s e s₁ hI hC.1 h₁) (hC.2 s₁ h₁) hrest

theorem meets_true : Meets step (fun _ _ => True) s es := by
  induction es generalizing s with
  | nil => trivial
  | cons e es ih => exact ⟨trivial, fun _ _ => ih⟩

theorem meets_of_forall {B : ε → Prop} (h : ∀ e ∈ es, B e) : Meets step (fun _ e => B e) s es := by
  induction es generalizing s with
  | nil => trivial
  | cons e es ih =>
    exact ⟨h e List.mem_cons_self, fun _ _ => ih fun e' he => h e' (List.mem_cons_of_mem _ he)⟩

theorem invariant (hstep : ∀ s e s', I s → step s e = some s' → I s') (hI : I s)
    (hrun : run step s es = some s') : I s' :=
  invariant_of_meets (fun s e s' h _ => hstep s e s' h) hI meets_true hrun

theorem Reachable.invariant {init : σ → Prop} (hinit : ∀ s, init s → I s)
    (hstep : ∀ s e s', I s → step s e = some s' → I s') (h : Reachable step init s) : I s := by
  obtain ⟨s₀, es, h₀, hrun⟩ := h
  exact Run.invariant hstep (hinit s₀ h₀) hrun

theorem Meets.mono (h : ∀ s e, C s e → D s e) (hC : Meets step C s es) : Meets step D s es := by
  induction es generalizing s with
  | nil => trivial
  | cons e es ih => exact ⟨h s e hC.1, fun s' hs' => ih (hC.2 s' hs')⟩

theorem Meets.cons (hC : C s e) (hs : step s e = some s') (h : Meets step C s' es) :
    Meets step C s (e :: es) := by
  refine ⟨hC, fun s'' hs'' => ?_⟩
  rwa [← Option.some.inj (hs.symm.trans hs'')]

theorem Meets.and (hC : Meets step C s es) (hD : Meets step D s es) :
    Meets step (fun s e => C s e ∧ D s e) s es := by
  induction es generalizing s with
  | nil => trivial
  | cons e es ih => exact ⟨⟨hC.1, hD.1⟩, fun s' hs' => ih (hC.2 s' hs') (hD.2 s' hs')⟩

/-- What one step taken under `C` preserves holds before every step, if all of them meet `C`. -/
theorem meets_of_meets (hstep : ∀ s e s', I s → C s e → step s e = some s' → I s') (hI : I s)
    (hC : Meets step C s es) : Meets step (fun s _ => I s) s es := by
  induction es generalizing s with
  | nil => trivial
  | cons e es ih => exact ⟨hI, fun s' hs' => ih (hstep s e s' hI hC.1 hs') (hC.2 s' hs')⟩

theorem meets_of_invariant (hstep : ∀ s e s', I s → step s e = some s' → I s') (hI : I s) :
    Meets step (fun s _ => I s) s es :=
  meets_of_meets (fun s e s' h _ => hstep s e s' h) hI meets_true

theorem meets_iff_meets (hstep : ∀ s e s', I s → step s e = some s' → I s')
    (hiff : ∀ s e, I s → (D s e ↔ C s e)) (hI : I s) : Meets step D s es ↔ Meets step C s es := by
  have hinv : Meets step (fun s _ => I s) s es := meets_of_invariant hstep hI
  constructor
  · intro hD
    exact (hD.and hinv).mono fun s e h => (hiff s e h.2).1 h.1
  · intro hC
    exact (hC.and hinv).mono fun s e h => (hiff s e h.2).2 h.1

/-- What one step taken under `C` preserves holds in every state of a run whose steps meet `C`. -/
theorem always_of_meets (hstep : ∀ s e s', I s → C s e → step s e = some s' → I s') (hI : I s)
    (hC : Meets step C s es) : Always step I s es := by
  induction es generalizing s with
  | nil => exact hI
  | cons e es ih => exact ⟨hI, fun s' hs' => ih (hstep s e s' hI hC.1 hs') (hC.2 s' hs')⟩

theorem always_of_invariant (hstep : ∀ s e s', I s → step s e = some s' → I s') (hI : I s) :
    Always step I s es :=
  always_of_meets (fun s e s' h _ => hstep s e s' h) hI meets_true

theorem Always.mono (h : ∀ s, I s → P s) (hI : Always step I s es) : Always step P s es := by
  induction es generalizing s with
  | nil => exact h s hI
  | cons e es ih => exact ⟨h s hI.1, fun s' hs' => ih (hI.2 s' hs')⟩

/-- What no step brings about held at the start, if it holds at the end. -/
theorem of_run (hback : ∀ s e s', step s e = some s' → P s' → P s)
    (hrun : run step s es = some s') (hP : P s') : P s := by
  induction es generalizing s with
  | nil =>
    obtain rfl : s = s' := by simpa using hrun
    exact hP
  | cons e es ih =>
    obtain ⟨s₁, h₁, hrest⟩ := run_cons.1 hrun
    exact hback s e s₁ h₁ (ih hrest)

theorem meets_of_run (hback : ∀ s e s', step s e = some s' → P s' → P s)
    (hrun : run step s es = some s') (hP : P s') : Meets step (fun s _ => P s) s es := by
  induction es generalizing s with
  | nil => trivial
  | cons e es ih =>
    obtain ⟨s₁, h₁, hrest⟩ := run_cons.1 hrun
    refine ⟨of_run hback hrun hP, fun s'' h'' => ?_⟩
    obtain rfl : s₁ = s'' := Option.some.inj (h₁.symm.trans h'')
    exact ih hrest

theorem Always.head (h : Always step P s es) : P s := by
  cases es with
  | nil => exact h
  | cons e es => exact h.1

theorem Always.last (h : Always step P s es) (hrun : run step s es = some s') : P s' := by
  induction es generalizing s with
  | nil =>
    obtain rfl : s = s' := by simpa using hrun
    exact h
  | cons e es ih =>
    obtain ⟨s₁, h₁, hrest⟩ := run_cons.1 hrun
    exact ih (h.2 s₁ h₁) hrest

/-- **The exact condition of a safety property** of the states of a run and of its steps, for the
runs whose steps meet `B`.  When, under an invariant, a step from a good state is good and leads to
a good state exactly if it meets `C`, the whole run is good exactly if all its steps meet `C`.  The
invariant need survive such steps only. -/
theorem always_and_meets_iff (hinv : ∀ s e s', I s → B s e → C s e → step s e = some s' → I s')
    (hiff : ∀ s e, I s → B s e → P s → (((∀ s', step s e = some s' → P s') ∧ D s e) ↔ C s e))
    (hI : I s) (hB : Meets step B s es) (hP : P s) :
    Always step P s es ∧ Meets step D s es ↔ Meets step C s es := by
  induction es generalizing s with
  | nil => exact ⟨fun _ => trivial, fun _ => ⟨hP, trivial⟩⟩
  | cons e es ih =>
    obtain ⟨hBe, hBes⟩ := hB
    have hrest : ∀ s', C s e → P s' → step s e = some s' →
        (Always step P s' es ∧ Meets step D s' es ↔ Meets step C s' es) := fun s' hC hP' h' =>
      ih (hinv s e s' hI hBe hC h') (hBes s' h') hP'
    constructor
    · rintro ⟨⟨-, halways⟩, hD, hDs⟩
      have hnext : ∀ s', step s e = some s' → P s' := fun s' h' => (halways s' h').head
      have hC := (hiff s e hI hBe hP).1 ⟨hnext, hD⟩
      exact ⟨hC, fun s' h' => (hrest s' hC (hnext s' h') h').1 ⟨halways s' h', hDs s' h'⟩⟩
    · rintro ⟨hC, hmeets⟩
      obtain ⟨hnext, hD⟩ := (hiff s e hI hBe hP).2 hC
      have hgood : ∀ s', step s e = some s' → Always step P s' es ∧ Meets step D s' es :=
        fun s' h' => (hrest s' hC (hnext s' h') h').2 (hmeets s' h')
      exact ⟨⟨hP, fun s' h' => (hgood s' h').1⟩, hD, fun s' h' => (hgood s' h').2⟩

theorem always_iff_meets (hinv : ∀ s e s', I s → B s e → C s e → step s e = some s' → I s')
    (hiff : ∀ s e, I s → B s e → P s → ((∀ s', step s e = some s' → P s') ↔ C s e))
    (hI : I s) (hB : Meets step B s es) (hP : P s) : Always step P s es ↔ Meets step C s es := by
  rw [← always_and_meets_iff (D := fun _ _ => True) hinv (fun s e hI hB hP => by
    rw [and_true, hiff s e hI hB hP]) hI hB hP]
  exact (and_iff_left meets_true).symm

theorem meets_forall {ι : Type*} {C : ι → σ → ε → Prop} :
    Meets step (fun s e => ∀ i, C i s e) s es ↔ ∀ i, Meets step (C i) s es := by
  induction es generalizing s with
  | nil => exact ⟨fun _ _ => trivial, fun _ => trivial⟩
  | cons e es ih =>
    constructor
    · rintro ⟨hC, hrest⟩ i
      exact ⟨hC i, fun s' hs' => ih.1 (hrest s' hs') i⟩
    · intro h
      exact ⟨fun i => (h i).1, fun s' hs' => ih.2 fun i => (h i).2 s' hs'⟩

theorem meets_and : Meets step (fun s e => C s e ∧ D s e) s es ↔
    Meets step C s es ∧ Meets step D s es :=
  ⟨fun h => ⟨h.mono fun _ _ => And.left, h.mono fun _ _ => And.right⟩, fun h => h.1.and h.2⟩

/-- **What is kept along a run** is what each of its steps keeps. -/
theorem keeps_iff_meets : Keeps step P s es ↔
    Meets step (fun s e => P s → ∀ s', step s e = some s' → P s') s es := by
  induction es generalizing s with
  | nil => exact Iff.rfl
  | cons e es ih =>
    constructor
    · rintro ⟨halways, hrest⟩
      exact ⟨fun hP s' hs' => ((halways hP).2 s' hs').head, fun s' hs' => ih.1 (hrest s' hs')⟩
    · rintro ⟨hkeep, hrest⟩
      have hend : ∀ s', P s' → Meets step (fun s e => P s → ∀ s', step s e = some s' → P s') s' es →
          Always step P s' es := fun s' hP hmeets =>
        always_of_meets (fun s e s' hI hC hs => hC hI s' hs) hP hmeets
      exact ⟨fun hP => ⟨hP, fun s' hs' => hend s' (hkeep hP s' hs') (hrest s' hs')⟩,
        fun s' hs' => ih.2 (hrest s' hs')⟩

/-! ### What a run shows -/

/-- **A view of the state is the fold of what the run shows**, when every step changes it by what
the step shows. -/
theorem foldl_trace (view : σ → Option γ) {obs : σ → ε → Option β} {f : γ → β → γ} {v : γ}
    (hstep : ∀ s e s' v, C s e → step s e = some s' → view s = some v →
      view s' = some ((obs s e).elim v (f v)))
    (hC : Meets step C s es) (hv : view s = some v) (hrun : run step s es = some s') :
    view s' = some ((trace step obs s es).foldl f v) := by
  induction es generalizing s v with
  | nil =>
    obtain rfl : s = s' := by simpa using hrun
    exact hv
  | cons e es ih =>
    obtain ⟨s₁, h₁, hrest⟩ := run_cons.1 hrun
    rw [ih (hC.2 s₁ h₁) (hstep s e s₁ v hC.1 h₁ hv) hrest, trace, h₁]
    cases obs s e <;> rfl

/-- A quantity that every step changes by the weight of what it shows. -/
theorem sum_trace {M : Type*} [AddMonoid M] (φ : σ → M) {obs : σ → ε → Option β} (w : β → M)
    (hstep : ∀ s e s', C s e → step s e = some s' → φ s' = φ s + ((obs s e).map w).getD 0)
    (hC : Meets step C s es) (hrun : run step s es = some s') :
    φ s' = φ s + ((trace step obs s es).map w).sum := by
  induction es generalizing s with
  | nil =>
    obtain rfl : s = s' := by simpa using hrun
    simp [trace]
  | cons e es ih =>
    obtain ⟨s₁, h₁, hrest⟩ := run_cons.1 hrun
    rw [ih (hC.2 s₁ h₁) hrest, hstep s e s₁ hC.1 h₁, trace, h₁]
    cases obs s e <;> simp [add_assoc]

/-- What a run shows in one of two ways is what it shows in the one and in the other. -/
theorem trace_orElse_perm {obs obs₁ obs₂ : σ → ε → Option β}
    (h : ∀ s e, obs s e = (obs₁ s e <|> obs₂ s e) ∧ (obs₁ s e = none ∨ obs₂ s e = none)) :
    (trace step obs s es).Perm (trace step obs₁ s es ++ trace step obs₂ s es) := by
  induction es generalizing s with
  | nil => exact .refl _
  | cons e es ih =>
    simp only [trace]
    cases step s e with
    | none => exact .refl _
    | some s' =>
      obtain ⟨hobs, hnone⟩ := h s e
      have ih := ih (s := s')
      rcases hnone with h₁ | h₂
      · have hobs : obs s e = obs₂ s e := by
          rw [hobs, h₁]
          cases obs₂ s e <;> rfl
        simp only [hobs, h₁, Option.toList_none, List.nil_append]
        exact (ih.append_left _).trans (List.perm_append_comm_assoc _ _ _)
      · have hobs : obs s e = obs₁ s e := by
          rw [hobs, h₂]
          cases obs₁ s e <;> rfl
        simp only [hobs, h₂, Option.toList_none, List.nil_append, List.append_assoc]
        exact ih.append_left _

theorem forall_mem_trace {obs : σ → ε → Option β} {P : β → Prop}
    (h : Meets step (fun s e => ∀ b ∈ obs s e, P b) s es) :
    ∀ b ∈ trace step obs s es, P b := by
  induction es generalizing s with
  | nil => simp [trace]
  | cons e es ih =>
    intro b hb
    simp only [trace] at hb
    split at hb
    · rename_i s' h'
      rcases List.mem_append.1 hb with hb | hb
      · exact h.1 b (by simpa [eq_comm] using hb)
      · exact ih (h.2 s' h') b hb
    · simp at hb

/-- **What is shown later is related to what was shown before**, when showing it establishes a
condition that the steps keep and that relates it to what they show. -/
theorem pairwise_trace {obs : σ → ε → Option β} {J : β → σ → Prop} {R : β → β → Prop}
    (hinv : ∀ s e s', I s → C s e → step s e = some s' → I s')
    (hset : ∀ s e s' b, I s → C s e → step s e = some s' → obs s e = some b → J b s')
    (hkeep : ∀ b s e s', J b s → I s → C s e → step s e = some s' → J b s')
    (huse : ∀ a s e b, J a s → I s → C s e → obs s e = some b → R a b)
    (hI : I s) (hC : Meets step C s es) : (trace step obs s es).Pairwise R := by
  induction es generalizing s with
  | nil => exact List.Pairwise.nil
  | cons e es ih =>
    rw [trace]
    split
    · rename_i s' hs
      have hrest := ih (hinv s e s' hI hC.1 hs) (hC.2 s' hs)
      cases hobs : obs s e with
      | none => exact hrest
      | some a =>
        refine List.pairwise_cons.2 ⟨forall_mem_trace ?_, hrest⟩
        have hJ : Meets step (fun s _ => J a s ∧ I s) s' es :=
          meets_of_meets (C := C) (fun s e s' h hC hs =>
            ⟨hkeep a s e s' h.1 h.2 hC hs, hinv s e s' h.2 hC hs⟩)
            ⟨hset s e s' a hI hC.1 hs hobs, hinv s e s' hI hC.1 hs⟩ (hC.2 s' hs)
        refine (hJ.and (hC.2 s' hs)).mono fun s e h b hb => ?_
        exact huse a s e b h.1.1 h.1.2 h.2 hb
    · exact List.Pairwise.nil

/-- **Simulation.**  What a run shows is a run of the specification, when each step shows a run of
it from what stands for the state before to what stands for the state after. -/
theorem run_trace {spec : γ → β → Option γ} {obs : σ → ε → Option β} (abs : σ → γ)
    (hinv : ∀ s e s', I s → step s e = some s' → I s')
    (hsim : ∀ s e s', I s → step s e = some s' →
      run spec (abs s) (obs s e).toList = some (abs s'))
    (hI : I s) (hrun : run step s es = some s') :
    run spec (abs s) (trace step obs s es) = some (abs s') := by
  induction es generalizing s with
  | nil =>
    obtain rfl : s = s' := by simpa using hrun
    rfl
  | cons e es ih =>
    obtain ⟨s₁, h₁, hrest⟩ := run_cons.1 hrun
    rw [trace, h₁]
    exact run_append.2 ⟨abs s₁, hsim s e s₁ hI h₁, ih (hinv s e s₁ hI h₁) hrest⟩

/-! ### History variables -/

variable (step) in
/-- The transition function with a history variable, which collects what the steps show. -/
def recorded (obs : σ → ε → Option β) (s : σ × List β) (e : ε) : Option (σ × List β) :=
  (step s.1 e).map fun s' => (s', s.2 ++ (obs s.1 e).toList)

section Recorded

variable {obs : σ → ε → Option β} {h : List β}

theorem recorded_eq_some {r r' : σ × List β} : recorded step obs r e = some r' ↔
    step r.1 e = some r'.1 ∧ r'.2 = r.2 ++ (obs r.1 e).toList := by
  obtain ⟨s', h'⟩ := r'
  simp only [recorded, Option.map_eq_some_iff, Prod.mk.injEq]
  constructor
  · rintro ⟨_, hs, rfl, rfl⟩
    exact ⟨hs, rfl⟩
  · rintro ⟨hs, rfl⟩
    exact ⟨s', hs, rfl, rfl⟩

theorem meets_recorded : Meets (recorded step obs) (fun r e => C r.1 e) (s, h) es ↔
    Meets step C s es := by
  induction es generalizing s h with
  | nil => exact Iff.rfl
  | cons e es ih =>
    refine and_congr_right fun _ => ⟨fun hrest s' hs => ?_, fun hrest r hr => ?_⟩
    · exact ih.1 (hrest (s', h ++ (obs s e).toList) (recorded_eq_some.2 ⟨hs, rfl⟩))
    · exact ih.2 (hrest r.1 (recorded_eq_some.1 hr).1)

theorem run_recorded {r : σ × List β} : run (recorded step obs) (s, h) es = some r ↔
    run step s es = some r.1 ∧ r.2 = h ++ trace step obs s es := by
  induction es generalizing s h with
  | nil =>
    obtain ⟨s', h'⟩ := r
    simp [trace, eq_comm]
  | cons e es ih =>
    rw [run_cons, run_cons]
    constructor
    · rintro ⟨r', hr', hrest⟩
      obtain ⟨hs, hh⟩ := recorded_eq_some.1 hr'
      obtain ⟨hrun, htrace⟩ := ih.1 hrest
      exact ⟨⟨r'.1, hs, hrun⟩, by rw [htrace, hh, trace, hs, List.append_assoc]⟩
    · rintro ⟨⟨s', hs, hrun⟩, htrace⟩
      refine ⟨(s', h ++ (obs s e).toList), recorded_eq_some.2 ⟨hs, rfl⟩, ih.2 ⟨hrun, ?_⟩⟩
      rw [htrace, trace, hs, List.append_assoc]

/-- **What a run shows is pairwise related** exactly if each step shows what is related to the
history. -/
theorem pairwise_append_trace {R : β → β → Prop}
    (hobs : ∀ s e, step s e = none → obs s e = none) :
    (h ++ trace step obs s es).Pairwise R ↔ h.Pairwise R ∧
      Meets (recorded step obs) (fun r e => ∀ b ∈ obs r.1 e, ∀ a ∈ r.2, R a b) (s, h) es := by
  induction es generalizing s h with
  | nil => simp [trace, Meets]
  | cons e es ih =>
    rw [trace]
    cases hs : step s e with
    | none =>
      have hnone : recorded step obs (s, h) e = none := by simp [recorded, hs]
      simp [Meets, hnone, hobs s e hs]
    | some s' =>
      have hsome : recorded step obs (s, h) e = some (s', h ++ (obs s e).toList) :=
        recorded_eq_some.2 ⟨hs, rfl⟩
      have hhead : (h ++ (obs s e).toList).Pairwise R ↔
          h.Pairwise R ∧ ∀ b ∈ obs s e, ∀ a ∈ h, R a b := by
        cases obs s e <;> simp [List.pairwise_append]
      dsimp only
      rw [← List.append_assoc, ih, hhead, and_assoc]
      simp [Meets, hsome]

end Recorded

/-! ### The end of a history -/

/-- What the history holds since the last entry that is marked. -/
def since (mark : β → Bool) (h : List β) : List β := h.rtakeWhile fun b => !mark b

section Since

variable {mark : β → Bool} {h : List β} {a b : β}

@[simp] theorem since_nil : since mark [] = [] := List.rtakeWhile_nil _

theorem since_concat_of_mark (hb : mark b = true) : since mark (h ++ [b]) = [] :=
  List.rtakeWhile_concat_neg _ _ _ (by simp [hb])

theorem since_concat (hb : mark b = false) : since mark (h ++ [b]) = since mark h ++ [b] :=
  List.rtakeWhile_concat_pos _ _ _ (by simp [hb])

theorem mem_of_mem_since (ha : a ∈ since mark h) : a ∈ h :=
  (List.rtakeWhile_suffix _ _).subset ha

/-- What was shown since the last mark stays so until the next one. -/
theorem mem_since_append {n : Option β} (ha : a ∈ since mark h) (hn : ∀ b ∈ n, mark b = false) :
    a ∈ since mark (h ++ n.toList) := by
  cases n with
  | none => simpa using ha
  | some b =>
    rw [Option.toList_some, since_concat (hn b rfl)]
    exact List.mem_append_left _ ha

theorem mem_since_of_append {n : Option β} (hn : ∀ b ∈ n, mark b = false)
    (ha : a ∈ since mark (h ++ n.toList)) : a ∈ since mark h ∨ n = some a := by
  cases n with
  | none => exact Or.inl (by simpa using ha)
  | some b =>
    rw [Option.toList_some, since_concat (hn b rfl)] at ha
    rcases List.mem_append.1 ha with ha | ha
    · exact Or.inl ha
    · exact Or.inr (by rw [List.mem_singleton.1 ha])

end Since

/-! ### Justified histories -/

/-- Every entry of a history is justified by those before it. -/
def Justified (ok : List β → β → Prop) (h : List β) : Prop :=
  ∀ before b after, h = before ++ b :: after → ok before b

section Justified

variable {ok : List β → β → Prop} {h : List β} {b : β}

@[simp] theorem justified_nil : Justified ok [] := fun before b after h => by simp at h

theorem justified_concat : Justified ok (h ++ [b]) ↔ Justified ok h ∧ ok h b := by
  constructor
  · intro hall
    refine ⟨fun before b' after heq => hall before b' (after ++ [b]) ?_, hall h b [] rfl⟩
    rw [heq, List.append_assoc, List.cons_append]
  · rintro ⟨hh, hb⟩ before b' after heq
    rcases List.eq_nil_or_concat after with rfl | ⟨after', b'', rfl⟩
    · obtain ⟨rfl, hlast⟩ := List.append_inj' heq rfl
      obtain rfl := List.singleton_inj.1 hlast
      exact hb
    · rw [List.concat_eq_append, ← List.cons_append, ← List.append_assoc] at heq
      exact hh before b' after' (List.append_inj' heq rfl).1

theorem Justified.of_mem (hh : Justified ok h) (hb : b ∈ h) :
    ∃ before after, h = before ++ b :: after ∧ ok before b := by
  obtain ⟨before, after, heq⟩ := List.append_of_mem hb
  exact ⟨before, after, heq, hh before b after heq⟩

theorem Justified.append {l : List β} (hh : Justified ok h) (hl : ∀ b ∈ l, ∀ h, ok h b) :
    Justified ok (h ++ l) := by
  induction l using List.reverseRecOn with
  | nil => simpa using hh
  | append_singleton l b ih =>
    rw [← List.append_assoc]
    exact justified_concat.2 ⟨ih fun b' hb' => hl b' (List.mem_append_left _ hb'),
      hl b (by simp) _⟩

end Justified

end FirecrawlLb.Lib.Run
