import FirecrawlLb.Lib.Mutex

/-!
# The encryption key

A process that starts reads the key file, or creates it when it finds none.  Between the test and
the write another process may do the same, and a file that is being written is empty for a moment.
-/

namespace FirecrawlLb.Core.Crypto

open FirecrawlLb.Lib.Tasks FirecrawlLb.Lib.Run

/-- What `Fernet.generate_key` draws: 32 bytes in base 64. -/
structure FernetKey where
  bytes : List UInt8
  length_bytes : bytes.length = 44
  deriving DecidableEq

/-- A call of `_get_or_create_key`, by the step that comes next.  The key is the one it draws if it
generates one. -/
inductive Task where
  | testing (key : FernetKey)
  | reading
  | generating (key : FernetKey)
  /-- `write_bytes` opens the file, which empties it. -/
  | opening (key : FernetKey)
  | writing (key : FernetKey)
  | chmodding (key : FernetKey)
  | returned (key : List UInt8)
  /-- The file is gone when it is read. -/
  | raised
  deriving DecidableEq

/-- The content of the key file, if there is one. -/
abbrev KeyFile := Option (List UInt8)

abbrev State := Pool KeyFile Task

abbrev Event := Move FernetKey Unit

def act (file : KeyFile) : Task → Option (KeyFile × Task)
  | .testing key => some (file, if file.isSome then .reading else .generating key)
  | .reading =>
    match file with
    | none => some (none, .raised)
    | some content => some (some content, .returned content)
  | .generating key => some (file, .opening key)
  | .opening key => some (some [], .writing key)
  | .writing key =>
    -- the bytes replace those from the start of the file
    some (some (key.bytes ++ (file.getD []).drop key.bytes.length), .chmodding key)
  | .chmodding key => some (file, .returned key.bytes)
  | .returned _ | .raised => none

def program : Program KeyFile Task FernetKey Unit where
  spawn _ key := .testing key
  act file t _ := act file t

def step : State → Event → Option State := program.step

/-! ### Agreement -/

/-- The call has found no file, and has not written its key yet. -/
def Task.creates : Task → Bool
  | .generating _ | .opening _ | .writing _ => true
  | _ => false

/-- Every key that a call has returned is the content of the file. -/
def Agreed (p : State) : Prop := ∀ key, .returned key ∈ p.tasks → p.store = some key

/-- No other call is creating the file when a call finds it missing, and none is writing it when a
call reads it. -/
def OneCreator (p : State) : Event → Prop
  | .spawn _ => True
  | .act tid _ =>
    match p.tasks[tid]? with
    | some (.testing _) => p.store = none → ∀ t ∈ p.tasks, t.creates = false
    | some .reading => ∀ t ∈ p.tasks, t.creates = false
    | _ => True

instance (p : State) (m : Event) : Decidable (OneCreator p m) := by
  unfold OneCreator
  split
  · infer_instance
  · split <;> infer_instance

/-- What holds of the file while a call stands at its step. -/
def TaskOk (file : KeyFile) : Task → Prop
  | .testing _ => True
  | .reading => file ≠ none
  | .generating _ | .opening _ => file = none
  | .writing _ => file = some []
  | .chmodding key => file = some key.bytes
  | .returned key => file = some key ∧ key ≠ []
  | .raised => False

/-- At most one call creates the file, and an empty file is being written. -/
structure FileOk (p : State) : Prop where
  tasks : ∀ (i : ℕ) t, p.tasks[i]? = some t → TaskOk p.store t
  one_creator : ∀ (i j : ℕ) t u, p.tasks[i]? = some t → p.tasks[j]? = some u → t.creates = true →
    u.creates = true → i = j
  empty : p.store = some [] → ∃ (i : ℕ) (key : FernetKey), p.tasks[i]? = some (.writing key)

section Steps

variable {file file' : KeyFile} {t t' u : Task} {p p' : State} {m : Event}

theorem FernetKey.bytes_ne_nil (key : FernetKey) : key.bytes ≠ [] := by
  intro h
  have := key.length_bytes
  simp [h] at this

/-- A call does not disturb the others: only a creator changes the file, and then no other call
creates it or has taken a key from it. -/
theorem TaskOk.of_act (hu : TaskOk file u) (ht : TaskOk file t)
    (hone : t.creates = true → u.creates = false) (h : act file t = some (file', t')) :
    TaskOk file' u := by
  cases t with
  | opening key =>
    cases h
    have hfile : file = none := ht
    subst hfile
    cases u with
    | testing | reading => simp [TaskOk]
    | generating | opening | writing => cases hone rfl
    | chmodding => cases hu
    | returned => cases hu.1
    | raised => exact hu
  | writing key =>
    cases h
    have hfile : file = some [] := ht
    subst hfile
    cases u with
    | testing | reading => simp [TaskOk]
    | generating | opening | writing => cases hone rfl
    | chmodding key' => exact absurd (Option.some.inj hu).symm key'.bytes_ne_nil
    | returned key' => exact absurd (Option.some.inj hu.1).symm hu.2
    | raised => exact hu
  | reading =>
    simp only [act] at h
    split at h <;> cases h <;> exact hu
  | returned | raised => cases h
  | _ =>
    cases h
    exact hu

theorem TaskOk.act (ht : TaskOk file t) (hread : t = .reading → file ≠ some [])
    (h : act file t = some (file', t')) : TaskOk file' t' := by
  cases t with
  | testing key =>
    cases h
    cases file with
    | none => rfl
    | some content => exact Option.some_ne_none content
  | reading =>
    cases file with
    | none => exact absurd rfl ht
    | some content =>
      cases h
      exact ⟨rfl, fun hnil => hread rfl (congrArg some hnil)⟩
  | generating key => cases h; exact ht
  | opening key => cases h; rfl
  | writing key =>
    cases h
    have hfile : file = some [] := ht
    simp [hfile, TaskOk]
  | chmodding key =>
    cases h
    exact ⟨ht, key.bytes_ne_nil⟩
  | returned | raised => cases h

theorem file_of_act (h : Crypto.act file t = some (file', t')) : file' = file ∨
    (∃ key, t = .opening key ∧ file' = some [] ∧ t' = .writing key) ∨
    (∃ key, t = .writing key ∧
      file' = some (key.bytes ++ (file.getD []).drop key.bytes.length)) := by
  cases t with
  | reading =>
    simp only [Crypto.act] at h
    split at h <;> cases h <;> exact Or.inl rfl
  | opening key =>
    cases h
    exact Or.inr (Or.inl ⟨key, rfl, rfl, rfl⟩)
  | writing key =>
    cases h
    exact Or.inr (Or.inr ⟨key, rfl, rfl⟩)
  | returned | raised => cases h
  | _ =>
    cases h
    exact Or.inl rfl

theorem creates_of_act (h : Crypto.act file t = some (file', t')) (hc : t'.creates = true) :
    t.creates = true ∨ (∃ key, t = .testing key) ∧ file = none := by
  cases t with
  | testing key =>
    cases h
    cases file with
    | none => exact Or.inr ⟨⟨key, rfl⟩, rfl⟩
    | some content => cases hc
  | reading =>
    simp only [Crypto.act] at h
    split at h <;> cases h <;> cases hc
  | generating | opening | writing => exact Or.inl rfl
  | chmodding => cases h; cases hc
  | returned | raised => cases h

/-- **One creator at a time** is what the steps under the condition keep. -/
theorem FileOk.step (hok : FileOk p) (hC : OneCreator p m) (hs : step p m = some p') :
    FileOk p' := by
  obtain ⟨key, rfl, rfl⟩ | ⟨tid, a, t, file', t', rfl, ht, ha, rfl⟩ := Program.step_cases hs
  · -- a call that starts stands behind the others, and does not create the file yet
    refine ⟨fun i u hu => ?_, AtMostOne.append hok.one_creator rfl, fun hempty => ?_⟩
    · rcases getElem?_append_cases hu with hu | rfl
      · exact hok.tasks i u hu
      · trivial
    · obtain ⟨i, k, hi⟩ := hok.empty hempty
      exact ⟨i, k, by rw [List.getElem?_append_left (List.getElem?_eq_some_iff.1 hi).1, hi]⟩
  · have htask := hok.tasks tid t ht
    have ha : act p.store t = some (file', t') := ha
    have hlt : tid < p.tasks.length := (List.getElem?_eq_some_iff.1 ht).1
    have hread : t = .reading → p.store ≠ some [] := by
      rintro rfl hempty
      obtain ⟨i, key, hi⟩ := hok.empty hempty
      simp only [OneCreator, ht] at hC
      exact absurd (hC _ (List.mem_of_getElem? hi)) (by simp [Task.creates])
    -- a call that becomes a creator is the only one
    have hsingle : ∀ (i : ℕ) u, i ≠ tid → p.tasks[i]? = some u → u.creates = true →
        t'.creates = false := by
      intro i u hi hu hcu
      by_contra hct
      rcases creates_of_act ha (by simpa using hct) with hc | ⟨⟨key, rfl⟩, hnone⟩
      · exact hi (hok.one_creator i tid u t hu ht hcu hc)
      · simp only [OneCreator, ht] at hC
        exact absurd (hC hnone u (List.mem_of_getElem? hu)) (by simp [hcu])
    refine ⟨fun i u hu => ?_, AtMostOne.set hok.one_creator hsingle, fun hempty => ?_⟩
    · rcases getElem?_set_cases hu with ⟨-, rfl⟩ | ⟨hi, hu⟩
      · exact htask.act hread ha
      · refine (hok.tasks i u hu).of_act htask (fun hct => ?_) ha
        exact AtMostOne.other hok.one_creator ht hu (Ne.symm hi) hct
    · have hempty : file' = some [] := hempty
      obtain hsame | ⟨key, rfl, -, rfl⟩ | ⟨key, rfl, hwritten⟩ := file_of_act ha
      · obtain ⟨i, key, hi⟩ := hok.empty (hsame ▸ hempty)
        have hne : i ≠ tid := by
          rintro rfl
          obtain rfl : t = .writing key := Option.some.inj (ht.symm.trans hi)
          cases ha
          exact key.bytes_ne_nil (List.append_eq_nil_iff.1 (Option.some.inj hempty)).1
        exact ⟨i, key, by rw [List.getElem?_set_ne (Ne.symm hne), hi]⟩
      · exact ⟨tid, key, by simp [hlt]⟩
      · rw [hwritten] at hempty
        exact absurd (List.append_eq_nil_iff.1 (Option.some.inj hempty)).1 key.bytes_ne_nil

theorem FileOk.agreed (hok : FileOk p) : Agreed p := by
  intro key hmem
  obtain ⟨i, hi⟩ := List.getElem?_of_mem hmem
  exact (hok.tasks i _ hi).1

end Steps

/-- **The key is agreed** in every run from no key file in which one call at a time creates the
file: whatever a call has returned is the content of the file, then and later. -/
theorem key_agreed_of_oneCreator (ms : List Event) (hms : Meets step OneCreator ⟨none, []⟩ ms) :
    Always step Agreed ⟨none, []⟩ ms := by
  have hstart : FileOk ⟨none, []⟩ := ⟨by simp, by simp, by simp⟩
  refine (always_of_meets (fun p m p' hok hC hs => hok.step hC hs) hstart hms).mono ?_
  exact fun p hok => hok.agreed

/-- A call takes some steps. -/
def goOn (tid steps : ℕ) : List Event := List.replicate steps (.act tid ())

/-- Two processes start, one after the other has created the file. -/
theorem key_agreed_of_oneCreator_sample :
    let first : FernetKey := ⟨List.replicate 44 1, rfl⟩
    let second : FernetKey := ⟨List.replicate 44 2, rfl⟩
    let ms := [.spawn first, .spawn second] ++ goOn 0 5 ++ goOn 1 2
    run step ⟨none, []⟩ ms =
      some ⟨some first.bytes, [.returned first.bytes, .returned first.bytes]⟩ ∧
    Always step Agreed ⟨none, []⟩ ms := by
  intro first second ms
  exact ⟨rfl, key_agreed_of_oneCreator ms (by decide)⟩

/-- Two processes find no file.  Each creates it, and the first goes on with a key that is not in
the file. -/
theorem two_keys_returned :
    let first : FernetKey := ⟨List.replicate 44 1, rfl⟩
    let second : FernetKey := ⟨List.replicate 44 2, rfl⟩
    let ms := [.spawn first, .spawn second] ++ goOn 0 1 ++ goOn 1 1 ++ goOn 0 4 ++ goOn 1 4
    run step ⟨none, []⟩ ms =
      some ⟨some second.bytes, [.returned first.bytes, .returned second.bytes]⟩ ∧
    ¬ Always step Agreed ⟨none, []⟩ ms := by
  intro first second ms
  have hrun : run step ⟨none, []⟩ ms =
      some ⟨some second.bytes, [.returned first.bytes, .returned second.bytes]⟩ := by rfl
  constructor
  · exact hrun
  · intro h
    have hfile := h.last hrun first.bytes (by simp)
    exact absurd hfile (by decide)

end FirecrawlLb.Core.Crypto
