import FirecrawlLb.Firecrawl.Concurrency
import FirecrawlLb.Lib.Spend

/-!
# Concurrent charges

A successful call takes its credits off the balance it read and writes the result back at the
commit.  Along a run of POSTs the balance is what the committed charges left of it exactly when no
commit overwrites a balance that another one has changed since the read.
-/

namespace FirecrawlLb.Firecrawl.Charges

open FirecrawlLb.Lib FirecrawlLb.Lib.Tasks FirecrawlLb.Lib.Run FirecrawlLb.Python
open FirecrawlLb.Db.Models FirecrawlLb.Firecrawl.Models FirecrawlLb.Firecrawl.Routing
open FirecrawlLb.Firecrawl.Repository FirecrawlLb.Firecrawl.Service FirecrawlLb.Firecrawl.System
open FirecrawlLb.Firecrawl.Stored FirecrawlLb.Firecrawl.Concurrency

/-! ### The balance after a commit -/

/-- The balance of the account. -/
def balance (id : String) (db : Database) : Option ℤ :=
  (db.account? id).bind (·.remainingCreditsLive)

/-- The commit overwrites the balance with one it has worked out from an older one, which matters
when the call is not free and does not use up what it read. -/
def overwrites (id : String) (db : Database) (s : Session) : Bool :=
  match s.edit? id with
  | some ⟨read, .applySuccess credits⟩ => read.remainingCreditsLive ≠ balance id db &&
      credits ≠ 0 && read.remainingCreditsLive.any (credits < ·)
  | _ => false

/-- The balance is what some costs left of the one the session has read. -/
def ReadBalance (id : String) (db : Database) (s : Session) : Prop :=
  ∀ e, s.edit? id = some e → ∃ r b, e.read.remainingCreditsLive = some r ∧
    balance id db = some b ∧ LeftOf r b

section Flush

variable {s : Session} {db : Database} {dbNow : ℤ} {id : String} {b : ℤ}

theorem column_some (read value row : ℤ) : column asIs (some read) (some value) (some row) =
    some (column asIs read value row) := by
  unfold column
  simp only [Option.some.injEq]
  split_ifs <;> rfl

theorem balance_of_flush {row : FirecrawlAccountRecord} (hrow : db.account? id = some row) :
    balance id (s.flush dbNow db) = (s.flushAccount row).remainingCreditsLive := by
  rw [balance, account?_flush hrow, Option.bind_some]

/-- **The balance after a commit.** -/
theorem balance_flush (dbNow : ℤ) (hs : PostSession s) (hread : ReadBalance id db s)
    (hb : balance id db = some b) :
    (s.charge? id = none ∧ overwrites id db s = false ∧
      balance id (s.flush dbNow db) = some b) ∨
    ∃ credits r, s.charge? id = some credits ∧ LeftOf r b ∧
      (overwrites id db s = false ↔ b = r ∨ r ≤ credits ∨ credits = 0) ∧
      balance id (s.flush dbNow db) = some (column asIs r (spend r credits) b) := by
  obtain ⟨row, hrow, hlive⟩ := Option.bind_eq_some_iff.1 hb
  have hid : row.id = id := id_of_account? hrow
  rw [balance_of_flush hrow]
  subst hid
  rcases flushAccount_cases s row with ⟨he, hf⟩ | ⟨e, hmem, he, -, hf⟩ <;> rw [hf]
  · exact Or.inl ⟨by simp [Session.charge?, he], by simp [overwrites, he], hlive⟩
  · obtain ⟨r, b', hr, hb', hleft⟩ := hread e he
    obtain rfl : b = b' := Option.some.inj (hb.symm.trans hb')
    have hcolumn : (FirecrawlAccountRecord.flush e.object row).remainingCreditsLive =
        column asIs e.read.remainingCreditsLive e.object.value.remainingCreditsLive
          row.remainingCreditsLive := rfl
    rw [hcolumn, hlive]
    have hpost := hs.writes e hmem
    obtain ⟨read, write⟩ := e
    obtain hr : read.remainingCreditsLive = some r := hr
    cases write with
    | applySuccess credits =>
      have hvalue : (applySuccess credits read).remainingCreditsLive = some (spend r credits) := by
        rw [applySuccess_remainingCreditsLive, hr]
        rfl
      refine Or.inr ⟨credits, r, by simp [Session.charge?, he], hleft, ?_, ?_⟩
      · simp [overwrites, he, hr, hb]
        omega
      · simp only [AccountEdit.object, AccountWrite.apply, hvalue, hr, column_some]
    | markCreditExhausted | markRateLimited =>
      refine Or.inl ⟨by simp [Session.charge?, he], by simp [overwrites, he], ?_⟩
      exact column_unchanged
    | refreshSuccess | refreshError | operatorUpdate => cases hpost

theorem exists_balance_flush (hs : PostSession s) (hread : ReadBalance id db s)
    (hb : balance id db = some b) : ∃ b', balance id (s.flush dbNow db) = some b' := by
  obtain ⟨-, -, h⟩ | ⟨credits, r, -, -, -, h⟩ := balance_flush dbNow hs hread hb
  · exact ⟨_, h⟩
  · exact ⟨_, h⟩

/-- A charge that overwrites nothing leaves what it costs less. -/
theorem balance_flush_of_not_overwrites (dbNow : ℤ) (hs : PostSession s)
    (hread : ReadBalance id db s) (hb : balance id db = some b)
    (hcharge : ∀ c ∈ s.charge? id, 0 ≤ c) (hsafe : overwrites id db s = false) :
    balance id (s.flush dbNow db) = some ((s.charge? id).elim b (spend b)) := by
  obtain ⟨hc, -, h⟩ | ⟨credits, r, hc, hleft, hiff, h⟩ := balance_flush dbNow hs hread hb
  · rw [hc, h, Option.elim_none]
  · have hnonneg := hcharge credits hc
    have hspend : column asIs r (spend r credits) b = spend b credits :=
      (column_spend_iff (fun _ => rfl) hleft hnonneg).2 (hiff.1 hsafe)
    rw [hc, h, hspend, Option.elim_some]

theorem ReadBalance.flush {s' : Session} (h : ReadBalance id db s') (hs : PostSession s)
    (hread : ReadBalance id db s) (hcharge : ∀ c ∈ s.charge? id, 0 ≤ c)
    (hsafe : overwrites id db s = false) : ReadBalance id (s.flush dbNow db) s' := by
  intro e he
  obtain ⟨r, b, hr, hb, hleft⟩ := h e he
  refine ⟨r, _, hr, balance_flush_of_not_overwrites dbNow hs hread hb hcharge hsafe, ?_⟩
  cases hc : s.charge? id with
  | none => exact hleft
  | some c => exact hleft.spend (hcharge c hc)

end Flush

/-! ### Runs of POSTs -/

/-- What a task of a POST holds, and what it has read of the balance. -/
def ChargeTask (id : String) (db : Database) (t : Task) : Prop :=
  PostTask t ∧ ∀ session, t = .committing session → ReadBalance id db session

/-- The committed charges of the account. -/
def charged (id : String) (p : State) : ℤ := committedSum (fun s => (s.charge? id).getD 0) p

/-- The committed calls that charge the account. -/
def calls (id : String) (p : State) : ℤ :=
  committedSum (fun s => if (s.charge? id).isSome then 1 else 0) p

/-- **No decrement is lost**: the balance is what the committed charges left of `R`. -/
def Exact (id : String) (R : ℤ) (p : State) : Prop :=
  0 ≤ R ∨ 0 < calls id p → balance id p.store = some (max 0 (R - charged id p))

/-- The event belongs to a run of POSTs, and no charge it commits is negative. -/
def Charging (env : Env) (id : String) (p : State) (m : Event) : Prop :=
  startsPost m = true ∧ ∀ s ∈ commits env p m, ∀ c ∈ s.charge? id, 0 ≤ c

/-- The event commits nothing that overwrites a balance. -/
def Serial (env : Env) (id : String) (p : State) (m : Event) : Prop :=
  ∀ s ∈ commits env p m, overwrites id p.store s = false

instance {env : Env} {id : String} {p : State} {m : Event} : Decidable (Charging env id p m) :=
  inferInstanceAs (Decidable (_ ∧ _))

instance {env : Env} {id : String} {p : State} {m : Event} : Decidable (Serial env id p m) :=
  inferInstanceAs (Decidable (∀ s ∈ commits env p m, overwrites id p.store s = false))

section Runs

variable {env : Env} {id : String} {R : ℤ} {p p' : State} {m : Event} {ms : List Event}
  {db db' : Database} {t t' : Task} {a : Action}

theorem readBalance_of_nil {s : Session} (h : s.accounts = []) : ReadBalance id db s :=
  fun e he => by simp [Session.edit?, h] at he

theorem readBalance_get {s : Session} {target : RowWrite} (hb : ∃ b, balance id db = some b)
    (h : s.accounts = []) : ReadBalance id db (s.perform db target) := by
  rcases perform_cases s db target with hp | ⟨id', write, row, -, hrow, hp⟩ | ⟨e, hp⟩ <;> rw [hp]
  · exact readBalance_of_nil h
  · intro e he
    have hrowId : row.id = id' := id_of_account? hrow
    simp only [Session.edit?, h, List.nil_append, List.find?_cons, List.find?_nil] at he
    split at he
    · rename_i hid
      obtain rfl := Option.some.inj he
      obtain ⟨b, hb⟩ := hb
      obtain rfl : id' = id := hrowId.symm.trans (by simpa using hid)
      have hlive : row.remainingCreditsLive = some b := by simpa [balance, hrow] using hb
      exact ⟨b, b, hlive, hb, LeftOf.refl b⟩
    · cases he
  · exact readBalance_of_nil h

theorem chargeTask_steps (hI : ∃ b, balance id db = some b) (ht : ChargeTask id db t)
    (h : Steps env db t a db' t') : (∃ b, balance id db' = some b) ∧ ChargeTask id db' t' := by
  have hpost := postTask_steps ht.1 h
  cases h with
  | @answer post selected response now latencyMs session target h =>
    refine ⟨hI, hpost, fun s hs => ?_⟩
    obtain ⟨⟨log, rfl, -⟩, -⟩ := Post.answered_eq_ok h
    cases target with
    | none =>
      cases hs
      exact readBalance_of_nil rfl
    | some target => cases hs
  | get =>
    refine ⟨hI, hpost, fun s hs => ?_⟩
    cases hs
    exact readBalance_get hI ht.1.2.1
  | commit hb =>
    obtain ⟨b, hbal⟩ := hI
    exact ⟨exists_balance_flush ht.1 (ht.2 _ rfl) hbal, hpost, by simp⟩
  | refreshCredentials | select | fail => exact ⟨hI, hpost, by simp⟩
  | jobAnswer | selectCredentials | refreshAccount => exact ht.1.elim

/-- The tasks of such a run, and the balance they read and write. -/
def ChargeTasks (id : String) : State → Prop :=
  Asserts (fun db => ∃ b, balance id db = some b) (ChargeTask id)

theorem ChargeTasks.step (h : ChargeTasks id p) (hm : Charging env id p m)
    (hsafe : Serial env id p m) (hs : step env p m = some p') : ChargeTasks id p' := by
  have hspawn : ∀ (p : State) r, (∃ b, balance id p.store = some b) →
      Charging env id p (.spawn r) ∧ Serial env id p (.spawn r) →
      ChargeTask id p.store (spawn env p.store r) := by
    intro p r _ hr
    cases r with
    | post post =>
      exact ⟨postTask_starts (starts_spawn env p.store (.post post)), fun s hs => by cases hs⟩
    | _ => cases hr.1.1
  refine Program.inv_step (C := fun p m => Charging env id p m ∧ Serial env id p m) hspawn
    (fun p tid a t st t' hI ht _ _ ha => chargeTask_steps hI ht (steps_of_act ha))
    (fun p tid a t st t' u hI ht hu hC hget ha => ?_) h ⟨hm, hsafe⟩ hs
  -- what the other task has read survives the commit
  cases steps_of_act ha with
  | @commit session dbNow hb =>
    have hcommit : commits env p (.act tid (.commit dbNow)) = some session := by
      simp [commits, hget, hb]
    have hread : ReadBalance id p.store session := ht.2 session rfl
    exact ⟨hu.1, fun s hs => (hu.2 s hs).flush ht.1 hread (hC.1.2 _ hcommit) (hC.2 _ hcommit)⟩
  | _ => exact hu

/-- The invariant of a run without overwritten balances. -/
structure Metered (id : String) (R : ℤ) (p : State) : Prop where
  tasks : ChargeTasks id p
  nonneg : 0 ≤ calls id p
  free : calls id p = 0 → charged id p = 0
  live : balance id p.store = some (if calls id p = 0 then R else spend R (charged id p))

theorem Metered.exact (h : Metered id R p) : Exact id R p := by
  intro hR
  rw [h.live]
  split_ifs with hcalls
  · have hR : 0 ≤ R := hR.resolve_right (by omega)
    rw [h.free hcalls, sub_zero, max_eq_right hR]
  · rfl

theorem Metered.spend (h : Metered id R p) {c : ℤ} (hc : 0 ≤ c) :
    Lib.spend (if calls id p = 0 then R else Lib.spend R (charged id p)) c =
      Lib.spend R (charged id p + c) := by
  split_ifs with hcalls
  · rw [h.free hcalls, zero_add]
  · exact spend_spend R (charged id p) hc

theorem Metered.step (h : Metered id R p) (hm : Charging env id p m) (hsafe : Serial env id p m)
    (hs : step env p m = some p') : Metered id R p' := by
  have htasks := h.tasks.step hm hsafe hs
  rcases step_store hs with ⟨-, hstore, hsum⟩ | ⟨s, dbNow, hcommit, hmem, -, hstore, hsum⟩
  · have hcalls : calls id p' = calls id p := hsum _
    have hcharged : charged id p' = charged id p := hsum _
    exact ⟨htasks, hcalls ▸ h.nonneg, by rw [hcalls, hcharged]; exact h.free,
      by rw [hstore, hcalls, hcharged]; exact h.live⟩
  · have hcalls : calls id p' = calls id p + if (s.charge? id).isSome then 1 else 0 := hsum _
    have hcharged : charged id p' = charged id p + (s.charge? id).getD 0 := hsum _
    have hnonneg := hm.2 s hcommit
    have ht := h.tasks.2 _ hmem
    have hflush := balance_flush_of_not_overwrites dbNow ht.1 (ht.2 s rfl) h.live hnonneg
      (hsafe s hcommit)
    have hpos := h.nonneg
    rw [← hstore] at hflush
    cases hc : s.charge? id with
    | none =>
      simp only [hc, Option.isSome_none, Bool.false_eq_true, if_false, add_zero,
        Option.getD_none, Option.elim_none] at hcalls hcharged hflush
      exact ⟨htasks, by omega, by rw [hcalls, hcharged]; exact h.free,
        by rw [hcalls, hcharged]; exact hflush⟩
    | some c =>
      simp only [hc, Option.isSome_some, if_true, Option.getD_some, Option.elim_some]
        at hcalls hcharged hflush
      refine ⟨htasks, by omega, by omega, ?_⟩
      rw [if_neg (by omega), hflush, h.spend (hnonneg c hc), hcharged]

/-- **The commits of a run lose no decrement** exactly when none of them overwrites a balance: each
finds the balance its call has read, or charges nothing, or uses up what was read. -/
theorem always_exact_iff (hR : balance id db = some R)
    (hms : Meets (step env) (Charging env id) ⟨db, []⟩ ms) :
    Always (step env) (Exact id R) ⟨db, []⟩ ms ↔
      Meets (step env) (Serial env id) ⟨db, []⟩ ms := by
  have hstart : Metered id R ⟨db, []⟩ := ⟨⟨⟨R, hR⟩, by simp⟩, le_rfl, fun _ => rfl, hR⟩
  have hiff : ∀ p m, Metered id R p → Charging env id p m → Exact id R p →
      ((∀ p', step env p m = some p' → Exact id R p') ↔ Serial env id p m) := by
    intro p m hI hm _
    constructor
    · intro hnext s hcommit
      obtain ⟨p', hs⟩ := step_of_commits hcommit
      obtain ⟨hmem, dbNow, hstore, hsum⟩ := store_of_commits hcommit hs
      have ht := hI.tasks.2 _ hmem
      rcases balance_flush dbNow ht.1 (ht.2 s rfl) hI.live with ⟨-, hsafe, -⟩ |
        ⟨c, r, hc, hleft, hiff, hflush⟩
      · exact hsafe
      · have hnonneg : 0 ≤ c := hm.2 s hcommit c hc
        have hcalls : calls id p' = calls id p + if (s.charge? id).isSome then 1 else 0 := hsum _
        have hcharged : charged id p' = charged id p + (s.charge? id).getD 0 := hsum _
        simp only [hc, Option.isSome_some, if_true, Option.getD_some] at hcalls hcharged
        have hpos := hI.nonneg
        have hexact := hnext p' hs (Or.inr (by omega))
        rw [hstore, hflush, hcharged] at hexact
        have hcolumn := (Option.some.inj hexact).trans (hI.spend hnonneg).symm
        exact hiff.2 ((column_spend_iff (fun _ => rfl) hleft hnonneg).1 hcolumn)
    · intro hsafe p' hs
      exact (hI.step hm hsafe hs).exact
  exact always_iff_meets (fun p m p' hI hm hsafe hs => hI.step hm hsafe hs) hiff hstart hms
    hstart.exact

/-- An answer that reports the credits used. -/
def usedResponse (credits : ℤ) : FirecrawlUpstreamResponse where
  status := 200
  jsonBody := some [("creditsUsed", .int credits)]

/-- Two calls of seven and five credits read the balance of 100 before either of them commits, and
95 are left. -/
theorem not_exact_sample : let env := sampleEnv .postgresql
    let p : State := ⟨(sampleState .postgresql).store, []⟩
    let ms := sendPost 0 mapPost 0 ++ sendPost 1 mapPost 0 ++
      [.act 0 (.answer (usedResponse 7) 0 0), .act 0 .get, .act 1 (.answer (usedResponse 5) 0 0),
        .act 1 .get, .act 0 (.commit 0), .act 1 (.commit 0)]
    let p' := after env p ms
    balance "account-1" p.store = some 100 ∧
    Meets (step env) (Charging env "account-1") p ms ∧ Run.run (step env) p ms = some p' ∧
    calls "account-1" p' = 2 ∧ charged "account-1" p' = 12 ∧
    p'.tasks.all Task.finished = true ∧ balance "account-1" p'.store = some 95 ∧
    ¬ Exact "account-1" 100 p' :=
  ⟨by decide, by decide, run_after (by decide), by decide, by decide, by decide, by decide,
    fun h => absurd (h (by decide)) (by decide)⟩

/-- The two calls read and commit one after the other. -/
theorem always_exact_sample : let env := sampleEnv .postgresql
    Always (step env) (Exact "account-1" 100) ⟨(sampleState .postgresql).store, []⟩
      (sendPost 0 mapPost 0 ++ sendPost 1 mapPost 0 ++ settle 0 (usedResponse 7) 0 ++
        settle 1 (usedResponse 5) 0) :=
  (always_exact_iff (by decide) (by decide)).2 (by decide)

end Runs

end FirecrawlLb.Firecrawl.Charges
