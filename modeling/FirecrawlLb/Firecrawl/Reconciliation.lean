import FirecrawlLb.Firecrawl.Ledger
import Mathlib.Algebra.BigOperators.Group.Finset.Piecewise
import Mathlib.Algebra.Order.BigOperators.Group.Finset

/-!
# Settlement beside refresh

Two mechanisms write the balance of an account: a refresh stores the balance the upstream reports,
and a settlement takes the credits of a job off the local one.  The upstream deducts the credits of
a job while it runs, so a refreshed balance may contain them already.  The local balance stays at or
above that of the upstream when every job whose credits were deducted is settled before a refresh.
-/

namespace FirecrawlLb.Firecrawl.Reconciliation

open FirecrawlLb.Lib FirecrawlLb.Lib.Run FirecrawlLb.Python FirecrawlLb.Db.Models
open FirecrawlLb.Firecrawl.Models FirecrawlLb.Firecrawl.Usage FirecrawlLb.Firecrawl.Repository
open FirecrawlLb.Firecrawl.Service FirecrawlLb.Firecrawl.Refresh FirecrawlLb.Firecrawl.System
open FirecrawlLb.Firecrawl.Stored FirecrawlLb.Firecrawl.Charges FirecrawlLb.Firecrawl.Ledger
open FirecrawlLb.Firecrawl.Settlement (completedResponse)

/-! ### A refresh pass -/

/-- What a refresh pass does to the record of one account, once its key is decrypted. -/
def refreshEdit (env : Env) (now : ℤ) (answers : String → RequestResult × RequestResult)
    (target : FirecrawlAccountRecord × FirecrawlCredentialRecord) : Except Raised AccountEdit :=
  match env.decrypt target.2.apiKeyEncrypted with
  | some _ => .ok ⟨target.1,
      refreshAccount env (answers target.1.id).1 (answers target.1.id).2 (.naive now)⟩
  | none => .error .invalidToken

/-- `refresh_once`, with no other call in between; `answers` are those about each account. -/
def refreshOnce (env : Env) (db : Database) (now : ℤ)
    (answers : String → RequestResult × RequestResult) (committedAt : ℤ) :
    Except Raised Database := do
  let edits ← (refreshTargets db (orderById db.accounts)).mapM (refreshEdit env now answers)
  Session.commit { accounts := edits } env.backend committedAt db

/-- The balance a pass stores for an account. -/
def refreshedBalance (env : Env) (now : ℤ) (answers : String → RequestResult × RequestResult)
    (id : String) : Option ℤ :=
  match refreshAccount env (answers id).1 (answers id).2 (.naive now) with
  | .refreshSuccess r => r.remainingCredits
  | _ => none

section Refresh

variable {env : Env} {db db' : Database} {now committedAt : ℤ} {id : String}
  {answers : String → RequestResult × RequestResult}

theorem refreshOnce_eq_ok (h : refreshOnce env db now answers committedAt = .ok db') :
    ∃ edits : List AccountEdit,
      (∀ e ∈ edits, ∃ row ∈ db.accounts, e = ⟨row,
        refreshAccount env (answers row.id).1 (answers row.id).2 (.naive now)⟩) ∧
      db' = Session.flush { accounts := edits } committedAt db := by
  unfold refreshOnce at h
  obtain ⟨edits, hedits, h⟩ := bind_eq_ok.1 h
  refine ⟨edits, fun e he => ?_, (commit_eq_ok.1 h).2⟩
  obtain ⟨target, htarget, hedit⟩ := exists_of_mem_mapM hedits he
  obtain ⟨row, hrow, hc⟩ := List.mem_filterMap.1 htarget
  obtain ⟨credential, -, rfl⟩ := Option.map_eq_some_iff.1 hc
  refine ⟨row, mem_orderById.1 hrow, ?_⟩
  unfold refreshEdit at hedit
  split at hedit
  · exact (Except.ok.inj hedit).symm
  · cases hedit

/-- **The balance after a pass**: the reported one, or the old one. -/
theorem balance_refreshOnce (hids : (db.accounts.map (·.id)).Nodup)
    (h : refreshOnce env db now answers committedAt = .ok db') :
    balance id db' = balance id db ∨
      ∃ n, refreshedBalance env now answers id = some n ∧ balance id db' = some n := by
  obtain ⟨edits, hedits, rfl⟩ := refreshOnce_eq_ok h
  cases hget : db.account? id with
  | none =>
    left
    have hnone : (Session.flush { accounts := edits } committedAt db).account? id = none :=
      account?_flush_of_none rfl hget
    simp [balance, hget, hnone]
  | some row =>
    obtain rfl : row.id = id := id_of_account? hget
    have hbefore : balance row.id db = row.remainingCreditsLive := by simp [balance, hget]
    rw [balance_of_flush hget, hbefore]
    rcases flushAccount_cases { accounts := edits } row with ⟨-, hf⟩ | ⟨e, hmem, -, hid, hf⟩
    · exact Or.inl (by rw [hf])
    · obtain ⟨read, hread, rfl⟩ := hedits e hmem
      -- the ids differ, so the pass writes to the row that it has read
      obtain rfl : read = row :=
        List.inj_on_of_nodup_map hids hread (List.mem_of_find?_eq_some hget) hid
      rw [hf]
      have hcolumn : ∀ write : AccountWrite,
          (FirecrawlAccountRecord.flush (AccountEdit.mk read write).object
            read).remainingCreditsLive = (write.apply read).remainingCreditsLive :=
        fun write => column_fresh rfl
      rw [hcolumn]
      unfold refreshedBalance refreshAccount
      cases refreshSuccess env (answers read.id).1 (answers read.id).2 (.naive now) with
      | error failure => exact Or.inl rfl
      | ok r =>
        simp only [AccountWrite.apply, updateAccountRefreshSuccess]
        cases r.remainingCredits with
        | none => exact Or.inl rfl
        | some n => exact Or.inr ⟨n, rfl, rfl⟩

end Refresh

/-! ### The deployment and its upstream -/

/-- The database, the balance of the team at the upstream, and what the upstream has deducted for
each job by its endpoint and id. -/
structure World where
  db : Database
  teamBalance : ℤ
  deducted : String → String → ℕ

inductive Event where
  /-- A job runs, and the upstream deducts credits for it. -/
  | consume (endpoint upstreamJobId : String) (credits : ℕ)
  /-- A call, for whose answer the upstream deducts credits. -/
  | call (call : Call) (x : Exchange) (credits : ℤ)
  | refresh (now : ℤ) (answers : String → RequestResult × RequestResult) (committedAt : ℤ)

def step (env : Env) (w : World) : Event → Option World
  | .consume endpoint upstreamJobId credits => some { w with
      teamBalance := w.teamBalance - credits
      deducted := fun e j => w.deducted e j +
        if e = endpoint ∧ j = upstreamJobId then credits else 0 }
  | .call call x credits => (serve env w.db (call, x)).map fun db =>
      { w with db := db, teamBalance := w.teamBalance - credits }
  | .refresh now answers committedAt =>
    (refreshOnce env w.db now answers committedAt).toOption.map fun db => { w with db := db }

/-- What the upstream has deducted for the job of a job operation. -/
def deductedFor (w : World) : Call → ℕ
  | .jobOperation endpoint upstreamJobId _ => w.deducted endpoint upstreamJobId
  | _ => 0

/-- **Exact numbers**, for the account: an answer reports as its `creditsUsed` what was deducted for
it, a settling poll what was deducted for its job, and a refresh the balance of the team. -/
def Exact (env : Env) (id : String) (w : World) : Event → Prop
  | .consume _ _ _ => True
  | .call call x credits =>
    (∀ c ∈ served env id w.db (call, x),
      responseCreditsUsed x.response.jsonBody = some c ∧ credits = c) ∧
    (served env id w.db (call, x) = none → credits = 0) ∧
    ∀ c ∈ settled env id w.db (call, x), c = deductedFor w call
  | .refresh now answers _ => ∀ n ∈ refreshedBalance env now answers id, n = w.teamBalance

/-- A poll has settled the job. -/
def JobSettled (db : Database) (endpoint upstreamJobId : String) : Prop :=
  ∃ job ∈ db.jobs, job.endpoint = endpoint ∧ job.upstreamJobId = some upstreamJobId ∧
    job.creditsUsedFinal ≠ none

/-- No job whose credits were deducted has still to be settled. -/
def Reconciled (w : World) : Prop :=
  ∀ endpoint upstreamJobId, w.deducted endpoint upstreamJobId ≠ 0 →
    JobSettled w.db endpoint upstreamJobId

/-- **The order of refresh and settlement**: a refresh stores a balance of the account only when no
settlement is due. -/
def InOrder (env : Env) (id : String) (w : World) : Event → Prop
  | .refresh now answers _ => refreshedBalance env now answers id ≠ none → Reconciled w
  | _ => True

/-- The local balance is not below that of the team. -/
def NotBelow (id : String) (w : World) : Prop := ∀ b ∈ balance id w.db, w.teamBalance ≤ b

section Worlds

variable {env : Env} {id : String} {w w' : World} {e : Event} {db db' : Database}

instance : Decidable (Exact env id w e) := by
  cases e <;> unfold Exact <;> infer_instance

instance (endpoint upstreamJobId : String) : Decidable (JobSettled db endpoint upstreamJobId) :=
  inferInstanceAs (Decidable (∃ job ∈ db.jobs, _))

theorem nodup_step (hids : (w.db.accounts.map (·.id)).Nodup) (h : step env w e = some w') :
    (w'.db.accounts.map (·.id)).Nodup := by
  cases e with
  | consume endpoint upstreamJobId credits =>
    obtain rfl := Option.some.inj h
    exact hids
  | call call x credits =>
    obtain ⟨db', hserve, rfl⟩ := Option.map_eq_some_iff.1 h
    exact (accounts_ids_serve hserve).symm ▸ hids
  | refresh now answers committedAt =>
    obtain ⟨db', hpass, rfl⟩ := Option.map_eq_some_iff.1 h
    obtain ⟨edits, -, rfl⟩ := refreshOnce_eq_ok (toOption_eq_some.1 hpass)
    rw [flush_accounts_ids]
    simpa using hids

/-! ### The settlements that are due -/

theorem jobSettled_serve {c : Call × Exchange} {endpoint upstreamJobId : String}
    (hids : JobIds db) (hserve : serve env db c = some db')
    (h : JobSettled db endpoint upstreamJobId) : JobSettled db' endpoint upstreamJobId := by
  obtain ⟨row, hrow, hendpoint, hjobId, hfinal⟩ := h
  cases serves_of_serve hserve with
  | @post call p x selected session target hp hpost ha =>
    have hjob : (session.perform? db target).job = none :=
      (perform?_keeps session db target).1.trans (newJob_of_answered ha).1
    exact ⟨row, mem_flush_jobs.2 (Or.inl ⟨row, hrow, flushJob_of_none hjob row⟩), hendpoint, hjobId,
      hfinal⟩
  | notForwarded => exact ⟨row, hrow, hendpoint, hjobId, hfinal⟩
  | @jobOperation endpoint' upstreamJobId' method x job hjob hop =>
    obtain ⟨-, hkeptEndpoint, hkeptJobId⟩ := flushJob_key (polledSession db method job x) row
    refine ⟨_, mem_flush_jobs.2 (Or.inl ⟨row, hrow, rfl⟩), hkeptEndpoint.trans hendpoint,
      hkeptJobId.trans hjobId, ?_⟩
    by_cases hid : row.id = job.id
    · obtain rfl : row = job := List.inj_on_of_nodup_map hids.nodup hrow
        (mem_of_getJobRecord hjob).1.1 hid
      obtain ⟨credits, hcredits⟩ := Option.ne_none_iff_exists'.1 hfinal
      rw [creditsUsedFinal_polled, hcredits]
      nofun
    · rwa [flushJob_polled_of_ne db method x hid]

/-- A poll that charges the account settles its job, which was not settled. -/
theorem jobSettled_of_settled {call : Call} {x : Exchange} {c : ℤ}
    (hserve : serve env db (call, x) = some db') (hc : settled env id db (call, x) = some c) :
    ∃ endpoint upstreamJobId method, call = .jobOperation endpoint upstreamJobId method ∧
      ¬ JobSettled db endpoint upstreamJobId ∧ JobSettled db' endpoint upstreamJobId := by
  cases serves_of_serve hserve with
  | @post call p x selected session target hp hpost ha =>
    rw [settled_of_post hp] at hc
    cases hc
  | notForwarded hop => simp [settled, hop] at hc
  | @jobOperation endpoint upstreamJobId method x job hjob hop =>
    obtain ⟨⟨hmem, hendpoint, hjobId⟩, honly⟩ := mem_of_getJobRecord hjob
    simp only [settled, hop] at hc
    split_ifs at hc with howned
    refine ⟨endpoint, upstreamJobId, method, rfl, ?_, ?_⟩
    · rintro ⟨row, hrow, hrowEndpoint, hrowJobId, hfinal⟩
      rw [honly row hrow hrowEndpoint hrowJobId] at hfinal
      exact hfinal howned.2
    · obtain ⟨-, hkeptEndpoint, hkeptJobId⟩ := flushJob_key (polledSession db method job x) job
      refine ⟨_, mem_flush_jobs.2 (Or.inl ⟨job, hmem, rfl⟩), hkeptEndpoint.trans hendpoint,
        hkeptJobId.trans hjobId, ?_⟩
      rw [creditsUsedFinal_polled, howned.2, hc]
      exact Option.some_ne_none c

/-- The credits deducted for a job that has still to be settled. -/
def due (w : World) (key : String × String) : ℤ :=
  if JobSettled w.db key.1 key.2 then 0 else w.deducted key.1 key.2

/-- **The invariant**: the local balance is ahead of the team's by all credits that are due, those
of the jobs `keys`. -/
def AheadBy (id : String) (w : World) (keys : Finset (String × String)) : Prop :=
  (∀ key ∉ keys, due w key = 0) ∧ ∀ b ∈ balance id w.db, w.teamBalance + keys.sum (due w) ≤ b

theorem due_nonneg (w : World) (key : String × String) : 0 ≤ due w key := by
  unfold due
  split_ifs
  · exact le_rfl
  · exact Int.natCast_nonneg _

theorem due_of_reconciled (h : Reconciled w) (key : String × String) : due w key = 0 := by
  unfold due
  split_ifs with hsettled
  · rfl
  · by_contra hne
    exact hsettled (h key.1 key.2 (by exact_mod_cast hne))

theorem AheadBy.notBelow {keys : Finset (String × String)} (h : AheadBy id w keys) :
    NotBelow id w := by
  intro b hb
  have hsum : 0 ≤ keys.sum (due w) := Finset.sum_nonneg fun key _ => due_nonneg w key
  exact (le_add_of_nonneg_right hsum).trans (h.2 b hb)

theorem AheadBy.with_key {keys : Finset (String × String)} (h : AheadBy id w keys)
    (key : String × String) : AheadBy id w (insert key keys) := by
  obtain ⟨hrest, hahead⟩ := h
  refine ⟨fun k hk => hrest k fun hmem => hk (Finset.mem_insert_of_mem hmem), fun b hb => ?_⟩
  rw [Finset.sum_insert_of_eq_zero_if_notMem (hrest key)]
  exact hahead b hb

/-- The upstream deducts what is due from then on, or what is already settled. -/
theorem AheadBy.consume {keys : Finset (String × String)} (h : AheadBy id w keys)
    {endpoint upstreamJobId : String} {credits : ℕ}
    (hs : step env w (.consume endpoint upstreamJobId credits) = some w') :
    ∃ keys', AheadBy id w' keys' := by
  obtain rfl := Option.some.inj hs
  let key₀ := (endpoint, upstreamJobId)
  obtain ⟨hrest, hahead⟩ := h.with_key key₀
  set keys' := insert key₀ keys
  set w' : World := ⟨w.db, _, _⟩
  have hdue : ∀ key, due w' key ≤ due w key + if key₀ = key then (credits : ℤ) else 0 := by
    rintro ⟨e, j⟩
    by_cases hsettled : JobSettled w.db e j
    · simp only [due, w', hsettled, if_true, zero_add]
      split_ifs <;> simp
    · simp only [due, w', hsettled, if_false, key₀, Prod.mk.injEq, eq_comm (a := endpoint),
        eq_comm (a := upstreamJobId)]
      split_ifs <;> simp
  refine ⟨keys', fun key hkey => le_antisymm ?_ (due_nonneg w' key), fun b hb => ?_⟩
  · have hne : key₀ ≠ key := fun heq => hkey (heq ▸ Finset.mem_insert_self _ _)
    have hle := hdue key
    rwa [hrest key hkey, if_neg hne, zero_add] at hle
  · have hsum : keys'.sum (due w') ≤ keys'.sum (due w) + credits := by
      refine (Finset.sum_le_sum fun key _ => hdue key).trans ?_
      rw [Finset.sum_add_distrib, Finset.sum_ite_eq, if_pos (Finset.mem_insert_self _ _)]
    have hb := hahead b hb
    have hteam : w'.teamBalance = w.teamBalance - credits := rfl
    omega

theorem due_serve_le {c : Call × Exchange} (hids : JobIds w.db)
    (hserve : serve env w.db c = some db') (teamBalance : ℤ) (key : String × String) :
    due ⟨db', teamBalance, w.deducted⟩ key ≤ due w key := by
  by_cases hsettled : JobSettled w.db key.1 key.2
  · have hstill := jobSettled_serve hids hserve hsettled
    simp [due, hsettled, hstill]
  · have hdue : due w key = w.deducted key.1 key.2 := if_neg hsettled
    rw [hdue]
    unfold due
    split_ifs
    · exact Int.natCast_nonneg _
    · exact le_rfl

theorem due_serve_eq_zero {c : Call × Exchange} (hids : JobIds w.db)
    (hserve : serve env w.db c = some db') (teamBalance : ℤ) {key : String × String}
    (hkey : due w key = 0) : due ⟨db', teamBalance, w.deducted⟩ key = 0 :=
  le_antisymm (hkey ▸ due_serve_le hids hserve teamBalance key) (due_nonneg _ key)

/-- A call that settles nothing takes the same off both balances. -/
theorem AheadBy.unsettled {keys : Finset (String × String)} (h : AheadBy id w keys)
    {c : Call × Exchange} {credits : ℤ} (hids : JobIds w.db)
    (hserve : serve env w.db c = some db') (hsettled : settled env id w.db c = none)
    (hserved : (served env id w.db c).getD 0 = credits) :
    AheadBy id ⟨db', w.teamBalance - credits, w.deducted⟩ keys := by
  refine ⟨fun key hkey => due_serve_eq_zero hids hserve _ (h.1 key hkey), fun b' hb' => ?_⟩
  have hsum : keys.sum (due ⟨db', w.teamBalance - credits, w.deducted⟩) ≤ keys.sum (due w) :=
    Finset.sum_le_sum fun key _ => due_serve_le hids hserve _ key
  rw [balance_serve hserve, charges, hsettled] at hb'
  obtain ⟨b, hb, rfl⟩ := Option.map_eq_some_iff.1 hb'
  have hspend : b - credits ≤ (served env id w.db c <|> none).elim b (spend b) := by
    rw [← hserved]
    cases served env id w.db c with
    | none => simp
    | some n => exact le_max_right _ _
  have hahead := h.2 b hb
  refine le_trans ?_ hspend
  show w.teamBalance - credits + _ ≤ b - credits
  omega

/-- A settlement takes off what was due for its job, and nothing is due for it then. -/
theorem AheadBy.settle {keys : Finset (String × String)} (h : AheadBy id w keys) {call : Call}
    {x : Exchange} {c : ℤ} (hids : JobIds w.db) (hserve : serve env w.db (call, x) = some db')
    (hserved : served env id w.db (call, x) = none)
    (hsettled : settled env id w.db (call, x) = some c) (hc : c = deductedFor w call) :
    ∃ keys', AheadBy id ⟨db', w.teamBalance, w.deducted⟩ keys' := by
  obtain ⟨endpoint, upstreamJobId, method, rfl, hbefore, hafter⟩ :=
    jobSettled_of_settled hserve hsettled
  set key₀ := (endpoint, upstreamJobId)
  have hdue : due w key₀ = c := (if_neg hbefore).trans hc.symm
  have hdone : due ⟨db', w.teamBalance, w.deducted⟩ key₀ = 0 := if_pos hafter
  obtain ⟨hrest, hahead⟩ := h.with_key key₀
  refine ⟨insert key₀ keys, fun key hkey => due_serve_eq_zero hids hserve _ (hrest key hkey),
    fun b' hb' => ?_⟩
  rw [balance_serve hserve, charges, hserved, hsettled] at hb'
  obtain ⟨b, hb, rfl⟩ := Option.map_eq_some_iff.1 hb'
  have hahead := hahead b hb
  have hmem := Finset.mem_insert_self key₀ keys
  have hothers := Finset.sum_le_sum (s := (insert key₀ keys).erase key₀) fun key _ =>
    due_serve_le hids hserve w.teamBalance key
  rw [← Finset.add_sum_erase _ _ hmem, hdue] at hahead
  rw [← Finset.add_sum_erase _ _ hmem, hdone]
  refine le_max_of_le_right ?_
  show w.teamBalance + _ ≤ b - c
  omega

theorem AheadBy.call {keys : Finset (String × String)} (h : AheadBy id w keys) {call : Call}
    {x : Exchange} {credits : ℤ} (hids : JobIds w.db) (hserve : serve env w.db (call, x) = some db')
    (hexact : Exact env id w (.call call x credits)) :
    ∃ keys', AheadBy id { w with db := db', teamBalance := w.teamBalance - credits } keys' := by
  obtain ⟨hserved, hidle, hsettles⟩ := hexact
  cases hset : settled env id w.db (call, x) with
  | none =>
    refine ⟨keys, h.unsettled hids hserve hset ?_⟩
    cases hs : served env id w.db (call, x) with
    | none => exact (hidle hs).symm
    | some c => exact (hserved c hs).2.symm
  | some c =>
    -- only a job operation settles, and it serves nothing itself
    obtain ⟨endpoint, upstreamJobId, method, rfl, -, -⟩ := jobSettled_of_settled hserve hset
    obtain rfl := hidle rfl
    rw [sub_zero]
    exact h.settle hids hserve rfl hset (hsettles c hset)

/-- A refresh leaves the local balance, or nothing is due. -/
theorem AheadBy.refresh {keys : Finset (String × String)} (h : AheadBy id w keys)
    {now committedAt : ℤ} {answers : String → RequestResult × RequestResult}
    (hids : (w.db.accounts.map (·.id)).Nodup)
    (hpass : refreshOnce env w.db now answers committedAt = .ok db')
    (hexact : Exact env id w (.refresh now answers committedAt))
    (horder : InOrder env id w (.refresh now answers committedAt)) :
    AheadBy id { w with db := db' } keys := by
  obtain ⟨edits, -, hdb⟩ := refreshOnce_eq_ok hpass
  have hjobs : db'.jobs = w.db.jobs := by
    rw [hdb]
    exact (List.append_nil _).trans (List.map_id _)
  have hdue : ∀ key, due { w with db := db' } key = due w key := fun key =>
    if_congr (by simp only [JobSettled, hjobs]) rfl rfl
  refine ⟨fun key hkey => (hdue key).trans (h.1 key hkey), fun b hb => ?_⟩
  rw [Finset.sum_congr rfl fun key _ => hdue key]
  rcases balance_refreshOnce hids hpass with hsame | ⟨n, hn, hnew⟩
  · exact h.2 b (hsame ▸ hb)
  · obtain rfl : n = b := Option.some.inj (hnew.symm.trans hb)
    have hreconciled : Reconciled w := horder (by rw [hn]; nofun)
    rw [Finset.sum_eq_zero fun key _ => due_of_reconciled hreconciled key, add_zero]
    exact (hexact n hn).ge

/-- **One step** keeps the local balance ahead by what is due. -/
theorem exists_aheadBy_step {keys : Finset (String × String)} (h : AheadBy id w keys)
    (hids : (w.db.accounts.map (·.id)).Nodup) (hjobIds : JobIds w.db)
    (hexact : Exact env id w e) (horder : InOrder env id w e) (hs : step env w e = some w') :
    ∃ keys', AheadBy id w' keys' := by
  cases e with
  | consume endpoint upstreamJobId credits => exact h.consume hs
  | call call x credits =>
    obtain ⟨db', hserve, rfl⟩ := Option.map_eq_some_iff.1 hs
    exact h.call hjobIds hserve hexact
  | refresh now answers committedAt =>
    obtain ⟨db', hpass, rfl⟩ := Option.map_eq_some_iff.1 hs
    exact ⟨keys, h.refresh hids (toOption_eq_some.1 hpass) hexact horder⟩

theorem jobIds_step (hjobIds : JobIds w.db) (hs : step env w e = some w') : JobIds w'.db := by
  cases e with
  | consume endpoint upstreamJobId credits =>
    obtain rfl := Option.some.inj hs
    exact hjobIds
  | call call x credits =>
    obtain ⟨db', hserve, rfl⟩ := Option.map_eq_some_iff.1 hs
    exact hjobIds.serve hserve
  | refresh now answers committedAt =>
    obtain ⟨db', hpass, rfl⟩ := Option.map_eq_some_iff.1 hs
    obtain ⟨edits, -, rfl⟩ := refreshOnce_eq_ok (toOption_eq_some.1 hpass)
    exact hjobIds.flush

/-- **The local balance stays at or above that of the upstream**, along a run with exact numbers
that starts with no settlement due, when each refresh that stores a balance finds none due either.
The code does not see to the order: a settlement takes its credits off a balance that a refresh has
just stored. -/
theorem notBelow_of_inOrder (hids : (w.db.accounts.map (·.id)).Nodup) (hjobIds : JobIds w.db) :
    (∀ es, Meets (step env) (Exact env id) w es → NotBelow id w → Reconciled w →
      Meets (step env) (InOrder env id) w es → Always (step env) (NotBelow id) w es) ∧
    (∀ call x c db', balance id w.db = some w.teamBalance → 0 < w.teamBalance →
      serve env w.db (call, x) = some db' → settled env id w.db (call, x) = some c → 0 < c →
      ¬ NotBelow id { w with db := db' }) := by
  constructor
  · intro es hexact hstart hreconciled horder
    have hahead : AheadBy id w ∅ :=
      ⟨fun key _ => due_of_reconciled hreconciled key, fun b hb => by simpa using hstart b hb⟩
    refine (always_of_meets (I := fun w => ((w.db.accounts.map (·.id)).Nodup ∧ JobIds w.db) ∧
      ∃ keys, AheadBy id w keys) ?_ ⟨⟨hids, hjobIds⟩, ∅, hahead⟩ (hexact.and horder)).mono
      fun w h => h.2.elim fun keys hkeys => hkeys.notBelow
    rintro w e w' ⟨⟨hids, hjobIds⟩, keys, hkeys⟩ ⟨hexact, horder⟩ hs
    exact ⟨⟨nodup_step hids hs, jobIds_step hjobIds hs⟩,
      exists_aheadBy_step hkeys hids hjobIds hexact horder hs⟩
  · intro call x c db' hbalance hpositive hserve hsettled hc hnotBelow
    -- only a job operation settles, and it serves nothing itself
    have hserved : served env id w.db (call, x) = none := by
      cases call with
      | proxy | submitJob => cases hsettled
      | jobOperation => rfl
    have hafter : balance id db' = some (spend w.teamBalance c) := by
      rw [balance_serve hserve, hbalance, charges, hserved, hsettled]
      rfl
    have hle : w.teamBalance ≤ max 0 (w.teamBalance - c) := hnotBelow _ hafter
    omega

/-- The crawl of the sample account is submitted. -/
def submitSample : Event :=
  .call (.submitJob "crawl" "/v2/crawl" [] none)
    ⟨0, { status := 200, jsonBody := some [("id", .str "job-1")] }, 0, 0, 0⟩ 0

/-- A poll reports that the crawl has used seven credits. -/
def pollSample : Event :=
  .call (.jobOperation "crawl" "job-1" .get) ⟨0, completedResponse, 0, 0, 0⟩ 0

/-- A refresh pass that is told a balance of `n`. -/
def refreshSample (n : ℤ) : Event :=
  .refresh 0 (fun _ =>
    (.answered { status := 200, jsonBody := some [("remainingCredits", .int n)] },
      .answered { status := 200, jsonBody := some [] })) 0

/-- The sample account with its 100 credits. -/
def sampleWorld : World := ⟨(sampleState .sqlite).store, 100, fun _ _ => 0⟩

/-- The crawl uses seven credits, a refresh stores the 93 left, and the settlement takes seven off
them. -/
theorem not_notBelow_sample : let env := sampleEnv .sqlite
    let es := [submitSample, .consume "crawl" "job-1" 7, refreshSample 93, pollSample]
    NotBelow "account-1" sampleWorld ∧ Meets (step env) (Exact env "account-1") sampleWorld es ∧
    ∃ w, run (step env) sampleWorld es = some w ∧ w.teamBalance = 93 ∧
      balance "account-1" w.db = some 86 ∧
      ¬ Always (step env) (NotBelow "account-1") sampleWorld es := by
  intro env es
  have hrun : run (step env) sampleWorld es = some _ := rfl
  refine ⟨?_, by decide, _, hrun, rfl, by decide, fun h => ?_⟩
  · intro b hb
    have h100 : balance "account-1" sampleWorld.db = some 100 := by decide
    exact (Option.some.inj (h100.symm.trans hb)).le
  · exact absurd (h.last hrun 86 (by decide)) (by decide)

/-- The world after the settlement of a crawl that ran after the last pass. -/
def settledWorld : World :=
  (run (step (sampleEnv .sqlite)) sampleWorld
    [refreshSample 100, submitSample, .consume "crawl" "job-1" 7, pollSample]).getD sampleWorld

theorem reconciled_settledWorld : Reconciled settledWorld := by
  intro endpoint upstreamJobId hne
  have hdeducted : settledWorld.deducted endpoint upstreamJobId =
      0 + if endpoint = "crawl" ∧ upstreamJobId = "job-1" then 7 else 0 := rfl
  by_cases hjob : endpoint = "crawl" ∧ upstreamJobId = "job-1"
  · obtain ⟨rfl, rfl⟩ := hjob
    decide
  · rw [hdeducted, if_neg hjob] at hne
    exact absurd rfl hne

/-- One pass comes before the crawl runs, another one after it has settled. -/
theorem notBelow_of_inOrder_sample : Always (step (sampleEnv .sqlite)) (NotBelow "account-1")
    sampleWorld [refreshSample 100, submitSample, .consume "crawl" "job-1" 7, pollSample,
      refreshSample 93] := by
  have hids : (sampleWorld.db.accounts.map (·.id)).Nodup := by decide
  have hjobIds : JobIds sampleWorld.db := ⟨by decide, by decide⟩
  have hstart : Reconciled sampleWorld := fun _ _ h => absurd rfl h
  have hlast : InOrder (sampleEnv .sqlite) "account-1" settledWorld (refreshSample 93) :=
    fun _ => reconciled_settledWorld
  have horder : Meets (step (sampleEnv .sqlite)) (InOrder (sampleEnv .sqlite) "account-1")
      sampleWorld [refreshSample 100, submitSample, .consume "crawl" "job-1" 7, pollSample,
        refreshSample 93] :=
    .cons (fun _ => hstart) rfl (.cons trivial rfl (.cons trivial rfl (.cons trivial rfl
      (.cons hlast rfl trivial))))
  refine (notBelow_of_inOrder hids hjobIds).1 _ (by decide) (fun b hb => ?_) hstart horder
  have h100 : balance "account-1" sampleWorld.db = some 100 := by decide
  exact (Option.some.inj (h100.symm.trans hb)).le

end Worlds

end FirecrawlLb.Firecrawl.Reconciliation
