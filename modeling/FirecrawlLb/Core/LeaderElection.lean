import FirecrawlLb.Db.Models
import FirecrawlLb.Lib.Tasks
import FirecrawlLb.Python.Strings
import Mathlib.Logic.Function.Basic

/-!
# The election of a leader

The nodes share one row that names the leader and the end of its lease.  `try_acquire` takes the row
over when the lease is over, and reads it again to see whose it is; `renew` extends the lease of its
own node, and does not look whether there was one to extend.
-/

namespace FirecrawlLb.Core.LeaderElection

open FirecrawlLb.Lib FirecrawlLb.Lib.Tasks FirecrawlLb.Lib.Run FirecrawlLb.Python
open FirecrawlLb.Db.Models

structure Settings where
  leaderElectionEnabled : Bool
  databaseUrl : String
  leaderElectionTtlSeconds : ℤ

/-- `"sqlite" in settings.database_url.lower()` -/
def Settings.isSqlite (settings : Settings) : Bool :=
  (lower settings.databaseUrl).toList.tails.any ("sqlite".toList.isPrefixOf ·)

/-- The nodes are elected; otherwise each of them is a leader. -/
def Settings.elects (settings : Settings) : Bool :=
  settings.leaderElectionEnabled && !settings.isSqlite

/-- The length of a lease in microseconds. -/
def Settings.ttl (settings : Settings) : ℤ := settings.leaderElectionTtlSeconds * 1000000

/-! ### The statements -/

/-- The `INSERT … ON CONFLICT DO UPDATE` of `try_acquire`. -/
def upsert (row : Option SchedulerLeader) (leaderId : String) (now expiresAt : ℤ) :
    SchedulerLeader :=
  match row with
  | none => ⟨leaderId, now, expiresAt⟩
  | some row =>
    if row.expiresAt < now ∨ row.leaderId = leaderId then ⟨leaderId, now, expiresAt⟩ else row

/-- The `UPDATE` of `renew`. -/
def extend (row : Option SchedulerLeader) (leaderId : String) (expiresAt : ℤ) :
    Option SchedulerLeader :=
  row.map fun row => if row.leaderId = leaderId then { row with expiresAt := expiresAt } else row

/-- The row names the node. -/
def holds (row : Option SchedulerLeader) (leaderId : String) : Bool :=
  row.any (·.leaderId = leaderId)

/-! ### The calls of the nodes -/

/-- What a call has returned, and the time at which it has read its clock. -/
structure Outcome where
  result : Bool
  callTime : ℤ
  deriving DecidableEq

/-- The time, the row, and for each node whether it takes itself for the leader, and its latest call
that has returned. -/
structure Store where
  clock : ℤ
  row : Option SchedulerLeader
  isLeader : String → Bool
  latest : String → Option Outcome

def Store.returns (s : Store) (node : String) (result : Bool) (callTime : ℤ) : Store :=
  { s with latest := Function.update s.latest node (some ⟨result, callTime⟩) }

def Store.setLeader (s : Store) (node : String) (isLeader : Bool) : Store :=
  { s with isLeader := Function.update s.isLeader node isLeader }

inductive Request where
  | tryAcquire (node : String)
  | renew (node : String)

/-- Where a call stands, by the step that comes next; it has read its clock at `now`. -/
inductive Task where
  | calling (request : Request)
  | inserting (node : String) (now : ℤ)
  | rereading (node : String) (now : ℤ)
  | updating (node : String) (now : ℤ)
  | ended

/-- At a time, the call goes on or the database raises an error. -/
inductive Action where
  | resume (time : ℤ)
  | fail (time : ℤ)

abbrev State := Pool Store Task

abbrev Event := Move Request Action

section System

variable (settings : Settings)

def resume (s : Store) (time : ℤ) : Task → Option (Store × Task)
  | .calling (.tryAcquire node) =>
    if settings.elects then some (s, .inserting node time)
    else some ((s.setLeader node true).returns node true time, .ended)
  | .calling (.renew node) =>
    if !s.isLeader node then some (s.returns node false time, .ended)
    else if settings.elects then some (s, .updating node time)
    else some (s.returns node true time, .ended)
  | .inserting node now =>
    some ({ s with row := some (upsert s.row node now (now + settings.ttl)) }, .rereading node now)
  | .rereading node now =>
    some ((s.setLeader node (holds s.row node)).returns node (holds s.row node) now, .ended)
  | .updating node now =>
    some ({ s with row := extend s.row node (now + settings.ttl) }.returns node true now, .ended)
  | .ended => none

def fail (s : Store) : Task → Option (Store × Task)
  | .inserting node now | .rereading node now =>
    some ((s.setLeader node false).returns node false now, .ended)
  | .updating node now => some (s.returns node false now, .ended)
  | .calling _ | .ended => none

/-- The clocks of the nodes agree, and do not go back. -/
def act (s : Store) (t : Task) : Action → Option (Store × Task)
  | .resume time => if s.clock ≤ time then resume settings { s with clock := time } time t else none
  | .fail time => if s.clock ≤ time then fail { s with clock := time } t else none

def program : Program Store Task Request Action where
  spawn _ request := .calling request
  act := act settings

def step : State → Event → Option State := (program settings).step

end System

/-! ### Leaders -/

/-- The latest call of the node has returned `True`, and its lease has not passed. -/
def Leads (settings : Settings) (s : Store) (time : ℤ) (node : String) : Prop :=
  ∃ callTime, s.latest node = some ⟨true, callTime⟩ ∧ time ≤ callTime + settings.ttl

/-- From now until the next step at most one node leads. -/
def OneLeader (settings : Settings) (p : State) : Prop :=
  ∀ time node node', p.store.clock ≤ time → Leads settings p.store time node →
    Leads settings p.store time node' → node = node'

/-- The node whose call returns `True` with this event, after its statement. -/
def returnsTrue (p : State) : Event → Option String
  | .act tid (.resume _) =>
    match p.tasks[tid]? with
    | some (.rereading node _) => if holds p.store.row node then some node else none
    | some (.updating node _) => some node
    | _ => none
  | _ => none

/-- A call that returns `True` finds its node in the row. -/
def TellsTruth (p : State) (m : Event) : Prop :=
  ∀ node ∈ returnsTrue p m, holds p.store.row node = true

/-- The `UPDATE` of a renewal finds its node in the row. -/
def RenewsOwn (p : State) : Event → Prop
  | .act tid (.resume _) =>
    match p.tasks[tid]? with
    | some (.updating node _) => holds p.store.row node = true
    | _ => True
  | _ => True

/-- The `UPDATE` of a renewal comes before the lease of its node has passed. -/
def RenewsInTime (settings : Settings) (p : State) : Event → Prop
  | .act tid (.resume time) =>
    match p.tasks[tid]? with
    | some (.updating node _) => Leads settings p.store time node
    | _ => True
  | _ => True

/-- A statement that writes over the lease of its own node does not shorten it. -/
def KeepsLease (settings : Settings) (p : State) : Event → Prop
  | .act tid (.resume _) =>
    match p.tasks[tid]? with
    | some (.inserting node now) | some (.updating node now) =>
      ∀ row ∈ p.store.row, row.leaderId = node → row.expiresAt ≤ now + settings.ttl
    | _ => True
  | _ => True

instance (p : State) (m : Event) : Decidable (RenewsOwn p m) := by
  unfold RenewsOwn
  split
  · split <;> infer_instance
  · infer_instance

instance (settings : Settings) (p : State) (m : Event) :
    Decidable (KeepsLease settings p m) := by
  unfold KeepsLease
  split
  · split <;> infer_instance
  · infer_instance

/-- **Renewal tells the truth** exactly if it finds its node in the row. -/
theorem tellsTruth_iff (p : State) (m : Event) : TellsTruth p m ↔ RenewsOwn p m := by
  cases m with
  | spawn request => simp [TellsTruth, RenewsOwn, returnsTrue]
  | act tid a =>
    cases a with
    | fail time => simp [TellsTruth, RenewsOwn, returnsTrue]
    | resume time =>
      cases ht : p.tasks[tid]? with
      | none => simp [TellsTruth, RenewsOwn, returnsTrue, ht]
      | some t =>
        cases t with
        | rereading node now =>
          simp only [TellsTruth, RenewsOwn, returnsTrue, ht, iff_true]
          intro node' hnode'
          split_ifs at hnode' with hholds
          · obtain rfl := Option.some.inj hnode'
            exact hholds
          · cases hnode'
        | _ => simp [TellsTruth, RenewsOwn, returnsTrue, ht]

/-! ### The lease of a leader -/

/-- The call of a leader is over, and its lease lies within that in the row or has passed. -/
def Held (settings : Settings) (s : Store) : Prop :=
  ∀ node callTime, s.latest node = some ⟨true, callTime⟩ → callTime ≤ s.clock ∧
    ((∃ row, s.row = some row ∧ row.leaderId = node ∧ callTime + settings.ttl ≤ row.expiresAt) ∨
      callTime + settings.ttl < s.clock)

/-- A call has read its clock.  After its `INSERT` the row holds the lease of its node, or one of
another node that had not expired. -/
def TaskOk (settings : Settings) (s : Store) : Task → Prop
  | .inserting _ now | .updating _ now => now ≤ s.clock
  | .rereading node now => now ≤ s.clock ∧ (0 ≤ settings.ttl → ∃ row, s.row = some row ∧
      ((row.leaderId = node ∧ now + settings.ttl ≤ row.expiresAt) ∨
        (row.leaderId ≠ node ∧ now ≤ row.expiresAt)))
  | .calling _ | .ended => True

/-- What a statement at a time makes of the row: it keeps the lease of the same node, or takes over
one that has expired. -/
def RowStep (settings : Settings) (row : Option SchedulerLeader) (row' : SchedulerLeader)
    (now : ℤ) : Prop :=
  row = some row' ∨ (row'.expiresAt = now + settings.ttl ∧ ∀ old ∈ row,
    (old.leaderId = row'.leaderId ∧ old.expiresAt ≤ row'.expiresAt) ∨ old.expiresAt < now)

section Lease

variable {settings : Settings} {s s' : Store} {t t' u : Task} {row row' : SchedulerLeader}
  {node : String} {now time : ℤ} {p p' : State} {m : Event}

theorem Held.of_clock (h : Held settings s) (hclock : s.clock ≤ time) :
    Held settings { s with clock := time } := by
  intro node callTime hlatest
  obtain ⟨hcall, hlease⟩ := h node callTime hlatest
  refine ⟨hcall.trans hclock, ?_⟩
  rcases hlease with hrow | hpassed
  · exact Or.inl hrow
  · exact Or.inr (hpassed.trans_le hclock)

theorem TaskOk.of_clock (h : TaskOk settings s t) (hclock : s.clock ≤ time) :
    TaskOk settings { s with clock := time } t := by
  cases t with
  | inserting node now => exact le_trans h hclock
  | updating node now => exact le_trans h hclock
  | rereading node now => exact ⟨h.1.trans hclock, h.2⟩
  | calling | ended => trivial

/-- What the nodes keep does not matter to a call under way. -/
theorem TaskOk.of_nodes (h : TaskOk settings s u) (isLeader : String → Bool)
    (latest : String → Option Outcome) :
    TaskOk settings { s with isLeader := isLeader, latest := latest } u := by
  cases u <;> exact h

/-- A statement passes on the leases of the leaders, or they have passed. -/
theorem Held.of_row (h : Held settings s) (hrow : RowStep settings s.row row' now)
    (hnow : now ≤ s.clock) : Held settings { s with row := some row' } := by
  intro node callTime hlatest
  obtain ⟨hcall, hlease⟩ := h node callTime hlatest
  refine ⟨hcall, ?_⟩
  rcases hlease with ⟨row, hold, hleader, hexpires⟩ | hpassed
  · rcases hrow with hsame | ⟨-, hstep⟩
    · exact Or.inl ⟨row', rfl, by rw [hold] at hsame; cases hsame; exact ⟨hleader, hexpires⟩⟩
    · rcases hstep row hold with ⟨hid, hle⟩ | hexpired
      · exact Or.inl ⟨row', rfl, hid.symm.trans hleader, hexpires.trans hle⟩
      · right
        show callTime + settings.ttl < s.clock
        omega
  · exact Or.inr hpassed

theorem TaskOk.of_row (h : TaskOk settings s u) (hrow : RowStep settings s.row row' now) :
    TaskOk settings { s with row := some row' } u := by
  cases u with
  | rereading node callTime =>
    refine ⟨h.1, fun httl => ⟨row', rfl, ?_⟩⟩
    obtain ⟨row, hold, hlease⟩ := h.2 httl
    rcases hrow with hsame | ⟨hexpires, hstep⟩
    · rw [hold] at hsame
      cases hsame
      exact hlease
    · by_cases hnode : row'.leaderId = node
      · refine Or.inl ⟨hnode, ?_⟩
        rcases hstep row hold with ⟨hid, hle⟩ | hexpired
        · rcases hlease with ⟨-, hend⟩ | ⟨hother, -⟩
          · exact hend.trans hle
          · exact absurd (hid.trans hnode) hother
        · rcases hlease with ⟨-, hend⟩ | ⟨-, hend⟩ <;> omega
      · refine Or.inr ⟨hnode, ?_⟩
        rcases hstep row hold with ⟨-, hle⟩ | hexpired
        · rcases hlease with ⟨-, hend⟩ | ⟨-, hend⟩ <;> omega
        · rcases hlease with ⟨-, hend⟩ | ⟨-, hend⟩ <;> omega
  | _ => exact h

theorem rowStep_upsert (hkeeps : ∀ row ∈ s.row, row.leaderId = node →
    row.expiresAt ≤ now + settings.ttl) :
    RowStep settings s.row (upsert s.row node now (now + settings.ttl)) now := by
  cases hrow : s.row with
  | none => exact Or.inr ⟨rfl, by simp⟩
  | some row =>
    simp only [upsert]
    split_ifs with htakes
    · refine Or.inr ⟨rfl, fun old hold => ?_⟩
      obtain rfl := Option.some.inj hold
      rcases htakes with hexpired | hown
      · exact Or.inr hexpired
      · exact Or.inl ⟨hown, hkeeps row hrow hown⟩
    · exact Or.inl rfl

theorem upsert_cases (row : Option SchedulerLeader) (node : String) (now expiresAt : ℤ) :
    ((upsert row node now expiresAt).leaderId = node ∧
        expiresAt ≤ (upsert row node now expiresAt).expiresAt) ∨
      ((upsert row node now expiresAt).leaderId ≠ node ∧
        now ≤ (upsert row node now expiresAt).expiresAt) := by
  unfold upsert
  split
  · exact Or.inl ⟨rfl, le_rfl⟩
  · rename_i row
    split_ifs with htakes
    · exact Or.inl ⟨rfl, le_rfl⟩
    · push Not at htakes
      exact Or.inr ⟨htakes.2, htakes.1⟩

theorem rowStep_extend (hholds : holds s.row node = true)
    (hkeeps : ∀ row ∈ s.row, row.leaderId = node → row.expiresAt ≤ now + settings.ttl) :
    ∃ row', extend s.row node (now + settings.ttl) = some row' ∧ row'.leaderId = node ∧
      row'.expiresAt = now + settings.ttl ∧ RowStep settings s.row row' now := by
  cases hrow : s.row with
  | none => simp [holds, hrow] at hholds
  | some row =>
    have hown : row.leaderId = node := by simpa [holds, hrow] using hholds
    refine ⟨{ row with expiresAt := now + settings.ttl }, by simp [extend, hown], hown, rfl, ?_⟩
    refine Or.inr ⟨rfl, fun old hold => ?_⟩
    obtain rfl := Option.some.inj hold
    exact Or.inl ⟨rfl, hkeeps row hrow hown⟩

/-- A call that returns `True` holds a lease; one that returns `False` holds none. -/
theorem Held.returns (h : Held settings s) (result : Bool) (hnow : now ≤ s.clock)
    (hlease : result = true →
      (∃ row, s.row = some row ∧ row.leaderId = node ∧ now + settings.ttl ≤ row.expiresAt) ∨
        now + settings.ttl < s.clock) : Held settings (s.returns node result now) := by
  intro node' callTime hlatest
  by_cases hnode : node' = node
  · subst hnode
    simp only [Store.returns, Function.update_self, Option.some.injEq, Outcome.mk.injEq]
      at hlatest
    obtain ⟨hresult, rfl⟩ := hlatest
    exact ⟨hnow, hlease hresult⟩
  · simp only [Store.returns, Function.update_of_ne hnode] at hlatest
    exact h node' callTime hlatest

end Lease

/-! ### Runs -/

section Runs

variable {settings : Settings} {s s' : Store} {t t' u : Task} {node : String} {now time : ℤ}
  {p p' : State} {m : Event} {a : Action}

/-- A statement finds its node, and does not shorten its lease. -/
def StatementOk (settings : Settings) (s : Store) : Task → Prop
  | .inserting node now => ∀ row ∈ s.row, row.leaderId = node → row.expiresAt ≤ now + settings.ttl
  | .updating node now => holds s.row node = true ∧
      ∀ row ∈ s.row, row.leaderId = node → row.expiresAt ≤ now + settings.ttl
  | _ => True

/-- A call keeps the leases, its own assertion, and those of the others. -/
theorem held_resume (helects : settings.elects = true) (hs : Held settings s)
    (ht : TaskOk settings s t) (hnow : time = s.clock) (hok : StatementOk settings s t)
    (h : resume settings s time t = some (s', t')) :
    Held settings s' ∧ TaskOk settings s' t' ∧
      ∀ u, TaskOk settings s u → TaskOk settings s' u := by
  cases t with
  | calling request =>
    cases request with
    | tryAcquire node =>
      simp only [resume, helects, if_true] at h
      cases h
      exact ⟨hs, hnow.le, fun u hu => hu⟩
    | renew node =>
      simp only [resume, helects, if_true] at h
      split_ifs at h <;> cases h
      · exact ⟨hs.returns false hnow.le (by simp), trivial, fun u hu => hu.of_nodes _ _⟩
      · exact ⟨hs, hnow.le, fun u hu => hu⟩
  | inserting node now =>
    cases h
    have hrow := rowStep_upsert hok
    refine ⟨hs.of_row hrow ht, ⟨ht, fun _ => ⟨_, rfl, ?_⟩⟩, fun u hu => hu.of_row hrow⟩
    exact upsert_cases s.row node now (now + settings.ttl)
  | rereading node now =>
    cases h
    refine ⟨?_, trivial, fun u hu => hu.of_nodes _ _⟩
    refine Held.returns (s := s.setLeader node _) hs _ ht.1 fun hholds => ?_
    -- with a negative time to live the lease has ended before it is reread
    by_cases httl : 0 ≤ settings.ttl
    · obtain ⟨row, hrow, hlease⟩ := ht.2 httl
      have hown : row.leaderId = node := by simpa [holds, hrow] using hholds
      rcases hlease with ⟨-, hend⟩ | ⟨hother, -⟩
      · exact Or.inl ⟨row, hrow, hown, hend⟩
      · exact absurd hown hother
    · right
      have hclock : now ≤ s.clock := ht.1
      show now + settings.ttl < s.clock
      omega
  | updating node now =>
    obtain ⟨row', hextend, hown, hexpires, hrow⟩ := rowStep_extend hok.1 hok.2
    simp only [resume, hextend] at h
    cases h
    refine ⟨?_, trivial, fun u hu => (hu.of_row hrow).of_nodes _ _⟩
    exact (hs.of_row hrow ht).returns true ht fun _ => Or.inl ⟨row', rfl, hown, hexpires.ge⟩
  | ended => cases h

theorem held_fail (hs : Held settings s) (ht : TaskOk settings s t)
    (h : fail s t = some (s', t')) :
    Held settings s' ∧ TaskOk settings s' t' ∧
      ∀ u, TaskOk settings s u → TaskOk settings s' u := by
  cases t with
  | inserting node now =>
    cases h
    refine ⟨Held.returns (s := s.setLeader node false) hs false ht (by simp), trivial, ?_⟩
    exact fun u hu => hu.of_nodes _ _
  | rereading node now =>
    cases h
    refine ⟨Held.returns (s := s.setLeader node false) hs false ht.1 (by simp), trivial, ?_⟩
    exact fun u hu => hu.of_nodes _ _
  | updating node now =>
    cases h
    exact ⟨hs.returns false ht (by simp), trivial, fun u hu => hu.of_nodes _ _⟩
  | calling | ended => cases h

/-- What every state of a run satisfies whose statements find their node. -/
def LeaseOk (settings : Settings) (p : State) : Prop :=
  Asserts (Held settings) (TaskOk settings) p

theorem statementOk_of_act {tid : ℕ} (hC : RenewsOwn p (.act tid (.resume time)) ∧
    KeepsLease settings p (.act tid (.resume time))) (ht : p.tasks[tid]? = some t) :
    StatementOk settings { p.store with clock := time } t := by
  simp only [RenewsOwn, KeepsLease, ht] at hC
  cases t with
  | inserting node now => exact hC.2
  | updating node now => exact hC
  | _ => trivial

theorem LeaseOk.step (helects : settings.elects = true) (hp : LeaseOk settings p)
    (hC : RenewsOwn p m ∧ KeepsLease settings p m) (hs : step settings p m = some p') :
    LeaseOk settings p' := by
  have hact : ∀ (p : State) tid a t s' t', Held settings p.store → TaskOk settings p.store t →
      RenewsOwn p (.act tid a) ∧ KeepsLease settings p (.act tid a) → p.tasks[tid]? = some t →
      act settings p.store t a = some (s', t') → Held settings s' ∧ TaskOk settings s' t' ∧
        ∀ u, TaskOk settings p.store u → TaskOk settings s' u := by
    intro p tid a t s' t' hheld htask hC ht h
    cases a with
    | resume time =>
      simp only [act] at h
      split_ifs at h with hclock
      obtain ⟨hheld', htask', hothers⟩ := held_resume helects (hheld.of_clock hclock)
        (htask.of_clock hclock) rfl (statementOk_of_act hC ht) h
      exact ⟨hheld', htask', fun u hu => hothers u (hu.of_clock hclock)⟩
    | fail time =>
      simp only [act] at h
      split_ifs at h with hclock
      obtain ⟨hheld', htask', hothers⟩ :=
        held_fail (hheld.of_clock hclock) (htask.of_clock hclock) h
      exact ⟨hheld', htask', fun u hu => hothers u (hu.of_clock hclock)⟩
  refine Program.inv_step (P := program settings)
    (C := fun p m => RenewsOwn p m ∧ KeepsLease settings p m)
    (fun p request _ _ => trivial) ?_ ?_ hp hC hs
  · intro p tid a t s' t' hheld htask hC ht h
    obtain ⟨hheld', htask', -⟩ := hact p tid a t s' t' hheld htask hC ht h
    exact ⟨hheld', htask'⟩
  · intro p tid a t s' t' u hheld htask hu hC ht h
    exact (hact p tid a t s' t' hheld htask hC ht h).2.2 u hu

theorem LeaseOk.row_of_leads (hp : LeaseOk settings p) (htime : p.store.clock ≤ time)
    (h : Leads settings p.store time node) :
    ∃ row, p.store.row = some row ∧ row.leaderId = node := by
  obtain ⟨callTime, hlatest, hlease⟩ := h
  rcases (hp.1 node callTime hlatest).2 with ⟨row, hrow, hleader, -⟩ | hpassed
  · exact ⟨row, hrow, hleader⟩
  · omega

theorem LeaseOk.oneLeader (hp : LeaseOk settings p) : OneLeader settings p := by
  intro time node node' htime hleads hleads'
  obtain ⟨row, hsome, rfl⟩ := hp.row_of_leads htime hleads
  obtain ⟨row', hsome', rfl⟩ := hp.row_of_leads htime hleads'
  rw [hsome] at hsome'
  rw [Option.some.inj hsome']

theorem renewsOwn_of_inTime (hp : LeaseOk settings p) (hintime : RenewsInTime settings p m)
    (hs : step settings p m = some p') : RenewsOwn p m := by
  obtain ⟨request, rfl, -⟩ | ⟨tid, a, t, s', t', rfl, ht, ha, -⟩ := Program.step_cases hs
  · trivial
  · cases a with
    | fail time => trivial
    | resume time =>
      cases t with
      | updating node now =>
        have ha : act settings p.store (.updating node now) (.resume time) = some (s', t') := ha
        simp only [act] at ha
        split_ifs at ha with hclock
        simp only [RenewsInTime, ht] at hintime
        obtain ⟨row, hrow, hleader⟩ := hp.row_of_leads hclock hintime
        simp only [RenewsOwn, ht]
        simp [holds, hrow, hleader]
      | _ => simp [RenewsOwn, ht]

theorem leaseOk_start (hlatest : s.latest = fun _ => none) : LeaseOk settings ⟨s, []⟩ := by
  refine ⟨fun node callTime h => ?_, by simp⟩
  rw [hlatest] at h
  cases h

/-- It is enough that no renewal comes too late. -/
theorem oneLeader_of_renewsInTime (helects : settings.elects = true)
    (hlatest : s.latest = fun _ => none) {ms : List Event}
    (hintime : Meets (step settings) (RenewsInTime settings) ⟨s, []⟩ ms)
    (hkeeps : Meets (step settings) (KeepsLease settings) ⟨s, []⟩ ms) :
    Always (step settings) (OneLeader settings) ⟨s, []⟩ ms := by
  have hinv : Always (step settings) (LeaseOk settings) ⟨s, []⟩ ms := by
    refine always_of_meets (fun p m p' hp hC hs => ?_) (leaseOk_start hlatest)
      (hintime.and hkeeps)
    exact hp.step helects ⟨renewsOwn_of_inTime hp hC.1 hs, hC.2⟩ hs
  exact hinv.mono fun p hp => hp.oneLeader

/-- **The election.**  The calls that return `True` find their node in the row exactly if every
`UPDATE` of a renewal does.  If besides no statement shortens the lease of its own node, at most one
node leads at any time. -/
theorem election_of_renewals (settings : Settings) (s : Store) (ms : List Event)
    (helects : settings.elects = true) (hlatest : s.latest = fun _ => none) :
    (Meets (step settings) TellsTruth ⟨s, []⟩ ms ↔ Meets (step settings) RenewsOwn ⟨s, []⟩ ms) ∧
    (Meets (step settings) RenewsOwn ⟨s, []⟩ ms →
      Meets (step settings) (KeepsLease settings) ⟨s, []⟩ ms →
      Always (step settings) (OneLeader settings) ⟨s, []⟩ ms) := by
  constructor
  · constructor
    · exact fun h => h.mono fun p m => (tellsTruth_iff p m).1
    · exact fun h => h.mono fun p m => (tellsTruth_iff p m).2
  · intro hrenews hkeeps
    have hinv : Always (step settings) (LeaseOk settings) ⟨s, []⟩ ms :=
      always_of_meets (fun p m p' hp hC hs => hp.step helects hC hs) (leaseOk_start hlatest)
        (hrenews.and hkeeps)
    exact hinv.mono fun p hp => hp.oneLeader

/-- No node has called yet, and the row is missing. -/
def startStore : Store := ⟨0, none, fun _ => false, fun _ => none⟩

/-- Some steps of a call at a time in seconds. -/
def goOn (tid steps : ℕ) (seconds : ℤ) : List Event :=
  List.replicate steps (.act tid (.resume (seconds * 1000000)))

/-- A node acquires the lease and renews it, and another does not get it. -/
theorem election_of_renewals_sample :
    let settings : Settings := ⟨true, "postgresql://db", 10⟩
    let ms : List Event := [.spawn (.tryAcquire "a")] ++ goOn 0 3 0 ++ [.spawn (.renew "a")] ++
      goOn 1 2 5 ++ [.spawn (.tryAcquire "b")] ++ goOn 2 3 12
    (endOf (step settings) ⟨startStore, []⟩ ms).store.latest "a" = some ⟨true, 5000000⟩ ∧
      (endOf (step settings) ⟨startStore, []⟩ ms).store.latest "b" = some ⟨false, 12000000⟩ ∧
      Meets (step settings) TellsTruth ⟨startStore, []⟩ ms ∧
      Always (step settings) (OneLeader settings) ⟨startStore, []⟩ ms := by
  intro settings ms
  have hrenews : Meets (step settings) RenewsOwn ⟨startStore, []⟩ ms := by decide +kernel
  have hkeeps : Meets (step settings) (KeepsLease settings) ⟨startStore, []⟩ ms := by
    decide +kernel
  obtain ⟨htruth, hleader⟩ := election_of_renewals settings startStore ms (by decide +kernel) rfl
  exact ⟨by decide +kernel, by decide +kernel, htruth.2 hrenews, hleader hrenews hkeeps⟩

/-- The lease of a node passes and another takes it over.  The renewal of the first finds no row of
its own, and returns `True`: both lead. -/
theorem late_renewal_returns_true :
    let settings : Settings := ⟨true, "postgresql://db", 10⟩
    let ms : List Event := [.spawn (.tryAcquire "a")] ++ goOn 0 3 0 ++
      [.spawn (.tryAcquire "b")] ++ goOn 1 3 11 ++ [.spawn (.renew "a")] ++ goOn 2 2 12
    settings.elects = true ∧ ¬ Meets (step settings) TellsTruth ⟨startStore, []⟩ ms ∧
      ¬ Always (step settings) (OneLeader settings) ⟨startStore, []⟩ ms := by
  intro settings ms
  refine ⟨by decide +kernel, fun h => ?_, fun h => ?_⟩
  · have hrenews : Meets (step settings) RenewsOwn ⟨startStore, []⟩ ms :=
      h.mono fun p m => (tellsTruth_iff p m).1
    exact absurd hrenews (by decide +kernel)
  · have hrun : run (step settings) ⟨startStore, []⟩ ms =
        some (endOf (step settings) ⟨startStore, []⟩ ms) := run_endOf (by decide +kernel)
    have hfirst : Leads settings (endOf (step settings) ⟨startStore, []⟩ ms).store 12000000 "a" :=
      ⟨12000000, by decide +kernel, by decide +kernel⟩
    have hsecond : Leads settings (endOf (step settings) ⟨startStore, []⟩ ms).store 12000000 "b" :=
      ⟨11000000, by decide +kernel, by decide +kernel⟩
    have hclock : (endOf (step settings) ⟨startStore, []⟩ ms).store.clock ≤ 12000000 := by
      decide +kernel
    exact absurd (h.last hrun 12000000 "a" "b" hclock hfirst hsecond) (by decide)

end Runs

end FirecrawlLb.Core.LeaderElection
