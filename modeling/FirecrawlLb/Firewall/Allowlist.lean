import FirecrawlLb.Core.FirewallCache
import FirecrawlLb.Lib.Tasks
import FirecrawlLb.Python.IpAddressText
import Mathlib.Data.Finset.Image

/-!
# The firewall allowlist

Requests that list, add, delete and check addresses, each a task that takes one step at a time.
The table holds texts.  `spec` says what such requests do to a set of addresses, one after another:
what a run shows is a run of `spec`, and every request shows what it answers.  Deleting takes two
steps, so that of two requests which find one address both answer that it is deleted.
-/

namespace FirecrawlLb.Firewall.Allowlist

open FirecrawlLb.Lib FirecrawlLb.Lib.Run FirecrawlLb.Lib.Tasks FirecrawlLb.Python
open FirecrawlLb.Core.FirewallCache

/-! ### Spellings of an address -/

/-- The address that a text spells, with white space around it. -/
def spelled (text : String) : Option IpAddress := ipAddress (strip text)

section Spellings

variable {a : IpAddress} {text text' normalized : String}

theorem normalizeIpAddress_eq_some : normalizeIpAddress text = some normalized ↔
    ∃ a, spelled text = some a ∧ a.str = normalized := by
  rw [normalizeIpAddress, spelled]
  split_ifs with hempty
  · have hnone : ipAddress "" = none := by decide +kernel
    simp [hempty, hnone]
  · exact Option.map_eq_some_iff

theorem normalizeIpAddress_eq_none : normalizeIpAddress text = none ↔ spelled text = none := by
  cases hspelled : spelled text with
  | none =>
    refine iff_of_true (Option.eq_none_iff_forall_ne_some.2 fun n hn => ?_) rfl
    obtain ⟨a, ha, -⟩ := normalizeIpAddress_eq_some.1 hn
    rw [hspelled] at ha
    cases ha
  | some a => simp [normalizeIpAddress_eq_some.2 ⟨a, hspelled, rfl⟩]

theorem strip_of_plainText (h : PlainText text.toList) : strip text = text :=
  strip_eq_self_iff.2 ⟨fun c hc => (h c (List.mem_of_mem_head? hc)).2,
    fun c hc => (h c (List.mem_of_mem_getLast? hc)).2⟩

/-- No white space stands around the text of an address that was read from a stripped text: only a
scope may hold some, and the text ends with this scope. -/
theorem strip_str (h : spelled text = some a) : strip a.str = a.str := by
  have hread : ipAddress (strip text) = some a := h
  cases a with
  | v4 ip => exact strip_of_plainText (plainText_writeIpv4 ip)
  | v6 ip scopeId =>
    have hplain := plainText_textV6 ip
    cases scopeId with
    | none => exact strip_of_plainText hplain
    | some scope =>
      obtain ⟨addr, haddr, hscope⟩ := scope_of_ipAddress hread
      have hlast := (strip_eq_self_iff.1 (strip_strip text)).2
      rw [haddr, List.getLast?_append_of_ne_nil _ (List.cons_ne_nil _ _)] at hlast
      rw [str_v6_some, strip_eq_self_iff, String.toList_append, String.toList_append,
        List.append_assoc]
      have hcolon := colon_mem_of_parseIpv6 (parseIpv6_textV6 (wellFormed_of_ipAddress hread).1)
      refine ⟨fun c hc => ?_, fun c hc => ?_⟩
      · rw [List.head?_append_of_ne_nil _ (List.ne_nil_of_mem hcolon)] at hc
        exact (hplain c (List.mem_of_mem_head? hc)).2
      · rw [List.getLast?_append_of_ne_nil _ (by simp)] at hc
        exact hlast c hc

theorem wellFormed_of_spelled (h : spelled text = some a) : a.WellFormed :=
  wellFormed_of_ipAddress h

theorem spelled_str (h : spelled text = some a) : spelled a.str = some a := by
  rw [spelled, strip_str h, ipAddress_str (wellFormed_of_spelled h)]

/-- **Normalising gives each address one text.**  The text of an address is its own normal text, and
a text has this normal text exactly if it spells the same address. -/
theorem normalizeIpAddress_canonical (h : normalizeIpAddress text = some normalized) :
    normalizeIpAddress normalized = some normalized ∧
      ∀ text', normalizeIpAddress text' = some normalized ↔
        ipAddress (strip text') = ipAddress (strip text) := by
  obtain ⟨a, ha, rfl⟩ := normalizeIpAddress_eq_some.1 h
  refine ⟨normalizeIpAddress_eq_some.2 ⟨a, spelled_str ha, rfl⟩, fun text' => ?_⟩
  change _ ↔ spelled text' = spelled text
  rw [ha, normalizeIpAddress_eq_some]
  constructor
  · rintro ⟨b, hb, hstr⟩
    rw [hb, (str_inj (wellFormed_of_spelled hb) (wellFormed_of_spelled ha)).1 hstr]
  · exact fun hb => ⟨a, hb, rfl⟩

/-- A mapped address with zeros, capital letters and white space around it. -/
theorem normalizeIpAddress_canonical_sample :
    normalizeIpAddress "::ffff:10.0.0.1" = some "::ffff:10.0.0.1" ∧
      ∀ text', normalizeIpAddress text' = some "::ffff:10.0.0.1" ↔
        ipAddress (strip text') = ipAddress (strip " 0:0::FFFF:0a00:1\n") :=
  normalizeIpAddress_canonical (by decide +kernel)

end Spellings

/-! ### The table and the requests -/

/-- A row of `api_firewall_allowlist`. -/
structure FirewallIpEntry where
  ipAddress : String
  createdAt : ℤ
  deriving DecidableEq

inductive FirewallMode where
  | allowAll
  | allowlistActive
  deriving DecidableEq

/-- `list_ip_addresses` -/
def listIpAddresses (rows : List FirewallIpEntry) : List String := rows.map (·.ipAddress)

/-- `list_entries` -/
def listEntries (rows : List FirewallIpEntry) : List FirewallIpEntry :=
  rows.mergeSort fun r r' =>
    r.createdAt < r'.createdAt || (r.createdAt = r'.createdAt && r.ipAddress ≤ r'.ipAddress)

/-- The row that `session.get` finds. -/
def get (rows : List FirewallIpEntry) (ip : String) : Option FirewallIpEntry :=
  rows.find? fun r => r.ipAddress = ip

/-- The mode of a list of entries. -/
def modeOf (entries : List FirewallIpEntry) : FirewallMode :=
  if entries.isEmpty then .allowAll else .allowlistActive

inductive Request where
  | listFirewallIps
  | addFirewallIp (ip : String)
  | deleteFirewallIp (ip : String)
  /-- `is_ip_allowed`, which the middleware asks -/
  | isIpAllowed (ip : Option String)
  deriving DecidableEq

inductive Answer where
  | ips (mode : FirewallMode) (entries : List FirewallIpEntry)
  | created (entry : FirewallIpEntry)
  | deleted
  | allowed (allowed : Bool)
  | error (status : ℕ) (code message : String)
  deriving DecidableEq

/-- The error of a text that is no address. -/
def invalidIp (text : String) : Answer :=
  .error 400 "invalid_ip"
    (if strip text = "" then "IP address is required" else "Invalid IP address")

def ipExists : Answer := .error 409 "ip_exists" "IP address already exists"

def ipNotFound : Answer := .error 404 "ip_not_found" "IP address not found"

/-- What a request has done to the allowlist or found out about it. -/
inductive Outcome where
  | listed (mode : FirewallMode) (entries : List FirewallIpEntry)
  | invalid
  | added
  | existed
  | removed
  | missing
  | decided (allowed : Bool)
  deriving DecidableEq

/-- Where a request stands, by the step that comes next. -/
inductive Stage where
  | started
  | adding (normalized : String)
  | refreshing (normalized : String)
  | deleting (normalized : String)
  | answered (outcome : Outcome) (answer : Answer)
  | failed (outcome : Option Outcome)
  deriving DecidableEq

structure Task where
  request : Request
  stage : Stage
  deriving DecidableEq

/-- A task goes on, with the clock of the database at this reading, or it fails: the connection is
lost or the request is cancelled. -/
inductive Action where
  | resume (now : ℤ)
  | fail
  deriving DecidableEq

/-- The first step: the text is normalised and the table is read. -/
def start (rows : List FirewallIpEntry) : Request → Stage
  | .listFirewallIps =>
    let entries := listEntries rows
    .answered (.listed (modeOf entries) entries) (.ips (modeOf entries) entries)
  | .addFirewallIp ip =>
    match normalizeIpAddress ip with
    | none => .answered .invalid (invalidIp ip)
    | some normalized =>
      if (get rows normalized).isSome then .answered .existed ipExists else .adding normalized
  | .deleteFirewallIp ip =>
    match normalizeIpAddress ip with
    | none => .answered .invalid (invalidIp ip)
    | some normalized =>
      if (get rows normalized).isSome then .deleting normalized else .answered .missing ipNotFound
  | .isIpAllowed ip =>
    let allowed := isIpAllowed (listIpAddresses rows) ip
    .answered (.decided allowed) (.allowed allowed)

/-- The next step of a request.  The row that was added is read again after the commit, and is gone
when another request has deleted it. -/
def resume (rows : List FirewallIpEntry) (now : ℤ) (request : Request) :
    Stage → Option (List FirewallIpEntry × Stage)
  | .started => some (rows, start rows request)
  | .adding normalized =>
    if (get rows normalized).isSome then some (rows, .answered .existed ipExists)
    else some (rows ++ [⟨normalized, now⟩], .refreshing normalized)
  | .refreshing normalized =>
    match get rows normalized with
    | some entry => some (rows, .answered .added (.created entry))
    | none => some (rows, .failed (some .added))
  | .deleting normalized =>
    some (rows.filter fun r => r.ipAddress ≠ normalized, .answered .removed .deleted)
  | .answered _ _ | .failed _ => none

/-- What a request has done so far. -/
def Stage.outcome : Stage → Option Outcome
  | .refreshing _ => some .added
  | .answered outcome _ => some outcome
  | .failed outcome => outcome
  | .started | .adding _ | .deleting _ => none

def fail : Stage → Option Stage
  | .answered _ _ | .failed _ => none
  | stage => some (.failed stage.outcome)

def act (rows : List FirewallIpEntry) (t : Task) : Action →
    Option (List FirewallIpEntry × Task)
  | .resume now => (resume rows now t.request t.stage).map fun r => (r.1, { t with stage := r.2 })
  | .fail => (fail t.stage).map fun stage => (rows, { t with stage := stage })

def program : Program (List FirewallIpEntry) Task Request Action where
  spawn _ request := ⟨request, .started⟩
  act := act

abbrev State := Pool (List FirewallIpEntry) Task

abbrev Event := Move Request Action

def step : State → Event → Option State := program.step

/-! ### A set of addresses -/

/-- What listing a set gives. -/
def specList (S : Finset IpAddress) : Outcome → Option (Finset IpAddress)
  | .listed mode entries =>
    if (mode = .allowAll ↔ S = ∅) ∧ (entries.map (·.ipAddress)).Nodup ∧
      (entries.map (·.ipAddress)).toFinset = S.image IpAddress.str then some S else none
  | _ => none

/-- What adding an address does to a set. -/
def specAdd (S : Finset IpAddress) (address : Option IpAddress) :
    Outcome → Option (Finset IpAddress)
  | .invalid => if address = none then some S else none
  | .existed => address.bind fun a => if a ∈ S then some S else none
  | .added => address.bind fun a => if a ∈ S then none else some (insert a S)
  | _ => none

/-- What deleting an address does to a set.  A delete that has found the address, at its first step,
answers that it is deleted, also when another one has deleted it meanwhile. -/
def specDelete (S : Finset IpAddress) (address : Option IpAddress) :
    Outcome → Option (Finset IpAddress)
  | .invalid => if address = none then some S else none
  | .missing => address.bind fun a => if a ∈ S then none else some S
  | .removed => address.map S.erase
  | _ => none

/-- What checking an address against a set gives. -/
def specCheck (S : Finset IpAddress) (address : Option IpAddress) :
    Outcome → Option (Finset IpAddress)
  | .decided allowed =>
    if (allowed = true ↔ S = ∅ ∨ ∃ a ∈ S, address = some a) then some S else none
  | _ => none

/-- What a request can do to a set of addresses, and the set after it. -/
def spec (S : Finset IpAddress) : Request × Outcome → Option (Finset IpAddress)
  | (.listFirewallIps, outcome) => specList S outcome
  | (.addFirewallIp ip, outcome) => specAdd S (spelled ip) outcome
  | (.deleteFirewallIp ip, outcome) => specDelete S (spelled ip) outcome
  | (.isIpAllowed ip, outcome) => specCheck S (ip.bind spelled) outcome

/-- The text of a change. -/
def Request.text : Request → String
  | .addFirewallIp ip | .deleteFirewallIp ip => ip
  | .listFirewallIps | .isIpAllowed _ => ""

/-- The answer that tells of an outcome. -/
def Answers (request : Request) (answer : Answer) : Outcome → Prop
  | .listed mode entries => answer = .ips mode entries
  | .invalid => answer = invalidIp request.text
  | .existed => answer = ipExists
  | .added => ∃ entry, answer = .created entry ∧
    (spelled request.text).map IpAddress.str = some entry.ipAddress
  | .removed => answer = .deleted
  | .missing => answer = ipNotFound
  | .decided allowed => answer = .allowed allowed

/-! ### The set in the table -/

/-- Every text of the table is the normal text of its address, and no two are the same. -/
structure Canonical (rows : List FirewallIpEntry) : Prop where
  nodup : (listIpAddresses rows).Nodup
  normalized : ∀ ip ∈ listIpAddresses rows, normalizeIpAddress ip = some ip

/-- The addresses that the rows spell. -/
def addresses (rows : List FirewallIpEntry) : Finset IpAddress :=
  ((listIpAddresses rows).filterMap spelled).toFinset

section Table

variable {rows : List FirewallIpEntry} {a : IpAddress} {text ip : String} {now : ℤ}

theorem get_isSome_iff : (get rows ip).isSome = true ↔ ip ∈ listIpAddresses rows := by
  simp [get, listIpAddresses]

theorem get_ipAddress {entry : FirewallIpEntry} (h : get rows ip = some entry) :
    entry.ipAddress = ip := by
  simpa using List.find?_some h

theorem Canonical.exists_str (hrows : Canonical rows) (hip : ip ∈ listIpAddresses rows) :
    ∃ a, spelled ip = some a ∧ a.str = ip := normalizeIpAddress_eq_some.1 (hrows.normalized ip hip)

theorem Canonical.mem_addresses (hrows : Canonical rows) (ha : spelled text = some a) :
    a ∈ addresses rows ↔ a.str ∈ listIpAddresses rows := by
  rw [addresses, List.mem_toFinset, List.mem_filterMap]
  constructor
  · rintro ⟨ip, hip, hspelled⟩
    obtain ⟨b, hb, rfl⟩ := hrows.exists_str hip
    obtain rfl := Option.some.inj (hspelled.symm.trans hb)
    exact hip
  · exact fun hstr => ⟨a.str, hstr, spelled_str ha⟩

theorem Canonical.get_isSome (hrows : Canonical rows) (ha : spelled text = some a) :
    (get rows a.str).isSome = true ↔ a ∈ addresses rows := by
  rw [hrows.mem_addresses ha, get_isSome_iff]

theorem exists_spelled_of_mem (ha : a ∈ addresses rows) : ∃ text, spelled text = some a := by
  obtain ⟨text, -, htext⟩ := List.mem_filterMap.1 (List.mem_toFinset.1 ha)
  exact ⟨text, htext⟩

theorem Canonical.image_str (hrows : Canonical rows) :
    (listIpAddresses rows).toFinset = (addresses rows).image IpAddress.str := by
  ext ip
  rw [List.mem_toFinset, Finset.mem_image]
  constructor
  · intro hip
    obtain ⟨a, ha, rfl⟩ := hrows.exists_str hip
    exact ⟨a, (hrows.mem_addresses ha).2 hip, rfl⟩
  · rintro ⟨a, ha, rfl⟩
    obtain ⟨text, htext⟩ := exists_spelled_of_mem ha
    exact (hrows.mem_addresses htext).1 ha

theorem Canonical.addresses_eq_empty (hrows : Canonical rows) : addresses rows = ∅ ↔ rows = [] := by
  rw [← Finset.image_eq_empty (f := IpAddress.str), ← hrows.image_str, List.toFinset_eq_empty_iff,
    listIpAddresses, List.map_eq_nil_iff]

theorem listIpAddresses_add :
    listIpAddresses (rows ++ [⟨ip, now⟩]) = listIpAddresses rows ++ [ip] := by
  simp [listIpAddresses]

theorem listIpAddresses_delete :
    listIpAddresses (rows.filter fun r => r.ipAddress ≠ ip) =
      (listIpAddresses rows).filter (· ≠ ip) := by
  rw [listIpAddresses, listIpAddresses, List.filter_map]
  rfl

theorem Canonical.add (hrows : Canonical rows) (ha : spelled text = some a)
    (hnew : a.str ∉ listIpAddresses rows) : Canonical (rows ++ [⟨a.str, now⟩]) := by
  constructor
  · rw [listIpAddresses_add]
    exact List.nodup_append.2 ⟨hrows.nodup, List.nodup_singleton _, fun ip hip ip' hip' => by
      obtain rfl := List.mem_singleton.1 hip'
      exact fun heq => hnew (heq ▸ hip)⟩
  · intro ip hip
    rw [listIpAddresses_add] at hip
    rcases List.mem_append.1 hip with hip | hip
    · exact hrows.normalized ip hip
    · obtain rfl := List.mem_singleton.1 hip
      exact normalizeIpAddress_eq_some.2 ⟨a, spelled_str ha, rfl⟩

theorem addresses_add (ha : spelled text = some a) :
    addresses (rows ++ [⟨a.str, now⟩]) = insert a (addresses rows) := by
  ext b
  rw [addresses, listIpAddresses_add, List.filterMap_append, Finset.mem_insert, List.mem_toFinset,
    List.mem_append, addresses, List.mem_toFinset, or_comm]
  simp [spelled_str ha, eq_comm]

theorem Canonical.delete (hrows : Canonical rows) (ip : String) :
    Canonical (rows.filter fun r => r.ipAddress ≠ ip) := by
  constructor
  · rw [listIpAddresses_delete]
    exact hrows.nodup.filter _
  · intro ip' hip'
    rw [listIpAddresses_delete] at hip'
    exact hrows.normalized ip' (List.mem_of_mem_filter hip')

theorem Canonical.addresses_delete (hrows : Canonical rows) (ha : spelled text = some a) :
    addresses (rows.filter fun r => r.ipAddress ≠ a.str) = (addresses rows).erase a := by
  ext b
  rw [Finset.mem_erase]
  by_cases hb : ∃ text, spelled text = some b
  · obtain ⟨text', htext'⟩ := hb
    rw [(hrows.delete a.str).mem_addresses htext', hrows.mem_addresses htext',
      listIpAddresses_delete, List.mem_filter, decide_eq_true_iff, and_comm, ne_eq,
      str_inj (wellFormed_of_spelled htext') (wellFormed_of_spelled ha)]
  · exact iff_of_false (fun h => hb (exists_spelled_of_mem h))
      (fun h => hb (exists_spelled_of_mem h.2))

/-- **A text is let in when it spells an address of the set**, or when the set is empty. -/
theorem Canonical.isIpAllowed_iff (hrows : Canonical rows) (ip : Option String) :
    isIpAllowed (listIpAddresses rows) ip = true ↔
      addresses rows = ∅ ∨ ∃ a ∈ addresses rows, ip.bind spelled = some a := by
  rw [hrows.addresses_eq_empty]
  unfold isIpAllowed
  by_cases hempty : rows = []
  · simp [hempty, listIpAddresses]
  · rw [if_neg (by simpa [listIpAddresses] using hempty), or_iff_right hempty]
    cases ip with
    | none => simp
    | some ip =>
      cases hspelled : spelled ip with
      | none => simp [normalizeIpAddress_eq_none.2 hspelled, hspelled]
      | some a =>
        have hnormalized := normalizeIpAddress_eq_some.2 ⟨a, hspelled, rfl⟩
        simp [hnormalized, hspelled, hrows.mem_addresses hspelled]

end Table

/-! ### The steps of a request -/

/-- What a task has done: its request, with what has come of it. -/
def Task.did (t : Task) : Option (Request × Outcome) := t.stage.outcome.map (t.request, ·)

/-- What a task keeps in mind between its steps fits its request, and so does its answer. -/
def Task.Sound (t : Task) : Prop :=
  match t.stage with
  | .started | .failed _ => True
  | .adding normalized | .refreshing normalized => ∃ ip a,
    t.request = .addFirewallIp ip ∧ spelled ip = some a ∧ a.str = normalized
  | .deleting normalized => ∃ ip a,
    t.request = .deleteFirewallIp ip ∧ spelled ip = some a ∧ a.str = normalized
  | .answered outcome answer => Answers t.request answer outcome

section Steps

variable {rows rows' : List FirewallIpEntry} {request : Request} {stage stage' : Stage} {now : ℤ}
  {t t' : Task} {a : Action}

theorem Canonical.spec_listed {entries : List FirewallIpEntry} (hrows : Canonical rows)
    (hperm : entries.Perm rows) :
    spec (addresses rows) (.listFirewallIps, .listed (modeOf entries) entries) =
      some (addresses rows) := by
  have htexts : (entries.map (·.ipAddress)).Perm (listIpAddresses rows) := hperm.map _
  have hmode : modeOf entries = .allowAll ↔ addresses rows = ∅ := by
    rw [hrows.addresses_eq_empty, modeOf, hperm.isEmpty_eq]
    cases rows <;> simp
  have himage : (entries.map (·.ipAddress)).toFinset = (addresses rows).image IpAddress.str := by
    rw [List.toFinset_eq_of_perm _ _ htexts, hrows.image_str]
  exact if_pos ⟨hmode, htexts.nodup_iff.2 hrows.nodup, himage⟩

/-- **The first step of a request** reads the set and leaves it as it is. -/
theorem start_spec (hrows : Canonical rows) (request : Request) :
    (∀ outcome ∈ (start rows request).outcome,
      spec (addresses rows) (request, outcome) = some (addresses rows)) ∧
      Task.Sound ⟨request, start rows request⟩ := by
  cases request with
  | listFirewallIps =>
    obtain ⟨entries, hentries⟩ : ∃ entries, listEntries rows = entries := ⟨_, rfl⟩
    have hperm : entries.Perm rows := hentries ▸ List.mergeSort_perm rows _
    simp only [start, hentries]
    refine ⟨fun outcome h => ?_, rfl⟩
    obtain rfl := Option.some.inj h
    exact hrows.spec_listed hperm
  | addFirewallIp ip =>
    cases hspelled : spelled ip with
    | none => simp [start, normalizeIpAddress_eq_none.2 hspelled, Stage.outcome, spec,
        specAdd, hspelled, Task.Sound, Answers, Request.text]
    | some a =>
      have hnormalized := normalizeIpAddress_eq_some.2 ⟨a, hspelled, rfl⟩
      have hmem := hrows.get_isSome hspelled
      by_cases ha : a ∈ addresses rows
      · simp [start, hnormalized, hmem.2 ha, Stage.outcome, spec, specAdd, hspelled, Task.Sound,
          Answers, ha]
      · simp [start, hnormalized, mt hmem.1 ha, Stage.outcome, Task.Sound, hspelled]
  | deleteFirewallIp ip =>
    cases hspelled : spelled ip with
    | none => simp [start, normalizeIpAddress_eq_none.2 hspelled, Stage.outcome, spec,
        specDelete, hspelled, Task.Sound, Answers, Request.text]
    | some a =>
      have hnormalized := normalizeIpAddress_eq_some.2 ⟨a, hspelled, rfl⟩
      have hmem := hrows.get_isSome hspelled
      by_cases ha : a ∈ addresses rows
      · simp [start, hnormalized, hmem.2 ha, Stage.outcome, Task.Sound, hspelled]
      · simp [start, hnormalized, mt hmem.1 ha, Stage.outcome, spec, specDelete, hspelled,
          Task.Sound, Answers, ha]
  | isIpAllowed ip =>
    refine ⟨fun outcome h => ?_, rfl⟩
    obtain rfl := Option.some.inj h
    exact if_pos (hrows.isIpAllowed_iff ip)

/-- A request that has shown what has come of it changes nothing more. -/
theorem resume_keep {outcome : Outcome} (houtcome : stage.outcome = some outcome)
    (h : resume rows now request stage = some (rows', stage')) :
    stage'.outcome = some outcome ∧ rows' = rows := by
  cases stage with
  | refreshing normalized =>
    simp only [resume] at h
    split at h <;> cases h <;> exact ⟨houtcome, rfl⟩
  | started | adding _ | deleting _ => cases houtcome
  | answered _ _ | failed _ => cases h

/-- **The next step of a request** does to the set what the request shows with it. -/
theorem resume_spec (hrows : Canonical rows) (hsound : Task.Sound ⟨request, stage⟩)
    (h : resume rows now request stage = some (rows', stage')) :
    Canonical rows' ∧ Task.Sound ⟨request, stage'⟩ ∧ (stage.outcome = none →
      run spec (addresses rows) (Task.did ⟨request, stage'⟩).toList = some (addresses rows')) := by
  cases stage with
  | started =>
    obtain ⟨rfl, rfl⟩ := Prod.mk.inj (Option.some.inj h)
    obtain ⟨hspec, hsound'⟩ := start_spec hrows request
    refine ⟨hrows, hsound', fun _ => ?_⟩
    cases houtcome : (start rows request).outcome with
    | none => simp [Task.did, houtcome]
    | some outcome => simp [Task.did, houtcome, run, hspec outcome houtcome]
  | adding normalized =>
    obtain ⟨ip, a, rfl, ha, rfl⟩ := hsound
    have hmem := hrows.get_isSome ha
    simp only [resume] at h
    split_ifs at h with hexists
    · cases h
      refine ⟨hrows, rfl, fun _ => ?_⟩
      simp [Task.did, Stage.outcome, run, spec, specAdd, ha, hmem.1 hexists]
    · cases h
      have hnew : a.str ∉ listIpAddresses rows := fun hin => hexists (get_isSome_iff.2 hin)
      refine ⟨hrows.add ha hnew, ⟨ip, a, rfl, ha, rfl⟩, fun _ => ?_⟩
      simp [Task.did, Stage.outcome, run, spec, specAdd, ha, mt hmem.2 hexists, addresses_add ha]
  | refreshing normalized =>
    obtain ⟨ip, a, rfl, ha, rfl⟩ := hsound
    simp only [resume] at h
    split at h
    · rename_i entry hentry
      cases h
      have htext : (spelled ip).map IpAddress.str = some entry.ipAddress := by
        rw [ha, Option.map_some, get_ipAddress hentry]
      exact ⟨hrows, ⟨entry, rfl, htext⟩, fun hnone => by cases hnone⟩
    · cases h
      exact ⟨hrows, trivial, fun hnone => by cases hnone⟩
  | deleting normalized =>
    obtain ⟨ip, a, rfl, ha, rfl⟩ := hsound
    cases h
    refine ⟨hrows.delete _, rfl, fun _ => ?_⟩
    simp only [Task.did, Stage.outcome, run, spec, specDelete, ha, hrows.addresses_delete ha,
      Option.map_some, Option.toList_some, Option.bind_some]
  | answered outcome answer => cases h
  | failed outcome => cases h

theorem act_cases (h : act rows t a = some (rows', t')) :
    (∃ now stage, a = .resume now ∧ resume rows now t.request t.stage = some (rows', stage) ∧
      t' = ⟨t.request, stage⟩) ∨
    (rows' = rows ∧ t' = ⟨t.request, .failed t.stage.outcome⟩) := by
  cases a with
  | resume now =>
    obtain ⟨⟨rows₁, stage⟩, hresume, hr⟩ := Option.map_eq_some_iff.1 h
    cases hr
    exact Or.inl ⟨now, stage, rfl, hresume, rfl⟩
  | fail =>
    obtain ⟨stage, hfail, hr⟩ := Option.map_eq_some_iff.1 h
    cases hr
    refine Or.inr ⟨rfl, ?_⟩
    cases hstage : t.stage <;> rw [hstage] at hfail <;> cases hfail <;> rfl

/-- A delete that will answer, or has answered, that the address is deleted. -/
def Task.Found (t : Task) : Prop :=
  (∃ normalized, t.stage = .deleting normalized) ∨ t.stage.outcome = some .removed

/-- A delete comes to this with its first step, which finds the row of the address. -/
theorem resume_found (h : resume rows now request stage = some (rows', stage'))
    (hfound : Task.Found ⟨request, stage'⟩) : Task.Found ⟨request, stage⟩ ∨
      ∃ ip normalized, request = .deleteFirewallIp ip ∧ stage = .started ∧
        normalizeIpAddress ip = some normalized ∧ (get rows normalized).isSome = true := by
  cases stage with
  | started =>
    obtain ⟨rfl, rfl⟩ := Prod.mk.inj (Option.some.inj h)
    cases request with
    | listFirewallIps => simp [Task.Found, start, Stage.outcome] at hfound
    | isIpAllowed ip => simp [Task.Found, start, Stage.outcome] at hfound
    | addFirewallIp ip =>
      simp only [Task.Found, start] at hfound
      split at hfound
      · simp [Stage.outcome] at hfound
      · split at hfound <;> simp [Stage.outcome] at hfound
    | deleteFirewallIp ip =>
      simp only [Task.Found, start] at hfound
      split at hfound
      · simp [Stage.outcome] at hfound
      · rename_i normalized hnormalized
        split at hfound
        · rename_i hget
          exact Or.inr ⟨ip, normalized, rfl, rfl, hnormalized, hget⟩
        · simp [Stage.outcome] at hfound
  | adding normalized =>
    simp only [resume] at h
    split at h <;> cases h <;> simp [Task.Found, Stage.outcome] at hfound
  | refreshing normalized =>
    simp only [resume] at h
    split at h <;> cases h <;> simp [Task.Found, Stage.outcome] at hfound
  | deleting normalized => exact Or.inl (Or.inl ⟨normalized, rfl⟩)
  | answered _ _ | failed _ => cases h

/-- What a step of a delete finds out, when it comes to this. -/
def Finds (rows : List FirewallIpEntry) (t : Task) (a : Action) : Prop :=
  ∃ now ip normalized, a = .resume now ∧ t = ⟨.deleteFirewallIp ip, .started⟩ ∧
    normalizeIpAddress ip = some normalized ∧ (get rows normalized).isSome = true

theorem request_of_act (h : act rows t a = some (rows', t')) : t'.request = t.request := by
  obtain ⟨now, stage, -, -, rfl⟩ | ⟨-, rfl⟩ := act_cases h <;> rfl

theorem act_found (h : act rows t a = some (rows', t')) (hfound : t'.Found) :
    t.Found ∨ Finds rows t a := by
  obtain ⟨now, stage, rfl, hresume, rfl⟩ | ⟨rfl, rfl⟩ := act_cases h
  · rcases resume_found hresume hfound with hfound | ⟨ip, normalized, hrequest, hstage, hget⟩
    · exact Or.inl hfound
    · exact Or.inr ⟨now, ip, normalized, rfl, by rw [← hrequest, ← hstage], hget⟩
  · rcases hfound with ⟨normalized, hstage⟩ | houtcome
    · cases hstage
    · exact Or.inl (Or.inr houtcome)

theorem act_keep {o : Request × Outcome} (ho : t.did = some o)
    (h : act rows t a = some (rows', t')) : t'.did = some o ∧ rows' = rows := by
  obtain ⟨outcome, houtcome, rfl⟩ := Option.map_eq_some_iff.1 ho
  obtain ⟨now, stage, -, hresume, rfl⟩ | ⟨rfl, rfl⟩ := act_cases h
  · obtain ⟨houtcome', hsame⟩ := resume_keep houtcome hresume
    exact ⟨Option.map_eq_some_iff.2 ⟨outcome, houtcome', rfl⟩, hsame⟩
  · exact ⟨ho, rfl⟩

/-- **A step of a task**, which may fail, in the terms of the set. -/
theorem act_spec (hrows : Canonical rows) (hsound : t.Sound) (h : act rows t a = some (rows', t')) :
    Canonical rows' ∧ t'.Sound ∧ (t.did = none →
      run spec (addresses rows) t'.did.toList = some (addresses rows')) := by
  obtain ⟨now, stage, -, hresume, rfl⟩ | ⟨rfl, rfl⟩ := act_cases h
  · obtain ⟨hrows', hsound', hnew⟩ := resume_spec hrows hsound hresume
    exact ⟨hrows', hsound', fun hnone => hnew (Option.map_eq_none_iff.1 hnone)⟩
  · refine ⟨hrows, trivial, fun hnone => ?_⟩
    have hnone' : Task.did ⟨t.request, .failed t.stage.outcome⟩ = none := hnone
    rw [hnone']
    rfl

end Steps

/-! ### Runs -/

/-- What a step shows: the place of its task, its request and what has come of it. -/
def shows : State → Event → Option (ℕ × Request × Outcome) := program.shows Task.did

section Runs

variable {rows : List FirewallIpEntry} {s s' : State} {e : Event} {es : List Event}

/-- The invariant of the runs. -/
def Inv (s : State) : Prop := Asserts Canonical (fun _ => Task.Sound) s

theorem inv_step (hs : Inv s) (h : step s e = some s') : Inv s' := by
  refine Program.inv_step_local (P := program) (C := fun _ _ => True) (fun _ _ _ _ => trivial)
    (fun p tid a t st t' hI hJ _ _ hact => ?_) hs trivial h
  have hspec := act_spec hI hJ hact
  exact ⟨hspec.1, hspec.2.1⟩

theorem step_spec (hs : Inv s) (h : step s e = some s') :
    run (fun S (o : ℕ × Request × Outcome) => spec S o.2) (addresses s.store) (shows s e).toList =
      some (addresses s'.store) := by
  obtain ⟨hrows, htasks⟩ := hs
  obtain ⟨request, rfl, rfl⟩ | ⟨tid, a, t, st, t', rfl, ht, hact, rfl⟩ := Program.step_cases h
  · rfl
  · obtain ⟨-, -, hnew⟩ := act_spec hrows (htasks t (List.mem_of_getElem? ht)) hact
    simp only [shows, Program.shows, ht, hact, Option.bind_some]
    cases hdid : t.did with
    | none =>
      have hnew := hnew hdid
      rw [if_pos rfl]
      cases hdid' : t'.did with
      | none => simpa [hdid'] using hnew
      | some o => simpa [run, hdid'] using hnew
    | some o =>
      obtain ⟨-, rfl⟩ := act_keep hdid hact
      rfl

theorem exists_found (hrows : Canonical rows) (hrun : run step ⟨rows, []⟩ es = some s') {tid : ℕ}
    {t : Task} (ht : s'.tasks[tid]? = some t) (hfound : t.Found) :
    ∃ es₁ now es₂ s₁ ip a, es = es₁ ++ .act tid (.resume now) :: es₂ ∧
      run step ⟨rows, []⟩ es₁ = some s₁ ∧ s₁.tasks[tid]? = some ⟨t.request, .started⟩ ∧
      t.request = .deleteFirewallIp ip ∧ spelled ip = some a ∧ a ∈ addresses s₁.store := by
  rcases Program.exists_act_of_run (P := program)
    (F := fun u => u.request = t.request ∧ u.Found)
    (B := fun rows u a => u.request = t.request ∧ Finds rows u a)
    (fun _ _ hfound => by simp [program, Task.Found, Stage.outcome] at hfound)
    (fun _ _ _ _ _ hact hF => by
      have hrequest := (request_of_act hact).symm.trans hF.1
      exact (act_found hact hF.2).imp (⟨hrequest, ·⟩) (⟨hrequest, ·⟩)) hrun ht ⟨rfl, hfound⟩ with
    ⟨t₀, ht₀, -⟩ | ⟨es₁, _, es₂, s₁, _, hes, hrun₁, ht₁, hrequest, hfinds⟩
  · simp at ht₀
  · obtain ⟨now, ip, normalized, rfl, rfl, hip, hget⟩ := hfinds
    -- the table was canonical at this moment, so the row spells its address
    have hinit : Inv ⟨rows, []⟩ := ⟨hrows, fun t ht => by cases ht⟩
    obtain ⟨hcanonical, -⟩ := invariant (fun s e s' => inv_step) hinit hrun₁
    obtain ⟨a, ha, rfl⟩ := normalizeIpAddress_eq_some.1 hip
    rw [← hrequest]
    exact ⟨es₁, now, es₂, s₁, ip, a, hes, hrun₁, ht₁, rfl, ha, (hcanonical.get_isSome ha).1 hget⟩

/-- **The allowlist is a set of addresses.**  From a canonical table, with requests interleaved in
any way, the table stays canonical; what the requests show, in this order, is what such requests do
to the set of the addresses that the table spells; each request shows what has come of it, once and
while it runs; it answers what it has shown; and one that has shown that an address is deleted has
found it in the set with its first step, whoever has deleted it then. -/
theorem allowlist_agrees (hrows : Canonical rows) (hrun : run step ⟨rows, []⟩ es = some s') :
    Canonical s'.store ∧
      run (fun S (o : ℕ × Request × Outcome) => spec S o.2) (addresses rows)
        (trace step shows ⟨rows, []⟩ es) = some (addresses s'.store) ∧
      (∀ tid, ((trace step shows ⟨rows, []⟩ es).filter fun o => o.1 = tid).map Prod.snd =
        ((s'.tasks[tid]?).bind Task.did).toList) ∧
      (∀ t ∈ s'.tasks, ∀ outcome answer, t.stage = .answered outcome answer →
        Answers t.request answer outcome) ∧
      ∀ tid t, s'.tasks[tid]? = some t → t.stage.outcome = some .removed →
        ∃ es₁ now es₂ s₁ ip a, es = es₁ ++ .act tid (.resume now) :: es₂ ∧
          run step ⟨rows, []⟩ es₁ = some s₁ ∧ s₁.tasks[tid]? = some ⟨t.request, .started⟩ ∧
          t.request = .deleteFirewallIp ip ∧ spelled ip = some a ∧ a ∈ addresses s₁.store := by
  have hinit : Inv ⟨rows, []⟩ := ⟨hrows, fun t ht => by cases ht⟩
  obtain ⟨hcanonical, hsound⟩ := invariant (fun s e s' => inv_step) hinit hrun
  refine ⟨hcanonical, ?_, fun tid => ?_, fun t ht outcome answer hstage => ?_,
    fun tid t ht houtcome => exists_found hrows hrun ht (Or.inr houtcome)⟩
  · exact run_trace (fun s : State => addresses s.store) (fun s e s' => inv_step)
      (fun s e s' => step_spec) hinit hrun
  · have honce : ((s'.tasks[tid]?).bind Task.did).toList = ((none : Option Task).bind
        Task.did).toList ++ (((trace step shows ⟨rows, []⟩ es).filter fun o => o.1 = tid).map
        Prod.snd) :=
      Program.filter_trace (fun _ _ => rfl) (fun _ _ _ _ _ hact hdid => (act_keep hdid hact).1)
        hrun tid
    exact honce.symm
  · obtain ⟨request, stage⟩ := t
    obtain rfl : stage = .answered outcome answer := hstage
    exact hsound _ ht

/-- Two requests that delete the one address of the table, by different spellings, and one that adds
another address between their steps. -/
def sampleEvents : List Event :=
  [.spawn (.deleteFirewallIp "::ffff:a00:1"), .spawn (.deleteFirewallIp " ::FFFF:10.0.0.1"),
    .spawn (.addFirewallIp "10.0.0.2"), .act 0 (.resume 6), .act 1 (.resume 6),
    .act 2 (.resume 6), .act 0 (.resume 7), .act 2 (.resume 8), .act 1 (.resume 9),
    .act 2 (.resume 9)]

theorem canonical_sample : Canonical [⟨"::ffff:10.0.0.1", 5⟩] :=
  ⟨by decide, fun ip hip => by
    obtain rfl := List.mem_singleton.1 hip
    decide +kernel⟩

/-- Both of them answer that it is deleted. -/
theorem allowlist_agrees_sample : ∃ s' : State,
    run step ⟨[⟨"::ffff:10.0.0.1", 5⟩], []⟩ sampleEvents = some s' ∧ Canonical s'.store ∧
      s'.store = [⟨"10.0.0.2", 8⟩] ∧ s'.tasks.map (·.stage) = [.answered .removed .deleted,
        .answered .removed .deleted, .answered .added (.created ⟨"10.0.0.2", 8⟩)] := by
  have hrun : run step ⟨[⟨"::ffff:10.0.0.1", 5⟩], []⟩ sampleEvents =
      some (endOf step ⟨[⟨"::ffff:10.0.0.1", 5⟩], []⟩ sampleEvents) :=
    run_endOf (by decide +kernel)
  exact ⟨_, hrun, (allowlist_agrees canonical_sample hrun).1, by decide +kernel,
    by decide +kernel⟩

end Runs

end FirecrawlLb.Firewall.Allowlist
