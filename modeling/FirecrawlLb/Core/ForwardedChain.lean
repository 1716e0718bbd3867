import FirecrawlLb.Core.ApiFirewall
import FirecrawlLb.Core.RequestLocality

/-!
# The client of a chain

Over a list of addresses the two resolvers give the last one that is in no trusted network, or the
first one when all of them are trusted.  A request may carry its list in several header fields, of
which both read the first one only.
-/

namespace FirecrawlLb.Core.ForwardedChain

open FirecrawlLb.Python FirecrawlLb.Core.ForwardedFor

/-- The hop is an address in a trusted network. -/
def InTrustedNetwork (networks : List IpNetwork) (hop : String) : Prop :=
  ∃ address, ipAddress hop = some address ∧ ∃ network ∈ networks, network.contains address = true

/-- The last hop that is in no trusted network. -/
def LastUntrusted (networks : List IpNetwork) (chain : List String) (client : String) : Prop :=
  ∃ before after, chain = before ++ client :: after ∧ ¬ InTrustedNetwork networks client ∧
    ∀ hop ∈ after, InTrustedNetwork networks hop

/-- **The client of a chain**: the last hop that is in no trusted network, or the first hop when all
of them are. -/
def ChainClient (networks : List IpNetwork) (chain : List String) (client : String) : Prop :=
  LastUntrusted networks chain client ∨
    (∀ hop ∈ chain, InTrustedNetwork networks hop) ∧ chain.head? = some client

variable {networks : List IpNetwork} {chain chain' : List String} {client socketIp : String}

theorem isTrustedProxySource_iff {hop : String} :
    isTrustedProxySource hop networks = true ↔ InTrustedNetwork networks hop := by
  unfold isTrustedProxySource InTrustedNetwork
  cases networks with
  | nil => simp
  | cons network networks => cases ipAddress hop <;> simp

theorem isTrustedProxySource_eq_false {hop : String} :
    isTrustedProxySource hop networks = false ↔ ¬ InTrustedNetwork networks hop := by
  rw [← isTrustedProxySource_iff, Bool.not_eq_true]

/-! ### The last untrusted hop -/

theorem lastUntrusted_append (h : ∀ hop ∈ chain', InTrustedNetwork networks hop) :
    LastUntrusted networks (chain ++ chain') client ↔ LastUntrusted networks chain client := by
  constructor
  · rintro ⟨before, after, heq, hclient, hafter⟩
    rcases List.append_eq_append_iff.1 heq with ⟨front, hfront, hrest⟩ | ⟨front, hfront, hrest⟩
    · -- the untrusted hop would stand among the trusted ones
      have hmem : client ∈ chain' := by simp [hrest]
      exact absurd (h client hmem) hclient
    · cases front with
      | nil =>
        rw [List.nil_append] at hrest
        have hmem : client ∈ chain' := by simp [← hrest]
        exact absurd (h client hmem) hclient
      | cons hop front =>
        rw [List.cons_append] at hrest
        obtain ⟨rfl, rfl⟩ := List.cons_eq_cons.1 hrest
        exact ⟨before, front, hfront, hclient,
          fun hop hhop => hafter hop (List.mem_append_left _ hhop)⟩
  · rintro ⟨before, after, rfl, hclient, hafter⟩
    refine ⟨before, after ++ chain', by simp, hclient, fun hop hhop => ?_⟩
    rcases List.mem_append.1 hhop with hhop | hhop
    · exact hafter hop hhop
    · exact h hop hhop

theorem LastUntrusted.append (h : LastUntrusted networks chain' client) :
    LastUntrusted networks (chain ++ chain') client := by
  obtain ⟨before, after, rfl, hclient, hafter⟩ := h
  exact ⟨chain ++ before, after, by simp, hclient, hafter⟩

theorem all_trusted_or_exists_lastUntrusted (networks : List IpNetwork) (chain : List String) :
    (∀ hop ∈ chain, InTrustedNetwork networks hop) ∨
      ∃ client, LastUntrusted networks chain client := by
  induction chain using List.reverseRecOn with
  | nil => exact Or.inl (by simp)
  | append_singleton chain hop ih =>
    by_cases hhop : InTrustedNetwork networks hop
    · have hend : ∀ hop' ∈ [hop], InTrustedNetwork networks hop' := by simpa using hhop
      rcases ih with ih | ⟨client, hclient⟩
      · left
        intro hop' hmem
        rcases List.mem_append.1 hmem with hmem | hmem
        · exact ih hop' hmem
        · exact hend hop' hmem
      · exact Or.inr ⟨client, (lastUntrusted_append hend).2 hclient⟩
    · exact Or.inr ⟨hop, chain, [], rfl, hhop, by simp⟩

variable (networks) in
theorem exists_chainClient (hne : chain ≠ []) : ∃ client, ChainClient networks chain client := by
  rcases all_trusted_or_exists_lastUntrusted networks chain with h | ⟨client, hclient⟩
  · cases chain with
    | nil => exact absurd rfl hne
    | cons hop chain => exact ⟨hop, Or.inr ⟨h, rfl⟩⟩
  · exact ⟨client, Or.inl hclient⟩

/-! ### The walk -/

theorem resolveChain_of_all_trusted (hsocket : isTrustedProxySource socketIp networks = true)
    {trusted : List String} (htrusted : ∀ hop ∈ trusted, isTrustedProxySource hop networks = true)
    (first : String) : resolveChain networks socketIp (trusted ++ [first]) = first := by
  induction trusted generalizing socketIp with
  | nil => rw [List.nil_append, resolveChain, if_pos hsocket, resolveChain]
  | cons hop trusted ih =>
    rw [List.cons_append, resolveChain, if_pos hsocket]
    exact ih (htrusted hop List.mem_cons_self)
      fun hop' h' => htrusted hop' (List.mem_cons_of_mem _ h')

/-- **From a trusted peer the walk finds the client of the chain.** -/
theorem resolveChain_of_chainClient (hsocket : InTrustedNetwork networks socketIp)
    (h : ChainClient networks chain client) :
    resolveChain networks socketIp chain.reverse = client := by
  have hsocket := isTrustedProxySource_iff.2 hsocket
  rcases h with ⟨before, after, rfl, hclient, hafter⟩ | ⟨htrusted, hhead⟩
  · rw [List.reverse_append, List.reverse_cons, List.append_assoc, List.singleton_append]
    refine resolveChain_of_trusted hsocket (fun hop hhop => ?_)
      (isTrustedProxySource_eq_false.2 hclient) _
    exact isTrustedProxySource_iff.2 (hafter hop (List.mem_reverse.1 hhop))
  · cases chain with
    | nil => cases hhead
    | cons first rest =>
      obtain rfl : first = client := by simpa using hhead
      rw [List.reverse_cons]
      refine resolveChain_of_all_trusted hsocket (fun hop hhop => ?_) first
      exact isTrustedProxySource_iff.2
        (htrusted hop (List.mem_cons_of_mem _ (List.mem_reverse.1 hhop)))

theorem resolveChain_eq_iff (hsocket : InTrustedNetwork networks socketIp) (hne : chain ≠ []) :
    resolveChain networks socketIp chain.reverse = client ↔ ChainClient networks chain client := by
  constructor
  · rintro rfl
    obtain ⟨client, hclient⟩ := exists_chainClient networks hne
    rwa [resolveChain_of_chainClient hsocket hclient]
  · exact resolveChain_of_chainClient hsocket

/-! ### One header field -/

section Field

variable {headers : Headers} {forwardedFor : String}

theorem ne_empty_of_all_isValidIp (h : (hops forwardedFor).all isValidIp = true) :
    forwardedFor ≠ "" := by
  rintro rfl
  have hinvalid : (hops "").all isValidIp = false := by decide
  rw [hinvalid] at h
  cases h

/-- The firewall walks a list of addresses, and takes its peer for any other value. -/
theorem firewall_resolve (hsocket : InTrustedNetwork networks socketIp)
    (hheader : headers.get "x-forwarded-for" = some forwardedFor) :
    ApiFirewall.resolveConnectionClientIp headers (some socketIp) true networks =
      some (if (hops forwardedFor).all isValidIp then
        resolveChain networks socketIp (hops forwardedFor).reverse else socketIp) := by
  have hsocket := isTrustedProxySource_iff.2 hsocket
  by_cases hne : forwardedFor = ""
  · subst hne
    have hinvalid : (hops "").all isValidIp = false := by decide
    have hcond : (true && decide (socketIp ≠ "") && isTrustedProxySource socketIp networks) =
        true := by
      simp [ne_empty_of_isTrustedProxySource hsocket, hsocket]
    rw [ApiFirewall.resolveConnectionClientIp, if_pos hcond, hheader, hinvalid]
    rfl
  · exact ApiFirewall.resolveConnectionClientIp_of_trusted hsocket hheader hne

/-- **Both resolvers find the client of the chain**, when the header is a list of addresses. -/
theorem resolvers_find_chainClient (hsocket : InTrustedNetwork networks socketIp)
    (hvalid : ∀ entry ∈ hops forwardedFor, isValidIp entry = true)
    (hheader : headers.get "x-forwarded-for" = some forwardedFor) :
    ∃ client, ChainClient networks (hops forwardedFor) client ∧
      ApiFirewall.resolveClientIpFromXffChain socketIp forwardedFor networks = some client ∧
      RequestLocality.resolveClientIpFromXffChain socketIp forwardedFor networks =
        .ok (some client) ∧
      ApiFirewall.resolveConnectionClientIp headers (some socketIp) true networks = some client ∧
      RequestLocality.resolveConnectionClientIp headers (some socketIp) true networks =
        some client := by
  have hall : (hops forwardedFor).all isValidIp = true := by simpa using hvalid
  have hany : ((hops forwardedFor).any fun entry => !isValidIp entry) = false := by
    simpa using hall
  obtain ⟨client, hclient⟩ := exists_chainClient networks (hops_ne_nil forwardedFor)
  have hwalk := resolveChain_of_chainClient hsocket hclient
  refine ⟨client, hclient, ?_, ?_, ?_, ?_⟩
  · rw [ApiFirewall.resolveClientIpFromXffChain, hany, hwalk]
    simp [hops_ne_nil]
  · rw [RequestLocality.resolveClientIpFromXffChain, hany, hwalk]
    simp [hops_ne_nil]
  · rw [firewall_resolve hsocket hheader, if_pos hall, hwalk]
  · rw [RequestLocality.resolveConnectionClientIp_of_header (isTrustedProxySource_iff.2 hsocket)
      hheader (ne_empty_of_all_isValidIp hall), if_pos hall, hwalk]

/-- A chain of two trusted proxies, behind which the client has sent an address of its own. -/
theorem resolvers_find_chainClient_sample :
    let networks := [IpNetwork.v4 0x0a000000 0xff000000]
    let forwardedFor := "203.0.113.9, 198.51.100.10, 10.0.0.1"
    let headers := [("x-forwarded-for", forwardedFor)]
    ∃ client, ChainClient networks (hops forwardedFor) client ∧
      ApiFirewall.resolveClientIpFromXffChain "10.0.0.2" forwardedFor networks = some client ∧
      RequestLocality.resolveClientIpFromXffChain "10.0.0.2" forwardedFor networks =
        .ok (some client) ∧
      ApiFirewall.resolveConnectionClientIp headers (some "10.0.0.2") true networks =
        some client ∧
      RequestLocality.resolveConnectionClientIp headers (some "10.0.0.2") true networks =
        some client := by
  intro networks forwardedFor headers
  have hsocket : InTrustedNetwork networks "10.0.0.2" := isTrustedProxySource_iff.1 (by decide)
  have hvalid : ∀ entry ∈ hops forwardedFor, isValidIp entry = true := by decide
  have hheader : Headers.get headers "x-forwarded-for" = some forwardedFor := rfl
  exact resolvers_find_chainClient hsocket hvalid hheader

end Field

/-! ### Several header fields -/

/-- The values of the `X-Forwarded-For` fields, in their order. -/
def forwardedLines (headers : Headers) : List String :=
  (headers.filter (·.1 = "x-forwarded-for")).map (·.2)

/-- The same request with one field, which holds the lines joined with commas. -/
def joinedHeaders (headers : Headers) : Headers :=
  ("x-forwarded-for", ",".intercalate (forwardedLines headers)) ::
    headers.filter (·.1 ≠ "x-forwarded-for")

/-- **The fields mean their joined list**: both resolvers give the address they give for the request
with one field. -/
def ReadsAsJoined (networks : List IpNetwork) (socketIp : String) (headers : Headers) : Prop :=
  ApiFirewall.resolveConnectionClientIp headers (some socketIp) true networks =
      ApiFirewall.resolveConnectionClientIp (joinedHeaders headers) (some socketIp) true networks ∧
    RequestLocality.resolveConnectionClientIp headers (some socketIp) true networks =
      RequestLocality.resolveConnectionClientIp (joinedHeaders headers) (some socketIp) true
        networks

/-- **When the first line says it all.**  It is the only one; or it has an entry that is no address
(and if it is empty, no other header gives an address); or all lines are lists of addresses, and the
later ones hold trusted hops only, or their last untrusted hop is the one of the first line too. -/
def FirstLineDecides (networks : List IpNetwork) (headers : Headers) (first : String)
    (rest : List String) : Prop :=
  rest = [] ∨
  ((∃ entry ∈ hops first, isValidIp entry = false) ∧
    (first = "" → RequestLocality.resolveFromOtherHeaders headers = none)) ∨
  ((∀ entry ∈ hops first ++ rest.flatMap hops, isValidIp entry = true) ∧
    ((∀ hop ∈ rest.flatMap hops, InTrustedNetwork networks hop) ∨
      ∃ client, LastUntrusted networks (hops first) client ∧
        LastUntrusted networks (rest.flatMap hops) client))

section Lines

variable {headers : Headers} {first : String} {rest : List String}

theorem get_eq_head (headers : Headers) :
    headers.get "x-forwarded-for" = (forwardedLines headers).head? := by
  unfold Headers.get forwardedLines
  induction headers with
  | nil => rfl
  | cons field headers ih =>
    obtain ⟨name, value⟩ := field
    by_cases h : name = "x-forwarded-for"
    · simp [h]
    · have hne : ("x-forwarded-for" == name) = false := by
        simpa using Ne.symm h
      simp [List.lookup_cons, h, hne, ih]

theorem get_joinedHeaders (headers : Headers) :
    (joinedHeaders headers).get "x-forwarded-for" =
      some (",".intercalate (forwardedLines headers)) := by
  simp [joinedHeaders, Headers.get]

theorem get_joinedHeaders_of_ne (headers : Headers) {name : String}
    (hname : name ≠ "x-forwarded-for") :
    (joinedHeaders headers).get name = headers.get name := by
  have hne : (name == "x-forwarded-for") = false := by simpa using hname
  unfold joinedHeaders Headers.get
  rw [List.lookup_cons, hne]
  induction headers with
  | nil => rfl
  | cons field headers ih =>
    obtain ⟨name', value⟩ := field
    by_cases h : name' = "x-forwarded-for"
    · have hne' : (name == name') = false := by rw [h, hne]
      simpa [h, List.lookup_cons, hne] using ih
    · cases heq : name == name' with
      | true => simp [h, List.lookup_cons, heq]
      | false => simpa [h, List.lookup_cons, heq] using ih

theorem resolveFromOtherHeaders_joinedHeaders (headers : Headers) :
    RequestLocality.resolveFromOtherHeaders (joinedHeaders headers) =
      RequestLocality.resolveFromOtherHeaders headers := by
  have hget : ∀ name ≠ "x-forwarded-for",
      (joinedHeaders headers).get name = headers.get name :=
    fun name => get_joinedHeaders_of_ne headers
  simp only [RequestLocality.resolveFromOtherHeaders, List.findSome?_cons, List.findSome?_nil,
    hget "x-real-ip" (by decide), hget "true-client-ip" (by decide),
    hget "cf-connecting-ip" (by decide), hget "forwarded" (by decide)]

theorem locality_resolve {forwardedFor : String} (hsocket : InTrustedNetwork networks socketIp)
    (hheader : headers.get "x-forwarded-for" = some forwardedFor) :
    RequestLocality.resolveConnectionClientIp headers (some socketIp) true networks =
      if forwardedFor = "" then RequestLocality.resolveFromOtherHeaders headers
      else if (hops forwardedFor).all isValidIp then
        some (resolveChain networks socketIp (hops forwardedFor).reverse) else none := by
  have hsocket := isTrustedProxySource_iff.2 hsocket
  by_cases hne : forwardedFor = ""
  · subst hne
    have hcond : (true && decide (socketIp ≠ "") && isTrustedProxySource socketIp networks) =
        true := by
      simp [ne_empty_of_isTrustedProxySource hsocket, hsocket]
    rw [RequestLocality.resolveConnectionClientIp, if_pos hcond, hheader, if_pos rfl]
    rfl
  · rw [if_neg hne, RequestLocality.resolveConnectionClientIp_of_header hsocket hheader hne]

/-- More than one line is no empty value. -/
theorem intercalate_ne_empty (first second : String) (rest : List String) :
    ",".intercalate (first :: second :: rest) ≠ "" := by
  intro h
  have hchars := congrArg (fun value => value.toList.length) h
  simp [String.toList_append] at hchars

/-- The walk over the joined list finds the client of the first line exactly if no later hop
outweighs it. -/
theorem resolveChain_append_iff (hsocket : InTrustedNetwork networks socketIp)
    {front back : List String} (hne : front ≠ []) :
    resolveChain networks socketIp front.reverse =
        resolveChain networks socketIp (front ++ back).reverse ↔
      (∀ hop ∈ back, InTrustedNetwork networks hop) ∨
        ∃ client, LastUntrusted networks front client ∧ LastUntrusted networks back client := by
  have hne' : front ++ back ≠ [] := by simp [hne]
  rw [resolveChain_eq_iff hsocket hne]
  rcases all_trusted_or_exists_lastUntrusted networks back with hback | ⟨client, hclient⟩
  · refine iff_of_true ?_ (Or.inl hback)
    obtain ⟨client, hclient⟩ := exists_chainClient networks hne
    have hsame : ChainClient networks (front ++ back) client := by
      rcases hclient with hlast | ⟨htrusted, hhead⟩
      · exact Or.inl ((lastUntrusted_append hback).2 hlast)
      · refine Or.inr ⟨fun hop hhop => ?_, ?_⟩
        · rcases List.mem_append.1 hhop with hhop | hhop
          · exact htrusted hop hhop
          · exact hback hop hhop
        · rw [List.head?_append, hhead, Option.some_or]
    rwa [resolveChain_of_chainClient hsocket hsame]
  · rw [resolveChain_of_chainClient hsocket (Or.inl hclient.append)]
    obtain ⟨before, after, rfl, huntrusted, hafter⟩ := hclient
    constructor
    · rintro (hlast | ⟨htrusted, hhead⟩)
      · exact Or.inr ⟨client, hlast, before, after, rfl, huntrusted, hafter⟩
      · exact absurd (htrusted client (List.mem_of_mem_head? (Option.mem_def.2 hhead))) huntrusted
    · rintro (htrusted | ⟨client', hlast, hlast'⟩)
      · exact absurd (htrusted client (by simp)) huntrusted
      · left
        have hwalk := resolveChain_of_chainClient hsocket
          (Or.inl ⟨before, after, rfl, huntrusted, hafter⟩ : ChainClient networks _ client)
        rw [resolveChain_of_chainClient hsocket (Or.inl hlast')] at hwalk
        rwa [← hwalk]

/-- **The fields mean their joined list** exactly when the first line decides. -/
theorem readsAsJoined_iff (hsocket : InTrustedNetwork networks socketIp)
    (hlines : forwardedLines headers = first :: rest) :
    ReadsAsJoined networks socketIp headers ↔ FirstLineDecides networks headers first rest := by
  have hfirst : headers.get "x-forwarded-for" = some first := by rw [get_eq_head, hlines]; rfl
  have hjoined := get_joinedHeaders headers
  rw [hlines] at hjoined
  unfold ReadsAsJoined FirstLineDecides
  rw [firewall_resolve hsocket hfirst, firewall_resolve hsocket hjoined,
    locality_resolve hsocket hfirst, locality_resolve hsocket hjoined,
    resolveFromOtherHeaders_joinedHeaders, hops_intercalate, List.flatMap_cons]
  cases rest with
  | nil => simp
  | cons second rest =>
    have hlater : second :: rest ≠ [] := by simp
    rw [if_neg (intercalate_ne_empty first second rest), List.all_append]
    generalize (second :: rest).flatMap hops = back
    have hsome : ∀ entries : List String, entries.all isValidIp = false →
        ¬ ∀ entry ∈ entries, isValidIp entry = true := fun entries hfalse h => by
      rw [List.all_eq_true.2 h] at hfalse
      cases hfalse
    cases hall : (hops first).all isValidIp with
    | false =>
      -- neither list is walked
      have hinvalid : ∃ entry ∈ hops first, isValidIp entry = false := by simpa using hall
      have hnot : ¬ ∀ entry ∈ hops first ++ back, isValidIp entry = true :=
        hsome _ (by rw [List.all_append, hall, Bool.false_and])
      simp only [hlater, hinvalid, hnot, false_or, true_and, false_and, or_false]
      by_cases hempty : first = "" <;> simp [hempty]
    | true =>
      have hnot : ¬ ∃ entry ∈ hops first, isValidIp entry = false := by
        rintro ⟨entry, hentry, hfalse⟩
        rw [List.all_eq_true.1 hall entry hentry] at hfalse
        cases hfalse
      rw [if_neg (ne_empty_of_all_isValidIp hall)]
      cases hback : back.all isValidIp with
      | false =>
        -- the joined list is not walked, and gives no local address
        have hjoined : ¬ ∀ entry ∈ hops first ++ back, isValidIp entry = true :=
          hsome _ (by rw [List.all_append, hback, Bool.and_false])
        simp only [hlater, hnot, hjoined, false_and, or_false]
        simp
      | true =>
        have hboth : ∀ entry ∈ hops first ++ back, isValidIp entry = true :=
          List.all_eq_true.1 (by rw [List.all_append, hall, hback, Bool.and_self])
        rw [← resolveChain_append_iff hsocket (hops_ne_nil first)]
        simp only [hlater, hnot, false_or, false_and]
        simpa using fun _ => hboth

/-- A second proxy adds a line of its own, with the address of the first. -/
theorem readsAsJoined_iff_sample :
    let networks := [IpNetwork.v4 0x7f000000 0xff000000]
    let headers := [("x-forwarded-for", "198.51.100.10"), ("host", "localhost"),
      ("x-forwarded-for", "127.0.0.2")]
    (ReadsAsJoined networks "127.0.0.1" headers ↔
      FirstLineDecides networks headers "198.51.100.10" ["127.0.0.2"]) ∧
    ReadsAsJoined networks "127.0.0.1" headers := by
  intro networks headers
  have hsocket : InTrustedNetwork networks "127.0.0.1" := isTrustedProxySource_iff.1 (by decide)
  have hlast : InTrustedNetwork networks "127.0.0.2" := isTrustedProxySource_iff.1 (by decide)
  have hlines : forwardedLines headers = "198.51.100.10" :: ["127.0.0.2"] := by decide
  have hiff := readsAsJoined_iff hsocket hlines
  have hentries : hops "198.51.100.10" ++ ["127.0.0.2"].flatMap hops =
      ["198.51.100.10", "127.0.0.2"] := by decide
  have hvalid : ∀ entry ∈ ["198.51.100.10", "127.0.0.2"], isValidIp entry = true := by decide
  have hlater : ["127.0.0.2"].flatMap hops = ["127.0.0.2"] := by decide
  refine ⟨hiff, hiff.2 (Or.inr (Or.inr ⟨hentries ▸ hvalid, Or.inl ?_⟩))⟩
  rw [hlater]
  simpa using hlast

/-- The client forges a line, and the proxy adds its own: both resolvers take the forged one. -/
theorem forged_line_resolved :
    let networks := [IpNetwork.v4 0x7f000001 0xffffffff]
    let headers := [("x-forwarded-for", "10.10.10.10"), ("x-forwarded-for", "198.51.100.10")]
    InTrustedNetwork networks "127.0.0.1" ∧
    ApiFirewall.resolveConnectionClientIp headers (some "127.0.0.1") true networks =
      some "10.10.10.10" ∧
    RequestLocality.resolveConnectionClientIp headers (some "127.0.0.1") true networks =
      some "10.10.10.10" ∧
    ApiFirewall.resolveConnectionClientIp (joinedHeaders headers) (some "127.0.0.1") true networks =
      some "198.51.100.10" ∧
    RequestLocality.resolveConnectionClientIp (joinedHeaders headers) (some "127.0.0.1") true
      networks = some "198.51.100.10" ∧
    ¬ ReadsAsJoined networks "127.0.0.1" headers := by
  intro networks headers
  have hfirewall : ApiFirewall.resolveConnectionClientIp headers (some "127.0.0.1") true networks =
      some "10.10.10.10" := by decide
  have hjoined : ApiFirewall.resolveConnectionClientIp (joinedHeaders headers) (some "127.0.0.1")
      true networks = some "198.51.100.10" := by decide
  refine ⟨isTrustedProxySource_iff.1 (by decide), hfirewall, by decide, hjoined, by decide, ?_⟩
  rintro ⟨hsame, -⟩
  rw [hfirewall, hjoined] at hsame
  exact absurd hsame (by decide)

end Lines

end FirecrawlLb.Core.ForwardedChain
