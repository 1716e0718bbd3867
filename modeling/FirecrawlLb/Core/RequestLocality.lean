import FirecrawlLb.Core.ForwardedFor
import FirecrawlLb.Python.Values

/-!
# Local requests

Without a password the dashboard is open to local requests.  A request is local when the address of
its client is a loopback address and its host name is local.
-/

namespace FirecrawlLb.Core.RequestLocality

open FirecrawlLb.Python FirecrawlLb.Core.ForwardedFor

structure Settings where
  firewallTrustProxyHeaders : Bool
  firewallTrustedProxyNetworks : List IpNetwork

/-- The header fields, the address of the peer, and the host of `scope["server"]`. -/
structure Request where
  headers : Headers
  clientHost : Option String
  serverHost : Option String

def localHosts : List String := ["", "localhost", "127.0.0.1", "::1", "[::1]"]

def testServerHosts : List String := ["testserver", "testclient"]

def forwardedClientIpHeaders : List String :=
  ["x-forwarded-for", "forwarded", "x-real-ip", "true-client-ip", "cf-connecting-ip"]

/-- A value that counts as true: it is there and is not empty. -/
def nonEmpty (value : Option String) : Option String := value.filter (· ≠ "")

def isLocalHost : Option String → Bool
  | none => false
  | some host => localHosts.any (· = lower (strip host))

/-- `_resolve_client_ip_from_xff_chain` -/
def resolveClientIpFromXffChain (socketIp forwardedFor : String) (networks : List IpNetwork) :
    Except Raised (Option String) :=
  if (hops forwardedFor).isEmpty then .ok none
  else if (hops forwardedFor).any fun entry => !isValidIp entry then .error .valueError
  else .ok (some (resolveChain networks socketIp (hops forwardedFor).reverse))

/-- The address in a `for=` item of the `Forwarded` header. -/
def forwardedCandidate (item : String) : Option String :=
  let quoted := stripChar '"' (strip (String.ofList (item.toList.drop 4)))
  let candidate :=
    if quoted.toList.head? = some '[' ∧ quoted.toList.getLast? = some ']' then
      String.ofList (quoted.toList.drop 1).dropLast
    else quoted
  if candidate.toList.head? = some '_' then none
  else if isValidIp candidate then some candidate
  else none

/-- `_resolve_forwarded_header_ip`: the first item for a client decides. -/
def resolveForwardedHeaderIp (forwarded : String) : Option String :=
  let items := ((split ',' forwarded).flatMap (split ';')).map strip
  (items.find? fun item => "for=".toList.isPrefixOf (lower item).toList).bind forwardedCandidate

/-- The client's address from the other headers. -/
def resolveFromOtherHeaders (headers : Headers) : Option String :=
  match ["x-real-ip", "true-client-ip", "cf-connecting-ip"].findSome? fun name =>
    nonEmpty (headers.get name) with
  | some forwardedIp => if isValidIp (strip forwardedIp) then some (strip forwardedIp) else none
  | none => (nonEmpty (headers.get "forwarded")).bind resolveForwardedHeaderIp

/-- `resolve_connection_client_ip` -/
def resolveConnectionClientIp (headers : Headers) (socketIp : Option String)
    (trustProxyHeaders : Bool) (networks : List IpNetwork) : Option String :=
  match socketIp with
  | none => none
  | some socket =>
    if trustProxyHeaders && socket ≠ "" && isTrustedProxySource socket networks then
      match nonEmpty (headers.get "x-forwarded-for") with
      | none => resolveFromOtherHeaders headers
      | some forwardedFor =>
        match resolveClientIpFromXffChain socket forwardedFor networks with
        | .error _ => none
        | .ok (some resolved) => some resolved
        | .ok none => resolveFromOtherHeaders headers
    else some socket

/-- `resolve_request_client_host` -/
def resolveRequestClientHost (settings : Settings) (request : Request) : Option String :=
  resolveConnectionClientIp request.headers request.clientHost settings.firewallTrustProxyHeaders
    settings.firewallTrustedProxyNetworks

def isTestServerRequest (request : Request) : Bool :=
  match request.serverHost with
  | none => false
  | some host => testServerHosts.any (· = lower (strip host))

def hasForwardedClientIpHint (headers : Headers) : Bool :=
  forwardedClientIpHeaders.any fun header => (nonEmpty (headers.get header)).isSome

/-- `_parse_host_header_hostname` -/
def parseHostHeaderHostname (hostHeader : Option String) : Option String :=
  hostHeader.bind fun header =>
    let value := (strip header).toList
    if value = [] then none
    else if value.head? = some '[' then
      if ']' ∈ value then some (String.ofList (value.takeWhile (· ≠ ']') ++ [']']))
      else some (String.ofList value)
    else if value.count ':' = 1 then some (strip (String.ofList (value.takeWhile (· ≠ ':'))))
    else some (String.ofList value)

def isLocalRequest (settings : Settings) (request : Request) : Bool :=
  if isTestServerRequest request then true
  else
    match nonEmpty (resolveRequestClientHost settings request) with
    | none => false
    | some clientHost =>
      match ipAddress clientHost with
      | none => false
      | some address =>
        if address.isLoopback then
          let hostName := parseHostHeaderHostname (request.headers.get "host")
          if settings.firewallTrustProxyHeaders then
            isLocalHost hostName && hasForwardedClientIpHint request.headers
          else isLocalHost hostName && !hasForwardedClientIpHint request.headers
        else false

/-! ### Remote clients -/

/-- The text is a loopback address. -/
def isLoopbackHost (host : String) : Bool := ((ipAddress host).map (·.isLoopback)).getD false

variable {settings : Settings} {request : Request} {socketIp : String} {client : ListedAddress}
  {trusted : List ListedAddress} {sent : String}

theorem isLocalRequest_of_resolved {host : Option String}
    (hserver : isTestServerRequest request = false)
    (hresolved : resolveRequestClientHost settings request = host)
    (hhost : ∀ clientHost ∈ host, isLoopbackHost clientHost = false) :
    isLocalRequest settings request = false := by
  subst hresolved
  unfold isLocalRequest
  rw [if_neg (by simp [hserver])]
  split
  · rfl
  · rename_i clientHost hnonempty
    have hmem := hhost clientHost (Option.eq_some_of_filter_eq_some hnonempty)
    split
    · rfl
    · rename_i address haddress
      have hloopback : address.isLoopback = false := by
        simpa [isLoopbackHost, haddress] using hmem
      rw [if_neg (by simp [hloopback])]

theorem resolveConnectionClientIp_of_untrusted {headers : Headers} {host : Option String}
    {trust : Bool} {networks : List IpNetwork}
    (h : ∀ socket ∈ host, (trust && isTrustedProxySource socket networks) = false) :
    resolveConnectionClientIp headers host trust networks = host := by
  cases host with
  | none => rfl
  | some socket =>
    have hsocket := h socket rfl
    have hcond : ¬ (trust && decide (socket ≠ "") && isTrustedProxySource socket networks) =
        true := by
      simp only [Bool.and_eq_true, not_and, Bool.and_eq_false_iff] at hsocket ⊢
      rintro ⟨rfl, -⟩
      simpa using hsocket
    rw [resolveConnectionClientIp, if_neg hcond]

/-- From a trusted proxy a list of addresses is walked, and one with another entry gives none. -/
theorem resolveConnectionClientIp_of_header {headers : Headers} {networks : List IpNetwork}
    {forwardedFor : String} (hsocket : isTrustedProxySource socketIp networks = true)
    (hheader : headers.get "x-forwarded-for" = some forwardedFor) (hne : forwardedFor ≠ "") :
    resolveConnectionClientIp headers (some socketIp) true networks =
      if (hops forwardedFor).all isValidIp then
        some (resolveChain networks socketIp (hops forwardedFor).reverse) else none := by
  have hcond : (true && decide (socketIp ≠ "") && isTrustedProxySource socketIp networks) =
      true := by
    simp [ne_empty_of_isTrustedProxySource hsocket, hsocket]
  have hnonempty : nonEmpty (headers.get "x-forwarded-for") = some forwardedFor := by
    simp [nonEmpty, hheader, hne]
  rw [resolveConnectionClientIp, if_pos hcond, hnonempty]
  simp only [resolveClientIpFromXffChain, List.isEmpty_iff, hops_ne_nil, if_false]
  cases hall : (hops forwardedFor).all isValidIp with
  | true =>
    have hany : ((hops forwardedFor).any fun entry => !isValidIp entry) = false := by
      simpa using hall
    simp [hany]
  | false =>
    have hany : ((hops forwardedFor).any fun entry => !isValidIp entry) = true := by
      simpa using hall
    simp [hany]

theorem resolveConnectionClientIp_of_trusted {headers : Headers} {networks : List IpNetwork}
    (hsocket : isTrustedProxySource socketIp networks = true)
    (hclient : isTrustedProxySource client.text networks = false)
    (htrusted : ∀ hop ∈ trusted, isTrustedProxySource hop.text networks = true)
    (hheader : headers.get "x-forwarded-for" = some (appendAddresses sent (client :: trusted))) :
    resolveConnectionClientIp headers (some socketIp) true networks =
      if (hops sent).all isValidIp then some client.text else none := by
  rw [resolveConnectionClientIp_of_header hsocket hheader
    (appendAddresses_ne_empty sent client trusted), all_isValidIp_hops,
    resolveChain_appendAddresses hsocket hclient htrusted]

/-- The request comes from a client that is not on this host: from the peer itself, or through
trusted proxies of which the first has appended its address to whatever the client has sent. -/
inductive IsRemote (settings : Settings) (request : Request) : Prop where
  | direct (not_loopback : ∀ socketIp ∈ request.clientHost, isLoopbackHost socketIp = false)
      (not_proxy : settings.firewallTrustProxyHeaders = false ∨ ∀ socketIp ∈ request.clientHost,
        isTrustedProxySource socketIp settings.firewallTrustedProxyNetworks = false)
  | proxied {socketIp sent : String} {client : ListedAddress} {trusted : List ListedAddress}
      (trust : settings.firewallTrustProxyHeaders = true)
      (peer : request.clientHost = some socketIp)
      (peer_trusted : isTrustedProxySource socketIp settings.firewallTrustedProxyNetworks = true)
      (header : request.headers.get "x-forwarded-for" =
        some (appendAddresses sent (client :: trusted)))
      (client_untrusted :
        isTrustedProxySource client.text settings.firewallTrustedProxyNetworks = false)
      (client_not_loopback : isLoopbackHost client.text = false)
      (hops_trusted : ∀ hop ∈ trusted,
        isTrustedProxySource hop.text settings.firewallTrustedProxyNetworks = true)

/-- **No remote client is local**, whatever the other headers of its request say. -/
theorem not_isLocalRequest_of_isRemote (settings : Settings) (request : Request)
    (hserver : isTestServerRequest request = false) (hremote : IsRemote settings request) :
    isLocalRequest settings request = false := by
  cases hremote with
  | direct not_loopback not_proxy =>
    refine isLocalRequest_of_resolved hserver ?_ not_loopback
    refine resolveConnectionClientIp_of_untrusted fun socket hsocket => ?_
    rcases not_proxy with htrust | huntrusted
    · rw [htrust, Bool.false_and]
    · rw [huntrusted socket hsocket, Bool.and_false]
  | @proxied socketIp sent client trusted trust peer peer_trusted header client_untrusted
      client_not_loopback hops_trusted =>
    have hresolved : resolveRequestClientHost settings request =
        if (hops sent).all isValidIp then some client.text else none := by
      rw [resolveRequestClientHost, peer, trust]
      exact resolveConnectionClientIp_of_trusted peer_trusted client_untrusted hops_trusted header
    refine isLocalRequest_of_resolved hserver hresolved fun clientHost hhost => ?_
    split_ifs at hhost
    · obtain rfl := Option.some.inj hhost
      exact client_not_loopback
    · cases hhost

/-- A client claims to be the host itself, in every header it can send. -/
theorem not_isLocalRequest_of_isRemote_sample :
    let client : ListedAddress := ⟨"198.51.100.10", by decide, by decide, by decide⟩
    let settings : Settings := ⟨true, [.v4 0x7f000000 0xff000000]⟩
    let request : Request := ⟨[("x-forwarded-for", appendAddresses "127.0.0.1" [client]),
      ("host", "localhost"), ("x-real-ip", "127.0.0.1"), ("forwarded", "for=127.0.0.1")],
      some "127.0.0.1", some "0.0.0.0"⟩
    isTestServerRequest request = false ∧ IsRemote settings request ∧
    isLocalRequest settings request = false := by
  intro client settings request
  have hserver : isTestServerRequest request = false := by decide
  have hremote : IsRemote settings request :=
    @IsRemote.proxied _ _ "127.0.0.1" "127.0.0.1" client [] rfl rfl (by decide) rfl (by decide)
      (by decide) (by simp)
  exact ⟨hserver, hremote, not_isLocalRequest_of_isRemote settings request hserver hremote⟩

/-- Without the proxy's entry the same headers make the request local. -/
example :
    isLocalRequest ⟨true, [.v4 0x7f000000 0xff000000]⟩
      ⟨[("host", "localhost"), ("x-real-ip", "127.0.0.1")], some "127.0.0.1", some "0.0.0.0"⟩ =
      true := by
  decide

end FirecrawlLb.Core.RequestLocality
