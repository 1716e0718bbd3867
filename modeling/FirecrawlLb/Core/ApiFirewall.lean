import FirecrawlLb.Core.ForwardedFor

/-!
# The address the firewall sees

Behind a trusted proxy the firewall takes the client's address from the `X-Forwarded-For` header.
It discards a list with an entry that is no address as a whole, and takes the address of its peer.
-/

namespace FirecrawlLb.Core.ApiFirewall

open FirecrawlLb.Python FirecrawlLb.Core.ForwardedFor

/-- `_resolve_client_ip_from_xff_chain` -/
def resolveClientIpFromXffChain (socketIp forwardedFor : String) (networks : List IpNetwork) :
    Option String :=
  if (hops forwardedFor).isEmpty then none
  else if (hops forwardedFor).any fun entry => !isValidIp entry then none
  else some (resolveChain networks socketIp (hops forwardedFor).reverse)

/-- `resolve_connection_client_ip` -/
def resolveConnectionClientIp (headers : Headers) (socketIp : Option String)
    (trustProxyHeaders : Bool) (networks : List IpNetwork) : Option String :=
  match socketIp with
  | none => none
  | some socket =>
    if trustProxyHeaders && socket ≠ "" && isTrustedProxySource socket networks then
      match headers.get "x-forwarded-for" with
      | none => some socket
      | some forwardedFor =>
        if forwardedFor = "" then some socket
        else some ((resolveClientIpFromXffChain socket forwardedFor networks).getD socket)
    else some socket

variable {headers : Headers} {networks : List IpNetwork} {socketIp : String}
  {client : ListedAddress} {trusted : List ListedAddress} {sent : String}

theorem resolveConnectionClientIp_of_trusted {forwardedFor : String}
    (hsocket : isTrustedProxySource socketIp networks = true)
    (hheader : headers.get "x-forwarded-for" = some forwardedFor) (hne : forwardedFor ≠ "") :
    resolveConnectionClientIp headers (some socketIp) true networks =
      some (if (hops forwardedFor).all isValidIp then
        resolveChain networks socketIp (hops forwardedFor).reverse else socketIp) := by
  have hcond : (true && decide (socketIp ≠ "") && isTrustedProxySource socketIp networks) =
      true := by
    simp [ne_empty_of_isTrustedProxySource hsocket, hsocket]
  rw [resolveConnectionClientIp, if_pos hcond, hheader]
  simp only [hne, if_false, resolveClientIpFromXffChain, List.isEmpty_iff, hops_ne_nil]
  cases hall : (hops forwardedFor).all isValidIp with
  | true =>
    have hany : ((hops forwardedFor).any fun entry => !isValidIp entry) = false := by
      simpa using hall
    simp [hany]
  | false =>
    have hany : ((hops forwardedFor).any fun entry => !isValidIp entry) = true := by
      simpa using hall
    simp [hany]

/-- **A client cannot choose its address.**  Behind trusted proxies the firewall sees the address
that the first of them has appended, whatever addresses the client sends before it.  When it sends
an entry that is no address, the firewall sees the proxy that is its peer. -/
theorem client_ip_behind_trusted_proxies {headers' : Headers} {sent' : String}
    (hsocket : isTrustedProxySource socketIp networks = true)
    (hclient : isTrustedProxySource client.text networks = false)
    (htrusted : ∀ hop ∈ trusted, isTrustedProxySource hop.text networks = true)
    (hheader : headers.get "x-forwarded-for" = some (appendAddresses sent (client :: trusted)))
    (hheader' : headers'.get "x-forwarded-for" =
      some (appendAddresses sent' (client :: trusted))) :
    resolveConnectionClientIp headers (some socketIp) true networks =
      some (if (hops sent).all isValidIp then client.text else socketIp) ∧
    (resolveConnectionClientIp headers (some socketIp) true networks =
        resolveConnectionClientIp headers' (some socketIp) true networks ↔
      (hops sent).all isValidIp = (hops sent').all isValidIp) := by
  have hresolve : ∀ headers sent,
      Headers.get headers "x-forwarded-for" = some (appendAddresses sent (client :: trusted)) →
      resolveConnectionClientIp headers (some socketIp) true networks =
        some (if (hops sent).all isValidIp then client.text else socketIp) := by
    intro headers sent hheader
    rw [resolveConnectionClientIp_of_trusted hsocket hheader
      (appendAddresses_ne_empty sent client trusted), all_isValidIp_hops,
      resolveChain_appendAddresses hsocket hclient htrusted]
  have hne : client.text ≠ socketIp := by
    intro heq
    rw [heq, hsocket] at hclient
    cases hclient
  refine ⟨hresolve headers sent hheader, ?_⟩
  rw [hresolve headers sent hheader, hresolve headers' sent' hheader']
  cases (hops sent).all isValidIp <;> cases (hops sent').all isValidIp <;> simp [hne, hne.symm]

/-- The client prepends an address of its choice, to no effect. -/
theorem client_ip_behind_trusted_proxies_sample :
    let client : ListedAddress := ⟨"198.51.100.10", by decide, by decide, by decide⟩
    let proxy : ListedAddress := ⟨"127.0.0.2", by decide, by decide, by decide⟩
    let header := fun sent => [("x-forwarded-for", appendAddresses sent [client, proxy])]
    let networks := [IpNetwork.v4 0x7f000000 0xff000000]
    resolveConnectionClientIp (header "10.10.10.10") (some "127.0.0.1") true networks =
      some "198.51.100.10" ∧
    (resolveConnectionClientIp (header "10.10.10.10") (some "127.0.0.1") true networks =
        resolveConnectionClientIp (header "::1, 10.0.0.1") (some "127.0.0.1") true networks ↔
      (hops "10.10.10.10").all isValidIp = (hops "::1, 10.0.0.1").all isValidIp) := by
  intro client proxy header networks
  have hsocket : isTrustedProxySource "127.0.0.1" networks = true := by decide
  have hclient : isTrustedProxySource client.text networks = false := by decide
  have htrusted : ∀ hop ∈ [proxy], isTrustedProxySource hop.text networks = true := by decide
  have hheader : ∀ sent, Headers.get (header sent) "x-forwarded-for" =
      some (appendAddresses sent [client, proxy]) := fun _ => rfl
  have hvalid : (hops "10.10.10.10").all isValidIp = true := by decide
  have h := client_ip_behind_trusted_proxies hsocket hclient htrusted (hheader "10.10.10.10")
    (hheader "::1, 10.0.0.1")
  exact ⟨h.1.trans (by rw [if_pos hvalid]), h.2⟩

/-- The client prepends what is no address, and passes for the proxy. -/
theorem client_ip_of_invalid_entry :
    let client : ListedAddress := ⟨"198.51.100.10", by decide, by decide, by decide⟩
    let header := fun sent => [("x-forwarded-for", appendAddresses sent [client])]
    let networks := [IpNetwork.v4 0x7f000001 0xffffffff]
    isTrustedProxySource "127.0.0.1" networks = true ∧
    isTrustedProxySource client.text networks = false ∧
    resolveConnectionClientIp (header "10.10.10.10") (some "127.0.0.1") true networks =
      some client.text ∧
    resolveConnectionClientIp (header "not-an-ip") (some "127.0.0.1") true networks =
      some "127.0.0.1" := by
  decide

end FirecrawlLb.Core.ApiFirewall
