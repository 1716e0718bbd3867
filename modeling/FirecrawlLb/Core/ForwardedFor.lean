import FirecrawlLb.Python.IpAddress

/-!
# Forwarded addresses

A proxy appends the address of its peer to the `X-Forwarded-For` header.  The server walks the list
from its own end and passes the proxies it trusts.  Two modules of the source have the same helpers.
-/

namespace FirecrawlLb.Core.ForwardedFor

open FirecrawlLb.Python

/-- The header fields of a request, with lower-case names. -/
abbrev Headers := List (String × String)

/-- `headers.get(name)`: the first field of the name. -/
def Headers.get (headers : Headers) (name : String) : Option String := headers.lookup name

/-- `_is_valid_ip` -/
def isValidIp (value : String) : Bool := (ipAddress value).isSome

/-- `_is_trusted_proxy_source` -/
def isTrustedProxySource (host : String) (networks : List IpNetwork) : Bool :=
  if networks.isEmpty then false
  else
    match ipAddress host with
    | none => false
    | some sourceIp => networks.any (·.contains sourceIp)

/-- The entries of the header. -/
def hops (forwardedFor : String) : List String := (split ',' forwardedFor).map strip

/-- The loop over the chain, from a proxy to the hops before it, of which the last one is not
asked whether it is trusted. -/
def resolveChain (networks : List IpNetwork) : String → List String → String
  | currentProxy, [] => currentProxy
  | currentProxy, previousHop :: hops =>
    if isTrustedProxySource currentProxy networks then resolveChain networks previousHop hops
    else currentProxy

/-- The loop as it is written: the index goes down from the last entry of the chain to the second,
and the result is overwritten on the way. -/
def chainLoop (networks : List IpNetwork) (chain : List String) : ℕ → String → String
  | 0, resolved => resolved
  | index + 1, _ =>
    let currentProxy := chain.getD (index + 1) ""
    let previousHop := chain.getD index ""
    if isTrustedProxySource currentProxy networks then chainLoop networks chain index previousHop
    else currentProxy

/-- **The walk is the loop.**  Below its index the loop does not look at what comes after. -/
theorem chainLoop_eq (networks : List IpNetwork) (hops : List String) (socketIp : String)
    (after : List String) :
    chainLoop networks (hops ++ socketIp :: after) hops.length socketIp =
      resolveChain networks socketIp hops.reverse := by
  induction hops using List.reverseRecOn generalizing socketIp after with
  | nil => rfl
  | append_singleton hops hop ih =>
    have hchain : hops ++ [hop] ++ socketIp :: after = hops ++ hop :: (socketIp :: after) := by
      simp
    have hcurrent : (hops ++ hop :: (socketIp :: after)).getD (hops.length + 1) "" = socketIp := by
      simp [List.getD_eq_getElem?_getD]
    have hprevious : (hops ++ hop :: (socketIp :: after)).getD hops.length "" = hop := by
      simp [List.getD_eq_getElem?_getD]
    rw [hchain, List.length_append, List.length_singleton, List.reverse_append,
      List.reverse_singleton, List.singleton_append, chainLoop, resolveChain, hcurrent, hprevious,
      ih hop (socketIp :: after)]

/-! ### A header that proxies have extended -/

/-- An address as the entry of a list: it has no comma in it and no space around it. -/
structure ListedAddress where
  text : String
  valid : isValidIp text = true
  no_comma : ',' ∉ text.toList
  stripped : strip text = text

/-- What the client has sent, and the addresses that the proxies append to it. -/
def appendAddresses (sent : String) (addresses : List ListedAddress) : String :=
  addresses.foldl (fun value address => value ++ ", " ++ address.text) sent

variable {networks : List IpNetwork} {socketIp : String} {sent : String}

theorem ne_empty_of_isTrustedProxySource (h : isTrustedProxySource socketIp networks = true) :
    socketIp ≠ "" := by
  rintro rfl
  have hempty : ipAddress "" = none := by decide
  simp [isTrustedProxySource, hempty] at h

theorem hops_ne_nil (forwardedFor : String) : hops forwardedFor ≠ [] := by
  simp [hops, split]

theorem strip_space_cons (cs : List Char) :
    strip (String.ofList (' ' :: cs)) = strip (String.ofList cs) := by
  have hspace : isSpace ' ' = true := by decide
  simp [strip, hspace]

theorem hops_append_comma (value value' : String) :
    hops (value ++ "," ++ value') = hops value ++ hops value' := by
  have hchars : (value ++ "," ++ value').toList = value.toList ++ ',' :: value'.toList := by
    simp [String.toList_append]
  rw [hops, split, hchars, List.splitOn_append_cons_self, List.map_append, List.map_append]
  rfl

theorem hops_intercalate (first : String) (rest : List String) :
    hops (",".intercalate (first :: rest)) = (first :: rest).flatMap hops := by
  induction rest generalizing first with
  | nil => simp
  | cons second rest ih =>
    rw [String.intercalate_cons_cons, hops_append_comma, ih, ← List.flatMap_cons]

theorem hops_append (sent : String) (address : ListedAddress) :
    hops (sent ++ ", " ++ address.text) = hops sent ++ [address.text] := by
  have hcomma : ',' ∉ ' ' :: address.text.toList := by
    simp [address.no_comma]
  have hentry : strip (String.ofList (' ' :: address.text.toList)) = address.text := by
    rw [strip_space_cons, String.ofList_toList, address.stripped]
  have hlast : hops (String.ofList (' ' :: address.text.toList)) = [address.text] := by
    rw [hops, split, String.toList_ofList, List.splitOn_eq_singleton hcomma, List.map_singleton,
      List.map_singleton, hentry]
  have hvalue : sent ++ ", " ++ address.text =
      sent ++ "," ++ String.ofList (' ' :: address.text.toList) := by
    apply String.toList_inj.1
    simp [String.toList_append]
  rw [hvalue, hops_append_comma, hlast]

theorem hops_appendAddresses (sent : String) (addresses : List ListedAddress) :
    hops (appendAddresses sent addresses) = hops sent ++ addresses.map (·.text) := by
  induction addresses generalizing sent with
  | nil => simp [appendAddresses]
  | cons address addresses ih =>
    have hstep : appendAddresses sent (address :: addresses) =
        appendAddresses (sent ++ ", " ++ address.text) addresses := rfl
    rw [hstep, ih, hops_append, List.append_assoc, List.map_cons, List.singleton_append]

theorem appendAddresses_ne_empty (sent : String) (address : ListedAddress)
    (addresses : List ListedAddress) : appendAddresses sent (address :: addresses) ≠ "" := by
  intro hempty
  have hhops := hops_appendAddresses sent (address :: addresses)
  rw [hempty] at hhops
  have hlength : (hops "").length = 1 := by decide
  have hsent := List.length_pos_iff.2 (hops_ne_nil sent)
  have := congrArg List.length hhops
  simp only [List.length_append, List.map_cons, List.length_cons] at this
  omega

/-- The walk passes the trusted proxies and stops at the first address it does not trust, whatever
comes before. -/
theorem resolveChain_of_trusted (hsocket : isTrustedProxySource socketIp networks = true)
    {trusted : List String} (htrusted : ∀ hop ∈ trusted, isTrustedProxySource hop networks = true)
    {client : String} (hclient : isTrustedProxySource client networks = false)
    (before : List String) :
    resolveChain networks socketIp (trusted ++ client :: before) = client := by
  induction trusted generalizing socketIp with
  | nil =>
    rw [List.nil_append, resolveChain, if_pos hsocket]
    cases before with
    | nil => rfl
    | cons hop before => rw [resolveChain, if_neg (by simp [hclient])]
  | cons hop trusted ih =>
    rw [List.cons_append, resolveChain, if_pos hsocket]
    exact ih (htrusted hop List.mem_cons_self)
      fun hop' h' => htrusted hop' (List.mem_cons_of_mem _ h')

theorem resolveChain_appendAddresses (hsocket : isTrustedProxySource socketIp networks = true)
    {client : ListedAddress} (hclient : isTrustedProxySource client.text networks = false)
    {trusted : List ListedAddress}
    (htrusted : ∀ hop ∈ trusted, isTrustedProxySource hop.text networks = true) :
    resolveChain networks socketIp
      (hops (appendAddresses sent (client :: trusted))).reverse = client.text := by
  rw [hops_appendAddresses, List.reverse_append, List.map_cons, List.reverse_cons,
    List.append_assoc, List.singleton_append]
  refine resolveChain_of_trusted hsocket (fun hop hhop => ?_) hclient _
  obtain ⟨address, haddress, rfl⟩ := List.mem_map.1 (List.mem_reverse.1 hhop)
  exact htrusted address haddress

/-- All entries are addresses exactly if those the client has sent are. -/
theorem all_isValidIp_hops (sent : String) (addresses : List ListedAddress) :
    (hops (appendAddresses sent addresses)).all isValidIp = (hops sent).all isValidIp := by
  have haddresses : (addresses.map (·.text)).all isValidIp = true := by
    simp only [List.all_map, List.all_eq_true]
    intro address _
    exact address.valid
  rw [hops_appendAddresses, List.all_append, haddresses, Bool.and_true]

end FirecrawlLb.Core.ForwardedFor
