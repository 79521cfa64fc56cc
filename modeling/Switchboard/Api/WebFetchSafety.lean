import Switchboard.Api.WebFetch
import Switchboard.Library.Except

/-!
# Where a fetch connects to

Every hop connects to addresses that were checked in the lookup of that hop, whatever the answers
of later lookups and the redirects are.
-/

namespace Switchboard.Api.WebFetch

variable {library : UrlLibrary} {policy : WebFetchEgressPolicy} {network : Network}

/-- What is assumed of `getaddrinfo` and of the client: addresses are numeric, a numeric host is
its own address, and the client connects to what its resolver gives. -/
structure Assumed (library : UrlLibrary) (network : Network) : Prop where
  parseable : ∀ n host port infos, network.getaddrinfo n host port = .ok infos →
    ∀ info ∈ infos, ∃ ip, library.ipAddress info.sockaddr.host = some ip
  numeric : ∀ n host port infos ip, library.ipAddress host = some ip →
    network.getaddrinfo n host port = .ok infos →
    ∀ info ∈ infos, library.ipAddress info.sockaddr.host = some ip
  pinned : ∀ n url results, ∀ address ∈ (network.get n url results).1,
    ∃ result ∈ results, address = result.host

/-- A socket address that was found to be global. -/
def AddrInfo.Global (library : UrlLibrary) (info : AddrInfo) : Prop :=
  ∃ ip, library.ipAddress info.sockaddr.host = some ip ∧ ip.isGlobal = true

/-- What is promised of a request, with the number of its lookup. -/
structure Request.Safe (library : UrlLibrary) (policy : WebFetchEgressPolicy) (network : Network)
    (n : ℕ) (request : Request) : Prop where
  scheme : ∃ parsed, library.urlparse request.url = some parsed ∧
    library.lower parsed.scheme ∈ policy.allowedSchemes
  lookup : network.getaddrinfo n request.host request.port = .ok request.answer
  connected : ∀ address ∈ request.connected, ∃ info ∈ request.answer,
    resolvedHost library info = .ok address ∧ info.Global library

/-! ## One hop -/

theorem streamAddrInfos_ok {getaddrinfo : String → ℕ → Except String (List AddrInfo)}
    {host : String} {port : ℕ} {infos : List AddrInfo}
    (h : streamAddrInfos getaddrinfo host port = .ok infos) :
    getaddrinfo host port = .ok infos := by
  unfold streamAddrInfos at h
  split at h
  · cases h
    assumption
  · cases h

theorem checkAddrInfo_ok {host : String} {info : AddrInfo} {ip : IpAddress}
    (h : checkAddrInfo library host info = .ok ())
    (hip : library.ipAddress info.sockaddr.host = some ip) : ip.isGlobal = true := by
  rw [checkAddrInfo, hip] at h
  dsimp only at h
  split_ifs at h with hglobal
  exact hglobal

theorem forM_ok {ε α : Type*} {f : α → Except ε Unit} {l : List α} (h : l.forM f = .ok ()) :
    ∀ a ∈ l, f a = .ok () := by
  induction l with
  | nil => simp
  | cons a l ih =>
    have hboth : (f a >>= fun _ => l.forM f) = .ok () := h
    obtain ⟨u, ha, hrest⟩ := bind_eq_ok.mp hboth
    exact List.forall_mem_cons.mpr ⟨ha, ih hrest⟩

/-- The rows of a lookup are all global. -/
theorem publicAddrInfos_ok (hassumed : Assumed library network) {n : ℕ} {host : String} {port : ℕ}
    {infos : List AddrInfo}
    (h : publicAddrInfos library (network.getaddrinfo n) host port = .ok infos) :
    network.getaddrinfo n host port = .ok infos ∧ ∀ info ∈ infos, info.Global library := by
  unfold publicAddrInfos at h
  obtain ⟨-, h⟩ := guard_eq_ok.mp h
  obtain ⟨-, h⟩ := guard_eq_ok.mp h
  cases hip : library.ipAddress host with
  | some parsedIp =>
    rw [hip] at h
    dsimp only at h
    split_ifs at h with hglobal
    have hlookup := streamAddrInfos_ok h
    exact ⟨hlookup, fun info hinfo =>
      ⟨parsedIp, hassumed.numeric n host port infos parsedIp hip hlookup info hinfo, hglobal⟩⟩
  | none =>
    rw [hip] at h
    obtain ⟨found, hfound, h⟩ := bind_eq_ok.mp h
    obtain ⟨u, hall, h⟩ := bind_eq_ok.mp h
    cases h
    have hlookup := streamAddrInfos_ok hfound
    refine ⟨hlookup, fun info hinfo => ?_⟩
    obtain ⟨ip, hparsed⟩ := hassumed.parseable n host port infos hlookup info hinfo
    exact ⟨ip, hparsed, checkAddrInfo_ok (forM_ok hall info hinfo) hparsed⟩

/-- What a hop was validated for. -/
theorem validatedAddrInfos_ok (hassumed : Assumed library network)
    (hpolicy : policy.allowPrivateNetworkTargets = false) {n : ℕ} {url : String}
    {made : String × ℕ × List AddrInfo}
    (h : validatedAddrInfos library policy (network.getaddrinfo n) url = .ok made) :
    (∃ parsed, library.urlparse url = some parsed ∧
      library.lower parsed.scheme ∈ policy.allowedSchemes) ∧
    network.getaddrinfo n made.1 made.2.1 = .ok made.2.2 ∧
      ∀ info ∈ made.2.2, info.Global library := by
  unfold validatedAddrInfos at h
  cases hparsed : library.urlparse url with
  | none =>
    rw [hparsed] at h
    cases h
  | some parsed =>
    rw [hparsed] at h
    obtain ⟨hscheme, h⟩ := guard_eq_ok.mp h
    obtain ⟨-, h⟩ := guard_eq_ok.mp h
    obtain ⟨port, -, h⟩ := bind_eq_ok.mp h
    rw [hpolicy] at h
    obtain ⟨infos, hinfos, h⟩ := bind_eq_ok.mp h
    cases h
    exact ⟨⟨parsed, rfl, not_not.mp hscheme⟩, publicAddrInfos_ok hassumed hinfos⟩

/-- What is pinned comes from the rows. -/
theorem resolveResults_ok {host : String} {infos : List AddrInfo} {results : List ResolveResult}
    (h : resolveResults library host infos = .ok results) :
    ∀ result ∈ results, ∃ info ∈ infos, resolvedHost library info = .ok result.host := by
  have hrows : ∀ (rows : List AddrInfo) (results : List ResolveResult),
      (rows.mapM fun info => do
        return ({ hostname := host, host := ← resolvedHost library info
                  port := info.sockaddr.port, family := info.family, proto := info.proto } :
          ResolveResult)) = Except.ok results →
      ∀ result ∈ results, ∃ info ∈ rows, resolvedHost library info = .ok result.host := by
    intro rows
    induction rows with
    | nil =>
      intro results h
      cases h
      simp
    | cons row rows ih =>
      intro results h
      rw [List.mapM_cons] at h
      obtain ⟨first, hfirst, h⟩ := bind_eq_ok.mp h
      obtain ⟨rest, hrest, h⟩ := bind_eq_ok.mp h
      cases h
      obtain ⟨address, haddress, hfirst⟩ := bind_eq_ok.mp hfirst
      cases hfirst
      intro result hresult
      rcases List.mem_cons.mp hresult with rfl | hresult
      · exact ⟨row, List.mem_cons_self, haddress⟩
      · obtain ⟨info, hinfo, hhost⟩ := ih rest hrest result hresult
        exact ⟨info, List.mem_cons_of_mem _ hinfo, hhost⟩
  intro result hresult
  obtain ⟨info, hinfo, hhost⟩ := hrows _ results h result hresult
  exact ⟨info, (List.mem_filter.mp hinfo).1, hhost⟩

/-! ## Runs -/

/-- The requests of a run from some hop on. -/
structure Bounded (library : UrlLibrary) (policy : WebFetchEgressPolicy) (network : Network)
    (redirectHops remaining : ℕ) (requests : List Request) : Prop where
  length_le : requests.length ≤ remaining + 1
  safe : ∀ (k : ℕ) (request : Request), requests[k]? = some request →
    request.Safe library policy network (redirectHops + k)

theorem bounded_nil (redirectHops remaining : ℕ) :
    Bounded library policy network redirectHops remaining [] :=
  ⟨Nat.zero_le _, fun k request h => by simp at h⟩

theorem bounded_singleton {redirectHops : ℕ} (remaining : ℕ) {request : Request}
    (h : request.Safe library policy network redirectHops) :
    Bounded library policy network redirectHops remaining [request] := by
  refine ⟨by simp, fun k other hother => ?_⟩
  cases k with
  | zero =>
    cases hother
    exact h
  | succ k => simp at hother

theorem Bounded.cons {redirectHops remaining : ℕ} {request : Request} {requests : List Request}
    (hrest : Bounded library policy network (redirectHops + 1) remaining requests)
    (h : request.Safe library policy network redirectHops) :
    Bounded library policy network redirectHops (remaining + 1) (request :: requests) := by
  refine ⟨?_, fun k other hother => ?_⟩
  · have hle := hrest.length_le
    rw [List.length_cons]
    omega
  · cases k with
    | zero =>
      cases hother
      exact h
    | succ k =>
      have hsafe := hrest.safe k other (by simpa using hother)
      rwa [show redirectHops + (k + 1) = redirectHops + 1 + k by omega]

/-- A request connects to what was validated for it. -/
theorem request_safe (hassumed : Assumed library network)
    (hpolicy : policy.allowPrivateNetworkTargets = false) {n : ℕ} {url host : String} {port : ℕ}
    {infos : List AddrInfo} {results : List ResolveResult}
    (hvalid : validatedAddrInfos library policy (network.getaddrinfo n) url =
      .ok (host, port, infos))
    (hresults : resolveResults library host infos = .ok results) :
    Request.Safe library policy network n
      { url := url, host := host, port := port, answer := infos
        connected := (network.get n url results).1 } := by
  obtain ⟨hscheme, hlookup, hglobal⟩ := validatedAddrInfos_ok hassumed hpolicy hvalid
  refine ⟨hscheme, hlookup, fun address haddress => ?_⟩
  obtain ⟨result, hresult, rfl⟩ := hassumed.pinned n url results address haddress
  obtain ⟨info, hinfo, hhost⟩ := resolveResults_ok hresults result hresult
  exact ⟨info, hinfo, hhost, hglobal info hinfo⟩

/-- Each request of a run is safe for its own lookup, and they are as many as the limit allows. -/
theorem fetchFrom_bounded (hassumed : Assumed library network)
    (hpolicy : policy.allowPrivateNetworkTargets = false) (redirectHops remaining : ℕ)
    (currentUrl : String) : Bounded library policy network redirectHops remaining
      (fetchFrom library policy network redirectHops remaining currentUrl).1 := by
  induction remaining generalizing redirectHops currentUrl with
  | zero =>
    unfold fetchFrom
    split
    · exact bounded_nil _ _
    · split
      · exact bounded_nil _ _
      · have hsafe := request_safe hassumed hpolicy ‹_› ‹_›
        dsimp only
        split
        · exact bounded_singleton _ hsafe
        · split_ifs <;> exact bounded_singleton _ hsafe
  | succ remaining ih =>
    unfold fetchFrom
    split
    · exact bounded_nil _ _
    · split
      · exact bounded_nil _ _
      · have hsafe := request_safe hassumed hpolicy ‹_› ‹_›
        dsimp only
        split
        · exact bounded_singleton _ hsafe
        · split_ifs
          · split
            · exact bounded_singleton _ hsafe
            · exact (ih _ _).cons hsafe
          all_goals exact bounded_singleton _ hsafe

/-- With private networks disallowed, a fetch makes at most one request more than the limit of
redirects, each for a URL with an allowed scheme, and connects to addresses only that were found
to be global in the lookup for that request. -/
theorem runWebFetch_safe (library : UrlLibrary) (policy : WebFetchEgressPolicy)
    (network : Network) (hassumed : Assumed library network)
    (hpolicy : policy.allowPrivateNetworkTargets = false) (url : String) :
    (runWebFetch library policy network url).1.length ≤ maxWebFetchRedirects + 1 ∧
      ∀ (k : ℕ) (request : Request),
        (runWebFetch library policy network url).1[k]? = some request →
          request.Safe library policy network k := by
  have hbounded := fetchFrom_bounded hassumed hpolicy 0 maxWebFetchRedirects url
  refine ⟨hbounded.length_le, fun k request hrequest => ?_⟩
  have hsafe := hbounded.safe k request hrequest
  rwa [Nat.zero_add] at hsafe

/-! ## A redirect to a rebound name -/

section Example

def exampleLibrary : UrlLibrary where
  urlparse url :=
    if url = "https://a.example/" then some ⟨"https", some "a.example", some none⟩
    else if url = "https://b.example/" then some ⟨"https", some "b.example", some none⟩
    else none
  urljoin _ location := some location
  lower text := text
  ipAddress text :=
    if text = "93.184.216.34" then some ⟨text, true⟩
    else if text = "10.0.0.1" then some ⟨text, false⟩
    else none
  getnameinfo sockaddr := .ok sockaddr.host

/-- The first name redirects to a second one, whose address is private. -/
def exampleNetwork : Network where
  getaddrinfo n host port :=
    if host = "a.example" ∧ n = 0 then .ok [⟨.inet, 6, ⟨"93.184.216.34", port, none⟩⟩]
    else if host = "b.example" then .ok [⟨.inet, 6, ⟨"10.0.0.1", port, none⟩⟩]
    else .error "unknown"
  get _ url results := (results.map ResolveResult.host,
    .ok { status := 302, url := url, location := some "https://b.example/" })

def examplePolicy : WebFetchEgressPolicy where
  allowPrivateNetworkTargets := false
  allowedSchemes := ["http", "https"]

theorem exampleNetwork_answers {n : ℕ} {host : String} {port : ℕ} {infos : List AddrInfo}
    (h : exampleNetwork.getaddrinfo n host port = .ok infos) :
    (host = "a.example" ∨ host = "b.example") ∧
      ∀ info ∈ infos, ∃ ip, exampleLibrary.ipAddress info.sockaddr.host = some ip := by
  simp only [exampleNetwork] at h
  split_ifs at h with ha hb
  · cases h
    refine ⟨.inl ha.1, fun info hinfo => ?_⟩
    rw [List.mem_singleton.mp hinfo]
    exact ⟨_, rfl⟩
  · cases h
    refine ⟨.inr hb, fun info hinfo => ?_⟩
    rw [List.mem_singleton.mp hinfo]
    exact ⟨_, rfl⟩

theorem exampleNetwork_assumed : Assumed exampleLibrary exampleNetwork where
  parseable n host port infos h := (exampleNetwork_answers h).2
  numeric n host port infos ip hip h := by
    rcases (exampleNetwork_answers h).1 with rfl | rfl
    · cases hip
    · cases hip
  pinned n url results address haddress := by
    obtain ⟨result, hresult, rfl⟩ := List.mem_map.mp haddress
    exact ⟨result, hresult, rfl⟩

theorem runWebFetch_safe_rebound :
    (runWebFetch exampleLibrary examplePolicy exampleNetwork "https://a.example/").1.length = 1 ∧
      ∀ (k : ℕ) (request : Request),
        (runWebFetch exampleLibrary examplePolicy exampleNetwork
          "https://a.example/").1[k]? = some request →
            request.Safe exampleLibrary examplePolicy exampleNetwork k :=
  ⟨by decide +kernel, (runWebFetch_safe exampleLibrary examplePolicy exampleNetwork
    exampleNetwork_assumed rfl "https://a.example/").2⟩

end Example

end Switchboard.Api.WebFetch
