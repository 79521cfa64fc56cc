import Mathlib.Tactic
import Switchboard.Library.Json
import Switchboard.Library.Text

/-!
# Fetching a page of the web

`api/web_tools/egress.py` and `_run_web_fetch` of `api/web_tools/outbound.py`: each hop of a fetch
resolves the host of its URL, checks the addresses, and connects to these addresses only. What the
library makes of a URL or an address is a parameter, and so is the network.
-/

namespace Switchboard.Api.WebFetch

open Switchboard.Text

/-! ## The library -/

/-- What `ipaddress.ip_address` gives. -/
structure IpAddress where
  text : String
  isGlobal : Bool
deriving DecidableEq

/-- What `urlparse` gives; reading the port can raise. -/
structure ParsedUrl where
  scheme : String
  hostname : Option String
  port : Option (Option ℕ)

inductive Family where
  | inet
  | inet6
  | other
deriving DecidableEq

/-- A socket address; `scopeId` is the fourth item where there is one. -/
structure SockAddr where
  host : String
  port : ℕ
  scopeId : Option ℕ := none
deriving DecidableEq

/-- A row of `getaddrinfo`. -/
structure AddrInfo where
  family : Family
  proto : ℕ
  sockaddr : SockAddr
deriving DecidableEq

structure UrlLibrary where
  urlparse : String → Option ParsedUrl
  urljoin : String → String → Option String
  lower : String → String
  ipAddress : String → Option IpAddress
  /-- The numeric name of a socket address. -/
  getnameinfo : SockAddr → Except String String

inductive FetchError where
  /-- `WebFetchEgressViolation` -/
  | egress (message : String)
  | valueError
  | assertion
  | osError (message : String)
  | client (message : String)
deriving DecidableEq

/-! ## Egress -/

structure WebFetchEgressPolicy where
  allowPrivateNetworkTargets : Bool
  allowedSchemes : List String

variable (library : UrlLibrary)

def portForUrl (parsed : ParsedUrl) : Except FetchError ℕ :=
  match parsed.port with
  | none => .error .valueError
  | some (some port) => .ok port
  | some none => .ok (if library.lower parsed.scheme = "https" then 443 else 80)

/-- `_stream_getaddrinfo_or_raise` -/
def streamAddrInfos (getaddrinfo : String → ℕ → Except String (List AddrInfo)) (host : String)
    (port : ℕ) : Except FetchError (List AddrInfo) :=
  match getaddrinfo host port with
  | .ok infos => .ok infos
  | .error exc => .error (.egress s!"Could not resolve host {Json.reprString host}: {exc}")

/-- One round of the loop over the rows. -/
def checkAddrInfo (host : String) (info : AddrInfo) : Except FetchError Unit :=
  match library.ipAddress info.sockaddr.host with
  | none => .ok ()
  | some resolved =>
    if resolved.isGlobal then .ok ()
    else .error (.egress
      s!"Host {Json.reprString host} resolves to a non-public address ({resolved.text})")

/-- The rows for a host, when private networks are not allowed. -/
def publicAddrInfos (getaddrinfo : String → ℕ → Except String (List AddrInfo)) (host : String)
    (port : ℕ) : Except FetchError (List AddrInfo) := do
  let hostLower := library.lower host
  if hostLower = "localhost" ∨ hostLower.endsWith ".localhost" then
    throw (.egress "localhost targets are not allowed for web_fetch")
  if hostLower.endsWith ".local" then
    throw (.egress ".local hostnames are not allowed for web_fetch")
  match library.ipAddress host with
  | some parsedIp =>
    if parsedIp.isGlobal then streamAddrInfos getaddrinfo host port
    else throw (.egress
      s!"Non-public IP host {Json.reprString host} is not allowed for web_fetch")
  | none =>
    let infos ← streamAddrInfos getaddrinfo host port
    infos.forM (checkAddrInfo library host)
    return infos

/-- `get_validated_stream_addrinfos_for_egress`, with the host and the port that it looks up. -/
def validatedAddrInfos (policy : WebFetchEgressPolicy)
    (getaddrinfo : String → ℕ → Except String (List AddrInfo)) (url : String) :
    Except FetchError (String × ℕ × List AddrInfo) :=
  match library.urlparse url with
  | none => .error .valueError
  | some parsed => do
    let scheme := library.lower parsed.scheme
    if scheme ∉ policy.allowedSchemes then
      throw (.egress s!"URL scheme {Json.reprString scheme} is not allowed for web_fetch")
    let host := parsed.hostname.getD ""
    if host = "" then throw (.egress "web_fetch URL must include a host")
    let port ← portForUrl library parsed
    let infos ← if policy.allowPrivateNetworkTargets then streamAddrInfos getaddrinfo host port
      else publicAddrInfos library getaddrinfo host port
    return (host, port, infos)

/-! ## Pinned addresses -/

structure ResolveResult where
  hostname : String
  host : String
  port : ℕ
  family : Family
  proto : ℕ
deriving DecidableEq

/-- The text of an address as it is pinned: with a scope, its numeric name. -/
def resolvedHost (info : AddrInfo) : Except FetchError String :=
  match info.family, info.sockaddr.scopeId with
  | .inet6, some (_ + 1) =>
    match library.getnameinfo info.sockaddr with
    | .ok name => .ok name
    | .error e => .error (.osError e)
  | .other, _ => .error .assertion
  | _, _ => .ok info.sockaddr.host

/-- Rows of IPv6 without a scope are of a build without it. -/
def AddrInfo.skipped (info : AddrInfo) : Bool :=
  info.family = .inet6 && info.sockaddr.scopeId.isNone

/-- `getaddrinfo_rows_to_resolve_results` -/
def resolveResults (host : String) (infos : List AddrInfo) :
    Except FetchError (List ResolveResult) :=
  (infos.filter fun info => !info.skipped).mapM fun info => do
    return {
      hostname := host, host := ← resolvedHost library info, port := info.sockaddr.port
      family := info.family, proto := info.proto }

/-! ## The fetch -/

def redirectStatuses : List ℕ := [301, 302, 303, 307, 308]

def maxWebFetchRedirects : ℕ := 10

/-- What is read of a response. -/
structure Response where
  status : ℕ
  url : String
  location : Option String := none

/-- The answers of each lookup, and what each request connects to and gets. -/
structure Network where
  getaddrinfo : ℕ → String → ℕ → Except String (List AddrInfo)
  get : ℕ → String → List ResolveResult → List String × Except String Response

/-- A request that was made: its URL, the lookup for it, and the addresses it connected to. -/
structure Request where
  url : String
  host : String
  port : ℕ
  answer : List AddrInfo
  connected : List String

def redirectTarget (response : Response) : Except FetchError String :=
  let location := strip isSpace (response.location.getD "")
  if location = "" then
    .error (.egress "web_fetch redirect response missing Location header")
  else
    match library.urljoin response.url location with
    | none => .error .valueError
    | some url => .ok url

/-- The loop of `_run_web_fetch`, up to the body of the last response. `remaining` is what
`redirect_hops` lacks of the limit. -/
def fetchFrom (policy : WebFetchEgressPolicy) (network : Network) (redirectHops remaining : ℕ)
    (currentUrl : String) : List Request × Except FetchError Response :=
  match validatedAddrInfos library policy (network.getaddrinfo redirectHops) currentUrl with
  | .error e => ([], .error e)
  | .ok (host, port, infos) =>
    match resolveResults library host infos with
    | .error e => ([], .error e)
    | .ok results =>
      let outcome := network.get redirectHops currentUrl results
      let request : Request :=
        { url := currentUrl, host := host, port := port, answer := infos
          connected := outcome.1 }
      match outcome.2 with
      | .error e => ([request], .error (.client e))
      | .ok response =>
        if response.status ∈ redirectStatuses then
          match remaining with
          | 0 => ([request], .error (.egress
              s!"web_fetch exceeded maximum redirects ({maxWebFetchRedirects})"))
          | remaining + 1 =>
            match redirectTarget library response with
            | .error e => ([request], .error e)
            | .ok url =>
              let rest := fetchFrom policy network (redirectHops + 1) remaining url
              (request :: rest.1, rest.2)
        else if 400 ≤ response.status then
          ([request], .error (.client s!"status {response.status}"))
        else ([request], .ok response)

def runWebFetch (policy : WebFetchEgressPolicy) (network : Network) (url : String) :
    List Request × Except FetchError Response :=
  fetchFrom library policy network 0 maxWebFetchRedirects url

end Switchboard.Api.WebFetch
