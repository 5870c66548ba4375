import Mathlib.Data.Nat.Basic
import Omni.Library.Text

/-!
# The media connector

The download of a remote media URL by `MultiModalResourceConnector` of `resource_connector.py`.
What the parsers of URLs and addresses, the resolver and the servers do are parameters. The sync
and the async download differ only in how they wait.
-/

namespace Omni.Media

open Text

/-- An address with what `ipaddress` tells of it. -/
structure Address where
  text : String
  isLoopback : Bool
  isPrivate : Bool
  isLinkLocal : Bool
  isReserved : Bool
  isMulticast : Bool
  isUnspecified : Bool
  deriving DecidableEq

/-- `httpx.HTTPError` while a request is made or its body is read. -/
inductive HttpError
  | timeout
  | other (message : String)
  deriving DecidableEq

/-- A response. -/
structure Response where
  statusCode : ℕ
  location : Option String
  contentType : Option String
  /-- The header `content-length`, if it is an integer. -/
  contentLength : Option ℤ
  /-- What `iter_bytes` gives, and the error with which it ends. -/
  chunks : List Bytes
  bodyError : Option HttpError
  deriving DecidableEq

/-- `response.is_redirect`. -/
def Response.isRedirect (r : Response) : Bool := 300 ≤ r.statusCode && r.statusCode < 400

/-- `response.is_success`. -/
def Response.isSuccess (r : Response) : Bool := 200 ≤ r.statusCode && r.statusCode < 300

/-- What the resolver and the server answer in one round of the download. -/
structure Hop where
  /-- What `getaddrinfo` answers to the policy check; `none` when it raises. -/
  resolved : Option (List Address)
  /-- The addresses to which `httpx` opens a connection, of those it gets from the resolver. -/
  connections : List Address
  exchange : Except HttpError Response

/-- The surroundings of a download. -/
structure World where
  lower : String → String
  /-- `urlparse(url).hostname`, which may raise. -/
  hostname : String → Except String (Option String)
  /-- The error with which `httpx` refuses a URL before it connects, as for its scheme. -/
  refuses : String → Option HttpError
  /-- `str(response.url.join(location))`, which may raise. -/
  join : String → String → Except String String
  /-- `ipaddress.ip_address`; `none` when the text is no address. -/
  ipAddress : String → Option Address
  hop : ℕ → Hop

/-- `MultiModalResourceConnector`, after its domains have been normalized. -/
structure Connector where
  allowedMediaDomains : List String
  allowRemoteMediaWithoutDomains : Bool
  rejectUnsafeRemoteAddresses : Bool

/-- `MultiModalResourceConnector.__init__`. -/
def Connector.new (w : World) (allowedMediaDomains : List String) (allowWithout reject : Bool) :
    Connector where
  allowedMediaDomains := (allowedMediaDomains.filter (strip · ≠ "")).map fun domain =>
    w.lower (rstrip (· == '.') (strip domain))
  allowRemoteMediaWithoutDomains := allowWithout
  rejectUnsafeRemoteAddresses := reject

/-- `_MAX_HTTP_REDIRECTS`. -/
def maxHttpRedirects : ℕ := 5

/-- `_resolve_remote_addresses`. -/
def resolveRemoteAddresses (w : World) (h : Hop) (hostname : String) :
    Except String (List Address) :=
  match w.ipAddress hostname with
  | some literal => .ok [literal]
  | none =>
    match h.resolved with
    | none => .error s!"Could not resolve media URL hostname: {hostname}"
    | some [] => .error s!"Could not resolve media URL hostname: {hostname}"
    | some addresses => .ok addresses

/-- `_unsafe_remote_address_category`. -/
def unsafeRemoteAddressCategory (a : Address) : Option String :=
  if a.isLoopback then some "loopback"
  else if a.isPrivate then some "private"
  else if a.isLinkLocal then some "link-local"
  else if a.isReserved then some "reserved"
  else if a.isMulticast then some "multicast"
  else if a.isUnspecified then some "unspecified"
  else none

/-- `_is_allowed_remote_domain`. -/
def isAllowedRemoteDomain (w : World) (hostname allowedDomain : String) : Bool :=
  let allowedDomain := w.lower (rstrip (· == '.') allowedDomain)
  if startsWith allowedDomain "." then
    let suffix := String.ofList (allowedDomain.toList.drop 1)
    hostname == suffix || endsWith hostname allowedDomain
  else hostname == allowedDomain

/-- The loop over the resolved addresses. -/
def checkAddresses : List Address → Except String Unit
  | [] => .ok ()
  | a :: addresses =>
    match unsafeRemoteAddressCategory a with
    | some category =>
      .error s!"Remote media URL resolves to a {category} address: {a.text}"
    | none => checkAddresses addresses

/-- `_assert_url_allowed`. -/
def Connector.assertUrlAllowed (c : Connector) (w : World) (h : Hop) (url : String) :
    Except String Unit :=
  match w.hostname url with
  | .error e => .error e
  | .ok none => .error "Remote media URL must include a hostname."
  | .ok (some hostname) =>
    let normalized := w.lower (rstrip (· == '.') hostname)
    if hostname = "" then .error "Remote media URL must include a hostname."
    else if c.allowedMediaDomains = [] ∧ !c.allowRemoteMediaWithoutDomains then
      .error "Remote media URLs require --allowed-media-domain to be configured."
    else if c.allowedMediaDomains ≠ [] ∧
        !(c.allowedMediaDomains.any fun domain => isAllowedRemoteDomain w normalized domain) then
      .error s!"Domain {hostname} is not allowed."
    else if c.rejectUnsafeRemoteAddresses then
      match resolveRemoteAddresses w h normalized with
      | .error e => .error e
      | .ok addresses => checkAddresses addresses
    else .ok ()

/-- `_next_redirect_url`. -/
def nextRedirectUrl (w : World) (url : String) (r : Response) : Except String String :=
  match r.location with
  | none => .error "Redirect response is missing a Location header."
  | some "" => .error "Redirect response is missing a Location header."
  | some location => w.join url location

/-- `_response_media_type`. -/
def responseMediaType (w : World) (r : Response) : Option String :=
  match r.contentType with
  | none => none
  | some contentType =>
    let mediaType := w.lower (strip (String.ofList (contentType.toList.takeWhile (· ≠ ';'))))
    if mediaType = "" then none else some mediaType

/-- `_media_http_error` for errors that are no status. -/
def mediaHttpError (e : HttpError) (url : String) : String :=
  match e with
  | .timeout => s!"Timed out loading media URL: {url}"
  | .other message => s!"Failed to load media URL {url}: {message}"

/-- Whether a size is over the limit. -/
def exceeds (size : ℤ) (maxBytes : Option ℕ) : Bool :=
  match maxBytes with
  | none => false
  | some limit => limit < size

/-- The error for a size over the limit. -/
def sizeError (maxBytes : Option ℕ) : String :=
  s!"Media URL response exceeds {maxBytes.getD 0} bytes."

/-- The loop of `_read_limited_response_bytes`: `body` holds the chunks so far. -/
def readChunks (url : String) (maxBytes : Option ℕ) (bodyError : Option HttpError) :
    Bytes → List Bytes → Except String Bytes
  | body, [] =>
    match bodyError with
    | some e => .error (mediaHttpError e url)
    | none => .ok body
  | body, chunk :: chunks =>
    if chunk = [] then readChunks url maxBytes bodyError body chunks
    else if exceeds (body ++ chunk).length maxBytes then .error (sizeError maxBytes)
    else readChunks url maxBytes bodyError (body ++ chunk) chunks

/-- `_read_limited_response_bytes`. -/
def readLimitedResponseBytes (url : String) (maxBytes : Option ℕ) (r : Response) :
    Except String Bytes :=
  if (r.contentLength.map fun size => exceeds size maxBytes).getD false then
    .error (sizeError maxBytes)
  else readChunks url maxBytes r.bodyError [] r.chunks

/-- A request that was sent, with the addresses to which a connection was opened for it. -/
structure Request where
  url : String
  connections : List Address
  deriving DecidableEq

/-- The rounds of `_load_http_bytes`, from round `i` on: what was sent, and the result. -/
def Connector.loadLoop (c : Connector) (w : World) (url : String) (maxBytes : Option ℕ) :
    ℕ → ℕ → String → List Request × Except String (Bytes × Option String)
  | 0, _, _ => ([], .error s!"Too many redirects while loading media URL: {url}")
  | n + 1, i, currentUrl =>
    match c.assertUrlAllowed w (w.hop i) currentUrl with
    | .error e => ([], .error e)
    | .ok () =>
      match w.refuses currentUrl with
      | some e => ([], .error (mediaHttpError e currentUrl))
      | none =>
        let request : Request := ⟨currentUrl, (w.hop i).connections⟩
        match (w.hop i).exchange with
        | .error e => ([request], .error (mediaHttpError e currentUrl))
        | .ok response =>
          if response.isRedirect then
            match nextRedirectUrl w currentUrl response with
            | .error e => ([request], .error e)
            | .ok next =>
              let rest := c.loadLoop w url maxBytes n (i + 1) next
              (request :: rest.1, rest.2)
          else if !response.isSuccess then
            ([request], .error s!"Media URL returned HTTP {response.statusCode}: {currentUrl}")
          else
            ([request], (readLimitedResponseBytes currentUrl maxBytes response).map fun body =>
              (body, responseMediaType w response))

/-- `_load_http_bytes` and `_load_http_bytes_async`. -/
def Connector.loadHttpBytes (c : Connector) (w : World) (url : String) (maxBytes : Option ℕ) :
    List Request × Except String (Bytes × Option String) :=
  c.loadLoop w url maxBytes (maxHttpRedirects + 1) 0 url

end Omni.Media
