import IMail.Network.PublicAddress
import IMail.Text.Strings

/-!
# Fetching images and logos

`safe_fetch`, `validate_url` and `resolve_public` of `imail-http/src/logo.rs`. Every hop of a
redirect chain is validated and resolved anew, and the HTTP client gets a resolver that answers
with the first vetted address whatever it is asked. What a fetch asked the resolver and which
requests were made is recorded hop by hop, with the addresses that they connect to.
-/

namespace IMail

structure SocketAddr where
  ip : IpAddr
  port : ℕ
deriving DecidableEq

/-- The parts of a parsed `Url` that the fetch reads. -/
structure Url where
  scheme : String
  username : String
  password : Option String
  hostStr : Option String
  port : Option ℕ
deriving DecidableEq

/-- A response as a server may send it; the body may break off with an error. -/
structure HttpResponse where
  status : ℕ
  header : String → Option String
  body : List UInt8
  broken : Option String

/-- `ureq::Agent` as `AgentBuilder` makes it. -/
structure Agent where
  redirects : ℕ
  resolver : String → List SocketAddr

/-- A request of the client with the addresses that it connects to. -/
structure Request where
  url : Url
  connections : List SocketAddr

/-- What comes of `call`: the requests that the client made, and its answer. -/
structure ClientCall where
  requests : List Request
  answer : Except String HttpResponse

/-- What the fetch takes from outside. The resolver and the servers may answer every call in
another way, which is their state `W`. -/
class Internet (W : Type) where
  /-- `str::parse::<IpAddr>` -/
  parseIp : String → Option IpAddr
  /-- `Url::join` -/
  join : Url → String → Option Url
  /-- `Url::port_or_known_default` -/
  portOrKnownDefault : Url → Option ℕ
  /-- `to_socket_addrs`, which puts the port it was given on every address. -/
  lookup : String → ℕ → W → Except String (List IpAddr) × W
  /-- `get(..).call()` of `ureq` -/
  call : Agent → Url → W → ClientCall × W
  port_given : ∀ url port, url.port = some port → portOrKnownDefault url = some port
  port_http : ∀ url, url.port = none → url.scheme = "http" → portOrKnownDefault url = some 80
  port_https : ∀ url, url.port = none → url.scheme = "https" → portOrKnownDefault url = some 443
  /-- The client connects to nothing that the agent's resolver does not answer. -/
  call_resolved : ∀ agent url w, ∀ q ∈ (call agent url w).1.requests, ∀ c ∈ q.connections,
    ∃ netloc, c ∈ agent.resolver netloc
  /-- It follows at most as many redirects as the agent allows. -/
  call_redirects : ∀ agent url w, (call agent url w).1.requests.length ≤ agent.redirects + 1
  call_first : ∀ agent url w, ∀ q ∈ (call agent url w).1.requests.head?, q.url = url

structure FetchError where
  detail : String
  permanent : Bool
deriving DecidableEq

structure FetchResponse where
  finalUrl : Url
  contentType : String
  content : List UInt8

/-- One hop of a fetch: what the resolver answered in it, and the requests made. -/
structure Hop where
  answers : List (Except String (List IpAddr))
  requests : List Request

def fetchError (detail : String) (permanent : Bool) : FetchError := ⟨detail, permanent⟩

def validateUrl (url : Url) : Except FetchError Unit :=
  if !(url.scheme = "http" || url.scheme = "https") || !url.username.isEmpty ||
      url.password.isSome || url.hostStr.isNone ||
      url.port.any fun port => !(port = 80 || port = 443) then
    .error (fetchError "不安全的网址" false)
  else .ok ()

section

variable {W : Type} [Internet W]

def resolution (host : String) (port : ℕ) (w : W) : Except String (List IpAddr) × W :=
  match Internet.parseIp W host with
  | some address => (.ok [address], w)
  | none => Internet.lookup host port w

/-- `resolve_public`, with what the resolver answered. -/
def resolvePublic (url : Url) (w : W) :
    Except FetchError (List SocketAddr) × List (Except String (List IpAddr)) × W :=
  match url.hostStr, Internet.portOrKnownDefault W url with
  | none, _ => (.error (fetchError "不安全的网址" false), [], w)
  | some _, none => (.error (fetchError "不允许的端口" false), [], w)
  | some host, some port =>
    let (answer, w) := resolution host port w
    let vetted := match answer with
      | .error detail => .error (fetchError detail false)
      | .ok addresses =>
        if addresses.isEmpty || addresses.any fun address => !isPublicIp address then
          .error (fetchError "不允许访问内网地址" false)
        else .ok (addresses.map (⟨·, port⟩))
    (vetted, [answer], w)

/-- `take(n).read_to_end`: an error counts only if it comes before the limit. -/
def HttpResponse.readUpTo (response : HttpResponse) (n : ℕ) : Except String (List UInt8) :=
  match response.broken with
  | some detail => if response.body.length < n then .error detail else .ok (response.body.take n)
  | none => .ok (response.body.take n)

def isCloudflareRefusal (response : HttpResponse) : Bool :=
  response.status = 403 && ((response.header "cf-ray").isSome ||
    (response.header "cf-mitigated").isSome ||
    (response.header "server").any fun value =>
      Text.contains (Text.toAsciiLowercase value) "cloudflare")

def finish (current : Url) (limit : ℕ) (response : HttpResponse) :
    Except FetchError FetchResponse :=
  if isCloudflareRefusal response then .error (fetchError "Cloudflare 返回 403，停止重试" true)
  else if !(200 ≤ response.status && response.status < 300) then
    .error (fetchError s!"远程请求失败：{response.status}" false)
  else if ((response.header "content-length").bind Text.parseU64).any fun size => limit < size then
    .error (fetchError "远程内容过大" false)
  else
    match response.readUpTo (limit + 1) with
    | .error detail => .error (fetchError detail false)
    | .ok content =>
      if limit < content.length then .error (fetchError "远程内容过大" false)
      else .ok ⟨current, (response.header "content-type").getD "", content⟩

/-- The loop of `safe_fetch` over the hops that are left. -/
def fetchHops (limit : ℕ) : List ℕ → Url → W → List Hop × Except FetchError FetchResponse
  | [], _, _ => ([], .error (fetchError "重定向过多" false))
  | hop :: hops, current, w =>
    match validateUrl current with
    | .error e => ([], .error e)
    | .ok _ =>
      let (vetted, answers, w) := resolvePublic current w
      match vetted with
      | .error e => ([⟨answers, []⟩], .error e)
      | .ok addresses =>
        match addresses.head? with
        | none => ([⟨answers, []⟩], .error (fetchError "" false)) -- `addresses[0]`: never empty
        | some selected =>
          let agent : Agent := ⟨0, fun _ => [selected]⟩
          let (made, w) := Internet.call agent current w
          let here : Hop := ⟨answers, made.requests⟩
          match made.answer with
          | .error detail => ([here], .error (fetchError detail false))
          | .ok response =>
            if 300 ≤ response.status && response.status < 400 then
              match response.header "location" with
              | none => ([here], .error (fetchError "重定向缺少 Location" false))
              | some location =>
                if hop = 3 then ([here], .error (fetchError "重定向过多" false))
                else
                  match Internet.join W current location with
                  | none => ([here], .error (fetchError "重定向网址无效" false))
                  | some next =>
                    let (rest, result) := fetchHops limit hops next w
                    (here :: rest, result)
            else ([here], finish current limit response)

def safeFetch (current : Url) (limit : ℕ) (w : W) : List Hop × Except FetchError FetchResponse :=
  fetchHops limit [0, 1, 2, 3] current w

/-- The requests of a hop are for `http` or `https` URLs without credentials and connect, on port 80
or 443, only to addresses out of one answer of the resolver in this hop, all of which are public. -/
def Hop.Vetted (hop : Hop) : Prop :=
  ∀ q ∈ hop.requests, (q.url.scheme = "http" ∨ q.url.scheme = "https") ∧ q.url.username = "" ∧
    q.url.password = none ∧ ∃ port addresses, (port = 80 ∨ port = 443) ∧
      .ok addresses ∈ hop.answers ∧ (∀ a ∈ addresses, isPublicIp a = true) ∧
      ∀ c ∈ q.connections, c.ip ∈ addresses ∧ c.port = port

variable {url current : Url} {limit : ℕ} {hop : Hop} {w : W}

theorem validateUrl_ok (W : Type) [Internet W] (h : validateUrl url = .ok ()) :
    (url.scheme = "http" ∨ url.scheme = "https") ∧ url.username = "" ∧ url.password = none ∧
      ∀ port, Internet.portOrKnownDefault W url = some port → port = 80 ∨ port = 443 := by
  unfold validateUrl at h
  split_ifs at h with hunsafe
  simp only [Bool.or_eq_true, not_or, Bool.not_eq_true, Bool.not_eq_false', decide_eq_true_eq,
    String.isEmpty_iff, Option.isSome_eq_false_iff, Option.isNone_iff_eq_none] at hunsafe
  obtain ⟨⟨⟨⟨hscheme, huser⟩, hpassword⟩, _⟩, hport⟩ := hunsafe
  refine ⟨hscheme, huser, hpassword, fun port hknown => ?_⟩
  cases hp : url.port with
  | some given =>
    obtain rfl := Option.some_inj.mp (hknown.symm.trans (Internet.port_given url given hp))
    simpa [hp, or_iff_not_imp_left] using hport
  | none =>
    rcases hscheme with hs | hs
    · exact .inl (Option.some_inj.mp (hknown.symm.trans (Internet.port_http url hp hs)))
    · exact .inr (Option.some_inj.mp (hknown.symm.trans (Internet.port_https url hp hs)))

theorem resolvePublic_ok {vetted : List SocketAddr}
    (h : (resolvePublic url w).1 = .ok vetted) :
    ∃ port addresses, Internet.portOrKnownDefault W url = some port ∧
      .ok addresses ∈ (resolvePublic url w).2.1 ∧ (∀ a ∈ addresses, isPublicIp a = true) ∧
      vetted = addresses.map (⟨·, port⟩) := by
  unfold resolvePublic at h ⊢
  split at h
  · cases h
  · cases h
  · rename_i host port hhost hport
    simp only [hport]
    cases hres : (resolution host port w).1 with
    | error detail => simp [hres] at h
    | ok addresses =>
      simp only [hres] at h
      split_ifs at h with hrefused
      simp only [Bool.or_eq_true, not_or, Bool.not_eq_true, List.any_eq_false,
        Bool.not_eq_false'] at hrefused
      exact ⟨port, addresses, rfl, List.mem_singleton.mpr rfl, hrefused.2,
        (Except.ok.inj h).symm⟩

omit [Internet W] in
theorem finish_ok {response : HttpResponse} {fetched : FetchResponse}
    (h : finish current limit response = .ok fetched) : fetched.content.length ≤ limit := by
  unfold finish at h
  split_ifs at h
  split at h
  · cases h
  · split_ifs at h with hlarge
    cases h
    exact not_lt.mp hlarge

theorem call_vetted {vetted : List SocketAddr} {selected : SocketAddr} {v : W}
    (hvalid : validateUrl current = .ok ()) (hresolved : (resolvePublic current w).1 = .ok vetted)
    (hselected : vetted.head? = some selected) :
    let made := (Internet.call ⟨0, fun _ => [selected]⟩ current v).1
    made.requests.length ≤ 1 ∧ Hop.Vetted ⟨(resolvePublic current w).2.1, made.requests⟩ := by
  intro made
  have hone : made.requests.length ≤ 1 := Internet.call_redirects ⟨0, fun _ => [selected]⟩ current v
  refine ⟨hone, fun q hq => ?_⟩
  have hfirst : q.url = current := by
    refine Internet.call_first ⟨0, fun _ => [selected]⟩ current v q ?_
    obtain ⟨first, hrequests⟩ := List.length_eq_one_iff.mp
      (le_antisymm hone (List.length_pos_of_mem hq))
    rw [hrequests] at hq
    rw [show (Internet.call _ current v).1.requests = [first] from hrequests,
      List.mem_singleton.mp hq]
    rfl
  obtain ⟨hscheme, huser, hpassword, hports⟩ := validateUrl_ok W hvalid
  obtain ⟨port, addresses, hport, hanswer, hpublic, rfl⟩ := resolvePublic_ok hresolved
  rw [hfirst]
  refine ⟨hscheme, huser, hpassword, port, addresses, hports port hport, hanswer, hpublic, ?_⟩
  intro c hc
  obtain ⟨netloc, hc⟩ := Internet.call_resolved _ _ _ q hq c hc
  obtain rfl := List.mem_singleton.mp hc
  obtain ⟨a, ha, rfl⟩ := List.mem_map.mp (List.mem_of_head? hselected)
  exact ⟨ha, rfl⟩

def Pinned (limit : ℕ) (hops : List ℕ) (r : List Hop × Except FetchError FetchResponse) : Prop :=
  (∀ hop ∈ r.1, hop.requests.length ≤ 1 ∧ hop.Vetted) ∧ r.1.length ≤ hops.length ∧
    ∀ fetched, r.2 = .ok fetched → fetched.content.length ≤ limit

theorem fetchHops_pinned (limit : ℕ) : ∀ (hops : List ℕ) (current : Url) (w : W),
    Pinned limit hops (fetchHops limit hops current w)
  | [], current, w => by simp [Pinned, fetchHops]
  | hop :: hops, current, w => by
    have hone : ∀ (here : Hop) (result : Except FetchError FetchResponse),
        here.requests.length ≤ 1 ∧ here.Vetted →
        (∀ fetched, result = .ok fetched → fetched.content.length ≤ limit) →
        Pinned limit (hop :: hops) ([here], result) := fun here result hhere hresult =>
      ⟨by simpa using hhere, by simp, hresult⟩
    have hquiet : ∀ answers, Hop.Vetted ⟨answers, []⟩ := fun _ => by simp [Hop.Vetted]
    rw [fetchHops]
    split
    · simp [Pinned]
    rename_i hvalid
    dsimp only
    split
    · exact hone _ _ ⟨Nat.zero_le _, hquiet _⟩ (by simp)
    rename_i vetted hresolved
    cases hselected : vetted.head? with
    | none => exact hone _ _ ⟨Nat.zero_le _, hquiet _⟩ (by simp)
    | some selected =>
      have hcall := call_vetted (v := (resolvePublic current w).2.2) hvalid hresolved hselected
      dsimp only
      split
      · exact hone _ _ hcall (by simp)
      split
      · split
        · exact hone _ _ hcall (by simp)
        split
        · exact hone _ _ hcall (by simp)
        split
        · exact hone _ _ hcall (by simp)
        · obtain ⟨hall, hlen, hsize⟩ := fetchHops_pinned limit hops _ _
          exact ⟨List.forall_mem_cons.mpr ⟨hcall, hall⟩, by simpa using hlen, hsize⟩
      · exact hone _ _ hcall fun fetched => finish_ok

end

@[reducible] def rebinding : Internet ℕ where
  parseIp _ := none
  join url _ := some url
  portOrKnownDefault url := url.port.or (some (if url.scheme = "https" then 443 else 80))
  lookup _ _ n := (.ok [if n = 0 then .v4 ⟨93, 184, 216, 34⟩ else .v4 ⟨10, 0, 0, 1⟩], n + 1)
  call agent url n :=
    (⟨[⟨url, agent.resolver ""⟩], .ok ⟨302, fun _ => some "/", [], none⟩⟩, n + 1)
  port_given := by simp +contextual
  port_http := by simp +contextual
  port_https := by simp +contextual
  call_resolved _ _ _ q hq c hc := ⟨"", by obtain rfl := List.mem_singleton.mp hq; exact hc⟩
  call_redirects := by simp
  call_first := by simp

end IMail
