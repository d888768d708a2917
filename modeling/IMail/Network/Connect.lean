import IMail.Text.Strings

/-!
# Opening a tunnel through an HTTP proxy

`establish_http_connect` of `imail-mail-network/src/tunnel.rs`. The answer of the proxy is read
byte by byte up to the blank line that ends its head, so that what follows is left to the TLS or
mail layer. The transport delivers the bytes in pieces of its own choice; the result depends on
their concatenation only.
-/

namespace IMail

/-- `MAX_PROXY_RESPONSE_BYTES` -/
def maxProxyResponseBytes : ℕ := 16 * 1024

/-- The fields of `MailProxy` that the request carries. -/
structure ProxyCredentials where
  username : Option String
  password : Option String

/-- A connection to a proxy: what was written to it, and what it sends in the pieces that the
transport delivers. An empty piece is a wake-up without data. -/
structure ProxyStream where
  written : List UInt8
  incoming : List (List UInt8)

/-- `read_exact` into a buffer of one byte. -/
def readByte : List (List UInt8) → Option (UInt8 × List (List UInt8))
  | [] => none
  | [] :: pieces => readByte pieces
  | (byte :: piece) :: pieces => some (byte, piece :: pieces)

/-- `\r\n\r\n` -/
def headEnd : List UInt8 := [13, 10, 13, 10]

/-- The reading loop, while `n` more bytes fit into the response. -/
def readHead : ℕ → List UInt8 → List (List UInt8) → Except String (List UInt8) × List (List UInt8)
  | 0, response, incoming => (.ok response, incoming)
  | n + 1, response, incoming =>
    match readByte incoming with
    | none => (.error "unexpected end of file", [])
    | some (byte, rest) =>
      if headEnd.isSuffixOf (response ++ [byte]) then (.ok (response ++ [byte]), rest)
      else readHead n (response ++ [byte]) rest

def continuations (lead : UInt8) : Option (List (UInt8 × UInt8)) :=
  let any : UInt8 × UInt8 := (0x80, 0xBF)
  if lead < 0x80 then some []
  else if lead < 0xC2 then none
  else if lead < 0xE0 then some [any]
  else if lead = 0xE0 then some [(0xA0, 0xBF), any]
  else if lead = 0xED then some [(0x80, 0x9F), any]
  else if lead < 0xF0 then some [any, any]
  else if lead = 0xF0 then some [(0x90, 0xBF), any, any]
  else if lead < 0xF4 then some [any, any, any]
  else if lead = 0xF4 then some [(0x80, 0x8F), any, any]
  else none

/-- The character that the bytes start with, and how many bytes after the first belong to it. What
is broken off or no character at all is replaced. -/
def lossyChar (lead : UInt8) (rest : List UInt8) : Char × ℕ :=
  match continuations lead with
  | none => (Char.ofNat 0xFFFD, 0)
  | some ranges =>
    let follow := ((rest.zip ranges).takeWhile fun (byte, low, high) => low ≤ byte && byte ≤ high).map
      Prod.fst
    if follow.length < ranges.length then (Char.ofNat 0xFFFD, follow.length)
    else
      let bits := lead.toNat % if ranges = [] then 128 else 2 ^ (6 - ranges.length)
      (Char.ofNat (follow.foldl (fun value byte => value * 64 + byte.toNat % 64) bits), follow.length)

/-- `String::from_utf8_lossy`, of at most as many characters as `fuel`. -/
def lossyChars : ℕ → List UInt8 → List Char
  | 0, _ | _, [] => []
  | fuel + 1, byte :: bytes =>
    let (c, n) := lossyChar byte bytes
    c :: lossyChars fuel (bytes.drop n)

def fromUtf8Lossy (bytes : List UInt8) : String := String.ofList (lossyChars bytes.length bytes)

/-- `lines().next()`: up to the line feed, without a carriage return before it. -/
def statusLine (response : List UInt8) : String :=
  let line := (fromUtf8Lossy response).toList.takeWhile (· ≠ '\n')
  String.ofList (if line.getLast? = some '\r' then line.dropLast else line)

def connectAccepted (response : List UInt8) : Bool :=
  (Text.splitWhitespace (statusLine response))[1]? = some "200"

def connectRequest (base64Encode : String → String) (proxy : ProxyCredentials) (targetHost : String) (targetPort : ℕ) : String :=
  let authority :=
    if Text.contains targetHost ":" then s!"[{targetHost}]:{targetPort}"
    else s!"{targetHost}:{targetPort}"
  let authorization := proxy.username.map fun username =>
    let credentials := username ++ ":" ++ proxy.password.getD ""
    "Proxy-Authorization: Basic " ++ base64Encode credentials ++ "\r\n"
  "CONNECT " ++ authority ++ " HTTP/1.1\r\nHost: " ++ authority ++
    "\r\nProxy-Connection: Keep-Alive\r\n" ++ authorization.getD "" ++ "\r\n"

/-- `establish_http_connect` over a connection that takes the request. -/
def establishHttpConnect (base64Encode : String → String) (stream : ProxyStream)
    (proxy : ProxyCredentials) (targetHost : String) (targetPort : ℕ) :
    Except String Unit × ProxyStream :=
  let request := connectRequest base64Encode proxy targetHost targetPort
  let written := stream.written ++ request.toUTF8.toList
  let (head, incoming) := readHead maxProxyResponseBytes [] stream.incoming
  let result :=
    match head with
    | .error detail => .error detail
    | .ok response =>
      if !headEnd.isSuffixOf response then .error "HTTP 代理响应过大或不完整"
      else if !connectAccepted response then
        .error ("HTTP 代理拒绝 CONNECT：" ++ statusLine response)
      else .ok ()
  (result, ⟨written, incoming⟩)

theorem readByte_flatten (incoming : List (List UInt8)) :
    readByte incoming = none ∧ incoming.flatten = [] ∨
      ∃ byte rest, readByte incoming = some (byte, rest) ∧
        incoming.flatten = byte :: rest.flatten := by
  fun_induction readByte incoming with
  | case1 => exact .inl ⟨rfl, rfl⟩
  | case2 pieces ih => simpa using ih
  | case3 byte piece pieces => exact .inr ⟨byte, piece :: pieces, rfl, by simp⟩

def Unended (response used : List UInt8) : Prop := ∀ q, q <+: used → ¬ headEnd <:+ response ++ q

/-- How the loop ends: at the first end of a head, with the response full, or at the end of the
stream. -/
inductive HeadRead (n : ℕ) (response used : List UInt8) :
    Except String (List UInt8) → List UInt8 → Prop
  | found {rest : List UInt8} (hend : headEnd <:+ response ++ used)
      (hfirst : ∀ q, q <+: used → q ≠ used → ¬ headEnd <:+ response ++ q) :
      HeadRead n response used (.ok (response ++ used)) rest
  | full {rest : List UInt8} (hlen : used.length = n) (hunended : Unended response used) :
      HeadRead n response used (.ok (response ++ used)) rest
  | closed {detail : String} (hunended : Unended response used) :
      HeadRead n response used (.error detail) []

variable {n : ℕ} {response used rest p : List UInt8} {result : Except String (List UInt8)}

theorem HeadRead.cons {byte : UInt8} (hresponse : ¬ headEnd <:+ response)
    (h : HeadRead n (response ++ [byte]) used result rest) :
    HeadRead (n + 1) response (byte :: used) result rest := by
  have happend : ∀ q, response ++ [byte] ++ q = response ++ byte :: q := by simp
  have hunended : Unended (response ++ [byte]) used → Unended response (byte :: used) := by
    intro hq q hprefix
    rcases List.prefix_cons_iff.mp hprefix with rfl | ⟨t, rfl, ht⟩
    · simpa using hresponse
    · exact happend t ▸ hq t ht
  cases h with
  | found hend hfirst =>
    rw [happend] at hend ⊢
    refine .found hend fun q hprefix hne => ?_
    rcases List.prefix_cons_iff.mp hprefix with rfl | ⟨t, rfl, ht⟩
    · simpa using hresponse
    · exact happend t ▸ hfirst t ht fun heq => hne (by rw [heq])
  | full hlen hq =>
    rw [happend]
    exact .full (by simp [hlen]) (hunended hq)
  | closed hq => exact .closed (hunended hq)

theorem readHead_spec : ∀ (n : ℕ) (response : List UInt8) (incoming : List (List UInt8)),
    ¬ headEnd <:+ response →
    ∃ used, incoming.flatten = used ++ (readHead n response incoming).2.flatten ∧
      used.length ≤ n ∧
      HeadRead n response used (readHead n response incoming).1
        (readHead n response incoming).2.flatten
  | 0, response, incoming, hresponse => by
    have hunended : Unended response [] := fun q hq => by
      rw [List.prefix_nil.mp hq, List.append_nil]
      exact hresponse
    refine ⟨[], rfl, le_rfl, ?_⟩
    have hfull := @HeadRead.full 0 response [] incoming.flatten rfl hunended
    rwa [List.append_nil] at hfull
  | n + 1, response, incoming, hresponse => by
    rcases readByte_flatten incoming with ⟨hread, hflat⟩ | ⟨byte, rest, hread, hflat⟩
    · simp only [readHead, hread]
      refine ⟨[], by simpa using hflat, Nat.zero_le _, .closed fun q hq => ?_⟩
      rw [List.prefix_nil.mp hq, List.append_nil]
      exact hresponse
    · simp only [readHead, hread]
      split_ifs with hend
      · refine ⟨[byte], hflat, by simp, .found (List.isSuffixOf_iff_suffix.mp hend) ?_⟩
        intro q hprefix hne
        rcases List.prefix_cons_iff.mp hprefix with rfl | ⟨t, rfl, ht⟩
        · simpa using hresponse
        · exact absurd (by rw [List.prefix_nil.mp ht]) hne
      · have hnot : ¬ headEnd <:+ response ++ [byte] := fun h =>
          hend (List.isSuffixOf_iff_suffix.mpr h)
        obtain ⟨used, hsplit, hlen, hspec⟩ := readHead_spec n (response ++ [byte]) rest hnot
        exact ⟨byte :: used, by rw [hflat, hsplit, List.cons_append], by simpa using hlen,
          hspec.cons hresponse⟩

def IsHead (p s : List UInt8) : Prop :=
  p <+: s ∧ headEnd <:+ p ∧ ∀ q, q <+: s → headEnd <:+ q → p.length ≤ q.length

theorem IsHead.unique {p' s : List UInt8} (h : IsHead p s) (h' : IsHead p' s) : p = p' := by
  have hle := h.2.2 p' h'.1 h'.2.1
  have hge := h'.2.2 p h.1 h.2.1
  exact (List.prefix_of_prefix_length_le h.1 h'.1 hle).eq_of_length (by omega)

theorem IsHead.of_first (hend : headEnd <:+ used)
    (hfirst : ∀ q, q <+: used → q ≠ used → ¬ headEnd <:+ q) : IsHead used (used ++ rest) := by
  refine ⟨List.prefix_append used rest, hend, fun q hq hqend => ?_⟩
  by_contra hshort
  have hprefix : q <+: used :=
    List.prefix_of_prefix_length_le hq (List.prefix_append used rest) (by omega)
  exact hfirst q hprefix (fun heq => hshort (by rw [heq])) hqend

theorem HeadRead.of_isHead (h : HeadRead n [] used result rest) (hp : IsHead p (used ++ rest))
    (hlen : p.length ≤ n) : result = .ok p ∧ p = used := by
  have hunended : p <+: used → ¬ Unended [] used := fun hprefix hq => hq p hprefix hp.2.1
  cases h with
  | found hend hfirst =>
    have heq := hp.unique (IsHead.of_first hend hfirst)
    exact ⟨by rw [heq, List.nil_append], heq⟩
  | full hused hq =>
    have hprefix : p <+: used :=
      List.prefix_of_prefix_length_le hp.1 (List.prefix_append used rest) (by omega)
    exact absurd hq (hunended hprefix)
  | closed hq =>
    have hprefix : p <+: used := by simpa using hp.1
    exact absurd hq (hunended hprefix)

theorem HeadRead.isHead (h : HeadRead n [] used (.ok response) rest)
    (hend : headEnd.isSuffixOf response = true) : response = used ∧ IsHead used (used ++ rest) := by
  cases h with
  | found hfound hfirst => exact ⟨rfl, IsHead.of_first hfound hfirst⟩
  | full _ hunended =>
    exact absurd (List.isSuffixOf_iff_suffix.mp hend) (hunended used (List.prefix_refl _))

/-- The line is what comes before the first line feed, and its second word between whitespace is
`200`. -/
def StatusIs200 (text : List Char) : Prop :=
  ∃ line, '\n' ∉ line ∧ (text = line ∨ line ++ ['\n'] <+: text) ∧
    ∃ lead version gap rest, line = lead ++ version ++ gap ++ ['2', '0', '0'] ++ rest ∧
      (∀ c ∈ lead ++ gap, Text.isWhitespace c = true) ∧ version ≠ [] ∧ gap ≠ [] ∧
      (∀ c ∈ version, Text.isWhitespace c = false) ∧ ∀ c ∈ rest.head?, Text.isWhitespace c = true

theorem firstLine_iff {line text : List Char} :
    '\n' ∉ line ∧ (text = line ∨ line ++ ['\n'] <+: text) ↔ line = text.takeWhile (· ≠ '\n') := by
  induction text generalizing line with
  | nil => cases line <;> simp
  | cons c text ih =>
    rcases line with _ | ⟨d, line⟩
    · by_cases hc : c = '\n' <;> simp [hc, Ne.symm]
    · simp only [List.cons_append, List.cons_prefix_cons, List.cons.injEq, List.mem_cons, not_or]
      by_cases hc : c = '\n'
      · simp only [hc, List.takeWhile_cons]
        simp +contextual [eq_comm]
      · rw [List.takeWhile_cons_of_pos (by simpa using hc), List.cons.injEq, ← ih]
        constructor
        · rintro ⟨⟨-, hfree⟩, ⟨rfl, rfl⟩ | ⟨rfl, hprefix⟩⟩
          · exact ⟨rfl, hfree, .inl rfl⟩
          · exact ⟨rfl, hfree, .inr hprefix⟩
        · rintro ⟨rfl, hfree, rfl | hprefix⟩
          · exact ⟨⟨Ne.symm hc, hfree⟩, .inl ⟨rfl, rfl⟩⟩
          · exact ⟨⟨Ne.symm hc, hfree⟩, .inr ⟨rfl, hprefix⟩⟩

theorem words_statusLine (response : List UInt8) :
    Text.words Text.isWhitespace (statusLine response).toList =
      Text.words Text.isWhitespace ((fromUtf8Lossy response).toList.takeWhile (· ≠ '\n')) := by
  simp only [statusLine, String.toList_ofList]
  generalize (fromUtf8Lossy response).toList.takeWhile (· ≠ '\n') = line
  split_ifs with hlast
  · obtain ⟨front, rfl⟩ := List.getLast?_eq_some_iff.mp hlast
    rw [List.dropLast_concat, Text.words_append_separator (by decide)]
  · rfl

theorem connectAccepted_iff (response : List UInt8) :
    connectAccepted response = true ↔ StatusIs200 (fromUtf8Lossy response).toList := by
  have hwords : connectAccepted response = true ↔ ∃ version others,
      Text.words Text.isWhitespace ((fromUtf8Lossy response).toList.takeWhile (· ≠ '\n')) =
        version :: ['2', '0', '0'] :: others := by
    rw [connectAccepted, decide_eq_true_eq, Text.splitWhitespace, words_statusLine, List.getElem?_map]
    rcases Text.words _ _ with _ | ⟨version, _ | ⟨status, others⟩⟩
    · simp
    · simp
    · simp [← String.toList_inj]
  rw [hwords, StatusIs200]
  constructor
  · rintro ⟨version, others, h⟩
    obtain ⟨lead, _, hline, hlead, hversion, hfree, hhead, h⟩ := Text.words_eq_cons.mp h
    obtain ⟨gap, rest, rfl, hgap, -, -, hrest, -⟩ := Text.words_eq_cons.mp h
    have hne : gap ≠ [] := by
      rintro rfl
      exact absurd (hhead '2' rfl) (by decide)
    obtain ⟨hfeed, hfirst⟩ := firstLine_iff.mpr rfl
    exact ⟨_, hfeed, hfirst, lead, version, gap, rest, by simpa using hline,
      List.forall_mem_append.mpr ⟨hlead, hgap⟩, hversion, hne, hfree, hrest⟩
  · rintro ⟨line, hfeed, hfirst, lead, version, gap, rest, hline, hspace, hversion, hne, hfree, hrest⟩
    obtain ⟨hlead, hgap⟩ := List.forall_mem_append.mp hspace
    rw [← firstLine_iff.mp ⟨hfeed, hfirst⟩, hline]
    refine ⟨version, Text.words Text.isWhitespace rest, Text.words_eq_cons.mpr
      ⟨lead, gap ++ ['2', '0', '0'] ++ rest, by simp, hlead, hversion, hfree, ?_,
        Text.words_eq_cons.mpr ⟨gap, rest, rfl, hgap, by simp, by simp [Text.isWhitespace], hrest, rfl⟩⟩⟩
    obtain ⟨c, gap, rfl⟩ := List.exists_cons_of_ne_nil hne
    simpa using hgap c List.mem_cons_self

/-- The tunnel is opened exactly when the stream has a head of at most 16384 bytes whose status is
200. The head and nothing else is then used up, and no call uses up more than 16384 bytes. -/
theorem connect_reads_head (base64Encode : String → String)
    (stream : ProxyStream) (proxy : ProxyCredentials) (targetHost : String) (targetPort : ℕ) :
    let s := stream.incoming.flatten
    let r := establishHttpConnect base64Encode stream proxy targetHost targetPort
    (r.1 = .ok () ↔ ∃ p, IsHead p s ∧ p.length ≤ 16384 ∧
      StatusIs200 (fromUtf8Lossy p).toList) ∧
      (r.1 = .ok () → ∀ p, IsHead p s → s = p ++ r.2.incoming.flatten) ∧
      ∃ used, s = used ++ r.2.incoming.flatten ∧ used.length ≤ 16384 := by
  intro s r
  simp only [← connectAccepted_iff]
  obtain ⟨used, hsplit, hlen, hspec⟩ :=
    readHead_spec maxProxyResponseBytes [] stream.incoming (by decide)
  have hhead : ∀ p, IsHead p s → p.length ≤ 16384 →
      (readHead maxProxyResponseBytes [] stream.incoming).1 = .ok p ∧ p = used := fun p hp hple =>
    hspec.of_isHead (hsplit ▸ hp) hple
  have hopened : r.1 = .ok () → IsHead used s ∧ connectAccepted used = true := by
    intro hok
    simp only [r, establishHttpConnect] at hok
    cases hread : (readHead maxProxyResponseBytes [] stream.incoming).1 with
    | error detail =>
      rw [hread] at hok
      cases hok
    | ok response =>
      rw [hread] at hok hspec
      dsimp only at hok
      split_ifs at hok with hend haccepted
      obtain ⟨rfl, hfound⟩ := hspec.isHead (by simpa using hend)
      rw [← hsplit] at hfound
      exact ⟨hfound, by simpa using haccepted⟩
  refine ⟨⟨fun hok => ⟨used, (hopened hok).1, hlen, (hopened hok).2⟩, ?_⟩, ?_, used, hsplit, hlen⟩
  · rintro ⟨p, hp, hple, haccepted⟩
    have hend : headEnd.isSuffixOf p = true := List.isSuffixOf_iff_suffix.mpr hp.2.1
    simp only [r, establishHttpConnect, (hhead p hp hple).1, hend, haccepted]
    rfl
  · intro hok p hp
    rw [hp.unique (hopened hok).1]
    exact hsplit

end IMail
