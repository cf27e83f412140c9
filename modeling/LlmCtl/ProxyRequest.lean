/-
# What the worker gets of a request (`proxy.rs`)

Both ways through the proxy build the worker's request anew: the URL from the worker's base and
the target, the headers with `filtered_headers`, the body from the bytes that were read.
`forward` keeps the query, `handle_completion` does not; and `filtered_headers` inserts, so of a
name with several values the worker sees the last one.

The HTTP client that sends the request is not part of the repository.  `HttpClient` is what the
proxy relies on: it parses the URL, and adds its default headers where the request has none of
that name.
-/
import LlmCtl.Completion
import LlmCtl.PathGate

namespace LlmCtl

/-! ## The code -/

/-- `MAX_BODY`. -/
def maxBody : ℕ := 10 * 1024 * 1024

/-- The names that `filtered_headers` leaves out. -/
def isFiltered (name : String) : Bool :=
  decide (asciiLower name ∈ ["host", "transfer-encoding", "content-length", "connection"])

/-- `filtered_headers`. -/
def filteredHeaders (headers : HeaderMap) : HeaderMap :=
  (headers.iter.filter fun p => !isFiltered p.1).foldl (fun h p => h.insert p.1 p.2) .empty

/-- The request that is handed to the HTTP client. -/
structure Outgoing where
  method : Method
  url : List UInt8
  headers : HeaderMap
  body : List UInt8

/-- `format!("?{q}")`, or nothing. -/
def queryText : Option (List UInt8) → List UInt8
  | some q => questionMark :: q
  | none => []

/-- `forward`, up to the call of the client. -/
def forwardRequest (base : List UInt8) (req : Request) : Except ErrorReply Outgoing :=
  if maxBody < req.body.length then .error ⟨413, "request body too large"⟩
  else .ok ⟨req.method, base ++ req.path ++ queryText req.query, filteredHeaders req.headers,
    req.body⟩

/-- What `to_bytes` and `from_slice` make of the bytes. -/
def bodyOf (parse : List UInt8 → Except String Json) (body : List UInt8) : Body :=
  if maxBody < body.length then .tooLarge
  else
    match parse body with
    | .error e => .invalid e
    | .ok v => .json v

/-- What `handle_completion` finds in the daemon: the parser of JSON texts, the active model and
the busy flag. -/
structure ProxyEnv where
  port : ℕ
  parse : List UInt8 → Except String Json
  active : Option String
  busy : Bool

/-- `handle_completion`, up to the call of the client. -/
def completionRequest (env : ProxyEnv) (base : List UInt8) (req : Request) :
    Except ErrorReply Outgoing :=
  match readBody (bodyOf env.parse req.body) with
  | .error r => .error r
  | .ok (model, _) =>
    match modelGate env.active model with
    | .error r => .error r
    | .ok _ =>
      if env.busy then .error busyReply
      else .ok ⟨.post, base ++ req.path, filteredHeaders req.headers, req.body⟩

/-- The request that the proxy sends on, if it does. -/
def proxied (env : ProxyEnv) (req : Request) : Option Outgoing :=
  match fallback env.port req.method req.path with
  | .reply _ => none
  | .completion => (completionRequest env (asciiBytes (workerBase env.port)) req).toOption
  | .forward => (forwardRequest (asciiBytes (workerBase env.port)) req).toOption

/-! ## The HTTP client -/

/-- The HTTP client: how it takes the path and the query out of a URL, and its default headers. -/
structure HttpClient where
  parseUrl : List UInt8 → Option (List UInt8 × Option (List UInt8))
  defaults : HeaderMap

/-- A URL without a question mark has no query. -/
def HttpClient.QueryAfterMark (client : HttpClient) : Prop :=
  ∀ url path query, client.parseUrl url = some (path, query) → questionMark ∉ url → query = none

/-- What the worker gets. -/
structure Upstream where
  method : Method
  path : List UInt8
  query : Option (List UInt8)
  headers : HeaderMap
  body : List UInt8

/-- `send`: nothing is sent to a URL that cannot be parsed. -/
def HttpClient.send (client : HttpClient) (o : Outgoing) : Option Upstream :=
  (client.parseUrl o.url).map fun target =>
    ⟨o.method, target.1, target.2,
      client.defaults.iter.foldl (fun h p => h.insertVacant p.1 p.2) o.headers, o.body⟩

/-! ## The property and its condition -/

/-- **The worker gets what the client sent**: method, path, query, body, and the values of every
header that is not filtered. -/
structure SameRequest (req : Request) (up : Upstream) : Prop where
  method : up.method = req.method
  path : up.path = req.path
  query : up.query = req.query
  body : up.body = req.body
  headers : ∀ name, isFiltered name = false → up.headers.getAll name = req.headers.getAll name

/-- No header has two values, and the client of the proxy has none to add. -/
def HeadersPlain (client : HttpClient) (req : Request) : Prop :=
  ∀ name, isFiltered name = false → (req.headers.getAll name).length ≤ 1 ∧
    (req.headers.getAll name = [] → client.defaults.getAll name = [])

/-- The URL parser takes the target as it stands. -/
def TargetPlain (client : HttpClient) (port : ℕ) (req : Request) : Prop :=
  client.parseUrl (asciiBytes (workerBase port) ++ req.path ++ queryText req.query) =
    some (req.path, req.query)

/-! ## Headers -/

/-- Of the values of a header the last one is kept. -/
theorem getAll_filteredHeaders (headers : HeaderMap) {name : String}
    (hname : isFiltered name = false) :
    (filteredHeaders headers).getAll name = (headers.getAll name).getLast?.toList := by
  have hpairs : ((headers.iter.filter fun p => !isFiltered p.1).filter
      fun p => decide (p.1 = name)) = (headers.getAll name).map (name, ·) := by
    rw [List.filter_filter, ← headers.iter_filter name]
    apply List.filter_congr
    intro p _
    by_cases hp : p.1 = name
    · simp [hp, hname]
    · simp [hp]
  rw [filteredHeaders, MultiMap.getAll_foldl_insert, hpairs, List.getLast?_map]
  cases (headers.getAll name).getLast? with
  | none => rfl
  | some v => rfl

/-- A list is its last element just if it has no other. -/
theorem getLast?_toList_eq_iff {α : Type*} (l : List α) :
    l.getLast?.toList = l ↔ l.length ≤ 1 := by
  cases l with
  | nil => simp
  | cons x l =>
    cases l with
    | nil => simp
    | cons y l =>
      constructor
      · intro h
        have hlen := congrArg List.length h
        simp [List.getLast?_cons] at hlen
      · intro h
        simp at h

/-- The values of a header that the worker gets. -/
theorem getAll_sent {client : HttpClient} {o : Outgoing} {up : Upstream}
    (hs : client.send o = some up) (name : String) :
    up.headers.getAll name =
      if o.headers.getAll name = [] then (client.defaults.getAll name).head?.toList
      else o.headers.getAll name := by
  obtain ⟨target, -, rfl⟩ := Option.map_eq_some_iff.mp hs
  show (client.defaults.iter.foldl (fun h p => h.insertVacant p.1 p.2) o.headers).getAll name = _
  rw [MultiMap.getAll_foldl_insertVacant, client.defaults.iter_filter, List.head?_map,
    Option.map_map]
  cases (client.defaults.getAll name).head? with
  | none => rfl
  | some v => rfl

/-- **The headers arrive unchanged** just if they are plain. -/
theorem headers_kept_iff {client : HttpClient} {req : Request} {o : Outgoing} {up : Upstream}
    (hs : client.send o = some up) (ho : o.headers = filteredHeaders req.headers) :
    (∀ name, isFiltered name = false → up.headers.getAll name = req.headers.getAll name) ↔
      HeadersPlain client req := by
  have hvalues : ∀ name, isFiltered name = false →
      (up.headers.getAll name = req.headers.getAll name ↔
        (req.headers.getAll name).length ≤ 1 ∧
          (req.headers.getAll name = [] → client.defaults.getAll name = [])) := by
    intro name hname
    rw [getAll_sent hs name, ho, getAll_filteredHeaders _ hname]
    cases hvs : req.headers.getAll name with
    | nil => simp [List.head?_eq_none_iff]
    | cons v vs =>
      have hlast : (v :: vs).getLast?.toList ≠ [] := by simp [List.getLast?_cons]
      rw [if_neg hlast, getLast?_toList_eq_iff]
      simp
  constructor
  · intro h name hname
    exact (hvalues name hname).mp (h name hname)
  · intro h name hname
    exact (hvalues name hname).mpr (h name hname)

/-! ## The worker's base -/

/-- The worker's base has no question mark. -/
theorem questionMark_notMem_workerBase (port : ℕ) :
    questionMark ∉ asciiBytes (workerBase port) := by
  intro hmem
  obtain ⟨c, hc, hbyte⟩ := List.mem_map.mp hmem
  have htext : (workerBase port).toList = "http://127.0.0.1:".toList ++ (toString port).toList :=
    String.toList_append
  rw [htext] at hc
  rcases List.mem_append.mp hc with hlead | hdigits
  · have hnone : "http://127.0.0.1:".toList.all
        (fun c => c.toNat.toUInt8 != questionMark) = true := by decide
    exact bne_iff_ne.mp (List.all_eq_true.mp hnone c hlead) hbyte
  · have hdigit : c.isDigit = true := by
      have htoList : (toString port).toList = Nat.toDigits 10 port := Nat.toList_repr
      rw [htoList] at hdigits
      exact Nat.isDigit_of_mem_toDigits (by omega) (by omega) hdigits
    have hrange : 48 ≤ c.toNat ∧ c.toNat ≤ 57 := by
      simp only [Char.isDigit, Bool.and_eq_true, decide_eq_true_eq, ge_iff_le,
        UInt32.le_iff_toNat_le] at hdigit
      exact ⟨hdigit.1, hdigit.2⟩
    have hval : c.toNat.toUInt8.toNat = 63 := congrArg UInt8.toNat hbyte
    have hmod : c.toNat.toUInt8.toNat = c.toNat % 2 ^ 8 := UInt8.toNat_ofNat'
    omega

/-! ## What is sent on -/

/-- Is the request handled as a completion? -/
def Dispatch.isCompletion : Dispatch → Bool
  | .completion => true
  | _ => false

/-- What the client of the proxy is given: by `forward` the target with its query, by
`handle_completion` the path alone. -/
theorem proxied_cases {env : ProxyEnv} {req : Request} {o : Outgoing}
    (ho : proxied env req = some o) :
    o.method = req.method ∧ o.headers = filteredHeaders req.headers ∧ o.body = req.body ∧
      o.url = asciiBytes (workerBase env.port) ++ req.path ++
        (if (fallback env.port req.method req.path).isCompletion then []
          else queryText req.query) := by
  unfold proxied at ho
  split at ho
  · exact absurd ho (by simp)
  · next hroute =>
    have hpost : req.method = .post := (fallback_eq_completion_iff.mp hroute).1
    rw [hroute]
    unfold completionRequest at ho
    split at ho
    · exact absurd ho (by simp [Except.toOption])
    · split at ho
      · exact absurd ho (by simp [Except.toOption])
      · split at ho
        · exact absurd ho (by simp [Except.toOption])
        · obtain rfl := Option.some.inj ho
          refine ⟨hpost.symm, rfl, rfl, ?_⟩
          simp [Dispatch.isCompletion]
  · next hroute =>
    rw [hroute]
    unfold forwardRequest at ho
    split at ho
    · exact absurd ho (by simp [Except.toOption])
    · obtain rfl := Option.some.inj ho
      exact ⟨rfl, rfl, rfl, rfl⟩

/-- The worker gets the target that the URL parser finds. -/
theorem sameRequest_iff {client : HttpClient} {req : Request} {o : Outgoing} {up : Upstream}
    (hs : client.send o = some up) (hmethod : o.method = req.method)
    (hheaders : o.headers = filteredHeaders req.headers) (hbody : o.body = req.body) :
    SameRequest req up ↔
      HeadersPlain client req ∧ client.parseUrl o.url = some (req.path, req.query) := by
  rw [← headers_kept_iff hs hheaders]
  obtain ⟨target, htarget, rfl⟩ := Option.map_eq_some_iff.mp hs
  rw [htarget]
  constructor
  · intro h
    have hpath : target.1 = req.path := h.path
    have hquery : target.2 = req.query := h.query
    exact ⟨h.headers, by rw [← hpath, ← hquery]⟩
  · rintro ⟨hkept, heq⟩
    obtain rfl := Option.some.inj heq
    exact ⟨hmethod, rfl, rfl, hbody, hkept⟩

/-! ## Results -/

/-- **The request reaches the worker unchanged** just if its headers are plain, the URL parser
takes its target as it stands, and it is no completion with a query. -/
theorem request_unchanged_iff {env : ProxyEnv} {client : HttpClient} {req : Request}
    {o : Outgoing} {up : Upstream} (hmark : client.QueryAfterMark)
    (ho : proxied env req = some o) (hs : client.send o = some up) :
    SameRequest req up ↔
      HeadersPlain client req ∧ TargetPlain client env.port req ∧
        ((fallback env.port req.method req.path).isCompletion = true → req.query = none) := by
  obtain ⟨hmethod, hheaders, hbody, hurl⟩ := proxied_cases ho
  rw [sameRequest_iff hs hmethod hheaders hbody, hurl, TargetPlain]
  apply and_congr_right
  intro _
  cases hroute : (fallback env.port req.method req.path).isCompletion with
  | false => simp
  | true =>
    rw [if_pos rfl]
    constructor
    · intro hparse
      have hnone : req.query = none := by
        apply hmark _ _ _ hparse
        simp only [List.append_nil, List.mem_append, not_or]
        exact ⟨questionMark_notMem_workerBase _, req.path_plain⟩
      refine ⟨?_, fun _ => hnone⟩
      rw [hnone] at hparse ⊢
      exact hparse
    · rintro ⟨hparse, hcomp⟩
      have hnone := hcomp rfl
      rw [hnone] at hparse ⊢
      exact hparse

/-! ## Sample requests -/

/-- The daemon with the model `a` loaded. -/
def sampleEnv : ProxyEnv where
  port := 8080
  parse := fun _ => .ok (.obj [("model", .str "a")])
  active := some "a"
  busy := false

/-- A client for the worker's port: what follows the port is the target, split at its first
question mark. -/
def sampleClient : HttpClient where
  parseUrl := fun url =>
    let target := url.drop (workerBase 8080).length
    some (target.takeWhile fun b => b ≠ questionMark,
      if questionMark ∈ target then some ((target.dropWhile fun b => b ≠ questionMark).drop 1)
      else none)
  defaults := .ofPairs [("accept", asciiBytes "*/*")]

theorem sampleClient_queryAfterMark : sampleClient.QueryAfterMark := by
  intro url path query hparse hmark
  obtain ⟨-, hquery⟩ := Prod.mk.inj (Option.some.inj hparse)
  rw [← hquery, if_neg fun hmem => hmark (List.mem_of_mem_drop hmem)]

/-- `GET` of the worker's models. -/
def modelsRequest (headers : HeaderMap) : Request where
  method := .get
  path := asciiBytes "/v1/models"
  query := some (asciiBytes "all=1")
  headers := headers
  body := []
  path_plain := by decide

theorem request_unchanged_iff_models :
    ∃ o up, proxied sampleEnv (modelsRequest sampleClient.defaults) = some o ∧
      sampleClient.send o = some up ∧ SameRequest (modelsRequest sampleClient.defaults) up := by
  have hsent : ((proxied sampleEnv (modelsRequest sampleClient.defaults)).bind
      sampleClient.send).isSome = true := by decide
  obtain ⟨up, hup⟩ := Option.isSome_iff_exists.mp hsent
  obtain ⟨o, ho, hs⟩ := Option.bind_eq_some_iff.mp hup
  refine ⟨o, up, ho, hs, (request_unchanged_iff sampleClient_queryAfterMark ho hs).mpr ?_⟩
  refine ⟨fun name _ => ?_, by unfold TargetPlain; decide, ?_⟩
  · show (valuesOf [("accept", [asciiBytes "*/*"])] name).length ≤ 1 ∧
      (valuesOf [("accept", [asciiBytes "*/*"])] name = [] →
        valuesOf [("accept", [asciiBytes "*/*"])] name = [])
    refine ⟨?_, id⟩
    unfold valuesOf
    split <;> simp [valuesOf]
  · intro hcomp
    exact absurd hcomp (by decide)

/-- **Of two cookies the worker gets one.** -/
theorem repeated_header_is_cut :
    ¬ ∀ (env : ProxyEnv) (client : HttpClient) (req : Request) (o : Outgoing) (up : Upstream),
      client.QueryAfterMark → proxied env req = some o → client.send o = some up →
        SameRequest req up := by
  intro hall
  let req := modelsRequest (.ofPairs [("accept", asciiBytes "*/*"), ("cookie", asciiBytes "a=1"),
    ("cookie", asciiBytes "b=2")])
  have hcut : ((proxied sampleEnv req).bind sampleClient.send).any (fun up =>
      decide (up.headers.getAll "cookie" ≠ req.headers.getAll "cookie")) = true := by
    decide
  obtain ⟨up, hup, hne⟩ := (Option.any_eq_true _ _).mp hcut
  obtain ⟨o, ho, hs⟩ := Option.bind_eq_some_iff.mp hup
  exact of_decide_eq_true hne
    ((hall _ _ req o up sampleClient_queryAfterMark ho hs).headers "cookie" (by decide))

end LlmCtl
