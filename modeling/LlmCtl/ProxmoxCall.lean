/-
# The call to the ops tier (`pve.rs`, `config.rs`)

`list_containers` sends a token that can do much.  It is sent to an `https://` address only, and
only by a client that trusts nothing but certificates whose text stands in the pinned file: where
the secret, the file or its certificates are missing, nothing is sent at all.

The TLS library, the network and the reader of the reply are parameters, and so are the variables
and the files of the host.
-/
import LlmCtl.ApiHandlers
import LlmCtl.ConfigAppend
import LlmCtl.MetricsText
import LlmCtl.PinnedCerts

namespace LlmCtl

open Marker Api

/-! ## `list_containers` -/

/-- What is sent: the address, and the header `Authorization`. -/
structure PveRequest where
  url : String
  authorization : String
  deriving DecidableEq

/-- Why there are no containers. -/
inductive PveError where
  | homeUnset
  | keys (path : String)
  | noSecret
  | pin (e : PinError)
  | build (e : String)
  | http (e : String)
  | reply (e : String)
  deriving DecidableEq

/-- The host and the libraries.  `parse` gives the containers of a reply; what is missing of one
but its number is empty. -/
structure PveEnv (C : Type*) where
  /-- `PROXMOX_AGENT_ADMIN`. -/
  agentAdmin : Option String
  /-- `HOME`. -/
  home : Option String
  readFile : String → Option String
  fromPem : List Char → Option C
  build : PinnedClient C → Option String
  send : PinnedClient C → PveRequest → Except String String
  parse : String → Except String (List CtInfo)

/-- `Path::join` with a name. -/
def joinName (dir name : String) : String :=
  if dir.toList = [] ∨ dir.toList.getLast? = some '/' then dir ++ name
  else String.join [dir, "/", name]

/-- The secret in a line of `~/.keys`. -/
def keyOfLine (line : List Char) : Option String :=
  (splitOnce (fun c => c == '=') line).bind fun p =>
    if trim (String.ofList p.1) = "PROXMOX_AGENT_ADMIN" then some (trim (String.ofList p.2))
    else none

section Call

variable {C : Type*} (env : PveEnv C)

/-- The secret of `~/.keys`. -/
def readKeys : Except PveError String :=
  match env.home with
  | none => .error .homeUnset
  | some home =>
    let path := joinName home ".keys"
    match env.readFile path with
    | none => .error (.keys path)
    | some text =>
      match (strLines text.toList).findSome? keyOfLine with
      | some secret => .ok secret
      | none => .error .noSecret

/-- `read_secret`. -/
def readSecret : Except PveError String :=
  match env.agentAdmin with
  | some v => if trim v = "" then readKeys env else .ok (trim v)
  | none => readKeys env

/-- What is sent, by which client, and what comes of it. -/
structure PveCall (C : Type*) where
  sent : Option (PinnedClient C × PveRequest)
  answer : Except PveError (List CtInfo)

/-- The request of `list_containers`. -/
def pveRequest (proxmox : Proxmox) (secret : String) : PveRequest where
  url := String.join [proxmox.api, "/api2/json/nodes/", proxmox.node, "/lxc"]
  authorization := String.join ["PVEAPIToken=", proxmox.tokenId, "=", secret]

/-- What comes of a request: the containers of the project. -/
def pveAnswer (proxmox : Proxmox) (client : PinnedClient C) (req : PveRequest) :
    Except PveError (List CtInfo) :=
  match env.send client req with
  | .error e => .error (.http e)
  | .ok text =>
    match env.parse text with
    | .error e => .error (.reply e)
    | .ok data => .ok (data.filter fun c => c.tags == proxmox.ctTag)

/-- **`list_containers`.** -/
def listPveContainers (cfg : FileConfig) : PveCall C :=
  match readSecret env with
  | .error e => ⟨none, .error e⟩
  | .ok secret =>
    let req := pveRequest cfg.proxmox secret
    match client env.fromPem env.home env.readFile cfg.proxmox with
    | .error e => ⟨none, .error (.pin e)⟩
    | .ok c =>
      match env.build c with
      | some e => ⟨none, .error (.build e)⟩
      | none => ⟨some (c, req), pveAnswer env cfg.proxmox c req⟩

end Call

/-! ## What is handed over -/

/-- **What is handed over stands in the file**, from a BEGIN marker on, and ends with an END
marker. -/
theorem handedOver_infix {pem block : List Char} (h : block ∈ handedOver pem) :
    block <:+: pem ∧ beginCert.text <+: block ∧
      endCert.text <:+ (trim (String.ofList block)).toList := by
  rw [handedOver, drop_split] at h
  obtain ⟨piece, hpiece, hwrap⟩ := List.mem_filterMap.mp h
  obtain ⟨p, hp, rfl⟩ := List.mem_map.mp hpiece
  obtain ⟨hat, hle, -⟩ := spans_ordered p hp
  simp only [wrapBlock] at hwrap
  split at hwrap
  · next hend =>
    obtain rfl := Option.some.inj hwrap
    refine ⟨?_, List.prefix_append _ _, hend⟩
    have hspan : beginCert.text ++ slice pem (p.1 + beginCert.length) p.2 = slice pem p.1 p.2 := by
      rw [← hat.slice, slice_append (Nat.le_add_right _ _) hle]
    have hwhole : slice pem p.1 p.2 <:+: pem :=
      (List.drop_suffix _ _).isInfix.trans (List.take_prefix _ _).isInfix
    refine List.IsInfix.trans ?_ (hspan ▸ hwhole)
    exact ((List.prefix_append_right_inj _).mpr (List.take_prefix _ _)).isInfix
  · exact absurd hwrap (by simp)

section Pinned

variable {C : Type*} {env : PveEnv C}

/-- The client trusts certificates of the file only, and has at least one. -/
structure TrustsFileOnly (env : PveEnv C) (proxmox : Proxmox) (c : PinnedClient C) : Prop where
  builtIn : c.builtInRoots = false
  nonempty : c.roots ≠ []
  pinned : ∃ certPath pem, proxmox.certFile = some certPath ∧
    env.readFile (expandTilde env.home certPath) = some pem ∧
    ∀ root ∈ c.roots, ∃ block, block <:+: pem.toList ∧ beginCert.text <+: block ∧
      endCert.text <:+ (trim (String.ofList block)).toList ∧ env.fromPem block = some root

theorem trustsFileOnly_of_client {proxmox : Proxmox} {c : PinnedClient C}
    (h : client env.fromPem env.home env.readFile proxmox = .ok c) :
    TrustsFileOnly env proxmox c := by
  simp only [client] at h
  split at h
  · exact absurd h (by simp)
  · next certPath hfile =>
    split at h
    · exact absurd h (by simp)
    · next pem hread =>
      rw [addRoots_eq] at h
      split at h
      · exact absurd h (by simp)
      · next hsome =>
        obtain rfl := Except.ok.inj h
        refine ⟨rfl, fun hnil => hsome (List.length_eq_zero_iff.mpr hnil), certPath, pem, hfile,
          hread, ?_⟩
        intro root hroot
        obtain ⟨block, hblock, hparse⟩ := List.mem_filterMap.mp hroot
        obtain ⟨hstands, hbegin, hend⟩ := handedOver_infix hblock
        exact ⟨block, hstands, hbegin, hend, hparse⟩

/-! ## The secret -/

/-- The secret is that of the environment, or, where this is blank, the first one in `~/.keys`. -/
inductive SecretOf (env : PveEnv C) : String → Prop
  | variable {v : String} (hv : env.agentAdmin = some v) (hne : trim v ≠ "") :
      SecretOf env (trim v)
  | keys {home text secret : String} (hblank : ∀ v, env.agentAdmin = some v → trim v = "")
      (hhome : env.home = some home) (htext : env.readFile (joinName home ".keys") = some text)
      (hsecret : (strLines text.toList).findSome? keyOfLine = some secret) : SecretOf env secret

theorem secretOf_readSecret {secret : String} (h : readSecret env = .ok secret) :
    SecretOf env secret := by
  have hkeys (hblank : ∀ v, env.agentAdmin = some v → trim v = "")
      (h : readKeys env = .ok secret) : SecretOf env secret := by
    simp only [readKeys] at h
    split at h
    · exact absurd h (by simp)
    · next home hhome =>
      split at h
      · exact absurd h (by simp)
      · next text htext =>
        split at h
        · next secret' hsecret =>
          obtain rfl := Except.ok.inj h
          exact .keys hblank hhome htext hsecret
        · exact absurd h (by simp)
  simp only [readSecret] at h
  split at h
  · next v hv =>
    split at h
    · next hblank =>
      refine hkeys (fun w hw => ?_) h
      obtain rfl := Option.some.inj (hv.symm.trans hw)
      exact hblank
    · next hne =>
      obtain rfl := Except.ok.inj h
      exact .variable hv hne
  · next hnone => exact hkeys (fun w hw => absurd (hnone.symm.trans hw) (by simp)) h

/-! ## The address -/

/-- The API of a configuration that is accepted. -/
theorem api_of_load {home : Option String} {text : String} {cfg : FileConfig}
    (h : FileConfig.load home text = .ok cfg) :
    "https://".toList <+: cfg.proxmox.api.toList := by
  obtain ⟨root, cfg₀, -, -, hapi, rfl⟩ := FileConfig.load_eq_ok_iff.mp h
  exact List.isPrefixOf_iff_prefix.mp hapi

/-- The address of the request begins as the API does. -/
theorem api_prefix_url (proxmox : Proxmox) (secret : String) :
    proxmox.api.toList <+: (pveRequest proxmox secret).url.toList := by
  simp [pveRequest, String.join]

/-! ## The call -/

/-- What has been sent: the secret was found, and there is a client. -/
theorem of_sent {cfg : FileConfig} {c : PinnedClient C} {req : PveRequest}
    (h : (listPveContainers env cfg).sent = some (c, req)) :
    (∃ secret, readSecret env = .ok secret ∧ req = pveRequest cfg.proxmox secret) ∧
      client env.fromPem env.home env.readFile cfg.proxmox = .ok c ∧
      (listPveContainers env cfg).answer = pveAnswer env cfg.proxmox c req := by
  cases hsecret : readSecret env with
  | error e => simp [listPveContainers, hsecret] at h
  | ok secret =>
    cases hclient : client env.fromPem env.home env.readFile cfg.proxmox with
    | error e => simp [listPveContainers, hsecret, hclient] at h
    | ok c' =>
      cases hbuild : env.build c' with
      | some e => simp [listPveContainers, hsecret, hclient, hbuild] at h
      | none =>
        simp only [listPveContainers, hsecret, hclient, hbuild, Option.some.injEq,
          Prod.mk.injEq] at h
        obtain ⟨rfl, rfl⟩ := h
        exact ⟨⟨secret, rfl, rfl⟩, rfl, by simp only [listPveContainers, hsecret, hclient, hbuild]⟩

/-- Without a request there are no containers. -/
theorem sent_of_ok {cfg : FileConfig} {cts : List CtInfo}
    (h : (listPveContainers env cfg).answer = .ok cts) :
    ∃ c req, (listPveContainers env cfg).sent = some (c, req) := by
  cases hsecret : readSecret env with
  | error e => simp [listPveContainers, hsecret] at h
  | ok secret =>
    cases hclient : client env.fromPem env.home env.readFile cfg.proxmox with
    | error e => simp [listPveContainers, hsecret, hclient] at h
    | ok c =>
      cases hbuild : env.build c with
      | some e => simp [listPveContainers, hsecret, hclient, hbuild] at h
      | none =>
        exact ⟨c, pveRequest cfg.proxmox secret, by
          simp only [listPveContainers, hsecret, hclient, hbuild]⟩

/-- The containers of an answer. -/
theorem of_pveAnswer {proxmox : Proxmox} {c : PinnedClient C} {req : PveRequest}
    {cts : List CtInfo} (h : pveAnswer env proxmox c req = .ok cts) :
    ∃ text data, env.send c req = .ok text ∧ env.parse text = .ok data ∧
      cts = data.filter fun ct => ct.tags == proxmox.ctTag := by
  simp only [pveAnswer] at h
  split at h
  · exact absurd h (by simp)
  · next text htext =>
    split at h
    · exact absurd h (by simp)
    · next data hdata => exact ⟨text, data, htext, hdata, (Except.ok.inj h).symm⟩

end Pinned

/-- **The token is sent to pinned servers only**, for every configuration that is accepted and on
every host: a request goes to an `https://` address with the secret of the host, by a client that
trusts certificates of the pinned file only; and what is listed are the project's containers in
the reply to it. -/
theorem token_sent_to_pinned {home : Option String} {text : String} {cfg : FileConfig}
    (hload : FileConfig.load home text = .ok cfg) {C : Type} (env : PveEnv C) :
    (∀ c req, (listPveContainers env cfg).sent = some (c, req) →
      "https://".toList <+: req.url.toList ∧ TrustsFileOnly env cfg.proxmox c ∧
        ∃ secret, SecretOf env secret ∧ req = pveRequest cfg.proxmox secret) ∧
    ∀ cts, (listPveContainers env cfg).answer = .ok cts →
      ∃ c req reply data, (listPveContainers env cfg).sent = some (c, req) ∧
        env.send c req = .ok reply ∧ env.parse reply = .ok data ∧
        cts = data.filter fun ct => ct.tags == cfg.proxmox.ctTag := by
  constructor
  · intro c req hsent
    obtain ⟨⟨secret, hsecret, rfl⟩, hclient, -⟩ := of_sent hsent
    exact ⟨(api_of_load hload).trans (api_prefix_url cfg.proxmox secret),
      trustsFileOnly_of_client hclient, secret, secretOf_readSecret hsecret, rfl⟩
  · intro cts hcts
    obtain ⟨c, req, hsent⟩ := sent_of_ok hcts
    obtain ⟨-, -, hanswer⟩ := of_sent hsent
    obtain ⟨reply, data, hreply, hdata, rfl⟩ := of_pveAnswer (hanswer.symm.trans hcts)
    exact ⟨c, req, reply, data, hsent, hreply, hdata, rfl⟩

/-- A configuration with a pinned file. -/
def pinnedLines : List String :=
  smallLines.take 19 ++ ["cert_file = \"c.pem\"\n"] ++ smallLines.drop 19

def pinnedConfig : FileConfig :=
  { smallConfig with proxmox := { smallConfig.proxmox with certFile := some "c.pem" } }

theorem load_pinnedLines :
    FileConfig.load (some "/root") (String.join pinnedLines) = .ok pinnedConfig := by
  rw [FileConfig.load, String.toList_join]
  decide +kernel

/-- A host with a secret in its file, and a pinned certificate. -/
def pinnedHost : PveEnv (List Char) where
  agentAdmin := some " "
  home := some "/root"
  readFile path :=
    if path = "/root/.keys" then some "A=b\nPROXMOX_AGENT_ADMIN = s3\n"
    else if path = "c.pem" then some "-----BEGIN CERTIFICATE-----a-----END CERTIFICATE-----"
    else none
  fromPem := some
  build _ := none
  send _ _ := .ok ""
  parse _ := .ok [⟨100, "db", "running", "g"⟩, ⟨101, "other", "running", ""⟩]

theorem token_sent_to_pinned_one :
    ∃ c req, (listPveContainers pinnedHost pinnedConfig).sent = some (c, req) ∧
      req.authorization = "PVEAPIToken=t=s3" ∧ c.roots.length = 1 ∧
      "https://".toList <+: req.url.toList ∧ TrustsFileOnly pinnedHost pinnedConfig.proxmox c := by
  have hsent : (listPveContainers pinnedHost pinnedConfig).sent.any (fun p =>
      decide (p.2.authorization = "PVEAPIToken=t=s3" ∧ p.1.roots.length = 1)) = true := by
    decide +kernel
  obtain ⟨⟨c, req⟩, hp, hdecided⟩ := (Option.any_eq_true _ _).mp hsent
  obtain ⟨hauth, hroots⟩ := of_decide_eq_true hdecided
  obtain ⟨hurl, htrusts, -⟩ := (token_sent_to_pinned load_pinnedLines pinnedHost).1 c req hp
  exact ⟨c, req, hp, hauth, hroots, hurl, htrusts⟩

end LlmCtl
