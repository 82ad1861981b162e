import AiDaemon.IdentityKeys
import AiDaemon.Journal
import AiDaemon.ShimHttp
import AiDaemon.ShimModels

/-!
# HTTP callers (`main.rs`: `Conn::peer`, `name_for`, `serve`, `open_session`)

A request comes with two things that say who sent it: what the kernel says about the
other end of the connection, and a token.  `serve` decides whether the caller is let
in, and `open_session` tells the daemon, which makes an identity of it and files its
grants and spend under the identity's key.

`http_callers_identified` goes the whole way, from the bytes of a connection to the
principal that key stands for: a token the configuration lists names a client, and
without one the caller is whoever the kernel says, whatever else it sends.
-/

namespace AiDaemon.ShimHttp

open Audit ByteStream Identity Ledger

variable {D : Type}

/-! ### The source -/

structure ShimClient where
  name : Text
  token : Text
deriving DecidableEq

structure ShimConfig where
  requireToken : Bool
  clients : List ShimClient
  models : List Shim.ShimModel

/-- `libc::ucred`, what is read of it. -/
structure Ucred where
  pid : Int32
  uid : UInt32

/-- A connection, with what `getsockopt` says about the other end of a Unix socket,
    `none` where it fails. -/
inductive Conn where
  | tcp
  | unix (ucred : Option Ucred)

structure Peer where
  pid : UInt32
  uid : UInt32
  client : Option Text
  attested : Bool

/-- The shim's own process. -/
structure Own where
  pid : UInt32
  uid : UInt32

def Own.peer (own : Own) : Peer := ⟨own.pid, own.uid, none, false⟩

def peerCred (own : Own) : Option Ucred → Peer
  | some ucred =>
    if ucred.pid = 0 then own.peer else ⟨ucred.pid.toUInt32, ucred.uid, none, true⟩
  | none => own.peer

def Conn.peer (own : Own) : Conn → Peer
  | .tcp => own.peer
  | .unix ucred => peerCred own ucred

def constantTimeEq (a b : List UInt8) : Bool :=
  if a.length ≠ b.length then false
  else (a.zip b).foldl (fun diff bytes => diff ||| (bytes.1 ^^^ bytes.2)) 0 == 0

/-- `name_for`. The loop goes over the whole table. -/
def ShimConfig.nameFor (config : ShimConfig) (token : Option Text) : Option Text :=
  token.bind fun token =>
    config.clients.foldl
      (fun found client =>
        if constantTimeEq (asBytes client.token) (asBytes token) then some client.name else found)
      none

inductive Route where
  | listModels
  | chat
  | responses
  | embeddings
  | messages
  | countTokens
  | health
deriving DecidableEq, Repr

def routes : List ((String × String) × Route) :=
  [(("GET", "/v1/models"), .listModels),
   (("GET", "/api/tags"), .listModels),
   (("POST", "/v1/chat/completions"), .chat),
   (("POST", "/v1/responses"), .responses),
   (("POST", "/v1/embeddings"), .embeddings),
   (("POST", "/v1/messages"), .messages),
   (("POST", "/v1/messages/count_tokens"), .countTokens),
   (("GET", "/health"), .health)]

def routeOf (method path : Text) : Option Route :=
  (routes.find? fun entry => entry.1.1.toList = method ∧ entry.1.2.toList = path).map Prod.snd

/-- What `serve` does with a request: answer it itself, or hand it to a route. -/
inductive Served (D : Type) where
  | respond (status : Nat) (body : Json.Value D)
  | handle (route : Route) (request : HttpRequest) (peer : Peer)

def strangerText : Text := "no recognised token; this machine names its clients".toList

def stranger (path : Text) : Json.Value D :=
  if "/v1/messages".toList.isPrefixOf path then
    Shim.anthropicError "authentication_error".toList strangerText
  else Shim.errorBody "authentication_error".toList strangerText

/-- `serve`, up to the handlers of the routes. -/
def serve (own : Own) (config : ShimConfig) (conn : Conn) (src : Source) :
    Except Text (Served D) := do
  let request ← readRequest src
  let peer := { conn.peer own with client := config.nameFor request.token }
  if config.requireToken ∧ peer.client.isNone then
    return .respond 401 (stranger request.path)
  else
    match routeOf request.method request.path with
    | some route => return .handle route request peer
    | none => return .respond 404 (Shim.errorBody "not_found".toList "no such route".toList)

def ofBool (b : Bool) : OptionValue := ⟨none, none, none, none, some b, none⟩

def ofText (text : Text) : OptionValue := ⟨some text, none, none, none, none, none⟩

/-- The options of `open_session`. -/
def sessionOptions (peer : Peer) (background : Bool) : Options :=
  let whom : Options :=
    ((AList.insert "shim_peer_pid".toList (.ofU32 peer.pid) ∅).insert
      "shim_peer_uid".toList (.ofU32 peer.uid)).insert
      "shim_peer_attested".toList (ofBool peer.attested)
  let named :=
    match peer.client with
    | some name => whom.insert "shim_client".toList (ofText name)
    | none => whom
  (named.insert "max_context".toList (.ofU32 0xFFFFFFFF)).insert
    "priority".toList (ofText (if background then "background" else "interactive").toList)

/-! ### Tokens -/

theorem foldl_or_eq_zero (bytes : List (UInt8 × UInt8)) (diff : UInt8) :
    bytes.foldl (fun diff bytes => diff ||| (bytes.1 ^^^ bytes.2)) diff = 0 ↔
      diff = 0 ∧ ∀ pair ∈ bytes, pair.1 = pair.2 := by
  induction bytes generalizing diff with
  | nil => simp
  | cons pair bytes ih =>
    rw [List.foldl_cons, ih, UInt8.or_eq_zero_iff, UInt8.xor_eq_zero_iff, List.forall_mem_cons,
      and_assoc]

/-- The comparison that takes the same time everywhere is a comparison. -/
theorem constantTimeEq_iff {a b : List UInt8} : constantTimeEq a b = true ↔ a = b := by
  unfold constantTimeEq
  by_cases hlength : a.length = b.length
  · rw [if_neg (not_not.mpr hlength), beq_iff_eq, foldl_or_eq_zero]
    constructor
    · rintro ⟨-, hbytes⟩
      refine List.ext_getElem hlength ?_
      intro i hi hi'
      have hmem : (a[i], b[i]) ∈ a.zip b := by
        rw [List.mem_iff_getElem]
        exact ⟨i, by simpa using ⟨hi, hi'⟩, List.getElem_zip⟩
      exact hbytes _ hmem
    · rintro rfl
      refine ⟨rfl, ?_⟩
      intro pair hpair
      obtain ⟨i, hi, hpair⟩ := List.mem_iff_getElem.mp hpair
      rw [← hpair, List.getElem_zip]
  · rw [if_pos hlength]
    simp only [Bool.false_eq_true, false_iff]
    rintro rfl
    exact hlength rfl

/-- The clients a token was given to; the last of them is the one it names. -/
def ShimConfig.holding (config : ShimConfig) (token : Option Text) : List ShimClient :=
  config.clients.filter fun client => token = some client.token

theorem foldl_last (p : ShimClient → Bool) (clients : List ShimClient) (found : Option Text) :
    clients.foldl (fun found client => if p client then some client.name else found) found =
      (((clients.filter p).getLast?).map ShimClient.name).or found := by
  induction clients generalizing found with
  | nil => rfl
  | cons client clients ih =>
    rw [List.foldl_cons, ih]
    by_cases hclient : p client = true
    · rw [if_pos hclient, List.filter_cons_of_pos hclient, List.getLast?_cons]
      cases (clients.filter p).getLast? <;> rfl
    · rw [if_neg hclient, List.filter_cons_of_neg hclient]

theorem ShimConfig.nameFor_eq (config : ShimConfig) (token : Option Text) :
    config.nameFor token = (config.holding token).getLast?.map ShimClient.name := by
  cases token with
  | none => simp [nameFor, holding]
  | some token =>
    rw [nameFor, Option.bind_some, foldl_last, Option.or_none, holding]
    congr 3
    funext client
    rw [Bool.eq_iff_iff, constantTimeEq_iff, decide_eq_true_eq, asBytes_injective.eq_iff,
      Option.some.injEq, eq_comm]

/-! ### What the daemon makes of it -/

/-- A name the daemon takes for a client. -/
def isClientName (name : Text) : Bool :=
  name ≠ [] && name.byteLen ≤ 64 && name.all isClientChar

theorem lookup_insert_ite (options : Options) (name other : Text) (value : OptionValue) :
    (options.insert name value).lookup other =
      if other = name then some value else options.lookup other := by
  by_cases h : other = name
  · rw [if_pos h, h, AList.lookup_insert]
  · rw [if_neg h, AList.lookup_insert_ne h]

theorem isClientName_iff {name : Text} :
    isClientName name = true ↔ name ≠ [] ∧ name.byteLen ≤ 64 ∧ name.all isClientChar = true := by
  simp [isClientName, and_assoc]

/-- What the daemon reads in the options of a session. -/
theorem sessionOptions_lookup (peer : Peer) (background : Bool) :
    let options := sessionOptions peer background
    options.string "portal_app_id" = none ∧
      options.u32 "shim_peer_pid" = some peer.pid ∧
      options.u32 "shim_peer_uid" = some peer.uid ∧
      options.bool "shim_peer_attested" = some peer.attested ∧
      options.lookup "shim_client".toList = peer.client.map ofText := by
  obtain ⟨pid, uid, client, attested⟩ := peer
  cases client <;>
    simp +decide only [sessionOptions, Options.string, Options.u32, Options.bool,
      lookup_insert_ite, if_true, if_false, AList.lookup_empty, Option.bind_some,
      Option.bind_none, Option.map_some, Option.map_none, OptionValue.ofU32, ofBool, and_self]

/-- The client a peer is taken for. -/
def Peer.clientName (peer : Peer) : Option Text := (peer.client.map Text.trim).filter isClientName

/-- **The daemon's side.** Whoever is not the shim is turned away with its options, and
    the shim's peer is of the lowest class. -/
theorem identityOf_sessionOptions (host : Host) (policy : PolicyConfig) (uid : UInt32)
    (pid : Int32) (peer : Peer) (background : Bool) :
    Manager.identityOf host policy uid pid (sessionOptions peer background) =
      if Manager.isShim host policy (fromPidUid host pid uid uid .native) then
        .ok { fromPidUid host peer.pid.toInt32 peer.uid peer.uid .shim with
          attested := peer.attested
          client := peer.clientName }
      else if peer.client.isSome then
        .error (.accessDenied "only ai-daemon-shim may name an HTTP caller".toList)
      else .error (.accessDenied "only ai-daemon-shim may introduce an HTTP caller".toList) := by
  obtain ⟨happ, hpid, huid, hattested, hclient⟩ := sessionOptions_lookup peer background
  have hname : Manager.clientName (sessionOptions peer background) = peer.clientName := by
    rw [Manager.clientName, Options.string, hclient, Peer.clientName]
    cases peer.client <;> rfl
  unfold Manager.identityOf
  rw [happ, hpid, huid, hattested, hclient, hname]
  dsimp only
  cases his : Manager.isShim host policy (fromPidUid host pid uid uid .native) with
  | true =>
    rw [if_neg (fun h => Bool.noConfusion h.2), if_neg Bool.noConfusion,
      if_pos rfl]
    rfl
  | false =>
    rw [if_neg Bool.false_ne_true, if_pos rfl, Option.isSome_map]
    by_cases hnamed : peer.client.isSome = true
    · rw [if_pos ⟨hnamed, rfl⟩, if_pos hnamed]
    · rw [if_neg (fun h => hnamed h.1), if_neg hnamed]

/-- Who is behind a request: the client its token was given to, when the daemon takes
    the name, or else the user the kernel names. -/
def behind (own : Own) (config : ShimConfig) (conn : Conn) (token : Option Text) : Principal :=
  let client := (config.holding token).getLast?.map fun client => client.name.trim
  match client.filter isClientName with
  | some name => .client name
  | none => .anonymous (Text.ofNat (conn.peer own).uid.toNat)

/-- The peer `serve` hands on. -/
def callerOf (own : Own) (config : ShimConfig) (conn : Conn) (token : Option Text) : Peer :=
  { conn.peer own with client := (config.holding token).getLast?.map ShimClient.name }

/-- **HTTP callers are who they are.** However the bytes of a request arrive, `serve` lets
    it through to its route, with the token of its last token header looked up, unless its
    body is short or over the limit, or tokens are required and nobody was given this one.
    The daemon takes the caller from the shim alone, always as of the lowest class, and the
    key it files the caller under is the key of the client the token was given to; without
    such a client it is a key of the user the kernel names and, where it names nobody, of
    the shim's own. -/
theorem http_callers_identified (own : Own) (config : ShimConfig) (conn : Conn) (m : Message)
    (rest : List UInt8) (script : List Answer) (host : Host) (policy : PolicyConfig)
    (uid : UInt32) (pid : Int32) (background : Bool) :
    let length := ((lastNamed [lengthName] m.headers).map
      fun h => (parseUsize h.value.trim).getD 0).getD 0
    let token := (lastNamed tokenNames m.headers).bind Header.token
    let peer := callerOf own config conn token
    (serve (D := D) own config conn ⟨m.bytes ++ rest, script⟩ =
      if length > maxBody then .error (overLimitText length)
      else if rest.length < length then .error "failed to fill whole buffer".toList
      else if config.requireToken ∧ ∀ client ∈ config.clients, token ≠ some client.token then
        .ok (.respond 401 (stranger (routePath m.target)))
      else
        match routeOf m.method (routePath m.target) with
        | some route =>
          .ok (.handle route ⟨m.method, routePath m.target, rest.take length, token⟩ peer)
        | none =>
          .ok (.respond 404 (Shim.errorBody "not_found".toList "no such route".toList))) ∧
    match Manager.identityOf host policy uid pid (sessionOptions peer background) with
    | .error _ => Manager.isShim host policy (fromPidUid host pid uid uid .native) = false
    | .ok identity =>
      Manager.isShim host policy (fromPidUid host pid uid uid .native) = true ∧
        identity.cls = .shim ∧ identity.uid = peer.uid ∧ identity.attested = peer.attested ∧
        keyPrincipal identity.key = some (behind own config conn token) := by
  intro length token peer
  constructor
  · have hread : readRequest ⟨m.bytes ++ rest, script⟩ = if length > maxBody then
        .error (overLimitText length)
        else if rest.length < length then .error "failed to fill whole buffer".toList
        else .ok ⟨m.method, routePath m.target, rest.take length, token⟩ := by
      obtain ⟨hlength, htoken⟩ := m.head_eq
      rw [readRequest_written, hlength, htoken]
    have hstranger : (config.nameFor token).isNone = true ↔
        ∀ client ∈ config.clients, token ≠ some client.token := by
      rw [config.nameFor_eq, Option.isNone_map, Option.isNone_iff_eq_none,
        List.getLast?_eq_none_iff, ShimConfig.holding, List.filter_eq_nil_iff]
      simp only [decide_eq_true_eq, ne_eq]
    rw [serve, hread]
    by_cases hlimit : length > maxBody
    · rw [if_pos hlimit, if_pos hlimit]
      rfl
    · rw [if_neg hlimit, if_neg hlimit]
      by_cases hshort : rest.length < length
      · rw [if_pos hshort, if_pos hshort]
        rfl
      · rw [if_neg hshort, if_neg hshort]
        simp only [bind, Except.bind, hstranger]
        by_cases hout : config.requireToken = true ∧
            ∀ client ∈ config.clients, token ≠ some client.token
        · rw [if_pos hout, if_pos hout]
          rfl
        · rw [if_neg hout, if_neg hout, config.nameFor_eq]
          cases routeOf m.method (routePath m.target) <;> rfl
  · rw [identityOf_sessionOptions]
    cases his : Manager.isShim host policy (fromPidUid host pid uid uid .native) with
    | true =>
      rw [if_pos rfl]
      refine ⟨rfl, rfl, rfl, rfl, ?_⟩
      rw [keyPrincipal_key]
      · simp only [principal, behind, Peer.clientName, peer, callerOf, Option.map_map]
        rfl
      · intro name hname
        exact isClientName_iff.mp (Option.filter_eq_some_iff.mp hname).2
    | false =>
      rw [if_neg Bool.false_ne_true]
      by_cases hnamed : peer.client.isSome = true
      · rw [if_pos hnamed]
      · rw [if_neg hnamed]

end AiDaemon.ShimHttp
