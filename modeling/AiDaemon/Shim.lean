import AiDaemon.Framing
import AiDaemon.JsonWrite
import AiDaemon.Relay
import AiDaemon.Wire

/-!
# The HTTP bridge (`ai-daemon-shim`)

A request over HTTP becomes a session of the daemon, and what the session says
becomes the reply.  Every route reads the events of its session in a loop of its
own.  What they have in common is here: the events as they come off the socket,
what goes out, and the poll by which the routes that answer in one piece notice
that their client has gone.

A stream is modelled as the events it sends with the data of each, an answer as
its status and body.  Where the source writes an index into them it is a natural
number here.
-/

namespace AiDaemon.Shim

open Proto Relay

variable {F D : Type}

/-- The three that answer a prompt. -/
inductive Api where
  | chat
  | messages
  | responses
deriving DecidableEq

/-! ### Reading the session -/

/-- What a session says from some point on. -/
structure Session (F : Type) where
  events : List (Event F)
  ending : Ending Text

def blobText : Text := "the daemon sent a BLOB where an event was expected".toList

/-- `read_event`, for as long as it gives one. `describe` is how `ciborium` says
    that a value is no event. -/
def readEvents (floats : Wire.Floats D F) (describe : Cbor.Value D → Text) :
    List (Framing.Frame (Cbor.Value D)) → Except Framing.IoError Unit → Session F
  | [], .ok () => ⟨[], .closed⟩
  | [], .error e => ⟨[], .failed ("session socket: ".toList ++ e.message)⟩
  | .blob _ :: _, _ => ⟨[], .failed blobText⟩
  | .cbor value :: frames, ending =>
    match Wire.decEvent floats value with
    | some event =>
      let more := readEvents floats describe frames ending
      ⟨event :: more.events, more.ending⟩
    | none => ⟨[], .failed ("unrecognised event: ".toList ++ describe value)⟩

/-- The session that a socket carries. -/
def sessionOf (floats : Wire.Floats D F) (describe : Cbor.Value D → Text)
    (c : Framing.Ciborium (Cbor.Value D)) (src : ByteStream.Source) : Session F :=
  readEvents floats describe (Framing.readFrames c src).1 (Framing.readFrames c src).2

/-- A frame that holds an event. -/
def eventFrame (floats : Wire.Floats D F) (event : Event F) : Framing.Frame (Cbor.Value D) :=
  .cbor (Wire.encEvent floats event)

theorem readEvents_eventFrames (floats : Wire.Floats D F) (describe : Cbor.Value D → Text)
    (events : List (Event F)) (ending : Except Framing.IoError Unit) :
    readEvents floats describe (events.map (eventFrame floats)) ending =
      ⟨events, (readEvents floats describe [] ending).ending⟩ := by
  induction events with
  | nil => cases ending <;> rfl
  | cons event events ih =>
    simp only [List.map_cons, eventFrame, readEvents, Wire.decEvent_encEvent, ih]

/-- A socket that closes between two events. -/
theorem sessionOf_closed (floats : Wire.Floats D F) (describe : Cbor.Value D → Text)
    (c : Framing.Ciborium (Cbor.Value D)) {events : List (Event F)}
    (hfits : ∀ event ∈ events, (eventFrame floats event).Fits c) {src : ByteStream.Source}
    (hbytes : src.bytes = (events.map (eventFrame floats)).flatMap (Framing.Frame.bytes c)) :
    sessionOf floats describe c src = ⟨events, .closed⟩ := by
  have hframes : ∀ frame ∈ events.map (eventFrame floats), frame.Fits c := by
    intro frame hframe
    obtain ⟨event, hevent, rfl⟩ := List.mem_map.mp hframe
    exact hfits event hevent
  rw [sessionOf, Framing.readFrames_whole c hframes hbytes]
  exact readEvents_eventFrames floats describe events _

/-- A socket that closes inside an event. -/
theorem sessionOf_torn (floats : Wire.Floats D F) (describe : Cbor.Value D → Text)
    (c : Framing.Ciborium (Cbor.Value D)) {events : List (Event F)} {last : Event F} {n : Nat}
    (hfits : ∀ event ∈ events, (eventFrame floats event).Fits c)
    (hlast : (eventFrame floats last).Fits c) (hpos : 0 < n)
    (hlt : n < ((eventFrame floats last).bytes c).length) {src : ByteStream.Source}
    (hbytes : src.bytes = (events.map (eventFrame floats)).flatMap (Framing.Frame.bytes c) ++
      ((eventFrame floats last).bytes c).take n) :
    sessionOf floats describe c src =
      ⟨events, .failed ("session socket: ".toList ++ Framing.cutText n)⟩ := by
  have hframes : ∀ frame ∈ events.map (eventFrame floats), frame.Fits c := by
    intro frame hframe
    obtain ⟨event, hevent, rfl⟩ := List.mem_map.mp hframe
    exact hfits event hevent
  rw [sessionOf, Framing.readFrames_torn c hframes hlast hpos hlt hbytes]
  exact readEvents_eventFrames floats describe events _

/-! ### What a session says -/

/-- The event ends the turn. -/
def ends : Event F → Bool
  | .done _ _ _ | .error _ => true
  | _ => false

def tokenOf : Event F → Text
  | .token tok _ => tok
  | _ => []

def callsIn : Event F → List ToolCall
  | .toolCall call => [call]
  | .toolCalls calls => calls
  | _ => []

/-- The text of a turn. -/
def textOf (events : List (Event F)) : Text := events.flatMap tokenOf

/-- Its tool calls, in order. -/
def callsOf (events : List (Event F)) : List ToolCall := events.flatMap callsIn

/-- Some tool call came, or a list of them, be it empty. -/
def callsTools : Event F → Bool
  | .toolCall _ | .toolCalls _ => true
  | _ => false

/-- Events none of which ends the turn. -/
structure Talk (F : Type) where
  events : List (Event F)
  quiet : ∀ event ∈ events, ends event = false

/-- The session ends without a word. -/
def Talk.dies (talk : Talk F) (ending : Ending Text) : Session F := ⟨talk.events, ending⟩

/-- A whole turn, with whatever comes behind it. -/
structure Turn (F : Type) extends Talk F where
  isDone : Bool
  usage : Usage
  finish : Option Text
  behind : Session F

def Turn.session (turn : Turn F) : Session F :=
  ⟨turn.events ++ .done turn.isDone turn.usage turn.finish :: turn.behind.events,
    turn.behind.ending⟩

/-! ### JSON -/

/-- `json!` of an object. -/
def object (members : List (String × Json.Value D)) : Json.Value D :=
  .obj (Json.collectMembers (members.map fun member => (member.1.toList, member.2)))

def string (s : String) : Json.Value D := .str s.toList

def number (n : UInt64) : Json.Value D := .num (.posInt n)

def errorBody (kind message : Text) : Json.Value D :=
  object [("error", object [("type", .str kind), ("message", .str message)])]

def anthropicError (kind message : Text) : Json.Value D :=
  object [("type", string "error"),
    ("error", object [("type", .str kind), ("message", .str message)])]

/-- `prompt_tokens + completion_tokens`. -/
def totalTokens (usage : Usage) : UInt64 := usage.promptTokens + usage.completionTokens

/-! ### What goes out -/

/-- What a route has done: what went out, and whether it failed. A route that
    fails writes no more. -/
structure Outcome (ω : Type) where
  sent : List ω
  result : Except Text Unit

/-- A piece of a stream: the head of the reply, an event, a comment. -/
inductive Sent (E : Type) where
  | head
  | event (event : E)
  | comment (event detail : Text)
deriving DecidableEq

def Sent.asEvent {E : Type} : Sent E → Option E
  | .event e => some e
  | _ => none

/-- The events of a stream. -/
def eventsOf {E : Type} (sent : List (Sent E)) : List E := sent.filterMap Sent.asEvent

@[simp] theorem eventsOf_nil {E : Type} : eventsOf ([] : List (Sent E)) = [] := rfl

@[simp] theorem eventsOf_append {E : Type} (l r : List (Sent E)) :
    eventsOf (l ++ r) = eventsOf l ++ eventsOf r := List.filterMap_append

@[simp] theorem eventsOf_head {E : Type} (l : List (Sent E)) :
    eventsOf (.head :: l) = eventsOf l := rfl

@[simp] theorem eventsOf_event {E : Type} (event : E) (l : List (Sent E)) :
    eventsOf (.event event :: l) = event :: eventsOf l := rfl

@[simp] theorem eventsOf_comment {E : Type} (event detail : Text) (l : List (Sent E)) :
    eventsOf (.comment event detail :: l) = eventsOf l := rfl

/-- The body of an answer in one piece. -/
inductive Body (B : Type) where
  | ok (body : B)
  | openAi (kind message : Text)
  | anthropic (kind message : Text)

/-- What a route that answers in one piece does: `Cancel` to the daemon, or
    `respond`. -/
inductive Said (B : Type) where
  | cancel
  | respond (status : Nat) (body : Body B)

def Body.json {B : Type} (ok : B → Json.Value D) : Body B → Json.Value D
  | .ok body => ok body
  | .openAi kind message => errorBody kind message
  | .anthropic kind message => anthropicError kind message

/-- The status an error of the session is answered with. -/
def statusOf (code : Text) : Nat :=
  if code = "policy-denied".toList then 403
  else if code = "rate-limited".toList then 429
  else 400

/-! ### Waiting for the end -/

/-- The state of a loop that writes nothing until it is through. -/
structure Waiting (S : Type) where
  acc : S
  abandoned : Bool
  reads : Nat

/-- Before each read: if the client has hung up, tell the daemon once.
    `hungUp` is what `peer_hung_up` says each time. -/
def Waiting.enter {S B : Type} (hungUp : Nat → Bool) (s : Waiting S) :
    List (Said B) × Waiting S :=
  if s.abandoned = false ∧ hungUp s.reads = true then
    ([.cancel], ⟨s.acc, true, s.reads + 1⟩)
  else ([], ⟨s.acc, s.abandoned, s.reads + 1⟩)

/-- A client that stays is never found gone. -/
def staying (_ : Nat) : Bool := false

@[simp] theorem enter_staying {S B : Type} (s : Waiting S) :
    (s.enter staying : List (Said B) × Waiting S) = ([], ⟨s.acc, s.abandoned, s.reads + 1⟩) := by
  simp [Waiting.enter, staying]

/-- The loop goes past an event and has then gathered it too. -/
def Gathers {S B ρ : Type} (loop : Loop (Waiting S) (Event F) (Said B) ρ Text)
    (gather : List (Event F) → S) : Prop :=
  ∀ (events : List (Event F)) (event : Event F) (s : Waiting S), ends event = false →
    s.acc = gather events → ∃ s', loop.step s event = ([], .go s') ∧
      s'.acc = gather (events ++ [event]) ∧ s'.abandoned = s.abandoned

/-- While its client stays, a loop that gathers says nothing until the turn
    ends. -/
theorem Gathers.goes {S B ρ : Type} {loop : Loop (Waiting S) (Event F) (Said B) ρ Text}
    {gather : List (Event F) → S} (hgathers : Gathers loop gather)
    (henter : loop.enter = Waiting.enter staying) {past : List (Event F)} {s : Waiting S}
    (hacc : s.acc = gather past) (hstays : s.abandoned = false) {events : List (Event F)}
    (h : ∀ event ∈ events, ends event = false) :
    ∃ s', loop.goes s events = some ([], s') ∧ s'.acc = gather (past ++ events) ∧
      s'.abandoned = false := by
  induction events generalizing past s with
  | nil => exact ⟨s, rfl, by rw [hacc, List.append_nil], hstays⟩
  | cons event events ih =>
    obtain ⟨s', hstep, hacc', hsame⟩ := hgathers past event ⟨s.acc, s.abandoned, s.reads + 1⟩
      (h event List.mem_cons_self) hacc
    obtain ⟨s'', hgoes, hacc'', hstill⟩ := ih hacc' (hsame.trans hstays)
      fun other hother => h other (List.mem_cons_of_mem event hother)
    refine ⟨s'', ?_, ?_, hstill⟩
    · simp only [Loop.goes, henter, enter_staying, hstep, hgoes, Option.map_some, List.append_nil]
    · rw [hacc'', List.append_assoc, List.singleton_append]

/-- So a run comes down to what follows the talk. -/
theorem Gathers.run_talk {S B ρ : Type} {loop : Loop (Waiting S) (Event F) (Said B) ρ Text}
    {gather : List (Event F) → S} (hgathers : Gathers loop gather)
    (henter : loop.enter = Waiting.enter staying) {s : Waiting S} (hacc : s.acc = gather [])
    (hstays : s.abandoned = false) (talk : Talk F) (rest : List (Event F))
    (ending : Ending Text) :
    ∃ s', loop.run s (talk.events ++ rest) ending = loop.run s' rest ending ∧
      s'.acc = gather talk.events ∧ s'.abandoned = false := by
  obtain ⟨s', hgoes, hacc', hstill⟩ := hgathers.goes henter hacc hstays talk.quiet
  refine ⟨s', ?_, hacc', hstill⟩
  rw [Loop.run_append hgoes]
  rfl

end AiDaemon.Shim
