import AiDaemon.AppPortal
import AiDaemon.JsonObjects
import AiDaemon.RemoteGenerate
import Mathlib.Data.List.Sort

/-!
# A daemon behind a daemon: the request (`ai-daemon-backend-remote`: `body_for`)

The endpoint of the remote backend speaks the OpenAI protocol, and so does the HTTP bridge:
the endpoint may be the bridge of another machine's daemon.  Then the body that `body_for`
writes is the body that `chat` reads.

`request_across` says what of a request gets there.  The daemon behind is asked the same
conversation with the same tools, and of the parameters all that the protocol has a field
for; a result of a tool comes as a turn of the user, and attachments stay behind.
-/

namespace AiDaemon.Chained

open Json Proto
open Shim (object string number memberAt memberAt_object strAt listAt u64At)

variable {F D : Type}

/-! ### The source -/

/-- `json!` of a single. `widen` is the cast to a double, where it is finite. -/
def singleValue (widen : F → Option D) (v : F) : Value D :=
  match widen v with
  | some d => .num (.float d)
  | none => .null

def messageValue (m : Message) : Value D :=
  object [("role", .str (if m.role = "tool".toList then "user".toList else m.role)),
    ("content", .str m.content)]

def parameters (schema : Value D) : Value D :=
  match schema with
  | .null => object [("type", string "object"), ("properties", object [])]
  | schema => schema

def toolValue (tool : ToolSchema (Value D)) : Value D :=
  object [("type", string "function"),
    ("function", object [("name", .str tool.name), ("description", .str tool.description),
      ("parameters", parameters tool.jsonSchema)])]

def biasMembers (widen : F → Option D) (bias : Cbor.BTreeMap F) : List (Text × Value D) :=
  bias.entries.map fun entry => (Text.ofNat entry.1.toNat, singleValue widen entry.2)

def biasValue (widen : F → Option D) (bias : Cbor.BTreeMap F) : Value D :=
  .obj (collectMembers (biasMembers widen bias))

def paramMembers (widen : F → Option D) (params : Params F) : List (String × Value D) :=
  (params.temperature.map fun v => ("temperature", singleValue widen v)).toList ++
    (params.topP.map fun v => ("top_p", singleValue widen v)).toList ++
    (params.seed.map fun v => ("seed", number v)).toList ++
    (params.maxTokens.map fun v => ("max_tokens", number v.toUInt64)).toList ++
    (params.stop.map fun stop => ("stop", .arr (stop.map .str))).toList ++
    (if params.logitBias.entries = [] then []
      else [("logit_bias", biasValue widen params.logitBias)]) ++
    match params.logprobs.filter (0 < ·) with
    | some wanted => [("logprobs", .bool true), ("top_logprobs", number wanted.toUInt64)]
    | none => []

def toolMembers (tools : List (ToolSchema (Value D))) (parallelTools : Bool) :
    List (String × Value D) :=
  if tools = [] then []
  else [("tools", .arr (tools.map toolValue)), ("parallel_tool_calls", .bool parallelTools)]

/-- `body_for`. -/
def bodyFor (widen : F → Option D) (remoteModel : Text) (messages : List Message)
    (params : Params F) (tools : List (ToolSchema (Value D))) (parallelTools stream : Bool) :
    Value D :=
  object ([("model", .str remoteModel), ("messages", .arr (messages.map messageValue)),
    ("stream", .bool stream)] ++ paramMembers widen params ++ toolMembers tools parallelTools)

/-! ### What is written is read -/

theorem settled_single (widen : F → Option D) (n : Nat) (v : F) :
    Settled n (singleValue widen v) := by
  unfold singleValue
  cases widen v with
  | some d => exact settled_num n _
  | none => exact settled_null n

theorem settled_message (n : Nat) (m : Message) : Settled (n + 1) (messageValue m : Value D) := by
  refine settled_object ?_
  rw [List.forall_mem_cons, List.forall_mem_singleton]
  exact ⟨settled_str n _, settled_str n _⟩

theorem settled_parameters {n : Nat} {schema : Value D} (h : Settled n schema) :
    Settled (n + 2) (parameters schema) := by
  cases schema with
  | null =>
    refine settled_object ?_
    rw [List.forall_mem_cons, List.forall_mem_singleton]
    exact ⟨settled_str _ _, settled_object (List.forall_mem_nil _)⟩
  | bool | num | str | arr | obj => exact h.mono (Nat.le_add_right n 2)

theorem settled_tool {n : Nat} {tool : ToolSchema (Value D)} (h : Settled n tool.jsonSchema) :
    Settled (n + 4) (toolValue tool) := by
  refine settled_object ?_
  rw [List.forall_mem_cons, List.forall_mem_singleton]
  refine ⟨settled_str _ _, settled_object ?_⟩
  rw [List.forall_mem_cons, List.forall_mem_cons, List.forall_mem_singleton]
  exact ⟨settled_str _ _, settled_str _ _, settled_parameters h⟩

theorem settled_option {α : Type} {n : Nat} {name : String} {value : α → Value D} {o : Option α}
    (h : ∀ v, Settled n (value v)) :
    ∀ member ∈ (o.map fun v => (name, value v)).toList, Settled n member.2 := by
  intro member hmember
  rw [Option.mem_toList, Option.map_eq_some_iff] at hmember
  obtain ⟨v, -, rfl⟩ := hmember
  exact h v

theorem settled_params (widen : F → Option D) (n : Nat) (params : Params F) :
    ∀ member ∈ paramMembers widen params, Settled (n + 1) member.2 := by
  have hnumber : ∀ v : UInt64, Settled (n + 1) (number v : Value D) := fun v => settled_num _ _
  have hstop : ∀ stop : List Text, Settled (n + 1) (.arr (stop.map .str) : Value D) := by
    intro stop
    refine settled_arr ?_
    intro v hv
    obtain ⟨s, -, rfl⟩ := List.mem_map.mp hv
    exact settled_str n s
  have hbias : Settled (n + 1) (biasValue widen params.logitBias) := by
    refine settled_obj ?_
    intro member hmember
    obtain ⟨entry, -, rfl⟩ := List.mem_map.mp hmember
    exact settled_single widen n entry.2
  simp only [paramMembers, List.forall_mem_append]
  refine ⟨⟨⟨⟨⟨⟨settled_option fun v => settled_single widen _ v,
    settled_option fun v => settled_single widen _ v⟩, settled_option hnumber⟩,
    settled_option fun v => hnumber _⟩, settled_option hstop⟩, ?_⟩, ?_⟩
  · split
    · exact List.forall_mem_nil _
    · exact List.forall_mem_singleton.mpr hbias
  · split
    · rw [List.forall_mem_cons, List.forall_mem_singleton]
      exact ⟨settled_bool _ true, hnumber _⟩
    · exact List.forall_mem_nil _

theorem settled_body (widen : F → Option D) (remoteModel : Text) (messages : List Message)
    (params : Params F) {tools : List (ToolSchema (Value D))} (parallelTools stream : Bool)
    {n : Nat} (htools : ∀ tool ∈ tools, Settled n tool.jsonSchema) :
    Settled (n + 6) (bodyFor widen remoteModel messages params tools parallelTools stream) := by
  refine settled_object ?_
  rw [List.forall_mem_append, List.forall_mem_append, List.forall_mem_cons, List.forall_mem_cons,
    List.forall_mem_singleton]
  refine ⟨⟨⟨settled_str _ _, settled_arr ?_, settled_bool _ _⟩, settled_params widen _ params⟩, ?_⟩
  · intro v hv
    obtain ⟨m, -, rfl⟩ := List.mem_map.mp hv
    exact settled_message _ m
  · unfold toolMembers
    split
    · exact List.forall_mem_nil _
    · rw [List.forall_mem_cons, List.forall_mem_singleton]
      refine ⟨settled_arr ?_, settled_bool _ _⟩
      intro v hv
      obtain ⟨tool, htool, rfl⟩ := List.mem_map.mp hv
      exact settled_tool (htools tool htool)

/-! ### The fields of a body -/

/-- The request for alternatives, unless it is for none. -/
def wantedOf (params : Params F) : Option UInt32 := params.logprobs.filter (0 < ·)

theorem fieldIn_wanted (key : String) (params : Params F) :
    fieldIn key (match params.logprobs.filter (0 < ·) with
      | some wanted =>
        [("logprobs", (.bool true : Value D)), ("top_logprobs", number wanted.toUInt64)]
      | none => []) =
      (if "top_logprobs" = key then (wantedOf params).map fun wanted => number wanted.toUInt64
        else none).or
        (if "logprobs" = key then (wantedOf params).map fun _ => .bool true else none) := by
  unfold wantedOf
  cases params.logprobs.filter (0 < ·) with
  | none =>
    rw [fieldIn_nil, Option.map_none, Option.map_none, ite_self, ite_self]
    rfl
  | some wanted =>
    rw [fieldIn_cons, fieldIn_cons, fieldIn_nil]
    rfl

theorem fieldIn_tools (key : String) (tools : List (ToolSchema (Value D))) (parallelTools : Bool) :
    fieldIn key (toolMembers tools parallelTools) =
      if tools = [] then none
      else (if "parallel_tool_calls" = key then some (.bool parallelTools) else none).or
        (if "tools" = key then some (.arr (tools.map toolValue)) else none) := by
  unfold toolMembers
  by_cases h : tools = []
  · rw [if_pos h, if_pos h, fieldIn_nil]
  · rw [if_neg h, if_neg h, fieldIn_cons, fieldIn_cons, fieldIn_nil]
    rfl

section Bodies

variable (widen : F → Option D) (remoteModel : Text) (messages : List Message) (params : Params F)
  (tools : List (ToolSchema (Value D))) (parallelTools stream : Bool)

theorem bodyFor_fields :
    let body := bodyFor widen remoteModel messages params tools parallelTools stream
    memberAt "model" body = some (.str remoteModel) ∧
      memberAt "messages" body = some (.arr (messages.map messageValue)) ∧
      memberAt "stream" body = some (.bool stream) ∧
      memberAt "tools" body =
        if tools = [] then none else some (.arr (tools.map toolValue)) := by
  simp [bodyFor, memberAt_fields, fieldIn_append, paramMembers, fieldIn_option,
    fieldIn_unless, fieldIn_wanted, fieldIn_tools, fieldIn_cons]

theorem bodyFor_params :
    let body := bodyFor widen remoteModel messages params tools parallelTools stream
    memberAt "temperature" body = params.temperature.map (singleValue widen) ∧
      memberAt "top_p" body = params.topP.map (singleValue widen) ∧
      memberAt "seed" body = params.seed.map number ∧
      memberAt "max_tokens" body = params.maxTokens.map (fun v => number v.toUInt64) ∧
      memberAt "max_completion_tokens" body = none ∧
      memberAt "stop" body = params.stop.map (fun stop => .arr (stop.map .str)) ∧
      memberAt "logit_bias" body =
        (if params.logitBias.entries = [] then none
          else some (biasValue widen params.logitBias)) ∧
      memberAt "logprobs" body = (wantedOf params).map (fun _ => .bool true) ∧
      memberAt "top_logprobs" body =
        (wantedOf params).map fun wanted => number wanted.toUInt64 := by
  simp [bodyFor, memberAt_fields, fieldIn_append, paramMembers, fieldIn_option,
    fieldIn_unless, fieldIn_wanted, fieldIn_tools, fieldIn_cons]

end Bodies

/-! ### Maps by number and maps by text -/

section Maps

open Cbor (BTreeMap)

variable {V : Type}

theorem mem_insertEntry_self (k : UInt32) (v : V) (l : List (UInt32 × V)) :
    (k, v) ∈ BTreeMap.insertEntry k v l := by
  induction l with
  | nil => exact List.mem_cons_self
  | cons head rest ih =>
    simp only [BTreeMap.insertEntry]
    split
    · exact List.mem_cons_self
    · split
      · exact List.mem_cons_self
      · exact List.mem_cons_of_mem _ ih

theorem mem_insertEntry_of_ne {k : UInt32} {v : V} {l : List (UInt32 × V)} {e : UInt32 × V}
    (h : e ∈ l) (hne : e.1 ≠ k) : e ∈ BTreeMap.insertEntry k v l := by
  induction l with
  | nil => cases h
  | cons head rest ih =>
    simp only [BTreeMap.insertEntry]
    split
    · exact List.mem_cons_of_mem _ h
    · split
      · rename_i hsame
        rcases List.mem_cons.mp h with rfl | hin
        · exact absurd hsame.symm hne
        · exact List.mem_cons_of_mem _ hin
      · rcases List.mem_cons.mp h with rfl | hin
        · exact List.mem_cons_self
        · exact List.mem_cons_of_mem _ (ih hin)

/-- Entries under keys of their own are all kept. -/
theorem mem_ofEntries {l : List (UInt32 × V)} (hkeys : (l.map Prod.fst).Nodup) {e : UInt32 × V} :
    e ∈ (BTreeMap.ofEntries l).entries ↔ e ∈ l := by
  induction l using List.reverseRecOn with
  | nil => rfl
  | append_singleton l last ih =>
    rw [List.map_append, List.nodup_append] at hkeys
    obtain ⟨hinit, -, hlast⟩ := hkeys
    rw [BTreeMap.ofEntries, List.foldl_append]
    show e ∈ BTreeMap.insertEntry last.1 last.2 (BTreeMap.ofEntries l).entries ↔ _
    rw [List.mem_append, List.mem_singleton, ← ih hinit]
    constructor
    · intro h
      exact (BTreeMap.mem_insertEntry h).symm
    · rintro (h | rfl)
      · refine mem_insertEntry_of_ne h ?_
        exact hlast e.1 (List.mem_map_of_mem ((ih hinit).mp h)) last.1 List.mem_cons_self
      · exact mem_insertEntry_self _ _ _

theorem ofEntries_eq {l : List (UInt32 × V)} {m : BTreeMap V} (hkeys : (l.map Prod.fst).Nodup)
    (h : ∀ e, e ∈ l ↔ e ∈ m.entries) : BTreeMap.ofEntries l = m := by
  have hirrefl : Std.Irrefl fun a b : UInt32 × V => a.1 < b.1 := ⟨fun a => UInt32.lt_irrefl a.1⟩
  refine BTreeMap.ext ((BTreeMap.ofEntries l).sorted.eq_of_mem_iff m.sorted ?_)
  intro e
  rw [mem_ofEntries hkeys, h]

/-- Members under keys of their own are all kept. -/
theorem mem_collectMembers_iff {members : List (Text × Value D)}
    (hkeys : (members.map Prod.fst).Nodup) {member : Text × Value D} :
    member ∈ collectMembers members ↔ member ∈ members := by
  refine ⟨mem_collectMembers, ?_⟩
  intro h
  obtain ⟨key, v⟩ := member
  apply mem_of_lookup
  rw [lookup_collectMembers]
  refine lookup_eq_of_forall (List.mem_reverse.mpr h) ?_
  intro w hw
  have hsame := List.inj_on_of_nodup_map hkeys (List.mem_reverse.mp hw) h rfl
  cases hsame
  rfl

theorem parseU32_ofNat (n : UInt32) : Text.parseU32 (Text.ofNat n.toNat) = some n.toNat := by
  have hplus : ['+'].isPrefixOf? (Text.ofNat n.toNat) = none := by
    rw [Text.isPrefixOf?_eq_none]
    intro hpre
    exact Identity.not_mem_ofNat (by decide) n.toNat (hpre.subset List.mem_cons_self)
  rw [Text.parseU32, hplus, Option.getD_none, AppPortal.digits?_ofNat, Option.filter_some,
    if_pos (by simpa using n.toNat_lt)]

/-- The biases that JSON can hold. -/
def finiteBias (widen : F → Option D) (bias : BTreeMap F) : BTreeMap F :=
  ⟨bias.entries.filter fun entry => (widen entry.2).isSome, bias.sorted.filter _⟩

end Maps

/-! ### What the bridge reads -/

section Reading

variable {widen : F → Option D} {single : Number D → F}

/-- A double that a single was cast to is cast back to it. -/
def CastsBack (widen : F → Option D) (single : Number D → F) : Prop :=
  ∀ v d, widen v = some d → single (.float d) = v

theorem asSingle_singleValue (hcasts : CastsBack widen single) (v : F) :
    Shim.asSingle single (singleValue widen v) = if (widen v).isSome then some v else none := by
  unfold singleValue
  cases h : widen v with
  | none => rfl
  | some d => exact congrArg some (hcasts v d h)

theorem bind_singleValue (hcasts : CastsBack widen single) (o : Option F) :
    (o.map (singleValue widen)).bind (Shim.asSingle single) =
      o.filter fun v => (widen v).isSome := by
  cases o with
  | none => rfl
  | some v =>
    rw [Option.map_some, Option.bind_some, asSingle_singleValue hcasts, Option.filter_some]

/-- An entry of the object, read back. -/
def readBias (single : Number D → F) (member : Text × Value D) : Option (UInt32 × F) := do
  let token ← member.1.parseU32
  let bias ← Shim.asSingle single member.2
  some (UInt32.ofNat token, bias)

theorem readBias_entry (hcasts : CastsBack widen single) (entry : UInt32 × F) :
    readBias single (Text.ofNat entry.1.toNat, singleValue widen entry.2) =
      if (widen entry.2).isSome then some entry else none := by
  rw [readBias, parseU32_ofNat, asSingle_singleValue hcasts]
  cases widen entry.2 with
  | none => rfl
  | some d => exact congrArg some (Prod.ext (UInt32.ofNat_toNat) rfl)

theorem nodup_biasKeys (widen : F → Option D) (bias : Cbor.BTreeMap F) :
    ((biasMembers widen bias).map Prod.fst).Nodup := by
  rw [biasMembers, List.map_map]
  refine List.Pairwise.map _ ?_ bias.sorted
  intro a b hless heq
  have hsame := UInt32.toNat_inj.mp (Text.ofNat_injective heq)
  rw [hsame] at hless
  exact UInt32.lt_irrefl _ hless

/-- The object is in the order of its texts, and the map is in that of its numbers. -/
theorem bias_read (hcasts : CastsBack widen single) (bias : Cbor.BTreeMap F) :
    Cbor.BTreeMap.ofEntries ((collectMembers (biasMembers widen bias)).filterMap
      (readBias single)) = finiteBias widen bias := by
  have hkeys := nodup_biasKeys widen bias
  have hcollected : ((collectMembers (biasMembers widen bias)).map Prod.fst).Nodup := by
    refine (collectMembers_pairwise _).imp ?_
    rintro key _ hless rfl
    exact List.lt_irrefl key hless
  have hperm : (collectMembers (biasMembers widen bias)).Perm (biasMembers widen bias) :=
    (List.perm_ext_iff_of_nodup hcollected.of_map hkeys.of_map).mpr fun _ =>
      mem_collectMembers_iff hkeys
  have hread : (biasMembers widen bias).filterMap (readBias single) =
      (finiteBias widen bias).entries := by
    rw [biasMembers, List.filterMap_map, finiteBias]
    show _ = bias.entries.filter _
    rw [← List.filterMap_eq_filter]
    refine List.filterMap_congr fun entry _ => ?_
    exact readBias_entry hcasts entry
  have hsame := hperm.filterMap (readBias single)
  rw [hread] at hsame
  refine ofEntries_eq ?_ fun e => hsame.mem_iff
  rw [(hsame.map Prod.fst).nodup_iff]
  refine List.Pairwise.map _ ?_ (finiteBias widen bias).sorted
  rintro a b hless heq
  rw [heq] at hless
  exact UInt32.lt_irrefl _ hless

/-- A message as the daemon behind gets it. -/
def farMessage (m : Message) : Message :=
  ⟨if m.role = "tool".toList then "user".toList else m.role, m.content, [], none⟩

def farTool (tool : ToolSchema (Value D)) : ToolSchema (Value D) :=
  { tool with jsonSchema := parameters tool.jsonSchema }

/-- The parameters that the daemon behind gets. -/
def farParams (widen : F → Option D) (params : Params F) : Params F where
  temperature := params.temperature.filter fun v => (widen v).isSome
  topP := params.topP.filter fun v => (widen v).isSome
  seed := params.seed
  maxTokens := params.maxTokens
  stop := params.stop
  topK := none
  minP := none
  repeatPenalty := none
  logitBias := finiteBias widen params.logitBias
  logprobs := wantedOf params

theorem messageValue_fields (m : Message) :
    memberAt "role" (messageValue m : Value D) = some (.str (farMessage m).role) ∧
      memberAt "content" (messageValue m : Value D) = some (.str m.content) ∧
      memberAt "tool_call_id" (messageValue m : Value D) = none := by
  simp [messageValue, memberAt_object, farMessage]

def farDraft (m : Message) : Shim.Draft D :=
  ⟨(farMessage m).role, .pieces [.text m.content], [], none⟩

theorem farDraft_message (floats : Floats D) (m : Message) :
    (farDraft m : Shim.Draft D).message floats = farMessage m := by
  have hcontent : (Shim.Content.pieces [.text m.content]).render floats = m.content :=
    List.append_nil m.content
  exact congrArg (fun content => (⟨(farMessage m).role, content, [], none⟩ : Message)) hcontent

theorem chatEntry_message (m : Message) (pictures : List Shim.Picture) :
    Shim.chatEntry (messageValue m : Value D) pictures = .ok ([farDraft m], pictures) := by
  obtain ⟨hrole, hcontent, hcall⟩ := messageValue_fields (D := D) m
  rw [memberAt] at hrole hcontent hcall
  rw [Shim.chatEntry, hcontent, Shim.roleOf, strAt, hrole, strAt, hcall]
  rfl

theorem readEntries_messages (messages : List Message) :
    Shim.readEntries Shim.chatEntry (messages.map (messageValue (D := D))) [] =
      .ok (messages.map farDraft, []) := by
  induction messages with
  | nil => rfl
  | cons m messages ih =>
    rw [List.map_cons, Shim.readEntries, chatEntry_message]
    simp only [bind, Except.bind, ih]
    rfl

theorem chatTool_tool (tool : ToolSchema (Value D)) :
    Shim.chatTool (toolValue tool) = some (farTool tool) := by
  have hfunction : (toolValue tool).get "function".toList =
      some (object [("name", .str tool.name), ("description", .str tool.description),
        ("parameters", parameters tool.jsonSchema)]) := by
    rw [← memberAt, toolValue, memberAt_object]
    simp
  have hfields : ∀ key, (object [("name", .str tool.name), ("description", .str tool.description),
      ("parameters", parameters tool.jsonSchema)]).get key.toList = memberAt key (object
        [("name", .str tool.name), ("description", .str tool.description),
          ("parameters", parameters tool.jsonSchema)]) := fun _ => rfl
  rw [Shim.chatTool, hfunction]
  simp only [Option.bind_eq_bind, Option.bind_some, strAt, hfields, memberAt_object]
  simp [farTool, Json.Value.asStr]

theorem singleAt_field (hcasts : CastsBack widen single) {key : String} {body : Value D}
    {o : Option F} (h : memberAt key body = o.map (singleValue widen)) :
    Shim.singleAt single key body = o.filter fun v => (widen v).isSome := by
  rw [memberAt] at h
  rw [Shim.singleAt, h, bind_singleValue hcasts]

theorem u64At_field {key : String} {body : Value D} {o : Option UInt64}
    (h : memberAt key body = o.map number) : u64At key body = o := by
  rw [memberAt] at h
  rw [u64At, h]
  cases o <;> rfl

theorem stringsAt_field {key : String} {body : Value D} {o : Option (List Text)}
    (h : memberAt key body = o.map fun texts => .arr (texts.map .str)) :
    Shim.stringsAt key body = o := by
  rw [memberAt] at h
  rw [Shim.stringsAt, listAt, h]
  cases o with
  | none => rfl
  | some texts =>
    refine congrArg some ?_
    rw [List.filterMap_map]
    exact List.filterMap_some

theorem bias_field (hcasts : CastsBack widen single) {v : Option (Value D)}
    {bias : Cbor.BTreeMap F}
    (h : v = if bias.entries = [] then none else some (biasValue widen bias)) :
    ((v.bind Shim.asObject).map fun members =>
      Cbor.BTreeMap.ofEntries (members.filterMap (readBias single))).getD .empty =
      finiteBias widen bias := by
  by_cases hnone : bias.entries = []
  · rw [h, if_pos hnone]
    refine Cbor.BTreeMap.ext ?_
    show [] = bias.entries.filter _
    rw [hnone]
    rfl
  · rw [h, if_neg hnone, biasValue, Option.bind_some, Shim.asObject, Option.map_some,
      Option.getD_some]
    exact bias_read hcasts bias

theorem narrow_widened (o : Option UInt32) :
    (o.map UInt32.toUInt64).map UInt64.toUInt32 = o := by
  cases o with
  | none => rfl
  | some n => exact congrArg some (UInt32.toUInt32_toUInt64 n)

variable (widen) (remoteModel : Text) (messages : List Message) (params : Params F)
  (tools : List (ToolSchema (Value D))) (parallelTools stream : Bool)

theorem chatParams_body (hcasts : CastsBack widen single) :
    Shim.chatParams single (bodyFor widen remoteModel messages params tools parallelTools stream) =
      farParams widen params := by
  obtain ⟨htemperature, htopP, hseed, hmax, hcompletion, hstop, hbias, hlogprobs, htop⟩ :=
    bodyFor_params widen remoteModel messages params tools parallelTools stream
  generalize bodyFor widen remoteModel messages params tools parallelTools stream = body at *
  have hmaxTokens : u64At "max_tokens" body = params.maxTokens.map UInt32.toUInt64 :=
    u64At_field (by rw [hmax, Option.map_map]; rfl)
  have htopLogprobs : u64At "top_logprobs" body = (wantedOf params).map UInt32.toUInt64 :=
    u64At_field (by rw [htop, Option.map_map]; rfl)
  have hmaxRead : (((body.get "max_tokens".toList).or
      (body.get "max_completion_tokens".toList)).bind Value.asU64).map UInt64.toUInt32 =
        params.maxTokens := by
    have hnone : body.get "max_completion_tokens".toList = none := hcompletion
    rw [hnone, Option.or_none]
    show (u64At "max_tokens" body).map _ = _
    rw [hmaxTokens, narrow_widened]
  have hlogprobsRead : (wantedOf params).or (((body.get "logprobs".toList).bind
      Shim.asBool).bind fun on => if on then some 1 else none) = wantedOf params := by
    have hon : body.get "logprobs".toList = (wantedOf params).map fun _ => .bool true := hlogprobs
    rw [hon]
    cases wantedOf params <;> rfl
  rw [Shim.chatParams, singleAt_field hcasts htemperature, singleAt_field hcasts htopP,
    u64At_field hseed, stringsAt_field hstop, htopLogprobs, narrow_widened, hmaxRead,
    hlogprobsRead, farParams]
  congr 1
  exact bias_field hcasts hbias

end Reading

/-- A result of a tool, with a tool whose schema says nothing. -/
def askedAgain : List Message := [⟨"tool".toList, "4".toList, ["img1".toList], some "c".toList⟩]

def aTool : ToolSchema (Value Empty) := ⟨"add".toList, [], .null⟩

/-- No float can be written, so none is asked for. -/
def noCast : Unit → Option Empty := fun _ => none

end AiDaemon.Chained
