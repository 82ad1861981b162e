import AiDaemon.JsonCut
import AiDaemon.ShimBodies
import AiDaemon.Turn
import Mathlib.Algebra.Order.BigOperators.Group.List

/-!
# The text of a tool call

A tool call goes into the conversation as JSON that `format!` puts together, by the
worker that received it and by the shim when a client sends it back.  The id and the
name are put between quotes as they are.  The text is read as the call where both can
stand in a string as they are, and only there (`recorded_iff`): what is read of a text
takes its place there, and with a quote or a backslash in one of them there is no
place left for the call.
-/

namespace AiDaemon.RecordedCalls

open Json

variable {F : Type} {floats : Floats F} {depth : Nat}

/-! ### The text of a call -/

/-- The two `format!`s. -/
def callText (id name args : Text) : Text :=
  "\x7b\"tool_call\":\x7b\"id\":\"".toList ++ id ++ "\",\"name\":\"".toList ++ name ++
    "\",\"arguments\":".toList ++ args ++ "\x7d\x7d".toList

theorem content_toolCallMessage (call : Proto.ToolCall) :
    (Turn.toolCallMessage call).content = callText call.id call.name call.arguments := rfl

theorem render_toolCall (id name : Text) (input : Value F) :
    (Shim.Piece.toolCall id name input).render floats =
      callText id name (Json.write floats input) := rfl

/-- The call as JSON, its keys in order. -/
def recorded (id name : Text) (args : Value F) : Value F :=
  .obj [("tool_call".toList,
    .obj [("arguments".toList, args), ("id".toList, .str id), ("name".toList, .str name)])]

/-- The text is read as a value with so many levels, and nothing stands behind. -/
def ReadsWithin (floats : Floats F) (depth : Nat) (text : Text) : Prop :=
  ∃ v rest, Gives floats depth text (v, rest) ∧ skipWs rest = []

/-- A member, and the comma behind it. -/
def field (key s behind : Text) : Text :=
  '"' :: (key ++ ['"']) ++ ':' :: '"' :: (s ++ '"' :: ',' :: behind)

/-- The last member, and the two braces. -/
def ending (args : Text) : Text :=
  '"' :: ("arguments".toList ++ ['"']) ++ ':' :: (args ++ ['\x7d', '\x7d'])

theorem callText_eq (id name args : Text) :
    callText id name args = '\x7b' :: '"' :: ("tool_call".toList ++ ['"']) ++ ':' :: '\x7b' ::
      field "id".toList id (field "name".toList name (ending args)) := by
  have hopen : "\x7b\"tool_call\":\x7b\"id\":\"".toList = '\x7b' :: '"' ::
      ("tool_call".toList ++ '"' :: ':' :: '\x7b' :: '"' :: ("id".toList ++ ['"', ':', '"'])) := by
    decide
  have hname : "\",\"name\":\"".toList =
      '"' :: ',' :: '"' :: ("name".toList ++ ['"', ':', '"']) := by
    decide
  have hargs : "\",\"arguments\":".toList =
      '"' :: ',' :: '"' :: ("arguments".toList ++ ['"', ':']) := by
    decide
  have hclose : "\x7d\x7d".toList = ['\x7d', '\x7d'] := by decide
  unfold callText field ending
  rw [hopen, hname, hargs, hclose]
  generalize "tool_call".toList = tool, "id".toList = idKey, "name".toList = nameKey,
    "arguments".toList = argsKey
  simp only [List.append_assoc, List.cons_append, List.nil_append]

theorem length_field (key s behind : Text) :
    (field key s behind).length = key.length + s.length + 6 + behind.length := by
  simp only [field, List.length_append, List.length_cons, List.length_nil]
  omega

theorem field_append (key s behind tail : Text) :
    field key s (behind ++ tail) = field key s behind ++ tail := by
  simp [field]

/-! ### Strings that stand as they are -/

/-- A string that takes no more than it says was written as it is. -/
theorem splices_of_length {s behind more : Text}
    (h : readString none (s ++ behind) = some (s, more))
    (hlength : behind.length ≤ more.length + 1) : Splices s ∧ behind = '"' :: more := by
  obtain ⟨body, heq, -, hbody, -⟩ := readString_body h
  have hlengths := congrArg List.length heq
  simp only [List.length_append, List.length_cons] at hlengths
  rcases hbody with hless | ⟨rfl, hsplices⟩
  · omega
  · exact ⟨hsplices, List.append_cancel_left heq⟩

/-- What is read of a field at the front: a string behind its key. -/
theorem givesMembers_field {key body : Text} (hkey : Splices key)
    {r : List (Text × Value F) × Text} :
    GivesMembers floats depth ('"' :: (key ++ ['"']) ++ ':' :: '"' :: body) r ↔
      ∃ s more, readString none body = some (s, more) ∧
        ((∃ others members rest, skipWs more = ',' :: others ∧
            GivesMembers floats depth others (members, rest) ∧
            r = ((key, .str s) :: members, rest)) ∨
          ∃ rest, skipWs more = '\x7d' :: rest ∧ r = ([(key, .str s)], rest)) := by
  have hread : readString none (key ++ ['"'] ++ ':' :: '"' :: body) =
      some (key, ':' :: '"' :: body) :=
    readsString_plain hkey _
  constructor
  · intro h
    obtain ⟨body', key', more, value, v, behind, hquote, hkey', hcolon, hv, hrest⟩ :=
      givesMembers_iff.mp h
    rw [List.cons_append, skipWs_cons (by decide)] at hquote
    cases hquote
    rw [hread] at hkey'
    cases hkey'
    rw [skipWs_cons (by decide)] at hcolon
    cases hcolon
    rw [gives_scalar (by decide) (by decide) (by decide), readScalar] at hv
    obtain ⟨⟨s, more⟩, hstring, heq⟩ := Option.map_eq_some_iff.mp hv
    cases heq
    exact ⟨s, behind, hstring, hrest⟩
  · rintro ⟨s, more, hstring, hrest⟩
    refine givesMembers_iff.mpr ⟨_, key, _, _, .str s, more, skipWs_cons (by decide) _, hread,
      skipWs_cons (by decide) _, ?_, hrest⟩
    rw [gives_scalar (by decide) (by decide) (by decide), readScalar, hstring]
    rfl

/-! ### The last member -/

variable {args ws : Text} {a : Value F}

/-- In front of two braces the arguments are read as they are alone. -/
theorem gives_braces (hargs : Gives floats recursionLimit args (a, ws)) (hws : skipWs ws = []) :
    Gives floats depth (args ++ ['\x7d', '\x7d']) (a, ws ++ ['\x7d', '\x7d']) ↔
      Gives floats depth args (a, ws) := by
  refine gives_append_iff hargs (delimited_ws (isBlank_of_skipWs hws) ?_)
  exact delimited_cons (by decide) _

theorem readString_ending (args : Text) :
    readString none ("arguments".toList ++ ['"'] ++ ':' :: (args ++ ['\x7d', '\x7d'])) =
      some ("arguments".toList, ':' :: (args ++ ['\x7d', '\x7d'])) :=
  readsString_plain (show Splices "arguments".toList by decide) _

theorem givesMembers_ending {r : List (Text × Value F) × Text}
    (hargs : Gives floats recursionLimit args (a, ws)) (hws : skipWs ws = []) :
    GivesMembers floats depth (ending args) r ↔
      Gives floats depth args (a, ws) ∧ r = ([("arguments".toList, a)], ['\x7d']) := by
  have hclose : skipWs (ws ++ ['\x7d', '\x7d']) = '\x7d' :: ['\x7d'] :=
    skipWs_blank_cons (isBlank_of_skipWs hws) (by decide) _
  constructor
  · intro h
    obtain ⟨body, key, more, value, v, behind, hquote, hkey', hcolon, hv, hrest⟩ :=
      givesMembers_iff.mp h
    rw [ending, List.cons_append, skipWs_cons (by decide)] at hquote
    cases hquote
    rw [readString_ending] at hkey'
    cases hkey'
    rw [skipWs_cons (by decide)] at hcolon
    cases hcolon
    cases hv.same ((gives_braces hargs hws).mpr hargs)
    rw [hclose] at hrest
    rcases hrest with ⟨others, members, rest, hcomma, -⟩ | ⟨rest, heq, rfl⟩
    · cases hcomma
    · cases heq
      exact ⟨(gives_braces hargs hws).mp hv, rfl⟩
  · rintro ⟨h, rfl⟩
    exact givesMembers_iff.mpr ⟨_, _, _, _, a, _, skipWs_cons (by decide) _, readString_ending args,
      skipWs_cons (by decide) _, (gives_braces hargs hws).mpr h, Or.inr ⟨_, hclose, rfl⟩⟩

theorem ends_ending (hargs : Gives floats recursionLimit args (a, ws)) (hws : skipWs ws = []) :
    Ends floats (ending args) "arguments".toList a where
  quote := rfl
  members := fun depth r h => ((givesMembers_ending hargs hws).mp h).2
  items := by
    intro depth r h
    obtain ⟨v, more, hv, hrest⟩ := givesItems_iff.mp h
    rw [ending, List.cons_append, gives_scalar (by decide) (by decide) (by decide), readScalar,
      readString_ending] at hv
    cases hv
    rw [skipWs_cons (by decide)] at hrest
    rcases hrest with ⟨items, vs, rest, hcomma, -⟩ | ⟨rest, hclose, -⟩
    · cases hcomma
    · cases hclose

/-! ### What is written as it is, is read -/

theorem givesMembers_splices {key s behind rest : Text} {members : List (Text × Value F)}
    (hkey : Splices key) (hs : Splices s) (h : GivesMembers floats depth behind (members, rest)) :
    GivesMembers floats depth (field key s behind) ((key, .str s) :: members, rest) := by
  refine (givesMembers_field hkey).mpr ⟨s, ',' :: behind, ?_, ?_⟩
  · have hread := readsString_plain hs (',' :: behind)
    rwa [List.append_assoc] at hread
  · exact Or.inl ⟨behind, members, rest, skipWs_cons (by decide) _, h, rfl⟩

/-- The members of the inner object are the call's. -/
theorem fromStr_callText {id name : Text} {members : List (Text × Value F)}
    (h : GivesMembers floats (recursionLimit - 2)
      (field "id".toList id (field "name".toList name (ending args))) (members, ['\x7d'])) :
    fromStr floats (callText id name args) =
      some (.obj [("tool_call".toList, .obj (collectMembers members))]) := by
  have hobject : Gives floats (recursionLimit - 1)
      ('\x7b' :: field "id".toList id (field "name".toList name (ending args))) _ :=
    gives_obj.mpr ⟨by decide, Or.inr ⟨_, _, h, rfl⟩⟩
  have houter : GivesMembers floats (recursionLimit - 1)
      ('"' :: ("tool_call".toList ++ ['"']) ++ ':' :: '\x7b' ::
        field "id".toList id (field "name".toList name (ending args))) _ :=
    givesMembers_iff.mpr ⟨_, _, _, _, _, _, skipWs_cons (by decide) _,
      readsString_plain (show Splices "tool_call".toList by decide) _, skipWs_cons (by decide) _,
      hobject, Or.inr ⟨[], skipWs_cons (by decide) _, rfl⟩⟩
  rw [fromStr_eq_some, callText_eq]
  exact ⟨[], gives_obj.mpr ⟨by decide, Or.inr ⟨_, _, houter, rfl⟩⟩, rfl⟩

section Splicing

variable {id forged name : Text} (hid : Splices id) (hforged : Splices forged)
  (hname : Splices name) (hargs : Gives floats (recursionLimit - 2) args (a, ws))
  (hws : skipWs ws = [])
include hname hargs hws

theorem givesMembers_name : GivesMembers floats (recursionLimit - 2)
    (field "name".toList name (ending args))
    ([("name".toList, .str name), ("arguments".toList, a)], ['\x7d']) := by
  have hlimit := hargs.mono (show recursionLimit - 2 ≤ recursionLimit by decide)
  exact givesMembers_splices (show Splices "name".toList by decide) hname
    ((givesMembers_ending hlimit hws).mpr ⟨hargs, rfl⟩)

include hid

theorem recorded_of_splices :
    fromStr floats (callText id name args) = some (recorded id name a) :=
  fromStr_callText (givesMembers_splices (show Splices "id".toList by decide) hid
    (givesMembers_name hname hargs hws))

include hforged

/-- An id can bring the id that is read. -/
theorem recorded_of_forged :
    fromStr floats (callText (id ++ "\",\"id\":\"".toList ++ forged) name args) =
      some (recorded forged name a) := by
  have hkey : Splices "id".toList := by decide
  have hmembers := givesMembers_splices hkey hid
    (givesMembers_splices hkey hforged (givesMembers_name hname hargs hws))
  have hsplit : field "id".toList (id ++ "\",\"id\":\"".toList ++ forged)
      (field "name".toList name (ending args)) = field "id".toList id
        (field "id".toList forged (field "name".toList name (ending args))) := by
    have hmiddle : "\",\"id\":\"".toList =
        '"' :: ',' :: '"' :: ("id".toList ++ ['"', ':', '"']) := by
      decide
    rw [hmiddle]
    generalize "id".toList = key
    simp [field]
  rw [← hsplit] at hmembers
  exact fromStr_callText hmembers

end Splicing

/-! ### What is read has room -/

theorem membersCost_cons (member : Text × Value F) (members : List (Text × Value F)) :
    membersCost (member :: members) =
      member.1.length + member.2.cost + 4 + membersCost members := by
  simp [membersCost]

/-- Members that are among others take no more than they do. -/
theorem membersCost_le {members need : List (Text × Value F)} (hkeys : (need.map Prod.fst).Nodup)
    (h : ∀ member ∈ need, member ∈ members) : membersCost need ≤ membersCost members := by
  obtain ⟨l, hperm, hsub⟩ := List.subperm_of_subset hkeys.of_map h
  have hsame := (hperm.map fun member => member.1.length + member.2.cost + 4).sum_eq
  rw [membersCost, ← hsame]
  exact (hsub.map _).sum_le_sum fun _ _ => Nat.zero_le _

/-- The members have these, as the last of their keys. -/
def Has (need members : List (Text × Value F)) : Prop :=
  ∀ member ∈ need, lookup member.1 members.reverse = some member.2

theorem lookup_reverse_cons (key name : Text) (v : Value F) (members : List (Text × Value F)) :
    lookup key ((name, v) :: members).reverse =
      (lookup key members.reverse).or (if name = key then some v else none) := by
  rw [List.reverse_cons, lookup_append, lookup_cons]
  rfl

/-- The last member is none of them, so they are in front of it. -/
theorem Has.before {need before : List (Text × Value F)} {key : Text} {a : Value F}
    (h : Has need (before ++ [(key, a)])) (hkey : key ∉ need.map Prod.fst) :
    ∀ member ∈ need, member ∈ before := by
  intro member hmember
  have hmem := mem_of_lookup (h member hmember)
  rw [List.mem_reverse] at hmem
  rcases List.mem_append.mp hmem with hbefore | hlast
  · exact hbefore
  · cases List.mem_singleton.mp hlast
    exact absurd (List.mem_map_of_mem hmember) hkey

theorem Has.head {need members : List (Text × Value F)} {member : Text × Value F}
    (h : Has (member :: need) members) : lookup member.1 members.reverse = some member.2 :=
  h member List.mem_cons_self

/-- What is needed besides a first member is behind it. -/
theorem Has.behind {need members : List (Text × Value F)} {key : Text} {v : Value F}
    (h : Has need ((key, v) :: members)) (hkey : key ∉ need.map Prod.fst) : Has need members := by
  intro member hmember
  have hlookup := h member hmember
  have hne : key ≠ member.1 := by
    rintro rfl
    exact hkey (List.mem_map_of_mem hmember)
  rwa [lookup_reverse_cons, if_neg hne, Option.or_none] at hlookup

/-- **A field at the front** that is needed, and behind it as much as is needed besides: it
    was written as it is. -/
theorem field_splices {tail key last s front : Text} {members need : List (Text × Value F)}
    (hends : Ends floats tail last a) (hkey : Splices key) (hlast : last ≠ key)
    (hcut : Cut (field key s front)) (hless : 1 < tail.length)
    (h : GivesMembers floats depth (field key s front ++ tail) (members, ['\x7d']))
    (hhas : Has ((key, .str s) :: need) members)
    (hkeys : (((key, Value.str s) :: need).map Prod.fst).Nodup) (hnew : last ∉ need.map Prod.fst)
    (hfull : membersCost need = front.length) :
    Splices s ∧ Cut front ∧ ∃ members',
      GivesMembers floats depth (front ++ tail) (members', ['\x7d']) ∧ Has need members' := by
  rcases cut_members hends h hcut hless with ⟨-, before, rfl, hle⟩ | ⟨hnil, -⟩
  swap
  · cases hnil
  rw [← field_append] at h
  obtain ⟨s', more, hread, ⟨others, members', rest, hcomma, hothers, heq⟩ | ⟨rest, -, heq⟩⟩ :=
    (givesMembers_field hkey).mp h
  swap
  · -- the last member would be the field
    obtain ⟨hmembers, -⟩ := Prod.ext_iff.mp heq
    have hsame : (last, a) = (key, .str s') := by
      have hlasts := congrArg List.getLast? hmembers
      simpa using hlasts
    exact absurd (congrArg Prod.fst hsame) hlast
  obtain ⟨hmembers, rfl⟩ := Prod.ext_iff.mp heq
  cases before with
  | nil =>
    exact absurd (congrArg Prod.fst (List.head_eq_of_cons_eq hmembers)) hlast
  | cons first before =>
    obtain ⟨rfl, rfl⟩ := List.cons_eq_cons.mp hmembers
    have hfresh : key ∉ need.map Prod.fst := (List.nodup_cons.mp hkeys).1
    have hbehind : Has need (before ++ [(last, a)]) :=
      Has.behind (fun member hmember => hhas member (List.mem_cons_of_mem _ hmember)) hfresh
    have hfirst := hhas.head
    simp only [List.cons_append, lookup_reverse_cons, if_true] at hfirst
    rw [membersCost_cons, length_field] at hle
    simp only [Value.cost] at hle
    cases hk : lookup key (before ++ [(last, a)]).reverse with
    | some v =>
      -- the field is needed again, and there is no room for it
      exfalso
      rw [hk, Option.some_or, Option.some.injEq] at hfirst
      subst hfirst
      have hagain : Has ((key, .str s) :: need) (before ++ [(last, a)]) :=
        List.forall_mem_cons.mpr ⟨hk, hbehind⟩
      have hcost := membersCost_le hkeys (hagain.before (by simp [hlast, hnew]))
      rw [membersCost_cons] at hcost
      simp only [Value.cost] at hcost
      omega
    | none =>
      rw [hk, Option.none_or, Option.some.injEq, Value.str.injEq] at hfirst
      subst hfirst
      have hcost := membersCost_le (List.nodup_cons.mp hkeys).2 (hbehind.before hnew)
      have hvalue : Cut ('"' :: (s' ++ '"' :: ',' :: front)) := by
        refine Cut.behind ?_ (modeAfter_key hkey)
        simpa [field] using hcut
      obtain ⟨front₁, rfl, hcut₁, -⟩ := hvalue.string (List.cons_ne_nil _ _)
        (show skipWs ('"' :: (s' ++ '"' :: ',' :: front) ++ tail) = '"' :: _ from
          skipWs_cons (by decide) _)
        (show readString none (s' ++ '"' :: ',' :: front ++ tail) = _ by simpa using hread)
      obtain ⟨front₂, rfl, hcut₂, hle₂, -⟩ :=
        hcut₁.mark hends.quote hcomma (by decide) (by decide)
      rcases cut_members hends hothers hcut₂ hless with ⟨-, before', hsame, hle'⟩ | ⟨hnil, -⟩
      swap
      · cases hnil
      obtain rfl := List.append_cancel_right hsame
      obtain ⟨hsplices, hmore⟩ := splices_of_length hread (by
        simp only [List.length_cons, List.length_append]
        omega)
      rw [← (List.cons_eq_cons.mp hmore).2, skipWs_cons (by decide)] at hcomma
      obtain rfl := List.append_cancel_right (List.cons_eq_cons.mp hcomma).2
      exact ⟨hsplices, hcut₂, _, hothers, hbehind⟩

/-! ### What is read as the call -/

/-- What stands in front of the arguments, in the inner object. -/
def fields (id name : Text) : Text := field "id".toList id (field "name".toList name [])

/-- And in the outer. -/
def opening (id name : Text) : Text :=
  '"' :: ("tool_call".toList ++ ['"']) ++ ':' :: '\x7b' :: fields id name

theorem callText_opening (id name args : Text) :
    callText id name args = '\x7b' :: (opening id name ++ ending args) := by
  rw [callText_eq, opening, fields, ← List.nil_append (ending args), field_append, field_append]
  simp only [List.append_assoc, List.cons_append, List.nil_append]

theorem escaped_last {text : Text} {mode : Mode} {c : Char}
    (h : modeAfter mode (text ++ [c]) = some .escaped) : c = '\\' := by
  rw [modeAfter_append] at h
  obtain ⟨before, -, hlast⟩ := Option.bind_eq_some_iff.mp h
  by_contra hslash
  cases before with
  | escaped => cases hlast
  | outside | inside =>
    by_cases hquote : c = '"'
    · subst hquote
      cases hlast
    · simp [modeAfter, Transition.runs, Mode.next, hquote, hslash] at hlast

/-- A text that is read to its end ends outside of strings. -/
theorem outside_of_gives {text rest : Text} {v : Value F} (h : Gives floats depth text (v, rest))
    (hend : skipWs rest = []) : modeAfter .outside text = some .outside := by
  obtain ⟨used, rfl, hmode, -⟩ := h.span
  rw [modeAfter_append, hmode]
  exact (isBlank_quiet (isBlank_of_skipWs hend)).outside

/-- Read from inside of a string, the arguments leave it open. -/
theorem not_inside (hargs : modeAfter .outside args = some .outside) :
    modeAfter .inside (ending args) ≠ some .outside := by
  intro h
  have hkey : modeAfter .inside ('"' :: ("arguments".toList ++ ['"', ':'])) = some .inside := by
    decide
  have hsplit : ending args =
      '"' :: ("arguments".toList ++ ['"', ':']) ++ (args ++ ['\x7d', '\x7d']) := by
    simp [ending]
  rw [hsplit, modeAfter_append, hkey, Option.bind_some, modeAfter_append] at h
  obtain ⟨mode, hmode, hbraces⟩ := Option.bind_eq_some_iff.mp h
  rcases modes_opposite hargs hmode with ⟨-, rfl⟩ | ⟨heq, -⟩
  · cases hbraces
  · cases heq

/-- Behind the comma in front of the arguments no string is open. -/
theorem cut_opening {id name : Text} {v : Value F}
    (hargs : Gives floats recursionLimit args (a, ws)) (hws : skipWs ws = [])
    (h : fromStr floats (callText id name args) = some v) : Cut ('\x7b' :: opening id name) := by
  have hinit : '\x7b' :: opening id name = '\x7b' :: ('"' :: ("tool_call".toList ++ ['"']) ++ ':' ::
      '\x7b' :: (field "id".toList id [] ++
        '"' :: ("name".toList ++ ['"']) ++ ':' :: '"' :: (name ++ ['"']))) ++ [','] := by
    simp [opening, fields, field]
  have hlast : ('\x7b' :: opening id name).getLast? = some ',' := by
    rw [hinit, List.getLast?_concat]
  refine ⟨?_, fun c hc => Option.some.inj (hc.symm.trans hlast)⟩
  obtain ⟨rest, hgives, hend⟩ := fromStr_eq_some.mp h
  have hmode := outside_of_gives hgives hend
  rw [callText_opening, ← List.cons_append, modeAfter_append] at hmode
  obtain ⟨mode, hopening, hending⟩ := Option.bind_eq_some_iff.mp hmode
  cases mode with
  | outside => exact hopening
  | inside => exact absurd hending (not_inside (outside_of_gives hargs hws))
  | escaped =>
    rw [hinit] at hopening
    exact absurd (escaped_last hopening) (by decide)

/-! ### Which calls are read -/

/-- What is left with no quote in it is behind the cut. -/
theorem rest_of_members {front tail rest : Text} {members : List (Text × Value F)}
    (hcut : Cut front) (htail : tail.head? = some '"') (hrest : '"' ∉ rest)
    (h : GivesMembers floats depth (front ++ tail) (members, rest)) :
    rest.length < tail.length := by
  rcases hcut.locate (span_rules.hold.2.2 depth _ members rest h) with hless | ⟨front', rfl, -, -⟩
  · exact hless
  · exact absurd (List.mem_append_right _ (List.mem_of_head? htail)) hrest

/-- What the inner object has to have. -/
def needed (id name : Text) : List (Text × Value F) :=
  [("id".toList, .str id), ("name".toList, .str name)]

theorem has_needed {id name : Text} {members : List (Text × Value F)}
    (h : collectMembers members =
      [("arguments".toList, a), ("id".toList, .str id), ("name".toList, .str name)]) :
    Has (needed id name) members := by
  have hid := lookup_collectMembers "id".toList members
  have hname := lookup_collectMembers "name".toList members
  rw [h] at hid hname
  exact List.forall_mem_cons.mpr ⟨hid.symm, List.forall_mem_singleton.mpr hname.symm⟩

/-- **The inner object** holds the id and the name as they are. -/
theorem fields_splices {id name : Text} {members : List (Text × Value F)}
    (hargs : Gives floats recursionLimit args (a, ws)) (hws : skipWs ws = [])
    (hcut : Cut (fields id name))
    (h : GivesMembers floats depth (fields id name ++ ending args) (members, ['\x7d']))
    (hhas : Has (needed id name) members) :
    Splices id ∧ Splices name ∧ Gives floats depth args (a, ws) := by
  have hends := ends_ending hargs hws
  have hless : 1 < (ending args).length := by
    simp [ending]
  obtain ⟨hid, hcutName, members', hmembers', hname⟩ := field_splices hends (by decide) (by decide)
    hcut hless h hhas (show ["id".toList, "name".toList].Nodup by decide)
    (show "arguments".toList ∉ ["name".toList] by decide) (by
      rw [length_field]
      rfl)
  obtain ⟨hsplices, -, members'', hmembers'', -⟩ := field_splices hends (by decide) (by decide)
    hcutName hless hmembers' hname (List.nodup_singleton _) List.not_mem_nil rfl
  exact ⟨hid, hsplices, ((givesMembers_ending hargs hws).mp hmembers'').1⟩

/-- The outer object has one member, whose value has the fields. -/
theorem outer_members {id name : Text} {outer : List (Text × Value F)}
    (hroom : EndsWithin "arguments".toList a outer (opening id name).length)
    (hcollect : Value.obj (collectMembers outer) = recorded id name a) :
    ∃ inner, outer = [("tool_call".toList, .obj (collectMembers inner))] ∧
      collectMembers inner =
        [("arguments".toList, a), ("id".toList, .str id), ("name".toList, .str name)] := by
  obtain ⟨before, key, inner, rfl, room, ⟨before', rfl, hle'⟩, hle⟩ := hroom
  have hone := Value.obj.inj hcollect
  have hkey : key = "tool_call".toList := by
    have hsome := lookup_isSome (List.mem_reverse.mpr
      (List.mem_append_right before (List.mem_singleton_self (key, Value.obj (collectMembers
        (before' ++ [("arguments".toList, a)]))))))
    rw [← lookup_collectMembers, hone, lookup_cons] at hsome
    by_contra hne
    rw [if_neg fun heq => hne heq.symm] at hsome
    cases hsome
  subst hkey
  have hinner : collectMembers (before' ++ [("arguments".toList, a)]) =
      [("arguments".toList, a), ("id".toList, .str id), ("name".toList, .str name)] := by
    have hlookup := lookup_collectMembers "tool_call".toList
      (before ++ [("tool_call".toList,
        .obj (collectMembers (before' ++ [("arguments".toList, a)])))])
    rw [hone, List.reverse_append] at hlookup
    exact (Value.obj.inj (Option.some.inj hlookup)).symm
  have hkeys : ((needed (F := F) id name).map Prod.fst).Nodup :=
    show ["id".toList, "name".toList].Nodup by decide
  have hcost := membersCost_le hkeys
    ((has_needed hinner).before (show "arguments".toList ∉ ["id".toList, "name".toList] by decide))
  have hneeded : membersCost (needed (F := F) id name) = 18 + id.length + name.length := by
    simp only [needed, membersCost, List.map_cons, List.map_nil, List.sum_cons, List.sum_nil,
      Value.cost, show "id".toList.length = 2 from rfl, show "name".toList.length = 4 from rfl]
    omega
  have hopening : (opening id name).length = 31 + id.length + name.length := by
    simp only [opening, fields, List.length_append, List.length_cons, List.length_nil, length_field,
      show "id".toList.length = 2 from rfl, show "name".toList.length = 4 from rfl,
      show "tool_call".toList.length = 9 from rfl]
    omega
  have htool : "tool_call".toList.length = 9 := rfl
  cases before with
  | nil => exact ⟨_, rfl, hinner⟩
  | cons first before =>
    rw [membersCost_cons] at hle
    omega

/-- **A recorded call** is read as the call, if and only if its id and its name can stand
    between quotes as they are and its arguments are read two levels further down. -/
theorem recorded_iff {id name : Text} (hargs : Gives floats recursionLimit args (a, ws))
    (hws : skipWs ws = []) :
    fromStr floats (callText id name args) = some (recorded id name a) ↔
      Splices id ∧ Splices name ∧ Gives floats (recursionLimit - 2) args (a, ws) := by
  refine ⟨fun h => ?_, fun ⟨hid, hname, hdeep⟩ => recorded_of_splices hid hname hdeep hws⟩
  have hends := ends_ending hargs hws
  have hcut := cut_opening hargs hws h
  obtain ⟨rest, hgives, hend⟩ := fromStr_eq_some.mp h
  rw [callText_opening] at hgives
  obtain ⟨-, ⟨rest', hclose, -⟩ | ⟨outer, rest', houter, heq⟩⟩ := gives_obj.mp hgives
  · cases hclose
  obtain ⟨hcollect, rfl⟩ := Prod.ext_iff.mp heq
  have hcutOuter : Cut (opening id name) :=
    (show Cut (['\x7b'] ++ opening id name) from hcut).behind rfl
  have hquote : '"' ∉ rest := fun hmem => absurd (isBlank_of_skipWs hend _ hmem) (by decide)
  have hless := rest_of_members hcutOuter hends.quote hquote houter
  rcases cut_members hends houter hcutOuter hless with ⟨rfl, -⟩ | ⟨rfl, hroom⟩
  · cases hend
  obtain ⟨inner, rfl, hinner⟩ := outer_members hroom hcollect.symm
  obtain ⟨v, behind, hv, ⟨_, others, _, -, hothers, heq'⟩ | ⟨rest', hbrace, heq'⟩⟩ :=
    GivesMembers.first (readsString_plain (show Splices "tool_call".toList by decide))
      isBlank_nil isBlank_nil houter
  · cases heq'
    exact absurd rfl (givesMembers_ne_nil hothers)
  cases heq'
  obtain ⟨-, ⟨rest', hclose, -⟩ | ⟨members, rest', hmembers, heq'⟩⟩ := gives_obj.mp hv
  · cases hclose
  obtain ⟨hsame, rfl⟩ := Prod.ext_iff.mp heq'
  have hcutInner : Cut (fields id name) := by
    have hsplit : opening id name =
        '"' :: ("tool_call".toList ++ ['"', ':', '\x7b']) ++ fields id name := by
      simp [opening]
    rw [hsplit] at hcutOuter
    exact hcutOuter.behind (by decide)
  have hquote' : '"' ∉ behind := by
    obtain ⟨ws', hws', -, rfl⟩ := skipWs_eq_cons hbrace
    intro hmem
    rcases List.mem_append.mp hmem with hblank | hlast
    · exact absurd (hws' _ hblank) (by decide)
    · exact absurd hlast (show '"' ∉ ['\x7d'] by decide)
  have hless' := rest_of_members hcutInner hends.quote hquote' hmembers
  rcases cut_members hends hmembers hcutInner hless' with ⟨rfl, -⟩ | ⟨rfl, -⟩
  · exact fields_splices hargs hws hcutInner hmembers
      (has_needed ((Value.obj.inj hsame).symm.trans hinner))
  · cases hbrace

end AiDaemon.RecordedCalls
