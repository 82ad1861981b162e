import AiDaemon.Dispatch
import Mathlib.Data.List.Count

/-!
# Answers to tool calls (`session.rs`: `answer_tools`)

The results of a request are taken one by one, each off the list of the calls that
wait, and the turn goes on once the list is empty.  So the answers to what a turn has
asked may come in any order and in any number of requests: each is in the history once,
and the last of them resumes the turn (`answers_in_any_order`).

A result that nobody waits for ends the loop with an error, and what was taken before
it stays taken.  A request is refused as a whole only when its first result is already
a wrong one (`refused_results_iff`).
-/

namespace AiDaemon.Dispatch

open Proto Transition Turn

variable {R F J : Type}

/-- The results that a request brings. -/
def resultsOf : Request F J → Option (List ToolResultItem)
  | .toolResult id content => some [⟨id, content⟩]
  | .toolResults results => some results
  | .hello _ | .attach _ _ _ _ | .generate _ _ _ _ _ | .generateMedia _ _ _ _ | .embed _
  | .tokenize _ | .cancel => none

def idsOf (results : List ToolResultItem) : List Text := results.map ToolResultItem.id

/-- The text of the error with which `answer_tools` refuses some results. -/
def Worker.refusal (isEscaped : Char → Bool) (st : Worker F J) (results : List ToolResultItem) :
    Option Text :=
  if st.pendingToolCalls = [] then some noToolCallText
  else
    match takeResults st.pendingToolCalls st.history results with
    | (pending, _, some id) => some (notWaitingText isEscaped pending id)
    | (_, _, none) => none

/-- Nothing that has to do with tool calls has changed. -/
structure Untouched (st next : Worker F J) : Prop where
  pending : next.pendingToolCalls = st.pendingToolCalls
  history : next.history = st.history

/-- With these results taken. -/
def Worker.taking (st : Worker F J) (results : List ToolResultItem) : Worker F J :=
  { st with
    pendingToolCalls := st.pendingToolCalls.diff (idsOf results)
    history := st.history ++ results.map toolMessage }

/-! ### The loop -/

section Loop

variable {pending : List Text} {history : List Message} {results : List ToolResultItem}

/-- Results of which each answers a call of its own are all taken. -/
theorem takeResults_all (h : (idsOf results).Subperm pending) (history : List Message) :
    takeResults pending history results =
      (pending.diff (idsOf results), history ++ results.map toolMessage, none) := by
  induction results generalizing pending history with
  | nil => simp [takeResults, idsOf]
  | cons result results ih =>
    have hmem : result.id ∈ pending := h.subset List.mem_cons_self
    have hrest : (idsOf results).Subperm (pending.erase result.id) := by
      have herased := h.erase result.id
      simpa [idsOf] using herased
    simp only [takeResults, if_pos hmem, ih hrest]
    simp [idsOf]

/-- Of others one is not. -/
theorem takeResults_some (h : ¬ (idsOf results).Subperm pending) (history : List Message) :
    ∃ id, (takeResults pending history results).2.2 = some id := by
  induction results generalizing pending history with
  | nil => exact absurd List.nil_subperm h
  | cons result results ih =>
    by_cases hmem : result.id ∈ pending
    · simp only [takeResults, if_pos hmem]
      apply ih
      intro hrest
      apply h
      have hcons := (List.subperm_cons result.id).mpr hrest
      exact hcons.trans (List.perm_cons_erase hmem).symm.subperm
    · simp [takeResults, if_neg hmem]

/-- Nothing is taken out of the history. -/
theorem takeResults_history (pending : List Text) (history : List Message)
    (results : List ToolResultItem) :
    history.length ≤ (takeResults pending history results).2.1.length := by
  induction results generalizing pending history with
  | nil => exact le_rfl
  | cons result results ih =>
    by_cases hmem : result.id ∈ pending
    · simp only [takeResults, if_pos hmem]
      apply le_trans _ (ih _ _)
      simp
    · simp [takeResults, if_neg hmem]

end Loop

/-! ### A request -/

section Request

variable (isEscaped : Char → Bool) {info : SessionInfo} {st : Worker F J} {env : Env}
  {results : List ToolResultItem} {request : Request F J}

theorem dispatch_results (h : resultsOf request = some results) :
    dispatch isEscaped info st env request = st.answerTools isEscaped results env := by
  cases request with
  | toolResult id content =>
    simp only [resultsOf, Option.some.injEq] at h
    subst h
    rfl
  | toolResults items =>
    simp only [resultsOf, Option.some.injEq] at h
    subst h
    rfl
  | _ => simp [resultsOf] at h

/-- It is refused when nothing waits, or not everything in it is waited for. -/
theorem refusal_isSome_iff : (st.refusal isEscaped results).isSome = true ↔
    st.pendingToolCalls = [] ∨ ¬ (idsOf results).Subperm st.pendingToolCalls := by
  unfold Worker.refusal
  by_cases hnone : st.pendingToolCalls = []
  · simp [hnone]
  · rw [if_neg hnone]
    by_cases hall : (idsOf results).Subperm st.pendingToolCalls
    · simp [takeResults_all hall, hnone, hall]
    · obtain ⟨id, hid⟩ := takeResults_some hall st.history
      split
      · simp [hall]
      · rename_i htake
        rw [htake] at hid
        cases hid

/-- What a refused request leaves: the error, and whatever was taken before it. -/
theorem answerTools_refused {text : Text} (h : st.refusal isEscaped results = some text)
    (env : Env) :
    ∃ pending history, st.answerTools isEscaped results env =
        ({ st with pendingToolCalls := pending, history := history } : Worker F J).send
          env.delivered (errorEvent "protocol".toList text) ∧
      (st.pendingToolCalls = [] → pending = st.pendingToolCalls ∧ history = st.history) ∧
      (st.pendingToolCalls ≠ [] → takeResults st.pendingToolCalls st.history results =
        (pending, history, (takeResults st.pendingToolCalls st.history results).2.2)) := by
  unfold Worker.refusal at h
  unfold Worker.answerTools
  by_cases hnone : st.pendingToolCalls = []
  · rw [if_pos hnone] at h ⊢
    cases h
    exact ⟨_, _, rfl, fun _ => ⟨rfl, rfl⟩, fun hsome => absurd hnone hsome⟩
  · rw [if_neg hnone] at h ⊢
    split at h
    · rename_i pending history id htake
      cases h
      rw [htake]
      exact ⟨pending, history, rfl, fun hsome => absurd hsome hnone, fun _ => rfl⟩
    · cases h

theorem send_untouched {next : Worker F J} (delivered : Bool) (event : Event F) :
    Untouched st (next.send delivered event) ↔ Untouched st next := by
  unfold Worker.send
  split
  · exact ⟨fun h => ⟨h.pending, h.history⟩, fun h => ⟨h.pending, h.history⟩⟩
  · exact Iff.rfl

/-- A refused request has changed nothing exactly when its first result was refused. -/
theorem refused_untouched_iff {text : Text} (h : st.refusal isEscaped results = some text)
    (env : Env) : Untouched st (st.answerTools isEscaped results env) ↔
      st.pendingToolCalls = [] ∨ ∃ result ∈ results.head?, result.id ∉ st.pendingToolCalls := by
  obtain ⟨pending, history, heq, hempty, htake⟩ := answerTools_refused isEscaped h env
  rw [heq, send_untouched]
  by_cases hnone : st.pendingToolCalls = []
  · obtain ⟨rfl, rfl⟩ := hempty hnone
    exact ⟨fun _ => Or.inl hnone, fun _ => ⟨rfl, rfl⟩⟩
  · have hresults := htake hnone
    cases results with
    | nil =>
      -- an empty request is not refused
      have hsome : (st.refusal isEscaped []).isSome = true := by simp [h]
      rcases (refusal_isSome_iff isEscaped).mp hsome with hnone' | hall
      · exact absurd hnone' hnone
      · exact absurd List.nil_subperm hall
    | cons result results =>
      simp only [hnone, List.head?_cons, Option.mem_def, Option.some.injEq, false_or,
        exists_eq_left']
      by_cases hmem : result.id ∈ st.pendingToolCalls
      · -- the first result is in the history
        have hlonger := takeResults_history (st.pendingToolCalls.erase result.id)
          (st.history ++ [toolMessage result]) results
        simp only [takeResults, if_pos hmem] at hresults
        rw [hresults] at hlonger
        refine ⟨fun huntouched => ?_, fun hnot => absurd hmem hnot⟩
        have hsame : history = st.history := huntouched.history
        rw [hsame] at hlonger
        simp at hlonger
      · simp only [takeResults, if_neg hmem, Prod.mk.injEq] at hresults
        obtain ⟨rfl, rfl, -⟩ := hresults
        exact ⟨fun _ => hmem, fun _ => ⟨rfl, rfl⟩⟩

/-- A request that answers calls that wait is taken, and the last one resumes the turn. -/
theorem answerTools_taken (hpending : st.pendingToolCalls ≠ [])
    (hall : (idsOf results).Subperm st.pendingToolCalls) (env : Env) :
    st.answerTools isEscaped results env =
      if (st.taking results).pendingToolCalls = [] then (st.taking results).turn true env
      else st.taking results := by
  simp only [Worker.answerTools, if_neg hpending, takeResults_all hall]
  rfl

theorem turn_untouched (stream : Bool) (env : Env) : Untouched st (st.turn stream env) := by
  unfold Worker.turn
  split
  · exact (send_untouched _ _).mpr ⟨rfl, rfl⟩
  · exact ⟨rfl, rfl⟩

/-- However it goes on, each of its results is taken once. -/
theorem answerTools_recorded (hpending : st.pendingToolCalls ≠ [])
    (hall : (idsOf results).Subperm st.pendingToolCalls) (env : Env) :
    Untouched (st.taking results) (st.answerTools isEscaped results env) := by
  rw [answerTools_taken isEscaped hpending hall]
  split
  · exact turn_untouched true env
  · exact ⟨rfl, rfl⟩

end Request

/-- A refused request changes nothing exactly when nothing was outstanding or its first
    result is already one that nobody waits for. After that a request with the right
    results is taken as if the other had not been. -/
theorem refused_results_iff (isEscaped : Char → Bool) (info : SessionInfo) (st : Worker F J)
    (env : Env) (request : Request F J) (results : List ToolResultItem)
    (hrequest : resultsOf request = some results) :
    (((st.refusal isEscaped results).isSome = true →
        Untouched st (dispatch isEscaped info st env request)) ↔
      st.pendingToolCalls = [] ∨ (idsOf results).Subperm st.pendingToolCalls ∨
        ∃ result ∈ results.head?, result.id ∉ st.pendingToolCalls) ∧
    ((st.refusal isEscaped results).isSome = true →
      Untouched st (dispatch isEscaped info st env request) →
      ∀ (again : Request F J) (corrected : List ToolResultItem) (env' : Env),
        resultsOf again = some corrected → st.pendingToolCalls ≠ [] →
        (idsOf corrected).Subperm st.pendingToolCalls →
        Untouched (st.taking corrected)
          (dispatch isEscaped info (dispatch isEscaped info st env request) env' again)) := by
  rw [dispatch_results isEscaped hrequest]
  constructor
  · constructor
    · intro huntouched
      by_cases hall : (idsOf results).Subperm st.pendingToolCalls
      · exact Or.inr (Or.inl hall)
      · have hrefused := (refusal_isSome_iff isEscaped).mpr (Or.inr hall)
        obtain ⟨text, htext⟩ := Option.isSome_iff_exists.mp hrefused
        rcases (refused_untouched_iff isEscaped htext env).mp (huntouched hrefused) with
          hnone | hfirst
        · exact Or.inl hnone
        · exact Or.inr (Or.inr hfirst)
    · intro hwhen hrefused
      obtain ⟨text, htext⟩ := Option.isSome_iff_exists.mp hrefused
      apply (refused_untouched_iff isEscaped htext env).mpr
      rcases hwhen with hnone | hall | hfirst
      · exact Or.inl hnone
      · rcases (refusal_isSome_iff isEscaped).mp hrefused with hnone | hnot
        · exact Or.inl hnone
        · exact absurd hall hnot
      · exact Or.inr hfirst
  · intro _ huntouched again corrected env' hagain hpending hall
    rw [dispatch_results isEscaped hagain]
    have hpending' := hpending
    rw [← huntouched.pending] at hpending' hall
    have hrecorded := answerTools_recorded isEscaped hpending' hall env'
    refine ⟨?_, ?_⟩
    · rw [hrecorded.pending]
      simp only [Worker.taking, huntouched.pending]
    · rw [hrecorded.history]
      simp only [Worker.taking, huntouched.history]

/-- A session that waits for two answers. -/
def waitingForTwo : Worker Nat Nat :=
  { Worker.new ⟨∅, ∅⟩ with pendingToolCalls := ["a".toList, "b".toList] }

def anyInfo : SessionInfo := ⟨[], [], [], true, [], 512⟩

def letThrough : Env := ⟨true, .ok ⟨0, 0⟩, .ok ()⟩

/-- The first result is wrong. -/
theorem refused_results_first :
    let results : List ToolResultItem :=
      [⟨"c".toList, "1".toList⟩, ⟨"a".toList, "2".toList⟩]
    let request : Request Nat Nat := .toolResults results
    let isEscaped : Char → Bool := fun _ => false
    (((waitingForTwo.refusal isEscaped results).isSome = true →
        Untouched waitingForTwo (dispatch isEscaped anyInfo waitingForTwo letThrough request)) ↔
      waitingForTwo.pendingToolCalls = [] ∨
        (idsOf results).Subperm waitingForTwo.pendingToolCalls ∨
        ∃ result ∈ results.head?, result.id ∉ waitingForTwo.pendingToolCalls) ∧
    ((waitingForTwo.refusal isEscaped results).isSome = true →
      Untouched waitingForTwo (dispatch isEscaped anyInfo waitingForTwo letThrough request) →
      ∀ (again : Request Nat Nat) (corrected : List ToolResultItem) (env' : Env),
        resultsOf again = some corrected → waitingForTwo.pendingToolCalls ≠ [] →
        (idsOf corrected).Subperm waitingForTwo.pendingToolCalls →
        Untouched (waitingForTwo.taking corrected)
          (dispatch isEscaped anyInfo
            (dispatch isEscaped anyInfo waitingForTwo letThrough request) env' again)) :=
  refused_results_iff (fun _ => false) anyInfo waitingForTwo letThrough _ _ rfl

/-- The second is, and the first has been taken. -/
theorem refused_results_kept :
    ¬ ∀ (isEscaped : Char → Bool) (info : SessionInfo) (st : Worker Nat Nat) (env : Env)
        (request : Request Nat Nat) (results : List ToolResultItem),
      resultsOf request = some results → (st.refusal isEscaped results).isSome = true →
      Untouched st (dispatch isEscaped info st env request) := by
  intro hall
  have huntouched := hall (fun _ => false) anyInfo waitingForTwo letThrough
    (.toolResults [⟨"a".toList, "1".toList⟩, ⟨"c".toList, "2".toList⟩]) _ rfl (by decide)
  have hpending := huntouched.pending
  revert hpending
  decide

/-! ### Any order, any grouping -/

section Answers

variable (w : TurnWorker R J) (info : SessionInfo)

/-- Requests of a client, each with what the rest of the daemon makes of it. -/
def acts (requests : List (Request F J × Env)) : List (Act F J) :=
  requests.map fun r => .request r.1 r.2

/-- The requests bring these results, group by group. -/
def Bring (requests : List (Request F J × Env)) (groups : List (List ToolResultItem)) : Prop :=
  List.Forall₂ (fun r group => resultsOf r.1 = some group) requests groups

variable {st : Worker F J}

theorem taking_nil (st : Worker F J) : st.taking [] = st := by
  simp [Worker.taking, idsOf]

theorem taking_append (st : Worker F J) (l r : List ToolResultItem) :
    (st.taking l).taking r = st.taking (l ++ r) := by
  simp [Worker.taking, idsOf]

/-- What is left of some calls after the first of their answers. -/
theorem diff_perm {pending first rest : List Text} (h : (first ++ rest).Perm pending) :
    (pending.diff first).Perm rest := by
  have hsame : ((first ++ rest).diff first).Perm rest := by
    apply List.perm_iff_count.mpr
    intro id
    rw [List.count_diff, List.count_append, Nat.add_sub_cancel_left]
  exact (h.symm.diff_right first).trans hsame

/-- One request, while the answers it brings are not the last. -/
theorem step_answers (hidle : st.phase = .idle) {request : Request F J}
    {group : List ToolResultItem} (hgroup : resultsOf request = some group)
    (hall : (idsOf group).Subperm st.pendingToolCalls) (hpending : st.pendingToolCalls ≠ [])
    (env : Env) :
    workerStep w info st (.request request env) =
      some (if (st.taking group).pendingToolCalls = [] then (st.taking group).turn true env
        else st.taking group) := by
  simp only [workerStep, hidle, dispatch_results w.isEscaped hgroup,
    answerTools_taken w.isEscaped hpending hall]

/-- As long as some call still waits, the answers are taken and nothing else happens. -/
theorem runs_answers (hidle : st.phase = .idle) {requests : List (Request F J × Env)}
    {groups : List (List ToolResultItem)} (hbring : Bring requests groups) {rest : List Text}
    (hperm : (idsOf groups.flatten ++ rest).Perm st.pendingToolCalls) (hrest : rest ≠ []) :
    runs (workerStep w info) st (acts requests) = some (st.taking groups.flatten) := by
  induction hbring generalizing st with
  | nil =>
    rw [List.flatten_nil, taking_nil]
    rfl
  | @cons r group requests groups hgroup hbring ih =>
    have hids : idsOf (group :: groups).flatten = idsOf group ++ idsOf groups.flatten := by
      simp [idsOf]
    rw [hids, List.append_assoc] at hperm
    have hleft : (idsOf groups.flatten ++ rest).Perm (st.taking group).pendingToolCalls :=
      (diff_perm hperm).symm
    have hpending : st.pendingToolCalls ≠ [] := by
      intro hnone
      rw [hnone, List.perm_nil] at hperm
      simp [hrest] at hperm
    have hwaits : (st.taking group).pendingToolCalls ≠ [] := by
      intro hnone
      rw [hnone, List.perm_nil] at hleft
      simp [hrest] at hleft
    have hall : (idsOf group).Subperm st.pendingToolCalls :=
      (List.sublist_append_left _ _).subperm.trans hperm.subperm
    have hstep := step_answers w info hidle hgroup hall hpending r.2
    rw [if_neg hwaits] at hstep
    simp only [acts, List.map_cons, runs, hstep]
    rw [List.flatten_cons, ← taking_append]
    exact ih hidle hleft

/-- The request with the last of them resumes the turn. -/
theorem runs_last_answers (hidle : st.phase = .idle) {requests : List (Request F J × Env)}
    {groups : List (List ToolResultItem)} (hbring : Bring requests groups)
    {request : Request F J} {group : List ToolResultItem}
    (hgroup : resultsOf request = some group) (hne : group ≠ []) (env : Env)
    (hperm : (idsOf (groups.flatten ++ group)).Perm st.pendingToolCalls) :
    runs (workerStep w info) st (acts (requests ++ [(request, env)])) =
      some ((st.taking (groups.flatten ++ group)).turn true env) := by
  have hids : idsOf (groups.flatten ++ group) = idsOf groups.flatten ++ idsOf group := by
    simp [idsOf]
  have hsome : idsOf group ≠ [] := by
    simpa [idsOf] using hne
  rw [hids] at hperm
  have hbefore := runs_answers w info hidle hbring hperm hsome
  have hleft : (st.taking groups.flatten).pendingToolCalls.Perm (idsOf group) := diff_perm hperm
  have hwaits : (st.taking groups.flatten).pendingToolCalls ≠ [] := by
    intro hnone
    rw [hnone, List.nil_perm] at hleft
    exact hsome hleft
  have hstep := step_answers w info (show (st.taking groups.flatten).phase = .idle from hidle)
    hgroup hleft.symm.subperm hwaits env
  have hlast : ((st.taking groups.flatten).taking group).pendingToolCalls = [] := by
    have hback := hleft.symm
    rw [← List.append_nil (idsOf group)] at hback
    exact List.perm_nil.mp (diff_perm hback)
  rw [if_pos hlast, taking_append] at hstep
  simp only [acts, List.map_append, List.map_cons, List.map_nil, runs_append] at hbefore ⊢
  rw [hbefore]
  simp only [Option.bind_some, runs, hstep]

/-- The answers to the calls that a session waits for, in any order and in any grouping
    into requests. Up to the last request there are calls left, and all that has happened
    is that the answers so far are in the history; the last request resumes the turn. -/
theorem answers_in_any_order (w : TurnWorker R J) (info : SessionInfo) (st : Worker F J)
    (hidle : st.phase = .idle) (hpending : st.pendingToolCalls ≠ [])
    (requests : List (Request F J × Env)) (groups : List (List ToolResultItem))
    (hbring : Bring requests groups) (hgroups : ∀ group ∈ groups, group ≠ [])
    (hperm : (idsOf groups.flatten).Perm st.pendingToolCalls) :
    (∀ k < requests.length, ∃ pending, pending ≠ [] ∧
      pending.Perm (idsOf (groups.drop k).flatten) ∧
      runs (workerStep w info) st (acts (requests.take k)) =
        some { st with
          pendingToolCalls := pending
          history := st.history ++ (groups.take k).flatten.map toolMessage }) ∧
    ∃ last, requests.getLast? = some last ∧
      runs (workerStep w info) st (acts requests) =
        some (({ st with
          pendingToolCalls := []
          history := st.history ++ groups.flatten.map toolMessage } : Worker F J).turn
            true last.2) := by
  have hlength : requests.length = groups.length := List.Forall₂.length_eq hbring
  constructor
  · intro k hk
    -- the group behind the first `k` has an answer, so its call still waits
    have hrest : idsOf (groups.drop k).flatten ≠ [] := by
      have hk' : k < groups.length := hlength ▸ hk
      rw [List.drop_eq_getElem_cons hk', List.flatten_cons]
      have hne := hgroups _ (List.getElem_mem hk')
      simp [idsOf, hne]
    have hsplit : (idsOf (groups.take k).flatten ++ idsOf (groups.drop k).flatten).Perm
        st.pendingToolCalls := by
      rw [idsOf, idsOf, ← List.map_append, ← List.flatten_append, List.take_append_drop]
      exact hperm
    have hleft := diff_perm hsplit
    refine ⟨_, ?_, hleft, runs_answers w info hidle (List.forall₂_take k hbring) hsplit hrest⟩
    intro hnone
    rw [hnone, List.nil_perm] at hleft
    exact hrest hleft
  · have hsome : requests ≠ [] := by
      rintro rfl
      have hnone : groups = [] := List.forall₂_nil_left_iff.mp hbring
      rw [hnone] at hperm
      exact hpending (List.nil_perm.mp hperm)
    obtain ⟨first, last, rfl⟩ := (List.eq_nil_or_concat' requests).resolve_left hsome
    have hfirst := List.forall₂_take first.length hbring
    have hlast := List.forall₂_drop first.length hbring
    rw [List.take_left] at hfirst
    rw [List.drop_left] at hlast
    obtain ⟨group, tail, hgroup, htail, hdrop⟩ := List.forall₂_cons_left_iff.mp hlast
    rw [List.forall₂_nil_left_iff.mp htail] at hdrop
    have hall : groups = groups.take first.length ++ [group] := by
      rw [← hdrop, List.take_append_drop]
    have hflat : groups.flatten = (groups.take first.length).flatten ++ group := by
      conv_lhs => rw [hall]
      simp
    have hne : group ≠ [] := hgroups group (hall ▸ List.mem_append_right _ List.mem_cons_self)
    rw [hflat] at hperm
    have hrun := runs_last_answers w info hidle hfirst hgroup hne last.2 hperm
    refine ⟨last, by simp, ?_⟩
    rw [hflat]
    have hnone : st.pendingToolCalls.diff
        (idsOf ((groups.take first.length).flatten ++ group)) = [] := by
      rw [← List.append_nil (idsOf _)] at hperm
      exact List.perm_nil.mp (diff_perm hperm)
    rw [hrun, Worker.taking, hnone]

end Answers

/-- Two answers, the second call's first, one request each. -/
theorem answers_in_other_order :
    let requests : List (Request Nat Nat × Env) :=
      [(.toolResult "b".toList "2".toList, letThrough),
        (.toolResults [⟨"a".toList, "1".toList⟩], letThrough)]
    let groups : List (List ToolResultItem) :=
      [[⟨"b".toList, "2".toList⟩], [⟨"a".toList, "1".toList⟩]]
    (∀ k < requests.length, ∃ pending, pending ≠ [] ∧
      pending.Perm (idsOf (groups.drop k).flatten) ∧
      runs (workerStep hosted anyInfo) waitingForTwo (acts (requests.take k)) =
        some { waitingForTwo with
          pendingToolCalls := pending
          history := waitingForTwo.history ++ (groups.take k).flatten.map toolMessage }) ∧
    ∃ last, requests.getLast? = some last ∧
      runs (workerStep hosted anyInfo) waitingForTwo (acts requests) =
        some (({ waitingForTwo with
          pendingToolCalls := []
          history := waitingForTwo.history ++ groups.flatten.map toolMessage } :
            Worker Nat Nat).turn true last.2) :=
  answers_in_any_order hosted anyInfo waitingForTwo rfl (by decide) _ _
    (.cons rfl (.cons rfl .nil)) (by decide) (by decide)

end AiDaemon.Dispatch
