import AiDaemon.GrammarTexts

/-!
# The compiled grammar

The rules of one tool keep clear of those of another by the index in their
names, so every rule of the compiled grammar is the only one of its name.  Hence
`args-i` stands for the texts of the shape of the tool at `i`, `call-i` for an
object with its name and such arguments, and `root` for any of these
(`compile_spec`).
-/

namespace AiDaemon.Grammar

open Json Gbnf Proto

variable {F : Type} {floats : Floats F} {debug : Text → Text}

/-- The index in the name of a rule. -/
def RuleName.owner : RuleName → Option Nat
  | .call index => some index
  | .args index => some index
  | .fresh index _ _ => some index
  | _ => none

/-- The rules made for the tools before an index. -/
structure Owned (index : Nat) (rules : List Rule) : Prop where
  nodup : (rules.map Rule.name).Nodup
  owner : ∀ rule ∈ rules, ∃ i, rule.name.owner = some i ∧ i < index

/-- The rules of the tool at an index are among these. -/
def Holds (floats : Floats F) (rules : List Rule) (index : Nat) (tool : ToolSchema (Schema F)) :
    Prop :=
  ∃ sub, (∀ rule ∈ (value floats tool.jsonSchema.value sub).2.rules, rule ∈ rules) ∧
    ⟨.args index, (value floats tool.jsonSchema.value sub).1⟩ ∈ rules ∧
    ⟨.call index, callBody tool.name index⟩ ∈ rules

theorem Owned.tool {index : Nat} {rules : List Rule} (h : Owned index rules) (widened : Bool)
    (schema : Value F) (body call : Body) :
    Owned (index + 1) ((value floats schema ⟨rules, widened, 0, index⟩).2.rules ++
      [⟨.args index, body⟩, ⟨.call index, call⟩]) := by
  have hextends := emit_extends floats (shapeOf schema) ⟨rules, widened, 0, index⟩
  obtain ⟨new, hnew, hnodup, hnames⟩ := hextends.rules
  rw [value_eq_emit, hnew]
  have hfresh : ∀ rule ∈ new, rule.name.owner = some index ∧ rule.name ≠ .args index ∧
      rule.name ≠ .call index := by
    intro rule hrule
    obtain ⟨kind, counter, hname, -, -⟩ := hnames rule hrule
    rw [hname]
    exact ⟨rfl, by simp, by simp⟩
  constructor
  · simp only [List.map_append, List.map_cons, List.map_nil]
    refine (h.nodup.append hnodup ?_).append (by simp) ?_
    · intro name hname hname'
      obtain ⟨rule, hrule, rfl⟩ := List.mem_map.mp hname
      obtain ⟨rule', hrule', hsame⟩ := List.mem_map.mp hname'
      obtain ⟨i, howner, hless⟩ := h.owner rule hrule
      rw [← hsame, (hfresh rule' hrule').1, Option.some.injEq] at howner
      omega
    · intro name hname hname'
      rcases List.mem_append.mp hname with hname | hname
      · obtain ⟨rule, hrule, rfl⟩ := List.mem_map.mp hname
        obtain ⟨i, howner, hless⟩ := h.owner rule hrule
        rcases List.mem_pair.mp hname' with hsame | hsame
        all_goals
          rw [hsame, RuleName.owner, Option.some.injEq] at howner
          omega
      · obtain ⟨rule, hrule, rfl⟩ := List.mem_map.mp hname
        rcases List.mem_pair.mp hname' with hsame | hsame
        · exact (hfresh rule hrule).2.1 hsame
        · exact (hfresh rule hrule).2.2 hsame
  · intro rule hrule
    rcases List.mem_append.mp hrule with hrule | hrule
    · rcases List.mem_append.mp hrule with hrule | hrule
      · obtain ⟨i, howner, hless⟩ := h.owner rule hrule
        exact ⟨i, howner, by omega⟩
      · exact ⟨index, (hfresh rule hrule).1, by omega⟩
    · rcases List.mem_pair.mp hrule with rfl | rfl
      · exact ⟨index, rfl, by omega⟩
      · exact ⟨index, rfl, by omega⟩

/-- What the loop over the tools leaves behind. -/
structure LoopResult (floats : Floats F) (index : Nat) (tools : List (ToolSchema (Schema F)))
    (made made' : List Rule × Bool) : Prop where
  kept : ∀ rule ∈ made.1, rule ∈ made'.1
  owned : Owned index made.1 → Owned (index + tools.length) made'.1
  plain : ∀ tool ∈ tools, tool.name.all isPlainChar = true
  holds : ∀ i tool, tools[i]? = some tool → Holds floats made'.1 (index + i) tool
  widened : made'.2 = (made.2 || tools.any fun tool => (shapeOf tool.jsonSchema.value).wide)

theorem compileTools_cons {index : Nat} {tool : ToolSchema (Schema F)}
    {tools : List (ToolSchema (Schema F))} {rules : List Rule} {widened : Bool}
    {made' : List Rule × Bool}
    (h : compileTools floats debug index (tool :: tools) (rules, widened) = .ok made') :
    tool.name.all isPlainChar = true ∧
      compileTools floats debug (index + 1) tools
        ((value floats tool.jsonSchema.value ⟨rules, widened, 0, index⟩).2.rules ++
          [⟨.args index, (value floats tool.jsonSchema.value ⟨rules, widened, 0, index⟩).1⟩,
            ⟨.call index, callBody tool.name index⟩],
        (value floats tool.jsonSchema.value ⟨rules, widened, 0, index⟩).2.widened) = .ok made' := by
  rw [compileTools] at h
  split at h
  · rename_i hplain
    exact ⟨hplain, h⟩
  · cases h

/-- The loop, by induction on the tools: the rules of the first are made, and
    the rest of the loop keeps them. -/
theorem loopResult_of_ok {index : Nat} {tools : List (ToolSchema (Schema F))}
    {made made' : List Rule × Bool} (h : compileTools floats debug index tools made = .ok made') :
    LoopResult floats index tools made made' := by
  induction tools generalizing index made with
  | nil =>
    rw [compileTools] at h
    cases h
    exact ⟨fun _ hrule => hrule, fun howned => howned, by simp, by simp, by simp⟩
  | cons tool tools ih =>
    obtain ⟨rules, widened⟩ := made
    obtain ⟨hplain, hrest⟩ := compileTools_cons h
    have hloop := ih hrest
    have hextends := emit_extends floats (shapeOf tool.jsonSchema.value) ⟨rules, widened, 0, index⟩
    rw [← value_eq_emit] at hextends
    constructor
    · intro rule hrule
      exact hloop.kept rule (List.mem_append_left _ (hextends.subset hrule))
    · intro howned
      have hmade := hloop.owned (howned.tool widened _ _ _)
      rwa [List.length_cons, Nat.add_comm tools.length, ← Nat.add_assoc]
    · exact List.forall_mem_cons.mpr ⟨hplain, hloop.plain⟩
    · intro i tool' htool
      cases i with
      | zero =>
        cases htool
        refine ⟨_, fun rule hrule => hloop.kept rule (List.mem_append_left _ hrule), ?_, ?_⟩
        · exact hloop.kept _ (List.mem_append_right _ List.mem_cons_self)
        · exact hloop.kept _
            (List.mem_append_right _ (List.mem_cons_of_mem _ (List.mem_singleton_self _)))
      | succ i =>
        have hholds := hloop.holds i tool' htool
        rwa [Nat.add_assoc, Nat.add_comm 1 i] at hholds
    · rw [hloop.widened, value_eq_emit, emit_widened, List.any_cons, Bool.or_assoc]

/-! ### The call of a tool -/

/-- A quoted name. -/
def Named (name text : Text) : Prop := text = '"' :: (name ++ ['"'])

/-- A call: an object with the name of the tool and its arguments. -/
def Call (name : Text) (P : Text → Prop) : Text → Prop :=
  Between '\x7b' '\x7d' [Pair "name".toList (Named name), Pair "arguments".toList P]

theorem unquote_plainName {name : Text} (h : name.all isPlainChar = true) :
    unquote name = some name := by
  induction name with
  | nil => rfl
  | cons c name ih =>
    rw [List.all_cons, Bool.and_eq_true] at h
    have hquote : c ≠ '"' := by
      rintro rfl
      exact absurd h.1 (by decide)
    have hslash : c ≠ '\\' := by
      rintro rfl
      exact absurd h.1 (by decide)
    rw [unquote_plain hquote hslash, ih h.2]
    rfl

theorem derives_callBody {rules : RuleName → Option Body} (hprelude : HasPrelude rules)
    {name : Text}
    (hname : name.all isPlainChar = true) {index : Nat} {text : Text} :
    Derives rules (callBody name index) text ↔
    Call name (Derives rules (.rule (.args index))) text := by
  have hws : ∀ t, Derives rules ws t ↔ Blank t := fun t => derives_ws hprelude
  have hopened : ∀ t, Derives rules (lit "\x7b") t ↔ t = ['\x7b'] := fun t => unquote_lit rfl
  have hclosed : ∀ t, Derives rules (lit "\x7d") t ↔ t = ['\x7d'] := fun t => unquote_lit rfl
  have hcomma : ∀ t, Derives rules (lit ",") t ↔ t = [','] := fun t => unquote_lit rfl
  -- the two pairs, and what is around them
  have hfirst : ∀ t, DerivesAll rules [lit "\\\"name\\\"", ws, lit ":", ws,
      .lit ("\\\"".toList ++ name ++ "\\\"".toList)] t ↔ Pair "name".toList (Named name) t := by
    intro t
    have hquoted : Derives rules (.lit ("\\\"".toList ++ name ++ "\\\"".toList)) = Named name := by
      funext t
      have hquote : ∀ rest, unquote ("\\\"".toList ++ rest) = (unquote rest).map (['"'] ++ ·) :=
        unquote_append rfl
      have hend : unquote "\\\"".toList = some ['"'] := rfl
      rw [derives_lit, List.append_assoc, hquote, unquote_append (unquote_plainName hname), hend,
        Named, eq_comm (a := t)]
      simp
    rw [← hquoted]
    exact derivesAll_pair hprelude rfl
  have hsecond :
    ∀ t, DerivesAll rules [lit "\\\"arguments\\\"", ws, lit ":", ws, .rule (.args index)] t ↔
      Pair "arguments".toList (Derives rules (.rule (.args index))) t :=
    fun t => derivesAll_pair hprelude rfl
  rw [callBody, derives_seqs]
  show DerivesAll rules (lit "\x7b" :: ws :: ([lit "\\\"name\\\"", ws, lit ":", ws,
    .lit ("\\\"".toList ++ name ++ "\\\"".toList)] ++ (ws :: lit "," :: ws ::
      ([lit "\\\"arguments\\\"", ws, lit ":", ws, .rule (.args index)] ++ [ws, lit "\x7d"]))))
        text ↔ _
  -- the pairs are taken whole, not part by part
  generalize [lit "\\\"name\\\"", ws, lit ":", ws,
    .lit ("\\\"".toList ++ name ++ "\\\"".toList)] = first at hfirst ⊢
  generalize [lit "\\\"arguments\\\"", ws, lit ":", ws, .rule (.args index)] = second at hsecond ⊢
  simp only [DerivesAll, derivesAll_append, hfirst, hsecond, hws, hopened, hclosed, hcomma]
  constructor
  · rintro ⟨_, _, rfl, ⟨w₁, _, hw₁, ⟨s, _, hs, ⟨w₂, _, hw₂, ⟨_, _, rfl, ⟨w₃, _, hw₃, ⟨t, _, ht,
      ⟨w₄, _, hw₄, ⟨_, _, rfl, rfl, rfl⟩, rfl⟩, rfl⟩, rfl⟩, rfl⟩, rfl⟩, rfl⟩, rfl⟩, rfl⟩
    exact ⟨w₁, _, w₄, hw₁, ⟨s, _, hs, ⟨_, [], ⟨w₂, w₃, t, hw₂, hw₃, ht, rfl⟩, rfl, rfl⟩, rfl⟩, hw₄,
      by simp⟩
  · rintro ⟨w₁, _, w₄, hw₁, ⟨s, _, hs, ⟨_, _, ⟨w₂, w₃, t, hw₂, hw₃, ht, rfl⟩, rfl, rfl⟩, rfl⟩,
      hw₄, rfl⟩
    exact ⟨_, _, rfl, ⟨w₁, _, hw₁, ⟨s, _, hs, ⟨w₂, _, hw₂, ⟨_, _, rfl, ⟨w₃, _, hw₃, ⟨t, _, ht,
      ⟨w₄, _, hw₄, ⟨_, _, rfl, rfl, rfl⟩, rfl⟩, rfl⟩, rfl⟩, rfl⟩, rfl⟩, rfl⟩, rfl⟩, by simp⟩

/-! ### All of it -/

/-- What the compiled grammar stands for. -/
structure CompileSpec (floats : Floats F) (tools : List (ToolSchema (Schema F)))
    (compiled : Compiled) : Prop where
  args : ∀ i tool, tools[i]? = some tool →
    Derives compiled.grammar (.rule (.args i)) = (shapeOf tool.jsonSchema.value).Accepts floats
  call : ∀ i tool, tools[i]? = some tool → ∀ text,
    (Derives compiled.grammar (.rule (.call i)) text ↔
      Call tool.name ((shapeOf tool.jsonSchema.value).Accepts floats) text)
  root : ∀ text, Derives compiled.grammar (.rule .root) text ↔
    ∃ i < tools.length, Derives compiled.grammar (.rule (.call i)) text
  names : compiled.names = tools.map ToolSchema.name
  plain : ∀ tool ∈ tools, tool.name.all isPlainChar = true
  widened : compiled.widened = tools.any fun tool => (shapeOf tool.jsonSchema.value).wide

/-- The rules of the tools, the root and the preamble have different names. -/
theorem Owned.all_nodup {index : Nat} {rules : List Rule} (h : Owned index rules) (root : Body) :
    ((⟨.root, root⟩ :: rules ++ preludeRules).map Rule.name).Nodup := by
  have hother : ∀ rule ∈ preludeRules, rule.name.owner = none ∧ rule.name ≠ .root := by decide
  rw [List.cons_append, List.map_cons, List.nodup_cons, List.map_append]
  constructor
  · intro hmem
    rcases List.mem_append.mp hmem with hmem | hmem
    · obtain ⟨rule, hrule, hname⟩ := List.mem_map.mp hmem
      obtain ⟨i, howner, -⟩ := h.owner rule hrule
      rw [hname] at howner
      cases howner
    · obtain ⟨rule, hrule, hname⟩ := List.mem_map.mp hmem
      exact (hother rule hrule).2 hname
  · refine h.nodup.append preludeRules_nodup ?_
    intro name hname hname'
    obtain ⟨rule, hrule, rfl⟩ := List.mem_map.mp hname
    obtain ⟨rule', hrule', hsame⟩ := List.mem_map.mp hname'
    obtain ⟨i, howner, -⟩ := h.owner rule hrule
    rw [← hsame, (hother rule' hrule').1] at howner
    cases howner

def rootBody (count : Nat) : Body :=
  alts (.rule (.call 0)) ((List.range' 1 (count - 1)).map fun index => Expr.rule (.call index))

theorem compile_eq_ok {tools : List (ToolSchema (Schema F))} {compiled : Compiled}
    (h : compile floats debug tools = .ok compiled) :
    0 < tools.length ∧ ∃ rules widened,
      compileTools floats debug 0 tools ([], false) = .ok (rules, widened) ∧
      compiled = ⟨⟨.root, rootBody tools.length⟩ :: rules, tools.map ToolSchema.name, widened⟩ := by
  cases tools with
  | nil => cases h
  | cons tool tools =>
    rw [compile] at h
    cases hmade : compileTools floats debug 0 (tool :: tools) ([], false) with
    | error message =>
      rw [hmade] at h
      cases h
    | ok made =>
      rw [hmade] at h
      cases h
      exact ⟨by simp, made.1, made.2, rfl, rfl⟩

/-- The root is one of the calls. -/
theorem derives_rootBody {rules : RuleName → Option Body} {count : Nat} (hcount : 0 < count)
    {text : Text} :
    Derives rules (rootBody count) text ↔ ∃ i < count, Derives rules (.rule (.call i)) text := by
  rw [rootBody, derives_alts, List.exists_mem_cons_iff]
  simp only [List.mem_map, List.mem_range'_1, exists_exists_and_eq_and]
  constructor
  · rintro (h | ⟨i, hi, h⟩)
    · exact ⟨0, hcount, h⟩
    · exact ⟨i, by omega, h⟩
  · rintro ⟨i, hi, h⟩
    rcases Nat.eq_zero_or_pos i with rfl | hpos
    · exact Or.inl h
    · exact Or.inr ⟨i, by omega, h⟩

/-- **The compiled grammar** stands for the calls of the offered tools. -/
theorem compile_spec {tools : List (ToolSchema (Schema F))} {compiled : Compiled}
    (h : compile floats debug tools = .ok compiled) : CompileSpec floats tools compiled := by
  obtain ⟨hpos, rules, widened, hmade, rfl⟩ := compile_eq_ok h
  have hloop := loopResult_of_ok hmade
  have howned := hloop.owned ⟨List.nodup_nil, by simp⟩
  generalize hgrammar : Compiled.grammar
    ⟨⟨.root, rootBody tools.length⟩ :: rules, tools.map ToolSchema.name, widened⟩ = grammar
  -- every rule is found under its name
  have hfind : ∀ rule ∈ ⟨.root, rootBody tools.length⟩ :: rules ++ preludeRules,
      grammar rule.name = some rule.body := by
    intro rule hrule
    rw [← hgrammar]
    exact find_of_nodup (howned.all_nodup _) hrule
  have hprelude : HasPrelude grammar := fun rule hrule => hfind rule (List.mem_append_right _ hrule)
  have hrules : ∀ rule ∈ rules, grammar rule.name = some rule.body := fun rule hrule =>
    hfind rule (List.mem_append_left _ (List.mem_cons_of_mem _ hrule))
  have hargs : ∀ i tool, tools[i]? = some tool →
      Derives grammar (.rule (.args i)) = (shapeOf tool.jsonSchema.value).Accepts floats := by
    intro i tool htool
    obtain ⟨sub, hsub, hrule, -⟩ := hloop.holds i tool htool
    rw [Nat.zero_add] at hrule
    rw [value_eq_emit] at hsub hrule
    rw [← derives_emit hprelude _ sub fun rule hrule => hrules rule (hsub rule hrule)]
    funext text
    exact propext (derives_rule_of (hrules _ hrule))
  rw [← hgrammar] at hargs
  constructor
  · exact hargs
  · intro i tool htool text
    obtain ⟨sub, -, -, hrule⟩ := hloop.holds i tool htool
    rw [Nat.zero_add] at hrule
    have hplain := hloop.plain tool (List.mem_of_getElem? htool)
    rw [← hargs i tool htool, hgrammar, derives_rule_of (hrules _ hrule)]
    exact derives_callBody hprelude hplain
  · intro text
    rw [hgrammar, derives_rule_of (hfind ⟨.root, _⟩ (List.mem_cons_self))]
    exact derives_rootBody hpos
  · rfl
  · exact hloop.plain
  · simpa using hloop.widened

theorem compileTools_isOk {tools : List (ToolSchema (Schema F))}
    (h : ∀ tool ∈ tools, tool.name.all isPlainChar = true) (index : Nat) (made : List Rule × Bool) :
    ∃ made', compileTools floats debug index tools made = .ok made' := by
  induction tools generalizing index made with
  | nil => exact ⟨made, rfl⟩
  | cons tool tools ih =>
    rw [List.forall_mem_cons] at h
    obtain ⟨rules, widened⟩ := made
    rw [compileTools, if_pos h.1]
    exact ih h.2 _ _

/-- Tools with plain names are taken, whatever their schemas. -/
theorem compile_isOk {tools : List (ToolSchema (Schema F))} (hne : tools ≠ [])
    (h : ∀ tool ∈ tools, tool.name.all isPlainChar = true) :
    ∃ compiled, compile floats debug tools = .ok compiled := by
  obtain ⟨tool, tools, rfl⟩ := List.exists_cons_of_ne_nil hne
  obtain ⟨made, hmade⟩ :
    ∃ made, compileTools floats debug 0 (tool :: tools) ([], false) = .ok made :=
    compileTools_isOk h _ _
  rw [compile, hmade]
  exact ⟨_, rfl⟩

theorem compile_one {tool : ToolSchema (Schema F)} (h : tool.name.all isPlainChar = true) :
    ∃ compiled, compile floats debug [tool] = .ok compiled := by
  apply compile_isOk (List.cons_ne_nil tool [])
  intro other hother
  rw [List.mem_singleton.mp hother]
  exact h

end AiDaemon.Grammar
