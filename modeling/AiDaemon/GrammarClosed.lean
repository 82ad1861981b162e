import AiDaemon.GrammarSound

/-!
# Compiled grammars are closed

The names of the rules are written apart (`text_injective`).  A rule is made
after the rules its body mentions, so the compiler only ever refers to rules it
has made or that the preamble has: an invariant of the recursion over the
schemas (`emit_defined`) and of the loop over the tools.  Hence every name that
can be come by from the root has a rule, and no name has two (`compile_closed`).
-/

namespace AiDaemon.Grammar

open Json Gbnf Proto

variable {F : Type} {floats : Floats F} {debug : Text → Text}

/-! ### Names apart -/

theorem dash_not_mem_ofNat (n : Nat) : '-' ∉ Text.ofNat n := by
  intro hmem
  exact absurd (Nat.isDigit_of_mem_toDigits (by decide) (by decide) hmem) (by decide)

theorem dash_not_mem_kind (kind : Kind) : '-' ∉ kind.text := by
  cases kind with
  | array => decide
  | obj => decide

theorem Kind.text_injective {kind kind' : Kind} (h : kind.text = kind'.text) : kind = kind' := by
  cases kind with
  | array =>
    cases kind' with
    | array => rfl
    | obj => exact absurd h (by decide)
  | obj =>
    cases kind' with
    | array => exact absurd h (by decide)
    | obj => rfl

/-- What follows the last dash, and what is before it. -/
theorem last_dash {s s' t t' : Text} (ht : '-' ∉ t) (ht' : '-' ∉ t')
    (h : s ++ '-' :: t = s' ++ '-' :: t') : s = s' ∧ t = t' := by
  have hcut := congrArg (Text.rsplitOnce ['-']) h
  rw [Text.rsplitOnce_char_append s ht, Text.rsplitOnce_char_append s' ht', Option.some.injEq,
    Prod.mk.injEq] at hcut
  exact hcut

/-- The names without a number. -/
def plainNames : List RuleName :=
  [.root, .ws, .string, .char, .hex, .integer, .number, .boolean, .object, .array, .json]

theorem plainNames_text :
    ∀ name ∈ plainNames, ∀ other ∈ plainNames, name.text = other.text → name = other := by
  decide

theorem dash_mem_call (index : Nat) : '-' ∈ (RuleName.call index).text :=
  List.mem_append_left _ (by decide)

theorem dash_mem_args (index : Nat) : '-' ∈ (RuleName.args index).text :=
  List.mem_append_left _ (by decide)

theorem dash_mem_fresh (index : Nat) (kind : Kind) (counter : Nat) :
    '-' ∈ (RuleName.fresh index kind counter).text :=
  List.mem_cons_of_mem _ (List.mem_append_right _ List.mem_cons_self)

theorem call_text_ne {index : Nat} {other : RuleName}
    (h : (RuleName.call index).text = other.text) : other = .call index := by
  have hdash : '-' ∈ other.text := h ▸ dash_mem_call index
  cases other with
  | call index' => rw [Text.ofNat_injective (List.append_cancel_left h)]
  | args index' => cases h
  | fresh index' kind counter => cases h
  | _ => exact absurd hdash (by decide)

theorem args_text_ne {index : Nat} {other : RuleName}
    (h : (RuleName.args index).text = other.text) : other = .args index := by
  have hdash : '-' ∈ other.text := h ▸ dash_mem_args index
  cases other with
  | call index' => cases h
  | args index' => rw [Text.ofNat_injective (List.append_cancel_left h)]
  | fresh index' kind counter => cases h
  | _ => exact absurd hdash (by decide)

theorem fresh_text_ne {index counter : Nat} {kind : Kind} {other : RuleName}
    (h : (RuleName.fresh index kind counter).text = other.text) :
    other = .fresh index kind counter := by
  have hdash : '-' ∈ other.text := h ▸ dash_mem_fresh index kind counter
  cases other with
  | call index' => cases h
  | args index' => cases h
  | fresh index' kind' counter' =>
    have hrest := List.tail_eq_of_cons_eq h
    rw [← List.cons_append, ← List.cons_append, ← List.append_assoc, ← List.append_assoc] at hrest
    obtain ⟨hfirst, hcounter⟩ :=
      last_dash (dash_not_mem_ofNat counter) (dash_not_mem_ofNat counter') hrest
    obtain ⟨hindex, hkind⟩ := last_dash (dash_not_mem_kind kind) (dash_not_mem_kind kind') hfirst
    rw [Text.ofNat_injective hindex, Text.ofNat_injective hcounter, Kind.text_injective hkind]
  | _ => exact absurd hdash (by decide)

theorem mem_plainNames {name : RuleName} (h : '-' ∉ name.text) : name ∈ plainNames := by
  cases name with
  | call index => exact absurd (dash_mem_call index) h
  | args index => exact absurd (dash_mem_args index) h
  | fresh index kind counter => exact absurd (dash_mem_fresh index kind counter) h
  | _ => decide

/-- Two names are not written alike. -/
theorem text_injective : Function.Injective RuleName.text := by
  intro name other h
  by_cases hdash : '-' ∈ name.text
  · cases name with
    | call index => exact (call_text_ne h).symm
    | args index => exact (args_text_ne h).symm
    | fresh index kind counter => exact (fresh_text_ne h).symm
    | _ => exact absurd hdash (by decide)
  · exact plainNames_text _ (mem_plainNames hdash) _ (mem_plainNames (h ▸ hdash)) h

/-! ### Names defined -/

/-- The rules and the preamble have a rule for every name of the body. -/
def Defined (rules : List Rule) (body : Body) : Prop :=
  ∀ name ∈ body.names, name ∈ (rules ++ preludeRules).map Rule.name

/-- So it is for the bodies of all the rules. -/
def AllDefined (rules : List Rule) : Prop := ∀ rule ∈ rules, Defined rules rule.body

theorem Defined.mono {rules rules' : List Rule} {body : Body} (h : Defined rules body)
    (hrules : ∀ rule ∈ rules, rule ∈ rules') : Defined rules' body := by
  intro name hname
  obtain ⟨rule, hrule, rfl⟩ := List.mem_map.mp (h name hname)
  apply List.mem_map_of_mem
  rcases List.mem_append.mp hrule with hrule | hrule
  · exact List.mem_append_left _ (hrules rule hrule)
  · exact List.mem_append_right _ hrule

theorem defined_prelude {rules : List Rule} {name : RuleName}
    (h : name ∈ preludeRules.map Rule.name) : Defined rules (.rule name) := by
  intro name' hname
  rw [List.mem_singleton.mp hname, List.map_append]
  exact List.mem_append_right _ h

theorem defined_seqs {rules : List Rule} {e : Body} {es : List Body} :
    Defined rules (seqs e es) ↔ ∀ e' ∈ e :: es, Defined rules e' := by
  induction es generalizing e with
  | nil => rw [seqs, List.forall_mem_singleton]
  | cons e' es ih =>
    rw [seqs, List.forall_mem_cons, ← ih, Defined, Expr.names]
    simp only [List.mem_append, or_imp, forall_and]
    rfl

theorem defined_alts {rules : List Rule} {e : Body} {es : List Body} :
    Defined rules (alts e es) ↔ ∀ e' ∈ e :: es, Defined rules e' := by
  induction es generalizing e with
  | nil => rw [alts, List.forall_mem_singleton]
  | cons e' es ih =>
    rw [alts, List.forall_mem_cons, ← ih, Defined, Expr.names]
    simp only [List.mem_append, or_imp, forall_and]
    rfl

theorem defined_lit (rules : List Rule) (quoted : Text) : Defined rules (.lit quoted) := by
  intro name hname
  cases hname

theorem defined_ws (rules : List Rule) : Defined rules ws := defined_prelude (by decide)

theorem defined_later {rules : List Rule} {part : Body} (h : Defined rules part) :
    Defined rules (later part) := by
  show Defined rules (seqs ws [lit ",", ws, part])
  rw [defined_seqs]
  simp only [List.forall_mem_cons]
  exact ⟨defined_ws _, defined_lit _ _, defined_ws _, h, List.forall_mem_nil _⟩

theorem defined_first {rules : List Rule} {first : Body} {rest : List Body}
    (h : ∀ part ∈ first :: rest, Defined rules part) :
    Defined rules (seqs first (rest.map later)) := by
  rw [List.forall_mem_cons] at h
  rw [defined_seqs, List.forall_mem_cons, List.forall_mem_map]
  exact ⟨h.1, fun part hpart => defined_later (h.2 part hpart)⟩

theorem defined_firstOptional {rules : List Rule} {optional : List Body}
    (h : ∀ part ∈ optional, Defined rules part) :
    ∀ e ∈ firstOptional optional, Defined rules e := by
  induction optional with
  | nil => exact List.forall_mem_nil _
  | cons first rest ih =>
    rw [firstOptional, List.forall_mem_cons]
    exact ⟨defined_first h, ih (List.forall_mem_of_forall_mem_cons h)⟩

theorem defined_objectBody {rules : List Rule} {required optional : List Body}
    (hrequired : ∀ part ∈ required, Defined rules part)
    (hoptional : ∀ part ∈ optional, Defined rules part) :
    Defined rules (objectBody required optional) := by
  have hopened := defined_lit rules "\x7b".toList
  have hclosed := defined_lit rules "\x7d".toList
  have hcomma := defined_lit rules ",".toList
  have hws := defined_ws rules
  cases required with
  | nil =>
    cases optional with
    | nil =>
      rw [objectBody, defined_seqs]
      simp only [List.forall_mem_cons]
      exact ⟨hopened, hws, hclosed, List.forall_mem_nil _⟩
    | cons first rest =>
      have hgroup :
        Defined rules (.opt (.group (alts (seqs first (rest.map later)) (firstOptional rest)))) :=
        defined_alts.mpr (defined_firstOptional hoptional)
      rw [objectBody, defined_seqs]
      simp only [List.forall_mem_cons]
      exact ⟨hopened, hws, hgroup, hws, hclosed, List.forall_mem_nil _⟩
  | cons first rest =>
    rw [List.forall_mem_cons] at hrequired
    rw [objectBody, defined_seqs, List.cons_append, List.cons_append, List.cons_append]
    simp only [List.forall_mem_cons, List.forall_mem_append]
    refine ⟨hopened, hws, ⟨hrequired.1, ?_, ?_⟩, hws, hclosed, List.forall_mem_nil _⟩
    · intro e he
      obtain ⟨part, hpart, he⟩ := List.mem_flatMap.mp he
      simp only [List.mem_cons, List.not_mem_nil, or_false] at he
      rcases he with rfl | rfl | rfl | rfl
      · exact hws
      · exact hcomma
      · exact hws
      · exact hrequired.2 _ hpart
    · rw [List.forall_mem_map]
      exact fun part hpart => defined_later (hoptional part hpart)

theorem defined_array {rules : List Rule} {item : Body} (h : Defined rules item) :
    Defined rules (bracketed (lit "[") item (lit "]")) := by
  have hmore : Defined rules (.star (.group (seqs ws [lit ",", ws, item]))) := defined_later h
  have hitems : Defined rules
      (.opt (.group (.seq item (.star (.group (seqs ws [lit ",", ws, item])))))) := by
    intro name hname
    rcases List.mem_append.mp hname with hname | hname
    · exact h name hname
    · exact hmore name hname
  rw [bracketed, defined_seqs]
  simp only [List.forall_mem_cons]
  exact ⟨defined_lit _ _, defined_ws _, hitems, defined_ws _, defined_lit _ _,
    List.forall_mem_nil _⟩

theorem defined_pair {rules : List Rule} {value : Body} (h : Defined rules value) (key : Text) :
    Defined rules (pair key value) := by
  rw [pair, defined_seqs]
  simp only [List.forall_mem_cons]
  exact ⟨defined_lit _ _, defined_ws _, defined_lit _ _, defined_ws _, h, List.forall_mem_nil _⟩

/-! ### The compiler keeps to defined names -/

theorem define_defined {sub : SubCompiler} (kind : Kind) {body : Body} (h : AllDefined sub.rules)
    (hbody : Defined sub.rules body) :
    Defined (sub.define kind body).2.rules (sub.define kind body).1 ∧
      AllDefined (sub.define kind body).2.rules := by
  have hkept : ∀ rule ∈ sub.rules, rule ∈ (sub.define kind body).2.rules :=
    fun _ hrule => (extends_define sub kind body).subset hrule
  constructor
  · intro name hname
    rw [List.mem_singleton.mp hname]
    apply List.mem_map_of_mem (f := Rule.name) (a := ⟨_, body⟩)
    exact List.mem_append_left _ (List.mem_append_right _ (List.mem_singleton_self _))
  · intro rule hrule
    rcases List.mem_append.mp hrule with hold | hnew
    · exact (h rule hold).mono hkept
    · rw [List.mem_singleton.mp hnew]
      exact hbody.mono hkept

/-- The pairs of the fields, and the rules made for them. -/
theorem emitFields_defined {fields : List (Field (Shape F))}
    (h : ∀ field ∈ fields, ∀ sub : SubCompiler, AllDefined sub.rules →
      Defined (field.value.emit floats sub).2.rules (field.value.emit floats sub).1 ∧
        AllDefined (field.value.emit floats sub).2.rules)
    {sub : SubCompiler} (hsub : AllDefined sub.rules) :
    (∀ part ∈ (emitFields floats fields sub).1.1,
        Defined (emitFields floats fields sub).2.rules part) ∧
      (∀ part ∈ (emitFields floats fields sub).1.2,
        Defined (emitFields floats fields sub).2.rules part) ∧
      AllDefined (emitFields floats fields sub).2.rules := by
  induction fields generalizing sub with
  | nil =>
    rw [emitFields]
    exact ⟨List.forall_mem_nil _, List.forall_mem_nil _, hsub⟩
  | cons field fields ih =>
    obtain ⟨key, required, shape⟩ := field
    rw [List.forall_mem_cons] at h
    obtain ⟨hvalue, hmade⟩ := h.1 sub hsub
    obtain ⟨hrequired, hoptional, hall⟩ := ih h.2 hmade
    have hlater : Extends (shape.emit floats sub).2
        (emitFields floats fields (shape.emit floats sub).2).2 :=
      emitFields_extends floats (fun field _ => emit_extends floats field.value) _
    have hpair := defined_pair (hvalue.mono fun rule => hlater.subset) key
    rw [emitFields]
    split
    · exact ⟨List.forall_mem_cons.mpr ⟨hpair, hrequired⟩, hoptional, hall⟩
    · exact ⟨hrequired, List.forall_mem_cons.mpr ⟨hpair, hoptional⟩, hall⟩

theorem emit_defined (shape : Shape F) {sub : SubCompiler} (hsub : AllDefined sub.rules) :
    Defined (shape.emit floats sub).2.rules (shape.emit floats sub).1 ∧
      AllDefined (shape.emit floats sub).2.rules := by
  induction shape generalizing sub with
  | any =>
    rw [Shape.emit]
    exact ⟨defined_prelude (by decide), hsub⟩
  | anyObject =>
    rw [Shape.emit]
    exact ⟨defined_prelude (by decide), hsub⟩
  | choice c cs =>
    have halts : Defined sub.rules (alts (literal floats c) (cs.map (literal floats))) := by
      rw [defined_alts, List.forall_mem_cons, List.forall_mem_map]
      exact ⟨defined_lit _ _, fun _ _ => defined_lit _ _⟩
    rw [Shape.emit]
    exact ⟨halts, hsub⟩
  | string =>
    rw [Shape.emit]
    exact ⟨defined_prelude (by decide), hsub⟩
  | integer =>
    rw [Shape.emit]
    exact ⟨defined_prelude (by decide), hsub⟩
  | number =>
    rw [Shape.emit]
    exact ⟨defined_prelude (by decide), hsub⟩
  | boolean =>
    rw [Shape.emit]
    exact ⟨defined_prelude (by decide), hsub⟩
  | null =>
    rw [Shape.emit]
    exact ⟨defined_lit _ _, hsub⟩
  | array item ih =>
    obtain ⟨hitem, hall⟩ := ih hsub
    rw [Shape.emit]
    exact define_defined .array hall (defined_array hitem)
  | object fields ih =>
    obtain ⟨hrequired, hoptional, hall⟩ :=
      emitFields_defined (fun field hfield _ => ih field hfield) hsub
    rw [Shape.emit]
    exact define_defined .obj hall (defined_objectBody hrequired hoptional)

theorem defined_callBody {rules : List Rule} {name : Text} {index : Nat}
    (h : Defined rules (.rule (.args index))) : Defined rules (callBody name index) := by
  rw [callBody, defined_seqs]
  simp only [List.forall_mem_cons]
  exact ⟨defined_lit _ _, defined_ws _, defined_lit _ _, defined_ws _, defined_lit _ _,
    defined_ws _, defined_lit _ _, defined_ws _, defined_lit _ _, defined_ws _, defined_lit _ _,
    defined_ws _, defined_lit _ _, defined_ws _, h, defined_ws _, defined_lit _ _,
    List.forall_mem_nil _⟩

/-- The rules of one tool: the arguments are defined before the call. -/
theorem tool_defined (schema : Value F) (name : Text) {sub : SubCompiler}
    (hsub : AllDefined sub.rules) :
    AllDefined ((value floats schema sub).2.rules ++
      [⟨.args sub.index, (value floats schema sub).1⟩, ⟨.call sub.index, callBody name sub.index⟩])
    := by
  have hmade : Defined (value floats schema sub).2.rules (value floats schema sub).1 ∧
      AllDefined (value floats schema sub).2.rules := by
    rw [value_eq_emit]
    exact emit_defined (shapeOf schema) hsub
  obtain ⟨hvalue, hall⟩ := hmade
  have hkept := fun rule (hrule : rule ∈ (value floats schema sub).2.rules) =>
    List.mem_append_left [⟨.args sub.index, (value floats schema sub).1⟩,
      ⟨.call sub.index, callBody name sub.index⟩] hrule
  intro rule hrule
  rcases List.mem_append.mp hrule with hold | hnew
  · exact (hall rule hold).mono hkept
  · rcases List.mem_pair.mp hnew with rfl | rfl
    · exact hvalue.mono hkept
    · apply defined_callBody
      intro name hname
      rw [List.mem_singleton.mp hname]
      apply List.mem_map_of_mem (f := Rule.name)
        (a := ⟨.args sub.index, (value floats schema sub).1⟩)
      exact List.mem_append_left _ (List.mem_append_right _ List.mem_cons_self)

theorem compileTools_defined {index : Nat} {tools : List (ToolSchema (Schema F))}
    {made made' : List Rule × Bool} (h : compileTools floats debug index tools made = .ok made')
    (hmade : AllDefined made.1) : AllDefined made'.1 := by
  induction tools generalizing index made with
  | nil =>
    rw [compileTools] at h
    cases h
    exact hmade
  | cons tool tools ih =>
    obtain ⟨rules, widened⟩ := made
    obtain ⟨-, hrest⟩ := compileTools_cons h
    have htool : AllDefined (SubCompiler.mk rules widened 0 index).rules := hmade
    exact ih hrest (tool_defined _ _ htool)

/-! ### The compiled rules -/

/-- The names that can be come by from the root. -/
inductive Reaches (rules : List Rule) : RuleName → Prop where
  | root : Reaches rules .root
  | rule {rule : Rule} {name : RuleName} : rule ∈ rules → Reaches rules rule.name →
      name ∈ rule.body.names → Reaches rules name

/-- Every name come by from the root has a rule, and no two rules are written
    under one name. -/
structure Closed (rules : List Rule) : Prop where
  defined : ∀ name, Reaches rules name → ∃ rule ∈ rules, rule.name = name
  once : (rules.map fun rule => rule.name.text).Nodup

theorem rootBody_defined {rules : List Rule} {count : Nat}
    (h : ∀ i < count, RuleName.call i ∈ rules.map Rule.name) (hcount : 0 < count) :
    Defined rules (rootBody count) := by
  have hcall : ∀ i < count, Defined rules (.rule (.call i)) := by
    intro i hi name hname
    rw [List.mem_singleton.mp hname, List.map_append]
    exact List.mem_append_left _ (h i hi)
  rw [rootBody, defined_alts, List.forall_mem_cons, List.forall_mem_map]
  refine ⟨hcall 0 hcount, fun i hi => hcall i ?_⟩
  rw [List.mem_range'_1] at hi
  omega

/-- **Compiled grammars are closed.** -/
theorem compile_closed {tools : List (ToolSchema (Schema F))} {compiled : Compiled}
    (h : compile floats debug tools = .ok compiled) : Closed (compiled.rules ++ preludeRules) := by
  obtain ⟨hpos, rules, widened, hmade, rfl⟩ := compile_eq_ok h
  have hloop := loopResult_of_ok hmade
  have howned := hloop.owned ⟨List.nodup_nil, by simp⟩
  have hrules : AllDefined rules := compileTools_defined hmade (List.forall_mem_nil _)
  have hcalls : ∀ i < tools.length, RuleName.call i ∈ rules.map Rule.name := by
    intro i hi
    obtain ⟨-, -, -, hcall⟩ := hloop.holds i tools[i] (List.getElem?_eq_getElem hi)
    rw [Nat.zero_add] at hcall
    exact List.mem_map_of_mem hcall
  have hall : AllDefined (⟨.root, rootBody tools.length⟩ :: rules) := by
    have hkept := fun (rule : Rule) (hrule : rule ∈ rules) =>
      List.mem_cons_of_mem ⟨.root, rootBody tools.length⟩ hrule
    intro rule hrule
    rcases List.mem_cons.mp hrule with rfl | hrule
    · exact (rootBody_defined hcalls hpos).mono hkept
    · exact (hrules rule hrule).mono hkept
  constructor
  · intro name hname
    cases hname with
    | root => exact ⟨_, List.mem_append_left _ List.mem_cons_self, rfl⟩
    | rule hrule _ hmentioned =>
      apply List.mem_map.mp
      rcases List.mem_append.mp hrule with hrule | hrule
      · exact hall _ hrule name hmentioned
      · rw [List.map_append]
        exact List.mem_append_right _ (preludeRules_closed _ hrule name hmentioned)
  · have hnodup := (howned.all_nodup (rootBody tools.length)).map text_injective
    rwa [List.map_map] at hnodup

/-- The grammar of `set_units` is closed. -/
theorem set_units_closed :
    ∃ compiled, compile noDoubles id [unitsTool] = .ok compiled ∧
      Closed (compiled.rules ++ preludeRules) := by
  obtain ⟨compiled, h⟩ : ∃ compiled, compile noDoubles id [unitsTool] = .ok compiled :=
    compile_one (by decide)
  exact ⟨compiled, h, compile_closed h⟩

end AiDaemon.Grammar
