import AiDaemon.Text

/-!
# Paths

A path is a text.  Its components are what lies between its slashes, without
the empty ones and without dots; joining two paths keeps the second one alone
when it begins with a slash.  Where a path leads (`resolve`) is another matter
than how it begins: a component of two dots goes back up.  There are no symbolic
links here.
-/

namespace AiDaemon.UnixPath

inductive Component where
  | root
  | cur
  | parent
  | normal (name : Text)
deriving DecidableEq, Repr

def isAbsolute (path : Text) : Bool := path.head? = some '/'

/-- What lies between the slashes. -/
def parts (path : Text) : List Text :=
  (path.splitOn '/').filter fun part => part ≠ [] ∧ part ≠ ['.']

def Component.ofPart (part : Text) : Component :=
  if part = ['.', '.'] then .parent else .normal part

/-- The components of a path; of the dots only a first one counts. -/
def components (path : Text) : List Component :=
  (if isAbsolute path then [.root]
    else if (path.splitOn '/').head? = some ['.'] then [.cur]
    else []) ++ (parts path).map Component.ofPart

/-- One path after the other, the second alone if it is absolute. -/
def join (path rest : Text) : Text :=
  if isAbsolute rest then rest
  else if path = [] ∨ path.getLast? = some '/' then path ++ rest
  else path ++ '/' :: rest

/-- A path begins with the components of another. -/
def startsWith (path base : Text) : Bool := (components base).isPrefixOf (components path)

/-! ### Where a path leads -/

/-- From a directory, one component further. -/
def step (dir : List Text) : Component → List Text
  | .root => []
  | .cur => dir
  | .parent => dir.dropLast
  | .normal name => dir ++ [name]

/-- Where a path leads from a working directory: the names from the root on. -/
def resolve (cwd : List Text) (path : Text) : List Text := (components path).foldl step cwd

theorem foldl_parts (cwd : List Text) (path : Text) :
    resolve cwd path =
      ((parts path).map Component.ofPart).foldl step (if isAbsolute path then [] else cwd) := by
  rw [resolve, components, List.foldl_append]
  congr 1
  split
  · rfl
  · split <;> rfl

theorem parts_append_slash (a b : Text) : parts (a ++ '/' :: b) = parts a ++ parts b := by
  rw [parts, List.splitOn_append_cons_self, List.filter_append, parts, parts]

/-- **A join leads** where its second path leads from where the first one does. -/
theorem resolve_join (cwd : List Text) (path rest : Text) :
    resolve cwd (join path rest) = resolve (resolve cwd path) rest := by
  rw [join]
  by_cases habs : isAbsolute rest
  · rw [if_pos habs, foldl_parts, foldl_parts (resolve cwd path), if_pos habs, if_pos habs]
  rw [if_neg habs]
  have hhead : ∀ more : Text, path ≠ [] → isAbsolute (path ++ more) = isAbsolute path := by
    intro more hne
    obtain ⟨c, cs, rfl⟩ := List.exists_cons_of_ne_nil hne
    rfl
  rw [foldl_parts (resolve cwd path), if_neg habs]
  by_cases hnil : path = []
  · subst hnil
    rw [if_pos (.inl rfl), List.nil_append, foldl_parts, if_neg habs]
    rfl
  split
  · next hslash =>
    obtain ⟨init, hinit⟩ : ∃ init, path = init ++ ['/'] :=
      List.getLast?_eq_some_iff.mp (hslash.resolve_left hnil)
    have hparts : parts (path ++ rest) = parts path ++ parts rest := by
      rw [hinit, List.append_assoc, List.singleton_append, parts_append_slash, parts_append_slash]
      rw [show parts [] = [] from rfl, List.append_nil]
    rw [foldl_parts, hhead rest hnil, hparts, List.map_append, List.foldl_append, ← foldl_parts]
  · rw [foldl_parts, hhead _ hnil, parts_append_slash, List.map_append, List.foldl_append,
      ← foldl_parts]

/-! ### How a path begins -/

theorem parts_join {path rest : Text} (h : isAbsolute rest = false) :
    parts (join path rest) = parts path ++ parts rest := by
  have hrelative : ¬ isAbsolute rest = true := by simp [h]
  rw [join, if_neg hrelative]
  split
  · next hslash =>
    rcases hslash with rfl | hslash
    · rfl
    · obtain ⟨init, rfl⟩ := List.getLast?_eq_some_iff.mp hslash
      rw [List.append_assoc, List.singleton_append, parts_append_slash, parts_append_slash]
      rw [show parts [] = [] from rfl, List.append_nil]
  · exact parts_append_slash path rest

/-- What stands before the parts of a path. -/
def lead (path : Text) : List Component :=
  if isAbsolute path then [.root]
  else if (path.splitOn '/').head? = some ['.'] then [.cur]
  else []

theorem components_eq (path : Text) : components path = lead path ++ (parts path).map .ofPart := rfl

theorem lead_append {path : Text} (hpath : path ≠ []) (rest : Text) :
    lead (path ++ '/' :: rest) = lead path := by
  have hhead : ((path ++ '/' :: rest).splitOn '/').head? = (path.splitOn '/').head? := by
    rw [List.splitOn_append_cons_self]
    exact List.head?_append_of_ne_nil _ (List.splitOn_ne_nil '/' path)
  have habsolute : isAbsolute (path ++ '/' :: rest) = isAbsolute path := by
    rw [isAbsolute, isAbsolute, List.head?_append_of_ne_nil _ hpath]
  rw [lead, lead, hhead, habsolute]

theorem lead_join {path rest : Text} (hpath : path ≠ []) (h : isAbsolute rest = false) :
    lead (join path rest) = lead path := by
  have hrelative : ¬ isAbsolute rest = true := by simp [h]
  rw [join, if_neg hrelative]
  split
  · next hslash =>
    obtain ⟨init, rfl⟩ := List.getLast?_eq_some_iff.mp (hslash.resolve_left hpath)
    by_cases hinit : init = []
    · subst hinit
      rfl
    · rw [List.append_assoc, List.singleton_append, lead_append hinit, lead_append hinit]
  · exact lead_append hpath rest

/-- What is in a directory begins with it. -/
theorem startsWith_join {path rest : Text} (h : isAbsolute rest = false) :
    startsWith (join path rest) path = true := by
  rw [startsWith, List.isPrefixOf_iff_prefix]
  by_cases hpath : path = []
  · subst hpath
    exact List.nil_prefix
  · rw [components_eq, components_eq, lead_join hpath h, parts_join h, List.map_append,
      ← List.append_assoc]
    exact List.prefix_append _ _

/-! ### Directories -/

/-- A path up to its last slash, that one included. -/
def folderOf (path : Text) : Text := (path.reverse.dropWhile (· ≠ '/')).reverse

/-- What comes after the last slash. -/
def fileOf (path : Text) : Text := (path.reverse.takeWhile (· ≠ '/')).reverse

theorem folderOf_append_fileOf (path : Text) : folderOf path ++ fileOf path = path := by
  rw [folderOf, fileOf, ← List.reverse_append, List.takeWhile_append_dropWhile,
    List.reverse_reverse]

theorem slash_not_mem_fileOf (path : Text) : '/' ∉ fileOf path := by
  intro hmem
  have hne := List.mem_takeWhile_imp (List.mem_reverse.mp hmem)
  simp at hne

theorem fileOf_append (folder : Text) {file : Text} (h : '/' ∉ file) :
    fileOf (folder ++ '/' :: file) = file ∧ folderOf (folder ++ '/' :: file) = folder ++ ['/'] := by
  have hreverse : (folder ++ '/' :: file).reverse = file.reverse ++ '/' :: folder.reverse := by
    simp
  have hall : ∀ c ∈ file.reverse, decide (c ≠ '/') = true := by
    intro c hc
    refine decide_eq_true ?_
    rintro rfl
    exact h (List.mem_reverse.mp hc)
  constructor
  · rw [fileOf, hreverse, List.takeWhile_append_of_pos hall, List.takeWhile_cons_of_neg (by simp),
      List.append_nil, List.reverse_reverse]
  · rw [folderOf, hreverse, List.dropWhile_append_of_pos hall, List.dropWhile_cons_of_neg (by simp)]
    simp

theorem folderOf_cases (path : Text) :
    folderOf path = [] ∨ ∃ init, folderOf path = init ++ ['/'] := by
  rw [folderOf]
  cases hdrop : path.reverse.dropWhile (· ≠ '/') with
  | nil => exact .inl rfl
  | cons c cs =>
    have hslash : ¬ (c ≠ '/') := by
      have hne : path.reverse.dropWhile (· ≠ '/') ≠ [] := by
        rw [hdrop]
        exact List.cons_ne_nil c cs
      have h := List.head_dropWhile_not (· ≠ '/') hne
      simp only [hdrop, List.head_cons, decide_eq_false_iff_not] at h
      exact h
    exact .inr ⟨cs.reverse, by rw [not_not.mp hslash, List.reverse_cons]⟩

theorem folderOf_eq_nil {path : Text} (h : '/' ∉ path) : folderOf path = [] := by
  rcases folderOf_cases path with hnil | ⟨init, hinit⟩
  · exact hnil
  · refine absurd ?_ h
    rw [← folderOf_append_fileOf path, hinit]
    simp

/-- A name that leads nowhere but to itself. -/
def Plain (name : Text) : Prop := '/' ∉ name ∧ name ≠ [] ∧ name ≠ ['.'] ∧ name ≠ ['.', '.']

theorem parts_plain {name : Text} (h : Plain name) : parts name = [name] := by
  obtain ⟨hslash, hnil, hdot, -⟩ := h
  rw [parts, List.splitOn_eq_singleton hslash]
  simp [hnil, hdot]

theorem ofPart_plain {name : Text} (h : Plain name) : Component.ofPart name = .normal name :=
  if_neg h.2.2.2

/-- A path leads to an entry of where its folder leads. -/
theorem resolve_append (cwd : List Text) (path suffix : Text) (h : Plain (fileOf path ++ suffix)) :
    resolve cwd (path ++ suffix) = resolve cwd (folderOf path) ++ [fileOf path ++ suffix] := by
  have hpath : path ++ suffix = folderOf path ++ (fileOf path ++ suffix) := by
    rw [← List.append_assoc, folderOf_append_fileOf]
  have hstep : ∀ dir, ((parts (fileOf path ++ suffix)).map Component.ofPart).foldl step dir =
      dir ++ [fileOf path ++ suffix] := by
    intro dir
    rw [parts_plain h, List.map_singleton, ofPart_plain h]
    rfl
  rw [hpath]
  rcases folderOf_cases path with hnil | ⟨init, hinit⟩
  · have habs : isAbsolute (fileOf path ++ suffix) = false := by
      obtain ⟨c, cs, hcons⟩ := List.exists_cons_of_ne_nil h.2.1
      have hc : c ≠ '/' := fun hc => h.1 (by rw [hcons, hc]; exact List.mem_cons_self)
      rw [hcons]
      simpa [isAbsolute] using hc
    rw [hnil, List.nil_append, foldl_parts, hstep, habs]
    rfl
  · have hhead :
      isAbsolute (init ++ '/' :: (fileOf path ++ suffix)) = isAbsolute (init ++ ['/']) := by
      cases init with
      | nil => rfl
      | cons => rfl
    rw [hinit, List.append_assoc, List.singleton_append, foldl_parts,
      foldl_parts cwd (init ++ ['/']),
      hhead, parts_append_slash, parts_append_slash, List.map_append, List.foldl_append, hstep]
    rw [show parts [] = [] from rfl, List.append_nil]

/-- Somewhere below a directory. -/
def Below (dir place : List Text) : Prop := dir <+: place ∧ dir ≠ place

/-- An entry of a directory. -/
def EntryOf (dir place : List Text) : Prop := ∃ name, place = dir ++ [name]

instance (dir place : List Text) : Decidable (Below dir place) :=
  inferInstanceAs (Decidable (_ ∧ _))

instance (dir place : List Text) : Decidable (EntryOf dir place) :=
  decidable_of_iff (place ≠ [] ∧ place.dropLast = dir) (by
    constructor
    · rintro ⟨hne, rfl⟩
      exact ⟨place.getLast hne, (List.dropLast_append_getLast hne).symm⟩
    · rintro ⟨name, rfl⟩
      exact ⟨List.append_ne_nil_of_right_ne_nil _ (List.cons_ne_nil _ _), List.dropLast_concat⟩)

theorem resolve_plain (cwd : List Text) {name : Text} (h : Plain name) :
    resolve cwd name = cwd ++ [name] :=
  resolve_append cwd [] name h

theorem below_append (dir : List Text) (name : Text) : Below dir (dir ++ [name]) := by
  refine ⟨List.prefix_append dir [name], fun heq => ?_⟩
  have hlength := congrArg List.length heq
  simp at hlength

theorem entryOf_append (dir init : List Text) (name : Text) :
    EntryOf dir (init ++ [name]) ↔ init = dir := by
  constructor
  · rintro ⟨name', heq⟩
    exact (List.append_inj_left' heq rfl)
  · rintro rfl
    exact ⟨name, rfl⟩

end AiDaemon.UnixPath
