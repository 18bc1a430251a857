import ClantoDesk.FileSystem
import Mathlib.Data.List.Induction

/-!
What stands below one directory of a disk, as a function of the names that lead there. A path
below the directory names what these names lead to, and the operations of the disk on such
paths change the function at one place.
Nothing in this module refers to a particular program.
-/
namespace ClantoDesk.FileSystem

variable {α β : Type}

namespace Disk

variable (d : Disk α) (g : Location → ℕ → α → α) (p q : Location)

theorem get_eq_some_iff (node : Node α) (hp : p ≠ []) :
    d.get p = some node ↔ (p, node) ∈ d.entries :=
  ⟨d.mem_of_get p node hp, d.get_of_mem p node hp⟩

/-- Two places with the same entries hold the same. -/
theorem get_congr (e : Disk α) (p q : Location) (hp : p ≠ []) (hq : q ≠ [])
    (h : ∀ node, (p, node) ∈ d.entries ↔ (q, node) ∈ e.entries) : d.get p = e.get q := by
  apply Option.ext
  intro node
  rw [get_eq_some_iff d p node hp, get_eq_some_iff e q node hq]
  exact h node

theorem get_same (e : Disk α) (q : Location)
    (h : ∀ node, (q, node) ∈ d.entries ↔ (q, node) ∈ e.entries) : d.get q = e.get q := by
  by_cases hq : q = []
  · rw [hq, get, get, if_pos rfl, if_pos rfl]
  · exact get_congr d e q q hq hq h

theorem get_none_of (hp : p ≠ []) (h : ∀ node, (p, node) ∉ d.entries) : d.get p = none := by
  cases hget : d.get p with
  | none => rfl
  | some node => exact absurd (d.mem_of_get p node hp hget) (h node)

theorem get_erase (hp : p ≠ []) : (d.erase p).get q = if q = p then none else d.get q := by
  split
  · rename_i heq
    subst heq
    exact get_none_of _ q hp fun node hmem => ((d.mem_erase q _).mp hmem).2 rfl
  · rename_i hne
    refine get_same _ _ q fun node => ?_
    rw [mem_erase]
    exact ⟨fun h => h.1, fun h => ⟨h, hne⟩⟩

theorem get_addDir : (d.addDir p).get q = if q = p then some .dir else d.get q := by
  by_cases hq : q = []
  · subst hq
    split <;> rfl
  · split
    · rename_i heq
      subst heq
      exact get_of_mem _ q _ hq ((d.mem_addDir q _).mpr (Or.inl rfl))
    · rename_i hne
      refine get_same _ _ q fun node => ?_
      rw [mem_addDir]
      constructor
      · rintro (heq | ⟨hmem, -⟩)
        · exact absurd (Prod.mk.inj heq).1 hne
        · exact hmem
      · exact fun hmem => Or.inr ⟨hmem, hne⟩

theorem get_add (content : α) (hp : p ≠ []) :
    (d.add p content).get q = if q = p then some (.file d.next content) else d.get q := by
  split
  · rename_i heq
    subst heq
    exact get_of_mem _ q _ hp ((d.mem_add q content _).mpr (Or.inl rfl))
  · rename_i hne
    refine get_same _ _ q fun node => ?_
    rw [mem_add]
    constructor
    · rintro (heq | ⟨hmem, -⟩)
      · exact absurd (Prod.mk.inj heq).1 hne
      · exact hmem
    · exact fun hmem => Or.inr ⟨hmem, hne⟩

theorem get_update (inode : ℕ) (old : α) (f : α → α) (hget : d.get p = some (.file inode old)) :
    (d.update inode f).get q = if q = p then some (.file inode (f old)) else d.get q := by
  have hp := d.ne_root_of_file p inode old hget
  have hold := d.mem_of_get_file p inode old hget
  split
  · rename_i heq
    subst heq
    refine get_of_mem _ q _ hp ((d.mem_map_file _ q inode _).mpr ⟨old, hold, ?_⟩)
    exact (if_pos rfl).symm
  · rename_i hne
    refine get_same _ _ q fun node => ?_
    have hsame : ∀ other, (q, other) ∈ d.entries →
        other.map (fun j content => if j = inode then f content else content) = other := by
      intro other hmem
      cases other with
      | dir => rfl
      | link target => rfl
      | file j content =>
        have hj : j ≠ inode := by
          rintro rfl
          exact hne (d.file_unique q p j content old hmem hold).1
        simp only [Node.map, if_neg hj]
    constructor
    · intro hmem
      obtain ⟨other, hother, rfl⟩ := (d.mem_map _ q node).mp hmem
      rwa [hsame other hother]
    · intro hmem
      exact (d.mem_map _ q node).mpr ⟨node, hmem, (hsame node hmem).symm⟩

/-- Opening a file changes one place, where nothing or a file was. -/
theorem create_get {os : Os} {d e : Disk α} {path : Path} {content : α} {inode : ℕ}
    (hcreate : d.create os path content = some (e, inode)) :
    ∃ p, d.resolve os.cwd true path = .at p ∧ p ≠ [] ∧
      (d.get p = none ∨ ∃ old, d.get p = some (.file inode old)) ∧
      ∀ q, e.get q = if q = p then some (.file inode content) else d.get q := by
  obtain ⟨p, hp, ⟨hnone, rfl, rfl⟩ | ⟨old, hold, rfl⟩⟩ := create_eq hcreate
  · have hroot : p ≠ [] := by
      rintro rfl
      cases hnone
    exact ⟨p, hp, hroot, Or.inl hnone, fun q => d.get_add p q content hroot⟩
  · exact ⟨p, hp, d.ne_root_of_file p inode old hold, Or.inr ⟨old, hold⟩,
      fun q => d.get_update p q inode old _ hold⟩

/-- Opening a file leaves the directories and links. -/
theorem within_create {os : Os} {d e : Disk α} {path : Path} {content : α} {inode : ℕ}
    (hcreate : d.create os path content = some (e, inode)) : d.Within e := by
  obtain ⟨p, -, -, hwas, hget⟩ := create_get hcreate
  have hstays : ∀ q node, d.get q = some node → node.inode? = none → e.get q = some node := by
    intro q node hq hnode
    rw [hget q, if_neg]
    · exact hq
    · rintro rfl
      rcases hwas with hnone | ⟨old, hold⟩
      · rw [hnone] at hq
        cases hq
      · obtain rfl := Option.some.inj (hold.symm.trans hq)
        cases hnode
  exact ⟨fun q hq => hstays q _ hq rfl, fun q target hq => hstays q _ hq rfl⟩

/-- A file that moves leaves its place and is found at the other. -/
theorem get_moveLeaf (r : Location) (hp : p ≠ []) (hq : q ≠ []) (hpq : p ≠ q) :
    (d.moveLeaf p q).get r = if r = q then d.get p else if r = p then none else d.get r := by
  by_cases hr : r = []
  · subst hr
    rw [if_neg (Ne.symm hq), if_neg (Ne.symm hp), get, get, if_pos rfl, if_pos rfl]
  · split
    · rename_i heq
      subst heq
      refine get_congr _ _ r p hr hp fun node => ?_
      constructor
      · intro hmem
        obtain ⟨old, hold, hkeep, heq⟩ := (d.mem_relocate _ _ _ _).mp hmem
        by_cases hsrc : old = p
        · exact hsrc ▸ hold
        · simp only [leafPlace, if_neg hsrc] at heq
          exact absurd heq.symm hkeep
      · intro hmem
        refine (d.mem_relocate _ _ _ _).mpr ⟨p, hmem, hpq, ?_⟩
        simp only [leafPlace, if_pos]
    · rename_i hne
      split
      · rename_i heq
        subst heq
        refine get_none_of _ r hr fun node hmem => ?_
        obtain ⟨old, hold, -, heq⟩ := (d.mem_relocate _ _ _ _).mp hmem
        by_cases hsrc : old = r
        · simp only [leafPlace, if_pos hsrc] at heq
          exact hpq heq
        · simp only [leafPlace, if_neg hsrc] at heq
          exact hsrc heq.symm
      · rename_i hnot
        refine get_congr _ _ r r hr hr fun node => ?_
        constructor
        · intro hmem
          obtain ⟨old, hold, -, heq⟩ := (d.mem_relocate _ _ _ _).mp hmem
          by_cases hsrc : old = p
          · simp only [leafPlace, if_pos hsrc] at heq
            exact absurd heq hne
          · simp only [leafPlace, if_neg hsrc] at heq
            exact heq ▸ hold
        · intro hmem
          refine (d.mem_relocate _ _ _ _).mpr ⟨r, hmem, hne, ?_⟩
          simp only [leafPlace, if_neg hnot]

theorem get_map : (d.map g).get p = (d.get p).map (Node.map (g p)) := by
  by_cases hp : p = []
  · subst hp
    rfl
  · apply Option.ext
    intro node
    rw [get_eq_some_iff _ p node hp, mem_map, Option.map_eq_some_iff]
    constructor
    · rintro ⟨old, hold, rfl⟩
      exact ⟨old, d.get_of_mem p old hp hold, rfl⟩
    · rintro ⟨old, hold, rfl⟩
      exact ⟨old, d.mem_of_get p old hp hold, rfl⟩

theorem walkOnce_map (follow : Bool) (names : List Name)
    (p : Location) : (d.map g).walkOnce follow p names = d.walkOnce follow p names := by
  induction names generalizing p with
  | nil => rfl
  | cons c rest ih =>
    rw [walkOnce, walkOnce, get_map, ih p.dropLast]
    split
    · rfl
    · cases d.get (p ++ [c]) with
      | none => rfl
      | some node =>
        cases node with
        | dir => exact ih (p ++ [c])
        | link target => rfl
        | file inode content => rfl

/-- What files hold does not change where paths lead. -/
theorem resolve_map (cwd : Location) (follow : Bool)
    (path : Path) : (d.map g).resolve cwd follow path = d.resolve cwd follow path := by
  have hwalk : ∀ n names p, (d.map g).walk follow n p names = d.walk follow n p names := by
    intro n
    induction n with
    | zero => intro names p; rfl
    | succ n ih =>
      intro names p
      rw [walk, walk, walkOnce_map]
      cases d.walkOnce follow p names with
      | found found => rfl
      | link base target rest => exact ih _ _
  unfold resolve
  split
  · rfl
  · exact hwalk _ _ _

end Disk

variable (d : Disk α) (path dir name suffix : Path) (c : Name)

/-- A suffix without a separator goes to the last segment of a path. -/
theorem exists_splitOn_append :
    ∃ pre c, ∀ suffix : Path, '/' ∉ suffix → (path ++ suffix).splitOn '/' = pre ++
    [c ++ suffix] := by
  induction path with
  | nil =>
    refine ⟨[], [], fun suffix h => ?_⟩
    rw [List.nil_append, List.splitOn_eq_singleton h]
    rfl
  | cons x path ih =>
    obtain ⟨pre, c, heq⟩ := ih
    by_cases hx : x = '/'
    · refine ⟨[] :: pre, c, fun suffix h => ?_⟩
      rw [List.cons_append, List.splitOn_cons_eq_if_modifyHead, heq suffix h, if_pos (by simp [hx])]
      rfl
    · cases pre with
      | nil =>
        refine ⟨[], x :: c, fun suffix h => ?_⟩
        rw [List.cons_append, List.splitOn_cons_eq_if_modifyHead, heq suffix h,
          if_neg (by simp [hx])]
        rfl
      | cons name pre =>
        refine ⟨(x :: name) :: pre, c, fun suffix h => ?_⟩
        rw [List.cons_append, List.splitOn_cons_eq_if_modifyHead, heq suffix h,
          if_neg (by simp [hx])]
        rfl

def lastSegment (path : Path) : Name := (path.splitOn '/').getLastD []

def leadingNames (path : Path) : List Name :=
  (path.splitOn '/').dropLast.filter fun c => !c.isEmpty && c ≠ ['.']

theorem splitOn_append (h : '/' ∉ suffix) :
    (path ++ suffix).splitOn '/' = (path.splitOn '/').dropLast ++ [lastSegment path ++ suffix] := by
  obtain ⟨pre, c, heq⟩ := exists_splitOn_append path
  have hpath := heq [] (by simp)
  rw [List.append_nil, List.append_nil] at hpath
  rw [heq suffix h, lastSegment, hpath]
  simp

theorem lastSegment_append (h : '/' ∉ suffix) :
    lastSegment (path ++ suffix) = lastSegment path ++ suffix := by
  rw [lastSegment, splitOn_append path suffix h, List.getLastD_concat]

theorem lastSegment_append_cons (base name : Path) :
    lastSegment (base ++ '/' :: name) = lastSegment name := by
  rw [lastSegment, lastSegment, List.splitOn_append_cons_self, List.getLastD_eq_getLast?,
    List.getLastD_eq_getLast?, List.getLast?_append_of_ne_nil _ (List.splitOn_ne_nil _ _)]

theorem lastSegment_join (base name : Path) : lastSegment (join base name) = lastSegment name := by
  unfold join
  split
  · rfl
  · split
    · rename_i hlast
      obtain ⟨init, rfl⟩ := List.getLast?_eq_some_iff.mp hlast
      rw [List.append_assoc, List.singleton_append, lastSegment_append_cons]
    · exact lastSegment_append_cons base name

theorem endsInName_iff : endsInName false path = true ↔
    lastSegment path ≠ [] ∧ lastSegment path ≠ ['.'] ∧ lastSegment path ≠ ['.', '.'] := by
  unfold endsInName lastSegment
  simp only [Bool.not_false, Bool.true_or, List.filter_true, List.getLastD_eq_getLast?]
  cases path.splitOn '/' |>.getLast? with
  | none => simp
  | some c => simp [and_assoc]

def Proper (path : Path) : Prop := lastSegment path ≠ [] ∧ lastSegment path ≠ ['.']

instance (path : Path) : Decidable (Proper path) := by
  unfold Proper
  infer_instance

theorem components_append (h : '/' ∉ suffix) (hlong : 1 < suffix.length) :
    components (path ++ suffix) = leadingNames path ++ [lastSegment path ++ suffix] := by
  have hne : (lastSegment path ++ suffix).isEmpty = false ∧ lastSegment path ++ suffix ≠ ['.'] := by
    have hlength : 1 < (lastSegment path ++ suffix).length := by
      rw [List.length_append]
      omega
    constructor
    · cases hc : lastSegment path ++ suffix with
      | nil => simp [hc] at hlength
      | cons _ _ => rfl
    · intro hc
      simp [hc] at hlength
  rw [components, splitOn_append path suffix h, List.filter_append, List.filter_cons, hne.1]
  simp [hne.2, leadingNames]

theorem components_of_proper (h : Proper path) :
    components path = leadingNames path ++ [lastSegment path] := by
  have hsplit := splitOn_append path [] (by simp)
  rw [List.append_nil, List.append_nil] at hsplit
  rw [components, hsplit, List.filter_append, List.filter_cons, ← leadingNames]
  simp [h.1, h.2]

theorem components_of_not_proper (h : ¬ Proper path) : components path = leadingNames path := by
  have hsplit := splitOn_append path [] (by simp)
  rw [List.append_nil, List.append_nil] at hsplit
  rw [components, hsplit, List.filter_append, List.filter_cons, ← leadingNames]
  by_cases hempty : lastSegment path = []
  · simp [hempty]
  · have hdot : lastSegment path = ['.'] := by
      by_contra hne
      exact h ⟨hempty, hne⟩
    simp [hdot]

theorem dots_not_mem_append (h : '/' ∉ suffix) (hlong : 2 < suffix.length)
    (hdots : ['.', '.'] ∉ components path) : ['.', '.'] ∉ components (path ++ suffix) := by
  rw [components_append path suffix h (by omega)]
  intro hmem
  rcases List.mem_append.mp hmem with hlead | hlast
  · apply hdots
    by_cases hproper : Proper path
    · rw [components_of_proper path hproper]
      exact List.mem_append_left _ hlead
    · rwa [components_of_not_proper path hproper]
  · have hlength := congrArg List.length (List.mem_singleton.mp hlast)
    rw [List.length_append] at hlength
    simp only [List.length_cons, List.length_nil] at hlength
    omega

theorem slash_not_mem_splitOn (h : c ∈ path.splitOn '/') : '/' ∉ c := by
  induction path generalizing c with
  | nil =>
    rw [List.splitOn_nil] at h
    simp [List.mem_singleton.mp h]
  | cons x path ih =>
    rw [List.splitOn_cons_eq_if_modifyHead] at h
    split at h
    · rcases List.mem_cons.mp h with rfl | hmem
      · simp
      · exact ih c hmem
    · rename_i hx
      have hne : '/' ≠ x := by
        rintro rfl
        exact hx (by simp)
      cases hsplit : path.splitOn '/' with
      | nil => exact absurd hsplit (List.splitOn_ne_nil _ _)
      | cons name rest =>
        rw [hsplit, List.modifyHead_cons] at h
        rcases List.mem_cons.mp h with rfl | hmem
        · intro hslash
          rcases List.mem_cons.mp hslash with heq | hold
          · exact hne heq
          · exact ih name (by simp [hsplit]) hold
        · exact ih c (by simp [hsplit, hmem])

theorem components_of_mem (h : c ∈ components path) :
    components c = [c] ∧ isAbsolute c = false := by
  obtain ⟨hsplit, hkeep⟩ := List.mem_filter.mp h
  have hslash := slash_not_mem_splitOn path c hsplit
  constructor
  · rw [components, List.splitOn_eq_singleton hslash]
    simp only [List.filter_cons, hkeep, if_true, List.filter_nil]
  · cases c with
    | nil => rfl
    | cons x c =>
      have hx : x ≠ '/' := by
        rintro rfl
        exact hslash List.mem_cons_self
      simp [isAbsolute, hx]

/-- Joined names are read as these names. -/
theorem ofComponents_spec (absolute : Bool) (names : List Name)
    (h : ∀ c ∈ names, c ≠ [] ∧ c ≠ ['.'] ∧ '/' ∉ c) :
    isAbsolute (ofComponents absolute names) = absolute ∧
      components (ofComponents absolute names) = names := by
  have hkept : names.filter (fun c => !c.isEmpty && c ≠ ['.']) = names := by
    rw [List.filter_eq_self]
    intro c hc
    obtain ⟨hne, hdot, -⟩ := h c hc
    simp [hne, hdot]
  cases names with
  | nil => cases absolute <;> exact ⟨rfl, rfl⟩
  | cons c names =>
    have hslash : ∀ x ∈ c :: names, '/' ∉ x := fun x hx => (h x hx).2.2
    have hsplit : (List.intercalate ['/'] (c :: names)).splitOn '/' = c :: names :=
      List.splitOn_intercalate '/' hslash (List.cons_ne_nil c names)
    cases absolute with
    | true =>
      refine ⟨rfl, ?_⟩
      rw [components, ofComponents, if_pos rfl, List.singleton_append,
        List.splitOn_cons_eq_if_modifyHead, if_pos (by decide), hsplit]
      exact hkept
    | false =>
      have hplain : ofComponents false (c :: names) = List.intercalate ['/'] (c :: names) := rfl
      refine ⟨?_, by rw [components, hplain, hsplit]; exact hkept⟩
      rw [hplain]
      cases habsolute : isAbsolute (List.intercalate ['/'] (c :: names)) with
      | false => rfl
      | true =>
        have hhead : (List.intercalate ['/'] (c :: names)).head? = some '/' := by
          simpa [isAbsolute] using habsolute
        obtain ⟨rest, hrest⟩ := List.head?_eq_some_iff.mp hhead
        rw [hrest, List.splitOn_cons_eq_if_modifyHead, if_pos (by decide)] at hsplit
        exact absurd (List.cons.inj hsplit).1.symm (h c (List.mem_cons_self ..)).1

theorem mem_components (h : c ∈ components path) : c ≠ [] ∧ c ≠ ['.'] ∧ '/' ∉ c := by
  obtain ⟨hsplit, hkeep⟩ := List.mem_filter.mp h
  have hslash := slash_not_mem_splitOn path c hsplit
  simp only [Bool.and_eq_true, Bool.not_eq_true', decide_eq_true_eq] at hkeep
  exact ⟨fun hnil => by simp [hnil] at hkeep, hkeep.2, hslash⟩

theorem parent_eq_some (h : parent path = some dir) :
    isAbsolute dir = isAbsolute path ∧ components dir = (components path).dropLast := by
  unfold parent at h
  split at h
  · cases h
  · rw [← Option.some.inj h]
    exact ofComponents_spec _ _ fun c hc => mem_components path c (List.dropLast_subset _ hc)

/-- The path leads to the directory `dir` and from there along the names. -/
structure Below (dir path : Path) (names : List Name) : Prop where
  nonempty : path ≠ []
  absolute : isAbsolute path = isAbsolute dir
  components : components path = components dir ++ names

theorem below_self (h : dir ≠ []) : Below dir dir [] :=
  ⟨h, rfl, (List.append_nil _).symm⟩

theorem Below.join {dir path : Path} {names : List Name} (h : Below dir path names) (name : Path)
    (hname : isAbsolute name = false) :
    Below dir (join path name) (names ++ FileSystem.components name) := by
  cases hlast : path.getLast? with
  | none => exact absurd (List.getLast?_eq_none_iff.mp hlast) h.nonempty
  | some x =>
    obtain ⟨pre, rfl⟩ := List.getLast?_eq_some_iff.mp hlast
    have hsplit : ∀ first rest : Path, FileSystem.components (first ++ '/' :: rest) =
        FileSystem.components first ++ FileSystem.components rest := by
      intro first rest
      rw [FileSystem.components, List.splitOn_append_cons_self, List.filter_append]
      rfl
    have hhead : ∀ rest : Path, isAbsolute ((pre ++ [x]) ++ rest) = isAbsolute (pre ++ [x]) := by
      intro rest
      cases pre with
      | nil => rfl
      | cons _ _ => rfl
    by_cases hx : x = '/'
    · subst hx
      have hjoin : FileSystem.join (pre ++ ['/']) name = (pre ++ ['/']) ++ name := by
        simp [FileSystem.join, hname]
      rw [hjoin]
      refine ⟨by simp, (hhead name).trans h.absolute, ?_⟩
      have hdir := h.components
      rw [hsplit, show FileSystem.components [] = [] from rfl, List.append_nil] at hdir
      rw [List.append_assoc, List.cons_append, List.nil_append, hsplit, hdir, List.append_assoc]
    · have hjoin : FileSystem.join (pre ++ [x]) name = (pre ++ [x]) ++ '/' :: name := by
        simp [FileSystem.join, hname, hx]
      rw [hjoin]
      refine ⟨by simp, (hhead ('/' :: name)).trans h.absolute, ?_⟩
      rw [hsplit, h.components, List.append_assoc]

/-- What is put after a name below a directory is put after the whole path. -/
theorem join_append (hname : name ≠ []) : join dir (name ++ suffix) = join dir name ++ suffix := by
  have habsolute : isAbsolute (name ++ suffix) = isAbsolute name := by
    cases name with
    | nil => exact absurd rfl hname
    | cons _ _ => rfl
  unfold join
  rw [habsolute]
  split
  · rfl
  · split
    · rw [List.append_assoc]
    · rw [List.append_assoc, List.cons_append]

namespace Disk

section Walks

variable (d : Disk α)

theorem walkOnce_append_dir (follow : Bool) (names rest : List Name) (p b : Location)
    (h : d.walkOnce false p names = .found (.at b)) (hb : d.get b = some .dir) :
    d.walkOnce follow p (names ++ rest) = d.walkOnce follow b rest := by
  induction names generalizing p with
  | nil =>
    obtain rfl := Found.at.inj (Walked.found.inj h)
    rfl
  | cons c names ih =>
    rw [walkOnce] at h
    rw [List.cons_append, walkOnce]
    split
    · rename_i hdots
      rw [if_pos hdots] at h
      exact ih p.dropLast h
    · rename_i hdots
      rw [if_neg hdots] at h
      have hlast : names.isEmpty = true → p ++ [c] = b → d.get (p ++ [c]) = some .dir := by
        intro _ heq
        rw [heq, hb]
      cases hget : d.get (p ++ [c]) with
      | none =>
        rw [hget] at h
        cases hnames : names.isEmpty with
        | true =>
          rw [hnames] at h
          have hdir := hlast hnames (Found.at.inj (Walked.found.inj h))
          rw [hget] at hdir
          cases hdir
        | false =>
          rw [hnames] at h
          cases Walked.found.inj h
      | some node =>
        rw [hget] at h
        cases node with
        | dir => exact ih (p ++ [c]) h
        | link target =>
          cases hnames : names.isEmpty with
          | true =>
            rw [hnames] at h
            have hdir := hlast hnames (Found.at.inj (Walked.found.inj h))
            rw [hget] at hdir
            cases hdir
          | false =>
            rw [hnames] at h
            cases h
        | file inode content =>
          cases hnames : names.isEmpty with
          | true =>
            rw [hnames] at h
            have hdir := hlast hnames (Found.at.inj (Walked.found.inj h))
            rw [hget] at hdir
            cases hdir
          | false =>
            rw [hnames] at h
            cases Walked.found.inj h

theorem walkOnce_append_link (follow : Bool) (names rest : List Name) (p base : Location)
    (target : Path) (after : List Name) (h : d.walkOnce false p names = .link base target after) :
    d.walkOnce follow p (names ++ rest) = .link base target (after ++ rest) := by
  induction names generalizing p with
  | nil => cases h
  | cons c names ih =>
    rw [walkOnce] at h
    rw [List.cons_append, walkOnce]
    split
    · rename_i hdots
      rw [if_pos hdots] at h
      exact ih p.dropLast h
    · rename_i hdots
      rw [if_neg hdots] at h
      cases hget : d.get (p ++ [c]) with
      | none =>
        rw [hget] at h
        cases hnames : names.isEmpty with
        | true =>
          rw [hnames] at h
          cases h
        | false =>
          rw [hnames] at h
          cases h
      | some node =>
        rw [hget] at h
        cases node with
        | dir => exact ih (p ++ [c]) h
        | link target' =>
          cases names with
          | nil => cases h
          | cons x names =>
            obtain ⟨rfl, rfl, rfl⟩ := Walked.link.inj h
            rfl
        | file inode content =>
          cases hnames : names.isEmpty with
          | true =>
            rw [hnames] at h
            cases h
          | false =>
            rw [hnames] at h
            cases h

theorem walk_append (follow : Bool) (n : ℕ) (names rest : List Name) (p b : Location)
    (found : Found) (h : d.walk false n p names = .at b) (hb : d.get b = some .dir)
    (hwalk : d.walkOnce follow b rest = .found found) :
    d.walk follow n p (names ++ rest) = found := by
  induction n generalizing p names with
  | zero => cases h
  | succ n ih =>
    rw [walk] at h ⊢
    cases hw : d.walkOnce false p names with
    | found first =>
      rw [hw] at h
      simp only at h
      subst h
      rw [d.walkOnce_append_dir follow names rest p b hw hb, hwalk]
    | link base target after =>
      rw [hw] at h
      rw [d.walkOnce_append_link follow names rest p base target after hw]
      simp only at h ⊢
      rw [← List.append_assoc]
      exact ih _ _ h

theorem resolve_below (cwd : Location) (follow : Bool) {dir path : Path} {names : List Name}
    (hpath : Below dir path names) {b : Location} (hdir : d.resolve cwd false dir = .at b)
    (hb : d.get b = some .dir) {found : Found} (hwalk : d.walkOnce follow b names = .found found) :
    d.resolve cwd follow path = found := by
  unfold resolve at hdir ⊢
  rw [if_neg (by simpa using hpath.nonempty), hpath.absolute, hpath.components]
  split at hdir
  · cases hdir
  · exact d.walk_append follow _ _ names _ b found hdir hb hwalk

end Walks

/-- A path that ends in a name, if no link of this name is followed, leads to a place with this
name. -/
theorem resolve_last {path : Path} (hname : endsInName false path = true) {follow : Bool}
    (hlinks : follow = true → ∀ p target, d.get (p ++ [lastSegment path]) ≠ some (.link target))
    {cwd q : Location} (hresolve : d.resolve cwd follow path = .at q) :
    ∃ r, q = r ++ [lastSegment path] := by
  obtain ⟨hempty, hdot, hdots⟩ := (endsInName_iff path).mp hname
  unfold resolve at hresolve
  split at hresolve
  · cases hresolve
  · rw [components_of_proper path ⟨hempty, hdot⟩] at hresolve
    exact d.walk_leaf follow _ hdots hlinks _ _ _ q hresolve

/-- A path with a suffix names a location that ends in its last segment with the suffix, if no link
is named so. -/
theorem resolve_leaf (path : Path) (hslash : '/' ∉ suffix) (hlong : 2 < suffix.length)
    (hlinks : ∀ p target, d.get (p ++ [lastSegment path ++ suffix]) ≠ some (.link target))
    (cwd : Location) (follow : Bool) (q : Location)
    (hresolve : d.resolve cwd follow (path ++ suffix) = .at q) :
    ∃ r, q = r ++ [lastSegment path ++ suffix] := by
  have hdots : lastSegment path ++ suffix ≠ ['.', '.'] := by
    intro hc
    have hlength := congrArg List.length hc
    rw [List.length_append] at hlength
    simp only [List.length_cons, List.length_nil] at hlength
    omega
  unfold resolve at hresolve
  split at hresolve
  · cases hresolve
  · rw [components_append path suffix hslash (by omega)] at hresolve
    exact d.walk_leaf follow _ hdots (fun _ => hlinks) _ _ _ q hresolve

/-- Where no link is named so, it does not matter whether a last link would be followed. -/
theorem resolve_nofollow (path : Path) (hslash : '/' ∉ suffix) (hlong : 2 < suffix.length)
    (hlinks : ∀ p target, d.get (p ++ [lastSegment path ++ suffix]) ≠ some (.link target))
    (cwd : Location) :
    d.resolve cwd true (path ++ suffix) = d.resolve cwd false (path ++ suffix) := by
  have hdots : lastSegment path ++ suffix ≠ ['.', '.'] := by
    intro hc
    have hlength := congrArg List.length hc
    rw [List.length_append] at hlength
    simp only [List.length_cons, List.length_nil] at hlength
    omega
  have hwalk : ∀ n pre p, d.walk true n p (pre ++ [lastSegment path ++ suffix]) =
      d.walk false n p (pre ++ [lastSegment path ++ suffix]) := by
    intro n
    induction n with
    | zero => intro pre p; rfl
    | succ n ih =>
      intro pre p
      have hends := d.walkOnce_leaf false _ hdots (fun _ => hlinks) pre p
      rcases d.walkOnce_follow (pre ++ [lastSegment path ++ suffix]) p with
        heq | ⟨q, target, heq, hlink⟩
      · rw [walk, walk, heq]
        cases hw : d.walkOnce false p (pre ++ [lastSegment path ++ suffix]) with
        | found found => rfl
        | link base target rest =>
          rw [hw] at hends
          obtain ⟨pre', rfl⟩ := hends
          simp only
          rw [← List.append_assoc]
          exact ih _ _
      · rw [heq] at hends
        obtain ⟨r, rfl⟩ := hends
        exact absurd hlink (hlinks r target)
  unfold resolve
  split
  · rfl
  · rw [components_append path suffix hslash (by omega)]
    exact hwalk _ _ _

def Closed (d : Disk α) : Prop := ∀ p n, d.get (p ++ [n]) ≠ none → d.get p = some .dir

theorem Closed.dropLast {d : Disk α} (h : d.Closed) (p : Location) (hp : d.get p = some .dir) :
    d.get p.dropLast = some .dir := by
  cases hlast : p.getLast? with
  | none =>
    rw [List.getLast?_eq_none_iff.mp hlast]
    rfl
  | some n =>
    obtain ⟨q, rfl⟩ := List.getLast?_eq_some_iff.mp hlast
    rw [List.dropLast_concat]
    exact h q n (by simp [hp])

/-- Where a walk through directories ends there is something, if a longer walk succeeds. -/
theorem walkOnce_some {d : Disk α} (h : d.Closed) (names rest : List Name) (p q b : Location)
    (hp : d.get p = some .dir) (hrest : rest ≠ [])
    (hq : d.walkOnce false p names = .found (.at q))
    (hb : d.walkOnce false p (names ++ rest) = .found (.at b) ∨
      ∃ base target after, d.walkOnce false p (names ++ rest) = .link base target after) :
    d.get q ≠ none := by
  induction names generalizing p with
  | nil =>
    obtain rfl := Found.at.inj (Walked.found.inj hq)
    simp [hp]
  | cons c names ih =>
    rw [walkOnce] at hq
    rw [List.cons_append, walkOnce] at hb
    split at hq
    · rename_i hdots
      rw [if_pos hdots] at hb
      exact ih p.dropLast (h.dropLast p hp) hq hb
    · rename_i hdots
      rw [if_neg hdots] at hb
      have hmore : (names ++ rest).isEmpty = false := by simp [hrest]
      cases hget : d.get (p ++ [c]) with
      | none =>
        rw [hget, hmore] at hb
        rcases hb with hb | ⟨base, target, after, hb⟩ <;> cases hb
      | some node =>
        rw [hget] at hq hb
        cases node with
        | dir => exact ih (p ++ [c]) hget hq hb
        | link target =>
          cases hnames : names.isEmpty with
          | true =>
            rw [hnames] at hq
            obtain rfl := Found.at.inj (Walked.found.inj hq)
            simp [hget]
          | false =>
            rw [hnames] at hq
            cases hq
        | file inode content =>
          rw [hmore] at hb
          rcases hb with hb | ⟨base, target, after, hb⟩ <;> cases hb

theorem walkOnce_link_dir {d : Disk α} (h : d.Closed) (names : List Name) (p base : Location)
    (target : Path) (after : List Name) (hp : d.get p = some .dir)
    (hlink : d.walkOnce false p names = .link base target after) : d.get base = some .dir := by
  induction names generalizing p with
  | nil => cases hlink
  | cons c names ih =>
    rw [walkOnce] at hlink
    split at hlink
    · exact ih p.dropLast (h.dropLast p hp) hlink
    · cases hget : d.get (p ++ [c]) with
      | none =>
        rw [hget] at hlink
        cases hnames : names.isEmpty <;> rw [hnames] at hlink <;> cases hlink
      | some node =>
        rw [hget] at hlink
        cases node with
        | dir => exact ih (p ++ [c]) hget hlink
        | link target' =>
          cases hnames : names.isEmpty with
          | true =>
            rw [hnames] at hlink
            cases hlink
          | false =>
            rw [hnames] at hlink
            obtain ⟨rfl, -, -⟩ := Walked.link.inj hlink
            exact hp
        | file inode content =>
          cases hnames : names.isEmpty <;> rw [hnames] at hlink <;> cases hlink

theorem walk_some {d : Disk α} (h : d.Closed) (n : ℕ) (names rest : List Name) (p q b : Location)
    (hp : d.get p = some .dir) (hrest : rest ≠ []) (hq : d.walk false n p names = .at q)
    (hb : d.walk false n p (names ++ rest) = .at b) : d.get q ≠ none := by
  induction n generalizing p names with
  | zero => cases hq
  | succ n ih =>
    rw [walk] at hq hb
    cases hw : d.walkOnce false p names with
    | found first =>
      rw [hw] at hq
      simp only at hq
      subst hq
      refine walkOnce_some h names rest p q b hp hrest hw ?_
      cases hw' : d.walkOnce false p (names ++ rest) with
      | found first' =>
        rw [hw'] at hb
        exact Or.inl (congrArg Walked.found hb)
      | link base target after => exact Or.inr ⟨base, target, after, rfl⟩
    | link base target after =>
      rw [hw] at hq
      rw [d.walkOnce_append_link false names rest p base target after hw] at hb
      simp only at hq hb
      rw [← List.append_assoc] at hb
      refine ih _ _ ?_ hq hb
      unfold linkBase
      split
      · rfl
      · exact walkOnce_link_dir h names p base target after hp hw

end Disk

theorem makeDirs_append (os : Os) (start : Location) (d : Disk α) (pre names more : List Name) :
    makeDirs os start d pre (names ++ more) =
      makeDirs os start (makeDirs os start d pre names) (pre ++ names) more := by
  induction names generalizing d pre with
  | nil => rw [List.nil_append, List.append_nil, makeDirs]
  | cons name names ih =>
    rw [List.cons_append, makeDirs, makeDirs, ih, List.append_assoc, List.singleton_append]

theorem makeDirs_existing {os : Os} {start : Location} {d : Disk α} (h : d.Closed)
    (hstart : d.get start = some .dir) (pre names rest : List Name) (b : Location)
    (hwalk : d.walk false (Disk.maxLinks + 1) start (pre ++ (names ++ rest)) = .at b)
    (hb : d.get b ≠ none) : makeDirs os start d pre names = d := by
  induction names generalizing pre with
  | nil => rfl
  | cons name names ih =>
    have hrest : makeDirs os start d (pre ++ [name]) names = d := by
      refine ih (pre ++ [name]) ?_
      rwa [List.append_assoc, List.singleton_append]
    rw [makeDirs]
    refine (congrArg (fun e => makeDirs os start e (pre ++ [name]) names) ?_).trans hrest
    split
    · rename_i p hp
      have hsome : d.get p ≠ none := by
        by_cases hmore : names ++ rest = []
        · rw [List.cons_append, hmore] at hwalk
          obtain rfl := Found.at.inj (hp.symm.trans hwalk)
          exact hb
        · refine Disk.walk_some h _ (pre ++ [name]) (names ++ rest) start p b hstart hmore hp ?_
          rwa [List.append_assoc, List.singleton_append]
      cases hget : d.get p with
      | none => exact absurd hget hsome
      | some node => rfl
    · rfl

/-- Making directories changes nothing that is there, and makes nothing but directories. -/
theorem makeDirs_get (os : Os) (start : Location) (d : Disk α) (pre names : List Name)
    (p : Location) :
    (makeDirs os start d pre names).get p = d.get p ∨
      d.get p = none ∧ (makeDirs os start d pre names).get p = some .dir := by
  induction names generalizing d pre with
  | nil => exact Or.inl rfl
  | cons name names ih =>
    obtain ⟨d', hd', hfirst⟩ : ∃ d', makeDirs os start d pre (name :: names) =
        makeDirs os start d' (pre ++ [name]) names ∧
          (d'.get p = d.get p ∨ d.get p = none ∧ d'.get p = some .dir) := by
      refine ⟨_, rfl, ?_⟩
      split
      · rename_i q _
        split
        · rename_i hnone
          rw [d.get_addDir]
          split
          · rename_i heq
            rw [heq]
            rw [Bool.and_eq_true, Option.isNone_iff_eq_none] at hnone
            exact Or.inr ⟨hnone.1, rfl⟩
          · exact Or.inl rfl
        · exact Or.inl rfl
      · exact Or.inl rfl
    rw [hd']
    rcases hfirst with hsame | ⟨hnone, hdir⟩
    · rw [← hsame]
      exact ih d' (pre ++ [name])
    · rcases ih d' (pre ++ [name]) with hrest | ⟨hno, -⟩
      · exact Or.inr ⟨hnone, hrest.trans hdir⟩
      · rw [hdir] at hno
        cases hno

inductive Entry (β : Type)
  | dir
  | file (content : β)
  deriving DecidableEq

abbrev Subtree (β : Type) := Location → Option (Entry β)

def Node.shown (view : α → β) : Node α → Option (Entry β)
  | .dir => some .dir
  | .link _ => none
  | .file _ content => some (.file (view content))

namespace Subtree

def set (t : Subtree β) (c : Location) (entry : Option (Entry β)) : Subtree β :=
  fun p => if p = c then entry else t p

@[simp] theorem set_self (t : Subtree β) (c : Location) (entry : Option (Entry β)) :
    t.set c entry c = entry := if_pos rfl

theorem set_of_ne (t : Subtree β) (c p : Location) (entry : Option (Entry β)) (h : p ≠ c) :
    t.set c entry p = t p := if_neg h

def mkdirs (t : Subtree β) (names : List Name) : Subtree β :=
  fun p => if p <+: names ∧ t p = none then some .dir else t p

theorem mkdirs_of_some (t : Subtree β) (names : List Name) (p : Location) (h : t p ≠ none) :
    t.mkdirs names p = t p := if_neg fun hp => h hp.2

theorem mkdirs_of_not_prefix (t : Subtree β) (names : List Name) (p : Location)
    (h : ¬ p <+: names) :
    t.mkdirs names p = t p := if_neg fun hp => h hp.1

theorem mkdirs_dir (t : Subtree β) (names : List Name) (p : Location) (hp : p <+: names)
    (hfile : ∀ x, t p ≠ some (.file x)) : t.mkdirs names p = some .dir := by
  cases ht : t p with
  | none => exact if_pos ⟨hp, ht⟩
  | some entry =>
    rw [mkdirs_of_some t names p (by simp [ht]), ht]
    cases entry with
    | dir => rfl
    | file x => exact absurd ht (hfile x)

theorem mkdirs_file_iff (t : Subtree β) (names : List Name) (p : Location) (x : β) :
    t.mkdirs names p = some (.file x) ↔ t p = some (.file x) := by
  by_cases ht : t p = none
  · rw [ht, mkdirs]
    split <;> simp [ht]
  · rw [mkdirs_of_some t names p ht]

theorem mkdirs_concat (t : Subtree β) (names : List Name) (n : Name) :
    t.mkdirs (names ++ [n]) =
      if t (names ++ [n]) = none then (t.mkdirs names).set (names ++ [n]) (some .dir)
      else t.mkdirs names := by
  funext p
  by_cases hp : p = names ++ [n]
  · subst hp
    have hlong : ¬ names ++ [n] <+: names := by
      intro hpre
      have hlength := hpre.length_le
      rw [List.length_append, List.length_singleton] at hlength
      omega
    split
    · rename_i hnone
      rw [set_self]
      exact if_pos ⟨List.prefix_refl _, hnone⟩
    · rename_i hsome
      rw [mkdirs_of_some _ _ _ hsome, mkdirs_of_not_prefix _ _ _ hlong]
  · have hiff : p <+: names ++ [n] ↔ p <+: names := by
      rw [List.prefix_concat_iff]
      exact ⟨fun h => h.resolve_left hp, Or.inr⟩
    have hsame : t.mkdirs (names ++ [n]) p = t.mkdirs names p := by
      simp only [mkdirs, hiff]
    split
    · rw [set_of_ne _ _ _ _ hp, hsame]
    · exact hsame

def Way (t : Subtree β) (names : List Name) : Prop :=
  ∀ pre, pre <+: names → pre ≠ names → t pre = some .dir

def Free (t : Subtree β) (names : List Name) : Prop :=
  ∀ pre, pre <+: names → pre ≠ names → ∀ x, t pre ≠ some (.file x)

/-- What names lead to from a place, below the directory `b`. -/
def walk (t : Subtree β) (b : Location) : Location → List Name → Found
  | c, [] => .at (b ++ c)
  | c, n :: rest =>
    match t (c ++ [n]) with
    | some .dir => t.walk b (c ++ [n]) rest
    | some (.file _) => if rest.isEmpty then .at (b ++ (c ++ [n])) else .invalid
    | none => if rest.isEmpty then .at (b ++ (c ++ [n])) else .missing

theorem walk_of_way (t : Subtree β) (b c : Location) (names : List Name)
    (h : ∀ pre, pre <+: names → pre ≠ names → t (c ++ pre) = some .dir) :
    t.walk b c names = .at (b ++ (c ++ names)) := by
  induction names generalizing c with
  | nil => rw [walk, List.append_nil]
  | cons n rest ih =>
    cases rest with
    | nil =>
      rw [walk]
      split <;> rfl
    | cons m rest =>
      have hnext : t (c ++ [n]) = some .dir :=
        h [n] ⟨m :: rest, rfl⟩ (by simp)
      rw [walk, hnext]
      simp only
      rw [ih (c ++ [n]) ?_, List.append_assoc, List.singleton_append]
      intro pre hpre hne
      rw [List.append_assoc, List.singleton_append]
      refine h (n :: pre) (List.cons_prefix_cons.mpr ⟨rfl, hpre⟩) ?_
      simpa using hne

/-- Names that lead to a place lead there through directories. -/
theorem way_of_walk (t : Subtree β) (b c q : Location) (names : List Name)
    (hc : t c = some .dir) (h : t.walk b c names = .at q) :
    ∀ pre, pre <+: names → pre ≠ names → t (c ++ pre) = some .dir := by
  induction names generalizing c with
  | nil =>
    intro pre hpre hne
    exact absurd (List.prefix_nil.mp hpre) hne
  | cons n rest ih =>
    intro pre hpre hne
    cases pre with
    | nil => rwa [List.append_nil]
    | cons m pre =>
      obtain ⟨rfl, hrest⟩ := List.cons_prefix_cons.mp hpre
      have hmore : pre ≠ rest := by
        rintro rfl
        exact hne rfl
      have hempty : rest.isEmpty = false := by
        cases rest with
        | nil => exact absurd (List.prefix_nil.mp hrest) hmore
        | cons _ _ => rfl
      rw [walk, hempty] at h
      cases hnext : t (c ++ [m]) with
      | none =>
        rw [hnext] at h
        cases h
      | some entry =>
        rw [hnext] at h
        cases entry with
        | dir =>
          have hdir := ih (c ++ [m]) hnext h pre hrest hmore
          rwa [List.append_assoc, List.singleton_append] at hdir
        | file x => cases h

theorem walk_into_file (t : Subtree β) (b c : Location) (names rest : List Name) (x : β)
    (h : ∀ pre, pre <+: names → pre ≠ names → t (c ++ pre) = some .dir) (hnames : names ≠ [])
    (hfile : t (c ++ names) = some (.file x)) (hrest : rest ≠ []) :
    t.walk b c (names ++ rest) = .invalid := by
  induction names generalizing c with
  | nil => exact absurd rfl hnames
  | cons n names ih =>
    have hmore : (names ++ rest).isEmpty = false := by simp [hrest]
    rw [List.cons_append, walk]
    cases names with
    | nil =>
      rw [hfile]
      simp only [hmore, Bool.false_eq_true, if_false]
    | cons m names =>
      rw [h [n] ⟨m :: names, rfl⟩ (by simp)]
      simp only
      refine ih (c ++ [n]) ?_ (by simp) ?_
      · intro pre hpre hne
        rw [List.append_assoc, List.singleton_append]
        refine h (n :: pre) (List.cons_prefix_cons.mpr ⟨rfl, hpre⟩) ?_
        simpa using hne
      · rwa [List.append_assoc, List.singleton_append]

theorem walk_ne_invalid (t : Subtree β) (b c : Location) (names : List Name)
    (h : ∀ pre, pre <+: names → pre ≠ names → ∀ x, t (c ++ pre) ≠ some (.file x)) :
    t.walk b c names ≠ .invalid := by
  induction names generalizing c with
  | nil => simp [walk]
  | cons n rest ih =>
    rw [walk]
    cases hnext : t (c ++ [n]) with
    | none => cases rest <;> simp
    | some entry =>
      cases entry with
      | dir =>
        refine ih (c ++ [n]) fun pre hpre hne x => ?_
        rw [List.append_assoc, List.singleton_append]
        refine h (n :: pre) (List.cons_prefix_cons.mpr ⟨rfl, hpre⟩) ?_ x
        simpa using hne
      | file x =>
        cases rest with
        | nil => simp
        | cons m rest => exact absurd hnext (h [n] ⟨m :: rest, rfl⟩ (by simp) x)

end Subtree

/-- The path `dir` leads to the directory `b`, and `t` is what stands below it. -/
structure Shows (view : α → β) (cwd : Location) (dir : Path) (b : Location) (d : Disk α)
    (t : Subtree β) : Prop where
  leads : d.resolve cwd false dir = .at b
  closed : d.Closed
  start : d.get cwd = some .dir
  root : t [] = some .dir
  shown : ∀ c, (d.get (b ++ c)).map (Node.shown view) = (t c).map some

namespace Shows

variable {view : α → β} {cwd : Location} {dir : Path} {b : Location} {d : Disk α} {t : Subtree β}

theorem none_iff (h : Shows view cwd dir b d t) (c : Location) :
    d.get (b ++ c) = none ↔ t c = none := by
  have hshown := h.shown c
  constructor
  · intro hget
    rw [hget] at hshown
    exact Option.map_eq_none_iff.mp hshown.symm
  · intro ht
    rw [ht] at hshown
    exact Option.map_eq_none_iff.mp hshown

theorem dir_iff (h : Shows view cwd dir b d t) (c : Location) :
    d.get (b ++ c) = some .dir ↔ t c = some .dir := by
  have hshown := h.shown c
  constructor
  · intro hget
    rw [hget] at hshown
    obtain ⟨entry, hentry, heq⟩ := Option.map_eq_some_iff.mp hshown.symm
    rw [hentry, heq]
    rfl
  · intro ht
    rw [ht] at hshown
    obtain ⟨node, hnode, heq⟩ := Option.map_eq_some_iff.mp hshown
    cases node with
    | dir => exact hnode
    | link target => cases heq
    | file inode content => cases heq

theorem of_file (h : Shows view cwd dir b d t) {c : Location} {inode : ℕ} {content : α}
    (hget : d.get (b ++ c) = some (.file inode content)) : t c = some (.file (view content)) := by
  have hshown := h.shown c
  rw [hget] at hshown
  obtain ⟨entry, hentry, heq⟩ := Option.map_eq_some_iff.mp hshown.symm
  rw [hentry, heq]
  rfl

theorem file (h : Shows view cwd dir b d t) {c : Location} {x : β} (ht : t c = some (.file x)) :
    ∃ inode content, d.get (b ++ c) = some (.file inode content) ∧ view content = x := by
  have hshown := h.shown c
  rw [ht] at hshown
  obtain ⟨node, hnode, heq⟩ := Option.map_eq_some_iff.mp hshown
  cases node with
  | dir => cases heq
  | link target => cases heq
  | file inode content => exact ⟨inode, content, hnode, Entry.file.inj (Option.some.inj heq)⟩

theorem not_link (h : Shows view cwd dir b d t) (c : Location) (target : Path) :
    d.get (b ++ c) ≠ some (.link target) := by
  intro hget
  have hshown := h.shown c
  rw [hget] at hshown
  obtain ⟨entry, -, heq⟩ := Option.map_eq_some_iff.mp hshown.symm
  cases heq

theorem isDir (h : Shows view cwd dir b d t) : d.get b = some .dir := by
  have hroot := (h.dir_iff []).mpr h.root
  rwa [List.append_nil] at hroot

theorem parent (h : Shows view cwd dir b d t) (c : Location) (n : Name)
    (hne : t (c ++ [n]) ≠ none) :
    t c = some .dir := by
  refine (h.dir_iff c).mp (h.closed (b ++ c) n ?_)
  rw [List.append_assoc]
  exact fun hnone => hne ((h.none_iff _).mp hnone)

/-- What stands in the tree is reached through directories. -/
theorem way (h : Shows view cwd dir b d t) (c : Location) (hne : t c ≠ none) : t.Way c := by
  induction c using List.reverseRecOn with
  | nil =>
    intro pre hpre hnot
    exact absurd (List.prefix_nil.mp hpre) hnot
  | append_singleton c n ih =>
    have hc := h.parent c n hne
    intro pre hpre hnot
    rcases List.prefix_concat_iff.mp hpre with rfl | hshort
    · exact absurd rfl hnot
    · by_cases heq : pre = c
      · rwa [heq]
      · exact ih (by simp [hc]) pre hshort heq

theorem walkOnce (h : Shows view cwd dir b d t) (follow : Bool) (c : Location) (names : List Name)
    (hdots : ['.', '.'] ∉ names) :
    d.walkOnce follow (b ++ c) names = .found (t.walk b c names) := by
  induction names generalizing c with
  | nil => rfl
  | cons n rest ih =>
    have hn : n ≠ ['.', '.'] := fun heq => hdots (by simp [heq])
    rw [Disk.walkOnce, if_neg hn, Subtree.walk, List.append_assoc]
    cases hget : d.get (b ++ (c ++ [n])) with
    | none =>
      rw [(h.none_iff _).mp hget]
      cases rest <;> rfl
    | some node =>
      cases node with
      | dir =>
        rw [(h.dir_iff _).mp hget]
        exact ih (c ++ [n]) fun hmem => hdots (List.mem_cons_of_mem _ hmem)
      | link target => exact absurd hget (h.not_link _ target)
      | file inode content =>
        rw [h.of_file hget]
        cases rest <;> rfl

theorem resolve (h : Shows view cwd dir b d t) (follow : Bool) {path : Path} {names : List Name}
    (hpath : Below dir path names) (hdots : ['.', '.'] ∉ names) :
    d.resolve cwd follow path = t.walk b [] names := by
  refine d.resolve_below cwd follow hpath h.leads h.isDir ?_
  have hwalk := h.walkOnce follow [] names hdots
  rwa [List.append_nil] at hwalk

theorem resolve_way (h : Shows view cwd dir b d t) (follow : Bool) {path : Path}
    {names : List Name} (hpath : Below dir path names) (hdots : ['.', '.'] ∉ names)
    (hway : t.Way names) : d.resolve cwd follow path = .at (b ++ names) := by
  rw [h.resolve follow hpath hdots]
  exact t.walk_of_way b [] names hway

/-- A path that leads somewhere leads there through directories. -/
theorem way_of_resolve (h : Shows view cwd dir b d t) (follow : Bool) {path : Path}
    {names : List Name} (hpath : Below dir path names) (hdots : ['.', '.'] ∉ names) {q : Location}
    (hq : d.resolve cwd follow path = .at q) : t.Way names ∧ q = b ++ names := by
  have hwalk := h.resolve follow hpath hdots
  have hway : t.Way names := t.way_of_walk b [] q names h.root (hwalk.symm.trans hq)
  exact ⟨hway, Found.at.inj (hq.symm.trans (h.resolve_way follow hpath hdots hway))⟩

theorem node_file_iff (h : Shows view cwd dir b d t) {path : Path} {names : List Name}
    (hpath : Below dir path names) (hdots : ['.', '.'] ∉ names) (x : β) :
    (∃ inode content, d.node cwd true path = some (.file inode content) ∧ view content = x) ↔
      t names = some (.file x) := by
  constructor
  · rintro ⟨inode, content, hnode, rfl⟩
    unfold Disk.node at hnode
    split at hnode
    · rename_i q hq
      obtain ⟨-, rfl⟩ := h.way_of_resolve true hpath hdots hq
      exact h.of_file hnode
    · cases hnode
  · intro ht
    obtain ⟨inode, content, hget, hview⟩ := h.file ht
    refine ⟨inode, content, ?_, hview⟩
    rw [Disk.node, h.resolve_way true hpath hdots (h.way names (by simp [ht]))]
    exact hget

/-- One place below the directory changes that holds no directory. -/
theorem put (h : Shows view cwd dir b d t) {d' : Disk α} (c : Location) (hold : t c ≠ some .dir)
    (new : Option (Node α)) (entry : Option (Entry β))
    (hnew : new.map (Node.shown view) = entry.map some)
    (hparent : entry ≠ none → t c.dropLast = some .dir)
    (hget : ∀ p, d'.get p = if p = b ++ c then new else d.get p) :
    Shows view cwd dir b d' (t.set c entry) := by
  have hc : c ≠ [] := by
    rintro rfl
    exact hold h.root
  have hother : ∀ p, p ≠ b ++ c → d'.get p = d.get p := fun p hp => (hget p).trans (if_neg hp)
  have hdirs : ∀ p, d.get p = some .dir → d'.get p = some .dir := by
    intro p hp
    rw [hother p ?_, hp]
    rintro rfl
    exact hold ((h.dir_iff c).mp hp)
  refine ⟨?_, ?_, hdirs cwd h.start, ?_, ?_⟩
  · refine d.resolve_within d' ⟨hdirs, ?_⟩ cwd false dir b h.leads (Or.inr ⟨.dir, h.isDir, rfl⟩)
    intro p target hp
    rw [hother p ?_, hp]
    rintro rfl
    exact h.not_link c target hp
  · intro p n hne
    by_cases heq : p ++ [n] = b ++ c
    · have hp : p = b ++ c.dropLast := by
        have hdrop := congrArg List.dropLast heq
        rwa [List.dropLast_concat, List.dropLast_append_of_ne_nil hc] at hdrop
      refine hdirs p ?_
      rw [hp]
      refine (h.dir_iff _).mpr (hparent ?_)
      rintro rfl
      rw [hget, if_pos heq, Option.map_eq_none_iff.mp hnew] at hne
      exact hne rfl
    · rw [hother _ heq] at hne
      exact hdirs p (h.closed p n hne)
  · rw [Subtree.set_of_ne t c [] entry (Ne.symm hc)]
    exact h.root
  · intro p
    by_cases hp : p = c
    · subst hp
      rw [hget, if_pos rfl, Subtree.set_self]
      exact hnew
    · rw [hother _ (fun heq => hp (List.append_cancel_left heq)), Subtree.set_of_ne t c p entry hp]
      exact h.shown p

section Operations

variable {os : Os} (hallows : ∀ op p, os.allows op p = true)

include hallows

theorem removeFile (h : Shows view os.cwd dir b d t) {path : Path} {names : List Name}
    (hpath : Below dir path names) (hdots : ['.', '.'] ∉ names) {x : β}
    (hfile : t names = some (.file x)) :
    ∃ d', d.removeFile os path = some d' ∧ Shows view os.cwd dir b d' (t.set names none) := by
  obtain ⟨inode, content, hget, -⟩ := h.file hfile
  refine ⟨d.erase (b ++ names), ?_, ?_⟩
  · rw [Disk.removeFile, h.resolve_way false hpath hdots (h.way names (by simp [hfile]))]
    simp only [hget, hallows, if_true]
  · refine h.put names (by simp [hfile]) none none rfl (by simp) fun p => ?_
    exact d.get_erase _ p (d.ne_root_of_file _ inode content hget)

omit hallows in
theorem removeFile_none (h : Shows view os.cwd dir b d t) {path : Path} {names : List Name}
    (hpath : Below dir path names) (hdots : ['.', '.'] ∉ names)
    (hfile : ∀ x, t names ≠ some (.file x)) : d.removeFile os path = none := by
  unfold Disk.removeFile
  split
  · rename_i p hp
    obtain ⟨-, rfl⟩ := h.way_of_resolve false hpath hdots hp
    split
    · rename_i hget
      exact absurd (h.of_file hget) (hfile _)
    · rename_i hget
      exact absurd hget (h.not_link names _)
    · rfl
  · rfl

theorem create (h : Shows view os.cwd dir b d t) {path : Path} {names : List Name}
    (hpath : Below dir path names) (hdots : ['.', '.'] ∉ names) (hway : t.Way names)
    (hdir : t names ≠ some .dir) (content : α) :
    ∃ d' inode, d.create os path content = some (d', inode) ∧
      (∀ p, d'.get p = if p = b ++ names then some (.file inode content) else d.get p) ∧
      Shows view os.cwd dir b d' (t.set names (some (.file (view content)))) := by
  have hnames : names ≠ [] := by
    rintro rfl
    exact hdir h.root
  have hlocation : b ++ names ≠ [] := by simp [hnames]
  have hresolve := h.resolve_way true hpath hdots hway
  have hparent : t names.dropLast = some .dir := by
    refine hway _ (List.dropLast_prefix names) fun heq => ?_
    have hlength := congrArg List.length heq
    rw [List.length_dropLast] at hlength
    have := List.length_pos_iff.mpr hnames
    omega
  cases hget : d.get (b ++ names) with
  | none =>
    refine ⟨d.add (b ++ names) content, d.next, ?_, ?_, ?_⟩
    · rw [Disk.create, hresolve]
      simp only [hget, hallows, if_true]
    · exact fun p => d.get_add _ p content hlocation
    · exact h.put names hdir (some (.file d.next content)) _ rfl (fun _ => hparent)
        fun p => d.get_add _ p content hlocation
  | some node =>
    cases node with
    | dir => exact absurd ((h.dir_iff names).mp hget) hdir
    | link target => exact absurd hget (h.not_link names target)
    | file inode old =>
      refine ⟨d.update inode fun _ => content, inode, ?_, ?_, ?_⟩
      · rw [Disk.create, hresolve]
        simp only [hget, hallows, if_true]
      · exact fun p => d.get_update _ p inode old _ hget
      · exact h.put names hdir (some (.file inode content)) _ rfl (fun _ => hparent)
          fun p => d.get_update _ p inode old _ hget

omit hallows in
theorem create_inv (h : Shows view os.cwd dir b d t) {path : Path} {names : List Name}
    (hpath : Below dir path names) (hdots : ['.', '.'] ∉ names) {content : α} {d' : Disk α}
    {inode : ℕ} (hcreate : d.create os path content = some (d', inode)) :
    t.Way names ∧ t names ≠ some .dir := by
  obtain ⟨p, hp, hcases⟩ := Disk.create_eq hcreate
  obtain ⟨hway, rfl⟩ := h.way_of_resolve true hpath hdots hp
  refine ⟨hway, fun hdir => ?_⟩
  have hget := (h.dir_iff names).mpr hdir
  rcases hcases with ⟨hnone, -, -⟩ | ⟨old, hold, -⟩
  · rw [hget] at hnone
    cases hnone
  · rw [hget] at hold
    cases hold

omit hallows in
theorem update (h : Shows view cwd dir b d t) {c : Location} {inode : ℕ} {old : α}
    (hget : d.get (b ++ c) = some (.file inode old)) (f : α → α) :
    Shows view cwd dir b (d.update inode f) (t.set c (some (.file (view (f old))))) := by
  have hfile := h.of_file hget
  refine h.put c (by simp [hfile]) (some (.file inode (f old))) _ rfl (fun _ => ?_)
    fun p => d.get_update _ p inode old f hget
  have hway := h.way c (by simp [hfile])
  refine hway _ (List.dropLast_prefix c) fun heq => ?_
  have hlength := congrArg List.length heq
  rw [List.length_dropLast] at hlength
  have hc : c ≠ [] := by
    rintro rfl
    rw [h.root] at hfile
    cases hfile
  have := List.length_pos_iff.mpr hc
  omega

theorem rename (h : Shows view os.cwd dir b d t) {src dst : Path} {names place : List Name}
    (hsrc : Below dir src names) (hnames : ['.', '.'] ∉ names) (hdst : Below dir dst place)
    (hplace : ['.', '.'] ∉ place) (hsrcName : endsInName false src = true)
    (hdstName : endsInName false dst = true) {x : β} (hfile : t names = some (.file x))
    (hway : t.Way place) (hdir : t place ≠ some .dir) (hne : names ≠ place) :
    ∃ d', d.rename os src dst = some d' ∧
      Shows view os.cwd dir b d' ((t.set names none).set place (some (.file x))) := by
  obtain ⟨inode, content, hget, hview⟩ := h.file hfile
  have hsource : b ++ names ≠ [] := d.ne_root_of_file _ inode content hget
  have htarget : place ≠ [] := by
    rintro rfl
    exact hdir h.root
  have hlocations : b ++ names ≠ b ++ place := fun heq => hne (List.append_cancel_left heq)
  have hprefix : ¬ (b ++ names) <+: (b ++ place) := by
    intro hpre
    have hshort := (List.prefix_append_right_inj b).mp hpre
    rw [hway names hshort hne] at hfile
    cases hfile
  have hreplace : d.canReplace (.file inode content) (b ++ place) = true := by
    unfold Disk.canReplace
    cases hnode : d.get (b ++ place) with
    | none => rfl
    | some node =>
      cases node with
      | dir => exact absurd ((h.dir_iff place).mp hnode) hdir
      | link target => rfl
      | file j other => rfl
  have herased : Shows view os.cwd dir b (d.erase (b ++ names)) (t.set names none) :=
    h.put names (by simp [hfile]) none none rfl (by simp) fun p => d.get_erase _ p hsource
  refine ⟨d.moveLeaf (b ++ names) (b ++ place), ?_, ?_⟩
  · rw [Disk.rename, h.resolve_way false hsrc hnames (h.way names (by simp [hfile])),
      h.resolve_way false hdst hplace hway]
    simp only [hget, Node.isDir, hsrcName, hdstName, Bool.not_true, Bool.or_self,
      Bool.false_eq_true, if_false, if_neg hlocations]
    rw [if_pos ⟨hsource, by simp [htarget], hprefix, hreplace, hallows _ _⟩]
    rfl
  · have hparent : (t.set names none) place.dropLast = some .dir := by
      have hdrop := hway _ (List.dropLast_prefix place) fun heq => ?_
      · rw [Subtree.set_of_ne _ _ _ _ ?_]
        · exact hdrop
        · rintro heq
          rw [heq, hfile] at hdrop
          cases hdrop
      · have hlength := congrArg List.length heq
        rw [List.length_dropLast] at hlength
        have := List.length_pos_iff.mpr htarget
        omega
    refine herased.put place ?_ (some (.file inode content))
      (some (.file x)) ?_ (fun _ => hparent) ?_
    · rw [Subtree.set_of_ne _ _ _ _ (Ne.symm hne)]
      exact hdir
    · rw [← hview]
      rfl
    · intro p
      rw [d.get_moveLeaf _ _ p hsource (by simp [htarget]) hlocations, hget,
        d.get_erase _ p hsource]

omit hallows in
theorem rename_none (h : Shows view os.cwd dir b d t) {src dst : Path} {names place : List Name}
    (hsrc : Below dir src names) (hnames : ['.', '.'] ∉ names) (hdst : Below dir dst place)
    (hplace : ['.', '.'] ∉ place) (hnot : t names ≠ some .dir)
    (hdir : t names = none ∨ t place = some .dir) : d.rename os src dst = none := by
  unfold Disk.rename
  split
  · rename_i p q hp hq
    obtain ⟨-, rfl⟩ := h.way_of_resolve false hsrc hnames hp
    obtain ⟨-, rfl⟩ := h.way_of_resolve false hdst hplace hq
    split
    · rfl
    · rename_i node hget
      cases node with
      | dir => exact absurd ((h.dir_iff names).mp hget) hnot
      | link target => exact absurd hget (h.not_link names target)
      | file inode content =>
        have hplace' : t place = some .dir := by
          rcases hdir with hnone | hdir
          · rw [(h.none_iff names).mpr hnone] at hget
            cases hget
          · exact hdir
        split
        · rfl
        · rw [if_neg, if_neg]
          · rintro ⟨-, -, -, hreplace, -⟩
            simp only [Disk.canReplace, (h.dir_iff place).mpr hplace'] at hreplace
            cases hreplace
          · intro heq
            rw [heq, (h.dir_iff place).mpr hplace'] at hget
            cases hget
  · rfl

omit hallows in
theorem walk_known (h : Shows view os.cwd dir b d t) (names : List Name)
    (hdots : ['.', '.'] ∉ names) (hway : t.Way names) :
    d.walk false (Disk.maxLinks + 1) (if isAbsolute dir then [] else os.cwd)
      (components dir ++ names) = .at (b ++ names) := by
  have hleads := h.leads
  have hwalk := h.walkOnce false [] names hdots
  rw [List.append_nil, t.walk_of_way b [] names hway] at hwalk
  unfold Disk.resolve at hleads
  split at hleads
  · cases hleads
  · exact d.walk_append false _ _ names _ b _ hleads h.isDir hwalk

theorem makeDirs (pre names : List Name) (h : Shows view os.cwd dir b d (t.mkdirs pre))
    (hdots : ['.', '.'] ∉ pre ++ names)
    (hfree : ∀ p, p <+: pre ++ names → ∀ x, t p ≠ some (.file x)) :
    Shows view os.cwd dir b
      (FileSystem.makeDirs os (if isAbsolute dir then [] else os.cwd) d
        (components dir ++ pre) names)
      (t.mkdirs (pre ++ names)) := by
  induction names generalizing d pre with
  | nil =>
    rw [List.append_nil]
    exact h
  | cons n names ih =>
    have hassoc : pre ++ n :: names = (pre ++ [n]) ++ names := by simp
    rw [hassoc] at hdots hfree ⊢
    have hshort : ∀ p, p <+: pre ++ [n] → p <+: (pre ++ [n]) ++ names :=
      fun p hp => hp.trans (List.prefix_append _ _)
    have hway : (t.mkdirs pre).Way (pre ++ [n]) := by
      intro p hp hne
      have hpre : p <+: pre := (List.prefix_concat_iff.mp hp).resolve_left hne
      exact t.mkdirs_dir pre p hpre (hfree p (hshort p hp))
    have hlast := hfree (pre ++ [n]) (hshort _ (List.prefix_refl _))
    have hnot : ¬ pre ++ [n] <+: pre := by
      intro hp
      have hlength := hp.length_le
      rw [List.length_append, List.length_singleton] at hlength
      omega
    rw [FileSystem.makeDirs, List.append_assoc (components dir)]
    refine ih (pre ++ [n]) ?_ hdots hfree
    rw [h.walk_known _ (fun hmem => hdots (List.mem_append_left _ hmem)) hway]
    rw [t.mkdirs_concat]
    cases hentry : t (pre ++ [n]) with
    | none =>
      have hnone : t.mkdirs pre (pre ++ [n]) = none := by
        rw [t.mkdirs_of_not_prefix _ _ hnot, hentry]
      simp only [(h.none_iff _).mpr hnone, hallows, Option.isNone_none, Bool.and_true, if_true]
      refine h.put (pre ++ [n]) (by simp [hnone]) (some .dir) _ rfl (fun _ => ?_)
        fun p => d.get_addDir _ p
      rw [List.dropLast_concat]
      exact hway pre (List.prefix_append _ _) (by simp)
    | some entry =>
      cases entry with
      | dir =>
        have hdir : t.mkdirs pre (pre ++ [n]) = some .dir := by
          rw [t.mkdirs_of_not_prefix _ _ hnot, hentry]
        rw [if_neg (by simp)]
        simp only [(h.dir_iff _).mpr hdir, Option.isNone_some, Bool.false_and, Bool.false_eq_true,
          if_false]
        exact h
      | file x => exact absurd hentry (hlast x)

/-- The directories a path leads through are made where no file is in the way. -/
theorem createParents (h : Shows view os.cwd dir b d t) {path : Path} {names : List Name}
    (hpath : Below dir path names) (hdots : ['.', '.'] ∉ names)
    (hfree : ∀ p, p <+: names.dropLast → ∀ x, t p ≠ some (.file x)) :
    Shows view os.cwd dir b (d.createParents os path) (t.mkdirs names.dropLast) := by
  have hstart : d.get (if isAbsolute dir then [] else os.cwd) = some .dir := by
    split
    · rfl
    · exact h.start
  have hroot : t.mkdirs [] = t := by
    funext p
    by_cases hp : p = []
    · rw [hp]
      exact t.mkdirs_of_some [] [] (by simp [h.root])
    · exact t.mkdirs_of_not_prefix [] p fun hpre => hp (List.prefix_nil.mp hpre)
  have hexisting : ∀ names rest, components dir = names ++ rest →
      FileSystem.makeDirs os (if isAbsolute dir then [] else os.cwd) d [] names = d := by
    intro names rest heq
    have hwalk := h.walk_known [] (by simp) fun p hp hne => absurd (List.prefix_nil.mp hp) hne
    rw [List.append_nil, List.append_nil, heq] at hwalk
    exact makeDirs_existing h.closed hstart [] names rest b hwalk (by simp [h.isDir])
  rw [Disk.createParents, hpath.absolute, hpath.components]
  by_cases hnames : names = []
  · rw [hnames, List.append_nil, List.dropLast_nil, hroot]
    rw [hexisting _ ((components dir).getLast?.toList) ?_]
    · exact h
    · cases hlast : (components dir).getLast? with
      | none => simp [List.getLast?_eq_none_iff.mp hlast]
      | some c =>
        obtain ⟨pre, heq⟩ := List.getLast?_eq_some_iff.mp hlast
        simp [heq]
  · rw [List.dropLast_append_of_ne_nil hnames, makeDirs_append,
      hexisting (components dir) [] (List.append_nil _).symm]
    have hbelow := makeDirs hallows [] names.dropLast
      (show Shows view os.cwd dir b d (t.mkdirs []) by rwa [hroot])
        (fun hmem => hdots ((List.dropLast_prefix names).subset hmem)) hfree
    rwa [List.append_nil] at hbelow

end Operations

end Shows

end ClantoDesk.FileSystem
