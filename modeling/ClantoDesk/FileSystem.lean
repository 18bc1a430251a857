import ClantoDesk.Text
import Mathlib.Data.List.Nodup
import Mathlib.Data.List.Pairwise

/-!
A file system with directories, symbolic links and files that can be open while they are
renamed. An entry stands at a location, the list of the names that lead to it from the root. A
path is text; what location it names depends on the links on its way, and on whether a link in
the last place is followed. Files are known by a number that stays with them when they move.
The contents of files are arbitrary, and the system may refuse any operation.
Nothing in this module refers to a particular program.
-/
namespace ClantoDesk.FileSystem

abbrev Name := List Char
abbrev Path := List Char
abbrev Location := List Name

variable {α : Type}

inductive Node (α : Type)
  | dir
  | link (target : Path)
  | file (inode : ℕ) (content : α)
  deriving DecidableEq

def Node.inode? : Node α → Option ℕ
  | .file inode _ => some inode
  | _ => none

/-- No location holds two entries and no two entries are the same file. -/
structure Disk (α : Type) where
  entries : List (Location × Node α)
  next : ℕ
  nodup : (entries.map fun e => e.1).Nodup
  inodes : (entries.filterMap fun e => e.2.inode?).Nodup
  fresh : ∀ e ∈ entries, ∀ i, e.2.inode? = some i → i < next

namespace Disk

def empty : Disk α := ⟨[], 0, List.nodup_nil, List.nodup_nil, fun e he => by cases he⟩

def get (d : Disk α) (p : Location) : Option (Node α) :=
  if p = [] then some .dir else (d.entries.find? fun e => e.1 = p).map fun e => e.2

def erase (d : Disk α) (p : Location) : Disk α :=
  { entries := d.entries.filter fun e => e.1 ≠ p
    next := d.next
    nodup := d.nodup.sublist (List.filter_sublist.map _)
    inodes := d.inodes.sublist (List.filter_sublist.filterMap _)
    fresh := fun e he => d.fresh e (List.mem_filter.mp he).1 }

theorem not_mem_erase (d : Disk α) (p : Location) : p ∉ (d.erase p).entries.map fun e => e.1 := by
  intro hmem
  obtain ⟨e, he, heq⟩ := List.mem_map.mp hmem
  simpa [heq] using (List.mem_filter.mp he).2

def addDir (d : Disk α) (p : Location) : Disk α :=
  { entries := (p, .dir) :: (d.erase p).entries
    next := d.next
    nodup := List.nodup_cons.mpr ⟨d.not_mem_erase p, (d.erase p).nodup⟩
    inodes := (d.erase p).inodes
    fresh := by
      intro e he i hi
      rcases List.mem_cons.mp he with rfl | he
      · cases hi
      · exact (d.erase p).fresh e he i hi }

def add (d : Disk α) (p : Location) (content : α) : Disk α :=
  { entries := (p, .file d.next content) :: (d.erase p).entries
    next := d.next + 1
    nodup := List.nodup_cons.mpr ⟨d.not_mem_erase p, (d.erase p).nodup⟩
    inodes := by
      have hfresh : d.next ∉ (d.erase p).entries.filterMap fun e => e.2.inode? := by
        intro hmem
        obtain ⟨e, he, hi⟩ := List.mem_filterMap.mp hmem
        exact absurd ((d.erase p).fresh e he d.next hi) (Nat.lt_irrefl _)
      exact List.nodup_cons.mpr ⟨hfresh, (d.erase p).inodes⟩
    fresh := by
      intro e he i hi
      rcases List.mem_cons.mp he with rfl | he
      · obtain rfl := Option.some.inj hi
        exact Nat.lt_succ_self _
      · exact Nat.lt_succ_of_lt ((d.erase p).fresh e he i hi) }

end Disk

def Node.map (g : ℕ → α → α) : Node α → Node α
  | .file inode content => .file inode (g inode content)
  | node => node

theorem Node.inode?_map (g : ℕ → α → α) (node : Node α) : (node.map g).inode? = node.inode? := by
  cases node <;> rfl

namespace Disk

def map (d : Disk α) (g : Location → ℕ → α → α) : Disk α :=
  { entries := d.entries.map fun e => (e.1, e.2.map (g e.1))
    next := d.next
    nodup := by
      rw [List.map_map]
      exact d.nodup
    inodes := by
      rw [List.filterMap_map]
      simpa only [Function.comp_def, Node.inode?_map] using d.inodes
    fresh := by
      intro e he i hi
      obtain ⟨old, hold, rfl⟩ := List.mem_map.mp he
      exact d.fresh old hold i (by rwa [Node.inode?_map] at hi) }

def update (d : Disk α) (inode : ℕ) (f : α → α) : Disk α :=
  d.map fun _ j content => if j = inode then f content else content

end Disk

namespace Disk

def relocate (d : Disk α) (keep : Location → Prop) [DecidablePred keep]
    (place : Location → Location)
    (hplace : ∀ p q, keep p → keep q → place p = place q → p = q) : Disk α :=
  { entries := (d.entries.filter fun e => keep e.1).map fun e => (place e.1, e.2)
    next := d.next
    nodup := by
      rw [List.map_map]
      have hkept : (d.entries.filter fun e => keep e.1).Nodup :=
        (List.Nodup.of_map _ d.nodup).filter _
      refine hkept.map_on ?_
      intro e he f hf heq
      have hlocation : e.1 = f.1 :=
        hplace e.1 f.1 (by simpa using (List.mem_filter.mp he).2)
          (by simpa using (List.mem_filter.mp hf).2) heq
      exact List.inj_on_of_nodup_map d.nodup (List.mem_filter.mp he).1 (List.mem_filter.mp hf).1
        hlocation
    inodes := by
      rw [List.filterMap_map]
      exact d.inodes.sublist (List.filter_sublist.filterMap _)
    fresh := by
      intro e he i hi
      obtain ⟨old, hold, rfl⟩ := List.mem_map.mp he
      exact d.fresh old (List.mem_filter.mp hold).1 i hi }

end Disk

/-- The location of an entry when the directory `src` has become `dst`. -/
def treePlace (src dst p : Location) : Location :=
  if src <+: p then dst ++ p.drop src.length else p

variable (d : Disk α) (p q : Location) (inode : ℕ) (content : α) (e : Location × Node α)

theorem treePlace_injective (src dst p q : Location) (hp : ¬ dst <+: p) (hq : ¬ dst <+: q)
    (heq : treePlace src dst p = treePlace src dst q) : p = q := by
  unfold treePlace at heq
  split at heq
  · rename_i hsrc
    obtain ⟨rest, rfl⟩ := hsrc
    split at heq
    · rename_i hsrc'
      obtain ⟨rest', rfl⟩ := hsrc'
      simpa using heq
    · exact absurd ⟨_, heq⟩ hq
  · split at heq
    · exact absurd ⟨_, heq.symm⟩ hp
    · exact heq

/-- The location of an entry when the file or link `src` has become `dst`. -/
def leafPlace (src dst p : Location) : Location := if p = src then dst else p

theorem leafPlace_injective (src dst p q : Location) (hp : p ≠ dst) (hq : q ≠ dst)
    (heq : leafPlace src dst p = leafPlace src dst q) : p = q := by
  unfold leafPlace at heq
  split at heq
  · rename_i hsrc
    split at heq
    · rename_i hsrc'
      exact hsrc.trans hsrc'.symm
    · exact absurd heq.symm hq
  · split at heq
    · exact absurd heq hp
    · exact heq

namespace Disk

/-- A directory with everything below it takes the place of what is at `dst`. -/
def moveTree (d : Disk α) (src dst : Location) : Disk α :=
  d.relocate (fun p => ¬ dst <+: p) (treePlace src dst) (treePlace_injective src dst)

/-- A file or a link takes the place of what is at `dst`. -/
def moveLeaf (d : Disk α) (src dst : Location) : Disk α :=
  d.relocate (fun p => p ≠ dst) (leafPlace src dst) (leafPlace_injective src dst)

theorem get_of_mem (node : Node α) (hp : p ≠ [])
    (hmem : (p, node) ∈ d.entries) : d.get p = some node := by
  rw [get, if_neg hp]
  cases hfind : d.entries.find? fun e => e.1 = p with
  | none =>
    have hnone := List.find?_eq_none.mp hfind (p, node) hmem
    simp at hnone
  | some e =>
    have he := List.mem_of_find?_eq_some hfind
    have hloc : e.1 = p := by simpa using List.find?_some hfind
    have heq := List.inj_on_of_nodup_map d.nodup he hmem hloc
    rw [heq]
    rfl

theorem mem_of_get (node : Node α) (hp : p ≠ [])
    (hget : d.get p = some node) : (p, node) ∈ d.entries := by
  rw [get, if_neg hp] at hget
  obtain ⟨e, he, rfl⟩ := Option.map_eq_some_iff.mp hget
  have hloc : e.1 = p := by simpa using List.find?_some he
  exact hloc ▸ List.mem_of_find?_eq_some he

theorem ne_root_of_file (hget : d.get p = some (.file inode content)) : p ≠ [] := by
  rintro rfl
  simp [get] at hget

theorem mem_of_get_file
    (hget : d.get p = some (.file inode content)) : (p, .file inode content) ∈ d.entries :=
  d.mem_of_get p _ (d.ne_root_of_file p inode content hget) hget

theorem file_unique (a b : α)
    (ha : (p, .file inode a) ∈ d.entries) (hb : (q, .file inode b) ∈ d.entries) :
    p = q ∧ a = b := by
  have heq : ((p, .file inode a) : Location × Node α) = (q, .file inode b) := by
    by_contra hne
    have hpair := d.inodes
    rw [List.Nodup, List.pairwise_filterMap] at hpair
    have hsymm : Std.Symm fun e f : Location × Node α =>
        ∀ i, e.2.inode? = some i → ∀ j, f.2.inode? = some j → i ≠ j :=
      ⟨fun e f hef i hi j hj => (hef j hj i hi).symm⟩
    exact hpair.forall ha hb hne inode rfl inode rfl rfl
  simpa using heq

theorem mem_erase : e ∈ (d.erase p).entries ↔ e ∈ d.entries ∧ e.1 ≠ p := by
  simp [erase]

theorem mem_addDir : e ∈ (d.addDir p).entries ↔ e = (p, .dir) ∨ e ∈ d.entries ∧ e.1 ≠ p := by
  rw [← mem_erase]
  exact List.mem_cons

theorem mem_add :
    e ∈ (d.add p content).entries ↔
      e = (p, .file d.next content) ∨ e ∈ d.entries ∧ e.1 ≠ p := by
  rw [← mem_erase]
  exact List.mem_cons

theorem mem_map (g : Location → ℕ → α → α) (p : Location) (node : Node α) :
    (p, node) ∈ (d.map g).entries ↔ ∃ old, (p, old) ∈ d.entries ∧ node = old.map (g p) := by
  constructor
  · intro he
    obtain ⟨old, hold, heq⟩ := List.mem_map.mp he
    obtain ⟨rfl, rfl⟩ := Prod.mk.inj heq
    exact ⟨old.2, hold, rfl⟩
  · rintro ⟨old, hold, rfl⟩
    exact List.mem_map.mpr ⟨(p, old), hold, rfl⟩

theorem mem_map_file (g : Location → ℕ → α → α) (p : Location) (inode : ℕ) (c : α) :
    (p, .file inode c) ∈ (d.map g).entries ↔
      ∃ old, (p, .file inode old) ∈ d.entries ∧ c = g p inode old := by
  rw [mem_map]
  constructor
  · rintro ⟨node, hnode, heq⟩
    cases node with
    | dir => cases heq
    | link target => cases heq
    | file j old =>
      obtain ⟨rfl, rfl⟩ := Node.file.inj heq
      exact ⟨old, hnode, rfl⟩
  · rintro ⟨old, hold, rfl⟩
    exact ⟨.file inode old, hold, rfl⟩

theorem mem_relocate (keep : Location → Prop) [DecidablePred keep]
    (place : Location → Location) (hplace : ∀ p q, keep p → keep q → place p = place q → p = q)
    (e : Location × Node α) :
    e ∈ (d.relocate keep place hplace).entries ↔
      ∃ p, (p, e.2) ∈ d.entries ∧ keep p ∧ e.1 = place p := by
  constructor
  · intro he
    obtain ⟨old, hold, rfl⟩ := List.mem_map.mp he
    obtain ⟨hmem, hkeep⟩ := List.mem_filter.mp hold
    exact ⟨old.1, hmem, of_decide_eq_true hkeep, rfl⟩
  · rintro ⟨p, hmem, hkeep, heq⟩
    exact List.mem_map.mpr ⟨(p, e.2), List.mem_filter.mpr ⟨hmem, decide_eq_true hkeep⟩,
      Prod.ext heq.symm rfl⟩

/-- Every entry satisfies `P` where it stands. -/
def Each (P : Location → Node α → Prop) (d : Disk α) : Prop :=
  ∀ p node, (p, node) ∈ d.entries → P p node

section Each

variable {P : Location → Node α → Prop} {d : Disk α}

theorem Each.erase (h : d.Each P) (p : Location) : (d.erase p).Each P := by
  intro q node hmem
  exact h q node ((d.mem_erase p _).mp hmem).1

theorem Each.addDir (h : d.Each P) (p : Location) (hnew : P p .dir) : (d.addDir p).Each P := by
  intro q node hmem
  rcases (d.mem_addDir p _).mp hmem with heq | ⟨hold, -⟩
  · cases heq
    exact hnew
  · exact h q node hold

theorem Each.add (h : d.Each P) (p : Location) (content : α) (hnew : P p (.file d.next content)) :
    (d.add p content).Each P := by
  intro q node hmem
  rcases (d.mem_add p content _).mp hmem with heq | ⟨hold, -⟩
  · cases heq
    exact hnew
  · exact h q node hold

theorem Each.map (h : d.Each P) (g : Location → ℕ → α → α)
    (hnew : ∀ p inode content, (p, .file inode content) ∈ d.entries →
      P p (.file inode (g p inode content))) : (d.map g).Each P := by
  intro p node' hmem
  obtain ⟨node, hnode, rfl⟩ := (d.mem_map g p _).mp hmem
  cases node with
  | dir => exact h p _ hnode
  | link target => exact h p _ hnode
  | file inode content => exact hnew p inode content hnode

theorem Each.update (h : d.Each P) (inode : ℕ) (f : α → α)
    (hnew : ∀ p content, (p, .file inode content) ∈ d.entries → P p (.file inode (f content))) :
    (d.update inode f).Each P := by
  refine h.map _ ?_
  intro p j content hmem
  by_cases hj : j = inode
  · subst hj
    simpa using hnew p content hmem
  · simpa [hj] using h p _ hmem

theorem Each.moveTree (h : d.Each P) (src dst : Location)
    (hnew : ∀ rest node, (src ++ rest, node) ∈ d.entries → P (dst ++ rest) node) :
    (d.moveTree src dst).Each P := by
  intro q node hmem
  obtain ⟨p, hold, -, rfl⟩ := (d.mem_relocate _ _ _ _).mp hmem
  unfold treePlace
  split
  · rename_i hsrc
    obtain ⟨rest, rfl⟩ := hsrc
    rw [List.drop_left]
    exact hnew rest node hold
  · exact h p node hold

theorem Each.moveLeaf (h : d.Each P) (src dst : Location)
    (hnew : ∀ node, (src, node) ∈ d.entries → P dst node) : (d.moveLeaf src dst).Each P := by
  intro q node hmem
  obtain ⟨p, hold, -, rfl⟩ := (d.mem_relocate _ _ _ _).mp hmem
  unfold leafPlace
  split
  · rename_i hsrc
    subst hsrc
    exact hnew node hold
  · exact h p node hold

end Each

end Disk

def components (path : Path) : List Name :=
  (path.splitOn '/').filter fun c => !c.isEmpty && c ≠ ['.']

def isAbsolute (path : Path) : Bool := path.head? = some '/'

def ofComponents (absolute : Bool) (names : List Name) : Path :=
  (if absolute then ['/'] else []) ++ List.intercalate ['/'] names

def parent (path : Path) : Option Path :=
  if (components path).isEmpty then none
  else some (ofComponents (isAbsolute path) (components path).dropLast)

def fileName (path : Path) : Option Name :=
  (components path).getLast?.filter fun c => c ≠ ['.', '.']

def join (base name : Path) : Path :=
  if isAbsolute name || base.isEmpty then name
  else if base.getLast? = some '/' then base ++ name
  else base ++ '/' :: name

inductive Found
  | at (p : Location)
  | missing
  | invalid
  deriving DecidableEq

inductive Walked
  | found (found : Found)
  | link (base : Location) (target : Path) (rest : List Name)

namespace Disk

def walkOnce (d : Disk α) (follow : Bool) : Location → List Name → Walked
  | p, [] => .found (.at p)
  | p, c :: rest =>
    if c = ['.', '.'] then d.walkOnce follow p.dropLast rest
    else
      match d.get (p ++ [c]) with
      | some .dir => d.walkOnce follow (p ++ [c]) rest
      | some (.link target) =>
        if rest.isEmpty && !follow then .found (.at (p ++ [c])) else .link p target rest
      | some (.file _ _) => if rest.isEmpty then .found (.at (p ++ [c])) else .found .invalid
      | none => if rest.isEmpty then .found (.at (p ++ [c])) else .found .missing

def linkBase (base : Location) (target : Path) : Location :=
  if isAbsolute target then [] else base

def walk (d : Disk α) (follow : Bool) : ℕ → Location → List Name → Found
  | 0, _, _ => .invalid
  | n + 1, p, names =>
    match d.walkOnce follow p names with
    | .found found => found
    | .link base target rest => d.walk follow n (linkBase base target) (components target ++ rest)

def maxLinks : ℕ := 40

/-- The location a path names, relative to the directory `cwd`. -/
def resolve (d : Disk α) (cwd : Location) (follow : Bool) (path : Path) : Found :=
  if path.isEmpty then .missing
  else d.walk follow (maxLinks + 1) (if isAbsolute path then [] else cwd) (components path)

def node (d : Disk α) (cwd : Location) (follow : Bool) (path : Path) : Option (Node α) :=
  match d.resolve cwd follow path with
  | .at p => d.get p
  | _ => none

end Disk

theorem splitOn_append_suffix (path suffix : Path) (h : '/' ∉ suffix) :
    ∃ pre c, (path ++ suffix).splitOn '/' = pre ++ [c ++ suffix] := by
  induction path with
  | nil => exact ⟨[], [], by rw [List.nil_append, List.splitOn_eq_singleton h]; rfl⟩
  | cons x path ih =>
    obtain ⟨pre, c, heq⟩ := ih
    rw [List.cons_append, List.splitOn_cons_eq_if_modifyHead, heq]
    split
    · exact ⟨[] :: pre, c, rfl⟩
    · cases pre with
      | nil => exact ⟨[], x :: c, rfl⟩
      | cons name pre => exact ⟨(x :: name) :: pre, c, rfl⟩

theorem components_append_suffix (path suffix : Path) (h : '/' ∉ suffix)
    (hlong : 1 < suffix.length) :
    ∃ pre c, components (path ++ suffix) = pre ++ [c ++ suffix] := by
  obtain ⟨pre, c, heq⟩ := splitOn_append_suffix path suffix h
  refine ⟨pre.filter fun c => !c.isEmpty && c ≠ ['.'], c, ?_⟩
  have hlength : 1 < (c ++ suffix).length := by
    rw [List.length_append]
    omega
  have hempty : (c ++ suffix).isEmpty = false := by
    cases hc : c ++ suffix with
    | nil => simp [hc] at hlength
    | cons _ _ => rfl
  have hdot : c ++ suffix ≠ ['.'] := by
    intro hc
    simp [hc] at hlength
  rw [components, heq, List.filter_append, List.filter_cons, hempty]
  simp [hdot]

/-- The walk ends at the name `c` or goes on to it. -/
def Walked.EndsIn (c : Name) : Walked → Prop
  | .found (.at q) => ∃ r, q = r ++ [c]
  | .found _ => True
  | .link _ _ rest => ∃ pre, rest = pre ++ [c]

namespace Disk

section Walks

variable (d : Disk α)

theorem walkOnce_leaf (follow : Bool) (c : Name) (hc : c ≠ ['.', '.'])
    (hlinks : follow = true → ∀ p target, d.get (p ++ [c]) ≠ some (.link target))
    (pre : List Name) (p : Location) : (d.walkOnce follow p (pre ++ [c])).EndsIn c := by
  induction pre generalizing p with
  | nil =>
    simp only [List.nil_append, walkOnce, if_neg hc]
    split
    · exact ⟨p, rfl⟩
    · rename_i target hget
      cases follow with
      | false => exact ⟨p, rfl⟩
      | true => exact absurd hget (hlinks rfl p target)
    · exact ⟨p, rfl⟩
    · exact ⟨p, rfl⟩
  | cons x pre ih =>
    rw [List.cons_append, walkOnce]
    have hrest : (pre ++ [c]).isEmpty = false := by simp
    split
    · exact ih p.dropLast
    · split
      · exact ih (p ++ [x])
      · rw [hrest]
        exact ⟨pre, rfl⟩
      · rw [hrest]
        exact trivial
      · rw [hrest]
        exact trivial

/-- When no link with the name `c` is followed, a path that ends in `c` names a location that ends
in `c`. -/
theorem walk_leaf (follow : Bool) (c : Name) (hc : c ≠ ['.', '.'])
    (hlinks : follow = true → ∀ p target, d.get (p ++ [c]) ≠ some (.link target)) (n : ℕ)
    (pre : List Name) (p q : Location) (hwalk : d.walk follow n p (pre ++ [c]) = .at q) :
    ∃ r, q = r ++ [c] := by
  induction n generalizing p pre with
  | zero => cases hwalk
  | succ n ih =>
    have hends := d.walkOnce_leaf follow c hc hlinks pre p
    rw [walk] at hwalk
    cases hw : d.walkOnce follow p (pre ++ [c]) with
    | found found =>
      rw [hw] at hwalk hends
      simp only at hwalk
      subst hwalk
      exact hends
    | link base target rest =>
      rw [hw] at hwalk hends
      obtain ⟨pre', rfl⟩ := hends
      simp only at hwalk
      rw [← List.append_assoc] at hwalk
      exact ih _ _ hwalk

variable (e : Disk α)

/-- The directories and links of `d` stand in `e` as well. -/
def Within : Prop :=
  (∀ p, d.get p = some .dir → e.get p = some .dir) ∧
    ∀ p target, d.get p = some (.link target) → e.get p = some (.link target)

theorem within_of_entries (h : ∀ p node, (p, node) ∈ d.entries → node.inode? = none →
    (p, node) ∈ e.entries) : d.Within e := by
  have hget : ∀ p node, d.get p = some node → node.inode? = none → e.get p = some node := by
    intro p node hnode hnone
    by_cases hp : p = []
    · rw [get, if_pos hp] at hnode ⊢
      exact hnode
    · exact e.get_of_mem p node hp (h p node (d.mem_of_get p node hp hnode) hnone)
  exact ⟨fun p hp => hget p _ hp rfl, fun p target hp => hget p _ hp rfl⟩

theorem erase_within (p : Location) : (d.erase p).Within d :=
  within_of_entries _ _ fun _ _ hmem _ => ((d.mem_erase p _).mp hmem).1

theorem map_within (g : Location → ℕ → α → α) : (d.map g).Within d := by
  refine within_of_entries _ _ ?_
  intro p node hmem hnone
  obtain ⟨old, hold, rfl⟩ := (d.mem_map g p _).mp hmem
  cases old with
  | dir => exact hold
  | link target => exact hold
  | file j content => cases hnone

theorem moveLeaf_within (p q : Location) (inode : ℕ) (content : α)
    (hget : d.get p = some (.file inode content)) : (d.moveLeaf p q).Within d := by
  refine within_of_entries _ _ ?_
  intro r node hmem hnone
  obtain ⟨old, hold, -, heq⟩ := (d.mem_relocate _ _ _ _).mp hmem
  have hne : old ≠ p := by
    rintro rfl
    have hnode := d.get_of_mem old node (d.ne_root_of_file old inode content hget) hold
    obtain rfl := Option.some.inj (hnode.symm.trans hget)
    cases hnone
  have hsame : r = old := by simpa [leafPlace, hne] using heq
  exact hsame ▸ hold

/-- The location holds a file in `e`, or what `d` holds there stands in `e` as well. -/
def Kept (q : Location) : Prop :=
  (∃ inode content, e.get q = some (.file inode content)) ∨
    ∃ node, d.get q = some node ∧ node.inode? = none

theorem walkOnce_within (h : d.Within e) (follow : Bool) (names : List Name) (p : Location) :
    e.walkOnce follow p names = d.walkOnce follow p names ∨
      d.walkOnce follow p names = .found .missing ∨ d.walkOnce follow p names = .found .invalid ∨
      ∃ q, d.walkOnce follow p names = .found (.at q) ∧ ¬ d.Kept e q := by
  induction names generalizing p with
  | nil => exact Or.inl rfl
  | cons c rest ih =>
    rw [walkOnce, walkOnce]
    by_cases hdots : c = ['.', '.']
    · rw [if_pos hdots, if_pos hdots]
      exact ih p.dropLast
    · rw [if_neg hdots, if_neg hdots]
      cases hget : d.get (p ++ [c]) with
      | none =>
        cases hrest : rest.isEmpty with
        | false => exact Or.inr (Or.inl rfl)
        | true =>
          by_cases hfile : ∃ inode content, e.get (p ++ [c]) = some (.file inode content)
          · obtain ⟨inode, content, he⟩ := hfile
            rw [he]
            exact Or.inl rfl
          · refine Or.inr (Or.inr (Or.inr ⟨p ++ [c], rfl, ?_⟩))
            rintro (hkept | ⟨node, hnode, -⟩)
            · exact hfile hkept
            · exact absurd (hget.symm.trans hnode) (by simp)
      | some node =>
        cases node with
        | dir =>
          rw [h.1 _ hget]
          exact ih (p ++ [c])
        | link target =>
          rw [h.2 _ _ hget]
          exact Or.inl rfl
        | file inode content =>
          cases hrest : rest.isEmpty with
          | false => exact Or.inr (Or.inr (Or.inl rfl))
          | true =>
            by_cases hfile : ∃ inode content, e.get (p ++ [c]) = some (.file inode content)
            · obtain ⟨inode', content', he⟩ := hfile
              rw [he]
              exact Or.inl rfl
            · refine Or.inr (Or.inr (Or.inr ⟨p ++ [c], rfl, ?_⟩))
              rintro (hkept | ⟨node, hnode, hnone⟩)
              · exact hfile hkept
              · obtain rfl := Option.some.inj (hget.symm.trans hnode)
                cases hnone

/-- A path leads in `e` to the same location as in `d`, if the location is kept. -/
theorem walk_within (h : d.Within e) (follow : Bool) (n : ℕ) (names : List Name) (p q : Location)
    (hwalk : d.walk follow n p names = .at q) (hkept : d.Kept e q) :
    e.walk follow n p names = .at q := by
  induction n generalizing p names with
  | zero => cases hwalk
  | succ n ih =>
    rw [walk] at hwalk ⊢
    rcases d.walkOnce_within e h follow names p with heq | heq | heq | ⟨r, heq, hne⟩
    · rw [heq]
      cases hw : d.walkOnce follow p names with
      | found found =>
        rw [hw] at hwalk
        exact hwalk
      | link base target rest =>
        rw [hw] at hwalk
        exact ih _ _ hwalk
    · rw [heq] at hwalk
      cases hwalk
    · rw [heq] at hwalk
      cases hwalk
    · rw [heq] at hwalk
      obtain rfl := Found.at.inj hwalk
      exact absurd hkept hne

theorem walkOnce_follow (names : List Name) (p : Location) :
    d.walkOnce true p names = d.walkOnce false p names ∨
      ∃ q target, d.walkOnce false p names = .found (.at q) ∧ d.get q = some (.link target) := by
  induction names generalizing p with
  | nil => exact Or.inl rfl
  | cons c rest ih =>
    rw [walkOnce, walkOnce]
    by_cases hdots : c = ['.', '.']
    · rw [if_pos hdots, if_pos hdots]
      exact ih p.dropLast
    · rw [if_neg hdots, if_neg hdots]
      cases hget : d.get (p ++ [c]) with
      | none => exact Or.inl rfl
      | some node =>
        cases node with
        | dir => exact ih (p ++ [c])
        | link target =>
          cases hrest : rest.isEmpty with
          | true => exact Or.inr ⟨p ++ [c], target, rfl, hget⟩
          | false => exact Or.inl rfl
        | file inode content => exact Or.inl rfl

theorem walk_follow (n : ℕ) (names : List Name) (p q : Location)
    (hwalk : d.walk false n p names = .at q) (hnot : ∀ target, d.get q ≠ some (.link target)) :
    d.walk true n p names = .at q := by
  induction n generalizing p names with
  | zero => cases hwalk
  | succ n ih =>
    rw [walk] at hwalk ⊢
    rcases d.walkOnce_follow names p with heq | ⟨r, target, heq, hlink⟩
    · rw [heq]
      cases hw : d.walkOnce false p names with
      | found found =>
        rw [hw] at hwalk
        exact hwalk
      | link base target rest =>
        rw [hw] at hwalk
        exact ih _ _ hwalk
    · rw [heq] at hwalk
      obtain rfl := Found.at.inj hwalk
      exact absurd hlink (hnot target)

theorem resolve_within (h : d.Within e) (cwd : Location) (follow : Bool) (path : Path)
    (q : Location) (hresolve : d.resolve cwd follow path = .at q) (hkept : d.Kept e q) :
    e.resolve cwd follow path = .at q := by
  unfold resolve at hresolve ⊢
  split at hresolve
  · cases hresolve
  · rename_i hpath
    rw [if_neg hpath]
    exact d.walk_within e h follow _ _ _ q hresolve hkept

theorem resolve_follow (cwd : Location) (path : Path) (q : Location)
    (hresolve : d.resolve cwd false path = .at q) (hnot : ∀ target, d.get q ≠ some (.link target)) :
    d.resolve cwd true path = .at q := by
  unfold resolve at hresolve ⊢
  split at hresolve
  · cases hresolve
  · rename_i hpath
    rw [if_neg hpath]
    exact d.walk_follow _ _ _ q hresolve hnot

theorem resolve_suffix (suffix : Path) (hslash : '/' ∉ suffix) (hlong : 2 < suffix.length)
    (hlinks : ∀ p c target, d.get (p ++ [c ++ suffix]) ≠ some (.link target)) (cwd : Location)
    (follow : Bool) (path : Path) (q : Location)
    (hresolve : d.resolve cwd follow (path ++ suffix) = .at q) : ∃ r c, q = r ++ [c ++ suffix] := by
  obtain ⟨pre, c, heq⟩ := components_append_suffix path suffix hslash (by omega)
  have hdots : c ++ suffix ≠ ['.', '.'] := by
    intro hc
    have hlength := congrArg List.length hc
    rw [List.length_append] at hlength
    simp only [List.length_cons, List.length_nil] at hlength
    omega
  unfold resolve at hresolve
  split at hresolve
  · cases hresolve
  · rw [heq] at hresolve
    obtain ⟨r, hr⟩ := d.walk_leaf follow (c ++ suffix) hdots (fun _ p target =>
      hlinks p c target) _ _ _ q
      hresolve
    exact ⟨r, c, hr⟩

end Walks

end Disk

inductive Op
  | remove | removeDir | rename | create | open | makeDir | stat

/-- The directory relative paths start from, and the operations the system lets through. -/
structure Os where
  cwd : Location
  allows : Op → Location → Bool

namespace Disk

variable (os : Os) (d : Disk α)

def removeFile (path : Path) : Option (Disk α) :=
  match d.resolve os.cwd false path with
  | .at p =>
    match d.get p with
    | some (.file _ _) | some (.link _) => if os.allows .remove p then some (d.erase p) else none
    | _ => none
  | _ => none

def isEmptyDir (p : Location) : Bool := d.entries.all fun e =>
    !(decide (p <+: e.1) && decide (e.1 ≠ p))

def removeDirAt (p : Location) : Option (Disk α) :=
  match d.get p with
  | some .dir => if p ≠ [] ∧ d.isEmptyDir p ∧ os.allows .removeDir p then some (d.erase p) else none
  | _ => none

def removeDir (path : Path) : Option (Disk α) :=
  match d.resolve os.cwd false path with
  | .at p => d.removeDirAt os p
  | _ => none

def children (p : Location) : List (Location × Node α) :=
  d.entries.filter fun e => e.1 ≠ [] ∧ e.1.dropLast = p

def canReplace (node : Node α) (q : Location) : Bool :=
  match node, d.get q with
  | _, none => true
  | .dir, some .dir => d.isEmptyDir q
  | .dir, some _ => false
  | _, some .dir => false
  | _, some _ => true

end Disk

def endsInName (isDir : Bool) (path : Path) : Bool :=
  match ((path.splitOn '/').filter fun c => !isDir || !c.isEmpty).getLast? with
  | some c => !c.isEmpty && c ≠ ['.'] && c ≠ ['.', '.']
  | none => false

def Node.isDir : Node α → Bool
  | .dir => true
  | _ => false

namespace Disk

variable (os : Os) (d : Disk α)

def renameAt (p q : Location) (node : Node α) : Disk α :=
  match node with
  | .dir => d.moveTree p q
  | _ => d.moveLeaf p q

def rename (src dst : Path) : Option (Disk α) :=
  match d.resolve os.cwd false src, d.resolve os.cwd false dst with
  | .at p, .at q =>
    match d.get p with
    | none => none
    | some node =>
      if !endsInName node.isDir src || !endsInName node.isDir dst then none
      else if p = q then some d
      else if p ≠ [] ∧ q ≠ [] ∧ ¬ p <+: q ∧ d.canReplace node q ∧ os.allows .rename p then
        some (d.renameAt p q node)
      else none
  | _, _ => none

end Disk

def makeDirs (os : Os) (start : Location) : Disk α → List Name → List Name → Disk α
  | d, _, [] => d
  | d, pre, name :: rest =>
    let d :=
      match d.walk false (Disk.maxLinks + 1) start (pre ++ [name]) with
      | .at p => if (d.get p).isNone && os.allows .makeDir p then d.addDir p else d
      | _ => d
    makeDirs os start d (pre ++ [name]) rest

namespace Disk

variable (os : Os) (d : Disk α)

def createDirAll (path : Path) : Disk α :=
  makeDirs os (if isAbsolute path then [] else os.cwd) d [] (components path)

def createParents (path : Path) : Disk α :=
  makeDirs os (if isAbsolute path then [] else os.cwd) d [] (components path).dropLast

/-- Opens a file for writing with the content `content`, new or in place of the old one. -/
def create (path : Path) (content : α) : Option (Disk α × ℕ) :=
  match d.resolve os.cwd true path with
  | .at p =>
    match d.get p with
    | none => if os.allows .create p then some (d.add p content, d.next) else none
    | some (.file inode _) =>
      if os.allows .create p then some (d.update inode fun _ => content, inode) else none
    | _ => none
  | _ => none

def openFile (path : Path) : Option (ℕ × α) :=
  match d.resolve os.cwd true path with
  | .at p =>
    match d.get p with
    | some (.file inode content) => if os.allows .open p then some (inode, content) else none
    | _ => none
  | _ => none

end Disk

def clearBelow (os : Os) : ℕ → Disk α → Location → Disk α
  | 0, d, _ => d
  | n + 1, d, p =>
    (d.children p).foldl (fun d e =>
      match e.2 with
      | .dir => ((clearBelow os n d e.1).removeDirAt os e.1).getD (clearBelow os n d e.1)
      | .link _ => if os.allows .remove e.1 then d.erase e.1 else d
      | .file _ _ => d) d

namespace Disk

section Operations

variable {os : Os} {d t : Disk α} {P : Location → Node α → Prop}

theorem removeFile_eq {path : Path} (h : d.removeFile os path = some t) :
    ∃ p, d.resolve os.cwd false path = .at p ∧ d.get p ≠ some .dir ∧ t = d.erase p := by
  unfold removeFile at h
  split at h
  · rename_i p hp
    split at h
    · rename_i hget
      split at h
      · exact ⟨p, hp, by simp [hget], (Option.some.inj h).symm⟩
      · cases h
    · rename_i hget
      split at h
      · exact ⟨p, hp, by simp [hget], (Option.some.inj h).symm⟩
      · cases h
    · cases h
  · cases h

theorem rename_eq {src dst : Path} (h : d.rename os src dst = some t) :
    t = d ∨ ∃ p q node, d.resolve os.cwd false src = .at p ∧ d.resolve os.cwd false dst = .at q ∧
      d.get p = some node ∧ endsInName node.isDir dst = true ∧ p ≠ [] ∧ q ≠ [] ∧ p ≠ q ∧
      t = d.renameAt p q node := by
  unfold rename at h
  split at h
  · rename_i p q hp hq
    split at h
    · cases h
    · rename_i node hget
      split at h
      · cases h
      · rename_i hnames
        rw [Bool.not_eq_true, Bool.or_eq_false_iff, Bool.not_eq_false',
          Bool.not_eq_false'] at hnames
        split at h
        · exact Or.inl (Option.some.inj h).symm
        · rename_i hne
          split at h
          · rename_i hcond
            exact Or.inr ⟨p, q, node, hp, hq, hget, hnames.2, hcond.1, hcond.2.1, hne,
              (Option.some.inj h).symm⟩
          · cases h
  · cases h

theorem create_eq {path : Path} {content : α} {inode : ℕ}
    (h : d.create os path content = some (t, inode)) :
    ∃ p, d.resolve os.cwd true path = .at p ∧
      (d.get p = none ∧ inode = d.next ∧ t = d.add p content ∨
        ∃ old, d.get p = some (.file inode old) ∧ t = d.update inode fun _ => content) := by
  unfold create at h
  split at h
  · rename_i p hp
    refine ⟨p, hp, ?_⟩
    split at h
    · rename_i hget
      split at h
      · obtain ⟨rfl, rfl⟩ := Prod.mk.inj (Option.some.inj h)
        exact Or.inl ⟨hget, rfl, rfl⟩
      · cases h
    · rename_i j old hget
      split at h
      · obtain ⟨rfl, rfl⟩ := Prod.mk.inj (Option.some.inj h)
        exact Or.inr ⟨old, hget, rfl⟩
      · cases h
    · cases h
  · cases h

theorem openFile_eq {path : Path} {inode : ℕ} {content : α}
    (h : d.openFile os path = some (inode, content)) :
    ∃ p, d.resolve os.cwd true path = .at p ∧ d.get p = some (.file inode content) := by
  unfold openFile at h
  split at h
  · rename_i p hp
    split at h
    · rename_i hget
      split at h
      · obtain ⟨rfl, rfl⟩ := Prod.mk.inj (Option.some.inj h)
        exact ⟨p, hp, hget⟩
      · cases h
    · cases h
  · cases h

theorem Each.removeFile (h : d.Each P) (path : Path) : ((d.removeFile os path).getD d).Each P := by
  cases hremove : d.removeFile os path with
  | none => exact h
  | some t =>
    obtain ⟨p, -, -, rfl⟩ := removeFile_eq hremove
    exact h.erase p

theorem Each.removeDirAt (h : d.Each P) (p : Location) : ((d.removeDirAt os p).getD d).Each P := by
  unfold Disk.removeDirAt
  split
  · split
    · exact h.erase p
    · exact h
  · exact h

theorem Each.removeDir (h : d.Each P) (path : Path) : ((d.removeDir os path).getD d).Each P := by
  unfold Disk.removeDir
  split
  · exact h.removeDirAt _
  · exact h

/-- The rule for a directory that moves with what is below it, and for a file or link. -/
theorem Each.rename (h : d.Each P) {src dst : Path} (hrename : d.rename os src dst = some t)
    (htree : ∀ p q rest node, p ≠ [] → d.resolve os.cwd false src = .at p →
      d.resolve os.cwd false dst = .at q → d.get p = some .dir → (p ++ rest, node) ∈ d.entries →
      P (q ++ rest) node)
    (hleaf : ∀ p q node, d.resolve os.cwd false src = .at p → d.resolve os.cwd false dst = .at q →
      endsInName false dst = true → node ≠ .dir → d.get p = some node → P q node) : t.Each P := by
  rcases rename_eq hrename with rfl | ⟨p, q, node, hp, hq, hget, hname, hroot, -, -, rfl⟩
  · exact h
  · have hone : endsInName false dst = true → node ≠ .dir → (d.moveLeaf p q).Each P := by
      intro hends hnode
      refine h.moveLeaf p q ?_
      intro other hother
      obtain rfl := Option.some.inj ((d.get_of_mem p other hroot hother).symm.trans hget)
      exact hleaf p q other hp hq hends hnode hget
    cases node with
    | dir => exact h.moveTree p q fun rest node hmem => htree p q rest node hroot hp hq hget hmem
    | link target => exact hone hname (by simp)
    | file inode content => exact hone hname (by simp)

/-- After a rename an entry stands where it stood, or was moved. -/
theorem mem_rename {src dst : Path} (hrename : d.rename os src dst = some t) {r : Location}
    {node : Node α} (hmem : (r, node) ∈ t.entries) :
    (r, node) ∈ d.entries ∨
      ∃ p q rest, d.resolve os.cwd false src = .at p ∧ d.resolve os.cwd false dst = .at q ∧
        p ≠ q ∧ r = q ++ rest ∧ (p ++ rest, node) ∈ d.entries := by
  rcases rename_eq hrename with rfl | ⟨p, q, moved, hp, hq, -, -, -, -, hne, rfl⟩
  · exact Or.inl hmem
  · have hleaf : (r, node) ∈ (d.moveLeaf p q).entries → (r, node) ∈ d.entries ∨
        ∃ p q rest, d.resolve os.cwd false src = .at p ∧ d.resolve os.cwd false dst = .at q ∧
          p ≠ q ∧ r = q ++ rest ∧ (p ++ rest, node) ∈ d.entries := by
      intro hentry
      obtain ⟨old, hold, -, rfl⟩ := (d.mem_relocate _ _ _ _).mp hentry
      unfold leafPlace
      split
      · rename_i hsrc
        subst hsrc
        exact Or.inr ⟨old, q, [], hp, hq, hne, by simp, by simpa using hold⟩
      · exact Or.inl hold
    cases moved with
    | dir =>
      obtain ⟨old, hold, -, rfl⟩ := (d.mem_relocate _ _ _ _).mp hmem
      unfold treePlace
      split
      · rename_i hsrc
        obtain ⟨rest, rfl⟩ := hsrc
        exact Or.inr ⟨p, q, rest, hp, hq, hne, by rw [List.drop_left], hold⟩
      · exact Or.inl hold
    | link target => exact hleaf hmem
    | file inode content => exact hleaf hmem

theorem Each.makeDirs (h : d.Each P) (hdir : ∀ p, P p .dir) (start : Location)
    (pre names : List Name) : (FileSystem.makeDirs os start d pre names).Each P := by
  induction names generalizing d pre with
  | nil => exact h
  | cons name rest ih =>
    refine ih ?_ (pre ++ [name])
    split
    · split
      · exact h.addDir _ (hdir _)
      · exact h
    · exact h

theorem Each.createDirAll (h : d.Each P) (hdir : ∀ p, P p .dir) (os : Os) (path : Path) :
    (d.createDirAll os path).Each P := h.makeDirs hdir _ _ _

theorem Each.createParents (h : d.Each P) (hdir : ∀ p, P p .dir) (os : Os) (path : Path) :
    (d.createParents os path).Each P := h.makeDirs hdir _ _ _

theorem Each.foldl_erasing (h : d.Each P) (f : Disk α → Location × Node α → Disk α)
    (hf : ∀ d e, Each P d → Each P (f d e)) (l : List (Location × Node α)) :
    (l.foldl f d).Each P := by
  induction l generalizing d with
  | nil => exact h
  | cons e l ih => exact ih (hf d e h)

theorem Each.clearBelow (h : d.Each P) (n : ℕ) (p : Location) :
    (FileSystem.clearBelow os n d p).Each P := by
  induction n generalizing d p with
  | zero => exact h
  | succ n ih =>
    refine h.foldl_erasing _ ?_ _
    intro d e hd
    split
    · exact (ih hd e.1).removeDirAt e.1
    · split
      · exact hd.erase e.1
      · exact hd
    · exact hd

theorem Each.create (h : d.Each P) {path : Path} {content : α} {inode : ℕ}
    (hcreate : d.create os path content = some (t, inode))
    (hnew : ∀ p j, d.resolve os.cwd true path = .at p → P p (.file j content)) : t.Each P := by
  obtain ⟨p, hp, ⟨-, -, rfl⟩ | ⟨old, hget, rfl⟩⟩ := create_eq hcreate
  · exact h.add p content (hnew p d.next hp)
  · refine h.update inode _ ?_
    intro q other hq
    obtain ⟨rfl, -⟩ := d.file_unique q p inode other old hq (d.mem_of_get_file p inode old hget)
    exact hnew q inode hp

theorem create_mem {path : Path} {content : α} {inode : ℕ}
    (hcreate : d.create os path content = some (t, inode)) :
    ∃ p, d.resolve os.cwd true path = .at p ∧ (p, .file inode content) ∈ t.entries := by
  obtain ⟨p, hp, ⟨-, rfl, rfl⟩ | ⟨old, hget, rfl⟩⟩ := create_eq hcreate
  · exact ⟨p, hp, (d.mem_add p content _).mpr (Or.inl rfl)⟩
  · refine ⟨p, hp, (d.mem_map_file _ p inode content).mpr ?_⟩
    exact ⟨old, d.mem_of_get_file p inode old hget, (if_pos rfl).symm⟩

theorem create_place {path : Path} {content : α} {inode : ℕ}
    (hcreate : d.create os path content = some (t, inode)) {p : Location} {i : ℕ} {c : α}
    (hmem : (p, .file i c) ∈ t.entries) (hold : i < d.next) :
    ∃ c', (p, .file i c') ∈ d.entries := by
  obtain ⟨q, -, ⟨-, -, rfl⟩ | ⟨old, -, rfl⟩⟩ := create_eq hcreate
  · rcases (d.mem_add q content _).mp hmem with heq | ⟨hentry, -⟩
    · cases heq
      exact absurd hold (Nat.lt_irrefl _)
    · exact ⟨c, hentry⟩
  · obtain ⟨c', hentry, -⟩ := (d.mem_map_file _ p i c).mp hmem
    exact ⟨c', hentry⟩

end Operations

end Disk

end ClantoDesk.FileSystem
