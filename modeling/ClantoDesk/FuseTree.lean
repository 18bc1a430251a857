import ClantoDesk.BinarySearch
import ClantoDesk.ClipboardFiles
import ClantoDesk.FileTree

/-!
The tree of files that a mounted clipboard shows, libs/clipboard/src/platform/unix/fuse/cs.rs. It is
built in one pass over the list of the peer. A directory is found by its path in a map that is
filled on the way, so a file whose directory comes later in the list, or not at all, goes to the
root. A name is looked up among the children in their order, and the first one counts. The times of
files are left out.
-/
namespace ClantoDesk.FuseTree

open Text FileSystem BinarySearch ClipboardFiles

def FUSE_ROOT_ID : ℕ := 1
def MAX_NAME_LEN : ℕ := 255

structure InodeAttributes where
  inode : ℕ
  size : ℕ
  kind : FileType
  perm : ℕ

structure FileHandles where
  handlers : List ℕ
  gc : Bool

namespace FileHandles

def new : FileHandles := ⟨[], false⟩

def add (self : FileHandles) (fh : ℕ) : FileHandles :=
    { self with handlers := self.handlers ++ [fh] }

def has (self : FileHandles) (fh : ℕ) : Bool := (binarySearch self.handlers fh).isSome

def unregister (self : FileHandles) (fh : ℕ) : Option FileHandles :=
  (binarySearch self.handlers fh).map fun i =>
    { self with handlers := self.handlers.eraseIdx i }

end FileHandles

structure FuseNode where
  connId : Int32
  clipDataId : Int32
  index : ℕ
  parent : Option ℕ
  name : Str
  attributes : InodeAttributes
  children : List ℕ
  fileHandlers : FileHandles

namespace FuseNode

def fromDescription (inode : ℕ) (desc : FileDescription) : FuseNode :=
  { connId := desc.connId
    clipDataId := desc.clipDataId
    index := inode - 2
    parent := none
    name := desc.name
    attributes := ⟨inode, desc.size, desc.kind, desc.perm⟩
    children := []
    fileHandlers := .new }

def newRoot : FuseNode :=
  { connId := 0
    clipDataId := 0
    index := 0
    parent := none
    name := "/".toList
    attributes := ⟨FUSE_ROOT_ID, 0, .directory, PERM_RWX⟩
    children := []
    fileHandlers := .new }

def addChild (inode : ℕ) (node : FuseNode) : FuseNode :=
  { node with children := node.children ++ [inode] }

@[simp] theorem addChild_fileHandlers (inode : ℕ) (node : FuseNode) :
    (addChild inode node).fileHandlers = node.fileHandlers := rfl

end FuseNode

def pathKey (path : Path) : Bool × List Name := (isAbsolute path, components path)

abbrev SubRoots := List ((Bool × List Name) × ℕ)

def SubRoots.get (roots : SubRoots) (path : Path) : Option ℕ :=
  (roots.find? fun r => decide (r.1 = pathKey path)).map fun r => r.2

structure FileError where
  path : Path
  text : String
  deriving DecidableEq

def addFile (s : List FuseNode × SubRoots) (file : FileDescription) :
    Except FileError (List FuseNode × SubRoots) :=
  let inode := s.1.length + FUSE_ROOT_ID
  let parentInode :=
    match parent file.name with
    | some path => (s.2.get path).getD FUSE_ROOT_ID
    | none => FUSE_ROOT_ID
  let tree := s.1.modify (parentInode - 1) (FuseNode.addChild inode)
  match fileName file.name with
  | none => .error ⟨file.name, "invalid file name " ++ String.ofList file.name⟩
  | some baseName =>
    let roots := if file.kind = .directory then (pathKey file.name, inode) :: s.2 else s.2
    let node := FuseNode.fromDescription inode { file with name := baseName }
    .ok (tree ++ [{ node with parent := some parentInode }], roots)

def startRoots : SubRoots :=
  [(pathKey [], FUSE_ROOT_ID), (pathKey "/".toList, FUSE_ROOT_ID)]

def buildTree (files : List FileDescription) : Except FileError (List FuseNode) :=
  (files.foldlM addFile ([FuseNode.newRoot], startRoots)).map fun s => s.1

/-! ### Looking up -/

inductive Errno
  | ENAMETOOLONG | ENOENT | ENOTDIR | EBUSY | EBADF | ENFILE | EIO
  deriving DecidableEq

def nodeAt (tree : List FuseNode) (inode : ℕ) : Option FuseNode :=
  if inode = 0 then none else tree[inode - 1]?

def lookup (tree : List FuseNode) (parent : ℕ) (name : Str) : Except Errno InodeAttributes :=
  if MAX_NAME_LEN < byteLength name then .error .ENAMETOOLONG
  else
    match nodeAt tree parent with
    | none => .error .ENOENT
    | some entry =>
      if entry.attributes.kind ≠ .directory then .error .ENOTDIR
      else
        match (entry.children.filterMap (nodeAt tree)).find? fun child =>
          decide (child.name = name) with
        | some child => .ok child.attributes
        | none => .error .ENOENT

def lookupPath (tree : List FuseNode) (names : List Name) : Except Errno ℕ :=
  names.foldlM (fun inode name => (lookup tree inode name).map fun a => a.inode) FUSE_ROOT_ID

/-! ### The names of a list -/

def Parsed (desc : FileDescription) : Prop := validateFileName desc.name = .ok ()

def baseName (desc : FileDescription) : Name := (components desc.name).getLastD []

def IsName (c : Name) : Prop := c ≠ [] ∧ c ≠ ['.'] ∧ c ≠ ['.', '.'] ∧ '/' ∉ c

theorem parsed_names (desc : FileDescription) (h : Parsed desc) :
    components desc.name = desc.name.splitOn '/' ∧ isAbsolute desc.name = false ∧
      ∀ c ∈ components desc.name, IsName c := by
  unfold Parsed validateFileName at h
  split at h
  · cases h
  · rename_i hbad
    rw [Bool.or_eq_true, not_or] at hbad
    unfold validateFileNameNoTraversal at h
    split at h
    · cases h
    split at h
    · cases h
    rename_i hdots
    split at h
    · cases h
    rename_i habsolute
    have hplain : ∀ c ∈ desc.name.splitOn '/', c ≠ [] ∧ c ≠ ['.'] := by
      intro c hc
      have hnone := mt List.any_eq_true.mpr hbad.2
      constructor
      · rintro rfl
        exact hnone ⟨[], hc, rfl⟩
      · rintro rfl
        exact hnone ⟨['.'], hc, rfl⟩
    have hcomponents : components desc.name = desc.name.splitOn '/' := by
      rw [components, List.filter_eq_self]
      intro c hc
      obtain ⟨hne, hdot⟩ := hplain c hc
      simp [hne, hdot]
    refine ⟨hcomponents, by simpa [isAbsolute] using habsolute, fun c hc => ?_⟩
    rw [hcomponents] at hc
    obtain ⟨hne, hdot⟩ := hplain c hc
    refine ⟨hne, hdot, ?_, slash_not_mem_splitOn desc.name c hc⟩
    rintro rfl
    apply hdots
    exact List.any_eq_true.mpr ⟨['.', '.'], List.mem_filter.mpr ⟨hc, rfl⟩, by decide⟩

variable (files : List FileDescription) (tree : List FuseNode) (roots : SubRoots)
  (file desc : FileDescription) (names : List Name) (k inode : ℕ) (name : Name) (m : ℕ)

theorem components_ne_nil (h : Parsed desc) : components desc.name ≠ [] := by
  rw [(parsed_names desc h).1]
  exact List.splitOn_ne_nil _ _

theorem components_eq (h : Parsed desc) :
    components desc.name = (components desc.name).dropLast ++ [baseName desc] := by
  have hne := components_ne_nil desc h
  rw [baseName, List.getLastD_eq_getLast?, List.getLast?_eq_getLast_of_ne_nil hne, Option.getD_some,
    List.dropLast_append_getLast hne]

theorem fileName_parsed (h : Parsed desc) : fileName desc.name = some (baseName desc) := by
  have hlast : (components desc.name).getLast? = some (baseName desc) := by
    rw [components_eq desc h]
    exact List.getLast?_concat
  have hmem : baseName desc ∈ components desc.name := List.mem_of_getLast? hlast
  have hdots := ((parsed_names desc h).2.2 _ hmem).2.2.1
  rw [fileName, hlast]
  simp [hdots]

theorem pathKey_parent (h : Parsed desc) :
    ∃ path, parent desc.name = some path ∧
      pathKey path = (false, (components desc.name).dropLast) := by
  have hne := components_ne_nil desc h
  cases hparent : parent desc.name with
  | none =>
    rw [FileSystem.parent, if_neg (by simpa using hne)] at hparent
    cases hparent
  | some path =>
    obtain ⟨habsolute, hnames⟩ := parent_eq_some desc.name path hparent
    exact ⟨path, rfl, Prod.ext (habsolute.trans (parsed_names desc h).2.1) hnames⟩

/-! ### The tree of a list -/

def directoryInode (files : List FileDescription) (names : List Name) : Option ℕ :=
  (files.zipIdx.reverse.find? fun e =>
    decide (e.1.kind = .directory ∧ components e.1.name = names)).map fun e => e.2 + 2

def parentInode (files : List FileDescription) (k : ℕ) : ℕ :=
  match files[k]? with
  | some desc => (directoryInode (files.take k) (components desc.name).dropLast).getD FUSE_ROOT_ID
  | none => FUSE_ROOT_ID

def childrenOf (files : List FileDescription) (inode : ℕ) : List ℕ :=
  ((List.range files.length).filter fun k => decide (parentInode files k = inode)).map fun k =>
    k + 2

def nodeOf (files : List FileDescription) (k : ℕ) (desc : FileDescription) : FuseNode :=
  { FuseNode.fromDescription (k + 2) { desc with name := baseName desc } with
    parent := some (parentInode files k)
    children := childrenOf files (k + 2) }

def treeOf (files : List FileDescription) : List FuseNode :=
  { FuseNode.newRoot with children := childrenOf files FUSE_ROOT_ID } ::
    files.zipIdx.map fun e => nodeOf files e.2 e.1

@[simp] theorem treeOf_length (files : List FileDescription) :
    (treeOf files).length = files.length + 1 := by
  simp [treeOf]

theorem treeOf_zero :
    (treeOf files)[0]? = some { FuseNode.newRoot with children := childrenOf files FUSE_ROOT_ID } :=
  rfl

theorem treeOf_succ : (treeOf files)[k + 1]? = files[k]?.map (nodeOf files k) := by
  rw [treeOf, List.getElem?_cons_succ, List.getElem?_map, List.getElem?_zipIdx, Option.map_map]
  simp [Function.comp_def]

theorem directoryInode_spec (h : directoryInode files names = some inode) :
    ∃ k desc, inode = k + 2 ∧ files[k]? = some desc ∧ desc.kind = .directory ∧
      components desc.name = names := by
  obtain ⟨⟨desc, k⟩, hfind, rfl⟩ := Option.map_eq_some_iff.mp h
  have hmem := List.mem_reverse.mp (List.mem_of_find?_eq_some hfind)
  have hok := List.find?_some hfind
  simp only [decide_eq_true_eq] at hok
  exact ⟨k, desc, rfl, List.mk_mem_zipIdx_iff_getElem?.mp hmem, hok.1, hok.2⟩

theorem directoryInode_append :
    directoryInode (files ++ [file]) names =
      if file.kind = .directory ∧ components file.name = names then some (files.length + 2)
      else directoryInode files names := by
  rw [directoryInode, List.zipIdx_append, List.reverse_append]
  simp only [List.zipIdx_singleton, List.reverse_singleton, List.singleton_append, List.find?_cons]
  by_cases h : file.kind = .directory ∧ components file.name = names
  · simp [h]
  · simp [h, directoryInode]

theorem parentInode_append
    (hk : k < files.length) : parentInode (files ++ [file]) k = parentInode files k := by
  rw [parentInode, parentInode, List.getElem?_append_left hk,
    List.take_append_of_le_length (by omega)]

theorem parentInode_lt : 1 ≤ parentInode files k ∧ parentInode files k < k + 2 := by
  unfold parentInode
  split
  · rename_i desc hk
    cases hdir : directoryInode (files.take k) (components desc.name).dropLast with
    | none =>
      rw [Option.getD_none, FUSE_ROOT_ID]
      omega
    | some inode =>
      obtain ⟨i, other, rfl, hi, -⟩ := directoryInode_spec _ _ _ hdir
      have hlt := (List.getElem?_eq_some_iff.mp hi).1
      rw [List.length_take] at hlt
      rw [Option.getD_some]
      omega
  · rw [FUSE_ROOT_ID]
    omega

theorem childrenOf_last (h : files.length < inode) : childrenOf files inode = [] := by
  rw [childrenOf, List.map_eq_nil_iff, List.filter_eq_nil_iff]
  intro k hk heq
  have hlt := (parentInode_lt files k).2
  rw [decide_eq_true_eq] at heq
  rw [List.mem_range] at hk
  omega

theorem childrenOf_append :
    childrenOf (files ++ [file]) inode = childrenOf files inode ++
      (if parentInode (files ++ [file]) files.length = inode then [files.length + 2] else []) := by
  have hsame : (List.range files.length).filter
      (fun k => decide (parentInode (files ++ [file]) k = inode)) =
      (List.range files.length).filter fun k => decide (parentInode files k = inode) := by
    apply List.filter_congr
    intro k hk
    rw [parentInode_append files file k (List.mem_range.mp hk)]
  rw [childrenOf, childrenOf, List.length_append, List.length_singleton, List.range_succ,
    List.filter_append, List.map_append, hsame]
  split
  · rename_i h
    simp [h]
  · rename_i h
    simp [h]

def Knows (files : List FileDescription) (roots : SubRoots) : Prop :=
  ∀ path names, pathKey path = (false, names) →
    roots.get path = (directoryInode files names).or
      (if names = [] then some FUSE_ROOT_ID else none)

theorem knows_start : Knows [] startRoots := by
  intro path names h
  by_cases hnil : names = []
  · subst hnil
    rw [SubRoots.get, h]
    rfl
  · have hkeys : ∀ r ∈ startRoots, r.1 ≠ (false, names) := by
      intro r hr heq
      rcases List.mem_cons.mp hr with rfl | hr
      · exact hnil (Prod.mk.inj heq).2.symm
      · obtain rfl := List.mem_singleton.mp hr
        exact absurd (Prod.mk.inj heq).1 (by decide)
    have hnone : startRoots.find? (fun r => decide (r.1 = (false, names))) = none :=
      List.find?_eq_none.mpr fun r hr => by simpa using hkeys r hr
    simp [SubRoots.get, h, hnone, directoryInode, hnil]

theorem knows_append (hparsed : Parsed file) (h : Knows files roots) :
    Knows (files ++ [file])
      (if file.kind = .directory then (pathKey file.name, files.length + 2) ::
          roots else roots) := by
  intro path names hpath
  have hkey : pathKey file.name = (false, components file.name) :=
    Prod.ext (parsed_names file hparsed).2.1 rfl
  rw [directoryInode_append]
  by_cases hdir : file.kind = .directory
  · by_cases hsame : components file.name = names
    · simp [hdir, hsame, SubRoots.get, hkey, hpath]
    · have hold := h path names hpath
      rw [SubRoots.get, hpath] at hold
      simp [hdir, hsame, SubRoots.get, hkey, hpath, hold]
  · simp [hdir, h path names hpath]

theorem parent_of_knows (hparsed : Parsed file) (h : Knows files roots) :
    (match parent file.name with
      | some path => (roots.get path).getD FUSE_ROOT_ID
      | none => FUSE_ROOT_ID) = parentInode (files ++ [file]) files.length := by
  obtain ⟨path, hpath, hkey⟩ := pathKey_parent file hparsed
  rw [hpath, parentInode, List.getElem?_append_right (Nat.le_refl _), Nat.sub_self,
    List.take_append_of_le_length (Nat.le_refl _), List.take_length]
  simp only [List.getElem?_cons_zero]
  rw [h path _ hkey]
  cases directoryInode files (components file.name).dropLast with
  | some inode => rfl
  | none =>
    rw [Option.none_or, Option.getD_none]
    split <;> rfl

theorem nodeOf_append (hk : k < files.length) :
    nodeOf (files ++ [file]) k desc =
      (if parentInode (files ++ [file]) files.length = k + 2 then
        FuseNode.addChild (files.length + 2) else id) (nodeOf files k desc) := by
  rw [nodeOf, childrenOf_append, parentInode_append files file k hk]
  split
  · rfl
  · rw [List.append_nil]
    rfl

theorem treeOf_append :
    treeOf (files ++ [file]) =
      (treeOf files).modify (parentInode (files ++ [file]) files.length - 1)
        (FuseNode.addChild (files.length + 2)) ++
      [{ FuseNode.fromDescription (files.length + 2) { file with name := baseName file } with
        parent := some (parentInode (files ++ [file]) files.length) }] := by
  have hparent := parentInode_lt (files ++ [file]) files.length
  apply List.ext_getElem?
  intro j
  cases j with
  | zero =>
    rw [List.getElem?_append_left (by simp), List.getElem?_modify, treeOf_zero, treeOf_zero,
      childrenOf_append]
    simp only [Option.map_eq_map, Option.map_some]
    by_cases hroot : parentInode (files ++ [file]) files.length = FUSE_ROOT_ID
    · rw [if_pos hroot, if_pos (by rw [hroot]; rfl)]
      rfl
    · have hne : parentInode (files ++ [file]) files.length - 1 ≠ 0 := by
        rw [FUSE_ROOT_ID] at hroot
        omega
      rw [if_neg hroot, if_neg hne, List.append_nil]
  | succ k =>
    rw [treeOf_succ]
    rcases Nat.lt_trichotomy k files.length with hk | rfl | hk
    · rw [List.getElem?_append_left hk, List.getElem?_append_left (by simp; omega),
        List.getElem?_modify, treeOf_succ, List.getElem?_eq_getElem hk]
      simp only [Option.map_eq_map, Option.map_some, nodeOf_append files file _ k hk]
      by_cases hsame : parentInode (files ++ [file]) files.length = k + 2
      · rw [if_pos hsame, if_pos (by omega)]
      · rw [if_neg hsame, if_neg (by omega)]
        rfl
    · rw [List.getElem?_append_right (Nat.le_refl _), List.getElem?_append_right (by simp)]
      simp only [Nat.sub_self, List.getElem?_cons_zero, Option.map_some, List.length_modify,
        treeOf_length]
      rw [nodeOf, childrenOf_last _ _ (by simp)]
      rfl
    · rw [List.getElem?_eq_none (by simp; omega), List.getElem?_eq_none (by simp; omega)]
      rfl

theorem addFile_treeOf (hparsed : Parsed file) (h : Knows files roots) :
    ∃ roots', addFile (treeOf files, roots) file = .ok (treeOf (files ++ [file]), roots') ∧
      Knows (files ++ [file]) roots' := by
  refine ⟨_, ?_, knows_append files roots file hparsed h⟩
  rw [addFile, fileName_parsed file hparsed, parent_of_knows files roots file hparsed h,
    treeOf_append]
  simp only [treeOf_length]
  rfl

theorem foldlM_addFile (rest : List FileDescription) (roots : SubRoots)
    (hparsed : ∀ file ∈ rest, Parsed file) (h : Knows files roots) :
    ∃ roots', rest.foldlM addFile (treeOf files, roots) = .ok (treeOf (files ++ rest), roots') := by
  induction rest generalizing files roots with
  | nil => exact ⟨roots, by rw [List.append_nil]; rfl⟩
  | cons file rest ih =>
    obtain ⟨roots', hadd, hknows⟩ :=
      addFile_treeOf files roots file (hparsed file (List.mem_cons_self ..)) h
    obtain ⟨roots'', hrest⟩ := ih (files ++ [file]) roots'
      (fun f hf => hparsed f (List.mem_cons_of_mem _ hf)) hknows
    refine ⟨roots'', ?_⟩
    rw [List.foldlM_cons, hadd]
    rw [List.append_assoc, List.singleton_append] at hrest
    exact hrest

theorem buildTree_eq (hparsed : ∀ file ∈ files, Parsed file) :
    buildTree files = .ok (treeOf files) := by
  obtain ⟨roots, h⟩ := foldlM_addFile [] files startRoots hparsed knows_start
  have hstart : treeOf [] = [FuseNode.newRoot] := rfl
  rw [hstart, List.nil_append] at h
  rw [buildTree, h]
  rfl

/-! ### Parents and children -/

/-- The shape of a tree: its nodes are numbered, and every one but the root is once a child, of its
recorded parent, which is a directory with a smaller inode. -/
structure TreeShape (tree : List FuseNode) : Prop where
  root : ∃ node, tree[0]? = some node ∧ node.attributes.inode = FUSE_ROOT_ID ∧ node.parent = none
  numbered : ∀ k node, tree[k + 1]? = some node → node.attributes.inode = k + 2 ∧ node.index = k
  parent : ∀ k node, tree[k + 1]? = some node → ∃ j dir, tree[j]? = some dir ∧
    node.parent = some (j + 1) ∧ j < k + 1 ∧ dir.attributes.kind = .directory
  children : ∀ j dir, tree[j]? = some dir → dir.children.Nodup ∧ ∀ inode,
    inode ∈ dir.children ↔ ∃ k node, inode = k + 2 ∧ tree[k + 1]? = some node ∧
      node.parent = some (j + 1)

theorem mem_childrenOf (child : ℕ) :
    child ∈ childrenOf files inode ↔
      ∃ k, child = k + 2 ∧ k < files.length ∧ parentInode files k = inode := by
  rw [childrenOf, List.mem_map]
  constructor
  · rintro ⟨k, hk, rfl⟩
    obtain ⟨hrange, heq⟩ := List.mem_filter.mp hk
    exact ⟨k, rfl, List.mem_range.mp hrange, of_decide_eq_true heq⟩
  · rintro ⟨k, rfl, hk, heq⟩
    exact ⟨k, List.mem_filter.mpr ⟨List.mem_range.mpr hk, decide_eq_true heq⟩, rfl⟩

theorem childrenOf_nodup : (childrenOf files inode).Nodup :=
  ((List.nodup_range).filter _).map fun a b h => by simpa using h

/-- The children of the node at place `j`, whichever it is. -/
theorem children_treeOf (j : ℕ) (dir : FuseNode)
    (h : (treeOf files)[j]? = some dir) : dir.children = childrenOf files (j + 1) := by
  cases j with
  | zero =>
    rw [treeOf_zero] at h
    rw [← Option.some.inj h]
    rfl
  | succ j =>
    rw [treeOf_succ] at h
    obtain ⟨desc, -, rfl⟩ := Option.map_eq_some_iff.mp h
    rfl

theorem foldlM_addFile_fresh (s t : List FuseNode × SubRoots)
    (h : files.foldlM addFile s = .ok t) (hfresh : ∀ node ∈ s.1, node.fileHandlers = .new) :
    ∀ node ∈ t.1, node.fileHandlers = .new := by
  induction files generalizing s with
  | nil =>
    rw [← Except.ok.inj h]
    exact hfresh
  | cons file files ih =>
    rw [List.foldlM_cons] at h
    cases hadd : addFile s file with
    | error e =>
      rw [hadd] at h
      cases h
    | ok next =>
      rw [hadd] at h
      refine ih next h ?_
      unfold addFile at hadd
      simp only at hadd
      split at hadd
      · cases hadd
      · rw [← Except.ok.inj hadd]
        intro node hnode
        rcases List.mem_append.mp hnode with hold | hnew
        · obtain ⟨i, hi⟩ := List.mem_iff_getElem?.mp hold
          rw [List.getElem?_modify] at hi
          obtain ⟨old, hget, rfl⟩ := Option.map_eq_some_iff.mp hi
          simp only [apply_ite FuseNode.fileHandlers, FuseNode.addChild_fileHandlers, ite_self]
          exact hfresh old (List.mem_of_getElem? hget)
        · rw [List.mem_singleton.mp hnew]
          rfl

theorem buildTree_fresh
    (h : buildTree files = .ok tree) : ∀ node ∈ tree, node.fileHandlers = .new := by
  unfold buildTree at h
  cases hfold : files.foldlM addFile ([FuseNode.newRoot], startRoots) with
  | error e =>
    rw [hfold] at h
    cases h
  | ok t =>
    rw [hfold] at h
    rw [← Except.ok.inj h]
    refine foldlM_addFile_fresh files _ t hfold fun node hnode => ?_
    rw [List.mem_singleton.mp hnode]
    rfl

theorem parentInode_directory (desc : FileDescription) (hk : files[k]? = some desc) :
    parentInode files k = FUSE_ROOT_ID ∨ ∃ j dir, parentInode files k = j + 2 ∧ j < k ∧
      files[j]? = some dir ∧ dir.kind = .directory ∧
      components dir.name = (components desc.name).dropLast := by
  simp only [parentInode, hk]
  cases hdir : directoryInode (files.take k) (components desc.name).dropLast with
  | none => exact Or.inl rfl
  | some inode =>
    obtain ⟨j, dir, rfl, hj, hkind, hnames⟩ := directoryInode_spec _ _ _ hdir
    have hlt := (List.getElem?_eq_some_iff.mp hj).1
    rw [List.length_take] at hlt
    rw [List.getElem?_take_of_lt (by omega)] at hj
    exact Or.inr ⟨j, dir, rfl, by omega, hj, hkind, hnames⟩

theorem treeShape_treeOf : TreeShape (treeOf files) where
  root := ⟨_, treeOf_zero files, rfl, rfl⟩
  numbered := by
    intro k node h
    rw [treeOf_succ] at h
    obtain ⟨desc, -, rfl⟩ := Option.map_eq_some_iff.mp h
    exact ⟨rfl, Nat.add_sub_cancel k 2⟩
  parent := by
    intro k node h
    rw [treeOf_succ] at h
    obtain ⟨desc, hk, rfl⟩ := Option.map_eq_some_iff.mp h
    rcases parentInode_directory files k desc hk with hroot | ⟨j, dir, hj, hlt, hdir, hkind, -⟩
    · exact ⟨0, _, treeOf_zero files, congrArg some hroot, by omega, rfl⟩
    · refine ⟨j + 1, nodeOf files j dir, ?_, congrArg some hj, by omega, hkind⟩
      rw [treeOf_succ, hdir]
      rfl
  children := by
    intro j dir h
    rw [children_treeOf files j dir h]
    refine ⟨childrenOf_nodup files _, fun inode => ?_⟩
    rw [mem_childrenOf]
    constructor
    · rintro ⟨k, rfl, hk, heq⟩
      refine ⟨k, nodeOf files k files[k], rfl, ?_, congrArg some heq⟩
      rw [treeOf_succ, List.getElem?_eq_getElem hk]
      rfl
    · rintro ⟨k, node, rfl, hnode, hparent⟩
      rw [treeOf_succ] at hnode
      obtain ⟨desc, hk, rfl⟩ := Option.map_eq_some_iff.mp hnode
      exact ⟨k, rfl, (List.getElem?_eq_some_iff.mp hk).1, Option.some.inj hparent⟩

/-! ### Files that are found -/

def First (files : List FileDescription) (k : ℕ) : Prop :=
  ∀ i < k, ∀ early late, files[i]? = some early → files[k]? = some late →
    parentInode files i = parentInode files k → baseName early ≠ baseName late

theorem nodeAt_succ : nodeAt (treeOf files) (k + 2) = files[k]?.map (nodeOf files k) := by
  rw [nodeAt, if_neg (by omega), Nat.add_sub_cancel_right (k + 1) 1, treeOf_succ]

def isChild (files : List FileDescription) (inode : ℕ) (name : Name) (k : ℕ) : Bool :=
  decide (parentInode files k = inode) && files[k]?.any fun desc => decide (baseName desc = name)

theorem isChild_iff (k : ℕ) :
    isChild files inode name k = true ↔
      parentInode files k = inode ∧ ∃ desc, files[k]? = some desc ∧ baseName desc = name := by
  rw [isChild, Bool.and_eq_true, decide_eq_true_eq, Option.any_eq_true]
  simp only [decide_eq_true_eq]

theorem children_nodes :
    ((childrenOf files inode).filterMap (nodeAt (treeOf files))).find?
        (fun child => decide (child.name = name)) =
      ((List.range files.length).find? (isChild files inode name)).bind
        fun k => files[k]?.map (nodeOf files k) := by
  have hpred : ∀ k, (decide (parentInode files k = inode) ∧
      (files[k]?.map (nodeOf files k)).any (fun child => decide (child.name = name)) = true) ↔
      isChild files inode name k = true := by
    intro k
    rw [isChild_iff, Option.any_map, Option.any_eq_true, decide_eq_true_eq]
    simp only [decide_eq_true_eq]
    rfl
  rw [childrenOf, List.filterMap_map, List.find?_filterMap, List.find?_filter]
  simp only [Function.comp_def, nodeAt_succ, hpred, Bool.decide_eq_true]

theorem children_nodeAt (dir : FuseNode)
    (h : nodeAt (treeOf files) inode = some dir) : dir.children = childrenOf files inode := by
  unfold nodeAt at h
  split at h
  · cases h
  · rw [children_treeOf files (inode - 1) dir h, Nat.sub_add_cancel (by omega)]

theorem lookup_iff :
    ((lookup (treeOf files) inode name).map fun a => a.inode) = .ok m ↔
      byteLength name ≤ MAX_NAME_LEN ∧
      (∃ dir, nodeAt (treeOf files) inode = some dir ∧ dir.attributes.kind = .directory) ∧
      ∃ k, m = k + 2 ∧ (List.range files.length).find? (isChild files inode name) = some k := by
  unfold lookup
  by_cases hlong : MAX_NAME_LEN < byteLength name
  · rw [if_pos hlong]
    constructor
    · intro h
      cases h
    · rintro ⟨hshort, -⟩
      omega
  rw [if_neg hlong]
  cases hdir : nodeAt (treeOf files) inode with
  | none =>
    constructor
    · intro h
      cases h
    · rintro ⟨-, ⟨dir, hsome, -⟩, -⟩
      cases hsome
  | some dir =>
    simp only
    by_cases hkind : dir.attributes.kind = .directory
    · rw [if_neg (not_not.mpr hkind), children_nodeAt files inode dir hdir, children_nodes]
      have hsome : ∃ d, some dir = some d ∧ d.attributes.kind = .directory := ⟨dir, rfl, hkind⟩
      cases hfind : (List.range files.length).find? (isChild files inode name) with
      | none => simp [Except.map]
      | some i =>
        obtain ⟨hchild, -, -⟩ := List.find?_range_eq_some.mp hfind
        obtain ⟨-, desc, hdesc, -⟩ := (isChild_iff files inode name i).mp hchild
        simp only [Option.bind_some, hdesc, Option.map_some, Except.map]
        constructor
        · intro h
          have heq : i + 2 = m := Except.ok.inj h
          exact ⟨by omega, hsome, i, heq.symm, rfl⟩
        · rintro ⟨-, -, k, rfl, heq⟩
          rw [Option.some.inj heq]
          rfl
    · rw [if_pos hkind]
      constructor
      · intro h
        cases h
      · rintro ⟨-, ⟨d, heq, hd⟩, -⟩
        rw [Option.some.inj heq] at hkind
        exact absurd hd hkind

theorem find_isChild_iff (k : ℕ) :
    (List.range files.length).find? (isChild files inode name) = some k ↔
      parentInode files k = inode ∧ First files k ∧
        ∃ desc, files[k]? = some desc ∧ baseName desc = name := by
  rw [List.find?_range_eq_some, isChild_iff]
  constructor
  · rintro ⟨⟨hparent, desc, hdesc, hname⟩, -, hfirst⟩
    refine ⟨hparent, ?_, desc, hdesc, hname⟩
    intro i hi early late hearly hlate hsame heq
    have hnot := hfirst i hi
    rw [Bool.not_eq_true', ← Bool.not_eq_true, isChild_iff] at hnot
    rw [hdesc] at hlate
    obtain rfl := Option.some.inj hlate
    exact hnot ⟨hsame.trans hparent, early, hearly, heq.trans hname⟩
  · rintro ⟨hparent, hfirst, desc, hdesc, hname⟩
    refine ⟨⟨hparent, desc, hdesc, hname⟩,
      List.mem_range.mpr (List.getElem?_eq_some_iff.mp hdesc).1, fun i hi => ?_⟩
    rw [Bool.not_eq_true', ← Bool.not_eq_true, isChild_iff]
    rintro ⟨hsame, early, hearly, heq⟩
    exact hfirst i hi early desc hearly hdesc (hsame.trans hparent.symm) (heq.trans hname.symm)

/-- The file is at the top, or in the directory it was placed in, which is reached itself; its name
is not too long and no earlier entry of the directory has it. -/
inductive Reached (files : List FileDescription) : ℕ → Prop
  | top (k : ℕ) (desc : FileDescription) : files[k]? = some desc →
      components desc.name = [baseName desc] → byteLength (baseName desc) ≤ MAX_NAME_LEN →
      First files k → Reached files k
  | inside (k m : ℕ) (desc : FileDescription) : files[k]? = some desc →
      parentInode files k = m + 2 → byteLength (baseName desc) ≤ MAX_NAME_LEN →
      First files k → Reached files m → Reached files k

theorem lookupPath_concat :
    lookupPath tree (names ++ [name]) = .ok m ↔
      ∃ inode, lookupPath tree names = .ok inode ∧
        ((lookup tree inode name).map fun a => a.inode) = .ok m := by
  rw [lookupPath, List.foldlM_append, ← lookupPath]
  cases lookupPath tree names with
  | error e =>
    constructor
    · intro hm
      cases hm
    · rintro ⟨inode, heq, -⟩
      cases heq
  | ok inode =>
    have hlast : (List.foldlM (fun inode name => (lookup tree inode name).map fun a => a.inode)
        inode [name]) = (lookup tree inode name).map fun a => a.inode := by
      rw [List.foldlM_cons]
      cases lookup tree inode name <;> rfl
    simp only [bind, Except.bind, hlast]
    constructor
    · intro h
      exact ⟨inode, rfl, h⟩
    · rintro ⟨i, heq, h⟩
      rw [Except.ok.inj heq]
      exact h

theorem lookupPath_nil : lookupPath tree [] = .ok FUSE_ROOT_ID := rfl

theorem nodeAt_root :
    nodeAt (treeOf files) FUSE_ROOT_ID =
      some { FuseNode.newRoot with children := childrenOf files FUSE_ROOT_ID } := rfl

theorem lookupPath_ge (hne : names ≠ [])
    (h : lookupPath (treeOf files) names = .ok m) : ∃ k, m = k + 2 := by
  rw [← List.dropLast_append_getLast hne, lookupPath_concat] at h
  obtain ⟨inode, -, hlast⟩ := h
  obtain ⟨-, -, k, hm, -⟩ := (lookup_iff files inode _ m).mp hlast
  exact ⟨k, hm⟩

theorem lookupPath_iff (hparsed : ∀ file ∈ files, Parsed file)
    (k : ℕ) (desc : FileDescription) (hk : files[k]? = some desc) :
    lookupPath (treeOf files) (components desc.name) = .ok (k + 2) ↔ Reached files k := by
  have hdesc : ∀ i d, files[i]? = some d →
      components d.name = (components d.name).dropLast ++ [baseName d] := fun i d hi =>
    components_eq d (hparsed d (List.mem_of_getElem? hi))
  constructor
  · generalize hlen : (components desc.name).length = n
    induction n generalizing k desc with
    | zero =>
      intro _
      exact absurd (List.eq_nil_of_length_eq_zero hlen)
        (components_ne_nil desc (hparsed desc (List.mem_of_getElem? hk)))
    | succ n ih =>
      intro h
      have hnames := hdesc k desc hk
      rw [hnames, lookupPath_concat] at h
      obtain ⟨inode, hfront, hlast⟩ := h
      obtain ⟨hshort, -, i, hi, hfind⟩ := (lookup_iff files inode _ _).mp hlast
      obtain rfl : i = k := by omega
      obtain ⟨hparent, hfirst, -⟩ := (find_isChild_iff files inode _ i).mp hfind
      by_cases hnil : (components desc.name).dropLast = []
      · exact .top i desc hk (by rw [hnames, hnil]; rfl) hshort hfirst
      · obtain ⟨m, rfl⟩ := lookupPath_ge files _ inode hnil hfront
        rcases parentInode_directory files i desc hk with hroot | ⟨j, dir, hj, -, hdir,
          -, hdirNames⟩
        · rw [FUSE_ROOT_ID] at hroot
          omega
        · obtain rfl : j = m := by omega
          refine .inside i j desc hk hparent hshort hfirst (ih j dir hdir ?_ ?_)
          · rw [hdirNames, List.length_dropLast, hlen]
            rfl
          · rw [hdirNames]
            exact hfront
  · intro h
    induction h generalizing desc with
    | top k d hd hsingle hshort hfirst =>
      rw [hd] at hk
      obtain rfl := Option.some.inj hk
      have hnames := hdesc k d hd
      have hnil : (components d.name).dropLast = [] := by rw [hsingle]; rfl
      rw [hsingle, ← List.nil_append [baseName d], lookupPath_concat]
      refine ⟨FUSE_ROOT_ID, lookupPath_nil _, (lookup_iff files _ _ _).mpr
        ⟨hshort, ⟨_, nodeAt_root files, rfl⟩, k, rfl, (find_isChild_iff files _ _ k).mpr
          ⟨?_, hfirst, d, hd, rfl⟩⟩⟩
      rcases parentInode_directory files k d hd with hroot | ⟨j, dir, -, -, hdir, -, hdirNames⟩
      · exact hroot
      · rw [hnil] at hdirNames
        exact absurd hdirNames (components_ne_nil dir (hparsed dir (List.mem_of_getElem? hdir)))
    | inside k m d hd hparent hshort hfirst _ ih =>
      rw [hd] at hk
      obtain rfl := Option.some.inj hk
      rcases parentInode_directory files k d hd with hroot | ⟨j, dir, hj, -, hdir, hkind, hdirNames⟩
      · rw [FUSE_ROOT_ID] at hroot
        omega
      · obtain rfl : j = m := by omega
        rw [hdesc k d hd, lookupPath_concat, ← hdirNames]
        refine ⟨j + 2, ih dir hdir, (lookup_iff files _ _ _).mpr ⟨hshort,
          ⟨nodeOf files j dir, ?_, hkind⟩,
          k, rfl, (find_isChild_iff files _ _ k).mpr ⟨hparent, hfirst, d, hd, rfl⟩⟩⟩
        rw [nodeAt_succ, hdir]
        rfl

/-! ### Lists in order -/

/-- Paths are not repeated, every directory comes before what is in it, and names are not too
long. -/
structure PreOrdered (files : List FileDescription) : Prop where
  distinct : files.Pairwise fun a b => components a.name ≠ components b.name
  parents : ∀ (k : ℕ) (desc : FileDescription), files[k]? = some desc →
    (components desc.name).dropLast ≠ [] → ∃ (i : ℕ) (dir : FileDescription), i < k ∧
      files[i]? = some dir ∧ dir.kind = .directory ∧
      components dir.name = (components desc.name).dropLast
  short : ∀ desc ∈ files, byteLength (baseName desc) ≤ MAX_NAME_LEN

theorem directoryInode_ne_none (i : ℕ)
    (dir : FileDescription) (hi : files[i]? = some dir) (hkind : dir.kind = .directory)
    (hnames : components dir.name = names) : directoryInode files names ≠ none := by
  intro hnone
  rw [directoryInode, Option.map_eq_none_iff, List.find?_eq_none] at hnone
  have hmem : (dir, i) ∈ files.zipIdx.reverse :=
    List.mem_reverse.mpr (List.mk_mem_zipIdx_iff_getElem?.mpr hi)
  exact hnone (dir, i) hmem (decide_eq_true ⟨hkind, hnames⟩)

theorem PreOrdered.front (h : PreOrdered files) (k : ℕ)
    (desc : FileDescription) (hk : files[k]? = some desc) :
    parentInode files k = FUSE_ROOT_ID ∧ (components desc.name).dropLast = [] ∨
      ∃ j dir, parentInode files k = j + 2 ∧ j < k ∧ files[j]? = some dir ∧
        components dir.name = (components desc.name).dropLast := by
  rcases parentInode_directory files k desc hk with hroot | ⟨j, dir, hj, hlt, hdir, -, hnames⟩
  · left
    refine ⟨hroot, ?_⟩
    by_contra hne
    obtain ⟨i, dir, hi, hdir, hkind, hnames⟩ := h.parents k desc hk hne
    have hsome := directoryInode_ne_none (files.take k) _ i dir
      (by rw [List.getElem?_take_of_lt hi]; exact hdir) hkind hnames
    obtain ⟨inode, hinode⟩ := Option.ne_none_iff_exists'.mp hsome
    obtain ⟨j, -, rfl, -⟩ := directoryInode_spec _ _ _ hinode
    simp only [parentInode, hk, hinode, Option.getD_some, FUSE_ROOT_ID] at hroot
    omega
  · exact Or.inr ⟨j, dir, hj, hlt, hdir, hnames⟩

theorem PreOrdered.first (hparsed : ∀ file ∈ files, Parsed file)
    (h : PreOrdered files) (k : ℕ) : First files k := by
  intro i hi early late hearly hlate hparent hname
  have hfront : (components early.name).dropLast = (components late.name).dropLast := by
    rcases h.front files i early hearly with ⟨hroot, hnil⟩ | ⟨j, dir, hj, -, hdir, hnames⟩
    · rcases h.front files k late hlate with ⟨-, hnil'⟩ | ⟨j', dir', hj', -, -, -⟩
      · rw [hnil, hnil']
      · rw [FUSE_ROOT_ID] at hroot
        omega
    · rcases h.front files k late hlate with ⟨hroot', -⟩ | ⟨j', dir', hj', -, hdir', hnames'⟩
      · rw [FUSE_ROOT_ID] at hroot'
        omega
      · obtain rfl : j = j' := by omega
        rw [hdir] at hdir'
        rw [← hnames, ← hnames', Option.some.inj hdir']
  have hsame : components early.name = components late.name := by
    rw [components_eq early (hparsed early (List.mem_of_getElem? hearly)),
      components_eq late (hparsed late (List.mem_of_getElem? hlate)), hfront, hname]
  obtain ⟨hi', rfl⟩ := List.getElem?_eq_some_iff.mp hearly
  obtain ⟨hk', rfl⟩ := List.getElem?_eq_some_iff.mp hlate
  exact List.pairwise_iff_getElem.mp h.distinct i k hi' hk' hi hsame

theorem PreOrdered.reached (hparsed : ∀ file ∈ files, Parsed file)
    (h : PreOrdered files) (k : ℕ) (hk : k < files.length) : Reached files k := by
  induction k using Nat.strong_induction_on with
  | _ k ih =>
    have hdesc : files[k]? = some files[k] := List.getElem?_eq_getElem hk
    have hshort := h.short _ (List.getElem_mem hk)
    have hfirst := h.first files hparsed k
    have hnames := components_eq files[k] (hparsed _ (List.getElem_mem hk))
    rcases h.front files k _ hdesc with ⟨-, hnil⟩ | ⟨j, dir, hj, hlt, hdir, -⟩
    · exact .top k _ hdesc (by rw [hnames, hnil]; rfl) hshort hfirst
    · exact .inside k j _ hdesc hj hshort hfirst (ih j hlt (by omega))

end ClantoDesk.FuseTree
