import ClantoDesk.FuseTree
import ClantoDesk.Runs
import ClantoDesk.TenantKeys
import Mathlib.Algebra.Order.Ring.Int

/-!
The handles of a mounted clipboard, libs/clipboard/src/platform/unix/fuse/cs.rs. One counter gives
the handles of all nodes, and it goes on when a new list of files is loaded, whose nodes have none.
The handles of a node are kept in a list that is searched by halving; it is in order as long as the
counter has not gone around. The log of requests and replies tells which handles are held. What the
peer answers to a read is part of the event.
-/
namespace ClantoDesk.FuseHandles

open Text FileSystem BinarySearch ClipboardFiles FuseTree Runs
open TenantKeys (Bytes)

structure Server where
  generation : ℕ
  files : List FuseNode
  fileHandleCounter : ℕ

def Server.new : Server := ⟨0, [], 0⟩

inductive Event
  | init
  | load (files : List FileDescription)
  | opendir (ino : ℕ)
  | readdir (ino fh offset : ℕ)
  | releasedir (ino fh : ℕ)
  | open (ino : ℕ)
  | read (ino fh : ℕ) (answer : Option Bytes)
  | release (ino fh : ℕ)

inductive Reply
  | ok
  | opened (fh : ℕ)
  | entries (list : List (ℕ × FileType × Name))
  | data (bytes : Bytes)
  | error (errno : Errno)
  | invalid

def wrap (n : ℕ) : ℕ := n % 2 ^ 64

namespace Server

def load (s : Server) (files : List FileDescription) : Server × Reply :=
  match buildTree files with
  | .error _ => (s, .invalid)
  | .ok tree => ({ s with files := tree, generation := wrap (s.generation + 1) }, .ok)

def setHandles (s : Server) (ino : ℕ) (handles : FileHandles) : Server :=
  { s with files := s.files.modify (ino - 1) fun node => { node with fileHandlers := handles } }

/-- `alloc_fd` and `add_handler`. -/
def addHandle (s : Server) (ino : ℕ) (entry : FuseNode) : Server × Reply :=
  let fh := s.fileHandleCounter
  let s := { s with fileHandleCounter := wrap (fh + 1) }
  (s.setHandles ino (entry.fileHandlers.add fh), .opened fh)

def openKind (s : Server) (ino : ℕ) (kind : FileType) (errno : Errno) : Server × Reply :=
  match nodeAt s.files ino with
  | none => (s, .error .ENOENT)
  | some entry =>
    if entry.attributes.kind ≠ kind then (s, .error errno)
    else if entry.fileHandlers.gc then (s, .error .EBUSY)
    else s.addHandle ino entry

def listing (s : Server) (ino : ℕ) (entry : FuseNode) : List (ℕ × FileType × Name) :=
  (ino, .directory, ".".toList) ::
    ((entry.parent.toList.map fun inode => (inode, FileType.directory, "..".toList)) ++
      entry.children.filterMap fun inode =>
        (nodeAt s.files inode).map fun child => (inode, child.attributes.kind, child.name))

def readdir (s : Server) (ino fh offset : ℕ) : Reply :=
  match nodeAt s.files ino with
  | none => .error .ENOENT
  | some entry =>
    if !entry.fileHandlers.has fh then .error .EBADF
    else if entry.attributes.kind ≠ .directory then .error .ENOTDIR
    else .entries ((s.listing ino entry).drop offset)

def releasedir (s : Server) (ino fh : ℕ) : Server × Reply :=
  match nodeAt s.files ino with
  | none => (s, .error .ENOENT)
  | some entry =>
    if entry.attributes.kind ≠ .directory then (s, .error .ENOTDIR)
    else
      match entry.fileHandlers.unregister fh with
      | none => (s, .error .EBADF)
      | some handles => (s.setHandles ino handles, .ok)

/-- `read`, with what the peer answers. -/
def read (s : Server) (ino fh : ℕ) (answer : Option Bytes) : Reply :=
  match nodeAt s.files ino with
  | none => .error .ENOENT
  | some entry =>
    if !entry.fileHandlers.has fh then .error .EBADF
    else if entry.attributes.kind ≠ .file then .error .ENFILE
    else if entry.fileHandlers.gc then .error .EBUSY
    else
      match answer with
      | some bytes => .data bytes
      | none => .error Errno.EIO

def release (s : Server) (ino fh : ℕ) : Server × Reply :=
  match nodeAt s.files ino with
  | none => (s, .error .ENOENT)
  | some entry =>
    match entry.fileHandlers.unregister fh with
    | none => (s, .error .EBADF)
    | some handles => (s.setHandles ino handles, .ok)

def respond (s : Server) : Event → Server × Reply
  | .init => (if s.files.isEmpty then { s with files := [FuseNode.newRoot] } else s, .ok)
  | .load files => s.load files
  | .opendir ino => s.openKind ino .directory .ENOTDIR
  | .readdir ino fh offset => (s, s.readdir ino fh offset)
  | .releasedir ino fh => s.releasedir ino fh
  | .open ino => s.openKind ino .file .ENFILE
  | .read ino fh answer => (s, s.read ino fh answer)
  | .release ino fh => s.release ino fh

def accepts (s : Server) (ino fh : ℕ) : Bool :=
  match nodeAt s.files ino with
  | some entry => entry.fileHandlers.has fh
  | none => false

/-- The handles of a node, none when there is no such node. -/
def handlersOf (s : Server) (ino : ℕ) : List ℕ :=
  match nodeAt s.files ino with
  | some entry => entry.fileHandlers.handlers
  | none => []

theorem accepts_eq (s : Server) (ino fh : ℕ) :
    s.accepts ino fh = (binarySearch (s.handlersOf ino) fh).isSome := by
  unfold accepts handlersOf
  cases nodeAt s.files ino with
  | some entry => rfl
  | none => rw [binarySearch_nil]; rfl

theorem handlersOf_of_nodeAt (s : Server) (ino : ℕ) (entry : FuseNode)
    (h : nodeAt s.files ino = some entry) : s.handlersOf ino = entry.fileHandlers.handlers := by
  rw [handlersOf, h]

theorem handlersOf_fresh (s : Server) (h : ∀ node ∈ s.files, node.fileHandlers = .new) :
    s.handlersOf = fun _ => [] := by
  funext ino
  cases hnode : nodeAt s.files ino with
  | none => rw [handlersOf, hnode]
  | some node =>
    rw [s.handlersOf_of_nodeAt ino node hnode]
    unfold nodeAt at hnode
    split at hnode
    · cases hnode
    · rw [h node (List.mem_of_getElem? hnode)]
      rfl

theorem handlersOf_setHandles (s : Server) (ino : ℕ) (handles : FileHandles) (entry : FuseNode)
    (h : nodeAt s.files ino = some entry) :
    (s.setHandles ino handles).handlersOf = Function.update s.handlersOf ino handles.handlers := by
  have hpos : ino ≠ 0 := by
    rintro rfl
    cases h
  funext other
  by_cases heq : other = ino
  · subst heq
    rw [nodeAt, if_neg hpos] at h
    rw [Function.update_self]
    simp [handlersOf, nodeAt, hpos, setHandles, h]
  · rw [Function.update_of_ne heq]
    by_cases hzero : other = 0
    · simp [handlersOf, nodeAt, hzero]
    · have hne : ino - 1 ≠ other - 1 := by omega
      simp [handlersOf, nodeAt, hzero, setHandles, hne]

end Server

abbrev Log := List (Event × Reply)

def step (s : Server × Log) (event : Event) : Option (Server × Log) :=
  some ((s.1.respond event).1, s.2 ++ [(event, (s.1.respond event).2)])

/-! ### What one request changes -/

def Loads (x : Event × Reply) : Prop := (∃ files, x.1 = .load files) ∧ x.2 = .ok

def Opens (ino fh : ℕ) (x : Event × Reply) : Prop :=
  (x.1 = .open ino ∨ x.1 = .opendir ino) ∧ x.2 = .opened fh

def Frees (ino fh : ℕ) (x : Event × Reply) : Prop :=
  (x.1 = .release ino fh ∨ x.1 = .releasedir ino fh) ∧ x.2 = .ok

def isOpened : Event × Reply → Bool
  | (_, .opened _) => true
  | _ => false

variable (s t : Server) (log : Log) (x : Event × Reply) (event : Event) (ino fh : ℕ)

theorem not_opens (h : isOpened x = false) (ino fh : ℕ) : ¬ Opens ino fh x := by
  obtain ⟨event, reply⟩ := x
  rintro ⟨-, heq⟩
  obtain rfl : reply = .opened fh := heq
  cases h

inductive Change (s t : Server) : Event × Reply → Prop
  | same (x : Event × Reply) : t.handlersOf = s.handlersOf →
      t.fileHandleCounter = s.fileHandleCounter → ¬ Loads x → isOpened x = false →
      (∀ ino fh, ¬ Frees ino fh x) → Change s t x
  | loaded (files : List FileDescription) : t.handlersOf = (fun _ => []) →
      t.fileHandleCounter = s.fileHandleCounter → Change s t (.load files, .ok)
  | opened (event : Event) (ino : ℕ) : event = .open ino ∨ event = .opendir ino →
      t.handlersOf =
        Function.update s.handlersOf ino (s.handlersOf ino ++ [s.fileHandleCounter]) →
      t.fileHandleCounter = wrap (s.fileHandleCounter + 1) →
      Change s t (event, .opened s.fileHandleCounter)
  | freed (event : Event) (ino fh i : ℕ) : event = .release ino fh ∨ event = .releasedir ino fh →
      binarySearch (s.handlersOf ino) fh = some i →
      t.handlersOf = Function.update s.handlersOf ino ((s.handlersOf ino).eraseIdx i) →
      t.fileHandleCounter = s.fileHandleCounter → Change s t (event, .ok)

theorem change_same (reply : Reply) (hok : reply ≠ .ok)
    (hopened : isOpened (event, reply) = false) : Change s s (event, reply) := by
  refine .same _ rfl rfl ?_ hopened ?_
  · exact fun h => hok h.2
  · exact fun ino fh h => hok h.2

theorem openKind_change (kind : FileType) (errno : Errno)
    (hevent : event = .open ino ∨ event = .opendir ino) :
    Change s (s.openKind ino kind errno).1 (event, (s.openKind ino kind errno).2) := by
  unfold Server.openKind
  cases hnode : nodeAt s.files ino with
  | none => exact change_same s event _ (by simp) rfl
  | some entry =>
    simp only
    split
    · exact change_same s event _ (by simp) rfl
    split
    · exact change_same s event _ (by simp) rfl
    · refine .opened event ino hevent ?_ rfl
      rw [s.handlersOf_of_nodeAt ino entry hnode]
      exact Server.handlersOf_setHandles
        { s with fileHandleCounter := wrap (s.fileHandleCounter + 1) } ino _ entry hnode

theorem unregister_change (entry : FuseNode)
    (handles : FileHandles) (hevent : event = .release ino fh ∨ event = .releasedir ino fh)
    (hnode : nodeAt s.files ino = some entry)
    (hfree : entry.fileHandlers.unregister fh = some handles) :
    Change s (s.setHandles ino handles) (event, .ok) := by
  obtain ⟨i, hi, rfl⟩ := Option.map_eq_some_iff.mp hfree
  have hlist := s.handlersOf_of_nodeAt ino entry hnode
  rw [← hlist] at hi
  refine .freed event ino fh i hevent hi ?_ rfl
  rw [s.handlersOf_setHandles ino _ entry hnode, hlist]

theorem load_change (files : List FileDescription) :
    Change s (s.load files).1 (.load files, (s.load files).2) := by
  unfold Server.load
  cases htree : buildTree files with
  | error e => exact change_same s _ _ (by simp) rfl
  | ok tree =>
    exact .loaded files (Server.handlersOf_fresh _ (buildTree_fresh files tree htree)) rfl

theorem init_handlersOf : (s.respond .init).1.handlersOf = s.handlersOf := by
  simp only [Server.respond]
  split
  · rename_i hempty
    rw [s.handlersOf_fresh fun node hnode => by simp [List.isEmpty_iff.mp hempty] at hnode]
    refine Server.handlersOf_fresh _ fun node hnode => ?_
    rw [List.mem_singleton.mp hnode]
    rfl
  · rfl

theorem readdir_isOpened (offset : ℕ) : isOpened (event, s.readdir ino fh offset) = false := by
  unfold Server.readdir
  repeat' split
  all_goals rfl

theorem read_isOpened (answer : Option Bytes) : isOpened (event, s.read ino fh answer) = false := by
  unfold Server.read
  repeat' split
  all_goals rfl

theorem respond_change : Change s (s.respond event).1 (event, (s.respond event).2) := by
  cases event with
  | init =>
    refine .same _ (init_handlersOf s) ?_ (by simp [Loads]) rfl (by simp [Frees])
    simp only [Server.respond]
    split <;> rfl
  | load files => exact load_change s files
  | opendir ino => exact openKind_change s _ ino _ _ (Or.inr rfl)
  | «open» ino => exact openKind_change s _ ino _ _ (Or.inl rfl)
  | readdir ino fh offset =>
    exact .same _ rfl rfl (by simp [Loads]) (readdir_isOpened s _ ino fh offset) (by simp [Frees])
  | read ino fh answer =>
    exact .same _ rfl rfl (by simp [Loads]) (read_isOpened s _ ino fh answer) (by simp [Frees])
  | releasedir ino fh =>
    simp only [Server.respond, Server.releasedir]
    cases hnode : nodeAt s.files ino with
    | none => exact change_same s _ _ (by simp) rfl
    | some entry =>
      simp only
      split
      · exact change_same s _ _ (by simp) rfl
      cases hfree : entry.fileHandlers.unregister fh with
      | none => exact change_same s _ _ (by simp) rfl
      | some handles => exact unregister_change s _ ino fh entry handles (Or.inr rfl) hnode hfree
  | release ino fh =>
    simp only [Server.respond, Server.release]
    cases hnode : nodeAt s.files ino with
    | none => exact change_same s _ _ (by simp) rfl
    | some entry =>
      simp only
      cases hfree : entry.fileHandlers.unregister fh with
      | none => exact change_same s _ _ (by simp) rfl
      | some handles => exact unregister_change s _ ino fh entry handles (Or.inl rfl) hnode hfree

/-! ### Whole runs -/

def Opened (ino fh : ℕ) (log : Log) : Prop := Since (Opens ino fh) (fun x => ¬ Loads x) log

/-- It was not given back either. -/
def Held (ino fh : ℕ) (log : Log) : Prop :=
  Since (Opens ino fh) (fun x => ¬ Loads x ∧ ¬ Frees ino fh x) log

/-- How many handles were given. -/
def openings (log : Log) : ℕ := log.countP isOpened

theorem openings_concat : openings (log ++ [x]) = openings log + (if isOpened x then 1 else 0) := by
  rw [openings, List.countP_append, List.countP_singleton]
  rfl

def Sound (s : Server × Log) : Prop :=
  ∀ ino fh, fh ∈ s.1.handlersOf ino → Opened ino fh s.2

theorem sound_step (hsound : Sound (s, log)) (h : Change s t x) : Sound (t, log ++ [x]) := by
  intro ino fh hmem
  apply (since_concat _ _ log x).mpr
  cases h with
  | same _ hlists _ hloads _ _ =>
    have hold : fh ∈ s.handlersOf ino := by rwa [← hlists]
    exact Or.inr ⟨hsound ino fh hold, hloads⟩
  | loaded files hlists _ =>
    rw [hlists] at hmem
    exact absurd hmem List.not_mem_nil
  | opened event node hevent hlists _ =>
    have hloads : ¬ Loads (event, .opened s.fileHandleCounter) := fun h => by cases h.2
    rw [hlists] at hmem
    by_cases hnode : ino = node
    · subst hnode
      rw [Function.update_self] at hmem
      rcases List.mem_append.mp hmem with hold | hnew
      · exact Or.inr ⟨hsound ino fh hold, hloads⟩
      · exact Or.inl ⟨hevent, by rw [List.mem_singleton.mp hnew]⟩
    · rw [Function.update_of_ne hnode] at hmem
      exact Or.inr ⟨hsound ino fh hmem, hloads⟩
  | freed event node freed i hevent hi hlists _ =>
    have hloads : ¬ Loads (event, .ok) := by
      rintro ⟨⟨files, rfl⟩, -⟩
      rcases hevent with h | h <;> cases h
    rw [hlists] at hmem
    by_cases hnode : ino = node
    · subst hnode
      rw [Function.update_self] at hmem
      exact Or.inr ⟨hsound ino fh (List.mem_of_mem_eraseIdx hmem), hloads⟩
    · rw [Function.update_of_ne hnode] at hmem
      exact Or.inr ⟨hsound ino fh hmem, hloads⟩

/-- The lists are in order and hold what is held. -/
structure Exact (s : Server × Log) : Prop where
  counter : s.1.fileHandleCounter = wrap (openings s.2)
  sorted : ∀ ino, (s.1.handlersOf ino).Pairwise (· < ·)
  given : ∀ ino, ∀ fh ∈ s.1.handlersOf ino, fh < openings s.2
  held : ∀ ino fh, fh ∈ s.1.handlersOf ino ↔ Held ino fh s.2

theorem exact_start : Exact (Server.new, []) where
  counter := rfl
  sorted := by
    intro ino
    rw [Server.new.handlersOf_fresh fun node hnode => absurd hnode List.not_mem_nil]
    exact List.Pairwise.nil
  given := by
    intro ino fh hfh
    rw [Server.new.handlersOf_fresh fun node hnode => absurd hnode List.not_mem_nil] at hfh
    exact absurd hfh List.not_mem_nil
  held := by
    intro ino fh
    rw [Server.new.handlersOf_fresh fun node hnode => absurd hnode List.not_mem_nil]
    exact iff_of_false List.not_mem_nil (not_since_nil _ _)

theorem held_concat (log : Log) (x : Event × Reply) :
    Held ino fh (log ++ [x]) ↔
      Opens ino fh x ∨ Held ino fh log ∧ ¬ Loads x ∧ ¬ Frees ino fh x :=
  since_concat _ _ log x

theorem mem_eraseIdx_sorted (xs : List ℕ) (hsorted : xs.Pairwise (· < ·)) (i x y : ℕ)
    (hi : xs[i]? = some x) : y ∈ xs.eraseIdx i ↔ y ∈ xs ∧ y ≠ x := by
  have hnodup : xs.Nodup := hsorted.imp fun h => Nat.ne_of_lt h
  obtain ⟨hlt, rfl⟩ := List.getElem?_eq_some_iff.mp hi
  rw [← hnodup.erase_getElem i hlt, hnodup.mem_erase_iff]
  exact and_comm

theorem mem_update (f : ℕ → List ℕ) (node : ℕ) (xs : List ℕ) (ino fh : ℕ) :
    fh ∈ Function.update f node xs ino ↔ ino = node ∧ fh ∈ xs ∨ ino ≠ node ∧ fh ∈ f ino := by
  by_cases hnode : ino = node
  · subst hnode
    simp
  · simp [hnode]

theorem exact_opened (node : ℕ) (hexact : Exact (s, log))
    (hevent : event = .open node ∨ event = .opendir node)
    (hlists : t.handlersOf =
      Function.update s.handlersOf node (s.handlersOf node ++ [s.fileHandleCounter]))
    (hnext : t.fileHandleCounter = wrap (s.fileHandleCounter + 1))
    (hbound : openings log < 2 ^ 64) :
    Exact (t, log ++ [(event, .opened s.fileHandleCounter)]) := by
  have hcount : openings (log ++ [(event, .opened s.fileHandleCounter)]) = openings log + 1 :=
    openings_concat log _
  have hnew : s.fileHandleCounter = openings log := by
    rw [hexact.counter]
    exact Nat.mod_eq_of_lt hbound
  have hopens : ∀ ino fh, Opens ino fh (event, .opened s.fileHandleCounter) ↔
      ino = node ∧ fh = s.fileHandleCounter := by
    intro ino fh
    constructor
    · rintro ⟨hother, hreply⟩
      refine ⟨?_, (Reply.opened.inj hreply).symm⟩
      rcases hevent with rfl | rfl
      · rcases hother with h | h
        · exact (Event.open.inj h).symm
        · cases h
      · rcases hother with h | h
        · cases h
        · exact (Event.opendir.inj h).symm
    · rintro ⟨rfl, rfl⟩
      exact ⟨hevent, rfl⟩
  refine ⟨?_, ?_, ?_, ?_⟩
  · show t.fileHandleCounter = wrap (openings (log ++ _))
    rw [hcount, hnext, hnew]
  · show ∀ ino, (t.handlersOf ino).Pairwise (· < ·)
    rw [hlists, Function.forall_update_iff s.handlersOf fun _ xs => xs.Pairwise (· < ·)]
    refine ⟨?_, fun ino _ => hexact.sorted ino⟩
    refine List.pairwise_append.mpr ⟨hexact.sorted node, List.pairwise_singleton _ _, ?_⟩
    intro a ha b hb
    rw [List.mem_singleton.mp hb, hnew]
    exact hexact.given node a ha
  · show ∀ ino, ∀ fh ∈ t.handlersOf ino, fh < openings (log ++ _)
    rw [hcount, hlists, Function.forall_update_iff s.handlersOf
      fun _ xs => ∀ fh ∈ xs, fh < openings log + 1]
    constructor
    · intro fh hfh
      rcases List.mem_append.mp hfh with hold | hlast
      · exact Nat.lt_succ_of_lt (hexact.given node fh hold)
      · rw [List.mem_singleton.mp hlast, hnew]
        exact Nat.lt_succ_self _
    · exact fun ino _ fh hfh => Nat.lt_succ_of_lt (hexact.given ino fh hfh)
  · intro ino fh
    have hloads : ¬ Loads (event, .opened s.fileHandleCounter) := fun h => by cases h.2
    have hfrees : ¬ Frees ino fh (event, .opened s.fileHandleCounter) := fun h => by cases h.2
    have hold := hexact.held ino fh
    rw [held_concat, hopens, ← hold, hlists, mem_update, List.mem_append, List.mem_singleton]
    by_cases hnode : ino = node
    · subst hnode
      tauto
    · tauto

theorem exact_freed (node freed i : ℕ)
    (hexact : Exact (s, log)) (hevent : event = .release node freed ∨
    event = .releasedir node freed)
    (hi : binarySearch (s.handlersOf node) freed = some i)
    (hlists : t.handlersOf = Function.update s.handlersOf node ((s.handlersOf node).eraseIdx i))
    (hkept : t.fileHandleCounter = s.fileHandleCounter) : Exact (t, log ++ [(event, .ok)]) := by
  have hcount : openings (log ++ [(event, .ok)]) = openings log := openings_concat log _
  have hfrees : ∀ ino fh, Frees ino fh (event, .ok) ↔ ino = node ∧ fh = freed := by
    intro ino fh
    constructor
    · rintro ⟨hother, -⟩
      rcases hevent with rfl | rfl
      · rcases hother with h | h
        · obtain ⟨rfl, rfl⟩ := Event.release.inj h
          exact ⟨rfl, rfl⟩
        · cases h
      · rcases hother with h | h
        · cases h
        · obtain ⟨rfl, rfl⟩ := Event.releasedir.inj h
          exact ⟨rfl, rfl⟩
    · rintro ⟨rfl, rfl⟩
      exact ⟨hevent, rfl⟩
  refine ⟨?_, ?_, ?_, ?_⟩
  · show t.fileHandleCounter = wrap (openings (log ++ _))
    rw [hcount, hkept]
    exact hexact.counter
  · show ∀ ino, (t.handlersOf ino).Pairwise (· < ·)
    rw [hlists, Function.forall_update_iff s.handlersOf fun _ xs => xs.Pairwise (· < ·)]
    exact ⟨(hexact.sorted node).eraseIdx i, fun ino _ => hexact.sorted ino⟩
  · show ∀ ino, ∀ fh ∈ t.handlersOf ino, fh < openings (log ++ _)
    rw [hcount, hlists, Function.forall_update_iff s.handlersOf
      fun _ xs => ∀ fh ∈ xs, fh < openings log]
    refine ⟨?_, fun ino _ => hexact.given ino⟩
    exact fun fh hfh => hexact.given node fh (List.mem_of_mem_eraseIdx hfh)
  · intro ino fh
    have hloads : ¬ Loads (event, .ok) := by
      rintro ⟨⟨files, rfl⟩, -⟩
      rcases hevent with h | h <;> cases h
    have hopens : ¬ Opens ino fh (event, .ok) := fun h => by cases h.2
    have hold := hexact.held ino fh
    rw [held_concat, hfrees, ← hold, hlists, mem_update,
      mem_eraseIdx_sorted _ (hexact.sorted node) i freed fh (get_of_binarySearch _ _ i hi)]
    by_cases hnode : ino = node
    · subst hnode
      tauto
    · tauto

theorem exact_step (hexact : Exact (s, log))
    (h : Change s t x) (hbound : openings (log ++ [x]) ≤ 2 ^ 64) : Exact (t, log ++ [x]) := by
  have hcount := openings_concat log x
  cases h with
  | same _ hlists hkept hloads hopened hfrees =>
    rw [hopened, if_neg Bool.false_ne_true, Nat.add_zero] at hcount
    refine ⟨?_, ?_, ?_, ?_⟩
    · show t.fileHandleCounter = wrap (openings (log ++ _))
      rw [hkept, hcount]
      exact hexact.counter
    · show ∀ ino, (t.handlersOf ino).Pairwise (· < ·)
      rw [hlists]
      exact hexact.sorted
    · show ∀ ino, ∀ fh ∈ t.handlersOf ino, fh < openings (log ++ _)
      rw [hlists, hcount]
      exact hexact.given
    · intro ino fh
      have hopens := not_opens x hopened ino fh
      have hnot := hfrees ino fh
      have hold := hexact.held ino fh
      rw [hlists, held_concat, ← hold]
      tauto
  | loaded files hlists hkept =>
    refine ⟨?_, ?_, ?_, ?_⟩
    · show t.fileHandleCounter = wrap (openings (log ++ _))
      rw [hkept, hcount]
      exact hexact.counter
    · show ∀ ino, (t.handlersOf ino).Pairwise (· < ·)
      rw [hlists]
      exact fun ino => List.Pairwise.nil
    · show ∀ ino, ∀ fh ∈ t.handlersOf ino, fh < openings (log ++ _)
      rw [hlists]
      exact fun ino fh hfh => absurd hfh List.not_mem_nil
    · intro ino fh
      rw [hlists, held_concat]
      refine iff_of_false List.not_mem_nil ?_
      rintro (⟨-, h⟩ | ⟨-, h, -⟩)
      · cases h
      · exact h ⟨⟨files, rfl⟩, rfl⟩
  | opened event node hevent hlists hnext =>
    have hmore : openings (log ++ [(event, .opened s.fileHandleCounter)]) = openings log + 1 :=
      hcount
    exact exact_opened s t log event node hexact hevent hlists hnext (by omega)
  | freed event node freed i hevent hi hlists hkept =>
    exact exact_freed s t log event node freed i hexact hevent hi hlists hkept

theorem step_eq (s t : Server × Log) (event : Event) (h : step s event = some t) :
    t = ((s.1.respond event).1, s.2 ++ [(event, (s.1.respond event).2)]) :=
  (Option.some.inj h).symm

/-- In every run, what is in the list of a node was opened for it. -/
theorem sound_of_exec (events : List Event) (s : Server × Log)
    (hexec : exec step (Server.new, []) events = some s) : Sound s := by
  refine invariant_of_exec step Sound ?_ _ s events ?_ hexec
  · intro s event t hsound ht
    rw [step_eq s t event ht]
    exact sound_step s.1 _ s.2 _ hsound (respond_change s.1 event)
  · intro ino fh hmem
    rw [Server.new.handlersOf_fresh fun node hnode => absurd hnode List.not_mem_nil] at hmem
    exact absurd hmem List.not_mem_nil

/-- As long as the counter has not gone around, the lists are exact. -/
theorem exact_of_exec (events : List Event) (s : Server × Log)
    (hexec : exec step (Server.new, []) events = some s) (hbound : openings s.2 ≤ 2 ^ 64) :
    Exact s := by
  refine invariant_of_exec step (fun s => openings s.2 ≤ 2 ^ 64 → Exact s) ?_ _ s events
    (fun _ => exact_start) hexec hbound
  intro s event t hexact ht hmore
  rw [step_eq s t event ht] at hmore ⊢
  have hless : openings s.2 ≤ 2 ^ 64 :=
    Nat.le_trans (by rw [openings_concat]; omega) hmore
  exact exact_step s.1 _ s.2 _ (hexact hless) (respond_change s.1 event) hmore

/-! ### Requests with a handle -/

def Uses (ino fh : ℕ) (event : Event) : Prop :=
  (∃ offset, event = .readdir ino fh offset) ∨ event = .releasedir ino fh ∨
    (∃ answer, event = .read ino fh answer) ∨ event = .release ino fh

theorem unregister_isNone (handles : FileHandles) (fh : ℕ) :
    handles.unregister fh = none ↔ handles.has fh = false := by
  rw [FileHandles.unregister, FileHandles.has, Option.map_eq_none_iff, Option.isSome_eq_false_iff,
    Option.isNone_iff_eq_none]

/-- A request with a handle succeeds only when the handle is accepted, and a bad handle is one that
is not accepted. -/
theorem uses_reply (h : Uses ino fh event) :
    ((∀ errno, (s.respond event).2 ≠ .error errno) → s.accepts ino fh = true) ∧
      ((s.respond event).2 = .error .EBADF → s.accepts ino fh = false) := by
  unfold Server.accepts
  rcases h with ⟨offset, rfl⟩ | rfl | ⟨answer, rfl⟩ | rfl
  · simp only [Server.respond, Server.readdir]
    cases nodeAt s.files ino with
    | none => simp
    | some entry =>
      cases hhas : entry.fileHandlers.has fh with
      | false => simp [hhas]
      | true =>
        simp only [hhas, Bool.not_true, Bool.false_eq_true, if_false]
        split <;> simp
  · simp only [Server.respond, Server.releasedir]
    cases nodeAt s.files ino with
    | none => simp
    | some entry =>
      simp only
      split
      · simp
      cases hfree : entry.fileHandlers.unregister fh with
      | none => simp [(unregister_isNone _ fh).mp hfree]
      | some handles =>
        have hhas : entry.fileHandlers.has fh ≠ false := by
          rw [Ne, ← unregister_isNone, hfree]
          simp
        simp [hhas]
  · simp only [Server.respond, Server.read]
    cases nodeAt s.files ino with
    | none => simp
    | some entry =>
      cases hhas : entry.fileHandlers.has fh with
      | false => simp [hhas]
      | true =>
        simp only [hhas, Bool.not_true, Bool.false_eq_true, if_false]
        split
        · simp
        split
        · simp
        cases answer <;> simp
  · simp only [Server.respond, Server.release]
    cases nodeAt s.files ino with
    | none => simp
    | some entry =>
      simp only
      cases hfree : entry.fileHandlers.unregister fh with
      | none => simp [(unregister_isNone _ fh).mp hfree]
      | some handles =>
        have hhas : entry.fileHandlers.has fh ≠ false := by
          rw [Ne, ← unregister_isNone, hfree]
          simp
        simp [hhas]

/-! ### The tree and its handles -/

/-- For every list read from the peer there is a tree of the right shape, in which a file is found
by its path exactly when it is reached, and for every run a handle is accepted only for the node it
was opened for since the last list; until the counter goes around, exactly when it is held. -/
theorem fuse_spec (files : List FileDescription) (hparsed : ∀ file ∈ files, Parsed file)
    (events : List Event) (s : Server) (log : Log)
    (hexec : exec step (Server.new, []) events = some (s, log)) :
    (∃ tree, buildTree files = .ok tree ∧ tree.length = files.length + 1 ∧ TreeShape tree ∧
      (∀ (k : ℕ) (desc : FileDescription), files[k]? = some desc →
        (lookupPath tree (components desc.name) = .ok (k + 2) ↔ Reached files k)) ∧
      (PreOrdered files → ∀ k < files.length, Reached files k)) ∧
    (∀ ino fh, s.accepts ino fh = true → Opened ino fh log) ∧
    (openings log ≤ 2 ^ 64 → ∀ ino, (s.handlersOf ino).Pairwise (· < ·) ∧
      ∀ fh, s.accepts ino fh = true ↔ Held ino fh log) ∧
    ∀ event ino fh, Uses ino fh event →
      ((∀ errno, (s.respond event).2 ≠ .error errno) → s.accepts ino fh = true) ∧
        ((s.respond event).2 = .error .EBADF → s.accepts ino fh = false) := by
  refine ⟨⟨treeOf files, buildTree_eq files hparsed, treeOf_length files, treeShape_treeOf files,
    fun k desc hk => lookupPath_iff files hparsed k desc hk,
    fun hordered k hk => hordered.reached files hparsed k hk⟩, ?_, ?_, uses_reply s⟩
  · intro ino fh haccepts
    rw [Server.accepts_eq] at haccepts
    obtain ⟨i, hi⟩ := Option.isSome_iff_exists.mp haccepts
    have hmem := List.mem_of_getElem? (get_of_binarySearch _ fh i hi)
    exact sound_of_exec events (s, log) hexec ino fh hmem
  · intro hbound ino
    have hexact := exact_of_exec events (s, log) hexec hbound
    refine ⟨hexact.sorted ino, fun fh => ?_⟩
    have hsorted : (s.handlersOf ino).Pairwise (· ≤ ·) := (hexact.sorted ino).imp Nat.le_of_lt
    rw [Server.accepts_eq, binarySearch_isSome_iff _ fh hsorted]
    exact hexact.held ino fh

def sampleDescription (name : String) (kind : FileType) : FileDescription :=
  ⟨7, name.toList, kind, 0, 0, 0, 0, 5, PERM_RWX, 3⟩

def sampleList : List FileDescription :=
  [sampleDescription "a" .directory, sampleDescription "a/f" .file]

def sampleEvents : List Event :=
  [.init, .load sampleList, .open 3, .opendir 2, .release 3 0, .open 3]

theorem fuse_spec_sample :
    ∃ tree s log, buildTree sampleList = .ok tree ∧
      exec step (Server.new, []) sampleEvents = some (s, log) ∧
      (lookupPath tree (components "a/f".toList) = .ok 3 ↔ Reached sampleList 1) ∧
      Opened 3 2 log ∧ Held 3 2 log := by
  have hparsed : ∀ file ∈ sampleList, Parsed file := by
    unfold Parsed
    decide +kernel
  obtain ⟨⟨tree, htree, -, -, hfound, -⟩, hsound, hexact, -⟩ :=
    fuse_spec sampleList hparsed sampleEvents _ _ rfl
  refine ⟨tree, _, _, htree, rfl, hfound 1 _ rfl, hsound 3 2 (by decide +kernel), ?_⟩
  exact ((hexact (by decide +kernel) 3).2 2).mp (by decide +kernel)

def ParentsBefore (files : List FileDescription) (k : ℕ) (desc : FileDescription) : Prop :=
  ∀ n, 0 < n → n < (components desc.name).length → ∃ i dir, i < k ∧ files[i]? = some dir ∧
    dir.kind = .directory ∧ components dir.name = (components desc.name).take n

def misordered : List FileDescription :=
  [sampleDescription "a/b" .directory, sampleDescription "a" .directory,
    sampleDescription "a/b/f" .file]

theorem opened_root (n : ℕ) :
    ∃ s log, exec step (Server.new, []) (.init :: List.replicate n (.opendir 1)) = some (s, log) ∧
      s.files = [{ FuseNode.newRoot with fileHandlers := ⟨(List.range n).map wrap, false⟩ }] ∧
      s.fileHandleCounter = wrap n := by
  induction n with
  | zero => exact ⟨_, _, rfl, rfl, rfl⟩
  | succ n ih =>
    obtain ⟨s, log, hexec, hfiles, hcounter⟩ := ih
    have hnode : nodeAt s.files 1 =
        some { FuseNode.newRoot with fileHandlers := ⟨(List.range n).map wrap, false⟩ } := by
      rw [hfiles]
      rfl
    refine ⟨(s.respond (.opendir 1)).1, log ++ [(.opendir 1, (s.respond (.opendir 1)).2)], ?_, ?_⟩
    · rw [List.replicate_succ', ← List.cons_append, exec_append]
      exact ⟨_, hexec, rfl⟩
    · have hopen : s.respond (.opendir 1) =
          s.addHandle 1 { FuseNode.newRoot with
            fileHandlers := ⟨(List.range n).map wrap, false⟩ } := by
        simp only [Server.respond, Server.openKind, hnode]
        rfl
      rw [hopen, List.range_succ, List.map_append]
      refine ⟨?_, ?_⟩
      · simp only [Server.addHandle, Server.setHandles, hfiles, hcounter]
        rfl
      · simp only [Server.addHandle, Server.setHandles, hcounter, wrap]
        omega

theorem not_pairwise_wrap (n : ℕ) (hn : 2 ^ 64 < n) :
    ¬ ((List.range n).map wrap).Pairwise (· < ·) := by
  intro hpairwise
  have hless := List.pairwise_iff_getElem.mp hpairwise 0 (2 ^ 64) (by simp; omega)
      (by simpa using hn)
    (by omega)
  simp [wrap] at hless

/-- A file whose directories all come before it, and is not found; and lists of handles that are not
in order after the counter has gone around. -/
theorem misordered_not_found :
    (¬ ∀ files, (∀ file ∈ files, Parsed file) → ∀ k desc, files[k]? = some desc →
        ParentsBefore files k desc → ∃ tree, buildTree files = .ok tree ∧
          lookupPath tree (components desc.name) = .ok (k + 2)) ∧
      ¬ ∀ events s log, exec step (Server.new, []) events = some (s, log) →
        ∀ ino, (s.handlersOf ino).Pairwise (· < ·) := by
  constructor
  · intro h
    have hparsed : ∀ file ∈ misordered, Parsed file := by
      unfold Parsed
      decide
    have hbefore : ParentsBefore misordered 2 (sampleDescription "a/b/f" .file) := by
      have hlength : (components (sampleDescription "a/b/f" .file).name).length = 3 := by
        decide
      intro n hpos hn
      rw [hlength] at hn
      by_cases hone : n = 1
      · subst hone
        exact ⟨1, _, by omega, rfl, rfl, by decide⟩
      · obtain rfl : n = 2 := by omega
        exact ⟨0, _, by omega, rfl, rfl, by decide⟩
    obtain ⟨tree, htree, hfound⟩ := h misordered hparsed 2 _ rfl hbefore
    have hlost : (buildTree misordered).map (fun tree =>
        decide (lookupPath tree (components "a/b/f".toList) = .error .ENOENT)) = .ok true := by
      decide
    rw [htree] at hlost
    have hnone := of_decide_eq_true (Except.ok.inj hlost)
    have hboth := hfound.symm.trans hnone
    cases hboth
  · intro h
    obtain ⟨n, hn⟩ : ∃ n, 2 ^ 64 < n := ⟨2 ^ 64 + 1, Nat.lt_succ_self _⟩
    obtain ⟨s, log, hexec, hfiles, -⟩ := opened_root n
    have hsorted := h _ s log hexec 1
    simp only [Server.handlersOf, hfiles] at hsorted
    exact not_pairwise_wrap n hn hsorted

end ClantoDesk.FuseHandles
