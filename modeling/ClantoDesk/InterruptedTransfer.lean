import ClantoDesk.ConnectionManager
import ClantoDesk.FileTransfer

/-!
What transfers that end early do to files that exist, libs/base/src/fs.rs and
src/ui_cm_interface.rs, whether or not received files are scanned. A download is to replace a
file only when it is complete. The jobs come one after the other. Beside the state of the connection
manager a record is kept of what was received for the open download and of what was complete.
-/
namespace ClantoDesk.InterruptedTransfer

open FileSystem TransferJob FileScan ConnectionManager
open TenantKeys (Bytes)

/-- The place of a download or of a digest, for files with one of the names. -/
def Temporary (names : List Name) (p : Location) : Prop :=
  ∃ name ∈ names, p.getLast? = some (name ++ downloadSuffix) ∨
    p.getLast? = some (name ++ digestSuffix)

instance (names : List Name) (p : Location) : Decidable (Temporary names p) := by
  unfold Temporary
  infer_instance

abbrev Completed := List (ℕ × Bytes)

/-- What may become of an entry: it stays, but for the time of a file; a directory is made; or a
file comes in its place that is complete or goes to the quarantine. -/
inductive Change (done : Completed) : Option (Node File) → Option (Node File) → Prop
  | same (node : Option (Node File)) : Change done node node
  | touched (inode : ℕ) (f g : File) (hdata : f.data = g.data) (horigin : f.origin = g.origin) :
      Change done (some (.file inode f)) (some (.file inode g))
  | made : Change done none (some .dir)
  | delivered (old : Option (Node File)) (inode : ℕ) (f : File) (hdone : (inode, f.data) ∈ done) :
      Change done old (some (.file inode f))
  | quarantined (old : Option (Node File)) (inode : ℕ) (f : File)
    (horigin : f.origin = .quarantined) :
      Change done old (some (.file inode f))

theorem Change.trans {done : Completed} {a b c : Option (Node File)} (h : Change done a b)
    (hnext : Change done b c) : Change done a c := by
  cases hnext with
  | same node => exact h
  | made =>
    cases h with
    | same node => exact .made
  | delivered old inode f hdone => exact .delivered a inode f hdone
  | quarantined old inode f horigin => exact .quarantined a inode f horigin
  | touched inode f g hdata horigin =>
    cases h with
    | same node => exact .touched inode f g hdata horigin
    | touched j e _ hdata' horigin' =>
      exact .touched inode e g (hdata'.trans hdata) (horigin'.trans horigin)
    | delivered old j _ hdone => exact .delivered a inode g (hdata ▸ hdone)
    | quarantined old j _ hquarantined =>
      exact .quarantined a inode g (horigin.symm.trans hquarantined)

theorem Change.mono {done more : Completed} {a b : Option (Node File)} (h : Change done a b)
    (hsub : done ⊆ more) : Change more a b := by
  cases h with
  | same => exact .same a
  | touched inode f g hdata horigin => exact .touched inode f g hdata horigin
  | made => exact .made
  | delivered old inode f hdone => exact .delivered a inode f (hsub hdone)
  | quarantined old inode f horigin => exact .quarantined a inode f horigin

/-- From `d` to `e` every place but the temporary ones changes only so, and no link is made. -/
structure Kept (names : List Name) (done : Completed) (d e : Disk File) : Prop where
  change : ∀ p, ¬ Temporary names p → Change done (d.get p) (e.get p)
  links : ∀ p target, e.get p = some (.link target) → d.get p = some (.link target)

/-- No link stands at a temporary place. -/
def NoLinks (names : List Name) (d : Disk File) : Prop :=
  ∀ p target, Temporary names p → d.get p ≠ some (.link target)

namespace Kept

variable {names : List Name} {done : Completed} {d e : Disk File}

theorem refl (names : List Name) (done : Completed) (d : Disk File) : Kept names done d d :=
  ⟨fun _ _ => .same _, fun _ _ hget => hget⟩

theorem trans {f : Disk File} (h : Kept names done d e) (hnext : Kept names done e f) :
    Kept names done d f :=
  ⟨fun p hp => (h.change p hp).trans (hnext.change p hp),
    fun p target hget => h.links p target (hnext.links p target hget)⟩

theorem mono {more : Completed} (h : Kept names done d e) (hsub : done ⊆ more) :
    Kept names more d e :=
  ⟨fun p hp => (h.change p hp).mono hsub, h.links⟩

theorem noLinks (h : Kept names done d e) (hd : NoLinks names d) : NoLinks names e :=
  fun p target hp hget => hd p target hp (h.links p target hget)

theorem of_place {q : Location} (hq : Temporary names q)
    (hother : ∀ p, p ≠ q → e.get p = d.get p) (hlink : ∀ target, e.get q ≠ some (.link target)) :
    Kept names done d e := by
  constructor
  · intro p hp
    have hne : p ≠ q := by
      rintro rfl
      exact hp hq
    rw [hother p hne]
    exact .same _
  · intro p target hget
    by_cases heq : p = q
    · rw [heq] at hget
      exact absurd hget (hlink target)
    · rwa [hother p heq] at hget

end Kept

theorem Temporary.ne_root {names : List Name} {p : Location} (h : Temporary names p) : p ≠ [] := by
  rintro rfl
  obtain ⟨name, -, hlast | hlast⟩ := h <;> cases hlast

def Suffix (suffix : Path) : Prop := suffix = downloadSuffix ∨ suffix = digestSuffix

theorem Suffix.slash {suffix : Path} (h : Suffix suffix) : '/' ∉ suffix := by
  rcases h with rfl | rfl <;> decide

theorem Suffix.long {suffix : Path} (h : Suffix suffix) : 2 < suffix.length := by
  rcases h with rfl | rfl <;> decide

theorem temporary_concat {names : List Name} {name suffix : Name} (hname : name ∈ names)
    (hsuffix : Suffix suffix) (r : Location) : Temporary names (r ++ [name ++ suffix]) := by
  refine ⟨name, hname, ?_⟩
  rw [List.getLast?_concat]
  rcases hsuffix with rfl | rfl
  · exact Or.inl rfl
  · exact Or.inr rfl

section Paths

variable {names : List Name} {d : Disk File} (hlinks : NoLinks names d) {path suffix : Path}
  (hsuffix : Suffix suffix) (hpath : lastSegment path ∈ names) {cwd : Location}

include hlinks hsuffix hpath

/-- A path with a suffix for a name leads to a place with this name and suffix. -/
theorem resolve_leaf {follow : Bool} {q : Location}
    (hq : d.resolve cwd follow (path ++ suffix) = .at q) :
    ∃ r, q = r ++ [lastSegment path ++ suffix] :=
  d.resolve_leaf suffix path hsuffix.slash hsuffix.long
    (fun _ target => hlinks _ target (temporary_concat hpath hsuffix _)) cwd follow q hq

theorem temporary_of_resolve {follow : Bool} {q : Location}
    (hq : d.resolve cwd follow (path ++ suffix) = .at q) : Temporary names q := by
  obtain ⟨r, rfl⟩ := resolve_leaf hlinks hsuffix hpath hq
  exact temporary_concat hpath hsuffix r

theorem resolve_nofollow :
    d.resolve cwd true (path ++ suffix) = d.resolve cwd false (path ++ suffix) :=
  d.resolve_nofollow suffix path hsuffix.slash hsuffix.long
    (fun _ target => hlinks _ target (temporary_concat hpath hsuffix _)) cwd

end Paths

theorem download_ne_digest {names : List Name} {d : Disk File} (hlinks : NoLinks names d)
    {path : Path} (hpath : lastSegment path ∈ names) {cwd p q : Location} {follow other : Bool}
    (hp : d.resolve cwd follow (path ++ downloadSuffix) = .at p)
    (hq : d.resolve cwd other (path ++ digestSuffix) = .at q) : p ≠ q := by
  obtain ⟨r, rfl⟩ := resolve_leaf hlinks (Or.inl rfl) hpath hp
  obtain ⟨r', rfl⟩ := resolve_leaf hlinks (Or.inr rfl) hpath hq
  intro heq
  have hlast := (List.append_inj' heq rfl).2
  have hsuffix := List.append_cancel_left (List.singleton_inj.mp hlast)
  exact absurd hsuffix (by decide)

namespace Kept

variable {names : List Name} {done : Completed} {d : Disk File}

theorem erase {p : Location} (hp : Temporary names p) : Kept names done d (d.erase p) := by
  refine of_place hp ?_ ?_
  · intro q hq
    rw [d.get_erase p q hp.ne_root, if_neg hq]
  · intro target hget
    rw [d.get_erase p p hp.ne_root, if_pos rfl] at hget
    cases hget

theorem removeFile (hlinks : NoLinks names d) (os : Os) {path suffix : Path}
    (hsuffix : Suffix suffix) (hpath : lastSegment path ∈ names) :
    Kept names done d ((d.removeFile os (path ++ suffix)).getD d) := by
  cases hremove : d.removeFile os (path ++ suffix) with
  | none => exact refl names done d
  | some t =>
    obtain ⟨p, hp, -, rfl⟩ := Disk.removeFile_eq hremove
    exact erase (temporary_of_resolve hlinks hsuffix hpath hp)

theorem createParents (os : Os) (path : Path) : Kept names done d (d.createParents os path) := by
  have hget := makeDirs_get os (if isAbsolute path then [] else os.cwd) d []
    (components path).dropLast
  constructor
  · intro p _
    rcases hget p with heq | ⟨hnone, hdir⟩
    · rw [Disk.createParents, heq]
      exact .same _
    · rw [Disk.createParents, hnone, hdir]
      exact .made
  · intro p target hlink
    rw [Disk.createParents] at hlink
    rcases hget p with heq | ⟨-, hdir⟩
    · rwa [heq] at hlink
    · rw [hdir] at hlink
      cases hlink

theorem updateAt {p : Location} (hp : Temporary names p) {inode : ℕ} {old : File}
    (hget : d.get p = some (.file inode old)) (f : File → File) :
    Kept names done d (d.update inode f) := by
  refine of_place hp ?_ ?_
  · intro q hq
    rw [d.get_update p q inode old f hget, if_neg hq]
  · intro target hlink
    rw [d.get_update p p inode old f hget, if_pos rfl] at hlink
    cases hlink

theorem updateTime (inode : ℕ) (mtime : ℤ) :
    Kept names done d (d.update inode fun f => { f with mtime := mtime }) := by
  have hget := fun p => d.get_map (fun _ j f => if j = inode then { f with
      mtime := mtime } else f) p
  constructor
  · intro p _
    rw [Disk.update, hget]
    cases d.get p with
    | none => exact .same _
    | some node =>
      cases node with
      | dir => exact .same _
      | link target => exact .same _
      | file j f =>
        have hsame : ∀ g : File, g = (if j = inode then { f with mtime := mtime } else f) →
            f.data = g.data ∧ f.origin = g.origin := by
          rintro g rfl
          split <;> exact ⟨rfl, rfl⟩
        exact .touched j f _ (hsame _ rfl).1 (hsame _ rfl).2
  · intro p target hlink
    rw [Disk.update, hget] at hlink
    cases hnode : d.get p with
    | none =>
      rw [hnode] at hlink
      cases hlink
    | some node =>
      rw [hnode] at hlink
      cases node with
      | dir => cases hlink
      | link other => exact hlink
      | file j f => cases hlink

theorem create {os : Os} {path : Path} {content : File} {e : Disk File} {inode : ℕ}
    (hcreate : d.create os path content = some (e, inode))
    (hplace : (∀ q, d.resolve os.cwd true path = .at q → Temporary names q) ∨
      content.origin = .quarantined) : Kept names done d e := by
  obtain ⟨q, hq, -, -, hget⟩ := Disk.create_get hcreate
  constructor
  · intro p hp
    rw [hget p]
    split
    · rename_i heq
      rcases hplace with htemporary | hquarantined
      · exact absurd (heq ▸ htemporary q hq) hp
      · exact .quarantined _ inode content hquarantined
    · exact .same _
  · intro p target hlink
    rw [hget p] at hlink
    split at hlink
    · cases hlink
    · exact hlink

/-- A file at a temporary place moves, if it is complete or goes to the quarantine. -/
theorem rename {os : Os} {src dst : Path} {e : Disk File} (hrename : d.rename os src dst = some e)
    (hsrc : ∀ q, d.resolve os.cwd false src = .at q → Temporary names q)
    (hmoved : ∀ q node, d.resolve os.cwd false src = .at q → d.get q = some node →
      ∃ inode f, node = .file inode f ∧ ((inode, f.data) ∈ done ∨ f.origin = .quarantined)) :
    Kept names done d e := by
  rcases Disk.rename_eq hrename with rfl | ⟨p, q, node, hp, -, hget, -, hproot, hqroot, hne, rfl⟩
  · exact refl names done _
  · obtain ⟨inode, f, rfl, hfile⟩ := hmoved p node hp hget
    have hmove : ∀ r, (d.renameAt p q (.file inode f)).get r =
        if r = q then d.get p else if r = p then none else d.get r :=
      fun r => d.get_moveLeaf p q r hproot hqroot hne
    constructor
    · intro r hr
      rw [hmove r]
      split
      · rw [hget]
        rcases hfile with hdone | horigin
        · exact .delivered _ inode f hdone
        · exact .quarantined _ inode f horigin
      · split
        · rename_i heq
          exact absurd (heq ▸ hsrc p hp) hr
        · exact .same _
    · intro r target hlink
      rw [hmove r, hget] at hlink
      split at hlink
      · cases hlink
      · split at hlink
        · cases hlink
        · exact hlink

end Kept

def Ripe (done : Completed) (cwd : Location) (d : Disk File) (path : Path) : Prop :=
  ∀ q node, d.resolve cwd false (path ++ downloadSuffix) = .at q → d.get q = some node →
    ∃ inode f, node = .file inode f ∧ (inode, f.data) ∈ done

/-- The disk `e` comes from `d` without new directories or links, and a file is complete or was in
its place. -/
structure Thins (done : Completed) (e d : Disk File) : Prop where
  within : e.Within d
  files : ∀ p inode f, e.get p = some (.file inode f) → (inode, f.data) ∈ done ∨
    ∃ g, d.get p = some (.file inode g) ∧ g.data = f.data

namespace Thins

variable {done : Completed} {d e : Disk File}

theorem refl (done : Completed) (d : Disk File) : Thins done d d :=
  ⟨⟨fun _ h => h, fun _ _ h => h⟩, fun _ _ f hget => Or.inr ⟨f, hget, rfl⟩⟩

theorem removeFile (os : Os) (path : Path) : Thins done ((d.removeFile os path).getD d) d := by
  cases hremove : d.removeFile os path with
  | none => exact refl done d
  | some t =>
    obtain ⟨q, -, -, rfl⟩ := Disk.removeFile_eq hremove
    refine ⟨d.erase_within q, ?_⟩
    intro p inode f hget
    have hroot := Disk.ne_root_of_file _ p inode f hget
    have hmem := (d.mem_erase q _).mp (Disk.mem_of_get_file _ p inode f hget)
    exact Or.inr ⟨f, d.get_of_mem p _ hroot hmem.1, rfl⟩

theorem updateTime (inode : ℕ) (mtime : ℤ) :
    Thins done (d.update inode fun f => { f with mtime := mtime }) d := by
  refine ⟨d.map_within _, ?_⟩
  intro p j f hget
  have hroot := Disk.ne_root_of_file _ p j f hget
  obtain ⟨g, hmem, rfl⟩ := (d.mem_map_file _ p j f).mp (Disk.mem_of_get_file _ p j f hget)
  refine Or.inr ⟨g, d.get_of_mem p _ hroot hmem, ?_⟩
  split <;> rfl

theorem ripe {cwd : Location} {path : Path} (h : Thins done e d) (hripe : Ripe done cwd d path) :
    Ripe done cwd e path := by
  intro q node hq hget
  cases node with
  | dir =>
    have hold := e.resolve_within d h.within cwd false _ q hq (Or.inr ⟨_, hget, rfl⟩)
    obtain ⟨inode, f, heq, -⟩ := hripe q _ hold (h.within.1 q hget)
    cases heq
  | link target =>
    have hold := e.resolve_within d h.within cwd false _ q hq (Or.inr ⟨_, hget, rfl⟩)
    obtain ⟨inode, f, heq, -⟩ := hripe q _ hold (h.within.2 q target hget)
    cases heq
  | file inode f =>
    refine ⟨inode, f, rfl, ?_⟩
    rcases h.files q inode f hget with hdone | ⟨g, hold, hdata⟩
    · exact hdone
    · have hpath := e.resolve_within d h.within cwd false _ q hq (Or.inl ⟨inode, g, hold⟩)
      obtain ⟨j, g', heq, hdone⟩ := hripe q _ hpath hold
      obtain ⟨rfl, rfl⟩ := Node.file.inj heq
      exact hdata ▸ hdone

theorem rename {os : Os} {path : Path} (dst : Path) (hripe : Ripe done os.cwd d path) :
    Thins done ((d.rename os (path ++ downloadSuffix) dst).getD d) d := by
  cases hrename : d.rename os (path ++ downloadSuffix) dst with
  | none => exact refl done d
  | some t =>
    rcases Disk.rename_eq hrename with rfl | ⟨p, q, node, hp, -, hget, -, hproot, -, -, rfl⟩
    · exact refl done _
    · obtain ⟨inode, f, rfl, hdone⟩ := hripe p node hp hget
      refine ⟨d.moveLeaf_within p q inode f hget, ?_⟩
      intro r j g hmoved
      have hroot := Disk.ne_root_of_file _ r j g hmoved
      have hentry := Disk.mem_of_get_file (d.moveLeaf p q) r j g hmoved
      obtain ⟨old, hold, -, heq⟩ := (d.mem_relocate _ _ _ _).mp hentry
      by_cases hsrc : old = p
      · have hfile := d.get_of_mem p _ hproot (hsrc ▸ hold)
        obtain ⟨rfl, rfl⟩ := Node.file.inj (Option.some.inj (hfile.symm.trans hget))
        exact Or.inl hdone
      · have hsame : r = old := by simpa [leafPlace, hsrc] using heq
        exact Or.inr ⟨g, d.get_of_mem r _ hroot (hsame ▸ hold), rfl⟩

end Thins

section Delivery

variable {names : List Name} {done : Completed} {env : Env} {job : Job} {w : World}

def Named (names : List Name) (job : Job) : Prop :=
  ∀ entry ∈ job.files, lastSegment (joinName job.base entry.name) ∈ names

theorem Named.entry (h : Named names job) {entry : FileEntry} (hentry : job.entry = some entry) :
    lastSegment (joinName job.base entry.name) ∈ names :=
  h entry (List.mem_of_getElem? hentry)

theorem Named.entryPath (h : Named names job) {d : Disk File} {path : Path}
    (hpath : job.entryPath env d = some path) : lastSegment path ∈ names := by
  obtain ⟨entry, hentry, rfl⟩ := entryPath_eq hpath
  exact h.entry hentry

def Delivers (done : Completed) (env : Env) (job : Job) (d : Disk File) : Prop :=
  ∀ path, job.entryPath env d = some path → Ripe done env.os.cwd d path

variable (names done env w) in
theorem kept_setFileMtime (path : Path) (seconds : UInt64) :
    Kept names done w.disk (w.setFileMtime env path seconds).disk ∧
      Thins done (w.setFileMtime env path seconds).disk w.disk := by
  unfold World.setFileMtime
  split
  · exact ⟨.updateTime _ _, .updateTime _ _⟩
  · exact ⟨.refl names done _, .refl done _⟩

variable (done) in
/-- A complete download gets its final name, and nothing else changes. -/
theorem modifyTime_kept (hlinks : NoLinks names w.disk) (hnamed : Named names job)
    (hdelivers : Delivers done env job w.disk) :
    Kept names done w.disk (modifyTime env job w).disk ∧
      Delivers done env job (modifyTime env job w).disk := by
  have hpath_eq : ∀ {d e : Disk File} {path other : Path}, job.entryPath env d = some path →
      job.entryPath env e = some other → other = path := by
    intro d e path other hpath hother
    obtain ⟨entry, hentry, rfl⟩ := entryPath_eq hpath
    obtain ⟨entry', hentry', rfl⟩ := entryPath_eq hother
    rw [Option.some.inj (hentry.symm.trans hentry')]
  unfold modifyTime
  split
  · rename_i entry path hentry hpath
    have hname := hnamed.entryPath hpath
    have hremoved : Kept names done w.disk (w.removeFile env (path ++ digestSuffix)).disk :=
      .removeFile hlinks env.os (Or.inr rfl) hname
    have hripe := (Thins.removeFile env.os (path ++ digestSuffix)).ripe (hdelivers path hpath)
    have hrenamed : Kept names done (w.removeFile env (path ++ digestSuffix)).disk
        ((w.removeFile env (path ++ digestSuffix)).rename env (path ++ downloadSuffix)
            path).disk := by
      unfold World.rename World.put
      cases hrename : (w.removeFile env (path ++ digestSuffix)).disk.rename env.os
          (path ++ downloadSuffix) path with
      | none => exact .refl names done _
      | some e =>
        refine .rename hrename ?_ ?_
        · intro q hq
          exact temporary_of_resolve (hremoved.noLinks hlinks) (Or.inl rfl) hname hq
        · intro q node hq hget
          obtain ⟨inode, f, heq, hdone⟩ := hripe q node hq hget
          exact ⟨inode, f, heq, Or.inl hdone⟩
    have hthin := Thins.rename path hripe
    have htimed := kept_setFileMtime names done env
      ((w.removeFile env (path ++ digestSuffix)).rename env (path ++ downloadSuffix) path)
        path entry.modifiedTime
    refine ⟨(hremoved.trans hrenamed).trans htimed.1, ?_⟩
    intro other hother
    obtain rfl := hpath_eq hpath hother
    exact htimed.2.ripe (hthin.ripe hripe)
  · exact ⟨.refl names done _, hdelivers⟩

def Holds (cwd : Location) (d : Disk File) (path : Path) (inode : ℕ) (content : Bytes) : Prop :=
  ∃ q f, d.resolve cwd false (path ++ downloadSuffix) = .at q ∧ d.get q = some (.file inode f) ∧
    f.data = content

theorem Holds.ripe {cwd : Location} {d : Disk File} {path : Path} {inode : ℕ} {content : Bytes}
    (h : Holds cwd d path inode content) (hdone : (inode, content) ∈ done) :
    Ripe done cwd d path := by
  intro p node hp hget
  obtain ⟨q, f, hq, hfile, hdata⟩ := h
  obtain rfl := Found.at.inj (hq.symm.trans hp)
  exact ⟨inode, f, Option.some.inj (hget.symm.trans hfile), hdata ▸ hdone⟩

theorem holds_of_create {d e : Disk File} (hlinks : NoLinks names d) {os : Os} {path : Path}
    (hname : lastSegment path ∈ names) {inode : ℕ} {content : File}
    (hcreate : d.create os (path ++ downloadSuffix) content = some (e, inode)) :
    Holds os.cwd e path inode content.data := by
  obtain ⟨q, hq, -, -, hget⟩ := Disk.create_get hcreate
  have hfile : e.get q = some (.file inode content) := by rw [hget q, if_pos rfl]
  rw [resolve_nofollow hlinks (Or.inl rfl) hname] at hq
  exact ⟨q, content, d.resolve_within e (Disk.within_create hcreate) _ _ _ q hq
    (Or.inl ⟨inode, content, hfile⟩), hfile, rfl⟩

theorem Holds.create {d e : Disk File} (hlinks : NoLinks names d) {os : Os} {path : Path}
    (hname : lastSegment path ∈ names) {inode j : ℕ} {content : Bytes} {digest : File}
    (h : Holds os.cwd d path inode content)
    (hcreate : d.create os (path ++ digestSuffix) digest = some (e, j)) :
    Holds os.cwd e path inode content := by
  obtain ⟨q, f, hq, hfile, hdata⟩ := h
  obtain ⟨p, hp, -, -, hget⟩ := Disk.create_get hcreate
  have hstays : e.get q = some (.file inode f) := by
    rw [hget q, if_neg (download_ne_digest hlinks hname hq hp)]
    exact hfile
  exact ⟨q, f, d.resolve_within e (Disk.within_create hcreate) _ _ _ q hq
    (Or.inl ⟨inode, f, hstays⟩), hstays, hdata⟩

variable (done env job w) in
theorem openDownload_kept (codecs : Codecs) (name : Path) (hlinks : NoLinks names w.disk)
    (hname : lastSegment (joinName job.base name) ∈ names) :
    Kept names done w.disk (openDownload env codecs job w name).1.disk ∧
      ∃ stream, (openDownload env codecs job w name).2.1 = { job with dataStream := stream } ∧
        ((openDownload env codecs job w name).2.2 = none →
          ∃ inode, stream = some (.writer inode 0) ∧
          Holds env.os.cwd (openDownload env codecs job w name).1.disk
            (joinName job.base name) inode
            []) := by
  unfold openDownload
  split
  · exact ⟨.refl names done _, job.dataStream, rfl, fun hnone => by cases hnone⟩
  · rename_i path hpath
    obtain rfl := joinValidatedPath_ok hpath
    have hparents : Kept names done w.disk (w.disk.createParents env.os (joinName job.base name)) :=
      .createParents env.os _
    simp only
    split
    · exact ⟨hparents, job.dataStream, rfl, fun hnone => by cases hnone⟩
    · generalize hw : (if env.pathExists (w.put (w.disk.createParents env.os
        (joinName job.base name))).disk (joinName job.base name ++ digestSuffix) = true
        then _ else _) = w'
      have hcleared : Kept names done w.disk w'.disk := by
        rw [← hw]
        split
        · exact hparents.trans (.removeFile (hparents.noLinks hlinks) env.os (Or.inr rfl) hname)
        · exact hparents
      have hlinks' := hcleared.noLinks hlinks
      split
      · exact ⟨hcleared, job.dataStream, rfl, fun hnone => by cases hnone⟩
      · rename_i d inode hcreate
        have hopened : Kept names done w'.disk d :=
          .create hcreate (Or.inl fun q hq => temporary_of_resolve hlinks' (Or.inl rfl) hname hq)
        have hlinks'' := hopened.noLinks hlinks'
        have hholds := holds_of_create hlinks' hname hcreate
        generalize hdigest : (⟨codecs.digestJson job.digest.size job.digest.modified, env.now,
          .host⟩ : File) = digest
        cases hwritten : (w'.put d).disk.create env.os (joinName job.base name ++ digestSuffix)
          digest with
        | none => exact ⟨hcleared.trans hopened, _, rfl, fun _ => ⟨inode, rfl, hholds⟩⟩
        | some written =>
          obtain ⟨u, j⟩ := written
          have hlast : Kept names done d u :=
            .create hwritten (Or.inl fun q hq => temporary_of_resolve hlinks''
              (Or.inr rfl) hname hq)
          refine ⟨(hcleared.trans hopened).trans hlast, _, rfl, fun _ => ⟨inode, rfl, ?_⟩⟩
          exact hholds.create hlinks'' hname hwritten

def Open (cwd : Location) (d : Disk File) (job : Job) (content : Bytes) : Prop :=
  ∀ inode pos, job.dataStream = some (.writer inode pos) → pos = content.length ∧
    ∃ entry, job.entry = some entry ∧ Holds cwd d (joinName job.base entry.name) inode content

theorem Open.delivers {content : Bytes} (h : Open env.os.cwd w.disk job content) {inode pos : ℕ}
    (hstream : job.dataStream = some (.writer inode pos)) (hdone : (inode, content) ∈ done) :
    Delivers done env job w.disk := by
  intro path hpath
  obtain ⟨-, entry, hentry, hholds⟩ := h inode pos hstream
  obtain ⟨entry', hentry', rfl⟩ := entryPath_eq hpath
  obtain rfl := Option.some.inj (hentry.symm.trans hentry')
  exact hholds.ripe hdone

variable (done) in
theorem writeAll_kept (closed : String) (data content : Bytes) (hlinks : NoLinks names w.disk)
    (hnamed : Named names job) (hopen : Open env.os.cwd w.disk job content) :
    Kept names done w.disk (writeAll env closed data job w).1.disk ∧
      ∃ stream, (writeAll env closed data job w).2.1 = { job with dataStream := stream } ∧
        ((writeAll env closed data job w).2.2 = none →
          Open env.os.cwd (writeAll env closed data job w).1.disk { job with dataStream := stream }
            (content ++ data)) := by
  unfold writeAll
  split
  · rename_i hstream
    exact ⟨.refl names done _, job.dataStream, rfl, fun hnone => by cases hnone⟩
  · rename_i hstream
    refine ⟨.refl names done _, job.dataStream, rfl, fun _ inode pos hwriter => ?_⟩
    rw [hstream] at hwriter
    cases hwriter
  · rename_i inode pos hstream
    obtain ⟨rfl, entry, hentry, q, f, hq, hget, hdata⟩ := hopen inode pos hstream
    have htemporary := temporary_of_resolve hlinks (Or.inl rfl) (hnamed.entry hentry) hq
    simp only
    refine ⟨.updateAt htemporary hget _, _, rfl, ?_⟩
    intro hnone j pos' hwriter
    obtain ⟨rfl, rfl⟩ := Stream.writer.inj (Option.some.inj hwriter)
    have hall : data.take (env.writeLimit.getD data.length) = data := by
      split at hnone
      · cases hnone
      · rename_i hlength
        refine List.take_of_length_le ?_
        rw [List.length_take] at hlength
        omega
    rw [hall]
    have hresolve : (w.disk.update inode (File.receive env.now content.length data)).resolve
        env.os.cwd false (joinName job.base entry.name ++ downloadSuffix) = .at q :=
      (w.disk.resolve_map _ _ _ _).trans hq
    refine ⟨by rw [List.length_append], entry, hentry, q,
      File.receive env.now content.length data f,
      hresolve, ?_, ?_⟩
    · rw [World.put, w.disk.get_update q q inode f _ hget, if_pos rfl]
    · rw [File.receive, hdata, overwrite_end]

def Reopens (block : Block) (job : Job) : Prop :=
  toIndex block.fileNum ≠ toIndex job.fileNum ∨ job.dataStream = none

instance (block : Block) (job : Job) : Decidable (Reopens block job) := by
  unfold Reopens
  infer_instance

def blockData (codecs : Codecs) (block : Block) : Bytes :=
  if block.compressed then codecs.decompress block.data else block.data

variable (done) in
/-- A block goes to the download that is open, or to a new one when the old one is complete. -/
theorem write_kept (codecs : Codecs) (block : Block) (content : Bytes)
    (hlinks : NoLinks names w.disk) (hnamed : Named names job)
    (hleaves : Reopens block job → Delivers done env job w.disk)
    (hopen : ¬ Reopens block job → Open env.os.cwd w.disk job content) :
    Kept names done w.disk (write env codecs block job w).1.disk ∧
      ((write env codecs block job w).2.1.id = job.id ∧
        (write env codecs block job w).2.1.base = job.base ∧
        (write env codecs block job w).2.1.files = job.files) ∧
      ((write env codecs block job w).2.2 = none →
        Open env.os.cwd (write env codecs block job w).1.disk (write env codecs block job w).2.1
          ((if Reopens block job then [] else content) ++ blockData codecs block)) := by
  unfold write
  split
  · exact ⟨.refl names done _, ⟨rfl, rfl, rfl⟩, fun hnone => by cases hnone⟩
  · split
    · exact ⟨.refl names done _, ⟨rfl, rfl, rfl⟩, fun hnone => by cases hnone⟩
    · rename_i entry hentry
      simp only
      generalize hopened : (if toIndex block.fileNum ≠ toIndex job.fileNum ∨ job.dataStream = none
        then _ else _) = opened
      have hbegun : Kept names done w.disk opened.1.disk ∧
          (opened.2.1.id = job.id ∧ opened.2.1.base = job.base ∧ opened.2.1.files = job.files) ∧
          (opened.2.2 = none → Open env.os.cwd opened.1.disk opened.2.1
            (if Reopens block job then [] else content)) := by
        rw [← hopened]
        split
        · rename_i hreopens
          obtain ⟨hmodified, -⟩ := modifyTime_kept done hlinks hnamed (hleaves hreopens)
          split
          · exact ⟨hmodified, ⟨rfl, rfl, rfl⟩, fun hnone => by cases hnone⟩
          · have hname := hnamed entry (List.mem_of_getElem? hentry)
            obtain ⟨hdownload, stream, hjob, hholds⟩ := openDownload_kept done env
              { job with fileNum := block.fileNum } (modifyTime env job w) codecs entry.name
              (hmodified.noLinks hlinks) hname
            rw [hjob]
            refine ⟨hmodified.trans hdownload, ⟨rfl, rfl, rfl⟩, fun hnone => ?_⟩
            obtain ⟨inode, rfl, hempty⟩ := hholds hnone
            have hreopens : Reopens block job := hreopens
            rw [if_pos hreopens]
            intro j pos hstream
            obtain ⟨rfl, rfl⟩ := Stream.writer.inj (Option.some.inj hstream)
            exact ⟨rfl, entry, hentry, hempty⟩
        · rename_i hgoes
          have hgoes : ¬ Reopens block job := hgoes
          refine ⟨.refl names done _, ⟨rfl, rfl, rfl⟩, fun _ => ?_⟩
          rw [if_neg hgoes]
          exact hopen hgoes
      obtain ⟨w', job', error⟩ := opened
      obtain ⟨hkept, hsame, hbegun⟩ := hbegun
      cases error with
      | some text => exact ⟨hkept, hsame, fun hnone => by cases hnone⟩
      | none =>
        have hnamed' : Named names job' := by
          intro e he
          rw [hsame.2.2] at he
          rw [hsame.2.1]
          exact hnamed e he
        obtain ⟨hwritten, stream, hjob, hall⟩ := writeAll_kept done
          (if block.compressed then "data stream is None" else "file is None")
          (blockData codecs block) _ (hkept.noLinks hlinks) hnamed' (hbegun rfl)
        simp only [blockData] at hwritten hjob hall
        simp only
        split
        · rename_i w'' job'' text heq
          rw [heq] at hwritten hjob
          simp only at hjob
          subst hjob
          exact ⟨hkept.trans hwritten, hsame, fun hnone => by cases hnone⟩
        · rename_i w'' job'' heq
          rw [heq] at hwritten hjob hall
          simp only at hjob
          subst hjob
          exact ⟨hkept.trans hwritten, hsame, fun _ => hall rfl⟩

end Delivery

section Scan

variable {names : List Name} {done : Completed} {env : ScanEnv} {job : Job} {w : World}

theorem quarantine_ripe {d : Disk File} {path : Path} (hlinks : NoLinks names d)
    (hname : lastSegment path ∈ names) (hripe : Ripe done env.os.cwd d path) :
    Kept names done d (markQuarantined env.toEnv (path ++ downloadSuffix) d) ∧
      ∀ q node, (markQuarantined env.toEnv (path ++ downloadSuffix) d).resolve env.os.cwd false
          (path ++ downloadSuffix) = .at q →
        (markQuarantined env.toEnv (path ++ downloadSuffix) d).get q = some node →
          ∃ inode f, node = .file inode f ∧ ((inode, f.data) ∈ done ∨ f.origin = .quarantined) := by
  unfold markQuarantined Disk.node
  split
  · rename_i inode f hnode
    cases hq : d.resolve env.os.cwd false (path ++ downloadSuffix) with
    | missing =>
      rw [hq] at hnode
      cases hnode
    | invalid =>
      rw [hq] at hnode
      cases hnode
    | «at» q =>
      rw [hq] at hnode
      refine ⟨.updateAt (temporary_of_resolve hlinks (Or.inl rfl) hname hq) hnode _, ?_⟩
      intro p node hp hget
      obtain rfl := Found.at.inj (((d.resolve_map _ _ _ _).symm.trans hp).symm.trans hq)
      rw [d.get_update p p inode f _ hnode, if_pos rfl] at hget
      exact ⟨inode, _, (Option.some.inj hget).symm, Or.inr rfl⟩
  · refine ⟨.refl names done d, ?_⟩
    intro q node hq hget
    obtain ⟨inode, f, heq, hdone⟩ := hripe q node hq hget
    exact ⟨inode, f, heq, Or.inl hdone⟩

theorem quarantine_kept (lib : Libraries) (download : CompletedDownload) (sha256 : List Char)
    (hpath : download.downloadPath = download.finalPath ++ downloadSuffix)
    (hlinks : NoLinks names w.disk) (hname : lastSegment download.finalPath ∈ names)
    (hripe : Ripe done env.os.cwd
      (w.disk.createParents env.os (quarantinePath lib env download sha256)) download.finalPath) :
    Kept names done w.disk (quarantine lib env download sha256 w).1.disk := by
  have hparents : Kept names done w.disk
      (w.disk.createParents env.os (quarantinePath lib env download sha256)) :=
    .createParents env.os _
  have hlinks' := hparents.noLinks hlinks
  obtain ⟨hmarked, hmoved⟩ := quarantine_ripe hlinks' hname hripe
  have hdigest : ∀ (d : Disk File), NoLinks names d →
      Kept names done d ((d.removeFile env.os (download.finalPath ++ digestSuffix)).getD d) :=
    fun d hd => .removeFile hd env.os (Or.inr rfl) hname
  unfold quarantine
  simp only [World.put_disk]
  split
  · rw [World.put_disk]
    exact hparents
  · rw [hpath]
    split
    · rename_i d hrename
      have hleft : Kept names done (w.disk.createParents env.os
          (quarantinePath lib env download sha256)) d := by
        refine hmarked.trans (.rename hrename ?_ hmoved)
        intro q hq
        exact temporary_of_resolve (hmarked.noLinks hlinks') (Or.inl rfl) hname hq
      simp only [World.removeFile_disk, World.put_disk]
      exact (hparents.trans hleft).trans (hdigest d (hleft.noLinks hlinks'))
    · split
      · rw [World.put_disk]
        exact hparents
      · split
        · rw [World.put_disk]
          exact hparents
        · rename_i d _ hcreate
          have hcopied : Kept names done _ d := .create hcreate (Or.inr rfl)
          split
          · rw [World.put_disk]
            exact hparents.trans hcopied
          · rename_i e hremove
            have hremoved : Kept names done d e := by
              have hgone : Kept names done d
                  ((d.removeFile env.os (download.finalPath ++ downloadSuffix)).getD d) :=
                .removeFile (hcopied.noLinks hlinks') env.os (Or.inl rfl) hname
              rwa [show d.removeFile env.os (download.finalPath ++ downloadSuffix) = some e from
                hremove] at hgone
            have hall := (hparents.trans hcopied).trans hremoved
            simp only [World.removeFile_disk, World.put_disk]
            exact hall.trans (hdigest e (hall.noLinks hlinks))

inductive Finished (names : List Name) (done : Completed) (env : Env) (next : Option Int32)
    (job : Job)
    (w : World) : World × Job × Except String Bool → Prop
  | unchanged : Finished names done env next job w (w, job, .ok false)
  | failed (w' : World) (job' : Job) (text : String) (hkept : Kept names done w.disk w'.disk) :
      Finished names done env next job w (w', job', .error text)
  | delivered (w' : World) (hkept : Kept names done w.disk w'.disk)
      (hdelivers : Delivers done env job.closeStream w'.disk) (hleft : next ≠ some job.fileNum) :
      Finished names done env next job w (w', job.closeStream, .ok true)

/-- What is scanned is complete, also when the directory of the quarantine was made. -/
structure Scannable (lib : Libraries) (done : Completed) (env : Env) (mode : ScanMode) (job : Job)
    (d : Disk File) : Prop where
  delivers : Delivers done env job d
  made : mode = .block → ∀ path name, job.entryPath env d = some path →
    Ripe done env.os.cwd (d.createParents env.os (join lib.quarantineDir name)) path

variable (done) in
theorem finishCompletedDownload_kept (lib : Libraries) (r : JobRegistry) (next : Option Int32)
    (hlinks : NoLinks names w.disk) (hnamed : Named names job)
    (hscans : next ≠ some job.fileNum → job.dataStream ≠ none →
      Scannable lib done env.toEnv (scanModeFor r (jobOwner job)) job w.disk) :
    Finished names done env.toEnv next job w (finishCompletedDownload lib env r next job w) := by
  unfold finishCompletedDownload
  simp only
  split
  · exact .unchanged
  · rename_i hscan
    rw [not_or] at hscan
    split
    · rename_i text hdownload
      exact .failed w job text (.refl names done _)
    · exact .unchanged
    · rename_i download hdownload
      obtain ⟨hstream, hentryPath, hpath⟩ := currentDownload_ok hdownload
      have hscannable := hscans hscan.2 hstream
      split
      · rename_i job' text hdrop
        exact .failed w job' text (.refl names done _)
      · rename_i job' hdrop
        obtain ⟨rfl, -⟩ := Prod.mk.inj hdrop
        have hdisk := boundedScanPipeline_disk lib env w download.downloadPath
          download.name
        generalize boundedScanPipeline lib env download.downloadPath download.name w = scan at hdisk
        obtain ⟨w', sha256, kind⟩ := scan
        simp only at hdisk ⊢
        rw [← hdisk] at hlinks hscannable hentryPath
        split
        · obtain ⟨hkept, hagain⟩ := modifyTime_kept done hlinks hnamed
            hscannable.delivers
          exact .delivered _ (hdisk ▸ hkept) hagain hscan.2
        · rename_i hdecision
          refine .failed _ _ _ ?_
          rw [← hdisk]
          refine quarantine_kept lib download sha256 hpath hlinks (hnamed.entryPath hentryPath) ?_
          refine hscannable.made ?_ _ _ hentryPath
          unfold scanDecision at hdecision
          split at hdecision
          · rename_i hblock
            exact hblock.1
          · cases hdecision

end Scan

/-- The manager with what was received for the open download, whether the download may hold
something else, and what was complete. -/
structure Watch where
  manager : Manager
  content : Bytes
  spoiled : Bool
  done : Completed

def watchStart (disk : Disk File) : Watch := ⟨start disk, [], false, []⟩

def openDownloads (content : Bytes) (job : Job) : Completed :=
  match job.dataStream with
  | some (.writer inode _) => [(inode, content)]
  | _ => []

def dataOf (d : Disk File) (inode : ℕ) : Bytes :=
  (d.entries.findSome? fun e =>
    match e.2 with
    | .file j f => if j = inode then some f.data else none
    | _ => none).getD []

/-- A block that begins another file completes the one before; if something fails on the way, the
job may still have the old file open. -/
def watchBlock (codecs : Codecs) (block : Block) (job : Job) (after : Manager)
    (w : Watch) : Watch :=
  let valid := (job.files[toIndex block.fileNum]?).isSome
  let failed := decide (after.sent ≠ w.manager.sent)
  { manager := after
    content :=
      if valid then (if Reopens block job then [] else w.content) ++ blockData codecs block
      else w.content
    spoiled := if valid then failed || (!decide (Reopens block job) && w.spoiled) else w.spoiled
    done :=
      if Reopens block job ∧ (valid = true ∨ isScanEnabledForJob w.manager.registry job = true) then
        w.done ++ openDownloads w.content job
      else w.done }

def watchConfirm (job : Job) (after : Manager) (job' : Job) (w : Watch) : Watch :=
  match job'.dataStream with
  | some (.writer inode pos) =>
    if job'.dataStream = job.dataStream then { w with manager := after }
    else
      { w with
        manager := after
        content := (dataOf after.world.disk inode).take pos
        spoiled := decide ((dataOf after.world.disk inode).length ≠ pos) }
  | _ => { w with manager := after }

def watch (codecs : Codecs) (message : Message) (after : Manager) (w : Watch) : Watch :=
  match message with
  | .writeBlock block =>
    match w.manager.getJob block.id with
    | some job => watchBlock codecs block job after w
    | none => { w with manager := after }
  | .writeDone id _ =>
    match w.manager.getJob id with
    | some job => { w with manager := after, done := w.done ++ openDownloads w.content job }
    | none => { w with manager := after }
  | .sendConfirm id _ _ =>
    match w.manager.getJob id, after.getJob id with
    | some job, some job' => watchConfirm job after job' w
    | _, _ => { w with manager := after }
  | _ => { w with manager := after }

def watchStep (lib : Libraries) (mode : ScanMode) (w : Watch) (event : ScanEnv × Message) :
    Option Watch :=
  some (watch lib.toCodecs event.2 (handleFs lib mode event.1 event.2 w.manager) w)

def Clear (env : Env) (job : Job) (d : Disk File) : Prop :=
  ∀ path, job.entryPath env d = some path →
    d.node env.os.cwd false (path ++ downloadSuffix) = none

/-- What the job leaves is all that was received: it has a download open that holds just this, or
nothing stands where it would be. A job that reads the final file can have it scanned when the
directory of the quarantine is there. -/
def MayLeave (lib : Libraries) (env : Env) (job : Job) (w : Watch) : Prop :=
  match job.dataStream with
  | some (.writer _ _) => w.spoiled = false
  | some .reader => Clear env job w.manager.world.disk ∧
      (scanModeFor w.manager.registry (jobOwner job) = .block → ∀ name,
        w.manager.world.disk.createParents env.os (join lib.quarantineDir name) =
          w.manager.world.disk)
  | none => Clear env job w.manager.world.disk

/-- Jobs come one after the other, for files with the names, and each leaves only what it
received. -/
def Guarded (lib : Libraries) (names : List Name) (cwd : Location) (w : Watch)
    (event : ScanEnv × Message) : Prop :=
  event.1.os.cwd = cwd ∧
    match event.2 with
    | .newWrite path _ _ files _ _ _ =>
      w.manager.writeJobs = [] ∧
        ∀ file ∈ files, lastSegment (joinName path file.name) ∈ names
    | .writeBlock block =>
      ∀ job, w.manager.getJob block.id = some job →
        (Reopens block job → MayLeave lib event.1.toEnv job w) ∧
          (¬ Reopens block job → job.dataStream ≠ some .reader → w.spoiled = false)
    | .writeDone id _ =>
      ∀ job, w.manager.getJob id = some job → MayLeave lib event.1.toEnv job w
    | .cancelWrite _ | .writeError _ _ _ | .checkDigest _ _ _ _ _ _ | .sendConfirm _ _ _ | .close =>
      True
    | .removeDir _ _ _ | .removeFile _ _ _ | .createDir _ _ | .rename _ _ _ => False

variable (lib : Libraries) (env : Env) (mode : ScanMode)

theorem watch_manager (codecs : Codecs) (message : Message) (after : Manager) (w : Watch) :
    (watch codecs message after w).manager = after := by
  unfold watch
  split
  · split <;> rfl
  · split <;> rfl
  · split
    · unfold watchConfirm
      split
      · split <;> rfl
      · rfl
    · rfl
  · rfl

theorem toIndex_injective (m n : Int32) (h : toIndex m = toIndex n) : m = n := by
  have hm := m.toInt_lt
  have hm' := m.le_toInt
  have hn := n.toInt_lt
  have hn' := n.le_toInt
  unfold toIndex at h
  apply Int32.toInt_inj.mp
  omega

theorem getJob_single {s : Manager} {job j : Job} {id : Int32} (hjobs : s.writeJobs = [job])
    (hget : s.getJob id = some j) : j = job ∧ s.position id = some 0 := by
  obtain ⟨i, hi, hat⟩ := getJob_eq hget
  rw [hjobs] at hat
  obtain ⟨hlt, heq⟩ := List.getElem?_eq_some_iff.mp hat
  have hzero : i = 0 := by simpa using hlt
  subst hzero
  exact ⟨heq.symm, hi⟩

/-- What happened to the files so far, and how the job stands if there is one. -/
structure Inv (names : List Name) (cwd : Location) (initial : Disk File) (w : Watch) : Prop where
  kept : Kept names w.done initial w.manager.world.disk
  jobs : ∀ job ∈ w.manager.writeJobs, w.manager.writeJobs = [job] ∧ Named names job ∧
    (w.spoiled = false → Open cwd w.manager.world.disk job w.content)

section Steps

variable {names : List Name} {cwd : Location} {initial : Disk File} {w : Watch}

theorem Inv.job (h : Inv names cwd initial w) {id : Int32} {job : Job}
    (hget : w.manager.getJob id = some job) :
    w.manager.writeJobs = [job] ∧ w.manager.position id = some 0 ∧ Named names job ∧
      (w.spoiled = false → Open cwd w.manager.world.disk job w.content) := by
  obtain ⟨i, -, hat⟩ := getJob_eq hget
  obtain ⟨hjobs, hnamed, hopen⟩ := h.jobs job (List.mem_of_getElem? hat)
  exact ⟨hjobs, (getJob_single hjobs hget).2, hnamed, hopen⟩

theorem Inv.idle {manager : Manager} {content : Bytes} {spoiled : Bool} {done : Completed}
    (h : Inv names cwd initial w) (hsub : w.done ⊆ done) (hjobs : manager.writeJobs = [])
    (hkept : Kept names done w.manager.world.disk manager.world.disk) :
    Inv names cwd initial ⟨manager, content, spoiled, done⟩ := by
  refine ⟨(h.kept.mono hsub).trans hkept, ?_⟩
  intro job hmem
  rw [hjobs] at hmem
  cases hmem

theorem Inv.busy {manager : Manager} {content : Bytes} {spoiled : Bool} {done : Completed}
    {job : Job}
    (h : Inv names cwd initial w) (hsub : w.done ⊆ done) (hjobs : manager.writeJobs = [job])
    (hkept : Kept names done w.manager.world.disk manager.world.disk) (hnamed : Named names job)
    (hopen : spoiled = false → Open cwd manager.world.disk job content) :
    Inv names cwd initial ⟨manager, content, spoiled, done⟩ := by
  refine ⟨(h.kept.mono hsub).trans hkept, ?_⟩
  intro other hmem
  rw [hjobs] at hmem
  obtain rfl := List.mem_singleton.mp hmem
  exact ⟨hjobs, hnamed, hopen⟩

theorem setJob_eq {s : Manager} {id : Int32} {job : Job} (hjobs : s.writeJobs = [job])
    (hposition : s.position id = some 0) (job' : Job) :
    s.setJob id job' = { s with writeJobs := [job'] } := by
  unfold Manager.setJob
  rw [hposition]
  simp [hjobs]

theorem removeJob_single {s : Manager} {id : Int32} {job : Job} (hjobs : s.writeJobs = [job])
    (hposition : s.position id = some 0) (job' : Job) :
    (s.removeJob id job').writeJobs = [] ∧ (s.removeJob id job').world = s.world := by
  unfold Manager.removeJob
  rw [hposition]
  simp [hjobs]

theorem inv_newWrite (path : Path) (id fileNum : Int32)
    (files : List FileEntry) (overwriteDetection : Bool) (totalSize : UInt64) (connId : Int32)
    (h : Inv names cwd initial w) (hidle : w.manager.writeJobs = [])
    (hfiles : ∀ file ∈ files, lastSegment (joinName path file.name) ∈ names) :
    Inv names cwd initial { w with
      manager := newWrite env mode path id fileNum files overwriteDetection totalSize connId
        w.manager } := by
  have hrefused : ∀ text, Inv names cwd initial { w with
      manager := w.manager.send (.error id text fileNum) } :=
    fun text => h.idle (List.Subset.refl _) hidle (.refl names _ _)
  have hone : ∀ job, w.manager.writeJobs ++ [job] = [job] := fun job => by
    rw [hidle, List.nil_append]
  unfold newWrite
  split
  · exact hrefused _
  · rename_i job hset
    obtain ⟨rfl, -⟩ := setFiles_eq hset
    simp only
    split
    · exact hrefused _
    · refine h.busy (List.Subset.refl _) (hone _) (.refl names _ _) hfiles ?_
      intro _ inode pos hstream
      cases hstream

theorem inv_cancelWrite (id : Int32) (h : Inv names cwd initial w)
    (hlinks : NoLinks names initial) :
    Inv names cwd initial { w with manager := cancelWrite env id w.manager } := by
  unfold cancelWrite
  split
  · exact h
  · rename_i job hget
    obtain ⟨hjobs, hposition, hnamed, -⟩ := h.job hget
    obtain ⟨hnone, hworld⟩ := removeJob_single hjobs hposition job
    refine h.idle (List.Subset.refl _) hnone ?_
    have hnolinks := h.kept.noLinks hlinks
    simp only [hworld]
    unfold removeDownloadFile
    split
    · rename_i path hpath
      have hname := hnamed.entryPath hpath
      have hremoved : Kept names w.done w.manager.world.disk
          (w.manager.world.removeFile env (path ++ downloadSuffix)).disk :=
        .removeFile hnolinks env.os (Or.inl rfl) hname
      exact hremoved.trans (.removeFile (hremoved.noLinks hnolinks) env.os (Or.inr rfl) hname)
    · exact .refl names _ _

theorem inv_writeError (id fileNum : Int32) (err : String) (h : Inv names cwd initial w) :
    Inv names cwd initial { w with manager := writeError id fileNum err w.manager } := by
  unfold writeError
  split
  · exact h
  · rename_i job hget
    obtain ⟨hjobs, hposition, -, -⟩ := h.job hget
    obtain ⟨hnone, hworld⟩ := removeJob_single hjobs hposition job
    refine h.idle (List.Subset.refl _) hnone ?_
    simp only [Manager.send, hworld]
    exact .refl names _ _

theorem inv_checkDigest (id fileNum : Int32)
    (fileSize lastModified : UInt64) (isUpload isResume : Bool) (h : Inv names cwd initial w) :
    Inv names cwd initial { w with
      manager := checkDigest lib env id fileNum fileSize lastModified isUpload isResume
          w.manager } := by
  unfold checkDigest
  split
  · exact h
  · rename_i job hget
    obtain ⟨hjobs, hposition, hnamed, hopen⟩ := h.job hget
    split
    · exact h
    · simp only
      split
      · exact ⟨h.kept, h.jobs⟩
      · have hset : ∀ reply, Inv names cwd initial { w with
            manager := (w.manager.setJob id (job.setDigest fileSize lastModified)).send
                reply } := by
          intro reply
          rw [setJob_eq hjobs hposition]
          exact h.busy (List.Subset.refl _) rfl (.refl names _ _) hnamed hopen
        split <;> exact hset _

theorem ripe_of_clear {env : Env} {done : Completed} {d : Disk File} {path : Path}
    (h : d.node env.os.cwd false (path ++ downloadSuffix) = none) :
    Ripe done env.os.cwd d path := by
  intro q node hq hget
  unfold Disk.node at h
  rw [hq] at h
  exact absurd (hget.symm.trans h) (by simp)

theorem Holds.createParents {d : Disk File} {path : Path} {inode : ℕ} {content : Bytes} {os : Os}
    (h : Holds cwd d path inode content) (other : Path) :
    Holds cwd (d.createParents os other) path inode content := by
  obtain ⟨q, f, hq, hget, hdata⟩ := h
  have hstays : ∀ p node, d.get p = some node →
      (d.createParents os other).get p = some node := by
    intro p node hp
    rcases makeDirs_get os (if isAbsolute other then [] else os.cwd) d []
      (components other).dropLast p with heq | ⟨hnone, -⟩
    · exact heq.trans hp
    · rw [hnone] at hp
      cases hp
  exact ⟨q, f, d.resolve_within _ ⟨fun p hp => hstays p _ hp, fun p target hp =>
    hstays p _ hp⟩ _ _ _
    q hq (Or.inl ⟨inode, f, hstays q _ hget⟩), hstays q _ hget, hdata⟩

section Leaves

variable {lib : Libraries} {env : Env} {job : Job}
  (hopen : w.spoiled = false → Open env.os.cwd w.manager.world.disk job w.content)
  (hleave : MayLeave lib env job w)

include hopen hleave

theorem MayLeave.delivers :
    Delivers (w.done ++ openDownloads w.content job) env job w.manager.world.disk := by
  unfold MayLeave at hleave
  split at hleave
  · rename_i inode pos hstream
    refine (hopen hleave).delivers hstream (List.mem_append_right _ ?_)
    simp only [openDownloads, hstream, List.mem_singleton]
  · exact fun path hpath => ripe_of_clear (hleave.1 path hpath)
  · exact fun path hpath => ripe_of_clear (hleave path hpath)

theorem MayLeave.scannable (hstream : job.dataStream ≠ none) :
    Scannable lib (w.done ++ openDownloads w.content job) env
      (scanModeFor w.manager.registry (jobOwner job)) job w.manager.world.disk := by
  refine ⟨MayLeave.delivers hopen hleave, ?_⟩
  intro hblock path name hpath
  unfold MayLeave at hleave
  split at hleave
  · rename_i inode pos hwriter
    obtain ⟨-, entry, hentry, hholds⟩ := hopen hleave inode pos hwriter
    obtain ⟨entry', hentry', rfl⟩ := entryPath_eq hpath
    obtain rfl := Option.some.inj (hentry.symm.trans hentry')
    refine (hholds.createParents _).ripe (List.mem_append_right _ ?_)
    simp only [openDownloads, hwriter, List.mem_singleton]
  · rw [hleave.2 hblock name]
    exact ripe_of_clear (hleave.1 path hpath)
  · rename_i hnone
    exact absurd hnone hstream

end Leaves

theorem inv_writeDone (env : ScanEnv) (id fileNum : Int32)
    (h : Inv names cwd initial w) (hlinks : NoLinks names initial) (hcwd : env.os.cwd = cwd)
    (hguard : ∀ job, w.manager.getJob id = some job → MayLeave lib env.toEnv job w) :
    Inv names cwd initial
      (watch lib.toCodecs (.writeDone id fileNum) (writeDone lib env id fileNum w.manager) w) := by
  unfold writeDone
  cases hget : w.manager.getJob id with
  | none =>
    simp only [watch, hget]
    exact h
  | some job =>
    simp only [watch, hget]
    obtain ⟨hjobs, hposition, hnamed, hopen⟩ := h.job hget
    rw [← hcwd] at hopen
    obtain ⟨hnone, -⟩ := removeJob_single hjobs hposition job
    have hnolinks := h.kept.noLinks hlinks
    have hleave := hguard job hget
    have hdelivers := MayLeave.delivers hopen hleave
    have hsub : w.done ⊆ w.done ++ openDownloads w.content job := List.subset_append_left _ _
    split
    · exact h.idle hsub hnone (modifyTime_kept _ hnolinks hnamed hdelivers).1
    · have hfinish := finishCompletedDownload_kept (w.done ++ openDownloads w.content job) lib
        w.manager.registry none hnolinks hnamed fun _ hstream =>
          MayLeave.scannable hopen hleave hstream
      generalize finishCompletedDownload lib env w.manager.registry none job w.manager.world =
        result
        at hfinish
      cases hfinish with
      | unchanged => exact h.idle hsub hnone (modifyTime_kept _ hnolinks hnamed hdelivers).1
      | failed w' job' text hkept => exact h.idle hsub hnone hkept
      | delivered w' hkept => exact h.idle hsub hnone hkept

theorem write_invalid {env : Env} {codecs : Codecs} {block : Block} {job : Job} {world : World}
    (h : job.files[toIndex block.fileNum]? = none) :
    ∃ text, write env codecs block job world = (world, job, some text) := by
  unfold write
  split
  · exact ⟨_, rfl⟩
  · simp only [h]
    exact ⟨_, rfl⟩

def doneAt (block : Block) (job : Job) (w : Watch) : Completed :=
  if Reopens block job then w.done ++ openDownloads w.content job else w.done

theorem done_subset_doneAt (block : Block) (job : Job)
    (w : Watch) : w.done ⊆ doneAt block job w := by
  unfold doneAt
  split
  · exact List.subset_append_left _ _
  · exact List.Subset.refl _

section Block

variable {lib : Libraries} {env : ScanEnv} {block : Block} {job : Job}

theorem Inv.blockWritten (h : Inv names cwd initial w) {entry : FileEntry}
    (hvalid : job.files[toIndex block.fileNum]? = some entry) {world : World}
    {job' : Job} {sent : List Reply} {registry : JobRegistry}
    (hkept : Kept names (doneAt block job w) w.manager.world.disk world.disk)
    (hnamed : Named names job')
    (hopen : sent = w.manager.sent → (¬ Reopens block job → w.spoiled = false) →
      Open cwd world.disk job'
        ((if Reopens block job then [] else w.content) ++ blockData lib.toCodecs block)) :
    Inv names cwd initial
      (watchBlock lib.toCodecs block job ⟨world, [job'], registry, sent⟩ w) := by
  unfold watchBlock
  simp only [hvalid, Option.isSome_some, if_true, true_or, and_true]
  refine h.busy (done_subset_doneAt block job w) rfl hkept hnamed ?_
  intro hspoiled
  rw [Bool.or_eq_false_iff, Bool.and_eq_false_iff, decide_eq_false_iff_not, not_not] at hspoiled
  refine hopen hspoiled.1 ?_
  intro hgoes
  rcases hspoiled.2 with hreopens | hclean
  · simp [hgoes] at hreopens
  · exact hclean

theorem Inv.blockEnded (h : Inv names cwd initial w) {after : Manager}
    (henabled : isScanEnabledForJob w.manager.registry job = true) (hjobs : after.writeJobs = [])
    (hkept : Kept names (doneAt block job w) w.manager.world.disk after.world.disk) :
    Inv names cwd initial (watchBlock lib.toCodecs block job after w) := by
  unfold watchBlock
  simp only [henabled, or_true, and_true]
  exact h.idle (done_subset_doneAt block job w) hjobs hkept

end Block

theorem named_of_same {job job' : Job} (hnamed : Named names job) (hbase : job'.base = job.base)
    (hfiles : job'.files = job.files) : Named names job' := by
  intro entry hentry
  rw [hfiles] at hentry
  rw [hbase]
  exact hnamed entry hentry

def afterWrite (s : Manager) (block : Block) : World × Job × Option String → Manager
  | (w, job, none) => { s with world := w }.setJob block.id job
  | (w, job, some text) =>
    ({ s with world := w }.removeJob block.id job).send (.error block.id text block.fileNum)

theorem inv_writeBlock (env : ScanEnv) (block : Block)
    (h : Inv names cwd initial w) (hlinks : NoLinks names initial) (hcwd : env.os.cwd = cwd)
    (hguard : ∀ job, w.manager.getJob block.id = some job →
      (Reopens block job → MayLeave lib env.toEnv job w) ∧
        (¬ Reopens block job → job.dataStream ≠ some .reader → w.spoiled = false)) :
    Inv names cwd initial
      (watch lib.toCodecs (.writeBlock block) (writeBlock lib env block w.manager) w) := by
  unfold writeBlock
  cases hget : w.manager.getJob block.id with
  | none =>
    simp only [watch, hget]
    exact h
  | some job =>
    simp only [watch, hget]
    obtain ⟨hjobs, hposition, hnamed, hopen⟩ := h.job hget
    obtain ⟨hleaves, hgoesOn⟩ := hguard job hget
    rw [← hcwd] at hopen
    have hnolinks := h.kept.noLinks hlinks
    have hdelivers : Reopens block job →
        Delivers (doneAt block job w) env.toEnv job w.manager.world.disk := by
      intro hreopens
      rw [doneAt, if_pos hreopens]
      exact MayLeave.delivers hopen (hleaves hreopens)
    have hstays : ¬ Reopens block job → Open env.os.cwd w.manager.world.disk job w.content := by
      intro hgoes inode pos hstream
      refine hopen (hgoesOn hgoes ?_) inode pos hstream
      rw [hstream]
      simp
    split
    · rename_i hoff
      have hdisabled : isScanEnabledForJob w.manager.registry job = false := by simpa using hoff
      cases hvalid : job.files[toIndex block.fileNum]? with
      | none =>
        obtain ⟨text, hinvalid⟩ : ∃ text, write env.toEnv lib.toCodecs block job w.manager.world =
            (w.manager.world, job, some text) := write_invalid hvalid
        simp only [hinvalid, setJob_eq (s := { w.manager with
          world := w.manager.world }) hjobs hposition]
        unfold watchBlock
        simp only [hvalid, hdisabled, Option.isSome_none, Bool.false_eq_true, or_self, and_false,
          if_false]
        exact h.busy (List.Subset.refl _) rfl (.refl names _ _) hnamed (hcwd ▸ hopen)
      | some entry =>
        obtain ⟨hkept, ⟨-, hbase, hfiles⟩, hwritten⟩ := write_kept _ lib.toCodecs block w.content
          hnolinks hnamed hdelivers hstays
        split
        · rename_i w' job' heq
          rw [heq] at hkept hbase hfiles hwritten
          rw [setJob_eq (s := { w.manager with world := w' }) hjobs hposition]
          refine h.blockWritten hvalid hkept (named_of_same hnamed hbase hfiles) ?_
          exact fun _ _ => hcwd ▸ hwritten rfl
        · rename_i w' job' text heq
          rw [heq] at hkept hbase hfiles
          rw [setJob_eq (s := { w.manager with world := w' }) hjobs hposition]
          refine h.blockWritten hvalid hkept (named_of_same hnamed hbase hfiles) ?_
          intro hsent
          simp at hsent
    · rename_i hscan
      have henabled : isScanEnabledForJob w.manager.registry job = true := by simpa using hscan
      have hended : ∀ (world : World) (job' : Job) (reply : Reply),
          Kept names (doneAt block job w) w.manager.world.disk world.disk →
          Inv names cwd initial (watchBlock lib.toCodecs block job
            (({ w.manager with world := world }.removeJob block.id job').send reply) w) := by
        intro world job' reply hkept
        obtain ⟨hnone, hworld⟩ :=
          removeJob_single (s := { w.manager with world := world }) hjobs hposition job'
        refine h.blockEnded henabled hnone ?_
        simp only [Manager.send, hworld]
        exact hkept
      have hwritten : ∀ (j : Job) (world : World), j.base = job.base → j.files = job.files →
          Kept names (doneAt block job w) w.manager.world.disk world.disk →
          (Reopens block j → Delivers (doneAt block job w) env.toEnv j world.disk) →
          (¬ Reopens block j → Open env.os.cwd world.disk j w.content) →
          (Reopens block j ↔ Reopens block job) →
          Inv names cwd initial (watchBlock lib.toCodecs block job
            (afterWrite w.manager block (write env.toEnv lib.toCodecs block j world)) w) := by
        intro j world hjbase hjfiles hworld hleave hstay hsame
        unfold afterWrite
        obtain ⟨hkept, ⟨-, hbase, hfiles⟩, hopened⟩ := write_kept _ lib.toCodecs block w.content
          (hworld.noLinks hnolinks) (named_of_same hnamed hjbase hjfiles) hleave hstay
        split
        · rename_i w' job' heq
          rw [heq] at hkept hbase hfiles hopened
          obtain ⟨entry, hvalid⟩ : ∃ entry, job.files[toIndex block.fileNum]? = some entry := by
            cases hvalid : job.files[toIndex block.fileNum]? with
            | some entry => exact ⟨entry, rfl⟩
            | none =>
              rw [← hjfiles] at hvalid
              obtain ⟨text, hinvalid⟩ : ∃ text, write env.toEnv lib.toCodecs block j world =
                  (world, j, some text) := write_invalid hvalid
              rw [hinvalid] at heq
              cases heq
          rw [setJob_eq (s := { w.manager with world := w' }) hjobs hposition]
          refine h.blockWritten hvalid (hworld.trans hkept)
            (named_of_same hnamed (hbase.trans hjbase) (hfiles.trans hjfiles)) ?_
          intro _ _
          have hnow := hopened rfl
          simp only [hsame] at hnow
          exact hcwd ▸ hnow
        · rename_i w' job' text heq
          rw [heq] at hkept
          exact hended w' job' _ (hworld.trans hkept)
      have hreopens : some block.fileNum ≠ some job.fileNum → Reopens block job :=
        fun hnext => Or.inl fun heq => hnext (congrArg some (toIndex_injective _ _ heq))
      have hfinish : Finished names (doneAt block job w) env.toEnv (some block.fileNum) job
          w.manager.world (finishCompletedDownload lib env w.manager.registry
            (some block.fileNum) job
            w.manager.world) := by
        refine finishCompletedDownload_kept _ lib _ _ hnolinks hnamed ?_
        intro hnext hstream
        rw [doneAt, if_pos (hreopens hnext)]
        exact MayLeave.scannable hopen (hleaves (hreopens hnext)) hstream
      generalize finishCompletedDownload lib env w.manager.registry (some block.fileNum) job
        w.manager.world = result at hfinish
      cases hfinish with
      | unchanged => exact hwritten job _ rfl rfl (.refl names _ _) hdelivers hstays Iff.rfl
      | failed w' job' text hkept => exact hended w' job _ hkept
      | delivered w' hkept hagain hleft =>
        have hcloses : Reopens block job.closeStream := Or.inr rfl
        exact hwritten job.closeStream w' rfl rfl hkept (fun _ => hagain)
          (fun hgoes => absurd hcloses hgoes) ⟨fun _ => hreopens hleft, fun _ => hcloses⟩

theorem dataOf_eq {d : Disk File} {q : Location} {inode : ℕ} {f : File}
    (hget : d.get q = some (.file inode f)) : dataOf d inode = f.data := by
  have hmem := d.mem_of_get_file q inode f hget
  unfold dataOf
  cases hfind : d.entries.findSome? fun e =>
      match e.2 with
      | .file j g => if j = inode then some g.data else none
      | _ => none with
  | none =>
    have hnone := List.findSome?_eq_none_iff.mp hfind _ hmem
    simp at hnone
  | some data =>
    obtain ⟨⟨p, node⟩, hentry, hsome⟩ := List.exists_of_findSome?_eq_some hfind
    cases node with
    | dir => cases hsome
    | link target => cases hsome
    | file j g =>
      simp only at hsome
      split at hsome
      · rename_i hj
        subst hj
        obtain ⟨-, rfl⟩ := d.file_unique p q j g f hentry hmem
        exact (Option.some.inj hsome).symm
      · cases hsome

theorem confirm_stream (d : Disk File) (fileNum : Int32) (answer : Option Confirm) (job : Job) :
    ((confirm env d fileNum answer job).base = job.base ∧
      (confirm env d fileNum answer job).files = job.files) ∧
    ((confirm env d fileNum answer job).dataStream = none ∨
      (confirm env d fileNum answer job).dataStream = some .reader ∨
      (confirm env d fileNum answer job).fileNum = job.fileNum ∧
        ((confirm env d fileNum answer job).dataStream = job.dataStream ∨
          ∃ entry inode pos f, job.entry = some entry ∧
            (confirm env d fileNum answer job).dataStream = some (.writer inode pos) ∧
            d.openFile env.os (joinName job.base entry.name ++ downloadSuffix) =
                some (inode, f))) := by
  unfold confirm
  split
  · exact ⟨⟨rfl, rfl⟩, Or.inr (Or.inr ⟨rfl, Or.inl rfl⟩)⟩
  · split
    · exact ⟨⟨rfl, rfl⟩, Or.inl rfl⟩
    · exact ⟨⟨rfl, rfl⟩, Or.inr (Or.inr ⟨rfl, Or.inl rfl⟩)⟩
    · split
      · unfold setStreamOffset
        split
        · exact ⟨⟨rfl, rfl⟩, Or.inr (Or.inr ⟨rfl, Or.inl rfl⟩)⟩
        · rename_i path hpath
          obtain ⟨entry, hentry, rfl⟩ := entryPath_eq hpath
          simp only
          split
          · split
            · rename_i inode f hopen
              exact ⟨⟨rfl, rfl⟩, Or.inr (Or.inr ⟨rfl, Or.inr ⟨entry, inode, _, f, hentry,
                rfl, hopen⟩⟩)⟩
            · exact ⟨⟨rfl, rfl⟩, Or.inr (Or.inr ⟨rfl, Or.inl rfl⟩)⟩
          · split
            · split
              · exact ⟨⟨rfl, rfl⟩, Or.inr (Or.inl rfl)⟩
              · exact ⟨⟨rfl, rfl⟩, Or.inr (Or.inr ⟨rfl, Or.inl rfl⟩)⟩
            · exact ⟨⟨rfl, rfl⟩, Or.inr (Or.inr ⟨rfl, Or.inl rfl⟩)⟩
      · exact ⟨⟨rfl, rfl⟩, Or.inr (Or.inr ⟨rfl, Or.inl rfl⟩)⟩
    · exact ⟨⟨rfl, rfl⟩, Or.inr (Or.inr ⟨rfl, Or.inl rfl⟩)⟩

/-- A job that is found by its id is found again after a change that keeps the id. -/
theorem getJob_again {s : Manager} {id : Int32} {job job' : Job} (hjobs : s.writeJobs = [job])
    (hget : s.getJob id = some job) (hid : job'.id = job.id) :
    Manager.getJob { s with writeJobs := [job'] } id = some job' := by
  obtain ⟨-, hposition⟩ := getJob_single hjobs hget
  unfold Manager.position at hposition
  rw [hjobs] at hposition
  have hmine : job.id = id := by
    by_contra hne
    simp [List.findIdx?_cons, hne] at hposition
  simp [Manager.getJob, Manager.position, List.findIdx?_cons, hid, hmine]

theorem inv_sendConfirm (id fileNum : Int32) (answer : Option Confirm)
    (h : Inv names cwd initial w) (hlinks : NoLinks names initial) (hcwd : env.os.cwd = cwd) :
    Inv names cwd initial
      (watch lib.toCodecs (.sendConfirm id fileNum answer)
        (sendConfirm env id fileNum answer w.manager)
        w) := by
  unfold sendConfirm
  cases hget : w.manager.getJob id with
  | none =>
    simp only [watch, hget]
    exact h
  | some job =>
    obtain ⟨hjobs, hposition, hnamed, hopen⟩ := h.job hget
    obtain ⟨⟨hbase, hfiles⟩, hstream⟩ := confirm_stream env w.manager.world.disk fileNum answer job
    have hid := congrArg JobOwner.jobId (sameRequest_confirm env w.manager.world.disk fileNum
        answer job).owner
    simp only [watch, hget, setJob_eq hjobs hposition]
    generalize confirm env w.manager.world.disk fileNum answer job = job' at *
    simp only [getJob_again hjobs hget hid]
    have hnamed' := named_of_same hnamed hbase hfiles
    unfold watchConfirm
    split
    · rename_i inode pos hwriter
      rcases hstream with hnone | hreader | ⟨hfileNum, hstream⟩
      · rw [hwriter] at hnone
        cases hnone
      · rw [hwriter] at hreader
        cases hreader
      · have hentry : job'.entry = job.entry := by rw [Job.entry, Job.entry, hfileNum, hfiles]
        split
        · rename_i hsame
          refine h.busy (List.Subset.refl _) rfl (.refl names _ _) hnamed' ?_
          intro hclean j p hnow
          rw [hsame] at hnow
          rw [hentry, hbase]
          exact hopen hclean j p hnow
        · rename_i hne
          refine h.busy (List.Subset.refl _) rfl (.refl names _ _) hnamed' ?_
          intro hclean j p hnow
          rw [hwriter] at hnow
          obtain ⟨rfl, rfl⟩ := Stream.writer.inj (Option.some.inj hnow)
          rcases hstream with hsame | ⟨entry, inode', pos', f, hsome, hwriter', hopened⟩
          · exact absurd hsame hne
          · rw [hwriter] at hwriter'
            obtain ⟨rfl, rfl⟩ := Stream.writer.inj (Option.some.inj hwriter')
            obtain ⟨q, hq, hfile⟩ := Disk.openFile_eq hopened
            rw [resolve_nofollow (h.kept.noLinks hlinks) (Or.inl rfl) (hnamed.entry hsome),
              hcwd] at hq
            rw [decide_eq_false_iff_not, not_not, dataOf_eq hfile] at hclean
            rw [dataOf_eq hfile, hbase, hentry]
            refine ⟨by rw [List.length_take]; omega, entry, hsome, q, f, hq, hfile, ?_⟩
            exact (List.take_of_length_le (by omega)).symm
    · rename_i hother
      refine h.busy (List.Subset.refl _) rfl (.refl names _ _) hnamed' ?_
      intro _ j p hnow
      exact absurd hnow (hother j p)

theorem inv_step (hlinks : NoLinks names initial) (w t : Watch)
    (event : ScanEnv × Message) (hguard : Guarded lib names cwd w event)
    (h : Inv names cwd initial w) (hstep : watchStep lib mode w event = some t) :
    Inv names cwd initial t := by
  obtain rfl := Option.some.inj hstep
  obtain ⟨env, message⟩ := event
  obtain ⟨hcwd, hguard⟩ := hguard
  cases message with
  | removeDir path id recursive => exact hguard.elim
  | removeFile path id fileNum => exact hguard.elim
  | createDir path id => exact hguard.elim
  | newWrite path id fileNum files overwriteDetection totalSize connId =>
    exact inv_newWrite env.toEnv mode path id fileNum files overwriteDetection totalSize connId h
      hguard.1 hguard.2
  | cancelWrite id => exact inv_cancelWrite env.toEnv id h hlinks
  | writeDone id fileNum => exact inv_writeDone lib env id fileNum h hlinks hcwd hguard
  | writeError id fileNum err => exact inv_writeError id fileNum err h
  | writeBlock block => exact inv_writeBlock lib env block h hlinks hcwd hguard
  | checkDigest id fileNum fileSize lastModified isUpload isResume =>
    exact inv_checkDigest lib env.toEnv id fileNum fileSize lastModified isUpload isResume h
  | sendConfirm id fileNum answer =>
    exact inv_sendConfirm lib env.toEnv id fileNum answer h hlinks hcwd
  | rename path newName id => exact hguard.elim
  | close => exact h.idle (List.Subset.refl _) rfl (.refl names _ _)

end Steps

theorem exec_manager (w t : Watch)
    (events : List (ScanEnv × Message)) (hexec : Runs.exec (watchStep lib mode) w events = some t) :
    Runs.exec (step lib mode) w.manager events = some t.manager := by
  induction events generalizing w with
  | nil =>
    obtain rfl : w = t := by simpa using hexec
    exact Runs.exec_nil _ _
  | cons event events ih =>
    obtain ⟨u, hu, hrest⟩ := (Runs.exec_cons _ _ _ _ _).mp hexec
    refine (Runs.exec_cons _ _ _ _ _).mpr ⟨u.manager, ?_, ih u hrest⟩
    obtain rfl := Option.some.inj hu
    rw [watch_manager]
    rfl

/-- In every run whose messages all meet the guard, whatever was on the disk before, downloads of
earlier jobs included: at every place but those of downloads and digests, a file stays or is
replaced by what was complete. No link has the place of a download or a digest at the start. -/
theorem existing_files_kept (lib : Libraries) (mode : ScanMode) (names : List Name) (cwd : Location)
    (disk : Disk File) (hlinks : NoLinks names disk) (events : List (ScanEnv × Message)) (w : Watch)
    (hmeets : Runs.Meets (Guarded lib names cwd) (watchStep lib mode) (watchStart disk) events)
    (hexec : Runs.exec (watchStep lib mode) (watchStart disk) events = some w) :
    Runs.exec (step lib mode) (start disk) events = some w.manager ∧
      ∀ p, ¬ Temporary names p → Change w.done (disk.get p) (w.manager.world.disk.get p) := by
  have hstart : Inv names cwd disk (watchStart disk) :=
    ⟨.refl names _ disk, fun job hjob => by cases hjob⟩
  exact ⟨exec_manager lib mode (watchStart disk) w events hexec,
    (Runs.invariant_of_meets (Guarded lib names cwd) (watchStep lib mode) (Inv names cwd disk)
      (fun w event t hguard h hstep => inv_step lib mode hlinks w t event hguard h hstep)
      (watchStart disk) w events hstart hmeets hexec).kept.change⟩

def oldDisk : Disk File := emptyDisk.add ["f".toList] ⟨[9], 0, .host⟩

/-- A job ends early; another one takes up its download where it ended, and ends. -/
def resumedTransfer : List (ScanEnv × Message) :=
  [sampleNewWrite, sampleWriteBlock [66], (sampleEnv, .writeError 1 0 ""), sampleNewWrite,
    (sampleEnv, .sendConfirm 1 0 (some (.offsetBlk 1))), sampleWriteBlock [67],
    (sampleEnv, .writeDone 1 0)]

def restartedTransfer : List (ScanEnv × Message) :=
  [sampleNewWrite, sampleWriteBlock [66], (sampleEnv, .writeError 1 0 ""), sampleNewWrite,
    sampleWriteBlock [67]]

def afterTransfer (events : List (ScanEnv × Message)) : Option (Completed × Option (Node File)) :=
  (Runs.exec (watchStep sampleLibraries .off) (watchStart oldDisk) events).map fun w =>
    (w.done, w.manager.world.disk.get ["f".toList])

theorem noLinks_oldDisk : NoLinks ["f".toList] oldDisk := by
  intro p target _ hget
  unfold oldDisk at hget
  rw [Disk.get_add _ _ _ _ (by simp)] at hget
  split at hget
  · cases hget
  · have hmem := Disk.mem_of_get _ p _ (by rintro rfl; cases hget) hget
    cases hmem

theorem mayLeave_of_clean {job : Job} {w : Watch}
    (hclean : w.spoiled = false) (hwrites : ∃ inode pos,
    job.dataStream = some (.writer inode pos)) :
    MayLeave lib env job w := by
  obtain ⟨inode, pos, hstream⟩ := hwrites
  unfold MayLeave
  rw [hstream]
  exact hclean

def isWriter (job : Job) : Bool :=
  match job.dataStream with
  | some (.writer _ _) => true
  | _ => false

theorem exists_writer {job : Job} (h : isWriter job = true) :
    ∃ inode pos, job.dataStream = some (.writer inode pos) := by
  unfold isWriter at h
  split at h
  · rename_i inode pos hstream
    exact ⟨inode, pos, hstream⟩
  · cases h

/-- The run meets the guard: nothing stands in the way of the first download, and the second job
leaves just what was received. -/
theorem resumedTransfer_meets :
    Runs.Meets (Guarded sampleLibraries ["f".toList] []) (watchStep sampleLibraries .off)
      (watchStart oldDisk) resumedTransfer := by
  refine ⟨⟨rfl, rfl, by decide⟩, fun s₁ h₁ => ⟨⟨rfl, ?_⟩, fun s₂ h₂ => ⟨⟨rfl, trivial⟩,
    fun s₃ h₃ => ⟨⟨rfl, ?_, by decide⟩, fun s₄ h₄ => ⟨⟨rfl, trivial⟩,
      fun s₅ h₅ => ⟨⟨rfl, ?_⟩,
    fun s₆ h₆ => ⟨⟨rfl, ?_⟩, fun _ _ => trivial⟩⟩⟩⟩⟩⟩⟩
  all_goals obtain rfl := Option.some.inj h₁
  · intro job hjob
    have hget : (watch sampleLibraries.toCodecs sampleNewWrite.2 (handleFs sampleLibraries .off
        sampleEnv sampleNewWrite.2 (start oldDisk)) (watchStart oldDisk)).manager.getJob 1 =
          some sampleJob := by decide
    obtain rfl : sampleJob = job := Option.some.inj (hget.symm.trans hjob)
    refine ⟨fun _ path hpath => ?_, fun hgoes => absurd (Or.inr rfl) hgoes⟩
    have hentry : sampleJob.entryPath sampleEnv.toEnv oldDisk =
        some "/f".toList := by decide
    obtain rfl := Option.some.inj (hentry.symm.trans hpath)
    decide
  all_goals obtain rfl := Option.some.inj h₂
  all_goals obtain rfl := Option.some.inj h₃
  · decide
  all_goals obtain rfl := Option.some.inj h₄
  · intro job hjob
    have hopen : s₅.spoiled = false ∧ (s₅.manager.getJob 1).all isWriter = true := by
      obtain rfl := Option.some.inj h₅
      decide
    have hwriter : isWriter job = true := by simpa [hjob] using hopen.2
    exact ⟨fun _ => mayLeave_of_clean _ _ hopen.1 (exists_writer hwriter), fun _ _ => hopen.1⟩
  · intro job hjob
    have hopen : s₆.spoiled = false ∧ (s₆.manager.getJob 1).all isWriter = true := by
      obtain rfl := Option.some.inj h₅
      obtain rfl := Option.some.inj h₆
      decide
    have hwriter : isWriter job = true := by simpa [hjob] using hopen.2
    exact mayLeave_of_clean _ _ hopen.1 (exists_writer hwriter)

/-- The file is replaced by what two jobs received, the second one from where the first ended. -/
theorem existing_files_kept_sample :
    afterTransfer resumedTransfer = some ([(1, [66, 67])],
    some (.file 1 ⟨[66, 67], 0, .received⟩)) ∧
      ∀ w, Runs.exec (watchStep sampleLibraries .off)
        (watchStart oldDisk) resumedTransfer = some w →
        Runs.exec (step sampleLibraries .off) (start oldDisk) resumedTransfer = some w.manager ∧
          ∀ p, ¬ Temporary ["f".toList] p →
            Change w.done (oldDisk.get p) (w.manager.world.disk.get p) :=
  ⟨by decide, fun w hexec => existing_files_kept sampleLibraries .off ["f".toList]
    [] oldDisk
    noLinks_oldDisk resumedTransfer w resumedTransfer_meets hexec⟩

/-- The first block of the second job gives the file what the first job left, which nothing
completed. -/
theorem leftover_replaces_file :
    ∃ w, Runs.exec (watchStep sampleLibraries .off) (watchStart oldDisk) restartedTransfer =
    some w ∧
      ¬ Temporary ["f".toList] ["f".toList] ∧
      ¬ Change w.done (oldDisk.get ["f".toList]) (w.manager.world.disk.get ["f".toList]) := by
  have hafter : afterTransfer restartedTransfer =
      some ([], some (.file 1 ⟨[66], 0, .received⟩)) := by decide
  obtain ⟨w, hexec, hw⟩ := Option.map_eq_some_iff.mp hafter
  obtain ⟨hdone, hfile⟩ := Prod.mk.inj hw
  refine ⟨w, hexec, by decide, ?_⟩
  have hold : oldDisk.get ["f".toList] = some (.file 0 ⟨[9], 0, .host⟩) := by decide
  rw [hdone, hfile, hold]
  intro hchange
  cases hchange with
  | delivered old inode f hnever => cases hnever
  | quarantined old inode f horigin => cases horigin

end ClantoDesk.InterruptedTransfer
