import ClantoDesk.FileArrivals
import ClantoDesk.ReadJob

/-!
A whole file transfer, libs/base/src/fs.rs: the blocks of a read job go to a fresh write job
on an empty directory, and the last file gets its name when the job is finished. With a system
that refuses nothing, the disk of the receiver follows the arrivals of the files, so the
transfer is complete exactly if the names keep out of each other's way.
-/
namespace ClantoDesk.FileTransfer

open FileSystem TransferJob FileArrivals
open ReadJob (Source Sender blockBytes Carries Transcript Opens)
open TenantKeys (Bytes)

/-- The system refuses nothing. -/
structure Willing (cwd : Location) (env : Env) : Prop where
  cwd : env.os.cwd = cwd
  allows : ∀ op p, env.os.allows op p = true
  flushed : env.flushed = true
  unlimited : env.writeLimit = none

/-- The directory `dir` of the receiver holds the files of `t` with these contents. -/
abbrev Holds (cwd : Location) (dir : Path) (b : Location) (d : Disk File)
    (t : Subtree Bytes) : Prop :=
  Shows File.data cwd dir b d t

section Paths

variable {cwd : Location} {dir : Path} {b : Location} {d : Disk File} {t : Subtree Bytes}
  {env : Env}

theorem pathExists_iff (h : Holds cwd dir b d t) (hcwd : env.os.cwd = cwd) {path : Path}
    {names : List Name} (hpath : Below dir path names) (hdots : ['.', '.'] ∉ names) :
    env.pathExists d path = true ↔ t names ≠ none := by
  subst hcwd
  unfold Env.pathExists Disk.node
  constructor
  · intro hexists
    split at hexists
    · rename_i p hp
      obtain ⟨-, rfl⟩ := h.way_of_resolve true hpath hdots hp
      intro hnone
      rw [(h.none_iff names).mpr hnone] at hexists
      cases hexists
    · cases hexists
  · intro hsome
    rw [h.resolve_way true hpath hdots (h.way names hsome)]
    simp only
    cases hget : d.get (b ++ names) with
    | none => exact absurd ((h.none_iff names).mp hget) hsome
    | some node => rfl

/-- No link stands below the directory, and no file is in the way. -/
theorem checkComponents_ok (h : Holds cwd dir b d t) (hw : Willing cwd env) (names : List Name)
    (current : Path) (done : List Name) (hbelow : Below dir current done)
    (hnames : ∀ n ∈ names, components n = [n] ∧ isAbsolute n = false)
    (hdots : ['.', '.'] ∉ done ++ names) (hfree : t.Free (done ++ names)) :
    checkComponents env d current names = .ok () := by
  induction names generalizing current done with
  | nil => rfl
  | cons n names ih =>
    obtain ⟨hcomponents, habsolute⟩ := hnames n List.mem_cons_self
    have hassoc : done ++ n :: names = (done ++ [n]) ++ names := by simp
    rw [hassoc] at hdots hfree
    have hn : n ≠ ['.', '.'] := by
      rintro rfl
      exact hdots (by simp)
    have hnext := hbelow.join n habsolute
    rw [hcomponents] at hnext
    have hshort : ['.', '.'] ∉ done ++ [n] := fun hmem => hdots (List.mem_append_left _ hmem)
    have hrest := ih (join current n) (done ++ [n]) hnext
      (fun m hm => hnames m (List.mem_cons_of_mem _ hm)) hdots hfree
    have hvalid : t.walk b [] (done ++ [n]) ≠ .invalid := by
      refine t.walk_ne_invalid b [] _ fun pre hpre hne x => ?_
      refine hfree pre (hpre.trans (List.prefix_append _ _)) ?_ x
      intro heq
      have hlength := hpre.length_le
      rw [heq, List.length_append] at hlength
      have hnil : names = [] := List.eq_nil_of_length_eq_zero (by omega)
      rw [heq, hnil, List.append_nil] at hne
      exact hne rfl
    rw [checkComponents, if_neg hn]
    simp only [hw.cwd, hw.allows, Bool.not_true, Bool.false_eq_true, if_false]
    cases hresolve : d.resolve cwd false (join current n) with
    | «at» p =>
      obtain ⟨-, rfl⟩ := h.way_of_resolve false hnext hshort hresolve
      simp only
      split
      · rename_i target hget
        exact absurd hget (h.not_link _ target)
      · exact hrest
    | missing => exact hrest
    | invalid =>
      rw [h.resolve false hnext hshort] at hresolve
      exact absurd hresolve hvalid

theorem free_of_checkComponents (h : Holds cwd dir b d t) (hw : Willing cwd env)
    (names : List Name) (current : Path) (done : List Name) (hbelow : Below dir current done)
    (hnames : ∀ n ∈ names, components n = [n] ∧ isAbsolute n = false)
    (hdots : ['.', '.'] ∉ done ++ names) (hfree : t.Free done)
    (hok : checkComponents env d current names = .ok ()) : t.Free (done ++ names) := by
  induction names generalizing current done with
  | nil => rwa [List.append_nil]
  | cons n names ih =>
    obtain ⟨hcomponents, habsolute⟩ := hnames n List.mem_cons_self
    have hassoc : done ++ n :: names = (done ++ [n]) ++ names := by simp
    rw [hassoc] at hdots ⊢
    have hn : n ≠ ['.', '.'] := by
      rintro rfl
      exact hdots (by simp)
    have hnext := hbelow.join n habsolute
    rw [hcomponents] at hnext
    have hshort : ['.', '.'] ∉ done ++ [n] := fun hmem => hdots (List.mem_append_left _ hmem)
    rw [checkComponents, if_neg hn] at hok
    simp only [hw.cwd, hw.allows, Bool.not_true, Bool.false_eq_true, if_false] at hok
    have hvalid : d.resolve cwd false (join current n) ≠ .invalid := by
      intro hinvalid
      rw [hinvalid] at hok
      cases hok
    have hfreeNext : t.Free (done ++ [n]) := by
      intro pre hpre hne x hx
      have hdone : pre <+: done := (List.prefix_concat_iff.mp hpre).resolve_left hne
      obtain ⟨rest, rfl⟩ := hdone
      apply hvalid
      rw [h.resolve false hnext hshort, List.append_assoc]
      refine t.walk_into_file b [] pre (rest ++ [n]) x (h.way pre (by simp [hx])) ?_ hx (by simp)
      rintro rfl
      rw [h.root] at hx
      cases hx
    refine ih (join current n) (done ++ [n]) hnext
      (fun m hm => hnames m (List.mem_cons_of_mem _ hm)) hdots hfreeNext ?_
    cases hresolve : d.resolve cwd false (join current n) with
    | «at» p =>
      obtain ⟨-, rfl⟩ := h.way_of_resolve false hnext hshort hresolve
      rw [hresolve] at hok
      simp only at hok
      split at hok
      · cases hok
      · exact hok
    | missing =>
      rw [hresolve] at hok
      exact hok
    | invalid => exact absurd hresolve hvalid

end Paths

/-- An entry of a job stands for the name `place` in the directory. -/
structure Addresses (cwd : Location) (dir : Path) (b : Location) (base name place : Path) :
    Prop where
  nonempty : place ≠ []
  relative : isAbsolute place = false
  dots : ['.', '.'] ∉ components place
  path : ∀ env d t, Willing cwd env → Holds cwd dir b d t → t.Free (components place) →
    joinValidatedPath env d base name = .ok (join dir place)

section Addresses

variable {cwd : Location} {dir : Path} {b : Location} {d : Disk File} {t : Subtree Bytes}
  {env : Env}
  {base name place : Path}

theorem dir_ne_nil (h : Holds cwd dir b d t) : dir ≠ [] := by
  rintro rfl
  have hleads := h.leads
  simp [Disk.resolve] at hleads

theorem Addresses.below (ha : Addresses cwd dir b base name place) (hdir : dir ≠ []) :
    Below dir (join dir place) (components place) := by
  have hjoin := (below_self dir hdir).join place ha.relative
  rwa [List.nil_append] at hjoin

theorem Addresses.below_suffix (ha : Addresses cwd dir b base name place) (hdir : dir ≠ [])
    (suffix : Path) : Below dir (join dir place ++ suffix) (components (place ++ suffix)) := by
  rw [← join_append dir place suffix ha.nonempty]
  have habsolute : isAbsolute (place ++ suffix) = false := by
    have hrelative := ha.relative
    cases hplace : place with
    | nil => exact absurd hplace ha.nonempty
    | cons _ _ =>
      rw [hplace] at hrelative
      exact hrelative
  have hjoin := (below_self dir hdir).join (place ++ suffix) habsolute
  rwa [List.nil_append] at hjoin

theorem Addresses.below_download (ha : Addresses cwd dir b base name place) (hdir : dir ≠ []) :
    Below dir (join dir place ++ downloadSuffix) (downloadAt place) :=
  ha.below_suffix hdir downloadSuffix

theorem Addresses.below_digest (ha : Addresses cwd dir b base name place) (hdir : dir ≠ []) :
    Below dir (join dir place ++ digestSuffix) (digestAt place) :=
  ha.below_suffix hdir digestSuffix

theorem Addresses.download_dots (ha : Addresses cwd dir b base name place) :
    ['.', '.'] ∉ downloadAt place :=
  dots_not_mem_append place downloadSuffix (by decide) (by decide) ha.dots

theorem Addresses.digest_dots (ha : Addresses cwd dir b base name place) :
    ['.', '.'] ∉ digestAt place :=
  dots_not_mem_append place digestSuffix (by decide) (by decide) ha.dots

/-- The download is in no directory of the final name, so both paths end in a name. -/
theorem Addresses.endsInName {u : Subtree Bytes} (ha : Addresses cwd dir b base name place)
    (hway : u.Way (downloadAt place)) (hplace : u (components place) ≠ some .dir) :
    endsInName false (join dir place) = true ∧
      endsInName false (join dir place ++ downloadSuffix) = true := by
  have hproper : Proper place := by
    by_contra hnot
    have hleads := components_append place downloadSuffix (by decide) (by decide)
    rw [← components_of_not_proper place hnot] at hleads
    refine hplace (hway _ ⟨_, hleads.symm⟩ ?_)
    intro heq
    have hlength := congrArg List.length (heq.trans hleads)
    rw [List.length_append, List.length_singleton] at hlength
    omega
  have hdots : lastSegment place ≠ ['.', '.'] := by
    intro heq
    refine ha.dots ?_
    rw [components_of_proper place hproper, heq]
    exact List.mem_append_right _ List.mem_cons_self
  have hslash : '/' ∉ downloadSuffix := by decide
  have hlong : 2 < downloadSuffix.length := by decide
  rw [endsInName_iff, endsInName_iff, lastSegment_append _ downloadSuffix hslash, lastSegment_join]
  refine ⟨⟨hproper.1, hproper.2, hdots⟩, ?_, ?_, ?_⟩
  all_goals
    intro heq
    have hlength := congrArg List.length heq
    rw [List.length_append] at hlength
    simp only [List.length_nil, List.length_cons] at hlength
    omega

theorem validName_eq (h : validateFileNameNoTraversal name = .ok ()) :
    isAbsolute name = false ∧ ['.', '.'] ∉ components name := by
  unfold validateFileNameNoTraversal at h
  split at h
  · cases h
  · split at h
    · cases h
    · rename_i hdots
      split at h
      · cases h
      · rename_i habsolute
        exact ⟨by simpa using habsolute, fun hmem => hdots (List.mem_of_mem_filter hmem)⟩

/-- The names of a directory transfer stand for themselves. -/
theorem addresses_name (cwd : Location) (dir : Path) (b : Location) (hne : name ≠ [])
    (hvalid : validateFileNameNoTraversal name = .ok ()) : Addresses cwd dir b dir name name := by
  obtain ⟨habsolute, hdots⟩ := validName_eq hvalid
  refine ⟨hne, habsolute, hdots, ?_⟩
  intro env d t hw h hfree
  have hcheck := checkComponents_ok h hw (components name) dir [] (below_self dir (dir_ne_nil h))
    (fun n hn => components_of_mem name n hn) hdots hfree
  have hname : name.isEmpty = false := by simpa using hne
  simp only [joinValidatedPath, hvalid, validateNoSymlinkComponents, habsolute, hcheck, joinName,
    hname, Bool.false_eq_true, if_false, bind, Except.bind, pure, Except.pure]

theorem joinValidatedPath_blocked (hvalid : validateFileNameNoTraversal name = .ok ())
    (hw : Willing cwd env) (h : Holds cwd dir b d t) (hfree : ¬ t.Free (components name)) :
    ∃ text, joinValidatedPath env d dir name = .error text := by
  obtain ⟨habsolute, hdots⟩ := validName_eq hvalid
  cases hpath : joinValidatedPath env d dir name with
  | error text => exact ⟨text, rfl⟩
  | ok path =>
    refine absurd ?_ hfree
    have hnil : t.Free [] := fun pre hpre hne => absurd (List.prefix_nil.mp hpre) hne
    refine free_of_checkComponents h hw (components name) dir [] (below_self dir (dir_ne_nil h))
      (fun n hn => components_of_mem name n hn) hdots hnil ?_
    simp only [joinValidatedPath, hvalid, validateNoSymlinkComponents, habsolute, bind,
      Except.bind, Bool.false_eq_true, if_false] at hpath
    cases hcheck : checkComponents env d dir (components name) with
    | error text =>
      rw [hcheck] at hpath
      cases hpath
    | ok _ => rfl

/-- A job for a single file goes to the path it was given. -/
theorem addresses_single (cwd : Location) (dir : Path) (b : Location) (hne : place ≠ [])
    (hrelative : isAbsolute place = false) (hdots : ['.', '.'] ∉ components place) :
    Addresses cwd dir b (join dir place) [] place := by
  refine ⟨hne, hrelative, hdots, ?_⟩
  intro env d t _ _ _
  rfl

end Addresses

/-- The file for `place` is open for writing, and `x` was written so far. -/
structure Flight (cwd : Location) (dir : Path) (b : Location) (t : Subtree Bytes) (place : Path)
    (x : Bytes) (w : World) (job : Job) : Prop where
  tree : ∃ u, Holds cwd dir b w.disk u ∧ u (downloadAt place) = some (.file x) ∧
    (∃ digest, u (digestAt place) = some (.file digest)) ∧
    ∀ c, c ≠ downloadAt place → c ≠ digestAt place → u c = prepared t place c
  stream : ∃ inode f, job.dataStream = some (.writer inode x.length) ∧
    w.disk.get (b ++ downloadAt place) = some (.file inode f) ∧ f.data = x

section Flight

variable {cwd : Location} {dir : Path} {b : Location} {t : Subtree Bytes} {env : Env}
  {base name place : Path} {w : World} {job : Job}

theorem prepared_holds (h : Holds cwd dir b w.disk t) (hw : Willing cwd env)
    (ha : Addresses cwd dir b base name place) (hfree : t.Free (components place)) :
    Holds cwd dir b (w.disk.createParents env.os (join dir place)) (prepared t place) := by
  obtain ⟨rfl, hallows, -, -⟩ := hw
  refine h.createParents hallows (ha.below (dir_ne_nil h)) ha.dots fun pre hpre x hx => ?_
  by_cases heq : pre = components place
  · have hlength := hpre.length_le
    rw [heq, List.length_dropLast] at hlength
    have hnil : components place = [] := List.eq_nil_of_length_eq_zero (by omega)
    rw [heq, hnil, h.root] at hx
    cases hx
  · exact hfree pre (hpre.trans (List.dropLast_prefix _)) heq x hx

theorem digest_cleared (h : Holds cwd dir b w.disk t) (hw : Willing cwd env)
    (ha : Addresses cwd dir b base name place) (hdir : t (digestAt place) ≠ some .dir) :
    (env.pathExists w.disk (join dir place ++ digestSuffix) &&
        (w.disk.removeFile env.os (join dir place ++ digestSuffix)).isNone) = false ∧
      ∃ u, Holds cwd dir b
          (if env.pathExists w.disk (join dir place ++ digestSuffix) then
            w.removeFile env (join dir place ++ digestSuffix) else w).disk u ∧
        u (digestAt place) = none ∧ ∀ c, c ≠ digestAt place → u c = t c := by
  have hbelow := ha.below_digest (dir_ne_nil h)
  have hexists := pathExists_iff h hw.cwd hbelow ha.digest_dots
  obtain ⟨rfl, hallows, -, -⟩ := hw
  cases hentry : t (digestAt place) with
  | none =>
    rw [hentry] at hexists
    have hnot : env.pathExists w.disk (join dir place ++ digestSuffix) = false := by
      simpa using hexists
    rw [hnot]
    exact ⟨rfl, t, h, hentry, fun _ _ => rfl⟩
  | some entry =>
    cases entry with
    | dir => exact absurd hentry hdir
    | file x =>
      have hyes : env.pathExists w.disk (join dir place ++ digestSuffix) = true :=
        hexists.mpr (by simp [hentry])
      obtain ⟨d', hremove, hholds⟩ := h.removeFile hallows hbelow ha.digest_dots hentry
      rw [hyes, hremove]
      refine ⟨rfl, t.set (digestAt place) none, ?_, Subtree.set_self _ _ _,
        fun c hc => Subtree.set_of_ne _ _ _ _ hc⟩
      rw [if_pos rfl, World.removeFile, hremove]
      exact hholds

theorem way_of_leading (h : Holds cwd dir b w.disk t) (names : List Name) (n : Name)
    (hdir : t names = some .dir) : t.Way (names ++ [n]) := by
  intro pre hpre hne
  have hshort := (List.prefix_concat_iff.mp hpre).resolve_left hne
  by_cases heq : pre = names
  · rw [heq, hdir]
  · exact h.way names (by simp [hdir]) pre hshort heq

theorem openDownload_flight (h : Holds cwd dir b w.disk t) (hw : Willing cwd env)
    (codecs : Codecs) (ha : Addresses cwd dir b job.base name place) (haccepts : Accepts t place) :
    ∃ w' job', openDownload env codecs job w name = (w', job', none) ∧
      Flight cwd dir b t place [] w' job' ∧ job'.id = job.id ∧ job'.base = job.base ∧
      job'.files = job.files ∧ job'.fileNum = job.fileNum := by
  have hdir := dir_ne_nil h
  have hpath := ha.path env w.disk t hw h haccepts.free
  have hparents := prepared_holds h hw ha haccepts.free
  obtain ⟨hdownload, hdigest⟩ := prepared_beside t place
  obtain ⟨hclear, u, hu, hnone, hsame⟩ :=
    digest_cleared (w := w.put (w.disk.createParents env.os (join dir place))) hparents hw ha
      (by rw [hdigest]; exact haccepts.digest)
  unfold openDownload
  rw [hpath]
  simp only [hclear, Bool.false_eq_true, if_false]
  generalize (if env.pathExists (w.put (w.disk.createParents env.os (join dir place))).disk
    (join dir place ++ digestSuffix) = true then _ else _) = w₂ at hu ⊢
  have hleading : u (leadingNames place) = some .dir := by
    rw [hsame _ ?_, haccepts.way]
    intro heq
    rw [digestAt_eq] at heq
    exact absurd heq (by simp)
  have hwayDownload : u.Way (downloadAt place) := by
    rw [downloadAt_eq]
    exact way_of_leading hu _ _ hleading
  have hnotDir : u (downloadAt place) ≠ some .dir := by
    rw [hsame _ (downloadAt_ne_digestAt place), hdownload]
    exact haccepts.download
  obtain ⟨rfl, hallows, -, -⟩ := hw
  obtain ⟨d₃, inode, hcreate, hget₃, h₃⟩ := hu.create hallows (ha.below_download hdir)
    ha.download_dots hwayDownload hnotDir ⟨[], env.now, .received⟩
  rw [hcreate]
  have hleading₃ : (u.set (downloadAt place) (some (.file []))) (leadingNames place) =
      some .dir := by
    rw [Subtree.set_of_ne _ _ _ _ ?_, hleading]
    intro heq
    rw [downloadAt_eq] at heq
    exact absurd heq (by simp)
  have hwayDigest : (u.set (downloadAt place) (some (.file []))).Way (digestAt place) := by
    rw [digestAt_eq]
    exact way_of_leading (w := w₂.put d₃) h₃ _ _ hleading₃
  have hdigest₃ : (u.set (downloadAt place) (some (.file []))) (digestAt place) = none := by
    rw [Subtree.set_of_ne _ _ _ _ (Ne.symm (downloadAt_ne_digestAt place)), hnone]
  obtain ⟨d₄, digestInode, hcreateDigest, hget₄, h₄⟩ := h₃.create hallows (ha.below_digest hdir)
    ha.digest_dots hwayDigest (by simp [hdigest₃])
    ⟨codecs.digestJson job.digest.size job.digest.modified, env.now, .host⟩
  refine ⟨_, _, rfl, ⟨?_, ?_⟩, rfl, rfl, rfl, rfl⟩
  · refine ⟨(u.set (downloadAt place) (some (.file []))).set (digestAt place)
      (some (.file (codecs.digestJson job.digest.size job.digest.modified))), ?_, ?_, ?_, ?_⟩
    · simp only [World.put, hcreateDigest, Option.map_some, Option.getD_some]
      exact h₄
    · rw [Subtree.set_of_ne _ _ _ _ (downloadAt_ne_digestAt place), Subtree.set_self]
    · exact ⟨_, Subtree.set_self _ _ _⟩
    · intro c hc hc'
      rw [Subtree.set_of_ne _ _ _ _ hc', Subtree.set_of_ne _ _ _ _ hc, hsame c hc']
  · refine ⟨inode, ⟨[], env.now, .received⟩, rfl, ?_, rfl⟩
    simp only [World.put, hcreateDigest, Option.map_some, Option.getD_some]
    rw [hget₄, if_neg, hget₃, if_pos rfl]
    exact fun heq => downloadAt_ne_digestAt place (List.append_cancel_left heq)

theorem accepts_of_openDownload (h : Holds cwd dir b w.disk t) (hw : Willing cwd env)
    (codecs : Codecs) (ha : Addresses cwd dir b job.base name place)
    (hfree : t.Free (components place)) (hopen : (openDownload env codecs job w name).2.2 = none) :
    Accepts t place := by
  have hdir := dir_ne_nil h
  have hpath := ha.path env w.disk t hw h hfree
  have hparents := prepared_holds h hw ha hfree
  obtain ⟨hdownload, hdigest⟩ := prepared_beside t place
  have hdigestDir : t (digestAt place) ≠ some .dir := by
    intro hisDir
    rw [← hdigest] at hisDir
    have hexists := (pathExists_iff hparents hw.cwd (ha.below_digest hdir)
      ha.digest_dots).mpr (by simp [hisDir])
    have hremove : (w.disk.createParents env.os (join dir place)).removeFile env.os
        (join dir place ++ digestSuffix) = none := by
      obtain ⟨rfl, -, -, -⟩ := hw
      exact hparents.removeFile_none (ha.below_digest hdir) ha.digest_dots (by simp [hisDir])
    unfold openDownload at hopen
    rw [hpath] at hopen
    simp only [World.put, hexists, hremove, Option.isNone_none, Bool.and_self, if_true] at hopen
    cases hopen
  obtain ⟨hclear, u, hu, hnone, hsame⟩ :=
    digest_cleared (w := w.put (w.disk.createParents env.os (join dir place))) hparents hw ha
      (by rw [hdigest]; exact hdigestDir)
  unfold openDownload at hopen
  rw [hpath] at hopen
  simp only [hclear, Bool.false_eq_true, if_false] at hopen
  generalize (if env.pathExists (w.put (w.disk.createParents env.os (join dir place))).disk
    (join dir place ++ digestSuffix) = true then _ else _) = w₂ at hu hopen
  cases hcreate : w₂.disk.create env.os (join dir place ++ downloadSuffix)
      ⟨[], env.now, .received⟩ with
  | none =>
    rw [hcreate] at hopen
    cases hopen
  | some opened =>
    obtain ⟨d₃, inode⟩ := opened
    obtain ⟨rfl, -, -, -⟩ := hw
    obtain ⟨hway, hnotDir⟩ := hu.create_inv (ha.below_download hdir) ha.download_dots hcreate
    refine ⟨hfree, ?_, ?_, hdigestDir⟩
    · rw [downloadAt_eq] at hway
      have hleading := hway (leadingNames place) (List.prefix_append _ _) (by simp)
      rwa [hsame _ ?_] at hleading
      intro heq
      rw [digestAt_eq] at heq
      exact absurd heq (by simp)
    · rwa [hsame _ (downloadAt_ne_digestAt place), hdownload] at hnotDir

theorem writeAll_flight {x : Bytes} (h : Flight cwd dir b t place x w job) (hw : Willing cwd env)
    (closed : String) (data : Bytes) :
    ∃ w' job', writeAll env closed data job w = (w', job', none) ∧
      Flight cwd dir b t place (x ++ data) w' job' ∧ job'.id = job.id ∧ job'.base = job.base ∧
      job'.files = job.files ∧ job'.fileNum = job.fileNum := by
  obtain ⟨u, hu, hdownload, hdigest, hsame⟩ := h.tree
  obtain ⟨inode, f, hstream, hget, hdata⟩ := h.stream
  have hlimit : data.take (env.writeLimit.getD data.length) = data := by
    rw [hw.unlimited]
    exact List.take_length
  unfold writeAll
  rw [hstream]
  simp only [hlimit, Nat.lt_irrefl, if_false]
  have hreceived : (File.receive env.now x.length data f).data = x ++ data := by
    rw [File.receive, hdata]
    exact overwrite_end x data
  refine ⟨_, _, rfl, ⟨⟨u.set (downloadAt place) (some (.file (x ++ data))), ?_, ?_, ?_, ?_⟩, ?_⟩,
    rfl, rfl, rfl, rfl⟩
  · have hupdated := hu.update hget (File.receive env.now x.length data)
    rwa [hreceived] at hupdated
  · exact Subtree.set_self _ _ _
  · obtain ⟨digest, hdigest⟩ := hdigest
    exact ⟨digest, (Subtree.set_of_ne _ _ _ _ (Ne.symm (downloadAt_ne_digestAt place))).trans
      hdigest⟩
  · intro c hc hc'
    rw [Subtree.set_of_ne _ _ _ _ hc, hsame c hc hc']
  · refine ⟨inode, File.receive env.now x.length data f, ?_, ?_, hreceived⟩
    · rw [List.length_append]
    · exact (w.disk.get_update _ _ inode f _ hget).trans (if_pos rfl)

theorem setFileMtime_holds (h : Holds cwd dir b w.disk t) (hcwd : env.os.cwd = cwd) {path : Path}
    {names : List Name} (hpath : Below dir path names) (hdots : ['.', '.'] ∉ names)
    (seconds : UInt64) : Holds cwd dir b (w.setFileMtime env path seconds).disk t := by
  subst hcwd
  unfold World.setFileMtime
  split
  · rename_i inode f hopen
    obtain ⟨p, hp, hget⟩ := Disk.openFile_eq hopen
    obtain ⟨-, rfl⟩ := h.way_of_resolve true hpath hdots hp
    have hupdated := h.update hget fun f => { f with mtime := seconds.toInt64.toInt * 10 ^ 9 }
    have hsame : t.set names (some (.file f.data)) = t := by
      funext c
      by_cases hc : c = names
      · rw [hc, Subtree.set_self, h.of_file hget]
      · exact Subtree.set_of_ne _ _ _ _ hc
    rwa [hsame] at hupdated
  · exact h

theorem entryPath_of {entry : FileEntry} (hentry : job.entry = some entry)
    (ha : Addresses cwd dir b job.base entry.name place) (hw : Willing cwd env)
    (h : Holds cwd dir b w.disk t) (hfree : t.Free (components place)) :
    job.entryPath env w.disk = some (join dir place) := by
  rw [Job.entryPath, hentry]
  simp only [ha.path env w.disk t hw h hfree, Except.toOption]

theorem modifyTime_flight {x : Bytes} {entry : FileEntry} (h : Flight cwd dir b t place x w job)
    (hw : Willing cwd env) (hentry : job.entry = some entry)
    (ha : Addresses cwd dir b job.base entry.name place) (haccepts : Accepts t place)
    (hroot : t [] = some .dir) :
    Holds cwd dir b (modifyTime env job w).disk (arrived t place x) := by
  obtain ⟨u, hu, hdownload, ⟨digest, hdigest⟩, hsame⟩ := h.tree
  have hdir := dir_ne_nil hu
  obtain ⟨hfinalDownload, -, hbesideDownload⟩ := beside_download place
  obtain ⟨hfinalDigest, -, hbesideDigest⟩ := beside_digest place
  have hfree : u.Free (components place) := by
    intro pre hpre hne y hy
    rw [hsame pre (Ne.symm (hbesideDownload pre hpre hne)) (Ne.symm (hbesideDigest pre hpre hne)),
      prepared, t.mkdirs_file_iff] at hy
    exact haccepts.free pre hpre hne y hy
  unfold modifyTime
  rw [entryPath_of hentry ha hw hu hfree, hentry]
  refine setFileMtime_holds ?_ hw.cwd (ha.below hdir) ha.dots _
  obtain ⟨rfl, hallows, -, -⟩ := hw
  obtain ⟨d₁, hremove, h₁⟩ := hu.removeFile hallows (ha.below_digest hdir) ha.digest_dots hdigest
  have hdownload₁ : (u.set (digestAt place) none) (downloadAt place) = some (.file x) := by
    rw [Subtree.set_of_ne _ _ _ _ (downloadAt_ne_digestAt place), hdownload]
  have hfinal₁ : (u.set (digestAt place) none) (components place) =
      prepared t place (components place) := by
    rw [Subtree.set_of_ne _ _ _ _ (Ne.symm hfinalDigest),
      hsame _ (Ne.symm hfinalDownload) (Ne.symm hfinalDigest)]
  have helse : ∀ c, c ≠ downloadAt place → c ≠ digestAt place →
      (u.set (digestAt place) none) c = prepared t place c := by
    intro c hc hc'
    rw [Subtree.set_of_ne _ _ _ _ hc', hsame c hc hc']
  simp only [World.removeFile, World.rename, World.put, hremove, Option.getD_some]
  by_cases hplace : prepared t place (components place) = some .dir
  · have hrename := h₁.rename_none (ha.below_download hdir) ha.download_dots (ha.below hdir) ha.dots
      (by simp [hdownload₁]) (Or.inr (hfinal₁.trans hplace))
    rw [hrename, Option.getD_none]
    have harrived : u.set (digestAt place) none = arrived t place x := by
      funext c
      rw [arrived, if_pos hplace]
      by_cases hc : c = downloadAt place
      · rw [hc, hdownload₁, Subtree.set_self]
      · rw [Subtree.set_of_ne _ (downloadAt place) _ _ hc]
        by_cases hc' : c = digestAt place
        · rw [hc', Subtree.set_self, Subtree.set_self]
        · rw [helse c hc hc', Subtree.set_of_ne _ _ _ _ hc']
    exact harrived ▸ h₁
  · have hway : (u.set (digestAt place) none).Way (components place) := by
      intro pre hpre hne
      rw [helse pre (Ne.symm (hbesideDownload pre hpre hne))
        (Ne.symm (hbesideDigest pre hpre hne))]
      exact haccepts.final_way hroot pre hpre hne
    have hsomewhere : u (downloadAt place) ≠ none := by
      rw [hdownload]
      simp
    have hnotDir : u (components place) ≠ some .dir := by
      rwa [hsame _ (Ne.symm hfinalDownload) (Ne.symm hfinalDigest)]
    obtain ⟨hname, hdownloadName⟩ := ha.endsInName (hu.way _ hsomewhere) hnotDir
    obtain ⟨d₂, hrename, h₂⟩ := h₁.rename hallows (ha.below_download hdir) ha.download_dots
      (ha.below hdir) ha.dots hdownloadName hname hdownload₁ hway (by rwa [hfinal₁]) hfinalDownload
    rw [hrename, Option.getD_some]
    have harrived : ((u.set (digestAt place) none).set (downloadAt place) none).set
        (components place) (some (.file x)) = arrived t place x := by
      funext c
      rw [arrived, if_neg hplace]
      by_cases hc : c = components place
      · rw [hc, Subtree.set_self, Subtree.set_self]
      · rw [Subtree.set_of_ne _ (components place) _ _ hc,
          Subtree.set_of_ne _ (components place) _ _ hc]
        by_cases hc' : c = downloadAt place
        · rw [hc', Subtree.set_self, Subtree.set_self]
        · rw [Subtree.set_of_ne _ (downloadAt place) _ _ hc',
            Subtree.set_of_ne _ (downloadAt place) _ _ hc']
          by_cases hc'' : c = digestAt place
          · rw [hc'', Subtree.set_self, Subtree.set_self]
          · rw [helse c hc' hc'', Subtree.set_of_ne _ _ _ _ hc'']
    exact harrived ▸ h₂

theorem modifyTime_nothing (h : Holds cwd dir b w.disk t) (hw : Willing cwd env)
    (haddr : ∀ entry, job.entry = some entry → ∃ place,
      Addresses cwd dir b job.base entry.name place ∧ t.Free (components place) ∧
        t (downloadAt place) = none ∧ t (digestAt place) = none) :
    Holds cwd dir b (modifyTime env job w).disk t := by
  unfold modifyTime
  cases hentry : job.entry with
  | none => exact h
  | some entry =>
    obtain ⟨place, ha, hfree, hdownload, hdigest⟩ := haddr entry hentry
    have hdir := dir_ne_nil h
    rw [entryPath_of hentry ha hw h hfree]
    refine setFileMtime_holds ?_ hw.cwd (ha.below hdir) ha.dots _
    obtain ⟨rfl, -, -, -⟩ := hw
    have hremove : w.disk.removeFile env.os (join dir place ++ digestSuffix) = none :=
      h.removeFile_none (ha.below_digest hdir) ha.digest_dots (by simp [hdigest])
    have hrename : w.disk.rename env.os (join dir place ++ downloadSuffix)
        (join dir place) = none :=
      h.rename_none (ha.below_download hdir) ha.download_dots (ha.below hdir) ha.dots
        (by simp [hdownload]) (Or.inl hdownload)
    simpa only [World.removeFile, World.rename, World.put, hremove, hrename, Option.getD_none]
      using h

end Flight

def deliver (codecs : Codecs) (s : World × Job) (event : Env × Block) : Option (World × Job) :=
  match write event.1 codecs event.2 s.2 s.1 with
  | (w, job, none) => some (w, job)
  | (_, _, some _) => none

/-- Once the job is finished, the directory holds `t`. -/
def Settles (cwd : Location) (dir : Path) (b : Location) (s : World × Job)
    (t : Subtree Bytes) : Prop :=
  ∀ env, Willing cwd env → Holds cwd dir b (modifyTime env s.2 s.1).disk t

section Deliver

variable {cwd : Location} {dir : Path} {b : Location} {t : Subtree Bytes} {place : Path}
  {codecs : Codecs} {s : World × Job} {env : Env} {block : Block} {entry : FileEntry}

structure Begins (job : Job) (block : Block) (entry : FileEntry) : Prop where
  ident : block.id = job.id
  entry : job.files[toIndex block.fileNum]? = some entry
  switch : toIndex block.fileNum ≠ toIndex job.fileNum ∨ job.dataStream = none

theorem write_begins (h : Begins s.2 block entry) (hw : Willing cwd env) :
    deliver codecs s (env, block) =
      match openDownload env codecs { s.2 with fileNum := block.fileNum } (modifyTime env s.2 s.1)
          entry.name with
      | (_, _, some _) => none
      | (w, job, none) =>
        match writeAll env (if block.compressed then "data stream is None" else "file is None")
            (blockBytes codecs block) job w with
        | (_, _, some _) => none
        | (w, job, none) => some (w, { job with
            finishedSize := job.finishedSize + (blockBytes codecs block).length
            transferred := job.transferred + block.data.length }) := by
  have hflushed : (s.2.dataStream.isSome && !env.flushed) = false := by
    rw [hw.flushed, Bool.not_true, Bool.and_false]
  simp only [deliver, write, if_neg (not_not.mpr h.ident), h.entry, if_pos h.switch, hflushed,
    Bool.false_eq_true, if_false, blockBytes]
  generalize openDownload env codecs { s.2 with fileNum := block.fileNum }
    (modifyTime env s.2 s.1) entry.name = opened
  obtain ⟨w, job, error⟩ := opened
  cases error with
  | some text => rfl
  | none =>
    simp only
    generalize writeAll env (if block.compressed then "data stream is None" else "file is None")
      (if block.compressed then codecs.decompress block.data else block.data) job w = written
    obtain ⟨w', job', error⟩ := written
    cases error <;> rfl

theorem begins_flight (hsettles : Settles cwd dir b s t) (hbegins : Begins s.2 block entry)
    (hw : Willing cwd env) (ha : Addresses cwd dir b s.2.base entry.name place)
    (haccepts : Accepts t place) :
    ∃ s', deliver codecs s (env, block) = some s' ∧
      Flight cwd dir b t place (blockBytes codecs block) s'.1 s'.2 ∧ s'.2.id = s.2.id ∧
      s'.2.base = s.2.base ∧ s'.2.files = s.2.files ∧ s'.2.fileNum = block.fileNum := by
  have ha' : Addresses cwd dir b ({ s.2 with fileNum := block.fileNum } : Job).base entry.name
    place := ha
  obtain ⟨w₁, job₁, hopen, hflight, hid, hbase, hfiles, hnum⟩ :=
    openDownload_flight (hsettles env hw) hw codecs ha' haccepts
  obtain ⟨w₂, job₂, hwrite, hflight₂, hid₂, hbase₂, hfiles₂, hnum₂⟩ := writeAll_flight hflight hw
    (if block.compressed then "data stream is None" else "file is None") (blockBytes codecs block)
  refine ⟨(w₂, { job₂ with
      finishedSize := job₂.finishedSize + (blockBytes codecs block).length
      transferred := job₂.transferred + block.data.length }), ?_, ?_, hid₂.trans hid,
    hbase₂.trans hbase, hfiles₂.trans hfiles, hnum₂.trans hnum⟩
  · rw [write_begins hbegins hw, hopen]
    simp only [hwrite]
  · exact ⟨hflight₂.tree, hflight₂.stream⟩

theorem accepts_of_begins (hsettles : Settles cwd dir b s t) (hbegins : Begins s.2 block entry)
    (hw : Willing cwd env) (ha : Addresses cwd dir b s.2.base entry.name place)
    (hrefuses : t.Free (components place) ∨ ∃ text,
      joinValidatedPath env (modifyTime env s.2 s.1).disk s.2.base entry.name = .error text)
    {s' : World × Job} (hdeliver : deliver codecs s (env, block) = some s') : Accepts t place := by
  rw [write_begins hbegins hw] at hdeliver
  rcases hrefuses with hfree | ⟨text, htext⟩
  · have ha' : Addresses cwd dir b ({ s.2 with fileNum := block.fileNum } : Job).base entry.name
      place := ha
    refine accepts_of_openDownload (hsettles env hw) hw codecs ha' hfree ?_
    cases herror : (openDownload env codecs { s.2 with fileNum := block.fileNum }
        (modifyTime env s.2 s.1) entry.name).2.2 with
    | none => rfl
    | some text =>
      generalize openDownload env codecs { s.2 with fileNum := block.fileNum }
        (modifyTime env s.2 s.1) entry.name = opened at hdeliver herror
      obtain ⟨w, job, error⟩ := opened
      simp only at herror
      subst herror
      cases hdeliver
  · simp only [openDownload, htext] at hdeliver
    cases hdeliver

theorem more_flight {x : Bytes} (h : Flight cwd dir b t place x s.1 s.2) (hw : Willing cwd env)
    (hid : block.id = s.2.id) (hnum : block.fileNum = s.2.fileNum)
    (hentry : s.2.entry = some entry) :
    ∃ s', deliver codecs s (env, block) = some s' ∧
      Flight cwd dir b t place (x ++ blockBytes codecs block) s'.1 s'.2 ∧ s'.2.id = s.2.id ∧
      s'.2.base = s.2.base ∧ s'.2.files = s.2.files ∧ s'.2.fileNum = s.2.fileNum := by
  obtain ⟨w₂, job₂, hwrite, hflight₂, hid₂, hbase₂, hfiles₂, hnum₂⟩ := writeAll_flight h hw
    (if block.compressed then "data stream is None" else "file is None") (blockBytes codecs block)
  have hopen : ¬ (toIndex block.fileNum ≠ toIndex s.2.fileNum ∨ s.2.dataStream = none) := by
    obtain ⟨inode, f, hstream, -, -⟩ := h.stream
    rw [hnum, hstream]
    simp
  have hentry' : s.2.files[toIndex block.fileNum]? = some entry := by
    rw [hnum]
    exact hentry
  refine ⟨(w₂, { job₂ with
      finishedSize := job₂.finishedSize + (blockBytes codecs block).length
      transferred := job₂.transferred + block.data.length }), ?_, ?_, hid₂, hbase₂, hfiles₂, hnum₂⟩
  · rw [blockBytes] at hwrite ⊢
    simp only [deliver, write, if_neg (not_not.mpr hid), hentry', if_neg hopen, hwrite]
  · exact ⟨hflight₂.tree, hflight₂.stream⟩

theorem more_run {id : Int32} {k : ℕ} (events : List (Env × Block)) {x : Bytes}
    (h : Flight cwd dir b t place x s.1 s.2) (hw : ∀ event ∈ events, Willing cwd event.1)
    (hid : s.2.id = id) (hnum : s.2.fileNum = Int32.ofNat k) (hentry : s.2.entry = some entry)
    (hnumbered : ∀ block ∈ events.map fun event => event.2,
      block.id = id ∧ block.fileNum = Int32.ofNat k) :
    ∃ s', Runs.exec (deliver codecs) s events = some s' ∧
      Flight cwd dir b t place
        (x ++ ((events.map fun event => event.2).map (blockBytes codecs)).flatten) s'.1 s'.2 ∧
      s'.2.id = s.2.id ∧ s'.2.base = s.2.base ∧ s'.2.files = s.2.files ∧
      s'.2.fileNum = s.2.fileNum := by
  induction events generalizing s x with
  | nil => exact ⟨s, rfl, by simpa using h, rfl, rfl, rfl, rfl⟩
  | cons event events ih =>
    obtain ⟨hblockId, hblockNum⟩ := hnumbered event.2 (by simp)
    obtain ⟨s₁, hdeliver, hflight, hid₁, hbase₁, hfiles₁, hnum₁⟩ :=
      more_flight h (hw event List.mem_cons_self) (hblockId.trans hid.symm)
        (hblockNum.trans hnum.symm) hentry
    have hentry₁ : s₁.2.entry = some entry := by
      rw [Job.entry, hfiles₁, hnum₁]
      exact hentry
    obtain ⟨s₂, hexec, hflight₂, hid₂, hbase₂, hfiles₂, hnum₂⟩ :=
      ih hflight (fun e he => hw e (List.mem_cons_of_mem _ he)) (hid₁.trans hid) (hnum₁.trans hnum)
        hentry₁ fun block hblock => hnumbered block (List.mem_cons_of_mem _ hblock)
    refine ⟨s₂, (Runs.exec_cons _ _ _ _ _).mpr ⟨s₁, hdeliver, hexec⟩, ?_, hid₂.trans hid₁,
      hbase₂.trans hbase₁, hfiles₂.trans hfiles₁, hnum₂.trans hnum₁⟩
    simpa only [List.map_cons, List.flatten_cons, List.append_assoc] using hflight₂

/-- All blocks of an accepted file: it arrives when the job goes on or is finished. -/
theorem file_run {id : Int32} {k : ℕ} {x : Bytes} (event : Env × Block)
    (events : List (Env × Block)) (hsettles : Settles cwd dir b s t)
    (hw : ∀ e ∈ event :: events, Willing cwd e.1)
    (hcarries : Carries codecs id k x ((event :: events).map fun e => e.2))
    (hbegins : Begins s.2 event.2 entry) (ha : Addresses cwd dir b s.2.base entry.name place)
    (haccepts : Accepts t place) :
    ∃ s', Runs.exec (deliver codecs) s (event :: events) = some s' ∧
      Settles cwd dir b s' (arrived t place x) ∧ s'.2.id = s.2.id ∧ s'.2.base = s.2.base ∧
      s'.2.files = s.2.files ∧ s'.2.fileNum = Int32.ofNat k := by
  have hwillBegin := hw event List.mem_cons_self
  obtain ⟨hblockId, hblockNum⟩ := hcarries.numbered event.2 (by simp)
  obtain ⟨s₁, hdeliver, hflight, hid₁, hbase₁, hfiles₁, hnum₁⟩ :=
    begins_flight hsettles hbegins hwillBegin ha haccepts
  have hentry₁ : s₁.2.entry = some entry := by
    rw [Job.entry, hfiles₁, hnum₁]
    exact hbegins.entry
  obtain ⟨s₂, hexec, hflight₂, hid₂, hbase₂, hfiles₂, hnum₂⟩ :=
    more_run events hflight (fun e he => hw e (List.mem_cons_of_mem _ he))
      (hid₁.trans (hbegins.ident.symm.trans hblockId)) (hnum₁.trans hblockNum) hentry₁
      fun block hblock => hcarries.numbered block (List.mem_cons_of_mem _ hblock)
  have hcontent := hcarries.content
  rw [List.map_cons, List.map_cons, List.flatten_cons] at hcontent
  rw [hcontent] at hflight₂
  refine ⟨s₂, (Runs.exec_cons _ _ _ _ _).mpr ⟨s₁, hdeliver, hexec⟩, ?_, hid₂.trans hid₁,
    hbase₂.trans hbase₁, hfiles₂.trans hfiles₁, hnum₂.trans (hnum₁.trans hblockNum)⟩
  have hentry₂ : s₂.2.entry = some entry := by
    rw [Job.entry, hfiles₂, hnum₂]
    exact hentry₁
  intro env hwill
  refine modifyTime_flight hflight₂ hwill hentry₂ ?_ haccepts (hsettles event.1 hwillBegin).root
  rwa [hbase₂, hbase₁]

end Deliver

/-- What a run of deliveries needs of the entries of its job: they stand for the places, and a
place that a file is in the way of is refused. -/
structure Entries (cwd : Location) (dir : Path) (b : Location) (base : Path)
    (entries : List FileEntry) (k : ℕ) (t : Subtree Bytes) (files : List (Path × Bytes)) :
    Prop where
  addresses : ∀ i f, files[i]? = some f → ∃ entry, entries[k + i]? = some entry ∧
    Addresses cwd dir b base entry.name f.1
  refuses : ∀ pre f post u, files = pre ++ f :: post → Received t pre u →
    u.Free (components f.1) ∨ ∀ env d entry, Willing cwd env → Holds cwd dir b d u →
      entries[k + pre.length]? = some entry →
        ∃ text, joinValidatedPath env d base entry.name = .error text

section Run

variable {cwd : Location} {dir : Path} {b : Location} {base : Path} {entries : List FileEntry}
  {codecs : Codecs} {id : Int32}

theorem Entries.next {k : ℕ} {t : Subtree Bytes} {f : Path × Bytes} {files : List (Path × Bytes)}
    (h : Entries cwd dir b base entries k t (f :: files)) (haccepts : Accepts t f.1) :
    Entries cwd dir b base entries (k + 1) (arrived t f.1 f.2) files := by
  refine ⟨fun i g hg => ?_, fun pre g post u heq hreceived => ?_⟩
  · obtain ⟨entry, hentry, ha⟩ := h.addresses (i + 1) g hg
    exact ⟨entry, by rwa [Nat.add_assoc, Nat.add_comm 1], ha⟩
  · rcases h.refuses (f :: pre) g post u (by rw [heq]; rfl) (.cons haccepts hreceived) with
      hfree | herror
    · exact Or.inl hfree
    · refine Or.inr fun env d entry hw hholds hentry => herror env d entry hw hholds ?_
      rwa [List.length_cons, Nat.add_comm pre.length, ← Nat.add_assoc]

/-- The disk of the receiver follows the arrivals, and the job fails where a file is not
accepted. -/
theorem run_received {k : ℕ} {xs : List Bytes} {blocks : List Block}
    (h : Transcript codecs id k xs blocks) (events : List (Env × Block))
    (hevents : (events.map fun event => event.2) = blocks)
    (hw : ∀ event ∈ events, Willing cwd event.1) (s : World × Job) (t : Subtree Bytes)
    (hsettles : Settles cwd dir b s t) (hid : s.2.id = id) (hbase : s.2.base = base)
    (hfiles : s.2.files = entries) (hcount : entries.length ≤ 2 ^ 31)
    (hswitch : s.2.dataStream = none ∨ ∃ j < k, s.2.fileNum = Int32.ofNat j)
    (files : List (Path × Bytes)) (hxs : (files.map fun f => f.2) = xs)
    (hentries : Entries cwd dir b base entries k t files) :
    (∀ t', Received t files t' →
      ∃ s', Runs.exec (deliver codecs) s events = some s' ∧ Settles cwd dir b s' t') ∧
    ∀ s', Runs.exec (deliver codecs) s events = some s' →
      ∃ t', Received t files t' ∧ Settles cwd dir b s' t' := by
  induction h generalizing events s t files with
  | nil k =>
    obtain rfl := List.map_eq_nil_iff.mp hevents
    obtain rfl := List.map_eq_nil_iff.mp hxs
    constructor
    · intro t' hreceived
      cases hreceived
      exact ⟨s, rfl, hsettles⟩
    · intro s' hexec
      obtain rfl := Option.some.inj hexec
      exact ⟨t, .nil t, hsettles⟩
  | cons k x xs first more rest hfile _ ih =>
    obtain ⟨f, files, rfl, rfl, hcontents⟩ := List.map_eq_cons_iff.mp hxs
    obtain ⟨events₁, later, rfl, hevents₁, hlater⟩ := List.map_eq_append_iff.mp hevents
    obtain ⟨event, events, rfl, rfl, hmore⟩ := List.map_eq_cons_iff.mp hevents₁
    have hw₁ : ∀ e ∈ event :: events, Willing cwd e.1 := fun e he =>
      hw e (List.mem_append_left _ he)
    have hwillBegin := hw₁ event List.mem_cons_self
    obtain ⟨entry, hentry, ha⟩ := hentries.addresses 0 f rfl
    rw [Nat.add_zero] at hentry
    have hk : k < entries.length := (List.getElem?_eq_some_iff.mp hentry).1
    obtain ⟨hblockId, hblockNum⟩ := hfile.numbered event.2 List.mem_cons_self
    have hbegins : Begins s.2 event.2 entry := by
      refine ⟨hblockId.trans hid.symm, ?_, ?_⟩
      · rw [hblockNum, hfiles, ReadJob.toIndex_ofNat k (by omega)]
        exact hentry
      · rcases hswitch with hnone | ⟨j, hj, hnum⟩
        · exact Or.inr hnone
        · left
          rw [hblockNum, hnum, ReadJob.toIndex_ofNat k (by omega),
            ReadJob.toIndex_ofNat j (by omega)]
          omega
    rw [← hbase] at ha
    have haccepted : Accepts t f.1 → _ := fun haccepts =>
      file_run event events hsettles hw₁
        (by rw [List.map_cons, hmore]; exact hfile) hbegins ha haccepts
    constructor
    · intro t' hreceived
      cases hreceived with
      | cons haccepts hrest =>
        obtain ⟨s₁, hexec, hsettles₁, hid₁, hbase₁, hfiles₁, hnum₁⟩ := haccepted haccepts
        obtain ⟨s₂, hexec₂, hsettles₂⟩ :=
          (ih later hlater (fun e he => hw e (List.mem_append_right _ he)) s₁ _ hsettles₁
            (hid₁.trans hid) (hbase₁.trans hbase) (hfiles₁.trans hfiles)
            (Or.inr ⟨k, Nat.lt_succ_self k, hnum₁⟩) files hcontents (hentries.next haccepts)).1
              t' hrest
        exact ⟨s₂, (Runs.exec_append _ _ _ _ _).mpr ⟨s₁, hexec, hexec₂⟩, hsettles₂⟩
    · intro s' hexec
      obtain ⟨s₀, hfirst, hrest⟩ := (Runs.exec_append _ _ _ _ _).mp hexec
      obtain ⟨s₁', hdeliver, -⟩ := (Runs.exec_cons _ _ _ _ _).mp hfirst
      have haccepts : Accepts t f.1 := by
        refine accepts_of_begins hsettles hbegins hwillBegin ha ?_ hdeliver
        rcases hentries.refuses [] f files t rfl (.nil t) with hfree | herror
        · exact Or.inl hfree
        · right
          rw [hbase]
          exact herror event.1 _ entry hwillBegin (hsettles event.1 hwillBegin) hentry
      obtain ⟨s₁, hexec₁, hsettles₁, hid₁, hbase₁, hfiles₁, hnum₁⟩ := haccepted haccepts
      obtain rfl := Option.some.inj (hexec₁.symm.trans hfirst)
      obtain ⟨t', hreceived, hsettles₂⟩ :=
        (ih later hlater (fun e he => hw e (List.mem_append_right _ he)) s₁ _ hsettles₁
          (hid₁.trans hid) (hbase₁.trans hbase) (hfiles₁.trans hfiles)
          (Or.inr ⟨k, Nat.lt_succ_self k, hnum₁⟩) files hcontents (hentries.next haccepts)).2
            s' hrest
      exact ⟨t', .cons haccepts hreceived, hsettles₂⟩

end Run

/-- How a write job to the directory `dir` names its files: by their names in the directory, or a
single file by the path of the job alone. -/
inductive Laid (dir : Path) : Path → List FileEntry → List Path → Prop
  | inside (entries : List FileEntry) (hnames : ∀ entry ∈ entries, entry.name ≠ []) :
      Laid dir dir entries (entries.map fun entry => entry.name)
  | single (entry : FileEntry) (place : Path) (hname : entry.name = []) (hplace : place ≠ [])
      (hrelative : isAbsolute place = false) (hdots : ['.', '.'] ∉ components place) :
      Laid dir (join dir place) [entry] [place]

/-- Every path leads to its content, and no other file is in the directory. -/
structure Delivered (cwd : Location) (dir : Path) (files : List (Path × Bytes)) (d : Disk File) :
    Prop where
  content : ∀ f ∈ files, ∃ inode file,
    d.node cwd true (join dir f.1) = some (.file inode file) ∧ file.data = f.2
  tidy : ∀ b p inode file, d.resolve cwd false dir = .at b →
    d.get (b ++ p) = some (.file inode file) → ∃ f ∈ files, p = components f.1

/-- All blocks are taken, and the finished job has delivered the files. -/
def Complete (codecs : Codecs) (cwd : Location) (dir : Path) (files : List (Path × Bytes))
    (s : World × Job) (events : List (Env × Block)) (last : Env) : Prop :=
  ∃ s', Runs.exec (deliver codecs) s events = some s' ∧
    Delivered cwd dir files (modifyTime last s'.2 s'.1).disk

section Complete

variable {cwd : Location} {dir : Path} {b : Location} {base : Path}

theorem bare_free (names : List Name) : bare.Free names := by
  intro pre _ _ x hx
  unfold bare at hx
  split at hx <;> cases hx

theorem entries_of_laid {entries : List FileEntry} {places : List Path} (contents : List Bytes)
    (hlaid : Laid dir base entries places)
    (hvalid : ∀ entry ∈ entries, entry.name ≠ [] →
      validateFileNameNoTraversal entry.name = .ok ()) :
    Entries cwd dir b base entries 0 bare (places.zip contents) ∧
      ∀ entry ∈ entries, ∃ place, Addresses cwd dir b base entry.name place := by
  cases hlaid with
  | inside _ hnames =>
    have haddresses : ∀ entry ∈ entries, Addresses cwd dir b dir entry.name entry.name :=
      fun entry hentry => addresses_name cwd dir b (hnames entry hentry)
        (hvalid entry hentry (hnames entry hentry))
    refine ⟨⟨?_, ?_⟩, fun entry hentry => ⟨_, haddresses entry hentry⟩⟩
    · intro i f hf
      obtain ⟨hplace, -⟩ := List.getElem?_zip_eq_some.mp hf
      rw [List.getElem?_map, Option.map_eq_some_iff] at hplace
      obtain ⟨entry, hentry, heq⟩ := hplace
      refine ⟨entry, by rwa [Nat.zero_add], ?_⟩
      rw [← heq]
      exact haddresses entry (List.mem_of_getElem? hentry)
    · intro pre f post u heq _
      by_cases hfree : u.Free (components f.1)
      · exact Or.inl hfree
      · refine Or.inr fun env d entry hw hholds hentry => ?_
        have hf : ((entries.map fun entry => entry.name).zip contents)[pre.length]? = some f := by
          rw [heq]
          simp
        obtain ⟨hplace, -⟩ := List.getElem?_zip_eq_some.mp hf
        rw [Nat.zero_add] at hentry
        rw [List.getElem?_map, hentry] at hplace
        have hname : entry.name = f.1 := Option.some.inj hplace
        have hmem := List.mem_of_getElem? hentry
        rw [← hname] at hfree
        exact joinValidatedPath_blocked (hvalid entry hmem (hnames entry hmem)) hw hholds hfree
  | single entry place hname hplace hrelative hdots =>
    have ha : Addresses cwd dir b (join dir place) entry.name place := by
      rw [hname]
      exact addresses_single cwd dir b hplace hrelative hdots
    refine ⟨⟨?_, ?_⟩, ?_⟩
    · intro i f hf
      obtain ⟨hfirst, -⟩ := List.getElem?_zip_eq_some.mp hf
      obtain ⟨hi, hf⟩ := List.getElem?_eq_some_iff.mp hfirst
      obtain rfl : i = 0 := by simpa using hi
      refine ⟨entry, rfl, ?_⟩
      rw [← hf]
      exact ha
    · intro pre f post u heq hreceived
      have hlength := congrArg List.length heq
      simp only [List.length_zip, List.length_append, List.length_cons, List.length_nil] at hlength
      obtain rfl : pre = [] := List.eq_nil_of_length_eq_zero (by omega)
      cases hreceived
      exact Or.inl (bare_free _)
    · intro other hother
      rw [List.mem_singleton.mp hother]
      exact ⟨place, ha⟩

theorem delivered_iff {d : Disk File} {t : Subtree Bytes} {files : List (Path × Bytes)}
    (h : Holds cwd dir b d t) (haddresses : ∀ f ∈ files, isAbsolute f.1 = false ∧
      ['.', '.'] ∉ components f.1) : Delivered cwd dir files d ↔ Landed files t := by
  have hcontent : ∀ f ∈ files, (∃ inode file, d.node cwd true (join dir f.1) =
      some (.file inode file) ∧ file.data = f.2) ↔ t (components f.1) = some (.file f.2) := by
    intro f hf
    obtain ⟨hrelative, hdots⟩ := haddresses f hf
    have hbelow := (below_self dir (dir_ne_nil h)).join f.1 hrelative
    rw [List.nil_append] at hbelow
    exact h.node_file_iff hbelow hdots f.2
  constructor
  · intro hdelivered
    refine ⟨fun f hf => (hcontent f hf).mp (hdelivered.content f hf), ?_⟩
    intro c x hx
    obtain ⟨inode, file, hget, -⟩ := h.file hx
    exact hdelivered.tidy b c inode file h.leads hget
  · intro hlanded
    refine ⟨fun f hf => (hcontent f hf).mpr (hlanded.content f hf), ?_⟩
    intro b' p inode file hb hget
    obtain rfl := Found.at.inj (h.leads.symm.trans hb)
    exact hlanded.tidy p file.data (h.of_file hget)

theorem laid_length {entries : List FileEntry} {places : List Path}
    (hlaid : Laid dir base entries places) : places.length = entries.length := by
  cases hlaid with
  | inside _ _ => exact List.length_map _
  | single _ _ _ _ _ _ => rfl

end Complete

/-- A transfer to an empty directory is complete exactly if the names keep out of each other's
way: a file is lost when its name is that of the download or the digest of a later one. -/
theorem transfer_complete_iff (src : Source) (codecs : Codecs)
    (hcodec : ∀ x, codecs.decompress (src.compress x) = x) (items : List (FileEntry × Bytes))
    (hcount : items.length ≤ 2 ^ 31) (srcBase : Path)
    (hopens : ∀ item ∈ items, Opens src srcBase item)
    (id : Int32) (detect : Bool) (reads : List ReadJob.Event)
    (hreads : ∀ event ∈ reads, event ≠ .turn true) (sender : Sender)
    (hrun : Runs.exec (ReadJob.step src)
      ⟨ReadJob.Job.newRead id srcBase (items.map fun item => item.1) 0 detect, []⟩ reads =
        some sender)
    (hend : sender.job.files[toIndex sender.job.fileNum]? = none)
    (cwd : Location) (dir : Path) (b : Location) (w : World) (hempty : Holds cwd dir b w.disk bare)
    (base : Path) (places : List Path) (hlaid : Laid dir base (items.map fun item => item.1) places)
    (env : Env) (fileNum : Int32) (overwrite : Bool) (job : Job)
    (hjob : (Job.newWrite id base fileNum overwrite).setFiles env w.disk
      (items.map fun item => item.1) = .ok job)
    (events : List (Env × Block)) (hevents : (events.map fun event => event.2) = sender.sent)
    (hwilling : ∀ event ∈ events, Willing cwd event.1) (last : Env) (hlast : Willing cwd last) :
    Complete codecs cwd dir (places.zip (items.map fun item => item.2)) (w, job) events last ↔
      Separate (places.zip (items.map fun item => item.2)) := by
  have hsent := ReadJob.transcript_of_run hcodec hcount hopens hreads hrun hend
  obtain ⟨rfl, hvalid⟩ := setFiles_eq hjob
  obtain ⟨hentries, haddressed⟩ := entries_of_laid 
    (items.map fun item => item.2) hlaid hvalid
  have hlength := laid_length hlaid
  have hsettles : Settles cwd dir b
      (w, { Job.newWrite id base fileNum overwrite with
        files := items.map fun item => item.1, totalSize := 0 }) bare := by
    intro env' hw
    refine modifyTime_nothing hempty hw fun entry hentry => ?_
    obtain ⟨place, ha⟩ := haddressed entry (List.mem_of_getElem? hentry)
    refine ⟨place, ha, bare_free _, ?_, ?_⟩
    · rw [downloadAt_eq]
      exact if_neg (by simp)
    · rw [digestAt_eq]
      exact if_neg (by simp)
  have hcontents : (places.zip (items.map fun item => item.2)).map (fun f => f.2) =
      items.map fun item => item.2 := List.map_snd_zip (by simp [hlength])
  obtain ⟨hcompletes, hreceives⟩ := run_received hsent events hevents hwilling _ bare hsettles rfl
    rfl rfl (by simpa using hcount) (Or.inl rfl) _ hcontents hentries
  have hnames : ∀ f ∈ places.zip (items.map fun item => item.2), isAbsolute f.1 = false ∧
      ['.', '.'] ∉ components f.1 := by
    intro f hf
    obtain ⟨i, hi⟩ := List.getElem?_of_mem hf
    obtain ⟨entry, -, ha⟩ := hentries.addresses i f hi
    exact ⟨ha.relative, ha.dots⟩
  constructor
  · rintro ⟨s', hexec, hdelivered⟩
    obtain ⟨t, hreceived, hsettled⟩ := hreceives s' hexec
    exact separate_of_landed hreceived ((delivered_iff (hsettled last hlast) hnames).mp hdelivered)
  · intro hseparate
    obtain ⟨t, hreceived, hlanded⟩ := landed_of_separate hseparate
    obtain ⟨s', hexec, hsettled⟩ := hcompletes t hreceived
    exact ⟨s', hexec, (delivered_iff (hsettled last hlast) hnames).mpr hlanded⟩

deriving instance DecidableEq for Block

def emptyDisk : Disk File := Disk.empty

def sampleOs : Os := ⟨[], fun _ _ => true⟩

def sampleEnv : Env := ⟨sampleOs, 0, "error", true, none⟩

def sampleCodecs : Codecs := ⟨id, fun _ _ => [], fun _ => none⟩

def sampleSource (items : List (FileEntry × Bytes)) : Source :=
  ⟨sampleOs, items.foldl (fun d item => d.add [item.1.name] ⟨item.2, 0, .host⟩) emptyDisk, "error",
    id, fun _ => ReadJob.bufSize⟩

def sampleSender (items : List (FileEntry × Bytes)) : Sender :=
  ⟨ReadJob.Job.newRead 1 "/".toList (items.map fun item => item.1) 0 false, []⟩

def sampleJob (items : List (FileEntry × Bytes)) : Job :=
  { Job.newWrite 1 "/".toList 0 false with files := items.map fun item => item.1 }

def sampleReads (n : ℕ) : List ReadJob.Event := List.replicate n (.turn false)

def sampleFiles (items : List (FileEntry × Bytes)) : List (Path × Bytes) :=
  (items.map fun item => item.1.name).zip (items.map fun item => item.2)

def sampleDeliveries (blocks : List Block) : List (Env × Block) :=
  blocks.map fun block => (sampleEnv, block)

def sampleSent (items : List (FileEntry × Bytes)) (n : ℕ) : Option (List Block × Bool) :=
  (Runs.exec (ReadJob.step (sampleSource items)) (sampleSender items) (sampleReads n)).map
    fun s => (s.sent, (s.job.files[toIndex s.job.fileNum]?).isNone)

theorem willing_sample : Willing [] sampleEnv := ⟨rfl, fun _ _ => rfl, rfl, rfl⟩

theorem holds_emptyDisk : Holds [] "/".toList [] emptyDisk bare := by
  have hget : ∀ c, emptyDisk.get c = if c = [] then some .dir else none := fun c => rfl
  refine ⟨by decide, ?_, rfl, rfl, ?_⟩
  · intro p n hne
    rw [hget, if_neg (by simp)] at hne
    exact absurd rfl hne
  · intro c
    rw [List.nil_append, hget, bare]
    split <;> rfl

def keptItems : List (FileEntry × Bytes) := [(⟨"a".toList, 0⟩, [1, 2]), (⟨"b".toList, 0⟩, [])]

def keptBlocks : List Block :=
  [⟨1, 0, [1, 2], false⟩, ⟨1, 0, [], false⟩, ⟨1, 1, [], false⟩]

theorem keptItems_separate : Separate (sampleFiles keptItems) := by
  refine ⟨by decide, by decide, by decide, ?_⟩
  intro pre f post heq g hg temp htemp hpre
  cases pre with
  | nil => cases hg
  | cons first pre =>
    have htail := (List.cons.inj heq).2
    obtain rfl : first = ("a".toList, [1, 2]) := (List.cons.inj heq).1.symm
    cases pre with
    | nil =>
      obtain rfl : f = ("b".toList, []) := (List.cons.inj htail).1.symm
      obtain rfl := List.mem_singleton.mp hg
      exact absurd (And.intro htemp hpre) (by revert temp; decide)
    | cons second pre =>
      have hlength := congrArg List.length htail
      simp at hlength

theorem transfer_complete_sample :
    Complete sampleCodecs [] "/".toList (sampleFiles keptItems)
    (⟨emptyDisk, []⟩, sampleJob keptItems)
      (sampleDeliveries keptBlocks) sampleEnv := by
  have hsent : sampleSent keptItems 3 = some (keptBlocks, true) := by decide
  obtain ⟨sender, hrun, hsender⟩ := Option.map_eq_some_iff.mp hsent
  obtain ⟨hblocks, hend⟩ := Prod.mk.inj hsender
  have hopens : ∀ item ∈ keptItems, Opens (sampleSource keptItems) "/".toList item := by
    intro item hitem
    rcases List.mem_pair.mp hitem with rfl | rfl
    · exact ⟨0, ⟨[1, 2], 0, .host⟩, by decide, rfl⟩
    · exact ⟨1, ⟨[], 0, .host⟩, by decide, rfl⟩
  exact (transfer_complete_iff (sampleSource keptItems) sampleCodecs (fun _ => rfl) keptItems
    (by decide) "/".toList hopens 1 false (sampleReads 3) (by decide) sender hrun
    (Option.isNone_iff_eq_none.mp hend) [] "/".toList []
      ⟨emptyDisk, []⟩ holds_emptyDisk "/".toList _
    (.inside _ (by decide)) sampleEnv 0 false (sampleJob keptItems) rfl
    (sampleDeliveries keptBlocks) (by rw [hblocks]; rfl)
    (fun event hevent => by
      obtain ⟨block, -, rfl⟩ := List.mem_map.mp hevent
      exact willing_sample) sampleEnv willing_sample).mpr keptItems_separate

def lostItems : List (FileEntry × Bytes) :=
  [(⟨"a.download".toList, 0⟩, [3]), (⟨"a".toList, 0⟩, [1, 2])]

def lostBlocks : List Block :=
  [⟨1, 0, [3], false⟩, ⟨1, 0, [], false⟩, ⟨1, 1, [1, 2], false⟩, ⟨1, 1, [], false⟩]

/-- The names are distinct and valid, the blocks are those of the read job, and the first file is
not there in the end. -/
theorem download_name_lost :
    (lostItems.map fun item => item.1.name).Nodup ∧
      sampleSent lostItems 4 = some (lostBlocks, true) ∧
      (Job.newWrite 1 "/".toList 0 false).setFiles sampleEnv emptyDisk
        (lostItems.map fun item => item.1) = .ok (sampleJob lostItems) ∧
      Holds [] "/".toList [] emptyDisk bare ∧
      ¬ Complete sampleCodecs [] "/".toList (sampleFiles lostItems)
        (⟨emptyDisk, []⟩, sampleJob lostItems) (sampleDeliveries lostBlocks) sampleEnv := by
  refine ⟨by decide, by decide, rfl, holds_emptyDisk, ?_⟩
  rintro ⟨s', hexec, hdelivered⟩
  have hgone : (Runs.exec (deliver sampleCodecs) (⟨emptyDisk, []⟩, sampleJob lostItems)
      (sampleDeliveries lostBlocks)).map (fun s =>
        ((modifyTime sampleEnv s.2 s.1).disk.node [] true "/a.download".toList).isNone) =
      some true := by decide
  rw [hexec, Option.map_some] at hgone
  obtain ⟨inode, file, hnode, -⟩ := hdelivered.content ("a.download".toList, [3]) (by decide)
  have hpath : join "/".toList "a.download".toList = "/a.download".toList := by decide
  rw [hpath] at hnode
  rw [hnode] at hgone
  cases hgone

end ClantoDesk.FileTransfer
