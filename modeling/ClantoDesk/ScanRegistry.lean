import ClantoDesk.FileScan

/-!
The registry of the jobs that are scanned, src/clanto/file_scan.rs, over any sequence of
registrations and releases. Here the map of reserved paths changes one path at a time, as in the
source. A registration and a release hold the lock of the registry, so that they are steps.
-/
namespace ClantoDesk.ScanRegistry

open FileSystem TransferJob FileScan

def insert (reservations : List (Location × JobOwner)) (key : Location) (owner : JobOwner) :
    List (Location × JobOwner) :=
  (key, owner) :: reservations.filter fun k => k.1 ≠ key

def remove (reservations : List (Location × JobOwner)) (key : Location) :
    List (Location × JobOwner) :=
  reservations.filter fun k => k.1 ≠ key

def get {α β : Type} [DecidableEq α] (m : List (α × β)) (key : α) : Option β :=
  (m.find? fun k => k.1 = key).map fun k => k.2

def registerScanJob (env : Env) (mode : ScanMode) (d : Disk File) (job : Job) (r : JobRegistry) :
    JobRegistry × Option String :=
  let owner := jobOwner job
  if mode = .off then (r, none)
  else
    match downloadPaths env d job with
    | .error _ => (r, some blockedScanMessage)
    | .ok paths =>
      let keys := paths.map (normalizePath env.os.cwd)
      if ¬ keys.Nodup ∨ (r.get owner).isSome ∨
          (keys.any fun key => (get r.reservations key).any fun other => other ≠ owner) then
        (r, some blockedScanMessage)
      else
        ({ jobs := (owner, ⟨mode, keys⟩) :: r.jobs
           reservations := keys.foldl (fun m key => insert m key owner) r.reservations }, none)

def releaseScanJob (job : Job) (r : JobRegistry) : JobRegistry :=
  let owner := jobOwner job
  match r.get owner with
  | none => r
  | some registered =>
    { jobs := r.jobs.filter fun j => j.1 ≠ owner
      reservations := registered.reservedPaths.foldl
        (fun m path => if get m path = some owner then remove m path else m) r.reservations }

inductive Operation
  | register (env : Env) (mode : ScanMode) (d : Disk File) (job : Job)
  | release (job : Job)

def step (r : JobRegistry) : Operation → JobRegistry
  | .register env mode d job => (registerScanJob env mode d job r).1
  | .release job => releaseScanJob job r

def run (operations : List Operation) : JobRegistry := operations.foldl step ⟨[], []⟩

structure Consistent (r : JobRegistry) : Prop where
  owners : (r.jobs.map fun j => j.1).Nodup
  keys : (r.reservations.map fun k => k.1).Nodup
  exact : ∀ key owner, (key, owner) ∈ r.reservations ↔
    ∃ job, (owner, job) ∈ r.jobs ∧ key ∈ job.reservedPaths

theorem get_eq_some {α β : Type} [DecidableEq α] {m : List (α × β)}
    (hm : (m.map fun k => k.1).Nodup) (key : α) (value : β) :
    get m key = some value ↔ (key, value) ∈ m := by
  induction m with
  | nil => simp [get]
  | cons k m ih =>
    rw [List.map_cons, List.nodup_cons] at hm
    unfold get at ih ⊢
    by_cases hk : k.1 = key
    · rw [List.find?_cons_of_pos (by simpa using hk), Option.map_some, List.mem_cons]
      constructor
      · intro h
        exact Or.inl (Prod.ext hk.symm (Option.some.inj h).symm)
      · rintro (rfl | hmem)
        · rfl
        · exact absurd (List.mem_map_of_mem hmem) (hk ▸ hm.1)
    · rw [List.find?_cons_of_neg (by simpa using hk), ih hm.2, List.mem_cons]
      refine ⟨Or.inr, fun h => h.resolve_left ?_⟩
      rintro rfl
      exact hk rfl

section Map

variable {m : List (Location × JobOwner)}

theorem nodup_remove (hm : (m.map fun k => k.1).Nodup) (key : Location) :
    ((remove m key).map fun k => k.1).Nodup :=
  hm.sublist (List.filter_sublist.map _)

theorem mem_remove (key : Location) (k : Location × JobOwner) :
    k ∈ remove m key ↔ k ∈ m ∧ k.1 ≠ key := by
  simp [remove]

theorem nodup_insert (hm : (m.map fun k => k.1).Nodup) (key : Location) (owner : JobOwner) :
    ((insert m key owner).map fun k => k.1).Nodup := by
  rw [insert, List.map_cons, List.nodup_cons]
  refine ⟨?_, nodup_remove hm key⟩
  intro hmem
  obtain ⟨k, hk, heq⟩ := List.mem_map.mp hmem
  exact ((mem_remove key k).mp hk).2 heq

theorem mem_insert (key : Location) (owner : JobOwner) (k : Location × JobOwner) :
    k ∈ insert m key owner ↔ k = (key, owner) ∨ k ∈ m ∧ k.1 ≠ key := by
  simp [insert]

theorem insert_all (owner : JobOwner) (keys : List Location) (hm : (m.map fun k => k.1).Nodup)
    (hfree : ∀ key ∈ keys, ∀ other, (key, other) ∈ m → other = owner) :
    ((keys.foldl (fun m key => insert m key owner) m).map fun k => k.1).Nodup ∧
      ∀ k, k ∈ keys.foldl (fun m key => insert m key owner) m ↔
        (k.1 ∈ keys ∧ k.2 = owner) ∨ k ∈ m := by
  induction keys generalizing m with
  | nil => simpa using hm
  | cons key keys ih =>
    have hnext := ih (nodup_insert hm key owner) (by
      intro other hother holder hmem
      rcases (mem_insert key owner _).mp hmem with heq | ⟨hold, -⟩
      · exact (Prod.mk.inj heq).2
      · exact hfree other (List.mem_cons_of_mem _ hother) holder hold)
    refine ⟨hnext.1, fun k => ?_⟩
    rw [List.foldl_cons, hnext.2 k, mem_insert, List.mem_cons]
    constructor
    · rintro (⟨hmem, howner⟩ | rfl | ⟨hold, -⟩)
      · exact Or.inl ⟨Or.inr hmem, howner⟩
      · exact Or.inl ⟨Or.inl rfl, rfl⟩
      · exact Or.inr hold
    · rintro (⟨rfl | hmem, howner⟩ | hold)
      · exact Or.inr (Or.inl (Prod.ext rfl howner))
      · exact Or.inl ⟨hmem, howner⟩
      · by_cases hkey : k.1 = key
        · have howner := hfree key List.mem_cons_self k.2 (by rw [← hkey]; exact hold)
          exact Or.inr (Or.inl (Prod.ext hkey howner))
        · exact Or.inr (Or.inr ⟨hold, hkey⟩)

theorem remove_all (owner : JobOwner) (paths : List Location) (hm : (m.map fun k => k.1).Nodup) :
    ((paths.foldl (fun m path => if get m path = some owner then remove m path else m) m).map
        fun k => k.1).Nodup ∧
      ∀ k, k ∈ paths.foldl (fun m path => if get m path = some owner then remove m path else m) m ↔
        k ∈ m ∧ ¬ (k.1 ∈ paths ∧ k.2 = owner) := by
  induction paths generalizing m with
  | nil => simpa using hm
  | cons path paths ih =>
    have hone : ((if get m path = some owner then remove m path else m).map fun k => k.1).Nodup ∧
        ∀ k, k ∈ (if get m path = some owner then remove m path else m) ↔
          k ∈ m ∧ ¬ (k.1 = path ∧ k.2 = owner) := by
      by_cases hget : get m path = some owner
      · rw [if_pos hget]
        refine ⟨nodup_remove hm path, fun k => ?_⟩
        rw [mem_remove]
        refine and_congr_right fun hk => not_congr ⟨fun hpath => ⟨hpath, ?_⟩, fun h => h.1⟩
        have hown : get m path = some k.2 := (get_eq_some hm path k.2).mpr
            (by rw [← hpath]; exact hk)
        exact Option.some.inj (hown.symm.trans hget)
      · rw [if_neg hget]
        refine ⟨hm, fun k => ⟨fun hk => ⟨hk, ?_⟩, fun h => h.1⟩⟩
        rintro ⟨rfl, rfl⟩
        exact hget ((get_eq_some hm k.1 k.2).mpr hk)
    obtain ⟨hnodup, hmem⟩ := ih hone.1
    refine ⟨hnodup, fun k => ?_⟩
    rw [List.foldl_cons, hmem k, hone.2 k, List.mem_cons]
    tauto

end Map

section Table

variable {r : JobRegistry}

theorem get_job_eq_some (h : (r.jobs.map fun j => j.1).Nodup) (owner : JobOwner)
    (job : RegisteredJob) : r.get owner = some job ↔ (owner, job) ∈ r.jobs :=
  get_eq_some h owner job

theorem Consistent.reservedBy_eq (h : Consistent r) (key : Location) (owner : JobOwner) :
    r.reservedBy key = some owner ↔ ∃ job, r.get owner = some job ∧ key ∈ job.reservedPaths := by
  have hget : r.reservedBy key = get r.reservations key := rfl
  rw [hget, get_eq_some h.keys, h.exact]
  simp only [get_job_eq_some h.owners]

theorem registerScanJob_cases (env : Env) (mode : ScanMode) (d : Disk File) (job : Job)
    (r : JobRegistry) :
    (registerScanJob env mode d job r = (r, none) ∧ mode = .off) ∨
      (∃ text, registerScanJob env mode d job r = (r, some text)) ∨
      ∃ paths, mode ≠ .off ∧ downloadPaths env d job = .ok paths ∧
        (paths.map (normalizePath env.os.cwd)).Nodup ∧ r.get (jobOwner job) = none ∧
        (∀ key ∈ paths.map (normalizePath env.os.cwd), ∀ other,
          get r.reservations key = some other → other = jobOwner job) ∧
        registerScanJob env mode d job r =
          (⟨(jobOwner job, ⟨mode, paths.map (normalizePath env.os.cwd)⟩) :: r.jobs,
            (paths.map (normalizePath env.os.cwd)).foldl (fun m key => insert m key (jobOwner job))
              r.reservations⟩, none) := by
  unfold registerScanJob
  simp only
  split
  · rename_i hoff
    exact Or.inl ⟨rfl, hoff⟩
  · rename_i hon
    split
    · exact Or.inr (Or.inl ⟨_, rfl⟩)
    · rename_i paths hpaths
      split
      · exact Or.inr (Or.inl ⟨_, rfl⟩)
      · rename_i hfree
        rw [not_or, not_or, not_not] at hfree
        obtain ⟨hnodup, hnone, hothers⟩ := hfree
        refine Or.inr (Or.inr ⟨paths, hon, hpaths, hnodup, by simpa using hnone, ?_, rfl⟩)
        intro key hkey other hother
        by_contra hne
        exact hothers (List.any_eq_true.mpr ⟨key, hkey, by simpa [hother] using hne⟩)

theorem consistent_registerScanJob (h : Consistent r) (env : Env) (mode : ScanMode) (d : Disk File)
    (job : Job) : Consistent (registerScanJob env mode d job r).1 := by
  rcases registerScanJob_cases env mode d job r with
    ⟨heq, -⟩ | ⟨text, heq⟩ | ⟨paths, -, -, -, hnone, hfree, heq⟩
  · rw [heq]
    exact h
  · rw [heq]
    exact h
  · rw [heq]
    have hmap := insert_all (m := r.reservations) (jobOwner job)
        (paths.map (normalizePath env.os.cwd))
      h.keys fun key hkey other hmem => hfree key hkey other
        ((get_eq_some h.keys key other).mpr hmem)
    refine ⟨?_, hmap.1, fun key owner => ?_⟩
    · rw [List.map_cons, List.nodup_cons]
      refine ⟨?_, h.owners⟩
      intro hmem
      obtain ⟨j, hj, hjob⟩ := List.mem_map.mp hmem
      have hsome := (get_job_eq_some h.owners j.1 j.2).mpr hj
      rw [hjob, hnone] at hsome
      cases hsome
    · rw [hmap.2, h.exact]
      simp only [List.mem_cons]
      constructor
      · rintro (⟨hkey, rfl⟩ | ⟨registered, hmem, hkey⟩)
        · exact ⟨_, Or.inl rfl, hkey⟩
        · exact ⟨registered, Or.inr hmem, hkey⟩
      · rintro ⟨registered, hnew | hold, hkey⟩
        · obtain ⟨rfl, rfl⟩ := Prod.mk.inj hnew
          exact Or.inl ⟨hkey, rfl⟩
        · exact Or.inr ⟨registered, hold, hkey⟩

theorem releaseScanJob_none (job : Job) (hnone : r.get (jobOwner job) = none) :
    releaseScanJob job r = r := by
  unfold releaseScanJob
  simp only [hnone]

theorem releaseScanJob_some (job : Job) {registered : RegisteredJob}
    (hsome : r.get (jobOwner job) = some registered) :
    releaseScanJob job r = ⟨r.jobs.filter fun j => j.1 ≠ jobOwner job,
      registered.reservedPaths.foldl
        (fun m path => if get m path = some (jobOwner job) then remove m path else m)
        r.reservations⟩ := by
  unfold releaseScanJob
  simp only [hsome]

theorem consistent_releaseScanJob (h : Consistent r) (job : Job) :
    Consistent (releaseScanJob job r) := by
  cases hget : r.get (jobOwner job) with
  | none =>
    rw [releaseScanJob_none job hget]
    exact h
  | some registered =>
    rw [releaseScanJob_some job hget]
    have hmap := remove_all (m := r.reservations) (jobOwner job) registered.reservedPaths h.keys
    have hregistered := (get_job_eq_some h.owners _ _).mp hget
    refine ⟨h.owners.sublist (List.filter_sublist.map _), hmap.1, fun key owner => ?_⟩
    rw [hmap.2, h.exact]
    simp only [List.mem_filter, decide_eq_true_eq]
    constructor
    · rintro ⟨⟨other, hmem, hkey⟩, hfree⟩
      refine ⟨other, ⟨hmem, ?_⟩, hkey⟩
      rintro rfl
      have hsame := List.inj_on_of_nodup_map h.owners hmem hregistered rfl
      exact hfree ⟨by rw [← (Prod.mk.inj hsame).2]; exact hkey, rfl⟩
    · rintro ⟨other, ⟨hmem, hne⟩, hkey⟩
      exact ⟨⟨other, hmem, hkey⟩, fun hfree => hne hfree.2⟩

end Table

theorem consistent_run (operations : List Operation) : Consistent (run operations) := by
  have hempty : Consistent ⟨[], []⟩ := ⟨List.nodup_nil, List.nodup_nil, by simp⟩
  refine List.foldlRecOn operations step hempty ?_
  intro r h operation _
  cases operation with
  | register env mode d job => exact consistent_registerScanJob h env mode d job
  | release job => exact consistent_releaseScanJob h job

/-- What a caller sees of a registration: a failure leaves the registry as it was, and a success
adds the job with its paths, unless nothing is scanned. -/
def Registers (env : Env) (mode : ScanMode) (d : Disk File) (job : Job) (r r' : JobRegistry) :
    Option String → Prop
  | some _ => r' = r
  | none => (mode = .off ∧ r' = r) ∨ ∃ paths, downloadPaths env d job = .ok paths ∧
      ∀ owner, r'.get owner = if owner = jobOwner job then
        some ⟨mode, paths.map (normalizePath env.os.cwd)⟩ else r.get owner

/-- The map of reservations is the disjoint union of the paths of the jobs, a release frees the
paths of its job, and a registration adds one job or nothing. -/
structure Exclusive (r : JobRegistry) : Prop where
  union : ∀ key owner, r.reservedBy key = some owner ↔
    ∃ job, r.get owner = some job ∧ key ∈ job.reservedPaths
  disjoint : ∀ owner other job job', r.get owner = some job → r.get other = some job' →
    ∀ key ∈ job.reservedPaths, key ∈ job'.reservedPaths → owner = other
  released : ∀ job owner, (releaseScanJob job r).get owner =
    if owner = jobOwner job then none else r.get owner
  freed : ∀ job key, (releaseScanJob job r).reservedBy key =
    if r.reservedBy key = some (jobOwner job) then none else r.reservedBy key
  registers : ∀ env mode d job, Registers env mode d job r (registerScanJob env mode d job r).1
    (registerScanJob env mode d job r).2

section Reachable

variable {r : JobRegistry} (h : Consistent r)

include h

theorem get_releaseScanJob (job : Job) (owner : JobOwner) :
    (releaseScanJob job r).get owner = if owner = jobOwner job then none else r.get owner := by
  refine Option.ext fun other => ?_
  have hreleased := consistent_releaseScanJob h job
  cases hget : r.get (jobOwner job) with
  | none =>
    rw [releaseScanJob_none job hget]
    split
    · rename_i hown
      rw [hown, hget]
    · rfl
  | some registered =>
    rw [get_job_eq_some hreleased.owners, releaseScanJob_some job hget]
    simp only [List.mem_filter, decide_eq_true_eq]
    split
    · rename_i hown
      simp [hown]
    · rename_i hother
      rw [get_job_eq_some h.owners]
      exact and_iff_left hother

theorem reservedBy_releaseScanJob (job : Job) (key : Location) :
    (releaseScanJob job r).reservedBy key =
      if r.reservedBy key = some (jobOwner job) then none else r.reservedBy key := by
  refine Option.ext fun owner => ?_
  rw [(consistent_releaseScanJob h job).reservedBy_eq]
  simp only [get_releaseScanJob h job]
  constructor
  · rintro ⟨other, hother, hkey⟩
    split at hother
    · cases hother
    · rename_i hne
      have hold := (h.reservedBy_eq key owner).mpr ⟨other, hother, hkey⟩
      rw [if_neg]
      · exact hold
      · rw [hold]
        exact fun heq => hne (Option.some.inj heq)
  · intro hold
    split at hold
    · cases hold
    · rename_i hne
      obtain ⟨other, hother, hkey⟩ := (h.reservedBy_eq key owner).mp hold
      refine ⟨other, ?_, hkey⟩
      rw [if_neg]
      · exact hother
      · rintro rfl
        exact hne hold

theorem registers_registerScanJob (env : Env) (mode : ScanMode) (d : Disk File) (job : Job) :
    Registers env mode d job r (registerScanJob env mode d job r).1
      (registerScanJob env mode d job r).2 := by
  rcases registerScanJob_cases env mode d job r with
    ⟨heq, hoff⟩ | ⟨text, heq⟩ | ⟨paths, -, hpaths, -, -, -, heq⟩
  · rw [heq]
    exact Or.inl ⟨hoff, rfl⟩
  · rw [heq]
    exact rfl
  · have hnew := consistent_registerScanJob h env mode d job
    rw [heq] at hnew ⊢
    refine Or.inr ⟨paths, hpaths, fun owner => ?_⟩
    refine Option.ext fun other => ?_
    rw [get_job_eq_some hnew.owners, List.mem_cons]
    have howners := hnew.owners
    rw [List.map_cons, List.nodup_cons] at howners
    split
    · rename_i hown
      subst hown
      constructor
      · rintro (hnew | hold)
        · rw [(Prod.mk.inj hnew).2]
        · exact absurd (List.mem_map_of_mem hold) howners.1
      · intro hsome
        exact Or.inl (Prod.ext rfl (Option.some.inj hsome).symm)
    · rename_i hother
      rw [get_job_eq_some h.owners]
      refine ⟨fun hmem => hmem.resolve_left ?_, Or.inr⟩
      exact fun heq => hother (Prod.mk.inj heq).1

theorem Consistent.exclusive : Exclusive r := by
  refine ⟨h.reservedBy_eq, ?_, get_releaseScanJob h, reservedBy_releaseScanJob h,
    registers_registerScanJob h⟩
  intro owner other job job' hjob hjob' key hkey hkey'
  have hone := (h.reservedBy_eq key owner).mpr ⟨job, hjob, hkey⟩
  have htwo := (h.reservedBy_eq key other).mpr ⟨job', hjob', hkey'⟩
  exact Option.some.inj (hone.symm.trans htwo)

end Reachable

/-- After any sequence of registrations and releases. -/
theorem registry_exclusive (operations : List Operation) : Exclusive (run operations) :=
  (consistent_run operations).exclusive

end ClantoDesk.ScanRegistry
