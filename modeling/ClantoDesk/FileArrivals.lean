import ClantoDesk.FileTree
import ClantoDesk.TransferJob

/-!
What a transfer means for the directory it goes to. A file arrives at the place its name
leads to, by way of a download and a digest beside it; what stood at these two places is gone
afterwards. A list of files arrives whole exactly if the names keep out of each other's way,
and this depends on their order.
-/
namespace ClantoDesk.FileArrivals

open FileSystem TransferJob
open TenantKeys (Bytes)

def downloadAt (place : Path) : List Name := components (place ++ downloadSuffix)

def digestAt (place : Path) : List Name := components (place ++ digestSuffix)

def prepared (t : Subtree Bytes) (place : Path) :
    Subtree Bytes := t.mkdirs (components place).dropLast

/-- The file can be received: its download and its digest can be opened. -/
structure Accepts (t : Subtree Bytes) (place : Path) : Prop where
  free : t.Free (components place)
  way : prepared t place (leadingNames place) = some .dir
  download : t (downloadAt place) ≠ some .dir
  digest : t (digestAt place) ≠ some .dir

/-- What the directory holds after the file. A directory in the place of the file stays there,
and the download is left beside it. -/
def arrived (t : Subtree Bytes) (place : Path) (x : Bytes) : Subtree Bytes :=
  let t := prepared t place
  if t (components place) = some .dir then
    (t.set (digestAt place) none).set (downloadAt place) (some (.file x))
  else
    ((t.set (digestAt place) none).set (downloadAt place) none).set (components place)
      (some (.file x))

inductive Received : Subtree Bytes → List (Path × Bytes) → Subtree Bytes → Prop
  | nil (t : Subtree Bytes) : Received t [] t
  | cons {t t' : Subtree Bytes} {file : Path × Bytes} {files : List (Path × Bytes)}
      (haccepts : Accepts t file.1) (hrest : Received (arrived t file.1 file.2) files t') :
      Received t (file :: files) t'

def bare : Subtree Bytes := fun c => if c = [] then some .dir else none

/-- Every file stands at its place with its content, and there is no other file. -/
structure Landed (files : List (Path × Bytes)) (t : Subtree Bytes) : Prop where
  content : ∀ f ∈ files, t (components f.1) = some (.file f.2)
  tidy : ∀ c x, t c = some (.file x) → ∃ f ∈ files, c = components f.1

/-- Every name ends in a name, no name leads below another, names for one place come with one
content, and a name that comes before a file is not at or below the download or the digest
of that file, unless another name leads there again later. -/
structure Separate (files : List (Path × Bytes)) : Prop where
  proper : ∀ f ∈ files, Proper f.1
  apart : ∀ f ∈ files, ∀ g ∈ files, components f.1 <+: components g.1 →
    components f.1 = components g.1
  same : ∀ f ∈ files, ∀ g ∈ files, components f.1 = components g.1 → f.2 = g.2
  clear : ∀ pre f post, files = pre ++ f :: post → ∀ g ∈ pre,
    ∀ temp ∈ [downloadAt f.1, digestAt f.1], temp <+: components g.1 →
      temp = components g.1 ∧ ∃ h ∈ post, components h.1 = temp

variable (t : Subtree Bytes) (place : Path) (x : Bytes)

theorem downloadAt_eq :
    downloadAt place = leadingNames place ++ [lastSegment place ++ downloadSuffix] :=
  components_append place downloadSuffix (by decide) (by decide)

theorem digestAt_eq : digestAt place = leadingNames place ++ [lastSegment place ++ digestSuffix] :=
  components_append place digestSuffix (by decide) (by decide)

theorem downloadAt_ne_digestAt : downloadAt place ≠ digestAt place := by
  intro heq
  rw [downloadAt_eq, digestAt_eq] at heq
  have hlast := List.append_cancel_left heq
  exact absurd (List.append_cancel_left (List.singleton_inj.mp hlast)) (by decide)

theorem beside (suffix : Path) (temp : List Name) (hsuffix : suffix ≠ [])
    (htemp : temp = leadingNames place ++ [lastSegment place ++ suffix]) :
    temp ≠ components place ∧ ¬ temp <+: (components place).dropLast ∧
      ∀ c, c <+: components place → c ≠ components place → temp ≠ c := by
  have hlength : temp.length = (leadingNames place).length + 1 := by simp [htemp]
  by_cases hproper : Proper place
  · rw [components_of_proper place hproper, List.dropLast_concat]
    refine ⟨?_, ?_, ?_⟩
    · intro heq
      rw [htemp] at heq
      have hlast := List.singleton_inj.mp (List.append_cancel_left heq)
      exact hsuffix (List.append_right_eq_self.mp hlast)
    · intro hpre
      have := hpre.length_le
      omega
    · rintro c hc hne rfl
      have hshort := (List.prefix_concat_iff.mp hc).resolve_left hne
      have := hshort.length_le
      omega
  · rw [components_of_not_proper place hproper]
    have hlong : ∀ c, c <+: leadingNames place → temp ≠ c := by
      rintro c hc rfl
      have := hc.length_le
      omega
    refine ⟨hlong _ (List.prefix_refl _), ?_, fun c hc _ => hlong c hc⟩
    intro hpre
    have := (hpre.trans (List.dropLast_prefix _)).length_le
    omega

theorem beside_download :
    downloadAt place ≠ components place ∧ ¬ downloadAt place <+: (components place).dropLast ∧
      ∀ c, c <+: components place → c ≠ components place → downloadAt place ≠ c :=
  beside place downloadSuffix _ (by decide) (downloadAt_eq place)

theorem beside_digest :
    digestAt place ≠ components place ∧ ¬ digestAt place <+: (components place).dropLast ∧
      ∀ c, c <+: components place → c ≠ components place → digestAt place ≠ c :=
  beside place digestSuffix _ (by decide) (digestAt_eq place)

theorem prepared_beside :
    prepared t place (downloadAt place) = t (downloadAt place) ∧
      prepared t place (digestAt place) = t (digestAt place) :=
  ⟨t.mkdirs_of_not_prefix _ _ (beside_download place).2.1,
    t.mkdirs_of_not_prefix _ _ (beside_digest place).2.1⟩

theorem arrived_download (hfinal : prepared t place (components place) ≠ some .dir) :
    arrived t place x (downloadAt place) = none := by
  rw [arrived, if_neg hfinal, Subtree.set_of_ne _ _ _ _ (beside_download place).1, Subtree.set_self]

theorem arrived_digest (hfinal : prepared t place (components place) ≠ some .dir) :
    arrived t place x (digestAt place) = none := by
  rw [arrived, if_neg hfinal, Subtree.set_of_ne _ _ _ _ (beside_digest place).1,
    Subtree.set_of_ne _ _ _ _ (Ne.symm (downloadAt_ne_digestAt place)), Subtree.set_self]

theorem arrived_final (hfinal : prepared t place (components place) ≠ some .dir) :
    arrived t place x (components place) = some (.file x) := by
  rw [arrived, if_neg hfinal, Subtree.set_self]

theorem arrived_other (c : Location)
    (hdownload : c ≠ downloadAt place) (hdigest : c ≠ digestAt place)
    (hfinal : c = components place → prepared t place (components place) = some .dir) :
    arrived t place x c = prepared t place c := by
  unfold arrived
  split
  · rw [Subtree.set_of_ne _ _ _ _ hdownload, Subtree.set_of_ne _ _ _ _ hdigest]
  · rename_i hnot
    rw [Subtree.set_of_ne _ _ _ _ (fun heq => hnot (hfinal heq)),
      Subtree.set_of_ne _ _ _ _ hdownload, Subtree.set_of_ne _ _ _ _ hdigest]

theorem arrived_dir (h : Accepts t place)
    (c : Location) (hc : prepared t place c = some .dir) : arrived t place x c = some .dir := by
  obtain ⟨hdownload, hdigest⟩ := prepared_beside t place
  rw [arrived_other t place x c ?_ ?_ ?_, hc]
  · rintro rfl
    rw [hdownload] at hc
    exact h.download hc
  · rintro rfl
    rw [hdigest] at hc
    exact h.digest hc
  · rintro rfl
    exact hc

theorem prepared_dir (c : Location) (hc : t c = some .dir) : prepared t place c = some .dir := by
  rw [prepared, t.mkdirs_of_some _ _ (by simp [hc]), hc]

theorem Received.dir {t t' : Subtree Bytes} {files : List (Path × Bytes)} (h : Received t files t')
    (c : Location) (hc : t c = some .dir) : t' c = some .dir := by
  induction h with
  | nil t => exact hc
  | cons haccepts _ ih => exact ih (arrived_dir _ _ _ haccepts c (prepared_dir _ _ c hc))

theorem Received.split {t t' : Subtree Bytes} {pre post : List (Path × Bytes)}
    (h : Received t (pre ++ post) t') : ∃ u, Received t pre u ∧ Received u post t' := by
  induction pre generalizing t with
  | nil => exact ⟨t, .nil t, h⟩
  | cons file pre ih =>
    cases h with
    | cons haccepts hrest =>
      obtain ⟨u, hpre, hpost⟩ := ih hrest
      exact ⟨u, .cons haccepts hpre, hpost⟩

theorem Received.concat {t u : Subtree Bytes} {pre : List (Path × Bytes)} (h : Received t pre u)
    (file : Path × Bytes) (haccepts : Accepts u file.1) :
    Received t (pre ++ [file]) (arrived u file.1 file.2) := by
  induction h with
  | nil t => exact .cons haccepts (.nil _)
  | cons hfirst _ ih => exact .cons hfirst (ih haccepts)

theorem prefix_dropLast {c names : List Name} (hc : c <+: names) (hne : c ≠ names) :
    c <+: names.dropLast := by
  cases hlast : names.getLast? with
  | none =>
    obtain rfl := List.getLast?_eq_none_iff.mp hlast
    exact absurd (List.prefix_nil.mp hc) hne
  | some n =>
    obtain ⟨pre, rfl⟩ := List.getLast?_eq_some_iff.mp hlast
    rw [List.dropLast_concat]
    exact (List.prefix_concat_iff.mp hc).resolve_left hne

theorem Accepts.parents {t : Subtree Bytes} {place : Path} (h : Accepts t place)
    (hroot : t [] = some .dir) (c : Location) (hc : c <+: (components place).dropLast) :
    prepared t place c = some .dir := by
  refine t.mkdirs_dir _ c hc fun x hx => ?_
  by_cases heq : c = components place
  · have hlength := hc.length_le
    rw [heq, List.length_dropLast] at hlength
    have hnil : components place = [] := List.eq_nil_of_length_eq_zero (by omega)
    rw [heq, hnil, hroot] at hx
    cases hx
  · exact h.free c (hc.trans (List.dropLast_prefix _)) heq x hx

theorem Accepts.final_way {t : Subtree Bytes} {place : Path} (h : Accepts t place)
    (hroot : t [] = some .dir) : (prepared t place).Way (components place) :=
  fun c hc hne => h.parents hroot c (prefix_dropLast hc hne)

theorem Received.parents {t t' : Subtree Bytes} {files : List (Path × Bytes)}
    (h : Received t files t') (hroot : t [] = some .dir) (f : Path × Bytes) (hf : f ∈ files)
    (c : Location) (hc : c <+: (components f.1).dropLast) : t' c = some .dir := by
  obtain ⟨pre, post, rfl⟩ := List.append_of_mem hf
  obtain ⟨u, hpre, hpost⟩ := h.split
  cases hpost with
  | cons haccepts hrest =>
    refine hrest.dir c (arrived_dir u f.1 f.2 haccepts c ?_)
    exact haccepts.parents (hpre.dir [] hroot) c hc

/-- What is no file at a place does not become one by files that go elsewhere. -/
theorem Received.lost {t t' : Subtree Bytes} {files : List (Path × Bytes)} (h : Received t files t')
    (hfinal : ∀ f ∈ files, t' (components f.1) ≠ some .dir) (c : Location)
    (hc : ∀ f ∈ files, components f.1 ≠ c) (hnot : ∀ x, t c ≠ some (.file x)) (x : Bytes) :
    t' c ≠ some (.file x) := by
  induction h with
  | nil t => exact hnot x
  | @cons t t' file files haccepts hrest ih =>
    have hdir : prepared t file.1 (components file.1) ≠ some .dir := fun hdir =>
      hfinal file List.mem_cons_self
        (hrest.dir _ (arrived_dir t file.1 file.2 haccepts _ hdir))
    refine ih (fun f hf => hfinal f (List.mem_cons_of_mem _ hf))
      (fun f hf => hc f (List.mem_cons_of_mem _ hf)) fun y => ?_
    by_cases hdownload : c = downloadAt file.1
    · rw [hdownload, arrived_download t file.1 file.2 hdir]
      simp
    · by_cases hdigest : c = digestAt file.1
      · rw [hdigest, arrived_digest t file.1 file.2 hdir]
        simp
      · rw [arrived_other t file.1 file.2 c hdownload hdigest fun heq =>
          absurd heq.symm (hc file List.mem_cons_self)]
        intro hfile
        exact hnot y ((t.mkdirs_file_iff _ c y).mp hfile)

theorem separate_of_landed {t : Subtree Bytes} {files : List (Path × Bytes)}
    (h : Received bare files t) (hlanded : Landed files t) : Separate files := by
  have hroot : bare [] = some .dir := rfl
  have hnotDir : ∀ f ∈ files, t (components f.1) ≠ some .dir := by
    intro f hf hdir
    rw [hlanded.content f hf] at hdir
    cases hdir
  refine ⟨?_, ?_, ?_, ?_⟩
  · intro f hf
    by_contra hproper
    obtain ⟨pre, post, rfl⟩ := List.append_of_mem hf
    obtain ⟨u, -, hpost⟩ := h.split
    cases hpost with
    | cons haccepts hrest =>
      apply hnotDir f hf
      refine hrest.dir _ (arrived_dir u f.1 f.2 haccepts _ ?_)
      rw [components_of_not_proper f.1 hproper]
      exact haccepts.way
  · intro f hf g hg hpre
    by_contra hne
    exact hnotDir f hf (h.parents hroot g hg _ (prefix_dropLast hpre hne))
  · intro f hf g hg heq
    have hcontent := hlanded.content f hf
    rw [heq, hlanded.content g hg] at hcontent
    exact (Entry.file.inj (Option.some.inj hcontent)).symm
  · rintro pre f post rfl g hg temp htemp hpre
    have hf : f ∈ pre ++ f :: post := by simp
    obtain ⟨u, hreceived, hpost⟩ := h.split
    cases hpost with
    | cons haccepts hrest =>
      have hdir : prepared u f.1 (components f.1) ≠ some .dir := fun hdir =>
        hnotDir f hf (hrest.dir _ (arrived_dir u f.1 f.2 haccepts _ hdir))
      have hgone : u temp ≠ some .dir ∧ arrived u f.1 f.2 temp = none := by
        rcases List.mem_pair.mp htemp with rfl | rfl
        · exact ⟨haccepts.download, arrived_download u f.1 f.2 hdir⟩
        · exact ⟨haccepts.digest, arrived_digest u f.1 f.2 hdir⟩
      have heq : temp = components g.1 := by
        by_contra hne
        exact hgone.1 (hreceived.parents hroot g hg temp (prefix_dropLast hpre hne))
      refine ⟨heq, ?_⟩
      by_contra hnone
      refine hrest.lost (fun h hh => hnotDir h (by simp [hh])) temp ?_ ?_ g.2 ?_
      · intro h hh hsame
        exact hnone ⟨h, hh, hsame⟩
      · intro x hx
        rw [hgone.2] at hx
        cases hx
      · rw [heq]
        exact hlanded.content g (by simp [hg])

/-- The directory after some of the files: the files that are there came, the directories lead
to them, and what came and is gone comes again. -/
structure Arriving (before after : List (Path × Bytes)) (t : Subtree Bytes) : Prop where
  files : ∀ c x, t c = some (.file x) → ∃ f ∈ before, components f.1 = c ∧ f.2 = x
  dirs : ∀ c, t c = some .dir → c = [] ∨
    ∃ f ∈ before, c <+: components f.1 ∧ c ≠ components f.1
  kept : ∀ g ∈ before, t (components g.1) = some (.file g.2) ∨
    ∃ h ∈ after, components h.1 = components g.1
  root : t [] = some .dir

section Arriving

variable {before after : List (Path × Bytes)} {f : Path × Bytes} {t : Subtree Bytes}

theorem Arriving.not_dir (h : Arriving before (f :: after) t)
    (hseparate : Separate (before ++ f :: after)) (temp : Location)
    (htemp : temp ∈ [downloadAt f.1, digestAt f.1]) : t temp ≠ some .dir := by
  intro hdir
  rcases h.dirs temp hdir with hnil | ⟨g, hg, hpre, hne⟩
  · rcases List.mem_pair.mp htemp with rfl | rfl
    · rw [downloadAt_eq] at hnil
      simp at hnil
    · rw [digestAt_eq] at hnil
      simp at hnil
  · exact hne (hseparate.clear before f after rfl g hg temp htemp hpre).1

theorem Arriving.accepts (h : Arriving before (f :: after) t)
    (hseparate : Separate (before ++ f :: after)) : Accepts t f.1 := by
  have hf : f ∈ before ++ f :: after := by simp
  have hfree : t.Free (components f.1) := by
    intro c hpre hne x hx
    obtain ⟨g, hg, rfl, -⟩ := h.files c x hx
    exact hne (hseparate.apart g (by simp [hg]) f hf hpre)
  refine ⟨hfree, ?_, h.not_dir hseparate _ (by simp), h.not_dir hseparate _ (by simp)⟩
  have hproper := components_of_proper f.1 (hseparate.proper f hf)
  rw [prepared, hproper, List.dropLast_concat]
  refine t.mkdirs_dir _ _ (List.prefix_refl _) ?_
  refine hfree _ ?_ ?_
  · rw [hproper]
    exact List.prefix_append _ _
  · rw [hproper]
    simp

theorem prepared_dir_cases (t : Subtree Bytes) (place : Path) (c : Location)
    (hc : prepared t place c = some .dir) : t c = some .dir ∨
    c <+: (components place).dropLast := by
  by_cases hpre : c <+: (components place).dropLast
  · exact Or.inr hpre
  · rw [prepared, t.mkdirs_of_not_prefix _ _ hpre] at hc
    exact Or.inl hc

theorem Arriving.final (h : Arriving before (f :: after) t)
    (hseparate : Separate (before ++ f :: after)) :
    prepared t f.1 (components f.1) ≠ some .dir := by
  have hf : f ∈ before ++ f :: after := by simp
  have hproper := components_of_proper f.1 (hseparate.proper f hf)
  intro hdir
  rcases prepared_dir_cases t f.1 _ hdir with hold | hpre
  · rcases h.dirs _ hold with hnil | ⟨g, hg, hpre, hne⟩
    · rw [hproper] at hnil
      simp at hnil
    · exact hne (hseparate.apart f hf g (by simp [hg]) hpre)
  · have hlength := hpre.length_le
    rw [hproper, List.dropLast_concat, List.length_append, List.length_singleton] at hlength
    omega

theorem Arriving.next (h : Arriving before (f :: after) t)
    (hseparate : Separate (before ++ f :: after)) :
    Arriving (before ++ [f]) after (arrived t f.1 f.2) := by
  have hf : f ∈ before ++ f :: after := by simp
  have hfinal := h.final hseparate
  have haccepts := h.accepts hseparate
  have hother : ∀ c, c ≠ components f.1 → c ≠ downloadAt f.1 → c ≠ digestAt f.1 →
      arrived t f.1 f.2 c = prepared t f.1 c := fun c hc hdownload hdigest =>
    arrived_other t f.1 f.2 c hdownload hdigest fun heq => absurd heq hc
  refine ⟨?_, ?_, ?_, ?_⟩
  · intro c x hx
    by_cases hc : c = components f.1
    · rw [hc, arrived_final t f.1 f.2 hfinal] at hx
      exact ⟨f, by simp, hc.symm, Entry.file.inj (Option.some.inj hx)⟩
    · have hdownload : c ≠ downloadAt f.1 := by
        rintro rfl
        rw [arrived_download t f.1 f.2 hfinal] at hx
        cases hx
      have hdigest : c ≠ digestAt f.1 := by
        rintro rfl
        rw [arrived_digest t f.1 f.2 hfinal] at hx
        cases hx
      rw [hother c hc hdownload hdigest, prepared, t.mkdirs_file_iff] at hx
      obtain ⟨g, hg, heq, hdata⟩ := h.files c x hx
      exact ⟨g, by simp [hg], heq, hdata⟩
  · intro c hc
    have hne : c ≠ components f.1 := by
      rintro rfl
      rw [arrived_final t f.1 f.2 hfinal] at hc
      cases hc
    have hdownload : c ≠ downloadAt f.1 := by
      rintro rfl
      rw [arrived_download t f.1 f.2 hfinal] at hc
      cases hc
    have hdigest : c ≠ digestAt f.1 := by
      rintro rfl
      rw [arrived_digest t f.1 f.2 hfinal] at hc
      cases hc
    rw [hother c hne hdownload hdigest] at hc
    rcases prepared_dir_cases t f.1 c hc with hold | hpre
    · rcases h.dirs c hold with hnil | ⟨g, hg, hpre, hshort⟩
      · exact Or.inl hnil
      · exact Or.inr ⟨g, by simp [hg], hpre, hshort⟩
    · exact Or.inr ⟨f, by simp, hpre.trans (List.dropLast_prefix _), hne⟩
  · intro g hg
    by_cases heq : components g.1 = components f.1
    · have hsame : f.2 = g.2 := by
        refine hseparate.same f hf g ?_ heq.symm
        rcases List.mem_append.mp hg with hold | hnew
        · simp [hold]
        · simp [List.mem_singleton.mp hnew]
      rw [heq, arrived_final t f.1 f.2 hfinal, hsame]
      exact Or.inl rfl
    · have hold : g ∈ before := by
        rcases List.mem_append.mp hg with hold | hnew
        · exact hold
        · rw [List.mem_singleton.mp hnew] at heq
          exact absurd rfl heq
      rcases h.kept g hold with hfile | ⟨later, hlater, hsame⟩
      · by_cases htemp : components g.1 ∈ [downloadAt f.1, digestAt f.1]
        · exact Or.inr (hseparate.clear before f after rfl g hold _ htemp
            (List.prefix_refl _)).2
        · rw [List.mem_pair, not_or] at htemp
          rw [hother _ heq htemp.1 htemp.2, prepared, t.mkdirs_of_some _ _ (by simp [hfile])]
          exact Or.inl hfile
      · rcases List.mem_cons.mp hlater with rfl | hafter
        · exact absurd hsame.symm heq
        · exact Or.inr ⟨later, hafter, hsame⟩
  · exact arrived_dir t f.1 f.2 haccepts [] (prepared_dir t f.1 [] h.root)

end Arriving

theorem landed_of_separate {files : List (Path × Bytes)} (h : Separate files) :
    ∃ t, Received bare files t ∧ Landed files t := by
  have hrun : ∀ before after, before ++ after = files →
      (∃ t, Received bare before t ∧ Arriving before after t) →
      ∃ t, Received bare files t ∧ Arriving files [] t := by
    intro before after
    induction after generalizing before with
    | nil =>
      intro heq hbefore
      rw [List.append_nil] at heq
      exact heq ▸ hbefore
    | cons f after ih =>
      rintro heq ⟨t, hreceived, harriving⟩
      rw [← heq] at h
      refine ih (before ++ [f]) (by simpa using heq) ⟨arrived t f.1 f.2, ?_, ?_⟩
      · exact hreceived.concat f (harriving.accepts h)
      · exact harriving.next h
  have hstart : Arriving [] files bare := by
    refine ⟨?_, ?_, by simp, rfl⟩
    · intro c x hx
      unfold bare at hx
      split at hx <;> cases hx
    · intro c hc
      unfold bare at hc
      split at hc
      · rename_i hnil
        exact Or.inl hnil
      · cases hc
  obtain ⟨t, hreceived, harriving⟩ := hrun [] files rfl ⟨bare, .nil _, hstart⟩
  refine ⟨t, hreceived, ?_, ?_⟩
  · intro f hf
    rcases harriving.kept f hf with hfile | ⟨g, hg, -⟩
    · exact hfile
    · cases hg
  · intro c x hx
    obtain ⟨f, hf, heq, -⟩ := harriving.files c x hx
    exact ⟨f, hf, heq.symm⟩

end ClantoDesk.FileArrivals
