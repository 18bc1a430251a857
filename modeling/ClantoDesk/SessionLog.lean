import ClantoDesk.HashChain
import ClantoDesk.JsonObject
import ClantoDesk.Runs
import Mathlib.Data.List.Dedup

/-!
The local log of the sessions and its chain of hashes, src/clanto/session_log.rs. The
writer thread gives each record a number, the hash of the record before it and its own hash, seals
the line and appends it to the file of the month. It remembers the last link; after a start it
reads it from the files. The verifier reads the lines in the order in which they were written.
Serialisation, the cipher and SHA-256 are not part of the repository and enter as parameters.
-/
namespace ClantoDesk.SessionLog

open JsonObject

inductive Json
  | object (o : Object)
  | other (json : String)
  deriving DecidableEq

/-- What comes from outside: `serde_json::to_string` and `from_str`, the cipher with the machine
key (with the limit on the length of a record), and the hexadecimal SHA-256. -/
structure Library where
  render : Object → String
  parse : String → Option Json
  encrypt : String → String
  decrypt : String → String × Bool
  sha256 : String → String

structure ChainLink where
  seq : UInt64
  hash : String

def chainGenesis : String := "0000000000000000000000000000000000000000000000000000000000000000"

def chainText (lib : Library) (prev : String) : Json → String
  | .object o => prev ++ "\n" ++ lib.render (o.remove "_hash")
  | .other json => prev ++ "\n" ++ json

def chainHash (lib : Library) (prev : String) (value : Json) : String :=
  lib.sha256 (chainText lib prev value)

def chainValue (lib : Library) (o : Object) (last : Option ChainLink) : Object × ChainLink :=
  let seq := (last.map fun l => l.seq + 1).getD 1
  let prev := (last.map ChainLink.hash).getD chainGenesis
  let o := (o.insert "_seq" (.number seq)).insert "_prev" (.text prev)
  let hash := chainHash lib prev (.object o)
  (o.insert "_hash" (.text hash), ⟨seq, hash⟩)

def linkOf : Json → Option (ChainLink × String)
  | .object o =>
    match o.get "_seq", o.get "_hash", o.get "_prev" with
    | some (.number seq), some (.text hash), some (.text prev) => some (⟨seq, hash⟩, prev)
    | _, _, _ => none
  | .other _ => none

def sealLine (lib : Library) (key : Bool) (o : Object) : Option String :=
  let plain := lib.render o
  let sealedText := if key then lib.encrypt plain else plain
  if sealedText = "" ∨ sealedText = plain then none else some sealedText

def openLine (lib : Library) (key : Bool) (line : String) : Option Json :=
  if line.startsWith "\x7b" then lib.parse line
  else
    let (plain, success) := if key then lib.decrypt line else (line, false)
    if success then lib.parse plain else none

structure Entry where
  file : String
  line : String
  deriving DecidableEq

def sessionFiles (entries : List Entry) : List String :=
  (entries.map Entry.file).dedup.insertionSort (· ≤ ·)

/-- The last link on disk; files that cannot be read and lines that cannot be opened are passed
over. -/
def lastLink (lib : Library) (key : Bool) (unreadable : List String) (entries : List Entry) :
    Option ChainLink :=
  let lines := (sessionFiles entries).flatMap fun file =>
    if file ∈ unreadable then [] else entries.filter fun e => decide (e.file = file)
  (lines.filterMap fun e =>
    (openLine lib key e.line).bind fun value => (linkOf value).map Prod.fst).getLast?

structure ChainVerifier where
  last : Option ChainLink
  gap : Bool

def check (lib : Library) (self : ChainVerifier) : Option Json → Option Bool × ChainVerifier
  | none => (none, { self with gap := true })
  | some value =>
    match linkOf value with
    | none => (none, self)
    | some (link, prev) =>
      let linked :=
        match self.last with
        | some last => !self.gap && decide (link.seq = last.seq + 1) && decide (prev = last.hash)
        | none => true
      (some (linked && decide (chainHash lib prev value = link.hash)), ⟨some link, false⟩)

def verify (lib : Library) : ChainVerifier → List (Option Json) → List (Option Bool)
  | _, [] => []
  | self, value :: rest => (check lib self value).1 :: verify lib (check lib self value).2 rest

/-- What the writer meets when it handles a record: whether the log is on, whether the
machine key is there, which files cannot be read, and whether the line gets stored. -/
structure Env where
  enabled : Bool
  key : Bool
  unreadable : List String
  stored : Bool

/-- `entries` is the content of the files in the order of the writing. `chain` is the
writer's variable: not read yet, or the last link if there is one. `history` is every record ever
written, also when its line is gone. -/
structure Log where
  entries : List Entry
  chain : Option (Option ChainLink)
  history : List Object

/-- `kept` are files that could not be removed; `expire` is the cleanup of old files. -/
inductive Event
  | append (value : Object) (month : String) (env : Env)
  | clear (kept : List String)
  | expire (files : List String)
  | restart

def start (entries : List Entry) : Log := ⟨entries, none, []⟩

/-- `append_record` and what the writer does around it. -/
def append (lib : Library) (s : Log) (value : Object) (month : String) (env : Env) : Log :=
  if !env.enabled then s
  else
    let last := s.chain.getD (lastLink lib env.key env.unreadable s.entries)
    let (value, link) := chainValue lib value last
    match sealLine lib env.key value with
    | none => { s with chain := some last }
    | some line =>
      if env.stored then
        ⟨s.entries ++ [⟨"sessions-" ++ month ++ ".jsonl", line⟩], some (some link),
          s.history ++ [value]⟩
      else { s with chain := some last }

def step (lib : Library) (s : Log) : Event → Option Log
  | .append value month env => some (append lib s value month env)
  | .clear kept => some { s with
      entries := s.entries.filter fun e => decide (e.file ∈ kept)
      chain := some none }
  | .expire files => some { s with
      entries := s.entries.filter fun e => decide (e.file ∉ files) }
  | .restart => some { s with chain := none }

/-- The record on a line that the chain covers. -/
def chained : Option Json → Option Object
  | some (.object o) => if (linkOf (.object o)).isSome then some o else none
  | _ => none

def hashOf (o : Object) : String :=
  match o.get "_hash" with
  | some (.text hash) => hash
  | _ => ""

def prevOf (o : Object) : String :=
  match o.get "_prev" with
  | some (.text prev) => prev
  | _ => ""

variable (lib : Library) (s : Log) (key : Bool) (o : Object) (link : ChainLink) (prev : String)

theorem linkOf_eq_some (h : linkOf (.object o) = some (link, prev)) :
    o.get "_seq" = some (.number link.seq) ∧ o.get "_hash" = some (.text link.hash) ∧
      o.get "_prev" = some (.text prev) := by
  simp only [linkOf] at h
  split at h
  · rename_i hseq hhash hprev
    obtain ⟨rfl, rfl⟩ := Prod.mk.inj (Option.some.inj h)
    exact ⟨hseq, hhash, hprev⟩
  · cases h

theorem hashOf_eq (h : linkOf (.object o) = some (link, prev)) : hashOf o = link.hash := by
  simp only [hashOf, (linkOf_eq_some o link prev h).2.1]

theorem prevOf_eq (h : linkOf (.object o) = some (link, prev)) : prevOf o = prev := by
  simp only [prevOf, (linkOf_eq_some o link prev h).2.2]

theorem chained_eq_some (value : Option Json) (o : Object) (h : chained value = some o) :
    value = some (.object o) ∧ ∃ link prev, linkOf (.object o) = some (link, prev) := by
  unfold chained at h
  split at h
  · rename_i o'
    obtain ⟨hsome, rfl⟩ := of_guard h
    obtain ⟨⟨link, prev⟩, hlink⟩ := Option.isSome_iff_exists.mp hsome
    exact ⟨rfl, link, prev, hlink⟩
  · cases h

theorem chained_object
    (h : linkOf (.object o) = some (link, prev)) : chained (some (.object o)) = some o := by
  simp [chained, h]

theorem chained_eq_none (value : Json) (h : chained (some value) = none) : linkOf value = none := by
  cases value with
  | other json => rfl
  | object o =>
    cases hlink : linkOf (.object o) with
    | none => rfl
    | some link =>
      rw [chained_object o link.1 link.2 hlink] at h
      cases h

def SelfOk (lib : Library) (o : Object) : Prop :=
  ∃ link prev, linkOf (.object o) = some (link, prev) ∧ chainHash lib prev (.object o) = link.hash

def Follows (u v : Object) : Prop :=
  ∃ link before next, linkOf (.object u) = some (link, before) ∧
    linkOf (.object v) = some (next, link.hash) ∧ next.seq = link.seq + 1

/-- The record made by the writer carries the link it returns. -/
theorem chainValue_spec (v : Object) (last : Option ChainLink) (link : ChainLink)
    (h : chainValue lib o last = (v, link)) :
    linkOf (.object v) = some (link, (last.map ChainLink.hash).getD chainGenesis) ∧
      link.seq = (last.map fun l => l.seq + 1).getD 1 ∧ SelfOk lib v := by
  obtain ⟨rfl, rfl⟩ := Prod.mk.inj h
  have hlink : ∀ (o : Object) (seq : UInt64) (prev hash : String),
      linkOf (.object (((o.insert "_seq" (.number seq)).insert "_prev" (.text prev)).insert "_hash"
        (.text hash))) = some (⟨seq, hash⟩, prev) := by
    intro o seq prev hash
    simp only [linkOf, Object.get_insert_self,
      Object.get_insert_other _ "_hash" "_seq" _ (by decide),
      Object.get_insert_other _ "_hash" "_prev" _ (by decide),
      Object.get_insert_other _ "_prev" "_seq" _ (by decide)]
  refine ⟨hlink _ _ _ _, rfl, _, _, hlink _ _ _ _, ?_⟩
  simp only [chainHash, chainText, Object.remove_insert]

/-- With the key, a line that was sealed opens again as the record. -/
def Library.Lawful (lib : Library) : Prop :=
  ∀ o line, sealLine lib true o = some line → openLine lib true line = some (.object o)

theorem sealLine_key (line : String) (h : sealLine lib key o = some line) : key = true := by
  cases key with
  | true => rfl
  | false => simp [sealLine] at h

theorem openLine_key (line : String) (value : Json)
    (h : openLine lib key line = some value) : openLine lib true line = some value := by
  cases key with
  | true => exact h
  | false =>
    unfold openLine at h ⊢
    split at h
    · rename_i hbrace
      rw [if_pos hbrace]
      exact h
    · simp at h

theorem verify_following (rest : List Object) (o : Object) (link : ChainLink)
    (prev : String) (hlink : linkOf (.object o) = some (link, prev))
    (hchain : (o :: rest).IsChain Follows) (hself : ∀ v ∈ rest, SelfOk lib v) :
    ∀ r ∈ verify lib ⟨some link, false⟩ (rest.map fun v => some (.object v)), r ≠ some false := by
  induction rest generalizing o link prev with
  | nil =>
    intro r hr
    cases hr
  | cons v rest ih =>
    obtain ⟨⟨link', before, next, hlink', hnext, hseq⟩, hrest⟩ := List.isChain_cons_cons.mp hchain
    obtain ⟨rfl, rfl⟩ := Prod.mk.inj (Option.some.inj (hlink.symm.trans hlink'))
    obtain ⟨next', prev', hnext', hhash⟩ := hself v (List.mem_cons_self ..)
    obtain ⟨rfl, rfl⟩ := Prod.mk.inj (Option.some.inj (hnext.symm.trans hnext'))
    have hcheck : check lib ⟨some link, false⟩ (some (.object v)) = (some true,
        ⟨some next, false⟩) := by
      simp [check, hnext, hseq, hhash]
    intro r hr
    simp only [List.map_cons, verify, hcheck] at hr
    rcases List.mem_cons.mp hr with rfl | hr
    · simp
    · exact ih v next link.hash hnext hrest (fun u hu => hself u (List.mem_cons_of_mem _ hu)) r hr

theorem verify_anchored (values : List Object) (gap : Bool)
    (hchain : values.IsChain Follows) (hself : ∀ v ∈ values, SelfOk lib v) :
    ∀ r ∈ verify lib ⟨none, gap⟩ (values.map fun v => some (.object v)), r ≠ some false := by
  cases values with
  | nil =>
    intro r hr
    cases hr
  | cons v rest =>
    obtain ⟨link, prev, hlink, hhash⟩ := hself v (List.mem_cons_self ..)
    have hcheck : check lib ⟨none, gap⟩ (some (.object v)) = (some true, ⟨some link, false⟩) := by
      simp [check, hlink, hhash]
    intro r hr
    simp only [List.map_cons, verify, hcheck] at hr
    rcases List.mem_cons.mp hr with rfl | hr
    · simp
    · exact verify_following lib rest v link prev hlink hchain
        (fun u hu => hself u (List.mem_cons_of_mem _ hu)) r hr

/-- Lines without a chain in front change nothing but the gap. -/
theorem verify_unchained (xs ys : List (Option Json)) (gap : Bool)
    (hxs : ∀ x ∈ xs, chained x = none)
    (hys : ∀ gap, ∀ r ∈ verify lib ⟨none, gap⟩ ys, r ≠ some false) :
    ∀ r ∈ verify lib ⟨none, gap⟩ (xs ++ ys), r ≠ some false := by
  induction xs generalizing gap with
  | nil => exact hys gap
  | cons x xs ih =>
    have hrest := fun gap => ih gap (fun x' hx' => hxs x' (List.mem_cons_of_mem _ hx'))
    intro r hr
    cases x with
    | none =>
      rcases List.mem_cons.mp hr with rfl | hr
      · simp [check]
      · exact hrest true r hr
    | some value =>
      have hnone := chained_eq_none value (hxs _ (List.mem_cons_self ..))
      simp only [List.cons_append, verify, check, hnone] at hr
      rcases List.mem_cons.mp hr with rfl | hr
      · simp
      · exact hrest gap r hr

/-- What a verifier without complaint has seen: every record on the chain carries its own hash, and
each names the hash of the one before it. -/
theorem linked_of_verify (xs : List (Option Json)) (self : ChainVerifier)
    (hok : ∀ r ∈ verify lib self xs, r ≠ some false) :
    (∀ o ∈ xs.filterMap chained, SelfOk lib o) ∧
      (xs.filterMap chained).IsChain (fun u v => prevOf v = hashOf u) ∧
      ∀ last, self.last = some last →
        ∀ o ∈ (xs.filterMap chained).head?, prevOf o = last.hash := by
  induction xs generalizing self with
  | nil => simp
  | cons x xs ih =>
    have hrest := ih _ (fun r hr => hok r (List.mem_cons_of_mem _ hr))
    cases hx : chained x with
    | none =>
      have hlast : (check lib self x).2.last = self.last := by
        cases x with
        | none => rfl
        | some value => simp [check, chained_eq_none value hx]
      rw [List.filterMap_cons_none hx]
      rw [hlast] at hrest
      exact hrest
    | some o =>
      obtain ⟨rfl, link, prev, hlink⟩ := chained_eq_some x o hx
      have hcheck : (check lib self (some (.object o))).1 ≠ some false :=
        hok _ (List.mem_cons_self ..)
      have hafter : (check lib self (some (.object o))).2.last = some link := by
        simp [check, hlink]
      obtain ⟨hself, hchain, hhead⟩ := hrest
      rw [List.filterMap_cons_some hx]
      simp only [check, hlink, ne_eq, Option.some.injEq, Bool.not_eq_false, Bool.and_eq_true,
        decide_eq_true_eq] at hcheck
      refine ⟨?_, ?_, ?_⟩
      · intro v hv
        rcases List.mem_cons.mp hv with rfl | hv
        · exact ⟨link, prev, hlink, hcheck.2⟩
        · exact hself v hv
      · refine List.isChain_cons.mpr ⟨?_, hchain⟩
        intro v hv
        rw [hhead link hafter v hv, hashOf_eq o link prev hlink]
      · intro last hlast v hv
        obtain rfl : o = v := by simpa using hv
        have hlinked := hcheck.1
        rw [hlast] at hlinked
        simp only [Bool.and_eq_true, decide_eq_true_eq] at hlinked
        rw [prevOf_eq o link prev hlink]
        exact hlinked.2

theorem getLast?_of_max (names : List String) (name : String) (hsorted : names.Pairwise (· ≤ ·))
    (hmem : name ∈ names) (hmax : ∀ n ∈ names, n ≤ name) : ∃ front, names = front ++ [name] := by
  rcases List.eq_nil_or_concat names with rfl | ⟨front, last, rfl⟩
  · cases hmem
  · rw [List.concat_eq_append] at *
    refine ⟨front, ?_⟩
    have hle : name ≤ last := by
      rcases List.mem_append.mp hmem with hfront | hlast
      · exact (List.pairwise_append.mp hsorted).2.2 name hfront last (List.mem_singleton_self _)
      · exact (List.mem_singleton.mp hlast).le
    rw [le_antisymm hle (hmax last (by simp))]

/-- When the record written last is in the file that sorts last, and that file can be read
and opened, its link is the one found. -/
theorem lastLink_eq (unreadable : List String) (front : List Entry) (e : Entry)
    (value : Json) (link : ChainLink) (prev : String)
    (hopen : openLine lib true e.line = some value) (hlink : linkOf value = some (link, prev))
    (hreadable : e.file ∉ unreadable) (hmax : ∀ e' ∈ front ++ [e], e'.file ≤ e.file) :
    lastLink lib true unreadable (front ++ [e]) = some link := by
  have hnames : ∃ names, sessionFiles (front ++ [e]) = names ++ [e.file] := by
    apply getLast?_of_max
    · exact List.pairwise_insertionSort _ _
    · simp [sessionFiles]
    · intro n hn
      rw [sessionFiles, List.mem_insertionSort, List.mem_dedup] at hn
      obtain ⟨e', he', rfl⟩ := List.mem_map.mp hn
      exact hmax e' he'
  obtain ⟨names, hnames⟩ := hnames
  simp only [lastLink, hnames, List.flatMap_append, List.flatMap_singleton, if_neg hreadable,
    List.filter_append, List.filterMap_append]
  have hfound : ([e].filter fun e' => decide (e'.file = e.file)).filterMap (fun e =>
      (openLine lib true e.line).bind fun value => (linkOf value).map Prod.fst) = [link] := by
    simp [hopen, hlink]
  rw [hfound, ← List.append_assoc, List.getLast?_concat]

theorem lastLink_eq_none (unreadable : List String)
    (entries : List Entry) (h : ∀ e ∈ entries, chained (openLine lib true e.line) = none) :
    lastLink lib key unreadable entries = none := by
  unfold lastLink
  rw [List.getLast?_eq_none_iff, List.filterMap_eq_nil_iff]
  intro e he
  obtain ⟨file, -, hfile⟩ := List.mem_flatMap.mp he
  have hmem : e ∈ entries := by
    split at hfile
    · cases hfile
    · exact (List.mem_filter.mp hfile).1
  cases hopen : openLine lib key e.line with
  | none => rfl
  | some value =>
    have hnone := h e hmem
    rw [openLine_key lib key e.line value hopen] at hnone
    simp [chained_eq_none value hnone]

def Current (history values : List Object) : Option ChainLink → Prop
  | none => values = []
  | some link => ∃ v prev, history.getLast? = some v ∧ linkOf (.object v) = some (link, prev)

/-- What the chain of the files, the writer's variable and the history have to do with each
other. Lines from before the chain come first; `values` are the records of the others. -/
structure Inv (lib : Library) (s : Log) (legacy written : List Entry) (values : List Object) :
    Prop where
  entries : s.entries = legacy ++ written
  unchained : ∀ e ∈ legacy, chained (openLine lib true e.line) = none
  opened : (written.map fun e => openLine lib true e.line) = values.map fun v => some (.object v)
  suffix : values <:+ s.history
  linked : values.IsChain Follows
  self : ∀ v ∈ s.history, SelfOk lib v
  recorded : HashChain.Recorded hashOf prevOf chainGenesis s.history
  chain : ∀ last, s.chain = some last → Current s.history values last

/-- When the writer reads the last link, the record written last is in the file that sorts
last, and that file can be read and opened. A removal of the log leaves no record of the chain
behind, and the cleanup takes the oldest lines. -/
def Resumes (lib : Library) (s : Log) : Event → Prop
  | .append _ _ env => env.enabled = true → s.chain = none →
      ∀ e ∈ s.entries.getLast?, (chained (openLine lib true e.line)).isSome = true →
        env.key = true ∧ e.file ∉ env.unreadable ∧ ∀ e' ∈ s.entries, e'.file ≤ e.file
  | .clear kept =>
      ∀ e ∈ s.entries, (chained (openLine lib true e.line)).isSome = true → e.file ∉ kept
  | .expire files => (s.entries.filter fun e => decide (e.file ∉ files)) <:+ s.entries
  | .restart => True

instance (lib : Library) (s : Log) (e : Event) : Decidable (Resumes lib s e) :=
  match e with
  | .append _ _ env => inferInstanceAs (Decidable (env.enabled = true → s.chain = none →
      ∀ e ∈ s.entries.getLast?, (chained (openLine lib true e.line)).isSome = true →
        env.key = true ∧ e.file ∉ env.unreadable ∧ ∀ e' ∈ s.entries, e'.file ≤ e.file))
  | .clear kept => inferInstanceAs (Decidable (∀ e ∈ s.entries,
      (chained (openLine lib true e.line)).isSome = true → e.file ∉ kept))
  | .expire files => inferInstanceAs (Decidable
      ((s.entries.filter fun e => decide (e.file ∉ files)) <:+ s.entries))
  | .restart => isTrue trivial

theorem Inv.current {lib : Library} {s : Log} {legacy written : List Entry} {values : List Object}
    (h : Inv lib s legacy written values) (value : Object) (month : String) (env : Env)
    (henabled : env.enabled = true) (hguard : Resumes lib s (.append value month env)) :
    Current s.history values (s.chain.getD (lastLink lib env.key env.unreadable s.entries)) := by
  cases hchain : s.chain with
  | some last => exact h.chain last hchain
  | none =>
    rw [Option.getD_none]
    rcases List.eq_nil_or_concat written with rfl | ⟨front, e, hwritten⟩
    · have hvalues : values = [] := by simpa using h.opened.symm
      have hnone : lastLink lib env.key env.unreadable s.entries = none := by
        apply lastLink_eq_none
        rw [h.entries, List.append_nil]
        exact h.unchained
      rw [hnone]
      exact hvalues
    · rw [List.concat_eq_append] at hwritten
      -- the last line was written by this writer, and its record is the last of the history
      obtain ⟨vs, v, rfl⟩ : ∃ vs v, values = vs ++ [v] := by
        rcases List.eq_nil_or_concat values with rfl | ⟨vs, v, rfl⟩
        · have hbad := h.opened
          simp [hwritten] at hbad
        · exact ⟨vs, v, List.concat_eq_append⟩
      have hopened := h.opened
      rw [hwritten, List.map_append, List.map_append] at hopened
      obtain ⟨-, hlast⟩ := List.append_inj' hopened rfl
      have hopen : openLine lib true e.line = some (.object v) := by simpa using hlast
      obtain ⟨before, hbefore⟩ := h.suffix
      have hhistory : s.history.getLast? = some v := by
        rw [← hbefore, ← List.append_assoc, List.getLast?_concat]
      have hv : v ∈ s.history := by
        rw [← hbefore]
        simp
      obtain ⟨link, prev, hlink, -⟩ := h.self v hv
      have hentries : s.entries = (legacy ++ front) ++ [e] := by
        rw [h.entries, hwritten, List.append_assoc]
      obtain ⟨hkey, hreadable, hmax⟩ := hguard henabled hchain e
        (by rw [hentries, List.getLast?_concat]; rfl)
        (by rw [hopen, chained_object v link prev hlink]; rfl)
      rw [hentries] at hmax ⊢
      rw [hkey, lastLink_eq lib env.unreadable _ e _ link prev hopen hlink hreadable hmax]
      exact ⟨v, prev, hhistory, hlink⟩

theorem Inv.extend {lib : Library} {s : Log} {legacy written : List Entry} {values : List Object}
    (h : Inv lib s legacy written values) (last : Option ChainLink) (value v : Object)
    (link : ChainLink) (e : Entry) (hvalue : chainValue lib value last = (v, link))
    (hopen : openLine lib true e.line = some (.object v))
    (hlast : Current s.history values last) :
    Inv lib ⟨s.entries ++ [e], some (some link), s.history ++ [v]⟩ legacy (written ++ [e])
      (values ++ [v]) := by
  obtain ⟨hlink, hseq, hself⟩ := chainValue_spec lib value v last link hvalue
  refine ⟨?_, h.unchained, ?_, ?_, ?_, ?_, ?_, ?_⟩
  · rw [h.entries, List.append_assoc]
  · rw [List.map_append, List.map_append, h.opened, List.map_singleton, List.map_singleton, hopen]
  · obtain ⟨before, hbefore⟩ := h.suffix
    exact ⟨before, by rw [← hbefore, List.append_assoc]⟩
  · refine List.isChain_append.mpr ⟨h.linked, List.isChain_singleton _, ?_⟩
    intro u hu w hw
    obtain rfl : v = w := by simpa using hw
    cases last with
    | none =>
      rw [hlast] at hu
      cases hu
    | some before =>
      obtain ⟨o, prev, ho, hbefore⟩ := hlast
      obtain ⟨front, hfront⟩ := h.suffix
      have hou : o = u := by
        obtain ⟨vs, rfl⟩ := List.getLast?_eq_some_iff.mp hu
        rw [← hfront, ← List.append_assoc, List.getLast?_concat] at ho
        exact (Option.some.inj ho).symm
      subst hou
      exact ⟨before, prev, link, hbefore, hlink, hseq⟩
  · intro u hu
    rcases List.mem_append.mp hu with hold | hnew
    · exact h.self u hold
    · exact List.mem_singleton.mp hnew ▸ hself
  · refine h.recorded.append v ?_
    rw [prevOf_eq v link _ hlink]
    cases last with
    | none => exact Or.inl rfl
    | some before =>
      obtain ⟨o, prev, ho, hbefore⟩ := hlast
      exact Or.inr ⟨o, ho, (hashOf_eq o before prev hbefore).symm⟩
  · intro last' hlast'
    obtain rfl := Option.some.inj hlast'
    exact ⟨v, _, List.getLast?_concat .., hlink⟩

theorem inv_append (legacy written : List Entry) (values : List Object)
    (value : Object) (month : String) (env : Env) (hlib : lib.Lawful)
    (hguard : Resumes lib s (.append value month env)) (h : Inv lib s legacy written values) :
    ∃ written' values', Inv lib (append lib s value month env) legacy written' values' := by
  cases henabled : env.enabled with
  | false =>
    refine ⟨written, values, ?_⟩
    rw [append, henabled, if_pos (by rfl)]
    exact h
  | true =>
    have hlast := h.current value month env henabled hguard
    simp only [append, henabled, Bool.not_true, Bool.false_eq_true, if_false]
    generalize s.chain.getD (lastLink lib env.key env.unreadable s.entries) = last at hlast ⊢
    have hfailed : Inv lib { s with chain := some last } legacy written values := by
      refine ⟨h.entries, h.unchained, h.opened, h.suffix, h.linked, h.self, h.recorded, ?_⟩
      intro last' hlast'
      exact Option.some.inj hlast' ▸ hlast
    cases hvalue : chainValue lib value last with
    | mk v link =>
      cases hline : sealLine lib env.key v with
      | none => exact ⟨written, values, hfailed⟩
      | some line =>
        cases hstored : env.stored with
        | false => exact ⟨written, values, hfailed⟩
        | true =>
          rw [sealLine_key lib env.key v line hline] at hline
          exact ⟨_, _, h.extend last value v link ⟨"sessions-" ++ month ++ ".jsonl", line⟩ hvalue
            (hlib v line hline) hlast⟩

theorem inv_clear (legacy written : List Entry) (values : List Object)
    (kept : List String) (hguard : Resumes lib s (.clear kept))
    (h : Inv lib s legacy written values) :
    Inv lib { s with
      entries := s.entries.filter fun e => decide (e.file ∈ kept)
      chain := some none } (legacy.filter fun e => decide (e.file ∈ kept)) [] [] := by
  have hgone : (written.filter fun e => decide (e.file ∈ kept)) = [] := by
    rw [List.filter_eq_nil_iff]
    intro e he hin
    have hopened : openLine lib true e.line ∈ values.map fun v => some (Json.object v) := by
      rw [← h.opened]
      exact List.mem_map_of_mem he
    obtain ⟨v, hv, hopen⟩ := List.mem_map.mp hopened
    obtain ⟨link, prev, hlink, -⟩ := h.self v (h.suffix.subset hv)
    refine hguard e ?_ ?_ (of_decide_eq_true hin)
    · rw [h.entries]
      exact List.mem_append_right _ he
    · rw [← hopen, chained_object v link prev hlink]
      rfl
  refine ⟨?_, ?_, rfl, List.nil_suffix, List.isChain_nil, h.self, h.recorded, ?_⟩
  · simp only [h.entries, List.filter_append, hgone]
  · intro e he
    exact h.unchained e (List.mem_filter.mp he).1
  · intro last hlast
    obtain rfl := Option.some.inj hlast
    rfl

theorem inv_expire (legacy written : List Entry) (values : List Object)
    (files : List String) (hguard : Resumes lib s (.expire files))
    (h : Inv lib s legacy written values) :
    ∃ legacy' written' values', Inv lib { s with
      entries := s.entries.filter fun e => decide (e.file ∉ files) } legacy' written' values' := by
  obtain ⟨n, hn⟩ : ∃ n, (s.entries.filter fun e => decide (e.file ∉ files)) = s.entries.drop n :=
    ⟨_, List.suffix_iff_eq_drop.mp hguard⟩
  refine ⟨legacy.drop n, written.drop (n - legacy.length), values.drop (n - legacy.length), ?_⟩
  refine ⟨?_, ?_, ?_, ?_, ?_, h.self, h.recorded, ?_⟩
  · refine hn.trans ?_
    rw [h.entries, List.drop_append]
  · intro e he
    exact h.unchained e (List.mem_of_mem_drop he)
  · rw [List.map_drop, List.map_drop, h.opened]
  · exact (List.drop_suffix _ _).trans h.suffix
  · exact h.linked.drop _
  · intro last hlast
    have hcurrent := h.chain last hlast
    cases last with
    | none =>
      obtain rfl : values = [] := hcurrent
      exact List.drop_nil
    | some link => exact hcurrent

theorem inv_step (t : Log) (e : Event) (hlib : lib.Lawful)
    (hguard : Resumes lib s e) (h : ∃ legacy written values, Inv lib s legacy written values)
    (hstep : step lib s e = some t) : ∃ legacy written values, Inv lib t legacy written values := by
  obtain ⟨legacy, written, values, h⟩ := h
  cases e with
  | append value month env =>
    obtain rfl := Option.some.inj hstep
    exact ⟨legacy, inv_append lib s legacy written values value month env hlib hguard h⟩
  | clear kept =>
    obtain rfl := Option.some.inj hstep
    exact ⟨_, [], [], inv_clear lib s legacy written values kept hguard h⟩
  | expire files =>
    obtain rfl := Option.some.inj hstep
    exact inv_expire lib s legacy written values files hguard h
  | restart =>
    obtain rfl := Option.some.inj hstep
    refine ⟨legacy, written, values, h.entries, h.unchained, h.opened, h.suffix, h.linked, h.self,
      h.recorded, ?_⟩
    intro last hlast
    cases hlast

/-- What is assumed of the hash and of whoever changed the lines: the texts in question do not
collide, the hash of no record is the one that begins a chain, and a line that carries its own hash
carries the hash of a record that was written. The texts themselves determine their records. -/
structure Unforged (lib : Library) (history : List Object) (lines : List String) : Prop where
  render_line : ∀ o, '\n' ∉ (lib.render o).toList
  render_inj : ∀ w ∈ history, ∀ line ∈ lines, ∀ o, openLine lib true line = some (.object o) →
    lib.render (w.remove "_hash") = lib.render (o.remove "_hash") →
      w.remove "_hash" = o.remove "_hash"
  no_collision : ∀ w ∈ history, ∀ line ∈ lines, ∀ o, openLine lib true line = some (.object o) →
    chainHash lib (prevOf w) (.object w) = chainHash lib (prevOf o) (.object o) →
      chainText lib (prevOf w) (.object w) = chainText lib (prevOf o) (.object o)
  no_genesis : ∀ w ∈ history, hashOf w ≠ chainGenesis
  unforged : ∀ line ∈ lines, ∀ o, openLine lib true line = some (.object o) →
    SelfOk lib o → ∃ w ∈ history, hashOf w = hashOf o

theorem append_newline_inj (p p' r r' : List Char) (hr : '\n' ∉ r) (hr' : '\n' ∉ r')
    (h : p ++ '\n' :: r = p' ++ '\n' :: r') : r = r' := by
  rcases List.append_eq_append_iff.mp h with ⟨c, -, hc⟩ | ⟨c, -, hc⟩
  · cases c with
    | nil => exact (List.cons.inj hc).2
    | cons x c =>
      refine absurd ?_ hr
      rw [(List.cons.inj hc).2]
      simp
  · cases c with
    | nil => exact (List.cons.inj hc).2.symm
    | cons x c =>
      refine absurd ?_ hr'
      rw [(List.cons.inj hc).2]
      simp

theorem SelfOk.hash_eq {lib : Library} {o : Object} (h : SelfOk lib o) :
    chainHash lib (prevOf o) (.object o) = hashOf o ∧ o.get "_hash" = some (.text (hashOf o)) := by
  obtain ⟨link, prev, hlink, hhash⟩ := h
  rw [prevOf_eq o link prev hlink, hashOf_eq o link prev hlink]
  exact ⟨hhash, (linkOf_eq_some o link prev hlink).2.1⟩

theorem Unforged.eq_of_hash {lib : Library} {history : List Object} {lines : List String}
    (h : Unforged lib history lines) (w o : Object) (line : String) (hw : w ∈ history)
    (hline : line ∈ lines) (hopen : openLine lib true line = some (.object o))
    (hself : SelfOk lib w) (hself' : SelfOk lib o) (hhash : hashOf w = hashOf o) : w = o := by
  obtain ⟨hchain, hget⟩ := hself.hash_eq
  obtain ⟨hchain', hget'⟩ := hself'.hash_eq
  have htext := h.no_collision w hw line hline o hopen (hchain.trans (hhash.trans hchain'.symm))
  have hrender : lib.render (w.remove "_hash") = lib.render (o.remove "_hash") := by
    apply String.toList_injective
    apply append_newline_inj (prevOf w).toList (prevOf o).toList _ _ (h.render_line _)
      (h.render_line _)
    have hlist := congrArg String.toList htext
    simpa [chainText] using hlist
  have hbody := h.render_inj w hw line hline o hopen hrender
  exact Object.eq_of_remove w o "_hash" (.text (hashOf o)) hbody (hhash ▸ hget) hget'

theorem verified_infix (history : List Object) (lines : List String)
    (hself : ∀ v ∈ history, SelfOk lib v)
    (hrecorded : HashChain.Recorded hashOf prevOf chainGenesis history)
    (h : Unforged lib history lines)
    (hok : ∀ r ∈ verify lib ⟨none, false⟩ (lines.map (openLine lib true)), r ≠ some false) :
    (lines.map (openLine lib true)).filterMap chained <:+: history := by
  obtain ⟨hsegment, hchain, -⟩ := linked_of_verify lib _ _ hok
  have hline : ∀ o ∈ (lines.map (openLine lib true)).filterMap chained,
      ∃ line ∈ lines, openLine lib true line = some (.object o) := by
    intro o ho
    obtain ⟨value, hvalue, hchained⟩ := List.mem_filterMap.mp ho
    obtain ⟨line, hline, rfl⟩ := List.mem_map.mp hvalue
    exact ⟨line, hline, (chained_eq_some _ o hchained).1⟩
  have hmem : ∀ o ∈ (lines.map (openLine lib true)).filterMap chained, o ∈ history := by
    intro o ho
    obtain ⟨line, hin, hopen⟩ := hline o ho
    obtain ⟨w, hw, hhash⟩ := h.unforged line hin o hopen (hsegment o ho)
    have heq := h.eq_of_hash w o line hw hin hopen (hself w hw) (hsegment o ho) hhash
    exact heq ▸ hw
  refine HashChain.infix_of_linked hashOf prevOf chainGenesis history hrecorded h.no_genesis _ hmem
    ?_ hchain
  intro o ho w hw hhash
  obtain ⟨line, hin, hopen⟩ := hline o ho
  exact (h.eq_of_hash w o line hw hin hopen (hself w hw) (hsegment o ho) hhash.symm).symm

/-- The verifier reports every line of the chain as intact, and says nothing of the others. -/
def Intact (lib : Library) (lines : List String) : Prop :=
  verify lib ⟨none, false⟩ (lines.map (openLine lib true)) =
    (lines.map (openLine lib true)).map fun value => (chained value).map fun _ => true

theorem check_isSome (self : ChainVerifier) (value : Option Json) :
    (check lib self value).1.isSome = (chained value).isSome := by
  cases hchained : chained value with
  | some o =>
    obtain ⟨rfl, link, prev, hlink⟩ := chained_eq_some value o hchained
    simp [check, hlink]
  | none =>
    cases value with
    | none => rfl
    | some value => simp [check, chained_eq_none value hchained]

theorem verify_eq_iff (values : List (Option Json)) (self : ChainVerifier) :
    verify lib self values = (values.map fun value => (chained value).map fun _ => true) ↔
      ∀ r ∈ verify lib self values, r ≠ some false := by
  induction values generalizing self with
  | nil => simp [verify]
  | cons value rest ih =>
    have hsome := check_isSome lib self value
    rw [verify, List.map_cons, List.cons.injEq, ih, List.forall_mem_cons]
    refine and_congr_left fun _ => ?_
    cases hcheck : (check lib self value).1 with
    | none =>
      rw [hcheck] at hsome
      rw [Option.isSome_eq_false_iff.mp hsome.symm |> Option.isNone_iff_eq_none.mp]
      simp
    | some ok =>
      rw [hcheck] at hsome
      obtain ⟨o, ho⟩ := Option.isSome_iff_exists.mp hsome.symm
      cases ok <;> simp [ho]

/-- In every run in which the writer can resume, the log it leaves is intact, and a list of lines
that is intact holds a contiguous piece of the records written, in their order. -/
theorem chain_verifies (lib : Library) (legacy : List Entry) (es : List Event) (s : Log)
    (hlib : lib.Lawful) (hlegacy : ∀ e ∈ legacy, chained (openLine lib true e.line) = none)
    (hmeets : Runs.Meets (Resumes lib) (step lib) (start legacy) es)
    (hexec : Runs.exec (step lib) (start legacy) es = some s) :
    Intact lib (s.entries.map Entry.line) ∧
      ∀ lines, Unforged lib s.history lines → Intact lib lines →
        (lines.map (openLine lib true)).filterMap chained <:+: s.history := by
  have hstart : ∃ legacy' written values, Inv lib (start legacy) legacy' written values := by
    refine ⟨legacy, [], [], (List.append_nil _).symm, hlegacy, rfl, List.nil_suffix,
      List.isChain_nil, ?_, HashChain.recorded_nil _ _ _, ?_⟩
    · intro v hv
      cases hv
    · intro last hlast
      cases hlast
  obtain ⟨legacy', written, values, h⟩ := Runs.invariant_of_meets (Resumes lib) (step lib)
    (fun s => ∃ legacy' written values, Inv lib s legacy' written values)
    (fun s e t hguard h hstep => inv_step lib s t e hlib hguard h hstep) (start legacy) s es hstart
    hmeets hexec
  refine ⟨?_, ?_⟩
  · rw [Intact, verify_eq_iff, List.map_map, h.entries, List.map_append]
    apply verify_unchained
    · intro x hx
      obtain ⟨e, he, rfl⟩ := List.mem_map.mp hx
      exact h.unchained e he
    · intro gap
      have hopened : written.map (openLine lib true ∘ Entry.line) =
          values.map fun v => some (.object v) := h.opened
      rw [hopened]
      exact verify_anchored lib values gap h.linked fun v hv => h.self v (h.suffix.subset hv)
  · intro lines hunforged hintact
    exact verified_infix lib s.history lines h.self h.recorded hunforged
      ((verify_eq_iff lib _ _).mp hintact)

def firstHash : String := "f0d5b72a7457bad292e36ce5b37c034079ad6cf95ee284a31ac3b024f612245f"

def secondHash : String := "899ce444c877184238a3772edb20a66b29424961c7dbee52d1aef1be59b9c233"

def unresumedHash : String := "708bbece81d748bb6915aff7755f8d67021839531cc8e1154c5bc7cbfffcb054"

def sampleValue (n : UInt64) : Object :=
  ⟨[("n", .number n), ("record_type", .text "session")], by
    simp only [Sorted, List.pairwise_pair]
    decide⟩

def sampleBody (n seq : UInt64) (prev : String) : Object :=
  ((sampleValue n).insert "_seq" (.number seq)).insert "_prev" (.text prev)

def sampleRecord (n seq : UInt64) (prev hash : String) : Object :=
  (sampleBody n seq prev).insert "_hash" (.text hash)

def firstRecord : Object := sampleRecord 0 1 chainGenesis firstHash

def secondRecord : Object := sampleRecord 1 2 firstHash secondHash

def unresumedRecord : Object := sampleRecord 1 1 chainGenesis unresumedHash

def bodyText (n seq prev : String) : String :=
  "\"_prev\":\"" ++ prev ++ "\",\"_seq\":" ++ seq ++ ",\"n\":" ++ n ++
    ",\"record_type\":\"session\"\x7d"

def recordText (n seq prev hash : String) : String :=
  "\x7b\"_hash\":\"" ++ hash ++ "\"," ++ bodyText n seq prev

def renderTable : List (Object × String) :=
  [(sampleBody 0 1 chainGenesis, "\x7b" ++ bodyText "0" "1" chainGenesis),
    (firstRecord, recordText "0" "1" chainGenesis firstHash),
    (sampleBody 1 2 firstHash, "\x7b" ++ bodyText "1" "2" firstHash),
    (secondRecord, recordText "1" "2" firstHash secondHash),
    (sampleBody 1 1 chainGenesis, "\x7b" ++ bodyText "1" "1" chainGenesis),
    (unresumedRecord, recordText "1" "1" chainGenesis unresumedHash)]

def cipherTable : List (String × String) :=
  [(recordText "0" "1" chainGenesis firstHash, "00Zmlyc3Q="),
    (recordText "1" "2" firstHash secondHash, "00c2Vjb25k"),
    (recordText "1" "1" chainGenesis unresumedHash, "00dW5yZXN1bWVk")]

def digestTable : List (String × String) :=
  [(chainGenesis ++ "\n" ++ "\x7b" ++ bodyText "0" "1" chainGenesis, firstHash),
    (firstHash ++ "\n" ++ "\x7b" ++ bodyText "1" "2" firstHash, secondHash),
    (chainGenesis ++ "\n" ++ "\x7b" ++ bodyText "1" "1" chainGenesis, unresumedHash)]

def sampleLibrary : Library where
  render o := (renderTable.lookup o).getD ""
  parse text := (renderTable.find? fun p => decide (p.2 = text)).map fun p => .object p.1
  encrypt text := (cipherTable.lookup text).getD ""
  decrypt line :=
    match cipherTable.find? fun p => decide (p.2 = line) with
    | some p => (p.1, true)
    | none => (line, false)
  sha256 text := (digestTable.lookup text).getD ""

theorem mem_of_lookup {K : Type} [DecidableEq K] (table : List (K × String)) (key : K)
    (hne : (table.lookup key).getD "" ≠ "") : (key, (table.lookup key).getD "") ∈ table := by
  cases hlookup : table.lookup key with
  | none =>
    rw [hlookup] at hne
    exact absurd rfl hne
  | some value =>
    obtain ⟨front, back, htable, -⟩ := List.lookup_eq_some_iff.mp hlookup
    rw [htable]
    simp

theorem mem_renderTable (h : sampleLibrary.render o ≠ "") :
    (o, sampleLibrary.render o) ∈ renderTable :=
  mem_of_lookup renderTable o h

theorem sampleLibrary_lawful : sampleLibrary.Lawful := by
  have htables : ∀ p ∈ renderTable, ∀ q ∈ cipherTable, p.2 = q.1 →
      openLine sampleLibrary true q.2 = some (.object p.1) := by decide +kernel
  have hempty : ∀ q ∈ cipherTable, q.1 ≠ "" := by decide +kernel
  intro o line hseal
  simp only [sealLine, if_true] at hseal
  split at hseal
  · cases hseal
  · rename_i hsealed
    have hline := Option.some.inj hseal
    generalize htext : sampleLibrary.render o = text at hsealed hline
    have hcipher : (text, line) ∈ cipherTable := by
      rw [← hline]
      exact mem_of_lookup cipherTable text fun h => hsealed (Or.inl h)
    have hrender : (o, text) ∈ renderTable := by
      rw [← htext]
      exact mem_renderTable o (htext.symm ▸ hempty _ hcipher)
    exact htables _ hrender _ hcipher rfl

def present : Env := ⟨true, true, [], true⟩

def sampleRun : List Event :=
  [.append (sampleValue 0) "2026-01" present,
    .append (sampleValue 1) "2026-01" { present with stored := false },
    .restart,
    .append (sampleValue 1) "2026-02" present]

theorem bodyText_line (n seq prev : String) (hn : '\n' ∉ n.toList) (hseq : '\n' ∉ seq.toList)
    (hprev : '\n' ∉ prev.toList) : '\n' ∉ (bodyText n seq prev).toList := by
  simp [bodyText, hn, hseq, hprev]

theorem renderTable_line : ∀ p ∈ renderTable, '\n' ∉ p.2.toList := by
  have hgenesis : '\n' ∉ chainGenesis.toList := by decide
  have hfirst : '\n' ∉ firstHash.toList := by decide
  have hsecond : '\n' ∉ secondHash.toList := by decide +kernel
  have hunresumed : '\n' ∉ unresumedHash.toList := by decide +kernel
  simp [renderTable, recordText, bodyText_line, hgenesis, hfirst, hsecond, hunresumed]

theorem sampleLibrary_unforged :
    Unforged sampleLibrary [firstRecord, secondRecord] ["00c2Vjb25k"] := by
  have hopened : ∀ line ∈ ["00c2Vjb25k"], ∀ o, openLine sampleLibrary true line = some (.object o) →
      o = secondRecord := by
    intro line hline o hopen
    obtain rfl := List.mem_singleton.mp hline
    have hsecond : openLine sampleLibrary true "00c2Vjb25k" = some (.object secondRecord) := by
      decide +kernel
    exact Json.object.inj (Option.some.inj (hopen.symm.trans hsecond))
  refine ⟨?_, ?_, ?_, by decide +kernel, ?_⟩
  · intro o hnewline
    by_cases hempty : sampleLibrary.render o = ""
    · rw [hempty] at hnewline
      cases hnewline
    · exact renderTable_line _ (mem_renderTable o hempty) hnewline
  · intro w hw line hline o hopen
    obtain rfl := hopened line hline o hopen
    exact (by decide +kernel : ∀ w ∈ [firstRecord, secondRecord],
      sampleLibrary.render (w.remove "_hash") = sampleLibrary.render (secondRecord.remove "_hash") →
        w.remove "_hash" = secondRecord.remove "_hash") w hw
  · intro w hw line hline o hopen
    obtain rfl := hopened line hline o hopen
    exact (by decide +kernel : ∀ w ∈ [firstRecord, secondRecord],
      chainHash sampleLibrary (prevOf w) (.object w) =
          chainHash sampleLibrary (prevOf secondRecord) (.object secondRecord) →
        chainText sampleLibrary (prevOf w) (.object w) =
          chainText sampleLibrary (prevOf secondRecord) (.object secondRecord)) w hw
  · intro line hline o hopen _
    obtain rfl := hopened line hline o hopen
    exact ⟨secondRecord, by simp, rfl⟩

/-- The second record is written after a failure and a restart; without the first line it is
still intact, and it is a piece of what was written. -/
theorem chain_verifies_sample :
    ∃ s, Runs.exec (step sampleLibrary) (start []) sampleRun = some s ∧
      s.history = [firstRecord, secondRecord] ∧
      Intact sampleLibrary (s.entries.map Entry.line) ∧ [secondRecord] <:+: s.history := by
  have hmeets : Runs.Meets (Resumes sampleLibrary) (step sampleLibrary) (start []) sampleRun := by
    decide +kernel
  have hhistory : (Runs.exec (step sampleLibrary) (start []) sampleRun).map Log.history =
      some [firstRecord, secondRecord] := by decide +kernel
  obtain ⟨s, hexec, hhistory⟩ := Option.map_eq_some_iff.mp hhistory
  obtain ⟨hintact, hpieces⟩ := chain_verifies sampleLibrary [] sampleRun s sampleLibrary_lawful
    (fun e he => absurd he List.not_mem_nil) hmeets hexec
  refine ⟨s, hexec, hhistory, hintact, ?_⟩
  have hpiece := hpieces ["00c2Vjb25k"] (hhistory ▸ sampleLibrary_unforged) (by
    unfold Intact
    decide +kernel)
  have hopened : (["00c2Vjb25k"].map (openLine sampleLibrary true)).filterMap chained =
      [secondRecord] := by decide +kernel
  rw [hopened] at hpiece
  exact hpiece

def unresumedRun : List Event :=
  [.append (sampleValue 0) "2026-01" present,
    .restart,
    .append (sampleValue 1) "2026-01" { present with key := false },
    .append (sampleValue 1) "2026-01" present]

theorem unresumed_record_reported_broken : sampleLibrary.Lawful ∧
    ∃ s, Runs.exec (step sampleLibrary) (start []) unresumedRun = some s ∧
      s.history = [firstRecord, unresumedRecord] ∧
      ¬ Intact sampleLibrary (s.entries.map Entry.line) := by
  have hentries : (Runs.exec (step sampleLibrary) (start []) unresumedRun).map
      (fun s => (s.history, s.entries.map Entry.line)) =
      some ([firstRecord, unresumedRecord], ["00Zmlyc3Q=", "00dW5yZXN1bWVk"]) := by decide +kernel
  obtain ⟨s, hexec, hs⟩ := Option.map_eq_some_iff.mp hentries
  obtain ⟨hhistory, hlines⟩ := Prod.mk.inj hs
  refine ⟨sampleLibrary_lawful, s, hexec, hhistory, ?_⟩
  rw [hlines]
  unfold Intact
  decide +kernel

end ClantoDesk.SessionLog
