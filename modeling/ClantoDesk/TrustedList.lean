import ClantoDesk.LittleEndian
import ClantoDesk.TrustedControllers
import Mathlib.Data.List.Nodup

/-!
The text of the list of trusted controllers, `format`, `add` and `remove` of
src/clanto/trusted_controllers.rs. The parser keeps entries that are valid, distinct and not
more than 500, and such entries come back from their text as they are; an edit is an edit of the
entries that the parser keeps. A removal with a key that cannot be read is one without a key.
-/
namespace ClantoDesk.TrustedList

open Text Lines TrustedControllers

def toOption (e : Entry) : Str := e.id ++ '=' :: encodeKey e.key

def format (entries : List Entry) : Str := [','].intercalate (entries.map toOption)

def add (list id key : Str) : Except String Str :=
  let id := trim id
  if !validId id then .error ("Invalid controller ID: " ++ String.ofList id)
  else
    match decodeKey key with
    | none => .error "Invalid device key"
    | some key =>
      let entries := (parse list).1
      if ⟨id, key⟩ ∈ entries then .ok (format entries)
      else if MAX_ENTRIES ≤ entries.length then
        .error ("At most " ++ toString MAX_ENTRIES ++ " trusted controllers")
      else .ok (format (entries ++ [⟨id, key⟩]))

/-- All keys of an id go, or only the given one. -/
def remove (list id : Str) (key : Option Str) : Str :=
  let key := key.bind decodeKey
  format ((parse list).1.filter fun e =>
    decide (e.id ≠ trim id) || key.elim false fun k => decide (e.key ≠ k))

/-- What the parser makes of any text. -/
structure Listed (entries : List Entry) : Prop where
  valid : ∀ e ∈ entries, e.Valid
  nodup : entries.Nodup
  bounded : entries.length ≤ MAX_ENTRIES

variable (list id key : Str) (c : Char) (n : ℕ) (entries : List Entry) (e : Entry)

theorem listed_parseNext (parsed : List Entry × List Str) (item : Str) (h : Listed parsed.1) :
    Listed (parseNext parsed item).1 := by
  refine ⟨valid_parseNext parsed item h.valid, ?_, ?_⟩
  · unfold parseNext
    split
    · split
      · split
        · exact h.nodup
        · rename_i entry _ _ hnew
          exact List.nodup_append.mpr ⟨h.nodup, List.pairwise_singleton _ entry, by
            intro a ha b hb heq
            rw [List.mem_singleton.mp hb] at heq
            exact hnew (heq ▸ ha)⟩
      · exact h.nodup
    · exact h.nodup
  · unfold parseNext
    split
    · split
      · split
        · exact h.bounded
        · rename_i hroom _
          rw [List.length_append, List.length_singleton]
          omega
      · exact h.bounded
    · exact h.bounded

theorem listed_parse : Listed (parse list).1 := by
  have hfold : ∀ (items : List Str) (parsed : List Entry × List Str), Listed parsed.1 →
      Listed (items.foldl parseNext parsed).1 := by
    intro items
    induction items with
    | nil => exact fun parsed h => h
    | cons item items ih => exact fun parsed h => ih _ (listed_parseNext parsed item h)
  apply hfold
  exact ⟨by simp, List.nodup_nil, Nat.zero_le _⟩

/-! ### The text of an entry -/

/-- What stands for itself in the list: neither a separator nor the sign before the key. -/
def plain (c : Char) : Bool := !isSeparator c && c != '='

def whitespaceCodes : List ℕ :=
  [9, 10, 11, 12, 13, 32, 133, 160, 5760, 8192, 8193, 8194, 8195, 8196, 8197, 8198, 8199, 8200,
    8201, 8202, 8232, 8233, 8239, 8287, 12288]

theorem mem_whitespaceCodes (h : isWhitespace c = true) : c.toNat ∈ whitespaceCodes := by
  simp only [isWhitespace, Bool.or_eq_true, decide_eq_true_eq, beq_iff_eq] at h
  simp only [whitespaceCodes, List.mem_cons, List.not_mem_nil, or_false]
  omega

theorem plain_of_alphanum (h : c.isAlphanum = true) : plain c = true := by
  have hcodes : ∀ n ∈ whitespaceCodes, (!(Char.ofNat n).isAlphanum) = true :=
    List.all_eq_true.mp (by decide)
  have hspace : isWhitespace c = false := by
    cases hspace : isWhitespace c with
    | false => rfl
    | true =>
      have hcode := hcodes c.toNat (mem_whitespaceCodes c hspace)
      rw [Char.ofNat_toNat, h] at hcode
      cases hcode
  have hother : ∀ d : Char, d.isAlphanum = false → (c == d) = false := by
    intro d hd
    apply beq_eq_false_iff_ne.mpr
    intro heq
    rw [heq, hd] at h
    cases h
  simp only [plain, isSeparator, hspace, bne, hother ',' (by decide), hother ';' (by decide),
    hother '=' (by decide), Bool.or_false, Bool.not_false, Bool.and_self]

theorem plain_of_validId (h : validId id = true) : ∀ c ∈ id, plain c = true := by
  simp only [validId, Bool.and_eq_true, List.all_eq_true, Bool.or_eq_true, beq_iff_eq] at h
  intro c hc
  rcases h.2 c hc with (hletter | rfl) | rfl
  · exact plain_of_alphanum c hletter
  · decide
  · decide

theorem plain_encodeKey (key : Bytes) : ∀ c ∈ encodeKey key, plain c = true := by
  intro c hc
  exact List.all_eq_true.mp (by decide : Base64.alphabet.all plain = true) c
    (Base64.mem_encode key c hc)

theorem isSeparator_of_plain (h : plain c = true) : isSeparator c = false := by
  simpa using (Bool.and_eq_true_iff.mp h).1

theorem trim_of_plain (s : Str) (h : ∀ c ∈ s, plain c = true) : trim s = s := by
  have hspace : ∀ c ∈ s, isWhitespace c = false := by
    intro c hc
    have hsep := isSeparator_of_plain c (h c hc)
    rw [isSeparator, Bool.or_eq_false_iff] at hsep
    exact hsep.2
  have hdrop : ∀ l : Str, (∀ c ∈ l, isWhitespace c = false) → l.dropWhile isWhitespace = l := by
    intro l hl
    cases l with
    | nil => rfl
    | cons c rest => exact List.dropWhile_cons_of_neg (by simp [hl c (List.mem_cons_self ..)])
  rw [trim, hdrop s hspace, List.rdropWhile, hdrop s.reverse fun c hc =>
    hspace c (List.mem_reverse.mp hc), List.reverse_reverse]

theorem not_mem_of_plain (s : Str) (h : ∀ c ∈ s, plain c = true) : '=' ∉ s := by
  intro hmem
  exact absurd (h '=' hmem) (by decide)

theorem parseItem_toOption (he : e.Valid) : parseItem (toOption e) = some e := by
  have hid := plain_of_validId e.id he.1
  have hkey : decodeKey (encodeKey e.key) = some e.key := by
    rw [decodeKey, trim_of_plain _ (plain_encodeKey e.key), encodeKey, Base64.decode_encode]
    exact if_pos he.2
  rw [parseItem, toOption, splitOnce_append '=' e.id (encodeKey e.key) (not_mem_of_plain e.id hid)]
  show (if validId (trim e.id) = true then _ else none) = _
  rw [trim_of_plain e.id hid, if_pos he.1, hkey]
  rfl

theorem toOption_ne_nil : toOption e ≠ [] := by
  simp [toOption]

theorem not_isSeparator_toOption (he : e.Valid) : ∀ c ∈ toOption e, isSeparator c = false := by
  intro c hc
  rcases List.mem_append.mp hc with hid | hrest
  · exact isSeparator_of_plain c (plain_of_validId e.id he.1 c hid)
  rcases List.mem_cons.mp hrest with rfl | hkey
  · decide
  · exact isSeparator_of_plain c (plain_encodeKey e.key c hkey)

/-! ### The text of the list -/

theorem items_format (h : ∀ e ∈ entries, e.Valid) :
    ((format entries).splitOnP isSeparator).filter (fun item => !item.isEmpty) =
      entries.map toOption := by
  have hkept : ∀ e : Entry, (!(toOption e).isEmpty) = true := by
    intro e
    simpa using toOption_ne_nil e
  induction entries with
  | nil => rfl
  | cons e rest ih =>
    have hplain := not_isSeparator_toOption e (h e (List.mem_cons_self ..))
    have hlater := ih fun e' he' => h e' (List.mem_cons_of_mem _ he')
    cases rest with
    | nil =>
      rw [format, List.map_singleton, List.intercalate_singleton,
        List.splitOnP_eq_singleton hplain]
      simp only [List.filter_cons, hkept, if_true, List.filter_nil]
    | cons e' rest =>
      have htext : format (e :: e' :: rest) = toOption e ++ ',' :: format (e' :: rest) := by
        rw [format, List.map_cons, List.map_cons, List.intercalate_cons_cons, List.append_assoc]
        rfl
      rw [htext, List.splitOnP_append_cons_of_forall_mem hplain ',' (by decide), List.map_cons]
      simp only [List.filter_cons, hkept, if_true, hlater]

theorem foldl_parseNext (before : List Entry) (invalid : List Str)
    (h : Listed (before ++ entries)) :
    (entries.map toOption).foldl parseNext (before, invalid) = (before ++ entries, invalid) := by
  induction entries generalizing before with
  | nil => rw [List.append_nil]; rfl
  | cons e rest ih =>
    have he : e.Valid := h.valid e (by simp)
    have hnew : e ∉ before := by
      intro hmem
      exact (List.nodup_append.mp h.nodup).2.2 e hmem e (List.mem_cons_self ..) rfl
    have hroom : before.length < MAX_ENTRIES := by
      have hbounded := h.bounded
      rw [List.length_append, List.length_cons] at hbounded
      omega
    have hsame : before ++ e :: rest = (before ++ [e]) ++ rest := by simp
    have hnext : parseNext (before, invalid) (toOption e) = (before ++ [e], invalid) := by
      simp only [parseNext, parseItem_toOption e he, if_pos hroom, if_neg hnew]
    rw [List.map_cons, List.foldl_cons, hnext, hsame]
    exact ih (before ++ [e]) (hsame ▸ h)

/-- Valid, distinct entries up to the limit come back from their text. -/
theorem parse_format (h : Listed entries) : parse (format entries) = (entries, []) := by
  rw [parse, items_format entries h.valid]
  exact foldl_parseNext entries [] [] h

/-! ### The edits -/

def added (entries : List Entry) (e : Entry) : List Entry :=
  if e ∈ entries then entries else entries ++ [e]

theorem mem_added : e ∈ added entries e := by
  unfold added
  split
  · assumption
  · simp

/-- What an addition does. -/
theorem add_spec (text : Str) (h : add list id key = .ok text) :
    ∃ k, decodeKey key = some k ∧ validId (trim id) = true ∧
      Listed (added (parse list).1 ⟨trim id, k⟩) ∧
      text = format (added (parse list).1 ⟨trim id, k⟩) := by
  simp only [add] at h
  split at h
  · cases h
  rename_i hid
  have hvalid : validId (trim id) = true := by simpa using hid
  cases hkey : decodeKey key with
  | none =>
    rw [hkey] at h
    cases h
  | some k =>
    rw [hkey] at h
    refine ⟨k, rfl, hvalid, ?_⟩
    have hlisted := listed_parse list
    have hlength : k.length = PUBLICKEYBYTES := by
      obtain ⟨bytes, -, hbytes⟩ := Option.bind_eq_some_iff.mp hkey
      split at hbytes
      · rename_i hlen
        exact Option.some.inj hbytes ▸ hlen
      · cases hbytes
    simp only at h
    split at h
    · rename_i hin
      rw [added, if_pos hin]
      exact ⟨hlisted, (Except.ok.inj h).symm⟩
    split at h
    · cases h
    · rename_i hnew hroom
      rw [added, if_neg hnew]
      refine ⟨⟨?_, ?_, ?_⟩, (Except.ok.inj h).symm⟩
      · intro e he
        rcases List.mem_append.mp he with hold | hlast
        · exact hlisted.valid e hold
        · rw [List.mem_singleton.mp hlast]
          exact ⟨hvalid, hlength⟩
      · refine List.nodup_append.mpr ⟨hlisted.nodup, List.pairwise_singleton _ _, ?_⟩
        intro a ha b hb heq
        rw [List.mem_singleton.mp hb] at heq
        exact hnew (heq ▸ ha)
      · rw [List.length_append, List.length_singleton]
        omega

/-- An addition that fails has no valid id, no readable key, or no room for a new pair. -/
theorem add_error (e : String) (h : add list id key = .error e) :
    validId (trim id) = false ∨ decodeKey key = none ∨
      ∃ k, decodeKey key = some k ∧ ⟨trim id, k⟩ ∉ (parse list).1 ∧
        (parse list).1.length = MAX_ENTRIES := by
  simp only [add] at h
  split at h
  · rename_i hid
    exact Or.inl (by simpa using hid)
  cases hkey : decodeKey key with
  | none => exact Or.inr (Or.inl rfl)
  | some k =>
    rw [hkey] at h
    simp only at h
    split at h
    · cases h
    split at h
    · rename_i hnew hfull
      exact Or.inr (Or.inr ⟨k, rfl, hnew, le_antisymm (listed_parse list).bounded hfull⟩)
    · cases h

/-- The same addition once more changes nothing. -/
theorem add_add (text : Str) (h : add list id key = .ok text) : add text id key = .ok text := by
  obtain ⟨k, hkey, hid, hlisted, rfl⟩ := add_spec list id key text h
  simp only [add, hid, hkey, parse_format _ hlisted, if_pos (mem_added _ _), Bool.not_true,
    Bool.false_eq_true, if_false]

theorem listed_filter (keep : Entry → Bool) (h : Listed entries) :
    Listed (entries.filter keep) := by
  refine ⟨?_, h.nodup.filter keep, (List.length_filter_le keep entries).trans h.bounded⟩
  intro e he
  exact h.valid e (List.mem_filter.mp he).1

/-- With a key that can be read, the entry with this id and key goes and every other stays. -/
theorem parse_remove (k : Bytes) (hkey : decodeKey key = some k) :
    parse (remove list id (some key)) =
      ((parse list).1.filter fun e => decide (e ≠ ⟨trim id, k⟩), []) := by
  have hsame : ∀ e : Entry,
      (decide (e.id ≠ trim id) || (some k).elim false fun k => decide (e.key ≠ k)) =
        decide (e ≠ ⟨trim id, k⟩) := by
    intro e
    rw [Option.elim_some, ← Bool.decide_or]
    apply decide_eq_decide.mpr
    rw [Ne, Ne, Ne, Entry.mk.injEq e.id e.key, not_and_or]
  simp only [remove, Option.bind_some, hkey, hsame]
  exact parse_format _ (listed_filter _ _ (listed_parse list))

/-- Distinct valid entries up to the limit come back from their text. An addition that succeeds adds
the pair to the entries of the list, when it is not there, and once more changes nothing; it fails
for an invalid id or key and for a new pair on a full list. A removal with a key that can be read
takes away the entry with this id and key alone. -/
theorem list_text :
    (∀ entries, (∀ e ∈ entries, e.Valid) → entries.Nodup → entries.length ≤ MAX_ENTRIES →
      parse (format entries) = (entries, [])) ∧
    (∀ list id key,
      (∀ text, add list id key = .ok text → add text id key = .ok text ∧
        ∃ k, decodeKey key = some k ∧ parse text = (added (parse list).1 ⟨trim id, k⟩, [])) ∧
      ∀ e, add list id key = .error e → validId (trim id) = false ∨ decodeKey key = none ∨
        ∃ k, decodeKey key = some k ∧ ⟨trim id, k⟩ ∉ (parse list).1 ∧
          (parse list).1.length = MAX_ENTRIES) ∧
    ∀ list id key k, decodeKey key = some k →
      parse (remove list id (some key)) =
        ((parse list).1.filter fun e => decide (e ≠ ⟨trim id, k⟩), []) := by
  refine ⟨?_, ?_, parse_remove⟩
  · intro entries hvalid hnodup hbounded
    exact parse_format entries ⟨hvalid, hnodup, hbounded⟩
  · intro list id key
    refine ⟨?_, fun e => add_error list id key e⟩
    intro text h
    obtain ⟨k, hkey, -, hlisted, htext⟩ := add_spec list id key text h
    refine ⟨add_add list id key text h, k, hkey, ?_⟩
    rw [htext, parse_format _ hlisted]

theorem parse_format_long (h : MAX_ENTRIES < entries.length) :
    parse (format entries) ≠ (entries, []) := by
  intro heq
  have hbounded := (listed_parse (format entries)).bounded
  rw [heq] at hbounded
  exact absurd hbounded (not_le.mpr h)

def sampleEntry : Entry := ⟨"111".toList, sampleKey⟩

def manyEntries (n : ℕ) : List Entry :=
  (List.range n).map fun i => ⟨"111".toList, LittleEndian.leBytes PUBLICKEYBYTES i⟩

theorem manyEntries_valid : ∀ e ∈ manyEntries n, e.Valid := by
  intro e he
  obtain ⟨i, -, rfl⟩ := List.mem_map.mp he
  have hid : validId "111".toList = true := by decide
  exact ⟨hid, LittleEndian.leBytes_length PUBLICKEYBYTES i⟩

theorem manyEntries_nodup (hn : n ≤ 256 * 256) : (manyEntries n).Nodup := by
  have hlarge : 256 ^ 2 ≤ 256 ^ PUBLICKEYBYTES := Nat.pow_le_pow_right (by decide) (by decide)
  refine List.Nodup.map_on ?_ List.nodup_range
  intro i hi j hj heq
  rw [List.mem_range] at hi hj
  exact LittleEndian.leBytes_inj PUBLICKEYBYTES i j (by omega) (by omega) (Entry.mk.inj heq).2

theorem manyEntries_listed (hn : n ≤ MAX_ENTRIES) : Listed (manyEntries n) := by
  rw [MAX_ENTRIES] at hn
  refine ⟨manyEntries_valid n, manyEntries_nodup n (by omega), ?_⟩
  rw [manyEntries, List.length_map, List.length_range, MAX_ENTRIES]
  exact hn

theorem manyEntries_length : (manyEntries n).length = n := by
  rw [manyEntries, List.length_map, List.length_range]

/-- Entries that occur twice do not come back twice, and no more than 500 come back; a full list
takes no new pair; and a removal with a text that is no key takes all keys of the id. -/
theorem parse_format_twice :
    (sampleEntry.Valid ∧
      parse (format [sampleEntry, sampleEntry]) ≠ ([sampleEntry, sampleEntry], [])) ∧
    ((∀ e ∈ manyEntries 501, e.Valid) ∧ (manyEntries 501).Nodup ∧
      parse (format (manyEntries 501)) ≠ (manyEntries 501, [])) ∧
    add (format (manyEntries 500)) "222".toList (encodeKey sampleKey) =
      .error "At most 500 trusted controllers" ∧
    sampleEntry ∈ (parse (format [sampleEntry])).1 ∧
      remove (format [sampleEntry]) sampleEntry.id (some "key".toList) = [] := by
  have hsample : sampleEntry.Valid := by
    unfold Entry.Valid
    decide
  refine ⟨⟨hsample, ?_⟩, ⟨manyEntries_valid 501, manyEntries_nodup 501 (by omega), ?_⟩, ?_, ?_⟩
  · intro h
    have hnodup := (listed_parse (format [sampleEntry, sampleEntry])).nodup
    rw [h] at hnodup
    exact absurd hnodup (by decide)
  · apply parse_format_long
    rw [manyEntries_length, MAX_ENTRIES]
    omega
  · have hid : validId (trim "222".toList) = true := by decide
    have hkey : decodeKey (encodeKey sampleKey) = some sampleKey := by decide
    have hnew : (⟨trim "222".toList, sampleKey⟩ : Entry) ∉ manyEntries 500 := by
      intro hmem
      obtain ⟨i, -, hi⟩ := List.mem_map.mp hmem
      have hids : ("111".toList : Str) ≠ trim "222".toList := by decide
      exact hids (Entry.mk.inj hi).1
    have hparse := parse_format (manyEntries 500) (manyEntries_listed 500 (by rw [MAX_ENTRIES]))
    simp only [add, hid, hkey, hparse, if_neg hnew, manyEntries_length, MAX_ENTRIES, le_refl,
      Bool.not_true, Bool.false_eq_true, if_false, if_true]
    decide
  · have hlisted : Listed [sampleEntry] :=
      ⟨by simpa using hsample, List.pairwise_singleton _ _, by simp [MAX_ENTRIES]⟩
    have hbad : decodeKey "key".toList = none := by decide
    have hsame : trim sampleEntry.id = sampleEntry.id := by decide
    rw [remove, parse_format [sampleEntry] hlisted, Option.bind_some, hbad]
    simp [hsame, format]

end ClantoDesk.TrustedList
