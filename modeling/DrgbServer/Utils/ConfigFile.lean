import DrgbServer.Utils.ConfigParser

/-! # What is read from a configuration file

`split` reads an entry where its first `=` and its first two quotes are those that
`check_line` has counted. A file of such lines is read without an exception, and each key
keeps the value of its first line. -/
namespace DrgbServer.Utils.ConfigParser

/-! ## Where a line is cut -/

/-- The place of the first `=` as an `int` is the place that `split` cuts at. -/
theorem split_eq {front rest : Line} (hfront : '=' ∉ front) :
    split (front ++ '=' :: rest) =
      if toInt front.length = -1 then some (.ok ([], front ++ '=' :: rest))
      else if toInt front.length < 0 then some (.error (.outOfRange "basic_string::erase"))
      else (int (toInt front.length + 1)).map fun _ =>
        (unquote (trim ((front ++ '=' :: rest).drop ((toInt front.length).toNat + 1)))).map
          fun value => (trim ((front ++ '=' :: rest).take (toInt front.length).toNat), value) := by
  have hle := toInt_le front.length
  have hfind : (front ++ '=' :: rest).findIdx? (· = '=') = some front.length := by
    have hnone : front.findIdx? (· = '=') = none := by
      refine List.findIdx?_eq_none_iff.mpr fun c hc => decide_eq_false ?_
      rintro rfl
      exact hfront hc
    rw [List.findIdx?_append, hnone, List.findIdx?_cons]
    simp
  rw [split, hfind]
  dsimp only
  split_ifs with hnpos hneg
  · rfl
  · rw [eraseFrom, if_neg (by omega)]
  · have hlength : (front ++ '=' :: rest).length = front.length + (rest.length + 1) := by
      rw [List.length_append, List.length_cons]
    rw [eraseFrom, if_pos (by omega)]
    dsimp only
    by_cases hfits : -2 ^ 31 ≤ toInt front.length + 1 ∧ toInt front.length + 1 < 2 ^ 31
    · have hcount : (toInt front.length + 1).toNat = (toInt front.length).toNat + 1 := by omega
      rw [int_of_fits hfits, Option.map_some, Option.map_some, hcount]
    · have hnone : int (toInt front.length + 1) = none := if_neg hfits
      rw [hnone, Option.map_none, Option.map_none]

/-- The place of the `=` is an `int` with a successor, and where it is not the place as a number it
is followed by blanks, with a quoted section behind the `=`. -/
structure Entry.Countable (e : Entry) : Prop where
  nonneg : 0 ≤ toInt (texts e.before).length
  below : toInt (texts e.before).length < 2 ^ 31 - 1
  same : toInt (texts e.before).length = (texts e.before).length ∨
    (∀ c ∈ (texts e.before).drop (toInt (texts e.before).length).toNat, isBlank c = true) ∧
      (firstBody e.after).isSome

/-- The first `=` is the one outside of quotes, and the first quoted section behind it has no quote
of the other kind. -/
structure Entry.Simple (e : Entry) : Prop where
  first : '=' ∉ texts e.before
  single : ∀ body, firstBody e.after = some body → ∀ c ∈ body, isQuote c = false

theorem key_of_map {result : Except Exn Line} {front key value : Line}
    (h : result.map (fun v => (front, v)) = .ok (key, value)) :
    front = key ∧ result = .ok value := by
  cases result with
  | error e => cases h
  | ok v =>
    cases h
    exact ⟨rfl, rfl⟩

/-- A key that is not in front of the `=` of the entry. -/
theorem split_of_mem {e : Entry} (h : '=' ∈ texts e.before) :
    split e.text ≠ some (.ok (e.key, e.value)) := by
  obtain ⟨front, rest, hbefore, hfront⟩ := List.eq_append_cons_of_mem h
  have htext : e.text = front ++ '=' :: (rest ++ '=' :: texts e.after) := by
    rw [Entry.text, hbefore, List.append_assoc, List.cons_append]
  have hkey : '=' ∈ e.key := (mem_trim (by decide)).mpr h
  have hle := toInt_le front.length
  rw [htext, split_eq hfront]
  intro heq
  split_ifs at heq with hnpos hneg
  · have hnil : [] = e.key := (Prod.mk.inj (Except.ok.inj (Option.some.inj heq))).1
    rw [← hnil] at hkey
    cases hkey
  · cases heq
  · obtain ⟨n, -, hresult⟩ := Option.map_eq_some_iff.mp heq
    have htake := (key_of_map hresult).1
    rw [List.take_append_of_le_length (by omega)] at htake
    rw [← htake] at hkey
    exact hfront (List.mem_of_mem_take (mem_of_mem_trim hkey))

/-- What is cut off of the end of a key has to be blank. -/
theorem trim_take_iff (src : Line) (n : Nat) :
    trim (src.take n) = trim src ↔ ∀ c ∈ src.drop n, isBlank c = true := by
  constructor
  · intro h c hc
    have hfilter : (src.take n).filter (fun c => !isBlank c) = src.filter fun c => !isBlank c := by
      rw [← filter_trim, h, filter_trim]
    have hparts : src.filter (fun c => !isBlank c) =
        (src.take n).filter (fun c => !isBlank c) ++ (src.drop n).filter fun c => !isBlank c := by
      rw [← List.filter_append, List.take_append_drop]
    have hnil := List.self_eq_append_right.mp (hfilter.trans hparts)
    have hblank := List.filter_eq_nil_iff.mp hnil c hc
    rwa [Bool.not_eq_true', Bool.not_eq_false] at hblank
  · intro h
    rw [← trim_append_of_blank h, List.take_append_drop]

/-- A value is read behind characters without quotes: all of a quoted section that is simple, and
else all there is. -/
theorem unquote_eq_value_iff (e : Entry) {front : Line} (hfront : ∀ c ∈ front, isQuote c = false) :
    unquote (trim (front ++ texts e.after)) = .ok e.value ↔
      (∀ body, firstBody e.after = some body → ∀ c ∈ body, isQuote c = false) ∧
      (firstBody e.after = none → trim (front ++ texts e.after) = trim (texts e.after)) := by
  rw [Entry.value]
  cases hbody : firstBody e.after with
  | none =>
    rw [unquote_of_none hbody hfront]
    constructor
    · intro h
      exact ⟨fun body hsome => (Option.some_ne_none body hsome.symm).elim, fun _ => Except.ok.inj h⟩
    · intro h
      exact congrArg Except.ok (h.2 rfl)
  | some body =>
    rw [unquote_of_firstBody hbody hfront]
    constructor
    · intro h
      refine ⟨fun b hb c hc => ?_, fun hnone => (Option.some_ne_none body hnone).elim⟩
      cases hb
      have hplain := List.takeWhile_eq_self_iff.mp (Except.ok.inj h) c hc
      rwa [Bool.not_eq_true'] at hplain
    · intro h
      refine congrArg Except.ok (List.takeWhile_eq_self_iff.mpr fun c hc => ?_)
      rw [h.1 body rfl c hc]
      rfl

/-- A text with an `=` in front of it is not trimmed to itself. -/
theorem trim_append_equal_ne (front rest : Line) : trim (front ++ '=' :: rest) ≠ trim rest := by
  intro h
  have hfilter : ((trim (front ++ '=' :: rest)).filter fun c => !isBlank c).length =
      ((trim rest).filter fun c => !isBlank c).length := by rw [h]
  rw [filter_trim, filter_trim, List.filter_append, List.filter_cons_of_pos (by decide),
    List.length_append, List.length_cons] at hfilter
  omega

/-- A line that does not begin with a blank has a key, if there is anything before the `=`. -/
theorem key_ne_nil {e : Entry} (htrimmed : e.text.dropWhile isBlank = e.text)
    (hne : texts e.before ≠ []) : e.key ≠ [] := by
  obtain ⟨c, rest, hbefore⟩ := List.exists_cons_of_ne_nil hne
  have hc : isBlank c = false := by
    rw [Entry.text, hbefore, List.cons_append, List.dropWhile_cons] at htrimmed
    split_ifs at htrimmed with hblank
    · have hlength := congrArg List.length htrimmed
      have hle := (List.dropWhile_sublist isBlank (l := rest ++ '=' :: texts e.after)).length_le
      rw [List.length_cons] at hlength
      omega
    · exact Bool.eq_false_iff.mpr hblank
  have hmem : c ∈ e.key := (mem_trim hc).mpr (by rw [hbefore]; exact List.mem_cons_self)
  exact List.ne_nil_of_mem hmem

/-- The key and the value where the `=` of the entry is the first one and is cut at as a number. -/
theorem key_and_value_iff (e : Entry) {place : Nat} (hplace : place ≤ (texts e.before).length) :
    trim (e.text.take place) = e.key ∧ unquote (trim (e.text.drop (place + 1))) = .ok e.value ↔
      (place = (texts e.before).length ∨
        (∀ c ∈ (texts e.before).drop place, isBlank c = true) ∧ (firstBody e.after).isSome) ∧
      ∀ body, firstBody e.after = some body → ∀ c ∈ body, isQuote c = false := by
  rw [Entry.key, Entry.text, List.take_append_of_le_length hplace, trim_take_iff]
  rcases hplace.eq_or_lt with rfl | hlt
  · have hnothing : (texts e.before).drop (texts e.before).length = [] := List.drop_length
    have hafter : (texts e.before ++ '=' :: texts e.after).drop ((texts e.before).length + 1) =
        [] ++ texts e.after := by
      rw [← List.drop_drop, List.drop_left, List.drop_one, List.tail_cons, List.nil_append]
    rw [hafter, unquote_eq_value_iff e (List.forall_mem_nil _), hnothing]
    constructor
    · intro h
      obtain ⟨-, hsingle, -⟩ := h
      exact ⟨.inl rfl, hsingle⟩
    · intro h
      obtain ⟨-, hsingle⟩ := h
      exact ⟨List.forall_mem_nil _, hsingle, fun _ => rfl⟩
  · have hafter : (texts e.before ++ '=' :: texts e.after).drop (place + 1) =
        ((texts e.before).drop (place + 1) ++ ['=']) ++ texts e.after := by
      rw [List.drop_append_of_le_length hlt, List.append_assoc, List.singleton_append]
    have hsplice : ((texts e.before).drop (place + 1) ++ ['=']) ++ texts e.after =
        (texts e.before).drop (place + 1) ++ '=' :: texts e.after := by
      rw [List.append_assoc, List.singleton_append]
    have hquotes : (∀ c ∈ (texts e.before).drop place, isBlank c = true) →
        ∀ c ∈ (texts e.before).drop (place + 1) ++ ['='], isQuote c = false := by
      intro hblank c hc
      rcases List.mem_append.mp hc with hc | hc
      · have hc : isBlank c = true := by
          rw [← List.drop_drop] at hc
          exact hblank c (List.mem_of_mem_drop hc)
        by_contra hquote
        rw [isBlank_of_isQuote (Bool.not_eq_false _ ▸ hquote)] at hc
        cases hc
      · rw [List.mem_singleton.mp hc]
        rfl
    have hnone : trim (((texts e.before).drop (place + 1) ++ ['=']) ++ texts e.after) ≠
        trim (texts e.after) := by
      rw [hsplice]
      exact trim_append_equal_ne _ _
    rw [hafter]
    constructor
    · intro h
      obtain ⟨hblank, hvalue⟩ := h
      obtain ⟨hsingle, hsection⟩ := (unquote_eq_value_iff e (hquotes hblank)).mp hvalue
      refine ⟨.inr ⟨hblank, ?_⟩, hsingle⟩
      cases hbody : firstBody e.after with
      | none => exact absurd (hsection hbody) hnone
      | some body => rfl
    · intro h
      obtain ⟨hplace | ⟨hblank, hsome⟩, hsingle⟩ := h
      · omega
      · refine ⟨hblank, (unquote_eq_value_iff e (hquotes hblank)).mpr ⟨hsingle, fun hbody => ?_⟩⟩
        rw [hbody] at hsome
        cases hsome

/-- `split` reads an entry right where it is simple and its `=` can be counted. -/
theorem split_text_iff {e : Entry} (htrimmed : e.text.dropWhile isBlank = e.text) :
    split e.text = some (.ok (e.key, e.value)) ↔ e.Countable ∧ e.Simple := by
  by_cases hfirst : '=' ∈ texts e.before
  · exact iff_of_false (split_of_mem hfirst) fun h => h.2.first hfirst
  have hlt := toInt_lt (texts e.before).length
  have hle := toInt_le (texts e.before).length
  have hsplit : split e.text = _ := split_eq hfirst
  rw [hsplit]
  by_cases hneg : toInt (texts e.before).length < 0
  · refine iff_of_false (fun heq => ?_) fun h => absurd h.1.nonneg (not_le.mpr hneg)
    split_ifs at heq
    · have hkey : e.key = [] := (Prod.mk.inj (Except.ok.inj (Option.some.inj heq))).1.symm
      refine key_ne_nil htrimmed (fun hnil => ?_) hkey
      rw [hnil, List.length_nil, toInt_of_lt (by decide)] at hneg
      exact lt_irrefl _ hneg
    · cases heq
  rw [if_neg (by omega), if_neg hneg]
  by_cases hlast : toInt (texts e.before).length < 2 ^ 31 - 1
  · have hplace : (toInt (texts e.before).length).toNat ≤ (texts e.before).length := by omega
    have hcut := key_and_value_iff e hplace
    rw [int_of_fits (by omega), Option.map_some]
    constructor
    · intro heq
      obtain ⟨hwhere, hsingle⟩ := hcut.mp (key_of_map (Option.some.inj heq))
      refine ⟨⟨not_lt.mp hneg, hlast, ?_⟩, hfirst, hsingle⟩
      rcases hwhere with hwhere | hwhere
      · exact .inl (by omega)
      · exact .inr hwhere
    · intro hgiven
      obtain ⟨hcountable, hsimple⟩ := hgiven
      have hwhere := hcountable.same
      obtain ⟨hkey, hvalue⟩ := hcut.mpr ⟨hwhere.imp_left (by omega), hsimple.single⟩
      exact congrArg some ((congrArg (Except.map _) hvalue).trans
        (congrArg (fun k => Except.ok (k, e.value)) hkey))
  · refine iff_of_false (fun heq => ?_) fun h => hlast h.1.below
    rw [int_of_overflow (by omega)] at heq
    cases heq

/-! ## Lines -/

/-- A line without its comment, trimmed. -/
def prepared (raw : Line) : Line := trim (deleteComment raw)

/-- What is asked of `check_line` and `split` for a line of a file. -/
def Specified (raw : Line) : Prop :=
  (checkLine (prepared raw) = true ↔ ∃ e : Entry, e.text = prepared raw) ∧
  ∀ e : Entry, e.text = prepared raw → split (prepared raw) = some (.ok (e.key, e.value))

/-- As much of a line as an `int` counts is an entry where the line is one, and each entry is
simple. -/
def Consistent (raw : Line) : Prop :=
  ((∃ e : Entry, e.text = (prepared raw).take (toInt (prepared raw).length).toNat) ↔
    ∃ e : Entry, e.text = prepared raw) ∧
  ∀ e : Entry, e.text = prepared raw → e.Countable ∧ e.Simple

theorem dropWhile_prepared (raw : Line) : (prepared raw).dropWhile isBlank = prepared raw := by
  rw [prepared, trim, List.dropWhile_idempotent]

theorem specified_iff_consistent (raw : Line) : Specified raw ↔ Consistent raw := by
  rw [Specified, Consistent, checkLine_iff]
  refine and_congr_right fun _ => forall_congr' fun e => forall_congr' fun he => ?_
  have htrimmed := dropWhile_prepared raw
  rw [← he] at htrimmed ⊢
  exact split_text_iff htrimmed

/-- Below 2^31 characters all are counted. -/
theorem consistent_iff_of_lt {raw : Line} (hsmall : (prepared raw).length < 2 ^ 31) :
    Consistent raw ↔ ∀ e : Entry, e.text = prepared raw → e.Simple := by
  have hwhole : (prepared raw).take (toInt (prepared raw).length).toNat = prepared raw := by
    rw [toInt_of_lt hsmall, Int.toNat_natCast, List.take_length]
  rw [Consistent, hwhole, and_iff_right Iff.rfl]
  refine forall_congr' fun e => forall_congr' fun he => and_iff_right ?_
  rw [← he, Entry.text, List.length_append, List.length_cons] at hsmall
  have hplace : toInt (texts e.before).length = (texts e.before).length :=
    toInt_of_lt (by omega)
  exact ⟨by omega, by omega, .inl hplace⟩

/-! ## Files -/

/-- What a line says. -/
def Reads (raw key value : Line) : Prop :=
  ∃ e : Entry, e.text = prepared raw ∧ e.key = key ∧ e.value = value

/-- What the first line that has a key says of it. -/
def FirstUsed (lines : List Line) (key value : Line) : Prop :=
  ∃ before raw after, lines = before ++ raw :: after ∧ Reads raw key value ∧
    ∀ other ∈ before, ∀ v, ¬ Reads other key v

/-- What there is stays, and each other key has the value of its first line. -/
structure KeepsFirst (lines : List Line) (dict dict' : Dict) : Prop where
  old : ∀ key value, dict.lookup key = some value → dict'.lookup key = some value
  first : ∀ key, key ≠ [] → dict.lookup key = none →
    ∀ value, dict'.lookup key = some value ↔ FirstUsed lines key value
  empty : dict.lookup [] = none → dict'.lookup [] = none

/-- Each line of a file is as specified, and `ReadFile` does not throw and keeps the first lines. -/
def FileSpecified (lines : List Line) : Prop :=
  (∀ raw ∈ lines, Specified raw) ∧
  ∀ dict, ∃ dict', readFile (some lines) dict = some (.ok (true, dict')) ∧
    KeepsFirst lines dict dict'

theorem lookup_insert_self {dict : Dict} {key : Line} (h : dict.lookup key = none)
    (value : Line) : (insert dict key value).lookup key = some value := by
  rw [insert, h]
  exact List.lookup_cons_self

theorem lookup_insert_of_ne (dict : Dict) {key other : Line} (h : other ≠ key) (value : Line) :
    (insert dict key value).lookup other = dict.lookup other := by
  rw [insert]
  split_ifs
  · rfl
  · rw [List.lookup_cons, beq_eq_false_iff_ne.mpr h]

theorem lookup_insert_of_some {dict : Dict} {other v : Line} (h : dict.lookup other = some v)
    (key value : Line) : (insert dict key value).lookup other = some v := by
  by_cases hkey : other = key
  · rw [insert, ← hkey, h]
    exact h
  · rw [lookup_insert_of_ne dict hkey, h]

theorem firstUsed_cons {raw key value : Line} {rest : List Line} :
    FirstUsed (raw :: rest) key value ↔
      Reads raw key value ∨ (∀ v, ¬ Reads raw key v) ∧ FirstUsed rest key value := by
  constructor
  · intro h
    obtain ⟨before, used, after, hlines, hreads, hbefore⟩ := h
    cases before with
    | nil =>
      cases hlines
      exact .inl hreads
    | cons first before =>
      cases hlines
      obtain ⟨hfirst, hbefore⟩ := List.forall_mem_cons.mp hbefore
      exact .inr ⟨hfirst, before, used, after, rfl, hreads, hbefore⟩
  · intro h
    rcases h with hreads | ⟨hnot, before, used, after, rfl, hreads, hbefore⟩
    · exact ⟨[], raw, rest, rfl, hreads, List.forall_mem_nil _⟩
    · exact ⟨raw :: before, used, after, rfl, hreads, List.forall_mem_cons.mpr ⟨hnot, hbefore⟩⟩

theorem not_firstUsed_nil (key value : Line) : ¬ FirstUsed [] key value := by
  intro h
  obtain ⟨before, raw, after, hlines, -⟩ := h
  cases before with
  | nil => cases hlines
  | cons first before => cases hlines

/-- The key and the value of an entry are those of the line. -/
theorem Specified.reads_iff {raw : Line} (hs : Specified raw) {e : Entry}
    (he : e.text = prepared raw) {key value : Line} :
    Reads raw key value ↔ key = e.key ∧ value = e.value := by
  constructor
  · intro h
    obtain ⟨e', he', rfl, rfl⟩ := h
    have hsame := (hs.2 e' he').symm.trans (hs.2 e he)
    exact Prod.mk.inj (Except.ok.inj (Option.some.inj hsame))
  · intro h
    obtain ⟨rfl, rfl⟩ := h
    exact ⟨e, he, rfl, rfl⟩

theorem Specified.readLine_of_entry {raw : Line} (hs : Specified raw) {e : Entry}
    (he : e.text = prepared raw) (dict : Dict) :
    readLine dict raw =
      some (.ok (if e.key.length ≤ 0 then dict else insert dict e.key e.value)) := by
  have hcheck : checkLine (trim (deleteComment raw)) = true := hs.1.mpr ⟨e, he⟩
  have hsplit : split (trim (deleteComment raw)) = some (.ok (e.key, e.value)) := hs.2 e he
  rw [readLine]
  dsimp only
  rw [if_pos hcheck, hsplit]
  rfl

theorem Specified.readLine_of_not {raw : Line} (hs : Specified raw)
    (hnone : ¬ ∃ e : Entry, e.text = prepared raw) (dict : Dict) :
    readLine dict raw = some (.ok dict) := by
  have hcheck : ¬ checkLine (trim (deleteComment raw)) = true := fun h => hnone (hs.1.mp h)
  rw [readLine]
  exact if_neg hcheck

/-- A line that says nothing of the keys. -/
theorem KeepsFirst.cons_of_not {raw : Line} {rest : List Line} {dict dict' : Dict}
    (h : KeepsFirst rest dict dict') (hnot : ∀ key, key ≠ [] → ∀ v, ¬ Reads raw key v) :
    KeepsFirst (raw :: rest) dict dict' where
  old := h.old
  first key hkey hlookup value := by
    rw [h.first key hkey hlookup, firstUsed_cons, or_iff_right (hnot key hkey value),
      and_iff_right (hnot key hkey)]
  empty := h.empty

/-- A line that says something of one key. -/
theorem KeepsFirst.cons_of_entry {raw : Line} {rest : List Line} {dict dict' : Dict}
    (hs : Specified raw) {e : Entry} (he : e.text = prepared raw) (hkey : e.key ≠ [])
    (h : KeepsFirst rest (insert dict e.key e.value) dict') :
    KeepsFirst (raw :: rest) dict dict' where
  old key value hlookup := h.old key value (lookup_insert_of_some hlookup _ _)
  first key hne hlookup value := by
    rw [firstUsed_cons, hs.reads_iff he]
    by_cases hsame : key = e.key
    · rw [hsame] at hlookup
      have hvalue := h.old key e.value (by rw [hsame]; exact lookup_insert_self hlookup _)
      rw [hvalue, Option.some.injEq, and_iff_right hsame]
      constructor
      · intro heq
        exact .inl heq.symm
      · intro hgiven
        rcases hgiven with heq | ⟨hnot, -⟩
        · exact heq.symm
        · exact absurd ((hs.reads_iff he).mpr ⟨hsame, rfl⟩) (hnot e.value)
    · have hnot : ∀ v, ¬ Reads raw key v := fun v hv => hsame ((hs.reads_iff he).mp hv).1
      rw [h.first key hne (by rwa [lookup_insert_of_ne dict hsame]),
        or_iff_right fun hreads => hsame hreads.1, and_iff_right hnot]
  empty hlookup := h.empty (by rwa [lookup_insert_of_ne dict (Ne.symm hkey)])

theorem readLines_of_specified {lines : List Line} (hlines : ∀ raw ∈ lines, Specified raw)
    (dict : Dict) :
    ∃ dict', readLines lines dict = some (.ok dict') ∧ KeepsFirst lines dict dict' := by
  induction lines generalizing dict with
  | nil =>
    refine ⟨dict, rfl, fun _ _ h => h, fun key _ hlookup value => ?_, id⟩
    rw [hlookup]
    exact iff_of_false (Option.some_ne_none value ∘ Eq.symm) (not_firstUsed_nil key value)
  | cons raw rest ih =>
    obtain ⟨hs, hrest⟩ := List.forall_mem_cons.mp hlines
    rw [readLines]
    by_cases hentry : ∃ e : Entry, e.text = prepared raw
    · obtain ⟨e, he⟩ := hentry
      rw [hs.readLine_of_entry he, Option.bind_some]
      by_cases hkey : e.key = []
      · obtain ⟨dict', hread, hkeeps⟩ := ih hrest dict
        rw [if_pos (by rw [hkey, List.length_nil])]
        exact ⟨dict', hread, hkeeps.cons_of_not fun key hne v hv =>
          hne (((hs.reads_iff he).mp hv).1.trans hkey)⟩
      · obtain ⟨dict', hread, hkeeps⟩ := ih hrest (insert dict e.key e.value)
        rw [if_neg (by rw [not_le]; exact List.length_pos_of_ne_nil hkey)]
        exact ⟨dict', hread, hkeeps.cons_of_entry hs he hkey⟩
    · obtain ⟨dict', hread, hkeeps⟩ := ih hrest dict
      rw [hs.readLine_of_not hentry, Option.bind_some]
      exact ⟨dict', hread, hkeeps.cons_of_not fun key _ v ⟨e, he, _⟩ => hentry ⟨e, he⟩⟩

theorem fileSpecified_iff (lines : List Line) :
    FileSpecified lines ↔ ∀ raw ∈ lines, Consistent raw := by
  constructor
  · intro h raw hraw
    exact (specified_iff_consistent raw).mp (h.1 raw hraw)
  · intro h
    have hlines : ∀ raw ∈ lines, Specified raw := by
      intro raw hraw
      exact (specified_iff_consistent raw).mpr (h raw hraw)
    refine ⟨hlines, fun dict => ?_⟩
    obtain ⟨dict', hread, hkeeps⟩ := readLines_of_specified hlines dict
    exact ⟨dict', by rw [readFile, hread]; rfl, hkeeps⟩

/-- **Which configuration files are read right.** Those of whose entries the first `=` is the one
outside of quotes, and the first quoted section has no quote of the other kind. -/
theorem config_lines_iff (raw : Line) (lines : List Line) :
    (Specified raw ↔ Consistent raw) ∧
    ((prepared raw).length < 2 ^ 31 →
      (Specified raw ↔ ∀ e : Entry, e.text = prepared raw → e.Simple)) ∧
    (FileSpecified lines ↔ ∀ line ∈ lines, Consistent line) := by
  refine ⟨specified_iff_consistent raw, fun hsmall => ?_, fileSpecified_iff lines⟩
  rw [specified_iff_consistent, consistent_iff_of_lt hsmall]

/-- `"a=b" = c`, with the `=` of the key in quotes. -/
def quotedKey : Line :=
  ['\x22', 'a', '=', 'b', '\x22', ' ', '=', ' ', 'c']

/-- `x = "it's"`, with the other quote in the value. -/
def otherQuote : Line :=
  ['x', ' ', '=', ' ', '\x22', 'i', 't', '\x27', 's', '\x22']

def otherQuoteEntry : Entry where
  before := [.plain 'x' rfl, .plain ' ' rfl]
  after := [.plain ' ' rfl, .quoted '\x22' ['i', 't', '\x27', 's'] rfl (by decide)]
  before_ne := List.forall_mem_cons.mpr ⟨rfl, List.forall_mem_singleton.mpr rfl⟩
  after_ne := List.forall_mem_cons.mpr ⟨rfl, List.forall_mem_singleton.mpr rfl⟩

/-- The first line is used and makes `ReadFile` throw, the second is used with `it` for its
value. -/
theorem not_specified_quotes :
    ¬ FileSpecified [quotedKey] ∧ ¬ Specified otherQuote := by
  have hthrows : readFile (some [quotedKey]) [] =
      some (.error (.outOfRange "basic_string::erase")) := by decide +kernel
  have hcut : split (prepared otherQuote) = some (.ok (['x'], ['i', 't'])) := by decide +kernel
  refine ⟨fun h => ?_, fun h => ?_⟩
  · obtain ⟨dict', hread, -⟩ := h.2 []
    rw [hthrows] at hread
    cases hread
  · have hvalue := h.2 otherQuoteEntry (by decide)
    rw [hcut] at hvalue
    cases hvalue

end DrgbServer.Utils.ConfigParser
