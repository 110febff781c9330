import DrgbServer.Utils.MyTypes
import Mathlib.Data.List.DropRight

/-! # Lines of a configuration file

`check_line` decides whether a line is used and `split` takes it apart. The first follows
the quotes; the second looks for the first `=` and for the first two quotes of either kind. -/
namespace DrgbServer.Utils.ConfigParser

abbrev Line := List Char

/-! ## The source -/

def trimmer : List Char := [' ', '\t', '\n', '\r', '\x0c', '\x0b']

def isBlank (c : Char) : Bool := trimmer.contains c

def trim (src : Line) : Line := (src.rdropWhile isBlank).dropWhile isBlank

def deleteComment (src : Line) : Line := src.takeWhile fun c => c ≠ '#'

/-- The double and the single quote. -/
def isQuote (c : Char) : Bool := c = '\x22' || c = '\x27'

/-- The loop of `check_line`: `quotes` and `num_of_equal` where it ends. -/
def checkLoop : Line → Char → Nat → Char × Nat
  | [], quotes, equals => (quotes, equals)
  | c :: rest, quotes, equals =>
    if equals < 2 then
      if quotes ≠ '\x00' then checkLoop rest (if quotes = c then '\x00' else quotes) equals
      else if isQuote c then checkLoop rest c equals
      else if c = '=' then checkLoop rest quotes (equals + 1)
      else checkLoop rest quotes equals
    else (quotes, equals)

/-- `check_line`; it counts to an `int`. -/
def checkLine (line : Line) : Bool :=
  checkLoop (line.take (toInt line.length).toNat) '\x00' 0 = ('\x00', 1)

/-- `erase(pos)` -/
def eraseFrom (src : Line) (pos : Int) : Except Exn Line :=
  if 0 ≤ pos ∧ pos ≤ src.length then .ok (src.take pos.toNat)
  else .error (.outOfRange "basic_string::erase")

/-- The quoted section of `end` in `split`. -/
def unquote (src : Line) : Except Exn Line :=
  if src.any isQuote then
    let inner := (src.dropWhile fun c => !isQuote c).drop 1
    if inner.any isQuote then .ok (inner.takeWhile fun c => !isQuote c)
    else .error (.outOfRange "basic_string::erase")
  else .ok src

def split (src : Line) : Option (Except Exn (Line × Line)) :=
  let equal : Int := match src.findIdx? (· = '=') with
    | some pos => toInt pos
    | none => -1
  -- `npos` as an `int`
  if equal = -1 then some (.ok ([], src))
  else match eraseFrom src equal with
    | .error e => some (.error e)
    | .ok front => (int (equal + 1)).map fun count =>
      (unquote (trim (src.drop count.toNat))).map fun value => (trim front, value)

/-- `dict` -/
abbrev Dict := List (Line × Line)

/-- `dict.insert` keeps an entry that there is. -/
def insert (dict : Dict) (key value : Line) : Dict :=
  if (dict.lookup key).isSome then dict else (key, value) :: dict

/-- The body of the loop of `ReadFile`. -/
def readLine (dict : Dict) (line : Line) : Option (Except Exn Dict) :=
  let line := trim (deleteComment line)
  if checkLine line then
    (split line).map fun result => result.map fun (key, value) =>
      if key.length ≤ 0 then dict else insert dict key value
  else some (.ok dict)

def readLines : List Line → Dict → Option (Except Exn Dict)
  | [], dict => some (.ok dict)
  | line :: rest, dict => (readLine dict line).bind fun
    | .error e => some (.error e)
    | .ok dict' => readLines rest dict'

/-- `ReadFile` of the lines of a file, or of one that cannot be opened. -/
def readFile (file : Option (List Line)) (dict : Dict) : Option (Except Exn (Bool × Dict)) :=
  match file with
  | none => some (.ok (false, dict))
  | some lines => (readLines lines dict).map fun result => result.map (true, ·)

/-! ## What a line says -/

/-- A character outside of quotes, or a section that is closed by the quote it was opened with. -/
inductive Token
  | plain (c : Char) (h : isQuote c = false)
  | quoted (quote : Char) (body : Line) (h : isQuote quote = true) (hbody : quote ∉ body)

def Token.text : Token → Line
  | .plain c _ => [c]
  | .quoted quote body _ _ => quote :: body ++ [quote]

def Token.isEqual : Token → Bool
  | .plain c _ => c = '='
  | .quoted .. => false

def texts (tokens : List Token) : Line := tokens.flatMap Token.text

/-- The first quoted section, without its quotes. -/
def firstBody : List Token → Option Line
  | [] => none
  | .plain .. :: rest => firstBody rest
  | .quoted _ body _ _ :: _ => some body

/-- A line with one `=` outside of quotes and all quotes closed. -/
structure Entry where
  before : List Token
  after : List Token
  before_ne : ∀ t ∈ before, t.isEqual = false
  after_ne : ∀ t ∈ after, t.isEqual = false

namespace Entry

def text (e : Entry) : Line := texts e.before ++ '=' :: texts e.after

def key (e : Entry) : Line := trim (texts e.before)

def value (e : Entry) : Line :=
  match firstBody e.after with
  | some body => body
  | none => trim (texts e.after)

end Entry

/-! ## Which lines are used -/

theorem ne_nul_of_isQuote {c : Char} (h : isQuote c = true) : c ≠ '\x00' := by
  rintro rfl
  exact absurd h (by decide)

/-- To the end of a quoted section. -/
theorem checkLoop_body {quote : Char} (hquote : isQuote quote = true) {equals : Nat}
    (hequals : equals < 2) {body : Line} (hbody : quote ∉ body) (rest : Line) :
    checkLoop (body ++ quote :: rest) quote equals = checkLoop rest '\x00' equals := by
  have hopen := ne_nul_of_isQuote hquote
  induction body with
  | nil => rw [List.nil_append, checkLoop, if_pos hequals, if_pos hopen, if_pos rfl]
  | cons c body ih =>
    have hc : quote ≠ c := fun h => hbody (h ▸ List.mem_cons_self)
    rw [List.cons_append, checkLoop, if_pos hequals, if_pos hopen, if_neg hc,
      ih fun h => hbody (List.mem_cons_of_mem c h)]

theorem checkLoop_token {t : Token} (ht : t.isEqual = false) {equals : Nat}
    (hequals : equals < 2) (rest : Line) :
    checkLoop (t.text ++ rest) '\x00' equals = checkLoop rest '\x00' equals := by
  cases t with
  | plain c h =>
    have hc : c ≠ '=' := of_decide_eq_false ht
    rw [Token.text, List.singleton_append, checkLoop, if_pos hequals, if_neg (not_not_intro rfl),
      if_neg (by rw [h]; exact Bool.false_ne_true), if_neg hc]
  | quoted quote body h hbody =>
    rw [Token.text, List.cons_append, List.cons_append, checkLoop, if_pos hequals,
      if_neg (not_not_intro rfl), if_pos h, List.append_assoc, List.singleton_append,
      checkLoop_body h hequals hbody]

theorem checkLoop_texts {tokens : List Token} (htokens : ∀ t ∈ tokens, t.isEqual = false)
    {equals : Nat} (hequals : equals < 2) (rest : Line) :
    checkLoop (texts tokens ++ rest) '\x00' equals = checkLoop rest '\x00' equals := by
  induction tokens with
  | nil => rfl
  | cons t tokens ih =>
    obtain ⟨ht, htokens⟩ := List.forall_mem_cons.mp htokens
    rw [texts, List.flatMap_cons, List.append_assoc, checkLoop_token ht hequals]
    exact ih htokens

theorem checkLoop_text (e : Entry) : checkLoop e.text '\x00' 0 = ('\x00', 1) := by
  have hafter := checkLoop_texts e.after_ne (by decide : 1 < 2) []
  rw [List.append_nil] at hafter
  rw [Entry.text, checkLoop_texts e.before_ne (by decide), checkLoop, if_pos (by decide),
    if_neg (not_not_intro rfl), if_neg (by decide), if_pos rfl, hafter]
  rfl

/-- A quote that is closed in the end closes a section. -/
theorem exists_body {quote : Char} (hquote : isQuote quote = true) {equals n : Nat}
    (hequals : equals < 2) {line : Line}
    (h : checkLoop line quote equals = ('\x00', n)) :
    ∃ body rest, line = body ++ quote :: rest ∧ quote ∉ body ∧
      checkLoop rest '\x00' equals = ('\x00', n) := by
  have hopen := ne_nul_of_isQuote hquote
  induction line with
  | nil => exact absurd (Prod.mk.inj h).1 hopen
  | cons c line ih =>
    rw [checkLoop, if_pos hequals, if_pos hopen] at h
    by_cases hc : quote = c
    · rw [if_pos hc] at h
      exact ⟨[], line, by rw [hc, List.nil_append], List.not_mem_nil, h⟩
    · rw [if_neg hc] at h
      obtain ⟨body, rest, rfl, hbody, hrest⟩ := ih h
      exact ⟨c :: body, rest, rfl, List.not_mem_cons_of_ne_of_not_mem hc hbody, hrest⟩

theorem checkLoop_of_two (line : Line) (quotes : Char) :
    checkLoop line quotes 2 = (quotes, 2) := by
  cases line with
  | nil => rfl
  | cons c line => exact if_neg (lt_irrefl 2)

/-- The first piece of a line outside of quotes, and what the loop does with the rest. -/
theorem checkLoop_cases {c : Char} {line : Line} {equals n : Nat} (hequals : equals < 2)
    (h : checkLoop (c :: line) '\x00' equals = ('\x00', n)) :
    (∃ t : Token, ∃ rest, t.isEqual = false ∧ c :: line = t.text ++ rest ∧
      rest.length < (c :: line).length ∧ checkLoop rest '\x00' equals = ('\x00', n)) ∨
    c = '=' ∧ checkLoop line '\x00' (equals + 1) = ('\x00', n) := by
  rw [checkLoop, if_pos hequals, if_neg (not_not_intro rfl)] at h
  cases hc : isQuote c with
  | true =>
    rw [if_pos hc] at h
    obtain ⟨body, rest, rfl, hbody, hrest⟩ := exists_body hc hequals h
    refine .inl ⟨.quoted c body hc hbody, rest, rfl, ?_, ?_, hrest⟩
    · rw [Token.text, List.cons_append, List.cons_append, List.append_assoc,
        List.singleton_append]
    · simp only [List.length_cons, List.length_append]
      omega
  | false =>
    rw [if_neg (by rw [hc]; exact Bool.false_ne_true)] at h
    by_cases hequal : c = '='
    · rw [if_pos hequal] at h
      exact .inr ⟨hequal, h⟩
    · rw [if_neg hequal] at h
      exact .inl ⟨.plain c hc, line, decide_eq_false hequal, rfl, Nat.lt_succ_self _, h⟩

/-- After the `=`: pieces without another one. -/
theorem exists_after {line : Line} (h : checkLoop line '\x00' 1 = ('\x00', 1)) :
    ∃ after : List Token, (∀ t ∈ after, t.isEqual = false) ∧ texts after = line := by
  induction hlen : line.length using Nat.strong_induction_on generalizing line with
  | _ n ih =>
    subst hlen
    cases line with
    | nil => exact ⟨[], List.forall_mem_nil _, rfl⟩
    | cons c line =>
      rcases checkLoop_cases (by decide) h with ⟨t, rest, ht, hline, hlt, hrest⟩ | ⟨-, htwo⟩
      · obtain ⟨after, hafter, htexts⟩ := ih _ hlt hrest rfl
        refine ⟨t :: after, List.forall_mem_cons.mpr ⟨ht, hafter⟩, ?_⟩
        rw [hline, ← htexts, texts, List.flatMap_cons]
        rfl
      · rw [checkLoop_of_two] at htwo
        cases htwo

theorem exists_entry {line : Line} (h : checkLoop line '\x00' 0 = ('\x00', 1)) :
    ∃ e : Entry, e.text = line := by
  induction hlen : line.length using Nat.strong_induction_on generalizing line with
  | _ n ih =>
    subst hlen
    cases line with
    | nil => cases h
    | cons c line =>
      rcases checkLoop_cases (by decide) h with ⟨t, rest, ht, hline, hlt, hrest⟩ | ⟨rfl, hone⟩
      · obtain ⟨e, he⟩ := ih _ hlt hrest rfl
        refine ⟨⟨t :: e.before, e.after, List.forall_mem_cons.mpr ⟨ht, e.before_ne⟩, e.after_ne⟩,
          ?_⟩
        rw [hline, ← he, Entry.text, Entry.text, texts, List.flatMap_cons, List.append_assoc]
        rfl
      · obtain ⟨after, hafter, htexts⟩ := exists_after hone
        exact ⟨⟨[], after, List.forall_mem_nil _, hafter⟩, by rw [Entry.text, htexts]; rfl⟩

/-- `check_line` tells what is an entry from what is none, as far as it counts. -/
theorem checkLine_iff (line : Line) :
    checkLine line = true ↔ ∃ e : Entry, e.text = line.take (toInt line.length).toNat := by
  rw [checkLine, decide_eq_true_eq]
  constructor
  · exact exists_entry
  · intro h
    obtain ⟨e, he⟩ := h
    rw [← he]
    exact checkLoop_text e

/-! ## Blanks -/

theorem dropWhile_append_of_not {p : Char → Bool} {c : Char} (hc : ¬ p c = true)
    (front rest : Line) :
    (front ++ c :: rest).dropWhile p = front.dropWhile p ++ c :: rest := by
  induction front with
  | nil => rw [List.nil_append, List.dropWhile_cons_of_neg hc, List.dropWhile_nil, List.nil_append]
  | cons x front ih =>
    rw [List.cons_append, List.dropWhile_cons, List.dropWhile_cons]
    split_ifs
    · exact ih
    · rfl

theorem rdropWhile_append_of_not {p : Char → Bool} {c : Char} (hc : ¬ p c = true)
    (front rest : Line) :
    (front ++ c :: rest).rdropWhile p = front ++ c :: rest.rdropWhile p := by
  rw [List.rdropWhile, List.rdropWhile, List.reverse_append, List.reverse_cons, List.append_assoc,
    List.singleton_append, dropWhile_append_of_not hc, List.reverse_append, List.reverse_cons,
    List.reverse_reverse, List.append_assoc, List.singleton_append]

/-- Nothing but blanks is trimmed. -/
theorem filter_trim (src : Line) :
    (trim src).filter (fun c => !isBlank c) = src.filter fun c => !isBlank c := by
  have hdrop : ∀ l : Line, (l.dropWhile isBlank).filter (fun c => !isBlank c) =
      l.filter fun c => !isBlank c := by
    intro l
    induction l with
    | nil => rfl
    | cons c l ih =>
      rw [List.dropWhile_cons]
      split_ifs with hc
      · rw [ih, List.filter_cons_of_neg (by simp [hc])]
      · rfl
  rw [trim, hdrop, List.rdropWhile, List.filter_reverse, hdrop, List.filter_reverse,
    List.reverse_reverse]

theorem mem_of_mem_trim {src : Line} {c : Char} (h : c ∈ trim src) : c ∈ src := by
  have hright := (List.dropWhile_sublist _).subset h
  rw [List.rdropWhile, List.mem_reverse] at hright
  exact List.mem_reverse.mp ((List.dropWhile_sublist _).subset hright)

theorem mem_trim {src : Line} {c : Char} (hc : isBlank c = false) : c ∈ trim src ↔ c ∈ src := by
  have hmem : ∀ l : Line, c ∈ l.filter (fun c => !isBlank c) ↔ c ∈ l := by
    intro l
    rw [List.mem_filter, hc]
    exact and_iff_left rfl
  rw [← hmem (trim src), filter_trim, hmem]

/-- Blanks at the end do not count. -/
theorem trim_append_of_blank {front rest : Line} (h : ∀ c ∈ rest, isBlank c = true) :
    trim (front ++ rest) = trim front := by
  rw [trim, trim, List.rdropWhile, List.rdropWhile, List.reverse_append,
    List.dropWhile_append_of_pos fun c hc => h c (List.mem_reverse.mp hc)]

/-- What is between two characters that are not blank stays. -/
theorem trim_between {a b : Char} (ha : isBlank a = false) (hb : isBlank b = false)
    (front middle rest : Line) :
    trim (front ++ a :: (middle ++ b :: rest)) =
      front.dropWhile isBlank ++ a :: (middle ++ b :: rest.rdropWhile isBlank) := by
  have hleft : ¬ isBlank a = true := Bool.eq_false_iff.mp ha
  have hright := rdropWhile_append_of_not (Bool.eq_false_iff.mp hb) (front ++ a :: middle) rest
  rw [List.append_assoc, List.cons_append] at hright
  rw [trim, hright, List.append_assoc, List.cons_append, dropWhile_append_of_not hleft]

/-! ## Quotes -/

theorem isBlank_of_isQuote {c : Char} (h : isQuote c = true) : isBlank c = false := by
  rw [isQuote, Bool.or_eq_true, decide_eq_true_eq, decide_eq_true_eq] at h
  rcases h with rfl | rfl
  · rfl
  · rfl

/-- Without a quoted section there is no quote. -/
theorem not_isQuote_of_firstBody {tokens : List Token} (h : firstBody tokens = none) :
    ∀ c ∈ texts tokens, isQuote c = false := by
  induction tokens with
  | nil => exact List.forall_mem_nil _
  | cons t tokens ih =>
    cases t with
    | plain c hc => exact List.forall_mem_cons.mpr ⟨hc, ih h⟩
    | quoted quote body hquote hbody => cases h

/-- The first quoted section stands behind characters without a quote. -/
theorem exists_of_firstBody {tokens : List Token} {body : Line}
    (h : firstBody tokens = some body) :
    ∃ front quote rest, texts tokens = front ++ quote :: (body ++ quote :: rest) ∧
      isQuote quote = true ∧ ∀ c ∈ front, isQuote c = false := by
  induction tokens with
  | nil => cases h
  | cons t tokens ih =>
    cases t with
    | plain c hc =>
      obtain ⟨front, quote, rest, htexts, hquote, hfront⟩ := ih h
      refine ⟨c :: front, quote, rest, ?_, hquote, List.forall_mem_cons.mpr ⟨hc, hfront⟩⟩
      rw [texts, List.flatMap_cons, List.cons_append, ← htexts]
      rfl
    | quoted quote b hquote hbody =>
      cases h
      refine ⟨[], quote, texts tokens, ?_, hquote, List.forall_mem_nil _⟩
      rw [texts, List.flatMap_cons, Token.text, List.append_assoc, List.cons_append,
        List.singleton_append]
      rfl

theorem takeWhile_append_of_stop {p : Char → Bool} {c : Char} (hc : p c = false)
    (front rest : Line) :
    (front ++ c :: rest).takeWhile p = front.takeWhile p := by
  induction front with
  | nil => exact List.takeWhile_cons_of_neg (Bool.eq_false_iff.mp hc)
  | cons x front ih =>
    rw [List.cons_append, List.takeWhile_cons, List.takeWhile_cons, ih]

theorem unquote_of_not {src : Line} (h : ∀ c ∈ src, isQuote c = false) :
    unquote src = .ok src := by
  rw [unquote, if_neg]
  intro hany
  obtain ⟨c, hc, hquote⟩ := List.any_eq_true.mp hany
  rw [h c hc] at hquote
  cases hquote

/-- Between the first two quotes. -/
theorem unquote_section {front body rest : Line} {quote : Char}
    (hfront : ∀ c ∈ front, isQuote c = false) (hquote : isQuote quote = true) :
    unquote (front ++ quote :: (body ++ quote :: rest)) =
      .ok (body.takeWhile fun c => !isQuote c) := by
  have hopen : (front ++ quote :: (body ++ quote :: rest)).any isQuote = true :=
    List.any_eq_true.mpr ⟨quote, List.mem_append_right _ List.mem_cons_self, hquote⟩
  have hclose : (body ++ quote :: rest).any isQuote = true :=
    List.any_eq_true.mpr ⟨quote, List.mem_append_right _ List.mem_cons_self, hquote⟩
  have hdrop : (front ++ quote :: (body ++ quote :: rest)).dropWhile (fun c => !isQuote c) =
      quote :: (body ++ quote :: rest) := by
    rw [List.dropWhile_append_of_pos (fun c hc => by rw [hfront c hc]; rfl),
      List.dropWhile_cons_of_neg (by rw [hquote]; exact Bool.false_ne_true)]
  rw [unquote, if_pos hopen, hdrop]
  dsimp only
  rw [List.drop_one, List.tail_cons, if_pos hclose, takeWhile_append_of_stop (by rw [hquote]; rfl)]

/-- What `split` makes of the text behind the `=`, with characters without quotes before it. -/
theorem unquote_of_firstBody {tokens : List Token} {body : Line}
    (h : firstBody tokens = some body) {front : Line} (hfront : ∀ c ∈ front, isQuote c = false) :
    unquote (trim (front ++ texts tokens)) = .ok (body.takeWhile fun c => !isQuote c) := by
  obtain ⟨middle, quote, rest, htexts, hquote, hmiddle⟩ := exists_of_firstBody h
  have hblank := isBlank_of_isQuote hquote
  rw [htexts, ← List.append_assoc, trim_between hblank hblank]
  refine unquote_section (fun c hc => ?_) hquote
  rcases List.mem_append.mp ((List.dropWhile_sublist _).subset hc) with hc | hc
  · exact hfront c hc
  · exact hmiddle c hc

theorem unquote_of_none {tokens : List Token} (h : firstBody tokens = none) {front : Line}
    (hfront : ∀ c ∈ front, isQuote c = false) :
    unquote (trim (front ++ texts tokens)) = .ok (trim (front ++ texts tokens)) := by
  refine unquote_of_not fun c hc => ?_
  rcases List.mem_append.mp (mem_of_mem_trim hc) with hc | hc
  · exact hfront c hc
  · exact not_isQuote_of_firstBody h c hc

end DrgbServer.Utils.ConfigParser
