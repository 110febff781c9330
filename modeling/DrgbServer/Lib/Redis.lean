import Mathlib.Tactic

/-! # A Redis server, and programs that query it

The server keeps strings and lists under keys and executes one command at a time.
A connection collects the commands between `MULTI` and `EXEC` and executes them at
once, unless a key it watches was changed since. `version` counts the changes of a key.
The expiry of a key is one, as since Redis 6.0.9: a key that a connection watches and that
expires before `EXEC` makes it fail. A value has no time to live here; it may expire at any
moment.

A program sends queries, each a list of command texts, and goes on with the replies.
It runs alone (`Prog.run`) or command by command among other clients (`System`). -/
namespace DrgbServer.Lib.Redis

abbrev Word := List Char

inductive Value where
  | string (word : Word)
  | list (words : List Word)
deriving DecidableEq

structure Db where
  value : Word → Option Value
  version : Word → Nat

inductive Command where
  | del (key : Word)
  | rpush (key : Word) (elements : List Word)
  | pexpire (key : Word) (milliseconds : Nat)
  | setPx (key value : Word) (milliseconds : Nat)
  | get (key : Word)
  | lrange (key : Word) (start stop : Nat)
  | watch (key : Word)
  | multi
  | exec
  /-- any other text -/
  | unknown
deriving DecidableEq

inductive Reply where
  | nil
  | status
  | error
  | integer (n : Int)
  | string (word : Word)
  | array (elements : List Reply)

namespace Reply

/-- The fields of `redisReply`, with what they hold for the other kinds. -/
def str : Reply → Word
  | .string word => word
  | _ => []

def toInt : Reply → Int
  | .integer n => n
  | _ => 0

def elements : Reply → List Reply
  | .array elements => elements
  | _ => []

def isArray : Reply → Bool
  | .array _ => true
  | _ => false

def isString : Reply → Bool
  | .string _ => true
  | _ => false

end Reply

/-! ## Command texts -/

/-- The rest of a text cut at its spaces, with the word read so far. -/
def wordsFrom (word : Word) : Word → List Word
  | [] => if word = [] then [] else [word]
  | c :: rest =>
    if c = ' ' then if word = [] then wordsFrom [] rest else word :: wordsFrom [] rest
    else wordsFrom (word ++ [c]) rest

def number (word : Word) : Option Nat :=
  if word ≠ [] ∧ word.all Char.isDigit then some (Nat.ofDigitChars 10 word 0) else none

def parsePexpire : List Word → Option Command
  | [key, ms] => (number ms).map (.pexpire key)
  | _ => none

def parseSet : List Word → Option Command
  | [key, value, px, ms] => if px = "PX".toList then (number ms).map (.setPx key value) else none
  | _ => none

def parseLrange : List Word → Option Command
  | [key, start, stop] => (number start).bind fun i => (number stop).map (.lrange key i)
  | _ => none

def parseRpush : List Word → Option Command
  | key :: element :: elements => some (.rpush key (element :: elements))
  | _ => none

def parseKey (command : Word → Command) : List Word → Option Command
  | [key] => some (command key)
  | _ => none

def parseArguments (name : Word) (arguments : List Word) : Option Command :=
  if name = "MULTI".toList then some .multi
  else if name = "EXEC".toList then some .exec
  else if name = "DEL".toList then parseKey .del arguments
  else if name = "GET".toList then parseKey .get arguments
  else if name = "WATCH".toList then parseKey .watch arguments
  else if name = "RPUSH".toList then parseRpush arguments
  else if name = "PEXPIRE".toList then parsePexpire arguments
  else if name = "SET".toList then parseSet arguments
  else if name = "LRANGE".toList then parseLrange arguments
  else none

/-- The command a text stands for. -/
def command (text : Word) : Command :=
  match wordsFrom [] text with
  | [] => .unknown
  | name :: arguments => (parseArguments name arguments).getD .unknown

/-! ## The store -/

namespace Db

def empty : Db := ⟨fun _ => none, fun _ => 0⟩

/-- A change of the key: its watchers are told. -/
def put (db : Db) (key : Word) (value : Option Value) : Db where
  value := Function.update db.value key value
  version := Function.update db.version key (db.version key + 1)

/-- The keys whose time has come. -/
def expire (db : Db) (keys : List Word) : Db := keys.foldl (fun db key => db.put key none) db

/-- A command of a transaction, or one outside of any. -/
def apply (db : Db) : Command → Reply × Db
  | .del key => match db.value key with
    | none => (.integer 0, db)
    | some _ => (.integer 1, db.put key none)
  | .rpush key elements => match db.value key with
    | none => (.integer elements.length, db.put key (some (.list elements)))
    | some (.list words) =>
      (.integer (words ++ elements).length, db.put key (some (.list (words ++ elements))))
    | some (.string _) => (.error, db)
  | .pexpire key ms => match db.value key with
    | none => (.integer 0, db)
    | some value => (.integer 1, db.put key (if ms = 0 then none else some value))
  | .setPx key word ms =>
    if ms = 0 then (.error, db) else (.status, db.put key (some (.string word)))
  | .get key => match db.value key with
    | none => (.nil, db)
    | some (.string word) => (.string word, db)
    | some (.list _) => (.error, db)
  | .lrange key start stop => match db.value key with
    | none => (.array [], db)
    | some (.list words) => (.array (((words.take (stop + 1)).drop start).map .string), db)
    | some (.string _) => (.error, db)
  | .watch _ | .multi | .exec | .unknown => (.error, db)

def applyAll (db : Db) : List Command → List Reply × Db
  | [] => ([], db)
  | c :: rest =>
    let (reply, db) := db.apply c
    let (replies, db) := db.applyAll rest
    (reply :: replies, db)

end Db

/-! ## Connections -/

structure Conn where
  isOpen : Bool
  /-- the watched keys, with their versions at the `WATCH` -/
  watched : List (Word × Nat)
  /-- the commands since `MULTI` -/
  queued : Option (List Command)
deriving DecidableEq

namespace Conn

/-- A connection without transaction. -/
def idle : Conn := ⟨true, [], none⟩

/-- No watched key was changed. -/
def clean (conn : Conn) (db : Db) : Bool :=
  conn.watched.all fun p => decide (db.version p.1 = p.2)

def exec (conn : Conn) (db : Db) : Reply × Conn × Db :=
  match conn.queued with
  | none => (.error, conn, db)
  | some block =>
    let ended : Conn := ⟨conn.isOpen, [], none⟩
    if conn.clean db then
      let (replies, db) := db.applyAll block
      (.array replies, ended, db)
    else (.nil, ended, db)

/-- One command of the connection. -/
def dispatch (conn : Conn) (db : Db) (c : Command) : Reply × Conn × Db :=
  match c, conn.queued with
  | .exec, _ => conn.exec db
  | .multi, none => (.status, { conn with queued := some [] }, db)
  | .multi, some _ => (.error, conn, db)
  | .watch key, none =>
    (.status, { conn with watched := (key, db.version key) :: conn.watched }, db)
  | .watch _, some _ => (.error, conn, db)
  | .unknown, _ => (.error, conn, db)
  | c, some block => (.status, { conn with queued := some (block ++ [c]) }, db)
  | c, none =>
    let (reply, db) := db.apply c
    (reply, conn, db)

/-- The commands of one query, without anything in between. -/
def dispatchAll (conn : Conn) (db : Db) : List Command → List Reply × Conn × Db
  | [] => ([], conn, db)
  | c :: rest =>
    let (reply, conn, db) := conn.dispatch db c
    let (replies, conn, db) := conn.dispatchAll db rest
    (reply :: replies, conn, db)

end Conn

/-! ## Programs -/

inductive Prog (α : Type) where
  | ret (a : α)
  | isOpen (k : Bool → Prog α)
  | query (queries : List Word) (k : List Reply → Prog α)

/-- The program alone at the server. A query on a closed connection has no replies. -/
def Prog.run {α : Type} : Prog α → Conn → Db → α × Conn × Db
  | .ret a, conn, db => (a, conn, db)
  | .isOpen k, conn, db => (k conn.isOpen).run conn db
  | .query queries k, conn, db =>
    if conn.isOpen then
      let (replies, conn, db) := conn.dispatchAll db (queries.map command)
      (k replies).run conn db
    else (k []).run conn db

theorem Conn.dispatchAll_append {conn conn' conn'' : Conn} {db db' db'' : Db}
    {cs ds : List Command} {rs rs' : List Reply} (h : conn.dispatchAll db cs = (rs, conn', db'))
    (h' : conn'.dispatchAll db' ds = (rs', conn'', db'')) :
    conn.dispatchAll db (cs ++ ds) = (rs ++ rs', conn'', db'') := by
  induction cs generalizing conn db rs with
  | nil =>
    cases h
    exact h'
  | cons c rest ih =>
    rw [Conn.dispatchAll] at h
    rcases hc : conn.dispatch db c with ⟨r, conn₁, db₁⟩
    rcases hrest : conn₁.dispatchAll db₁ rest with ⟨rs₁, conn₂, db₂⟩
    simp only [hc, hrest, Prod.mk.injEq] at h
    obtain ⟨rfl, rfl, rfl⟩ := h
    simp only [List.cons_append, Conn.dispatchAll, hc, ih hrest]

theorem Prog.run_isOpen {α : Type} (k : Bool → Prog α) (conn : Conn) (db : Db) :
    (Prog.isOpen k).run conn db = (k conn.isOpen).run conn db := rfl

/-- A query, by what its commands do. -/
theorem Prog.run_query {α : Type} {queries : List Word} {k : List Reply → Prog α}
    {conn conn' : Conn} {db db' : Db} {replies : List Reply} (hopen : conn.isOpen = true)
    (h : conn.dispatchAll db (queries.map command) = (replies, conn', db')) :
    (Prog.query queries k).run conn db = (k replies).run conn' db' := by
  rw [Prog.run, if_pos hopen, h]

/-! ## Reading texts -/

/-- A text that is one argument of a command. -/
def IsWord (w : Word) : Prop := w ≠ [] ∧ ' ' ∉ w

instance (w : Word) : Decidable (IsWord w) := inferInstanceAs (Decidable (_ ∧ _))

theorem IsWord.append {v w : Word} (hv : IsWord v) (hw : ' ' ∉ w) : IsWord (v ++ w) := by
  refine ⟨fun h => hv.1 (List.append_eq_nil_iff.mp h).1, fun h => ?_⟩
  rcases List.mem_append.mp h with h | h
  · exact hv.2 h
  · exact hw h

/-- Characters other than spaces go into the word. -/
theorem wordsFrom_append {w : Word} (h : ' ' ∉ w) (word rest : Word) :
    wordsFrom word (w ++ rest) = wordsFrom (word ++ w) rest := by
  induction w generalizing word with
  | nil => simp
  | cons c w ih =>
    have hc : c ≠ ' ' := fun hc => h (hc ▸ List.mem_cons_self)
    rw [List.cons_append, wordsFrom, if_neg hc, ih fun hm => h (List.mem_cons_of_mem c hm)]
    simp

/-- A space ends the word. -/
theorem wordsFrom_cons {w : Word} (h : IsWord w) (rest : Word) :
    wordsFrom [] (w ++ ' ' :: rest) = w :: wordsFrom [] rest := by
  rw [wordsFrom_append h.2, List.nil_append, wordsFrom, if_pos rfl, if_neg h.1]

theorem wordsFrom_last {w : Word} (h : IsWord w) : wordsFrom [] w = [w] := by
  have happ := wordsFrom_append h.2 [] []
  rw [List.append_nil, List.nil_append] at happ
  rw [happ, wordsFrom, if_neg h.1]

/-- A space cuts the text wherever it stands. -/
theorem wordsFrom_append_space (word w rest : Word) :
    wordsFrom word (w ++ ' ' :: rest) = wordsFrom word w ++ wordsFrom [] rest := by
  induction w generalizing word with
  | nil =>
    simp only [List.nil_append, wordsFrom, if_true]
    split <;> rfl
  | cons c w ih =>
    simp only [List.cons_append, wordsFrom]
    split
    · split
      · exact ih []
      · rw [ih, List.cons_append]
    · exact ih _

theorem command_of_words {text name : Word} {arguments : List Word}
    (h : wordsFrom [] text = name :: arguments) :
    command text = (parseArguments name arguments).getD .unknown := by rw [command, h]

section Texts
variable {key v w ms : Word}

/-- A command with a key as its only argument. -/
theorem command_one {n : Word} (hn : IsWord n) (hk : IsWord key) :
    command (n ++ ' ' :: key) = (parseArguments n [key]).getD .unknown := by
  apply command_of_words
  rw [wordsFrom_cons hn, wordsFrom_last hk]

theorem command_del (hk : IsWord key) : command ("DEL ".toList ++ key) = .del key :=
  command_one (n := "DEL".toList) (by decide) hk

theorem command_get (hk : IsWord key) : command ("GET ".toList ++ key) = .get key :=
  command_one (n := "GET".toList) (by decide) hk

theorem command_watch (hk : IsWord key) : command ("WATCH ".toList ++ key) = .watch key :=
  command_one (n := "WATCH".toList) (by decide) hk

theorem command_rpush (hk : IsWord key) (hv : IsWord v) (hw : IsWord w) :
    command ("RPUSH ".toList ++ key ++ " ".toList ++ v ++ " ".toList ++ w) =
      .rpush key [v, w] := by
  have htext : "RPUSH ".toList ++ key ++ " ".toList ++ v ++ " ".toList ++ w =
      "RPUSH".toList ++ ' ' :: (key ++ ' ' :: (v ++ ' ' :: w)) := by simp
  have hwords : wordsFrom [] ("RPUSH".toList ++ ' ' :: (key ++ ' ' :: (v ++ ' ' :: w))) =
      ["RPUSH".toList, key, v, w] := by
    rw [wordsFrom_cons (by decide), wordsFrom_cons hk, wordsFrom_cons hv, wordsFrom_last hw]
  rw [htext, command_of_words hwords]
  rfl

theorem command_pexpire (hk : IsWord key) (hms : IsWord ms) {n : Nat} (hn : number ms = some n) :
    command ("PEXPIRE ".toList ++ key ++ " ".toList ++ ms) = .pexpire key n := by
  have htext : "PEXPIRE ".toList ++ key ++ " ".toList ++ ms =
      "PEXPIRE".toList ++ ' ' :: (key ++ ' ' :: ms) := by simp
  have hwords : wordsFrom [] ("PEXPIRE".toList ++ ' ' :: (key ++ ' ' :: ms)) =
      ["PEXPIRE".toList, key, ms] := by
    rw [wordsFrom_cons (by decide), wordsFrom_cons hk, wordsFrom_last hms]
  rw [htext, command_of_words hwords]
  show ((number ms).map (Command.pexpire key)).getD .unknown = _
  rw [hn]
  rfl

theorem command_setPx (hk : IsWord key) (hv : IsWord v) (hms : IsWord ms) {n : Nat}
    (hn : number ms = some n) :
    command ("SET ".toList ++ key ++ " ".toList ++ v ++ " PX ".toList ++ ms) = .setPx key v n := by
  have htext : "SET ".toList ++ key ++ " ".toList ++ v ++ " PX ".toList ++ ms =
      "SET".toList ++ ' ' :: (key ++ ' ' :: (v ++ ' ' :: ("PX".toList ++ ' ' :: ms))) := by simp
  have hwords : wordsFrom [] ("SET".toList ++ ' ' :: (key ++ ' ' :: (v ++ ' ' ::
      ("PX".toList ++ ' ' :: ms)))) = ["SET".toList, key, v, "PX".toList, ms] := by
    rw [wordsFrom_cons (by decide), wordsFrom_cons hk, wordsFrom_cons hv,
      wordsFrom_cons (by decide), wordsFrom_last hms]
  rw [htext, command_of_words hwords]
  show ((number ms).map (Command.setPx key v)).getD .unknown = _
  rw [hn]
  rfl

/-- Whatever its key argument is, `PEXPIRE` with a time is nothing else. -/
theorem command_pexpire_cases (w : Word) (hms : IsWord ms) {n : Nat} (hn : number ms = some n) :
    (∃ k, command ("PEXPIRE ".toList ++ w ++ " ".toList ++ ms) = .pexpire k n) ∨
      command ("PEXPIRE ".toList ++ w ++ " ".toList ++ ms) = .unknown := by
  have htext : "PEXPIRE ".toList ++ w ++ " ".toList ++ ms =
      "PEXPIRE".toList ++ ' ' :: (w ++ ' ' :: ms) := by simp
  have hwords : wordsFrom [] ("PEXPIRE".toList ++ ' ' :: (w ++ ' ' :: ms)) =
      "PEXPIRE".toList :: (wordsFrom [] w ++ [ms]) := by
    rw [wordsFrom_cons (by decide), wordsFrom_append_space, wordsFrom_last hms]
  rw [htext, command_of_words hwords]
  show (∃ k, (parsePexpire (wordsFrom [] w ++ [ms])).getD .unknown = _) ∨
    (parsePexpire (wordsFrom [] w ++ [ms])).getD .unknown = _
  rcases wordsFrom [] w with _ | ⟨k, _ | ⟨_, _⟩⟩
  · exact .inr rfl
  · refine .inl ⟨k, ?_⟩
    simp [parsePexpire, hn]
  · refine .inr ?_
    simp [parsePexpire]

theorem command_lrange_cases (w : Word) :
    (∃ k i j, command ("LRANGE ".toList ++ w) = .lrange k i j) ∨
      command ("LRANGE ".toList ++ w) = .unknown := by
  have hwords : wordsFrom [] ("LRANGE".toList ++ ' ' :: w) = "LRANGE".toList :: wordsFrom [] w :=
    wordsFrom_cons (by decide) w
  have hc : command ("LRANGE ".toList ++ w) = (parseLrange (wordsFrom [] w)).getD .unknown :=
    command_of_words hwords
  rw [hc]
  unfold parseLrange
  split
  · rename_i k start stop _
    cases number start with
    | none => exact .inr rfl
    | some i =>
      cases number stop with
      | none => exact .inr rfl
      | some j => exact .inl ⟨k, i, j, rfl⟩
  · exact .inr rfl

/-- The first two elements of a list. -/
theorem command_lrange (hk : IsWord key) :
    command ("LRANGE ".toList ++ key ++ " 0 1".toList) = .lrange key 0 1 := by
  have htext : "LRANGE ".toList ++ key ++ " 0 1".toList =
      "LRANGE".toList ++ ' ' :: (key ++ ' ' :: ("0".toList ++ ' ' :: "1".toList)) := by simp
  have hwords : wordsFrom [] ("LRANGE".toList ++ ' ' ::
      (key ++ ' ' :: ("0".toList ++ ' ' :: "1".toList))) =
      ["LRANGE".toList, key, "0".toList, "1".toList] := by
    rw [wordsFrom_cons (by decide), wordsFrom_cons hk, wordsFrom_cons (by decide),
      wordsFrom_last (by decide)]
  rw [htext, command_of_words hwords]
  rfl

end Texts

/-! ## Versions -/

namespace Db
variable {db db' db'' : Db}

/-- What a server can do to a store: a value changes with its version only, and versions
only grow. -/
structure Evolves (db db' : Db) : Prop where
  grows : ∀ key, db.version key ≤ db'.version key
  value : ∀ key, db'.version key = db.version key → db'.value key = db.value key

theorem Evolves.refl (db : Db) : Evolves db db := ⟨fun _ => le_rfl, fun _ _ => rfl⟩

theorem Evolves.trans (h : Evolves db db') (h' : Evolves db' db'') : Evolves db db'' := by
  refine ⟨fun key => (h.grows key).trans (h'.grows key), fun key hv => ?_⟩
  have hfirst := h.grows key
  have hsecond := h'.grows key
  rw [h'.value key (by omega), h.value key (by omega)]

/-- As long as the version stands the key holds the value. -/
def Holds (db : Db) (key : Word) (value : Value) (version : Nat) : Prop :=
  version ≤ db.version key ∧ (db.version key = version → db.value key = some value)

theorem holds_now {db : Db} {key : Word} {value : Value} (h : db.value key = some value) :
    db.Holds key value (db.version key) := ⟨le_rfl, fun _ => h⟩

theorem Holds.evolves {key : Word} {value : Value} {version : Nat}
    (h : db.Holds key value version) (he : Evolves db db') : db'.Holds key value version := by
  have hgrows := he.grows key
  refine ⟨h.1.trans hgrows, fun hv => ?_⟩
  have hle := h.1
  rw [he.value key (by omega)]
  exact h.2 (by omega)

theorem evolves_put (db : Db) (key : Word) (value : Option Value) :
    Evolves db (db.put key value) := by
  constructor
  · intro k
    by_cases hk : k = key
    · subst hk
      simp [put]
    · simp [put, hk]
  · intro k hv
    by_cases hk : k = key
    · subst hk
      simp [put] at hv
    · simp [put, hk]

theorem evolves_expire (db : Db) (keys : List Word) : Evolves db (db.expire keys) := by
  induction keys generalizing db with
  | nil => exact .refl db
  | cons key rest ih => exact (evolves_put db key none).trans (ih _)

theorem evolves_apply (db : Db) (c : Command) : Evolves db (db.apply c).2 := by
  cases c <;> simp only [apply]
  case del | rpush | pexpire | get | lrange =>
    split <;> first | exact .refl db | exact evolves_put db _ _
  case setPx =>
    split
    · exact .refl db
    · exact evolves_put db _ _
  all_goals exact .refl db

theorem evolves_applyAll (db : Db) (block : List Command) : Evolves db (db.applyAll block).2 := by
  induction block generalizing db with
  | nil => exact .refl db
  | cons c rest ih => exact (evolves_apply db c).trans (ih _)

/-! ## What the commands do to the values -/

theorem put_value (db : Db) (key k : Word) (value : Option Value) :
    (db.put key value).value k = if k = key then value else db.value k := by
  simp [put, Function.update_apply]

theorem expire_value (db : Db) (keys : List Word) (k : Word) :
    (db.expire keys).value k = if k ∈ keys then none else db.value k := by
  induction keys generalizing db with
  | nil => simp [expire]
  | cons key rest ih =>
    rw [expire, List.foldl_cons, ← expire, ih, put_value]
    by_cases hk : k = key <;> simp [hk]

theorem del_value (db : Db) (key k : Word) :
    (db.apply (.del key)).2.value k = if k = key then none else db.value k := by
  cases h : db.value key with
  | none =>
    simp only [apply, h]
    split
    · rename_i hk
      rw [hk, h]
    · rfl
  | some value => simp only [apply, h, put_value]

theorem del_reply {db : Db} {key : Word} {v : Value} (h : db.value key = some v) :
    (db.apply (.del key)).1 = .integer 1 := by simp only [apply, h]

theorem pexpire_reply {db : Db} {key : Word} {v : Value} (h : db.value key = some v) (ms : Nat) :
    (db.apply (.pexpire key ms)).1 = .integer 1 := by simp only [apply, h]

theorem applyAll_pair (db : Db) (c d : Command) : db.applyAll [c, d] =
    ([(db.apply c).1, ((db.apply c).2.apply d).1], ((db.apply c).2.apply d).2) := rfl

theorem rpush_value {db : Db} {key : Word} (h : db.value key = none) (elements : List Word)
    (k : Word) : (db.apply (.rpush key elements)).2.value k =
      if k = key then some (.list elements) else db.value k := by
  simp only [apply, h, put_value]

theorem setPx_value {ms : Nat} (h : ms ≠ 0) (db : Db) (key word k : Word) :
    (db.apply (.setPx key word ms)).2.value k =
      if k = key then some (.string word) else db.value k := by
  simp only [apply, if_neg h, put_value]

end Db

/-- A command that changes no value. -/
def Command.harmless : Command → Bool
  | .del _ | .rpush _ _ | .setPx _ _ _ => false
  | .pexpire _ ms => decide (ms ≠ 0)
  | .get _ | .lrange _ _ _ | .watch _ | .multi | .exec | .unknown => true

namespace Db

theorem apply_harmless {c : Command} (h : c.harmless = true) (db : Db) :
    (db.apply c).2.value = db.value := by
  cases c with
  | del key => cases h
  | rpush key elements => cases h
  | setPx key value ms => cases h
  | pexpire key ms =>
    have hms : ms ≠ 0 := of_decide_eq_true h
    cases hv : db.value key with
    | none => simp only [apply, hv]
    | some value =>
      funext k
      simp only [apply, hv, put_value, if_neg hms]
      split
      · rename_i hk
        rw [hk, hv]
      · rfl
  | get key => simp only [apply]; split <;> rfl
  | lrange key start stop => simp only [apply]; split <;> rfl
  | watch key => rfl
  | multi => rfl
  | exec => rfl
  | unknown => rfl

theorem applyAll_harmless {block : List Command} (h : ∀ c ∈ block, c.harmless = true) (db : Db) :
    (db.applyAll block).2.value = db.value := by
  induction block generalizing db with
  | nil => rfl
  | cons c rest ih =>
    show ((db.apply c).2.applyAll rest).2.value = db.value
    rw [ih fun c hc => h c (List.mem_cons_of_mem _ hc), apply_harmless (h c List.mem_cons_self)]

end Db

end DrgbServer.Lib.Redis
